import Mathlib.Data.Int.Log
import Mathlib.Data.Rat.Floor
import Mathlib.Tactic.Positivity

/-!
# Library.Double

Double precision numbers as exact rationals.  `nearest` rounds a rational to 53 binary digits,
halves to the even last digit, as the arithmetic of IEEE 754 does; `IsDouble` says that a number
has no more digits than that.  A number from `limit` on is too large, which the user of these
definitions has to check (`InRange`).

The rules are that `nearest` keeps doubles (`IsDouble.nearest_eq`) and the order
(`nearest_mono`), and what a factor next to one does to an integer (`le_nearest_mul`,
`nearest_mul_le`).
-/

namespace CloudI.Double

/-! ## rounding to an integer -/

/-- The nearest integer, halves to the even one. -/
def roundEven (x : ℚ) : ℤ :=
  if x - ⌊x⌋ < 1 / 2 then ⌊x⌋ else if 1 / 2 < x - ⌊x⌋ then ⌊x⌋ + 1 else ⌊x⌋ + ⌊x⌋ % 2

theorem roundEven_error (x : ℚ) : |(roundEven x : ℚ) - x| ≤ 1 / 2 := by
  have hlow := Int.floor_le x
  have hhigh := Int.lt_floor_add_one x
  unfold roundEven
  rw [abs_le]
  by_cases hlt : x - ⌊x⌋ < 1 / 2
  · rw [if_pos hlt]
    constructor <;> linarith
  · rw [if_neg hlt]
    by_cases hgt : 1 / 2 < x - ⌊x⌋
    · rw [if_pos hgt]
      push_cast
      constructor <;> linarith
    · rw [if_neg hgt]
      have hodd0 : (0 : ℚ) ≤ ((⌊x⌋ % 2 : ℤ) : ℚ) := by
        exact_mod_cast (show (0 : ℤ) ≤ ⌊x⌋ % 2 by omega)
      have hodd1 : ((⌊x⌋ % 2 : ℤ) : ℚ) ≤ 1 := by
        exact_mod_cast (show ⌊x⌋ % 2 ≤ 1 by omega)
      rw [Int.cast_add]
      constructor <;> linarith

@[simp] theorem roundEven_intCast (n : ℤ) : roundEven (n : ℚ) = n := by
  simp [roundEven]

variable {x y : ℚ} {k : ℤ}

theorem roundEven_le {n : ℤ} (h : x < n + 1 / 2) : roundEven x ≤ n := by
  have herror := (abs_le.mp (roundEven_error x)).2
  have hlt : (roundEven x : ℚ) < (n + 1 : ℤ) := by
    push_cast
    linarith
  have := Int.cast_lt.mp hlt
  omega

theorem le_roundEven {n : ℤ} (h : (n : ℚ) - 1 / 2 < x) : n ≤ roundEven x := by
  have herror := (abs_le.mp (roundEven_error x)).1
  have hlt : ((n - 1 : ℤ) : ℚ) < roundEven x := by
    push_cast
    linarith
  have := Int.cast_lt.mp hlt
  omega

theorem roundEven_mono (h : x ≤ y) : roundEven x ≤ roundEven y := by
  by_cases hfloor : ⌊x⌋ = ⌊y⌋
  · have hx : x - ⌊x⌋ ≤ y - ⌊y⌋ := by
      rw [hfloor]
      linarith
    unfold roundEven
    rw [hfloor] at hx ⊢
    split_ifs <;> first | omega | linarith
  · have hlt : ⌊x⌋ + 1 ≤ ⌊y⌋ := by
      have := Int.floor_le_floor h
      omega
    have hx := Int.lt_floor_add_one x
    have hy := Int.floor_le y
    have hlt' : ((⌊x⌋ + 1 : ℤ) : ℚ) ≤ ⌊y⌋ := Int.cast_le.mpr hlt
    have hle := roundEven_le (x := x) (n := ⌊x⌋ + 1) (by push_cast; linarith)
    have hge := le_roundEven (x := y) (n := ⌊x⌋ + 1) (by linarith)
    omega

/-! ## rounding to a double -/

/-- The exponent of the smallest positive double. -/
def minExponent : ℤ := -1074

/-- The exponent of the last digit of the doubles around a positive number. -/
def lastExponent (x : ℚ) : ℤ := max (Int.log 2 x - 52) minExponent

/-- The distance of the doubles around a positive number. -/
def ulp (x : ℚ) : ℚ := 2 ^ lastExponent x

/-- The nearest double of a number that is not negative. -/
def nearestAbs (x : ℚ) : ℚ := roundEven (x / ulp x) * ulp x

/-- The nearest double. -/
def nearest (x : ℚ) : ℚ := if x < 0 then -nearestAbs (-x) else nearestAbs x

/-- A number with no more than 53 binary digits, the last of them at `2 ^ minExponent` or before. -/
def IsDouble (x : ℚ) : Prop :=
  ∃ n e : ℤ, x = n * 2 ^ e ∧ |n| ≤ 2 ^ 53 ∧ minExponent ≤ e

/-- Where the doubles end. -/
def limit : ℚ := 2 ^ 1024

/-- A number below the overflow. -/
def InRange (x : ℚ) : Prop := |x| < limit

instance (x : ℚ) : Decidable (InRange x) := inferInstanceAs (Decidable (_ < _))

theorem pow_lt_limit : (2 : ℚ) ^ 53 < limit := pow_lt_pow_right₀ (by norm_num) (by norm_num)

theorem ulp_pos (x : ℚ) : 0 < ulp x := zpow_pos (by norm_num) _

/-- A power of two in front of the last digit. -/
theorem zpow_eq_mul {e : ℤ} (h : e ≤ k) : (2 : ℚ) ^ k = ((2 ^ (k - e).toNat : ℤ) : ℚ) * 2 ^ e := by
  have hk : k = ((k - e).toNat : ℤ) + e := by omega
  conv_lhs => rw [hk, zpow_add₀ (by norm_num), zpow_natCast]
  push_cast
  rfl

/-- A positive number has 53 digits before the last exponent at most. -/
theorem div_ulp_lt : x / ulp x < 2 ^ 53 := by
  have hlog := Int.lt_zpow_succ_log_self (R := ℚ) (b := 2) (by norm_num) x
  have hle : Int.log 2 x + 1 ≤ 53 + lastExponent x := by
    unfold lastExponent
    omega
  rw [div_lt_iff₀ (ulp_pos x), ulp]
  calc x < (2 : ℚ) ^ (Int.log 2 x + 1) := by exact_mod_cast hlog
    _ ≤ (2 : ℚ) ^ (53 + lastExponent x) := zpow_le_zpow_right₀ (by norm_num) hle
    _ = 2 ^ 53 * 2 ^ lastExponent x := by
      rw [zpow_add₀ (by norm_num)]
      norm_num

theorem nearestAbs_nonneg (h : 0 ≤ x) : 0 ≤ nearestAbs x := by
  have hround := le_roundEven (x := x / ulp x) (n := 0)
    (by have := div_nonneg h (ulp_pos x).le; push_cast; linarith)
  exact mul_nonneg (by exact_mod_cast hround) (ulp_pos x).le

theorem isDouble_nearestAbs (h : 0 ≤ x) : IsDouble (nearestAbs x) := by
  refine ⟨roundEven (x / ulp x), lastExponent x, rfl, ?_, by unfold lastExponent; omega⟩
  have hlow := le_roundEven (x := x / ulp x) (n := 0)
    (by have := div_nonneg h (ulp_pos x).le; push_cast; linarith)
  have hlt : x / ulp x < ((2 ^ 53 : ℤ) : ℚ) + 1 / 2 := by
    have := div_ulp_lt (x := x)
    push_cast
    linarith
  have hhigh := roundEven_le hlt
  rw [abs_of_nonneg hlow]
  exact hhigh

theorem IsDouble.neg (h : IsDouble x) : IsDouble (-x) := by
  obtain ⟨n, e, rfl, hn, he⟩ := h
  refine ⟨-n, e, ?_, by rwa [abs_neg], he⟩
  push_cast
  ring

theorem isDouble_nearest (x : ℚ) : IsDouble (nearest x) := by
  unfold nearest
  by_cases hx : x < 0
  · rw [if_pos hx]
    exact (isDouble_nearestAbs (by linarith)).neg
  · rw [if_neg hx]
    exact isDouble_nearestAbs (by linarith)

/-- The doubles from a power of two on are multiples of its last digit. -/
theorem IsDouble.multiple (h : IsDouble x) (hk : (2 : ℚ) ^ k ≤ x) :
    ∃ n : ℤ, x = n * 2 ^ (k - 52) := by
  obtain ⟨n, e, rfl, hn, -⟩ := h
  by_cases he : k - 52 ≤ e
  · refine ⟨n * 2 ^ (e - (k - 52)).toNat, ?_⟩
    rw [zpow_eq_mul he]
    push_cast
    ring
  · have hpos : (0 : ℚ) < 2 ^ e := zpow_pos (by norm_num) _
    have hn' : (n : ℚ) ≤ 2 ^ 53 := by exact_mod_cast (le_abs_self n).trans hn
    have hle : (2 : ℚ) ^ k ≤ 2 ^ (53 + e) := by
      rw [zpow_add₀ (by norm_num)]
      exact hk.trans (by
        have := mul_le_mul_of_nonneg_right hn' hpos.le
        norm_num at this ⊢
        exact this)
    have hke : k = 53 + e := by
      have := (zpow_le_zpow_iff_right₀ (by norm_num : (1 : ℚ) < 2)).mp hle
      omega
    have heq : (n : ℚ) * 2 ^ e = 2 ^ k := by
      refine le_antisymm ?_ hk
      rw [hke, zpow_add₀ (by norm_num)]
      have := mul_le_mul_of_nonneg_right hn' hpos.le
      norm_num at this ⊢
      exact this
    refine ⟨2 ^ 52, ?_⟩
    rw [heq, zpow_eq_mul (show k - 52 ≤ k by omega)]
    have : (k - (k - 52)).toNat = 52 := by omega
    rw [this]

/-- A positive double is a multiple of the last digit of the doubles around it. -/
theorem IsDouble.multiple_ulp (h : IsDouble x) (hpos : 0 < x) : ∃ n : ℤ, x = n * ulp x := by
  by_cases hlast : minExponent ≤ Int.log 2 x - 52
  · have hlog := Int.zpow_log_le_self (R := ℚ) (b := 2) (by norm_num) hpos
    obtain ⟨n, hn⟩ := h.multiple (k := Int.log 2 x) (by exact_mod_cast hlog)
    have hexp : lastExponent x = Int.log 2 x - 52 := max_eq_left hlast
    exact ⟨n, by rw [ulp, hexp]; exact hn⟩
  · obtain ⟨n, e, heq, -, he⟩ := h
    have hexp : lastExponent x = minExponent := max_eq_right (by omega)
    refine ⟨n * 2 ^ (e - minExponent).toNat, ?_⟩
    rw [ulp, hexp, heq, zpow_eq_mul he]
    push_cast
    ring

theorem IsDouble.nearestAbs_eq (h : IsDouble x) (hnonneg : 0 ≤ x) : nearestAbs x = x := by
  rcases hnonneg.eq_or_lt with rfl | hpos
  · simp [nearestAbs, roundEven]
  · obtain ⟨n, hn⟩ := h.multiple_ulp hpos
    have hdiv : x / ulp x = n := by
      rw [div_eq_iff (ne_of_gt (ulp_pos x))]
      exact hn
    rw [nearestAbs, hdiv, roundEven_intCast]
    exact hn.symm

theorem IsDouble.nearest_eq (h : IsDouble x) : nearest x = x := by
  unfold nearest
  by_cases hx : x < 0
  · rw [if_pos hx, h.neg.nearestAbs_eq (by linarith), neg_neg]
  · rw [if_neg hx, h.nearestAbs_eq (by linarith)]

/-! ## the order -/

theorem nearestAbs_mono (hx : 0 ≤ x) (h : x ≤ y) : nearestAbs x ≤ nearestAbs y := by
  rcases hx.eq_or_lt with rfl | hpos
  · rw [IsDouble.nearestAbs_eq ⟨0, 0, by simp, by simp, by simp [minExponent]⟩ le_rfl]
    exact nearestAbs_nonneg h
  · have hlogs : Int.log 2 x ≤ Int.log 2 y := Int.log_mono_right hpos h
    by_cases hsame : lastExponent x = lastExponent y
    · have hulp : ulp x = ulp y := by rw [ulp, ulp, hsame]
      have hround := roundEven_mono ((div_le_div_iff_of_pos_right (ulp_pos x)).mpr h)
      rw [nearestAbs, nearestAbs, ← hulp]
      exact mul_le_mul_of_nonneg_right (Int.cast_le.mpr hround) (ulp_pos x).le
    · -- the numbers have a power of two between them, which both round to or past
      have hlast : lastExponent y = Int.log 2 y - 52 := by
        unfold lastExponent at hsame ⊢
        omega
      have hlt : lastExponent x + 53 ≤ Int.log 2 y := by
        unfold lastExponent at hsame ⊢
        omega
      have hlow : nearestAbs x ≤ 2 ^ (lastExponent x + 53) := by
        have hlt : x / ulp x < ((2 ^ 53 : ℤ) : ℚ) + 1 / 2 := by
          have := div_ulp_lt (x := x)
          push_cast
          linarith
        have hround : (roundEven (x / ulp x) : ℚ) ≤ ((2 ^ 53 : ℤ) : ℚ) :=
          Int.cast_le.mpr (roundEven_le hlt)
        rw [zpow_add₀ (by norm_num), mul_comm]
        have hmul := mul_le_mul_of_nonneg_right hround (ulp_pos x).le
        rw [nearestAbs]
        push_cast at hmul
        exact hmul
      have hhigh : (2 : ℚ) ^ Int.log 2 y ≤ nearestAbs y := by
        have hlog := Int.zpow_log_le_self (R := ℚ) (b := 2) (by norm_num) (hpos.trans_le h)
        have hle : ((2 ^ 52 : ℤ) : ℚ) ≤ y / ulp y := by
          rw [le_div_iff₀ (ulp_pos y), ulp, hlast, zpow_sub₀ (by norm_num)]
          push_cast at hlog ⊢
          linarith
        have hround : ((2 ^ 52 : ℤ) : ℚ) ≤ roundEven (y / ulp y) :=
          Int.cast_le.mpr (le_roundEven (by linarith))
        have hmul := mul_le_mul_of_nonneg_right hround (ulp_pos y).le
        rw [nearestAbs]
        refine le_trans (le_of_eq ?_) hmul
        rw [ulp, hlast, zpow_sub₀ (by norm_num)]
        push_cast
        ring
      exact hlow.trans ((zpow_le_zpow_right₀ (by norm_num) hlt).trans hhigh)

/-- **Rounding keeps the order.** -/
theorem nearest_mono (h : x ≤ y) : nearest x ≤ nearest y := by
  unfold nearest
  by_cases hx : x < 0
  · rw [if_pos hx]
    by_cases hy : y < 0
    · rw [if_pos hy]
      exact neg_le_neg (nearestAbs_mono (by linarith) (by linarith))
    · rw [if_neg hy]
      have hneg := nearestAbs_nonneg (x := -x) (by linarith)
      have hpos := nearestAbs_nonneg (x := y) (by linarith)
      linarith
  · rw [if_neg hx, if_neg (by linarith)]
    exact nearestAbs_mono (by linarith) h

theorem IsDouble.le_nearest (hx : IsDouble x) (h : x ≤ y) : x ≤ nearest y :=
  hx.nearest_eq.symm.le.trans (nearest_mono h)

theorem IsDouble.nearest_le (hy : IsDouble y) (h : x ≤ y) : nearest x ≤ y :=
  (nearest_mono h).trans hy.nearest_eq.le

/-- Every integer up to `2 ^ 53` is a double. -/
theorem isDouble_intCast {n : ℤ} (h : |n| ≤ 2 ^ 53) : IsDouble n :=
  ⟨n, 0, by simp, h, by decide⟩

theorem isDouble_zero : IsDouble 0 := by
  simpa using isDouble_intCast (n := 0) (by norm_num)

/-! ## a factor next to one -/

section Factor

variable {f : ℚ} {n : ℕ}

/-- The digits of a double around an integer `n` from one on: the power of two below it. -/
structure Around (n : ℕ) (k : ℕ) : Prop where
  le : (2 : ℚ) ^ k ≤ n
  lt : (n : ℚ) < 2 ^ (k + 1)

theorem exists_around (h : 1 ≤ n) : ∃ k, Around n k :=
  ⟨Nat.log 2 n, by exact_mod_cast Nat.pow_log_le_self 2 (by omega),
    by exact_mod_cast Nat.lt_pow_succ_log_self (by norm_num) n⟩

/-- The distance of the doubles from `2 ^ k` to `2 ^ (k + 1)`. -/
def step (k : ℕ) : ℚ := 2 ^ ((k : ℤ) - 52)

theorem step_pos (k : ℕ) : 0 < step k := zpow_pos (by norm_num) _

theorem pow_eq_step (k : ℕ) : (2 : ℚ) ^ k = 2 ^ 52 * step k := by
  rw [step, zpow_sub₀ (by norm_num), zpow_natCast]
  norm_num
  ring

theorem pow_succ_eq_step (k : ℕ) : (2 : ℚ) ^ (k + 1) = 2 ^ 53 * step k := by
  rw [pow_succ, pow_eq_step]
  ring

variable {m : ℤ} {k : ℕ} {x : ℚ}

theorem isDouble_step (h : |m| ≤ 2 ^ 53) (k : ℕ) : IsDouble (m * step k) :=
  ⟨m, (k : ℤ) - 52, rfl, h, by unfold minExponent; omega⟩

/-- Between `2 ^ k` and `2 ^ (k + 1)` the doubles are `step k` apart. -/
theorem ulp_eq_step (hle : (2 : ℚ) ^ k ≤ x) (hlt : x < 2 ^ (k + 1)) : ulp x = step k := by
  have hpos : 0 < x := lt_of_lt_of_le (by positivity) hle
  have hlog : Int.log 2 x = k := by
    have hlow : (k : ℤ) ≤ Int.log 2 x :=
      (Int.zpow_le_iff_le_log (by norm_num) hpos).mp (by push_cast; rwa [zpow_natCast])
    have hhigh : Int.log 2 x < (k : ℤ) + 1 :=
      (Int.lt_zpow_iff_log_lt (by norm_num) hpos).mp (by push_cast; exact_mod_cast hlt)
    omega
  rw [ulp, step, lastExponent, hlog, max_eq_left (by unfold minExponent; omega)]

/-- A number between two doubles that is nearer to the lower one rounds to it or below. -/
theorem nearest_le_of_lt_half (hm : (2 : ℚ) ^ 52 ≤ m) (hm' : m < 2 ^ 53)
    (h : x < m * step k + step k / 2) : nearest x ≤ m * step k := by
  have hstep := step_pos k
  have hmdouble : IsDouble (m * step k) := by
    have hm0 : (0 : ℤ) ≤ m := by
      have : (0 : ℚ) ≤ m := by linarith
      exact_mod_cast this
    exact isDouble_step (by rw [abs_of_nonneg hm0]; omega) k
  by_cases hle : x ≤ m * step k
  · exact hmdouble.nearest_le hle
  · have hm1 : (m : ℚ) + 1 ≤ 2 ^ 53 := by exact_mod_cast hm'
    have hlow : (2 : ℚ) ^ k ≤ x := by
      rw [pow_eq_step]
      have := mul_le_mul_of_nonneg_right hm hstep.le
      linarith
    have hhigh : x < 2 ^ (k + 1) := by
      rw [pow_succ_eq_step]
      have := mul_le_mul_of_nonneg_right hm1 hstep.le
      linarith
    have hpos : 0 < x := lt_of_lt_of_le (by positivity) hlow
    have hround : roundEven (x / step k) ≤ m := by
      refine roundEven_le ?_
      rw [div_lt_iff₀ hstep]
      linarith
    rw [nearest, if_neg (by linarith), nearestAbs, ulp_eq_step hlow hhigh]
    exact mul_le_mul_of_nonneg_right (Int.cast_le.mpr hround) hstep.le

/-- The nearest double of an integer is a multiple of the step there, half a step away at most. -/
theorem Around.nearest (h : Around n k) :
    ∃ m : ℤ, Double.nearest n = m * step k ∧ (2 : ℚ) ^ 52 ≤ m ∧ m ≤ 2 ^ 53 ∧
      |(m : ℚ) * step k - n| ≤ step k / 2 := by
  have hstep := step_pos k
  have hulp := ulp_eq_step h.le h.lt
  have hn : (0 : ℚ) ≤ n := by positivity
  refine ⟨roundEven (n / step k), ?_, ?_, ?_, ?_⟩
  · rw [Double.nearest, if_neg (by linarith), nearestAbs, hulp]
  · have hle : ((2 ^ 52 : ℤ) : ℚ) ≤ n / step k := by
      rw [le_div_iff₀ hstep]
      have := h.le
      rw [pow_eq_step] at this
      push_cast
      exact this
    have := Int.cast_le (R := ℚ).mpr (le_roundEven (x := n / step k) (n := 2 ^ 52) (by linarith))
    push_cast at this
    exact this
  · refine roundEven_le ?_
    have hlt : (n : ℚ) / step k < 2 ^ 53 := by
      rw [div_lt_iff₀ hstep, ← pow_succ_eq_step]
      exact h.lt
    push_cast
    linarith
  · have herror := roundEven_error (n / step k)
    have heq : (roundEven (n / step k) : ℚ) * step k - n =
        ((roundEven (n / step k) : ℚ) - n / step k) * step k := by
      field_simp
    rw [heq, abs_mul, abs_of_pos hstep]
    have := mul_le_mul_of_nonneg_right herror hstep.le
    linarith

/-- A factor above one makes up for the rounding of an integer. -/
theorem le_nearest_mul_of_one_lt (hf : IsDouble f) (hone : 1 < f) (hn : 1 ≤ n) :
    (n : ℚ) ≤ nearest (f * nearest n) := by
  obtain ⟨k, hk⟩ := exists_around hn
  obtain ⟨m, heq, hm, hm', herror⟩ := hk.nearest
  have hstep := step_pos k
  have hdouble : IsDouble (nearest n) := isDouble_nearest n
  have hnpos : 0 < nearest n := by
    rw [heq]
    exact mul_pos (by linarith) hstep
  by_cases hle : (n : ℚ) ≤ nearest n
  · exact hle.trans (hdouble.le_nearest (by nlinarith))
  · -- the next double above is beyond the integer, and the product is there at least
    obtain ⟨p, hp⟩ := hf.multiple (k := 0) (by simpa using hone.le)
    have hp1 : (2 : ℚ) ^ 52 + 1 ≤ p := by
      have hlt : ((2 ^ 52 : ℤ) : ℚ) < p := by
        rw [hp] at hone
        norm_num at hone ⊢
        linarith
      have hint : (2 ^ 52 : ℤ) + 1 ≤ p := Int.cast_lt.mp hlt
      exact_mod_cast hint
    have hf1 : 1 + 1 / 2 ^ 52 ≤ f := by
      rw [hp]
      norm_num at hp1 ⊢
      linarith
    have hltm : (m : ℚ) < 2 ^ 53 := by
      have hlt := hk.lt
      rw [pow_succ_eq_step] at hlt
      rw [heq] at hle
      exact lt_of_mul_lt_mul_right (by linarith) hstep.le
    have hmlt : m + 1 ≤ 2 ^ 53 := by exact_mod_cast hltm
    have hnext : IsDouble ((m + 1 : ℤ) * step k) := by
      have hm0 : (0 : ℤ) ≤ m + 1 := by
        have : (0 : ℚ) ≤ (m : ℚ) + 1 := by linarith
        exact_mod_cast this
      exact isDouble_step (by rw [abs_of_nonneg hm0]; exact hmlt) k
    have hprod : ((m + 1 : ℤ) : ℚ) * step k ≤ f * nearest n := by
      have hmul := mul_le_mul_of_nonneg_right hf1 hnpos.le
      have hbig : step k ≤ 1 / 2 ^ 52 * (m * step k) := by
        have := mul_le_mul_of_nonneg_right hm hstep.le
        norm_num at this ⊢
        linarith
      rw [heq] at hmul ⊢
      push_cast
      linarith
    have hbeyond := (abs_le.mp herror).1
    refine le_trans ?_ (hnext.le_nearest hprod)
    push_cast
    linarith

/-- A factor below one makes up for the rounding of an integer. -/
theorem nearest_mul_le_of_lt_one (hf : IsDouble f) (hpos : 0 < f) (hone : f < 1) (hn : 1 ≤ n) :
    nearest (f * nearest n) ≤ n := by
  obtain ⟨k, hk⟩ := exists_around hn
  obtain ⟨m, heq, hm, hm', herror⟩ := hk.nearest
  have hstep := step_pos k
  have hdouble : IsDouble (nearest n) := isDouble_nearest n
  have hnpos : 0 < nearest n := by
    rw [heq]
    exact mul_pos (by linarith) hstep
  by_cases hle : nearest n ≤ n
  · exact (hdouble.nearest_le (by nlinarith)).trans hle
  · -- the double below is no more than the integer, and the product is nearer to it
    have hf1 : f ≤ 1 - 1 / 2 ^ 53 := by
      by_cases hhalf : f < 1 / 2
      · norm_num
        linarith
      · obtain ⟨p, hp⟩ := hf.multiple (k := -1) (by norm_num at hhalf ⊢; linarith)
        have hp1 : (p : ℚ) ≤ 2 ^ 53 - 1 := by
          have hlt : (p : ℚ) < ((2 ^ 53 : ℤ) : ℚ) := by
            rw [hp] at hone
            norm_num at hone ⊢
            linarith
          have hint : p ≤ (2 ^ 53 : ℤ) - 1 := by
            have := Int.cast_lt.mp hlt
            omega
          exact_mod_cast hint
        rw [hp]
        norm_num at hp1 ⊢
        linarith
    have hltm : (2 : ℚ) ^ 52 < m := by
      have hge := hk.le
      rw [pow_eq_step] at hge
      rw [heq] at hle
      exact lt_of_mul_lt_mul_right (by linarith) hstep.le
    have hm1 : (2 : ℚ) ^ 52 ≤ (m - 1 : ℤ) := by
      have hint : (2 ^ 52 : ℤ) < m := by exact_mod_cast hltm
      have : (2 ^ 52 : ℤ) ≤ m - 1 := by omega
      exact_mod_cast this
    have hprod : f * nearest n < (m - 1 : ℤ) * step k + step k / 2 := by
      have hmul := mul_le_mul_of_nonneg_right hf1 hnpos.le
      have hbig : step k / 2 < 1 / 2 ^ 53 * (m * step k) := by
        have := mul_lt_mul_of_pos_right hltm hstep
        norm_num at this ⊢
        linarith
      rw [heq] at hmul ⊢
      push_cast
      linarith
    have hbelow := (abs_le.mp herror).2
    refine (nearest_le_of_lt_half hm1 (by omega) hprod).trans ?_
    push_cast
    linarith

/-- Up to `2 ^ 53` integers are doubles, and beyond it doubles are integers. -/
theorem exists_nearest_eq_intCast (n : ℕ) : ∃ i : ℤ, nearest n = i := by
  rcases Nat.eq_zero_or_pos n with rfl | hpos
  · exact ⟨0, by simpa using isDouble_zero.nearest_eq⟩
  · obtain ⟨k, hk⟩ := exists_around hpos
    by_cases hsmall : n ≤ 2 ^ 53
    · refine ⟨n, ?_⟩
      have hint : IsDouble ((n : ℤ) : ℚ) :=
        isDouble_intCast (by rw [abs_of_nonneg (by positivity)]; exact_mod_cast hsmall)
      simpa using hint.nearest_eq
    · obtain ⟨m, heq, -⟩ := hk.nearest
      have hk52 : 52 ≤ k := by
        by_contra hlt
        have hpow : (2 : ℚ) ^ (k + 1) ≤ 2 ^ 53 := pow_le_pow_right₀ (by norm_num) (by omega)
        have hn53 : ((2 ^ 53 : ℕ) : ℚ) < n := Nat.cast_lt.mpr (by omega)
        have := hk.lt
        push_cast at hn53
        linarith
      refine ⟨m * 2 ^ (k - 52), ?_⟩
      rw [heq, step, zpow_sub₀ (by norm_num), zpow_natCast]
      have hsplit : (2 : ℚ) ^ k = 2 ^ (k - 52) * 2 ^ 52 := by
        rw [← pow_add]
        congr 1
        omega
      rw [hsplit]
      push_cast
      norm_num

/-- **A factor from one on** keeps the product with an integer at the integer or above it, except
that a factor of one leaves it at the nearest double. -/
theorem le_nearest_mul_iff (hf : IsDouble f) (hone : 1 ≤ f) (hn : 1 ≤ n) :
    (n : ℚ) ≤ nearest (f * nearest n) ↔ (f = 1 → (n : ℚ) ≤ nearest n) := by
  rcases hone.eq_or_lt with rfl | hlt
  · rw [one_mul, (isDouble_nearest n).nearest_eq]
    simp
  · exact iff_of_true (le_nearest_mul_of_one_lt hf hlt hn) fun h => absurd h (ne_of_gt hlt)

/-- **A factor up to one** keeps the product with an integer at the integer or below it, except
that a factor of one leaves it at the nearest double. -/
theorem nearest_mul_le_iff (hf : IsDouble f) (hpos : 0 < f) (hone : f ≤ 1) (hn : 1 ≤ n) :
    nearest (f * nearest n) ≤ n ↔ (f = 1 → nearest n ≤ n) := by
  rcases hone.eq_or_lt with rfl | hlt
  · rw [one_mul, (isDouble_nearest n).nearest_eq]
    simp
  · exact iff_of_true (nearest_mul_le_of_lt_one hf hpos hlt hn) fun h => absurd h (ne_of_lt hlt)

end Factor

end CloudI.Double
