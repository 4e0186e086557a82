import Mathlib.Data.Rat.Floor

/-!
# ServicesMonitor.CountProcess

The dynamic process count: the changes that the processes of a service ask for, and
the change of the number of processes that they come to.  Numbers are exact rationals;
a division by zero is the exception `badarith`.
-/

namespace CloudI.ServicesMonitor

/-- What stops the services monitor: an exception, or a receive that nothing ends.  The
exceptions that are named are a fetch of a key that is not there and a division by zero. -/
inductive Failure where
  | badkey
  | badarith
  | exception
  | wait
  deriving DecidableEq

/-- The direction of a change. -/
inductive Direction where
  | increase
  | decrease
  deriving DecidableEq

/-- An element of the `changes` of a `#pids_change_input{}`. -/
structure Change where
  direction : Direction
  rateCurrent : ℚ
  rateLimit : ℚ
  countProcessLimit : ℚ
  deriving DecidableEq

/-- `#pids_change{}`. -/
structure PidsChange where
  countProcess : Int
  countIncrease : Nat := 0
  countDecrease : Nat := 0
  increase : ℚ := 0
  decrease : ℚ := 0
  rate : ℚ := 0

/-- `erlang:round/1`: to the nearest integer, halves away from zero. -/
def erlangRound (x : ℚ) : Int := if 0 ≤ x then ⌊x + 1 / 2⌋ else ⌈x - 1 / 2⌉

/-- The clause of `pids_change_loop` without changes. -/
def pidsChangeResult (state : PidsChange) : Except Failure (Int × ℚ) :=
  if state.countIncrease = state.countDecrease then
    if state.countIncrease = 0 then .error .badarith
    else
      let countBoth : ℚ := state.countIncrease + state.countDecrease
      .ok (erlangRound
        (state.increase / state.countIncrease * (state.countIncrease / countBoth) +
          state.decrease / state.countDecrease * (state.countDecrease / countBoth) -
          state.countProcess), state.rate)
  else if state.countIncrease > state.countDecrease then
    .ok (erlangRound (state.increase / state.countIncrease - state.countProcess), state.rate)
  else .ok (erlangRound (state.decrease / state.countDecrease - state.countProcess), state.rate)

/-- `pids_change_loop/2`: the sums of the counts that the changes ask for. -/
def pidsChangeLoop : List Change → PidsChange → Except Failure (Int × ℚ)
  | [], state => pidsChangeResult state
  | change :: changeList, state =>
      match change.direction with
      | .increase =>
          if change.rateCurrent > change.rateLimit then
            if change.countProcessLimit ≤ state.countProcess then
              pidsChangeLoop changeList
                { state with
                  countIncrease := state.countIncrease + 1
                  increase := state.increase + state.countProcess
                  rate := state.rate + change.rateCurrent }
            else if change.rateLimit = 0 then .error .badarith
            else
              let count := ⌈state.countProcess * change.rateCurrent / change.rateLimit⌉
              pidsChangeLoop changeList
                { state with
                  countIncrease := state.countIncrease + 1
                  increase := state.increase + min (count : ℚ) change.countProcessLimit
                  rate := state.rate + change.rateCurrent }
          else .error .exception
      | .decrease =>
          if change.rateCurrent < change.rateLimit then
            if change.countProcessLimit ≥ state.countProcess then
              pidsChangeLoop changeList
                { state with
                  countDecrease := state.countDecrease + 1
                  decrease := state.decrease + state.countProcess
                  rate := state.rate + change.rateCurrent }
            else if change.rateLimit = 0 then .error .badarith
            else
              let count := ⌊state.countProcess * change.rateCurrent / change.rateLimit⌋
              pidsChangeLoop changeList
                { state with
                  countDecrease := state.countDecrease + 1
                  decrease := state.decrease + max (count : ℚ) change.countProcessLimit
                  rate := state.rate + change.rateCurrent }
          else .error .exception

def pidsChange (changeList : List Change) (countProcessCurrent : Int) : Except Failure (Int × ℚ) :=
  pidsChangeLoop changeList { countProcess := countProcessCurrent }

/-- A change as `count_process_dynamic_reinit` sends it: the rate is beyond its limit. -/
def Change.Asked (change : Change) : Prop :=
  match change.direction with
  | .increase => 0 < change.rateLimit ∧ change.rateLimit < change.rateCurrent
  | .decrease => 0 ≤ change.rateCurrent ∧ change.rateCurrent < change.rateLimit

instance (change : Change) : Decidable change.Asked := by
  unfold Change.Asked
  cases change.direction <;> infer_instance

/-! ## no division by zero -/

theorem pidsChangeResult_ok (h : 0 < state.countIncrease + state.countDecrease) :
    ∃ r, pidsChangeResult state = .ok r := by
  rw [pidsChangeResult]
  by_cases heq : state.countIncrease = state.countDecrease
  · rw [if_pos heq, if_neg (by omega)]
    exact ⟨_, rfl⟩
  · rw [if_neg heq]
    by_cases hgt : state.countIncrease > state.countDecrease
    · rw [if_pos hgt]
      exact ⟨_, rfl⟩
    · rw [if_neg hgt]
      exact ⟨_, rfl⟩

theorem pidsChangeLoop_ok (hasked : ∀ change ∈ changeList, change.Asked)
    (h : 0 < changeList.length + state.countIncrease + state.countDecrease) :
    ∃ r, pidsChangeLoop changeList state = .ok r := by
  induction changeList generalizing state with
  | nil =>
    refine pidsChangeResult_ok ?_
    rw [List.length_nil] at h
    omega
  | cons change changeList ih =>
    have ih' : ∀ state' : PidsChange,
        0 < changeList.length + state'.countIncrease + state'.countDecrease →
          ∃ r, pidsChangeLoop changeList state' = .ok r :=
      fun state' h' => ih (fun c hc => hasked c (List.mem_cons_of_mem change hc)) h'
    have hchange := hasked change List.mem_cons_self
    rw [pidsChangeLoop]
    unfold Change.Asked at hchange
    cases hdirection : change.direction with
    | increase =>
      rw [hdirection] at hchange
      have hlimit : change.rateLimit ≠ 0 := ne_of_gt hchange.1
      dsimp only at hchange ⊢
      rw [if_pos hchange.2, if_neg hlimit]
      split
      · exact ih' _ (by dsimp only; omega)
      · exact ih' _ (by dsimp only; omega)
    | decrease =>
      rw [hdirection] at hchange
      have hlimit : change.rateLimit ≠ 0 := ne_of_gt (lt_of_le_of_lt hchange.1 hchange.2)
      dsimp only at hchange ⊢
      rw [if_pos hchange.2, if_neg hlimit]
      split
      · exact ih' _ (by dsimp only; omega)
      · exact ih' _ (by dsimp only; omega)

theorem pidsChange_ok (hasked : ∀ change ∈ changeList, change.Asked) (hne : changeList ≠ [])
    (countProcessCurrent : Int) : ∃ r, pidsChange changeList countProcessCurrent = .ok r := by
  refine pidsChangeLoop_ok hasked ?_
  have := List.length_pos_iff.mpr hne
  omega

/-! ## the change stays within the limits -/

/-- Rounding stays between the integers that the number is between. -/
theorem erlangRound_bounds {x : ℚ} {a b : Int} (ha : (a : ℚ) ≤ x) (hb : x ≤ b) :
    a ≤ erlangRound x ∧ erlangRound x ≤ b := by
  unfold erlangRound
  by_cases hx : 0 ≤ x
  · rw [if_pos hx]
    constructor
    · exact Int.le_floor.mpr (by linarith)
    · have hlt : ⌊x + 1 / 2⌋ < b + 1 := Int.floor_lt.mpr (by push_cast; linarith)
      omega
  · rw [if_neg hx]
    constructor
    · have hlt : a - 1 < ⌈x - 1 / 2⌉ := Int.lt_ceil.mpr (by push_cast; linarith)
      omega
    · exact Int.ceil_le.mpr (by linarith)

/-- The limits of a configuration, with the current count between them. -/
structure Limits where
  countProcessMin : Int
  countProcessMax : Int
  countProcess : Int
  min_pos : 1 ≤ countProcessMin
  min_le : countProcessMin ≤ countProcess
  le_max : countProcess ≤ countProcessMax

namespace Limits

theorem countProcess_pos (limits : Limits) : 0 < limits.countProcess := by
  have hpos := limits.min_pos
  have hle := limits.min_le
  omega

/-- The limit that a process of the service sends with a change. -/
def limit (limits : Limits) : Direction → Int
  | .increase => limits.countProcessMax
  | .decrease => limits.countProcessMin

/-- A change as `count_process_dynamic_reinit` sends it under these limits. -/
def Sends (limits : Limits) (change : Change) : Prop :=
  change.Asked ∧ change.countProcessLimit = limits.limit change.direction

instance (limits : Limits) (change : Change) : Decidable (limits.Sends change) :=
  inferInstanceAs (Decidable (_ ∧ _))

/-- What the sums of `pids_change_loop` stay between: each increase asks for a count from
the current one to the maximum, each decrease for one from the minimum to the current one. -/
structure Between (limits : Limits) (state : PidsChange) : Prop where
  countProcess : state.countProcess = limits.countProcess
  le_increase : (state.countIncrease : ℚ) * limits.countProcess ≤ state.increase
  increase_le : state.increase ≤ (state.countIncrease : ℚ) * limits.countProcessMax
  le_decrease : (state.countDecrease : ℚ) * limits.countProcessMin ≤ state.decrease
  decrease_le : state.decrease ≤ (state.countDecrease : ℚ) * limits.countProcess

variable {limits : Limits} {state : PidsChange}

theorem Between.add_increase (h : Between limits state) (rate : ℚ)
    (hle : (limits.countProcess : ℚ) ≤ count) (hmax : count ≤ limits.countProcessMax) :
    Between limits { state with
        countIncrease := state.countIncrease + 1
        increase := state.increase + count
        rate := state.rate + rate } where
  countProcess := h.countProcess
  le_increase := by
    have hsum := h.le_increase
    push_cast
    linarith
  increase_le := by
    have hsum := h.increase_le
    push_cast
    linarith
  le_decrease := h.le_decrease
  decrease_le := h.decrease_le

theorem Between.add_decrease (h : Between limits state) (rate : ℚ)
    (hmin : (limits.countProcessMin : ℚ) ≤ count) (hle : count ≤ limits.countProcess) :
    Between limits { state with
        countDecrease := state.countDecrease + 1
        decrease := state.decrease + count
        rate := state.rate + rate } where
  countProcess := h.countProcess
  le_increase := h.le_increase
  increase_le := h.increase_le
  le_decrease := by
    have hsum := h.le_decrease
    push_cast
    linarith
  decrease_le := by
    have hsum := h.decrease_le
    push_cast
    linarith

theorem le_ceil_increase (limits : Limits) {rateCurrent rateMax : ℚ} (hpos : 0 < rateMax)
    (hrate : rateMax < rateCurrent) :
    (limits.countProcess : ℚ) ≤ ⌈limits.countProcess * rateCurrent / rateMax⌉ := by
  have hcount : (0 : ℚ) < limits.countProcess := by exact_mod_cast limits.countProcess_pos
  have hle : (limits.countProcess : ℚ) ≤ limits.countProcess * rateCurrent / rateMax := by
    rw [le_div_iff₀ hpos]
    exact mul_le_mul_of_nonneg_left hrate.le hcount.le
  exact hle.trans (Int.le_ceil _)

theorem floor_decrease_le (limits : Limits) {rateCurrent rateMin : ℚ} (hpos : 0 < rateMin)
    (hrate : rateCurrent < rateMin) :
    (⌊limits.countProcess * rateCurrent / rateMin⌋ : ℚ) ≤ limits.countProcess := by
  have hcount : (0 : ℚ) < limits.countProcess := by exact_mod_cast limits.countProcess_pos
  have hle : limits.countProcess * rateCurrent / rateMin ≤ (limits.countProcess : ℚ) := by
    rw [div_le_iff₀ hpos]
    exact mul_le_mul_of_nonneg_left hrate.le hcount.le
  exact (Int.floor_le _).trans hle

end Limits

/-- How many changes ask for a direction. -/
def countOf (direction : Direction) (changeList : List Change) : Nat :=
  changeList.countP fun change => change.direction = direction

/-- The result of the last clause, from the counts and the sums it is given. -/
structure InLimits (limits : Limits) (countIncrease countDecrease : Nat) (change : Int) :
    Prop where
  min_le : limits.countProcessMin ≤ limits.countProcess + change
  le_max : limits.countProcess + change ≤ limits.countProcessMax
  increased : countDecrease < countIncrease → 0 ≤ change
  decreased : countIncrease < countDecrease → change ≤ 0

namespace Limits

variable {limits : Limits} {state : PidsChange}

theorem average_bounds {n : Nat} (hn : 0 < n) {sum a b : ℚ} (ha : (n : ℚ) * a ≤ sum)
    (hb : sum ≤ (n : ℚ) * b) : a ≤ sum / n ∧ sum / n ≤ b := by
  have hpos : (0 : ℚ) < n := by exact_mod_cast hn
  constructor
  · rw [le_div_iff₀ hpos]
    linarith
  · rw [div_le_iff₀ hpos]
    linarith

theorem tie_eq {n : Nat} (hn : 0 < n) (increase decrease : ℚ) :
    increase / n * (n / (n + n)) + decrease / n * (n / (n + n)) =
      (increase / n + decrease / n) / 2 := by
  have hne : (n : ℚ) ≠ 0 := by exact_mod_cast Nat.ne_of_gt hn
  field_simp
  ring

/-- The last clause of `pids_change_loop`: the change that the sums come to. -/
theorem Between.result (h : Between limits state)
    (hpos : 0 < state.countIncrease + state.countDecrease) :
    ∃ change rate, pidsChangeResult state = .ok (change, rate) ∧
      InLimits limits state.countIncrease state.countDecrease change := by
  have hmin : (limits.countProcessMin : ℚ) ≤ limits.countProcess := by
    exact_mod_cast limits.min_le
  have hmax : (limits.countProcess : ℚ) ≤ limits.countProcessMax := by
    exact_mod_cast limits.le_max
  rw [pidsChangeResult, h.countProcess]
  by_cases htie : state.countIncrease = state.countDecrease
  · have hn : 0 < state.countDecrease := by omega
    rw [if_pos htie, if_neg (by omega), htie]
    dsimp only
    rw [tie_eq hn]
    obtain ⟨hlow, hhigh⟩ := average_bounds hn (htie ▸ h.le_increase) (htie ▸ h.increase_le)
    obtain ⟨hlow', hhigh'⟩ := average_bounds hn h.le_decrease h.decrease_le
    have hround := erlangRound_bounds
      (x := (state.increase / state.countDecrease + state.decrease / state.countDecrease) / 2 -
        limits.countProcess)
      (a := limits.countProcessMin - limits.countProcess)
      (b := limits.countProcessMax - limits.countProcess)
      (by push_cast; linarith) (by push_cast; linarith)
    exact ⟨_, _, rfl, by omega, by omega, by omega, by omega⟩
  · rw [if_neg htie]
    by_cases hgt : state.countIncrease > state.countDecrease
    · obtain ⟨hlow, hhigh⟩ := average_bounds (by omega) h.le_increase h.increase_le
      have hround := erlangRound_bounds
        (x := state.increase / state.countIncrease - limits.countProcess) (a := 0)
        (b := limits.countProcessMax - limits.countProcess)
        (by push_cast; linarith) (by push_cast; linarith)
      have hle := limits.min_le
      rw [if_pos hgt]
      exact ⟨_, _, rfl, by omega, by omega, by omega, by omega⟩
    · obtain ⟨hlow, hhigh⟩ := average_bounds (by omega) h.le_decrease h.decrease_le
      have hround := erlangRound_bounds
        (x := state.decrease / state.countDecrease - limits.countProcess)
        (a := limits.countProcessMin - limits.countProcess) (b := 0)
        (by push_cast; linarith) (by push_cast; linarith)
      have hle := limits.le_max
      rw [if_neg hgt]
      exact ⟨_, _, rfl, by omega, by omega, by omega, by omega⟩

/-- One change of `pids_change_loop`: it is counted, and the sums stay between the limits. -/
theorem Between.step (h : Between limits state) {change : Change} (hsent : limits.Sends change) :
    ∃ state', (∀ changeList,
        pidsChangeLoop (change :: changeList) state = pidsChangeLoop changeList state') ∧
      Between limits state' ∧
      state'.countIncrease = countOf .increase [change] + state.countIncrease ∧
      state'.countDecrease = countOf .decrease [change] + state.countDecrease := by
  obtain ⟨hasked, hlimit⟩ := hsent
  have hmin : (limits.countProcessMin : ℚ) ≤ limits.countProcess := by
    exact_mod_cast limits.min_le
  have hmax : (limits.countProcess : ℚ) ≤ limits.countProcessMax := by
    exact_mod_cast limits.le_max
  unfold Change.Asked at hasked
  simp only [pidsChangeLoop]
  cases hdirection : change.direction with
  | increase =>
    rw [hdirection] at hasked hlimit
    obtain ⟨hratePos, hrate⟩ := hasked
    have hceil := le_ceil_increase limits hratePos hrate
    simp only [if_pos hrate, if_neg (ne_of_gt hratePos)]
    by_cases hreached : change.countProcessLimit ≤ state.countProcess
    · simp only [if_pos hreached]
      have hcount : (limits.countProcess : ℚ) = state.countProcess := by rw [h.countProcess]
      exact ⟨_, fun _ => rfl, h.add_increase change.rateCurrent hcount.le (hcount ▸ hmax),
        by simp [countOf, hdirection, Nat.add_comm], by simp [countOf, hdirection]⟩
    · simp only [if_neg hreached]
      rw [h.countProcess, hlimit]
      exact ⟨_, fun _ => by rw [← h.countProcess]; rfl,
        h.add_increase change.rateCurrent (le_min hceil hmax) (min_le_right _ _),
        by simp [countOf, hdirection, Nat.add_comm], by simp [countOf, hdirection]⟩
  | decrease =>
    rw [hdirection] at hasked hlimit
    obtain ⟨hrateNonneg, hrate⟩ := hasked
    have hratePos := lt_of_le_of_lt hrateNonneg hrate
    have hfloor := floor_decrease_le limits hratePos hrate
    simp only [if_pos hrate, if_neg (ne_of_gt hratePos)]
    by_cases hreached : change.countProcessLimit ≥ state.countProcess
    · simp only [if_pos hreached]
      have hcount : (state.countProcess : ℚ) = limits.countProcess := by rw [h.countProcess]
      exact ⟨_, fun _ => rfl, h.add_decrease change.rateCurrent (hcount ▸ hmin) hcount.le,
        by simp [countOf, hdirection], by simp [countOf, hdirection, Nat.add_comm]⟩
    · simp only [if_neg hreached]
      rw [h.countProcess, hlimit]
      exact ⟨_, fun _ => by rw [← h.countProcess]; rfl,
        h.add_decrease change.rateCurrent (le_max_right _ _) (max_le hfloor hmin),
        by simp [countOf, hdirection], by simp [countOf, hdirection, Nat.add_comm]⟩

theorem countOf_cons (direction : Direction) (change : Change) (changeList : List Change) :
    countOf direction (change :: changeList) =
      countOf direction changeList + countOf direction [change] := by
  simp [countOf, List.countP_cons]

/-- `pids_change_loop` over changes that are sent under the limits. -/
theorem Between.loop (h : Between limits state) (hsent : ∀ change ∈ changeList, limits.Sends change)
    (hpos : 0 < changeList.length + state.countIncrease + state.countDecrease) :
    ∃ change rate, pidsChangeLoop changeList state = .ok (change, rate) ∧
      InLimits limits (countOf .increase changeList + state.countIncrease)
        (countOf .decrease changeList + state.countDecrease) change := by
  induction changeList generalizing state with
  | nil =>
    have hresult := h.result (by simpa using hpos)
    simpa [pidsChangeLoop, countOf] using hresult
  | cons change changeList ih =>
    have hrest := fun c hc => hsent c (List.mem_cons_of_mem change hc)
    obtain ⟨state', heq, h', hincrease, hdecrease⟩ := h.step (hsent change List.mem_cons_self)
    have hcounted : 0 < state'.countIncrease + state'.countDecrease := by
      have hone : countOf .increase [change] + countOf .decrease [change] = 1 := by
        cases hdirection : change.direction <;> simp [countOf, hdirection]
      omega
    obtain ⟨D, rate, hresult, hin⟩ := ih h' hrest (by omega)
    refine ⟨D, rate, (heq changeList).trans hresult, ?_⟩
    rw [countOf_cons, countOf_cons .decrease, Nat.add_assoc, Nat.add_assoc, ← hincrease,
      ← hdecrease]
    exact hin

end Limits

/-- **The count stays in bounds**: the change that a list of changes comes to keeps the count of
processes between the limits; it is no decrease when more changes ask for an increase, and no
increase when fewer do. -/
theorem pidsChange_inLimits (limits : Limits) {changeList : List Change} (hne : changeList ≠ [])
    (hsent : ∀ change ∈ changeList, limits.Sends change) :
    ∃ change rate, pidsChange changeList limits.countProcess = .ok (change, rate) ∧
      InLimits limits (countOf .increase changeList) (countOf .decrease changeList) change := by
  have hstart : Limits.Between limits { countProcess := limits.countProcess } :=
    { countProcess := rfl, le_increase := by simp, increase_le := by simp
      le_decrease := by simp, decrease_le := by simp }
  have hpos := List.length_pos_iff.mpr hne
  exact hstart.loop hsent (by omega)

/-- One process too few and two too many, with two to eight processes allowed and four there. -/
theorem pidsChange_inLimits_sample : ∃ change rate, pidsChange
        [⟨.decrease, 20, 40, 2⟩, ⟨.increase, 300, 100, 8⟩, ⟨.decrease, 30, 40, 2⟩] 4 =
          .ok (change, rate) ∧
      InLimits ⟨2, 8, 4, by decide, by decide, by decide⟩ 1 2 change :=
  pidsChange_inLimits ⟨2, 8, 4, by decide, by decide, by decide⟩ (by simp)
    (by simp [Limits.Sends, Change.Asked, Limits.limit]; norm_num)

end CloudI.ServicesMonitor
