import CloudI.Erlang.Number
import CloudI.RateBased.RestartDelay
import CloudI.ServicesMonitor.CountProcess

/-!
# RateBased.CountProcessDynamic

The option `count_process_dynamic` of `cloudi_core_i_rate_based_configuration`: its validation for
a count of processes, the configuration format of what was accepted, and the changes it asks the
services monitor for.  The count is what `cloudi_concurrency:count/1` makes of the service's.

A term that is none of the option's own, and a value that is no number, are `other`; every clause
refuses them.
-/

namespace CloudI

/-! ## `cloudi_concurrency` -/

namespace Concurrency

/-- `cloudi_concurrency:count/1` with the number of schedulers; `none` is an exception: no clause
or no branch for the count, or a product that is no float. -/
def count (schedulers : Nat) : Number → Option Int
  | .integer i => if 0 < i then some i else none
  | .float f =>
      if 1 < f.value then (f.mulInteger schedulers).map fun g => ⌊g.value⌋
      else if 0 < f.value ∧ f.value < 1 then
        (f.mulInteger schedulers).map fun g => max 1 (ServicesMonitor.erlangRound g.value)
      else if f.value = 1 then some schedulers
      else none

theorem count_pos (hschedulers : 0 < schedulers) (h : count schedulers x = some c) : 0 < c := by
  cases x with
  | integer i =>
    rw [count] at h
    split at h
    · next hpos =>
        cases h
        exact hpos
    · cases h
  | float f =>
    rw [count] at h
    split at h
    · next hone =>
        obtain ⟨g, hg, rfl⟩ := Option.map_eq_some_iff.mp h
        have hfloat := (Double.le_nearest_mul_iff f.isDouble hone.le hschedulers).mpr
          fun heq => absurd heq (ne_of_gt hone)
        have hle : (1 : ℚ) ≤ g.value := by
          rw [ErlFloat.value_of_mulInteger hg]
          refine le_trans ?_ hfloat
          exact_mod_cast hschedulers
        have hfloor := Int.le_floor.mpr (show ((1 : Int) : ℚ) ≤ g.value by exact_mod_cast hle)
        omega
    · split at h
      · obtain ⟨g, hg, rfl⟩ := Option.map_eq_some_iff.mp h
        exact lt_of_lt_of_le Int.zero_lt_one (le_max_left _ _)
      · split at h
        · cases h
          exact_mod_cast hschedulers
        · cases h

end Concurrency

namespace RateBased

/-! ## the record and its options -/

/-- The value of an option that is a number or is refused. -/
inductive NumberValue (τ : Type) where
  | number (x : Number)
  | other (term : τ)
  deriving DecidableEq

variable {τ : Type}

/-- The guard on a `period` in seconds: `none` where it fails. -/
def periodAssign : NumberValue τ → Option Int
  | .number (.integer period) =>
      if 0 < period ∧ period ≤ timeoutMaxErlang / 1000 then some period else none
  | _ => none

/-- The guard on a rate: `none` where it fails. -/
def rateAssign : NumberValue τ → Option Number
  | .number rate => if 0 < rate.value then some rate else none
  | .other _ => none

/-- A period that is admitted. -/
def PeriodValid (period : Int) : Prop := 0 < period ∧ period ≤ timeoutMaxErlang / 1000

variable {value : NumberValue τ} {period : Int} {rate : Number}

theorem periodValid_of_periodAssign (h : periodAssign value = some period) :
    PeriodValid period := by
  unfold periodAssign at h
  split at h
  · split at h
    · cases h
      assumption
    · cases h
  · cases h

theorem periodAssign_integer (h : PeriodValid period) :
    periodAssign (.number (.integer period) : NumberValue τ) = some period := if_pos h

theorem pos_of_rateAssign (h : rateAssign value = some rate) :
    value = .number rate ∧ 0 < rate.value := by
  cases value with
  | number x =>
    rw [rateAssign] at h
    split at h
    · cases h
      exact ⟨rfl, by assumption⟩
    · cases h
  | other term => cases h

theorem rateAssign_number (h : 0 < rate.value) :
    rateAssign (.number rate : NumberValue τ) = some rate := if_pos h

namespace CountProcessDynamic

/-- The options of `count_process_dynamic`. -/
inductive Entry (τ : Type) where
  | rateRequestMax (value : NumberValue τ)
  | rateRequestMin (value : NumberValue τ)
  | countMax (value : NumberValue τ)
  | countMin (value : NumberValue τ)
  | period (value : NumberValue τ)
  | other (term : τ)
  deriving DecidableEq

/-- The second element of the error `service_options_count_process_dynamic_invalid`, or an
exception. -/
inductive Failure (τ : Type) where
  | invalid (entry : Entry τ)
  | invalidRateRequestMax
  | invalidCountMax
  | badarith
  | functionClause
  deriving DecidableEq

end CountProcessDynamic

/-- `#count_process_dynamic{}`; `none` is `undefined`, and a method that is there is
`rate_request`. -/
structure CountProcessDynamic where
  method : Option Unit := none
  period : Option Int := none
  count : Nat := 0
  rateMax : Option Number := none
  rateMin : Option Number := none
  countProcessMax : Option Int := none
  countProcessMin : Option Int := none
  terminate : Bool := false
  deriving DecidableEq

namespace CountProcessDynamic

open ServicesMonitor (erlangRound)

/-- `?COUNT_PROCESS_DYNAMIC_PERIOD_DEFAULT`. -/
def periodDefault : Int := 5
/-- `?COUNT_PROCESS_DYNAMIC_RATE_REQUEST_MAX_DEFAULT`. -/
def rateRequestMaxDefault : Int := 1000
/-- `?COUNT_PROCESS_DYNAMIC_RATE_REQUEST_MIN_DEFAULT`. -/
def rateRequestMinDefault : Int := 100
/-- `?COUNT_PROCESS_DYNAMIC_RATE_REQUEST_OFFSET_DEFAULT`. -/
def rateRequestOffsetDefault : Int := 10
/-- `?COUNT_PROCESS_DYNAMIC_COUNT_MAX_DEFAULT`. -/
def countMaxDefault : ErlFloat := .literal 4 (by decide)

theorem isDouble_half : Double.IsDouble (1 / 2) :=
  ⟨1, -1, by norm_num, by norm_num, by decide⟩

/-- `?COUNT_PROCESS_DYNAMIC_COUNT_MIN_DEFAULT`. -/
def countMinDefault : ErlFloat where
  value := 1 / 2
  isDouble := isDouble_half
  inRange := lt_trans (by norm_num [abs_of_pos]) Double.pow_lt_limit

/-- An operation that may raise `badarith`. -/
def arith (x : Option α) : Except (Failure τ) α :=
  match x with
  | some a => .ok a
  | none => .error .badarith

/-- A value of the state or, where it is `undefined`, the one that is computed for it. -/
def getOr (value computed : Option α) : Except (Failure τ) α :=
  match value with
  | some a => .ok a
  | none => arith computed

/-- `erlang:round(CountMax * CountProcess)`. -/
def roundMax (f : ErlFloat) (countProcess : Int) : Option Int :=
  (f.mulInteger countProcess).map fun g => erlangRound g.value

/-- `erlang:max(1, erlang:round(CountMin * CountProcess))`. -/
def roundMin (f : ErlFloat) (countProcess : Int) : Option Int :=
  (f.mulInteger countProcess).map fun g => max 1 (erlangRound g.value)

/-! ## validation -/

/-- The clause of `rate_request_max`. -/
def validateRateRequestMax (entry : Entry τ) (value : NumberValue τ)
    (state : CountProcessDynamic) : Except (Failure τ) CountProcessDynamic :=
  match rateAssign value with
  | none => .error (.invalid entry)
  | some rateMax => do
      let newRateMin ←
        getOr state.rateMin (rateMax.addInteger (-rateRequestOffsetDefault))
      if newRateMin.value ≤ rateMax.value then
        return { state with method := some (), rateMax := some rateMax, rateMin := some newRateMin }
      else .error (.invalid entry)

/-- The clause of `rate_request_min`. -/
def validateRateRequestMin (entry : Entry τ) (value : NumberValue τ)
    (state : CountProcessDynamic) : Except (Failure τ) CountProcessDynamic :=
  match rateAssign value with
  | none => .error (.invalid entry)
  | some rateMin => do
      let newRateMax ← getOr state.rateMax (rateMin.addInteger rateRequestOffsetDefault)
      if rateMin.value ≤ newRateMax.value then
        return { state with method := some (), rateMax := some newRateMax, rateMin := some rateMin }
      else .error (.invalid entry)

variable (countProcess : Int)

/-- The guard of `count_max`, and `NewCountMax`. -/
def assignCountMax (entry : Entry τ) :
    NumberValue τ → Except (Failure τ) Int
  | .number (.float f) =>
      if 1 ≤ f.value then arith (roundMax f countProcess) else .error (.invalid entry)
  | .number (.integer i) => if countProcess ≤ i then .ok i else .error (.invalid entry)
  | .other _ => .error (.invalid entry)

/-- The clause of `count_max`. -/
def validateCountMax (entry : Entry τ) (value : NumberValue τ)
    (state : CountProcessDynamic) : Except (Failure τ) CountProcessDynamic := do
  let newCountMax ← assignCountMax countProcess entry value
  let newCountMin := state.countProcessMin.getD countProcess
  if newCountMin ≤ newCountMax then
    return { state with countProcessMax := some newCountMax, countProcessMin := some newCountMin }
  else .error (.invalid entry)

/-- The guard of `count_min`, and `NewCountMin`. -/
def assignCountMin (entry : Entry τ) :
    NumberValue τ → Except (Failure τ) Int
  | .number (.float f) =>
      if 0 < f.value ∧ f.value ≤ 1 then arith (roundMin f countProcess)
      else .error (.invalid entry)
  | .number (.integer i) =>
      if 0 < i ∧ i ≤ countProcess then .ok i else .error (.invalid entry)
  | .other _ => .error (.invalid entry)

/-- The clause of `count_min`. -/
def validateCountMin (entry : Entry τ) (value : NumberValue τ)
    (state : CountProcessDynamic) : Except (Failure τ) CountProcessDynamic := do
  let newCountMin ← assignCountMin countProcess entry value
  let newCountMax := state.countProcessMax.getD countProcess
  if newCountMin ≤ newCountMax then
    return { state with countProcessMax := some newCountMax, countProcessMin := some newCountMin }
  else .error (.invalid entry)

/-- The clause of `period`. -/
def validatePeriod (entry : Entry τ) (value : NumberValue τ) (state : CountProcessDynamic) :
    Except (Failure τ) CountProcessDynamic :=
  match periodAssign value with
  | none => .error (.invalid entry)
  | some period => .ok { state with period := some period }

/-- The clauses of `count_process_dynamic_validate/3` that take an option. -/
def validateOption (entry : Entry τ) (state : CountProcessDynamic) :
    Except (Failure τ) CountProcessDynamic :=
  match entry with
  | .rateRequestMax value => validateRateRequestMax entry value state
  | .rateRequestMin value => validateRateRequestMin entry value state
  | .countMax value => validateCountMax countProcess entry value state
  | .countMin value => validateCountMin countProcess entry value state
  | .period value => validatePeriod entry value state
  | .other _ => .error (.invalid entry)

/-- The clause of `count_process_dynamic_validate/3` without options.  The only method is
`rate_request`. -/
def validateEnd (state : CountProcessDynamic) :
    Except (Failure τ) CountProcessDynamic := do
  let newPeriod := state.period.getD periodDefault
  let newRateMax := state.rateMax.getD (.integer rateRequestMaxDefault)
  let newRateMin := state.rateMin.getD (.integer rateRequestMinDefault)
  let newCountMax ← getOr state.countProcessMax (roundMax countMaxDefault countProcess)
  let newCountMin ← getOr state.countProcessMin (roundMin countMinDefault countProcess)
  if newRateMin.value = newRateMax.value then .error .invalidRateRequestMax
  else if newCountMin = newCountMax then .error .invalidCountMax
  else
    return { state with
      method := some (), period := some newPeriod
      rateMax := some newRateMax, rateMin := some newRateMin
      countProcessMax := some newCountMax, countProcessMin := some newCountMin }

/-- `count_process_dynamic_validate/2` of a list of options. -/
def validate (schedulers : Nat) (options : List (Entry τ)) (countProcess : Number) :
    Except (Failure τ) CountProcessDynamic :=
  match Concurrency.count schedulers countProcess with
  | none => .error .functionClause
  | some countProcessInteger =>
      OptionList.validate (validateOption countProcessInteger) (validateEnd countProcessInteger)
        options {}

/-- `count_process_dynamic_format/1`; `none` where no clause matches or a field is `undefined`. -/
def format (state : CountProcessDynamic) : Option (List (Entry τ)) :=
  match state.method, state.period, state.rateMax, state.rateMin, state.countProcessMax,
      state.countProcessMin with
  | some (), some period, some rateMax, some rateMin, some countProcessMax, some countProcessMin =>
      some [.period (.number (.integer period)), .rateRequestMax (.number rateMax),
        .rateRequestMin (.number rateMin), .countMax (.number (.integer countProcessMax)),
        .countMin (.number (.integer countProcessMin))]
  | _, _, _, _, _, _ => none

/-! ## rates -/

/-- Taking the offset leaves a positive rate exactly above the offset, also with floats: those
above it are `2 ^ (-49)` apart at least. -/
theorem addInteger_offset_pos (h : rate.addInteger (-rateRequestOffsetDefault) = some newRate) :
    0 < newRate.value ↔ 10 < rate.value := by
  unfold rateRequestOffsetDefault at h
  cases rate with
  | integer j =>
    rw [Number.value_of_addInteger_integer h, Number.value]
    push_cast
    constructor <;> intro hlt <;> linarith
  | float f =>
    rw [Number.value_of_addInteger_float h, Number.value]
    push_cast
    constructor
    · intro hpos
      by_contra hle
      have hzero := Double.isDouble_zero.nearest_le (x := f.value + -10) (by linarith)
      linarith
    · intro hlt
      obtain ⟨p, hp⟩ := f.isDouble.multiple (k := 3) (by norm_num; linarith)
      have hstep : (2 : ℚ) ^ ((3 : ℤ) - 52) * 2 ^ 49 = 1 := by norm_num
      have hp10 : 10 * 2 ^ 49 < p := by
        have hcast : ((10 * 2 ^ 49 : ℤ) : ℚ) < p := by
          rw [hp] at hlt
          have hpos : (0 : ℚ) < 2 ^ ((3 : ℤ) - 52) := by positivity
          push_cast
          nlinarith
        exact Int.cast_lt.mp hcast
      have hdouble : Double.IsDouble (2 ^ ((3 : ℤ) - 52)) :=
        ⟨1, 3 - 52, by norm_num, by norm_num, by decide⟩
      have hle : (2 : ℚ) ^ ((3 : ℤ) - 52) ≤ f.value + -10 := by
        have hcast : ((10 * 2 ^ 49 + 1 : ℤ) : ℚ) ≤ p := Int.cast_le.mpr hp10
        have hpos : (0 : ℚ) < 2 ^ ((3 : ℤ) - 52) := by positivity
        rw [hp]
        push_cast at hcast
        nlinarith
      exact lt_of_lt_of_le (by positivity) (hdouble.le_nearest hle)

variable {a : α} {computed : Option α} {value : NumberValue τ} {state' state : CountProcessDynamic}
  {entry : Entry τ} {countProcess : Int}

theorem of_arith (h : arith (τ := τ) computed = .ok a) : computed = some a := by
  cases computed with
  | some b =>
    cases h
    rfl
  | none => cases h

theorem of_getOr {value : Option α} (h : getOr (τ := τ) value computed = .ok a) :
    value = some a ∨ value = none ∧ computed = some a := by
  cases value with
  | some b =>
    cases h
    exact .inl rfl
  | none => exact .inr ⟨rfl, of_arith h⟩

/-- What `rate_request_max` does when it is accepted. -/
theorem validateRateRequestMax_spec (h : validateRateRequestMax entry value state = .ok state') :
    ∃ rateMax newRateMin, value = .number rateMax ∧ 0 < rateMax.value ∧
      (state.rateMin = some newRateMin ∨ state.rateMin = none ∧
          rateMax.addInteger (-rateRequestOffsetDefault) = some newRateMin) ∧
      newRateMin.value ≤ rateMax.value ∧
      state' = { state with
        method := some (), rateMax := some rateMax, rateMin := some newRateMin } := by
  unfold validateRateRequestMax at h
  cases hassign : rateAssign value with
  | none => simp [hassign] at h
  | some rateMax =>
    obtain ⟨hvalue, hpos⟩ := pos_of_rateAssign hassign
    simp only [hassign] at h
    obtain ⟨newRateMin, hmin, h⟩ := Except.ok_of_bind h
    split at h
    · next hle =>
        exact ⟨rateMax, newRateMin, hvalue, hpos, of_getOr hmin, hle, (Except.ok.inj h).symm⟩
    · cases h

/-- What `rate_request_min` does when it is accepted. -/
theorem validateRateRequestMin_spec (h : validateRateRequestMin entry value state = .ok state') :
    ∃ rateMin newRateMax, value = .number rateMin ∧ 0 < rateMin.value ∧
      rateMin.value ≤ newRateMax.value ∧
      state' = { state with
        method := some (), rateMax := some newRateMax, rateMin := some rateMin } := by
  unfold validateRateRequestMin at h
  cases hassign : rateAssign value with
  | none => simp [hassign] at h
  | some rateMin =>
    obtain ⟨hvalue, hpos⟩ := pos_of_rateAssign hassign
    simp only [hassign] at h
    obtain ⟨newRateMax, hmax, h⟩ := Except.ok_of_bind h
    split at h
    · next hle => exact ⟨rateMin, newRateMax, hvalue, hpos, hle, (Except.ok.inj h).symm⟩
    · cases h

/-- What `count_max` does when it is accepted. -/
theorem validateCountMax_spec (h : validateCountMax countProcess entry value state = .ok state') :
    ∃ newCountMax, assignCountMax countProcess entry value = .ok newCountMax ∧
      state.countProcessMin.getD countProcess ≤ newCountMax ∧
      state' = { state with
        countProcessMax := some newCountMax
        countProcessMin := some (state.countProcessMin.getD countProcess) } := by
  unfold validateCountMax at h
  obtain ⟨newCountMax, hassign, h⟩ := Except.ok_of_bind h
  dsimp only at h
  split at h
  · next hle => exact ⟨newCountMax, hassign, hle, (Except.ok.inj h).symm⟩
  · cases h

/-- What `count_min` does when it is accepted. -/
theorem validateCountMin_spec (h : validateCountMin countProcess entry value state = .ok state') :
    ∃ newCountMin, assignCountMin countProcess entry value = .ok newCountMin ∧
      newCountMin ≤ state.countProcessMax.getD countProcess ∧
      state' = { state with
        countProcessMax := some (state.countProcessMax.getD countProcess)
        countProcessMin := some newCountMin } := by
  unfold validateCountMin at h
  obtain ⟨newCountMin, hassign, h⟩ := Except.ok_of_bind h
  dsimp only at h
  split at h
  · next hle => exact ⟨newCountMin, hassign, hle, (Except.ok.inj h).symm⟩
  · cases h

theorem validatePeriod_spec (h : validatePeriod entry value state = .ok state') :
    ∃ period, PeriodValid period ∧ state' = { state with period := some period } := by
  unfold validatePeriod at h
  cases hassign : periodAssign value with
  | none => simp [hassign] at h
  | some period =>
    simp only [hassign] at h
    exact ⟨period, periodValid_of_periodAssign hassign, (Except.ok.inj h).symm⟩

/-! ## counts -/

section Counts

variable {n : Nat} {f : ErlFloat} {count : Int}

variable {x : ℚ}

/-- Rounding goes below no integer that is below. -/
theorem le_erlangRound {a : Int} (h : (a : ℚ) ≤ x) : a ≤ erlangRound x :=
  (ServicesMonitor.erlangRound_bounds h (Int.le_ceil x)).1

theorem erlangRound_le {b : Int} (h : x ≤ b) : erlangRound x ≤ b :=
  (ServicesMonitor.erlangRound_bounds (Int.floor_le x) h).2

theorem erlangRound_intCast (i : Int) : erlangRound (i : ℚ) = i :=
  le_antisymm (erlangRound_le le_rfl) (le_erlangRound le_rfl)

/-- A factor from one on: the product is rounded below the count only when the factor is one and
the float of the count is below it. -/
theorem le_roundMax_iff (hn : 1 ≤ n) (hf : 1 ≤ f.value) (h : roundMax f n = some count) :
    (n : Int) ≤ count ↔ (f.value = 1 → (n : ℚ) ≤ Double.nearest n) := by
  unfold roundMax at h
  obtain ⟨g, hg, rfl⟩ := Option.map_eq_some_iff.mp h
  have hvalue : g.value = Double.nearest (f.value * Double.nearest n) := by
    simpa using ErlFloat.value_of_mulInteger hg
  rw [← Double.le_nearest_mul_iff f.isDouble hf hn, ← hvalue]
  constructor
  · intro hle
    by_contra hlt
    -- then the factor is one, so that the product is an integer
    have hcond := mt (Double.le_nearest_mul_iff f.isDouble hf hn).mpr (hvalue ▸ hlt)
    have hone : f.value = 1 := by
      by_contra hne
      exact hcond fun heq => absurd heq hne
    obtain ⟨i, hi⟩ := Double.exists_nearest_eq_intCast n
    rw [hvalue, hone, one_mul, (Double.isDouble_nearest _).nearest_eq, hi] at hle hlt
    rw [erlangRound_intCast] at hle
    exact hlt (by exact_mod_cast hle)
  · intro hle
    exact le_erlangRound (by exact_mod_cast hle)

/-- A factor up to one: the product is rounded above the count only when the factor is one and
the float of the count is above it. -/
theorem roundMin_le_iff (hn : 1 ≤ n) (hpos : 0 < f.value) (hf : f.value ≤ 1)
    (h : roundMin f n = some count) :
    count ≤ (n : Int) ↔ (f.value = 1 → Double.nearest n ≤ (n : ℚ)) := by
  unfold roundMin at h
  obtain ⟨g, hg, rfl⟩ := Option.map_eq_some_iff.mp h
  have hvalue : g.value = Double.nearest (f.value * Double.nearest n) := by
    simpa using ErlFloat.value_of_mulInteger hg
  rw [← Double.nearest_mul_le_iff f.isDouble hpos hf hn, ← hvalue]
  constructor
  · intro hle
    by_contra hlt
    have hcond := mt (Double.nearest_mul_le_iff f.isDouble hpos hf hn).mpr (hvalue ▸ hlt)
    have hone : f.value = 1 := by
      by_contra hne
      exact hcond fun heq => absurd heq hne
    obtain ⟨i, hi⟩ := Double.exists_nearest_eq_intCast n
    rw [hvalue, hone, one_mul, (Double.isDouble_nearest _).nearest_eq, hi] at hle hlt
    rw [erlangRound_intCast] at hle
    exact hlt (by exact_mod_cast (le_max_right _ _).trans hle)
  · intro hle
    exact max_le (by omega) (erlangRound_le (by exact_mod_cast hle))

theorem one_le_of_roundMin (h : roundMin f n = some count) : 1 ≤ count := by
  unfold roundMin at h
  obtain ⟨g, hg, rfl⟩ := Option.map_eq_some_iff.mp h
  exact le_max_left _ _

end Counts

end CountProcessDynamic

end RateBased

end CloudI
