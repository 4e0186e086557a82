import CloudI.Library.OptionList
import Mathlib

/-!
# RateBased.RestartDelay

The option `restart_delay` of `cloudi_core_i_rate_based_configuration`: its validation, the
configuration format of what was accepted, and the delay before a restart.

A term that is none of the option's own is `other`; every clause refuses it.
-/

namespace CloudI.RateBased

open OptionList (validate_cons validate_nil)

/-- `?TIMEOUT_MAX_ERLANG`. -/
def timeoutMaxErlang : Int := 4294967295

/-! ## limits -/

/-- The value of an option that may be given as a limit. -/
inductive LimitValue (τ : Type) where
  | integer (i : Int)
  | limitMin
  | limitMax
  | other (term : τ)
  deriving DecidableEq

variable {τ : Type}

/-- The guard on such a value, and `?LIMIT_ASSIGN`: `none` where the guard fails. -/
def limitAssign (value : LimitValue τ) (min max : Int) : Option Int :=
  match value with
  | .integer i => if min ≤ i ∧ i ≤ max then some i else none
  | .limitMin => some min
  | .limitMax => some max
  | .other _ => none

/-- `?LIMIT_FORMAT`. -/
def limitFormat (value min max : Int) : LimitValue τ :=
  if value = min then .limitMin else if value = max then .limitMax else .integer value

theorem limitAssign_bounds {value : LimitValue τ} {min max v : Int} (hle : min ≤ max)
    (h : limitAssign value min max = some v) : min ≤ v ∧ v ≤ max := by
  unfold limitAssign at h
  cases value with
  | integer i =>
    simp only at h
    split at h
    · cases h
      assumption
    · cases h
  | other term => cases h
  | _ =>
    cases h
    omega

theorem limitAssign_limitFormat {v min max : Int} (hmin : min ≤ v) (hmax : v ≤ max) :
    limitAssign (limitFormat v min max : LimitValue τ) min max = some v := by
  unfold limitFormat
  split
  · next heq => rw [heq]; rfl
  · split
    · next heq => rw [heq]; rfl
    · exact if_pos ⟨hmin, hmax⟩

/-! ## the record and its options -/

namespace RestartDelay

inductive Method where
  | exponential
  | linear
  | absolute
  deriving DecidableEq

/-- The options of `restart_delay`. -/
inductive Entry (τ : Type) where
  | timeExponentialMin (value : LimitValue τ)
  | timeExponentialMax (value : LimitValue τ)
  | timeLinearSlope (value : LimitValue τ)
  | timeLinearMin (value : LimitValue τ)
  | timeLinearMax (value : LimitValue τ)
  | timeAbsolute (value : LimitValue τ)
  | other (term : τ)
  deriving DecidableEq

/-- The second element of the error `service_options_restart_delay_invalid`, or the exception of
an `if` without a true branch. -/
inductive Failure (τ : Type) where
  | invalid (entry : Entry τ)
  | invalidTimeAbsolute
  | ifClause
  deriving DecidableEq

end RestartDelay

/-- `#restart_delay{}`; `none` is `undefined`. -/
structure RestartDelay where
  method : Option RestartDelay.Method := none
  timeMin : Option Int := none
  timeMax : Option Int := none
  timeSlope : Option Int := none
  deriving DecidableEq

namespace RestartDelay

/-- `?RESTART_DELAY_METHOD_DEFAULT`. -/
def methodDefault : Method := .exponential
/-- `?RESTART_DELAY_EXPONENTIAL_TIME_MIN_DEFAULT`. -/
def exponentialTimeMinDefault : Int := 1
/-- `?RESTART_DELAY_EXPONENTIAL_TIME_MAX_DEFAULT`. -/
def exponentialTimeMaxDefault : Int := 500
/-- `?RESTART_DELAY_LINEAR_TIME_MIN_DEFAULT`. -/
def linearTimeMinDefault : Int := 0
/-- `?RESTART_DELAY_LINEAR_TIME_SLOPE_DEFAULT`. -/
def linearTimeSlopeDefault : Int := 50
/-- `?RESTART_DELAY_LINEAR_TIME_MAX_DEFAULT`. -/
def linearTimeMaxDefault : Int := 250

/-! ## validation -/

/-- The guard on the method. -/
def MethodIs (state : RestartDelay) (method : Method) : Prop :=
  state.method = none ∨ state.method = some method

instance (state : RestartDelay) (method : Method) : Decidable (MethodIs state method) :=
  inferInstanceAs (Decidable (_ ∨ _))

/-- The clauses of `time_exponential_min` and `time_linear_min`: the maximum, where there is none,
is the default or the new minimum. -/
def validateTimeMin (method : Method) (min maxDefault : Int) (entry : Entry τ)
    (value : LimitValue τ) (state : RestartDelay) : Except (Failure τ) RestartDelay :=
  if MethodIs state method then
    match limitAssign value min timeoutMaxErlang with
    | none => .error (.invalid entry)
    | some newTimeMin =>
        let newTimeMax := state.timeMax.getD (max newTimeMin maxDefault)
        if newTimeMin ≤ newTimeMax then
          .ok { state with
            method := some method, timeMin := some newTimeMin, timeMax := some newTimeMax }
        else .error (.invalid entry)
  else .error (.invalid entry)

/-- The clauses of `time_exponential_max` and `time_linear_max`: the minimum, where there is none,
is the default or the new maximum. -/
def validateTimeMax (method : Method) (minDefault : Int) (entry : Entry τ)
    (value : LimitValue τ) (state : RestartDelay) : Except (Failure τ) RestartDelay :=
  if MethodIs state method then
    match limitAssign value 1 timeoutMaxErlang with
    | none => .error (.invalid entry)
    | some newTimeMax =>
        let newTimeMin := state.timeMin.getD (min newTimeMax minDefault)
        if newTimeMin ≤ newTimeMax then
          .ok { state with
            method := some method, timeMin := some newTimeMin, timeMax := some newTimeMax }
        else .error (.invalid entry)
  else .error (.invalid entry)

/-- The clause of `time_linear_slope`, which is no limit. -/
def validateTimeLinearSlope (entry : Entry τ) (value : LimitValue τ) (state : RestartDelay) :
    Except (Failure τ) RestartDelay :=
  match value with
  | .integer timeSlope =>
      if MethodIs state .linear ∧ 1 ≤ timeSlope then
        .ok { state with method := some .linear, timeSlope := some timeSlope }
      else .error (.invalid entry)
  | _ => .error (.invalid entry)

/-- The clause of `time_absolute`. -/
def validateTimeAbsolute (entry : Entry τ) (value : LimitValue τ) (state : RestartDelay) :
    Except (Failure τ) RestartDelay :=
  if MethodIs state .absolute then
    match limitAssign value 1 timeoutMaxErlang with
    | none => .error (.invalid entry)
    | some newTimeValue =>
        .ok { state with
          method := some .absolute, timeMin := some newTimeValue, timeMax := some newTimeValue }
  else .error (.invalid entry)

/-- The clauses of `restart_delay_validate/2` that take an option. -/
def validateOption (entry : Entry τ) (state : RestartDelay) : Except (Failure τ) RestartDelay :=
  match entry with
  | .timeExponentialMin value =>
      validateTimeMin .exponential 1 exponentialTimeMaxDefault entry value state
  | .timeExponentialMax value =>
      validateTimeMax .exponential exponentialTimeMinDefault entry value state
  | .timeLinearSlope value => validateTimeLinearSlope entry value state
  | .timeLinearMin value => validateTimeMin .linear 0 linearTimeMaxDefault entry value state
  | .timeLinearMax value => validateTimeMax .linear linearTimeMinDefault entry value state
  | .timeAbsolute value => validateTimeAbsolute entry value state
  | .other _ => .error (.invalid entry)

/-- A time of the last clause: the default of the method, which an absolute delay has not. -/
def timeDefault (time : Option Int) (method : Method) (exponential linear : Int) :
    Except (Failure τ) Int :=
  match time with
  | some t => .ok t
  | none =>
      match method with
      | .exponential => .ok exponential
      | .linear => .ok linear
      | .absolute => .error .ifClause

/-- The clause of `restart_delay_validate/2` without options. -/
def validateEnd (state : RestartDelay) : Except (Failure τ) RestartDelay := do
  let newMethod := state.method.getD methodDefault
  let newTimeMin ←
    timeDefault state.timeMin newMethod exponentialTimeMinDefault linearTimeMinDefault
  let newTimeMax ←
    timeDefault state.timeMax newMethod exponentialTimeMaxDefault linearTimeMaxDefault
  let newTimeSlope :=
    if state.timeSlope = none ∧ newMethod = .linear then some linearTimeSlopeDefault
    else state.timeSlope
  if (newMethod = .exponential ∨ newMethod = .linear) ∧ newTimeMin = newTimeMax then
    .error .invalidTimeAbsolute
  else
    return { method := some newMethod, timeMin := some newTimeMin, timeMax := some newTimeMax
             timeSlope := newTimeSlope }

/-- `restart_delay_validate/1` of a list of options. -/
def validate (options : List (Entry τ)) : Except (Failure τ) RestartDelay :=
  OptionList.validate validateOption validateEnd options {}

/-- `restart_delay_format/1`; `none` where no clause matches. -/
def format (state : RestartDelay) : Option (List (Entry τ)) :=
  match state.method, state.timeMin, state.timeMax with
  | some .exponential, some timeMin, some timeMax =>
      some [.timeExponentialMin (limitFormat timeMin 1 timeoutMaxErlang),
        .timeExponentialMax (limitFormat timeMax 1 timeoutMaxErlang)]
  | some .linear, some timeMin, some timeMax =>
      state.timeSlope.map fun timeSlope =>
        [.timeLinearMin (limitFormat timeMin 0 timeoutMaxErlang),
          .timeLinearSlope (.integer timeSlope),
          .timeLinearMax (limitFormat timeMax 1 timeoutMaxErlang)]
  | some .absolute, some timeValue, some timeMax =>
      if timeMax = timeValue then
        some [.timeAbsolute (limitFormat timeValue 1 timeoutMaxErlang)]
      else none
  | _, _, _ => none

/-- `restart_delay_value_now/2`; `none` where no clause matches or a time is `undefined`. -/
def valueNow (restartCount : Nat) (state : RestartDelay) : Option Int :=
  match state.method, state.timeMin, state.timeMax with
  | some .exponential, some timeMin, some timeMax =>
      let timeValue := (1 : Int) <<< restartCount * timeMin
      some (if timeValue > timeMax then timeMax else timeValue)
  | some .linear, some timeMin, some timeMax =>
      state.timeSlope.map fun timeSlope =>
        let timeValue := timeSlope * restartCount + timeMin
        if timeValue > timeMax then timeMax else timeValue
  | some .absolute, some timeValue, some timeMax =>
      if timeMax = timeValue then some timeValue else none
  | _, _, _ => none

/-! ## what is accepted -/

/-- What the options taken so far come to. -/
inductive Partial : RestartDelay → Prop
  | start : Partial {}
  | exponential {timeMin timeMax : Int} (hmin : 1 ≤ timeMin) (hle : timeMin ≤ timeMax)
      (hmax : timeMax ≤ timeoutMaxErlang) :
      Partial ⟨some .exponential, some timeMin, some timeMax, none⟩
  | slope {timeSlope : Int} (hslope : 1 ≤ timeSlope) :
      Partial ⟨some .linear, none, none, some timeSlope⟩
  | linear {timeMin timeMax : Int} {timeSlope : Option Int} (hmin : 0 ≤ timeMin)
      (hle : timeMin ≤ timeMax) (hpos : 1 ≤ timeMax) (hmax : timeMax ≤ timeoutMaxErlang)
      (hslope : ∀ slope ∈ timeSlope, 1 ≤ slope) :
      Partial ⟨some .linear, some timeMin, some timeMax, timeSlope⟩
  | absolute {timeValue : Int} (hmin : 1 ≤ timeValue) (hmax : timeValue ≤ timeoutMaxErlang) :
      Partial ⟨some .absolute, some timeValue, some timeValue, none⟩

/-- What is accepted: each method with its times within the admitted limits. -/
inductive Valid : RestartDelay → Prop
  | exponential {timeMin timeMax : Int} (hmin : 1 ≤ timeMin) (hlt : timeMin < timeMax)
      (hmax : timeMax ≤ timeoutMaxErlang) :
      Valid ⟨some .exponential, some timeMin, some timeMax, none⟩
  | linear {timeMin timeMax timeSlope : Int} (hmin : 0 ≤ timeMin) (hlt : timeMin < timeMax)
      (hmax : timeMax ≤ timeoutMaxErlang) (hslope : 1 ≤ timeSlope) :
      Valid ⟨some .linear, some timeMin, some timeMax, some timeSlope⟩
  | absolute {timeValue : Int} (hmin : 1 ≤ timeValue) (hmax : timeValue ≤ timeoutMaxErlang) :
      Valid ⟨some .absolute, some timeValue, some timeValue, none⟩

variable {method : Method} {minDefault : Int}

/-- What a clause with a minimum does when it accepts. -/
theorem validateTimeMin_spec {min maxDefault : Int} {entry : Entry τ} {value : LimitValue τ}
    {state state' : RestartDelay} (hmin : min ≤ timeoutMaxErlang)
    (h : validateTimeMin method min maxDefault entry value state = .ok state') :
    MethodIs state method ∧ ∃ newTimeMin, min ≤ newTimeMin ∧ newTimeMin ≤ timeoutMaxErlang ∧
      newTimeMin ≤ state.timeMax.getD (max newTimeMin maxDefault) ∧
      state' = { state with
        method := some method
        timeMin := some newTimeMin
        timeMax := some (state.timeMax.getD (max newTimeMin maxDefault)) } := by
  unfold validateTimeMin at h
  by_cases hmethod : MethodIs state method
  · rw [if_pos hmethod] at h
    cases hassign : limitAssign value min timeoutMaxErlang with
    | none => simp [hassign] at h
    | some newTimeMin =>
      simp only [hassign] at h
      split at h
      · next hle =>
          obtain ⟨hlow, hhigh⟩ := limitAssign_bounds hmin hassign
          exact ⟨hmethod, newTimeMin, hlow, hhigh, hle, (Except.ok.inj h).symm⟩
      · cases h
  · simp [hmethod] at h

/-- What a clause with a maximum does when it accepts. -/
theorem validateTimeMax_spec {entry : Entry τ} {value : LimitValue τ} {state state' : RestartDelay}
    (h : validateTimeMax method minDefault entry value state = .ok state') :
    MethodIs state method ∧ ∃ newTimeMax, 1 ≤ newTimeMax ∧ newTimeMax ≤ timeoutMaxErlang ∧
      state.timeMin.getD (min newTimeMax minDefault) ≤ newTimeMax ∧
      state' = { state with
        method := some method
        timeMin := some (state.timeMin.getD (min newTimeMax minDefault))
        timeMax := some newTimeMax } := by
  unfold validateTimeMax at h
  by_cases hmethod : MethodIs state method
  · rw [if_pos hmethod] at h
    cases hassign : limitAssign value 1 timeoutMaxErlang with
    | none => simp [hassign] at h
    | some newTimeMax =>
      simp only [hassign] at h
      split at h
      · next hle =>
          obtain ⟨hlow, hhigh⟩ := limitAssign_bounds (by decide) hassign
          exact ⟨hmethod, newTimeMax, hlow, hhigh, hle, (Except.ok.inj h).symm⟩
      · cases h
  · simp [hmethod] at h

variable {value : LimitValue τ} {state' state : RestartDelay} {entry : Entry τ}
  {timeMax timeMin : Int}

theorem validateTimeLinearSlope_spec (h : validateTimeLinearSlope entry value state = .ok state') :
    MethodIs state .linear ∧ ∃ timeSlope, 1 ≤ timeSlope ∧
      state' = { state with method := some .linear, timeSlope := some timeSlope } := by
  unfold validateTimeLinearSlope at h
  cases value with
  | integer timeSlope =>
    simp only at h
    split at h
    · next hguard => exact ⟨hguard.1, timeSlope, hguard.2, (Except.ok.inj h).symm⟩
    · cases h
  | _ => cases h

theorem validateTimeAbsolute_spec (h : validateTimeAbsolute entry value state = .ok state') :
    MethodIs state .absolute ∧ ∃ newTimeValue, 1 ≤ newTimeValue ∧ newTimeValue ≤ timeoutMaxErlang ∧
      state' = { state with
        method := some .absolute
        timeMin := some newTimeValue
        timeMax := some newTimeValue } := by
  unfold validateTimeAbsolute at h
  by_cases hmethod : MethodIs state .absolute
  · rw [if_pos hmethod] at h
    cases hassign : limitAssign value 1 timeoutMaxErlang with
    | none => simp [hassign] at h
    | some newTimeValue =>
      simp only [hassign] at h
      obtain ⟨hlow, hhigh⟩ := limitAssign_bounds (by decide) hassign
      exact ⟨hmethod, newTimeValue, hlow, hhigh, (Except.ok.inj h).symm⟩
  · simp [hmethod] at h

/-- One option keeps the times of the method within the limits. -/
theorem Partial.option {entry : Entry τ} {state state' : RestartDelay} (hstate : Partial state)
    (h : validateOption entry state = .ok state') : Partial state' := by
  cases entry with
  | timeExponentialMin value =>
    obtain ⟨hmethod, t, hlow, hhigh, hle, rfl⟩ := validateTimeMin_spec (by decide) h
    cases hstate with
    | start =>
      refine .exponential hlow hle (max_le hhigh ?_)
      decide
    | exponential hmin' hle' hmax' => exact .exponential hlow hle hmax'
    | _ => simp [MethodIs] at hmethod
  | timeExponentialMax value =>
    obtain ⟨hmethod, t, hlow, hhigh, hle, rfl⟩ := validateTimeMax_spec h
    cases hstate with
    | start => exact .exponential (le_min hlow le_rfl) hle hhigh
    | exponential hmin' hle' hmax' => exact .exponential hmin' hle hhigh
    | _ => simp [MethodIs] at hmethod
  | timeLinearSlope value =>
    obtain ⟨hmethod, slope, hslope, rfl⟩ := validateTimeLinearSlope_spec h
    cases hstate with
    | start => exact .slope hslope
    | slope hslope' => exact .slope hslope
    | linear hmin' hle' hpos' hmax' hslope' =>
      exact .linear hmin' hle' hpos' hmax' (by simpa using hslope)
    | _ => simp [MethodIs] at hmethod
  | timeLinearMin value =>
    obtain ⟨hmethod, t, hlow, hhigh, hle, rfl⟩ := validateTimeMin_spec (by decide) h
    have hdefault : (1 : Int) ≤ max t linearTimeMaxDefault := by
      unfold linearTimeMaxDefault
      omega
    have hlimit : max t linearTimeMaxDefault ≤ timeoutMaxErlang := max_le hhigh (by decide)
    cases hstate with
    | start => exact .linear hlow hle hdefault hlimit (by simp)
    | slope hslope => exact .linear hlow hle hdefault hlimit (by simpa using hslope)
    | linear hmin' hle' hpos' hmax' hslope => exact .linear hlow hle hpos' hmax' hslope
    | _ => simp [MethodIs] at hmethod
  | timeLinearMax value =>
    obtain ⟨hmethod, t, hlow, hhigh, hle, rfl⟩ := validateTimeMax_spec h
    have hdefault : (0 : Int) ≤ min t linearTimeMinDefault := le_min (by omega) le_rfl
    cases hstate with
    | start => exact .linear hdefault hle hlow hhigh (by simp)
    | slope hslope => exact .linear hdefault hle hlow hhigh (by simpa using hslope)
    | linear hmin' hle' hpos' hmax' hslope => exact .linear hmin' hle hlow hhigh hslope
    | _ => simp [MethodIs] at hmethod
  | timeAbsolute value =>
    obtain ⟨hmethod, t, hlow, hhigh, rfl⟩ := validateTimeAbsolute_spec h
    cases hstate with
    | start => exact .absolute hlow hhigh
    | absolute hmin' hmax' => exact .absolute hlow hhigh
    | _ => simp [MethodIs] at hmethod
  | other term => cases h

/-- The defaults complete what the options come to. -/
theorem Partial.complete (hstate : Partial state) (h : validateEnd (τ := τ) state = .ok result) :
    Valid result := by
  cases hstate with
  | start =>
    cases h
    exact .exponential (by decide) (by decide) (by decide)
  | exponential hmin hle hmax =>
    simp only [validateEnd, timeDefault, Option.getD_some, Except.ok_bind] at h
    split at h
    · cases h
    · next hne =>
        cases h
        simp only [true_or, true_and] at hne
        exact .exponential hmin (by omega) hmax
  | slope hslope =>
    cases h
    exact .linear (by decide) (by decide) (by decide) hslope
  | @linear timeMin timeMax timeSlope hmin hle hpos hmax hslope =>
    simp only [validateEnd, timeDefault, Option.getD_some, Except.ok_bind] at h
    split at h
    · cases h
    · next hne =>
        simp only [or_true, true_and] at hne
        cases timeSlope with
        | none =>
          cases h
          exact .linear hmin (by omega) hmax (by decide)
        | some slope =>
          cases h
          exact .linear hmin (by omega) hmax (hslope slope rfl)
  | absolute hmin hmax =>
    cases h
    exact .absolute hmin hmax

theorem valid_of_validate (h : validate options = .ok state) : Valid state := by
  obtain ⟨state', hstate', hend⟩ := OptionList.validate_invariant
    (fun entry state state' hstate hok => hstate.option hok) Partial.start h
  exact hstate'.complete hend

/-! ## the delay -/

/-- The delay for every restart count: between the times, and never less for a higher count. -/
structure Delays (state : RestartDelay) (timeMin timeMax : Int) (delay : Nat → Int) : Prop where
  value : ∀ restartCount, valueNow restartCount state = some (delay restartCount)
  min_le : ∀ restartCount, timeMin ≤ delay restartCount
  le_max : ∀ restartCount, delay restartCount ≤ timeMax
  monotone : Monotone delay

theorem Delays.of_growing (hle : timeMin ≤ timeMax) (hgrow : Monotone grow)
    (hstart : ∀ n, timeMin ≤ grow n)
    (hvalue : ∀ n, valueNow n state = some (if grow n > timeMax then timeMax else grow n)) :
    Delays state timeMin timeMax fun n => if grow n > timeMax then timeMax else grow n where
  value := hvalue
  min_le n := by
    have := hstart n
    split <;> omega
  le_max n := by split <;> omega
  monotone n m hnm := by
    have := hgrow hnm
    dsimp only
    split <;> split <;> omega

theorem Valid.delays (h : Valid state) :
    ∃ timeMin timeMax delay, state.timeMin = some timeMin ∧ state.timeMax = some timeMax ∧
      Delays state timeMin timeMax delay := by
  cases h with
  | @exponential timeMin timeMax hmin hlt hmax =>
    have hgrow : Monotone fun n : Nat => (1 : Int) <<< n * timeMin := by
      intro n m hnm
      simp only [Int.shiftLeft_eq, one_mul]
      exact Int.mul_le_mul_of_nonneg_right (pow_le_pow_right₀ (by omega) hnm) (by omega)
    have hstart : ∀ n : Nat, timeMin ≤ (1 : Int) <<< n * timeMin := by
      intro n
      have hle := hgrow (Nat.zero_le n)
      simpa using hle
    exact ⟨_, _, _, rfl, rfl, .of_growing hlt.le hgrow hstart fun n => rfl⟩
  | @linear timeMin timeMax timeSlope hmin hlt hmax hslope =>
    have hgrow : Monotone fun n : Nat => (timeSlope * n + timeMin : Int) := by
      intro n m hnm
      have hcast : (n : Int) ≤ m := Int.ofNat_le.mpr hnm
      have hmul := Int.mul_le_mul_of_nonneg_left hcast (by omega : 0 ≤ timeSlope)
      dsimp only
      omega
    have hstart : ∀ n : Nat, timeMin ≤ timeSlope * n + timeMin := by
      intro n
      have hle := hgrow (Nat.zero_le n)
      simpa using hle
    exact ⟨_, _, _, rfl, rfl, .of_growing hlt.le hgrow hstart fun n => rfl⟩
  | @absolute timeValue hmin hmax =>
    exact ⟨timeValue, timeValue, fun _ => timeValue, rfl, rfl,
      fun _ => if_pos rfl, fun _ => le_rfl, fun _ => le_rfl, monotone_const⟩

/-- The limits that the options admit for the times of a method. -/
def Admitted (method : Option Method) (timeMin timeMax : Int) : Prop :=
  (if method = some .linear then 0 else 1) ≤ timeMin ∧ 1 ≤ timeMax ∧ timeMax ≤ timeoutMaxErlang

theorem Valid.admitted (h : Valid state) (htimeMin : state.timeMin = some timeMin)
    (htimeMax : state.timeMax = some timeMax) :
    timeMin ≤ timeMax ∧ Admitted state.method timeMin timeMax := by
  cases h with
  | exponential hmin hlt hmax =>
    cases htimeMin
    cases htimeMax
    exact ⟨by omega, hmin, by omega, hmax⟩
  | linear hmin hlt hmax hslope =>
    cases htimeMin
    cases htimeMax
    exact ⟨by omega, hmin, by omega, hmax⟩
  | absolute hmin hmax =>
    cases htimeMin
    cases htimeMax
    exact ⟨by omega, hmin, by omega, hmax⟩

/-- **Restart delays**: whatever options are accepted, the times are in order and within the
limits, and the delays of all restart counts are between them and never decrease. -/
theorem validate_delays {options : List (Entry τ)} {state : RestartDelay}
    (h : validate options = .ok state) :
    ∃ timeMin timeMax delay, state.timeMin = some timeMin ∧ state.timeMax = some timeMax ∧
      timeMin ≤ timeMax ∧ Admitted state.method timeMin timeMax ∧
      Delays state timeMin timeMax delay := by
  have hvalid := valid_of_validate h
  obtain ⟨timeMin, timeMax, delay, hmin, hmax, hdelays⟩ := hvalid.delays
  obtain ⟨hle, hadmitted⟩ := hvalid.admitted hmin hmax
  exact ⟨timeMin, timeMax, delay, hmin, hmax, hle, hadmitted, hdelays⟩

/-- A slope, a minimum that is given twice and the greatest maximum. -/
theorem validate_delays_linear :
    ∃ timeMin timeMax delay, some 20 = some timeMin ∧ some timeoutMaxErlang = some timeMax ∧
      timeMin ≤ timeMax ∧ Admitted (some .linear) timeMin timeMax ∧
      Delays ⟨some .linear, some 20, some timeoutMaxErlang, some 7⟩ timeMin timeMax delay :=
  validate_delays (show validate ([.timeLinearSlope (.integer 7), .timeLinearMin (.integer 90),
      .timeLinearMax .limitMax, .timeLinearMin (.integer 20)] : List (Entry Empty)) =
    .ok ⟨some .linear, some 20, some timeoutMaxErlang, some 7⟩ by decide)

/-! ## the format of what was accepted -/

theorem validateTimeMin_ok {min maxDefault newTimeMin : Int} {entry : Entry τ}
    {value : LimitValue τ} {state : RestartDelay} (hmethod : MethodIs state method)
    (hassign : limitAssign value min timeoutMaxErlang = some newTimeMin)
    (hle : newTimeMin ≤ state.timeMax.getD (max newTimeMin maxDefault)) :
    validateTimeMin method min maxDefault entry value state = .ok { state with
      method := some method
      timeMin := some newTimeMin
      timeMax := some (state.timeMax.getD (max newTimeMin maxDefault)) } := by
  simp [validateTimeMin, hmethod, hassign, hle]

theorem validateTimeMax_ok {newTimeMax : Int} {entry : Entry τ} {value : LimitValue τ}
    {state : RestartDelay} (hmethod : MethodIs state method)
    (hassign : limitAssign value 1 timeoutMaxErlang = some newTimeMax)
    (hle : state.timeMin.getD (min newTimeMax minDefault) ≤ newTimeMax) :
    validateTimeMax method minDefault entry value state = .ok { state with
      method := some method
      timeMin := some (state.timeMin.getD (min newTimeMax minDefault))
      timeMax := some newTimeMax } := by
  simp [validateTimeMax, hmethod, hassign, hle]

theorem validateTimeLinearSlope_ok {timeSlope : Int} (hmethod : MethodIs state .linear)
    (hslope : 1 ≤ timeSlope) :
    validateTimeLinearSlope entry (.integer timeSlope) state =
      .ok { state with method := some .linear, timeSlope := some timeSlope } := by
  simp [validateTimeLinearSlope, hmethod, hslope]

/-- A configuration that is read back is accepted, and is the same. -/
theorem Valid.validate_format (h : Valid state) :
    ∃ options : List (Entry τ), format state = some options ∧ validate options = .ok state := by
  cases h with
  | @exponential timeMin timeMax hmin hlt hmax =>
    refine ⟨_, rfl, ?_⟩
    have hassignMin := limitAssign_limitFormat (τ := τ) hmin (hlt.le.trans hmax)
    have hassignMax := limitAssign_limitFormat (τ := τ) (hmin.trans hlt.le) hmax
    have htimeMin : validateOption (.timeExponentialMin (limitFormat timeMin 1 timeoutMaxErlang))
          {} = .ok (ε := Failure τ) ⟨some .exponential, some timeMin,
            some (max timeMin exponentialTimeMaxDefault), none⟩ :=
      validateTimeMin_ok (.inl rfl) hassignMin (le_max_left _ _)
    have htimeMax : validateOption (.timeExponentialMax (limitFormat timeMax 1 timeoutMaxErlang))
          ⟨some .exponential, some timeMin, some (max timeMin exponentialTimeMaxDefault), none⟩ =
        .ok (ε := Failure τ) ⟨some .exponential, some timeMin, some timeMax, none⟩ :=
      validateTimeMax_ok (.inr rfl) hassignMax hlt.le
    rw [validate, validate_cons htimeMin, validate_cons htimeMax,
      validate_nil]
    simp [validateEnd, timeDefault, hlt.ne]
  | @linear timeMin timeMax timeSlope hmin hlt hmax hslope =>
    refine ⟨_, rfl, ?_⟩
    have hassignMin := limitAssign_limitFormat (τ := τ) hmin (hlt.le.trans hmax)
    have hassignMax := limitAssign_limitFormat (τ := τ) (show (1 : Int) ≤ timeMax by omega) hmax
    have htimeMin : validateOption (.timeLinearMin (limitFormat timeMin 0 timeoutMaxErlang))
          {} = .ok (ε := Failure τ) ⟨some .linear, some timeMin,
            some (max timeMin linearTimeMaxDefault), none⟩ :=
      validateTimeMin_ok (.inl rfl) hassignMin (le_max_left _ _)
    have htimeSlope : validateOption (.timeLinearSlope (.integer timeSlope))
          ⟨some .linear, some timeMin, some (max timeMin linearTimeMaxDefault), none⟩ =
        .ok (ε := Failure τ) ⟨some .linear, some timeMin, some (max timeMin linearTimeMaxDefault),
          some timeSlope⟩ :=
      validateTimeLinearSlope_ok (.inr rfl) hslope
    have htimeMax : validateOption (.timeLinearMax (limitFormat timeMax 1 timeoutMaxErlang))
          ⟨some .linear, some timeMin, some (max timeMin linearTimeMaxDefault), some timeSlope⟩ =
        .ok (ε := Failure τ) ⟨some .linear, some timeMin, some timeMax, some timeSlope⟩ :=
      validateTimeMax_ok (.inr rfl) hassignMax hlt.le
    rw [validate, validate_cons htimeMin, validate_cons htimeSlope,
      validate_cons htimeMax, validate_nil]
    simp [validateEnd, timeDefault, hlt.ne]
  | @absolute timeValue hmin hmax =>
    refine ⟨_, if_pos rfl, ?_⟩
    have hassign := limitAssign_limitFormat (τ := τ) hmin hmax
    have habsolute : validateOption (.timeAbsolute (limitFormat timeValue 1 timeoutMaxErlang))
          {} = .ok (ε := Failure τ) ⟨some .absolute, some timeValue, some timeValue, none⟩ := by
      simp [validateOption, validateTimeAbsolute, MethodIs, hassign]
    rw [validate, validate_cons habsolute, validate_nil]
    simp [validateEnd, timeDefault]

end RestartDelay

end CloudI.RateBased
