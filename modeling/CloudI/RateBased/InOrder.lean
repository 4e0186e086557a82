import CloudI.RateBased.CountProcessDynamic

/-!
# RateBased.InOrder

What the accepted options of `count_process_dynamic` come to.  The maximum is never below the
minimum, of the rates and of the counts.  Two things are not checked.  A minimum rate that is
derived from a maximum of ten or less is not positive.  And a count that no float represents may
be rounded to the wrong side when it is multiplied by one.
-/

namespace CloudI.RateBased.CountProcessDynamic

variable {τ : Type}

/-! ## the options that matter -/

/-- Is there a `rate_request_min`? -/
def HasRateRequestMin (options : List (Entry τ)) : Prop :=
  ∃ value, .rateRequestMin value ∈ options

/-- The value of the first `rate_request_max`. -/
def firstRateRequestMax : List (Entry τ) → Option (NumberValue τ)
  | [] => none
  | .rateRequestMax value :: _ => some value
  | _ :: options => firstRateRequestMax options

/-- The value of a `count_max`. -/
def countMaxValue : Entry τ → Option (NumberValue τ)
  | .countMax value => some value
  | _ => none

/-- The value of a `count_min`. -/
def countMinValue : Entry τ → Option (NumberValue τ)
  | .countMin value => some value
  | _ => none

/-- A value is the float one. -/
def IsOne (value : NumberValue τ) : Prop := ∃ f, value = .number (.float f) ∧ f.value = 1

/-- The exact condition.  A minimum rate is given, or it is derived from more than the offset;
and where the last factor of a limit of the count is one, the float of the count is on the right
side of it. -/
structure Sound (options : List (Entry τ)) (countProcess : Int) : Prop where
  rates : HasRateRequestMin options ∨
    ∀ rate, firstRateRequestMax options = some (.number rate) → 10 < rate.value
  countMax : ∀ value, OptionList.lastOf countMaxValue options = some value → IsOne value →
    (countProcess : ℚ) ≤ Double.nearest countProcess
  countMin : ∀ value, OptionList.lastOf countMinValue options = some value → IsOne value →
    Double.nearest countProcess ≤ countProcess

/-- The order of the rates and of the counts. -/
structure InOrder (state : CountProcessDynamic) (countProcess : Int) : Prop where
  rates : ∃ rateMin rateMax, state.rateMin = some rateMin ∧ state.rateMax = some rateMax ∧
    0 < rateMin.value ∧ rateMin.value < rateMax.value
  counts : ∃ countMin countMax, state.countProcessMin = some countMin ∧
    state.countProcessMax = some countMax ∧ 1 ≤ countMin ∧ countMin ≤ countProcess ∧
    countProcess ≤ countMax ∧ countMin < countMax

/-! ## what the options keep -/

/-- The rates are set together and in order, the counts too, and the period is admitted. -/
structure Kept (state : CountProcessDynamic) : Prop where
  period : ∀ period ∈ state.period, PeriodValid period
  count : state.count = 0
  terminate : state.terminate = false
  rates : (state.rateMin = none ∧ state.rateMax = none) ∨
    ∃ rateMin rateMax, state.rateMin = some rateMin ∧ state.rateMax = some rateMax ∧
      rateMin.value ≤ rateMax.value ∧ 0 < rateMax.value
  counts : (state.countProcessMin = none ∧ state.countProcessMax = none) ∨
    ∃ countMin countMax, state.countProcessMin = some countMin ∧
      state.countProcessMax = some countMax ∧ 1 ≤ countMin ∧ countMin ≤ countMax

theorem kept_start : Kept {} where
  period := by simp
  count := rfl
  terminate := rfl
  rates := .inl ⟨rfl, rfl⟩
  counts := .inl ⟨rfl, rfl⟩

variable {countProcess countProcessInteger : Int} {entry : Entry τ} {value : NumberValue τ}
  {state' state result : CountProcessDynamic} {options : List (Entry τ)} {schedulers : Nat}

theorem one_le_of_assignCountMin {count : Int} (hcount : 1 ≤ countProcess)
    (h : assignCountMin countProcess entry value = .ok count) : 1 ≤ count := by
  obtain ⟨n, rfl⟩ := Int.eq_ofNat_of_zero_le (show 0 ≤ countProcess by omega)
  unfold assignCountMin at h
  split at h
  · split at h
    · exact one_le_of_roundMin (of_arith h)
    · cases h
  · split at h
    · next hpos =>
        cases h
        omega
    · cases h
  · cases h

/-- One option keeps the order. -/
theorem Kept.option (hcount : 1 ≤ countProcess) (hstate : Kept state)
    (h : validateOption countProcess entry state = .ok state') : Kept state' := by
  cases entry with
  | rateRequestMax value =>
    obtain ⟨rateMax, rateMin, -, hpos, -, hle, rfl⟩ := validateRateRequestMax_spec h
    exact { hstate with rates := .inr ⟨rateMin, rateMax, rfl, rfl, hle, hpos⟩ }
  | rateRequestMin value =>
    obtain ⟨rateMin, rateMax, -, hpos, hle, rfl⟩ := validateRateRequestMin_spec h
    exact { hstate with rates := .inr ⟨rateMin, rateMax, rfl, rfl, hle, hpos.trans_le hle⟩ }
  | countMax value =>
    obtain ⟨countMax, -, hle, rfl⟩ := validateCountMax_spec h
    have hmin : 1 ≤ state.countProcessMin.getD countProcess := by
      rcases hstate.counts with ⟨hnone, -⟩ | ⟨countMin, countMax', hmin, -, hone, -⟩
      · simpa [hnone] using hcount
      · simpa [hmin] using hone
    exact { hstate with counts := .inr ⟨_, countMax, rfl, rfl, hmin, hle⟩ }
  | countMin value =>
    obtain ⟨countMin, hassign, hle, rfl⟩ := validateCountMin_spec h
    exact { hstate with
      counts := .inr ⟨countMin, _, rfl, rfl, one_le_of_assignCountMin hcount hassign, hle⟩ }
  | period value =>
    obtain ⟨period, hvalid, rfl⟩ := validatePeriod_spec h
    exact { hstate with period := by simpa using hvalid }
  | other term => cases h

/-- What the last clause does when it accepts. -/
theorem validateEnd_spec (h : validateEnd (τ := τ) countProcess state = .ok result) :
    ∃ countMin countMax, (state.countProcessMax = some countMax ∨
        state.countProcessMax = none ∧ roundMax countMaxDefault countProcess = some countMax) ∧
      (state.countProcessMin = some countMin ∨
        state.countProcessMin = none ∧ roundMin countMinDefault countProcess = some countMin) ∧
      (state.rateMin.getD (.integer rateRequestMinDefault)).value ≠
        (state.rateMax.getD (.integer rateRequestMaxDefault)).value ∧
      countMin ≠ countMax ∧
      result = { state with
        method := some ()
        period := some (state.period.getD periodDefault)
        rateMax := some (state.rateMax.getD (.integer rateRequestMaxDefault))
        rateMin := some (state.rateMin.getD (.integer rateRequestMinDefault))
        countProcessMax := some countMax
        countProcessMin := some countMin } := by
  unfold validateEnd at h
  obtain ⟨countMax, hmax, h⟩ := Except.ok_of_bind h
  obtain ⟨countMin, hmin, h⟩ := Except.ok_of_bind h
  split at h
  · cases h
  · next hrates =>
      split at h
      · cases h
      · next hcounts =>
          exact ⟨countMin, countMax, of_getOr hmax, of_getOr hmin, hrates, hcounts,
            (Except.ok.inj h).symm⟩

/-! ## the rates -/

/-- The minimum rate is positive, now or by an option that is still to come. -/
def RatesSound (options : List (Entry τ)) (state : CountProcessDynamic) : Prop :=
  HasRateRequestMin options ∨
    match state.rateMin with
    | some rateMin => 0 < rateMin.value
    | none => ∀ rate, firstRateRequestMax options = some (.number rate) → 10 < rate.value

theorem hasRateRequestMin_cons : HasRateRequestMin (entry :: options) ↔
      (∃ value, entry = .rateRequestMin value) ∨ HasRateRequestMin options := by
  constructor
  · rintro ⟨value, hmem⟩
    cases hmem with
    | head => exact .inl ⟨value, rfl⟩
    | tail _ hmem => exact .inr ⟨value, hmem⟩
  · rintro (⟨value, rfl⟩ | ⟨value, hmem⟩)
    · exact ⟨value, List.mem_cons_self⟩
    · exact ⟨value, List.mem_cons_of_mem _ hmem⟩

/-- An option leaves it to the rest whether the minimum rate is positive. -/
theorem ratesSound_option (h : validateOption countProcess entry state = .ok state') :
    RatesSound (entry :: options) state ↔ RatesSound options state' := by
  unfold RatesSound
  rw [hasRateRequestMin_cons]
  cases entry with
  | rateRequestMax value =>
    obtain ⟨rateMax, rateMin, rfl, hpos, hfrom, hle, rfl⟩ := validateRateRequestMax_spec h
    rcases hfrom with hsome | ⟨hnone, hderived⟩
    · simp [hsome]
    · have hoffset := addInteger_offset_pos hderived
      simp [hnone, firstRateRequestMax, hoffset]
  | rateRequestMin value =>
    obtain ⟨rateMin, rateMax, -, hpos, hle, rfl⟩ := validateRateRequestMin_spec h
    simp [hpos]
  | countMax value =>
    obtain ⟨countMax, -, -, rfl⟩ := validateCountMax_spec h
    simp [firstRateRequestMax]
  | countMin value =>
    obtain ⟨countMin, -, -, rfl⟩ := validateCountMin_spec h
    simp [firstRateRequestMax]
  | period value =>
    obtain ⟨period, -, rfl⟩ := validatePeriod_spec h
    simp [firstRateRequestMax]
  | other term => cases h

/-- The minimum rate of an accepted list. -/
theorem rateMin_pos_iff
    (h : OptionList.validate (validateOption countProcess) (validateEnd countProcess) options
      state = .ok result) :
    (∃ rateMin, result.rateMin = some rateMin ∧ 0 < rateMin.value) ↔ RatesSound options state := by
  refine OptionList.validate_induction (P := fun options state result =>
    (∃ rateMin, result.rateMin = some rateMin ∧ 0 < rateMin.value) ↔ RatesSound options state)
    ?complete ?option h
  case complete =>
    intro state result h
    obtain ⟨countMin, countMax, -, -, -, -, rfl⟩ := validateEnd_spec h
    cases hmin : state.rateMin with
    | some rateMin => simp [RatesSound, HasRateRequestMin, hmin]
    | none =>
      simp [RatesSound, HasRateRequestMin, hmin, firstRateRequestMax, rateRequestMinDefault,
        Number.value]
  case option =>
    intro entry options state state' result hok ih
    rw [ih, ratesSound_option hok]

/-! ## the counts -/

/-- The maximum count is no less than the count. -/
def MaxSound (countProcess : Int) (state : CountProcessDynamic) : Prop :=
  ∀ countMax ∈ state.countProcessMax, countProcess ≤ countMax

/-- The minimum count is no more than the count. -/
def MinSound (countProcess : Int) (state : CountProcessDynamic) : Prop :=
  ∀ countMin ∈ state.countProcessMin, countMin ≤ countProcess

/-- A `count_max` that is accepted is no less than the count, unless it is one and rounded. -/
theorem assignCountMax_sound (hcount : 1 ≤ countProcess)
    (h : assignCountMax countProcess entry value = .ok countMax) : countProcess ≤ countMax ↔
      (IsOne value → (countProcess : ℚ) ≤ Double.nearest countProcess) := by
  obtain ⟨n, rfl⟩ := Int.eq_ofNat_of_zero_le (show 0 ≤ countProcess by omega)
  unfold assignCountMax at h
  split at h
  · next f =>
      split at h
      · next hone =>
          rw [le_roundMax_iff (by omega) hone (of_arith h)]
          simp [IsOne]
      · cases h
  · next i =>
      split at h
      · next hle =>
          cases h
          simp [IsOne, hle]
      · cases h
  · cases h

/-- A `count_min` that is accepted is no more than the count, unless it is one and rounded. -/
theorem assignCountMin_sound (hcount : 1 ≤ countProcess)
    (h : assignCountMin countProcess entry value = .ok countMin) : countMin ≤ countProcess ↔
      (IsOne value → Double.nearest countProcess ≤ (countProcess : ℚ)) := by
  obtain ⟨n, rfl⟩ := Int.eq_ofNat_of_zero_le (show 0 ≤ countProcess by omega)
  unfold assignCountMin at h
  split at h
  · next f =>
      split at h
      · next hone =>
          rw [roundMin_le_iff (by omega) hone.1 hone.2 (of_arith h)]
          simp [IsOne]
      · cases h
  · next i =>
      split at h
      · next hle =>
          cases h
          simp [IsOne, hle.2]
      · cases h
  · cases h

theorem one_lt_countMaxDefault : 1 < countMaxDefault.value := by
  norm_num [countMaxDefault, ErlFloat.literal]

theorem countMinDefault_pos : 0 < countMinDefault.value := by norm_num [countMinDefault]

theorem countMinDefault_lt_one : countMinDefault.value < 1 := by norm_num [countMinDefault]

/-- An accepted option that is no `count_max` keeps whether the maximum is sound. -/
theorem maxSound_option (h : validateOption countProcess entry state = .ok state')
    (hentry : countMaxValue entry = none) :
    MaxSound countProcess state' ↔ MaxSound countProcess state := by
  cases entry with
  | rateRequestMax value =>
    obtain ⟨rateMax, rateMin, -, -, -, -, rfl⟩ := validateRateRequestMax_spec h
    rfl
  | rateRequestMin value =>
    obtain ⟨rateMin, rateMax, -, -, -, rfl⟩ := validateRateRequestMin_spec h
    rfl
  | countMax value => cases hentry
  | countMin value =>
    obtain ⟨countMin, -, -, rfl⟩ := validateCountMin_spec h
    cases hmax : state.countProcessMax <;> simp [MaxSound, hmax]
  | period value =>
    obtain ⟨period, -, rfl⟩ := validatePeriod_spec h
    rfl
  | other term => cases h

/-- An accepted option that is no `count_min` keeps whether the minimum is sound. -/
theorem minSound_option (h : validateOption countProcess entry state = .ok state')
    (hentry : countMinValue entry = none) :
    MinSound countProcess state' ↔ MinSound countProcess state := by
  cases entry with
  | rateRequestMax value =>
    obtain ⟨rateMax, rateMin, -, -, -, -, rfl⟩ := validateRateRequestMax_spec h
    rfl
  | rateRequestMin value =>
    obtain ⟨rateMin, rateMax, -, -, -, rfl⟩ := validateRateRequestMin_spec h
    rfl
  | countMax value =>
    obtain ⟨countMax, -, -, rfl⟩ := validateCountMax_spec h
    cases hmin : state.countProcessMin <;> simp [MinSound, hmin]
  | countMin value => cases hentry
  | period value =>
    obtain ⟨period, -, rfl⟩ := validatePeriod_spec h
    rfl
  | other term => cases h

/-- The maximum count of an accepted list. -/
theorem maxSound_iff (hcount : 1 ≤ countProcess)
    (h : OptionList.validate (validateOption countProcess) (validateEnd countProcess) options
      {} = .ok result) :
    MaxSound countProcess result ↔
      ∀ value, OptionList.lastOf countMaxValue options = some value → IsOne value →
        (countProcess : ℚ) ≤ Double.nearest countProcess := by
  have hlast := OptionList.validate_last_iff (S := MaxSound countProcess)
    (R := MaxSound countProcess)
    (T := fun value => IsOne value → (countProcess : ℚ) ≤ Double.nearest countProcess)
    ?complete ?pick (fun entry state state' => maxSound_option) h
  case complete =>
    intro state result h
    obtain ⟨countMin, countMax, hfrom, -, -, -, rfl⟩ := validateEnd_spec h
    rcases hfrom with hsome | ⟨hnone, hround⟩
    · simp [MaxSound, hsome]
    · obtain ⟨n, rfl⟩ := Int.eq_ofNat_of_zero_le (show 0 ≤ countProcess by omega)
      have hle := (le_roundMax_iff (by omega) one_lt_countMaxDefault.le hround).mpr
        fun heq => absurd heq (ne_of_gt one_lt_countMaxDefault)
      simp [MaxSound, hnone, hle]
  case pick =>
    intro entry state state' value hok hentry
    cases entry with
    | countMax value' =>
      cases hentry
      obtain ⟨countMax, hassign, -, rfl⟩ := validateCountMax_spec hok
      have hsound := assignCountMax_sound hcount hassign
      simpa [MaxSound] using hsound
    | _ => cases hentry
  rw [hlast]
  exact and_iff_left fun _ => by simp [MaxSound]

/-- The minimum count of an accepted list. -/
theorem minSound_iff (hcount : 1 ≤ countProcess)
    (h : OptionList.validate (validateOption countProcess) (validateEnd countProcess) options
      {} = .ok result) :
    MinSound countProcess result ↔
      ∀ value, OptionList.lastOf countMinValue options = some value → IsOne value →
        Double.nearest countProcess ≤ (countProcess : ℚ) := by
  have hlast := OptionList.validate_last_iff (S := MinSound countProcess)
    (R := MinSound countProcess)
    (T := fun value => IsOne value → Double.nearest countProcess ≤ (countProcess : ℚ))
    ?complete ?pick (fun entry state state' => minSound_option) h
  case complete =>
    intro state result h
    obtain ⟨countMin, countMax, -, hfrom, -, -, rfl⟩ := validateEnd_spec h
    rcases hfrom with hsome | ⟨hnone, hround⟩
    · simp [MinSound, hsome]
    · obtain ⟨n, rfl⟩ := Int.eq_ofNat_of_zero_le (show 0 ≤ countProcess by omega)
      have hle := (roundMin_le_iff (by omega) countMinDefault_pos countMinDefault_lt_one.le
        hround).mpr fun heq => absurd heq (ne_of_lt countMinDefault_lt_one)
      simp [MinSound, hnone, hle]
  case pick =>
    intro entry state state' value hok hentry
    cases entry with
    | countMin value' =>
      cases hentry
      obtain ⟨countMin, hassign, -, rfl⟩ := validateCountMin_spec hok
      have hsound := assignCountMin_sound hcount hassign
      simpa [MinSound] using hsound
    | _ => cases hentry
  rw [hlast]
  exact and_iff_left fun _ => by simp [MinSound]

/-! ## the order -/

/-- What is always so of an accepted list: the minimum is below the maximum, of the rates and of
the counts, and no count is below one. -/
structure Accepted (state : CountProcessDynamic) : Prop where
  method : state.method = some ()
  count : state.count = 0
  terminate : state.terminate = false
  period : ∃ period, state.period = some period ∧ PeriodValid period
  rates : ∃ rateMin rateMax, state.rateMin = some rateMin ∧ state.rateMax = some rateMax ∧
    rateMin.value < rateMax.value ∧ 0 < rateMax.value
  counts : ∃ countMin countMax, state.countProcessMin = some countMin ∧
    state.countProcessMax = some countMax ∧ 1 ≤ countMin ∧ countMin < countMax

/-- The last clause keeps the order, and refuses equal limits. -/
theorem Kept.complete (hcount : 1 ≤ countProcess) (hstate : Kept state)
    (h : validateEnd (τ := τ) countProcess state = .ok result) : Accepted result := by
  obtain ⟨n, rfl⟩ := Int.eq_ofNat_of_zero_le (show 0 ≤ countProcess by omega)
  obtain ⟨countMin, countMax, hmax, hmin, hrates, hcounts, rfl⟩ := validateEnd_spec h
  refine ⟨rfl, hstate.count, hstate.terminate, ⟨_, rfl, ?_⟩, ⟨_, _, rfl, rfl, ?_⟩,
    ⟨_, _, rfl, rfl, ?_⟩⟩
  · cases hperiod : state.period with
    | none => exact ⟨by decide, by decide⟩
    | some period => exact hstate.period period hperiod
  · rcases hstate.rates with ⟨hnoMin, hnoMax⟩ | ⟨rateMin, rateMax, hsomeMin, hsomeMax, hle, hpos⟩
    · rw [hnoMin, hnoMax]
      norm_num [Number.value, rateRequestMinDefault, rateRequestMaxDefault]
    · rw [hsomeMin, hsomeMax] at hrates ⊢
      exact ⟨lt_of_le_of_ne hle hrates, hpos⟩
  · rcases hstate.counts with ⟨hnoMin, hnoMax⟩ | ⟨countMin', countMax', hmin', hmax', hone, hle⟩
    · -- neither limit is given: the defaults are on both sides of the count
      simp only [hnoMax, hnoMin, reduceCtorEq, true_and, false_or] at hmax hmin
      have habove := (le_roundMax_iff (by omega) one_lt_countMaxDefault.le hmax).mpr
        fun heq => absurd heq (ne_of_gt one_lt_countMaxDefault)
      have hbelow := (roundMin_le_iff (by omega) countMinDefault_pos countMinDefault_lt_one.le
        hmin).mpr fun heq => absurd heq (ne_of_lt countMinDefault_lt_one)
      exact ⟨one_le_of_roundMin hmin, lt_of_le_of_ne (hbelow.trans habove) hcounts⟩
    · simp only [hmin', hmax', Option.some.injEq, reduceCtorEq, false_and, or_false] at hmax hmin
      subst hmax hmin
      exact ⟨hone, lt_of_le_of_ne hle hcounts⟩

theorem accepted_of_validate (hschedulers : 0 < schedulers) {countProcess : Number}
    (hcount : Concurrency.count schedulers countProcess = some countProcessInteger)
    (h : validate schedulers options countProcess = .ok state) :
    1 ≤ countProcessInteger ∧ Accepted state ∧
      OptionList.validate (validateOption countProcessInteger) (validateEnd countProcessInteger)
        options {} = .ok state := by
  have hpos : 1 ≤ countProcessInteger := Concurrency.count_pos hschedulers hcount
  rw [validate, hcount] at h
  obtain ⟨state', hkept, hend⟩ := OptionList.validate_invariant
    (fun entry state state' hstate hok => hstate.option hpos hok) kept_start h
  exact ⟨hpos, hkept.complete hpos hend, h⟩

/-- The order is there when the minimum rate is positive and the count between its limits. -/
theorem Accepted.inOrder_iff (h : Accepted state) : InOrder state countProcess ↔
      (∃ rateMin, state.rateMin = some rateMin ∧ 0 < rateMin.value) ∧
        MaxSound countProcess state ∧ MinSound countProcess state := by
  constructor
  · intro horder
    obtain ⟨rateMin, rateMax, hmin, -, hpos, -⟩ := horder.rates
    obtain ⟨countMin, countMax, hcountMin, hcountMax, -, hle, hle', -⟩ := horder.counts
    exact ⟨⟨rateMin, hmin, hpos⟩, by simpa [MaxSound, hcountMax] using hle',
      by simpa [MinSound, hcountMin] using hle⟩
  · rintro ⟨⟨rateMin, hmin, hpos⟩, hmax, hmin'⟩
    obtain ⟨rateMin', rateMax, hrateMin, hrateMax, hlt, -⟩ := h.rates
    obtain ⟨countMin, countMax, hcountMin, hcountMax, hone, hcounts⟩ := h.counts
    rw [hrateMin] at hmin
    cases hmin
    exact ⟨⟨rateMin, rateMax, hrateMin, hrateMax, hpos, hlt⟩,
      ⟨countMin, countMax, hcountMin, hcountMax, hone, hmin' countMin hcountMin,
        hmax countMax hcountMax, hcounts⟩⟩

theorem inOrder_iff_sound (hschedulers : 0 < schedulers) {countProcess : Number}
    (hcount : Concurrency.count schedulers countProcess = some countProcessInteger)
    (h : validate schedulers options countProcess = .ok state) :
    InOrder state countProcessInteger ↔ Sound options countProcessInteger := by
  obtain ⟨hpos, haccepted, hvalidate⟩ := accepted_of_validate hschedulers hcount h
  rw [haccepted.inOrder_iff, rateMin_pos_iff hvalidate, maxSound_iff hpos hvalidate,
    minSound_iff hpos hvalidate]
  exact ⟨fun ⟨hrates, hmax, hmin⟩ => ⟨hrates, hmax, hmin⟩,
    fun hsound => ⟨hsound.rates, hsound.countMax, hsound.countMin⟩⟩

/-- **The order of a dynamic process count**: of every accepted list, the rates and the counts are
in order exactly when the minimum rate is given or derived from more than the offset, and no last
limit of one is rounded to the wrong side of the count. -/
theorem validate_inOrder_iff {schedulers : Nat} (hschedulers : 0 < schedulers)
    {options : List (Entry τ)} {countProcess : Number} {countProcessInteger : Int}
    {state : CountProcessDynamic}
    (hcount : Concurrency.count schedulers countProcess = some countProcessInteger)
    (h : validate schedulers options countProcess = .ok state) :
    InOrder state countProcessInteger ↔ Sound options countProcessInteger :=
  inOrder_iff_sound hschedulers hcount h

/-- Two to nine processes of four, with the minimum rate derived from the maximum. -/
theorem validate_inOrder_iff_derived : InOrder
        ⟨some (), some 5, 0, some (.integer 30), some (.integer 20), some 9, some 2, false⟩ 4 ↔
      Sound ([.rateRequestMax (.number (.integer 30)), .countMax (.number (.integer 9)),
        .countMin (.number (.integer 2))] : List (Entry Empty)) 4 :=
  validate_inOrder_iff (show 0 < 8 by decide)
    (show Concurrency.count 8 (.integer 4) = some 4 from rfl) (by decide)

/-- One or two processes, and a maximum rate of five: the minimum rate becomes minus five. -/
theorem not_inOrder_of_small_rate : ∃ state, validate 8 ([.rateRequestMax (.number (.integer 5)),
        .countMax (.number (.integer 2)), .countMin (.number (.integer 1))] : List (Entry Empty))
        (.integer 1) = .ok state ∧
      state.rateMin = some (.integer (-5)) ∧ ¬ InOrder state 1 := by
  refine ⟨⟨some (), some 5, 0, some (.integer 5), some (.integer (-5)), some 2, some 1, false⟩,
    ?_, rfl, ?_⟩
  · decide
  · rintro ⟨⟨rateMin, rateMax, hmin, -, hpos, -⟩, -⟩
    cases hmin
    norm_num [Number.value] at hpos

end CloudI.RateBased.CountProcessDynamic
