import CloudI.RateBased.InOrder
import CloudI.RateBased.RateRequest

/-!
# RateBased.Formats

The rate based options are read back: the configuration format of an accepted option is validated
again.  `hibernate`, `restart_delay` and `rate_request_max` are accepted and are the same.
`count_process_dynamic` is so exactly when its rates and counts are in order.
-/

namespace CloudI.RateBased

open OptionList (validate_cons validate_nil)
open CloudI.Except (ok_bind ok_of_bind ok_of_map)

variable {τ : Type}

/-- What is formatted is validated to the same state. -/
def Survives {ε κ σ : Type} (validate : κ → Except ε σ) (format : σ → Option κ) (state : σ) :
    Prop :=
  ∃ config, format state = some config ∧ validate config = .ok state

/-! ## an atom in place of the options -/

section Atom

variable {A ε κ σ : Type} {validate : κ → Except ε σ} {format : σ → Option κ}

/-- The validation of an option that may be an atom. -/
def validateAtom (A : Type) (validate : κ → Except ε σ) : A ⊕ κ → Except ε (A ⊕ σ)
  | .inl atom => .ok (.inl atom)
  | .inr options => (validate options).map .inr

/-- The format of an option that may be an atom. -/
def formatAtom (A : Type) (format : σ → Option κ) : A ⊕ σ → Option (A ⊕ κ)
  | .inl atom => some (.inl atom)
  | .inr state => (format state).map .inr

theorem survives_inl (atom : A) :
    Survives (validateAtom A validate) (formatAtom A format) (.inl atom) :=
  ⟨.inl atom, rfl, rfl⟩

theorem survives_inr : Survives (validateAtom A validate) (formatAtom A format) (.inr state) ↔
      Survives validate format state := by
  constructor
  · rintro ⟨config, hformat, hvalidate⟩
    obtain ⟨options, hoptions, rfl⟩ := Option.map_eq_some_iff.mp hformat
    obtain ⟨state', hstate', heq⟩ := ok_of_map hvalidate
    cases heq
    exact ⟨options, hoptions, hstate'⟩
  · rintro ⟨options, hformat, hvalidate⟩
    refine ⟨.inr options, ?_, ?_⟩
    · rw [formatAtom, hformat, Option.map_some]
    · rw [validateAtom, hvalidate, Except.map]

theorem survives_atom
    (h : ∀ options state, validate options = .ok state → Survives validate format state)
    {config : A ⊕ κ} {setting : A ⊕ σ} (hok : validateAtom A validate config = .ok setting) :
    Survives (validateAtom A validate) (formatAtom A format) setting := by
  cases config with
  | inl atom =>
    cases hok
    exact survives_inl atom
  | inr options =>
    obtain ⟨state, hstate, rfl⟩ := ok_of_map hok
    exact survives_inr.mpr (h options state hstate)

end Atom

/-! ## `hibernate` -/

namespace Hibernate

/-- `hibernate_validate/1`; the atoms are `true` and `false`. -/
def validateConfig : Bool ⊕ List (Entry τ) → Except (Failure τ) (Bool ⊕ Hibernate) :=
  validateAtom Bool validate

/-- `hibernate_format/1`. -/
def formatConfig : Bool ⊕ Hibernate → Option (Bool ⊕ List (Entry τ)) := formatAtom Bool format

theorem survives {options : List (Entry τ)} {state : Hibernate}
    (h : validate options = .ok state) : Survives (validate (τ := τ)) format state := by
  obtain ⟨period, rateMin, hperiod, hpos, rfl⟩ := exists_of_validate h
  refine ⟨_, rfl, ?_⟩
  have hfirst : validateOption (.period (.number (.integer period))) {} =
      .ok (ε := Failure τ) { period := some period } := by
    simp only [validateOption, periodAssign_integer hperiod]
  have hsecond : validateOption (.rateRequestMin (.number rateMin)) { period := some period } =
      .ok (ε := Failure τ) ⟨some (), some period, 0, some rateMin, false⟩ := by
    simp only [validateOption, rateAssign_number hpos]
  rw [validate, validate_cons hfirst, validate_cons hsecond,
    validate_nil, validateEnd]
  rfl

end Hibernate

/-! ## `restart_delay` -/

namespace RestartDelay

/-- `restart_delay_validate/1`; the atom is `false`. -/
def validateConfig : Unit ⊕ List (Entry τ) → Except (Failure τ) (Unit ⊕ RestartDelay) :=
  validateAtom Unit validate

/-- `restart_delay_format/1`. -/
def formatConfig : Unit ⊕ RestartDelay → Option (Unit ⊕ List (Entry τ)) := formatAtom Unit format

end RestartDelay

/-! ## `rate_request_max` -/

namespace RateRequest

/-- A number or a list of options. -/
inductive Config (τ : Type) where
  | value (x : Number)
  | options (options : List (Entry τ))
  deriving DecidableEq

/-- The clauses of `rate_request_validate/1` for a number and for a list. -/
def validateNumber : Config τ → Except (Failure τ) RateRequest
  | .value x => validate [.value (.number x)]
  | .options options => validate options

/-- `rate_request_validate/1`; the atom is `undefined`. -/
def validateConfig : Unit ⊕ Config τ → Except (Failure τ) (Unit ⊕ RateRequest) :=
  validateAtom Unit validateNumber

/-- `rate_request_format/1`, which makes a list. -/
def formatConfig : Unit ⊕ RateRequest → Option (Unit ⊕ Config τ) :=
  formatAtom Unit fun state => (format state).map .options

theorem survives {config : Config τ} {state : RateRequest} (h : validateNumber config = .ok state) :
    Survives (validateNumber (τ := τ)) (fun state => (format state).map .options) state := by
  obtain ⟨options, hoptions⟩ : ∃ options : List (Entry τ), validate options = .ok state := by
    cases config with
    | value x => exact ⟨_, h⟩
    | options options => exact ⟨options, h⟩
  obtain ⟨period, rateMax, hperiod, hpos, rfl⟩ := exists_of_validate hoptions
  refine ⟨_, rfl, ?_⟩
  have hfirst : validateOption (.period (.number (.integer period))) {} =
      .ok (ε := Failure τ) { period := some period } := by
    simp only [validateOption, periodAssign_integer hperiod]
  have hsecond : validateOption (.value (.number rateMax)) { period := some period } =
      .ok (ε := Failure τ) ⟨some period, 0, some rateMax, false⟩ := by
    simp only [validateOption, rateAssign_number hpos]
  rw [validateNumber, validate, validate_cons hfirst, validate_cons hsecond,
    validate_nil, validateEnd]
  rfl

end RateRequest

/-! ## `count_process_dynamic` -/

namespace CountProcessDynamic

/-- The clauses of `count_process_dynamic_validate/2` for a list, which want a number. -/
def validateNumber (schedulers : Nat) (countProcess : Option Number) (options : List (Entry τ)) :
    Except (Failure τ) CountProcessDynamic :=
  match countProcess with
  | some countProcess => validate schedulers options countProcess
  | none => .error .functionClause

/-- `count_process_dynamic_validate/2`; the atom is `false`, and a count that is `undefined` is
`none`. -/
def validateConfig (schedulers : Nat) (countProcess : Option Number) :
    Unit ⊕ List (Entry τ) → Except (Failure τ) (Unit ⊕ CountProcessDynamic) :=
  validateAtom Unit (validateNumber schedulers countProcess)

/-- `count_process_dynamic_format/1`. -/
def formatConfig : Unit ⊕ CountProcessDynamic → Option (Unit ⊕ List (Entry τ)) :=
  formatAtom Unit format

/-- The exact condition on a configuration: its options are sound for the count of processes. -/
def SoundConfig (schedulers : Nat) (countProcess : Option Number) :
    Unit ⊕ List (Entry τ) → Prop
  | .inl () => True
  | .inr options => ∀ number count, countProcess = some number →
      Concurrency.count schedulers number = some count → Sound options count

variable {countProcess : Number} {schedulers : Nat} {count : Int} {state : CountProcessDynamic}

theorem validate_format_of_inOrder (hcount : Concurrency.count schedulers countProcess = some count)
    (haccepted : Accepted state) (horder : InOrder state count) :
    Survives (fun options : List (Entry τ) => validate schedulers options countProcess) format
      state := by
  obtain ⟨method, period, requests, rateMax, rateMin, countMax, countMin, terminate⟩ := state
  obtain ⟨rfl, rfl, rfl, ⟨period, rfl, hperiod⟩, -, -⟩ := haccepted
  obtain ⟨⟨rateMin, rateMax, rfl, rfl, hratePos, hrates⟩,
    ⟨countMin, countMax, rfl, rfl, hone, hle, hle', hcounts⟩⟩ := horder
  refine ⟨_, rfl, ?_⟩
  obtain ⟨derived, hderived, hderivedLe⟩ := Number.sub_isSome (hratePos.trans hrates)
    (show 0 ≤ rateRequestOffsetDefault by decide) (by decide)
  have hperiodOk : validateOption count (.period (.number (.integer period))) {} =
      .ok (ε := Failure τ) { period := some period } := by
    simp only [validateOption, validatePeriod, periodAssign_integer hperiod]
  have hrateMaxOk : validateOption count (.rateRequestMax (.number rateMax))
        { period := some period } =
      .ok (ε := Failure τ) ⟨some (), some period, 0, some rateMax, some derived, none, none,
        false⟩ := by
    simp only [validateOption, validateRateRequestMax, rateAssign_number (hratePos.trans hrates),
      getOr, hderived, arith, ok_bind, if_pos hderivedLe]
    rfl
  have hrateMinOk : validateOption count (.rateRequestMin (.number rateMin))
        ⟨some (), some period, 0, some rateMax, some derived, none, none, false⟩ =
      .ok (ε := Failure τ) ⟨some (), some period, 0, some rateMax, some rateMin, none, none,
        false⟩ := by
    simp only [validateOption, validateRateRequestMin, rateAssign_number hratePos, getOr,
      ok_bind, if_pos hrates.le]
    rfl
  have hcountMaxOk : validateOption count (.countMax (.number (.integer countMax)))
        ⟨some (), some period, 0, some rateMax, some rateMin, none, none, false⟩ =
      .ok (ε := Failure τ) ⟨some (), some period, 0, some rateMax, some rateMin, some countMax,
        some count, false⟩ := by
    simp [validateOption, validateCountMax, assignCountMax, hle']
  have hcountMinOk : validateOption count (.countMin (.number (.integer countMin)))
        ⟨some (), some period, 0, some rateMax, some rateMin, some countMax, some count, false⟩ =
      .ok (ε := Failure τ) ⟨some (), some period, 0, some rateMax, some rateMin, some countMax,
        some countMin, false⟩ := by
    simp [validateOption, validateCountMin, assignCountMin, hle, hcounts.le,
      show 0 < countMin by omega]
  simp only [validate, hcount]
  rw [validate_cons hperiodOk, validate_cons hrateMaxOk,
    validate_cons hrateMinOk, validate_cons hcountMaxOk,
    validate_cons hcountMinOk, validate_nil]
  simp [validateEnd, getOr, hrates.ne, hcounts.ne]

/-- What survives has a minimum rate that is positive and counts around the count. -/
theorem inOrder_of_validate_format (hcount : Concurrency.count schedulers countProcess = some count)
    (haccepted : Accepted state)
    (h : Survives (fun options : List (Entry τ) => validate schedulers options countProcess) format
      state) : InOrder state count := by
  obtain ⟨method, period, requests, rateMax, rateMin, countMax, countMin, terminate⟩ := state
  obtain ⟨rfl, rfl, rfl, ⟨period, rfl, hperiod⟩, ⟨rateMin, rateMax, rfl, rfl, hrates, -⟩,
    ⟨countMin, countMax, rfl, rfl, hone, hcounts⟩⟩ := haccepted
  obtain ⟨options, hformat, hvalidate⟩ := h
  cases hformat
  -- every option of the format was accepted
  simp only [validate, hcount, OptionList.validate] at hvalidate
  obtain ⟨_, -, hvalidate⟩ := ok_of_bind hvalidate
  obtain ⟨_, -, hvalidate⟩ := ok_of_bind hvalidate
  obtain ⟨_, hrateMinOk, hvalidate⟩ := ok_of_bind hvalidate
  obtain ⟨_, hcountMaxOk, hvalidate⟩ := ok_of_bind hvalidate
  obtain ⟨_, hcountMinOk, -⟩ := ok_of_bind hvalidate
  obtain ⟨rateMin', -, hvalue, hpos, -⟩ := validateRateRequestMin_spec hrateMinOk
  cases hvalue
  obtain ⟨_, hassignMax, -⟩ := validateCountMax_spec hcountMaxOk
  obtain ⟨_, hassignMin, -⟩ := validateCountMin_spec hcountMinOk
  refine ⟨⟨rateMin, rateMax, rfl, rfl, hpos, hrates⟩,
    ⟨countMin, countMax, rfl, rfl, hone, ?_, ?_, hcounts⟩⟩
  · simp only [assignCountMin] at hassignMin
    split at hassignMin
    · next hle => exact hle.2
    · cases hassignMin
  · simp only [assignCountMax] at hassignMax
    split at hassignMax
    · next hle => exact hle
    · cases hassignMax

theorem survives_iff (hschedulers : 0 < schedulers) {countProcess : Option Number}
    {config : Unit ⊕ List (Entry τ)} {setting : Unit ⊕ CountProcessDynamic}
    (h : validateConfig schedulers countProcess config = .ok setting) :
    Survives (validateConfig (τ := τ) schedulers countProcess) formatConfig setting ↔
      SoundConfig schedulers countProcess config := by
  cases config with
  | inl atom =>
    cases h
    exact iff_of_true (survives_inl ()) trivial
  | inr options =>
    obtain ⟨state, hstate, rfl⟩ := ok_of_map h
    refine survives_inr.trans ?_
    cases countProcess with
    | none => cases hstate
    | some number =>
      cases hcount : Concurrency.count schedulers number with
      | none =>
        rw [validateNumber, validate, hcount] at hstate
        cases hstate
      | some count =>
        obtain ⟨-, haccepted, -⟩ := accepted_of_validate hschedulers hcount hstate
        have horder : InOrder state count ↔ SoundConfig schedulers (some number)
            (.inr options) := by
          rw [inOrder_iff_sound hschedulers hcount hstate]
          refine ⟨fun hsound number' count' hnumber hcount' => ?_,
            fun hsound => hsound number count rfl hcount⟩
          cases hnumber
          cases hcount.symm.trans hcount'
          exact hsound
        rw [← horder]
        exact ⟨inOrder_of_validate_format hcount haccepted,
          validate_format_of_inOrder hcount haccepted⟩

end CountProcessDynamic

/-- **Rate based options are read back**: whatever is accepted for `hibernate`, `restart_delay`
and `rate_request_max` is accepted again from its format and is the same.  What is accepted for
`count_process_dynamic` is so exactly when the options are sound. -/
theorem survives_formatting {schedulers : Nat} (hschedulers : 0 < schedulers) :
    (∀ (config : Bool ⊕ List (Hibernate.Entry τ)) setting,
      Hibernate.validateConfig config = .ok setting →
        Survives (Hibernate.validateConfig (τ := τ)) Hibernate.formatConfig setting) ∧
    (∀ (config : Unit ⊕ List (RestartDelay.Entry τ)) setting,
      RestartDelay.validateConfig config = .ok setting →
        Survives (RestartDelay.validateConfig (τ := τ)) RestartDelay.formatConfig setting) ∧
    (∀ (config : Unit ⊕ RateRequest.Config τ) setting,
      RateRequest.validateConfig config = .ok setting →
        Survives (RateRequest.validateConfig (τ := τ)) RateRequest.formatConfig setting) ∧
    ∀ (config : Unit ⊕ List (CountProcessDynamic.Entry τ)) countProcess setting,
      CountProcessDynamic.validateConfig schedulers countProcess config = .ok setting →
        (Survives (CountProcessDynamic.validateConfig (τ := τ) schedulers countProcess)
            CountProcessDynamic.formatConfig setting ↔
          CountProcessDynamic.SoundConfig schedulers countProcess config) := by
  refine ⟨fun config setting h => ?_, fun config setting h => ?_, fun config setting h => ?_,
    fun config countProcess setting h => CountProcessDynamic.survives_iff hschedulers h⟩
  · exact survives_atom (fun options state hok => Hibernate.survives hok) h
  · exact survives_atom
      (fun options state hok => (RestartDelay.valid_of_validate hok).validate_format) h
  · exact survives_atom (fun options state hok => RateRequest.survives hok) h

/-- The options of a `count_process_dynamic` with two rates. -/
theorem survives_formatting_twoRates :
    Survives (CountProcessDynamic.validateConfig (τ := Empty) 8 (some (.integer 4)))
        CountProcessDynamic.formatConfig
        (.inr ⟨some (), some 5, 0, some (.integer 30), some (.integer 3), some 9, some 2, false⟩) ↔
      CountProcessDynamic.SoundConfig (τ := Empty) 8 (some (.integer 4))
        (.inr [.rateRequestMin (.number (.integer 3)), .rateRequestMax (.number (.integer 30)),
          .countMax (.number (.integer 9)), .countMin (.number (.integer 2))]) :=
  (survives_formatting (show 0 < 8 by decide)).2.2.2 _ _ _ (by decide)

/-- A maximum rate of five is accepted, and its format is not: the minimum rate is minus five. -/
theorem small_rate_refused : CountProcessDynamic.validateConfig (τ := Empty) 8 (some (.integer 1))
        (.inr [.rateRequestMax (.number (.integer 5)), .countMax (.number (.integer 2)),
          .countMin (.number (.integer 1))]) =
      .ok (.inr ⟨some (), some 5, 0, some (.integer 5), some (.integer (-5)), some 2, some 1,
        false⟩) ∧
    CountProcessDynamic.formatConfig (τ := Empty)
        (.inr ⟨some (), some 5, 0, some (.integer 5), some (.integer (-5)), some 2, some 1,
          false⟩) =
      some (.inr [.period (.number (.integer 5)), .rateRequestMax (.number (.integer 5)),
        .rateRequestMin (.number (.integer (-5))), .countMax (.number (.integer 2)),
        .countMin (.number (.integer 1))]) ∧
    CountProcessDynamic.validateConfig (τ := Empty) 8 (some (.integer 1))
        (.inr [.period (.number (.integer 5)), .rateRequestMax (.number (.integer 5)),
          .rateRequestMin (.number (.integer (-5))), .countMax (.number (.integer 2)),
          .countMin (.number (.integer 1))]) =
      .error (.invalid (.rateRequestMin (.number (.integer (-5))))) := by
  refine ⟨by decide, by decide, by decide⟩

end CloudI.RateBased
