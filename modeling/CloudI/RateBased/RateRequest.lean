import CloudI.Library.Run
import CloudI.RateBased.CountProcessDynamic

/-!
# RateBased.RateRequest

The options `hibernate` and `rate_request_max` of `cloudi_core_i_rate_based_configuration`: the
validation and the configuration format.  Both compare the rate of the service requests in a
period with a number; `rate_request_max` admits the requests of each period up to that rate.
-/

namespace CloudI.RateBased

open Option

variable {τ : Type}

/-! ## `hibernate` -/

namespace Hibernate

/-- The options of `hibernate`. -/
inductive Entry (τ : Type) where
  | rateRequestMin (value : NumberValue τ)
  | period (value : NumberValue τ)
  | other (term : τ)
  deriving DecidableEq

/-- The second element of the error `service_options_hibernate_invalid`. -/
inductive Failure (τ : Type) where
  | invalid (entry : Entry τ)
  deriving DecidableEq

end Hibernate

/-- `#hibernate{}`; `none` is `undefined`, and a method that is there is `rate_request`. -/
structure Hibernate where
  method : Option Unit := none
  period : Option Int := none
  count : Nat := 0
  rateMin : Option Number := none
  hibernate : Bool := false
  deriving DecidableEq

namespace Hibernate

/-- `?HIBERNATE_PERIOD_DEFAULT`. -/
def periodDefault : Int := 5
/-- `?HIBERNATE_RATE_REQUEST_MIN_DEFAULT`. -/
def rateRequestMinDefault : Int := 1

/-- The clauses of `hibernate_validate/2` that take an option. -/
def validateOption (entry : Entry τ) (state : Hibernate) : Except (Failure τ) Hibernate :=
  match entry with
  | .rateRequestMin value =>
      match rateAssign value with
      | some rateMin => .ok { state with method := some (), rateMin := some rateMin }
      | none => .error (.invalid entry)
  | .period value =>
      match periodAssign value with
      | some period => .ok { state with period := some period }
      | none => .error (.invalid entry)
  | .other _ => .error (.invalid entry)

/-- The clause of `hibernate_validate/2` without options.  The only method is `rate_request`. -/
def validateEnd (state : Hibernate) : Except (Failure τ) Hibernate :=
  .ok { state with
    method := some ()
    period := some (state.period.getD periodDefault)
    rateMin := some (state.rateMin.getD (.integer rateRequestMinDefault)) }

/-- `hibernate_validate/1` of a list of options. -/
def validate (options : List (Entry τ)) : Except (Failure τ) Hibernate :=
  OptionList.validate validateOption validateEnd options {}

/-- `hibernate_format/1` of a record; `none` where no clause matches or a field is `undefined`. -/
def format (state : Hibernate) : Option (List (Entry τ)) :=
  match state.method, state.period, state.rateMin with
  | some (), some period, some rateMin =>
      some [.period (.number (.integer period)), .rateRequestMin (.number rateMin)]
  | _, _, _ => none

/-- The options set what is admitted. -/
structure Kept (state : Hibernate) : Prop where
  period : ∀ period ∈ state.period, PeriodValid period
  rateMin : ∀ rateMin ∈ state.rateMin, 0 < rateMin.value
  count : state.count = 0
  hibernate : state.hibernate = false

theorem Kept.option (hstate : Kept state) (h : validateOption entry state = .ok state') :
    Kept state' := by
  cases entry with
  | rateRequestMin value =>
    simp only [validateOption] at h
    split at h
    · next rateMin hassign =>
        cases h
        exact { hstate with rateMin := by simpa using (pos_of_rateAssign hassign).2 }
    · cases h
  | period value =>
    simp only [validateOption] at h
    split at h
    · next period hassign =>
        cases h
        exact { hstate with period := by simpa using periodValid_of_periodAssign hassign }
    · cases h
  | other term => cases h

/-- What is accepted has a period and a minimum rate. -/
theorem exists_of_validate (h : validate options = .ok state) :
    ∃ period rateMin, PeriodValid period ∧ 0 < rateMin.value ∧
      state = ⟨some (), some period, 0, some rateMin, false⟩ := by
  have hstart : Kept {} := ⟨by simp, by simp, rfl, rfl⟩
  obtain ⟨⟨method, period, count, rateMin, hibernate⟩, ⟨hperiod, hrateMin, hcount, hhibernate⟩,
    hend⟩ := OptionList.validate_invariant
      (fun entry state state' hstate hok => hstate.option hok) hstart h
  cases hend
  cases hcount
  cases hhibernate
  refine ⟨_, _, ?_, ?_, rfl⟩
  · cases period with
    | none => exact (⟨by decide, by decide⟩ : PeriodValid periodDefault)
    | some period => exact hperiod period rfl
  · cases rateMin with
    | none => norm_num [Number.value, rateRequestMinDefault]
    | some rateMin => exact hrateMin rateMin rfl

end Hibernate

/-! ## `rate_request_max` -/

namespace RateRequest

/-- The options of `rate_request_max`. -/
inductive Entry (τ : Type) where
  | value (value : NumberValue τ)
  | period (value : NumberValue τ)
  | other (term : τ)
  deriving DecidableEq

/-- The second element of the error `service_options_rate_request_max_invalid`. -/
inductive Failure (τ : Type) where
  | invalid (entry : Entry τ)
  deriving DecidableEq

end RateRequest

/-- `#rate_request{}`; `none` is `undefined`. -/
structure RateRequest where
  period : Option Int := none
  count : Nat := 0
  rateMax : Option Number := none
  blocking : Bool := false
  deriving DecidableEq

namespace RateRequest

/-- `?RATE_REQUEST_PERIOD_DEFAULT`. -/
def periodDefault : Int := 5
/-- `?RATE_REQUEST_MAX_DEFAULT`. -/
def maxDefault : Int := 1000

/-- The clauses of `rate_request_validate/2` that take an option. -/
def validateOption (entry : Entry τ) (state : RateRequest) : Except (Failure τ) RateRequest :=
  match entry with
  | .value value =>
      match rateAssign value with
      | some rateMax => .ok { state with rateMax := some rateMax }
      | none => .error (.invalid entry)
  | .period value =>
      match periodAssign value with
      | some period => .ok { state with period := some period }
      | none => .error (.invalid entry)
  | .other _ => .error (.invalid entry)

/-- The clause of `rate_request_validate/2` without options. -/
def validateEnd (state : RateRequest) : Except (Failure τ) RateRequest :=
  .ok { state with
    period := some (state.period.getD periodDefault)
    rateMax := some (state.rateMax.getD (.integer maxDefault)) }

/-- `rate_request_validate/1` of a list of options. -/
def validate (options : List (Entry τ)) : Except (Failure τ) RateRequest :=
  OptionList.validate validateOption validateEnd options {}

/-- `rate_request_format/1` of a record; `none` where a field is `undefined`. -/
def format (state : RateRequest) : Option (List (Entry τ)) :=
  match state.period, state.rateMax with
  | some period, some rateMax =>
      some [.period (.number (.integer period)), .value (.number rateMax)]
  | _, _ => none

/-- The options set what is admitted. -/
structure Kept (state : RateRequest) : Prop where
  period : ∀ period ∈ state.period, PeriodValid period
  rateMax : ∀ rateMax ∈ state.rateMax, 0 < rateMax.value
  count : state.count = 0
  blocking : state.blocking = false

theorem Kept.option (hstate : Kept state) (h : validateOption entry state = .ok state') :
    Kept state' := by
  cases entry with
  | value value =>
    simp only [validateOption] at h
    split at h
    · next rateMax hassign =>
        cases h
        exact { hstate with rateMax := by simpa using (pos_of_rateAssign hassign).2 }
    · cases h
  | period value =>
    simp only [validateOption] at h
    split at h
    · next period hassign =>
        cases h
        exact { hstate with period := by simpa using periodValid_of_periodAssign hassign }
    · cases h
  | other term => cases h

/-- What is accepted has a period and a maximum rate. -/
theorem exists_of_validate (h : validate options = .ok state) :
    ∃ period rateMax, PeriodValid period ∧ 0 < rateMax.value ∧
      state = ⟨some period, 0, some rateMax, false⟩ := by
  have hstart : Kept {} := ⟨by simp, by simp, rfl, rfl⟩
  obtain ⟨⟨period, count, rateMax, blocking⟩, ⟨hperiod, hrateMax, hcount, hblocking⟩, hend⟩ :=
    OptionList.validate_invariant (fun entry state state' hstate hok => hstate.option hok) hstart h
  cases hend
  cases hcount
  cases hblocking
  refine ⟨_, _, ?_, ?_, rfl⟩
  · cases period with
    | none => exact (⟨by decide, by decide⟩ : PeriodValid periodDefault)
    | some period => exact hperiod period rfl
  · cases rateMax with
    | none => norm_num [Number.value, maxDefault]
    | some rateMax => exact hrateMax rateMax rfl

open Double Run

/-! ## the requests of a period -/

/-- `A / B` of integers, which are made floats first. -/
def divide (i j : Int) : Option ErlFloat := do
  let f ← ErlFloat.ofRat i
  let g ← ErlFloat.ofRat j
  if g.value = 0 then none else ErlFloat.ofRat (f.value / g.value)

/-- `rate_request_init/1`. -/
def init (state : RateRequest) : RateRequest := { state with count := 0, blocking := false }

/-- `rate_request_reinit/1` of a record. -/
def reinit (state : RateRequest) : RateRequest := { state with count := 0, blocking := false }

/-- `rate_request_request/1`; `none` where the division raises `badarith`. -/
def request (state : RateRequest) : Option (Bool × RateRequest) :=
  if state.blocking then some (false, state)
  else do
    let newCount := state.count + 1
    let rate ← divide newCount (← state.period)
    if (← state.rateMax).value < rate.value then some (false, { state with blocking := true })
    else some (true, { state with count := newCount })

/-- A request comes, or `cloudi_rate_request_max_rate` ends the period. -/
inductive Event where
  | request
  | maxRate

/-- The record, and the answers to the requests of the period. -/
structure World where
  state : RateRequest
  answers : List Bool

def next (w : World) : Event → Option World
  | .request => (request w.state).map fun x => ⟨x.2, w.answers ++ [x.1]⟩
  | .maxRate => some ⟨reinit w.state, []⟩

/-- So many requests in a period keep to the rate. -/
def within (period : Int) (rateMax : Number) (n : Nat) : Bool :=
  nearest (nearest n / nearest period) ≤ rateMax.value

/-- Each request so far was answered by its number in the period, and from the first one that is
refused the record blocks. -/
structure Counted (period : Int) (rateMax : Number) (w : World) : Prop where
  options : w.state.period = some period ∧ w.state.rateMax = some rateMax
  answers : w.answers = (List.range w.answers.length).map fun n => within period rateMax (n + 1)
  count : if w.state.blocking then
      w.state.count < w.answers.length ∧ within period rateMax (w.state.count + 1) = false
    else w.state.count = w.answers.length

variable {period : Int} {rateMax : Number} {w w' : World}

theorem within_of_le (h : within period rateMax n = true) (hle : m ≤ n) (hperiod : 0 < period) :
    within period rateMax m = true := by
  have hpos : 0 ≤ nearest period := isDouble_zero.le_nearest (by exact_mod_cast hperiod.le)
  have hnear : nearest m ≤ nearest n := nearest_mono (by exact_mod_cast hle)
  exact decide_eq_true
    ((nearest_mono (div_le_div_of_nonneg_right hnear hpos)).trans (of_decide_eq_true h))

theorem value_of_divide {i j : Int} {f : ErlFloat} (h : divide i j = some f) :
    f.value = nearest (nearest i / nearest j) := by
  simp only [divide, bind_eq_bind, bind_eq_some_iff,
    ite_none_left_eq_some] at h
  obtain ⟨a, ha, b, hb, -, hf⟩ := h
  rw [ErlFloat.value_of_ofRat hf, ErlFloat.value_of_ofRat ha, ErlFloat.value_of_ofRat hb]

/-- **Step lemma**. -/
theorem Counted.next (h : Counted period rateMax w) (hperiod : 0 < period)
    (hnext : next w event = some w') : Counted period rateMax w' := by
  obtain ⟨⟨_, count, _, blocking⟩, answers⟩ := w
  obtain ⟨⟨rfl, rfl⟩, hanswers, hcount⟩ := h
  dsimp only at hanswers hcount
  cases event with
  | maxRate =>
    cases hnext
    exact ⟨⟨rfl, rfl⟩, rfl, rfl⟩
  | request =>
    obtain ⟨⟨ok, state⟩, hrequest, rfl⟩ := map_eq_some_iff.mp hnext
    have hlast (hok : ok = within period rateMax (answers.length + 1)) :
        answers ++ [ok] = (List.range (answers ++ [ok]).length).map
          fun n => within period rateMax (n + 1) := by
      rw [List.length_append, List.length_singleton, List.range_succ, List.map_append, ← hanswers,
        hok]
      rfl
    cases blocking with
    | true =>
      cases hrequest
      obtain ⟨hlt, hfalse⟩ := hcount
      have hover : within period rateMax (answers.length + 1) = false := by
        by_contra h
        rw [Bool.not_eq_false] at h
        have hle := Nat.succ_le_succ (Nat.le_of_lt hlt)
        exact Bool.false_ne_true (hfalse.symm.trans (within_of_le h hle hperiod))
      exact ⟨⟨rfl, rfl⟩, hlast hover.symm, by simpa using hlt.trans (Nat.lt_succ_self _), hfalse⟩
    | false =>
      obtain rfl : count = answers.length := hcount
      simp only [request, Bool.false_eq_true, if_false, bind_eq_bind, bind_some,
        bind_eq_some_iff] at hrequest
      obtain ⟨rate, hrate, hrequest⟩ := hrequest
      have hvalue := value_of_divide hrate
      split at hrequest
      · next hover =>
          have hfalse : within period rateMax (answers.length + 1) = false :=
            decide_eq_false (by simpa [hvalue] using hover)
          cases hrequest
          exact ⟨⟨rfl, rfl⟩, hlast hfalse.symm, by simp, hfalse⟩
      · next hok =>
          have htrue : within period rateMax (answers.length + 1) = true :=
            decide_eq_true (by simpa [hvalue] using hok)
          cases hrequest
          exact ⟨⟨rfl, rfl⟩, hlast htrue.symm, by simp⟩

/-- **The rate of the requests is kept**: in every run of an accepted configuration, the first
requests of each period are accepted, and exactly those whose number keeps to the rate. -/
theorem answers_within {options : List (Entry τ)} (h : validate options = .ok state)
    (hrun : run next ⟨init state, []⟩ events = some w) :
    ∃ period rateMax, state.period = some period ∧ state.rateMax = some rateMax ∧
      w.answers = (List.range w.answers.length).map (fun n => within period rateMax (n + 1)) ∧
      ∀ m n, m ≤ n → within period rateMax n = true → within period rateMax m = true := by
  obtain ⟨period, rateMax, hperiod, -, rfl⟩ := exists_of_validate h
  have hcounted : Counted period rateMax w := (steps_of_run hrun).invariant
    (fun _ _ _ hs _ hnext => hs.next hperiod.1 hnext) ⟨⟨rfl, rfl⟩, rfl, rfl⟩
  exact ⟨period, rateMax, rfl, rfl, hcounted.answers,
    fun _ _ hle hn => within_of_le hn hle hperiod.1⟩

/-- A rate of one request a second, in two periods. -/
example : ∃ w, run next ⟨init ⟨some 2, 0, some (.integer 1), false⟩, []⟩
      [.request, .maxRate, .request, .request, .request] = some w ∧
    w.answers = [true, true, false] :=
  map_eq_some_iff.mp (by decide +kernel)

end RateRequest

end CloudI.RateBased
