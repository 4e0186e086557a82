import CloudI.ServiceCron.Next

/-!
# ServiceCron.Terminates

How a call of `next_datetime` goes (it returns, it fails, or it is still running), and exactly
when it returns and when it ends.
-/

namespace CloudI.ServiceCron

open Calendar Fuel Stages
open Outcome (toOption_bind toOption_ofOption bind_eq_failed)
open Expression (says_dayOfMonth says_dayOfWeek says_numeric)

/-! ## how a call goes -/

/-- `advance`, which fails where a call of it fails, and is running when its fuel is used up. -/
def advanceOutcome (field : List Value) (part : Date → Option Nat) :
    Nat → Bool → DateTime → Outcome (Bool × DateTime)
  | 0, _, _ => .running
  | fuel + 1, equal, (date, time) => do
      let i ← .ofOption (part date)
      if (← .ofOption (getNextValue field i equal date)) = some i then
        .returned (equal, (date, time))
      else advanceOutcome field part fuel true (← .ofOption (dateAdd date 1), time)

/-- `advanceField`. -/
def fieldOutcome (field : Field) (part : Date → Option Nat) (fuel : Nat) (equal : Bool)
    (datetime : DateTime) : Outcome (Bool × DateTime) :=
  match field with
  | none => .returned (equal, datetime)
  | some l => advanceOutcome l part fuel equal datetime

/-- The stages of the date. -/
def dateOutcome (fuel : Nat) (expr : Expression) (equal : Bool) (datetime : DateTime) :
    Outcome DateTime := do
  let (equal4, datetime4) ←
    fieldOutcome expr.dayOfMonth (fun date => some date.day) fuel equal datetime
  let (equal5, datetime5) ←
    fieldOutcome expr.month (fun date => some date.month) fuel equal4 datetime4
  let (equal6, datetime6) ← fieldOutcome expr.dayOfWeek dayOfWeek fuel equal5 datetime5
  let (_, datetime7) ←
    fieldOutcome expr.year (fun date => some date.year) fuel equal6 datetime6
  .returned datetime7

/-- `next_datetime/2`. -/
def nextDatetimeOutcome (fuel : Nat) (datetime0 : DateTime) (expr : Expression) :
    Outcome DateTime := do
  let (equal3, datetime3) ← .ofOption (timeStages expr false datetime0)
  let datetime7 ← dateOutcome fuel expr equal3 datetime3
  if datetime7.1 = datetime0.1 then .returned datetime7
  else .ofOption (firstTime expr datetime7.1)

section Outcome

variable {l : List Value} {part : Date → Option Nat} {field : Field} {Known On : Nat → Prop}
  {n : Nat} {time : Time} {equal : Bool} {fuel : Nat}

theorem toOption_advanceOutcome (l : List Value) (part : Date → Option Nat) (fuel : Nat)
    (equal : Bool) (datetime : DateTime) :
    (advanceOutcome l part fuel equal datetime).toOption = advance l part fuel equal datetime := by
  induction fuel generalizing equal datetime with
  | zero => rfl
  | succ fuel ih =>
    obtain ⟨date, time⟩ := datetime
    rw [advanceOutcome, advance, toOption_bind, toOption_ofOption]
    congr 1
    funext i
    rw [toOption_bind, toOption_ofOption]
    congr 1
    funext next
    split
    · rfl
    · rw [toOption_bind, toOption_ofOption]
      congr 1
      funext date1
      exact ih true (date1, time)

theorem toOption_fieldOutcome (field : Field) (part : Date → Option Nat) (fuel : Nat)
    (equal : Bool) (datetime : DateTime) :
    (fieldOutcome field part fuel equal datetime).toOption =
      advanceField field part fuel equal datetime := by
  cases field with
  | none => rfl
  | some l => exact toOption_advanceOutcome l part fuel equal datetime

theorem toOption_dateOutcome (fuel : Nat) (expr : Expression) (equal : Bool) (datetime : DateTime) :
    (dateOutcome fuel expr equal datetime).toOption =
      dateStages fuel expr equal datetime := by
  simp only [dateOutcome, dateStages, toOption_bind, toOption_fieldOutcome]
  rfl

/-- **What is returned is what `next_datetime` returns.** -/
theorem toOption_nextDatetimeOutcome (fuel : Nat) (datetime : DateTime) (expr : Expression) :
    (nextDatetimeOutcome fuel datetime expr).toOption =
      nextDatetime fuel datetime expr := by
  rw [nextDatetime_eq, nextDatetimeOutcome, toOption_bind, toOption_ofOption]
  congr 1
  funext x
  rw [toOption_bind, toOption_dateOutcome]
  congr 1
  funext y
  split
  · rfl
  · exact toOption_ofOption _

/-! ## a lookup that fails -/

/-- One step on a day that can be looked up. -/
theorem advanceOutcome_succ (equal : Bool) (fuel : Nat) (time : Time)
    (hreads : Says l part Known On) (hknown : Known n) :
    (equal = true ∧ On n → advanceOutcome l part (fuel + 1) equal (gregorianDaysToDate n, time) =
        .returned (equal, (gregorianDaysToDate n, time))) ∧
    (¬ (equal = true ∧ On n) →
      advanceOutcome l part (fuel + 1) equal (gregorianDaysToDate n, time) =
        advanceOutcome l part fuel true (gregorianDaysToDate (n + 1), time)) := by
  obtain ⟨i, next, hi, hnext, hiff⟩ := hreads.lookup hknown equal
  have hstep : advanceOutcome l part (fuel + 1) equal (gregorianDaysToDate n, time) =
      if next = some i then .returned (equal, (gregorianDaysToDate n, time))
      else advanceOutcome l part fuel true (gregorianDaysToDate (n + 1), time) := by
    rw [advanceOutcome, hi]
    show (Outcome.ofOption (getNextValue l i equal (gregorianDaysToDate n)) >>= fun x => _) = _
    rw [hnext]
    show (if _ then _ else
      Outcome.ofOption (dateAdd (gregorianDaysToDate n) (1 : Nat)) >>= fun date => _) = _
    rw [dateAdd_gregorianDaysToDate]
    rfl
  rw [hstep]
  exact ⟨fun h => if_pos (hiff.mpr h), fun h => if_neg fun hx => h (hiff.mp hx)⟩

/-- The lookup fails on a day that cannot be looked up. -/
theorem advanceOutcome_unknown (equal : Bool) (fuel : Nat) (time : Time)
    (hreads : Says l part Known On) (hknown : ¬ Known n) :
    advanceOutcome l part (fuel + 1) equal (gregorianDaysToDate n, time) = .failed := by
  have hexpand : getNextValueExpand (gregorianDaysToDate n) l = none := by
    by_contra hsome
    obtain ⟨vs, hvs⟩ := Option.ne_none_iff_exists'.mp hsome
    exact hknown (hreads.holds n vs hvs).1
  rw [advanceOutcome]
  cases hi : part (gregorianDaysToDate n) with
  | none => rfl
  | some i =>
    show (Outcome.ofOption (getNextValue l i equal (gregorianDaysToDate n)) >>= fun x => _) = _
    rw [getNextValue, hexpand]
    rfl

/-- **When the search of a field fails**: a day that cannot be looked up comes before the field
holds. -/
theorem advanceOutcome_failed (hreads : Says l part Known On) :
    (∃ fuel, advanceOutcome l part fuel true (gregorianDaysToDate n, time) = .failed) ↔
      ∃ k, n ≤ k ∧ (∀ j, n ≤ j → j < k → ¬ On j) ∧ ¬ Known k := by
  constructor
  · rintro ⟨fuel, h⟩
    induction fuel generalizing n with
    | zero => cases h
    | succ fuel ih =>
      by_cases hknown : Known n
      · obtain ⟨hstay, hgo⟩ := advanceOutcome_succ true fuel time hreads hknown
        by_cases hon : On n
        · cases (hstay ⟨rfl, hon⟩).symm.trans h
        · obtain ⟨k, hle, hnot, hunknown⟩ := ih ((hgo fun hx => hon hx.2).symm.trans h)
          refine ⟨k, by omega, fun j hj hjk => ?_, hunknown⟩
          rcases Nat.eq_or_lt_of_le hj with rfl | hlt
          · exact hon
          · exact hnot j hlt hjk
      · exact ⟨n, Nat.le_refl n, fun j hj hjn => absurd hj (Nat.not_le_of_lt hjn), hknown⟩
  · rintro ⟨k, hle, hnot, hunknown⟩
    obtain ⟨d, rfl⟩ := Nat.exists_eq_add_of_le hle
    induction d generalizing n with
    | zero => exact ⟨1, advanceOutcome_unknown true 0 time hreads hunknown⟩
    | succ d ih =>
      by_cases hknown : Known n
      · rw [show n + (d + 1) = n + 1 + d by omega] at hnot hunknown
        obtain ⟨fuel, hfuel⟩ := ih (by omega) (fun j hj hjd => hnot j (by omega) hjd) hunknown
        have hgo := (advanceOutcome_succ true fuel time hreads hknown).2
          fun hx => hnot n (Nat.le_refl n) (by omega) hx.2
        exact ⟨fuel + 1, hgo.trans hfuel⟩
      · exact ⟨1, advanceOutcome_unknown true 0 time hreads hknown⟩

theorem fieldOutcome_ne_failed (hreads : FieldSays field part (fun _ => True) On) :
    fieldOutcome field part fuel equal (gregorianDaysToDate n, time) ≠ .failed := by
  cases hfield : field with
  | none => exact nofun
  | some l =>
    have hlisted := hreads.listed l hfield
    show advanceOutcome l part fuel equal (gregorianDaysToDate n, time) ≠ .failed
    induction fuel generalizing equal n with
    | zero => exact nofun
    | succ fuel ih =>
      obtain ⟨hstay, hgo⟩ := advanceOutcome_succ (n := n) equal fuel time hlisted trivial
      by_cases hon : equal = true ∧ On n
      · rw [hstay hon]
        exact nofun
      · rw [hgo hon]
        exact ih

theorem fieldOutcome_returned (hreads : FieldSays field part Known On) {x : Bool × DateTime}
    (h : fieldOutcome field part fuel equal (gregorianDaysToDate n, time) = .returned x) :
    ∃ m, x.2 = (gregorianDaysToDate m, time) := by
  cases hfield : field with
  | none =>
    subst hfield
    cases h
    exact ⟨n, rfl⟩
  | some l =>
    have hlisted := hreads.listed l hfield
    subst hfield
    replace h : advanceOutcome l part fuel equal (gregorianDaysToDate n, time) = .returned x := h
    induction fuel generalizing equal n with
    | zero => cases h
    | succ fuel ih =>
      by_cases hknown : Known n
      · obtain ⟨hstay, hgo⟩ := advanceOutcome_succ equal fuel time hlisted hknown
        by_cases hon : equal = true ∧ On n
        · cases (hstay hon).symm.trans h
          exact ⟨n, rfl⟩
        · exact ih ((hgo hon).symm.trans h)
      · cases (advanceOutcome_unknown equal fuel time hlisted hknown).symm.trans h

variable {expr : Expression}

section

variable (hwf : expr.WellFormed)

include hwf

theorem dateOutcome_eq_failed :
    dateOutcome fuel expr equal (gregorianDaysToDate n, time) = .failed ↔
      fieldOutcome expr.dayOfMonth (fun date => some date.day) fuel equal
        (gregorianDaysToDate n, time) = .failed := by
  have hmonth := says_numeric hwf.month Date.month
  constructor
  · intro h
    rcases bind_eq_failed.mp h with h | ⟨⟨equal4, datetime4⟩, h4, h⟩
    · exact h
    obtain ⟨n4, rfl⟩ := fieldOutcome_returned (says_dayOfMonth hwf) h4
    rcases bind_eq_failed.mp h with h | ⟨⟨equal5, datetime5⟩, h5, h⟩
    · exact absurd h (fieldOutcome_ne_failed hmonth)
    obtain ⟨n5, rfl⟩ := fieldOutcome_returned hmonth h5
    rcases bind_eq_failed.mp h with h | ⟨⟨equal6, datetime6⟩, h6, h⟩
    · exact absurd h (fieldOutcome_ne_failed (says_dayOfWeek hwf))
    obtain ⟨n6, rfl⟩ := fieldOutcome_returned (says_dayOfWeek hwf) h6
    rcases bind_eq_failed.mp h with h | ⟨_, -, h⟩
    · exact absurd h (fieldOutcome_ne_failed (says_numeric hwf.year Date.year))
    · cases h
  · exact fun h => bind_eq_failed.mpr (.inl h)

theorem dayOfMonth_failed (n : Nat) (time : Time) :
    (∃ fuel, fieldOutcome expr.dayOfMonth (fun date => some date.day) fuel true
      (gregorianDaysToDate n, time) = .failed) ↔ ¬ expr.KnownFrom n := by
  have hreads := says_dayOfMonth hwf
  cases hfield : expr.dayOfMonth with
  | none =>
    refine iff_of_false (fun ⟨fuel, h⟩ => nomatch h) (not_not_intro fun k _ _ => ?_)
    exact (hreads.wild hfield k).1
  | some l =>
    refine (advanceOutcome_failed (hreads.listed l hfield)).trans ?_
    unfold Expression.KnownFrom
    push Not
    rfl

/-- A day that must be left is looked up as well. -/
theorem dayOfMonth_failed_false :
    (∃ fuel, fieldOutcome expr.dayOfMonth (fun date => some date.day) fuel false
      (gregorianDaysToDate n, time) = .failed) ↔
      ¬ (expr.Known n ∧ expr.KnownFrom (n + 1)) := by
  have hreads := says_dayOfMonth hwf
  have hnext := dayOfMonth_failed hwf (n + 1) time
  cases hfield : expr.dayOfMonth with
  | none =>
    refine iff_of_false (fun ⟨fuel, h⟩ => nomatch h) (not_not_intro ⟨?_, fun k _ _ => ?_⟩)
    · exact (hreads.wild hfield n).1
    · exact (hreads.wild hfield k).1
  | some l =>
    rw [hfield] at hnext
    have hlisted := hreads.listed l hfield
    by_cases hknown : expr.Known n
    · have hgo : ∀ fuel, _ := fun fuel =>
        (advanceOutcome_succ false fuel time hlisted hknown).2 fun hx => Bool.noConfusion hx.1
      rw [and_iff_right hknown, ← hnext]
      constructor
      · rintro ⟨fuel, h⟩
        cases fuel with
        | zero => cases h
        | succ fuel => exact ⟨fuel, (hgo fuel).symm.trans h⟩
      · exact fun ⟨fuel, h⟩ => ⟨fuel + 1, (hgo fuel).trans h⟩
    · exact iff_of_true ⟨1, advanceOutcome_unknown false 0 time hlisted hknown⟩ fun h => hknown h.1

/-! ## when a call returns, and when it fails -/

/-- **No lookup fails**: a weekday nearest a day is not looked for in a month without the day,
from where the search for the date begins until the day of the month is right. -/
def Expression.LooksUp (expr : Expression) (datetime : DateTime) : Prop :=
  (expr.WildTime → expr.Known datetime.1.number) ∧
    expr.KnownFrom (expr.start datetime)

/-- Both parts of a call. -/
theorem outcome_stages (htime : time.Valid) :
    ∃ x, timeStages expr false (gregorianDaysToDate n, time) = some x ∧
      ((∃ fuel, dateOutcome fuel expr x.1 x.2 = .failed) ↔
        ¬ expr.LooksUp (gregorianDaysToDate n, time)) ∧
      ((∃ y, Returns (fun fuel => dateStages fuel expr x.1 x.2) y) ↔
        expr.LooksUp (gregorianDaysToDate n, time) ∧
          ∃ k, Chain expr.stages (expr.start (gregorianDaysToDate n, time)) k) ∧
      ∀ y, Returns (fun fuel => dateStages fuel expr x.1 x.2) y →
        ∃ m time', y = (gregorianDaysToDate m, time') := by
  have hsearch_iff : ∀ k, (∃ m, Search expr.stages k m) ↔ ∃ m, Chain expr.stages k m :=
    fun k => ⟨fun ⟨m, hm⟩ => ⟨m, hm.chain⟩, fun ⟨m, hm⟩ => hm.exists_search⟩
  have hreturns : ∀ {k time'}, (∃ y, Returns
      (fun fuel => dateStages fuel expr true (gregorianDaysToDate k, time')) y) ↔
        expr.KnownFrom k ∧ ∃ m, Chain expr.stages k m := by
    intro k time'
    rw [← hsearch_iff]
    simp only [dateStages_true hwf]
    exact ⟨fun ⟨_, m, hm, hknown, _⟩ => ⟨hknown, m, hm⟩,
      fun ⟨hknown, m, hm⟩ => ⟨_, m, hm, hknown, rfl⟩⟩
  unfold Expression.LooksUp
  rw [number_gregorianDaysToDate]
  by_cases hwild : expr.WildTime
  · refine ⟨_, timeStages_wild hwild _, ?_⟩
    rw [start_wild hwild, imp_iff_right hwild]
    refine ⟨?_, ?_⟩
    · simp only [dateOutcome_eq_failed hwf]
      exact dayOfMonth_failed_false hwf
    by_cases hdate : expr.WildDate
    · have hknown : ∀ k, expr.Known k :=
        fun k => ((says_dayOfMonth hwf).wild hdate.dayOfMonth k).1
      have hhas : ∀ {field : Field} {P : Value → Prop}, field = none → field.Has P :=
        fun h l hl => nomatch h.symm.trans hl
      have hon : Together expr.stages (n + 1) := Expression.together_stages.mpr
        ⟨hhas hdate.dayOfMonth, hhas hdate.month, hhas hdate.dayOfWeek, hhas hdate.year⟩
      simp only [dateStages_wild hdate]
      exact ⟨iff_of_true ⟨_, rfl⟩ ⟨⟨hknown n, fun k _ _ => hknown k⟩, n + 1,
        hon.chain (Nat.le_refl _)⟩, fun y hy => ⟨n, time, hy⟩⟩
    · simp only [dateStages_false hwf hdate]
      refine ⟨?_, ?_⟩
      · rw [and_assoc, ← hreturns, exists_and_left]
      · rintro y ⟨-, hy⟩
        obtain ⟨m, -, -, rfl⟩ := (dateStages_true hwf).mp hy
        exact ⟨m, time, rfl⟩
  · obtain ⟨equal, n', time', hstages, hequal, hsearch⟩ := timeStages_spec (n := n) hwf htime
    obtain rfl := hequal.mpr hwild
    refine ⟨_, hstages, ?_⟩
    rw [start_eq hsearch htime hwild]
    refine ⟨?_, ?_, ?_⟩
    · simp only [dateOutcome_eq_failed hwf]
      rw [and_iff_right fun h => absurd h hwild]
      exact dayOfMonth_failed hwf n' time'
    · rw [and_iff_right fun h => absurd h hwild]
      exact hreturns
    · intro y hy
      obtain ⟨m, -, -, rfl⟩ := (dateStages_true hwf).mp hy
      exact ⟨m, time', rfl⟩

/-- **When a call fails.** -/
theorem nextDatetimeOutcome_failed (htime : time.Valid) :
    (∃ fuel, nextDatetimeOutcome fuel (gregorianDaysToDate n, time) expr = .failed) ↔
      ¬ expr.LooksUp (gregorianDaysToDate n, time) := by
  obtain ⟨x, hx, hfailed, -, hform⟩ := outcome_stages (n := n) hwf htime
  rw [← hfailed]
  refine exists_congr fun fuel => ?_
  rw [nextDatetimeOutcome, hx]
  show (dateOutcome fuel expr x.1 x.2 >>= fun y => _) = _ ↔ _
  refine bind_eq_failed.trans (or_iff_left ?_)
  rintro ⟨y, hy, h⟩
  rw [← Outcome.toOption_eq_some, toOption_dateOutcome] at hy
  obtain ⟨m, time', rfl⟩ := hform y ⟨fuel, hy⟩
  obtain ⟨first, hfirst, -⟩ := firstTime_spec (n := m) hwf
  rw [hfirst] at h
  split at h <;> cases h

/-- **When a call returns.** -/
theorem nextDatetimeOutcome_returned (htime : time.Valid) :
    (∃ fuel next, nextDatetimeOutcome fuel (gregorianDaysToDate n, time) expr =
      .returned next) ↔ expr.LooksUp (gregorianDaysToDate n, time) ∧
        ∃ k, Chain expr.stages (expr.start (gregorianDaysToDate n, time)) k := by
  obtain ⟨x, hx, -, hreturned, hform⟩ := outcome_stages (n := n) hwf htime
  rw [← hreturned]
  simp only [← Outcome.toOption_eq_some, toOption_nextDatetimeOutcome]
  constructor
  · rintro ⟨fuel, next, h⟩
    obtain ⟨y, hy, -⟩ := (returns_nextDatetime hx).mp ⟨fuel, h⟩
    exact ⟨y, hy⟩
  · rintro ⟨y, hy⟩
    obtain ⟨m, time', rfl⟩ := hform y hy
    obtain ⟨first, hfirst, -⟩ := firstTime_spec (n := m) hwf
    have hlast : ∃ r, (if (gregorianDaysToDate m, time').1 = (gregorianDaysToDate n, time).1
        then some (gregorianDaysToDate m, time')
        else firstTime expr (gregorianDaysToDate m, time').1) = some r := by
      split
      · exact ⟨_, rfl⟩
      · exact ⟨_, hfirst⟩
    obtain ⟨r, hr⟩ := hlast
    obtain ⟨fuel, hfuel⟩ := (returns_nextDatetime hx).mpr ⟨_, hy, hr⟩
    exact ⟨fuel, r, hfuel⟩

end

end Outcome

end CloudI.ServiceCron
