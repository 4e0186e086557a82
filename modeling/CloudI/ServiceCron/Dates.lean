import CloudI.Library.Fuel
import CloudI.Library.Stages
import CloudI.ServiceCron.Meaning

/-!
# ServiceCron.Dates

The date of the next event: the four fields of the date are a search in stages over the days.
-/

namespace CloudI.ServiceCron

open Calendar Fuel Stages List Option

/-! ## one field -/

theorem pairwise_usort (l : List Nat) : (Lists.usort l).Pairwise (· < ·) :=
  Lists.pairwise_umerge List.Pairwise.nil

/-- The first element from a number on is the number itself. -/
theorem find?_le_eq_self {l : List Nat} (h : l.Pairwise (· < ·)) {i : Nat} :
    l.find? (i ≤ ·) = some i ↔ i ∈ l := by
  constructor
  · exact mem_of_find?_eq_some
  · intro hi
    induction l with
    | nil => cases hi
    | cons x l ih =>
      obtain ⟨hx, hl⟩ := pairwise_cons.mp h
      rcases mem_cons.mp hi with rfl | hi
      · exact find?_cons_of_pos (by simp)
      · have hlt := hx i hi
        rw [find?_cons_of_neg (by simp; omega)]
        exact ih hl hi

theorem getNextValue_eq {l : List Value} {i : Nat} {equal : Bool} {date : Date} {vs : List Nat}
    (h : getNextValueExpand date l = some vs) :
    getNextValue l i equal date = some
      ((Lists.usort vs).find? fun v => if equal then decide (i ≤ v) else decide (i < v)) := by
  rw [getNextValue, h]
  cases equal <;> rfl

/-- **What a field says about days**: which it can be looked up for, and on which it holds. -/
structure Says (l : List Value) (part : Date → Option Nat) (Known On : Nat → Prop) : Prop where
  holds : ∀ n vs, getNextValueExpand (gregorianDaysToDate n) l = some vs →
    Known n ∧ ∃ i, part (gregorianDaysToDate n) = some i ∧ (i ∈ vs ↔ On n)
  known : ∀ n, Known n → ∃ vs, getNextValueExpand (gregorianDaysToDate n) l = some vs

section Advance

variable {l : List Value} {part : Date → Option Nat} {Known On : Nat → Prop} {n m : Nat}
  {time : Time} {equal : Bool} {fuel : Nat} {r : Bool × DateTime}

/-- A day that can be looked up: its number is found where the field holds. -/
theorem Says.lookup (hreads : Says l part Known On) (hknown : Known n) (equal : Bool) :
    ∃ i next, part (gregorianDaysToDate n) = some i ∧
      getNextValue l i equal (gregorianDaysToDate n) = some next ∧
        (next = some i ↔ equal = true ∧ On n) := by
  obtain ⟨vs, hvs⟩ := hreads.known n hknown
  obtain ⟨-, i, hi, hmem⟩ := hreads.holds n vs hvs
  refine ⟨i, _, hi, getNextValue_eq hvs, ?_⟩
  cases equal with
  | true =>
    have hfound : (Lists.usort vs).find? (i ≤ ·) = some i ↔ On n := by
      rw [find?_le_eq_self (pairwise_usort vs), Lists.mem_usort, hmem]
    exact hfound.trans ⟨fun h => ⟨rfl, h⟩, fun h => h.2⟩
  | false =>
    refine ⟨fun hx => ?_, fun h => Bool.noConfusion h.1⟩
    have hlt := find?_some hx
    simp at hlt

/-- One step of `advance` on a day that can be looked up. -/
theorem advance_succ (equal : Bool) (fuel : Nat) (time : Time) (hreads : Says l part Known On)
    (hknown : Known n) :
    (equal = true ∧ On n → advance l part (fuel + 1) equal (gregorianDaysToDate n, time) =
        some (equal, (gregorianDaysToDate n, time))) ∧
    (¬ (equal = true ∧ On n) → advance l part (fuel + 1) equal (gregorianDaysToDate n, time) =
        advance l part fuel true (gregorianDaysToDate (n + 1), time)) := by
  obtain ⟨i, next, hi, hnext, hiff⟩ := hreads.lookup hknown equal
  have hstep : advance l part (fuel + 1) equal (gregorianDaysToDate n, time) =
      if next = some i then some (equal, (gregorianDaysToDate n, time))
      else advance l part fuel true (gregorianDaysToDate (n + 1), time) := by
    rw [advance, hi]
    show (getNextValue l i equal (gregorianDaysToDate n) >>= fun x => _) = _
    rw [hnext]
    show (if _ then _ else dateAdd (gregorianDaysToDate n) (1 : Nat) >>= fun date => _) = _
    rw [dateAdd_gregorianDaysToDate]
    rfl
  rw [hstep]
  exact ⟨fun h => if_pos (hiff.mpr h), fun h => if_neg fun hx => h (hiff.mp hx)⟩

theorem known_of_advance (hreads : Says l part Known On)
    (h : advance l part fuel equal (gregorianDaysToDate n, time) = some r) : Known n := by
  cases fuel with
  | zero => cases h
  | succ fuel =>
    rw [advance] at h
    obtain ⟨i, -, h⟩ := bind_eq_some_iff.mp h
    obtain ⟨next, hnext, -⟩ := bind_eq_some_iff.mp h
    obtain ⟨vs, hvs, -⟩ := bind_eq_some_iff.mp hnext
    exact (hreads.holds n vs hvs).1

theorem steady_advance (l : List Value) (part : Date → Option Nat) (equal : Bool)
    (datetime : DateTime) : Steady fun fuel => advance l part fuel equal datetime := by
  refine steady_of_succ fun fuel r h => ?_
  induction fuel generalizing equal datetime with
  | zero => cases h
  | succ fuel ih =>
    obtain ⟨date, time⟩ := datetime
    simp only [advance] at h ⊢
    obtain ⟨i, hi, h⟩ := bind_eq_some_iff.mp h
    obtain ⟨next, hnext, h⟩ := bind_eq_some_iff.mp h
    rw [hi]
    show (getNextValue l i equal date >>= fun x => _) = _
    rw [hnext]
    show (if next = some i then _ else _) = _
    by_cases heq : next = some i
    · rw [if_pos heq] at h ⊢
      exact h
    · rw [if_neg heq] at h ⊢
      obtain ⟨date', hdate', h⟩ := bind_eq_some_iff.mp h
      rw [hdate']
      exact ih true (date', time) h

/-- **`advance` goes to the first day on which the field holds**, if all days up to it can be
looked up. -/
theorem advance_true (hreads : Says l part Known On) :
    Returns (fun fuel => advance l part fuel true (gregorianDaysToDate n, time)) r ↔
      ∃ m, First On n m ∧ (∀ k, n ≤ k → k ≤ m → Known k) ∧
        r = (true, (gregorianDaysToDate m, time)) := by
  constructor
  · rintro ⟨fuel, h⟩
    induction fuel generalizing n with
    | zero => cases h
    | succ fuel ih =>
      have hknown := known_of_advance hreads h
      obtain ⟨hstay, hgo⟩ := advance_succ true fuel time hreads hknown
      by_cases hon : On n
      · replace h := (hstay ⟨rfl, hon⟩).symm.trans h
        cases h
        refine ⟨n, .self hon, fun k hk hk' => ?_, rfl⟩
        rwa [Nat.le_antisymm hk' hk]
      · replace h := (hgo fun hx => hon hx.2).symm.trans h
        obtain ⟨m, hfirst, hall, rfl⟩ := ih h
        have hle := hfirst.le
        refine ⟨m, ⟨by omega, hfirst.holds, fun c hc hc' => ?_⟩, fun k hk hk' => ?_, rfl⟩
        · rcases Nat.eq_or_lt_of_le hc with rfl | hlt
          · exact absurd hc' hon
          · exact hfirst.least c hlt hc'
        · rcases Nat.eq_or_lt_of_le hk with rfl | hlt
          · exact hknown
          · exact hall k hlt hk'
  · rintro ⟨m, hfirst, hall, rfl⟩
    obtain ⟨j, rfl⟩ : ∃ j, m = n + j := ⟨m - n, (Nat.add_sub_cancel' hfirst.le).symm⟩
    induction j generalizing n with
    | zero =>
      exact ⟨1, (advance_succ true 0 time hreads (hall n (Nat.le_refl n) (Nat.le_refl n))).1
        ⟨rfl, hfirst.holds⟩⟩
    | succ j ih =>
      have hnot : ¬ On n := by
        intro hon
        have hle := hfirst.least n (Nat.le_refl n) hon
        omega
      rw [show n + (j + 1) = n + 1 + j by omega] at hfirst hall ⊢
      obtain ⟨fuel, hfuel⟩ := ih (n := n + 1)
        ⟨by omega, hfirst.holds, fun c hc hc' => hfirst.least c (by omega) hc'⟩
        (fun k hk hk' => hall k (by omega) hk')
      refine ⟨fuel + 1, ?_⟩
      rw [← hfuel]
      exact (advance_succ true fuel time hreads (hall n (Nat.le_refl n) (by omega))).2
        fun hx => hnot hx.2

/-- A day that must be left is left for the next one. -/
theorem advance_false (hreads : Says l part Known On) :
    Returns (fun fuel => advance l part fuel false (gregorianDaysToDate n, time)) r ↔ Known n ∧
        Returns (fun fuel => advance l part fuel true (gregorianDaysToDate (n + 1), time)) r := by
  constructor
  · rintro ⟨fuel, h⟩
    have hknown := known_of_advance hreads h
    cases fuel with
    | zero => cases h
    | succ fuel =>
      have hstep := (advance_succ false fuel time hreads hknown).2 fun hx => Bool.noConfusion hx.1
      exact ⟨hknown, fuel, hstep.symm.trans h⟩
  · rintro ⟨hknown, fuel, h⟩
    exact ⟨fuel + 1, ((advance_succ false fuel time hreads hknown).2
      fun hx => Bool.noConfusion hx.1).trans h⟩

end Advance

/-! ## a field or a wildcard -/

/-- What a field says about days; a wildcard says nothing. -/
structure FieldSays (field : Field) (part : Date → Option Nat) (Known On : Nat → Prop) : Prop where
  listed : ∀ l, field = some l → Says l part Known On
  wild : field = none → ∀ n, Known n ∧ On n

section AdvanceField

variable {field : Field} {part : Date → Option Nat} {Known On : Nat → Prop} {n : Nat}
  {time : Time} {datetime : DateTime} {equal : Bool} {r : Bool × DateTime}

theorem steady_advanceField (field : Field) (part : Date → Option Nat) (equal : Bool)
    (datetime : DateTime) : Steady fun fuel => advanceField field part fuel equal datetime := by
  cases field with
  | none => exact steady_const _
  | some l => exact steady_advance l part equal datetime

theorem advanceField_wild (h : field = none) :
    Returns (fun fuel => advanceField field part fuel equal datetime) r ↔
      r = (equal, datetime) := by
  subst h
  exact returns_const.trans ⟨fun h => (Option.some.inj h).symm, fun h => congrArg some h.symm⟩

/-- **A field goes to the first day on which it holds.** -/
theorem advanceField_true (hreads : FieldSays field part Known On) :
    Returns (fun fuel => advanceField field part fuel true (gregorianDaysToDate n, time)) r ↔
      ∃ m, First On n m ∧ (∀ k, n ≤ k → k ≤ m → Known k) ∧
        r = (true, (gregorianDaysToDate m, time)) := by
  cases hfield : field with
  | none =>
    have hall := hreads.wild hfield
    rw [advanceField_wild rfl]
    constructor
    · rintro rfl
      exact ⟨n, .self (hall n).2, fun k _ _ => (hall k).1, rfl⟩
    · rintro ⟨m, hfirst, -, rfl⟩
      rw [hfirst.eq (.self (hall n).2)]
  | some l => exact advance_true (hreads.listed l hfield)

theorem advanceField_false (hreads : FieldSays field part Known On) (h : field = some l) :
    Returns (fun fuel => advanceField field part fuel false (gregorianDaysToDate n, time)) r ↔
      Known n ∧ Returns
        (fun fuel => advanceField field part fuel true (gregorianDaysToDate (n + 1), time)) r := by
  subst h
  exact advance_false (hreads.listed l rfl)

end AdvanceField

/-! ## the fields of the date -/

namespace Expression

variable (expr : Expression)

/-- The day of the month is right. -/
def DayOfMonthOn (n : Nat) : Prop :=
  expr.dayOfMonth.Has (Value.OnDayOfMonth (gregorianDaysToDate n))

def MonthOn (n : Nat) : Prop := expr.month.HasNumber (gregorianDaysToDate n).month

/-- The day of the week is right. -/
def DayOfWeekOn (n : Nat) : Prop :=
  expr.dayOfWeek.Has (Value.OnDayOfWeek (gregorianDaysToDate n))

def YearOn (n : Nat) : Prop := expr.year.HasNumber (gregorianDaysToDate n).year

/-- The stages of the date, in the order of the code. -/
def stages : List (Nat → Prop) :=
  [expr.DayOfMonthOn, expr.MonthOn, expr.DayOfWeekOn, expr.YearOn]

/-- The weekdays of the day of the month can be looked for on a day. -/
def Known (n : Nat) : Prop :=
  ∀ l, expr.dayOfMonth = some l → Reachable l (gregorianDaysToDate n)

/-- No field of the date is given. -/
structure WildDate : Prop where
  dayOfMonth : expr.dayOfMonth = none
  month : expr.month = none
  dayOfWeek : expr.dayOfWeek = none
  year : expr.year = none

variable {expr}

theorem together_stages : Together expr.stages n ↔ expr.OnDate (gregorianDaysToDate n) := by
  constructor
  · intro h
    exact ⟨h expr.DayOfMonthOn (by simp [stages]), h expr.MonthOn (by simp [stages]),
      h expr.DayOfWeekOn (by simp [stages]), h expr.YearOn (by simp [stages])⟩
  · rintro ⟨hdayOfMonth, hmonth, hdayOfWeek, hyear⟩ P hP
    simp only [stages, mem_cons, not_mem_nil, or_false] at hP
    rcases hP with rfl | rfl | rfl | rfl
    · exact hdayOfMonth
    · exact hmonth
    · exact hdayOfWeek
    · exact hyear

theorem says_dayOfMonth (hwf : expr.WellFormed) :
    FieldSays expr.dayOfMonth (fun date => some date.day) expr.Known
      expr.DayOfMonthOn := by
  refine ⟨fun l hl => ⟨fun n vs hvs => ?_, fun n hknown => ?_⟩, fun hnone n => ⟨?_, ?_⟩⟩
  · obtain ⟨hreach, hmem⟩ := (expand_dayOfMonth n (hwf.dayOfMonth l hl)).1 vs hvs
    refine ⟨fun l' hl' => ?_, _, rfl, ?_⟩
    · cases hl.symm.trans hl'
      exact hreach
    · rw [hmem]
      exact ⟨fun h l' hl' => by cases hl.symm.trans hl'; exact h, fun h => h l hl⟩
  · exact (expand_dayOfMonth n (hwf.dayOfMonth l hl)).2 (hknown l hl)
  · exact fun l hl => nomatch hnone.symm.trans hl
  · exact fun l hl => nomatch hnone.symm.trans hl

theorem says_numeric {min max : Nat} {field : Field} (hfield : field.Numeric min max)
    (part : Date → Nat) :
    FieldSays field (fun date => some (part date)) (fun _ => True)
      fun n => field.HasNumber (part (gregorianDaysToDate n)) := by
  refine ⟨fun l hl => ?_, fun hnone n => ⟨trivial, fun l hl => nomatch hnone.symm.trans hl⟩⟩
  obtain ⟨ns, rfl, -⟩ := hfield l hl
  refine ⟨fun n vs hvs => ⟨trivial, _, rfl, ?_⟩, fun n _ => ⟨ns, expand_numbers _ ns⟩⟩
  cases hvs.symm.trans (expand_numbers _ ns)
  constructor
  · intro hmem l' hl'
    cases hl.symm.trans hl'
    exact ⟨_, List.mem_map_of_mem hmem, rfl⟩
  · intro h
    obtain ⟨v, hv, rfl⟩ := h _ hl
    obtain ⟨n', hn', heq⟩ := List.mem_map.mp hv
    cases heq
    exact hn'

theorem says_dayOfWeek (hwf : expr.WellFormed) :
    FieldSays expr.dayOfWeek ServiceCron.dayOfWeek (fun _ => True)
      expr.DayOfWeekOn := by
  refine ⟨fun l hl => ⟨fun n vs hvs => ⟨trivial, _, dayOfWeek_gregorianDaysToDate n, ?_⟩,
    fun n _ => ?_⟩, fun hnone n => ⟨trivial, fun l hl => nomatch hnone.symm.trans hl⟩⟩
  · obtain ⟨vs', hvs', hmem⟩ := expand_dayOfWeek n (hwf.dayOfWeek l hl)
    cases hvs.symm.trans hvs'
    rw [weekdayOf_gregorianDaysToDate] at hmem
    rw [hmem]
    exact ⟨fun h l' hl' => by cases hl.symm.trans hl'; exact h, fun h => h l hl⟩
  · obtain ⟨vs, hvs, -⟩ := expand_dayOfWeek n (hwf.dayOfWeek l hl)
    exact ⟨vs, hvs⟩

/-- All days can be looked up until the day of the month is right. -/
def KnownFrom (expr : Expression) (n : Nat) : Prop :=
  ∀ k, n ≤ k → (∀ j, n ≤ j → j < k → ¬ expr.DayOfMonthOn j) → expr.Known k

theorem knownFrom_iff (h : First expr.DayOfMonthOn n m) :
    expr.KnownFrom n ↔ ∀ k, n ≤ k → k ≤ m → expr.Known k := by
  constructor
  · intro hknown k hk hkm
    exact hknown k hk fun j hj hjk hon => absurd (h.least j hj hon) (by omega)
  · intro hknown k hk hnot
    refine hknown k hk (Nat.le_of_not_lt fun hlt => ?_)
    exact hnot m h.le hlt h.holds

end Expression

/-! ## the stages of the date -/

/-- The stages of `next_datetime` for the date. -/
def dateStages (fuel : Nat) (expr : Expression) (equal : Bool) (datetime : DateTime) :
    Option DateTime :=
  nextDatetimeDayOfMonth fuel expr equal datetime >>= fun x =>
    nextDatetimeMonth fuel expr x.1 x.2 >>= fun y =>
      nextDatetimeDayOfWeek fuel expr y.1 y.2 >>= fun z =>
        nextDatetimeYear fuel expr z.1 z.2

section DateStages

variable {expr : Expression} {equal : Bool} {n : Nat} {time : Time} {datetime r : DateTime}

theorem steady_dayOfMonth (expr : Expression) (equal : Bool) (datetime : DateTime) :
    Steady fun fuel => nextDatetimeDayOfMonth fuel expr equal datetime :=
  steady_advanceField _ _ _ _

theorem steady_month (expr : Expression) (equal : Bool) (datetime : DateTime) :
    Steady fun fuel => nextDatetimeMonth fuel expr equal datetime :=
  steady_advanceField _ _ _ _

theorem steady_dayOfWeek (expr : Expression) (equal : Bool) (datetime : DateTime) :
    Steady fun fuel => nextDatetimeDayOfWeek fuel expr equal datetime :=
  steady_advanceField _ _ _ _

theorem steady_year (expr : Expression) (equal : Bool) (datetime : DateTime) :
    Steady fun fuel => nextDatetimeYear fuel expr equal datetime :=
  (steady_advanceField _ _ _ _).bind fun _ => steady_const _

theorem steady_dateStages (expr : Expression) (equal : Bool) (datetime : DateTime) :
    Steady fun fuel => dateStages fuel expr equal datetime :=
  (steady_dayOfMonth _ _ _).bind fun _ => (steady_month _ _ _).bind fun _ =>
    (steady_dayOfWeek _ _ _).bind fun _ => steady_year _ _ _

/-- The date comes out of four fields one after another. -/
theorem returns_dateStages : Returns (fun fuel => dateStages fuel expr equal datetime) r ↔
      ∃ x, Returns (fun fuel => nextDatetimeDayOfMonth fuel expr equal datetime) x ∧
        ∃ y, Returns (fun fuel => nextDatetimeMonth fuel expr x.1 x.2) y ∧
          ∃ z, Returns (fun fuel => nextDatetimeDayOfWeek fuel expr y.1 y.2) z ∧
            ∃ w, Returns (fun fuel => advanceField expr.year (fun date => some date.year)
              fuel z.1 z.2) w ∧ w.2 = r := by
  refine (returns_bind (steady_dayOfMonth _ _ _) fun _ => (steady_month _ _ _).bind fun _ =>
    (steady_dayOfWeek _ _ _).bind fun _ => steady_year _ _ _).trans ?_
  refine exists_congr fun x => and_congr_right fun _ => ?_
  refine (returns_bind (steady_month _ _ _) fun _ => (steady_dayOfWeek _ _ _).bind fun _ =>
    steady_year _ _ _).trans ?_
  refine exists_congr fun y => and_congr_right fun _ => ?_
  refine (returns_bind (steady_dayOfWeek _ _ _) fun _ => steady_year _ _ _).trans ?_
  refine exists_congr fun z => and_congr_right fun _ => ?_
  refine (returns_bind (steady_advanceField _ _ _ _) fun _ => steady_const _).trans ?_
  refine exists_congr fun w => and_congr_right fun _ => ?_
  exact returns_const.trans ⟨Option.some.inj, congrArg some⟩

/-- **The date is where the search ends**, if all days up to the day of the month can be looked
up. -/
theorem dateStages_true (hwf : expr.WellFormed) :
    Returns (fun fuel => dateStages fuel expr true (gregorianDaysToDate n, time)) r ↔
      ∃ m, Search expr.stages n m ∧ expr.KnownFrom n ∧
        r = (gregorianDaysToDate m, time) := by
  have hyear := Expression.says_numeric hwf.year Date.year
  have hmonth := Expression.says_numeric hwf.month Date.month
  rw [returns_dateStages]
  constructor
  · rintro ⟨x, hx, y, hy, z, hz, w, hw, rfl⟩
    obtain ⟨m₁, hfirst₁, hknown, rfl⟩ :=
      (advanceField_true (Expression.says_dayOfMonth hwf)).mp hx
    obtain ⟨m₂, hfirst₂, -, rfl⟩ := (advanceField_true hmonth).mp hy
    obtain ⟨m₃, hfirst₃, -, rfl⟩ := (advanceField_true (Expression.says_dayOfWeek hwf)).mp hz
    obtain ⟨m₄, hfirst₄, -, rfl⟩ := (advanceField_true hyear).mp hw
    exact ⟨m₄, .cons hfirst₁ (.cons hfirst₂ (.cons hfirst₃ (.cons hfirst₄ .nil))),
      (Expression.knownFrom_iff hfirst₁).mpr hknown, rfl⟩
  · rintro ⟨m, hsearch, hknown, rfl⟩
    cases hsearch with | cons hfirst₁ hsearch => ?_
    cases hsearch with | cons hfirst₂ hsearch => ?_
    cases hsearch with | cons hfirst₃ hsearch => ?_
    cases hsearch with | cons hfirst₄ hsearch => ?_
    cases hsearch
    exact ⟨_, (advanceField_true (Expression.says_dayOfMonth hwf)).mpr
        ⟨_, hfirst₁, (Expression.knownFrom_iff hfirst₁).mp hknown, rfl⟩,
      _, (advanceField_true hmonth).mpr ⟨_, hfirst₂, fun _ _ _ => trivial, rfl⟩,
      _, (advanceField_true (Expression.says_dayOfWeek hwf)).mpr
        ⟨_, hfirst₃, fun _ _ _ => trivial, rfl⟩,
      _, (advanceField_true hyear).mpr ⟨_, hfirst₄, fun _ _ _ => trivial, rfl⟩, rfl⟩

/-- **A date that must be left**: the first given field leaves it, and from the next day on the
search is the same. -/
theorem dateStages_false (hwf : expr.WellFormed) (hlisted : ¬ expr.WildDate) :
    Returns (fun fuel => dateStages fuel expr false (gregorianDaysToDate n, time)) r ↔
      expr.Known n ∧
        Returns (fun fuel => dateStages fuel expr true (gregorianDaysToDate (n + 1), time))
          r := by
  have hyear := Expression.says_numeric hwf.year Date.year
  have hmonth := Expression.says_numeric hwf.month Date.month
  rw [returns_dateStages, returns_dateStages]
  cases hd : expr.dayOfMonth with
  | some l =>
    constructor
    · rintro ⟨x, hx, hrest⟩
      obtain ⟨hknown, hx⟩ := (advanceField_false (Expression.says_dayOfMonth hwf) hd).mp hx
      exact ⟨hknown, x, hx, hrest⟩
    · rintro ⟨hknown, x, hx, hrest⟩
      exact ⟨x, (advanceField_false (Expression.says_dayOfMonth hwf) hd).mpr ⟨hknown, hx⟩, hrest⟩
  | none =>
  have hknown : expr.Known n := fun l hl => nomatch hd.symm.trans hl
  -- the wildcards in front leave the date as it is
  have hfront : ∀ {equal datetime x},
      Returns (fun fuel => nextDatetimeDayOfMonth fuel expr equal datetime) x ↔
        x = (equal, datetime) := advanceField_wild hd
  cases hm : expr.month with
  | some l =>
    constructor
    · rintro ⟨x, hx, y, hy, hrest⟩
      cases hfront.mp hx
      exact ⟨hknown, _, hfront.mpr rfl, y, ((advanceField_false hmonth hm).mp hy).2, hrest⟩
    · rintro ⟨-, x, hx, y, hy, hrest⟩
      cases hfront.mp hx
      exact ⟨_, hfront.mpr rfl, y, (advanceField_false hmonth hm).mpr ⟨trivial, hy⟩, hrest⟩
  | none =>
  have hfront' : ∀ {equal datetime x},
      Returns (fun fuel => nextDatetimeMonth fuel expr equal datetime) x ↔
        x = (equal, datetime) := advanceField_wild hm
  cases hw : expr.dayOfWeek with
  | some l =>
    constructor
    · rintro ⟨x, hx, y, hy, z, hz, hrest⟩
      cases hfront.mp hx
      cases hfront'.mp hy
      exact ⟨hknown, _, hfront.mpr rfl, _, hfront'.mpr rfl, z,
        ((advanceField_false (Expression.says_dayOfWeek hwf) hw).mp hz).2, hrest⟩
    · rintro ⟨-, x, hx, y, hy, z, hz, hrest⟩
      cases hfront.mp hx
      cases hfront'.mp hy
      exact ⟨_, hfront.mpr rfl, _, hfront'.mpr rfl, z,
        (advanceField_false (Expression.says_dayOfWeek hwf) hw).mpr ⟨trivial, hz⟩, hrest⟩
  | none =>
  have hfront'' : ∀ {equal datetime x},
      Returns (fun fuel => nextDatetimeDayOfWeek fuel expr equal datetime) x ↔
        x = (equal, datetime) := advanceField_wild hw
  cases hy : expr.year with
  | some l =>
    constructor
    · rintro ⟨x, hx, y, hy', z, hz, w, hw', rfl⟩
      cases hfront.mp hx
      cases hfront'.mp hy'
      cases hfront''.mp hz
      rw [← hy] at hw'
      exact ⟨hknown, _, hfront.mpr rfl, _, hfront'.mpr rfl, _, hfront''.mpr rfl, w,
        hy ▸ ((advanceField_false hyear hy).mp hw').2, rfl⟩
    · rintro ⟨-, x, hx, y, hy', z, hz, w, hw', rfl⟩
      cases hfront.mp hx
      cases hfront'.mp hy'
      cases hfront''.mp hz
      rw [← hy] at hw'
      exact ⟨_, hfront.mpr rfl, _, hfront'.mpr rfl, _, hfront''.mpr rfl, w,
        hy ▸ (advanceField_false hyear hy).mpr ⟨trivial, hw'⟩, rfl⟩
  | none => exact absurd ⟨hd, hm, hw, hy⟩ hlisted

/-- Without a field of the date there is nothing to leave it for. -/
theorem dateStages_wild (hwild : expr.WildDate) :
    Returns (fun fuel => dateStages fuel expr equal datetime) r ↔ r = datetime := by
  rw [returns_dateStages]
  constructor
  · rintro ⟨x, hx, y, hy, z, hz, w, hw, rfl⟩
    cases (advanceField_wild hwild.dayOfMonth).mp hx
    cases (advanceField_wild hwild.month).mp hy
    cases (advanceField_wild hwild.dayOfWeek).mp hz
    cases (advanceField_wild hwild.year).mp hw
    rfl
  · rintro rfl
    exact ⟨_, (advanceField_wild hwild.dayOfMonth).mpr rfl, _,
      (advanceField_wild hwild.month).mpr rfl, _, (advanceField_wild hwild.dayOfWeek).mpr rfl, _,
      (advanceField_wild hwild.year).mpr rfl, rfl⟩

end DateStages

end CloudI.ServiceCron
