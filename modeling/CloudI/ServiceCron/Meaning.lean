import CloudI.ServiceCron.NextDatetime

/-!
# ServiceCron.Meaning

What the fields of an expression say about a datetime, and that the values which the code expands
for a date say the same.
-/

namespace CloudI.ServiceCron

open Calendar List

/-! ## the fields -/

/-- The day of the week of a date, from Sunday, which is 0. -/
def weekdayOf (date : Date) : Nat := (date.number + 6) % 7

/-- Monday to Friday. -/
def Workday (date : Date) : Prop := 1 ≤ weekdayOf date ∧ weekdayOf date ≤ 5

/-- The days between two days of a month. -/
def apart (a b : Nat) : Nat := (a - b) + (b - a)

/-- **The weekday nearest a day**: no weekday of the month is nearer. -/
structure NearestWorkday (date : Date) (day : Nat) : Prop where
  workday : Workday date
  nearest : ∀ other, Date.Valid ⟨date.year, date.month, other⟩ →
    Workday ⟨date.year, date.month, other⟩ → apart date.day day ≤ apart other day

/-- What a value says about the day of the month. -/
def Value.OnDayOfMonth (date : Date) : Value → Prop
  | .integer n => date.day = n
  | .lastDayOfMonth => date.day = lastDayOfTheMonth date.year date.month
  | .weekday day =>
      let day := day.getD (lastDayOfTheMonth date.year date.month)
      day ≤ lastDayOfTheMonth date.year date.month ∧ NearestWorkday date day
  | _ => False

/-- What a value says about the day of the week: the last one is in the last seven days of the
month, and the second one in the second seven days. -/
def Value.OnDayOfWeek (date : Date) : Value → Prop
  | .integer n => weekdayOf date = n
  | .lastDayOfWeek n =>
      weekdayOf date = n ∧ lastDayOfTheMonth date.year date.month < date.day + 7
  | .every multiplier n => weekdayOf date = n ∧ (date.day + 6) / 7 = multiplier
  | _ => False

/-- Some value of the field has the property; a wildcard has all of them. -/
def Field.Has (P : Value → Prop) (field : Field) : Prop := ∀ l, field = some l → ∃ v ∈ l, P v

/-- The field has a number. -/
def Field.HasNumber (field : Field) (n : Nat) : Prop := field.Has (· = .integer n)

/-- The fields of the date. -/
structure Expression.OnDate (expression : Expression) (date : Date) : Prop where
  dayOfMonth : expression.dayOfMonth.Has (Value.OnDayOfMonth date)
  month : expression.month.HasNumber date.month
  dayOfWeek : expression.dayOfWeek.Has (Value.OnDayOfWeek date)
  year : expression.year.HasNumber date.year

/-- The fields of the time. -/
structure Expression.AtTime (expression : Expression) (time : Time) : Prop where
  seconds : expression.seconds.HasNumber time.second
  minutes : expression.minutes.HasNumber time.minute
  hours : expression.hours.HasNumber time.hour

/-- **A datetime satisfies every field** of an expression. -/
structure Expression.Satisfied (expression : Expression) (datetime : DateTime) : Prop where
  onDate : expression.OnDate datetime.1
  atTime : expression.AtTime datetime.2

/-! ## days of the week -/

theorem weekdayOf_gregorianDaysToDate (days : Nat) :
    weekdayOf (gregorianDaysToDate days) = (days + 6) % 7 := by
  rw [weekdayOf, number_gregorianDaysToDate]

theorem dayOfWeek_gregorianDaysToDate (days : Nat) :
    dayOfWeek (gregorianDaysToDate days) = some ((days + 6) % 7) := by
  rw [dayOfWeek, dayOfTheWeek_gregorianDaysToDate]
  show some (if (days + 5) % 7 + 1 = 7 then 0 else (days + 5) % 7 + 1) = _
  congr 1
  split <;> omega

theorem dateAdd_gregorianDaysToDate (days incr : Nat) :
    dateAdd (gregorianDaysToDate days) incr = some (gregorianDaysToDate (days + incr)) := by
  rw [dateAdd, dateToGregorianDays_gregorianDaysToDate]
  show (if (0 : Int) ≤ days + incr then some (gregorianDaysToDate (days + incr : Int).toNat)
    else none) = _
  rw [if_pos (by omega), ← Int.natCast_add, Int.toNat_natCast]

theorem dateSub_gregorianDaysToDate (h : decr ≤ days) :
    dateAdd (gregorianDaysToDate days) (-decr) = some (gregorianDaysToDate (days - decr)) := by
  rw [dateAdd, dateToGregorianDays_gregorianDaysToDate]
  show (if (0 : Int) ≤ days + -decr then some (gregorianDaysToDate (days + -decr : Int).toNat)
    else none) = _
  rw [if_pos (by omega), show (days + -decr : Int).toNat = days - decr by omega]

/-! ## the nearest weekday -/

section Month

variable {year month : Nat} (hpos : 1 ≤ month) (hle : month ≤ 12)

variable {day c : Nat}

theorem weekdayOf_day (year month : Nat) (hday : 1 ≤ day) :
    weekdayOf ⟨year, month, day⟩ = (monthStart year month + (day - 1) + 6) % 7 := by
  rw [weekdayOf, number_day hday]

include hpos hle

theorem day_eq (hday : 1 ≤ day) (hlast : day ≤ lastDayOfTheMonth year month) :
    gregorianDaysToDate (monthStart year month + (day - 1)) = ⟨year, month, day⟩ := by
  rw [gregorianDaysToDate_monthStart hpos hle (by omega), Nat.sub_add_cancel hday]

/-- A day that is `sameMonth` is one of the month. -/
theorem sameMonth_eq : sameMonth ⟨year, month, day⟩ (gregorianDaysToDate days) =
      decide (monthStart year month ≤ days ∧
        days < monthStart year month + lastDayOfTheMonth year month) := by
  exact decide_eq_decide.mpr (month_eq_iff hpos hle)

theorem nearestWorkday_iff (hc : 1 ≤ c) (hlast : c ≤ lastDayOfTheMonth year month)
    (hwork : Workday ⟨year, month, c⟩)
    (hnear : ∀ other, 1 ≤ other → other ≤ lastDayOfTheMonth year month →
      Workday ⟨year, month, other⟩ → other ≠ c → apart c day < apart other day) (hother : 1 ≤ other)
    (hother' : other ≤ lastDayOfTheMonth year month) :
    NearestWorkday ⟨year, month, other⟩ day ↔ other = c := by
  constructor
  · rintro ⟨hworkday, hnearest⟩
    by_contra hne
    have hlt := hnear other hother hother' hworkday hne
    exact absurd (hnearest c ⟨hpos, hle, hc, hlast⟩ hwork) (Nat.not_le_of_lt hlt)
  · rintro rfl
    refine ⟨hwork, fun d hd hworkday => ?_⟩
    by_cases hne : d = other
    · exact Nat.le_of_eq (by rw [hne])
    · exact Nat.le_of_lt (hnear d hd.day_pos hd.day_le hworkday hne)

/-- What `closest_weekday` comes to: a Sunday goes to Monday, a Saturday to Friday, unless this
leaves the month.  There is no day before the first Saturday of the calendar. -/
theorem closestWeekday_eq (hday : 1 ≤ day) (hlast : day ≤ lastDayOfTheMonth year month)
    (hfirst : 0 < monthStart year month + (day - 1)) :
    closestWeekday ⟨year, month, day⟩ = some (
      if weekdayOf ⟨year, month, day⟩ = 0 then
        if day < lastDayOfTheMonth year month then day + 1 else day - 2
      else if weekdayOf ⟨year, month, day⟩ = 6 then if 1 < day then day - 1 else day + 2
      else day) := by
  have hdate := day_eq hpos hle hday hlast
  have hlast28 := (lastDayOfTheMonth_bounds year month).1
  have hdow := dayOfWeek_gregorianDaysToDate (monthStart year month + (day - 1))
  rw [hdate, ← weekdayOf_day year month hday] at hdow
  have hadd : ∀ k : Nat, dateAdd ⟨year, month, day⟩ k =
      some (gregorianDaysToDate (monthStart year month + (day - 1) + k)) := by
    intro k
    rw [← hdate, dateAdd_gregorianDaysToDate]
  have hsub : ∀ k : Nat, k ≤ monthStart year month + (day - 1) → dateAdd ⟨year, month, day⟩ (-k) =
        some (gregorianDaysToDate (monthStart year month + (day - 1) - k)) := by
    intro k hk
    rw [← hdate, dateSub_gregorianDaysToDate hk]
  have hin : ∀ other days, 1 ≤ other → other ≤ lastDayOfTheMonth year month →
      days = monthStart year month + (other - 1) →
      sameMonth ⟨year, month, day⟩ (gregorianDaysToDate days) = true ∧
        (gregorianDaysToDate days).day = other := by
    rintro other _ h₁ h₂ rfl
    rw [day_eq hpos hle h₁ h₂]
    exact ⟨decide_eq_true ⟨rfl, rfl⟩, rfl⟩
  have hout : ∀ days, ¬ (monthStart year month ≤ days ∧
      days < monthStart year month + lastDayOfTheMonth year month) →
      ¬ sameMonth ⟨year, month, day⟩ (gregorianDaysToDate days) = true := by
    intro days hdays h
    rw [sameMonth_eq hpos hle] at h
    exact hdays (of_decide_eq_true h)
  rw [closestWeekday, hdow]
  show (if _ = 0 then _ else _) = _
  by_cases h0 : weekdayOf ⟨year, month, day⟩ = 0
  · rw [if_pos h0, if_pos h0]
    show (dateAdd ⟨year, month, day⟩ (1 : Nat) >>= fun date1 => _) = _
    rw [hadd 1]
    show (if _ then some _ else _) = _
    by_cases hlt : day < lastDayOfTheMonth year month
    · obtain ⟨hsame, hnew⟩ := hin (day + 1) (monthStart year month + (day - 1) + 1) (by omega)
        (by omega) (by omega)
      rw [if_pos hsame, hnew, if_pos hlt]
    · rw [if_neg (hout _ (by omega)), if_neg hlt]
      show (dateAdd ⟨year, month, day⟩ (-(2 : Nat)) >>= fun date2 => _) = _
      rw [hsub 2 (by omega)]
      obtain ⟨hsame, hnew⟩ := hin (day - 2) (monthStart year month + (day - 1) - 2) (by omega)
        (by omega) (by omega)
      exact (if_pos hsame).trans (congrArg some hnew)
  rw [if_neg h0, if_neg h0]
  by_cases h6 : weekdayOf ⟨year, month, day⟩ = 6
  · rw [if_pos h6, if_pos h6]
    show (dateAdd ⟨year, month, day⟩ (-(1 : Nat)) >>= fun date1 => _) = _
    rw [hsub 1 (by omega)]
    show (if _ then some _ else _) = _
    by_cases hlt : 1 < day
    · obtain ⟨hsame, hnew⟩ := hin (day - 1) (monthStart year month + (day - 1) - 1) (by omega)
        (by omega) (by omega)
      rw [if_pos hsame, hnew, if_pos hlt]
    · rw [if_neg (hout _ (by omega)), if_neg hlt]
      show (dateAdd ⟨year, month, day⟩ (2 : Nat) >>= fun date2 => _) = _
      rw [hadd 2]
      obtain ⟨hsame, hnew⟩ := hin (day + 2) (monthStart year month + (day - 1) + 2) (by omega)
        (by omega) (by omega)
      exact (if_pos hsame).trans (congrArg some hnew)
  · rw [if_neg h6, if_neg h6]

/-- **`closest_weekday` is the nearest weekday** of a day of the month. -/
theorem closestWeekday_spec (hday : 1 ≤ day) (hlast : day ≤ lastDayOfTheMonth year month)
    (hfirst : 0 < monthStart year month + (day - 1)) :
    ∃ c, closestWeekday ⟨year, month, day⟩ = some c ∧
      ∀ other, 1 ≤ other → other ≤ lastDayOfTheMonth year month →
        (NearestWorkday ⟨year, month, other⟩ day ↔ other = c) := by
  refine ⟨_, closestWeekday_eq hpos hle hday hlast hfirst, fun other hother hother' => ?_⟩
  have hlast28 := (lastDayOfTheMonth_bounds year month).1
  have hweekday := weekdayOf_day year month hday
  -- a day that is a weekday, and nearer than the weekdays on the other side
  have hcase : ∀ c, 1 ≤ c → c ≤ lastDayOfTheMonth year month →
      (1 ≤ (monthStart year month + (c - 1) + 6) % 7 ∧
        (monthStart year month + (c - 1) + 6) % 7 ≤ 5) →
      (∀ d, 1 ≤ d → d ≤ lastDayOfTheMonth year month →
        1 ≤ (monthStart year month + (d - 1) + 6) % 7 →
        (monthStart year month + (d - 1) + 6) % 7 ≤ 5 → d ≠ c →
        (c - day) + (day - c) < (d - day) + (day - d)) →
      (NearestWorkday ⟨year, month, other⟩ day ↔ other = c) := by
    intro c hc hc' hwork hnear
    refine nearestWorkday_iff hpos hle hc hc' ?_ (fun d hd hd' hworkday hne => ?_) hother hother'
    · unfold Workday
      rw [weekdayOf_day year month hc]
      exact hwork
    · unfold Workday at hworkday
      rw [weekdayOf_day year month hd] at hworkday
      exact hnear d hd hd' hworkday.1 hworkday.2 hne
  by_cases h0 : weekdayOf ⟨year, month, day⟩ = 0
  · rw [if_pos h0]
    by_cases hlt : day < lastDayOfTheMonth year month
    · rw [if_pos hlt]
      exact hcase _ (by omega) (by omega) (by omega) (by omega)
    · rw [if_neg hlt]
      exact hcase _ (by omega) (by omega) (by omega) (by omega)
  rw [if_neg h0]
  by_cases h6 : weekdayOf ⟨year, month, day⟩ = 6
  · rw [if_pos h6]
    by_cases hlt : 1 < day
    · rw [if_pos hlt]
      exact hcase _ (by omega) (by omega) (by omega) (by omega)
    · rw [if_neg hlt]
      exact hcase _ (by omega) (by omega) (by omega) (by omega)
  · rw [if_neg h6]
    exact hcase _ (by omega) (by omega) (by omega) (by omega)

/-- There is no weekday nearest a day that the month lacks, nor does the code go before the first
day of the calendar. -/
theorem closestWeekday_of_some (hday : 1 ≤ day) (h : closestWeekday ⟨year, month, day⟩ = some c) :
    day ≤ lastDayOfTheMonth year month ∧ 0 < monthStart year month + (day - 1) := by
  by_cases hlast : day ≤ lastDayOfTheMonth year month
  · refine ⟨hlast, Nat.pos_of_ne_zero fun hzero => ?_⟩
    have hdate := day_eq hpos hle hday hlast
    rw [hzero] at hdate
    rw [closestWeekday, ← hdate, dayOfWeek_gregorianDaysToDate] at h
    cases h
  · have hinvalid : ¬ Date.Valid ⟨year, month, day⟩ := fun hvalid => hlast hvalid.day_le
    rw [closestWeekday, dayOfWeek, dayOfTheWeek, dateToGregorianDays, if_neg hinvalid] at h
    cases h

end Month

/-! ## the last day of the week, and every one -/

variable {dayOfWeek n i : Nat} {l : List Value} {v : Value} {P : Value → Prop} {vs : List Nat}

theorem lastDayOfWeekFind_eq (fuel days : Nat) (hfound : (found + 6) % 7 = dayOfWeek)
    (hle : found ≤ days) (hlt : days < found + 7) (hfuel : days < found + fuel) :
    lastDayOfWeekFind dayOfWeek fuel (gregorianDaysToDate days) =
      some (gregorianDaysToDate found) := by
  induction fuel generalizing days with
  | zero => omega
  | succ fuel ih =>
    rw [lastDayOfWeekFind, dayOfWeek_gregorianDaysToDate]
    show (if (days + 6) % 7 = dayOfWeek then _ else _) = _
    by_cases heq : days = found
    · rw [heq, if_pos hfound]
    · rw [if_neg (by omega)]
      show (dateAdd (gregorianDaysToDate days) (-(1 : Nat)) >>= fun date => _) = _
      rw [dateSub_gregorianDaysToDate (by omega)]
      exact ih _ (by omega) (by omega) (by omega)

/-- **`last_day_of_week`**: the day of the week, in the last seven days of its month. -/
theorem lastDayOfWeek_spec (days : Nat) (hn : n ≤ 6) :
    ∃ b, lastDayOfWeek (gregorianDaysToDate days) n = some b ∧
      (b = true ↔ Value.OnDayOfWeek (gregorianDaysToDate days) (.lastDayOfWeek n)) := by
  have hvalid := valid_gregorianDaysToDate days
  have hdays := eq_monthStart days
  have hday := hvalid.day_pos
  have hlast := hvalid.day_le
  have hbounds := lastDayOfTheMonth_bounds (gregorianDaysToDate days).year
    (gregorianDaysToDate days).month
  have hlastDate := day_eq hvalid.month_pos hvalid.month_le
    (Nat.le_trans hday hlast) (Nat.le_refl _)
  obtain ⟨last, hlastDay⟩ : ∃ last, last = monthStart (gregorianDaysToDate days).year
      (gregorianDaysToDate days).month + (lastDayOfTheMonth (gregorianDaysToDate days).year
      (gregorianDaysToDate days).month - 1) := ⟨_, rfl⟩
  rw [← hlastDay] at hlastDate
  have hfind := lastDayOfWeekFind_eq 7 last
    (show (last - (last + 6 + 7 - n) % 7 + 6) % 7 = n by omega) (by omega) (by omega) (by omega)
  rw [lastDayOfWeek, ← hlastDate, hfind]
  refine ⟨_, rfl, ?_⟩
  rw [decide_eq_true_iff]
  unfold Value.OnDayOfWeek
  rw [weekdayOf_gregorianDaysToDate]
  constructor
  · intro heq
    have hfound := gregorianDaysToDate_injective heq
    omega
  · rintro ⟨hweekday, hend⟩
    have hfound : days = last - (last + 6 + 7 - n) % 7 := by omega
    exact congrArg gregorianDaysToDate hfound

/-- Going on, the day of the week is found where it is, and then every seven days. -/
theorem everyDayOfWeekFind_eq (multiplier fuel days i : Nat) (hfirst : (first + 6) % 7 = dayOfWeek)
    (hle : days ≤ first) (hlt : first < days + 7) (hi : i ≤ multiplier)
    (hfuel : first + multiplier < days + i + fuel) :
    everyDayOfWeekFind multiplier dayOfWeek fuel (gregorianDaysToDate days) i =
      some (gregorianDaysToDate (first + 7 * (multiplier - i))) := by
  induction fuel generalizing days first i with
  | zero => omega
  | succ fuel ih =>
    rw [everyDayOfWeekFind, dayOfWeek_gregorianDaysToDate]
    show (if (days + 6) % 7 = dayOfWeek then _ else _) = _
    by_cases heq : days = first
    · rw [if_pos (by omega)]
      by_cases hlast : i = multiplier
      · rw [if_pos hlast, heq, hlast, Nat.sub_self]
        rfl
      · rw [if_neg hlast]
        show (dateAdd (gregorianDaysToDate days) (7 : Nat) >>= fun date => _) = _
        rw [dateAdd_gregorianDaysToDate]
        have hnext : everyDayOfWeekFind multiplier dayOfWeek fuel
            (gregorianDaysToDate (days + 7)) (i + 1) =
              some (gregorianDaysToDate (first + 7 + 7 * (multiplier - (i + 1)))) :=
          ih (days + 7) (i + 1) (by omega) (by omega) (by omega) (by omega) (by omega)
        rw [show first + 7 * (multiplier - i) = first + 7 + 7 * (multiplier - (i + 1)) by omega]
        exact hnext
    · rw [if_neg (by omega)]
      show (dateAdd (gregorianDaysToDate days) (1 : Nat) >>= fun date => _) = _
      rw [dateAdd_gregorianDaysToDate]
      exact ih (days + 1) i hfirst (by omega) (by omega) hi (by omega)

/-- **`every_day_of_week`**: the day of the week, in the seven days of its month with the
number. -/
theorem everyDayOfWeek_spec (days : Nat) (hpos : 1 ≤ multiplier) (hn : n ≤ 6) :
    ∃ b, everyDayOfWeek (gregorianDaysToDate days) multiplier n = some b ∧
      (b = true ↔ Value.OnDayOfWeek (gregorianDaysToDate days) (.every multiplier n)) := by
  have hvalid := valid_gregorianDaysToDate days
  have hdays := eq_monthStart days
  have hday := hvalid.day_pos
  have hlast := hvalid.day_le
  have hfirstDate := day_eq hvalid.month_pos hvalid.month_le
    (Nat.le_refl 1) (Nat.le_trans hday hlast)
  obtain ⟨first, hfirst⟩ : ∃ first, first = monthStart (gregorianDaysToDate days).year
      (gregorianDaysToDate days).month := ⟨_, rfl⟩
  rw [← hfirst] at hdays hfirstDate
  have hfind := everyDayOfWeekFind_eq multiplier (7 + multiplier) (first + (1 - 1)) 1
    (show (first + (n + 7 - (first + 6) % 7) % 7 + 6) % 7 = n by omega) (by omega) (by omega)
    hpos (by omega)
  rw [everyDayOfWeek, ← hfirstDate, hfind]
  refine ⟨_, rfl, ?_⟩
  rw [decide_eq_true_iff]
  unfold Value.OnDayOfWeek
  rw [weekdayOf_gregorianDaysToDate]
  constructor
  · intro heq
    have hfound := gregorianDaysToDate_injective heq
    omega
  · rintro ⟨hweekday, hweek⟩
    have hfound : days = first + (n + 7 - (first + 6) % 7) % 7 + 7 * (multiplier - 1) := by omega
    exact congrArg gregorianDaysToDate hfound

/-! ## the expanded values -/

/-- The weekdays of a field that the code can look for in a month: the month has the day, and it
is not the first of the calendar. -/
def Reachable (l : List Value) (date : Date) : Prop :=
  ∀ day, Value.weekday (some day) ∈ l → day ≤ lastDayOfTheMonth date.year date.month ∧
    0 < monthStart date.year date.month + (day - 1)

theorem reachable_cons : Reachable (v :: l) date ↔ Reachable [v] date ∧ Reachable l date := by
  constructor
  · intro h
    exact ⟨fun day hday => h day (mem_singleton.mp hday ▸ mem_cons_self),
      fun day hday => h day (mem_cons_of_mem v hday)⟩
  · rintro ⟨hv, hl⟩ day hday
    rcases mem_cons.mp hday with heq | hday
    · exact hv day (mem_singleton.mpr heq)
    · exact hl day hday

theorem mem_expanded_cons (hv : i = x ↔ P v) (hl : i ∈ vs ↔ ∃ w ∈ l, P w) :
    i ∈ x :: vs ↔ ∃ w ∈ v :: l, P w := by
  simp only [mem_cons, hv, hl, exists_eq_or_imp]

theorem mem_expanded_skip (hv : ¬ P v) (hl : i ∈ vs ↔ ∃ w ∈ l, P w) :
    i ∈ vs ↔ ∃ w ∈ v :: l, P w := by
  simp only [mem_cons, hl, exists_eq_or_imp, hv, false_or]

theorem expand_weekday (days : Nat) (hday : ∀ d, day = some d → 1 ≤ d) :
    (∀ c, closestWeekday ⟨(gregorianDaysToDate days).year, (gregorianDaysToDate days).month,
        day.getD (lastDayOfTheMonth (gregorianDaysToDate days).year
          (gregorianDaysToDate days).month)⟩ = some c →
      Reachable [.weekday day] (gregorianDaysToDate days) ∧ ((gregorianDaysToDate days).day = c ↔
          Value.OnDayOfMonth (gregorianDaysToDate days) (.weekday day))) ∧
    (Reachable [.weekday day] (gregorianDaysToDate days) →
      ∃ c, closestWeekday ⟨(gregorianDaysToDate days).year, (gregorianDaysToDate days).month,
        day.getD (lastDayOfTheMonth (gregorianDaysToDate days).year
          (gregorianDaysToDate days).month)⟩ = some c) := by
  have hvalid := valid_gregorianDaysToDate days
  have hbounds := lastDayOfTheMonth_bounds (gregorianDaysToDate days).year
    (gregorianDaysToDate days).month
  generalize hdate : gregorianDaysToDate days = date at *
  obtain ⟨d, hd⟩ : ∃ d, d = day.getD (lastDayOfTheMonth date.year date.month) := ⟨_, rfl⟩
  have hd1 : 1 ≤ d := by
    cases day with
    | none => rw [hd]; exact Nat.le_trans (by decide) hbounds.1
    | some d' => rw [hd]; exact hday d' rfl
  -- the last day of a month is always there
  have hreach : Reachable [.weekday day] date ↔ d ≤ lastDayOfTheMonth date.year date.month ∧
        0 < monthStart date.year date.month + (d - 1) := by
    cases day with
    | none =>
      have hd' : d = lastDayOfTheMonth date.year date.month := hd
      exact ⟨fun _ => ⟨by omega, by omega⟩, fun _ d' hd'' => by
        cases mem_singleton.mp hd''⟩
    | some d' =>
      have hd' : d = d' := hd
      subst hd'
      exact ⟨fun h => h d mem_cons_self, fun h e he => by
        cases mem_singleton.mp he
        exact h⟩
  rw [hreach, ← hd]
  constructor
  · intro c hc
    have hin := closestWeekday_of_some hvalid.month_pos hvalid.month_le hd1 hc
    refine ⟨hin, ?_⟩
    obtain ⟨c', hc', hnearest⟩ := closestWeekday_spec hvalid.month_pos hvalid.month_le hd1
      hin.1 hin.2
    cases hc.symm.trans hc'
    rw [← hnearest date.day hvalid.day_pos hvalid.day_le]
    rw [show Value.OnDayOfMonth date (.weekday day) ↔
      d ≤ lastDayOfTheMonth date.year date.month ∧ NearestWorkday date d by rw [hd]; rfl]
    exact ⟨fun h => ⟨hin.1, h⟩, fun h => h.2⟩
  · intro hin
    obtain ⟨c, hc, -⟩ := closestWeekday_spec hvalid.month_pos hvalid.month_le hd1 hin.1 hin.2
    exact ⟨c, hc⟩

/-- **The values of the day of the month**, expanded for a date that they are looked for in. -/
theorem expand_dayOfMonth (days : Nat)
    (hfits : ∀ v ∈ l, v.Fits (fun n => 1 ≤ n ∧ n ≤ 31) (fun n => 1 ≤ n ∧ n ≤ 31)
      [.lastDayOfMonth, .weekday]) :
    (∀ vs, getNextValueExpand (gregorianDaysToDate days) l = some vs →
      Reachable l (gregorianDaysToDate days) ∧ ((gregorianDaysToDate days).day ∈ vs ↔
        ∃ v ∈ l, v.OnDayOfMonth (gregorianDaysToDate days))) ∧
    (Reachable l (gregorianDaysToDate days) →
      ∃ vs, getNextValueExpand (gregorianDaysToDate days) l = some vs) := by
  induction l with
  | nil =>
    refine ⟨fun vs hvs => ?_, fun _ => ⟨[], rfl⟩⟩
    cases hvs
    exact ⟨fun day hday => absurd hday not_mem_nil, by simp⟩
  | cons v l ih =>
    obtain ⟨ihmem, ihsome⟩ := ih fun w hw => hfits w (mem_cons_of_mem v hw)
    have hv := hfits v mem_cons_self
    rw [reachable_cons]
    -- a value that is expanded to one that does not depend on the month
    have hplain : ∀ x, getNextValueExpand (gregorianDaysToDate days) (v :: l) =
          (getNextValueExpand (gregorianDaysToDate days) l).map (x :: ·) →
        ((gregorianDaysToDate days).day = x ↔ v.OnDayOfMonth (gregorianDaysToDate days)) →
        (∀ day, v ≠ .weekday (some day)) →
        (∀ vs, getNextValueExpand (gregorianDaysToDate days) (v :: l) = some vs →
          (Reachable [v] (gregorianDaysToDate days) ∧ Reachable l (gregorianDaysToDate days)) ∧
            ((gregorianDaysToDate days).day ∈ vs ↔
              ∃ w ∈ v :: l, w.OnDayOfMonth (gregorianDaysToDate days))) ∧
        (Reachable [v] (gregorianDaysToDate days) ∧ Reachable l (gregorianDaysToDate days) →
          ∃ vs, getNextValueExpand (gregorianDaysToDate days) (v :: l) = some vs) := by
      intro x hexpand hx hne
      rw [hexpand]
      constructor
      · intro vs hvs
        obtain ⟨vs', hvs', rfl⟩ := Option.map_eq_some_iff.mp hvs
        obtain ⟨hreach, hmem⟩ := ihmem vs' hvs'
        exact ⟨⟨fun day hday => absurd (mem_singleton.mp hday).symm (hne day), hreach⟩,
          mem_expanded_cons hx hmem⟩
      · rintro ⟨-, hreach⟩
        obtain ⟨vs, hvs⟩ := ihsome hreach
        exact ⟨x :: vs, by rw [hvs]; rfl⟩
    rcases v with n | _ | n | day | ⟨m, n⟩
    · refine hplain n ?_ Iff.rfl fun _ => nofun
      rw [getNextValueExpand]
      cases getNextValueExpand (gregorianDaysToDate days) l <;> rfl
    · refine hplain (lastDayOfTheMonth (gregorianDaysToDate days).year
        (gregorianDaysToDate days).month) ?_ Iff.rfl fun _ => nofun
      rw [getNextValueExpand]
      cases getNextValueExpand (gregorianDaysToDate days) l <;> rfl
    · exact absurd hv.1 (by simp)
    · have hday : ∀ d, day = some d → 1 ≤ d := by
        rintro d rfl
        exact hv.2.1
      obtain ⟨hweekday, hsome⟩ := expand_weekday days hday
      rw [getNextValueExpand]
      constructor
      · intro vs hvs
        simp only [Option.bind_eq_bind, Option.bind_eq_some_iff, Option.some.injEq] at hvs
        obtain ⟨c, hc, vs', hvs', rfl⟩ := hvs
        obtain ⟨hreach, hmem⟩ := ihmem vs' hvs'
        obtain ⟨hin, hx⟩ := hweekday c hc
        exact ⟨⟨hin, hreach⟩, mem_expanded_cons hx hmem⟩
      · rintro ⟨hin, hreach⟩
        obtain ⟨c, hc⟩ := hsome hin
        obtain ⟨vs, hvs⟩ := ihsome hreach
        refine ⟨c :: vs, ?_⟩
        simp only [hc, hvs]
        rfl
    · exact absurd hv.1 (by simp)

/-- **The values of the day of the week**, expanded for a date. -/
theorem expand_dayOfWeek (days : Nat)
    (hfits : ∀ v ∈ l, v.Fits (fun n => n ≤ 7) (fun n => n ≤ 6) [.lastDayOfWeek, .every]) :
    ∃ vs, getNextValueExpand (gregorianDaysToDate days) l = some vs ∧
      (weekdayOf (gregorianDaysToDate days) ∈ vs ↔
        ∃ v ∈ l, v.OnDayOfWeek (gregorianDaysToDate days)) := by
  induction l with
  | nil => exact ⟨[], rfl, by simp⟩
  | cons v l ih =>
    obtain ⟨vs, hvs, hmem⟩ := ih fun w hw => hfits w (mem_cons_of_mem v hw)
    have hv := hfits v mem_cons_self
    rcases v with n | _ | n | (_ | n) | ⟨m, n⟩
    · exact ⟨n :: vs, by rw [getNextValueExpand, hvs]; rfl, mem_expanded_cons Iff.rfl hmem⟩
    · exact absurd hv (by simp [Value.Fits])
    · obtain ⟨b, hb, hon⟩ := lastDayOfWeek_spec days hv.2
      rw [getNextValueExpand, hb, hvs]
      cases b with
      | true =>
        have hlast := hon.mp rfl
        exact ⟨n :: vs, rfl, mem_expanded_cons ⟨fun _ => hlast, fun h => h.1⟩ hmem⟩
      | false => exact ⟨vs, rfl, mem_expanded_skip (fun h => nomatch hon.mpr h) hmem⟩
    · exact absurd hv (by simp [Value.Fits])
    · exact absurd hv.1 (by simp)
    · obtain ⟨b, hb, hon⟩ := everyDayOfWeek_spec days hv.2.1.1 hv.2.2
      rw [getNextValueExpand, hb, hvs]
      cases b with
      | true =>
        have hevery := hon.mp rfl
        exact ⟨n :: vs, rfl, mem_expanded_cons ⟨fun _ => hevery, fun h => h.1⟩ hmem⟩
      | false => exact ⟨vs, rfl, mem_expanded_skip (fun h => nomatch hon.mpr h) hmem⟩

theorem expand_numbers (date : Date) (ns : List Nat) :
    getNextValueExpand date (ns.map .integer) = some ns := by
  induction ns with
  | nil => rfl
  | cons n ns ih =>
    rw [map_cons, getNextValueExpand, ih]
    rfl

end CloudI.ServiceCron
