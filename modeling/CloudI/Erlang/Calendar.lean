/-!
# Erlang.Calendar

Erlang's `calendar`: the Gregorian calendar from the year 0 on, with the days
and the seconds counted from its start.
-/

namespace CloudI.Calendar

/-! ## dates and times -/

/-- `{Year, Month, Day}`, not always a date of the calendar. -/
structure Date where
  year : Nat
  month : Nat
  day : Nat
deriving DecidableEq, Repr

/-- `{Hour, Minute, Second}`. -/
structure Time where
  hour : Nat
  minute : Nat
  second : Nat
deriving DecidableEq, Repr

/-- `calendar:is_leap_year/1`. -/
def isLeapYear (year : Nat) : Bool :=
  decide (year % 4 = 0 ∧ year % 100 ≠ 0 ∨ year % 400 = 0)

/-- The days of a month, in a leap year or another one. -/
def daysOfMonth (leap : Bool) : Nat → Nat
  | 4 | 6 | 9 | 11 => 30
  | 2 => if leap then 29 else 28
  | _ => 31

/-- `calendar:last_day_of_the_month/2`. -/
def lastDayOfTheMonth (year month : Nat) : Nat := daysOfMonth (isLeapYear year) month

/-- `calendar:valid_date/1`. -/
structure Date.Valid (date : Date) : Prop where
  month_pos : 1 ≤ date.month
  month_le : date.month ≤ 12
  day_pos : 1 ≤ date.day
  day_le : date.day ≤ lastDayOfTheMonth date.year date.month

instance (date : Date) : Decidable date.Valid :=
  decidable_of_iff (1 ≤ date.month ∧ date.month ≤ 12 ∧ 1 ≤ date.day ∧
      date.day ≤ lastDayOfTheMonth date.year date.month)
    ⟨fun ⟨h₁, h₂, h₃, h₄⟩ => ⟨h₁, h₂, h₃, h₄⟩, fun ⟨h₁, h₂, h₃, h₄⟩ => ⟨h₁, h₂, h₃, h₄⟩⟩

/-- A time of the day. -/
structure Time.Valid (time : Time) : Prop where
  hour_le : time.hour ≤ 23
  minute_le : time.minute ≤ 59
  second_le : time.second ≤ 59

/-! ## days -/

/-- The days before a year (`dy`). -/
def daysBeforeYear : Nat → Nat
  | 0 => 0
  | y + 1 => y / 4 - y / 100 + y / 400 + y * 365 + 366

/-- The days of a year before a month (`dm` and `df`). -/
def daysBeforeMonth (leap : Bool) : Nat → Nat
  | 0 | 1 => 0
  | 2 => 31
  | 3 => 59 + leap.toNat
  | 4 => 90 + leap.toNat
  | 5 => 120 + leap.toNat
  | 6 => 151 + leap.toNat
  | 7 => 181 + leap.toNat
  | 8 => 212 + leap.toNat
  | 9 => 243 + leap.toNat
  | 10 => 273 + leap.toNat
  | 11 => 304 + leap.toNat
  | 12 => 334 + leap.toNat
  | _ => 365 + leap.toNat

/-- The number of a date of the calendar. -/
def Date.number (date : Date) : Nat :=
  daysBeforeYear date.year + daysBeforeMonth (isLeapYear date.year) date.month + date.day - 1

/-- `calendar:date_to_gregorian_days/1`, which fails on what is no date. -/
def dateToGregorianDays (date : Date) : Option Nat :=
  if date.Valid then some date.number else none

/-- The last of some consecutive periods that does not begin after `x`. -/
def periodFrom (begins : Nat → Nat) (x : Nat) : Nat → Nat → Nat
  | 0, period => period
  | fuel + 1, period =>
      if x < begins (period + 1) then period else periodFrom begins x fuel (period + 1)

/-- The year of a day (`day_to_year`). -/
def yearOf (days : Nat) : Nat :=
  periodFrom daysBeforeYear days (days / 365 - days / 366) (days / 366)

/-- The month of a day of the year (`year_day_to_date`). -/
def monthOf (leap : Bool) (day : Nat) : Nat := periodFrom (daysBeforeMonth leap) day 11 1

/-- `calendar:gregorian_days_to_date/1`. -/
def gregorianDaysToDate (days : Nat) : Date :=
  let year := yearOf days
  let day := days - daysBeforeYear year
  let month := monthOf (isLeapYear year) day
  ⟨year, month, day - daysBeforeMonth (isLeapYear year) month + 1⟩

/-- `calendar:day_of_the_week/1`: Monday is 1 and Sunday 7. -/
def dayOfTheWeek (date : Date) : Option Nat :=
  (dateToGregorianDays date).map fun days => (days + 5) % 7 + 1

/-! ## seconds -/

/-- `calendar:time_to_seconds/1`. -/
def timeToSeconds (time : Time) : Nat := time.hour * 3600 + time.minute * 60 + time.second

/-- `calendar:seconds_to_time/1`. -/
def secondsToTime (seconds : Nat) : Time :=
  ⟨seconds / 3600, seconds % 3600 / 60, seconds % 60⟩

/-- `calendar:datetime_to_gregorian_seconds/1`. -/
def datetimeToGregorianSeconds (datetime : Date × Time) : Option Nat :=
  (dateToGregorianDays datetime.1).map fun days => days * 86400 + timeToSeconds datetime.2

/-- `calendar:gregorian_seconds_to_datetime/1`. -/
def gregorianSecondsToDatetime (seconds : Nat) : Date × Time :=
  (gregorianDaysToDate (seconds / 86400), secondsToTime (seconds % 86400))

/-! ## periods -/

variable {x days year month day : Nat} {begins : Nat → Nat} {leap : Bool}

/-- The period found is the one that `x` is in. -/
theorem periodFrom_spec (hle : begins period ≤ x) (hlt : x < begins (period + fuel + 1)) :
    (period ≤ periodFrom begins x fuel period ∧ periodFrom begins x fuel period ≤ period + fuel) ∧
      begins (periodFrom begins x fuel period) ≤ x ∧
      x < begins (periodFrom begins x fuel period + 1) := by
  induction fuel generalizing period with
  | zero => exact ⟨⟨Nat.le_refl _, Nat.le_refl _⟩, hle, hlt⟩
  | succ fuel ih =>
    rw [periodFrom]
    by_cases hnext : x < begins (period + 1)
    · rw [if_pos hnext]
      exact ⟨⟨Nat.le_refl _, Nat.le_add_right _ _⟩, hle, hnext⟩
    · rw [if_neg hnext]
      obtain ⟨hbounds, hspec⟩ := ih (Nat.le_of_not_lt hnext)
        (by rwa [Nat.add_right_comm period 1 fuel])
      exact ⟨by omega, hspec⟩

/-- Periods that begin later and later: `x` is in one of them only. -/
theorem period_unique (hmono : ∀ r, p ≤ r ∨ q ≤ r → r < p ∨ r < q → begins r ≤ begins (r + 1))
    (hp : begins p ≤ x) (hp' : x < begins (p + 1)) (hq : begins q ≤ x) (hq' : x < begins (q + 1)) :
    p = q := by
  have hchain : ∀ {a b : Nat}, (∀ r, a ≤ r → r < b → begins r ≤ begins (r + 1)) → a < b →
      begins (a + 1) ≤ begins b := by
    intro a b h hlt
    induction b with
    | zero => omega
    | succ b ih =>
      by_cases hab : a = b
      · exact Nat.le_of_eq (by rw [hab])
      · exact Nat.le_trans (ih (fun r hr hr' => h r hr (by omega)) (by omega))
          (h b (by omega) (Nat.lt_succ_self b))
  rcases Nat.lt_trichotomy p q with h | h | h
  · have := hchain (fun r hr hr' => hmono r (.inl hr) (.inr hr')) h
    omega
  · exact h
  · have := hchain (fun r hr hr' => hmono r (.inr hr) (.inl hr')) h
    omega

/-! ## years -/

theorem succ_div (n k : Nat) : (n + 1) / k = n / k + if (n + 1) % k = 0 then 1 else 0 := by
  rw [Nat.succ_div]
  simp only [Nat.dvd_iff_mod_eq_zero]

theorem daysBeforeYear_succ (year : Nat) :
    daysBeforeYear (year + 1) = daysBeforeYear year + 365 + (isLeapYear year).toNat := by
  cases year with
  | zero => rfl
  | succ y =>
    have hle : y / 100 ≤ y / 4 := Nat.div_le_div_left (by decide) (by decide)
    have h100 : (y + 1) % 400 = 0 → (y + 1) % 100 = 0 := by omega
    have h4 : (y + 1) % 100 = 0 → (y + 1) % 4 = 0 := by omega
    rw [daysBeforeYear, daysBeforeYear, isLeapYear, succ_div y 4, succ_div y 100, succ_div y 400]
    generalize y / 4 = fourth, y / 100 = century, y / 400 = period at hle
    generalize (y + 1) % 4 = m4, (y + 1) % 100 = m100, (y + 1) % 400 = m400 at h100 h4
    by_cases hm400 : m400 = 0
    · simp [hm400, h100 hm400, h4 (h100 hm400)]
      omega
    by_cases hm100 : m100 = 0
    · simp [hm400, hm100, h4 hm100]
      omega
    by_cases hm4 : m4 = 0
    · simp [hm400, hm100, hm4]
      omega
    · simp [hm400, hm100, hm4]
      omega

theorem daysBeforeYear_le (year : Nat) : daysBeforeYear year ≤ year * 366 := by
  cases year with
  | zero => exact Nat.le_refl _
  | succ y =>
    rw [daysBeforeYear]
    omega

theorem lt_daysBeforeYear (year : Nat) : year * 365 + 365 < daysBeforeYear (year + 1) := by
  rw [daysBeforeYear]
  omega

/-- The year has the day between its first day and that of the next year. -/
theorem yearOf_spec (days : Nat) :
    daysBeforeYear (yearOf days) ≤ days ∧ days < daysBeforeYear (yearOf days + 1) := by
  have hle := daysBeforeYear_le (days / 366)
  have hlt := lt_daysBeforeYear (days / 365)
  have hyears : days / 366 + (days / 365 - days / 366) = days / 365 := by omega
  exact (periodFrom_spec (by omega) (by rw [hyears]; omega)).2

theorem yearOf_eq (hle : daysBeforeYear year ≤ days) (hlt : days < daysBeforeYear (year + 1)) :
    yearOf days = year := by
  obtain ⟨hle', hlt'⟩ := yearOf_spec days
  refine period_unique (fun r _ _ => ?_) hle' hlt' hle hlt
  rw [daysBeforeYear_succ]
  omega

theorem daysBeforeYear_mono (h : y ≤ y') : daysBeforeYear y ≤ daysBeforeYear y' := by
  induction h with
  | refl => exact Nat.le_refl _
  | step _ ih =>
    rw [daysBeforeYear_succ]
    omega

/-- Later days are in the same year or in a later one. -/
theorem yearOf_mono (h : days ≤ days') : yearOf days ≤ yearOf days' := by
  obtain ⟨hle, -⟩ := yearOf_spec days
  obtain ⟨-, hlt⟩ := yearOf_spec days'
  refine Nat.le_of_not_lt fun hnot => ?_
  have hmono := daysBeforeYear_mono (show yearOf days' + 1 ≤ yearOf days by omega)
  omega

/-! ## months -/

theorem daysBeforeMonth_succ (leap : Bool) (hpos : 1 ≤ month) (hle : month ≤ 12) :
    daysBeforeMonth leap (month + 1) = daysBeforeMonth leap month + daysOfMonth leap month := by
  obtain rfl | rfl | rfl | rfl | rfl | rfl | rfl | rfl | rfl | rfl | rfl | rfl :
      month = 1 ∨ month = 2 ∨ month = 3 ∨ month = 4 ∨ month = 5 ∨ month = 6 ∨ month = 7 ∨
      month = 8 ∨ month = 9 ∨ month = 10 ∨ month = 11 ∨ month = 12 := by omega
  all_goals cases leap <;> rfl

theorem monthOf_spec (h : day < 365 + leap.toNat) : (1 ≤ monthOf leap day ∧ monthOf leap day ≤ 12) ∧
      daysBeforeMonth leap (monthOf leap day) ≤ day ∧
      day < daysBeforeMonth leap (monthOf leap day + 1) :=
  periodFrom_spec (show daysBeforeMonth leap 1 ≤ day from Nat.zero_le day) h

theorem monthOf_eq (hpos : 1 ≤ month) (hmonth : month ≤ 12) (hday : day < 365 + leap.toNat)
    (hle : daysBeforeMonth leap month ≤ day) (hlt : day < daysBeforeMonth leap (month + 1)) :
    monthOf leap day = month := by
  obtain ⟨⟨hpos', hmonth'⟩, hle', hlt'⟩ := monthOf_spec hday
  refine period_unique (fun r hr hr' => ?_) hle' hlt' hle hlt
  rw [daysBeforeMonth_succ leap (by omega) (by omega)]
  omega

/-- A month ends in its year. -/
theorem daysBeforeMonth_le (leap : Bool) (hpos : 1 ≤ month) (hle : month ≤ 12) :
    daysBeforeMonth leap (month + 1) ≤ 365 + leap.toNat := by
  obtain rfl | rfl | rfl | rfl | rfl | rfl | rfl | rfl | rfl | rfl | rfl | rfl :
      month = 1 ∨ month = 2 ∨ month = 3 ∨ month = 4 ∨ month = 5 ∨ month = 6 ∨ month = 7 ∨
      month = 8 ∨ month = 9 ∨ month = 10 ∨ month = 11 ∨ month = 12 := by omega
  all_goals cases leap <;> decide

/-! ## the days and the dates -/

theorem valid_gregorianDaysToDate (days : Nat) : (gregorianDaysToDate days).Valid := by
  obtain ⟨hle, hlt⟩ := yearOf_spec days
  rw [daysBeforeYear_succ] at hlt
  obtain ⟨⟨hpos, h12⟩, hbefore, hlast⟩ := monthOf_spec
    (show days - daysBeforeYear (yearOf days) < 365 + (isLeapYear (yearOf days)).toNat by omega)
  rw [daysBeforeMonth_succ _ hpos h12] at hlast
  exact ⟨hpos, h12, Nat.succ_pos _, Nat.succ_le_of_lt (Nat.sub_lt_left_of_lt_add hbefore hlast)⟩

theorem number_gregorianDaysToDate (days : Nat) : (gregorianDaysToDate days).number = days := by
  obtain ⟨hle, hlt⟩ := yearOf_spec days
  rw [daysBeforeYear_succ] at hlt
  obtain ⟨-, hbefore, -⟩ := monthOf_spec
    (show days - daysBeforeYear (yearOf days) < 365 + (isLeapYear (yearOf days)).toNat by omega)
  unfold Date.number gregorianDaysToDate
  show daysBeforeYear (yearOf days) + daysBeforeMonth (isLeapYear (yearOf days))
      (monthOf (isLeapYear (yearOf days)) (days - daysBeforeYear (yearOf days))) +
    (days - daysBeforeYear (yearOf days) - daysBeforeMonth (isLeapYear (yearOf days))
      (monthOf (isLeapYear (yearOf days)) (days - daysBeforeYear (yearOf days))) + 1) - 1 = days
  omega

theorem gregorianDaysToDate_number (h : date.Valid) : gregorianDaysToDate date.number = date := by
  obtain ⟨year, month, day⟩ := date
  have hpos : 1 ≤ month := h.month_pos
  have h12 : month ≤ 12 := h.month_le
  have hday : 1 ≤ day := h.day_pos
  have hlast : day ≤ daysOfMonth (isLeapYear year) month := h.day_le
  have hmonth := daysBeforeMonth_succ (isLeapYear year) hpos h12
  have hends := daysBeforeMonth_le (isLeapYear year) hpos h12
  have hnumber : Date.number ⟨year, month, day⟩ =
      daysBeforeYear year + daysBeforeMonth (isLeapYear year) month + day - 1 := rfl
  have hyear : yearOf (Date.number ⟨year, month, day⟩) = year := by
    have hsucc := daysBeforeYear_succ year
    exact yearOf_eq (by omega) (by omega)
  have hrest : Date.number ⟨year, month, day⟩ - daysBeforeYear year =
      daysBeforeMonth (isLeapYear year) month + day - 1 := by omega
  have hmonthOf : monthOf (isLeapYear year)
      (daysBeforeMonth (isLeapYear year) month + day - 1) = month :=
    monthOf_eq hpos h12 (by omega) (by omega) (by omega)
  have hback : daysBeforeMonth (isLeapYear year) month + day - 1 -
      daysBeforeMonth (isLeapYear year) month + 1 = day := by omega
  simp only [gregorianDaysToDate, hyear, hrest, hmonthOf, hback]

theorem dateToGregorianDays_gregorianDaysToDate (days : Nat) :
    dateToGregorianDays (gregorianDaysToDate days) = some days := by
  rw [dateToGregorianDays, if_pos (valid_gregorianDaysToDate days), number_gregorianDaysToDate]

theorem gregorianDaysToDate_injective (h : gregorianDaysToDate a = gregorianDaysToDate b) :
    a = b := by
  rw [← number_gregorianDaysToDate a, h, number_gregorianDaysToDate]

theorem dayOfTheWeek_gregorianDaysToDate (days : Nat) :
    dayOfTheWeek (gregorianDaysToDate days) = some ((days + 5) % 7 + 1) := by
  rw [dayOfTheWeek, dateToGregorianDays_gregorianDaysToDate]
  rfl

/-! ## the days of a month -/

/-- The number of the first day of a month. -/
def monthStart (year month : Nat) : Nat :=
  daysBeforeYear year + daysBeforeMonth (isLeapYear year) month

theorem number_day (hday : 1 ≤ day) :
    Date.number ⟨year, month, day⟩ = monthStart year month + (day - 1) := by
  show daysBeforeYear year + daysBeforeMonth (isLeapYear year) month + day - 1 =
    daysBeforeYear year + daysBeforeMonth (isLeapYear year) month + (day - 1)
  omega

theorem gregorianDaysToDate_monthStart (hpos : 1 ≤ month) (hle : month ≤ 12)
    (hi : i < lastDayOfTheMonth year month) :
    gregorianDaysToDate (monthStart year month + i) = ⟨year, month, i + 1⟩ := by
  have hvalid : Date.Valid ⟨year, month, i + 1⟩ := ⟨hpos, hle, Nat.succ_pos i, hi⟩
  rw [← gregorianDaysToDate_number hvalid, number_day (Nat.succ_pos i)]
  rfl

theorem eq_monthStart (days : Nat) :
    days = monthStart (gregorianDaysToDate days).year (gregorianDaysToDate days).month +
      ((gregorianDaysToDate days).day - 1) := by
  rw [← number_day (valid_gregorianDaysToDate days).day_pos]
  exact (number_gregorianDaysToDate days).symm

/-- The days in one month are those between its ends. -/
theorem month_eq_iff (hpos : 1 ≤ month) (hle : month ≤ 12) :
    ((gregorianDaysToDate days).year = year ∧ (gregorianDaysToDate days).month = month) ↔
      monthStart year month ≤ days ∧
        days < monthStart year month + lastDayOfTheMonth year month := by
  constructor
  · rintro ⟨rfl, rfl⟩
    have heq := eq_monthStart days
    have hvalid := valid_gregorianDaysToDate days
    have hpos := hvalid.day_pos
    have hlast := hvalid.day_le
    omega
  · rintro ⟨hstart, hend⟩
    have hdate := gregorianDaysToDate_monthStart hpos hle
      (show days - monthStart year month < lastDayOfTheMonth year month by omega)
    rw [Nat.add_sub_cancel' hstart] at hdate
    rw [hdate]
    exact ⟨rfl, rfl⟩

theorem lastDayOfTheMonth_bounds (year month : Nat) :
    28 ≤ lastDayOfTheMonth year month ∧ lastDayOfTheMonth year month ≤ 31 := by
  unfold lastDayOfTheMonth daysOfMonth
  split <;> (try split) <;> decide

/-! ## seconds -/

theorem timeToSeconds_lt (h : time.Valid) : timeToSeconds time < 86400 := by
  have h₁ := h.hour_le
  have h₂ := h.minute_le
  have h₃ := h.second_le
  unfold timeToSeconds
  omega

theorem datetimeToGregorianSeconds_gregorianDaysToDate (days : Nat) (time : Time) :
    datetimeToGregorianSeconds (gregorianDaysToDate days, time) =
      some (days * 86400 + timeToSeconds time) := by
  rw [datetimeToGregorianSeconds, dateToGregorianDays_gregorianDaysToDate]
  rfl

theorem gregorianSecondsToDatetime_eq (hhour : hour ≤ 23) (hminute : minute ≤ 59)
    (hsecond : second ≤ 59) (h : seconds = days * 86400 + hour * 3600 + minute * 60 + second) :
    gregorianSecondsToDatetime seconds = (gregorianDaysToDate days, ⟨hour, minute, second⟩) := by
  have hdays : seconds / 86400 = days := by omega
  have hhour' : seconds % 86400 / 3600 = hour := by omega
  have hminute' : seconds % 86400 % 3600 / 60 = minute := by omega
  have hsecond' : seconds % 86400 % 60 = second := by omega
  rw [gregorianSecondsToDatetime, secondsToTime, hdays, hhour', hminute', hsecond']

end CloudI.Calendar
