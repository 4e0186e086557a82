import CloudI.ServiceCron.Terminates

/-!
# ServiceCron.Ends

The search for the date comes to an end in every field but the year, and exactly when a call of
`next_datetime` ends.
-/

namespace CloudI.ServiceCron

open Calendar Fuel Stages List Option

section Days

variable {expr : Expression} {n : Nat} {v : Value}

/-! ## days that come again -/

theorem exists_year (n : Nat) : ∃ year, 0 < daysBeforeYear year ∧ ∀ month day,
    Date.Valid ⟨year, month, day⟩ → ∃ k, n ≤ k ∧ gregorianDaysToDate k = ⟨year, month, day⟩ := by
  have hlt := (yearOf_spec n).2
  refine ⟨yearOf n + 1, by omega, fun month day hvalid => ?_⟩
  refine ⟨_, ?_, gregorianDaysToDate_number hvalid⟩
  have hday : 1 ≤ day := hvalid.day_pos
  show n ≤ daysBeforeYear (yearOf n + 1) + daysBeforeMonth _ month + day - 1
  omega

theorem valid_january (hday : 1 ≤ day) (hlast : day ≤ 31) : Date.Valid ⟨year, 1, day⟩ :=
  ⟨Nat.le_refl 1, show 1 ≤ 12 by decide, hday, hlast⟩

/-- The nearest weekday is a day of the month. -/
theorem exists_nearestWorkday (hyear : 0 < daysBeforeYear year) (hday : 1 ≤ day)
    (hlast : day ≤ 31) : ∃ c, Date.Valid ⟨year, 1, c⟩ ∧ NearestWorkday ⟨year, 1, c⟩ day := by
  have hjanuary : lastDayOfTheMonth year 1 = 31 := rfl
  have hfirst : 0 < monthStart year 1 + (day - 1) := by
    show 0 < daysBeforeYear year + 0 + (day - 1)
    omega
  obtain ⟨c, hc, hnearest⟩ := closestWeekday_spec (Nat.le_refl 1) (by decide) hday hlast hfirst
  rw [closestWeekday_eq (Nat.le_refl 1) (by decide) hday hlast hfirst, hjanuary,
    Option.some.injEq] at hc
  have hbounds : 1 ≤ c ∧ c ≤ 31 := by
    split at hc
    · split at hc <;> omega
    · split at hc
      · split at hc <;> omega
      · omega
  exact ⟨c, valid_january hbounds.1 hbounds.2, (hnearest c hbounds.1 hbounds.2).mpr rfl⟩

/-- **A day of the month comes again**, in January at the latest. -/
theorem Value.exists_onDayOfMonth (n : Nat)
    (h : v.Fits (fun n => 1 ≤ n ∧ n ≤ 31) (fun n => 1 ≤ n ∧ n ≤ 31) [.lastDayOfMonth, .weekday]) :
    ∃ k, n ≤ k ∧ v.OnDayOfMonth (gregorianDaysToDate k) := by
  obtain ⟨year, hyear, hdays⟩ := exists_year n
  have hon : ∀ day, 1 ≤ day → day ≤ 31 → v.OnDayOfMonth ⟨year, 1, day⟩ →
      ∃ k, n ≤ k ∧ v.OnDayOfMonth (gregorianDaysToDate k) := by
    intro day hday hlast hday'
    obtain ⟨k, hk, hdate⟩ := hdays 1 day (valid_january hday hlast)
    exact ⟨k, hk, hdate.symm ▸ hday'⟩
  rcases v with day | _ | day | (_ | day) | ⟨m, day⟩
  · exact hon day h.1 h.2 rfl
  · exact hon 31 (by decide) (by decide) rfl
  · exact absurd h.1 (by decide)
  · obtain ⟨c, hvalid, hc⟩ := exists_nearestWorkday hyear (by decide) (Nat.le_refl 31)
    exact hon c hvalid.day_pos hvalid.day_le ⟨Nat.le_refl 31, hc⟩
  · obtain ⟨c, hvalid, hc⟩ := exists_nearestWorkday hyear h.2.1 h.2.2
    exact hon c hvalid.day_pos hvalid.day_le ⟨h.2.2, hc⟩
  · exact absurd h.1 (by decide)

/-- Every day of the week is the first day of some month of the year. -/
theorem exists_month (year : Nat) (hn : n ≤ 6) : ∃ month, 1 ≤ month ∧ month ≤ 12 ∧
    30 ≤ lastDayOfTheMonth year month ∧ (monthStart year month + 6) % 7 = n := by
  obtain ⟨x, hx⟩ : ∃ x, x = daysBeforeYear year + (isLeapYear year).toNat := ⟨_, rfl⟩
  have hmonth : ∀ month before, 1 ≤ month → month ≤ 12 → 30 ≤ lastDayOfTheMonth year month →
      daysBeforeMonth (isLeapYear year) month = before + (isLeapYear year).toNat →
      (x + before + 6) % 7 = n → ∃ month, 1 ≤ month ∧ month ≤ 12 ∧
        30 ≤ lastDayOfTheMonth year month ∧ (monthStart year month + 6) % 7 = n := by
    intro month before hpos hle hlast hbefore hn
    refine ⟨month, hpos, hle, hlast, ?_⟩
    rw [monthStart, hbefore]
    omega
  -- from March on, the months begin on each day of the week
  have hall : ∀ r < 7, ∀ n < 7, ∃ before ∈ [59, 90, 120, 151, 212, 243, 273],
      (r + before + 6) % 7 = n := by decide
  obtain ⟨before, hmem, h⟩ := hall (x % 7) (Nat.mod_lt x (by decide)) n (Nat.lt_succ_of_le hn)
  rw [Nat.add_assoc, Nat.mod_add_mod, ← Nat.add_assoc] at h
  simp only [mem_cons, not_mem_nil, or_false] at hmem
  obtain rfl | rfl | rfl | rfl | rfl | rfl | rfl := hmem
  · exact hmonth 3 59 (by decide) (by decide) (show 30 ≤ 31 by decide) rfl h
  · exact hmonth 4 90 (by decide) (by decide) (show 30 ≤ 30 by decide) rfl h
  · exact hmonth 5 120 (by decide) (by decide) (show 30 ≤ 31 by decide) rfl h
  · exact hmonth 6 151 (by decide) (by decide) (show 30 ≤ 30 by decide) rfl h
  · exact hmonth 8 212 (by decide) (by decide) (show 30 ≤ 31 by decide) rfl h
  · exact hmonth 9 243 (by decide) (by decide) (show 30 ≤ 30 by decide) rfl h
  · exact hmonth 10 273 (by decide) (by decide) (show 30 ≤ 31 by decide) rfl h

/-- **A day of the week comes again**, as the first, the second or the last one too. -/
theorem Value.exists_onDayOfWeek (n : Nat) (h : v.Fits (· ≤ 6) (· ≤ 6) [.lastDayOfWeek, .every]) :
    ∃ k, n ≤ k ∧ v.OnDayOfWeek (gregorianDaysToDate k) := by
  obtain ⟨year, -, hdays⟩ := exists_year n
  -- a day of the month that is as many weeks after the first one
  have hweek : ∀ w weeks, w ≤ 6 → weeks ≤ 4 → ∃ k month, n ≤ k ∧ lastDayOfTheMonth year month ≤ 31 ∧
      gregorianDaysToDate k = ⟨year, month, 7 * weeks + 1⟩ ∧
        weekdayOf ⟨year, month, 7 * weeks + 1⟩ = w := by
    intro w weeks hw hweeks
    obtain ⟨month, hpos, hle, hlast, hweekday⟩ := exists_month year hw
    obtain ⟨k, hk, hdate⟩ := hdays month (7 * weeks + 1)
      ⟨hpos, hle, Nat.le_add_left 1 _, show 7 * weeks + 1 ≤ lastDayOfTheMonth year month by omega⟩
    refine ⟨k, month, hk, (lastDayOfTheMonth_bounds year month).2, hdate, ?_⟩
    rw [weekdayOf_day year month (Nat.le_add_left 1 _)]
    omega
  rcases v with w | _ | w | (_ | w) | ⟨m, w⟩
  · obtain ⟨k, month, hk, -, hdate, hweekday⟩ := hweek w 0 h (by decide)
    exact ⟨k, hk, hdate.symm ▸ hweekday⟩
  · exact absurd (show Special.lastDayOfMonth ∈ _ from h) (by decide)
  · obtain ⟨k, month, hk, hlast, hdate, hweekday⟩ := hweek w 4 h.2 (Nat.le_refl 4)
    refine ⟨k, hk, ?_⟩
    rw [hdate]
    exact ⟨hweekday, show lastDayOfTheMonth year month < 7 * 4 + 1 + 7 by omega⟩
  · exact absurd (show Special.lastDayOfMonth ∈ _ from h) (by decide)
  · exact absurd h.1 (by decide)
  · obtain ⟨⟨hm, hm'⟩, hw⟩ := h.2
    obtain ⟨k, month, hk, -, hdate, hweekday⟩ := hweek w (m - 1) hw (by omega)
    refine ⟨k, hk, ?_⟩
    rw [hdate]
    exact ⟨hweekday, show (7 * (m - 1) + 1 + 6) / 7 = m by omega⟩

end Days

/-! ## what is listed -/

section Listed

variable {input segment : Text} {expr : Expression} {l : List Value}

theorem first_mem_seq (first last step : Nat) : first ∈ seq first last step :=
  List.mem_map.mpr ⟨0, mem_range.mpr (Nat.succ_pos _), by rw [Nat.zero_mul, Nat.add_zero]⟩

theorem exists_parseValueRange
    (h : parseValueRange rangeMinStr rangeMaxStr stepStr 0 7 (some dayNames) = some l) :
    ∃ v ∈ l, v.Fits (· ≤ 6) (· ≤ 6) allow := by
  unfold parseValueRange at h
  split at h
  · cases h
  simp only [bind_eq_bind, bind_eq_some_iff, ite_none_right_eq_some,
    Option.some.injEq] at h
  obtain ⟨low, hlow, high, -, step, -, -, rfl⟩ := h
  exact ⟨.integer low, List.mem_map_of_mem (first_mem_seq low high step.toNat),
    dayOfWeek_of_parseValueNameInteger hlow⟩

theorem exists_parseValue (h : parseValue segment 0 7 (some dayNames) allow = some l) :
    ∃ v ∈ l, v.Fits (· ≤ 6) (· ≤ 6) allow := by
  obtain ⟨_, -, h⟩ := bind_eq_some_iff.mp h
  simp only at h
  split at h
  · split at h
    · obtain ⟨v, hv, rfl⟩ := map_eq_some_iff.mp h
      exact ⟨v, mem_singleton_self v, fits_parseValueName
        (fun _ _ => dayOfWeek_of_parseValueNameInteger) (fun _ hn => hn) hv⟩
    · exact exists_parseValueRange h
  · split at h
    · simp only [bind_eq_bind, bind_eq_some_iff, ite_none_right_eq_some,
        Option.some.injEq] at h
      obtain ⟨step, -, -, rfl⟩ := h
      exact ⟨.integer 0, List.mem_map_of_mem (first_mem_seq 0 7 step.toNat), Nat.zero_le 6⟩
    · exact exists_parseValueRange h

theorem new_parsed (h : new input = some expr) :
    (∃ text, parseDayOfMonth text = some expr.dayOfMonth) ∧
      ∃ text, parseDayOfWeek text = some expr.dayOfWeek := by
  unfold new at h
  simp only [bind_eq_bind, bind_eq_some_iff] at h
  obtain ⟨fields, -, h⟩ := h
  split at h
  · simp only [bind_eq_some_iff, Option.some.injEq] at h
    obtain ⟨_, -, _, -, _, -, dayOfMonth, hdayOfMonth, _, -, dayOfWeek, hdayOfWeek, _, -, rfl⟩ := h
    exact ⟨⟨_, hdayOfMonth⟩, _, hdayOfWeek⟩
  · cases h

/-! ## the chain of the fields -/

/-- **The days of the month, the months and the days of the week do not come to an end.** -/
theorem exists_chain (h : new input = some expr) (n : Nat) :
    ∃ k, Chain [expr.DayOfMonthOn, expr.MonthOn, expr.DayOfWeekOn] n k := by
  have hwf := new_wellFormed h
  obtain ⟨⟨text, hdayOfMonth⟩, text', hdayOfWeek⟩ := new_parsed h
  have hfirst : ∀ n, ∃ k, n ≤ k ∧ expr.DayOfMonthOn k := by
    intro n
    cases hfield : expr.dayOfMonth with
    | none => exact ⟨n, Nat.le_refl n, fun l hl => nomatch hfield.symm.trans hl⟩
    | some l =>
      have hne := (fits_parseValues (Q := fun _ => True) (by decide) (by decide)
        (fun _ _ _ => trivial) hdayOfMonth hfield).1
      obtain ⟨v, hv⟩ := exists_mem_of_ne_nil l hne
      obtain ⟨k, hk, hon⟩ := Value.exists_onDayOfMonth n (hwf.dayOfMonth l hfield v hv)
      exact ⟨k, hk, fun l' hl' => by cases hfield.symm.trans hl'; exact ⟨v, hv, hon⟩⟩
  have hsecond : ∀ n, ∃ k, n ≤ k ∧ expr.MonthOn k := by
    intro n
    cases hfield : expr.month with
    | none => exact ⟨n, Nat.le_refl n, fun l hl => nomatch hfield.symm.trans hl⟩
    | some l =>
      obtain ⟨ns, rfl, hns⟩ := hwf.month l hfield
      obtain ⟨month, hmonth⟩ := exists_mem_of_ne_nil ns hns.ne_nil
      obtain ⟨hpos, hle⟩ := hns.bounds month hmonth
      obtain ⟨year, -, hdays⟩ := exists_year n
      obtain ⟨k, hk, hdate⟩ := hdays month 1 ⟨hpos, hle, Nat.le_refl 1,
        Nat.le_trans (show 1 ≤ 28 by decide) (lastDayOfTheMonth_bounds year month).1⟩
      refine ⟨k, hk, fun l' hl' => ?_⟩
      cases hfield.symm.trans hl'
      exact ⟨_, List.mem_map_of_mem hmonth, by rw [hdate]⟩
  have hthird : ∀ n, ∃ k, n ≤ k ∧ expr.DayOfWeekOn k := by
    intro n
    cases hfield : expr.dayOfWeek with
    | none => exact ⟨n, Nat.le_refl n, fun l hl => nomatch hfield.symm.trans hl⟩
    | some l =>
      obtain ⟨v, hv, hfits⟩ := exists_of_parseValues (fun segment l => exists_parseValue)
        (hfield ▸ hdayOfWeek)
      obtain ⟨k, hk, hon⟩ := Value.exists_onDayOfWeek n hfits
      exact ⟨k, hk, fun l' hl' => by cases hfield.symm.trans hl'; exact ⟨v, hv, hon⟩⟩
  obtain ⟨a, ha, hdayOfMonth⟩ := hfirst n
  obtain ⟨b, hb, hmonth⟩ := hsecond a
  obtain ⟨c, hc, hdayOfWeek⟩ := hthird b
  exact ⟨c, .cons ha hdayOfMonth (.cons hb hmonth (.cons hc hdayOfWeek (.nil (Nat.le_refl c))))⟩

/-- **A year is left**: the year is a wildcard, or one that is listed is not before the day that
the other three fields lead to one after another. -/
def Expression.YearLeft (expr : Expression) (datetime : DateTime) : Prop :=
  ∀ l, expr.year = some l → ∃ n year, .integer year ∈ l ∧
    Chain [expr.DayOfMonthOn, expr.MonthOn, expr.DayOfWeekOn]
      (expr.start datetime) n ∧ (gregorianDaysToDate n).year ≤ year

/-- The year comes to an end, or does not. -/
theorem chain_iff_yearLeft (h : new input = some expr) (datetime : DateTime) :
    (∃ k, Chain expr.stages (expr.start datetime) k) ↔
      expr.YearLeft datetime := by
  have hstages : expr.stages = [expr.DayOfMonthOn, expr.MonthOn,
    expr.DayOfWeekOn] ++ [expr.YearOn] := rfl
  rw [hstages]
  simp only [chain_append_singleton]
  constructor
  · rintro ⟨k, n, hchain, hyear, -⟩ l hl
    obtain ⟨v, hv, rfl⟩ := hyear l hl
    exact ⟨n, _, hv, hchain, Nat.le_refl _⟩
  · intro hleft
    cases hfield : expr.year with
    | none =>
      obtain ⟨n, hchain⟩ := exists_chain h (expr.start datetime)
      exact ⟨n, n, hchain, fun l hl => (nomatch hfield.symm.trans hl), Nat.le_refl n⟩
    | some l =>
      obtain ⟨n, year, hyear, hchain, hle⟩ := hleft l hfield
      have hon : ∀ m, (gregorianDaysToDate m).year = year → expr.YearOn m := by
        intro m hm l' hl'
        cases hfield.symm.trans hl'
        exact ⟨_, hyear, by rw [hm]⟩
      rcases Nat.eq_or_lt_of_le hle with heq | hlt
      · exact ⟨n, n, hchain, hon n heq, Nat.le_refl n⟩
      · -- the first day of the year is still to come
        have hdate : gregorianDaysToDate (Date.number ⟨year, 1, 1⟩) = ⟨year, 1, 1⟩ :=
          gregorianDaysToDate_number (valid_january (Nat.le_refl 1) (by decide))
        have hn := (yearOf_spec n).2
        have hmono := daysBeforeYear_mono (show yearOf n + 1 ≤ year from hlt)
        have hnumber : Date.number ⟨year, 1, 1⟩ = daysBeforeYear year := rfl
        have hextended := hchain.extend (show n ≤ Date.number ⟨year, 1, 1⟩ by omega)
        exact ⟨_, _, hextended, hon _ (by rw [hdate]), Nat.le_refl _⟩

/-! ## when a call ends -/

/-- A later datetime satisfies every field. -/
def Expression.MatchesLater (expr : Expression) (datetime : DateTime) : Prop :=
  ∃ other, ValidDateTime other ∧ expr.Satisfied other ∧ secondsOf datetime < secondsOf other

/-- **Evaluation ends**: a call returns if a later datetime matches, and is not running for ever
if none does. -/
structure Expression.Ends (expr : Expression) (datetime : DateTime) : Prop where
  returns : expr.MatchesLater datetime →
    ∃ fuel next, nextDatetimeOutcome fuel datetime expr = .returned next
  ends : ∃ fuel, nextDatetimeOutcome fuel datetime expr ≠ .running

theorem ends_iff_chain (hwf : expr.WellFormed) (htime : time.Valid) :
    expr.Ends (gregorianDaysToDate n, time) ↔
      (expr.MatchesLater (gregorianDaysToDate n, time) →
        expr.LooksUp (gregorianDaysToDate n, time)) ∧
      (expr.LooksUp (gregorianDaysToDate n, time) →
        ∃ k, Chain expr.stages (expr.start (gregorianDaysToDate n, time)) k) := by
  have hreturned := nextDatetimeOutcome_returned (n := n) hwf htime
  have hfailed := nextDatetimeOutcome_failed (n := n) hwf htime
  constructor
  · rintro ⟨hreturns, fuel, hends⟩
    refine ⟨fun hlater => (hreturned.mp (hreturns hlater)).1, fun hlooks => ?_⟩
    rcases Outcome.ne_running.mp hends with h | ⟨next, h⟩
    · exact absurd hlooks (hfailed.mp ⟨fuel, h⟩)
    · exact (hreturned.mp ⟨fuel, next, h⟩).2
  · rintro ⟨hlooks, hchain⟩
    refine ⟨fun hlater => hreturned.mpr ⟨hlooks hlater, hchain (hlooks hlater)⟩, ?_⟩
    by_cases h : expr.LooksUp (gregorianDaysToDate n, time)
    · obtain ⟨fuel, next, hfuel⟩ := hreturned.mpr ⟨h, hchain h⟩
      exact ⟨fuel, Outcome.ne_running.mpr (.inr ⟨next, hfuel⟩)⟩
    · obtain ⟨fuel, hfuel⟩ := hfailed.mpr h
      exact ⟨fuel, Outcome.ne_running.mpr (.inl hfuel)⟩

/-- **Exactly when evaluation ends**, for every expression that is accepted and every datetime. -/
theorem ends_iff (h : new input = some expr) {datetime : DateTime}
    (hvalid : ValidDateTime datetime) :
    expr.Ends datetime ↔ (expr.MatchesLater datetime → expr.LooksUp datetime) ∧
        (expr.LooksUp datetime → expr.YearLeft datetime) := by
  obtain ⟨n, time, rfl, htime⟩ := hvalid.day
  rw [ends_iff_chain (new_wellFormed h) htime, chain_iff_yearLeft h]

theorem ends_iff_everyDay : everyDay.Ends monday ↔
    (everyDay.MatchesLater monday → everyDay.LooksUp monday) ∧
      (everyDay.LooksUp monday → everyDay.YearLeft monday) :=
  ends_iff (show new "0 17 * * *".toList = some everyDay by decide) validDateTime_monday

end Listed

/-- `0 0 31W * *`. -/
def nearestLast : Expression :=
  { seconds := some [.integer 0], minutes := some [.integer 0], hours := some [.integer 0],
    dayOfMonth := some [.weekday (some 31)], month := none, dayOfWeek := none, year := none }

/-- `0 0 1 1 * 2020`. -/
def past : Expression :=
  { seconds := some [.integer 0], minutes := some [.integer 0], hours := some [.integer 0],
    dayOfMonth := some [.integer 1], month := some [.integer 1], dayOfWeek := none,
    year := some [.integer 2020] }

/-- The first moment of February. -/
def february : DateTime := (⟨2021, 2, 1⟩, ⟨0, 0, 0⟩)

theorem validDateTime_february : ValidDateTime february :=
  ⟨⟨by decide, by decide, by decide, by decide⟩, ⟨by decide, by decide, by decide⟩⟩

/-- **A call that fails and one that never ends**: February has no day 31, although the end of
March would match; and the year is past. -/
theorem not_ends : ValidDateTime february ∧
    (new "0 0 31W * *".toList = some nearestLast ∧ nearestLast.MatchesLater february ∧
      nextDatetimeOutcome 1 february nearestLast = .failed ∧ ¬ nearestLast.Ends february) ∧
    new "0 0 1 1 * 2020".toList = some past ∧ ¬ past.Ends february := by
  have hnearest : new "0 0 31W * *".toList = some nearestLast := by decide
  have hpast : new "0 0 1 1 * 2020".toList = some past := by decide
  have hday : gregorianDaysToDate (Date.number ⟨2021, 2, 1⟩) = ⟨2021, 2, 1⟩ :=
    gregorianDaysToDate_number validDateTime_february.date
  have hlater : nearestLast.MatchesLater february := by
    refine ⟨(⟨2021, 3, 31⟩, ⟨0, 0, 0⟩), ⟨⟨by decide, by decide, by decide, by decide⟩,
      validDateTime_february.time⟩, ⟨⟨fun l hl => ?_, nofun, nofun, nofun⟩,
      hasNumber_of_mem (by decide), hasNumber_of_mem (by decide), hasNumber_of_mem (by decide)⟩,
      by decide⟩
    cases hl
    refine ⟨.weekday (some 31), mem_singleton_self _, by decide, ?_, fun _ _ _ => ?_⟩
    · exact ⟨by decide, by decide⟩
    · exact Nat.zero_le _
  have hfails : nextDatetimeOutcome 1 february nearestLast = .failed := by decide +kernel
  refine ⟨validDateTime_february, ⟨hnearest, hlater, hfails, fun hends => ?_⟩, hpast,
    fun hends => ?_⟩
  · have hfailed := nextDatetimeOutcome_failed (n := Date.number ⟨2021, 2, 1⟩)
      (new_wellFormed hnearest) validDateTime_february.time
    have hchain := ends_iff_chain (n := Date.number ⟨2021, 2, 1⟩) (new_wellFormed hnearest)
      validDateTime_february.time
    rw [hday] at hfailed hchain
    exact hfailed.mp ⟨1, hfails⟩ ((hchain.mp hends).1 hlater)
  · have hchain := ends_iff_chain (n := Date.number ⟨2021, 2, 1⟩) (new_wellFormed hpast)
      validDateTime_february.time
    rw [hday] at hchain
    have hknown : ∀ k, past.Known k := by
      rintro k l hl day hmem
      cases hl
      exact absurd hmem (by simp)
    obtain ⟨n, year, hyear, hleft, hle⟩ := (chain_iff_yearLeft hpast february).mp
      ((hchain.mp hends).2 ⟨fun _ => hknown _, fun k _ _ => hknown k⟩) _ rfl
    cases mem_singleton.mp hyear
    have hstart : Date.number ⟨2021, 2, 1⟩ ≤ past.start february := by
      unfold Expression.start
      split
      · exact Nat.le_refl _
      · exact Nat.le_succ _
    have hmono : (gregorianDaysToDate (Date.number ⟨2021, 2, 1⟩)).year ≤
        (gregorianDaysToDate n).year := yearOf_mono (Nat.le_trans hstart hleft.le)
    rw [hday] at hmono
    exact absurd (Nat.le_trans hmono hle) (by decide)

end CloudI.ServiceCron
