import CloudI.ServiceCron.Today

/-!
# ServiceCron.Next

What `next_datetime` returns, and exactly when it is the least later datetime that satisfies every
field of the expression.
-/

namespace CloudI.ServiceCron

open Calendar Fuel Stages
open Expression (together_stages)

/-- The seconds of a datetime, by which datetimes are ordered. -/
def secondsOf (datetime : DateTime) : Nat := datetime.1.number * 86400 + timeToSeconds datetime.2

/-- A datetime of the calendar. -/
structure ValidDateTime (datetime : DateTime) : Prop where
  date : datetime.1.Valid
  time : datetime.2.Valid

/-- **The next event**: the least later datetime that satisfies every field. -/
structure Expression.Next (expr : Expression) (datetime next : DateTime) : Prop where
  valid : ValidDateTime next
  satisfied : expr.Satisfied next
  later : secondsOf datetime < secondsOf next
  least : ∀ other, ValidDateTime other → expr.Satisfied other →
    secondsOf datetime < secondsOf other → secondsOf next ≤ secondsOf other

/-- `next_datetime` returns the next event. -/
def Expression.Right (expr : Expression) (datetime : DateTime) : Prop :=
  ∃ fuel next, nextDatetime fuel datetime expr = some next ∧ expr.Next datetime next

/-- An event is left on the day of the call. -/
def Expression.Today (expr : Expression) (datetime : DateTime) : Prop :=
  expr.OnDate datetime.1 ∧ ∃ time : Time, time.Valid ∧ expr.AtTime time ∧
    timeToSeconds datetime.2 < timeToSeconds time

open Classical in
/-- The day from which on the fields of the date are searched. -/
noncomputable def Expression.start (expr : Expression) (datetime : DateTime) : Nat :=
  if expr.TimeLeft datetime.2 then datetime.1.number else datetime.1.number + 1

/-- **When the next event is found.** -/
structure Expression.FindsNext (expr : Expression) (datetime : DateTime) : Prop where
  /-- A weekday nearest a day is not looked for in a month without the day. -/
  known : (expr.WildTime → expr.Known datetime.1.number) ∧
    expr.KnownFrom (expr.start datetime)
  /-- The day of the month, the month, the day of the week and the year are not right one after
  another on days before they are right on one day. -/
  unbroken : ∀ n, Chain expr.stages (expr.start datetime) n →
    ∃ m, expr.start datetime ≤ m ∧ m ≤ n ∧ expr.OnDate (gregorianDaysToDate m)
  /-- On the day of the call the fields of the time go in step. -/
  inStep : expr.Today datetime → expr.InStep datetime.2
  /-- Some field is given. -/
  given : expr.WildTime → expr.WildDate → expr.Today datetime

section Next

variable {expr : Expression} {n m : Nat} {time time' : Time} {r : DateTime}

theorem secondsOf_gregorianDaysToDate (n : Nat) (time : Time) :
    secondsOf (gregorianDaysToDate n, time) = n * 86400 + timeToSeconds time := by
  rw [secondsOf, number_gregorianDaysToDate]

/-! ## what the next event is -/

theorem ValidDateTime.day (h : ValidDateTime r) : ∃ n time, r = (gregorianDaysToDate n, time) ∧
    time.Valid :=
  ⟨r.1.number, r.2, by rw [gregorianDaysToDate_number h.date], h.time⟩

theorem next_today (htime : time.Valid)
    (h : expr.Today (gregorianDaysToDate n, time)) (htime' : time'.Valid) :
    expr.Next (gregorianDaysToDate n, time) (gregorianDaysToDate m, time') ↔
      m = n ∧ NextTime expr time time' := by
  obtain ⟨hdate, left, hleft, hat, hlater⟩ := h
  have hlater : timeToSeconds time < timeToSeconds left := hlater
  have hlt := timeToSeconds_lt hleft
  have hlt' := timeToSeconds_lt htime'
  constructor
  · rintro ⟨-, hsatisfied, hlater', hleast⟩
    have hle := hleast (gregorianDaysToDate n, left) ⟨valid_gregorianDaysToDate n, hleft⟩
      ⟨hdate, hat⟩
    simp only [secondsOf_gregorianDaysToDate] at hlater' hle hleast
    obtain rfl : m = n := by
      have := timeToSeconds_lt htime
      omega
    refine ⟨rfl, htime', hsatisfied.atTime, by omega, fun other hother hat' hlater'' => ?_⟩
    have hle' := hleast (gregorianDaysToDate m, other) ⟨valid_gregorianDaysToDate m, hother⟩
      ⟨hdate, hat'⟩
    simp only [secondsOf_gregorianDaysToDate] at hle'
    omega
  · rintro ⟨rfl, hnext⟩
    refine ⟨⟨valid_gregorianDaysToDate m, htime'⟩, ⟨hdate, hnext.atTime⟩, ?_, ?_⟩
    · have := hnext.later
      simp only [secondsOf_gregorianDaysToDate]
      omega
    · intro other hother hsatisfied hlater'
      obtain ⟨k, t, rfl, ht⟩ := hother.day
      have hlt'' := timeToSeconds_lt ht
      have := timeToSeconds_lt htime
      simp only [secondsOf_gregorianDaysToDate] at hlater' ⊢
      rcases Nat.lt_trichotomy k m with hkm | rfl | hkm
      · omega
      · have := hnext.least t ht hsatisfied.atTime (by omega)
        omega
      · omega

theorem next_later (htime : time.Valid) (h : ¬ expr.Today (gregorianDaysToDate n, time))
    (htime' : time'.Valid) (hat : expr.AtTime time')
    (hfirst : ∀ other, expr.AtTime other → timeToSeconds time' ≤ timeToSeconds other) :
    expr.Next (gregorianDaysToDate n, time) (gregorianDaysToDate m, time') ↔
      First (Together expr.stages) (n + 1) m := by
  have hlt := timeToSeconds_lt htime
  have hlt' := timeToSeconds_lt htime'
  constructor
  · rintro ⟨-, hsatisfied, hlater, hleast⟩
    simp only [secondsOf_gregorianDaysToDate] at hlater hleast
    have hne : m ≠ n := by
      rintro rfl
      exact h ⟨hsatisfied.onDate, time', htime', hat,
        show timeToSeconds time < timeToSeconds time' by omega⟩
    refine ⟨by omega, together_stages.mpr hsatisfied.onDate, fun k hk htogether => ?_⟩
    have hle := hleast (gregorianDaysToDate k, time') ⟨valid_gregorianDaysToDate k, htime'⟩
      ⟨together_stages.mp htogether, hat⟩
    simp only [secondsOf_gregorianDaysToDate] at hle
    omega
  · rintro ⟨hle, htogether, hleast⟩
    have hdate := together_stages.mp htogether
    refine ⟨⟨valid_gregorianDaysToDate m, htime'⟩, ⟨hdate, hat⟩, ?_, ?_⟩
    · simp only [secondsOf_gregorianDaysToDate]
      omega
    · intro other hother hsatisfied hlater
      obtain ⟨k, t, rfl, ht⟩ := hother.day
      have hlt'' := timeToSeconds_lt ht
      simp only [secondsOf_gregorianDaysToDate] at hlater ⊢
      have hne : k ≠ n := by
        rintro rfl
        exact h ⟨hsatisfied.onDate, t, ht, hsatisfied.atTime,
          show timeToSeconds time < timeToSeconds t by omega⟩
      have hkm := hleast k (by omega) (together_stages.mpr hsatisfied.onDate)
      have hle' := hfirst t hsatisfied.atTime
      omega

/-! ## what is returned -/

theorem nextDatetime_eq (fuel : Nat) (datetime : DateTime) (expr : Expression) :
    nextDatetime fuel datetime expr =
      timeStages expr false datetime >>= fun x => dateStages fuel expr x.1 x.2 >>=
        fun y => if y.1 = datetime.1 then some y else firstTime expr y.1 := by
  unfold nextDatetime timeStages dateStages
  simp only [bind_assoc]

variable {datetime : DateTime} {x : Bool × DateTime} {start : Nat}

theorem returns_nextDatetime (h : timeStages expr false datetime = some x) :
    Returns (fun fuel => nextDatetime fuel datetime expr) r ↔
      ∃ y, Returns (fun fuel => dateStages fuel expr x.1 x.2) y ∧
        (if y.1 = datetime.1 then some y else firstTime expr y.1) = some r := by
  have hreturns : Returns (fun fuel => nextDatetime fuel datetime expr) r ↔
      Returns (fun fuel => dateStages fuel expr x.1 x.2 >>= fun y =>
        if y.1 = datetime.1 then some y else firstTime expr y.1) r := by
    refine exists_congr fun fuel => ?_
    show nextDatetime fuel datetime expr = some r ↔ _
    rw [nextDatetime_eq, h]
    rfl
  rw [hreturns, returns_bind (steady_dateStages _ _ _) fun _ => steady_const _]
  exact exists_congr fun y => and_congr_right fun _ => returns_const

theorem start_eq (hsearch : TimeSearch expr n time m time') (htime : time.Valid)
    (hwild : ¬ expr.WildTime) : expr.start (gregorianDaysToDate n, time) = m := by
  unfold Expression.start
  rw [number_gregorianDaysToDate]
  have hiff := hsearch.day_iff htime hwild
  rcases hsearch.day htime with rfl | rfl
  · rw [if_pos (hiff.mp rfl)]
  · rw [if_neg fun hleft => absurd (hiff.mpr hleft) (Nat.succ_ne_self n)]

theorem start_wild (hwild : expr.WildTime) : expr.start (gregorianDaysToDate n, time) = n + 1 := by
  unfold Expression.start
  rw [number_gregorianDaysToDate, if_neg]
  rintro ⟨left, -, -, ⟨-, hnot⟩ | ⟨-, -, hgiven⟩ | ⟨-, -, -, hgiven⟩⟩
  · exact hnot hwild
  · exact hgiven.elim (fun h => h hwild.seconds) fun h => h hwild.minutes
  · exact hgiven hwild.seconds

theorem Expression.TimeLeft.exists_later (h : expr.TimeLeft time) (htime : time.Valid) :
    ∃ left : Time, left.Valid ∧ expr.AtTime left ∧
      timeToSeconds time < timeToSeconds left := by
  obtain ⟨left, hleft, hat, hcase⟩ := h
  refine ⟨left, hleft, hat, ?_⟩
  have hminute := htime.minute_le
  have hsecond := htime.second_le
  simp only [timeToSeconds]
  omega

/-- The search for the date finds the first later day that is right if and only if no chain of
days breaks off before one. -/
theorem search_first_iff (hstart : start = n ∨ start = n + 1)
    (hnot : start = n → ¬ expr.OnDate (gregorianDaysToDate n))
    (hexists : ∃ e, n + 1 ≤ e ∧ expr.OnDate (gregorianDaysToDate e)) :
    (∃ m, Search expr.stages start m ∧ First (Together expr.stages) (n + 1) m) ↔
      ∀ k, Chain expr.stages start k →
        ∃ m, start ≤ m ∧ m ≤ k ∧ expr.OnDate (gregorianDaysToDate m) := by
  have hfirst : ∀ m, First (Together expr.stages) (n + 1) m ↔
      First (Together expr.stages) start m := by
    intro m
    rcases hstart with rfl | rfl
    · have hne : ∀ k, Together expr.stages k → k ≠ start := by
        rintro k hk rfl
        exact hnot rfl (together_stages.mp hk)
      constructor
      · rintro ⟨hle, hm, hleast⟩
        exact ⟨by omega, hm, fun k hk hk' => hleast k (by have := hne k hk'; omega) hk'⟩
      · rintro ⟨hle, hm, hleast⟩
        have := hne m hm
        exact ⟨by omega, hm, fun k hk hk' => hleast k (by omega) hk'⟩
    · exact Iff.rfl
  obtain ⟨e, he, hon⟩ := hexists
  obtain ⟨b, hb⟩ := exists_search (show start ≤ e by omega) (together_stages.mpr hon)
  have hunbroken := hb.first_iff
  simp only [together_stages] at hunbroken
  rw [← hunbroken]
  constructor
  · rintro ⟨m, hm, hfirst'⟩
    rw [hb.eq hm]
    exact (hfirst m).mp hfirst'
  · exact fun h => ⟨b, hb, (hfirst b).mpr h⟩

/-! ## when the next event is found -/

theorem not_inStep_wild (hwf : expr.WellFormed) (hwild : expr.WildTime)
    (htime : time.Valid) (h : ∃ left : Time, left.Valid ∧ expr.AtTime left ∧
      timeToSeconds time < timeToSeconds left) : ¬ expr.InStep time := by
  intro hstep
  obtain ⟨equal, n', time', hstages, -, hsearch⟩ := timeStages_spec (n := 0) hwf htime
  rw [timeStages_wild hwild] at hstages
  obtain rfl : time = time' := congrArg (fun x => x.2.2) (Option.some.inj hstages)
  have hnext := ((hsearch.next_iff htime h).mpr hstep).2
  exact absurd hnext.later (Nat.lt_irrefl _)

/-- With a field of the time, on a day on which an event is left. -/
theorem right_today (hwf : expr.WellFormed) (hwild : ¬ expr.WildTime)
    (htime : time.Valid) (h : expr.Today (gregorianDaysToDate n, time)) :
    expr.Right (gregorianDaysToDate n, time) ↔
      expr.KnownFrom (expr.start (gregorianDaysToDate n, time)) ∧
        expr.InStep time := by
  obtain ⟨equal, n', time', hstages, hequal, hsearch⟩ := timeStages_spec (n := n) hwf htime
  obtain rfl := hequal.mpr hwild
  have hnext := hsearch.next_iff htime h.2
  rw [start_eq hsearch htime hwild]
  constructor
  · rintro ⟨fuel, next, hreturns, hright⟩
    obtain ⟨y, hy, hnexteq⟩ := (returns_nextDatetime hstages).mp ⟨fuel, hreturns⟩
    obtain ⟨m, hm, hknown, rfl⟩ := (dateStages_true hwf).mp hy
    by_cases hday : gregorianDaysToDate m = gregorianDaysToDate n
    · rw [if_pos hday] at hnexteq
      cases hnexteq
      obtain ⟨rfl, hnexttime⟩ := (next_today htime h hsearch.valid).mp hright
      have hle := hm.le
      obtain rfl : n' = m := by
        rcases hsearch.day htime with heq | heq <;> omega
      exact ⟨hknown, hnext.mp ⟨rfl, hnexttime⟩⟩
    · rw [if_neg hday] at hnexteq
      obtain ⟨first, hfirst, hvalid, -, -⟩ := firstTime_spec (n := m) hwf
      cases hfirst.symm.trans hnexteq
      exact absurd (congrArg gregorianDaysToDate ((next_today htime h hvalid).mp hright).1) hday
  · rintro ⟨hknown, hstep⟩
    obtain ⟨rfl, hnexttime⟩ := hnext.mpr hstep
    have hsearch' := Search.self (together_stages.mpr h.1)
    obtain ⟨fuel, hfuel⟩ := (returns_nextDatetime hstages).mpr
      ⟨_, (dateStages_true hwf).mpr ⟨n', hsearch', hknown, rfl⟩, if_pos rfl⟩
    exact ⟨fuel, _, hfuel, (next_today htime h hsearch.valid).mpr ⟨rfl, hnexttime⟩⟩

theorem right_later (hwf : expr.WellFormed) (htime : time.Valid) (K : Prop)
    (hstages : timeStages expr false (gregorianDaysToDate n, time) =
      some x) (hdate : ∀ y, Returns (fun fuel => dateStages fuel expr x.1 x.2) y ↔
      K ∧ ∃ m, Search expr.stages start m ∧
        y = (gregorianDaysToDate m, x.2.2)) (hstart : start = n ∨ start = n + 1)
    (h : ¬ expr.Today (gregorianDaysToDate n, time))
    (hnot : start = n → ¬ expr.OnDate (gregorianDaysToDate n)) :
    expr.Right (gregorianDaysToDate n, time) ↔ K ∧ ∃ m, Search expr.stages start m ∧
        First (Together expr.stages) (n + 1) m := by
  have hne : ∀ m, Search expr.stages start m →
      gregorianDaysToDate m ≠ gregorianDaysToDate n := by
    intro m hm hday
    obtain rfl := gregorianDaysToDate_injective hday
    have hle := hm.le
    obtain rfl : start = m := by omega
    exact hnot rfl (together_stages.mp (hm.together_self (Nat.le_refl start)))
  constructor
  · rintro ⟨fuel, next, hreturns, hright⟩
    obtain ⟨y, hy, hnexteq⟩ := (returns_nextDatetime hstages).mp ⟨fuel, hreturns⟩
    obtain ⟨hknown, m, hm, rfl⟩ := (hdate y).mp hy
    rw [if_neg (hne m hm)] at hnexteq
    obtain ⟨first, hfirst, hvalid, hat, hleast⟩ := firstTime_spec (n := m) hwf
    cases hfirst.symm.trans hnexteq
    exact ⟨hknown, m, hm, (next_later htime h hvalid hat hleast).mp hright⟩
  · rintro ⟨hknown, m, hm, hfirstday⟩
    obtain ⟨first, hfirst, hvalid, hat, hleast⟩ := firstTime_spec (n := m) hwf
    obtain ⟨fuel, hfuel⟩ := (returns_nextDatetime hstages).mpr
      ⟨_, (hdate _).mpr ⟨hknown, m, hm, rfl⟩, (if_neg (hne m hm)).trans hfirst⟩
    exact ⟨fuel, _, hfuel, (next_later htime h hvalid hat hleast).mpr hfirstday⟩

/-- Without a field of the time, a later time of the day is passed over. -/
theorem not_right_wild (hwf : expr.WellFormed) (hwild : expr.WildTime)
    (htime : time.Valid) (h : expr.Today (gregorianDaysToDate n, time)) :
    ¬ expr.Right (gregorianDaysToDate n, time) := by
  rintro ⟨fuel, next, hreturns, hright⟩
  obtain ⟨y, hy, hnexteq⟩ :=
    (returns_nextDatetime (timeStages_wild hwild _)).mp ⟨fuel, hreturns⟩
  by_cases hdate : expr.WildDate
  · obtain rfl := (dateStages_wild hdate).mp hy
    rw [if_pos rfl] at hnexteq
    cases hnexteq
    exact absurd hright.later (Nat.lt_irrefl _)
  · obtain ⟨m, hm, -, rfl⟩ := (dateStages_true hwf).mp ((dateStages_false hwf hdate).mp hy).2
    have hle := hm.le
    have hday : gregorianDaysToDate m ≠ gregorianDaysToDate n := by
      intro hday
      have := gregorianDaysToDate_injective hday
      omega
    rw [if_neg hday] at hnexteq
    obtain ⟨first, hfirst, hvalid, -, -⟩ := firstTime_spec (n := m) hwf
    cases hfirst.symm.trans hnexteq
    have heq := ((next_today htime h hvalid).mp hright).1
    omega

theorem not_right_every (hwild : expr.WildTime) (hdate : expr.WildDate) :
    ¬ expr.Right datetime := by
  rintro ⟨fuel, next, hreturns, hright⟩
  obtain ⟨y, hy, hnexteq⟩ :=
    (returns_nextDatetime (timeStages_wild hwild _)).mp ⟨fuel, hreturns⟩
  obtain rfl := (dateStages_wild hdate).mp hy
  rw [if_pos rfl] at hnexteq
  cases hnexteq
  exact absurd hright.later (Nat.lt_irrefl _)

theorem findsNext_iff : expr.FindsNext (gregorianDaysToDate n, time) ↔
      ((expr.WildTime → expr.Known n) ∧
        expr.KnownFrom (expr.start (gregorianDaysToDate n, time))) ∧
      (∀ k, Chain expr.stages (expr.start (gregorianDaysToDate n, time)) k →
        ∃ m, expr.start (gregorianDaysToDate n, time) ≤ m ∧ m ≤ k ∧
          expr.OnDate (gregorianDaysToDate m)) ∧
      (expr.Today (gregorianDaysToDate n, time) → expr.InStep time) ∧
      (expr.WildTime → expr.WildDate →
        expr.Today (gregorianDaysToDate n, time)) := by
  constructor
  · rintro ⟨⟨hknown, hfrom⟩, hunbroken, hstep, hgiven⟩
    exact ⟨⟨fun hwild => number_gregorianDaysToDate n ▸ hknown hwild, hfrom⟩, hunbroken, hstep,
      hgiven⟩
  · rintro ⟨⟨hknown, hfrom⟩, hunbroken, hstep, hgiven⟩
    exact ⟨⟨fun hwild => (number_gregorianDaysToDate n).symm ▸ hknown hwild, hfrom⟩, hunbroken,
      hstep, hgiven⟩

/-- **Exactly when `next_datetime` returns the next event**, for every expression that is
accepted and every datetime with a later event. -/
theorem right_iff_findsNext {input : Text} (hnew : new input = some expr)
    {datetime : DateTime} (hvalid : ValidDateTime datetime)
    (hexists : ∃ other, ValidDateTime other ∧ expr.Satisfied other ∧
      secondsOf datetime < secondsOf other) : expr.Right datetime ↔ expr.FindsNext datetime := by
  have hwf := new_wellFormed hnew
  obtain ⟨n, time, rfl, htime⟩ := hvalid.day
  rw [findsNext_iff]
  by_cases htoday : expr.Today (gregorianDaysToDate n, time)
  · by_cases hwild : expr.WildTime
    · refine iff_of_false (not_right_wild hwf hwild htime htoday) fun h => ?_
      exact not_inStep_wild hwf hwild htime htoday.2 (h.2.2.1 htoday)
    · rw [right_today hwf hwild htime htoday]
      constructor
      · rintro ⟨hfrom, hstep⟩
        obtain ⟨equal, n', time', -, -, hsearch⟩ := timeStages_spec (n := n) hwf htime
        obtain ⟨rfl, -⟩ := (hsearch.next_iff htime htoday.2).mpr hstep
        have hstart := start_eq hsearch htime hwild
        exact ⟨⟨fun h => absurd h hwild, hfrom⟩, fun k hk => ⟨n', Nat.le_of_eq hstart,
          hstart ▸ hk.le, htoday.1⟩, fun _ => hstep, fun h => absurd h hwild⟩
      · exact fun h => ⟨h.1.2, h.2.2.1 htoday⟩
  · -- the first later day that is right
    have hlater : ∃ e, n + 1 ≤ e ∧ expr.OnDate (gregorianDaysToDate e) := by
      obtain ⟨other, hother, hsatisfied, hlt⟩ := hexists
      obtain ⟨k, t, rfl, ht⟩ := hother.day
      have hlt' := timeToSeconds_lt ht
      simp only [secondsOf_gregorianDaysToDate] at hlt
      have hne : k ≠ n := by
        rintro rfl
        exact htoday ⟨hsatisfied.onDate, t, ht, hsatisfied.atTime,
          show timeToSeconds time < timeToSeconds t by omega⟩
      exact ⟨k, by omega, hsatisfied.onDate⟩
    by_cases hwild : expr.WildTime
    · by_cases hdate : expr.WildDate
      · exact iff_of_false (not_right_every hwild hdate) fun h => htoday (h.2.2.2 hwild hdate)
      · have hreturns : ∀ y, Returns
            (fun fuel => dateStages fuel expr false (gregorianDaysToDate n, time)) y ↔
            (expr.Known n ∧ expr.KnownFrom (n + 1)) ∧
              ∃ m, Search expr.stages (n + 1) m ∧ y = (gregorianDaysToDate m, time) := by
          intro y
          rw [dateStages_false hwf hdate, dateStages_true hwf]
          exact ⟨fun ⟨hknown, m, hm, hfrom, hy⟩ => ⟨⟨hknown, hfrom⟩, m, hm, hy⟩,
            fun ⟨⟨hknown, hfrom⟩, m, hm, hy⟩ => ⟨hknown, m, hm, hfrom, hy⟩⟩
        have hne : n + 1 = n → ¬ expr.OnDate (gregorianDaysToDate n) :=
          fun h => absurd h (Nat.succ_ne_self n)
        rw [right_later hwf htime _ (timeStages_wild hwild _) hreturns (.inr rfl) htoday hne,
          search_first_iff (.inr rfl) hne hlater, start_wild hwild]
        constructor
        · rintro ⟨⟨hknown, hfrom⟩, hunbroken⟩
          exact ⟨⟨fun _ => hknown, hfrom⟩, hunbroken, fun h => absurd h htoday,
            fun _ h => absurd h hdate⟩
        · rintro ⟨⟨hknown, hfrom⟩, hunbroken, -, -⟩
          exact ⟨⟨hknown hwild, hfrom⟩, hunbroken⟩
    · obtain ⟨equal, n', time', hstages, hequal, hsearch⟩ := timeStages_spec (n := n) hwf htime
      obtain rfl := hequal.mpr hwild
      have hnot : n' = n → ¬ expr.OnDate (gregorianDaysToDate n) := by
        intro heq hdate
        have hleft := (hsearch.day_iff htime hwild).mp heq
        exact htoday ⟨hdate, hleft.exists_later htime⟩
      have hreturns : ∀ y, Returns
          (fun fuel => dateStages fuel expr true (gregorianDaysToDate n', time')) y ↔
          expr.KnownFrom n' ∧
            ∃ m, Search expr.stages n' m ∧ y = (gregorianDaysToDate m, time') := by
        intro y
        rw [dateStages_true hwf]
        exact ⟨fun ⟨m, hm, hfrom, hy⟩ => ⟨hfrom, m, hm, hy⟩,
          fun ⟨hfrom, m, hm, hy⟩ => ⟨m, hm, hfrom, hy⟩⟩
      rw [right_later hwf htime _ hstages hreturns (hsearch.day htime) htoday hnot,
        search_first_iff (hsearch.day htime) hnot hlater, start_eq hsearch htime hwild]
      constructor
      · rintro ⟨hfrom, hunbroken⟩
        exact ⟨⟨fun h => absurd h hwild, hfrom⟩, hunbroken, fun h => absurd h htoday,
          fun h => absurd h hwild⟩
      · rintro ⟨⟨-, hfrom⟩, hunbroken, -, -⟩
        exact ⟨hfrom, hunbroken⟩

end Next

/-! ## two expressions -/

/-- `0 17 * * *`. -/
def everyDay : Expression :=
  { seconds := some [.integer 0], minutes := some [.integer 0], hours := some [.integer 17],
    dayOfMonth := none, month := none, dayOfWeek := none, year := none }

/-- Monday, half past twelve. -/
def monday : DateTime := (⟨2019, 11, 4⟩, ⟨12, 30, 53⟩)

theorem validDateTime_monday : ValidDateTime monday :=
  ⟨⟨by decide, by decide, by decide, by decide⟩, ⟨by decide, by decide, by decide⟩⟩

theorem hasNumber_of_mem {l : List Value} {n : Nat} (h : Value.integer n ∈ l) :
    Field.HasNumber (some l) n := by
  intro l' hl
  cases hl
  exact ⟨_, h, rfl⟩

theorem right_iff_findsNext_everyDay : everyDay.Right monday ↔ everyDay.FindsNext monday :=
  right_iff_findsNext (show new "0 17 * * *".toList = some everyDay by decide)
    validDateTime_monday ⟨(⟨2019, 11, 4⟩, ⟨17, 0, 0⟩),
      ⟨validDateTime_monday.date, ⟨by decide, by decide, by decide⟩⟩,
      ⟨⟨nofun, nofun, nofun, nofun⟩, ⟨hasNumber_of_mem (by decide), hasNumber_of_mem (by decide),
        hasNumber_of_mem (by decide)⟩⟩, by decide⟩

/-- `18,38,58 17 * * mon-fri`. -/
def workdays : Expression :=
  { seconds := some [.integer 0], minutes := some [.integer 18, .integer 38, .integer 58],
    hours := some [.integer 17], dayOfMonth := none, month := none,
    dayOfWeek := some [.integer 1, .integer 2, .integer 3, .integer 4, .integer 5], year := none }

/-- In the hours before 17, the minute 18 is behind while 38 and 58 are ahead. -/
theorem not_inStep_workdays : ¬ workdays.InStep ⟨12, 30, 53⟩ := by
  intro h
  have hhour : ¬ workdays.hours.HasNumber 12 := by
    intro hhas
    obtain ⟨v, hv, rfl⟩ := hhas _ rfl
    exact absurd hv (by decide)
  have hsecond : ∀ s, workdays.seconds.HasNumber s → s = 0 := by
    intro s hs
    obtain ⟨v, hv, rfl⟩ := hs _ rfl
    cases List.mem_singleton.mp hv
    rfl
  have hahead : ∀ v, workdays.MinuteAhead ⟨12, 30, 53⟩ v ↔ 30 < v := by
    refine fun v => ⟨?_, .inl⟩
    rintro (hlt | ⟨⟨-, s, hs, hlt | ⟨hnone, -⟩⟩, -⟩)
    · exact hlt
    · rw [hsecond s hs] at hlt
      exact absurd hlt (by decide)
    · cases hnone
  rcases h.minutes (fun h => hhour h.1) (fun h => hhour h.1) with hall | hnone
  · have h18 := (hahead 18).mp (hall 18 (by decide) (hasNumber_of_mem (by decide)))
    omega
  · exact hnone 38 (by decide) (hasNumber_of_mem (by decide)) ((hahead 38).mpr (by decide))

/-- **A minute is left behind**: on a Monday at half past twelve the next event is at 17:18, and
17:38 is returned. -/
theorem next_event_passed_over : new "18,38,58 17 * * mon-fri".toList = some workdays ∧
    ValidDateTime monday ∧ workdays.Satisfied (⟨2019, 11, 4⟩, ⟨17, 18, 0⟩) ∧
    secondsOf monday < secondsOf (⟨2019, 11, 4⟩, ⟨17, 18, 0⟩) ∧
    nextDatetime 1 monday workdays = some (⟨2019, 11, 4⟩, ⟨17, 38, 0⟩) ∧
    ¬ workdays.Right monday := by
  have hnew : new "18,38,58 17 * * mon-fri".toList = some workdays := by decide
  have hdate : workdays.OnDate ⟨2019, 11, 4⟩ := by
    refine ⟨nofun, nofun, fun l hl => ?_, nofun⟩
    cases hl
    exact ⟨.integer 1, by decide, show weekdayOf ⟨2019, 11, 4⟩ = 1 by decide⟩
  have hat : workdays.AtTime ⟨17, 18, 0⟩ := ⟨hasNumber_of_mem (by decide),
    hasNumber_of_mem (by decide), hasNumber_of_mem (by decide)⟩
  refine ⟨hnew, validDateTime_monday, ⟨hdate, hat⟩, by decide, by decide +kernel, fun hright => ?_⟩
  have hday : gregorianDaysToDate (Date.number ⟨2019, 11, 4⟩) = ⟨2019, 11, 4⟩ :=
    gregorianDaysToDate_number validDateTime_monday.date
  have htoday : workdays.Today (gregorianDaysToDate (Date.number ⟨2019, 11, 4⟩), ⟨12, 30, 53⟩) :=
    ⟨hday.symm ▸ hdate, ⟨17, 18, 0⟩, ⟨by decide, by decide, by decide⟩, hat, by decide⟩
  have hiff := right_today (new_wellFormed hnew) (fun hwild => nomatch hwild.seconds)
    validDateTime_monday.time htoday
  rw [hday] at hiff
  exact not_inStep_workdays (hiff.mp hright).2

end CloudI.ServiceCron
