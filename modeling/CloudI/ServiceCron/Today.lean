import CloudI.ServiceCron.Times

/-!
# ServiceCron.Today

Whether the time of the next event is still on the day of the call, and when it is the least
later time of that day.
-/

namespace CloudI.ServiceCron

open Calendar Stages
open Nat (le_of_not_lt zero_le)

/-! ## one field -/

/-- **What a step takes**: the least value that counts from `i` on, or without one the least value
of all and a carry. -/
structure Taken (field : Field) (stays : Prop) (i v carry : Nat) : Prop where
  has : field.HasNumber v
  least : (carry = 0 ∧ Ahead stays i v ∧ ∀ w, field.HasNumber w → Ahead stays i w → v ≤ w) ∨
    (carry = 1 ∧ (∀ w, field.HasNumber w → v ≤ w) ∧
      ∀ w, field.HasNumber w → ¬ Ahead stays i w)

/-- No value is behind while another one is ahead. -/
def Fresh (field : Field) (ahead : Nat → Prop) : Prop :=
  (∀ v ≤ 59, field.HasNumber v → ahead v) ∨ (∀ v ≤ 59, field.HasNumber v → ¬ ahead v)

theorem hasNumber_wild (n : Nat) : Field.HasNumber none n := fun _ h => nomatch h

theorem Ahead.mono (h : Ahead stays i v) (hle : v ≤ w) : Ahead stays i w := by
  rcases h with h | ⟨hstays, rfl⟩
  · exact .inl (Nat.lt_of_lt_of_le h hle)
  · rcases Nat.eq_or_lt_of_le hle with rfl | hlt
    · exact .inr ⟨hstays, rfl⟩
    · exact .inl hlt

/-- A step of the time as what it takes; a wildcard takes the number that it stays at. -/
theorem Step.taken (h : Step field equal i equal' v c) :
    equal' = (equal || field.isSome) ∧ Taken field (equal = true ∨ field = none) i v c := by
  cases h with
  | wild hfield =>
    subst hfield
    refine ⟨by simp, hasNumber_wild i, .inl ⟨rfl, .inr ⟨.inr rfl, rfl⟩, fun w _ hw => ?_⟩⟩
    rcases hw with hw | ⟨-, rfl⟩
    · exact Nat.le_of_lt hw
    · exact Nat.le_refl w
  | next hfield hv hahead hleast =>
    obtain ⟨l, rfl⟩ := Option.ne_none_iff_exists'.mp hfield
    refine ⟨by simp, hv, .inl ⟨rfl, ?_, fun w hw hw' => hleast w hw ?_⟩⟩
    · simpa [Ahead] using hahead
    · simpa [Ahead] using hw'
  | carry hfield hv hleast hnone =>
    obtain ⟨l, rfl⟩ := Option.ne_none_iff_exists'.mp hfield
    refine ⟨by simp, hv, .inr ⟨rfl, hleast, fun w hw hw' => hnone w hw ?_⟩⟩
    simpa [Ahead] using hw'

theorem Taken.fresh_iff (h : Taken field stays i v c) (hv : v ≤ 59) :
    Fresh field (Ahead stays i) ↔ ∀ w ≤ 59, field.HasNumber w → v ≤ w := by
  obtain ⟨hhas, ⟨-, hahead, hleast⟩ | ⟨-, hleast, hnone⟩⟩ := h
  · constructor
    · rintro (hall | hnone) w hw hfield
      · exact hleast w hfield (hall w hw hfield)
      · exact absurd hahead (hnone v hv hhas)
    · exact fun hle => .inl fun w hw hfield => hahead.mono (hle w hw hfield)
  · exact ⟨fun _ w _ hw => hleast w hw, fun _ => .inr fun w _ => hnone w⟩

theorem Taken.carry_le (h : Taken field stays i v c) : c ≤ 1 := by
  rcases h.least with ⟨rfl, -⟩ | ⟨rfl, -⟩ <;> decide

theorem Taken.not_ahead (h : Taken field stays i v 1) (hw : field.HasNumber w) :
    ¬ Ahead stays i w := by
  rcases h.least with ⟨hc, -⟩ | ⟨-, -, hnone⟩
  · cases hc
  · exact hnone w hw

theorem Taken.ahead (h : Taken field stays i v 0) : Ahead stays i v := by
  rcases h.least with ⟨-, hahead, -⟩ | ⟨hc, -⟩
  · exact hahead
  · cases hc

theorem Taken.le_of_ahead (h : Taken field stays i v c) (hw : field.HasNumber w)
    (hahead : Ahead stays i w) : c = 0 ∧ v ≤ w := by
  rcases h.least with ⟨hc, -, hleast⟩ | ⟨-, -, hnone⟩
  · exact ⟨hc, hleast w hw hahead⟩
  · exact absurd hahead (hnone w hw)

theorem Taken.forward (h : Taken field stays i v c) : i ≤ v ∨ c = 1 := by
  rcases h.least with ⟨-, hlt | ⟨-, rfl⟩, -⟩ | ⟨hc, -⟩
  · exact .inl (Nat.le_of_lt hlt)
  · exact .inl (Nat.le_refl v)
  · exact .inr hc

theorem Taken.strict (h : Taken field stays i v c) (hstays : ¬ stays) : i < v ∨ c = 1 := by
  rcases h.least with ⟨-, hlt | ⟨hs, -⟩, -⟩ | ⟨hc, -⟩
  · exact .inl hlt
  · exact absurd hs hstays
  · exact .inr hc

theorem Taken.listed (h : Taken field stays i v 1) (hstays : field = none → stays) :
    field ≠ none := by
  rintro rfl
  exact h.not_ahead (hasNumber_wild i) (.inr ⟨hstays rfl, rfl⟩)

/-! ## the time -/

/-- **The search for the time**: from a day and a time, the second, the minute and the hour are
taken, each with its carry. -/
inductive TimeSearch (expr : Expression) (n : Nat) (time : Time) : Nat → Time → Prop
  | intro {c₁ n₁ h₁ m₁ c₂ n₂ h₂ c₃ : Nat} {time' : Time}
      (second : Taken expr.seconds (expr.seconds = none) time.second time'.second c₁)
      (hcarry₁ : n₁ * 1440 + h₁ * 60 + m₁ = n * 1440 + time.hour * 60 + time.minute + c₁)
      (hh₁ : h₁ ≤ 23) (hm₁ : m₁ ≤ 59)
      (minute : Taken expr.minutes (expr.seconds ≠ none ∨ expr.minutes = none)
        m₁ time'.minute c₂)
      (hcarry₂ : n₂ * 24 + h₂ = n₁ * 24 + h₁ + c₂) (hh₂ : h₂ ≤ 23)
      (hour : Taken expr.hours (expr.seconds ≠ none ∨ expr.minutes ≠ none ∨
        expr.hours = none) h₂ time'.hour c₃)
      (valid : time'.Valid) : TimeSearch expr n time (n₂ + c₃) time'

/-- No field of the time is given. -/
structure Expression.WildTime (expr : Expression) : Prop where
  seconds : expr.seconds = none
  minutes : expr.minutes = none
  hours : expr.hours = none

/-- **A time is left on the day** that the search stays for: one with a later hour; with the same
hour and a later minute, if seconds or minutes are given; with the same minute and a later second,
if seconds are given. -/
def Expression.TimeLeft (expr : Expression) (time : Time) : Prop :=
  ∃ left : Time, left.Valid ∧ expr.AtTime left ∧
    (time.hour < left.hour ∧ ¬ expr.WildTime ∨
      time.hour = left.hour ∧ time.minute < left.minute ∧
        (expr.seconds ≠ none ∨ expr.minutes ≠ none) ∨
      time.hour = left.hour ∧ time.minute = left.minute ∧ time.second < left.second ∧
        expr.seconds ≠ none)

section Search

variable {expr : Expression} {n n' : Nat} {time time' : Time}

section

variable (h : TimeSearch expr n time n' time')

include h

theorem TimeSearch.atTime : expr.AtTime time' := by
  cases h with
  | intro second _ _ _ minute _ _ hour _ => exact ⟨second.has, minute.has, hour.has⟩

theorem TimeSearch.valid : time'.Valid := by
  cases h with
  | intro _ _ _ _ _ _ _ _ valid => exact valid

/-- The search ends on the day or on the next one. -/
theorem TimeSearch.day (htime : time.Valid) : n' = n ∨ n' = n + 1 := by
  obtain ⟨hhour, hminute, hsecond⟩ := htime
  cases h with
  | @intro c₁ n₁ h₁ m₁ c₂ n₂ h₂ c₃ _ second hcarry₁ hh₁ hm₁ minute hcarry₂ hh₂ hour valid =>
  have hc₁ := second.carry_le
  have hc₂ := minute.carry_le
  have hc₃ := hour.carry_le
  -- after a carry the finer field is given, and every value of the next field is ahead of 0
  have h₁ : n₁ ≠ n → c₂ = 0 ∧ (n₂ ≠ n → c₃ = 0) := by
    intro hne
    obtain rfl : c₁ = 1 := by omega
    have hlisted := second.listed id
    have hminute : c₂ = 0 := (minute.le_of_ahead minute.has (by
      unfold Ahead
      simp only [hlisted, ne_eq, not_false_iff, true_or, true_and]
      omega)).1
    refine ⟨hminute, fun _ => (hour.le_of_ahead hour.has (by
      unfold Ahead
      simp only [hlisted, ne_eq, not_false_iff, true_or, true_and]
      omega)).1⟩
  by_cases hn₁ : n₁ = n
  · by_cases hn₂ : n₂ = n
    · omega
    · obtain rfl : c₂ = 1 := by omega
      have hlisted := minute.listed .inr
      have hc : c₃ = 0 := (hour.le_of_ahead hour.has (by
        unfold Ahead
        simp only [hlisted, ne_eq, not_false_iff, true_or, or_true, true_and]
        omega)).1
      omega
  · have := h₁ hn₁
    omega

/-- **When the search stays on the day.** -/
theorem TimeSearch.day_iff (htime : time.Valid) (hwild : ¬ expr.WildTime)
    : n' = n ↔ expr.TimeLeft time := by
  obtain ⟨hhour, hminute, hsecond⟩ := htime
  cases h with
  | @intro c₁ n₁ h₁ m₁ c₂ n₂ h₂ c₃ _ second hcarry₁ hh₁ hm₁ minute hcarry₂ hh₂ hour valid =>
  have hvalid := valid
  obtain ⟨hhour', hminute', hsecond'⟩ := valid
  have hs := second.forward
  have hm := minute.forward
  have hh := hour.forward
  have hc₁ := second.carry_le
  have hc₂ := minute.carry_le
  have hc₃ := hour.carry_le
  -- a wildcard has no carry
  have hwild₁ : expr.seconds = none → c₁ = 0 := by
    intro hseconds
    have hne : c₁ ≠ 1 := fun hc => (hc ▸ second).listed id hseconds
    omega
  constructor
  · intro hn
    refine ⟨time', hvalid, ⟨second.has, minute.has, hour.has⟩, ?_⟩
    by_cases hlater : time.hour < time'.hour
    · exact .inl ⟨hlater, hwild⟩
    · have hhours : time.hour = time'.hour := by omega
      by_cases hlater : time.minute < time'.minute
      · refine .inr (.inl ⟨hhours, hlater, ?_⟩)
        by_contra hnone
        obtain ⟨hseconds, hminutes⟩ := not_or.mp hnone
        have hstay := (minute.le_of_ahead (w := m₁) (not_not.mp hminutes ▸ hasNumber_wild m₁)
          (.inr ⟨.inr (not_not.mp hminutes), rfl⟩)).2
        have hc := hwild₁ (not_not.mp hseconds)
        omega
      · have hseconds : expr.seconds ≠ none := by
          intro hseconds
          have hc := hwild₁ hseconds
          by_cases hminutes : expr.minutes = none
          · have hstrict := hour.strict (by
              simp only [hseconds, hminutes, ne_eq, not_true, false_or]
              exact fun hhours => hwild ⟨hseconds, hminutes, hhours⟩)
            omega
          · have hstrict := minute.strict (by simp only [hseconds, hminutes]; simp)
            omega
        have hstrict := second.strict hseconds
        exact .inr (.inr ⟨hhours, by omega, by omega, hseconds⟩)
  · rintro ⟨left, hleft, hat, hcase⟩
    obtain ⟨hlefthour, hleftminute, hleftsecond⟩ := hleft
    -- the minute that is reached before the minute is taken
    have hreached₁ : n₁ * 1440 + h₁ * 60 + m₁ ≤ n * 1440 + left.hour * 60 + left.minute ∧
        (expr.seconds = none →
          n₁ * 1440 + h₁ * 60 + m₁ < n * 1440 + left.hour * 60 + left.minute) := by
      have hcarry : c₁ = 1 → left.second ≤ time.second := by
        rintro rfl
        exact le_of_not_lt fun hlt => second.not_ahead hat.seconds (.inl hlt)
      rcases hcase with ⟨hlt, -⟩ | ⟨heq, hlt, -⟩ | ⟨heq, heq', hlt, hseconds⟩
      · refine ⟨by omega, fun hnone => ?_⟩
        have hc := hwild₁ hnone
        omega
      · refine ⟨by omega, fun hnone => ?_⟩
        have hc := hwild₁ hnone
        omega
      · exact ⟨by omega, fun hnone => absurd hnone hseconds⟩
    have hreached₂ : n₂ * 24 + h₂ ≤ n * 24 + left.hour ∧
        (expr.seconds = none → expr.minutes = none →
          n₂ * 24 + h₂ < n * 24 + left.hour) := by
      have hcarry : c₂ = 1 → left.minute ≤ m₁ ∧
          (left.minute = m₁ → expr.seconds = none) ∧ expr.minutes ≠ none := by
        rintro rfl
        have hnot := minute.not_ahead hat.minutes
        exact ⟨le_of_not_lt fun hlt => hnot (.inl hlt), fun heq => not_not.mp fun hseconds =>
          hnot (.inr ⟨.inl hseconds, heq⟩), minute.listed .inr⟩
      refine ⟨?_, fun hseconds hminutes => ?_⟩
      · by_cases hseconds : expr.seconds = none
        · have hlt := hreached₁.2 hseconds
          omega
        · have hne : c₂ = 1 → left.minute ≠ m₁ := fun hc heq => hseconds ((hcarry hc).2.1 heq)
          omega
      · have hne : c₂ ≠ 1 := fun hc => (hcarry hc).2.2 hminutes
        have hc := hwild₁ hseconds
        have hlt := hreached₁.2 hseconds
        rcases hcase with ⟨hlt, -⟩ | ⟨heq, hlt, hlisted⟩ | ⟨heq, heq', hlt, hlisted⟩
        · omega
        · exact absurd hlisted (by simp [hseconds, hminutes])
        · exact absurd hseconds hlisted
    have hcarry : c₃ = 1 → left.hour ≤ h₂ ∧
        (left.hour = h₂ → expr.seconds = none ∧ expr.minutes = none) := by
      rintro rfl
      have hnot := hour.not_ahead hat.hours
      refine ⟨le_of_not_lt fun hlt => hnot (.inl hlt), fun heq => ⟨?_, ?_⟩⟩
      · exact not_not.mp fun hseconds => hnot (.inr ⟨.inl hseconds, heq⟩)
      · exact not_not.mp fun hminutes => hnot (.inr ⟨.inr (.inl hminutes), heq⟩)
    by_cases heq : c₃ = 1 ∧ left.hour = h₂
    · obtain ⟨hseconds, hminutes⟩ := (hcarry heq.1).2 heq.2
      have hlt := hreached₂.2 hseconds hminutes
      omega
    · omega

end

end Search

/-! ## the stages of the code -/

/-- The stages of `next_datetime` for the time. -/
def timeStages (expr : Expression) (equal : Bool) (datetime : DateTime) :
    Option (Bool × DateTime) :=
  nextDatetimeSeconds expr equal datetime >>= fun x =>
    nextDatetimeMinutes expr x.1 x.2 >>= fun y => nextDatetimeHours expr y.1 y.2

section Stages

variable {expr : Expression} {equal : Bool} {n : Nat} {time : Time}

theorem Step.le {field : Field} {i v c max : Nat} {equal' : Bool}
    (h : Step field equal i equal' v c) (hfield : field.Numeric 0 max) (hi : i ≤ max) :
    v ≤ max := by
  have hbound : field ≠ none → field.HasNumber v → v ≤ max := by
    intro hne hv
    obtain ⟨l, rfl⟩ := Option.ne_none_iff_exists'.mp hne
    obtain ⟨ns, rfl, hns⟩ := hfield l rfl
    exact (hns.bounds v (hasNumber_numbers.mp hv)).2
  cases h with
  | wild => exact hi
  | next hne hv => exact hbound hne hv
  | carry hne hv => exact hbound hne hv

/-- **The stages of the time** are the search, and they ask for a later date if no field of the
time is given. -/
theorem timeStages_spec (hwf : expr.WellFormed) (htime : time.Valid) :
    ∃ equal' n' time', timeStages expr false (gregorianDaysToDate n, time) =
      some (equal', (gregorianDaysToDate n', time')) ∧ (equal' = true ↔ ¬ expr.WildTime) ∧
        TimeSearch expr n time n' time' := by
  obtain ⟨hour, minute, second⟩ := time
  obtain ⟨hhour, hminute, hsecond⟩ := htime
  obtain ⟨equal₁, second', c₁, n₁, h₁, m₁, heq₁, hstep₁, hh₁, hm₁, hcarry₁⟩ :=
    nextDatetimeSeconds_spec false n hwf hhour hminute hsecond
  have hsecond' := hstep₁.le hwf.seconds hsecond
  obtain ⟨equal₂, minute', c₂, n₂, h₂, heq₂, hstep₂, hh₂, hcarry₂⟩ :=
    nextDatetimeMinutes_spec equal₁ n₁ hwf hh₁ hm₁ hsecond'
  have hminute' := hstep₂.le hwf.minutes hm₁
  obtain ⟨equal₃, hour', c₃, heq₃, hstep₃⟩ :=
    nextDatetimeHours_spec equal₂ n₂ h₂ minute' second' hwf
  have hhour' := hstep₃.le hwf.hours hh₂
  obtain ⟨hequal₁, htaken₁⟩ := hstep₁.taken
  obtain ⟨hequal₂, htaken₂⟩ := hstep₂.taken
  obtain ⟨hequal₃, htaken₃⟩ := hstep₃.taken
  have hlisted₁ : equal₁ = true ↔ expr.seconds ≠ none := by
    rw [hequal₁, Bool.false_or, Option.isSome_iff_ne_none]
  have hlisted₂ : equal₂ = true ↔ expr.seconds ≠ none ∨ expr.minutes ≠ none := by
    rw [hequal₂, Bool.or_eq_true, hlisted₁, Option.isSome_iff_ne_none]
  have hstays₂ : (equal₂ = true ∨ expr.hours = none) ↔ expr.seconds ≠ none ∨
      expr.minutes ≠ none ∨ expr.hours = none := by
    rw [hlisted₂, or_assoc]
  refine ⟨equal₃, n₂ + c₃, ⟨hour', minute', second'⟩, ?_, ?_, ?_⟩
  · rw [timeStages, heq₁]
    show (nextDatetimeMinutes _ _ _ >>= fun y => _) = _
    rw [heq₂]
    exact heq₃
  · rw [hequal₃, Bool.or_eq_true, hlisted₂, Option.isSome_iff_ne_none]
    constructor
    · rintro h ⟨hseconds, hminutes, hhours⟩
      simp only [hseconds, hminutes, hhours, ne_eq, not_true, or_self] at h
    · intro hwild
      by_contra hnone
      simp only [not_or, ne_eq, not_not] at hnone
      exact hwild ⟨hnone.1.1, hnone.1.2, hnone.2⟩
  · rw [hlisted₁] at htaken₂
    rw [hstays₂] at htaken₃
    simp only [Bool.false_eq_true, false_or] at htaken₁
    exact .intro htaken₁ hcarry₁ hh₁ hm₁ htaken₂ hcarry₂ hh₂ htaken₃ ⟨hhour', hminute', hsecond'⟩

theorem timeStages_wild (hwild : expr.WildTime) (datetime : DateTime) :
    timeStages expr equal datetime = some (equal, datetime) := by
  unfold timeStages nextDatetimeSeconds nextDatetimeMinutes nextDatetimeHours
  rw [hwild.seconds, hwild.minutes, hwild.hours]
  rfl

theorem Step.first {field : Field} {v c : Nat} {equal' : Bool} (h : Step field true 0 equal' v c) :
    equal' = true ∧ c = 0 ∧ field.HasNumber v ∧ ∀ w, field.HasNumber w → v ≤ w := by
  obtain ⟨rfl, htaken⟩ := h.taken
  have hahead : ∀ w, Ahead (true = true ∨ field = none) 0 w := by
    intro w
    rcases Nat.eq_zero_or_pos w with rfl | hpos
    · exact .inr ⟨.inl rfl, rfl⟩
    · exact .inl hpos
  exact ⟨rfl, (htaken.le_of_ahead htaken.has (hahead v)).1, htaken.has,
    fun w hw => (htaken.le_of_ahead hw (hahead w)).2⟩

/-- **`firstTime` is the least time of a day** at which the fields of the time hold. -/
theorem firstTime_spec (hwf : expr.WellFormed) :
    ∃ time : Time, firstTime expr (gregorianDaysToDate n) =
        some (gregorianDaysToDate n, time) ∧ time.Valid ∧ expr.AtTime time ∧
      ∀ other, expr.AtTime other → timeToSeconds time ≤ timeToSeconds other := by
  obtain ⟨equal₁, second, c₁, n₁, h₁, m₁, heq₁, hstep₁, hh₁, hm₁, hcarry₁⟩ :=
    nextDatetimeSeconds_spec true n hwf (zero_le 23) (zero_le 59) (zero_le 59)
  have hsecond := hstep₁.le hwf.seconds (zero_le 59)
  obtain ⟨rfl, rfl, hhas₁, hleast₁⟩ := hstep₁.first
  obtain ⟨rfl, rfl, rfl⟩ : n₁ = n ∧ h₁ = 0 ∧ m₁ = 0 := by omega
  obtain ⟨equal₂, minute, c₂, n₂, h₂, heq₂, hstep₂, hh₂, hcarry₂⟩ :=
    nextDatetimeMinutes_spec true n₁ hwf (zero_le 23) (zero_le 59) hsecond
  have hminute := hstep₂.le hwf.minutes (zero_le 59)
  obtain ⟨rfl, rfl, hhas₂, hleast₂⟩ := hstep₂.first
  obtain ⟨rfl, rfl⟩ : n₂ = n₁ ∧ h₂ = 0 := by omega
  obtain ⟨equal₃, hour, c₃, heq₃, hstep₃⟩ := nextDatetimeHours_spec true n₂ 0 minute second hwf
  have hhour := hstep₃.le hwf.hours (zero_le 23)
  obtain ⟨rfl, rfl, hhas₃, hleast₃⟩ := hstep₃.first
  refine ⟨⟨hour, minute, second⟩, ?_, ⟨hhour, hminute, hsecond⟩, ⟨hhas₁, hhas₂, hhas₃⟩, ?_⟩
  · rw [firstTime, heq₁]
    show (nextDatetimeMinutes _ _ _ >>= fun y => _) = _
    rw [heq₂]
    show (nextDatetimeHours _ _ _ >>= fun z => _) = _
    rw [heq₃]
    rfl
  · intro other hat
    have hs := hleast₁ other.second hat.seconds
    have hm := hleast₂ other.minute hat.minutes
    have hh := hleast₃ other.hour hat.hours
    simp only [timeToSeconds]
    omega

end Stages

/-! ## the least later time -/

/-- **The next time of the day**: the least later one at which the fields of the time hold. -/
structure NextTime (expr : Expression) (time time' : Time) : Prop where
  valid : time'.Valid
  atTime : expr.AtTime time'
  later : timeToSeconds time < timeToSeconds time'
  least : ∀ other : Time, other.Valid → expr.AtTime other →
    timeToSeconds time < timeToSeconds other → timeToSeconds time' ≤ timeToSeconds other

namespace Expression

variable (expr : Expression) (time : Time)

/-- The next time is in the same minute. -/
def LaterSecond : Prop :=
  expr.hours.HasNumber time.hour ∧ expr.minutes.HasNumber time.minute ∧
    ∃ s ≤ 59, time.second < s ∧ expr.seconds.HasNumber s

/-- The next time is in the same hour. -/
def LaterMinute : Prop :=
  expr.hours.HasNumber time.hour ∧
    ∃ m ≤ 59, time.minute < m ∧ expr.minutes.HasNumber m

/-- The minutes that are ahead: the minute of the time itself is one if a second is ahead. -/
def MinuteAhead (v : Nat) : Prop :=
  Ahead ((expr.seconds ≠ none ∨ expr.minutes = none) ∧
    ∃ s, expr.seconds.HasNumber s ∧ Ahead (expr.seconds = none) time.second s)
    time.minute v

/-- **The fields of the time go in step**: a later second of the same minute is one that is given;
into a later minute, no second is left behind; into a later hour, no minute either. -/
structure InStep : Prop where
  seconds_ne : expr.LaterSecond time → expr.seconds ≠ none
  seconds : ¬ expr.LaterSecond time →
    Fresh expr.seconds (Ahead (expr.seconds = none) time.second)
  minutes : ¬ expr.LaterSecond time → ¬ expr.LaterMinute time →
    Fresh expr.minutes (expr.MinuteAhead time)

end Expression

section Next

variable {expr : Expression} {n n' : Nat} {time time' : Time}

theorem timeToSeconds_injective (ha : a.Valid) (hb : b.Valid)
    (h : timeToSeconds a = timeToSeconds b) : a = b := by
  obtain ⟨hha, hma, hsa⟩ := ha
  obtain ⟨hhb, hmb, hsb⟩ := hb
  obtain ⟨ah, am, as⟩ := a
  obtain ⟨bh, bm, bs⟩ := b
  simp only [timeToSeconds] at h hha hma hsa hhb hmb hsb
  rw [Time.mk.injEq]
  omega

theorem NextTime.iff_eq (h : NextTime expr time time') :
    NextTime expr time other ↔ other = time' := by
  constructor
  · intro hother
    refine timeToSeconds_injective hother.valid h.valid (Nat.le_antisymm ?_ ?_)
    · exact hother.least time' h.valid h.atTime h.later
    · exact h.least other hother.valid hother.atTime hother.later
  · rintro rfl
    exact h

theorem exists_least {P : Nat → Prop} (h : ∃ v ≤ 59, P v) : ∃ v ≤ 59, P v ∧ ∀ w, P w → v ≤ w := by
  obtain ⟨v, hv, hP⟩ := h
  obtain ⟨b, hb⟩ := exists_first (zero_le v) hP
  exact ⟨b, Nat.le_trans (hb.least v (zero_le v) hP) hv, hb.holds,
    fun w hw => hb.least w (zero_le w) hw⟩

theorem nextTime_second (htime : time.Valid) (h : expr.LaterSecond time) :
    ∃ s, NextTime expr time ⟨time.hour, time.minute, s⟩ := by
  obtain ⟨hhour, hminute, s, hs, hlt, hhas⟩ := h
  obtain ⟨v, hv, ⟨hlt, hhas⟩, hleast⟩ :=
    exists_least (P := fun s => time.second < s ∧ expr.seconds.HasNumber s) ⟨s, hs, hlt, hhas⟩
  refine ⟨v, ⟨htime.hour_le, htime.minute_le, hv⟩, ⟨hhas, hminute, hhour⟩, ?_, ?_⟩
  · simp only [timeToSeconds]
    omega
  · intro other hother hat hlater
    have hle : other.hour = time.hour → other.minute = time.minute → v ≤ other.second := by
      intro hh hm
      refine hleast other.second ⟨?_, hat.seconds⟩
      simp only [timeToSeconds, hh, hm] at hlater
      omega
    obtain ⟨-, hothermin, hothersec⟩ := hother
    obtain ⟨-, hmin, hsec⟩ := htime
    simp only [timeToSeconds] at hlater ⊢
    omega

theorem nextTime_minute (htime : time.Valid) (h : expr.LaterMinute time)
    (hnot : ¬ expr.LaterSecond time) (hseconds : ∃ s ≤ 59, expr.seconds.HasNumber s) :
    ∃ m s, NextTime expr time ⟨time.hour, m, s⟩ ∧ time.minute < m ∧
      (∀ w, time.minute < w → expr.minutes.HasNumber w → m ≤ w) ∧
      ∀ w, expr.seconds.HasNumber w → s ≤ w := by
  obtain ⟨hhour, m, hm, hlt, hhas⟩ := h
  obtain ⟨m, hm, ⟨hlt, hhas⟩, hleastm⟩ :=
    exists_least (P := fun m => time.minute < m ∧ expr.minutes.HasNumber m) ⟨m, hm, hlt, hhas⟩
  obtain ⟨s, hs, hhass, hleast⟩ := exists_least hseconds
  refine ⟨m, s, ⟨⟨htime.hour_le, hm, hs⟩, ⟨hhass, hhas, hhour⟩, ?_, ?_⟩, hlt,
    fun w hw hw' => hleastm w ⟨hw, hw'⟩, hleast⟩
  · have hsec := htime.second_le
    simp only [timeToSeconds]
    omega
  · intro other hother hat hlater
    have hle := hleast other.second hat.seconds
    have hlem : time.minute < other.minute → m ≤ other.minute :=
      fun hlt => hleastm other.minute ⟨hlt, hat.minutes⟩
    have hne : ¬ (other.hour = time.hour ∧ other.minute = time.minute) := by
      rintro ⟨hh, hm⟩
      refine hnot ⟨hhour, hm ▸ hat.minutes, other.second, hother.second_le, ?_, hat.seconds⟩
      simp only [timeToSeconds, hh, hm] at hlater
      omega
    obtain ⟨-, hothermin, hothersec⟩ := hother
    obtain ⟨-, hmin, hsec⟩ := htime
    simp only [timeToSeconds] at hlater ⊢
    omega

theorem nextTime_hour (htime : time.Valid) (hnot : ¬ expr.LaterSecond time)
    (hnot' : ¬ expr.LaterMinute time) (hseconds : ∃ s ≤ 59, expr.seconds.HasNumber s)
    (hminutes : ∃ m ≤ 59, expr.minutes.HasNumber m)
    (hexists : ∃ other : Time, other.Valid ∧ expr.AtTime other ∧
      timeToSeconds time < timeToSeconds other) :
    ∃ h m s, NextTime expr time ⟨h, m, s⟩ ∧ time.hour < h ∧
      (∀ w, time.hour < w → expr.hours.HasNumber w → h ≤ w) ∧
      (∀ w, expr.minutes.HasNumber w → m ≤ w) ∧
      ∀ w, expr.seconds.HasNumber w → s ≤ w := by
  -- every later time is in a later hour
  have hhour : ∀ other : Time, other.Valid → expr.AtTime other →
      timeToSeconds time < timeToSeconds other → time.hour < other.hour := by
    intro other hother hat hlater
    by_contra hle
    obtain ⟨hotherhour, hothermin, hothersec⟩ := hother
    obtain ⟨hhr, hmin, hsec⟩ := htime
    simp only [timeToSeconds] at hlater
    have hh : other.hour = time.hour := by omega
    by_cases hm : time.minute < other.minute
    · exact hnot' ⟨hh ▸ hat.hours, other.minute, hothermin, hm, hat.minutes⟩
    · have hm : other.minute = time.minute := by omega
      exact hnot ⟨hh ▸ hat.hours, hm ▸ hat.minutes, other.second, hothersec, by omega, hat.seconds⟩
  obtain ⟨other, hother, hat, hlater⟩ := hexists
  obtain ⟨h, hh, ⟨hlt, hhas⟩, hleasth⟩ :=
    exists_least (P := fun h => time.hour < h ∧ expr.hours.HasNumber h)
      ⟨other.hour, Nat.le_trans hother.hour_le (by decide), hhour other hother hat hlater,
        hat.hours⟩
  have hle := hleasth other.hour ⟨hhour other hother hat hlater, hat.hours⟩
  obtain ⟨m, hm, hhasm, hleastm⟩ := exists_least hminutes
  obtain ⟨s, hs, hhass, hleast⟩ := exists_least hseconds
  refine ⟨h, m, s, ⟨⟨Nat.le_trans hle hother.hour_le, hm, hs⟩, ⟨hhass, hhasm, hhas⟩, ?_, ?_⟩, hlt,
    fun w hw hw' => hleasth w ⟨hw, hw'⟩, hleastm, hleast⟩
  · have hmin := htime.minute_le
    have hsec := htime.second_le
    simp only [timeToSeconds]
    omega
  · intro other hother hat hlater
    have hleh := hleasth other.hour ⟨hhour other hother hat hlater, hat.hours⟩
    have hlem := hleastm other.minute hat.minutes
    have hles := hleast other.second hat.seconds
    simp only [timeToSeconds]
    omega

/-! ## the search finds the next time -/

section

variable (h : TimeSearch expr n time n' time')

include h

theorem TimeSearch.fresh_seconds :
    Fresh expr.seconds (Ahead (expr.seconds = none) time.second) ↔
      ∀ w ≤ 59, expr.seconds.HasNumber w → time'.second ≤ w := by
  cases h with
  | intro second _ _ _ _ _ _ _ valid => exact second.fresh_iff valid.second_le

theorem TimeSearch.fresh_minutes (htime : time.Valid) :
    Fresh expr.minutes (expr.MinuteAhead time) ↔
      ∀ w ≤ 59, expr.minutes.HasNumber w → time'.minute ≤ w := by
  obtain ⟨hhour, hminute, hsecond⟩ := htime
  cases h with
  | @intro c₁ n₁ h₁ m₁ c₂ n₂ h₂ c₃ _ second hcarry₁ hh₁ hm₁ minute hcarry₂ hh₂ hour valid =>
  rcases second.least with ⟨rfl, hahead, -⟩ | ⟨rfl, -, hnone⟩
  · -- the minute stays at the minute of the time
    obtain rfl : m₁ = time.minute := by omega
    have hiff : expr.MinuteAhead time =
        Ahead (expr.seconds ≠ none ∨ expr.minutes = none) time.minute := by
      funext v
      have hsome : (∃ s, expr.seconds.HasNumber s ∧
          Ahead (expr.seconds = none) time.second s) = True :=
        eq_true ⟨time'.second, second.has, hahead⟩
      unfold Expression.MinuteAhead
      rw [hsome, and_true]
    rw [hiff]
    exact minute.fresh_iff valid.minute_le
  · have hlisted := second.listed id
    have hno : ¬ ∃ s, expr.seconds.HasNumber s ∧
        Ahead (expr.seconds = none) time.second s := fun ⟨s, hs, hahead⟩ => hnone s hs hahead
    by_cases hlast : time.minute = 59
    · -- no minute of the hour is ahead, and every minute of the next one is
      obtain rfl : m₁ = 0 := by omega
      refine iff_of_true (.inr fun v hv _ hahead => ?_) fun w _ hw =>
        (minute.le_of_ahead hw ?_).2
      · rcases hahead with hlt | ⟨⟨-, hsome⟩, -⟩
        · omega
        · exact hno hsome
      · rcases Nat.eq_zero_or_pos w with rfl | hpos
        · exact .inr ⟨.inl hlisted, rfl⟩
        · exact .inl hpos
    · obtain rfl : m₁ = time.minute + 1 := by omega
      have hiff : expr.MinuteAhead time =
          Ahead (expr.seconds ≠ none ∨ expr.minutes = none) (time.minute + 1) := by
        funext v
        unfold Expression.MinuteAhead
        simp only [hno]
        simp only [Ahead, hlisted, ne_eq, not_false_iff, true_or, true_and, and_false, false_and,
          or_false, eq_iff_iff]
        omega
      rw [hiff]
      exact minute.fresh_iff valid.minute_le

/-- In the same minute, the next time is found if seconds are given. -/
theorem TimeSearch.next_second (htime : time.Valid) (hlater : expr.LaterSecond time) :
    n' = n ∧ NextTime expr time time' ↔ expr.seconds ≠ none := by
  obtain ⟨s, hnext⟩ := nextTime_second htime hlater
  rw [hnext.iff_eq]
  obtain ⟨hhour, hminute, hsecond⟩ := htime
  have hs : time.second < s := by
    have hlt := hnext.later
    simp only [timeToSeconds] at hlt
    omega
  have hle := hnext.least time'
  have hmin := hlater.2.1
  have hhr := hlater.1
  cases h with
  | @intro c₁ n₁ h₁ m₁ c₂ n₂ h₂ c₃ _ second hcarry₁ hh₁ hm₁ minute hcarry₂ hh₂ hour valid =>
  constructor
  · rintro ⟨-, rfl⟩ hseconds
    have hstay := (second.le_of_ahead (w := time.second) (hseconds ▸ hasNumber_wild time.second)
      (.inr ⟨hseconds, rfl⟩)).2
    exact absurd hs (Nat.not_lt.mpr hstay)
  · intro hseconds
    obtain ⟨rfl, hsle⟩ := second.le_of_ahead hnext.atTime.seconds (.inl hs)
    have hsle : time'.second ≤ s := hsle
    have hstrict := second.strict hseconds
    obtain rfl : m₁ = time.minute := by omega
    obtain ⟨rfl, hmle⟩ := minute.le_of_ahead hmin (.inr ⟨.inl hseconds, rfl⟩)
    obtain rfl : h₂ = time.hour := by omega
    obtain ⟨rfl, hhle⟩ := hour.le_of_ahead hhr (.inr ⟨.inl hseconds, rfl⟩)
    have hm := minute.forward
    have hh := hour.forward
    have hle := hle valid ⟨second.has, minute.has, hour.has⟩
    simp only [timeToSeconds] at hle
    refine ⟨by omega, ?_⟩
    rw [show time' = ⟨time'.hour, time'.minute, time'.second⟩ from rfl, Time.mk.injEq]
    omega

/-- In the same hour, it is found if no second is left behind. -/
theorem TimeSearch.next_minute (htime : time.Valid) (hlater : expr.LaterMinute time)
    (hnot : ¬ expr.LaterSecond time) : n' = n ∧ NextTime expr time time' ↔
      ∀ w ≤ 59, expr.seconds.HasNumber w → time'.second ≤ w := by
  obtain ⟨m, s, hnext, hm, hleastm, hleasts⟩ :=
    nextTime_minute htime hlater hnot ⟨time'.second, h.valid.second_le, h.atTime.seconds⟩
  rw [hnext.iff_eq]
  have hm59 : m ≤ 59 := hnext.valid.minute_le
  have hs59 : s ≤ 59 := hnext.valid.second_le
  have hsec : expr.seconds.HasNumber s := hnext.atTime.seconds
  have hmin : expr.minutes.HasNumber m := hnext.atTime.minutes
  have hhr : expr.hours.HasNumber time.hour := hlater.1
  obtain ⟨hhour, hminute, hsecond⟩ := htime
  cases h with
  | @intro c₁ n₁ h₁ m₁ c₂ n₂ h₂ c₃ _ second hcarry₁ hh₁ hm₁ minute hcarry₂ hh₂ hour valid =>
  constructor
  · rintro ⟨-, rfl⟩ w _ hw
    exact hleasts w hw
  · intro hfresh
    have hs : time'.second = s := Nat.le_antisymm (hfresh s hs59 hsec) (hleasts _ second.has)
    have hc₁ := second.carry_le
    have hforward := second.forward
    -- no second of the same minute is later
    have hnone : expr.minutes.HasNumber time.minute → ∀ w ≤ 59,
        expr.seconds.HasNumber w → w ≤ time.second := fun hmt w hw hw' =>
      le_of_not_lt fun hlt => hnot ⟨hhr, hmt, w, hw, hlt, hw'⟩
    have hlisted : expr.seconds ≠ none ∨ expr.minutes ≠ none := by
      by_contra hwild
      obtain ⟨hseconds, hminutes⟩ := not_or.mp hwild
      have hseconds := not_not.mp hseconds
      have hc₁ : c₁ ≠ 1 := fun hc => (hc ▸ second).listed id hseconds
      have hlast := hnone (not_not.mp hminutes ▸ hasNumber_wild _) 59 (Nat.le_refl 59)
        (hseconds ▸ hasNumber_wild 59)
      have hfirst := hleasts 0 (hseconds ▸ hasNumber_wild 0)
      omega
    have hahead : Ahead (expr.seconds ≠ none ∨ expr.minutes = none) m₁ m := by
      by_cases hc : c₁ = 1
      · have hseconds := (hc ▸ second).listed id
        rcases Nat.eq_or_lt_of_le (show m₁ ≤ m by omega) with rfl | hlt
        · exact .inr ⟨.inl hseconds, rfl⟩
        · exact .inl hlt
      · exact .inl (by omega)
    obtain ⟨rfl, hmle⟩ := minute.le_of_ahead hmin hahead
    have hmlater : time.minute < time'.minute := by
      have hforward' := minute.forward
      by_contra hle
      have heq : time'.minute = time.minute := by omega
      have hc : c₁ = 0 := by omega
      subst hc
      obtain rfl : m₁ = time.minute := by omega
      have hmt : expr.minutes.HasNumber time.minute := heq ▸ minute.has
      have hback := hnone hmt time'.second valid.second_le second.has
      rcases second.ahead with hlt | ⟨hseconds, -⟩
      · omega
      · rcases minute.ahead with hlt | ⟨hstays, -⟩
        · omega
        · exact hlisted.elim (fun h => h hseconds) fun h => hstays.elim (fun h => h hseconds) h
    have hmge := hleastm time'.minute hmlater minute.has
    obtain rfl : h₂ = time.hour := by omega
    have hstays : expr.seconds ≠ none ∨ expr.minutes ≠ none ∨
        expr.hours = none := hlisted.elim .inl fun h => .inr (.inl h)
    obtain ⟨rfl, hhle⟩ := hour.le_of_ahead hhr (.inr ⟨hstays, rfl⟩)
    have hh := hour.forward
    refine ⟨by omega, ?_⟩
    rw [show time' = ⟨time'.hour, time'.minute, time'.second⟩ from rfl, Time.mk.injEq]
    omega

/-- In a later hour, it is found if no second and no minute is left behind. -/
theorem TimeSearch.next_hour (htime : time.Valid) (hnot : ¬ expr.LaterSecond time)
    (hnot' : ¬ expr.LaterMinute time) (hexists : ∃ other : Time, other.Valid ∧ expr.AtTime other ∧
      timeToSeconds time < timeToSeconds other) : n' = n ∧ NextTime expr time time' ↔
      (∀ w ≤ 59, expr.seconds.HasNumber w → time'.second ≤ w) ∧
        ∀ w ≤ 59, expr.minutes.HasNumber w → time'.minute ≤ w := by
  obtain ⟨hr, m, s, hnext, hlt, hleasth, hleastm, hleasts⟩ := nextTime_hour htime hnot hnot'
    ⟨time'.second, h.valid.second_le, h.atTime.seconds⟩
    ⟨time'.minute, h.valid.minute_le, h.atTime.minutes⟩ hexists
  rw [hnext.iff_eq]
  have hh23 : hr ≤ 23 := hnext.valid.hour_le
  have hm59 : m ≤ 59 := hnext.valid.minute_le
  have hs59 : s ≤ 59 := hnext.valid.second_le
  have hsec : expr.seconds.HasNumber s := hnext.atTime.seconds
  have hmin : expr.minutes.HasNumber m := hnext.atTime.minutes
  have hhr : expr.hours.HasNumber hr := hnext.atTime.hours
  obtain ⟨hhour, hminute, hsecond⟩ := htime
  cases h with
  | @intro c₁ n₁ h₁ m₁ c₂ n₂ h₂ c₃ _ second hcarry₁ hh₁ hm₁ minute hcarry₂ hh₂ hour valid =>
  constructor
  · rintro ⟨-, rfl⟩
    exact ⟨fun w _ hw => hleasts w hw, fun w _ hw => hleastm w hw⟩
  · rintro ⟨hfreshs, hfreshm⟩
    have hs : time'.second = s := Nat.le_antisymm (hfreshs s hs59 hsec) (hleasts _ second.has)
    have hm : time'.minute = m := Nat.le_antisymm (hfreshm m hm59 hmin) (hleastm _ minute.has)
    have hc₁ := second.carry_le
    have hc₂ := minute.carry_le
    have hforwards := second.forward
    have hforwardm := minute.forward
    -- the hour that is reached before the hour is taken
    have hreached : n₂ = n ∧ (h₂ = time.hour ∧ c₂ = 0 ∧ (c₁ = 1 → m₁ = time.minute + 1) ∨
        h₂ = time.hour + 1 ∧ (expr.seconds ≠ none ∨ expr.minutes ≠ none)) := by
      by_cases hover : c₁ = 1 ∧ time.minute = 59
      · have hseconds := (hover.1 ▸ second).listed id
        have hc : c₂ = 0 := by
          refine (minute.le_of_ahead minute.has ?_).1
          rcases Nat.eq_zero_or_pos time'.minute with hzero | hpos
          · exact .inr ⟨.inl hseconds, by omega⟩
          · exact .inl (by omega)
        exact ⟨by omega, .inr ⟨by omega, .inl hseconds⟩⟩
      · by_cases hc : c₂ = 1
        · have hminutes := (hc ▸ minute).listed .inr
          exact ⟨by omega, .inr ⟨by omega, .inr hminutes⟩⟩
        · exact ⟨by omega, .inl ⟨by omega, by omega, by omega⟩⟩
    obtain ⟨rfl, hreached⟩ := hreached
    have hahead : Ahead (expr.seconds ≠ none ∨ expr.minutes ≠ none ∨
        expr.hours = none) h₂ hr := by
      rcases hreached with ⟨heq, -⟩ | ⟨heq, hlisted⟩
      · exact .inl (by omega)
      · rcases Nat.eq_or_lt_of_le (show h₂ ≤ hr by omega) with rfl | hlt
        · exact .inr ⟨hlisted.elim .inl fun h => .inr (.inl h), rfl⟩
        · exact .inl hlt
    obtain ⟨rfl, hhle⟩ := hour.le_of_ahead hhr hahead
    have hforwardh := hour.forward
    have hhlater : time.hour < time'.hour := by
      by_contra hle
      have heq : time'.hour = time.hour := by omega
      have hht : expr.hours.HasNumber time.hour := heq ▸ hour.has
      rcases hreached with ⟨-, rfl, hc⟩ | ⟨hne, -⟩
      · have hmle : time'.minute ≤ time.minute := le_of_not_lt fun hlt =>
          hnot' ⟨hht, time'.minute, valid.minute_le, hlt, minute.has⟩
        have hc : c₁ = 0 := by omega
        subst hc
        obtain rfl : m₁ = time.minute := by omega
        have hmeq : time'.minute = time.minute := by omega
        have hsle : time'.second ≤ time.second := le_of_not_lt fun hlt =>
          hnot ⟨hht, hmeq ▸ minute.has, time'.second, valid.second_le, hlt, second.has⟩
        rcases second.ahead with hlt | ⟨hseconds, -⟩
        · omega
        · rcases minute.ahead with hlt | ⟨hstays, -⟩
          · omega
          · have hminutes := hstays.elim (fun h => absurd hseconds h) id
            have hzero := hleastm 0 (hminutes ▸ hasNumber_wild 0)
            exact hnot' ⟨hht, 59, Nat.le_refl 59, by omega, hminutes ▸ hasNumber_wild 59⟩
      · omega
    have hhge := hleasth time'.hour hhlater hour.has
    refine ⟨by omega, ?_⟩
    rw [show time' = ⟨time'.hour, time'.minute, time'.second⟩ from rfl, Time.mk.injEq]
    omega

/-- **When the search finds the next time of the day**, if there is one. -/
theorem TimeSearch.next_iff (htime : time.Valid)
    (hexists : ∃ other : Time, other.Valid ∧ expr.AtTime other ∧
      timeToSeconds time < timeToSeconds other) :
    n' = n ∧ NextTime expr time time' ↔ expr.InStep time := by
  by_cases hsecond : expr.LaterSecond time
  · rw [h.next_second htime hsecond]
    exact ⟨fun hne => ⟨fun _ => hne, fun hnot => absurd hsecond hnot,
      fun hnot => absurd hsecond hnot⟩, fun hstep => hstep.seconds_ne hsecond⟩
  · by_cases hminute : expr.LaterMinute time
    · rw [h.next_minute htime hminute hsecond, ← h.fresh_seconds]
      exact ⟨fun hfresh => ⟨fun hlater => absurd hlater hsecond, fun _ => hfresh,
        fun _ hnot => absurd hminute hnot⟩, fun hstep => hstep.seconds hsecond⟩
    · rw [h.next_hour htime hsecond hminute hexists, ← h.fresh_seconds, ← h.fresh_minutes htime]
      exact ⟨fun hfresh => ⟨fun hlater => absurd hlater hsecond, fun _ => hfresh.1,
        fun _ _ => hfresh.2⟩, fun hstep => ⟨hstep.seconds hsecond, hstep.minutes hsecond hminute⟩⟩

end

end Next

end CloudI.ServiceCron
