import CloudI.ServiceCron.Dates

/-!
# ServiceCron.Times

The time of the next event: the second, the minute and the hour are advanced one after another,
each with a carry into the next, and the finer ones stay as they are.
-/

namespace CloudI.ServiceCron

open Calendar List

/-! ## one field -/

/-- A value counts from a number on: it is later, or it is the number and may stay. -/
def Ahead (stays : Prop) (i v : Nat) : Prop := i < v ∨ stays ∧ v = i

/-- **A field of the time is advanced** from `i` to `v`: a wildcard stays, a list goes to its next
value, or to its first one with a carry. -/
inductive Step (field : Field) (equal : Bool) (i : Nat) : Bool → Nat → Nat → Prop
  | wild : field = none → Step field equal i equal i 0
  | next {v : Nat} : field ≠ none → field.HasNumber v → Ahead (equal = true) i v →
      (∀ w, field.HasNumber w → Ahead (equal = true) i w → v ≤ w) → Step field equal i true v 0
  | carry {v : Nat} : field ≠ none → field.HasNumber v → (∀ w, field.HasNumber w → v ≤ w) →
      (∀ w, field.HasNumber w → ¬ Ahead (equal = true) i w) → Step field equal i true v 1

section Field

variable {min max i : Nat} {equal : Bool} {ns : List Nat} {date : Date}

theorem hasNumber_numbers : Field.HasNumber (some (ns.map .integer)) v ↔ v ∈ ns := by
  constructor
  · intro h
    obtain ⟨w, hw, rfl⟩ := h _ rfl
    obtain ⟨n, hn, heq⟩ := mem_map.mp hw
    cases heq
    exact hn
  · intro h l hl
    cases hl
    exact ⟨_, mem_map_of_mem h, rfl⟩

theorem firstValue_numbers (h : Numbers min max ns) :
    ∃ v, firstValue (ns.map .integer) = some v ∧ v ∈ ns ∧ ∀ w ∈ ns, v ≤ w := by
  obtain ⟨v, ns', rfl⟩ := exists_cons_of_ne_nil h.ne_nil
  refine ⟨v, rfl, mem_cons_self, fun w hw => ?_⟩
  rcases mem_cons.mp hw with rfl | hw
  · exact Nat.le_refl w
  · exact Nat.le_of_lt ((pairwise_cons.mp h.sorted).1 w hw)

/-- What is found in a sorted list is the least of what counts. -/
theorem find?_sorted {l : List Nat} (hsorted : l.Pairwise (· < ·)) {p : Nat → Bool} {v : Nat}
    (h : l.find? p = some v) : v ∈ l ∧ p v = true ∧ ∀ w ∈ l, p w = true → v ≤ w := by
  refine ⟨mem_of_find?_eq_some h, find?_some h, fun w hw hp => ?_⟩
  induction l with
  | nil => cases hw
  | cons x l ih =>
    obtain ⟨hx, hl⟩ := pairwise_cons.mp hsorted
    by_cases hpx : p x = true
    · rw [find?_cons_of_pos hpx] at h
      cases h
      rcases mem_cons.mp hw with rfl | hw
      · exact Nat.le_refl w
      · exact Nat.le_of_lt (hx w hw)
    · rw [find?_cons_of_neg hpx] at h
      rcases mem_cons.mp hw with rfl | hw
      · exact absurd hp hpx
      · exact ih hl h hw

/-- `get_next_value` of a list of numbers, which goes on or is carried. -/
theorem getNextValue_numbers (h : Numbers min max ns) (i : Nat) (equal : Bool) (date : Date) :
    ∃ v, (getNextValue (ns.map .integer) i equal date = some (some v) ∧
        Step (some (ns.map .integer)) equal i true v 0) ∨
      getNextValue (ns.map .integer) i equal date = some none ∧
        firstValue (ns.map .integer) = some v ∧ Step (some (ns.map .integer)) equal i true v 1 := by
  have hahead : ∀ v, (if equal then decide (i ≤ v) else decide (i < v)) = true ↔
      Ahead (equal = true) i v := by
    intro v
    unfold Ahead
    cases equal
    · simp
    · simp
      omega
  rw [getNextValue_eq (expand_numbers date ns)]
  cases hfind : (Lists.usort ns).find?
      fun v => if equal then decide (i ≤ v) else decide (i < v) with
  | none =>
    obtain ⟨v, hfirst, hv, hleast⟩ := firstValue_numbers h
    refine ⟨v, .inr ⟨rfl, hfirst, .carry nofun (hasNumber_numbers.mpr hv)
      (fun w hw => hleast w (hasNumber_numbers.mp hw)) fun w hw hw' => ?_⟩⟩
    exact find?_eq_none.mp hfind w (Lists.mem_usort.mpr (hasNumber_numbers.mp hw))
      ((hahead w).mpr hw')
  | some v =>
    obtain ⟨hv, hp, hleast⟩ := find?_sorted (pairwise_usort ns) hfind
    refine ⟨v, .inl ⟨rfl, .next nofun (hasNumber_numbers.mpr (Lists.mem_usort.mp hv))
      ((hahead v).mp hp) fun w hw hw' => ?_⟩⟩
    exact hleast w (Lists.mem_usort.mpr (hasNumber_numbers.mp hw)) ((hahead w).mpr hw')

end Field

/-! ## the three fields -/

section Fields

variable {expression : Expression} {equal : Bool} {n hour minute second : Nat}

theorem datetimeAdd_eq (hhour : hour' ≤ 23) (hminute : minute' ≤ 59) (hsecond : second' ≤ 59)
    (h : n * 86400 + (hour * 3600 + minute * 60 + second) + incr =
      n' * 86400 + hour' * 3600 + minute' * 60 + second') :
    datetimeAdd (gregorianDaysToDate n, ⟨hour, minute, second⟩) incr =
      some (gregorianDaysToDate n', ⟨hour', minute', second'⟩) := by
  rw [datetimeAdd, datetimeToGregorianSeconds_gregorianDaysToDate]
  exact congrArg some (gregorianSecondsToDatetime_eq hhour hminute hsecond h)

/-- The second, which is carried into the minute. -/
theorem nextDatetimeSeconds_spec (equal : Bool) (n : Nat) (hwf : expression.WellFormed) (hhour : hour ≤ 23)
    (hminute : minute ≤ 59) (hsecond : second ≤ 59) :
    ∃ equal' second' carry n' hour' minute',
      nextDatetimeSeconds expression equal (gregorianDaysToDate n, ⟨hour, minute, second⟩) =
        some (equal', (gregorianDaysToDate n', ⟨hour', minute', second'⟩)) ∧
      Step expression.seconds equal second equal' second' carry ∧ hour' ≤ 23 ∧ minute' ≤ 59 ∧
      n' * 1440 + hour' * 60 + minute' = n * 1440 + hour * 60 + minute + carry := by
  unfold nextDatetimeSeconds
  cases hfield : expression.seconds with
  | none => exact ⟨equal, second, 0, n, hour, minute, rfl, .wild rfl, hhour, hminute, by omega⟩
  | some l =>
    obtain ⟨ns, rfl, hns⟩ := hwf.seconds l hfield
    obtain ⟨v, ⟨hnext, hstep⟩ | ⟨hnext, hfirst, hstep⟩⟩ :=
      getNextValue_numbers hns second equal (gregorianDaysToDate n)
    · refine ⟨true, v, 0, n, hour, minute, ?_, hstep, hhour, hminute, by omega⟩
      show (getNextValue _ _ _ _ >>= fun x => _) = _
      rw [hnext]
      rfl
    · obtain ⟨n', hour', minute', hh, hm, heq⟩ : ∃ n' hour' minute', hour' ≤ 23 ∧ minute' ≤ 59 ∧
          n' * 1440 + hour' * 60 + minute' = n * 1440 + hour * 60 + minute + 1 :=
        ⟨(n * 1440 + hour * 60 + minute + 1) / 1440,
          (n * 1440 + hour * 60 + minute + 1) % 1440 / 60,
          (n * 1440 + hour * 60 + minute + 1) % 60, by omega, by omega, by omega⟩
      refine ⟨true, v, 1, n', hour', minute', ?_, hstep, hh, hm, heq⟩
      show (getNextValue _ _ _ _ >>= fun x => _) = _
      rw [hnext]
      show (firstValue _ >>= fun x => _) = _
      rw [hfirst]
      have hadd : n * 86400 + (hour * 3600 + minute * 60 + second) + (60 - second) =
          n' * 86400 + hour' * 3600 + minute' * 60 + 0 := by
        clear hstep hfirst hns hfield hwf
        grind
      rw [datetimeAdd_eq hh hm (Nat.zero_le 59) hadd]
      rfl

/-- The minute, which is carried into the hour. -/
theorem nextDatetimeMinutes_spec (equal : Bool) (n : Nat) (hwf : expression.WellFormed) (hhour : hour ≤ 23)
    (hminute : minute ≤ 59) (hsecond : second ≤ 59) :
    ∃ equal' minute' carry n' hour',
      nextDatetimeMinutes expression equal (gregorianDaysToDate n, ⟨hour, minute, second⟩) =
        some (equal', (gregorianDaysToDate n', ⟨hour', minute', second⟩)) ∧
      Step expression.minutes equal minute equal' minute' carry ∧ hour' ≤ 23 ∧
      n' * 24 + hour' = n * 24 + hour + carry := by
  unfold nextDatetimeMinutes
  cases hfield : expression.minutes with
  | none => exact ⟨equal, minute, 0, n, hour, rfl, .wild rfl, hhour, by omega⟩
  | some l =>
    obtain ⟨ns, rfl, hns⟩ := hwf.minutes l hfield
    obtain ⟨v, ⟨hnext, hstep⟩ | ⟨hnext, hfirst, hstep⟩⟩ :=
      getNextValue_numbers hns minute equal (gregorianDaysToDate n)
    · refine ⟨true, v, 0, n, hour, ?_, hstep, hhour, by omega⟩
      show (getNextValue _ _ _ _ >>= fun x => _) = _
      rw [hnext]
      rfl
    · obtain ⟨n', hour', hh, heq⟩ : ∃ n' hour', hour' ≤ 23 ∧ n' * 24 + hour' = n * 24 + hour + 1 :=
        ⟨(n * 24 + hour + 1) / 24, (n * 24 + hour + 1) % 24, by omega, by omega⟩
      refine ⟨true, v, 1, n', hour', ?_, hstep, hh, heq⟩
      show (getNextValue _ _ _ _ >>= fun x => _) = _
      rw [hnext]
      show (firstValue _ >>= fun x => _) = _
      rw [hfirst]
      show (datetimeAdd _ ((60 - minute) * 60) >>= fun x => _) = _
      rw [datetimeAdd_eq hh (Nat.zero_le 59) hsecond (show _ = n' * 86400 + hour' * 3600 +
        0 * 60 + second by omega)]
      rfl

/-- The hour, which is carried into the day. -/
theorem nextDatetimeHours_spec (equal : Bool) (n hour minute second : Nat)
    (hwf : expression.WellFormed) :
    ∃ equal' hour' carry,
      nextDatetimeHours expression equal (gregorianDaysToDate n, ⟨hour, minute, second⟩) =
        some (equal', (gregorianDaysToDate (n + carry), ⟨hour', minute, second⟩)) ∧
      Step expression.hours equal hour equal' hour' carry := by
  unfold nextDatetimeHours
  cases hfield : expression.hours with
  | none => exact ⟨equal, hour, 0, rfl, .wild rfl⟩
  | some l =>
    obtain ⟨ns, rfl, hns⟩ := hwf.hours l hfield
    obtain ⟨v, ⟨hnext, hstep⟩ | ⟨hnext, hfirst, hstep⟩⟩ :=
      getNextValue_numbers hns hour equal (gregorianDaysToDate n)
    · refine ⟨true, v, 0, ?_, hstep⟩
      show (getNextValue _ _ _ _ >>= fun x => _) = _
      rw [hnext]
      rfl
    · refine ⟨true, v, 1, ?_, hstep⟩
      show (getNextValue _ _ _ _ >>= fun x => _) = _
      rw [hnext]
      show (firstValue _ >>= fun x => _) = _
      rw [hfirst]
      show (dateAdd _ (1 : Nat) >>= fun x => _) = _
      rw [dateAdd_gregorianDaysToDate]
      rfl

end Fields

end CloudI.ServiceCron
