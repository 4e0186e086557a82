import CloudI.CloudiString.Split
import CloudI.Erlang.Lists
import Mathlib.Data.Prod.Lex

/-!
# ServiceCron.Expression

Cron expressions (`cloudi_cron:new/1`): the seven fields of a string, and the values of each.
`none` is a call that fails.
-/

namespace CloudI.ServiceCron

open List Option
open Option (some.injEq)

/-- A string. -/
abbrev Text := List Char

/-! ## strings -/

/-- `cloudi_string:split/2` at a character. -/
def split (char : Char) : Text → List Text
  | [] => [[]]
  | h :: t =>
      match split char t with
      | [] => [[h]]
      | segment :: segments =>
          if h = char then [] :: segment :: segments else (h :: segment) :: segments

/-- `cloudi_string:lowercase/1` of the letters that names have. -/
def lowercase (text : Text) : Text := text.map Char.toLower

/-- The decimal digits of a number. -/
def digitsToNat (text : Text) : Option Nat :=
  if text ≠ [] ∧ text.all Char.isDigit then
    some (text.foldl (fun n c => n * 10 + (c.toNat - 48)) 0)
  else none

def listToInteger : Text → Option Int
  | '+' :: text => (digitsToNat text).map Int.ofNat
  | '-' :: text => (digitsToNat text).map fun n => -Int.ofNat n
  | text => (digitsToNat text).map Int.ofNat

/-- `cloudi_lists:index/2`: the first is 1. -/
def index (item : Text) : List Text → Option Nat
  | [] => none
  | h :: t => if h = item then some 1 else (index item t).map (· + 1)

/-- `lists:seq/3`, up to a number that is not below the first. -/
def seq (first last step : Nat) : List Nat :=
  (List.range ((last - first) / step + 1)).map fun i => first + i * step

/-! ## values -/

/-- A value of a field. `{weekday, last_day_of_month}` is `weekday none`. -/
inductive Value where
  | integer (n : Nat)
  | lastDayOfMonth
  | lastDayOfWeek (dayOfWeek : Nat)
  | weekday (day : Option Nat)
  | every (multiplier dayOfWeek : Nat)
deriving DecidableEq, Repr

/-- The order of terms: numbers, atoms, and tuples by their sizes and then their elements. -/
def Value.rank : Value → Nat ×ₗ Nat ×ₗ Nat
  | .integer n => toLex (0, toLex (n, 0))
  | .lastDayOfMonth => toLex (1, toLex (0, 0))
  | .lastDayOfWeek dayOfWeek => toLex (2, toLex (dayOfWeek, 0))
  | .weekday (some day) => toLex (3, toLex (0, day))
  | .weekday none => toLex (3, toLex (1, 0))
  | .every multiplier dayOfWeek => toLex (4, toLex (multiplier, dayOfWeek))

theorem Value.rank_injective : Function.Injective Value.rank := by
  intro v w h
  have hfst := congrArg (fun x => (ofLex x).1) h
  have hsnd := congrArg (fun x => (ofLex (ofLex x).2).1) h
  have hthd := congrArg (fun x => (ofLex (ofLex x).2).2) h
  rcases v with n | _ | n | (_ | n) | ⟨m, n⟩ <;> rcases w with n' | _ | n' | (_ | n') | ⟨m', n'⟩ <;>
    simp_all [Value.rank]

instance : LinearOrder Value := LinearOrder.lift' Value.rank Value.rank_injective

/-- What a field allows besides integers. -/
inductive Special where
  | lastDayOfMonth
  | weekday
  | lastDayOfWeek
  | every
deriving DecidableEq, Repr

/-! ## parsing -/

def parseValueNameInteger (value : Text) (min max : Nat) (names : Option (List Text)) :
    Option Nat :=
  match names with
  | none => do
      let integer ← listToInteger value
      if (min : Int) ≤ integer ∧ integer ≤ max then some integer.toNat else none
  | some names =>
      match index (lowercase value) names with
      | none => do
          let integer ← listToInteger value
          if (min : Int) ≤ integer ∧ integer ≤ max then
            -- day_of_week == 7 becomes 0 for Sunday
            some (if max = 7 ∧ integer = 7 then 0 else integer.toNat)
          else none
      | some valuePlus1 =>
          let integer := valuePlus1 - 1 + min
          if integer ≤ max then some integer else none

/-- The value before a suffix. -/
def withoutSuffix (suffix : Char) (value : Text) : Option Text :=
  match value.reverse with
  | h :: reversed => if h = suffix then some reversed.reverse else none
  | [] => none

def parseValueName (min max : Nat) (names : Option (List Text)) (value : Text) :
    List Special → Option Value
  | [] => (parseValueNameInteger value min max names).map .integer
  | .every :: allow =>
      let (valueAt, multiplierStr) := CloudiString.splitlOr '#' value .input
      if valueAt = value ∧ multiplierStr = [] then parseValueName min max names value allow
      else do
        let multiplier ← listToInteger multiplierStr
        if 1 ≤ multiplier ∧ multiplier ≤ 5 then
          (parseValueNameInteger valueAt min max names).map (.every multiplier.toNat)
        else none
  | .lastDayOfMonth :: allow =>
      if value = "L".toList then some .lastDayOfMonth
      else if value = "LW".toList ∨ value = "WL".toList then some (.weekday none)
      else parseValueName min max names value allow
  | .lastDayOfWeek :: allow =>
      match withoutSuffix 'L' value with
      | some text => (parseValueNameInteger text min max names).map .lastDayOfWeek
      | none => parseValueName min max names value allow
  | .weekday :: allow =>
      match withoutSuffix 'W' value with
      | some text => (parseValueNameInteger text min max names).map fun n => .weekday (some n)
      | none => parseValueName min max names value allow

def parseValueRange (rangeMinStr rangeMaxStr stepStr : Text) (min max : Nat)
    (names : Option (List Text)) : Option (List Value) :=
  if rangeMinStr = [] ∨ rangeMaxStr = [] then none
  else do
    let rangeMin ← parseValueNameInteger rangeMinStr min max names
    let rangeMax ← parseValueNameInteger rangeMaxStr min max names
    let step ← listToInteger stepStr
    if rangeMin < rangeMax ∧ 1 ≤ step ∧ step < max then
      some ((seq rangeMin rangeMax step.toNat).map .integer)
    else none

def parseValue (segment : Text) (min max : Nat) (names : Option (List Text))
    (allow : List Special) : Option (List Value) := do
  let (rangeStr, stepStr) ← CloudiString.splitrOr '/' segment .input
  if rangeStr = [] ∧ stepStr = segment then
    let (rangeMinStr, rangeMaxStr) := CloudiString.splitlOr '-' segment .input
    if rangeMinStr = segment ∧ rangeMaxStr = [] then
      (parseValueName min max names segment allow).map fun value => [value]
    else parseValueRange rangeMinStr rangeMaxStr "1".toList min max names
  else if rangeStr = "*".toList then
    let step ← listToInteger stepStr
    if (min : Int) < step ∧ step < max then
      some ((seq min max step.toNat).map .integer)
    else none
  else
    let (rangeMinStr, rangeMaxStr) := CloudiString.splitl '-' rangeStr
    parseValueRange rangeMinStr rangeMaxStr stepStr min max names

/-- The values of a field, or `undefined`. -/
abbrev Field := Option (List Value)

variable (input : Text)

def parseValues (min max : Nat) (names : Option (List Text))
    (allow : List Special) : Option Field :=
  if input = "*".toList then some none
  else do
    let values ← (split ',' input).mapM fun segment => parseValue segment min max names allow
    some (some (Lists.usort values.flatten))

def parseSeconds : Option Field := parseValues input 0 59 none []

def parseMinutes : Option Field := parseValues input 0 59 none []

def parseHours : Option Field := parseValues input 0 23 none []

def parseDayOfMonth : Option Field :=
  parseValues input 1 31 none [.lastDayOfMonth, .weekday]

/-- The names of the months. -/
def monthNames : List Text :=
  ["jan", "feb", "mar", "apr", "may", "jun", "jul", "aug", "sep", "oct", "nov", "dec"].map
    String.toList

def parseMonth : Option Field := parseValues input 1 12 (some monthNames) []

/-- The names of the days of the week. -/
def dayNames : List Text := ["sun", "mon", "tue", "wed", "thu", "fri", "sat"].map String.toList

def parseDayOfWeek : Option Field :=
  parseValues input 0 7 (some dayNames) [.lastDayOfWeek, .every]

def parseYear : Option Field := parseValues input 1970 9999 none []

/-- `parse_expression_fields/3` and `parse_expression_spaces/1`: `spaces` are skipped after a
field and in front of the first. -/
def parseExpressionFieldsFrom (spaces : Bool) (field : Text) (fields : List Text) :
    Text → List Text
  | [] => if field = [] then fields.reverse else (field.reverse :: fields).reverse
  | h :: t =>
      if h = ' ' then
        if spaces then parseExpressionFieldsFrom true field fields t
        else parseExpressionFieldsFrom true [] (field.reverse :: fields) t
      else parseExpressionFieldsFrom false (h :: field) fields t

def parseExpressionFields : List Text := parseExpressionFieldsFrom true [] [] input

/-- `expression()`. -/
structure Expression where
  seconds : Field
  minutes : Field
  hours : Field
  dayOfMonth : Field
  month : Field
  dayOfWeek : Field
  year : Field
deriving DecidableEq, Repr

/-- The seven fields of an expression, with the defaults and the macros. -/
def expressionFields : Option (List Text) :=
  let secondsDefault := "0".toList
  let yearDefault := "*".toList
  match parseExpressionFields input with
  | [minutes, hours, dayOfMonth, month, dayOfWeek] =>
      some [secondsDefault, minutes, hours, dayOfMonth, month, dayOfWeek, yearDefault]
  | [minutes, hours, dayOfMonth, month, dayOfWeek, year] =>
      some [secondsDefault, minutes, hours, dayOfMonth, month, dayOfWeek, year]
  | [seconds, minutes, hours, dayOfMonth, month, dayOfWeek, year] =>
      some [seconds, minutes, hours, dayOfMonth, month, dayOfWeek, year]
  | [name] =>
      (if name = "@yearly".toList ∨ name = "@annually".toList then
        some ["0", "0", "1", "1", "*"]
      else if name = "@monthly".toList then some ["0", "0", "1", "*", "*"]
      else if name = "@weekly".toList then some ["0", "0", "*", "*", "0"]
      else if name = "@daily".toList ∨ name = "@midnight".toList then
        some ["0", "0", "*", "*", "*"]
      else if name = "@hourly".toList then some ["0", "*", "*", "*", "*"]
      else none).map fun standard =>
        secondsDefault :: standard.map String.toList ++ [yearDefault]
  | _ => none

/-- `new/1`, without the strings of the expression. -/
def new : Option Expression := do
  match ← expressionFields input with
  | [seconds, minutes, hours, dayOfMonth, month, dayOfWeek, year] =>
      some
        { seconds := ← parseSeconds seconds
          minutes := ← parseMinutes minutes
          hours := ← parseHours hours
          dayOfMonth := ← parseDayOfMonth dayOfMonth
          month := ← parseMonth month
          dayOfWeek := ← parseDayOfWeek dayOfWeek
          year := ← parseYear year }
  | _ => none

example : parseDayOfWeek "1-3,5#2".toList = some
    (some [.integer 1, .integer 2, .integer 3, .every 2 5]) := by decide

/-! ## what is accepted -/

/-- A value that a field accepts: its integer is one of `R`, and what stands in another value is
one of `Q`. -/
def Value.Fits (R Q : Nat → Prop) (allow : List Special) : Value → Prop
  | .integer n => R n
  | .lastDayOfMonth | .weekday none => .lastDayOfMonth ∈ allow
  | .lastDayOfWeek n => .lastDayOfWeek ∈ allow ∧ Q n
  | .weekday (some n) => .weekday ∈ allow ∧ Q n
  | .every m n => .every ∈ allow ∧ (1 ≤ m ∧ m ≤ 5) ∧ Q n

/-- The numbers of a list. -/
structure Numbers (min max : Nat) (ns : List Nat) : Prop where
  ne_nil : ns ≠ []
  sorted : ns.Pairwise (· < ·)
  bounds : ∀ n ∈ ns, min ≤ n ∧ n ≤ max

/-- A field that is a wildcard or a list of numbers. -/
def Field.Numeric (min max : Nat) (field : Field) : Prop :=
  ∀ l, field = some l → ∃ ns : List Nat, l = ns.map .integer ∧ Numbers min max ns

/-- A field with values that it accepts. -/
def Field.Fits (R Q : Nat → Prop) (allow : List Special) (field : Field) : Prop :=
  ∀ l, field = some l → ∀ v ∈ l, v.Fits R Q allow

/-- **A parsed expression**: the types of its fields. -/
structure Expression.WellFormed (expression : Expression) : Prop where
  seconds : expression.seconds.Numeric 0 59
  minutes : expression.minutes.Numeric 0 59
  hours : expression.hours.Numeric 0 23
  dayOfMonth : expression.dayOfMonth.Fits (fun n => 1 ≤ n ∧ n ≤ 31) (fun n => 1 ≤ n ∧ n ≤ 31)
    [.lastDayOfMonth, .weekday]
  month : expression.month.Numeric 1 12
  dayOfWeek : expression.dayOfWeek.Fits (fun n => n ≤ 7) (fun n => n ≤ 6) [.lastDayOfWeek, .every]
  year : expression.year.Numeric 1970 9999

variable {R Q : Nat → Prop} {allow : List Special} {min max : Nat} {names : Option (List Text)}

variable {v : Value} {value input : Text} {n : Nat} {l : List Value} {field : Field}

theorem Value.Fits.cons (h : v.Fits R Q allow) (x : Special) : v.Fits R Q (x :: allow) := by
  rcases v with n | _ | n | (_ | n) | ⟨m, n⟩
  · exact h
  · exact mem_cons_of_mem x h
  · exact ⟨mem_cons_of_mem x h.1, h.2⟩
  · exact mem_cons_of_mem x h
  · exact ⟨mem_cons_of_mem x h.1, h.2⟩
  · exact ⟨mem_cons_of_mem x h.1, h.2⟩

theorem index_le {item : Text} {l : List Text} {i : Nat} (h : index item l = some i) :
    1 ≤ i ∧ i ≤ l.length := by
  induction l generalizing i with
  | nil => cases h
  | cons x l ih =>
    rw [index] at h
    by_cases heq : x = item
    · rw [if_pos heq] at h
      cases h
      exact ⟨Nat.le_refl 1, Nat.succ_pos _⟩
    · rw [if_neg heq, map_eq_some_iff] at h
      obtain ⟨j, hj, rfl⟩ := h
      have hle := (ih hj).2
      exact ⟨Nat.succ_pos j, Nat.succ_le_succ hle⟩

theorem of_parseValueNameInteger (h : parseValueNameInteger value min max names = some n) :
    (∃ i : Int, (min : Int) ≤ i ∧ i ≤ max ∧
      n = if names.isSome ∧ max = 7 ∧ i = 7 then 0 else i.toNat) ∨
    (∃ l i, names = some l ∧ 1 ≤ i ∧ i ≤ l.length ∧ n = i - 1 + min ∧ n ≤ max) := by
  unfold parseValueNameInteger at h
  cases names with
  | none =>
    simp only [bind_eq_bind, bind_eq_some_iff, ite_none_right_eq_some,
      some.injEq] at h
    obtain ⟨i, -, ⟨hmin, hmax⟩, rfl⟩ := h
    exact .inl ⟨i, hmin, hmax, (if_neg (by simp)).symm⟩
  | some l =>
    cases hi : index (lowercase value) l with
    | none =>
      simp only [hi, bind_eq_bind, bind_eq_some_iff,
        ite_none_right_eq_some, some.injEq] at h
      obtain ⟨i, -, ⟨hmin, hmax⟩, rfl⟩ := h
      exact .inl ⟨i, hmin, hmax, by simp⟩
    | some i =>
      simp only [hi, ite_none_right_eq_some, some.injEq] at h
      obtain ⟨hmax, rfl⟩ := h
      obtain ⟨hpos, hle⟩ := index_le hi
      exact .inr ⟨l, i, rfl, hpos, hle, rfl, hmax⟩

theorem bounds_of_parseValueNameInteger (hmax : max = 7 → min = 0)
    (h : parseValueNameInteger value min max names = some n) : min ≤ n ∧ n ≤ max := by
  rcases of_parseValueNameInteger h with ⟨i, hlow, hhigh, rfl⟩ | ⟨l, i, -, -, -, rfl, hle⟩
  · split
    · rename_i heq
      have hmin := hmax heq.2.1
      omega
    · omega
  · exact ⟨Nat.le_add_left _ _, hle⟩

theorem dayOfWeek_of_parseValueNameInteger
    (h : parseValueNameInteger value 0 7 (some dayNames) = some n) : n ≤ 6 := by
  rcases of_parseValueNameInteger h with ⟨i, hlow, hhigh, rfl⟩ | ⟨l, i, heq, -, hle, rfl, -⟩
  · split
    · exact Nat.zero_le 6
    · rename_i hne
      have hi : i ≠ 7 := fun hi => hne ⟨rfl, rfl, hi⟩
      omega
  · cases heq
    have hlen : dayNames.length = 7 := rfl
    omega

theorem fits_parseValueName (hQ : ∀ text n, parseValueNameInteger text min max names = some n → Q n)
    (hR : ∀ n, Q n → R n) (h : parseValueName min max names value allow = some v) :
    v.Fits R Q allow := by
  induction allow with
  | nil =>
    rw [parseValueName, map_eq_some_iff] at h
    obtain ⟨n, hn, rfl⟩ := h
    exact hR n (hQ value n hn)
  | cons x allow ih =>
    cases x with
    | lastDayOfMonth =>
      rw [parseValueName] at h
      split at h
      · cases h
        exact mem_cons_self
      split at h
      · cases h
        exact mem_cons_self
      · exact (ih h).cons _
    | every =>
      simp only [parseValueName] at h
      split at h
      · exact (ih h).cons _
      · simp only [bind_eq_bind, bind_eq_some_iff,
          ite_none_right_eq_some, map_eq_some_iff] at h
        obtain ⟨m, -, ⟨hpos, hle⟩, n, hn, rfl⟩ := h
        exact ⟨mem_cons_self, ⟨by omega, by omega⟩, hQ _ n hn⟩
    | _ =>
      rw [parseValueName] at h
      split at h
      · rw [map_eq_some_iff] at h
        obtain ⟨n, hn, rfl⟩ := h
        exact ⟨mem_cons_self, hQ _ n hn⟩
      · exact (ih h).cons _

theorem mem_seq (hle : first ≤ last) (h : n ∈ seq first last step) : first ≤ n ∧ n ≤ last := by
  obtain ⟨i, hi, rfl⟩ := List.mem_map.mp h
  have hi' : i ≤ (last - first) / step := Nat.le_of_lt_succ (mem_range.mp hi)
  have hmul := Nat.mul_le_mul_right step hi'
  have hdiv := Nat.div_mul_le_self (last - first) step
  omega

theorem seq_ne_nil (first last step : Nat) : seq first last step ≠ [] := by
  intro h
  have hlen := congrArg List.length h
  rw [seq, length_map, length_range] at hlen
  cases hlen

theorem fits_parseValueRange
    (hbounds : ∀ text n, parseValueNameInteger text min max names = some n → min ≤ n ∧ n ≤ max)
    (h : parseValueRange rangeMinStr rangeMaxStr stepStr min max names = some l) :
    l ≠ [] ∧ ∀ v ∈ l, ∃ n, v = .integer n ∧ min ≤ n ∧ n ≤ max := by
  unfold parseValueRange at h
  split at h
  · cases h
  simp only [bind_eq_bind, bind_eq_some_iff, ite_none_right_eq_some,
    some.injEq] at h
  obtain ⟨low, hlow, high, hhigh, step, -, ⟨hlt, -, -⟩, rfl⟩ := h
  refine ⟨fun hnil => seq_ne_nil _ _ _ (map_eq_nil_iff.mp hnil), fun v hv => ?_⟩
  obtain ⟨n, hn, rfl⟩ := List.mem_map.mp hv
  have hmem := mem_seq (Nat.le_of_lt hlt) hn
  have hlow' := hbounds _ _ hlow
  have hhigh' := hbounds _ _ hhigh
  exact ⟨n, rfl, by omega, by omega⟩

theorem fits_parseValue (hle : min ≤ max) (hmax : max = 7 → min = 0)
    (hQ : ∀ text n, parseValueNameInteger text min max names = some n → Q n) {segment : Text}
    (h : parseValue segment min max names allow = some l) :
    l ≠ [] ∧ ∀ v ∈ l, v.Fits (fun n => min ≤ n ∧ n ≤ max) (fun n => Q n ∧ min ≤ n ∧ n ≤ max)
      allow := by
  have hbounds : ∀ text n, parseValueNameInteger text min max names = some n →
      min ≤ n ∧ n ≤ max := fun _ _ => bounds_of_parseValueNameInteger hmax
  have hnumbers : ∀ l : List Value, (l ≠ [] ∧ ∀ v ∈ l, ∃ n, v = .integer n ∧ min ≤ n ∧ n ≤ max) →
      l ≠ [] ∧ ∀ v ∈ l, v.Fits (fun n => min ≤ n ∧ n ≤ max)
        (fun n => Q n ∧ min ≤ n ∧ n ≤ max) allow := by
    rintro l ⟨hne, hl⟩
    refine ⟨hne, fun v hv => ?_⟩
    obtain ⟨n, rfl, hn⟩ := hl v hv
    exact hn
  obtain ⟨_, -, h⟩ := bind_eq_some_iff.mp h
  simp only at h
  split at h
  · split at h
    · obtain ⟨v, hv, rfl⟩ := map_eq_some_iff.mp h
      refine ⟨cons_ne_nil v [], fun w hw => ?_⟩
      rw [mem_singleton] at hw
      subst hw
      exact fits_parseValueName (fun text n hn => ⟨hQ text n hn, hbounds text n hn⟩)
        (fun n hn => hn.2) hv
    · exact hnumbers l (fits_parseValueRange hbounds h)
  · split at h
    · simp only [bind_eq_bind, bind_eq_some_iff, ite_none_right_eq_some,
        some.injEq] at h
      obtain ⟨step, -, -, rfl⟩ := h
      refine hnumbers _ ⟨fun hnil => seq_ne_nil _ _ _ (map_eq_nil_iff.mp hnil), fun v hv => ?_⟩
      obtain ⟨n, hn, rfl⟩ := List.mem_map.mp hv
      exact ⟨n, rfl, mem_seq hle hn⟩
    · exact hnumbers l (fits_parseValueRange hbounds h)

theorem split_ne_nil (char : Char) (text : Text) : split char text ≠ [] := by
  cases text with
  | nil => exact cons_ne_nil _ _
  | cons h t =>
    rw [split]
    split
    · exact cons_ne_nil _ _
    · split <;> exact cons_ne_nil _ _

theorem of_mapM {f : α → Option β} {l : List α} {l' : List β} (h : l.mapM f = some l') :
    l'.length = l.length ∧ ∀ y ∈ l', ∃ x ∈ l, f x = some y := by
  induction l generalizing l' with
  | nil =>
    cases h
    exact ⟨rfl, fun y hy => absurd hy not_mem_nil⟩
  | cons x l ih =>
    simp only [mapM_cons, bind_eq_bind, bind_eq_some_iff, Option.pure_def,
      some.injEq] at h
    obtain ⟨y, hy, ys, hys, rfl⟩ := h
    obtain ⟨hlen, hall⟩ := ih hys
    refine ⟨congrArg (· + 1) hlen, fun z hz => ?_⟩
    rcases mem_cons.mp hz with rfl | hz
    · exact ⟨x, mem_cons_self, hy⟩
    · obtain ⟨x', hx', hz'⟩ := hall z hz
      exact ⟨x', mem_cons_of_mem x hx', hz'⟩

/-- A field has what each of its segments has. -/
theorem exists_of_parseValues {P : Value → Prop}
    (hsegment : ∀ segment l, parseValue segment min max names allow = some l → ∃ v ∈ l, P v)
    (h : parseValues input min max names allow = some (some l)) : ∃ v ∈ l, P v := by
  unfold parseValues at h
  split at h
  · cases h
  simp only [bind_eq_bind, bind_eq_some_iff, some.injEq] at h
  obtain ⟨values, hvalues, rfl⟩ := h
  obtain ⟨hlen, hall⟩ := of_mapM hvalues
  have hne : values ≠ [] := by
    rintro rfl
    exact split_ne_nil ',' input (length_eq_zero_iff.mp hlen.symm)
  obtain ⟨vs, values', rfl⟩ := exists_cons_of_ne_nil hne
  obtain ⟨segment, -, hvs⟩ := hall vs mem_cons_self
  obtain ⟨v, hv, hP⟩ := hsegment segment vs hvs
  exact ⟨v, Lists.mem_usort.mpr (mem_flatten.mpr ⟨vs, mem_cons_self, hv⟩), hP⟩

/-- **A field is a wildcard, or sorted values that fit.** -/
theorem fits_parseValues (hle : min ≤ max) (hmax : max = 7 → min = 0)
    (hQ : ∀ text n, parseValueNameInteger text min max names = some n → Q n)
    (h : parseValues input min max names allow = some field) (hl : field = some l) :
    l ≠ [] ∧ l.Pairwise (· < ·) ∧
      ∀ v ∈ l, v.Fits (fun n => min ≤ n ∧ n ≤ max) (fun n => Q n ∧ min ≤ n ∧ n ≤ max) allow := by
  subst hl
  have hfits : ∀ segment l, parseValue segment min max names allow = some l → _ :=
    fun _ _ => fits_parseValue hle hmax hQ
  obtain ⟨w, hw, -⟩ := exists_of_parseValues (P := fun _ => True) (fun segment l hsegment =>
    (exists_mem_of_ne_nil l (hfits segment l hsegment).1).imp fun v hv => ⟨hv, trivial⟩) h
  unfold parseValues at h
  split at h
  · cases h
  simp only [bind_eq_bind, bind_eq_some_iff, some.injEq] at h
  obtain ⟨values, hvalues, rfl⟩ := h
  refine ⟨ne_nil_of_mem hw, Lists.pairwise_umerge List.Pairwise.nil, fun v hv => ?_⟩
  obtain ⟨vs, hvs, hv⟩ := mem_flatten.mp (Lists.mem_usort.mp hv)
  obtain ⟨segment, -, hsegment⟩ := (of_mapM hvalues).2 vs hvs
  exact (hfits segment vs hsegment).2 v hv

/-- A field without other values is one of numbers. -/
theorem numeric_parseValues (hle : min ≤ max) (hmax : max = 7 → min = 0)
    (h : parseValues input min max names [] = some field) : field.Numeric min max := by
  intro l hl
  obtain ⟨hne, hsorted, hfits⟩ := fits_parseValues (Q := fun _ => True) hle hmax
    (fun _ _ _ => trivial) h hl
  have hintegers : ∀ v ∈ l, ∃ n, v = .integer n ∧ min ≤ n ∧ n ≤ max := by
    intro v hv
    have hv' := hfits v hv
    rcases v with n | _ | n | (_ | n) | ⟨m, n⟩
    · exact ⟨n, rfl, hv'⟩
    · exact absurd hv' not_mem_nil
    · exact absurd hv'.1 not_mem_nil
    · exact absurd hv' not_mem_nil
    · exact absurd hv'.1 not_mem_nil
    · exact absurd hv'.1 not_mem_nil
  have hmap : ∃ ns : List Nat, l = ns.map .integer := by
    clear hne hsorted hfits hl
    induction l with
    | nil => exact ⟨[], rfl⟩
    | cons v l ih =>
      obtain ⟨n, rfl, -⟩ := hintegers v mem_cons_self
      obtain ⟨ns, rfl⟩ := ih fun w hw => hintegers w (mem_cons_of_mem _ hw)
      exact ⟨n :: ns, rfl⟩
  obtain ⟨ns, rfl⟩ := hmap
  refine ⟨ns, rfl, fun hnil => hne (by rw [hnil]; rfl), ?_, fun n hn => ?_⟩
  · rw [pairwise_map] at hsorted
    refine hsorted.imp fun {a b} hab => ?_
    have hrank : toLex ((0 : Nat), toLex (a, (0 : Nat))) < toLex (0, toLex (b, 0)) := hab
    simpa [Prod.Lex.toLex_lt_toLex] using hrank
  · obtain ⟨m, heq, hm⟩ := hintegers (.integer n) (List.mem_map_of_mem hn)
    cases heq
    exact hm

/-- **The expressions of `new` are well formed.** -/
theorem new_wellFormed (h : new input = some expression) : expression.WellFormed := by
  unfold new at h
  simp only [bind_eq_bind, bind_eq_some_iff] at h
  obtain ⟨fields, -, h⟩ := h
  split at h
  · simp only [bind_eq_some_iff, some.injEq] at h
    obtain ⟨seconds, hseconds, minutes, hminutes, hours, hhours, dayOfMonth, hdayOfMonth, month,
      hmonth, dayOfWeek, hdayOfWeek, year, hyear, rfl⟩ := h
    refine ⟨numeric_parseValues (by decide) (by decide) hseconds,
      numeric_parseValues (by decide) (by decide) hminutes,
      numeric_parseValues (by decide) (by decide) hhours, fun l hl v hv => ?_,
      numeric_parseValues (by decide) (by decide) hmonth, fun l hl v hv => ?_,
      numeric_parseValues (by decide) (by decide) hyear⟩
    · have hfits := (fits_parseValues (Q := fun _ => True) (by decide) (by decide)
        (fun _ _ _ => trivial) hdayOfMonth hl).2.2 v hv
      rcases v with n | _ | n | (_ | n) | ⟨m, n⟩
      · exact hfits
      · exact hfits
      · exact ⟨hfits.1, hfits.2.2⟩
      · exact hfits
      · exact ⟨hfits.1, hfits.2.2⟩
      · exact ⟨hfits.1, hfits.2.1, hfits.2.2.2⟩
    · have hfits := (fits_parseValues (by decide) (by decide)
        (fun _ _ => dayOfWeek_of_parseValueNameInteger) hdayOfWeek hl).2.2 v hv
      rcases v with n | _ | n | (_ | n) | ⟨m, n⟩
      · exact hfits.2
      · exact hfits
      · exact ⟨hfits.1, hfits.2.1⟩
      · exact hfits
      · exact ⟨hfits.1, hfits.2.1⟩
      · exact ⟨hfits.1, hfits.2.1, hfits.2.2.1⟩
  · cases h

end CloudI.ServiceCron
