import CloudI.RequestInfo.RoundTrip

/-!
# ApiC.KeyValue

`cloudi_info_key_value_parse` of the C API, on the text pairs of `cloudi_request_info`.

The strings of the text are not copied: the array holds a pointer to the start of each one and
ends with a null pointer.  A pointer is the offset in the text.  `none` is a failed assertion of
`realloc_ptr`, or a read outside the text.
-/

namespace CloudI.ApiC

open RequestInfo List

/-! ## realloc_ptr -/

/-- `realloc_ptr<T>`: the elements that were written, how many fit and the limit.  No `realloc`
fails. -/
structure ReallocPtr (α : Type) where
  elements : List α
  size : Nat
  maxSize : Nat

/-- `greater_pow2`: a power of 2 that is not less than the bytes of `n` elements. -/
def greaterPow2 (sizeof n : Nat) : Nat :=
  if 2 ^ Nat.log2 (n * sizeof) = n * sizeof then 2 ^ Nat.log2 (n * sizeof)
  else 2 * 2 ^ Nat.log2 (n * sizeof)

/-- `realloc_ptr<T>(initialSize, maxSize)`. -/
def ReallocPtr.new (α : Type) (sizeof initialSize maxSize : Nat) : ReallocPtr α where
  elements := []
  size := greaterPow2 sizeof initialSize
  maxSize := greaterPow2 sizeof maxSize

/-- The loop of `reserve`: the size is doubled until it is greater. -/
def doubled (size : Nat) : Nat → Nat → Nat
  | 0, newSize => newSize
  | fuel + 1, newSize => if size ≥ newSize then doubled size fuel (2 * newSize) else newSize

/-- `reserve`; what it returns is not used. -/
def ReallocPtr.reserve {α : Type} (size : Nat) (r : ReallocPtr α) : ReallocPtr α :=
  if size < r.size then r
  else if size > r.maxSize then r
  else { r with size := doubled size (size + 1) r.size }

/-- `r[i] = x` for the next index `i`, with the assertion of the operator. -/
def ReallocPtr.push {α : Type} (x : α) (r : ReallocPtr α) : Option (ReallocPtr α) :=
  if r.elements.length < r.size then some { r with elements := r.elements ++ [x] } else none

/-! ## the parser -/

/-- `result[i] = &p[offset]; result.reserve(++i + 1)`. -/
def storeString (offset : Nat) (result : ReallocPtr (Option Nat)) :
    Option (ReallocPtr (Option Nat)) :=
  (result.push (some offset)).map fun r => r.reserve (r.elements.length + 1)

/-- The loop of `text_key_value_parse`, from `text_i` on. -/
def textKeyValueLoop (text : Binary) :
    Nat → Nat → ReallocPtr (Option Nat) → Option (ReallocPtr (Option Nat))
  | 0, _, result => some result
  | fuel + 1, textI, result =>
      if textI < text.length - 1 then
        match text[textI]? with
        | none => none
        | some b =>
            if b = 0 then
              (storeString (textI + 1) result).bind (textKeyValueLoop text fuel (textI + 2))
            else textKeyValueLoop text fuel (textI + 1) result
      else some result

variable (text : Binary)

/-- `text_key_value_parse`, with pointers of 8 bytes. -/
def textKeyValueParse : Option (List (Option Nat)) :=
  let result := ((ReallocPtr.new (Option Nat) 8 16 8192).push (some 0)).bind fun result =>
    if text.length > 1 then textKeyValueLoop text text.length 1 result else some result
  (result.bind (·.push none)).map (·.elements)

/-- The null-terminated string at a pointer; `none` when no null byte follows in the text. -/
def cString (offset : Nat) : Option Binary :=
  if 0 ∈ text.drop offset then some ((text.drop offset).takeWhile (· ≠ 0)) else none

/-- **The array of the strings**: a pointer to each of them, and the null pointer at the end. -/
def ParsesTo (strings : List Binary) : Prop :=
  ∃ offsets : List Nat, textKeyValueParse text = some (offsets.map some ++ [none]) ∧
    offsets.map (cString text) = strings.map some

/-! ## the size of the array -/

/-- The sizes that the array takes: a power of 2 from 128 to 131072, and room for two more elements
below the last one. -/
structure Room {α : Type} (r : ReallocPtr α) : Prop where
  maxSize : r.maxSize = 65536
  size : ∃ k ≤ 10, r.size = 2 ^ (7 + k) ∧ (r.elements.length + 1 < r.size ∨ k = 10)

theorem doubled_self (h : 0 < n) : doubled n (n + 1) n = 2 * n := by
  obtain ⟨m, rfl⟩ : ∃ m, n = m + 1 := ⟨n - 1, by omega⟩
  rw [doubled, if_pos le_rfl, doubled, if_neg (by omega)]

variable {r : ReallocPtr (Option Nat)} {x : Binary}

/-- Storing a string works for the first 131072 of them. -/
theorem storeString_eq (h : Room r) (offset : Nat) (hlen : r.elements.length < 131072) :
    ∃ r', storeString offset r = some r' ∧ r'.elements = r.elements ++ [some offset] ∧ Room r' := by
  obtain ⟨hmax, k, hk, hsize, hroom⟩ := h
  have hpow : k < 10 ∧ r.size ≤ 65536 ∧ 2 * r.size = 2 ^ (7 + (k + 1)) ∨
      k = 10 ∧ r.size = 131072 := by
    rcases Nat.lt_or_eq_of_le hk with hlt | rfl
    · have hle : 2 ^ (7 + k) ≤ 2 ^ 16 := Nat.pow_le_pow_right (by omega) (by omega)
      have hdouble : 2 ^ (7 + (k + 1)) = 2 * 2 ^ (7 + k) := by rw [← Nat.add_assoc, Nat.pow_succ']
      exact .inl ⟨hlt, by omega, by omega⟩
    · exact .inr ⟨rfl, hsize⟩
  have hlt : r.elements.length < r.size := by omega
  rw [storeString, ReallocPtr.push, if_pos hlt, Option.map_some, ReallocPtr.reserve,
    length_append, length_singleton]
  by_cases hfits : r.elements.length + 1 + 1 < r.size
  · rw [if_pos hfits]
    refine ⟨_, rfl, rfl, hmax, k, hk, hsize, .inl ?_⟩
    rw [length_append]
    exact hfits
  · rw [if_neg hfits]
    rcases hpow with ⟨hk', hle, hdouble⟩ | ⟨rfl, hlast⟩
    · have heq : r.elements.length + 1 + 1 = r.size := by omega
      have hpos : 0 < r.size := by omega
      have hfew : ¬ r.size > r.maxSize := by omega
      rw [heq, if_neg hfew, doubled_self hpos]
      refine ⟨_, rfl, rfl, hmax, k + 1, hk', hdouble, .inl ?_⟩
      rw [length_append, length_singleton]
      show r.elements.length + 1 + 1 < 2 * r.size
      omega
    · have hmany : r.elements.length + 1 + 1 > r.maxSize := by omega
      rw [if_pos hmany]
      exact ⟨_, rfl, rfl, hmax, 10, le_rfl, hsize, .inr rfl⟩

theorem storeString_full (h : Room r) (offset : Nat) (hlen : 131072 ≤ r.elements.length) :
    storeString offset r = none := by
  obtain ⟨-, k, hk, hsize, -⟩ := h
  have hle : 2 ^ (7 + k) ≤ 2 ^ 17 := Nat.pow_le_pow_right (by omega) (by omega)
  rw [storeString, ReallocPtr.push, if_neg (by omega)]
  rfl

/-- The strings stored one after the other. -/
def storeStrings (offsets : List Nat) (r : ReallocPtr (Option Nat)) :
    Option (ReallocPtr (Option Nat)) :=
  offsets.foldlM (fun r offset => storeString offset r) r

theorem storeStrings_cons (offset : Nat) (offsets : List Nat) (r : ReallocPtr (Option Nat)) :
    storeStrings (offset :: offsets) r = (storeString offset r).bind (storeStrings offsets) := rfl

/-- **The array has room for 131071 strings.** -/
theorem storeStrings_push (h : Room r) (offsets : List Nat) :
    (((storeStrings offsets r).bind (·.push none)).map (·.elements)) =
      if r.elements.length + offsets.length < 131072 then
        some (r.elements ++ offsets.map some ++ [none])
      else none := by
  induction offsets generalizing r with
  | nil =>
    obtain ⟨-, k, hk, hsize, hroom⟩ := h
    have hle : 2 ^ (7 + k) ≤ 2 ^ 17 := Nat.pow_le_pow_right (by omega) (by omega)
    have hiff : r.elements.length < r.size ↔ r.elements.length < 131072 := by
      constructor
      · omega
      · rcases hroom with hless | rfl
        · omega
        · omega
    show ((r.push none).map (·.elements)) = _
    by_cases hlt : r.elements.length < r.size
    · rw [ReallocPtr.push, if_pos hlt, length_nil, Nat.add_zero, if_pos (hiff.mp hlt)]
      simp
    · rw [ReallocPtr.push, if_neg hlt, length_nil, Nat.add_zero, if_neg (hlt ∘ hiff.mpr)]
      rfl
  | cons offset offsets ih =>
    rw [storeStrings_cons]
    by_cases hlt : r.elements.length < 131072
    · obtain ⟨r', heq, helements, hroom⟩ := storeString_eq h offset hlt
      rw [heq, Option.bind_some, ih hroom, helements]
      simp only [length_append, length_cons, length_nil, map_cons,
        append_assoc, singleton_append]
      congr 1
      simp only [eq_iff_iff]
      omega
    · rw [storeString_full h offset (by omega), if_neg (by simp; omega)]
      rfl

/-! ## the strings that the loop finds -/

/-- The pointers that the loop stores, with `text_i` and the bytes from there on. -/
def found : Nat → Binary → List Nat
  | textI, b :: b' :: rest =>
      if b = 0 then (textI + 1) :: found (textI + 2) rest else found (textI + 1) (b' :: rest)
  | _, _ => []

theorem textKeyValueLoop_eq (h : text.length ≤ textI + fuel) (r : ReallocPtr (Option Nat)) :
    textKeyValueLoop text fuel textI r = storeStrings (found textI (text.drop textI)) r := by
  induction fuel generalizing textI r with
  | zero =>
    rw [drop_eq_nil_of_le (by omega)]
    rfl
  | succ fuel ih =>
    rw [textKeyValueLoop]
    by_cases hlt : textI < text.length - 1
    · have htext : text.drop textI = text[textI] :: text[textI + 1] :: text.drop (textI + 2) := by
        rw [drop_eq_getElem_cons (by omega), drop_eq_getElem_cons (by omega)]
      rw [if_pos hlt, getElem?_eq_getElem (by omega), htext, found]
      by_cases hb : text[textI] = 0
      · simp only [hb, if_true]
        rw [storeStrings_cons]
        congr 1
        funext r'
        exact ih (by omega) r'
      · simp only [hb, if_false]
        rw [ih (by omega) r, drop_eq_getElem_cons (by omega)]
    · have hnil : found textI (text.drop textI) = [] := by
        have hshort : (text.drop textI).length ≤ 1 := by
          rw [length_drop]
          omega
        match hdrop : text.drop textI with
        | [] => rfl
        | [b] => rfl
        | b :: b' :: rest =>
          rw [hdrop] at hshort
          simp only [length_cons] at hshort
          omega
      rw [if_neg hlt, hnil]
      rfl

/-- **What the parser returns**: the strings found, unless there are too many of them. -/
theorem textKeyValueParse_eq : textKeyValueParse text =
      if (found 1 text.tail).length + 1 < 131072 then
        some ((0 :: found 1 text.tail).map some ++ [none])
      else none := by
  have hroom : Room ({ elements := [some 0], size := 128, maxSize := 65536 } :
      ReallocPtr (Option Nat)) :=
    ⟨rfl, 0, by omega, rfl, .inl (by decide)⟩
  have hstart : (ReallocPtr.new (Option Nat) 8 16 8192).push (some 0) =
      some { elements := [some 0], size := 128, maxSize := 65536 } := by
    have hinitial : greaterPow2 8 16 = 128 := by decide +kernel
    have hmax : greaterPow2 8 8192 = 65536 := by decide +kernel
    rw [ReallocPtr.new, hinitial, hmax]
    rfl
  have hloop : (if text.length > 1 then textKeyValueLoop text text.length 1
      { elements := [some 0], size := 128, maxSize := 65536 }
      else some { elements := [some 0], size := 128, maxSize := 65536 }) =
      storeStrings (found 1 text.tail) { elements := [some 0], size := 128, maxSize := 65536 } := by
    match text with
    | [] => rfl
    | [b] => rfl
    | b :: b' :: rest =>
      rw [if_pos (by simp), textKeyValueLoop_eq _ (by omega)]
      rfl
  have hpush := storeStrings_push hroom (found 1 text.tail)
  rw [textKeyValueParse, hstart]
  dsimp only [Option.bind_some]
  rw [hloop, hpush, length_singleton, Nat.add_comm 1]
  rfl

/-! ## the strings of a text -/

/-- Each string with a null byte after it. -/
def joined (strings : List Binary) : Binary := strings.flatMap (· ++ [0])

/-- Where each string starts. -/
def starts : Nat → List Binary → List Nat
  | _, [] => []
  | offset, x :: strings => offset :: starts (offset + x.length + 1) strings

theorem joined_cons (x : Binary) (strings : List Binary) :
    joined (x :: strings) = x ++ 0 :: joined strings := by
  simp [joined]

theorem length_starts (offset : Nat) (strings : List Binary) :
    (starts offset strings).length = strings.length := by
  induction strings generalizing offset with
  | nil => rfl
  | cons x strings ih => rw [starts, length_cons, ih, length_cons]

/-- The loop goes on to the null byte, and past the first byte after it. -/
theorem found_append (hx : 0 ∉ x) (textI : Nat) (rest : Binary) : found textI (x ++ 0 :: rest) =
      if rest = [] then []
      else (textI + x.length + 1) :: found (textI + x.length + 2) rest.tail := by
  induction x generalizing textI with
  | nil =>
    match rest with
    | [] => rfl
    | b :: rest => rfl
  | cons b x ih =>
    have hb : b ≠ 0 := fun h => hx (h ▸ mem_cons_self)
    have hne : x ++ 0 :: rest ≠ [] := by simp
    obtain ⟨b', rest', heq⟩ := exists_cons_of_ne_nil hne
    rw [cons_append, heq, found, if_neg hb, ← heq,
      ih (fun h => hx (mem_cons_of_mem _ h)), length_cons]
    have hindex : textI + 1 + x.length = textI + (x.length + 1) := by omega
    rw [hindex]

/-- **All strings are found** when only the last one may be empty. -/
theorem found_joined (hx : 0 ∉ x) (hstrings : ∀ y ∈ strings, 0 ∉ y)
    (hempty : ∀ y ∈ strings.dropLast, y ≠ []) (textI : Nat) :
    found textI (x ++ 0 :: joined strings) = starts (textI + x.length + 1) strings := by
  induction strings generalizing x textI with
  | nil => rw [found_append hx, joined, flatMap_nil, if_pos rfl, starts]
  | cons y strings ih =>
    have hy : 0 ∉ y := hstrings y mem_cons_self
    have hrest : ∀ z ∈ strings, 0 ∉ z := fun z hz => hstrings z (mem_cons_of_mem _ hz)
    rw [found_append hx, joined_cons, if_neg (by simp), starts]
    congr 1
    match strings, y with
    | [], [] => rfl
    | strings, b :: y =>
      have hempty' : ∀ z ∈ strings.dropLast, z ≠ [] := by
        intro z hz
        cases strings with
        | nil => cases hz
        | cons z' strings => exact hempty z (mem_cons_of_mem _ hz)
      have hy' : 0 ∉ y := fun h => hy (mem_cons_of_mem _ h)
      rw [cons_append, tail_cons, ih hy' hrest hempty']
      congr 1
      rw [length_cons]
      omega
    | z :: strings, [] => exact absurd rfl (hempty [] mem_cons_self)

/-- An empty string that is not the last one hides the string after it. -/
theorem length_found_joined (hx : 0 ∉ x) (hstrings : ∀ y ∈ strings, 0 ∉ y) (textI : Nat) :
    (found textI (x ++ 0 :: joined strings)).length ≤ strings.length ∧
      ((found textI (x ++ 0 :: joined strings)).length = strings.length →
        ∀ y ∈ strings.dropLast, y ≠ []) := by
  induction hn : strings.length using Nat.strong_induction_on generalizing x strings textI with
  | _ n ih =>
    match strings with
    | [] =>
      rw [found_append hx, joined, flatMap_nil, if_pos rfl]
      exact ⟨Nat.zero_le _, fun _ y hy => by cases hy⟩
    | (b :: y) :: strings =>
      have hy : 0 ∉ y := fun h => hstrings (b :: y) mem_cons_self (mem_cons_of_mem _ h)
      have hrest : ∀ z ∈ strings, 0 ∉ z := fun z hz => hstrings z (mem_cons_of_mem _ hz)
      obtain ⟨hle, heq⟩ := ih strings.length (by rw [← hn, length_cons]; omega) hy hrest
        (textI + x.length + 2) rfl
      rw [found_append hx, joined_cons, if_neg (by simp), cons_append, tail_cons,
        length_cons, ← hn, length_cons]
      refine ⟨by omega, fun hlen z hz => ?_⟩
      cases strings with
      | nil => cases hz
      | cons z' strings =>
        rcases mem_cons.mp hz with rfl | hz
        · exact cons_ne_nil _ _
        · exact heq (by omega) z hz
    | [[]] =>
      rw [found_append hx, joined_cons, if_neg (by simp)]
      exact ⟨by rw [← hn]; simp [joined, found], fun _ y hy => by cases hy⟩
    | [] :: y :: strings =>
      have hy : 0 ∉ y := hstrings y (by simp)
      have hrest : ∀ z ∈ strings, 0 ∉ z := fun z hz => hstrings z (by simp [hz])
      obtain ⟨hle, -⟩ := ih strings.length (by rw [← hn]; simp only [length_cons]; omega) hy hrest
        (textI + x.length + 2) rfl
      rw [found_append hx, joined_cons, if_neg (by simp), nil_append, tail_cons,
        joined_cons, length_cons, ← hn, length_cons, length_cons]
      exact ⟨by omega, fun hlen => by omega⟩

theorem cString_append (hx : 0 ∉ x) (before rest : Binary) :
    cString (before ++ (x ++ 0 :: rest)) before.length = some x := by
  have hall : ∀ b ∈ x, decide (b ≠ 0) = true := by
    intro b hb
    have hne : b ≠ 0 := fun h => hx (h ▸ hb)
    simp [hne]
  rw [cString, drop_left, if_pos (by simp), takeWhile_append_of_pos hall,
    takeWhile_cons_of_neg (by simp), append_nil]

theorem map_cString_starts (h : ∀ x ∈ strings, 0 ∉ x) (before : Binary) :
    (starts before.length strings).map (cString (before ++ joined strings)) = strings.map some := by
  induction strings generalizing before with
  | nil => rfl
  | cons x strings ih =>
    have hnext := ih (fun y hy => h y (mem_cons_of_mem _ hy)) (before ++ x ++ [0])
    have hlen : (before ++ x ++ [0]).length = before.length + x.length + 1 := by
      simp
      omega
    rw [hlen] at hnext
    rw [starts, map_cons, map_cons, joined_cons,
      cString_append (h x mem_cons_self), ← hnext]
    simp

/-! ## text pairs -/

/-- The keys and the values, in order. -/
def strings (l : List (Binary × Binary)) : List Binary := l.flatMap fun p => [p.1, p.2]

theorem joined_strings (l : List (Binary × Binary)) : joined (strings l) = encode .textPairs l := by
  simp [joined, strings, encode, flatMap_assoc]

theorem length_strings (l : List (Binary × Binary)) : (strings l).length = 2 * l.length := by
  induction l with
  | nil => rfl
  | cons p l ih =>
    rw [strings, flatMap_cons, length_append, ← strings, ih]
    simp
    omega

/-- Only the last value may be empty. -/
theorem strings_dropLast (hkeys : ∀ p ∈ l, p.1 ≠ []) :
    (∀ x ∈ (v :: strings l).dropLast, x ≠ []) ↔ ∀ p ∈ ((k, v) :: l).dropLast, p.2 ≠ [] := by
  induction l generalizing k v with
  | nil => simp [strings]
  | cons p l ih =>
    have hnext := ih (k := p.1) (v := p.2) fun q hq => hkeys q (mem_cons_of_mem _ hq)
    have hk : p.1 ≠ [] := hkeys p mem_cons_self
    have hstrings : (v :: strings (p :: l)).dropLast = v :: p.1 :: (p.2 :: strings l).dropLast := by
      rw [strings, flatMap_cons]
      rfl
    have hpairs : ((k, v) :: p :: l).dropLast = (k, v) :: (p :: l).dropLast := rfl
    rw [hstrings, hpairs]
    simp only [forall_mem_cons]
    constructor
    · rintro ⟨hv, -, hrest⟩
      exact ⟨hv, hnext.mp hrest⟩
    · rintro ⟨hv, hrest⟩
      exact ⟨hv, hk, hnext.mpr hrest⟩

theorem parsesTo_joined (hpairs : ∀ p ∈ pairs, Encodable .textPairs p) :
    ParsesTo (joined (strings pairs)) (strings pairs) ↔
      pairs ≠ [] ∧ pairs.length ≤ 65535 ∧ ∀ p ∈ pairs.dropLast, p.2 ≠ [] := by
  have hnone : ∀ x ∈ strings pairs, 0 ∉ x := by
    intro x hx
    obtain ⟨p, hp, hxp⟩ := mem_flatMap.mp hx
    obtain ⟨-, hk, hv⟩ := hpairs p hp
    rcases mem_pair.mp hxp with rfl | rfl
    · exact hk
    · exact hv
  match pairs with
  | [] =>
    refine ⟨fun ⟨offsets, hparse, hstrings⟩ => ?_, fun h => absurd rfl h.1⟩
    have hoffsets : offsets.map some ++ [none] = [some 0, none] := by
      rw [textKeyValueParse_eq] at hparse
      exact (Option.some.inj hparse).symm
    cases offsets with
    | nil => cases hoffsets
    | cons offset offsets => cases hstrings
  | (k, v) :: pairs =>
    obtain ⟨hne, hk, -⟩ := hpairs (k, v) mem_cons_self
    obtain ⟨b, k, rfl⟩ := exists_cons_of_ne_nil hne
    have hk' : 0 ∉ k := fun h => hk (mem_cons_of_mem _ h)
    have hkeys : ∀ p ∈ pairs, p.1 ≠ [] := fun p hp => (hpairs p (mem_cons_of_mem _ hp)).1
    have hcons : strings ((b :: k, v) :: pairs) = (b :: k) :: v :: strings pairs := rfl
    have hrest : ∀ x ∈ v :: strings pairs, 0 ∉ x := fun x hx =>
      hnone x (hcons ▸ mem_cons_of_mem _ hx)
    have htail : (joined (strings ((b :: k, v) :: pairs))).tail =
        k ++ 0 :: joined (v :: strings pairs) := by
      rw [hcons, joined_cons]
      rfl
    have hcount : (v :: strings pairs).length = 2 * pairs.length + 1 := by
      rw [length_cons, length_strings]
    obtain ⟨-, hall⟩ := length_found_joined hk' hrest 1
    constructor
    · rintro ⟨offsets, hparse, hstrings⟩
      rw [textKeyValueParse_eq, htail] at hparse
      by_cases hfew : (found 1 (k ++ 0 :: joined (v :: strings pairs))).length + 1 < 131072
      · rw [if_pos hfew, Option.some.injEq] at hparse
        have hoffsets := append_inj_left' hparse rfl
        have hlen : (found 1 (k ++ 0 :: joined (v :: strings pairs))).length =
            (v :: strings pairs).length := by
          have h1 := congrArg List.length hoffsets
          have h2 := congrArg List.length hstrings
          simp only [length_map, length_cons, hcons] at h1 h2
          simp only [length_cons]
          omega
        refine ⟨cons_ne_nil _ _, ?_, (strings_dropLast hkeys).mp (hall hlen)⟩
        rw [length_cons]
        omega
      · rw [if_neg hfew] at hparse
        cases hparse
    · rintro ⟨-, hmany, hempty⟩
      have hfound := found_joined hk' hrest ((strings_dropLast hkeys).mpr hempty) 1
      have hstarts : 0 :: found 1 (k ++ 0 :: joined (v :: strings pairs)) =
          starts 0 (strings ((b :: k, v) :: pairs)) := by
        have hindex : 1 + k.length + 1 = 0 + (b :: k).length + 1 := by
          rw [length_cons]
          omega
        rw [hfound, hcons, hindex]
        rfl
      refine ⟨starts 0 (strings ((b :: k, v) :: pairs)), ?_, map_cString_starts hnone []⟩
      rw [textKeyValueParse_eq, htail, hstarts, if_pos]
      rw [hfound, length_starts, hcount]
      rw [length_cons] at hmany
      omega

/-- **When the C API finds the text pairs**: there are pairs, not more than 65535 of them, and only
the last value may be empty. -/
theorem parsesTo_iff {l : List (Key × Value)} {text : Binary}
    (hl : ∀ p ∈ bytesOf l, Encodable .textPairs p) (htext : keyValueNew l .textPairs = some text) :
    ParsesTo text (strings (bytesOf l)) ↔
      l ≠ [] ∧ l.length ≤ 65535 ∧ ∀ p ∈ (bytesOf l).dropLast, p.2 ≠ [] := by
  rw [keyValueNew, textPairsListToBinary_eq hl, Option.some.injEq] at htext
  have hlen : (bytesOf l).length = l.length := length_map _
  have hnil : bytesOf l ≠ [] ↔ l ≠ [] := not_congr map_eq_nil_iff
  rw [← hlen, ← htext, ← joined_strings, ← hnil]
  exact parsesTo_joined hl

/-- Two pairs, with no empty value. -/
def samplePairs : List (Key × Value) :=
  [(.binary [97], .binary [49]), (.binary [98], .binary [50, 51])]

theorem parsesTo_iff_samplePairs :
    ParsesTo [97, 0, 49, 0, 98, 0, 50, 51, 0] [[97], [49], [98], [50, 51]] :=
  (parsesTo_iff (l := samplePairs)
    (by simp [samplePairs, bytesOf, keyToBinary, valueToBinary, RequestInfo.Encodable])
    (by decide)).mpr (by decide)

/-- **An empty value hides the next key.** -/
theorem emptyValue_hides_key :
    keyValueNew [(.binary [97], .binary []), (.binary [98], .binary [49])] .textPairs =
        some [97, 0, 0, 98, 0, 49, 0] ∧
      textKeyValueParse [97, 0, 0, 98, 0, 49, 0] = some [some 0, some 2, some 5, none] ∧
      ¬ ParsesTo [97, 0, 0, 98, 0, 49, 0] [[97], [], [98], [49]] := by
  refine ⟨by decide, by decide +kernel, fun ⟨offsets, hparse, hstrings⟩ => ?_⟩
  have hfixed : textKeyValueParse [97, 0, 0, 98, 0, 49, 0] = some [some 0, some 2, some 5, none] := by
    decide +kernel
  rw [hfixed, Option.some.injEq] at hparse
  have h1 := congrArg List.length hparse
  have h2 := congrArg List.length hstrings
  simp at h1 h2
  omega

end CloudI.ApiC
