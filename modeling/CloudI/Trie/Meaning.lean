import CloudI.Trie.Basic

/-!
# Trie.Meaning

What a trie stands for: `meaning k e` is the value that the element `e` holds
for the rest `k` of a key.  It is a finite map, whatever the shape of the trie.

`Formed` is the well-formedness that every operation keeps: a node has an element
for each character of its range.  `Fits` is the well-formedness of a trie without
erased keys, where a suffix that is not empty has a value too.
-/

namespace CloudI.Trie

open List

variable {V : Type}

/-- The value of an element for the rest of a key. -/
def meaning : List Nat → Element V → Option V
  | k, (.str s, v) => if k = s then v else none
  | [], (.node .., v) => v
  | h :: k, (.node i0 i1 data, _) =>
      if h < i0 ∨ h > i1 then none
      else match data[h - i0]? with
        | none => none
        | some e => meaning k e

/-- An element whose nodes have an element for each character of their range. -/
inductive Formed : Element V → Prop
  | str : Formed (.str s, v)
  | node (hlen : data.length = i1 + 1 - i0) (hle : i0 ≤ i1) (hdata : ∀ e ∈ data, Formed e) :
      Formed (.node i0 i1 data, v)

/-- A well-formed trie: a node, or the empty trie. -/
structure Rooted (n : Tree V) : Prop where
  formed : Formed (n, (none : Option V))
  root : ∀ s, n = .str s → s = []

/-- A well-formed element without erased keys. -/
inductive Fits : Element V → Prop
  | str (hvalue : s ≠ [] → v.isSome) : Fits (.str s, v)
  | node (hlen : data.length = i1 + 1 - i0) (hle : i0 ≤ i1) (hdata : ∀ e ∈ data, Fits e) :
      Fits (.node i0 i1 data, v)

theorem fits_hole : Fits (hole : Element V) := .str (absurd rfl ·)

theorem fits_suffix (t : List Nat) (v : V) : Fits (.str t, some v) := .str fun _ => rfl

theorem Fits.value (h : Fits (.node i0 i1 data, v)) (w : Option V) :
    Fits (.node i0 i1 data, w) := by
  cases h with
  | node hlen hle hdata => exact .node hlen hle hdata

theorem Fits.elements (h : Fits (.node i0 i1 data, v)) : ∀ e ∈ data, Fits e := by
  cases h with
  | node hlen hle hdata => exact hdata

theorem Fits.suffix (h : Fits (.str (bh :: bt), v)) : ∃ x : V, v = some x := by
  cases h with
  | str hvalue => exact Option.isSome_iff_exists.mp (hvalue (cons_ne_nil bh bt))

theorem Formed.value (h : Formed (.node i0 i1 data, v)) (w : Option V) :
    Formed (.node i0 i1 data, w) := by
  cases h with
  | node hlen hle hdata => exact .node hlen hle hdata

theorem Formed.elements (h : Formed (.node i0 i1 data, v)) : ∀ e ∈ data, Formed e := by
  cases h with
  | node hlen hle hdata => exact hdata

theorem Formed.length (h : Formed (.node i0 i1 data, v)) : data.length = i1 + 1 - i0 := by
  cases h with
  | node hlen hle hdata => exact hlen

theorem Formed.le (h : Formed (.node i0 i1 data, v)) : i0 ≤ i1 := by
  cases h with
  | node hlen hle hdata => exact hle

theorem Fits.formed (h : Fits e) : Formed e := by
  induction h with
  | str hvalue => exact .str
  | node hlen hle hdata ih => exact .node hlen hle ih

theorem Fits.length (h : Fits (.node i0 i1 data, v)) : data.length = i1 + 1 - i0 :=
  h.formed.length

theorem Fits.le (h : Fits (.node i0 i1 data, v)) : i0 ≤ i1 := h.formed.le

theorem Fits.rooted (h : Fits (n, none)) : Rooted n := by
  refine ⟨h.formed, fun s hs => ?_⟩
  subst hs
  cases s with
  | nil => rfl
  | cons bh bt =>
    obtain ⟨x, hx⟩ := h.suffix
    cases hx

/-! ## the meaning of a node -/

@[simp] theorem meaning_str (k s : List Nat) (v : Option V) :
    meaning k (.str s, v) = if k = s then v else none := by
  cases k <;> rw [meaning]

@[simp] theorem meaning_nil_node (i0 i1 : Nat) (data : List (Element V)) (v : Option V) :
    meaning [] (.node i0 i1 data, v) = v := rfl

theorem meaning_hole (k : List Nat) : meaning k (hole : Element V) = none := by
  simp [hole]

theorem meaning_cons_node (h : Nat) (k : List Nat) (i0 i1 : Nat) (data : List (Element V))
    (v : Option V) : meaning (h :: k) (.node i0 i1 data, v) =
      if h < i0 ∨ h > i1 then none else (data[h - i0]?).bind (meaning k) := by
  rw [meaning]
  cases data[h - i0]? <;> rfl

theorem Formed.getElem? (h : Formed (.node i0 i1 data, v)) (hc : ¬ (c < i0 ∨ c > i1)) :
    ∃ e, data[c - i0]? = some e ∧ Formed e ∧ ∀ k, meaning (c :: k) (.node i0 i1 data, v) =
      meaning k e := by
  cases h with
  | node hlen hle hdata =>
    have hlt : c - i0 < data.length := by omega
    have hget : data[c - i0]? = some data[c - i0] := getElem?_eq_getElem hlt
    refine ⟨data[c - i0], hget, hdata _ (getElem_mem hlt), fun k => ?_⟩
    rw [meaning_cons_node, if_neg hc, hget]
    rfl

theorem Fits.getElem? (h : Fits (.node i0 i1 data, v)) (hc : ¬ (c < i0 ∨ c > i1)) :
    ∃ e, data[c - i0]? = some e ∧ Fits e ∧ ∀ k, meaning (c :: k) (.node i0 i1 data, v) =
      meaning k e := by
  obtain ⟨e, hget, -, hmeaning⟩ := h.formed.getElem? hc
  exact ⟨e, hget, h.elements e (mem_of_getElem? hget), hmeaning⟩

theorem meaning_out_of_range (hc : c < i0 ∨ c > i1) :
    meaning (c :: k) (.node i0 i1 data, v) = none := by
  rw [meaning_cons_node, if_pos hc]

/-! ## find, fetch and is_key -/

theorem findNode_eq (h : Formed (.node i0 i1 data, v)) :
    findNode t c (.node i0 i1 data) = some (meaning (c :: t) (.node i0 i1 data, v)) := by
  induction t generalizing c i0 i1 data v with
  | nil =>
    rw [findNode]
    by_cases hc : c < i0 ∨ c > i1
    · rw [if_pos hc, meaning_out_of_range hc]
    · obtain ⟨e, hget, hfits, hmeaning⟩ := h.getElem? hc
      rw [if_neg hc, hget, hmeaning]
      match e with
      | (.node j0 j1 data, value) => rfl
      | (.str [], value) => simp
      | (.str (bh :: bt), value) => simp
  | cons h1 t1 ih =>
    rw [findNode]
    by_cases hc : c < i0 ∨ c > i1
    · rw [if_pos hc, meaning_out_of_range hc]
    · obtain ⟨e, hget, hfits, hmeaning⟩ := h.getElem? hc
      rw [if_neg hc, hget, hmeaning]
      match e with
      | (.node j0 j1 data, value) => exact ih hfits
      | (.str s, value) =>
        simp only [meaning_str, eq_comm (a := s)]
        split <;> rfl

/-- `find/2` answers the meaning of the trie. -/
theorem find_eq (h : Rooted n) : find c t n = some (meaning (c :: t) (n, none)) := by
  match n with
  | .str [] => simp [find]
  | .str (bh :: bt) => exact absurd (h.root _ rfl) (cons_ne_nil bh bt)
  | .node i0 i1 data => exact findNode_eq h.formed

theorem fetchNode_eq_join (t : List Nat) (c : Nat) (n : Tree V) :
    fetchNode t c n = (findNode t c n).join := by
  fun_induction findNode t c n <;> grind [fetchNode]

/-- `fetch/2` answers the value, and raises an exception when there is none. -/
theorem fetch_eq (h : Rooted n) : fetch c t n = meaning (c :: t) (n, none) := by
  match n with
  | .str [] =>
    rw [fetch]
    cases t <;> simp [fetchNode]
  | .str (bh :: bt) => exact absurd (h.root _ rfl) (cons_ne_nil bh bt)
  | .node i0 i1 data => rw [fetch, fetchNode_eq_join, findNode_eq h.formed, Option.join_some]

theorem isKeyNode_eq_map (t : List Nat) (c : Nat) (n : Tree V) :
    isKeyNode t c n = (findNode t c n).map Option.isSome := by
  fun_induction findNode t c n <;> grind [isKeyNode]

/-- `is_key/2` answers whether there is a value. -/
theorem isKey_eq (h : Rooted n) : isKey c t n = some (meaning (c :: t) (n, none)).isSome := by
  match n with
  | .str [] => simp [isKey]
  | .str (bh :: bt) => exact absurd (h.root _ rfl) (cons_ne_nil bh bt)
  | .node i0 i1 data => rw [isKey, isKeyNode_eq_map, findNode_eq h.formed, Option.map_some]; simp

end CloudI.Trie
