import CloudI.Trie.Stored

/-!
# Trie.Deletion

What `erase/2`, `take/2` and `update/3` do to the meaning of a trie, also of one
with erased keys.  `erase/2` and `take/2` delete the key of the element where
the characters end, which is longer than the key asked for when the element has
a suffix; `update/3` applies its function to the value of that element, which a
node may lack.
-/

namespace CloudI.Trie

open List

variable {V : Type}

/-- The element that the last character of a key selects. -/
def endElement : List Nat → Nat → Tree V → Option (Element V)
  | _, _, .str _ => none
  | [], h, .node i0 i1 data => child h i0 i1 data
  | h1 :: t1, h, .node i0 i1 data =>
      match child h i0 i1 data with
      | some (.node j0 j1 below, _) => endElement t1 h1 (.node j0 j1 below)
      | _ => none

/-- The characters of the key end at a suffix that goes on, with a value. -/
def EndsInSuffix (c : Nat) (t : List Nat) (n : Tree V) : Prop :=
  ∃ b s x, endElement t c n = some (.str (b :: s), some x)

/-- The characters of the key end at a node without a value of its own. -/
def EndsAtBareNode (c : Nat) (t : List Nat) (n : Tree V) : Prop :=
  ∃ i0 i1 data, endElement t c n = some (.node i0 i1 data, none)

/-! ## one element replaced -/

variable {data : List (Element V)}

/-- A node with one element replaced, where the element changes the value of one key. -/
theorem set_spec (e' : Element V) (h : Formed (.node i0 i1 data, w)) (hc : ¬ (c < i0 ∨ c > i1))
    (hget : data[c - i0]? = some e) (hformed : Formed e')
    (hmeaning : ∀ k, meaning k e' = if k = t then x else meaning k e) :
    Formed (.node i0 i1 (data.set (c - i0) e'), w) ∧
      ∀ k, meaning k (.node i0 i1 (data.set (c - i0) e'), w) =
        if k = c :: t then x else meaning k (.node i0 i1 data, w) := by
  have hchild := child_eq_some hc hget
  constructor
  · refine .node (by rw [length_set, h.length]) h.le fun y hy => ?_
    rcases mem_or_eq_of_mem_set hy with hy | rfl
    · exact h.elements y hy
    · exact hformed
  · refine meaning_put_child (e := e') (fun a k => ?_) fun k => ?_
    · rw [child_set h.length hc]
      by_cases ha : a = c
      · rw [if_pos ha, if_pos ha, Option.bind_some]
      · rw [if_neg ha, if_neg ha]
    · rw [hmeaning, hchild, Option.bind_some]

theorem meaning_without (s k : List Nat) (x : Option V) :
    meaning k (hole : Element V) = if k = s then none else meaning k (.str s, x) := by
  rw [meaning_hole, meaning_str]
  split <;> rfl

theorem meaning_new_value (s k : List Nat) (v : V) (x : Option V) :
    meaning k (.str s, some v) = if k = s then some v else meaning k (.str s, x) := by
  rw [meaning_str, meaning_str]
  split <;> rfl

theorem meaning_node_value (k : List Nat) (i0 i1 : Nat) (data : List (Element V)) (v w : Option V) :
    meaning k (.node i0 i1 data, w) = if k = [] then w else meaning k (.node i0 i1 data, v) := by
  cases k with
  | nil => rfl
  | cons c k => rw [meaning_child, meaning_child, if_neg (cons_ne_nil c k)]

/-! ## take_node and erase_node -/

/-- The element `e'` is `e` without the key `k`, whose value was `x`. -/
structure Deletes (k : List Nat) (x : V) (e e' : Element V) : Prop where
  value : meaning k e = some x
  formed : Formed e'
  meaning_eq : ∀ j, meaning j e' = if j = k then none else meaning j e

/-- **Step lemma**: `take_node/3` deletes the key where the characters end,
with the rest `s` of a suffix that goes on. -/
theorem takeNode_spec (h : Formed (.node i0 i1 data, w)) :
    (takeNode t c (.node i0 i1 data) = some none ∧ meaning (c :: t) (.node i0 i1 data, w) = none ∧
      ¬ EndsInSuffix c t (.node i0 i1 data)) ∨
    ∃ x data' s, takeNode t c (.node i0 i1 data) = some (some (x, .node i0 i1 data')) ∧
      Deletes (c :: t ++ s) x (.node i0 i1 data, w) (.node i0 i1 data', w) ∧
      (EndsInSuffix c t (.node i0 i1 data) ↔ s ≠ []) := by
  induction t generalizing c i0 i1 data w with
  | nil =>
    rw [takeNode]
    by_cases hc : c < i0 ∨ c > i1
    · refine .inl ⟨if_pos hc, meaning_out_of_range hc, ?_⟩
      simp [EndsInSuffix, endElement, child_out hc]
    obtain ⟨e, hget, hformed, hmeaning⟩ := h.getElem? hc
    have hchild := child_eq_some hc hget
    rw [if_neg hc, hget]
    obtain ⟨n, value⟩ := e
    cases value with
    | none =>
      refine .inl ⟨?_, ?_, by simp [EndsInSuffix, endElement, hchild]⟩
      · cases n with
        | node j0 j1 below => rfl
        | str s => cases s <;> rfl
      · rw [hmeaning]
        cases n <;> simp
    | some x =>
      cases n with
      | node j0 j1 below =>
        have hset := set_spec _ h hc hget (hformed.value none) fun k =>
          meaning_node_value k j0 j1 below (some x) none
        refine .inr ⟨x, _, [], rfl, ⟨hmeaning [], hset.1, hset.2⟩, ?_⟩
        simp [EndsInSuffix, endElement, hchild]
      | str s =>
        cases s with
        | nil =>
          have hset := set_spec hole h hc hget .str fun k => meaning_without [] k (some x)
          refine .inr ⟨x, _, [], rfl, ⟨by rw [append_nil, hmeaning]; simp, hset.1, hset.2⟩, ?_⟩
          simp [EndsInSuffix, endElement, hchild]
        | cons b s =>
          have hset := set_spec (.str (b :: s), none) h hc hget .str fun k => by
            rw [← meaning_without (b :: s) k (some x), meaning_hole, meaning_str, ite_self]
          refine .inr ⟨x, _, b :: s, rfl, ⟨by rw [singleton_append, hmeaning]; simp, hset.1,
            hset.2⟩, ?_⟩
          simp [EndsInSuffix, endElement, hchild]
  | cons h1 t1 ih =>
    rw [takeNode]
    by_cases hc : c < i0 ∨ c > i1
    · refine .inl ⟨if_pos hc, meaning_out_of_range hc, ?_⟩
      simp [EndsInSuffix, endElement, child_out hc]
    obtain ⟨e, hget, hformed, hmeaning⟩ := h.getElem? hc
    have hchild := child_eq_some hc hget
    rw [if_neg hc, hget]
    obtain ⟨n, value⟩ := e
    cases n with
    | str s =>
      have hends : ¬ EndsInSuffix c (h1 :: t1) (.node i0 i1 data) := by
        simp [EndsInSuffix, endElement, hchild]
      by_cases hs : s = h1 :: t1
      · subst hs
        cases value with
        | none => exact .inl ⟨by simp, by rw [hmeaning]; simp, hends⟩
        | some x =>
          have hset := set_spec hole h hc hget .str fun k =>
            meaning_without (h1 :: t1) k (some x)
          refine .inr ⟨x, _, [], by simp, ⟨?_, hset.1, ?_⟩, by simp [hends]⟩
          · rw [append_nil, hmeaning]
            simp
          · rw [append_nil]
            exact hset.2
      · refine .inl ⟨by simp [hs], ?_, hends⟩
        rw [hmeaning, meaning_str, if_neg fun h => hs h.symm]
    | node j0 j1 below =>
      have hends : EndsInSuffix c (h1 :: t1) (.node i0 i1 data) ↔
          EndsInSuffix h1 t1 (.node j0 j1 below) := by
        simp only [EndsInSuffix, endElement, hchild]
      rcases ih (c := h1) hformed with ⟨htake, hnone, hnot⟩ | ⟨x, below', s, htake, hdel, hiff⟩
      · exact .inl ⟨by simp [htake], by rw [hmeaning, hnone], by rwa [hends]⟩
      · have hset := set_spec _ h hc hget hdel.formed hdel.meaning_eq
        refine .inr ⟨x, _, s, by simp [htake], ⟨?_, hset.1, hset.2⟩, by rw [hends, hiff]⟩
        rw [cons_append, hmeaning, hdel.value]

/-- `erase_node/3` deletes what `take_node/3` takes. -/
theorem eraseNode_eq (n : Tree V) :
    eraseNode t c n = (takeNode t c n).map fun r => r.elim n Prod.snd := by
  fun_induction takeNode t c n with
  | case12 h1 t1 c i0 i1 data hc j0 j1 below value hget ih =>
    -- an unchanged child leaves the node unchanged
    have hsame : data.set (c - i0) (.node j0 j1 below, value) = data := by
      obtain ⟨hlt, heq⟩ := List.getElem?_eq_some_iff.mp hget
      rw [← heq, set_getElem_self]
    rw [eraseNode, if_neg hc, hget]
    simp only [ih]
    cases takeNode t1 h1 (.node j0 j1 below) with
    | none => rfl
    | some r => cases r <;> simp [hsame]
  | _ => simp [eraseNode, *]

theorem erase_eq (n : Tree V) : erase c t n = (take c t n).map fun r => r.elim n Prod.snd := by
  match n with
  | .str [] => rfl
  | .str (b :: s) => exact eraseNode_eq _
  | .node i0 i1 data => exact eraseNode_eq _

/-! ## update_node -/

/-- **Step lemma**: `update_node/4` applies its function to the value of the key,
or to the `error` of a node without a value. -/
theorem updateStrictNode_spec (f : Option V → Option V) (h : Formed (.node i0 i1 data, w)) :
    (updateStrictNode f t c (.node i0 i1 data) = none ∧
      meaning (c :: t) (.node i0 i1 data, w) = none ∧
      ¬ EndsAtBareNode c t (.node i0 i1 data)) ∨
    ∃ x r, updateStrictNode f t c (.node i0 i1 data) = some (x, r) ∧
      meaning (c :: t) (.node i0 i1 data, w) = x ∧
      (EndsAtBareNode c t (.node i0 i1 data) ↔ x = none) ∧
      ((f x = none ∧ r = none) ∨ ∃ v data', f x = some v ∧ r = some (.node i0 i1 data') ∧
        Formed (.node i0 i1 data', w) ∧ ∀ k, meaning k (.node i0 i1 data', w) =
          if k = c :: t then some v else meaning k (.node i0 i1 data, w)) := by
  induction t generalizing c i0 i1 data w with
  | nil =>
    rw [updateStrictNode]
    by_cases hc : c < i0 ∨ c > i1
    · refine .inl ⟨if_pos hc, meaning_out_of_range hc, ?_⟩
      simp [EndsAtBareNode, endElement, child_out hc]
    obtain ⟨e, hget, hformed, hmeaning⟩ := h.getElem? hc
    have hchild := child_eq_some hc hget
    rw [if_neg hc, hget]
    obtain ⟨n, value⟩ := e
    cases n with
    | node j0 j1 below =>
      refine .inr ⟨value, _, rfl, hmeaning [], ?_, ?_⟩
      · simp [EndsAtBareNode, endElement, hchild]
      · cases hf : f value with
        | none => exact .inl ⟨rfl, rfl⟩
        | some v =>
          have hset := set_spec _ h hc hget (hformed.value (some v)) fun k =>
            meaning_node_value k j0 j1 below value (some v)
          exact .inr ⟨v, _, rfl, rfl, hset.1, hset.2⟩
    | str s =>
      cases s with
      | nil =>
        cases value with
        | some x =>
          refine .inr ⟨some x, _, rfl, ?_, ?_, ?_⟩
          · rw [hmeaning]
            simp
          · simp [EndsAtBareNode, endElement, hchild]
          · cases hf : f (some x) with
            | none => exact .inl ⟨rfl, rfl⟩
            | some v =>
              have hset := set_spec (.str [], some v) h hc hget .str fun k =>
                meaning_new_value [] k v (some x)
              exact .inr ⟨v, _, rfl, rfl, hset.1, hset.2⟩
        | none =>
          refine .inl ⟨rfl, ?_, by simp [EndsAtBareNode, endElement, hchild]⟩
          rw [hmeaning]
          simp
      | cons b s =>
        refine .inl ⟨by cases value <;> rfl, ?_, by simp [EndsAtBareNode, endElement, hchild]⟩
        rw [hmeaning]
        simp
  | cons h1 t1 ih =>
    rw [updateStrictNode]
    by_cases hc : c < i0 ∨ c > i1
    · refine .inl ⟨if_pos hc, meaning_out_of_range hc, ?_⟩
      simp [EndsAtBareNode, endElement, child_out hc]
    obtain ⟨e, hget, hformed, hmeaning⟩ := h.getElem? hc
    have hchild := child_eq_some hc hget
    rw [if_neg hc, hget]
    obtain ⟨n, value⟩ := e
    cases n with
    | str s =>
      have hends : ¬ EndsAtBareNode c (h1 :: t1) (.node i0 i1 data) := by
        simp [EndsAtBareNode, endElement, hchild]
      cases value with
      | none => exact .inl ⟨rfl, by rw [hmeaning]; simp, hends⟩
      | some x =>
        by_cases hs : s = h1 :: t1
        · subst hs
          refine .inr ⟨some x, _, if_pos rfl, by rw [hmeaning]; simp, by simp [hends], ?_⟩
          cases hf : f (some x) with
          | none => exact .inl ⟨rfl, rfl⟩
          | some v =>
            have hset := set_spec (.str (h1 :: t1), some v) h hc hget .str
              fun k => meaning_new_value (h1 :: t1) k v (some x)
            exact .inr ⟨v, _, rfl, rfl, hset.1, hset.2⟩
        · refine .inl ⟨if_neg hs, ?_, hends⟩
          rw [hmeaning, meaning_str, if_neg fun h => hs h.symm]
    | node j0 j1 below =>
      have hends : EndsAtBareNode c (h1 :: t1) (.node i0 i1 data) ↔
          EndsAtBareNode h1 t1 (.node j0 j1 below) := by
        simp only [EndsAtBareNode, endElement, hchild]
      rcases ih (c := h1) hformed with
        ⟨hupdate, hnone, hnot⟩ | ⟨x, r, hupdate, hx, hbare, hr⟩
      · exact .inl ⟨by simp [hupdate], by rw [hmeaning, hnone], by rwa [hends]⟩
      · refine .inr ⟨x, r.map fun n => .node i0 i1 (data.set (c - i0) (n, value)),
          by simp [hupdate], by rw [hmeaning, hx], by rw [hends, hbare], ?_⟩
        rcases hr with ⟨hf, rfl⟩ | ⟨v, below', hf, rfl, hformed', hbelow⟩
        · exact .inl ⟨hf, rfl⟩
        · have hset := set_spec _ h hc hget hformed' hbelow
          exact .inr ⟨v, _, hf, rfl, hset.1, hset.2⟩

end CloudI.Trie
