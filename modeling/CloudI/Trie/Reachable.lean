import CloudI.Trie.Deletion
import CloudI.Trie.Traverse

/-!
# Trie.Reachable

The tries that any sequence of operations makes, erased keys included.  All of
them are well formed, so that what one `erase/2`, `take/2` or `update/3` does is
known in every one of them.
-/

namespace CloudI.Trie

open List Option

variable {V : Type}

/-- **A trie made by operations.**  The other operations that answer a trie are
made of these: `new/1` and `store/2` of `store/3`; `append/3`, `append_list/3`,
`prefix/3` and `update_counter/3` of `update/4`; `erase_similar/2` of `erase/2`. -/
inductive Reachable : Tree V → Prop
  | new : Reachable new
  | store (h : Reachable n) (hn : store c t value n = some n') : Reachable n'
  | update (h : Reachable n) (hn : update c t f initial n = some n') : Reachable n'
  | updateStrict (h : Reachable n) (hn : updateStrict c t f n = some (x, some n')) :
      Reachable n'
  | erase (h : Reachable n) (hn : erase c t n = some n') : Reachable n'
  | take (h : Reachable n) (hn : take c t n = some (some (x, n'))) : Reachable n'
  | map (h : Reachable n) (f : List Nat → V → V) : Reachable (map f n)
  | filter (h : Reachable n) (f : List Nat → V → Bool) : Reachable (filter f n)
  | merge (h1 : Reachable n1) (h2 : Reachable n2) (hn : merge f n1 n2 = some n') :
      Reachable n'

/-! ## the operations keep a trie well formed -/

theorem rooted_new : Rooted (new : Tree V) := ⟨.str, fun s hs => by cases hs; rfl⟩

theorem Formed.rooted (h : Formed (.node i0 i1 data, none)) :
    Rooted (.node i0 i1 data) := ⟨h, fun s hs => by cases hs⟩

theorem formed_split (bh : Nat) (bt : List Nat) (x w : Option V) :
    Formed ((.node bh bh [(.str bt, x)], w) : Element V) :=
  .node (by simp) (Nat.le_refl bh) (by simp [Formed.str])

theorem putAt_formed (h : Formed (.node i0 i1 data, w))
    (hput : ∀ e ∈ data, ∀ r, put e = some r → Formed r) (hn : putAt c t a put i0 i1 data = some n) :
    ∃ j0 j1 data', n = .node j0 j1 data' ∧ Formed (.node j0 j1 data', w) := by
  obtain ⟨j0, j1, data', rfl, hdata, hlen, hle⟩ :=
    putAt_elements .str (fun _ => .str) h.elements hput h.length h.le hn
  exact ⟨j0, j1, data', rfl, .node hlen hle hdata⟩

/-- `store_node/4` and `update_node/5` keep a node well formed. -/
theorem putNode_formed (g : Option V → Option V) (onError : Option V)
    (h : Formed (.node i0 i1 data, w)) (hn : putNode g onError t c (.node i0 i1 data) = some n) :
    ∃ j0 j1 data', n = .node j0 j1 data' ∧ Formed (.node j0 j1 data', w) := by
  induction t generalizing c i0 i1 data w n with
  | nil =>
    rw [putNode] at hn
    refine putAt_formed h (fun e he r hr => ?_) hn
    obtain ⟨n, value⟩ := e
    cases n with
    | node j0 j1 below =>
      obtain ⟨v, -, rfl⟩ := map_eq_some_iff.mp hr
      exact (h.elements _ he).value _
    | str s =>
      cases s with
      | nil =>
        obtain ⟨v, -, rfl⟩ := map_eq_some_iff.mp hr
        exact .str
      | cons bh bt =>
        obtain ⟨v, -, rfl⟩ := map_eq_some_iff.mp hr
        exact formed_split bh bt value _
  | cons h1 t1 ih =>
    rw [putNode] at hn
    refine putAt_formed h (fun e he r hr => ?_) hn
    obtain ⟨n, value⟩ := e
    cases n with
    | node j0 j1 below =>
      obtain ⟨n, hn, rfl⟩ := map_eq_some_iff.mp hr
      obtain ⟨k0, k1, data', rfl, hformed⟩ := ih (h.elements _ he) hn
      exact hformed
    | str s =>
      by_cases hs : s = h1 :: t1
      · simp only [if_pos hs] at hr
        obtain ⟨v, -, rfl⟩ := map_eq_some_iff.mp hr
        exact .str
      simp only [if_neg hs] at hr
      cases s with
      | nil =>
        cases value with
        | none =>
          obtain ⟨v, -, rfl⟩ := map_eq_some_iff.mp hr
          exact .str
        | some v0 =>
          obtain ⟨v, -, rfl⟩ := map_eq_some_iff.mp hr
          exact formed_split h1 t1 _ _
      | cons bh bt =>
        obtain ⟨n, hn, rfl⟩ := map_eq_some_iff.mp hr
        obtain ⟨k0, k1, data', rfl, hformed⟩ := ih (formed_split bh bt value none) hn
        exact hformed

theorem store_rooted (h : Rooted n) (hn : store c t value n = some n') : Rooted (n' : Tree V) := by
  match n with
  | .str [] =>
    cases hn
    exact (formed_split c t _ _).rooted
  | .str (bh :: bt) => exact absurd (h.root _ rfl) (cons_ne_nil bh bt)
  | .node i0 i1 data =>
    obtain ⟨j0, j1, data', rfl, hformed⟩ := putNode_formed _ _ h.formed hn
    exact hformed.rooted

theorem update_rooted (h : Rooted n) (hn : update c t f initial n = some n') :
    Rooted (n' : Tree V) := by
  match n with
  | .str [] => exact store_rooted h hn
  | .str (bh :: bt) => exact absurd (h.root _ rfl) (cons_ne_nil bh bt)
  | .node i0 i1 data =>
    obtain ⟨j0, j1, data', rfl, hformed⟩ := putNode_formed _ _ h.formed hn
    exact hformed.rooted

theorem formed_mapIdx {W : Type} {data : List (Element V)} {f : Nat → Element V → Element W}
    (hlen : data.length = i1 + 1 - i0) (hle : i0 ≤ i1)
    (h : ∀ e ∈ data, ∀ i, Formed (f i e)) (w : Option W) :
    Formed (.node i0 i1 (data.mapIdx f), w) := by
  refine .node (by rw [length_mapIdx, hlen]) hle fun x hx => ?_
  obtain ⟨i, hi, rfl⟩ := mem_mapIdx.mp hx
  exact h _ (getElem_mem hi) i

theorem mapOne_formed {e : Element V} (h : Formed e) (f : List Nat → V → V) (key : List Nat) :
    Formed (mapOne f key e) := by
  induction h generalizing key with
  | str =>
    rw [mapOne_str]
    exact .str
  | node hlen hle hdata ih =>
    rw [mapOne_node, mapElement_eq]
    exact formed_mapIdx hlen hle (fun e he i => ih e he _) _

theorem filterOne_formed {e : Element V} (h : Formed e) (f : List Nat → V → Bool)
    (key : List Nat) : Formed (filterOne f key e) := by
  induction h generalizing key with
  | @str s v =>
    cases s <;> cases v <;> simp only [filterOne, filterNode] <;> (try split) <;> exact .str
  | node hlen hle hdata ih =>
    rw [filterOne_node]
    split
    · exact .node hlen hle hdata
    · rw [filterElement_eq]
      exact formed_mapIdx hlen hle (fun e he i => ih e he _) _

theorem map_rooted (h : Rooted n) (f : List Nat → V → V) : Rooted (map f n) := by
  match n with
  | .str [] => exact h
  | .str (bh :: bt) => exact absurd (h.root _ rfl) (cons_ne_nil bh bt)
  | .node i0 i1 data => exact Formed.rooted (mapOne_formed h.formed f [])

theorem filter_rooted (h : Rooted n) (f : List Nat → V → Bool) : Rooted (filter f n) := by
  match n with
  | .str [] => exact h
  | .str (bh :: bt) => exact absurd (h.root _ rfl) (cons_ne_nil bh bt)
  | .node i0 i1 data => exact Formed.rooted (filterOne_formed h.formed f [])

theorem merge_rooted (h1 : Rooted n1) (h2 : Rooted n2) (hn : merge f n1 n2 = some n') :
    Rooted (n' : Tree V) := by
  -- the fold over the entries of the first trie keeps the second one well formed
  have hfold : ∀ (l : List (List Nat × V)) (acc : Option (Tree V)), (∀ n, acc = some n → Rooted n) →
      ∀ n, l.foldl (fun acc x => mergeEntry f x.1 x.2 acc) acc = some n → Rooted n := by
    intro l
    induction l with
    | nil => exact fun acc hacc => hacc
    | cons x l ih =>
      intro acc hacc
      refine ih _ fun n hn => ?_
      obtain ⟨n0, hn0, hn⟩ := bind_eq_some_iff.mp hn
      cases hkey : x.1 with
      | nil =>
        rw [hkey] at hn
        cases hn
      | cons c t =>
        rw [hkey] at hn
        exact update_rooted (hacc n0 hn0) hn
  cases n2 with
  | str s2 =>
    cases s2 with
    | nil =>
      rw [merge] at hn
      cases hn
      exact h1
    | cons bh bt => exact absurd (h2.root _ rfl) (cons_ne_nil bh bt)
  | node i0 i1 data =>
    cases n1 with
    | str s1 =>
      cases s1 with
      | nil =>
        cases hn
        exact h2
      | cons bh bt => exact absurd (h1.root _ rfl) (cons_ne_nil bh bt)
    | node j0 j1 data1 =>
      rw [merge, fold, foldlNode_eq] at hn
      · exact hfold _ _ (fun n hn => by cases hn; exact h2) n' hn
      all_goals simp

theorem take_rooted (h : Rooted n) (hn : take c t n = some (some (x, n'))) :
    Rooted (n' : Tree V) := by
  match n with
  | .str [] => cases hn
  | .str (bh :: bt) => exact absurd (h.root _ rfl) (cons_ne_nil bh bt)
  | .node i0 i1 data =>
    have heq : takeNode t c (.node i0 i1 data) = some (some (x, n')) := hn
    rcases takeNode_spec (c := c) (t := t) h.formed with
      ⟨htake, -⟩ | ⟨y, data', s, htake, hdel, -⟩
    · rw [htake] at heq
      cases heq
    · rw [htake] at heq
      cases heq
      exact hdel.formed.rooted

theorem erase_rooted (h : Rooted n) (hn : erase c t n = some n') : Rooted (n' : Tree V) := by
  rw [erase_eq] at hn
  obtain ⟨r, htake, rfl⟩ := map_eq_some_iff.mp hn
  match r with
  | none => exact h
  | some (x, n') => exact take_rooted h htake

theorem updateStrict_rooted (h : Rooted n) (hn : updateStrict c t f n = some (x, some n')) :
    Rooted (n' : Tree V) := by
  match n with
  | .str s => cases t <;> cases hn
  | .node i0 i1 data =>
    have heq : updateStrictNode f t c (.node i0 i1 data) = some (x, some n') := hn
    rcases updateStrictNode_spec (c := c) (t := t) f h.formed with
      ⟨hupdate, -⟩ | ⟨y, r, hupdate, -, -, hr⟩
    · rw [hupdate] at heq
      cases heq
    · rw [hupdate] at heq
      cases heq
      rcases hr with ⟨-, hr⟩ | ⟨v, data', -, hr, hformed, -⟩
      · cases hr
      · cases hr
        exact hformed.rooted

/-- **Run lemma**: every trie made by operations is well formed. -/
theorem Reachable.rooted (h : Reachable n) : Rooted n := by
  induction h with
  | new => exact rooted_new
  | store h hn ih => exact store_rooted ih hn
  | update h hn ih => exact update_rooted ih hn
  | updateStrict h hn ih => exact updateStrict_rooted ih hn
  | erase h hn ih => exact erase_rooted ih hn
  | take h hn ih => exact take_rooted ih hn
  | map h f ih => exact map_rooted ih f
  | filter h f ih => exact filter_rooted ih f
  | merge h1 h2 hn ih1 ih2 => exact merge_rooted ih1 ih2 hn

/-! ## deletion -/

/-- **A deletion touches one key**: `erase/2` and `take/2` of a key leave every other
key as it was and make the key an error; `take/2` answers the value that the key
had, or `error` when it had none. -/
def TouchesOneKey (c : Nat) (t : List Nat) (n : Tree V) : Prop :=
  (∃ n', erase c t n = some n' ∧
    ∀ d s, find d s n' = if d :: s = c :: t then some none else find d s n) ∧
  match find c t n with
  | some (some x) => ∃ n', take c t n = some (some (x, n')) ∧
      ∀ d s, find d s n' = if d :: s = c :: t then some none else find d s n
  | _ => take c t n = some none

theorem find_of_deletes (h : Formed (.node i0 i1 data, none))
    (hdel : Deletes k x (.node i0 i1 data, none) (.node i0 i1 data', none)) (d : Nat)
    (s : List Nat) : find d s (.node i0 i1 data') =
      if d :: s = k then some none else find d s (.node i0 i1 data) := by
  rw [find_eq hdel.formed.rooted, find_eq h.rooted, hdel.meaning_eq]
  split <;> rfl

/-- **Deletion touches one key only** exactly when the key does not end at a
suffix that goes on: the rest of one longer key, which is deleted instead. -/
theorem touchesOneKey_iff {n : Tree V} (h : Reachable n) (c : Nat) (t : List Nat) :
    TouchesOneKey c t n ↔ ¬ EndsInSuffix c t n := by
  have hroot := h.rooted
  match n with
  | .str [] =>
    have hnot : ¬ EndsInSuffix c t (.str [] : Tree V) := by
      rintro ⟨b, s, x, hx⟩
      cases t <;> cases hx
    refine iff_of_true ⟨⟨.str [], rfl, fun d s => by simp [find]⟩, ?_⟩ hnot
    rw [find]
    rfl
  | .str (bh :: bt) => exact absurd (hroot.root _ rfl) (cons_ne_nil bh bt)
  | .node i0 i1 data =>
    have hformed := hroot.formed
    have hfind : find c t (.node i0 i1 data) =
        some (meaning (c :: t) (.node i0 i1 data, none)) := find_eq hroot
    have htake : take c t (.node i0 i1 data) = takeNode t c (.node i0 i1 data) := rfl
    rw [TouchesOneKey, hfind, erase_eq, htake]
    rcases takeNode_spec (c := c) (t := t) hformed with
      ⟨hnode, hnone, hnot⟩ | ⟨x, data', s, hnode, hdel, hends⟩
    · -- there is nothing to delete
      rw [hnode, hnone]
      refine iff_of_true ⟨⟨_, rfl, fun d s => ?_⟩, rfl⟩ hnot
      split
      next hk =>
          cases hk
          show find c t (.node i0 i1 data) = some none
          rw [hfind, hnone]
      next => rfl
    · rw [hnode, hends]
      cases s with
      | nil =>
        rw [append_nil] at hdel
        rw [hdel.value]
        refine iff_of_true ⟨⟨_, rfl, find_of_deletes hformed hdel⟩, ?_⟩ (by simp)
        exact ⟨_, rfl, find_of_deletes hformed hdel⟩
      | cons b s =>
        -- the longer key is lost
        refine iff_of_false ?_ (by simp)
        rintro ⟨⟨n', hn', hall⟩, -⟩
        cases hn'
        have hlost : find c (t ++ b :: s) (.node i0 i1 data') =
            if c :: (t ++ b :: s) = c :: t then some none
            else find c (t ++ b :: s) (.node i0 i1 data) := hall c (t ++ b :: s)
        rw [find_of_deletes hformed hdel, if_pos cons_append.symm,
          if_neg (by simp), find_eq hroot, ← cons_append, hdel.value] at hlost
        cases hlost

/-- "ab" and "abcd" stored, "ab" erased. -/
def erasedTrie : Tree Nat :=
  .node 97 97 [(.node 98 98 [(.node 99 99 [(.str [100], some 2)], none)], none)]

theorem reachable_erasedTrie : Reachable erasedTrie :=
  have hab : Reachable (.node 97 97 [(.str [98], some 1)] : Tree Nat) := .store .new rfl
  have habcd := Reachable.store hab (show store 97 [98, 99, 100] 2 _ = some _ from rfl)
  .erase habcd (show erase 97 [98] _ = some erasedTrie from rfl)

theorem touchesOneKey_iff_erasedTrie :
    TouchesOneKey 97 [98, 99, 100] erasedTrie ↔ ¬ EndsInSuffix 97 [98, 99, 100] erasedTrie :=
  touchesOneKey_iff reachable_erasedTrie 97 [98, 99, 100]

/-- **A longer key is deleted**: with "abc" stored, `erase/2` of "a" deletes "abc". -/
theorem erase_deletes_longer_key : Reachable (.node 97 97 [(.str [98, 99], some 1)] : Tree Nat) ∧
      ¬ TouchesOneKey 97 [] (.node 97 97 [(.str [98, 99], some 1)] : Tree Nat) := by
  refine ⟨.store .new rfl, ?_⟩
  rintro ⟨⟨n', hn', hall⟩, -⟩
  cases hn'
  have hlost : (some none : Option (Option Nat)) = some (some 1) := hall 97 [98, 99]
  cases hlost

/-! ## the strict update -/

/-- **An update of stored keys only**: a stored key gets the function of its value
and every other key stays (an exception of the function is passed on); for
another key there is an exception before the function is applied. -/
def UpdatesStrictly (c : Nat) (t : List Nat) (f : Option V → Option V) (n : Tree V) : Prop :=
  match find c t n with
  | some (some x) => ∃ r, updateStrict c t f n = some (some x, r) ∧
      ((f (some x) = none ∧ r = none) ∨ ∃ v n', f (some x) = some v ∧ r = some n' ∧
        ∀ d s, find d s n' = if d :: s = c :: t then some (some v) else find d s n)
  | _ => updateStrict c t f n = none

/-- **Strict update** is one of stored keys only exactly when the key does not end at a
node without a value, where the function is applied to the atom `error`. -/
theorem updatesStrictly_iff {n : Tree V} (h : Reachable n) (c : Nat) (t : List Nat)
    (f : Option V → Option V) : UpdatesStrictly c t f n ↔ ¬ EndsAtBareNode c t n := by
  have hroot := h.rooted
  match n with
  | .str s =>
    have hnot : ¬ EndsAtBareNode c t (.str s : Tree V) := by
      rintro ⟨i0, i1, data, hx⟩
      cases t <;> cases hx
    refine iff_of_true ?_ hnot
    rw [UpdatesStrictly, hroot.root s rfl, find]
    cases t <;> rfl
  | .node i0 i1 data =>
    have hformed := hroot.formed
    have hupdate : updateStrict c t f (.node i0 i1 data) =
        updateStrictNode f t c (.node i0 i1 data) := rfl
    rw [UpdatesStrictly, find_eq hroot, hupdate]
    rcases updateStrictNode_spec (c := c) (t := t) f hformed with
      ⟨hnode, hnone, hnot⟩ | ⟨x, r, hnode, hx, hbare, hr⟩
    · rw [hnode, hnone]
      exact iff_of_true rfl hnot
    · rw [hnode, hx, hbare]
      cases x with
      | none => exact iff_of_false (by simp) (by simp)
      | some x =>
        refine iff_of_true ⟨r, rfl, ?_⟩ (by simp)
        rcases hr with hr | ⟨v, data', hf, rfl, hformed', hmeaning⟩
        · exact .inl hr
        · refine .inr ⟨v, _, hf, rfl, fun d s => ?_⟩
          rw [find_eq hformed'.rooted, find_eq hroot, hmeaning]
          split <;> rfl

theorem updatesStrictly_iff_erasedTrie :
    UpdatesStrictly 97 [98, 99, 100] (fun v => v.map (· + 1)) erasedTrie ↔
      ¬ EndsAtBareNode 97 [98, 99, 100] erasedTrie :=
  updatesStrictly_iff reachable_erasedTrie 97 [98, 99, 100] _

/-- "ab" and "ac" stored. -/
def forkedTrie : Tree Nat :=
  .node 97 97 [(.node 98 99 [(.str [], some 1), (.str [], some 2)], none)]

/-- **The function is applied to a hole**: with "ab" and "ac" stored, `update/3` of
"a" applies it to the atom `error`. -/
theorem updateStrict_applies_to_error : Reachable forkedTrie ∧
    ¬ UpdatesStrictly 97 [] (fun v => v.map (· + 1)) forkedTrie := by
  have hab : Reachable (.node 97 97 [(.str [98], some 1)] : Tree Nat) := .store .new rfl
  refine ⟨.store hab (show store 97 [99] 2 _ = some forkedTrie from rfl), fun h => ?_⟩
  have hnone : (some (none, none) : Applied Nat) = none := h
  cases hnone

end CloudI.Trie
