import CloudI.Trie.Put
import Mathlib.Logic.Function.Basic

/-!
# Trie.Traverse

What `map`, `filter`, `fold` and `merge` do to the meaning of a trie.  `filter`
is not the filter of a finite map: a key whose value the predicate rejects stays
when the predicate accepts a key above it.
-/

namespace CloudI.Trie

open List Option Function

variable {V W A : Type}

/-! ## map -/

theorem mapElement_eq (f : List Nat → V → W) (key : List Nat) (c : Nat) (data : List (Element V)) :
    mapElement f key c data = data.mapIdx fun i e => mapOne f (key ++ [c + i]) e := by
  induction data generalizing c with
  | nil => rw [mapElement, mapIdx_nil]
  | cons e data ih =>
    rw [mapElement, mapIdx_cons, ih, Nat.add_zero]
    congr 2
    funext i x
    rw [Nat.add_assoc, Nat.add_comm 1 i]

theorem mapOne_node (f : List Nat → V → W) (key : List Nat) (i0 i1 : Nat)
    (data : List (Element V)) (v : Option V) :
    mapOne f key (.node i0 i1 data, v) =
      (.node i0 i1 (mapElement f key i0 data), v.map (f key)) := by
  cases v <;> simp [mapOne, mapNode]

theorem mapOne_str (f : List Nat → V → W) (key s : List Nat) (v : Option V) :
    mapOne f key (.str s, v) = (.str s, v.map (f (key ++ s))) := by
  cases s <;> cases v <;> simp [mapOne, mapNode]

theorem child_mapIdx (f : Nat → Element V → Element W) (data : List (Element V)) :
    child c i0 i1 (data.mapIdx f) = (child c i0 i1 data).map (f (c - i0)) := by
  rw [child, child]
  split
  · rfl
  · rw [getElem?_mapIdx]

theorem child_mem (h : child c i0 i1 data = some e) :
    (e : Element V) ∈ data ∧ i0 + (c - i0) = c := by
  by_cases hc : c < i0 ∨ c > i1
  · rw [child_out hc] at h
    cases h
  · rw [child, if_neg hc] at h
    exact ⟨mem_of_getElem? h, by omega⟩

variable {e : Element V} {n : Tree V} {m : List Nat → Option V}

/-- `map_element/5` applies the function to every value. -/
theorem mapOne_spec (h : Fits e) (f : List Nat → V → W) (key : List Nat) : Fits (mapOne f key e) ∧
      ∀ k, meaning k (mapOne f key e) = (meaning k e).map (f (key ++ k)) := by
  induction h generalizing key with
  | str hvalue =>
    rw [mapOne_str]
    refine ⟨.str (by simpa using hvalue), fun k => ?_⟩
    rw [meaning_str, meaning_str]
    split
    next hk => rw [hk]
    next => rfl
  | @node i1 i0 data v hlen hle hdata ih =>
    rw [mapOne_node, mapElement_eq]
    refine ⟨.node (by rw [length_mapIdx, hlen]) hle fun x hx => ?_, fun k => ?_⟩
    · obtain ⟨i, hi, rfl⟩ := mem_mapIdx.mp hx
      exact (ih _ (getElem_mem hi) _).1
    · cases k with
      | nil => simp
      | cons c k =>
        rw [meaning_child, meaning_child, child_mapIdx]
        cases hchild : child c i0 i1 data with
        | none => rfl
        | some e =>
          obtain ⟨hmem, hc⟩ := child_mem hchild
          rw [map_some, bind_some, (ih e hmem _).2, bind_some, hc,
            append_assoc, singleton_append]

/-- `map/2` applies the function to every value. -/
theorem map_spec (h : Fits (n, none)) (f : List Nat → V → W) :
    Fits (map f n, none) ∧ ∀ k, meaning k (map f n, none) = (meaning k (n, none)).map (f k) := by
  have heq : (map f n, (none : Option W)) = mapOne f [] (n, none) := by
    match n with
    | .str [] => rfl
    | .str (bh :: bt) => rfl
    | .node i0 i1 data => rfl
  rw [heq]
  exact mapOne_spec h f []

/-! ## filter -/

theorem filterElement_eq (f : List Nat → V → Bool) (key : List Nat) (c : Nat)
    (data : List (Element V)) :
    filterElement f key c data = data.mapIdx fun i e => filterOne f (key ++ [c + i]) e := by
  induction data generalizing c with
  | nil => rw [filterElement, mapIdx_nil]
  | cons e data ih =>
    rw [filterElement, mapIdx_cons, ih, Nat.add_zero]
    congr 2
    funext i x
    rw [Nat.add_assoc, Nat.add_comm 1 i]

theorem filterOne_str (h : Fits (.str s, v)) (f : List Nat → V → Bool) (key : List Nat) :
    filterOne f key (.str s, v) =
      if (v.filter (f (key ++ s))).isSome then (.str s, v) else hole := by
  cases v with
  | none =>
    cases s with
    | nil => rfl
    | cons bh bt =>
      obtain ⟨x, hx⟩ := h.suffix
      cases hx
  | some x => cases hx : f (key ++ s) x <;> cases s <;> simp_all [filterOne, Option.filter]

theorem filterOne_node (f : List Nat → V → Bool) (key : List Nat) (i0 i1 : Nat)
    (data : List (Element V)) (v : Option V) :
    filterOne f key (.node i0 i1 data, v) = if (v.filter (f key)).isSome then (.node i0 i1 data, v)
      else (.node i0 i1 (filterElement f key i0 data), none) := by
  cases v with
  | none => simp [filterOne, filterNode]
  | some x => cases hx : f key x <;> simp [filterOne, filterNode, Option.filter, hx]

/-- The predicate accepts a stored key that the key `k` starts with. -/
def KeptBy (f : List Nat → V → Bool) (key : List Nat) (m : List Nat → Option V) (k : List Nat) :
    Prop :=
  ∃ k', k' <+: k ∧ ∃ v, m k' = some v ∧ f (key ++ k') v = true

theorem keptBy_nil : KeptBy f key m [] ↔ ((m []).filter (f key)).isSome := by
  constructor
  · rintro ⟨k', hk', v, hv, hf⟩
    rw [prefix_nil] at hk'
    subst hk'
    rw [append_nil] at hf
    simp [hv, hf]
  · intro h
    obtain ⟨v, hv⟩ := isSome_iff_exists.mp h
    rw [filter_eq_some_iff] at hv
    exact ⟨[], prefix_rfl, v, hv.1, by simpa using hv.2⟩

theorem keptBy_cons (hnil : ¬ KeptBy f key m []) :
    KeptBy f key m (c :: k) ↔ KeptBy f (key ++ [c]) (fun k => m (c :: k)) k := by
  constructor
  · rintro ⟨k', hk', v, hv, hf⟩
    rcases prefix_cons_iff.mp hk' with rfl | ⟨k', rfl, -⟩
    · exact absurd ⟨[], prefix_rfl, v, hv, hf⟩ hnil
    · exact ⟨k', (cons_prefix_cons.mp hk').2, v, hv, by simpa using hf⟩
  · rintro ⟨k', hk', v, hv, hf⟩
    exact ⟨c :: k', cons_prefix_cons.mpr ⟨rfl, hk'⟩, v, hv, by simpa using hf⟩

theorem keptBy_of_nil (h : KeptBy f key m []) : KeptBy f key m k := by
  obtain ⟨k', hk', h⟩ := h
  exact ⟨k', hk'.trans nil_prefix, h⟩

open Classical in
/-- `filter_element/5` keeps the keys that start with an accepted one. -/
theorem filterOne_spec (h : Fits e) (f : List Nat → V → Bool) (key : List Nat) :
    Fits (filterOne f key e) ∧ ∀ k, meaning k (filterOne f key e) =
      if KeptBy f key (meaning · e) k then meaning k e else none := by
  induction h generalizing key with
  | @str s v hvalue =>
    have hkept : ∀ k, KeptBy f key (meaning · (.str s, v)) k → (v.filter (f (key ++ s))).isSome := by
      rintro k ⟨k', -, x, hx, hf⟩
      simp only [meaning_str] at hx
      split at hx
      next hk' => simp [hx, ← hk', Option.filter, hf]
      next => cases hx
    rw [filterOne_str (.str hvalue)]
    by_cases hacc : (v.filter (f (key ++ s))).isSome
    · refine ⟨by rw [if_pos hacc]; exact .str hvalue, fun k => ?_⟩
      rw [if_pos hacc, meaning_str]
      by_cases hk : k = s
      · have : KeptBy f key (meaning · (.str s, v)) k := by
          obtain ⟨x, hx⟩ := isSome_iff_exists.mp hacc
          rw [filter_eq_some_iff] at hx
          exact ⟨k, prefix_rfl, x, by simp [hk, hx.1], by rw [hk]; exact hx.2⟩
        rw [if_pos this]
      · rw [if_neg hk, ite_self]
    · refine ⟨by rw [if_neg hacc]; exact fits_hole, fun k => ?_⟩
      rw [if_neg hacc, meaning_hole, if_neg fun h => hacc (hkept k h)]
  | @node i1 i0 data v hlen hle hdata ih =>
    rw [filterOne_node]
    by_cases hacc : (v.filter (f key)).isSome
    · refine ⟨by rw [if_pos hacc]; exact .node hlen hle hdata, fun k => ?_⟩
      rw [if_pos hacc, if_pos (keptBy_of_nil (keptBy_nil.mpr hacc))]
    · have hnil : ¬ KeptBy f key (meaning · (.node i0 i1 data, v)) [] :=
        fun h => hacc (keptBy_nil.mp h)
      rw [if_neg hacc, filterElement_eq]
      refine ⟨.node (by rw [length_mapIdx, hlen]) hle fun x hx => ?_, fun k => ?_⟩
      · obtain ⟨i, hi, rfl⟩ := mem_mapIdx.mp hx
        exact (ih _ (getElem_mem hi) _).1
      · cases k with
        | nil => rw [if_neg hnil, meaning_nil_node]
        | cons c k =>
          simp only [keptBy_cons hnil, meaning_child, child_mapIdx]
          cases hchild : child c i0 i1 data with
          | none => simp
          | some e =>
            obtain ⟨hmem, hc⟩ := child_mem hchild
            rw [map_some, bind_some, (ih e hmem _).2, hc]
            rfl

open Classical in
/-- `filter/2` keeps the keys that start with an accepted one. -/
theorem filter_spec (h : Fits (n, none)) (f : List Nat → V → Bool) :
    Fits (filter f n, none) ∧ ∀ k, meaning k (filter f n, none) =
      if KeptBy f [] (meaning · (n, none)) k then meaning k (n, none) else none := by
  have heq : (filter f n, (none : Option V)) = filterOne f [] (n, none) := by
    match n with
    | .str [] => rfl
    | .str (bh :: bt) => rfl
    | .node i0 i1 data => rfl
  rw [heq]
  exact filterOne_spec h f []

/-! ## fold -/

mutual

/-- The keys and values in the order of `foldl/4`. -/
def entriesNode (key : List Nat) : Tree V → List (List Nat × V)
  | .str _ => []
  | .node i0 _ data => entriesElement key i0 data

def entriesElement (key : List Nat) : Nat → List (Element V) → List (List Nat × V)
  | _, [] => []
  | c, e :: data => entriesOne (key ++ [c]) e ++ entriesElement key (c + 1) data

def entriesOne (newKey : List Nat) : Element V → List (List Nat × V)
  | (.node i0 i1 data, none) => entriesNode newKey (.node i0 i1 data)
  | (.node i0 i1 data, some v) => (newKey, v) :: entriesNode newKey (.node i0 i1 data)
  | (.str _, none) => []
  | (.str s, some v) => [(newKey ++ s, v)]

end

mutual

theorem entriesNode_key (key key' : List Nat) (n : Tree V) :
    entriesNode (key ++ key') n = (entriesNode key' n).map fun x => (key ++ x.1, x.2) := by
  match n with
  | .str s => rfl
  | .node i0 i1 data =>
    rw [entriesNode, entriesNode]
    exact entriesElement_key key key' i0 data

theorem entriesElement_key (key key' : List Nat) (c : Nat) (data : List (Element V)) :
    entriesElement (key ++ key') c data =
      (entriesElement key' c data).map fun x => (key ++ x.1, x.2) := by
  match data with
  | [] => rfl
  | e :: data =>
    rw [entriesElement, entriesElement, map_append, append_assoc,
      entriesOne_key key (key' ++ [c]) e, entriesElement_key key key' (c + 1) data]

theorem entriesOne_key (key key' : List Nat) (e : Element V) :
    entriesOne (key ++ key') e = (entriesOne key' e).map fun x => (key ++ x.1, x.2) := by
  match e with
  | (.node i0 i1 data, none) =>
    rw [entriesOne, entriesOne]
    exact entriesNode_key key key' (.node i0 i1 data)
  | (.node i0 i1 data, some v) =>
    rw [entriesOne, entriesOne, map_cons, entriesNode_key key key' (.node i0 i1 data)]
  | (.str s, none) => rfl
  | (.str s, some v) => simp [entriesOne]

end

mutual

theorem foldlNode_eq (f : List Nat → V → A → A) (key : List Nat) (a : A) (n : Tree V) :
    foldlNode f key a n = (entriesNode key n).foldl (fun a x => f x.1 x.2 a) a := by
  match n with
  | .str s => rfl
  | .node i0 i1 data =>
    rw [foldlNode, entriesNode]
    exact foldlElement_eq f key i0 a data

theorem foldlElement_eq (f : List Nat → V → A → A) (key : List Nat) (c : Nat) (a : A)
    (data : List (Element V)) : foldlElement f key c a data =
      (entriesElement key c data).foldl (fun a x => f x.1 x.2 a) a := by
  match data with
  | [] => rfl
  | e :: data =>
    rw [foldlElement, entriesElement, foldl_append, foldlElement_eq f key (c + 1) _ data,
      foldlOne_eq f (key ++ [c]) a e]

theorem foldlOne_eq (f : List Nat → V → A → A) (newKey : List Nat) (a : A) (e : Element V) :
    foldlOne f newKey a e = (entriesOne newKey e).foldl (fun a x => f x.1 x.2 a) a := by
  match e with
  | (.node i0 i1 data, none) =>
    rw [foldlOne, entriesOne]
    exact foldlNode_eq f newKey a (.node i0 i1 data)
  | (.node i0 i1 data, some v) =>
    rw [foldlOne, entriesOne, foldl_cons]
    exact foldlNode_eq f newKey _ (.node i0 i1 data)
  | (.str s, none) => rfl
  | (.str s, some v) => rfl

end

theorem mem_entriesElement : x ∈ entriesElement key c data ↔
      ∃ i e, data[i]? = some e ∧ x ∈ entriesOne (key ++ [c + i]) e := by
  induction data generalizing c with
  | nil => simp [entriesElement]
  | cons e data ih =>
    rw [entriesElement, mem_append, ih]
    constructor
    · rintro (hx | ⟨i, e', hi, hx⟩)
      · exact ⟨0, e, rfl, hx⟩
      · exact ⟨i + 1, e', hi, by rwa [Nat.add_right_comm] at hx⟩
    · rintro ⟨i, e', hi, hx⟩
      cases i with
      | zero =>
        cases hi
        exact .inl hx
      | succ i => exact .inr ⟨i, e', hi, by rwa [Nat.add_right_comm]⟩

theorem entriesOne_node (key : List Nat) (i0 i1 : Nat) (data : List (Element V)) (v : Option V) :
    entriesOne key (.node i0 i1 data, v) =
      (v.map fun v => (key, v)).toList ++ entriesElement key i0 data := by
  cases v <;> rw [entriesOne, entriesNode] <;> rfl

theorem mem_entriesOne (h : Formed e) (key k : List Nat) (x : V) :
    (k, x) ∈ entriesOne key e ↔ ∃ k', k = key ++ k' ∧ meaning k' e = some x := by
  induction h generalizing key k with
  | @str s v =>
    cases v with
    | none => simp [entriesOne]
    | some y =>
      simp only [entriesOne, meaning_str, mem_singleton, Prod.mk.injEq]
      constructor
      · rintro ⟨rfl, rfl⟩
        exact ⟨s, rfl, if_pos rfl⟩
      · rintro ⟨k', rfl, hk'⟩
        split at hk'
        next hs =>
            cases hk'
            exact ⟨by rw [hs], rfl⟩
        next => cases hk'
  | @node i1 i0 data v hlen hle hdata ih =>
    rw [entriesOne_node, mem_append, mem_entriesElement]
    constructor
    · rintro (hx | ⟨i, e, hi, hx⟩)
      · simp only [mem_toList, map_eq_some_iff, Prod.mk.injEq] at hx
        obtain ⟨y, hy, rfl, rfl⟩ := hx
        exact ⟨[], (append_nil _).symm, hy⟩
      · obtain ⟨k', rfl, hk'⟩ := (ih e (mem_of_getElem? hi) _ _).mp hx
        obtain ⟨hlt, -⟩ := List.getElem?_eq_some_iff.mp hi
        refine ⟨(i0 + i) :: k', by simp, ?_⟩
        rw [meaning_child, child, if_neg (by omega), Nat.add_sub_cancel_left, hi, bind_some,
          hk']
    · rintro ⟨k', rfl, hk'⟩
      cases k' with
      | nil => exact .inl (by simp_all)
      | cons c k' =>
        rw [meaning_child] at hk'
        obtain ⟨e, he, hx⟩ := bind_eq_some_iff.mp hk'
        obtain ⟨hmem, hc⟩ := child_mem he
        have hget : data[c - i0]? = some e := by
          rw [child] at he
          split at he
          next => cases he
          next => exact he
        exact .inr ⟨c - i0, e, hget, (ih e hmem _ _).mpr ⟨k', by simp [hc], hx⟩⟩

/-- The keys of the elements of a node ascend, when those of each element do. -/
theorem sorted_entriesElement (hformed : ∀ e ∈ data, Formed e)
    (h : ∀ e ∈ data, ∀ key, ((entriesOne key e).map Prod.fst).Pairwise (· < ·)) (key : List Nat)
    (c : Nat) : ((entriesElement key c data).map Prod.fst).Pairwise (· < ·) := by
  induction data generalizing c with
  | nil => exact .nil
  | cons e data ih =>
    rw [entriesElement, map_append]
    refine pairwise_append.mpr ⟨h e (by simp) _, ?_, ?_⟩
    · exact ih (fun e he => hformed e (by simp [he])) (fun e he => h e (by simp [he])) (c + 1)
    · -- the keys of two elements differ in the character of the node
      intro a ha b hb
      obtain ⟨⟨k1, v1⟩, h1, rfl⟩ := List.mem_map.mp ha
      obtain ⟨⟨k2, v2⟩, h2, rfl⟩ := List.mem_map.mp hb
      obtain ⟨i, e', hi, h2⟩ := mem_entriesElement.mp h2
      obtain ⟨r1, rfl, -⟩ := (mem_entriesOne (hformed e (by simp)) _ _ _).mp h1
      obtain ⟨r2, rfl, -⟩ :=
        (mem_entriesOne (hformed e' (by simp [mem_of_getElem? hi])) _ _ _).mp h2
      show key ++ [c] ++ r1 < key ++ [c + 1 + i] ++ r2
      rw [append_assoc, append_assoc]
      exact append_left_lt (cons_lt_cons_iff.mpr (.inl (by omega)))

/-- **The order of the entries**: the keys ascend in the lexicographic order. -/
theorem sorted_entriesOne (h : Formed e) (key : List Nat) :
    ((entriesOne key e).map Prod.fst).Pairwise (· < ·) := by
  induction h generalizing key with
  | @str s v => cases v <;> simp [entriesOne]
  | @node i1 i0 data v hlen hle hdata ih =>
    rw [entriesOne_node, map_append]
    refine pairwise_append.mpr ⟨by cases v <;> simp, ?_, ?_⟩
    · exact sorted_entriesElement hdata ih key i0
    · -- the key of the node itself is shorter
      intro a ha b hb
      obtain ⟨⟨k1, v1⟩, h1, rfl⟩ := List.mem_map.mp ha
      obtain ⟨⟨k2, v2⟩, h2, rfl⟩ := List.mem_map.mp hb
      obtain ⟨i, e', hi, h2⟩ := mem_entriesElement.mp h2
      obtain ⟨r2, rfl, -⟩ := (mem_entriesOne (hdata e' (mem_of_getElem? hi)) _ _ _).mp h2
      simp only [mem_toList, map_eq_some_iff, Prod.mk.injEq] at h1
      obtain ⟨y, -, rfl, -⟩ := h1
      have hlt : key ++ [] < key ++ (i0 + i) :: r2 :=
        append_left_lt (nil_lt_cons (i0 + i) r2)
      simpa using hlt

theorem nodup_entriesOne (h : Formed e) (key : List Nat) :
    ((entriesOne key e).map Prod.fst).Nodup :=
  (sorted_entriesOne h key).imp fun hlt heq => absurd (heq ▸ hlt) (List.lt_irrefl _)

/-! ## merge -/

/-- The map of all keys: a key that both have is given to the function. -/
def mergeMap (f : List Nat → V → V → V) (m1 m2 : List Nat → Option V) (k : List Nat) : Option V :=
  match m1 k, m2 k with
  | some v1, some v2 => some (f k v1 v2)
  | some v1, none => some v1
  | none, v2 => v2

/-- The function that `merge/3` folds over the first trie. -/
def mergeEntry (f : List Nat → V → Option V → V) (key : List Nat) (v1 : V)
    (acc : Option (Tree V)) : Option (Tree V) :=
  acc.bind fun n =>
    match key with
    | [] => none
    | h :: t => update h t (fun v2 => some (f key v1 v2)) v1 n

/-- **Run lemma** of the fold of `merge/3`, by induction on the entries that are left. -/
theorem foldl_mergeEntry (f : List Nat → V → Option V → V) {l : List (List Nat × V)}
    (hnodup : (l.map Prod.fst).Nodup) {m1 : List Nat → Option V}
    (hm1 : ∀ k v, (k, v) ∈ l ↔ m1 k = some v) (hnil : m1 [] = none) (h : Fits (n, none)) :
    ∃ n', l.foldl (fun acc x => mergeEntry f x.1 x.2 acc) (some n) = some n' ∧ Fits (n', none) ∧
      ∀ k, meaning k (n', none) =
        mergeMap (fun k v1 v2 => f k v1 (some v2)) m1 (meaning · (n, none)) k := by
  induction l generalizing m1 n with
  | nil =>
    refine ⟨n, rfl, h, fun k => ?_⟩
    have hk : m1 k = none := eq_none_iff_forall_ne_some.mpr fun v hv =>
      not_mem_nil ((hm1 k v).mpr hv)
    rw [mergeMap, hk]
  | cons x l ih =>
    obtain ⟨key, v1⟩ := x
    rw [map_cons, nodup_cons] at hnodup
    have hkey : m1 key = some v1 := (hm1 key v1).mp mem_cons_self
    -- the entries that are left, as a map
    have hrest : ∀ k v, (k, v) ∈ l ↔ Function.update m1 key none k = some v := by
      intro k v
      by_cases hk : k = key
      · subst hk
        rw [update_self]
        refine ⟨fun hmem => absurd (List.mem_map_of_mem hmem) hnodup.1, fun h => by cases h⟩
      · rw [update_of_ne hk, ← hm1, mem_cons]
        simp [hk]
    cases key with
    | nil => rw [hnil] at hkey; cases hkey
    | cons c t =>
      have hnil' : Function.update m1 (c :: t) none [] = none := by
        rw [update_of_ne (by simp), hnil]
      rcases update_spec h c t (fun v2 => some (f (c :: t) v1 v2)) v1 with
        ⟨hnone, -⟩ | ⟨v, n1, hv, hn1, hfits1, hmeaning1⟩
      · cases hm2 : meaning (c :: t) (n, none) <;> simp [hm2] at hnone
      · obtain ⟨n', hfold, hfits', hmeaning'⟩ := ih hnodup.2 hrest hnil' hfits1
        refine ⟨n', ?_, hfits', fun k => ?_⟩
        · have hstep : mergeEntry f (c :: t) v1 (some n) = some n1 := hn1
          rw [foldl_cons, hstep, hfold]
        · rw [hmeaning' k, mergeMap, mergeMap]
          by_cases hk : k = c :: t
          · subst hk
            rw [update_self, hkey, hmeaning1, if_pos rfl]
            cases hm2 : meaning (c :: t) (n, none) <;> simp_all
          · rw [update_of_ne hk, hmeaning1, if_neg hk]

theorem meaning_nil_root : meaning [] (n, none) = none := by
  match n with
  | .str s => simp
  | .node i0 i1 data => rfl

/-- `merge/3` takes the keys of both tries. -/
theorem merge_spec {n1 n2 : Tree V} (h1 : Fits (n1, none)) (h2 : Fits (n2, none))
    (f : List Nat → V → Option V → V) :
    ∃ n', merge f n1 n2 = some n' ∧ Fits (n', none) ∧ ∀ k, meaning k (n', none) =
        mergeMap (fun k v1 v2 => f k v1 (some v2)) (meaning · (n1, none))
          (meaning · (n2, none)) k := by
  cases n2 with
  | str s2 =>
    cases s2 with
    | nil =>
      refine ⟨n1, by rw [merge], h1, fun k => ?_⟩
      rw [mergeMap, meaning_str, ite_self]
      cases meaning k (n1, none) <;> rfl
    | cons bh bt =>
      obtain ⟨x, hx⟩ := h2.suffix
      cases hx
  | node i0 i1 data =>
    cases n1 with
    | str s1 =>
      cases s1 with
      | nil =>
        refine ⟨.node i0 i1 data, rfl, h2, fun k => ?_⟩
        rw [mergeMap, meaning_str, ite_self]
      | cons bh bt =>
        obtain ⟨x, hx⟩ := h1.suffix
        cases hx
    | node j0 j1 data1 =>
      have hmem : ∀ k v, (k, v) ∈ entriesOne [] (.node j0 j1 data1, none) ↔
          meaning k (.node j0 j1 data1, none) = some v := by
        intro k v
        rw [mem_entriesOne h1.formed]
        simp
      obtain ⟨n', hfold, h', hmeaning⟩ :=
        foldl_mergeEntry f (nodup_entriesOne h1.formed []) hmem meaning_nil_root h2
      refine ⟨n', ?_, h', hmeaning⟩
      rw [← hfold, merge, fold, foldlNode_eq]
      · rfl
      all_goals simp

end CloudI.Trie
