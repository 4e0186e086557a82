import CloudI.Trie.Reachable

/-!
# Trie.Order

The traversals of a trie: `foldl`, `foldr`, `foreach`, `to_list`, `fetch_keys`
and `size` visit the same entries, each key once, in the order of the keys.
-/

namespace CloudI.Trie

open List

variable {V A : Type}

/-- The entries of a trie, in the order of `foldl/3`. -/
def entries (n : Tree V) : List (List Nat × V) := entriesOne [] (n, none)

/-! ## the traversals are over the entries -/

mutual

theorem foldrNode_eq (f : List Nat → V → A → A) (key : List Nat) (a : A) (n : Tree V) :
    foldrNode f key a n = (entriesNode key n).foldr (fun x a => f x.1 x.2 a) a := by
  match n with
  | .str s => rfl
  | .node i0 i1 data =>
    rw [foldrNode, entriesNode]
    exact foldrElement_eq f key i0 a data

theorem foldrElement_eq (f : List Nat → V → A → A) (key : List Nat) (c : Nat) (a : A)
    (data : List (Element V)) : foldrElement f key c a data =
      (entriesElement key c data).foldr (fun x a => f x.1 x.2 a) a := by
  match data with
  | [] => rfl
  | e :: data =>
    rw [foldrElement, entriesElement, foldr_append, foldrElement_eq f key (c + 1) a data,
      foldrOne_eq f (key ++ [c]) _ e]

theorem foldrOne_eq (f : List Nat → V → A → A) (newKey : List Nat) (a : A) (e : Element V) :
    foldrOne f newKey a e = (entriesOne newKey e).foldr (fun x a => f x.1 x.2 a) a := by
  match e with
  | (.node i0 i1 data, none) =>
    rw [foldrOne, entriesOne]
    exact foldrNode_eq f newKey a (.node i0 i1 data)
  | (.node i0 i1 data, some v) =>
    rw [foldrOne, entriesOne, foldr_cons, foldrNode_eq f newKey a (.node i0 i1 data)]
  | (.str s, none) => rfl
  | (.str s, some v) => rfl

end

section Foreach

variable {m : Type → Type} [Monad m]

mutual

theorem foreachNode_eq [LawfulMonad m] (f : List Nat → V → m Unit) (key : List Nat)
    (n : Tree V) : foreachNode f key n = (entriesNode key n).forM fun x => f x.1 x.2 := by
  match n with
  | .str s => rfl
  | .node i0 i1 data =>
    rw [foreachNode, entriesNode]
    exact foreachElement_eq f key i0 data

theorem foreachElement_eq [LawfulMonad m] (f : List Nat → V → m Unit) (key : List Nat) (c : Nat)
    (data : List (Element V)) : foreachElement f key c data =
      (entriesElement key c data).forM fun x => f x.1 x.2 := by
  match data with
  | [] => rfl
  | e :: data =>
    rw [foreachElement, entriesElement, forM_eq_forM, forM_append,
      foreachOne_eq f (key ++ [c]) e, foreachElement_eq f key (c + 1) data]
    rfl

theorem foreachOne_eq [LawfulMonad m] (f : List Nat → V → m Unit) (newKey : List Nat)
    (e : Element V) : foreachOne f newKey e = (entriesOne newKey e).forM fun x => f x.1 x.2 := by
  match e with
  | (.node i0 i1 data, none) =>
    rw [foreachOne, entriesOne]
    exact foreachNode_eq f newKey (.node i0 i1 data)
  | (.node i0 i1 data, some v) =>
    rw [foreachOne, entriesOne, forM_eq_forM, forM_cons,
      foreachNode_eq f newKey (.node i0 i1 data)]
    rfl
  | (.str s, none) => rfl
  | (.str s, some v) =>
    rw [foreachOne, entriesOne, forM_eq_forM, forM_cons, forM_nil]
    simp

end

end Foreach

/-! ## the order -/

/-- What the traversals of a trie do: they visit the entries `l`, the stored keys
in ascending order with their values. -/
structure Traverses (n : Tree V) (l : List (List Nat × V)) : Prop where
  ascending : (l.map Prod.fst).Pairwise (· < ·)
  stored : ∀ c t x, (c :: t, x) ∈ l ↔ find c t n = some (some x)
  nonempty : ∀ x, ([], x) ∉ l
  fold_eq : ∀ (A : Type) (f : List Nat → V → A → A) (a : A),
    fold f a n = l.foldl (fun a x => f x.1 x.2 a) a
  foldr_eq : ∀ (A : Type) (f : List Nat → V → A → A) (a : A),
    foldr f a n = l.reverse.foldl (fun a x => f x.1 x.2 a) a
  foreach_eq : ∀ (m : Type → Type) [Monad m] [LawfulMonad m] (f : List Nat → V → m Unit),
    foreach f n = l.forM fun x => f x.1 x.2
  toList_eq : toList n = l
  fetchKeys_eq : fetchKeys n = l.map Prod.fst
  size_eq : size n = l.length

theorem fold_entries (h : Rooted n) (f : List Nat → V → A → A) (a : A) :
    fold f a n = (entries n).foldl (fun a x => f x.1 x.2 a) a := by
  match n with
  | .str s =>
    rw [h.root s rfl]
    rfl
  | .node i0 i1 data => exact foldlNode_eq f [] a (.node i0 i1 data)

theorem foldr_entries (h : Rooted n) (f : List Nat → V → A → A) (a : A) :
    foldr f a n = (entries n).foldr (fun x a => f x.1 x.2 a) a := by
  match n with
  | .str s =>
    rw [h.root s rfl]
    rfl
  | .node i0 i1 data => exact foldrNode_eq f [] a (.node i0 i1 data)

theorem foreach_entries {m : Type → Type} [Monad m] [LawfulMonad m] {n : Tree V} (h : Rooted n)
    (f : List Nat → V → m Unit) : foreach f n = (entries n).forM fun x => f x.1 x.2 := by
  match n with
  | .str s =>
    rw [h.root s rfl]
    rfl
  | .node i0 i1 data => exact foreachNode_eq f [] (.node i0 i1 data)

theorem toList_entries {n : Tree V} (h : Rooted n) : toList n = entries n := by
  rw [toList, foldr_entries h]
  exact foldr_cons_nil

theorem mem_entries {n : Tree V} (h : Rooted n) (k : List Nat) (x : V) :
    (k, x) ∈ entries n ↔ meaning k (n, none) = some x := by
  rw [entries, mem_entriesOne h.formed]
  simp

theorem size_entries {n : Tree V} (h : Rooted n) : size n = (entries n).length := by
  have hcount : ∀ (l : List (List Nat × V)) (i : Nat),
      l.foldl (fun i _ => i + 1) i = i + l.length := by
    intro l
    induction l with
    | nil => exact fun i => rfl
    | cons x l ih =>
      intro i
      rw [foldl_cons, ih, length_cons]
      omega
  rw [size, fold_entries h, hcount, Nat.zero_add]

/-- **Traversal order**: whatever operations made the trie, the traversals visit
every stored key once, in ascending lexicographic order. -/
theorem traverses_in_order {n : Tree V} (h : Reachable n) : ∃ l, Traverses n l := by
  have hroot := h.rooted
  refine ⟨entries n, ?_⟩
  constructor
  case ascending => exact sorted_entriesOne hroot.formed []
  case stored =>
      intro c t x
      rw [mem_entries hroot, find_eq hroot]
      simp
  case nonempty =>
      intro x hx
      rw [mem_entries hroot, meaning_nil_root] at hx
      cases hx
  case fold_eq => exact fun A f a => fold_entries hroot f a
  case foldr_eq =>
      intro A f a
      rw [foldr_entries hroot, foldl_reverse]
  case foreach_eq => exact fun m _ _ f => foreach_entries hroot f
  case toList_eq => exact toList_entries hroot
  case fetchKeys_eq =>
      rw [fetchKeys, foldr_entries hroot]
      exact foldr_map ▸ (foldr_cons_nil (l := (entries n).map Prod.fst))
  case size_eq => exact size_entries hroot

theorem traverses_in_order_erasedTrie : ∃ l, Traverses erasedTrie l :=
  traverses_in_order reachable_erasedTrie

end CloudI.Trie
