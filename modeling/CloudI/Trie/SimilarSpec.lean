import CloudI.Library.Heaviest
import CloudI.Trie.IterSpec
import CloudI.Trie.Prefix
import CloudI.Trie.Similar

/-!
# Trie.SimilarSpec

Which keys the operations on similar keys take.  A key is similar to a string when
no stored key shares a longer prefix with it.  The keys below the node where the
string leaves the trie are those keys, so every operation depends on where that is.
-/

namespace CloudI.Trie

open Heaviest List Option

variable {V A : Type}

/-- How many characters two strings share at their beginning. -/
def sharedLength : List Nat → List Nat → Nat
  | a :: s, b :: k => if a = b then sharedLength s k + 1 else 0
  | _, _ => 0

/-- The entries that share the longest prefix with a string; `empty` tells whether
sharing the empty prefix counts. -/
def similar (empty : Bool) (s : List Nat) (l : List (List Nat × V)) : List (List Nat × V) :=
  (heaviest (fun x => sharedLength s x.1) l).filter fun x => empty || 0 < sharedLength s x.1

/-! ## shared prefixes -/

theorem sharedLength_append (key s k : List Nat) :
    sharedLength (key ++ s) (key ++ k) = key.length + sharedLength s k := by
  induction key with
  | nil => exact (Nat.zero_add _).symm
  | cons c key ih =>
    rw [cons_append, cons_append, sharedLength, if_pos rfl, ih, length_cons]
    omega

theorem sharedLength_key (key s : List Nat) : sharedLength (key ++ s) key = key.length := by
  have happend := sharedLength_append key s []
  rw [append_nil] at happend
  rw [happend]
  cases s <;> rfl

variable {c : Nat} {l : List (List Nat × V)} {e : Element V} {first : List Nat → Prop}

theorem sharedLength_branch (key : List Nat) (hd : d ≠ c) (t k : List Nat) :
    sharedLength (key ++ c :: t) (key ++ d :: k) = key.length := by
  rw [sharedLength_append, sharedLength, if_neg (Ne.symm hd), Nat.add_zero]

theorem sharedLength_below (key : List Nat) (c : Nat) (t k : List Nat) :
    key.length < sharedLength (key ++ c :: t) (key ++ [c] ++ k) := by
  rw [append_assoc, sharedLength_append, singleton_append, sharedLength, if_pos rfl]
  omega

theorem similar_of_eq (h : ∀ x ∈ l, sharedLength s x.1 = m) (hm : empty = true ∨ 0 < m) :
    similar empty s l = l := by
  rw [similar, heaviest_of_eq h]
  refine filter_eq_self.mpr fun x hx => ?_
  rw [h x hx]
  rcases hm with hm | hm <;> simp [hm]

theorem similar_of_eq_zero (h : ∀ x ∈ l, sharedLength s x.1 = 0) : similar false s l = [] := by
  rw [similar, heaviest_of_eq h]
  refine filter_eq_nil_iff.mpr fun x hx => ?_
  rw [h x hx]
  simp

theorem similar_filter (hne : l.filter p ≠ []) (hlt : ∀ x ∈ l, ∀ y ∈ l, p x = true → p y = false →
      sharedLength s y.1 < sharedLength s x.1) :
    similar empty s l = similar empty s (l.filter p) := by
  rw [similar, similar, heaviest_filter hne hlt]

/-! ## the entries at a character of the string -/

/-- The entries whose keys go on with the character `c`. -/
abbrev goesOn (key : List Nat) (c : Nat) (x : List Nat × V) : Bool := (key ++ [c]).isPrefixOf x.1

theorem filter_goesOn (key : List Nat) (c : Nat) {v : Option V} (h : Formed (.node i0 i1 data, v)) :
    (entriesOne key (.node i0 i1 data, v)).filter (goesOn key c) =
      (child c i0 i1 data).elim [] (entriesOne (key ++ [c])) := by
  have hP : ∀ d k (x : V), d ≠ c → goesOn key c (key ++ d :: k, x) = false := by
    intro d k x hd
    rw [goesOn, isPrefixOf_append]
    simp [List.isPrefixOf, Ne.symm hd]
  have hvalue : (v.map fun v => (key, v)).toList.filter (goesOn key c) = [] := by
    cases v with
    | none => rfl
    | some x =>
      have hself : goesOn key c (key, x) = false := by
        have happend := isPrefixOf_append key [c] []
        rw [append_nil] at happend
        exact happend
      simp [hself]
  rw [entriesOne_node, filter_append, hvalue, nil_append,
    filter_entriesElement_child key _ h hP]
  cases hchild : child c i0 i1 data with
  | none => rfl
  | some e =>
    refine filter_eq_self.mpr fun x hx => ?_
    obtain ⟨k, hk, -⟩ := (mem_entriesOne (h.elements e (child_mem hchild).1) _ _ _).mp hx
    rw [goesOn, hk, isPrefixOf_iff_prefix]
    exact prefix_append _ _

theorem sharedLength_of_not_goesOn (h : Formed e) (hx : x ∈ entriesOne key e)
    (hgoes : goesOn key c x = false) (t : List Nat) :
    sharedLength (key ++ c :: t) x.1 = key.length := by
  obtain ⟨k, hk, -⟩ := (mem_entriesOne h _ _ _).mp hx
  rw [hk]
  cases k with
  | nil => rw [append_nil, sharedLength_key]
  | cons d k =>
    refine sharedLength_branch key (fun hd => ?_) t k
    rw [goesOn, hk, isPrefixOf_append, hd] at hgoes
    simp [List.isPrefixOf] at hgoes

theorem sharedLength_of_goesOn (hgoes : goesOn key c x = true) (t : List Nat) :
    key.length < sharedLength (key ++ c :: t) x.1 := by
  obtain ⟨k, hk⟩ := isPrefixOf_iff_prefix.mp hgoes
  rw [← hk]
  exact sharedLength_below key c t k

/-- **Step lemma**: when there are keys below the child at the next character, the
similar ones are among them. -/
theorem similar_child (h : Formed (.node i0 i1 data, v)) (hchild : child c i0 i1 data = some e)
    (hne : entriesOne (key ++ [c]) e ≠ []) (empty : Bool) (t : List Nat) :
    similar empty (key ++ c :: t) (entriesOne key (.node i0 i1 data, v)) =
      similar empty (key ++ c :: t) (entriesOne (key ++ [c]) e) := by
  have hfilter := filter_goesOn key c h
  rw [hchild, elim_some] at hfilter
  rw [← hfilter]
  refine similar_filter (hfilter ▸ hne) fun x hx y hy hpx hpy => ?_
  rw [sharedLength_of_not_goesOn h hy hpy]
  exact sharedLength_of_goesOn hpx t

theorem sharedLength_of_no_child (h : Formed (.node i0 i1 data, v))
    (hnone : (child c i0 i1 data).elim [] (entriesOne (key ++ [c])) = [])
    {x : List Nat × V} (hx : x ∈ entriesOne key (.node i0 i1 data, v)) (t : List Nat) :
    sharedLength (key ++ c :: t) x.1 = key.length := by
  rw [← filter_goesOn key c h] at hnone
  exact sharedLength_of_not_goesOn h hx
    (Bool.eq_false_iff.mpr (filter_eq_nil_iff.mp hnone x hx)) t

theorem sharedLength_of_end (h : Formed e) (hx : x ∈ entriesOne key e) :
    sharedLength key x.1 = key.length := by
  obtain ⟨k, hk, -⟩ := (mem_entriesOne h _ _ _).mp hx
  have happend := sharedLength_append key [] k
  rw [append_nil] at happend
  rw [hk, happend]
  rfl

/-! ## what a search that stops at once finds -/

/-- The first key of a node is followed, at any level, by no other one behind a
child node on its path. -/
def FirstFound (n : Tree V) : Prop :=
  ∀ x, (entriesNode [] n).head? = some x → NothingAfter x.1 n

theorem ne_of_later {key : List Nat} {j0 j1 : Nat} {below data : List (Element V)}
    {x y : List Nat × V} (hx : x ∈ entriesNode (key ++ [c]) (.node j0 j1 below))
    (hy : y ∈ entriesElement key (c + 1) data) : y ≠ x := by
  have hbelow := entriesNode_key (key ++ [c]) [] (.node j0 j1 below)
  rw [append_nil] at hbelow
  rw [hbelow] at hx
  obtain ⟨x', -, rfl⟩ := List.mem_map.mp hx
  obtain ⟨i, e, -, hy⟩ := mem_entriesElement.mp hy
  have hlater := entriesOne_key (key ++ [c + 1 + i]) [] e
  rw [append_nil] at hlater
  rw [hlater] at hy
  obtain ⟨y', -, rfl⟩ := List.mem_map.mp hy
  intro heq
  have hkey := congrArg Prod.fst heq
  simp only [append_assoc, append_cancel_left_eq, singleton_append,
    List.cons.injEq] at hkey
  omega

/-- The accumulator stays when there is no entry, and becomes one of the entries
otherwise, the first one when it is followed by nothing. -/
def Takes (a r : Option (List Nat × V)) (es : List (List Nat × V)) (first : List Nat → Prop) :
    Prop :=
  (es = [] → r = a) ∧ ∀ x l, es = x :: l → ∃ y ∈ es, r = some y ∧ (y = x ↔ first x.1)

theorem takes_nil (a : Option (List Nat × V)) (first : List Nat → Prop) : Takes a a [] first :=
  ⟨fun _ => rfl, fun _ _ h => nomatch h⟩

theorem takes_cons (a : Option (List Nat × V)) (x : List Nat × V) (l : List (List Nat × V))
    (hfirst : first x.1) : Takes a (some x) (x :: l) first := by
  refine ⟨fun h => (nomatch h), ?_⟩
  rintro x' l' h
  cases h
  exact ⟨x, mem_cons_self, rfl, iff_of_true rfl hfirst⟩

theorem Takes.congr {a r : Option (List Nat × V)} {es : List (List Nat × V)}
    {first' : List Nat → Prop} (h : Takes a r es first)
    (hfirst : ∀ x ∈ es, (first x.1 ↔ first' x.1)) : Takes a r es first' := by
  refine ⟨h.1, fun x l hes => ?_⟩
  obtain ⟨y, hy, hr, hyx⟩ := h.2 x l hes
  exact ⟨y, hy, hr, hyx.trans (hfirst x (hes ▸ mem_cons_self))⟩

/-- **Composition**: entries behind others replace what was taken. -/
theorem Takes.append {a r1 r : Option (List Nat × V)} {es1 es2 : List (List Nat × V)}
    {first1 first2 : List Nat → Prop} (h1 : Takes a r1 es1 first1) (h2 : Takes r1 r es2 first2)
    (hdisjoint : ∀ x ∈ es1, ∀ y ∈ es2, y ≠ x)
    (hfirst1 : ∀ x ∈ es1, (first x.1 ↔ es2 = [] ∧ first1 x.1))
    (hfirst2 : ∀ x ∈ es2, (first x.1 ↔ first2 x.1)) : Takes a r (es1 ++ es2) first := by
  cases es1 with
  | nil =>
    obtain rfl := h1.1 rfl
    exact h2.congr fun x hx => (hfirst2 x hx).symm
  | cons x1 l1 =>
    refine ⟨fun h => (nomatch h), fun x l hes => ?_⟩
    cases hes
    obtain ⟨y, hy, rfl, hyx⟩ := h1.2 x1 l1 rfl
    rw [hfirst1 x1 mem_cons_self]
    cases es2 with
    | nil =>
      refine ⟨y, mem_append_left [] hy, h2.1 rfl, ?_⟩
      rw [hyx]
      exact ⟨fun h => ⟨rfl, h⟩, And.right⟩
    | cons x2 l2 =>
      obtain ⟨z, hz, rfl, -⟩ := h2.2 x2 l2 rfl
      refine ⟨z, mem_append_right _ hz, rfl, ?_⟩
      exact iff_of_false (hdisjoint x1 mem_cons_self z hz) fun h => nomatch h.1

mutual

theorem iteraNode_takes (key : List Nat) (a : Option (List Nat × V)) (n : Tree V) :
    Takes a (iteraNode takeEntry key a n).run (entriesNode key n)
      fun k => ∀ q, k = key ++ q → NothingAfter q n := by
  match n with
  | .str t =>
    rw [iteraNode, entriesNode]
    exact takes_nil a _
  | .node i0 i1 data =>
    rw [iteraNode, entriesNode]
    exact iteraElement_takes key i0 i1 a data

theorem iteraElement_takes (key : List Nat) (c i1 : Nat) (a : Option (List Nat × V))
    (data : List (Element V)) :
    Takes a (iteraElement takeEntry key c a data).run (entriesElement key c data)
      fun k => ∀ q, k = key ++ q → NothingAfter q (.node c i1 data) := by
  match data with
  | [] =>
    rw [iteraElement, entriesElement]
    exact takes_nil a _
  | (.node j0 j1 below, none) :: data =>
    have hbelow := iteraNode_takes (key ++ [c]) a (.node j0 j1 below)
    rw [iteraElement, entriesElement, entriesOne]
    refine hbelow.append (iteraElement_takes key (c + 1) i1 _ data)
      (fun x hx y hy => ne_of_later hx hy) (fun x hx => ?_) fun x hx => after_tail (x := x.2) hx
    exact after_head (x := x.2) hx
  | (.node j0 j1 below, some v) :: data =>
    rw [iteraElement, entriesElement, entriesOne, cons_append]
    refine takes_cons a (key ++ [c], v) _ fun q hq => ?_
    exact append_cancel_left hq ▸ nothingAfter_single _ _
  | (.str t, none) :: data =>
    rw [iteraElement, entriesElement, entriesOne, nil_append]
    exact (iteraElement_takes key (c + 1) i1 a data).congr fun x hx =>
      (after_tail (x := x.2) hx).symm
  | (.str t, some v) :: data =>
    rw [iteraElement, entriesElement, entriesOne, singleton_append]
    refine takes_cons a (key ++ [c] ++ t, v) _ fun q hq => ?_
    rw [append_assoc] at hq
    exact append_cancel_left hq ▸ nothingAfter_head_str c t t (some v) i1 data

end

/-- `find_similar_element/2` finds the first entry of a node when nothing follows it. -/
theorem findSimilarElement_iff (key : List Nat) (n : Tree V) :
    findSimilarElement key n = (entriesNode key n).head? ↔ FirstFound n := by
  obtain ⟨hnil, hcons⟩ := iteraNode_takes key none n
  have hkey := entriesNode_key key [] n
  rw [append_nil] at hkey
  rw [FirstFound, findSimilarElement]
  cases hes : entriesNode [] n with
  | nil =>
    rw [hes] at hkey
    rw [hnil hkey, hkey]
    exact iff_of_true rfl fun x h => nomatch h
  | cons x l =>
    rw [hes, map_cons] at hkey
    obtain ⟨y, -, hr, hyx⟩ := hcons _ _ hkey
    rw [hr, hkey, head?_cons, some_inj, hyx]
    simp

/-- `find_similar_element/2` finds the value of a suffix when no element before it
has a value. -/
theorem iteraElement_suffix (key : List Nat) (c : Nat) (a : Option (List Nat × V))
    (hget : data[i]? = some (.str s, some x)) :
    (iteraElement takeEntry key c a data).run = some (key ++ [c + i] ++ s, x) ↔
      ∀ e ∈ data.take i, e.2 = none := by
  induction data generalizing c a i with
  | nil => cases hget
  | cons e data ih =>
    cases i with
    | zero =>
      cases hget
      rw [iteraElement]
      exact iff_of_true rfl fun e he => absurd he not_mem_nil
    | succ i =>
      have hrest := fun a => ih (c + 1) a (getElem?_cons_succ ▸ hget)
      have hidx : c + 1 + i = c + (i + 1) := by omega
      rw [hidx] at hrest
      rw [take_succ_cons, forall_mem_cons]
      obtain ⟨n, value⟩ := e
      cases value with
      | none =>
        cases n with
        | node j0 j1 below =>
          rw [iteraElement]
          exact (hrest _).trans (and_iff_right rfl).symm
        | str t =>
          rw [iteraElement]
          exact (hrest _).trans (and_iff_right rfl).symm
      | some v =>
        cases n with
        | node j0 j1 below =>
          rw [iteraElement]
          refine iff_of_false (fun h => ?_) fun h => (some_ne_none v h.1).elim
          have hkey := congrArg Prod.fst (Option.some.inj h)
          simp at hkey
        | str t =>
          rw [iteraElement]
          refine iff_of_false (fun h => ?_) fun h => (some_ne_none v h.1).elim
          have hkey := congrArg Prod.fst (Option.some.inj h)
          simp at hkey

/-! ## the folds are over entries -/

/-- A fold over entries. -/
def Fold.over (fold : Fold) (f : List Nat → V → A → A) (a : A) (l : List (List Nat × V)) : A :=
  match fold with
  | .foldl => l.foldl (fun a x => f x.1 x.2 a) a
  | .foldr => l.foldr (fun x a => f x.1 x.2 a) a

section

variable (fold : Fold) (f : List Nat → V → A → A) (a : A)

include fold f a

theorem over_singleton (x : List Nat × V) : fold.over f a [x] = f x.1 x.2 a := by
  cases fold <;> rfl

theorem foldSimilarElement_eq (key : List Nat) (n : Tree V)
    : foldSimilarElement fold f a key n = fold.over f a (entriesNode key n) := by
  cases fold with
  | foldl => exact foldlNode_eq f key a n
  | foldr => exact foldrNode_eq f key a n

theorem foldSimilarValue_eq (key : List Nat) (value : Option V) (i0 i1 : Nat)
    (data : List (Element V)) : foldSimilarValue fold f a key value (.node i0 i1 data) =
      fold.over f a (entriesOne key (.node i0 i1 data, value)) := by
  cases value with
  | none => exact foldSimilarElement_eq fold f a key _
  | some v =>
    cases fold with
    | foldl => exact foldlNode_eq f key (f key v a) _
    | foldr => exact congrArg (f key v) (foldrNode_eq f key a _)

end

/-- `fold_similar_node/8` is a fold over these entries, in both directions. -/
def FoldsOver (t : List Nat) (c : Nat) (key : List Nat) (v : Option V) (n : Tree V)
    (l : List (List Nat × V)) : Prop :=
  ∀ (fold : Fold) (A : Type) (f : List Nat → V → A → A) (a : A),
    foldSimilarNode fold f a t c key v n = some (fold.over f a l)

/-! ## where the string leaves the trie -/

/-- The string leaves the trie at a node, by a character or its end, and the value and the keys of
the node are taken.  When there are none, `lost` has to hold; a search must find
the first of them. -/
def LeavesAt (lost : Prop) (v : Option V) (n : Tree V) : Prop :=
  (entriesOne [] (n, v) = [] → lost) ∧ (v = none → FirstFound n)

/-- The string ends at, or differs from, a suffix.  One that has a value is taken; the
search must not be misled by an earlier value.  At a suffix without a value, a hole, the
keys of the node are taken, but not its own value. -/
def LeavesAtSuffix (lost : Prop) (counts : Bool) (t : List Nat) (c : Nat) (v : Option V)
    (i0 i1 : Nat) (data : List (Element V)) (s : List Nat) : Option V → Prop
  | some _ => s = t ∨ ∀ e ∈ data.take (c - i0), e.2 = none
  | none => LeavesAt lost v (.node i0 i1 data) ∧
      (entriesOne [] (.node i0 i1 data, v) ≠ [] → counts = true ∧ v = none)

/-- The walk of the string down the trie, and where it leaves the trie. -/
def LeavesRight (lost : Prop) : Bool → List Nat → Nat → Option V → Tree V → Prop
  | _, _, _, _, .str _ => False
  | counts, [], c, v, .node i0 i1 data =>
      if c < i0 ∨ c > i1 then LeavesAt lost v (.node i0 i1 data)
      else match data[c - i0]? with
        | none => False
        | some (.node j0 j1 below, w) => LeavesAt lost w (.node j0 j1 below)
        | some (.str s, w) => LeavesAtSuffix lost counts [] c v i0 i1 data s w
  | counts, c1 :: t1, c, v, .node i0 i1 data =>
      if c < i0 ∨ c > i1 then LeavesAt lost v (.node i0 i1 data)
      else match data[c - i0]? with
        | none => False
        | some (.node j0 j1 below, w) => LeavesRight lost true t1 c1 w (.node j0 j1 below)
        | some (.str s, w) => LeavesAtSuffix lost counts (c1 :: t1) c v i0 i1 data s w

section Walk

variable {empty : Bool} {s : List Nat} {all : List (List Nat × V)}

/-- The answer of a search at a node. -/
def findAt (key : List Nat) (v : Option V) (n : Tree V) : Option (List Nat × V) :=
  match v with
  | none => findSimilarElement key n
  | some v => some (key, v)

variable {key t suffix : List Nat} {c : Nat} {counts : Bool}

theorem leavesAt_iff {v : Option V} {i0 i1 : Nat} {data : List (Element V)}
    (hsame : entriesOne key (.node i0 i1 data, v) ≠ [] →
      similar empty s all = entriesOne key (.node i0 i1 data, v)) :
    (entriesOne key (.node i0 i1 data, v) = similar empty s all ∧
        findAt key v (.node i0 i1 data) = (similar empty s all).head?) ↔
      LeavesAt (similar empty s all = []) v (.node i0 i1 data) := by
  rw [LeavesAt, ← entriesOne_eq_nil_iff key]
  by_cases hnil : entriesOne key (.node i0 i1 data, v) = []
  · have hv : v = none := by
      cases v with
      | none => rfl
      | some x => cases hnil
    subst hv
    have hfirst : FirstFound (.node i0 i1 data) := by
      intro x hx
      have hnode : entriesNode [] (.node i0 i1 data) = [] :=
        (entriesOne_eq_nil_iff key (.node i0 i1 data, none)).mp hnil
      rw [hnode] at hx
      cases hx
    have hfind : findAt key none (.node i0 i1 data) = none := by
      refine ((findSimilarElement_iff key _).mpr hfirst).trans ?_
      exact congrArg List.head? hnil
    rw [hnil, hfind]
    constructor
    · rintro ⟨hsimilar, -⟩
      exact ⟨fun _ => hsimilar.symm, fun _ => hfirst⟩
    · rintro ⟨hlost, -⟩
      rw [hlost rfl]
      exact ⟨rfl, rfl⟩
  · rw [hsame hnil, and_iff_right rfl, and_iff_right fun h => absurd h hnil]
    cases v with
    | none => exact (findSimilarElement_iff key _).trans ⟨fun h _ => h, fun h => h rfl⟩
    | some x => exact iff_of_true rfl fun h => nomatch h

variable {v : Option V} {i0 i1 : Nat} {data : List (Element V)} (h : Formed (.node i0 i1 data, v))
  (hs : s = key ++ c :: t) (hcounts : counts = true ↔ empty = true ∨ key ≠ [])
  (hroot : key = [] → v = none) (hlocal : entriesOne key (.node i0 i1 data, v) ≠ [] →
    similar empty s all = similar empty s (entriesOne key (.node i0 i1 data, v)))

include h hs hlocal

theorem similar_of_child (hchild : child c i0 i1 data = some e)
    (hne : entriesOne (key ++ [c]) e ≠ []) :
    similar empty s all = similar empty s (entriesOne (key ++ [c]) e) := by
  subst hs
  rw [hlocal fun hnil => ?_, similar_child h hchild hne]
  have hfilter := filter_goesOn key c h
  rw [hnil, hchild, elim_some] at hfilter
  exact hne hfilter.symm

/-- The answer of a search at a suffix. -/
def findAtSuffix (key t : List Nat) (c i0 i1 : Nat) (data : List (Element V)) (suffix : List Nat)
    (w : Option V) : Option (List Nat × V) :=
  match w with
  | none => findSimilarElement key (.node i0 i1 data)
  | some x => if suffix = t then some (key ++ c :: t, x)
      else findSimilarElement key (.node i0 i1 data)

/-- The entries that are taken at a suffix. -/
def takenAtSuffix (key : List Nat) (c i0 i1 : Nat) (data : List (Element V)) (suffix : List Nat)
    (w : Option V) : List (List Nat × V) :=
  match w with
  | none => entriesNode key (.node i0 i1 data)
  | some x => [(key ++ [c] ++ suffix, x)]

theorem leavesAtSuffix_some (hchild : child c i0 i1 data = some (.str suffix, some x))
    (hrange : ¬ (c < i0 ∨ c > i1)) (hget : data[c - i0]? = some (.str suffix, some x)) :
    (takenAtSuffix key c i0 i1 data suffix (some x) = similar empty s all ∧
        findAtSuffix key t c i0 i1 data suffix (some x) = (similar empty s all).head?) ↔
      LeavesAtSuffix (similar empty s all = []) counts t c v i0 i1 data suffix (some x) := by
  have hone : similar empty s all = [(key ++ [c] ++ suffix, x)] := by
    rw [similar_of_child h hs hlocal hchild (cons_ne_nil _ _), hs]
    refine similar_of_eq (m := sharedLength (key ++ c :: t) (key ++ [c] ++ suffix))
      (fun y hy => ?_) (.inr ?_)
    · rw [entriesOne, mem_singleton] at hy
      rw [hy]
    · exact lt_of_le_of_lt (Nat.zero_le _) (sharedLength_below key c t suffix)
  rw [hone, findAtSuffix, LeavesAtSuffix]
  refine (and_iff_right rfl).trans ?_
  have hkey : key ++ [c] ++ suffix = key ++ c :: suffix := by simp
  by_cases hsuffix : suffix = t
  · rw [if_pos hsuffix, hkey, hsuffix]
    exact iff_of_true rfl (.inl rfl)
  · have hsearch := iteraElement_suffix key i0 none hget
    have hidx : i0 + (c - i0) = c := by omega
    rw [hidx] at hsearch
    rw [if_neg hsuffix, or_iff_right hsuffix, ← hsearch]
    rfl

/-- **Right from a node on**: the folds take the similar entries of the trie, and the
search the first one of them, exactly when the string leaves the trie right. -/
def RightFrom (empty : Bool) (s : List Nat) (all : List (List Nat × V)) (counts : Bool)
    (t : List Nat) (c : Nat) (key : List Nat) (v : Option V) (n : Tree V) : Prop :=
  ∃ l, FoldsOver t c key v n l ∧
    ((l = similar empty s all ∧
        findSimilarEntry t c key v n = some (similar empty s all).head?) ↔
      LeavesRight (similar empty s all = []) counts t c v n)

theorem rightFrom_outside (hkey : key ≠ []) (hc : c < i0 ∨ c > i1) :
    RightFrom empty s all counts t c key v (.node i0 i1 data) := by
  refine ⟨entriesOne key (.node i0 i1 data, v), fun fold A f a => ?_, ?_⟩
  · cases t <;> rw [foldSimilarNode, if_pos hc, foldSimilarValue_eq]
  have hfind : findSimilarEntry t c key v (.node i0 i1 data) =
      some (findAt key v (.node i0 i1 data)) := by
    cases t <;> cases v <;> simp only [findSimilarEntry, if_pos hc, findAt]
  have hleaves : LeavesRight (similar empty s all = []) counts t c v (.node i0 i1 data) =
      LeavesAt (similar empty s all = []) v (.node i0 i1 data) := by
    cases t <;> rw [LeavesRight, if_pos hc]
  rw [hfind, hleaves, some_inj]
  refine leavesAt_iff fun hne => ?_
  rw [hlocal hne]
  refine similar_of_eq (m := key.length) (fun x hx => ?_) (.inr (length_pos_iff.mpr hkey))
  rw [hs]
  refine sharedLength_of_no_child h ?_ hx t
  rw [child_out hc]
  rfl

include hcounts hroot

/-- At a hole, the keys of the node share the characters above it. -/
theorem leavesAtSuffix_none (hchild : child c i0 i1 data = some (.str suffix, none)) :
    (takenAtSuffix key c i0 i1 data suffix none = similar empty s all ∧
        findAtSuffix key t c i0 i1 data suffix none = (similar empty s all).head?) ↔
      LeavesAtSuffix (similar empty s all = []) counts t c v i0 i1 data suffix none := by
  rw [LeavesAtSuffix]
  have hsame : ∀ y ∈ entriesOne key (.node i0 i1 data, v), sharedLength s y.1 = key.length := by
    intro y hy
    rw [hs]
    refine sharedLength_of_no_child h ?_ hy t
    rw [hchild]
    rfl
  by_cases hnil : entriesOne key (.node i0 i1 data, v) = []
  · have hv : v = none := by
      cases v with
      | none => rfl
      | some x => cases hnil
    subst hv
    have hleaves := @leavesAt_iff V empty s all key none i0 i1 data fun hne => absurd hnil hne
    refine hleaves.trans (and_iff_left fun hne => absurd hnil ?_).symm
    exact fun hnil' => hne ((entriesOne_eq_nil_iff key _).mp hnil')
  have hnil' : entriesOne [] (.node i0 i1 data, v) ≠ [] :=
    fun h => hnil ((entriesOne_eq_nil_iff key _).mpr h)
  by_cases hcount : empty = true ∨ key ≠ []
  · have hall : similar empty s all = entriesOne key (.node i0 i1 data, v) := by
      rw [hlocal hnil]
      exact similar_of_eq hsame (hcount.imp id length_pos_iff.mpr)
    cases v with
    | none =>
      refine (leavesAt_iff fun _ => hall).trans (and_iff_left fun _ => ?_).symm
      exact ⟨hcounts.mpr hcount, rfl⟩
    | some x =>
      refine iff_of_false ?_ fun h => nomatch (h.2 hnil').2
      rintro ⟨htaken, -⟩
      rw [hall] at htaken
      exact cons_ne_self _ _ htaken.symm
  · -- at the root, when a key that shares nothing does not count
    obtain ⟨hempty, hkey⟩ := not_or.mp hcount
    rw [not_not] at hkey
    subst hkey
    rw [Bool.not_eq_true] at hempty
    have hnone : similar empty s all = [] := by
      rw [hlocal hnil, hempty]
      exact similar_of_eq_zero hsame
    refine iff_of_false ?_ fun h => hcount (hcounts.mp (h.2 hnil').1)
    rintro ⟨htaken, -⟩
    rw [hnone] at htaken
    refine hnil (Eq.trans ?_ htaken)
    rw [hroot rfl]
    rfl

theorem leavesAtSuffix_iff (hrange : ¬ (c < i0 ∨ c > i1))
    (hget : data[c - i0]? = some (.str suffix, w)) :
    (takenAtSuffix key c i0 i1 data suffix w = similar empty s all ∧
        findAtSuffix key t c i0 i1 data suffix w = (similar empty s all).head?) ↔
      LeavesAtSuffix (similar empty s all = []) counts t c v i0 i1 data suffix w := by
  have hchild : child c i0 i1 data = some (.str suffix, w) := by rw [child, if_neg hrange, hget]
  cases w with
  | some x => exact leavesAtSuffix_some h hs hlocal hchild hrange hget
  | none => exact leavesAtSuffix_none h hs hcounts hroot hlocal hchild

theorem rightFrom_suffix (hc : ¬ (c < i0 ∨ c > i1)) (hget : data[c - i0]? = some (.str suffix, w)) :
    RightFrom empty s all counts t c key v (.node i0 i1 data) := by
  refine ⟨takenAtSuffix key c i0 i1 data suffix w, fun fold A f a => ?_, ?_⟩
  · cases t <;> cases w <;> simp only [foldSimilarNode, if_neg hc, hget, takenAtSuffix,
      over_singleton, foldSimilarElement_eq]
  have hfind : findSimilarEntry t c key v (.node i0 i1 data) =
      some (findAtSuffix key t c i0 i1 data suffix w) := by
    cases t with
    | nil => cases w <;> cases suffix <;> simp [findSimilarEntry, if_neg hc, hget, findAtSuffix]
    | cons c1 t1 =>
      cases w with
      | none => simp only [findSimilarEntry, if_neg hc, hget, findAtSuffix]
      | some x =>
        simp only [findSimilarEntry, if_neg hc, hget, findAtSuffix]
        split <;> rfl
  have hleaves : LeavesRight (similar empty s all = []) counts t c v (.node i0 i1 data) =
      LeavesAtSuffix (similar empty s all = []) counts t c v i0 i1 data suffix w := by
    cases t <;> simp only [LeavesRight, if_neg hc, hget]
  rw [hfind, hleaves, some_inj]
  exact leavesAtSuffix_iff h hs hcounts hroot hlocal hc hget

/-- **The walk**: by induction on the string. -/
theorem rightFrom (hrange : key = [] → ¬ (c < i0 ∨ c > i1)) :
    RightFrom empty s all counts t c key v (.node i0 i1 data) := by
  induction t generalizing key c v i0 i1 data counts with
  | nil =>
    by_cases hc : c < i0 ∨ c > i1
    · exact rightFrom_outside h hs hlocal (fun hkey => hrange hkey hc) hc
    obtain ⟨e, hget, hformed, -⟩ := h.getElem? hc
    have hchild := child_eq_some hc hget
    match e with
    | (.str suffix, w) => exact rightFrom_suffix h hs hcounts hroot hlocal hc hget
    | (.node j0 j1 below, w) =>
      refine ⟨entriesOne (key ++ [c]) (.node j0 j1 below, w), fun fold A f a => ?_, ?_⟩
      · simp only [foldSimilarNode, if_neg hc, hget, foldSimilarValue_eq]
      have hfind : findSimilarEntry [] c key v (.node i0 i1 data) =
          some (findAt (key ++ [c]) w (.node j0 j1 below)) := by
        cases w <;> simp only [findSimilarEntry, if_neg hc, hget, findAt]
      have hleaves : LeavesRight (similar empty s all = []) counts [] c v (.node i0 i1 data) =
          LeavesAt (similar empty s all = []) w (.node j0 j1 below) := by
        simp only [LeavesRight, if_neg hc, hget]
      rw [hfind, hleaves, some_inj]
      refine leavesAt_iff fun hne => ?_
      rw [similar_of_child h hs hlocal hchild hne, hs]
      refine similar_of_eq (m := (key ++ [c]).length) (fun x hx => ?_) (.inr (by simp))
      exact sharedLength_of_end hformed hx
  | cons c1 t1 ih =>
    by_cases hc : c < i0 ∨ c > i1
    · exact rightFrom_outside h hs hlocal (fun hkey => hrange hkey hc) hc
    obtain ⟨e, hget, hformed, -⟩ := h.getElem? hc
    have hchild := child_eq_some hc hget
    match e with
    | (.str suffix, w) => exact rightFrom_suffix h hs hcounts hroot hlocal hc hget
    | (.node j0 j1 below, w) =>
      have hne : key ++ [c] ≠ [] := concat_ne_nil c key
      have hright : RightFrom empty s all true t1 c1 (key ++ [c]) w (.node j0 j1 below) :=
        ih hformed (by simp [hs]) (iff_of_true rfl (.inr hne)) (fun hnil => absurd hnil hne)
          (similar_of_child h hs hlocal hchild) fun hnil => absurd hnil hne
      obtain ⟨l, hl, hiff⟩ := hright
      refine ⟨l, fun fold A f a => ?_, ?_⟩
      · simpa only [foldSimilarNode, if_neg hc, hget] using hl fold A f a
      · simpa only [findSimilarEntry, LeavesRight, if_neg hc, hget] using hiff

end Walk

/-! ## a whole trie -/

/-- **The similar keys are taken**: the folds take the stored keys that share the
longest prefix with the string, and `find_similar/2` the first of them. -/
structure TakesSimilar (empty : Bool) (s : List Nat) (n : Tree V) : Prop where
  foldl_eq : ∀ (A : Type) (f : List Nat → V → A → A) (a : A), foldlSimilar s f a n =
    some ((similar empty s (toList n)).foldl (fun a x => f x.1 x.2 a) a)
  foldr_eq : ∀ (A : Type) (f : List Nat → V → A → A) (a : A), foldrSimilar s f a n =
    some ((similar empty s (toList n)).foldr (fun x a => f x.1 x.2 a) a)
  toList_eq : toListSimilar s n = some (similar empty s (toList n))
  fetchKeys_eq : fetchKeysSimilar s n = some ((similar empty s (toList n)).map Prod.fst)
  find_eq : findSimilar s n = some (similar empty s (toList n)).head?

/-- The string leaves the trie where its similar keys are; at the root no key is taken for a
character out of range. -/
def LeavesTrieRight (empty : Bool) : List Nat → Tree V → Prop
  | _, .str _ => True
  | [], .node .. => False
  | c :: t, .node i0 i1 data =>
      let lost := similar empty (c :: t) (toList (.node i0 i1 data)) = []
      if c < i0 ∨ c > i1 then lost
      else LeavesRight lost empty t c none (.node i0 i1 data)

theorem takesSimilar_of_over (hl : ∀ (fold : Fold) (A : Type) (f : List Nat → V → A → A) (a : A),
      foldSimilarFrom fold s f a n = some (fold.over f a l)) :
    TakesSimilar empty s n ↔ l = similar empty s (toList n) ∧
      findSimilar s n = some (similar empty s (toList n)).head? := by
  have hlist : toListSimilar s n = some l :=
    (hl .foldr _ _ _).trans (congrArg some foldr_cons_nil)
  constructor
  · intro h
    exact ⟨Option.some.inj (hlist.symm.trans h.toList_eq), h.find_eq⟩
  · rintro ⟨rfl, hfind⟩
    constructor
    case foldl_eq => exact fun A f a => hl .foldl A f a
    case foldr_eq => exact fun A f a => hl .foldr A f a
    case toList_eq => exact hlist
    case fetchKeys_eq =>
        refine (hl .foldr _ _ _).trans (congrArg some ?_)
        exact (foldr_map (f := Prod.fst) (g := List.cons)).symm.trans foldr_cons_nil
    case find_eq => exact hfind

/-- **Similar keys** are taken exactly when the string leaves the trie at a
place that shows them; `empty` tells whether sharing the empty prefix counts. -/
theorem takesSimilar_iff {n : Tree V} (h : Reachable n) (empty : Bool) (s : List Nat) :
    TakesSimilar empty s n ↔ LeavesTrieRight empty s n := by
  have hroot := h.rooted
  match n, s with
  | .str k, s =>
    obtain rfl := hroot.root k rfl
    rw [takesSimilar_of_over (l := []) fun fold A f a => by cases fold <;> rfl]
    exact iff_of_true ⟨rfl, rfl⟩ trivial
  | .node i0 i1 data, [] => exact iff_of_false (fun h => nomatch h.toList_eq) id
  | .node i0 i1 data, c :: t =>
    rw [LeavesTrieRight]
    by_cases hc : c < i0 ∨ c > i1
    · rw [if_pos hc, takesSimilar_of_over (l := []) fun fold A f a => by
        cases fold <;> exact if_pos hc]
      have hfind : findSimilar (c :: t) (.node i0 i1 data) = some none := if_pos hc
      rw [hfind]
      constructor
      · exact fun h => h.1.symm
      · intro hnil
        rw [hnil]
        exact ⟨rfl, rfl⟩
    · have hall : toList (.node i0 i1 data) = entriesOne [] (.node i0 i1 data, none) :=
        toList_entries hroot
      have hright : RightFrom empty (c :: t) (toList (.node i0 i1 data)) empty t c [] none
          (.node i0 i1 data) :=
        rightFrom hroot.formed rfl (by simp) (fun _ => rfl) (fun _ => hall ▸ rfl) fun _ => hc
      obtain ⟨l, hl, hiff⟩ := hright
      have hfind : findSimilar (c :: t) (.node i0 i1 data) =
          findSimilarEntry t c [] none (.node i0 i1 data) := if_neg hc
      rw [if_neg hc, ← hiff, ← hfind]
      exact takesSimilar_of_over fun fold A f a => (if_neg hc).trans (hl fold A f a)

theorem takesSimilar_iff_erasedTrie :
    TakesSimilar true [97, 98] erasedTrie ↔ LeavesTrieRight true [97, 98] erasedTrie :=
  takesSimilar_iff reachable_erasedTrie true [97, 98]

/-- "a", "ab" and "ad" stored. -/
def gapTrie : Tree Nat :=
  .node 97 97 [(.node 98 100 [(.str [], some 2), hole, (.str [], some 3)], some 1)]

/-- **A similar key is left out**: with "a", "ab" and "ad" stored, "a" is not taken
for "ac", whose character `c` is a hole of the node below "a". -/
theorem gap_leaves_out_key : Reachable gapTrie ∧
    ∀ empty, ¬ TakesSimilar empty [97, 99] gapTrie := by
  have ha : Reachable (.node 97 97 [(.str [], some 1)] : Tree Nat) := .store .new rfl
  have hab := Reachable.store ha (show store 97 [98] 2 _ = some _ from rfl)
  refine ⟨.store hab (show store 97 [100] 3 _ = some gapTrie from rfl), fun empty h => ?_⟩
  have hlist := congrArg (Option.map List.length) h.toList_eq
  cases empty <;> exact absurd hlist (by decide)

end CloudI.Trie
