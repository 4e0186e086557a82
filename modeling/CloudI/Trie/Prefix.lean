import CloudI.Trie.Order

/-!
# Trie.Prefix

The searches for prefixes: `find_prefix/2` asks whether a string begins a stored
key, and `find_prefixes/2` and `find_prefix_longest/2` ask which stored keys
begin a string.
-/

namespace CloudI.Trie

open List

variable {V : Type}

/-- What `find_prefix/2` answers. -/
inductive PrefixAnswer (V : Type) where
  | value (v : V)
  | onlyPrefix
  | error
  deriving DecidableEq

def findPrefix : List Nat → Tree V → Option (PrefixAnswer V)
  | _, .str [] => some .error
  | _, .str (_ :: _) => none
  | [], .node .. => none
  | [h], .node i0 i1 data =>
      if h < i0 ∨ h > i1 then some .error
      else match data[h - i0]? with
        | none => none
        | some (.node .., none) => some .onlyPrefix
        | some (.node .., some v) => some (.value v)
        | some (.str _, none) => some .error
        | some (.str [], some v) => some (.value v)
        | some (.str (_ :: _), some _) => some .onlyPrefix
  | h :: h1 :: t1, .node i0 i1 data =>
      if h < i0 ∨ h > i1 then some .error
      else match data[h - i0]? with
        | none => none
        | some (.node j0 j1 below, _) => findPrefix (h1 :: t1) (.node j0 j1 below)
        | some (.str _, none) => some .error
        | some (.str s, some v) =>
            if s = h1 :: t1 then some (.value v)
            else if (h1 :: t1).isPrefixOf s then some .onlyPrefix
            else some .error

/-- `find_prefix_longest/4`.  The key is built backwards; the inner `none` is the
answer `error`. -/
def findPrefixLongestNode : List Nat → List Nat → Option (List Nat × V) → Tree V →
    Option (Option (List Nat × V))
  | h :: t, key, lastMatch, .node i0 i1 data =>
      if h < i0 ∨ h > i1 then some (lastMatch.map fun x => (x.1.reverse, x.2))
      else match data[h - i0]? with
        | none => none
        | some (.node j0 j1 below, value) =>
            findPrefixLongestNode t (h :: key) (value.elim lastMatch fun v => some (h :: key, v))
              (.node j0 j1 below)
        | some (.str s, value) =>
            match s.isPrefixOf t, value with
            | true, some v => some (some ((h :: key).reverse ++ s, v))
            | _, _ => some (lastMatch.map fun x => (x.1.reverse, x.2))
  | _, _, lastMatch, _ => some (lastMatch.map fun x => (x.1.reverse, x.2))

def findPrefixLongest (l : List Nat) : Tree V → Option (Option (List Nat × V))
  | .node i0 i1 data => findPrefixLongestNode l [] none (.node i0 i1 data)
  | .str [] => some none
  | .str (_ :: _) => none

/-- `find_prefixes/4`. -/
def findPrefixesNode : List Nat → List Nat → List (List Nat × V) → Tree V →
    Option (List (List Nat × V))
  | h :: t, key, acc, .node i0 i1 data =>
      if h < i0 ∨ h > i1 then some acc.reverse
      else match data[h - i0]? with
        | none => none
        | some (.node j0 j1 below, value) =>
            findPrefixesNode t (h :: key)
              (value.elim acc fun v => ((h :: key).reverse, v) :: acc) (.node j0 j1 below)
        | some (.str s, value) =>
            match s.isPrefixOf t, value with
            | true, some v => some (((h :: key).reverse ++ s, v) :: acc).reverse
            | _, _ => some acc.reverse
  | _, _, acc, _ => some acc.reverse

def findPrefixes (l : List Nat) : Tree V → Option (List (List Nat × V))
  | .node i0 i1 data => findPrefixesNode l [] [] (.node i0 i1 data)
  | .str [] => some []
  | .str (_ :: _) => none

/-! ## the entries below one character -/

variable {data : List (Element V)} {n : Tree V}

/-- The entries of a node that begin with one character are those of its element. -/
theorem filter_entriesElement {P : List Nat × V → Bool} (hformed : ∀ e ∈ data, Formed e) (c : Nat)
    (hP : ∀ d k x, d ≠ h → P (key ++ d :: k, x) = false) :
    (entriesElement key c data).filter P = if h < c then [] else (data[h - c]?).elim [] fun e =>
        (entriesOne (key ++ [h]) e).filter P := by
  induction data generalizing c with
  | nil => simp [entriesElement]
  | cons e data ih =>
    have hrest := ih (fun e he => hformed e (by simp [he])) (c + 1)
    rw [entriesElement, filter_append, hrest]
    by_cases hc : c = h
    · subst hc
      simp
    · -- the entries of another character are left out
      have hnone : (entriesOne (key ++ [c]) e).filter P = [] := by
        refine filter_eq_nil_iff.mpr fun y hy => ?_
        obtain ⟨k, hk, -⟩ := (mem_entriesOne (hformed e (by simp)) _ _ _).mp hy
        have hy' : y = (key ++ c :: k, y.2) := Prod.ext (by simp [hk]) rfl
        rw [hy', hP c k y.2 hc]
        exact Bool.false_ne_true
      rw [hnone, nil_append]
      by_cases hlt : h < c
      · rw [if_pos (by omega), if_pos hlt]
      · have hidx : h - c = (h - (c + 1)) + 1 := by omega
        rw [if_neg (by omega), if_neg hlt, hidx, getElem?_cons_succ]

theorem filter_entriesElement_child (key : List Nat) (P : List Nat × V → Bool)
    (hformed : Formed (.node i0 i1 data, w)) (hP : ∀ d k x, d ≠ h → P (key ++ d :: k, x) = false) :
    (entriesElement key i0 data).filter P =
      (child h i0 i1 data).elim [] fun e => (entriesOne (key ++ [h]) e).filter P := by
  rw [filter_entriesElement hformed.elements i0 hP, child]
  by_cases hlow : h < i0
  · rw [if_pos hlow, if_pos (.inl hlow)]
    rfl
  · rw [if_neg hlow]
    by_cases hhigh : h > i1
    · have hlen := hformed.length
      rw [if_pos (.inr hhigh), getElem?_eq_none (by omega)]
    · rw [if_neg (by omega)]

/-! ## find_prefixes and find_prefix_longest -/

/-- The keys that begin a string. -/
abbrev isPrefixOf (l : List Nat) (x : List Nat × V) : Bool := x.1.isPrefixOf l

theorem isPrefixOf_append (key s t : List Nat) :
    (key ++ s).isPrefixOf (key ++ t) = s.isPrefixOf t := by
  rw [Bool.eq_iff_iff, isPrefixOf_iff_prefix, isPrefixOf_iff_prefix,
    prefix_append_right_inj]

/-- **Step lemma**: `find_prefixes/4` goes down with the string and gathers, in
order, the entries that begin it. -/
theorem findPrefixesNode_eq (h : Formed (.node i0 i1 data, w)) :
    findPrefixesNode l key acc (.node i0 i1 data) = some (acc.reverse ++
      (entriesElement key.reverse i0 data).filter (isPrefixOf (key.reverse ++ l))) := by
  induction l generalizing key acc i0 i1 data w with
  | nil =>
    have hnone : (entriesElement key.reverse i0 data).filter
        (isPrefixOf (key.reverse ++ [])) = [] := by
      refine filter_eq_nil_iff.mpr fun y hy => ?_
      obtain ⟨i, e, hi, hy⟩ := mem_entriesElement.mp hy
      obtain ⟨k, hk, -⟩ := (mem_entriesOne (h.elements e (mem_of_getElem? hi)) _ _ _).mp hy
      rw [isPrefixOf, hk, append_assoc, isPrefixOf_append]
      exact Bool.false_ne_true
    rw [findPrefixesNode, hnone, append_nil]
    exact fun _ _ _ _ _ h => by cases h
  | cons c t ih =>
    have hP : ∀ d k (x : V), d ≠ c →
        isPrefixOf (key.reverse ++ c :: t) (key.reverse ++ d :: k, x) = false := by
      intro d k x hd
      rw [isPrefixOf, isPrefixOf_append, isPrefixOf_cons_cons]
      simp [hd]
    rw [findPrefixesNode, filter_entriesElement_child _ _ h hP]
    by_cases hc : c < i0 ∨ c > i1
    · rw [if_pos hc, child_out hc, Option.elim_none, append_nil]
    obtain ⟨e, hget, hformed, -⟩ := h.getElem? hc
    rw [if_neg hc, hget, child, if_neg hc, hget, Option.elim_some]
    have hkey : key.reverse ++ [c] = (c :: key).reverse := by rw [reverse_cons]
    have hmatch : key.reverse ++ c :: t = (c :: key).reverse ++ t := by simp
    obtain ⟨n, value⟩ := e
    cases n with
    | node j0 j1 below =>
      rw [hkey, hmatch, entriesOne_node, filter_append, ← append_assoc]
      refine (ih hformed).trans ?_
      congr 2
      cases value with
      | none => simp
      | some v => simp [isPrefixOf]
    | str s =>
      cases value with
      | none => simp [entriesOne]
      | some v =>
        rw [hkey, hmatch, entriesOne]
        have htest : isPrefixOf ((c :: key).reverse ++ t) ((c :: key).reverse ++ s, v) =
            s.isPrefixOf t := isPrefixOf_append _ _ _
        rw [filter_cons, htest, filter_nil]
        cases hs : s.isPrefixOf t with
        | true => simp only [hs, reverse_cons, if_true]
        | false => simp only [hs, Bool.false_eq_true, if_false, append_nil]

/-- `find_prefix_longest/4` keeps the last one of what `find_prefixes/4` gathers. -/
theorem findPrefixLongestNode_eq {lastMatch : Option (List Nat × V)}
    (hlast : lastMatch.map (fun x => (x.1.reverse, x.2)) = acc.head?) :
    findPrefixLongestNode l key lastMatch n = (findPrefixesNode l key acc n).map List.getLast? := by
  fun_induction findPrefixLongestNode l key lastMatch n generalizing acc with
  | case1 | case6 => simp [findPrefixesNode, *]
  | case2 _ _ _ _ _ _ _ hc hget => simp [findPrefixesNode, hc, hget]
  | case3 _ _ _ _ _ _ _ hc _ _ _ value hget ih =>
    rw [findPrefixesNode, if_neg hc, hget]
    refine ih ?_
    cases value with
    | none => exact hlast
    | some v => rfl
  | case4 _ _ _ _ _ _ _ hc _ _ hs hget => simp [findPrefixesNode, hc, hget, hs]
  | case5 _ _ _ _ _ _ _ hc _ _ hget hs => simp [findPrefixesNode, hc, hget, hlast]

/-- **The searches find the prefixes**: `find_prefixes/2` answers the entries whose keys
begin the string, in the order of `to_list/1`, and `find_prefix_longest/2` the last
of them. -/
def FindsPrefixes (n : Tree V) : Prop :=
  ∀ c t, findPrefixes (c :: t) n = some ((toList n).filter (isPrefixOf (c :: t))) ∧
    findPrefixLongest (c :: t) n = some ((toList n).filter (isPrefixOf (c :: t))).getLast?

theorem findsPrefixes (h : Rooted n) : FindsPrefixes n := by
  intro c t
  rw [toList_entries h]
  match n with
  | .str s =>
    rw [h.root s rfl]
    exact ⟨rfl, rfl⟩
  | .node i0 i1 data =>
    have hall : findPrefixesNode (c :: t) [] [] (.node i0 i1 data) =
        some ((entries (.node i0 i1 data)).filter (isPrefixOf (c :: t))) :=
      findPrefixesNode_eq h.formed
    refine ⟨hall, ?_⟩
    show findPrefixLongestNode (c :: t) [] none (.node i0 i1 data) = _
    have hlast : (none : Option (List Nat × V)).map (fun x => (x.1.reverse, x.2)) = [].head? := rfl
    rw [findPrefixLongestNode_eq hlast, hall]
    rfl

end CloudI.Trie
