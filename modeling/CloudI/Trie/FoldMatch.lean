import CloudI.Trie.MatchSpec
import CloudI.Trie.Order

/-!
# Trie.FoldMatch

`fold_match/4`: the fold over the stored keys that match a pattern, where the
wildcard character `*` stands for one character or more.

Outside of a wildcard the search goes down with the characters of the pattern.
Inside of one it goes through all elements of a node, until there is one for the
character behind the wildcard: there the wildcard ends, and the elements after
that one are not looked at.
-/

namespace CloudI.Trie

variable {V A : Type}

/-! ## fold_match -/

/-- A suffix with the value `v`, when the pattern matches it: `F(Key, Value, A)` or `A`. -/
def foldSuffix (f : List Nat → V → A → A) (a : A) (key : List Nat) (v : Option V)
    (pattern suffix : List Nat) : Except Exit A :=
  match v with
  | none => .ok a
  | some v => (wildcardMatchLists pattern suffix).map fun b => if b then f key v a else a

/-- `fold_match_element_N/9` at the character behind the wildcard; `newMatch` is
the rest of the pattern, `node1` its `fold_match_node_1/5`. -/
def foldMatchLeave (node1 : A → List Nat → Tree V → Except Exit A) (newMatch : List Nat)
    (f : List Nat → V → A → A) (a : A) (newPre : List Nat) : Element V → Except Exit A
  | (.node i0 i1 data, value) =>
      match newMatch, value with
      | _ :: _, _ => node1 a newPre (.node i0 i1 data)
      | [], some v => .ok (f newPre.reverse v a)
      | [], none => .ok a
  | (.str s, value) =>
      match newMatch, s, value with
      | _ :: _, s, value => foldSuffix f a (newPre.reverse ++ s) value newMatch s
      | [], _ :: _, _ => .ok a
      | [], [], some v => .ok (f newPre.reverse v a)
      | [], [], none => .ok a

/-- The pattern `{[], error}`. -/
def isHole : Element V → Bool
  | (.str [], none) => true
  | _ => false

section Wildcard

/- The pattern is `[$* | t]`; `leave` is what is done at the character behind the
wildcard.  `pre` and `mid` are the characters in front of the wildcard and those
inside of it, backwards. -/

variable (t : List Nat) (leave : A → List Nat → Element V → Except Exit A)
  (f : List Nat → V → A → A) (pre : List Nat)

/-- The value of a child node inside of the wildcard: of a stored key that matches
when the pattern ends with the wildcard. -/
def foldWildValue (a : A) (newMid : List Nat) (value : Option V) : A :=
  match t, value with
  | [], some v => f (newMid ++ pre).reverse v a
  | _, _ => a

mutual

/-- `fold_match_element_N/9` from the character `c` on. -/
def foldMatchElementN (mid : List Nat) : Nat → A → List (Element V) → Except Exit A
  | _, a, [] => .ok a
  | c, a, e :: data =>
      if c = star then
        if isHole e then foldMatchElementN mid (c + 1) a data else .error .badarg
      else if t.head? = some c then leave a (c :: mid ++ pre) e
      else do
        let a ← foldMatchOneN (c :: mid) a e
        foldMatchElementN mid (c + 1) a data

/-- `fold_match_element_N/9` at one element. -/
def foldMatchOneN (newMid : List Nat) : A → Element V → Except Exit A
  | a, (.node i0 i1 data, value) =>
      foldMatchNodeN newMid (foldWildValue t f pre a newMid value) (.node i0 i1 data)
  | a, (.str s, value) =>
      match t, value with
      | [], none => .ok a
      | [], some v => .ok (f ((newMid ++ pre).reverse ++ s) v a)
      | _ :: _, value => foldSuffix f a (pre.reverse ++ (newMid.reverse ++ s)) value (star :: t)
          (newMid.reverse ++ s)

/-- `fold_match_element_N/9` from the first character of a child node on. -/
def foldMatchNodeN (mid : List Nat) : A → Tree V → Except Exit A
  | a, .str _ => .ok a
  | a, .node i0 _ data => foldMatchElementN mid i0 a data

end

/-- `fold_match_element_1/9` from the character `c` on. -/
def foldMatchElement1 : Nat → A → List (Element V) → Except Exit A
  | _, a, [] => .ok a
  | c, a, e :: data =>
      if c = star then
        if isHole e then foldMatchElement1 (c + 1) a data else .error .badarg
      else do
        let a ← match e with
          | (.node i0 i1 below, value) =>
              foldMatchNodeN t leave f pre [c] (foldWildValue t f pre a [c] value)
                (.node i0 i1 below)
          | (.str s, value) =>
              foldSuffix f a (pre.reverse ++ ([c].reverse ++ s)) value (star :: t) ([c].reverse ++ s)
        foldMatchElement1 (c + 1) a data

end Wildcard

/-- `fold_match_node_1/5`. -/
def foldMatchNode1 (f : List Nat → V → A → A) :
    List Nat → A → List Nat → Tree V → Except Exit A
  | _, _, _, .str _ => .error .functionClause
  | [], _, _, .node .. => .error .functionClause
  | [h], a, pre, .node i0 i1 data =>
      if h = star then foldMatchElement1 [] (fun a _ _ => .ok a) f pre i0 a data
      else if h < i0 ∨ h > i1 then .ok a
      else match data[h - i0]? with
        | none => .error .badarg
        | some (.node .., some v) => .ok (f (h :: pre).reverse v a)
        | some (.str [], some v) => .ok (f (h :: pre).reverse v a)
        | some (.str (_ :: _), some _) => .ok a
        | some (_, none) => .ok a
  | h :: h1 :: t1, a, pre, .node i0 i1 data =>
      if h = star then
        if h1 = star then .error .badarg
        else foldMatchElement1 (h1 :: t1)
          (foldMatchLeave (fun a newPre n => foldMatchNode1 f t1 a newPre n) t1 f) f pre i0 a data
      else if h < i0 ∨ h > i1 then .ok a
      else match data[h - i0]? with
        | none => .error .badarg
        | some (.node j0 j1 below, _) =>
            foldMatchNode1 f (h1 :: t1) a (h :: pre) (.node j0 j1 below)
        | some (.str s, value) => foldSuffix f a ((h :: pre).reverse ++ s) value (h1 :: t1) s

def foldMatch (pattern : List Nat) (f : List Nat → V → A → A) (a : A) :
    Tree V → Except Exit A
  | .str [] => .ok a
  | n => foldMatchNode1 f pattern a [] n

end CloudI.Trie
