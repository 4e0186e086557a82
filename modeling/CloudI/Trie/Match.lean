import CloudI.Library.Except
import CloudI.Trie.Stored

/-!
# Trie.Match

`find_match/2`: the search for a stored pattern that matches a string.  The
wildcard character `*` stands for one character or more.

The search goes down the trie with the characters of the string, then with a
wildcard of the trie; behind a wildcard it tries the rest of the pattern at
every later character.
-/

namespace CloudI.Trie

variable {V : Type}

/-- The exceptions of the searches. -/
inductive Exit where
  | badarg
  | badmatch
  | functionClause
  deriving DecidableEq

/-- The character `$*`. -/
abbrev star : Nat := 42

/-! ## wildcard_match_lists -/

def wildcardMatchListsValid : List Nat → Bool → Except Exit Bool
  | [], result => .ok result
  | x :: l, result => if x = star then .error .badarg else wildcardMatchListsValid l result

/-- `wildcard_match_lists_pattern/3`, with the scan of
`wildcard_match_lists_element/2` for the character `c` in the same recursion.
`matchPattern` is `wildcard_match_lists/2` of the pattern behind `c`. -/
def wildcardMatchListsPattern (matchPattern : List Nat → Except Exit Bool) (c : Nat) :
    List Nat → Except Exit Bool
  | [] => .ok false
  | x :: l =>
      if x = star then .error .badarg
      else if x = c then do
        if ← matchPattern l then return true
        else wildcardMatchListsPattern matchPattern c l
      else wildcardMatchListsPattern matchPattern c l

def wildcardMatchLists : List Nat → List Nat → Except Exit Bool
  | [], [] => .ok true
  | [], x :: l => wildcardMatchListsValid (x :: l) false
  | _ :: _, [] => .ok false
  | [c], x :: l =>
      if x = star then .error .badarg
      else if c = star then wildcardMatchListsValid l true
      else if c = x then wildcardMatchLists [] l
      else wildcardMatchListsValid (x :: l) false
  | c :: c1 :: pattern, x :: l =>
      if x = star then .error .badarg
      else if c = star then
        if c1 = star then .error .badmatch
        else wildcardMatchListsPattern (wildcardMatchLists pattern) c1 l
      else if c = x then wildcardMatchLists (c1 :: pattern) l
      else wildcardMatchListsValid (x :: l) false

/-! ## find_match -/

/-- What a search answers: `none` is `error`. -/
abbrev Found (V : Type) := Except Exit (Option (List Nat × V))

/-- The suffix `s` of the key `key` with the value `v`, when it matches `l`. -/
def matchSuffix (key s : List Nat) (v : V) (l : List Nat) : Found V :=
  (wildcardMatchLists s l).map fun b => if b then some (key.reverse ++ s, v) else none

/-- The next search, when the first one answers `error`. -/
def orNext (next : Found V) : Found V → Found V
  | .ok none => next
  | result => result

/-- `find_match_pattern_1/3`; `patternN` is `find_match_pattern_N/4` behind the
first character of `l`. -/
def findMatchPattern1 (patternN : List Nat → Option V → Tree V → Found V) (l key : List Nat) :
    Tree V → Found V
  | .str _ => .ok none
  | .node i0 i1 data =>
      if star ≥ i0 ∧ star ≤ i1 then
        match data[star - i0]? with
        | none => .error .badarg
        | some (.node j0 j1 data, value) => patternN (star :: key) value (.node j0 j1 data)
        | some (.str _, none) => .ok none
        | some (.str s, some v) => matchSuffix key (star :: s) v l
      else .ok none

mutual

def findMatchNode : List Nat → List Nat → Tree V → Found V
  | [], _, _ => .ok none
  | _ :: _, _, .str _ => .error .functionClause
  | h :: t, key, .node i0 i1 data =>
      if h = star then .error .badarg
      else orNext (findMatchPattern1 (findMatchPatternN t) (h :: t) key (.node i0 i1 data)) <|
        if h < i0 ∨ h > i1 then .ok none
        else match data[h - i0]? with
          | none => .error .badarg
          | some (childNode, value) =>
              match t, childNode, value with
              | [], .node .., some v => .ok (some (key.reverse ++ [h], v))
              | [], .str [], some v => .ok (some (key.reverse ++ [h], v))
              | [], _, _ => .ok none
              | _ :: _, .node j0 j1 data, _ => findMatchNode t (h :: key) (.node j0 j1 data)
              | _ :: _, .str _, none => .ok none
              | _ :: _, .str s, some v => matchSuffix (h :: key) s v t

def findMatchPatternN : List Nat → List Nat → Option V → Tree V → Found V
  | [], _, none, _ => .ok none
  | [], key, some wildValue, _ => .ok (some (key.reverse, wildValue))
  | _ :: _, _, _, .str _ => .error .functionClause
  | h :: t, key, wildValue, .node i0 i1 data =>
      if h = star then .error .badarg
      else if h < i0 ∨ h > i1 then findMatchPatternN t key wildValue (.node i0 i1 data)
      else orNext (findMatchPatternN t key wildValue (.node i0 i1 data)) <|
        match data[h - i0]? with
        | none => .error .badarg
        | some (.node j0 j1 data, _) => findMatchNode t (h :: key) (.node j0 j1 data)
        | some (.str _, none) => .ok none
        | some (.str s, some v) => matchSuffix (h :: key) s v t

end

def findMatch (l : List Nat) : Tree V → Found V
  | .str [] => .ok none
  | n => findMatchNode l [] n

/-- The part of `find_match_node/3` behind its wildcards, with what searches a node
and a suffix on. -/
def exactPart (node : List Nat → List Nat → Tree V → Found V)
    (suffix : List Nat → List Nat → V → List Nat → Found V) (c : Nat) (t key : List Nat)
    (i0 i1 : Nat) (data : List (Element V)) : Found V :=
  if c < i0 ∨ c > i1 then .ok none
  else match data[c - i0]? with
    | none => .error .badarg
    | some (childNode, value) =>
        match t, childNode, value with
        | [], .node .., some v => .ok (some (key.reverse ++ [c], v))
        | [], .str [], some v => .ok (some (key.reverse ++ [c], v))
        | [], _, _ => .ok none
        | _ :: _, .node j0 j1 data, _ => node t (c :: key) (.node j0 j1 data)
        | _ :: _, .str _, none => .ok none
        | _ :: _, .str s, some v => suffix (c :: key) s v t

end CloudI.Trie
