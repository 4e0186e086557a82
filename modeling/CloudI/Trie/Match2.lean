import CloudI.Trie.Match

/-!
# Trie.Match2

`find_match2/2`: the search for a stored pattern with two wildcards.  `*` stands for one character
or more, and `?` for one or more that are not the literal character behind it.
`pattern2_parse/2` is the parse of a string by one pattern.
-/

namespace CloudI.Trie

variable {V : Type}

/-- The character `$?`. -/
abbrev quest : Nat := 63

/-- A wildcard. -/
abbrev Wild (c : Nat) : Prop := c = star ∨ c = quest

/-! ## pattern2_parse -/

/-- The segments of a string; `none` is `error`. -/
abbrev Segments := Except Exit (Option (List (List Nat)))

/-- `pattern2_parse_pattern0/6`, with the scan of `pattern2_parse_element/3` in the same recursion.
`parse` is `pattern2_parse/5` of the pattern behind `c`. -/
def pattern2ParsePattern0 (parse : List Nat → List Nat → Segments) (c : Nat) :
    List Nat → List Nat → Segments
  | [], _ => .ok none
  | x :: l, segment =>
      if x = c then parse l segment.reverse
      else if Wild x then .error .badarg
      else pattern2ParsePattern0 parse c l (x :: segment)

def pattern2ParsePattern1 (parse : List Nat → List Nat → Segments) (c : Nat) :
    List Nat → List Nat → Segments
  | [], _ => .ok none
  | x :: l, segment =>
      if x = c then do
        match ← parse l segment.reverse with
        | some parsed => return some parsed
        | none => pattern2ParsePattern1 parse c l (c :: segment)
      else if Wild x then .error .badarg
      else pattern2ParsePattern1 parse c l (x :: segment)

/-- `pattern2_parse/5` with the option `default`, which has no use for the suffix. -/
def pattern2ParseLoop : List Nat → List Nat → List (List Nat) → Segments
  | [], [], parsed => .ok (some parsed.reverse)
  | [], _ :: _, _ => .ok none
  | [c], [], _ => if c = quest then .error .badarg else .ok none
  | [c], h :: t, parsed =>
      if Wild h then .error .badarg
      else if c = star then .ok (some ((h :: t) :: parsed).reverse)
      else if c = quest then .error .badarg
      else if c = h then pattern2ParseLoop [] t parsed
      else .ok none
  | _ :: _ :: _, [], _ => .ok none
  | c0 :: c1 :: pattern, h :: t, parsed =>
      if Wild h then .error .badarg
      else if Wild c0 ∧ Wild c1 then .error .badarg
      else if c0 = quest then
        if c1 = h then .ok none
        else pattern2ParsePattern0 (fun l segment => pattern2ParseLoop pattern l (segment :: parsed))
          c1 t [h]
      else if c0 = star then
        pattern2ParsePattern1 (fun l segment => pattern2ParseLoop pattern l (segment :: parsed))
          c1 t [h]
      else if c0 = h then pattern2ParseLoop (c1 :: pattern) t parsed
      else .ok none

def pattern2Parse (pattern l : List Nat) : Segments := pattern2ParseLoop pattern l []

/-! ## wildcard_match2_lists -/

def wildcardMatch2ListsValid : List Nat → Bool → Except Exit Bool
  | [], result => .ok result
  | x :: l, result => if Wild x then .error .badarg else wildcardMatch2ListsValid l result

/-- `wildcard_match2_lists_pattern0/3`, with the scan of `wildcard_match2_lists_element/2` in the
same recursion.  `matchPattern` is `wildcard_match2_lists/2` of the pattern behind `c`. -/
def wildcardMatch2ListsPattern0 (matchPattern : List Nat → Except Exit Bool) (c : Nat) :
    List Nat → Except Exit Bool
  | [] => .ok false
  | x :: l =>
      if Wild x then .error .badarg
      else if x = c then matchPattern l
      else wildcardMatch2ListsPattern0 matchPattern c l

def wildcardMatch2ListsPattern1 (matchPattern : List Nat → Except Exit Bool) (c : Nat) :
    List Nat → Except Exit Bool
  | [] => .ok false
  | x :: l =>
      if Wild x then .error .badarg
      else if x = c then do
        if ← matchPattern l then return true
        else wildcardMatch2ListsPattern1 matchPattern c l
      else wildcardMatch2ListsPattern1 matchPattern c l

def wildcardMatch2Lists : List Nat → List Nat → Except Exit Bool
  | [], [] => .ok true
  | [], x :: l => wildcardMatch2ListsValid (x :: l) false
  | _ :: _, [] => .ok false
  | [c], x :: l =>
      if Wild x then .error .badarg
      else if c = quest then .error .badarg
      else if c = star then wildcardMatch2ListsValid l true
      else if c = x then wildcardMatch2Lists [] l
      else wildcardMatch2ListsValid (x :: l) false
  | c :: c1 :: pattern, x :: l =>
      if Wild x then .error .badarg
      else if c = quest then
        if Wild c1 then .error .badmatch
        else wildcardMatch2ListsPattern0 (wildcardMatch2Lists pattern) c1 l
      else if c = star then
        if Wild c1 then .error .badmatch
        else wildcardMatch2ListsPattern1 (wildcardMatch2Lists pattern) c1 l
      else if c = x then wildcardMatch2Lists (c1 :: pattern) l
      else wildcardMatch2ListsValid (x :: l) false

/-! ## find_match2 -/

/-- The suffix `s` of the key `key` with the value `v`, when it matches `l`. -/
def matchSuffix2 (key s : List Nat) (v : V) (l : List Nat) : Found V :=
  (wildcardMatch2Lists s l).map fun b => if b then some (key.reverse ++ s, v) else none

variable (pattern0N : Option Nat → List Nat → Tree V → Found V)

/-- `find_match2_pattern0_1/4`; `pattern0N` is `find_match2_pattern0_N/4` behind the character
`h`. -/
def findMatch2Pattern01 (h : Nat) (key : List Nat) : Tree V → Found V
  | .str _ => .error .functionClause
  | .node i0 i1 data =>
      if h < i0 ∨ h > i1 then pattern0N none key (.node i0 i1 data)
      else match data[h - i0]? with
        | none => .error .badarg
        | some (_, none) => pattern0N none key (.node i0 i1 data)
        | some (_, some _) => pattern0N (some h) key (.node i0 i1 data)

/-- `find_match2_pattern0_0/3`, for a string that begins with `h`. -/
def findMatch2Pattern00 (h : Nat) (l key : List Nat) : Tree V → Found V
  | .str _ => .ok none
  | .node i0 i1 data =>
      if quest ≥ i0 ∧ quest ≤ i1 then
        match data[quest - i0]? with
        | none => .error .badarg
        | some (.node j0 j1 data, _) =>
            findMatch2Pattern01 pattern0N h (quest :: key) (.node j0 j1 data)
        | some (.str _, none) => .ok none
        | some (.str [], some _) => .ok none
        | some (.str s, some v) => matchSuffix2 key (quest :: s) v l
      else .ok none

/-- `find_match2_pattern1_1/3`; `pattern1N` is `find_match2_pattern1_N/4` behind the first
character of `l`. -/
def findMatch2Pattern11 (pattern1N : List Nat → Option V → Tree V → Found V) (l key : List Nat) :
    Tree V → Found V
  | .str _ => .ok none
  | .node i0 i1 data =>
      if star ≥ i0 ∧ star ≤ i1 then
        match data[star - i0]? with
        | none => .error .badarg
        | some (.node j0 j1 data, value) => pattern1N (star :: key) value (.node j0 j1 data)
        | some (.str _, none) => .ok none
        | some (.str s, some v) => matchSuffix2 key (star :: s) v l
      else .ok none

mutual

def findMatch2Node : List Nat → List Nat → Tree V → Found V
  | [], _, _ => .ok none
  | _ :: _, _, .str _ => .error .functionClause
  | h :: t, key, .node i0 i1 data =>
      if Wild h then .error .badarg
      else orNext (orNext
        (findMatch2Pattern11 (findMatch2Pattern1N t) (h :: t) key (.node i0 i1 data))
        (findMatch2Pattern00 (findMatch2Pattern0N t) h (h :: t) key (.node i0 i1 data))) <|
          if h < i0 ∨ h > i1 then .ok none
          else match data[h - i0]? with
            | none => .error .badarg
            | some (childNode, value) =>
                match t, childNode, value with
                | [], .node .., some v => .ok (some (key.reverse ++ [h], v))
                | [], .str [], some v => .ok (some (key.reverse ++ [h], v))
                | [], _, _ => .ok none
                | _ :: _, .node j0 j1 data, _ => findMatch2Node t (h :: key) (.node j0 j1 data)
                | _ :: _, .str _, none => .ok none
                | _ :: _, .str s, some v => matchSuffix2 (h :: key) s v t

/-- `find_match2_pattern0_N/4`; `ignore` is the character that is passed over. -/
def findMatch2Pattern0N : List Nat → Option Nat → List Nat → Tree V → Found V
  | [], _, _, _ => .ok none
  | h :: t, ignore, key, n =>
      if h = quest then .error .badarg
      else if ignore = some h then findMatch2Pattern0N t ignore key n
      else match n with
        | .str _ => .error .functionClause
        | .node i0 i1 data =>
            if h < i0 ∨ h > i1 then findMatch2Pattern0N t ignore key (.node i0 i1 data)
            else match data[h - i0]? with
              | none => .error .badarg
              | some (.node j0 j1 data, _) => findMatch2Node t (h :: key) (.node j0 j1 data)
              | some (.str _, none) => findMatch2Pattern0N t ignore key (.node i0 i1 data)
              | some (.str s, some v) =>
                  orNext (findMatch2Pattern0N t ignore key (.node i0 i1 data))
                    (matchSuffix2 (h :: key) s v t)

def findMatch2Pattern1N : List Nat → List Nat → Option V → Tree V → Found V
  | [], _, none, _ => .ok none
  | [], key, some wildValue, _ => .ok (some (key.reverse, wildValue))
  | _ :: _, _, _, .str _ => .error .functionClause
  | h :: t, key, wildValue, .node i0 i1 data =>
      if h = star then .error .badarg
      else if h < i0 ∨ h > i1 then findMatch2Pattern1N t key wildValue (.node i0 i1 data)
      else match data[h - i0]? with
        | none => .error .badarg
        | some (.node j0 j1 data', _) =>
            orNext (findMatch2Pattern1N t key wildValue (.node i0 i1 data))
              (findMatch2Node t (h :: key) (.node j0 j1 data'))
        | some (.str _, none) => findMatch2Pattern1N t key wildValue (.node i0 i1 data)
        | some (.str s, some v) =>
            orNext (findMatch2Pattern1N t key wildValue (.node i0 i1 data))
              (matchSuffix2 (h :: key) s v t)

end

def findMatch2 (l : List Nat) : Tree V → Found V
  | .str [] => .ok none
  | n => findMatch2Node l [] n

end CloudI.Trie
