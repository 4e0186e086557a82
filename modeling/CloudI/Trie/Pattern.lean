import CloudI.Trie.Match2

/-!
# Trie.Pattern

`pattern_parse/2,3`: the segments of a string that the wildcards of a pattern stand
for, and `pattern_fill/2` and `pattern2_fill/2`, which put segments into a pattern.
-/

namespace CloudI.Trie

/-! ## pattern_fill -/

/-- The errors of `pattern_fill/2`. -/
inductive FillError where
  | parametersIgnored
  | parameterMissing
  deriving DecidableEq

section Fill

variable (wild : Nat → Prop) [DecidablePred wild]

/-- `pattern_fill_strip/2` and `pattern2_fill_strip/2`. -/
def fillStrip : List Nat → List Nat → Except FillError (List Nat)
  | [], nameOut => .ok nameOut.reverse
  | c :: fillPatternIn, nameOut =>
      if wild c then fillStrip fillPatternIn nameOut
      else fillStrip fillPatternIn (c :: nameOut)

/-- `pattern_fill_insert/4` and `pattern2_fill_insert/4`. -/
def fillInsert : List Nat → List Nat → List (List Nat) → Bool → Except FillError (List Nat)
  | [], nameOut, [], _ => .ok nameOut.reverse
  | [], nameOut, _ :: _, parametersStrictMatching =>
      if parametersStrictMatching = true then .error .parametersIgnored
      else .ok nameOut.reverse
  | c :: fillPatternIn, nameOut, parameters, parametersStrictMatching =>
      if wild c then
        match parameters with
        | [] =>
            if parametersStrictMatching = true then .error .parameterMissing
            else fillStrip wild fillPatternIn nameOut
        | parameter :: parameters =>
            fillInsert fillPatternIn (parameter.reverse ++ nameOut) parameters
              parametersStrictMatching
      else fillInsert fillPatternIn (c :: nameOut) parameters parametersStrictMatching

end Fill

def patternFill (fillPattern : List Nat) (parameters : List (List Nat)) :
    Except FillError (List Nat) := fillInsert (· = star) fillPattern [] parameters true

def pattern2Fill (fillPattern : List Nat) (parameters : List (List Nat)) :
    Except FillError (List Nat) := fillInsert Wild fillPattern [] parameters true

/-! ## pattern_parse -/

/-- The option of `pattern_parse/3`. -/
inductive ParseOption where
  | default
  | withSuffix
  | expanded
  deriving DecidableEq

/-- An element of the list of the option `expanded`: a segment, or
`{exact, String}`. -/
inductive Piece where
  | segment (s : List Nat)
  | exact (s : List Nat)
  deriving DecidableEq

/-- What `pattern_parse/3` answers, a list or, with the suffix, a tuple. -/
inductive Parsed where
  | list (parameters : List Piece)
  | withSuffix (parameters : List Piece) (suffix : List Nat)
  deriving DecidableEq

/-- The parameters behind the literal characters before a wildcard or the end. -/
def withExact (parameters : List Piece) (suffix : List Nat) : List Piece :=
  if suffix ≠ [] then .exact suffix.reverse :: parameters else parameters

def patternParseResult : ParseOption → List Piece → List Nat → Parsed
  | .default, parameters, _ => .list parameters.reverse
  | .withSuffix, parameters, suffix => .withSuffix parameters.reverse suffix.reverse
  | .expanded, parameters, suffix => .list (withExact parameters suffix).reverse

/-- The `NewParsed` of `pattern_parse/5` at a wildcard. -/
def newParsed (option : ParseOption) (parsed : List Piece) (suffix : List Nat) : List Piece :=
  if option = .expanded then withExact parsed suffix else parsed

/-- `pattern_parse_pattern/6`, with the scan of `pattern_parse_element/3` in the same recursion.
`parse` is `pattern_parse/5` of the pattern behind `c`. -/
def patternParsePattern (parse : List Nat → List Nat → Except Exit (Option Parsed)) (c : Nat) :
    List Nat → List Nat → Except Exit (Option Parsed)
  | [], _ => .ok none
  | x :: l, segment =>
      if x = c then do
        match ← parse l segment.reverse with
        | some success => return some success
        | none => patternParsePattern parse c l (c :: segment)
      else if x = star then .error .badarg
      else patternParsePattern parse c l (x :: segment)

/-- `pattern_parse/5`; `none` is `error`. -/
def patternParseLoop (option : ParseOption) :
    List Nat → List Nat → List Piece → List Nat → Except Exit (Option Parsed)
  | [], [], parsed, suffix => .ok (some (patternParseResult option parsed suffix))
  | [], _ :: _, _, _ => .ok none
  | _ :: _, [], _, _ => .ok none
  | [c], h :: t, parsed, suffix =>
      if h = star then .error .badarg
      else if c = star then
        .ok (some (patternParseResult option
          (.segment (h :: t) :: newParsed option parsed suffix) []))
      else if c = h then patternParseLoop option [] t parsed (c :: suffix)
      else .ok none
  | c :: c1 :: pattern, h :: t, parsed, suffix =>
      if h = star then .error .badarg
      else if c = star then
        if c1 = star then .error .badarg
        else patternParsePattern (fun l segment => patternParseLoop option pattern l
          (.segment segment :: newParsed option parsed suffix) [c1]) c1 t [h]
      else if c = h then patternParseLoop option (c1 :: pattern) t parsed (c :: suffix)
      else .ok none

/-- `pattern_parse/3`. -/
def patternParseOption (pattern l : List Nat) (option : ParseOption) :
    Except Exit (Option Parsed) := patternParseLoop option pattern l [] []

def patternParse (pattern l : List Nat) : Except Exit (Option Parsed) :=
  patternParseOption pattern l .default

end CloudI.Trie
