import CloudI.Erlang.Binary
import CloudI.Erlang.Tuple
import CloudI.Trie.Prefix

/-!
# Btrie.Basic

The `btrie` module: the header `trie.hrl` compiled for binary keys.  A suffix is
a binary, a key is built forwards with `<<Key/binary, Character:8>>`, and
`binary_prefix/2` stands for `lists:prefix/2`.

A key is a byte and a binary, the two parts of the pattern `<<H:8, T/binary>>`.
An operation that raises an exception answers `none`, and the value `error` of a
hole is `none`, as in the model of `trie`.
-/

namespace CloudI.Btrie

open CloudI.Tuple
open Trie (ListValue PrefixAnswer)

/-- A trie, or a child in one. -/
inductive Tree (V : Type) where
  | str (s : Binary)
  | node (i0 i1 : Nat) (data : List (Tree V × Option V))

/-- An element `{Child, Value}` of a node. -/
abbrev Element (V : Type) := Tree V × Option V

variable {V W A : Type}

def new : Tree V := .str []

/-- A hole. -/
def hole : Element V := (.str [], none)

/-! ## the private functions of the module -/

/-- `tuple_move_i/5`; the first argument counts the elements that are left. -/
def tupleMoveI : Nat → Nat → Nat → List (Element V) → List (Element V) →
    Option (List (Element V))
  | 0, _, _, t1, _ => some t1
  | n + 1, i1, i0, t1, t0 => do
      let x ← element i0 t0
      let t1 ← setElement i1 t1 x
      tupleMoveI n (i1 + 1) (i0 + 1) t1 t0

/-- `tuple_move/4`: a new tuple of `n` elements `d`, with the tuple `t` at `i`. -/
def tupleMove (i n : Nat) (t : List (Element V)) (d : Element V) : Option (List (Element V)) :=
  if n + 1 ≥ i + t.length then tupleMoveI t.length i 1 (makeTuple n d) t else none

/-- `binary:match/3` of a pattern that is not empty: where the subject has it first. -/
def binaryMatch : Binary → Binary → Option Nat
  | [], _ => none
  | b :: subject, pattern =>
      if pattern.isPrefixOf (b :: subject) then some 0
      else (binaryMatch subject pattern).map (· + 1)

def binaryPrefix : Binary → Binary → Bool
  | [], _ => true
  | b :: keyEnd1, keyEnd2 =>
      match binaryMatch keyEnd2 (b :: keyEnd1) with
      | some 0 => true
      | _ => false

/-- `<<Key/binary, Character:8>>`. -/
def keyCharacter (key : Binary) (character : Nat) : Binary := key ++ [Fin.ofNat 256 character]

/-! ## find and is_key -/

/-- `find_node/3`; the inner `none` is the answer `error`. -/
def findNode : Binary → Byte → Tree V → Option (Option V)
  | _, _, .str _ => none
  | [], h, .node i0 i1 data =>
      if h.val < i0 ∨ h.val > i1 then some none
      else match data[h - i0]? with
        | none => none
        | some (.node .., value) => some value
        | some (.str [], value) => some value
        | some (.str (_ :: _), _) => some none
  | h1 :: t1, h, .node i0 i1 data =>
      if h.val < i0 ∨ h.val > i1 then some none
      else match data[h - i0]? with
        | none => none
        | some (.node j0 j1 below, _) => findNode t1 h1 (.node j0 j1 below)
        | some (.str s, value) => if s = h1 :: t1 then some value else some none

def find (h : Byte) (t : Binary) : Tree V → Option (Option V)
  | .str [] => some none
  | n => findNode t h n

def isKeyNode : Binary → Byte → Tree V → Option Bool
  | _, _, .str _ => none
  | [], h, .node i0 i1 data =>
      if h.val < i0 ∨ h.val > i1 then some false
      else match data[h - i0]? with
        | none => none
        | some (.node .., value) => some value.isSome
        | some (.str [], value) => some value.isSome
        | some (.str (_ :: _), _) => some false
  | h1 :: t1, h, .node i0 i1 data =>
      if h.val < i0 ∨ h.val > i1 then some false
      else match data[h - i0]? with
        | none => none
        | some (.node j0 j1 below, _) => isKeyNode t1 h1 (.node j0 j1 below)
        | some (.str s, value) => if s = h1 :: t1 then some value.isSome else some false

def isKey (h : Byte) (t : Binary) : Tree V → Option Bool
  | .str [] => some false
  | n => isKeyNode t h n

/-! ## store, update and append -/

/-- The clauses that `store_node/4` and `update_node/5` share. -/
def putAt (h : Byte) (t : Binary) (initial : Option V)
    (put : Element V → Option (Element V)) (i0 i1 : Nat) (data : List (Element V)) :
    Option (Tree V) :=
  if h.val < i0 then do
    let v ← initial
    let newData ← tupleMove (i0 - h + 1) (i1 - h + 1) data hole
    let newData ← setElement 1 newData (.str t, some v)
    return .node h i1 newData
  else if h.val > i1 then do
    let v ← initial
    let n := h.val - i0 + 1
    let newData ← tupleMove 1 n data hole
    let newData ← setElement n newData (.str t, some v)
    return .node i0 h newData
  else match data[h - i0]? with
    | none => none
    | some e => (put e).map fun e => .node i0 i1 (data.set (h - i0) e)

/-- `store_node/4` and `update_node/5`, with the arguments of `Trie.putNode`. -/
def putNode (g : Option V → Option V) (onError : Option V) :
    Binary → Byte → Tree V → Option (Tree V)
  | _, _, .str _ => none
  | [], h, .node i0 i1 data =>
      putAt h [] (g none) (fun
        | (.node j0 j1 below, value) => (g value).map fun v => (.node j0 j1 below, some v)
        | (.str [], value) => (g value).map fun v => (.str [], some v)
        | (.str (bh :: bt), value) =>
            (g none).map fun v => (.node bh bh [(.str bt, value)], some v)) i0 i1 data
  | h1 :: t1, h, .node i0 i1 data =>
      putAt h (h1 :: t1) (g none) (fun
        | (.node j0 j1 below, value) =>
            (putNode g onError t1 h1 (.node j0 j1 below)).map fun n => (n, value)
        | (.str s, value) =>
            if s = h1 :: t1 then
              (value.elim onError fun v => g (some v)).map fun v => (.str s, some v)
            else match s with
              | [] =>
                  match value with
                  | none => (g none).map fun v => (.str (h1 :: t1), some v)
                  | some v0 => (g none).map fun v => (.node h1 h1 [(.str t1, some v)], some v0)
              | bh :: bt =>
                  (putNode g onError t1 h1 (.node bh bh [(.str bt, value)])).map fun n =>
                    (n, none))
        i0 i1 data

def store (h : Byte) (t : Binary) (newValue : V) : Tree V → Option (Tree V)
  | .str [] => some (.node h h [(.str t, some newValue)])
  | n => putNode (fun _ => some newValue) (some newValue) t h n

def update (h : Byte) (t : Binary) (f : Option V → Option V) (initial : V) :
    Tree V → Option (Tree V)
  | .str [] => store h t initial (.str [])
  | n => putNode (fun | none => some initial | some v => f (some v)) (f none) t h n

def append [ListValue V] (h : Byte) (t : Binary) (value : V) (n : Tree V) : Option (Tree V) :=
  let valueList := ListValue.cons value ListValue.nil
  update h t (fun oldValue => oldValue.bind (ListValue.append · valueList)) valueList n

/-! ## map, filter, fold and merge -/

mutual

def mapNode (f : Binary → V → W) (key : Binary) : Tree V → Tree W
  | .str s => .str s
  | .node i0 i1 data => .node i0 i1 (mapElement f key i0 data)

def mapElement (f : Binary → V → W) (key : Binary) : Nat → List (Element V) → List (Element W)
  | _, [] => []
  | c, e :: data => mapOne f (keyCharacter key c) e :: mapElement f key (c + 1) data

/-- `map_element/5` at one element. -/
def mapOne (f : Binary → V → W) (newKey : Binary) : Element V → Element W
  | (.str [], none) => (.str [], none)
  | (.str [], some v) => (.str [], some (f newKey v))
  | (n, none) => (mapNode f newKey n, none)
  | (.str s, some v) => (mapNode f newKey (.str s), some (f (newKey ++ s) v))
  | (.node i0 i1 data, some v) => (mapNode f newKey (.node i0 i1 data), some (f newKey v))

end

def map (f : Binary → V → W) : Tree V → Tree W
  | .str [] => .str []
  | n => mapNode f [] n

mutual

def filterNode (f : Binary → V → Bool) (key : Binary) : Tree V → Tree V
  | .str s => .str s
  | .node i0 i1 data => .node i0 i1 (filterElement f key i0 data)

def filterElement (f : Binary → V → Bool) (key : Binary) :
    Nat → List (Element V) → List (Element V)
  | _, [] => []
  | c, e :: data => filterOne f (keyCharacter key c) e :: filterElement f key (c + 1) data

/-- `filter_element/5` at one element. -/
def filterOne (f : Binary → V → Bool) (newKey : Binary) : Element V → Element V
  | (.str [], none) => (.str [], none)
  | (.str [], some v) => if f newKey v then (.str [], some v) else hole
  | (n, none) => (filterNode f newKey n, none)
  | (.str s, some v) => if f (newKey ++ s) v then (.str s, some v) else hole
  | (.node i0 i1 data, some v) =>
      if f newKey v then (.node i0 i1 data, some v)
      else (filterNode f newKey (.node i0 i1 data), none)

end

def filter (f : Binary → V → Bool) : Tree V → Tree V
  | .str [] => .str []
  | n => filterNode f [] n

mutual

/-- `foldl/4`. -/
def foldlNode (f : Binary → V → A → A) (key : Binary) : A → Tree V → A
  | a, .str _ => a
  | a, .node i0 _ data => foldlElement f key i0 a data

def foldlElement (f : Binary → V → A → A) (key : Binary) : Nat → A → List (Element V) → A
  | _, a, [] => a
  | c, a, e :: data => foldlElement f key (c + 1) (foldlOne f (keyCharacter key c) a e) data

/-- `foldl_element/7` at one element. -/
def foldlOne (f : Binary → V → A → A) (newKey : Binary) : A → Element V → A
  | a, (.node i0 i1 data, none) => foldlNode f newKey a (.node i0 i1 data)
  | a, (.node i0 i1 data, some v) => foldlNode f newKey (f newKey v a) (.node i0 i1 data)
  | a, (.str _, none) => a
  | a, (.str s, some v) => f (newKey ++ s) v a

end

def foldl (f : Binary → V → A → A) (a : A) : Tree V → A
  | .str [] => a
  | n => foldlNode f [] a n

mutual

/-- `foldr/4`. -/
def foldrNode (f : Binary → V → A → A) (key : Binary) : A → Tree V → A
  | a, .str _ => a
  | a, .node i0 _ data => foldrElement f key i0 a data

/-- `foldr_element/6`, which starts at the last element. -/
def foldrElement (f : Binary → V → A → A) (key : Binary) : Nat → A → List (Element V) → A
  | _, a, [] => a
  | c, a, e :: data => foldrOne f (keyCharacter key c) (foldrElement f key (c + 1) a data) e

/-- `foldr_element/6` at one element. -/
def foldrOne (f : Binary → V → A → A) (newKey : Binary) : A → Element V → A
  | a, (.node i0 i1 data, none) => foldrNode f newKey a (.node i0 i1 data)
  | a, (.node i0 i1 data, some v) => f newKey v (foldrNode f newKey a (.node i0 i1 data))
  | a, (.str _, none) => a
  | a, (.str s, some v) => f (newKey ++ s) v a

end

def foldr (f : Binary → V → A → A) (a : A) : Tree V → A
  | .str [] => a
  | n => foldrNode f [] a n

def toList (n : Tree V) : List (Binary × V) := foldr (fun key value l => (key, value) :: l) [] n

def merge (f : Binary → V → Option V → V) : Tree V → Tree V → Option (Tree V)
  | node1, .str [] => some node1
  | .str [], node2 => some node2
  | node1, node2 =>
      foldl (fun key v1 acc => acc.bind fun n =>
        match key with
        | [] => none
        | h :: t => update h t (fun v2 => some (f key v1 v2)) v1 n) (some node2) node1

/-! ## find_prefix, find_prefix_longest and find_prefixes -/

def findPrefix : Binary → Tree V → Option (PrefixAnswer V)
  | _, .str [] => some .error
  | _, .str (_ :: _) => none
  | [], .node .. => none
  | [h], .node i0 i1 data =>
      if h.val < i0 ∨ h.val > i1 then some .error
      else match data[h - i0]? with
        | none => none
        | some (.node .., none) => some .onlyPrefix
        | some (.node .., some v) => some (.value v)
        | some (.str _, none) => some .error
        | some (.str [], some v) => some (.value v)
        | some (.str (_ :: _), some _) => some .onlyPrefix
  | h :: h1 :: t1, .node i0 i1 data =>
      if h.val < i0 ∨ h.val > i1 then some .error
      else match data[h - i0]? with
        | none => none
        | some (.node j0 j1 below, _) => findPrefix (h1 :: t1) (.node j0 j1 below)
        | some (.str _, none) => some .error
        | some (.str s, some v) =>
            if s = h1 :: t1 then some (.value v)
            else if binaryPrefix (h1 :: t1) s then some .onlyPrefix
            else some .error

/-- `find_prefix_longest/4`; the inner `none` is the answer `error`. -/
def findPrefixLongestNode : Binary → Binary → Option (Binary × V) → Tree V →
    Option (Option (Binary × V))
  | h :: t, key, lastMatch, .node i0 i1 data =>
      if h.val < i0 ∨ h.val > i1 then some lastMatch
      else match data[h - i0]? with
        | none => none
        | some (.node j0 j1 below, value) =>
            findPrefixLongestNode t (key ++ [h])
              (value.elim lastMatch fun v => some (key ++ [h], v)) (.node j0 j1 below)
        | some (.str s, value) =>
            match binaryPrefix s t, value with
            | true, some v => some (some ((key ++ [h]) ++ s, v))
            | _, _ => some lastMatch
  | _, _, lastMatch, _ => some lastMatch

def findPrefixLongest (l : Binary) : Tree V → Option (Option (Binary × V))
  | .node i0 i1 data => findPrefixLongestNode l [] none (.node i0 i1 data)
  | .str [] => some none
  | .str (_ :: _) => none

/-- `find_prefixes/4`. -/
def findPrefixesNode : Binary → Binary → List (Binary × V) → Tree V →
    Option (List (Binary × V))
  | h :: t, key, acc, .node i0 i1 data =>
      if h.val < i0 ∨ h.val > i1 then some acc.reverse
      else match data[h - i0]? with
        | none => none
        | some (.node j0 j1 below, value) =>
            findPrefixesNode t (key ++ [h]) (value.elim acc fun v => (key ++ [h], v) :: acc)
              (.node j0 j1 below)
        | some (.str s, value) =>
            match binaryPrefix s t, value with
            | true, some v => some (((key ++ [h]) ++ s, v) :: acc).reverse
            | _, _ => some acc.reverse
  | _, _, acc, _ => some acc.reverse

def findPrefixes (l : Binary) : Tree V → Option (List (Binary × V))
  | .node i0 i1 data => findPrefixesNode l [] [] (.node i0 i1 data)
  | .str [] => some []
  | .str (_ :: _) => none

end CloudI.Btrie
