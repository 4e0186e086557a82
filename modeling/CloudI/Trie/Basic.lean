/-!
# Trie.Basic

The `trie` module: a trie over strings (lists of characters).

A node `{I0, I1, Data}` has one element `{Child, Value}` for each character from
`I0` to `I1`; a child is a node or a suffix, the rest of the only key below it.
The empty suffix is also the empty trie, as in the source.  The value `error`
of a hole is `none`.

A key is a character and a list, the two parts of the pattern `[H | T]` that
every operation on a key starts with.  An operation that raises an exception
answers `none`.
-/

namespace CloudI.Trie

/-- A trie, or a child in one. -/
inductive Tree (V : Type) where
  | str (s : List Nat)
  | node (i0 i1 : Nat) (data : List (Tree V × Option V))

/-- An element `{Child, Value}` of a node. -/
abbrev Element (V : Type) := Tree V × Option V

variable {V W A : Type}

def new : Tree V := .str []

/-! ## find, fetch and is_key -/

/-- `find_node/3`; the inner `none` is the answer `error`. -/
def findNode : List Nat → Nat → Tree V → Option (Option V)
  | _, _, .str _ => none
  | [], h, .node i0 i1 data =>
      if h < i0 ∨ h > i1 then some none
      else match data[h - i0]? with
        | none => none
        | some (.node .., value) => some value
        | some (.str [], value) => some value
        | some (.str (_ :: _), _) => some none
  | h1 :: t1, h, .node i0 i1 data =>
      if h < i0 ∨ h > i1 then some none
      else match data[h - i0]? with
        | none => none
        | some (.node j0 j1 data, _) => findNode t1 h1 (.node j0 j1 data)
        | some (.str s, value) => if s = h1 :: t1 then some value else some none

def find (h : Nat) (t : List Nat) : Tree V → Option (Option V)
  | .str [] => some none
  | n => findNode t h n

def fetchNode : List Nat → Nat → Tree V → Option V
  | _, _, .str _ => none
  | [], h, .node i0 i1 data =>
      if h < i0 ∨ h > i1 then none
      else match data[h - i0]? with
        | none => none
        | some (.node .., value) => value
        | some (.str [], value) => value
        | some (.str (_ :: _), _) => none
  | h1 :: t1, h, .node i0 i1 data =>
      if h < i0 ∨ h > i1 then none
      else match data[h - i0]? with
        | none => none
        | some (.node j0 j1 data, _) => fetchNode t1 h1 (.node j0 j1 data)
        | some (.str s, value) => if s = h1 :: t1 then value else none

def fetch (h : Nat) (t : List Nat) (n : Tree V) : Option V := fetchNode t h n

def isKeyNode : List Nat → Nat → Tree V → Option Bool
  | _, _, .str _ => none
  | [], h, .node i0 i1 data =>
      if h < i0 ∨ h > i1 then some false
      else match data[h - i0]? with
        | none => none
        | some (.node .., value) => some value.isSome
        | some (.str [], value) => some value.isSome
        | some (.str (_ :: _), _) => some false
  | h1 :: t1, h, .node i0 i1 data =>
      if h < i0 ∨ h > i1 then some false
      else match data[h - i0]? with
        | none => none
        | some (.node j0 j1 data, _) => isKeyNode t1 h1 (.node j0 j1 data)
        | some (.str s, value) => if s = h1 :: t1 then some value.isSome else some false

def isKey (h : Nat) (t : List Nat) : Tree V → Option Bool
  | .str [] => some false
  | n => isKeyNode t h n

/-! ## store and update -/

/-- A hole. -/
def hole : Element V := (.str [], none)

/-- The four clauses that `store_node/4` and `update_node/5` share: a character
outside of the range of the node widens it, on either side, by holes and an
element for the rest of the key; a character in the range is the element's. -/
def putAt (h : Nat) (t : List Nat) (initial : Option V)
    (put : Element V → Option (Element V)) (i0 i1 : Nat) (data : List (Element V)) :
    Option (Tree V) :=
  if h < i0 then
    initial.map fun v =>
      .node h i1 ((.str t, some v) :: (List.replicate (i0 - h - 1) hole ++ data))
  else if h > i1 then
    initial.map fun v =>
      .node i0 h (data ++ (List.replicate (h - i1 - 1) hole ++ [(.str t, some v)]))
  else match data[h - i0]? with
    | none => none
    | some e => (put e).map fun e => .node i0 i1 (data.set (h - i0) e)

/-- `store_node/4` and `update_node/5`.  `g none` is the value of a new key and
`g (some v)` the value that replaces `v`.  A suffix that is the rest of the key
is replaced whatever its value is; `onError` is the new value when it is the
atom `error`, which only a suffix whose key was erased has. -/
def putNode (g : Option V → Option V) (onError : Option V) :
    List Nat → Nat → Tree V → Option (Tree V)
  | _, _, .str _ => none
  | [], h, .node i0 i1 data =>
      putAt h [] (g none) (fun
        | (.node j0 j1 data, value) => (g value).map fun v => (.node j0 j1 data, some v)
        | (.str [], value) => (g value).map fun v => (.str [], some v)
        | (.str (bh :: bt), value) =>
            (g none).map fun v => (.node bh bh [(.str bt, value)], some v)) i0 i1 data
  | h1 :: t1, h, .node i0 i1 data =>
      putAt h (h1 :: t1) (g none) (fun
        | (.node j0 j1 data, value) =>
            (putNode g onError t1 h1 (.node j0 j1 data)).map fun n => (n, value)
        | (.str s, value) =>
            if s = h1 :: t1 then
              (value.elim onError fun v => g (some v)).map fun v => (.str s, some v)
            else match s with
              | [] =>
                  match value with
                  | none => (g none).map fun v => (.str (h1 :: t1), some v)
                  | some v0 => (g none).map fun v => (.node h1 h1 [(.str t1, some v)], some v0)
              | bh :: bt =>
                  (putNode g onError t1 h1 (.node bh bh [(.str bt, value)])).map fun n =>
                    (n, none))
        i0 i1 data

def storeNode (h : Nat) (t : List Nat) (newValue : V) : Tree V → Option (Tree V) :=
  putNode (fun _ => some newValue) (some newValue) t h

def store (h : Nat) (t : List Nat) (newValue : V) : Tree V → Option (Tree V)
  | .str [] => some (.node h h [(.str t, some newValue)])
  | n => storeNode h t newValue n

def updateNode (h : Nat) (t : List Nat) (f : Option V → Option V) (initial : V) :
    Tree V → Option (Tree V) :=
  putNode (fun | none => some initial | some v => f (some v)) (f none) t h

/-- `update/4`; the function may raise an exception.  `f none` is its value for
the atom `error`. -/
def update (h : Nat) (t : List Nat) (f : Option V → Option V) (initial : V) :
    Tree V → Option (Tree V)
  | .str [] => store h t initial (.str [])
  | n => updateNode h t f initial n

/-- The values that `append/3`, `append_list/3`, `prefix/3` and `store/2` make:
lists and the atom `empty`.  `append x y` is `x ++ y`, which needs a list, and
`consError x` is `[x | error]`. -/
class ListValue (V : Type) where
  empty : V
  nil : V
  cons : V → V → V
  consError : V → V
  append : V → V → Option V

section ListValue

variable [ListValue V]

def append (h : Nat) (t : List Nat) (value : V) (n : Tree V) : Option (Tree V) :=
  let valueList := ListValue.cons value ListValue.nil
  update h t (fun oldValue => oldValue.bind (ListValue.append · valueList)) valueList n

def appendList (h : Nat) (t : List Nat) (valueList : V) (n : Tree V) : Option (Tree V) :=
  update h t (fun oldValue => oldValue.bind (ListValue.append · valueList)) valueList n

/-- `prefix/3`. -/
def prefixValue (h : Nat) (t : List Nat) (value : V) (n : Tree V) : Option (Tree V) :=
  update h t (fun oldValue => some (oldValue.elim (ListValue.consError value)
    (ListValue.cons value))) (ListValue.cons value ListValue.nil) n

/-- `store/2`. -/
def storeKey (h : Nat) (t : List Nat) (n : Tree V) : Option (Tree V) :=
  store h t ListValue.empty n

/-- An element of the list that `new/1` takes: a pair, another tuple with the
key as its first element or, after an atom, its second, or a key alone. -/
inductive Entry (V : Type) where
  | pair (h : Nat) (t : List Nat) (value : V)
  | tuple (first : Option (Nat × List Nat)) (second : Nat × List Nat) (whole : V)
  | key (h : Nat) (t : List Nat)

def newInstance : List (Entry V) → Tree V → Option (Tree V)
  | [], n => some n
  | .pair h t value :: l, n => (store h t value n).bind (newInstance l)
  | .tuple first second whole :: l, n =>
      let (h, t) := first.getD second
      (store h t whole n).bind (newInstance l)
  | .key h t :: l, n => (storeKey h t n).bind (newInstance l)

/-- `from_list/1`, which is `new/1`. -/
def fromList (l : List (Entry V)) : Option (Tree V) := newInstance l new

end ListValue

/-! ## erase, take and the strict update -/

def eraseNode : List Nat → Nat → Tree V → Option (Tree V)
  | _, _, .str _ => none
  | [], h, .node i0 i1 data =>
      if h < i0 ∨ h > i1 then some (.node i0 i1 data)
      else match data[h - i0]? with
        | none => none
        | some (.str [], some _) => some (.node i0 i1 (data.set (h - i0) hole))
        | some (n, some _) => some (.node i0 i1 (data.set (h - i0) (n, none)))
        | some (_, none) => some (.node i0 i1 data)
  | h1 :: t1, h, .node i0 i1 data =>
      if h < i0 ∨ h > i1 then some (.node i0 i1 data)
      else match data[h - i0]? with
        | none => none
        | some (.str s, value) =>
            if s = h1 :: t1 then
              match value with
              | none => some (.node i0 i1 data)
              | some _ => some (.node i0 i1 (data.set (h - i0) hole))
            else some (.node i0 i1 data)
        | some (.node j0 j1 below, value) =>
            (eraseNode t1 h1 (.node j0 j1 below)).map fun n =>
              .node i0 i1 (data.set (h - i0) (n, value))

def erase (h : Nat) (t : List Nat) : Tree V → Option (Tree V)
  | .str [] => some (.str [])
  | n => eraseNode t h n

/-- `take_node/3`; the inner `none` is the answer `error`. -/
def takeNode : List Nat → Nat → Tree V → Option (Option (V × Tree V))
  | _, _, .str _ => none
  | [], h, .node i0 i1 data =>
      if h < i0 ∨ h > i1 then some none
      else match data[h - i0]? with
        | none => none
        | some (.str [], some v) => some (some (v, .node i0 i1 (data.set (h - i0) hole)))
        | some (n, some v) => some (some (v, .node i0 i1 (data.set (h - i0) (n, none))))
        | some (_, none) => some none
  | h1 :: t1, h, .node i0 i1 data =>
      if h < i0 ∨ h > i1 then some none
      else match data[h - i0]? with
        | none => none
        | some (.str s, value) =>
            if s = h1 :: t1 then
              match value with
              | none => some none
              | some v => some (some (v, .node i0 i1 (data.set (h - i0) hole)))
            else some none
        | some (.node j0 j1 below, value) =>
            (takeNode t1 h1 (.node j0 j1 below)).map fun r => r.map fun (oldValue, n) =>
              (oldValue, .node i0 i1 (data.set (h - i0) (n, value)))

def take (h : Nat) (t : List Nat) : Tree V → Option (Option (V × Tree V))
  | .str [] => some none
  | n => takeNode t h n

/-- What `update/3` does: `none` is an exception before the function is applied,
and `some (x, r)` says that it was applied to `x`, and then answered the trie or
raised an exception. -/
abbrev Applied (V : Type) := Option (Option V × Option (Tree V))

/-- `update_node/4`.  The guard `is_tuple(Node); Node =:= [], Value =/= error`
looks at the value of a suffix only. -/
def updateStrictNode (f : Option V → Option V) : List Nat → Nat → Tree V → Applied V
  | _, _, .str _ => none
  | [], h, .node i0 i1 data =>
      if h < i0 ∨ h > i1 then none
      else match data[h - i0]? with
        | some (.node j0 j1 below, value) =>
            some (value, (f value).map fun v =>
              .node i0 i1 (data.set (h - i0) (.node j0 j1 below, some v)))
        | some (.str [], some x) =>
            some (some x, (f (some x)).map fun v =>
              .node i0 i1 (data.set (h - i0) (.str [], some v)))
        | _ => none
  | h1 :: t1, h, .node i0 i1 data =>
      if h < i0 ∨ h > i1 then none
      else match data[h - i0]? with
        | some (.node j0 j1 below, value) =>
            (updateStrictNode f t1 h1 (.node j0 j1 below)).map fun (x, r) =>
              (x, r.map fun n => .node i0 i1 (data.set (h - i0) (n, value)))
        | some (.str s, some x) =>
            if s = h1 :: t1 then
              some (some x, (f (some x)).map fun v =>
                .node i0 i1 (data.set (h - i0) (.str s, some v)))
            else none
        | _ => none

/-- `update/3`. -/
def updateStrict (h : Nat) (t : List Nat) (f : Option V → Option V) (n : Tree V) : Applied V :=
  updateStrictNode f t h n

/-! ## map, filter, fold and merge -/

/- The functions given to `map`, `filter` and `fold` have no effects, so the
order in which `map_element/5` and `filter_element/5` go through a node is left
out: they work on the elements from the first character `c` on. -/

mutual

def mapNode (f : List Nat → V → W) (key : List Nat) : Tree V → Tree W
  | .str s => .str s
  | .node i0 i1 data => .node i0 i1 (mapElement f key i0 data)

def mapElement (f : List Nat → V → W) (key : List Nat) : Nat → List (Element V) → List (Element W)
  | _, [] => []
  | c, e :: data => mapOne f (key ++ [c]) e :: mapElement f key (c + 1) data

/-- `map_element/5` at one element. -/
def mapOne (f : List Nat → V → W) (newKey : List Nat) : Element V → Element W
  | (.str [], none) => (.str [], none)
  | (.str [], some v) => (.str [], some (f newKey v))
  | (n, none) => (mapNode f newKey n, none)
  | (.str s, some v) => (mapNode f newKey (.str s), some (f (newKey ++ s) v))
  | (.node i0 i1 data, some v) => (mapNode f newKey (.node i0 i1 data), some (f newKey v))

end

def map (f : List Nat → V → W) : Tree V → Tree W
  | .str [] => .str []
  | n => mapNode f [] n

mutual

def filterNode (f : List Nat → V → Bool) (key : List Nat) : Tree V → Tree V
  | .str s => .str s
  | .node i0 i1 data => .node i0 i1 (filterElement f key i0 data)

def filterElement (f : List Nat → V → Bool) (key : List Nat) :
    Nat → List (Element V) → List (Element V)
  | _, [] => []
  | c, e :: data => filterOne f (key ++ [c]) e :: filterElement f key (c + 1) data

/-- `filter_element/5` at one element.  An accepted value above a child node
keeps the whole element. -/
def filterOne (f : List Nat → V → Bool) (newKey : List Nat) : Element V → Element V
  | (.str [], none) => (.str [], none)
  | (.str [], some v) => if f newKey v then (.str [], some v) else hole
  | (n, none) => (filterNode f newKey n, none)
  | (.str s, some v) => if f (newKey ++ s) v then (.str s, some v) else hole
  | (.node i0 i1 data, some v) =>
      if f newKey v then (.node i0 i1 data, some v)
      else (filterNode f newKey (.node i0 i1 data), none)

end

def filter (f : List Nat → V → Bool) : Tree V → Tree V
  | .str [] => .str []
  | n => filterNode f [] n

mutual

/-- `foldl/4`. -/
def foldlNode (f : List Nat → V → A → A) (key : List Nat) : A → Tree V → A
  | a, .str _ => a
  | a, .node i0 _ data => foldlElement f key i0 a data

def foldlElement (f : List Nat → V → A → A) (key : List Nat) : Nat → A → List (Element V) → A
  | _, a, [] => a
  | c, a, e :: data => foldlElement f key (c + 1) (foldlOne f (key ++ [c]) a e) data

/-- `foldl_element/7` at one element. -/
def foldlOne (f : List Nat → V → A → A) (newKey : List Nat) : A → Element V → A
  | a, (.node i0 i1 data, none) => foldlNode f newKey a (.node i0 i1 data)
  | a, (.node i0 i1 data, some v) => foldlNode f newKey (f newKey v a) (.node i0 i1 data)
  | a, (.str _, none) => a
  | a, (.str s, some v) => f (newKey ++ s) v a

end

/-- `fold/3`, which is `foldl/3`. -/
def fold (f : List Nat → V → A → A) (a : A) : Tree V → A
  | .str [] => a
  | n => foldlNode f [] a n

mutual

/-- `foldr/4`. -/
def foldrNode (f : List Nat → V → A → A) (key : List Nat) : A → Tree V → A
  | a, .str _ => a
  | a, .node i0 _ data => foldrElement f key i0 a data

/-- `foldr_element/6`, which starts at the last element. -/
def foldrElement (f : List Nat → V → A → A) (key : List Nat) : Nat → A → List (Element V) → A
  | _, a, [] => a
  | c, a, e :: data => foldrOne f (key ++ [c]) (foldrElement f key (c + 1) a data) e

/-- `foldr_element/6` at one element. -/
def foldrOne (f : List Nat → V → A → A) (newKey : List Nat) : A → Element V → A
  | a, (.node i0 i1 data, none) => foldrNode f newKey a (.node i0 i1 data)
  | a, (.node i0 i1 data, some v) => f newKey v (foldrNode f newKey a (.node i0 i1 data))
  | a, (.str _, none) => a
  | a, (.str s, some v) => f (newKey ++ s) v a

end

def foldr (f : List Nat → V → A → A) (a : A) : Tree V → A
  | .str [] => a
  | n => foldrNode f [] a n

section Foreach

variable {m : Type → Type} [Monad m]

mutual

/-- `foreach/3`; the function has effects. -/
def foreachNode (f : List Nat → V → m Unit) (key : List Nat) : Tree V → m Unit
  | .str _ => pure ()
  | .node i0 _ data => foreachElement f key i0 data

def foreachElement (f : List Nat → V → m Unit) (key : List Nat) :
    Nat → List (Element V) → m Unit
  | _, [] => pure ()
  | c, e :: data => do
      foreachOne f (key ++ [c]) e
      foreachElement f key (c + 1) data

/-- `foreach_element/6` at one element. -/
def foreachOne (f : List Nat → V → m Unit) (newKey : List Nat) : Element V → m Unit
  | (.node i0 i1 data, none) => foreachNode f newKey (.node i0 i1 data)
  | (.node i0 i1 data, some v) => do
      f newKey v
      foreachNode f newKey (.node i0 i1 data)
  | (.str _, none) => pure ()
  | (.str s, some v) => f (newKey ++ s) v

end

def foreach (f : List Nat → V → m Unit) : Tree V → m Unit
  | .str [] => pure ()
  | n => foreachNode f [] n

end Foreach

def fetchKeys (n : Tree V) : List (List Nat) := foldr (fun key _ l => key :: l) [] n

def toList (n : Tree V) : List (List Nat × V) := foldr (fun key value l => (key, value) :: l) [] n

def size (n : Tree V) : Nat := fold (fun _ _ i => i + 1) 0 n

def merge (f : List Nat → V → Option V → V) : Tree V → Tree V → Option (Tree V)
  | node1, .str [] => some node1
  | .str [], node2 => some node2
  | node1, node2 =>
      fold (fun key v1 acc => acc.bind fun n =>
        match key with
        | [] => none
        | h :: t => update h t (fun v2 => some (f key v1 v2)) v1 n) (some node2) node1

end CloudI.Trie
