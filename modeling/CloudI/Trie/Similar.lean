import CloudI.Trie.Iter

/-!
# Trie.Similar

The operations on the stored keys that are similar to a string:
`foldl_similar/4`, `foldr_similar/4`, `to_list_similar/2`, `fetch_keys_similar/2`
and `find_similar/2`.  They go down the trie with the string and take what they
have reached where the string leaves it.

A string without characters raises an exception, which is `none`, unless the trie
is empty.
-/

namespace CloudI.Trie

variable {V A : Type}

/-- The direction of a fold. -/
inductive Fold where
  | foldl
  | foldr
  deriving DecidableEq

def foldSimilarElement (fold : Fold) (f : List Nat → V → A → A) (a : A) (key : List Nat)
    (n : Tree V) : A :=
  match fold with
  | .foldl => foldlNode f key a n
  | .foldr => foldrNode f key a n

/-- The fold over a node that may have a value of its own, twice in
`fold_similar_node/8`. -/
def foldSimilarValue (fold : Fold) (f : List Nat → V → A → A) (a : A) (key : List Nat)
    (value : Option V) (n : Tree V) : A :=
  match value, fold with
  | none, fold => foldSimilarElement fold f a key n
  | some v, .foldl => foldSimilarElement .foldl f (f key v a) key n
  | some v, .foldr => f key v (foldSimilarElement .foldr f a key n)

def foldSimilarNode (fold : Fold) (f : List Nat → V → A → A) (a : A) :
    List Nat → Nat → List Nat → Option V → Tree V → Option A
  | _, _, _, _, .str _ => none
  | [], h, key, lastValue, .node i0 i1 data =>
      if h < i0 ∨ h > i1 then
        some (foldSimilarValue fold f a key lastValue (.node i0 i1 data))
      else match data[h - i0]? with
        | none => none
        | some (.node j0 j1 below, value) =>
            some (foldSimilarValue fold f a (key ++ [h]) value (.node j0 j1 below))
        | some (.str s, some v) => some (f (key ++ [h] ++ s) v a)
        | some (.str _, none) => some (foldSimilarElement fold f a key (.node i0 i1 data))
  | h1 :: t1, h, key, lastValue, .node i0 i1 data =>
      if h < i0 ∨ h > i1 then
        some (foldSimilarValue fold f a key lastValue (.node i0 i1 data))
      else match data[h - i0]? with
        | none => none
        | some (.node j0 j1 below, value) =>
            foldSimilarNode fold f a t1 h1 (key ++ [h]) value (.node j0 j1 below)
        | some (.str s, some v) => some (f (key ++ [h] ++ s) v a)
        | some (.str _, none) => some (foldSimilarElement fold f a key (.node i0 i1 data))

/-- `foldl_similar/4` and `foldr_similar/4`. -/
def foldSimilarFrom (fold : Fold) (similar : List Nat) (f : List Nat → V → A → A) (a : A) :
    Tree V → Option A
  | .str [] => some a
  | n => match similar, n with
      | h :: t, .node i0 i1 data =>
          if h < i0 ∨ h > i1 then some a
          else foldSimilarNode fold f a t h [] none (.node i0 i1 data)
      | _, _ => none

variable (similar : List Nat)

def foldlSimilar (f : List Nat → V → A → A) (a : A) (n : Tree V) :
    Option A := foldSimilarFrom .foldl similar f a n

def foldrSimilar (f : List Nat → V → A → A) (a : A) (n : Tree V) :
    Option A := foldSimilarFrom .foldr similar f a n

def toListSimilar (n : Tree V) : Option (List (List Nat × V)) :=
  foldrSimilar similar (fun key value l => (key, value) :: l) [] n

def fetchKeysSimilar (n : Tree V) : Option (List (List Nat)) :=
  foldrSimilar similar (fun key _ l => key :: l) [] n

/-- The callback of `find_similar_element/2`, which does not go on. -/
def takeEntry (newKey : List Nat) (value : V) (_ : Option (List Nat × V))
    (_ : Option (List Nat × V) → Id (IteraAnswer (Option (List Nat × V)))) :
    Id (IteraAnswer (Option (List Nat × V))) :=
  pure (.result (some (newKey, value)))

/-- `find_similar_element/2`; `none` is the answer `error`. -/
def findSimilarElement (key : List Nat) (n : Tree V) : Option (List Nat × V) :=
  (iteraNode takeEntry key none n).run

def findSimilarEntry : List Nat → Nat → List Nat → Option V → Tree V →
    Option (Option (List Nat × V))
  | _, _, _, _, .str _ => none
  | [], h, key, lastValue, .node i0 i1 data =>
      if h < i0 ∨ h > i1 then
        match lastValue with
        | none => some (findSimilarElement key (.node i0 i1 data))
        | some v => some (some (key, v))
      else match data[h - i0]? with
        | none => none
        | some (.node j0 j1 below, none) =>
            some (findSimilarElement (key ++ [h]) (.node j0 j1 below))
        | some (.node .., some v) => some (some (key ++ [h], v))
        | some (.str [], some v) => some (some (key ++ [h], v))
        | some (.str _, _) => some (findSimilarElement key (.node i0 i1 data))
  | h1 :: t1, h, key, lastValue, .node i0 i1 data =>
      if h < i0 ∨ h > i1 then
        match lastValue with
        | none => some (findSimilarElement key (.node i0 i1 data))
        | some v => some (some (key, v))
      else match data[h - i0]? with
        | none => none
        | some (.node j0 j1 below, value) =>
            findSimilarEntry t1 h1 (key ++ [h]) value (.node j0 j1 below)
        | some (.str s, some v) =>
            if s = h1 :: t1 then some (some (key ++ h :: h1 :: t1, v))
            else some (findSimilarElement key (.node i0 i1 data))
        | some (.str _, none) => some (findSimilarElement key (.node i0 i1 data))

/-- `find_similar/2`; the inner `none` is the answer `error`. -/
def findSimilar : Tree V → Option (Option (List Nat × V))
  | .str [] => some none
  | n => match similar, n with
      | h :: t, .node i0 i1 data =>
          if h < i0 ∨ h > i1 then some none
          else findSimilarEntry t h [] none (.node i0 i1 data)
      | _, _ => none

end CloudI.Trie
