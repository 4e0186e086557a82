import CloudI.ApiPython.Erlang.Forms

/-!
# ApiPython.Erlang.ExternalTerm

The Erlang terms, and the term that a form encodes.  Python are left out, and a number of the atom
cache is no atom on its own.  The keys of a map are not compared: what is said of all forms is said
of those of maps with different keys.
-/

namespace CloudI.ApiPython.Erlang

open Binary

/-! ## terms -/

/-- Erlang terms.  A function is the bytes that it is written in. -/
inductive ExternalTerm where
  | int (value : Int)
  | atom (name : String)
  | nil
  | cons (head tail : ExternalTerm)
  | tuple (l : List ExternalTerm)
  | map (l : List (ExternalTerm × ExternalTerm))
  | bitstring (value : Binary) (bits : Byte)
  | pid (node : String) (id serial creation : Nat)
  | port (node : String) (id creation : Nat)
  | reference (node : String) (words : Binary) (creation : Nat)
  | function (value : Binary)

namespace ExternalTerm

mutual

/-- **The same term**: the entries of a map are in no order. -/
inductive Same : ExternalTerm → ExternalTerm → Prop
  | refl (T : ExternalTerm) : Same T T
  | cons : Same T T' → Same U U' → Same (.cons T U) (.cons T' U')
  | tuple : SameList l l' → Same (.tuple l) (.tuple l')
  | map : SameEntries l l' → Same (.map l) (.map l')

/-- The same terms in the same order. -/
inductive SameList : List ExternalTerm → List ExternalTerm → Prop
  | nil : SameList [] []
  | cons : Same T T' → SameList l l' → SameList (T :: l) (T' :: l')

/-- The same entries in any order. -/
inductive SameEntries :
    List (ExternalTerm × ExternalTerm) → List (ExternalTerm × ExternalTerm) → Prop
  | nil : SameEntries [] []
  | cons : Same K K' → Same V V' → SameEntries l l' → SameEntries ((K, V) :: l) ((K', V') :: l')
  | swap (x y : ExternalTerm × ExternalTerm) (l : List (ExternalTerm × ExternalTerm)) :
      SameEntries (x :: y :: l) (y :: x :: l)
  | trans : SameEntries l l' → SameEntries l' l'' → SameEntries l l''

end

/-- A list of terms with the last one as its tail. -/
def improper : List ExternalTerm → ExternalTerm
  | [] => .nil
  | [T] => T
  | T :: U :: l => .cons T (improper (U :: l))

/-- A list of terms. -/
def proper (l : List ExternalTerm) : ExternalTerm := l.foldr .cons .nil

theorem improper_concat (l : List ExternalTerm) (T : ExternalTerm) :
    improper (l ++ [T]) = l.foldr .cons T := by
  induction l with
  | nil => rfl
  | cons U l ih =>
    cases l with
    | nil => rfl
    | cons V l => exact congrArg (ExternalTerm.cons U) ih

mutual

/-- **The cells of a term**: the lists in it, their elements, and the entries of the maps. -/
def cells : ExternalTerm → Nat
  | .nil => 1
  | .cons head tail => 1 + cells head + cells tail
  | .tuple l => cellsList l
  | .map l => cellsEntries l
  | _ => 0

/-- The cells of the elements of a tuple. -/
def cellsList : List ExternalTerm → Nat
  | [] => 0
  | T :: l => cells T + cellsList l

/-- The cells of the entries of a map. -/
def cellsEntries : List (ExternalTerm × ExternalTerm) → Nat
  | [] => 0
  | (K, V) :: l => 1 + cells K + cells V + cellsEntries l

end

theorem Same.cells {T U : ExternalTerm} (h : Same T U) : T.cells = U.cells := by
  refine @Same.rec (fun T U _ => T.cells = U.cells) (fun l m _ => cellsList l = cellsList m)
    (fun l m _ => cellsEntries l = cellsEntries m)
    ?refl ?cons ?tuple ?map ?nil ?list ?none ?entry ?swap ?trans _ _ h
  case refl => exact fun T => rfl
  case cons =>
    intro T T' U U' _ _ hhead htail
    rw [ExternalTerm.cells, ExternalTerm.cells, hhead, htail]
  case tuple =>
    intro l l' _ hl
    rw [ExternalTerm.cells, ExternalTerm.cells, hl]
  case map =>
    intro l l' _ hl
    rw [ExternalTerm.cells, ExternalTerm.cells, hl]
  case nil => rfl
  case list =>
    intro T T' l l' _ _ hT hl
    rw [cellsList, cellsList, hT, hl]
  case none => rfl
  case entry =>
    intro K K' V V' l l' _ _ _ hK hV hl
    rw [cellsEntries, cellsEntries, hK, hV, hl]
  case swap =>
    intro x y l
    simp only [cellsEntries]
    omega
  case trans =>
    intro l l' l'' _ _ hl hl'
    exact hl.trans hl'

theorem cells_foldr_cons (l : List ExternalTerm) (T : ExternalTerm) :
    (l.foldr .cons T).cells = l.length + cellsList l + T.cells := by
  induction l with
  | nil => rw [List.foldr_nil, List.length_nil, cellsList, Nat.zero_add]
  | cons U l ih =>
    rw [List.foldr_cons, cells, ih, List.length_cons, cellsList]
    omega

end ExternalTerm

/-! ## the term of a leaf -/

/-- The name in Latin-1. -/
def latin1 (b : Binary) : String := String.ofList (b.map fun x => Char.ofNat x.val)

/-- A name has at most 255 characters. -/
def shortName (name : String) : Option String := if name.length ≤ 255 then some name else none

/-- The name of an atom. -/
def AtomHead.atomName (body : Binary) : AtomHead → Option String
  | .cacheRef => none
  | .name true _ _ => (Utf8.decode body).bind shortName
  | .name false _ _ => shortName (latin1 body)

/-- The term of a node with its fields.  A reference has a word at least. -/
def Node.term (name : String) (fields : Binary) : Node → Option ExternalTerm
  | .pid _ => some (.pid name (Binary.value (fields.take 4))
      (Binary.value ((fields.drop 4).take 4)) (Binary.value (fields.drop (4 + 4))))
  | .port _ => some (.port name (Binary.value (fields.take 4)) (Binary.value (fields.drop 4)))
  | .reference => some (.reference name (fields.take 4) (Binary.value (fields.drop 4)))
  | .newReference newer words =>
      if words = 0 then none
      else some (.reference name (fields.drop (creationSize newer))
        (Binary.value (fields.take (creationSize newer))))

/-- The characters of a string as numbers. -/
def characters (b : Binary) : List ExternalTerm := b.map fun x => .int x.val

/-- The term of a leaf.  One to eight bits of the last byte of a bitstring are used, and the sign
of a bignum is 0 or 1. -/
def Leaf.term (body : Binary) : Leaf → Option ExternalTerm
  | .newFloat => none
  | .float => none
  | .bitBinary _ bits => if 1 ≤ bits ∧ bits ≤ 8 then some (.bitstring body bits) else none
  | .binary _ => some (.bitstring body 8)
  | .string _ => some (.proper (characters body))
  | .atom head => (head.atomName body).map .atom
  | .node kind head => do
      let name ← head.atomName (body.take head.size)
      kind.term name (body.drop head.size)
  | .smallInteger => some (.int (Binary.value body))
  | .integer => some (.int (int32Value (Binary.value body)))
  | .nil => some .nil
  | .bignum _ _ => if body.headD 0 ≤ 1 then some (.int (bignumOf body)) else none
  | .newFun n => some (.function (Tag.newFunExt.code :: (bigEndian 4 n ++ body)))

/-! ## the term of a form -/

/-- The term of a sequence. -/
def Sequence.term (l : List ExternalTerm) : Sequence → ExternalTerm
  | .smallTuple => .tuple l
  | .largeTuple => .tuple l
  | .list => .improper l

/-- The names in the parts of a function are some. -/
def FunHead.named (head : FunHead) : Option Unit := do
  let _ ← head.node.atomName (head.body.take head.node.size)
  let _ ← head.module.atomName head.name
  pure ()

/-- The names of an exported function are some. -/
def ExportForm.named (form : ExportForm) : Option Unit := do
  let _ ← form.module.atomName form.name
  let _ ← form.function.atomName form.functionName
  pure ()

namespace Form

mutual

/-- **The term that a form encodes.** -/
def term : Form → Option ExternalTerm
  | .leaf head body => head.term body
  | .sequence s l => do
      let l ← termList l
      pure (s.term l)
  | .map l => do
      let l ← termEntries l
      pure (.map l)
  | .exportFun form => do
      form.named
      pure (.function (Tag.exportExt.code :: form.bytes))
  | .function head l => do
      head.named
      let _ ← termList l
      pure (.function (Tag.funExt.code :: (bigEndian 4 l.length ++ (head.bytes ++ bytesList l))))

/-- The terms that forms encode. -/
def termList : List Form → Option (List ExternalTerm)
  | [] => some []
  | f :: l => do
      let T ← term f
      let l ← termList l
      pure (T :: l)

/-- The terms that keys and values encode. -/
def termEntries : List (Form × Form) → Option (List (ExternalTerm × ExternalTerm))
  | [] => some []
  | (k, v) :: l => do
      let K ← term k
      let V ← term v
      let l ← termEntries l
      pure ((K, V) :: l)

end

end Form

/-- **An encoding of a term**, with any choice of tags. -/
def Encodes (b : Binary) (T : ExternalTerm) : Prop :=
  ∃ f : Form, f.Fits ∧ f.bytes = b ∧ ∃ T', f.term = some T' ∧ T'.Same T

end CloudI.ApiPython.Erlang
