import CloudI.Erlang.Binary
import CloudI.Library.Except
import CloudI.Library.Utf8

/-!
# ApiPython.Erlang.Terms

The Python values of `erlang.py`, and what `term_to_binary` makes of them.

What Python brings is a parameter.  The limit of the interpreter on memory is not modelled, and the
one on recursion only for a decoder of its own.
-/

namespace CloudI.ApiPython.Erlang

open Binary List

/-- The tags of the external term format. -/
inductive Tag where
  | compressedZlib
  | newFloatExt
  | bitBinaryExt
  | atomCacheRef
  | newPidExt
  | newPortExt
  | newerReferenceExt
  | smallIntegerExt
  | integerExt
  | floatExt
  | atomExt
  | referenceExt
  | portExt
  | pidExt
  | smallTupleExt
  | largeTupleExt
  | nilExt
  | stringExt
  | listExt
  | binaryExt
  | smallBigExt
  | largeBigExt
  | newFunExt
  | exportExt
  | newReferenceExt
  | smallAtomExt
  | mapExt
  | funExt
  | atomUtf8Ext
  | smallAtomUtf8Ext
deriving DecidableEq

/-- The value of a tag. -/
def Tag.code : Tag → Byte
  | .compressedZlib => 80
  | .newFloatExt => 70
  | .bitBinaryExt => 77
  | .atomCacheRef => 78
  | .newPidExt => 88
  | .newPortExt => 89
  | .newerReferenceExt => 90
  | .smallIntegerExt => 97
  | .integerExt => 98
  | .floatExt => 99
  | .atomExt => 100
  | .referenceExt => 101
  | .portExt => 102
  | .pidExt => 103
  | .smallTupleExt => 104
  | .largeTupleExt => 105
  | .nilExt => 106
  | .stringExt => 107
  | .listExt => 108
  | .binaryExt => 109
  | .smallBigExt => 110
  | .largeBigExt => 111
  | .newFunExt => 112
  | .exportExt => 113
  | .newReferenceExt => 114
  | .smallAtomExt => 115
  | .mapExt => 116
  | .funExt => 117
  | .atomUtf8Ext => 118
  | .smallAtomUtf8Ext => 119

/-- The tags in the order of their values. -/
def Tag.all : List Tag :=
  [.newFloatExt, .bitBinaryExt, .atomCacheRef, .compressedZlib, .newPidExt, .newPortExt,
    .newerReferenceExt, .smallIntegerExt, .integerExt, .floatExt, .atomExt, .referenceExt,
    .portExt, .pidExt, .smallTupleExt, .largeTupleExt, .nilExt, .stringExt, .listExt, .binaryExt,
    .smallBigExt, .largeBigExt, .newFunExt, .exportExt, .newReferenceExt, .smallAtomExt, .mapExt,
    .funExt, .atomUtf8Ext, .smallAtomUtf8Ext]

/-- The tag with a value. -/
def Tag.ofByte (b : Byte) : Option Tag := Tag.all.find? fun tag => tag.code = b

@[simp] theorem Tag.ofByte_code (tag : Tag) : Tag.ofByte tag.code = some tag := by
  cases tag <;> rfl

theorem Tag.code_of_ofByte {tag : Tag} (h : Tag.ofByte b = some tag) : tag.code = b := by
  simpa using find?_some h

/-- Exceptions.  `compressed` stands for what `zlib.decompress` is called with. -/
inductive Exception where
  | parseException
  | outputException
  | structError
  | indexError
  | unicodeDecodeError
  | valueError
  | typeError
  | attributeError
  | recursionError
  | compressed
deriving DecidableEq

/-! ## values -/

/-- The value of an `OtpErlangAtom`: a number of the atom cache, a `str` or `bytes`. -/
inductive AtomValue where
  | cache (number : Byte)
  | text (name : String)
  | bytes (name : Binary)
deriving DecidableEq

/-- Python values.  A dict has its entries in the order of their insertion. -/
inductive Term (φ : Type) where
  | bytes (value : Binary)
  | str (value : String)
  | int (value : Int)
  | bool (value : Bool)
  | float (value : φ)
  | none
  | list (value : List (Term φ))
  | tuple (value : List (Term φ))
  | dict (entries : List (Term φ × Term φ))
  | frozendict (entries : List (Term φ × Term φ))
  | atom (value : AtomValue)
  | binary (value : Binary) (bits : Byte)
  | function (tag : Byte) (value : Binary)
  | erlangList (value : List (Term φ)) (improper : Bool)
  | pid (node : AtomValue) (id serial creation : Binary)
  | port (node : AtomValue) (id creation : Binary)
  | reference (node : AtomValue) (id creation : Binary)

/-- What Python brings: `struct.unpack` and `struct.pack` of 8 bytes, `float()` of a text, what is
hashed of a float, `==` of a float with a float and with an integer, and the hash value of what is
hashed, which is that of other contents as well. -/
structure Python (φ : Type) where
  unpack : Binary → φ
  pack : φ → Binary
  parse : Binary → Option φ
  content : φ → List Nat
  equal : φ → φ → Bool
  equalInt : φ → Int → Bool
  hashValue : List Nat → Int

variable {φ : Type} (py : Python φ)

/-- Induction over a value, with the elements and the entries of a composite one. -/
theorem Term.induct {P : Term φ → Prop} (bytes : ∀ b, P (.bytes b)) (str : ∀ s, P (.str s))
    (int : ∀ i, P (.int i)) (bool : ∀ b, P (.bool b)) (float : ∀ f, P (.float f))
    (none : P .none) (list : ∀ l, (∀ x ∈ l, P x) → P (.list l))
    (tuple : ∀ l, (∀ x ∈ l, P x) → P (.tuple l))
    (dict : ∀ l, (∀ x ∈ l, P x.1 ∧ P x.2) → P (.dict l))
    (frozendict : ∀ l, (∀ x ∈ l, P x.1 ∧ P x.2) → P (.frozendict l))
    (atom : ∀ v, P (.atom v)) (binary : ∀ b bits, P (.binary b bits))
    (function : ∀ tag b, P (.function tag b))
    (erlangList : ∀ l improper, (∀ x ∈ l, P x) → P (.erlangList l improper))
    (pid : ∀ node id serial creation, P (.pid node id serial creation))
    (port : ∀ node id creation, P (.port node id creation))
    (reference : ∀ node id creation, P (.reference node id creation)) (t : Term φ) : P t := by
  refine @Term.rec φ P (fun l => ∀ x ∈ l, P x) (fun l => ∀ x ∈ l, P x.1 ∧ P x.2)
    (fun x => P x.1 ∧ P x.2)
    bytes str int bool float none list tuple dict frozendict atom binary function
    (fun l improper h => erlangList l improper h) pid port reference ?_ ?_ ?_ ?_ ?_ t
  · exact fun x hx => absurd hx not_mem_nil
  · exact fun x l hx hl => forall_mem_cons.mpr ⟨hx, hl⟩
  · exact fun x hx => absurd hx not_mem_nil
  · exact fun x l hx hl => forall_mem_cons.mpr ⟨hx, hl⟩
  · exact fun k v hk hv => ⟨hk, hv⟩

/-! ## term_to_binary -/

/-- The length of a sequence in the bytes of its tag, from the number of bytes and the tag. -/
def header (tag : Tag) (w length : Nat) : Binary := tag.code :: bigEndian w length

/-- `OtpErlangAtom.binary`. -/
def atomBinary : AtomValue → Except Exception Binary
  | .cache number => .ok [Tag.atomCacheRef.code, number]
  | .text name =>
      let encoded := Utf8.encode name
      if encoded.length ≤ 255 then .ok (header .smallAtomUtf8Ext 1 encoded.length ++ encoded)
      else if encoded.length ≤ 65535 then .ok (header .atomUtf8Ext 2 encoded.length ++ encoded)
      else .error .outputException
  | .bytes name =>
      if name.length ≤ 255 then .ok (header .smallAtomExt 1 name.length ++ name)
      else if name.length ≤ 65535 then .ok (header .atomExt 2 name.length ++ name)
      else .error .outputException

/-- `OtpErlangBinary.binary`. -/
def binaryBinary (value : Binary) (bits : Byte) : Except Exception Binary :=
  if 4294967295 < value.length then .error .outputException
  else if bits ≠ 8 then .ok (header .bitBinaryExt 4 value.length ++ bits :: value)
  else .ok (header .binaryExt 4 value.length ++ value)

/-- `OtpErlangPid.binary`. -/
def pidBinary (node : AtomValue) (id serial creation : Binary) : Except Exception Binary :=
  if creation.length = 1 then do
    let node ← atomBinary node
    pure (Tag.pidExt.code :: (node ++ id ++ serial ++ creation))
  else if creation.length = 4 then do
    let node ← atomBinary node
    pure (Tag.newPidExt.code :: (node ++ id ++ serial ++ creation))
  else .error .outputException

/-- `OtpErlangPort.binary`. -/
def portBinary (node : AtomValue) (id creation : Binary) : Except Exception Binary :=
  if creation.length = 1 then do
    let node ← atomBinary node
    pure (Tag.portExt.code :: (node ++ id ++ creation))
  else if creation.length = 4 then do
    let node ← atomBinary node
    pure (Tag.newPortExt.code :: (node ++ id ++ creation))
  else .error .outputException

/-- `OtpErlangReference.binary`. -/
def referenceBinary (node : AtomValue) (id creation : Binary) : Except Exception Binary :=
  let length := id.length / 4
  if length = 0 then do
    let node ← atomBinary node
    pure (Tag.referenceExt.code :: (node ++ id ++ creation))
  else if length ≤ 65535 then
    if creation.length = 1 then do
      let node ← atomBinary node
      pure (header .newReferenceExt 2 length ++ node ++ creation ++ id)
    else if creation.length = 4 then do
      let node ← atomBinary node
      pure (header .newerReferenceExt 2 length ++ node ++ creation ++ id)
    else .error .outputException
  else .error .outputException

def stringToBinary (term : Binary) : Except Exception Binary :=
  if term.length = 0 then .ok [Tag.nilExt.code]
  else if term.length ≤ 65535 then .ok (header .stringExt 2 term.length ++ term)
  else if term.length ≤ 4294967295 then
    .ok (header .listExt 4 term.length ++
      (term.flatMap fun c => [Tag.smallIntegerExt.code, c]) ++ [Tag.nilExt.code])
  else .error .outputException

/-- `struct.pack` of a signed integer in 4 bytes. -/
def packInt (i : Int) : Binary := bigEndian 4 (i % 4294967296).toNat

def integerToBinary (term : Int) : Binary :=
  if 0 ≤ term ∧ term ≤ 255 then [Tag.smallIntegerExt.code, Fin.ofNat 256 term.toNat]
  else Tag.integerExt.code :: packInt term

/-- The loop of `_bignum_to_binary`: the bytes of a number from the lowest one on. -/
def bignumValue (bignum : Nat) : Binary :=
  if 0 < bignum then Fin.ofNat 256 bignum :: bignumValue (bignum / 256) else []
termination_by bignum
decreasing_by omega

def bignumToBinary (term : Int) : Except Exception Binary :=
  let sign : Byte := if term < 0 then 1 else 0
  let value := bignumValue term.natAbs
  if value.length ≤ 255 then .ok (header .smallBigExt 1 value.length ++ sign :: value)
  else if value.length ≤ 4294967295 then .ok (header .largeBigExt 4 value.length ++ sign :: value)
  else .error .outputException

def longToBinary (term : Int) : Except Exception Binary :=
  if -2147483648 ≤ term ∧ term ≤ 2147483647 then .ok (integerToBinary term)
  else bignumToBinary term

/-- `OtpErlangList.binary`, from the number of elements and their bytes. -/
def listBinary (length : Nat) (improper : Bool) (elements : Except Exception Binary) :
    Except Exception Binary :=
  if length = 0 then .ok [Tag.nilExt.code]
  else if 4294967295 < length then .error .outputException
  else if improper then do
    let elements ← elements
    pure (header .listExt 4 (length - 1) ++ elements)
  else do
    let elements ← elements
    pure (header .listExt 4 length ++ elements ++ [Tag.nilExt.code])

/-- `_tuple_to_binary`, from the number of elements and their bytes. -/
def tupleToBinary (length : Nat) (elements : Except Exception Binary) : Except Exception Binary :=
  if length ≤ 255 then do
    let elements ← elements
    pure (header .smallTupleExt 1 length ++ elements)
  else if length ≤ 4294967295 then do
    let elements ← elements
    pure (header .largeTupleExt 4 length ++ elements)
  else .error .outputException

/-- `_dict_to_binary`, from the number of entries and their bytes. -/
def dictToBinary (length : Nat) (entries : Except Exception Binary) : Except Exception Binary :=
  if length ≤ 4294967295 then do
    let entries ← entries
    pure (header .mapExt 4 length ++ entries)
  else .error .outputException

mutual

/-- `_term_to_binary`. -/
def termBinary : Term φ → Except Exception Binary
  | .bytes value => stringToBinary value
  | .str value => stringToBinary (Utf8.encode value)
  | .list value => listBinary value.length false (termsBinary value)
  | .tuple value => tupleToBinary value.length (termsBinary value)
  | .bool value => atomBinary (.bytes (ofText (if value then "true" else "false")))
  | .int value => longToBinary value
  | .float value => .ok (Tag.newFloatExt.code :: py.pack value)
  | .dict entries => dictToBinary entries.length (entriesBinary entries)
  | .frozendict entries => dictToBinary entries.length (entriesBinary entries)
  | .none => atomBinary (.bytes (ofText "undefined"))
  | .atom value => atomBinary value
  | .erlangList value improper => listBinary value.length improper (termsBinary value)
  | .binary value bits => binaryBinary value bits
  | .function tag value => .ok (tag :: value)
  | .reference node id creation => referenceBinary node id creation
  | .port node id creation => portBinary node id creation
  | .pid node id serial creation => pidBinary node id serial creation

/-- The elements of a list or a tuple. -/
def termsBinary : List (Term φ) → Except Exception Binary
  | [] => .ok []
  | element :: l => do
      let b ← termBinary element
      let rest ← termsBinary l
      pure (b ++ rest)

/-- The entries of a dict. -/
def entriesBinary : List (Term φ × Term φ) → Except Exception Binary
  | [] => .ok []
  | (key, value) :: l => do
      let k ← termBinary key
      let v ← termBinary value
      let rest ← entriesBinary l
      pure (k ++ v ++ rest)

end

/-- `term_to_binary`, not compressed. -/
def termToBinary (term : Term φ) : Except Exception Binary := do
  let data ← termBinary py term
  pure (131 :: data)

end CloudI.ApiPython.Erlang
