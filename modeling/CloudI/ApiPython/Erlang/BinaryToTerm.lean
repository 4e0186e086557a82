import CloudI.ApiPython.Erlang.Keys
import CloudI.Library.Unpack

/-!
# ApiPython.Erlang.BinaryToTerm

`binary_to_term` of `erlang.py`: the decoder, which advances an index into the data.  A slice that
goes past the end of the data is cut off; an index past the end is an error.

The decompression of a compressed term is not modelled: it is an exception of its own.
-/

namespace CloudI.ApiPython.Erlang

open Binary Unpack

variable {φ : Type} (py : Python φ) (data : Binary)

/-! ## primitives -/

variable (i : Nat)

/-- `b_ord(data[i])`. -/
def byteAt : Except Exception Byte :=
  match data[i]? with
  | some b => .ok b
  | none => .error .indexError

/-- `struct.unpack` of an unsigned integer of `w` bytes. -/
def unpackUInt (w i : Nat) : Except Exception Nat :=
  let part := slice data i (i + w)
  if part.length = w then .ok (value part) else .error .structError

/-- The signed integer of 4 bytes. -/
def int32Value (n : Nat) : Int := if n < 2147483648 then n else (n : Int) - 4294967296

/-- `struct.unpack` of a signed integer. -/
def unpackInt : Except Exception Int := (unpackUInt data 4 i).map int32Value

/-- `struct.unpack` of a float. -/
def unpackDouble : Except Exception φ :=
  let part := slice data i (i + 8)
  if part.length = 8 then .ok (py.unpack part) else .error .structError

/-- The `str` of bytes in strict UTF-8. -/
def decodeUtf8 (b : Binary) : Except Exception String :=
  match Utf8.decode b with
  | some text => .ok text
  | none => .error .unicodeDecodeError

/-- `float()` of the bytes in front of the first zero. -/
def parseFloat (b : Binary) : Except Exception φ :=
  match py.parse (b.takeWhile (· ≠ 0)) with
  | some x => .ok x
  | none => .error .valueError

/-! ## atoms, pids and integers -/

/-- The length of a name and the index of its first byte, behind a tag of an atom. -/
def readName (w i : Nat) : Except Exception (Nat × Binary) := do
  let j ← unpackUInt data w i
  pure (i + w + j, slice data (i + w) (i + w + j))

/-- The length byte of a small name. -/
def readSmallName : Except Exception (Nat × Binary) := do
  let j ← byteAt data i
  pure (i + 1 + j, slice data (i + 1) (i + 1 + j))

/-- An atom behind its tag, as `_binary_to_atom` reads it. -/
def readAtomTag : Tag → Except Exception (Nat × AtomValue)
  | .atomExt => do
      let (i, name) ← readName data 2 i
      pure (i, .bytes name)
  | .atomCacheRef => do
      let number ← byteAt data i
      pure (i + 1, .cache number)
  | .smallAtomExt => do
      let (i, name) ← readSmallName data i
      pure (i, .bytes name)
  | .atomUtf8Ext => do
      let (i, name) ← readName data 2 i
      let name ← decodeUtf8 name
      pure (i, .text name)
  | .smallAtomUtf8Ext => do
      let (i, name) ← readSmallName data i
      let name ← decodeUtf8 name
      pure (i, .text name)
  | _ => .error .parseException

def binaryToAtom : Except Exception (Nat × AtomValue) := do
  let tag ← byteAt data i
  match Tag.ofByte tag with
  | some tag => readAtomTag data (i + 1) tag
  | none => .error .parseException

/-- A pid behind its tag, from the size of the creation. -/
def readPid (creationSize i : Nat) : Except Exception (Nat × Term φ) := do
  let (i, node) ← binaryToAtom data i
  let j := i + 4 + 4
  pure (j + creationSize, .pid node (slice data i (i + 4)) (slice data (i + 4) (i + 4 + 4))
    (slice data j (j + creationSize)))

def binaryToPid : Except Exception (Nat × Term φ) := do
  let tag ← byteAt data i
  match Tag.ofByte tag with
  | some .newPidExt => readPid data 4 (i + 1)
  | some .pidExt => readPid data 1 (i + 1)
  | _ => .error .parseException

def binaryToInteger : Except Exception (Nat × Int) := do
  let tag ← byteAt data i
  match Tag.ofByte tag with
  | some .smallIntegerExt => do
      let b ← byteAt data (i + 1)
      pure (i + 1 + 1, b.val)
  | some .integerExt => do
      let n ← unpackInt data (i + 1)
      pure (i + 1 + 4, n)
  | _ => .error .parseException

/-- A port behind its tag, from the size of the creation. -/
def readPort (creationSize i : Nat) : Except Exception (Nat × Term φ) := do
  let (i, node) ← binaryToAtom data i
  pure (i + 4 + creationSize, .port node (slice data i (i + 4))
    (slice data (i + 4) (i + 4 + creationSize)))

/-- A reference behind the tag `NEW_REFERENCE_EXT` or `NEWER_REFERENCE_EXT`. -/
def readReference (creationSize i : Nat) : Except Exception (Nat × Term φ) := do
  let j ← unpackUInt data 2 i
  let (i, node) ← binaryToAtom data (i + 2)
  let k := i + creationSize
  pure (k + j * 4, .reference node (slice data k (k + j * 4)) (slice data i k))

/-- The loop over the digits of a bignum, whose first byte is at `i + 1`, from the last one on. -/
def bignumLoop (i : Nat) : Nat → Nat → Except Exception Nat
  | 0, bignum => .ok bignum
  | k + 1, bignum => do
      let digit ← byteAt data (i + (k + 1))
      bignumLoop i k (bignum * 256 + digit)

/-- A bignum of `j` digits behind its length. -/
def readBignum (j i : Nat) : Except Exception (Nat × Term φ) := do
  let sign ← byteAt data i
  let bignum ← bignumLoop data i j 0
  pure (i + 1 + j, .int (if sign = 1 then -bignum else bignum))

/-! ## terms -/

/-- `_binary_to_term_sequence`, from the reader of a term. -/
def readSequence (read : Nat → Except Exception (Nat × Term φ)) :
    Nat → Nat → Except Exception (Nat × List (Term φ))
  | 0, i => .ok (i, [])
  | length + 1, i => do
      let (i, element) ← read i
      let (i, sequence) ← readSequence read length i
      pure (i, element :: sequence)

/-- The loop over the entries of a map. -/
def readPairs (read : Nat → Except Exception (Nat × Term φ)) :
    Nat → Nat → List (Term φ × Term φ) → Except Exception (Nat × List (Term φ × Term φ))
  | 0, i, pairs => .ok (i, pairs)
  | length + 1, i, pairs => do
      let (i, key) ← read i
      let (i, value) ← read i
      let pairs ← setItem py pairs (keyOf key) value
      readPairs read length i pairs

/-- `isinstance(tail, list)` and `tail == []`. -/
def isEmptyList : Term φ → Bool
  | .list [] => true
  | _ => false

/-- The value of a list with its tail. -/
def listValue (value : List (Term φ)) (tail : Term φ) : Term φ :=
  if isEmptyList tail then .list value else .erlangList (value ++ [tail]) true

/-- An atom of a small name: `true` and `false` are booleans. -/
def smallAtomValue (name : Binary) : Term φ :=
  if name = ofText "true" then .bool true
  else if name = ofText "false" then .bool false
  else .atom (.bytes name)

/-- `_binary_to_term` behind the tag. -/
def readTerm (read : Nat → Except Exception (Nat × Term φ)) (i : Nat) :
    Tag → Except Exception (Nat × Term φ)
  | .newFloatExt => do
      let x ← unpackDouble py data i
      pure (i + 8, .float x)
  | .bitBinaryExt => do
      let j ← unpackUInt data 4 i
      let bits ← byteAt data (i + 4)
      let i := i + 4 + 1
      pure (i + j, .binary (slice data i (i + j)) bits)
  | .atomCacheRef => do
      let (i, value) ← readAtomTag data i .atomCacheRef
      pure (i, .atom value)
  | .smallIntegerExt => do
      let b ← byteAt data i
      pure (i + 1, .int b.val)
  | .integerExt => do
      let n ← unpackInt data i
      pure (i + 4, .int n)
  | .floatExt => do
      let x ← parseFloat py (slice data i (i + 31))
      pure (i + 31, .float x)
  | .atomExt => do
      let (i, value) ← readAtomTag data i .atomExt
      pure (i, .atom value)
  | .newPortExt => readPort data 4 i
  | .portExt => readPort data 1 i
  | .referenceExt => do
      let (i, node) ← binaryToAtom data i
      pure (i + 4 + 1, .reference node (slice data i (i + 4)) (slice data (i + 4) (i + 4 + 1)))
  | .newPidExt => readPid data 4 i
  | .pidExt => readPid data 1 i
  | .smallTupleExt => do
      let length ← byteAt data i
      let (i, value) ← readSequence read length (i + 1)
      pure (i, .tuple value)
  | .largeTupleExt => do
      let length ← unpackUInt data 4 i
      let (i, value) ← readSequence read length (i + 4)
      pure (i, .tuple value)
  | .nilExt => .ok (i, .list [])
  | .stringExt => do
      let j ← unpackUInt data 2 i
      let i := i + 2
      pure (i + j, .bytes (slice data i (i + j)))
  | .listExt => do
      let length ← unpackUInt data 4 i
      let (i, value) ← readSequence read length (i + 4)
      let (i, tail) ← read i
      pure (i, listValue value tail)
  | .binaryExt => do
      let j ← unpackUInt data 4 i
      let i := i + 4
      pure (i + j, .binary (slice data i (i + j)) 8)
  | .smallBigExt => do
      let j ← byteAt data i
      readBignum data j (i + 1)
  | .largeBigExt => do
      let j ← unpackUInt data 4 i
      readBignum data j (i + 4)
  | .newFunExt => do
      let length ← unpackUInt data 4 i
      pure (i + length, .function Tag.newFunExt.code (slice data i (i + length)))
  | .exportExt => do
      let oldI := i
      let (i, _) ← binaryToAtom data i
      let (i, _) ← binaryToAtom data i
      let tag ← byteAt data i
      if tag ≠ Tag.smallIntegerExt.code then .error .parseException
      else do
        let _ ← byteAt data (i + 1)
        let i := i + 1 + 1
        pure (i, .function Tag.exportExt.code (slice data oldI i))
  | .newerReferenceExt => readReference data 4 i
  | .newReferenceExt => readReference data 1 i
  | .smallAtomExt => do
      let (i, name) ← readSmallName data i
      pure (i, smallAtomValue name)
  | .mapExt => do
      let length ← unpackUInt data 4 i
      let (i, pairs) ← readPairs py read length (i + 4) []
      pure (i, .dict pairs)
  | .funExt => do
      let oldI := i
      let numfree ← unpackUInt data 4 i
      let (i, _) ← binaryToPid (φ := φ) data (i + 4)
      let (i, _) ← binaryToAtom data i
      let (i, _) ← binaryToInteger data i
      let (i, _) ← binaryToInteger data i
      let (i, _) ← readSequence read numfree i
      pure (i, .function Tag.funExt.code (slice data oldI i))
  | .atomUtf8Ext => do
      let (i, value) ← readAtomTag data i .atomUtf8Ext
      pure (i, .atom value)
  | .smallAtomUtf8Ext => do
      let (i, value) ← readAtomTag data i .smallAtomUtf8Ext
      pure (i, .atom value)
  | .compressedZlib => do
      let sizeUncompressed ← unpackUInt data 4 i
      if sizeUncompressed = 0 then .error .parseException else .error .compressed

/-- `_binary_to_term`.  A term in a term begins behind the tag of the outer one, so `i` is past the
end of the data when the fuel, which is their length at first, is used up. -/
def binaryToTermAt : Nat → Nat → Except Exception (Nat × Term φ)
  | 0, _ => .error .indexError
  | fuel + 1, i => do
      let tag ← byteAt data i
      match Tag.ofByte tag with
      | some tag => readTerm py data (binaryToTermAt fuel) (i + 1) tag
      | none => .error .parseException

/-- The exceptions that `binary_to_term` catches. -/
def caught : Exception → Exception
  | .structError => .parseException
  | .indexError => .parseException
  | e => e

/-- The term that is read from all of the data behind the version. -/
def wholeTerm (read : Except Exception (Nat × Term φ)) : Except Exception (Term φ) :=
  if data.length ≤ 1 then .error .parseException
  else if data[0]? ≠ some 131 then .error .parseException
  else
    match read with
    | .ok (i, term) => if i ≠ data.length then .error .parseException else .ok term
    | .error e => .error (caught e)

def binaryToTerm : Except Exception (Term φ) :=
  wholeTerm data (binaryToTermAt py data data.length 1)

/-! ## the limit on recursion -/

variable (limit : Nat → Binary → Bool)

/-- `_binary_to_term` of an interpreter that limits recursion.  The limit depends on the
interpreter and on what it has called so far: it is reached, or not, by a term that is inside `d`
others and begins the rest of the data.  What is called for the term counts: its keys are hashed
and compared, and the first term in it is read. -/
def limitedTermAt : Nat → Nat → Nat → Except Exception (Nat × Term φ)
  | _, 0, _ => .error .indexError
  | d, fuel + 1, i => do
      let tag ← byteAt data i
      match Tag.ofByte tag with
      | some tag =>
          if limit d (data.drop i) then .error .recursionError
          else readTerm py data (limitedTermAt (d + 1) fuel) (i + 1) tag
      | none => .error .parseException

/-- `binary_to_term` of an interpreter that limits recursion. -/
def limitedBinaryToTerm : Except Exception (Term φ) :=
  wholeTerm data (limitedTermAt py data limit 0 data.length 1)

/-- Without a limit the decoder is the same. -/
theorem limitedTermAt_never (d fuel i : Nat) :
    limitedTermAt py data (fun _ _ => false) d fuel i = binaryToTermAt py data fuel i := by
  induction fuel generalizing d i with
  | zero => rfl
  | succ fuel ih =>
    have hread : limitedTermAt py data (fun _ _ => false) (d + 1) fuel =
        binaryToTermAt py data fuel := funext fun i => ih (d + 1) i
    rw [limitedTermAt, binaryToTermAt, hread]
    rfl

end CloudI.ApiPython.Erlang
