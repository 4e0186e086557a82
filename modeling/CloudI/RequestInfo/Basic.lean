import CloudI.Erlang.Maps
import CloudI.Erlang.Binary
import Mathlib.Data.List.Lex

/-!
# RequestInfo.Basic

The key/value pairs of `cloudi_request_info` in their two binary formats:
`text_pairs` with a null byte after each key and each value, and `binary_pairs`
with a null byte in front and a 32-bit size before each key and each value.

`none` is a failed match of the source (`badmatch` or no clause).
-/

namespace CloudI.RequestInfo

/-! ## terms -/

/-- The elements of an iolist. -/
inductive Iodata where
  | byte (b : Byte)
  | binary (b : Binary)
  | list (l : List Iodata)

/-- The keys that `key_to_binary/1` takes. -/
inductive Key where
  | binary (b : Binary)
  | string (h : Byte) (t : List Byte)
  | atom (utf8 : Binary)

/-- The values that `value_to_binary/1` takes; `compact` is what
`cloudi_string:term_to_binary_compact/1` makes of any other term. -/
inductive Value where
  | binary (b : Binary)
  | list (l : List Iodata)
  | atom (utf8 : Binary)
  | term (compact : Binary)

/-- A value of a parsed map: a binary, or the binaries of a key that occurs several times. -/
inductive Parsed where
  | one (v : Binary)
  | many (vs : List Binary)
  deriving DecidableEq

/-- `format()`. -/
inductive Format where
  | textPairs
  | binaryPairs
  deriving DecidableEq

mutual

/-- The bytes of an element of an iolist. -/
def Iodata.toBinary : Iodata → Binary
  | .byte b => [b]
  | .binary b => b
  | .list l => iolistToBinary l

/-- `erlang:iolist_to_binary/1`. -/
def iolistToBinary : List Iodata → Binary
  | [] => []
  | x :: l => x.toBinary ++ iolistToBinary l

end

def keyToBinary : Key → Binary
  | .binary b => b
  | .string h t => h :: t
  | .atom utf8 => utf8

def valueToBinary : Value → Binary
  | .binary b => b
  | .list l => iolistToBinary l
  | .atom utf8 => utf8
  | .term compact => compact

/-! ## text pairs -/

def textPairsListToBinary : List (Key × Value) → Option Binary
  | [] => some []
  | (k, v) :: l =>
      match keyToBinary k with
      | [] => none
      | b :: binaryK =>
          if b = 0 then none
          else (textPairsListToBinary l).map fun rest =>
            (b :: binaryK) ++ [0] ++ valueToBinary v ++ [0] ++ rest

/-- A value stored in the map of the parsed pairs. -/
def storeValue (k v : Binary) (lookup : ErlMap Binary Parsed) : ErlMap Binary Parsed :=
  match Maps.find k lookup with
  | some (.many vs) => Maps.put k (.many (vs ++ [v])) lookup
  | some (.one previousV) => Maps.put k (.many [previousV, v]) lookup
  | none => Maps.put k (.one v) lookup

def textPairsBinaryToMapElement :
    List Binary → ErlMap Binary Parsed → Option (ErlMap Binary Parsed)
  | [[]], lookup => some lookup
  | k :: v :: l, lookup => textPairsBinaryToMapElement l (storeValue k v lookup)
  | _, _ => none

def textPairsBinaryToMap (requestInfo : Binary) : Option (ErlMap Binary Parsed) :=
  textPairsBinaryToMapElement (requestInfo.splitOn 0) ∅

/-! ## binary pairs -/

/-- `<<N:32/big-unsigned-integer>>`. -/
def uint32 (n : Nat) : Binary := Binary.bigEndian 4 n

/-- A size of 32 bits and as many bytes at the front. -/
def readSized (b : Binary) : Option (Binary × Binary) :=
  match Binary.readBigEndian 4 b with
  | none => none
  | some (size, b1) => if b1.length < size then none else some (b1.take size, b1.drop size)

def binaryPairsListToBinaryElement : List (Key × Value) → Option Binary
  | [] => some []
  | (k, v) :: l =>
      if (keyToBinary k).length > 0 then
        (binaryPairsListToBinaryElement l).map fun rest =>
          uint32 (keyToBinary k).length ++ keyToBinary k ++
            uint32 (valueToBinary v).length ++ valueToBinary v ++ rest
      else none

def binaryPairsListToBinary (l : List (Key × Value)) : Option Binary :=
  (binaryPairsListToBinaryElement l).map (0 :: ·)

theorem length_of_readSized (h : readSized b = some (x, rest)) : rest.length < b.length := by
  rw [readSized] at h
  cases hread : Binary.readBigEndian 4 b with
  | none =>
    rw [hread] at h
    cases h
  | some y =>
    obtain ⟨size, b1⟩ := y
    have hlen := Binary.length_of_readBigEndian hread
    simp only [hread] at h
    by_cases hsize : b1.length < size
    · rw [if_pos hsize] at h
      cases h
    · rw [if_neg hsize] at h
      cases h
      rw [List.length_drop]
      omega

def binaryPairsBinaryToMapElement (b0 : Binary) (lookup : ErlMap Binary Parsed) :
    Option (ErlMap Binary Parsed) :=
  if b0 = [] then some lookup
  else match _h : readSized b0 with
    | none => none
    | some (k, b2) =>
        match _h' : readSized b2 with
        | none => none
        | some (v, bN) => binaryPairsBinaryToMapElement bN (storeValue k v lookup)
termination_by b0.length
decreasing_by
  have h1 := length_of_readSized _h
  have h2 := length_of_readSized _h'
  exact h2.trans h1

/-- `binary_pairs_binary_to_map/1`, of what follows the first byte. -/
def binaryPairsBinaryToMap (binaryPairs : Binary) : Option (ErlMap Binary Parsed) :=
  binaryPairsBinaryToMapElement binaryPairs ∅

/-! ## the interface -/

def keyValueNew (requestInfo : List (Key × Value)) : Format → Option Binary
  | .textPairs => textPairsListToBinary requestInfo
  | .binaryPairs => binaryPairsListToBinary requestInfo

def keyValueAppend (requestInfo : List (Key × Value)) (existing : Binary) : Option Binary :=
  match existing with
  | [] => keyValueNew requestInfo .textPairs
  | b :: rest =>
      if b = 0 then
        match keyValueNew requestInfo .binaryPairs with
        | some (0 :: suffix) => some (b :: rest ++ suffix)
        | _ => none
      else (keyValueNew requestInfo .textPairs).map fun suffix => b :: rest ++ suffix

/-- `key_value_parse/1` of a binary. -/
def keyValueParse : Binary → Option (ErlMap Binary Parsed)
  | [] => textPairsBinaryToMap []
  | b :: rest => if b = 0 then binaryPairsBinaryToMap rest else textPairsBinaryToMap (b :: rest)

end CloudI.RequestInfo
