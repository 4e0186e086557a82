import Mathlib.Order.Fin.Basic
import Mathlib.Tactic.Ring

/-!
# Erlang.Binary

Binaries as lists of bytes, and the big-endian unsigned integers of the bit
syntax, `<<N:W/unsigned-integer-big>>`.
-/

namespace CloudI

open List

/-- A byte. -/
abbrev Byte := Fin 256

instance Byte.neZero : NeZero 256 := ⟨by decide⟩

instance Byte.lawfulBEq : LawfulBEq Byte := inferInstance

/-- A binary. -/
abbrev Binary := List Byte

namespace Binary

/-- An unsigned integer in `w` bytes: its low bits. -/
def bigEndian : Nat → Nat → Binary
  | 0, _ => []
  | w + 1, n => Fin.ofNat 256 (n / 256 ^ w) :: bigEndian w n

/-- The unsigned integer of bytes. -/
def value (b : Binary) : Nat := b.foldl (fun n byte => n * 256 + byte.val) 0

/-- An unsigned integer of `w` bytes at the front. -/
def readBigEndian (w : Nat) (b : Binary) : Option (Nat × Binary) :=
  if b.length < w then none else some (value (b.take w), b.drop w)

@[simp] theorem length_bigEndian (w n : Nat) : (bigEndian w n).length = w := by
  induction w with
  | zero => rfl
  | succ w ih => rw [bigEndian, length_cons, ih]

theorem foldl_bigEndian (w n acc : Nat) :
    (bigEndian w n).foldl (fun n byte => n * 256 + byte.val) acc = acc * 256 ^ w + n % 256 ^ w := by
  induction w generalizing acc with
  | zero => simp [bigEndian, Nat.mod_one]
  | succ w ih =>
    rw [bigEndian, foldl_cons, ih, Fin.val_ofNat, Nat.pow_succ, Nat.mod_mul]
    ring

theorem value_bigEndian (w n : Nat) : value (bigEndian w n) = n % 256 ^ w := by
  rw [value, foldl_bigEndian, Nat.zero_mul, Nat.zero_add]

theorem foldl_value (b : Binary) (acc : Nat) :
    b.foldl (fun n byte => n * 256 + byte.val) acc = acc * 256 ^ b.length + value b := by
  induction b generalizing acc with
  | nil => simp [value]
  | cons x b ih =>
    rw [value, foldl_cons, foldl_cons, ih, ih, length_cons, Nat.pow_succ]
    ring

theorem value_cons (x : Byte) (b : Binary) : value (x :: b) = x * 256 ^ b.length + value b := by
  rw [value, foldl_cons, foldl_value, Nat.zero_mul, Nat.zero_add]

theorem value_lt (b : Binary) : value b < 256 ^ b.length := by
  induction b with
  | nil => exact Nat.one_pos
  | cons x b ih =>
    rw [value_cons, length_cons, Nat.pow_succ]
    have hx : x.val * 256 ^ b.length ≤ 255 * 256 ^ b.length :=
      Nat.mul_le_mul_right _ (Nat.le_of_lt_succ x.isLt)
    omega

theorem bigEndian_add_mul (w a n : Nat) : bigEndian w (a * 256 ^ w + n) = bigEndian w n := by
  induction w generalizing a with
  | zero => rfl
  | succ w ih =>
    have hsplit : a * 256 ^ (w + 1) + n = a * 256 * 256 ^ w + n := by ring
    have hdiv : (a * 256 * 256 ^ w + n) / 256 ^ w = a * 256 + n / 256 ^ w := by
      rw [Nat.add_comm, Nat.add_mul_div_right _ _ (Nat.pow_pos (by omega)), Nat.add_comm]
    rw [bigEndian, bigEndian, hsplit, hdiv, ih]
    congr 1
    exact Fin.ext (by rw [Fin.val_ofNat, Fin.val_ofNat]; omega)

/-- Bytes are what is written of their integer. -/
theorem bigEndian_value (b : Binary) : bigEndian b.length (value b) = b := by
  induction b with
  | nil => rfl
  | cons x b ih =>
    have hdiv : (x.val * 256 ^ b.length + value b) / 256 ^ b.length = x := by
      rw [Nat.add_comm, Nat.add_mul_div_right _ _ (Nat.pow_pos (by omega)),
        Nat.div_eq_of_lt (value_lt b), Nat.zero_add]
    rw [value_cons, length_cons, bigEndian, hdiv, bigEndian_add_mul, ih]
    congr 1
    exact Fin.ext (by rw [Fin.val_ofNat]; exact Nat.mod_eq_of_lt x.isLt)

/-- An integer that fits is read back. -/
theorem readBigEndian_bigEndian (h : n < 256 ^ w) (rest : Binary) :
    readBigEndian w (bigEndian w n ++ rest) = some (n, rest) := by
  have hlen : ¬ (bigEndian w n ++ rest).length < w := by
    rw [length_append, length_bigEndian]
    omega
  rw [readBigEndian, if_neg hlen, take_left' (length_bigEndian w n),
    drop_left' (length_bigEndian w n), value_bigEndian, Nat.mod_eq_of_lt h]

theorem length_of_readBigEndian (h : readBigEndian w b = some (n, rest)) :
    b.length = rest.length + w := by
  rw [readBigEndian] at h
  by_cases hlen : b.length < w
  · rw [if_pos hlen] at h
    cases h
  · rw [if_neg hlen] at h
    cases h
    rw [length_drop]
    omega

/-! ## texts -/

/-- The characters of a text, all of them below 256. -/
def ofText (text : String) : Binary := text.toList.map fun c => Fin.ofNat 256 c.toNat

/-- `integer_to_binary/1`. -/
def ofInteger (i : Int) : Binary := ofText (toString i)

/-- The number of decimal digits, of which there is at least one. -/
def decimal (b : Binary) : Option Nat :=
  if b ≠ [] ∧ ∀ x ∈ b, 48 ≤ x.val ∧ x.val ≤ 57 then
    some (b.foldl (fun n x => n * 10 + (x.val - 48)) 0)
  else none

/-- `binary_to_integer/1`: `none` for a `badarg` error. -/
def toInteger : Binary → Option Int
  | [] => none
  | x :: b =>
      if x = 45 then (decimal b).map fun n => -(n : Int)
      else if x = 43 then (decimal b).map Int.ofNat
      else (decimal (x :: b)).map Int.ofNat

/-! ## parts -/

/-- `binary:part/3`: `none` for a part that is not inside.  A negative length is of bytes in front
of the position. -/
def partAt (b : Binary) (position length : Int) : Option Binary :=
  let start := if length < 0 then position + length else position
  if 0 ≤ position ∧ 0 ≤ start ∧ start + length.natAbs ≤ b.length
  then some ((b.drop start.toNat).take length.natAbs) else none

theorem partAt_eq_some {b : Binary} {start stop : Nat} (hstart : start ≤ stop)
    (hstop : stop < b.length) :
    partAt b start ((stop : Int) - start + 1) = some ((b.drop start).take (stop - start + 1)) := by
  have hlen : ((stop : Int) - start + 1).natAbs = stop - start + 1 := by omega
  have hnot : ¬ (stop : Int) - start + 1 < 0 := by omega
  simp only [partAt, if_neg hnot, hlen, Int.toNat_natCast]
  rw [if_pos (by omega)]

/-! ## bytes at a position -/

/-- The data is in a binary at a position. -/
def Holds (b : Binary) (position : Nat) (data : Binary) : Prop :=
  ∀ i byte, data[i]? = some byte → b[position + i]? = some byte

theorem holds_append (h : Holds b p (data ++ data')) :
    Holds b p data ∧ Holds b (p + data.length) data' := by
  constructor
  · intro i byte hi
    have hlt := (List.getElem?_eq_some_iff.mp hi).1
    exact h i byte (by rwa [getElem?_append_left hlt])
  · intro i byte hi
    rw [Nat.add_assoc]
    refine h (data.length + i) byte ?_
    rwa [getElem?_append_right (Nat.le_add_right _ _), Nat.add_sub_cancel_left]

/-- What a position holds is what a read there gives. -/
theorem Holds.drop_eq (h : Holds b p data) : b.drop p = data ++ b.drop (p + data.length) := by
  refine ext_getElem? fun i => ?_
  rw [getElem?_drop]
  by_cases hi : i < data.length
  · rw [getElem?_append_left hi, getElem?_eq_getElem hi]
    exact h i data[i] (getElem?_eq_getElem hi)
  · rw [getElem?_append_right (Nat.not_lt.mp hi), getElem?_drop]
    congr 1
    omega

theorem holds_of_drop_eq (h : b.drop p = data ++ rest) : Holds b p data := by
  intro i byte hi
  have hlt := (List.getElem?_eq_some_iff.mp hi).1
  rw [← getElem?_drop, h, getElem?_append_left hlt]
  exact hi

end Binary

end CloudI
