import CloudI.Erlang.Binary
import Mathlib.Data.List.Forall2

/-!
# Erlang.BitFields

The bit syntax `<<I1:W1, I2:W2, …>> = <<N:W>>`, with `W` the sum of the widths: the
bits of a number as fields, the highest ones first.  Binaries of such segments, both as an
expression and as a pattern, and little-endian integers.
-/

namespace CloudI

open List

/-- The fields of the widths `ws`. -/
def bitFields : List Nat → Nat → List Nat
  | [], _ => []
  | w :: ws, n => n / 2 ^ ws.sum % 2 ^ w :: bitFields ws n

theorem bitFields_lt (ws : List Nat) (n : Nat) :
    List.Forall₂ (fun i w => i < 2 ^ w) (bitFields ws n) ws := by
  induction ws with
  | nil => exact .nil
  | cons w ws ih => exact .cons (Nat.mod_lt _ (Nat.two_pow_pos w)) ih

variable {n m : Nat} {ws : List Nat}

/-- The fields are those of the lowest bits. -/
theorem mod_eq_of_bitFields_eq (h : bitFields ws n = bitFields ws m) :
    n % 2 ^ ws.sum = m % 2 ^ ws.sum := by
  induction ws with
  | nil => simp [Nat.mod_one]
  | cons w ws ih =>
    rw [bitFields, bitFields, List.cons.injEq] at h
    have hsplit : ∀ k, k % 2 ^ (w :: ws).sum =
        k % 2 ^ ws.sum + 2 ^ ws.sum * (k / 2 ^ ws.sum % 2 ^ w) := by
      intro k
      rw [sum_cons, Nat.add_comm w, Nat.pow_add, Nat.mod_mul]
    rw [hsplit, hsplit, h.1, ih h.2]

/-- Numbers that fit in the bits have different fields. -/
theorem bitFields_inj (hn : n < 2 ^ ws.sum) (hm : m < 2 ^ ws.sum) :
    bitFields ws n = bitFields ws m ↔ n = m := by
  constructor
  · intro h
    have hmod := mod_eq_of_bitFields_eq h
    rwa [Nat.mod_eq_of_lt hn, Nat.mod_eq_of_lt hm] at hmod
  · intro h
    rw [h]

/-! ## binaries of segments -/

/-- The number whose bits are the fields: of each field the lowest `w` bits. -/
def ofBitFields : List Nat → List Nat → Nat
  | w :: ws, i :: is => i % 2 ^ w * 2 ^ ws.sum + ofBitFields ws is
  | _, _ => 0

theorem ofBitFields_lt (ws is : List Nat) : ofBitFields ws is < 2 ^ ws.sum := by
  induction ws generalizing is with
  | nil => exact Nat.one_pos
  | cons w ws ih =>
    cases is with
    | nil => exact Nat.two_pow_pos _
    | cons i is =>
      have hi : i % 2 ^ w + 1 ≤ 2 ^ w := Nat.mod_lt i (Nat.two_pow_pos w)
      calc i % 2 ^ w * 2 ^ ws.sum + ofBitFields ws is
          < i % 2 ^ w * 2 ^ ws.sum + 2 ^ ws.sum := Nat.add_lt_add_left (ih is) _
        _ = (i % 2 ^ w + 1) * 2 ^ ws.sum := (Nat.succ_mul _ _).symm
        _ ≤ 2 ^ w * 2 ^ ws.sum := Nat.mul_le_mul_right _ hi
        _ = 2 ^ (w :: ws).sum := by rw [sum_cons, Nat.pow_add]

theorem bitFields_add_mul (ws : List Nat) (a n : Nat) :
    bitFields ws (a * 2 ^ ws.sum + n) = bitFields ws n := by
  induction ws generalizing a with
  | nil => rfl
  | cons w ws ih =>
    have hsplit : a * 2 ^ (w :: ws).sum = a * 2 ^ w * 2 ^ ws.sum := by
      rw [sum_cons, Nat.pow_add, Nat.mul_assoc]
    rw [bitFields, bitFields, hsplit, ih, Nat.add_comm (a * 2 ^ w * 2 ^ ws.sum),
      Nat.add_mul_div_right _ _ (Nat.two_pow_pos _), Nat.add_mul_mod_self_right]

/-- Fields that fit are those of their number. -/
theorem bitFields_ofBitFields {is : List Nat} (h : List.Forall₂ (fun i w => i < 2 ^ w) is ws) :
    bitFields ws (ofBitFields ws is) = is := by
  induction h with
  | nil => rfl
  | @cons i w is ws hi _ ih =>
    have hlt := ofBitFields_lt ws is
    rw [ofBitFields, bitFields, bitFields_add_mul, ih, Nat.add_comm,
      Nat.add_mul_div_right _ _ (Nat.two_pow_pos _), Nat.div_eq_of_lt hlt, Nat.zero_add,
      Nat.mod_mod, Nat.mod_eq_of_lt hi]

/-- A number of that many bits is that of its fields. -/
theorem ofBitFields_bitFields (h : n < 2 ^ ws.sum) : ofBitFields ws (bitFields ws n) = n := by
  have hfit := bitFields_ofBitFields (bitFields_lt ws n)
  exact (bitFields_inj (ofBitFields_lt _ _) h).mp hfit

namespace Binary

/-- The binary of integer segments. -/
def ofFields (ws is : List Nat) : Binary := bigEndian (ws.sum / 8) (ofBitFields ws is)

/-- The segments of a binary: `none` where it does not have their size. -/
def fields (ws : List Nat) (b : Binary) : Option (List Nat) :=
  if 8 * b.length = ws.sum then some (bitFields ws (value b)) else none

variable {n w : Nat} {ws is : List Nat} {b : Binary}

theorem pow_bytes (h : 8 * n = w) : 256 ^ n = 2 ^ w := by
  rw [← h, Nat.pow_mul]

theorem value_ofFields (hbytes : 8 ∣ ws.sum) (is : List Nat) :
    value (ofFields ws is) = ofBitFields ws is := by
  rw [ofFields, value_bigEndian, pow_bytes (Nat.mul_div_cancel' hbytes),
    Nat.mod_eq_of_lt (ofBitFields_lt ws is)]

/-- Segments that fit are read back. -/
theorem fields_ofFields (hbytes : 8 ∣ ws.sum) (h : List.Forall₂ (fun i w => i < 2 ^ w) is ws) :
    fields ws (ofFields ws is) = some is := by
  have hsize : 8 * (ofFields ws is).length = ws.sum := by
    rw [ofFields, length_bigEndian, Nat.mul_div_cancel' hbytes]
  rw [fields, if_pos hsize, value_ofFields hbytes, bitFields_ofBitFields h]

/-- The segments that are read have the whole binary. -/
theorem ofFields_of_fields (h : fields ws b = some is) :
    ofFields ws is = b ∧ 8 * b.length = ws.sum ∧ List.Forall₂ (fun i w => i < 2 ^ w) is ws := by
  rw [fields] at h
  by_cases hsize : 8 * b.length = ws.sum
  · rw [if_pos hsize] at h
    cases h
    have hlen : ws.sum / 8 = b.length := by omega
    refine ⟨?_, hsize, bitFields_lt _ _⟩
    rw [ofFields, ofBitFields_bitFields (pow_bytes hsize ▸ value_lt b), hlen, bigEndian_value]
  · rw [if_neg hsize] at h
    cases h

/-- The segments of a binary determine it. -/
theorem fields_inj {a : Binary} (ha : fields ws a = some is) (hb : fields ws b = some is) : a = b :=
  (ofFields_of_fields ha).1.symm.trans (ofFields_of_fields hb).1

/-! ## little-endian integers -/

/-- The value of little-endian bytes. -/
def littleValue (b : Binary) : Nat := value b.reverse

/-- An integer in little-endian bytes. -/
def littleEndian (w n : Nat) : Binary := (bigEndian w n).reverse

@[simp] theorem length_littleEndian (w n : Nat) : (littleEndian w n).length = w := by
  rw [littleEndian, length_reverse, length_bigEndian]

theorem littleValue_littleEndian (h : n < 256 ^ w) : littleValue (littleEndian w n) = n := by
  rw [littleValue, littleEndian, reverse_reverse, value_bigEndian, Nat.mod_eq_of_lt h]

theorem littleEndian_littleValue (b : Binary) : littleEndian b.length (littleValue b) = b := by
  have hbytes := bigEndian_value b.reverse
  rw [length_reverse] at hbytes
  rw [littleEndian, littleValue, hbytes, reverse_reverse]

theorem littleEndian_succ (w n : Nat) (last : Byte) : littleEndian (w + 1) (last * 256 ^ w + n) =
      littleEndian w n ++ [Fin.ofNat 256 (last + n / 256 ^ w)] := by
  rw [littleEndian, bigEndian, bigEndian_add_mul, reverse_cons,
    Nat.add_comm (last.val * 256 ^ w), Nat.add_mul_div_right _ _ (Nat.pow_pos (by omega)),
    Nat.add_comm (n / 256 ^ w)]
  rfl

theorem littleValue_concat {m : Nat} (hm : m < 256 ^ w) (last : Byte) :
    littleValue (littleEndian w m ++ [last]) = last * 256 ^ w + m := by
  have hlen : (littleEndian w m).reverse.length = w := by
    rw [littleEndian, reverse_reverse, length_bigEndian]
  rw [littleValue, reverse_append, reverse_singleton, singleton_append,
    value_cons, hlen]
  exact congrArg _ (littleValue_littleEndian hm)

end Binary

end CloudI
