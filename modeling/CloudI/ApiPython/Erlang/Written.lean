import CloudI.ApiPython.Erlang.Forms

/-!
# ApiPython.Erlang.Written

What `term_to_binary` writes: the values without others inside are leaves, whose value is what was
written.
-/

namespace CloudI.ApiPython.Erlang

open Binary CloudI.Except List
open Nat (lt_succ_of_le)

variable {φ : Type} {py : Python φ} {b : Binary}

/-- The sign of a bignum is 0 or 1. -/
def Leaf.Signed (body : Binary) : Leaf → Prop
  | .bignum _ _ => body.headD 0 ≤ 1
  | _ => True

/-- **Bytes are written as a leaf** with a value. -/
def WrittenLeaf (py : Python φ) (written : Except Exception Binary) (t : Term φ) : Prop :=
  ∃ head body, (Form.leaf head body).Fits ∧ written = .ok (Form.leaf head body).bytes ∧
    head.value py body = .ok t ∧ head.Signed body

/-! ## atoms -/

/-- An atom with a name that is not too long. -/
def AtomValue.Fits : AtomValue → Prop
  | .cache _ => True
  | .text name => (Utf8.encode name).length ≤ 65535
  | .bytes name => name.length ≤ 65535

/-- What the decoder makes of an atom: `true` and `false` are booleans. -/
def AtomValue.read : AtomValue → Term φ
  | .bytes name => smallAtomValue name
  | v => .atom v

theorem smallAtomValue_of_long (h : 255 < name.length) :
    (smallAtomValue name : Term φ) = .atom (.bytes name) := by
  have htrue : name ≠ ofText "true" := by
    rintro rfl
    revert h
    decide
  have hfalse : name ≠ ofText "false" := by
    rintro rfl
    revert h
    decide
  rw [smallAtomValue, if_neg htrue, if_neg hfalse]

variable {v node : AtomValue} {i : Int}

theorem written_atom (hfits : v.Fits) :
    ∃ (head : AtomHead) (name : Binary), head.Fits ∧ name.length = head.size ∧
      atomBinary v = .ok (head.bytes ++ name) ∧ head.value name = .ok v ∧
      head.term name = .ok (v.read : Term φ) := by
  cases v with
  | cache number => exact ⟨.cacheRef, [number], trivial, rfl, rfl, rfl, rfl⟩
  | text name =>
    have hdecode : ∀ small n, (AtomHead.name true small n).value (Utf8.encode name) =
        .ok (.text name) := by
      intro small n
      rw [AtomHead.value, decodeUtf8, Utf8.decode_encode]
      rfl
    have hterm : ∀ small n, (AtomHead.name true small n).term (Utf8.encode name) =
        .ok (.atom (.text name) : Term φ) := by
      intro small n
      have hvalue := hdecode small n
      show ((AtomHead.name true small n).value (Utf8.encode name)).map _ = _
      rw [hvalue]
      rfl
    by_cases hsmall : (Utf8.encode name).length ≤ 255
    · refine ⟨.name true true (Utf8.encode name).length, Utf8.encode name, ?_, rfl, ?_,
        hdecode _ _, hterm _ _⟩
      · exact lt_succ_of_le hsmall
      · simp only [atomBinary, hsmall, if_true]
        rfl
    · refine ⟨.name true false (Utf8.encode name).length, Utf8.encode name, ?_, rfl, ?_,
        hdecode _ _, hterm _ _⟩
      · exact lt_succ_of_le hfits
      · have hle : (Utf8.encode name).length ≤ 65535 := hfits
        simp only [atomBinary, hsmall, hle, if_true, if_false]
        rfl
  | bytes name =>
    by_cases hsmall : name.length ≤ 255
    · refine ⟨.name false true name.length, name, lt_succ_of_le hsmall, rfl, ?_, rfl, rfl⟩
      simp only [atomBinary, hsmall, if_true]
      rfl
    · have hle : name.length ≤ 65535 := hfits
      refine ⟨.name false false name.length, name, lt_succ_of_le hle, rfl, ?_, rfl, ?_⟩
      · simp only [atomBinary, hsmall, hle, if_true, if_false]
        rfl
      · rw [AtomValue.read, smallAtomValue_of_long (Nat.lt_of_not_le hsmall)]
        rfl

variable (py) in
theorem writtenLeaf_atom (hfits : v.Fits) : WrittenLeaf py (atomBinary v) v.read := by
  obtain ⟨head, name, hhead, hname, hwritten, -, hterm⟩ := written_atom (φ := φ) hfits
  exact ⟨.atom head, name, ⟨hhead, hname⟩, hwritten, hterm, trivial⟩

theorem writtenLeaf_bool (value : Bool) :
    WrittenLeaf py (termBinary py (.bool value)) (.bool value) := by
  cases value with
  | true =>
    have hfits : (ofText "true").length ≤ 65535 := by decide
    exact writtenLeaf_atom _ (v := .bytes (ofText "true")) hfits
  | false =>
    have hfits : (ofText "false").length ≤ 65535 := by decide
    exact writtenLeaf_atom _ (v := .bytes (ofText "false")) hfits

/-! ## integers -/

theorem bignumValue_of_pos (h : 0 < n) :
    bignumValue n = Fin.ofNat 256 n :: bignumValue (n / 256) := by
  rw [bignumValue, if_pos h]

theorem value_bignumValue (n : Nat) : value (bignumValue n).reverse = n := by
  induction n using Nat.strongRecOn with
  | ind n ih =>
    by_cases hpos : 0 < n
    · rw [bignumValue_of_pos hpos, ← foldr_digits, foldr_cons, foldr_digits,
        ih (n / 256) (by omega), Fin.val_ofNat]
      omega
    · obtain rfl : n = 0 := by omega
      rw [bignumValue, if_neg hpos]
      rfl

theorem int32Value_packInt (hlow : -2147483648 ≤ i) (hhigh : i ≤ 2147483647) :
    int32Value (value (packInt i)) = i := by
  have hmod : (i % 4294967296).toNat % 256 ^ 4 = (i % 4294967296).toNat :=
    Nat.mod_eq_of_lt (by omega)
  rw [packInt, value_bigEndian, hmod, int32Value]
  by_cases hlt : (i % 4294967296).toNat < 2147483648
  · rw [if_pos hlt]
    omega
  · rw [if_neg hlt]
    omega

theorem bignumOf_bignumValue (i : Int) :
    bignumOf ((if i < 0 then 1 else 0) :: bignumValue i.natAbs) = i := by
  rw [bignumOf, tail_cons, headD_cons, value_bignumValue]
  by_cases hneg : i < 0
  · rw [if_pos hneg, if_pos rfl]
    omega
  · rw [if_neg hneg]
    show (if (0 : Byte) = 1 then _ else _) = _
    rw [if_neg (by decide)]
    omega

/-- An integer whose digits have a length. -/
def IntFits (i : Int) : Prop := (bignumValue i.natAbs).length ≤ 4294967295

/-- A number below a power of 256 has at most so many bytes. -/
theorem length_bignumValue_le (h : n < 256 ^ k) : (bignumValue n).length ≤ k := by
  induction k generalizing n with
  | zero =>
    rw [bignumValue, if_neg (by omega)]
    exact Nat.le_refl 0
  | succ k ih =>
    by_cases hpos : 0 < n
    · rw [bignumValue_of_pos hpos, length_cons]
      have hdiv : n / 256 < 256 ^ k := by
        rw [Nat.div_lt_iff_lt_mul (by decide)]
        rwa [Nat.pow_succ] at h
      exact Nat.succ_le_succ (ih hdiv)
    · rw [bignumValue, if_neg hpos]
      exact Nat.zero_le _

theorem intFits_of_lt (h : i.natAbs < 256 ^ 4) : IntFits i :=
  (length_bignumValue_le h).trans (by decide)

variable (py) in
theorem writtenLeaf_int (hfits : IntFits i) : WrittenLeaf py (longToBinary i) (.int i) := by
  rw [longToBinary]
  by_cases hlong : -2147483648 ≤ i ∧ i ≤ 2147483647
  · rw [if_pos hlong, integerToBinary]
    by_cases hsmall : 0 ≤ i ∧ i ≤ 255
    · rw [if_pos hsmall]
      refine ⟨.smallInteger, [Fin.ofNat 256 i.toNat], ⟨trivial, rfl⟩, rfl, ?_, trivial⟩
      rw [Leaf.value, value_singleton, Fin.val_ofNat, Nat.mod_eq_of_lt (by omega),
        Int.toNat_of_nonneg hsmall.1]
    · rw [if_neg hsmall]
      refine ⟨.integer, packInt i, ⟨trivial, length_bigEndian 4 _⟩, rfl, ?_, trivial⟩
      rw [Leaf.value, int32Value_packInt hlong.1 hlong.2]
  · rw [if_neg hlong]
    have hvalue : ∀ large n, (Leaf.bignum large n).value py
        ((if i < 0 then 1 else 0) :: bignumValue i.natAbs) = .ok (.int i) := by
      intro large n
      rw [Leaf.value, bignumOf_bignumValue]
    have hsigned : ∀ large n, (Leaf.bignum large n).Signed
        ((if i < 0 then 1 else 0) :: bignumValue i.natAbs) := by
      intro large n
      show (if i < 0 then (1 : Byte) else 0) ≤ 1
      split <;> decide
    by_cases hshort : (bignumValue i.natAbs).length ≤ 255
    · refine ⟨.bignum false (bignumValue i.natAbs).length, _, ⟨?_, ?_⟩, ?_, hvalue _ _, hsigned _ _⟩
      · exact lt_succ_of_le hshort
      · rw [length_cons, Leaf.size, Nat.add_comm]
      · simp only [bignumToBinary, hshort, if_true]
        rfl
    · have hle : (bignumValue i.natAbs).length ≤ 4294967295 := hfits
      refine ⟨.bignum true (bignumValue i.natAbs).length, _, ⟨?_, ?_⟩, ?_, hvalue _ _, hsigned _ _⟩
      · exact lt_succ_of_le hle
      · rw [length_cons, Leaf.size, Nat.add_comm]
      · simp only [bignumToBinary, hshort, hle, if_true, if_false]
        rfl

/-! ## strings and binaries -/

variable (py) in
theorem writtenLeaf_string {value : Binary} (hne : value ≠ []) (hfits : value.length ≤ 65535) :
    WrittenLeaf py (stringToBinary value) (.bytes value) := by
  have hzero : value.length ≠ 0 := fun h => hne (length_eq_zero_iff.mp h)
  refine ⟨.string value.length, value, ⟨lt_succ_of_le hfits, rfl⟩, ?_, rfl, trivial⟩
  rw [stringToBinary, if_neg hzero, if_pos hfits]
  rfl

variable (py) in
theorem writtenLeaf_binary {value : Binary} (bits : Byte) (hfits : value.length ≤ 4294967295) :
    WrittenLeaf py (binaryBinary value bits) (.binary value bits) := by
  rw [binaryBinary, if_neg (Nat.not_lt.mpr hfits)]
  by_cases hbits : bits = 8
  · rw [if_neg (not_not.mpr hbits), hbits]
    exact ⟨.binary value.length, value, ⟨lt_succ_of_le hfits, rfl⟩, rfl, rfl, trivial⟩
  · rw [if_pos hbits]
    refine ⟨.bitBinary value.length bits, value, ⟨lt_succ_of_le hfits, rfl⟩, ?_, rfl, trivial⟩
    rw [Form.bytes, Leaf.bytes, append_assoc]
    rfl

/-! ## pids, ports and references -/

/-- A creation of 1 or 4 bytes. -/
def CreationFits (creation : Binary) : Prop := creation.length = 1 ∨ creation.length = 4

theorem writtenLeaf_node {fields : Binary} (kind : Node) (hkind : kind.Fits) (hnode : node.Fits)
    (hfields : fields.length = kind.size) (hvalue : kind.value node fields = t)
    (hwritten : ∀ b, atomBinary node = .ok b → written = .ok (kind.bytes ++ b ++ fields)) :
    WrittenLeaf py written t := by
  obtain ⟨head, name, hhead, hname, hatom, hv, -⟩ := written_atom (φ := φ) hnode
  refine ⟨.node kind head, name ++ fields, ⟨⟨hkind, hhead⟩, ?_⟩, ?_, ?_, trivial⟩
  · rw [length_append, hname, hfields, Leaf.size]
  · rw [hwritten _ hatom, Form.bytes, Leaf.bytes]
    simp only [append_assoc]
  · rw [Leaf.value, take_left' hname, drop_left' hname, hv, ← hvalue]
    rfl

variable (py) in
theorem writtenLeaf_pid {id serial creation : Binary} (hnode : node.Fits) (hid : id.length = 4)
    (hserial : serial.length = 4) (hcreation : CreationFits creation) :
    WrittenLeaf py (pidBinary node id serial creation) (.pid node id serial creation) := by
  have hvalue : ∀ new, (Node.pid new).value node (id ++ (serial ++ creation)) =
      (.pid node id serial creation : Term φ) := by
    intro new
    rw [Node.value, take_left' hid, drop_left' hid, take_left' hserial,
      ← drop_drop, drop_left' hid, drop_left' hserial]
  rcases hcreation with hone | hfour
  · refine writtenLeaf_node (.pid false) trivial hnode ?_ (hvalue false) fun b hb => ?_
    · rw [length_append, length_append, hid, hserial, hone]
      rfl
    · rw [pidBinary, if_pos hone, hb]
      simp [Node.bytes, Node.tag]
  · have hne : creation.length ≠ 1 := by omega
    refine writtenLeaf_node (.pid true) trivial hnode ?_ (hvalue true) fun b hb => ?_
    · rw [length_append, length_append, hid, hserial, hfour]
      rfl
    · rw [pidBinary, if_neg hne, if_pos hfour, hb]
      simp [Node.bytes, Node.tag]

variable (py) in
theorem writtenLeaf_port {id creation : Binary} (hnode : node.Fits) (hid : id.length = 4)
    (hcreation : CreationFits creation) :
    WrittenLeaf py (portBinary node id creation) (.port node id creation) := by
  have hvalue : ∀ new, (Node.port new).value node (id ++ creation) =
      (.port node id creation : Term φ) := by
    intro new
    rw [Node.value, take_left' hid, drop_left' hid]
  rcases hcreation with hone | hfour
  · refine writtenLeaf_node (.port false) trivial hnode ?_ (hvalue false) fun b hb => ?_
    · rw [length_append, hid, hone]
      rfl
    · rw [portBinary, if_pos hone, hb]
      simp [Node.bytes, Node.tag]
  · have hne : creation.length ≠ 1 := by omega
    refine writtenLeaf_node (.port true) trivial hnode ?_ (hvalue true) fun b hb => ?_
    · rw [length_append, hid, hfour]
      rfl
    · rw [portBinary, if_neg hne, if_pos hfour, hb]
      simp [Node.bytes, Node.tag]

variable (py) in
theorem writtenLeaf_reference (words : Nat) {id creation : Binary} (hnode : node.Fits)
    (hid : id.length = words * 4) (hpos : 0 < words) (hwords : words ≤ 65535)
    (hcreation : CreationFits creation) :
    WrittenLeaf py (referenceBinary node id creation) (.reference node id creation) := by
  have hlen : id.length / 4 = words := by omega
  have hvalue : ∀ newer, creation.length = creationSize newer →
      (Node.newReference newer words).value node (creation ++ id) =
        (.reference node id creation : Term φ) := by
    intro newer hsize
    rw [Node.value, take_left' hsize, drop_left' hsize]
  rcases hcreation with hone | hfour
  · refine writtenLeaf_node (.newReference false words) (lt_succ_of_le hwords) hnode ?_
      (hvalue false hone) fun b hb => ?_
    · rw [length_append, hid, hone]
      rfl
    · simp only [referenceBinary, hlen, if_neg (Nat.pos_iff_ne_zero.mp hpos), if_pos hwords,
        if_pos hone, hb]
      simp [Node.bytes, Node.tag]
  · have hne : creation.length ≠ 1 := by omega
    refine writtenLeaf_node (.newReference true words) (lt_succ_of_le hwords) hnode ?_
      (hvalue true hfour) fun b hb => ?_
    · rw [length_append, hid, hfour]
      rfl
    · simp only [referenceBinary, hlen, if_neg (Nat.pos_iff_ne_zero.mp hpos), if_pos hwords,
        if_neg hne, if_pos hfour, hb]
      simp [Node.bytes, Node.tag]

end CloudI.ApiPython.Erlang
