import CloudI.ApiPython.Erlang.BinaryToTerm

/-!
# ApiPython.Erlang.Leaves

The encodings without terms inside: a head, which has the tag and the lengths, and a body of a known
size.  The decoder takes the body as it is when the data end in it, except for the bytes that it
reads one by one or with `struct.unpack`.
-/

namespace CloudI.ApiPython.Erlang

open Binary CloudI.Except Unpack List

variable {φ : Type} {py : Python φ} {data b rest : Binary} {i w n : Nat}

/-! ## primitives -/

theorem drop_add (h : data.drop i = b ++ rest) (hn : b.length = n) : data.drop (i + n) = rest := by
  rw [← drop_drop, h, ← hn, drop_left]

theorem drop_succ (h : data.drop i = x :: rest) : data.drop (i + 1) = rest :=
  drop_add (b := [x]) h rfl

theorem byteAt_eq (h : data.drop i = x :: rest) : byteAt data i = .ok x := by
  have hget : data[i]? = some x := by
    rw [← head?_drop, h, head?_cons]
  rw [byteAt, hget]

theorem byteAt_nil (h : data.drop i = []) : byteAt data i = .error .indexError := by
  have hget : data[i]? = none := by
    rw [← head?_drop, h, head?_nil]
  rw [byteAt, hget]

theorem slice_add (h : data.drop i = b) (k n : Nat) :
    slice data (i + k) (i + k + n) = (b.drop k).take n := by
  rw [slice, ← drop_drop, h, Nat.add_sub_cancel_left]

theorem slice_zero (h : data.drop i = b) (n : Nat) : slice data i (i + n) = b.take n :=
  slice_add h 0 n

theorem unpackUInt_eq (h : data.drop i = bigEndian w n ++ rest) (hn : n < 256 ^ w) :
    unpackUInt data w i = .ok n := by
  rw [unpackUInt, slice_zero h, take_left' (length_bigEndian w n)]
  simp only [length_bigEndian, if_true]
  rw [value_bigEndian, Nat.mod_eq_of_lt hn]

/-- An integer is there, or the data end before it does. -/
theorem unpackUInt_cases (data : Binary) (w i : Nat) :
    (∃ n rest, n < 256 ^ w ∧ data.drop i = bigEndian w n ++ rest) ∨
      unpackUInt data w i = .error .structError := by
  by_cases hlen : (slice data i (i + w)).length = w
  · left
    have hslice : slice data i (i + w) = (data.drop i).take w := slice_zero rfl w
    have hlt := value_lt (slice data i (i + w))
    have heq := bigEndian_value (slice data i (i + w))
    rw [hlen] at hlt heq
    refine ⟨_, data.drop (i + w), hlt, ?_⟩
    rw [heq, hslice, ← drop_drop, take_append_drop]
  · right
    rw [unpackUInt]
    simp only [hlen, if_false]

theorem length_header (tag : Tag) (w n : Nat) : (header tag w n).length = w + 1 := by
  rw [header, length_cons, length_bigEndian]

theorem drop_header (h : data.drop i = header tag w n ++ rest) :
    data.drop (i + 1) = bigEndian w n ++ rest := drop_succ h

theorem drop_header' (h : data.drop i = header tag w n ++ rest) :
    data.drop (i + 1 + w) = rest := drop_add (drop_header h) (length_bigEndian w n)

theorem byteAt_bigEndian (h : data.drop i = bigEndian 1 n ++ rest) (hn : n < 256) :
    ∃ x : Byte, byteAt data i = .ok x ∧ x.val = n := by
  refine ⟨Fin.ofNat 256 (n / 256 ^ 0), byteAt_eq h, ?_⟩
  rw [Fin.val_ofNat, Nat.pow_zero, Nat.div_one, Nat.mod_eq_of_lt hn]

theorem eq_bigEndian (x : Byte) : [x] = bigEndian 1 x.val := by
  rw [bigEndian, bigEndian, Nat.pow_zero, Nat.div_one]
  congr 1
  exact Fin.ext (by rw [Fin.val_ofNat, Nat.mod_eq_of_lt x.isLt])

theorem byteAt_cases (data : Binary) (i : Nat) :
    (∃ x rest, data.drop i = x :: rest) ∨ data.drop i = [] := by
  cases h : data.drop i with
  | nil => exact .inr rfl
  | cons x rest => exact .inl ⟨x, rest, rfl⟩

/-! ## atoms -/

/-- The head of an atom: a number of the atom cache follows, or a name of `n` bytes. -/
inductive AtomHead where
  | cacheRef
  | name (utf8 small : Bool) (n : Nat)

/-- The tag of an atom. -/
def AtomHead.tag : AtomHead → Tag
  | .cacheRef => .atomCacheRef
  | .name false false _ => .atomExt
  | .name false true _ => .smallAtomExt
  | .name true false _ => .atomUtf8Ext
  | .name true true _ => .smallAtomUtf8Ext

/-- The number of bytes of a length. -/
def nameWidth (small : Bool) : Nat := if small then 1 else 2

/-- The bytes of a head. -/
def AtomHead.bytes : AtomHead → Binary
  | .cacheRef => [Tag.atomCacheRef.code]
  | .name utf8 small n => header (AtomHead.name utf8 small n).tag (nameWidth small) n

/-- The length is one that the head can have. -/
def AtomHead.Fits : AtomHead → Prop
  | .cacheRef => True
  | .name _ small n => n < 256 ^ nameWidth small

/-- The size of the body. -/
def AtomHead.size : AtomHead → Nat
  | .cacheRef => 1
  | .name _ _ n => n

/-- How many bytes of the body have to be there. -/
def AtomHead.need : AtomHead → Nat
  | .cacheRef => 1
  | .name _ _ _ => 0

/-- The value of a body. -/
def AtomHead.value : AtomHead → Binary → Except Exception AtomValue
  | .cacheRef, body => .ok (.cache (body.headD 0))
  | .name true _ _, body => (decodeUtf8 body).map .text
  | .name false _ _, body => .ok (.bytes body)

theorem readName_eq (h : data.drop i = header tag 2 n ++ rest) (hn : n < 65536) :
    readName data 2 (i + 1) = .ok (i + 3 + n, rest.take n) := by
  have hdrop := drop_header h
  rw [readName, unpackUInt_eq hdrop hn, ok_bind, slice_zero (drop_header' h)]
  rfl

theorem readSmallName_eq (h : data.drop i = header tag 1 n ++ rest) (hn : n < 256) :
    readSmallName data (i + 1) = .ok (i + 2 + n, rest.take n) := by
  obtain ⟨x, hx, hval⟩ := byteAt_bigEndian (drop_header h) hn
  rw [readSmallName, hx, ok_bind, hval, slice_zero (drop_header' h)]
  rfl

theorem readAtomTag_eq (head : AtomHead) (hfits : head.Fits)
    (h : data.drop i = head.bytes ++ rest) (hneed : head.need ≤ rest.length) :
    readAtomTag data (i + 1) head.tag =
      (head.value (rest.take head.size)).map fun v => (i + head.bytes.length + head.size, v) := by
  match head, hfits, h, hneed with
  | .cacheRef, _, h, hneed =>
    cases rest with
    | nil => cases hneed
    | cons x rest =>
      have hbyte : byteAt data (i + 1) = .ok x := byteAt_eq (drop_succ h)
      show (byteAt data (i + 1) >>= fun number => _) = _
      rw [hbyte]
      rfl
  | .name false false n, hn, h, _ =>
    show (readName data 2 (i + 1) >>= fun x => _) = _
    rw [readName_eq h hn]
    rfl
  | .name false true n, hn, h, _ =>
    show (readSmallName data (i + 1) >>= fun x => _) = _
    rw [readSmallName_eq h hn]
    rfl
  | .name true false n, hn, h, _ =>
    show (readName data 2 (i + 1) >>= fun x => _) = _
    rw [readName_eq h hn]
    show (decodeUtf8 (rest.take n) >>= fun name => _) = ((decodeUtf8 (rest.take n)).map _).map _
    cases decodeUtf8 (rest.take n) <;> rfl
  | .name true true n, hn, h, _ =>
    show (readSmallName data (i + 1) >>= fun x => _) = _
    rw [readSmallName_eq h hn]
    show (decodeUtf8 (rest.take n) >>= fun name => _) = ((decodeUtf8 (rest.take n)).map _).map _
    cases decodeUtf8 (rest.take n) <;> rfl

theorem AtomHead.bytes_eq (head : AtomHead) : ∃ l, head.bytes = head.tag.code :: l := by
  cases head with
  | _ => exact ⟨_, rfl⟩

variable {head : AtomHead}

/-- **`_binary_to_atom`** of an atom. -/
theorem binaryToAtom_eq (hfits : head.Fits) (h : data.drop i = head.bytes ++ rest)
    (hneed : head.need ≤ rest.length) :
    binaryToAtom data i =
      (head.value (rest.take head.size)).map fun v => (i + head.bytes.length + head.size, v) := by
  obtain ⟨l, hl⟩ := head.bytes_eq
  have hbyte : byteAt data i = .ok head.tag.code := by
    rw [hl] at h
    exact byteAt_eq h
  rw [binaryToAtom, hbyte, ok_bind, Tag.ofByte_code]
  exact readAtomTag_eq head hfits h hneed

/-! ## pids, ports and references -/

/-- What names a node: the size of the creation is 4 bytes for the new tags, and 1 for the old
ones; the head of a reference has its number of words. -/
inductive Node where
  | pid (new : Bool)
  | port (new : Bool)
  | reference
  | newReference (newer : Bool) (words : Nat)

/-- The size of a creation. -/
def creationSize (new : Bool) : Nat := if new then 4 else 1

/-- The tag of a pid, a port or a reference. -/
def Node.tag : Node → Tag
  | .pid true => .newPidExt
  | .pid false => .pidExt
  | .port true => .newPortExt
  | .port false => .portExt
  | .reference => .referenceExt
  | .newReference true _ => .newerReferenceExt
  | .newReference false _ => .newReferenceExt

/-- The bytes in front of the node. -/
def Node.bytes : Node → Binary
  | .newReference newer words => header (Node.newReference newer words).tag 2 words
  | node => [node.tag.code]

/-- The length is one that the head can have. -/
def Node.Fits : Node → Prop
  | .newReference _ words => words < 65536
  | _ => True

/-- The size of the fields behind the node. -/
def Node.size : Node → Nat
  | .pid new => 4 + 4 + creationSize new
  | .port new => 4 + creationSize new
  | .reference => 4 + 1
  | .newReference newer words => creationSize newer + words * 4

/-- The value of a node with its fields. -/
def Node.value (node : AtomValue) (fields : Binary) : Node → Term φ
  | .pid _ => .pid node (fields.take 4) ((fields.drop 4).take 4) (fields.drop (4 + 4))
  | .port _ => .port node (fields.take 4) (fields.drop 4)
  | .reference => .reference node (fields.take 4) (fields.drop 4)
  | .newReference newer _ =>
      .reference node (fields.drop (creationSize newer)) (fields.take (creationSize newer))

theorem take_of_take (b : Binary) (h : n ≤ w) : (b.take w).take n = b.take n := by
  rw [take_take, Nat.min_eq_left h]

theorem drop_of_take (b : Binary) (k n : Nat) : (b.take (k + n)).drop k = (b.drop k).take n := by
  rw [drop_take, Nat.add_sub_cancel_left]

theorem readPid_eq (new : Bool) (hfits : head.Fits) (h : data.drop i = head.bytes ++ rest)
    (hneed : head.need ≤ rest.length) :
    readPid data (creationSize new) i = (head.value (rest.take head.size)).map fun v =>
      (i + head.bytes.length + head.size + (4 + 4 + creationSize new),
        ((Node.pid new).value v ((rest.drop head.size).take (4 + 4 + creationSize new)) :
          Term φ)) := by
  have hfields : data.drop (i + head.bytes.length + head.size) = rest.drop head.size := by
    rw [← drop_drop, drop_add h rfl]
  rw [readPid, binaryToAtom_eq hfits h hneed]
  cases head.value (rest.take head.size) with
  | error e => rfl
  | ok v =>
    show Except.ok (_, Term.pid v _ _ _) = Except.ok (_, Term.pid v _ _ _)
    have hcreation := slice_add hfields (4 + 4) (creationSize new)
    rw [← Nat.add_assoc _ 4 4] at hcreation
    rw [slice_zero hfields, slice_add hfields, hcreation, take_of_take _ (by omega),
      drop_of_take, Nat.add_assoc 4 4, drop_of_take, take_of_take _ (by omega)]
    simp only [Nat.add_assoc]

theorem readPort_eq (new : Bool) (hfits : head.Fits) (h : data.drop i = head.bytes ++ rest)
    (hneed : head.need ≤ rest.length) :
    readPort data (creationSize new) i = (head.value (rest.take head.size)).map fun v =>
      (i + head.bytes.length + head.size + (4 + creationSize new),
        ((Node.port new).value v ((rest.drop head.size).take (4 + creationSize new)) :
          Term φ)) := by
  have hfields : data.drop (i + head.bytes.length + head.size) = rest.drop head.size := by
    rw [← drop_drop, drop_add h rfl]
  rw [readPort, binaryToAtom_eq hfits h hneed]
  cases head.value (rest.take head.size) with
  | error e => rfl
  | ok v =>
    show Except.ok (_, Term.port v _ _) = Except.ok (_, Term.port v _ _)
    rw [slice_zero hfields, slice_add hfields, take_of_take _ (by omega), drop_of_take]
    simp only [Nat.add_assoc]

theorem readReference_eq (newer : Bool) (hwords : words < 65536) (hfits : head.Fits)
    (h : data.drop i = header tag 2 words ++ (head.bytes ++ rest))
    (hneed : head.need ≤ rest.length) :
    readReference data (creationSize newer) (i + 1) = (head.value (rest.take head.size)).map
      fun v => (i + 1 + 2 + head.bytes.length + head.size + (creationSize newer + words * 4),
        ((Node.newReference newer words).value v
          ((rest.drop head.size).take (creationSize newer + words * 4)) : Term φ)) := by
  have hatom : data.drop (i + 1 + 2) = head.bytes ++ rest := drop_header' h
  have hfields : data.drop (i + 1 + 2 + head.bytes.length + head.size) = rest.drop head.size := by
    rw [← drop_drop, drop_add hatom rfl]
  rw [readReference, unpackUInt_eq (drop_header h) hwords, ok_bind,
    binaryToAtom_eq hfits hatom hneed]
  cases head.value (rest.take head.size) with
  | error e => rfl
  | ok v =>
    show Except.ok (_, Term.reference v _ _) = Except.ok (_, Term.reference v _ _)
    rw [slice_zero hfields, slice_add hfields, take_of_take _ (by omega), drop_of_take]
    simp only [Nat.add_assoc]

/-! ## leaves -/

/-- The head of an encoding without terms inside. -/
inductive Leaf where
  | newFloat
  | float
  | bitBinary (n : Nat) (bits : Byte)
  | binary (n : Nat)
  | string (n : Nat)
  | atom (head : AtomHead)
  | node (kind : Node) (head : AtomHead)
  | smallInteger
  | integer
  | nil
  | bignum (large : Bool) (n : Nat)
  | newFun (n : Nat)

/-- The number of bytes of the length of a bignum. -/
def bignumWidth (large : Bool) : Nat := if large then 4 else 1

/-- The tag of a leaf. -/
def Leaf.tag : Leaf → Tag
  | .newFloat => .newFloatExt
  | .float => .floatExt
  | .bitBinary _ _ => .bitBinaryExt
  | .binary _ => .binaryExt
  | .string _ => .stringExt
  | .atom head => head.tag
  | .node kind _ => kind.tag
  | .smallInteger => .smallIntegerExt
  | .integer => .integerExt
  | .nil => .nilExt
  | .bignum true _ => .largeBigExt
  | .bignum false _ => .smallBigExt
  | .newFun _ => .newFunExt

/-- The bytes of a head. -/
def Leaf.bytes : Leaf → Binary
  | .bitBinary n bits => header .bitBinaryExt 4 n ++ [bits]
  | .binary n => header .binaryExt 4 n
  | .string n => header .stringExt 2 n
  | .atom head => head.bytes
  | .node kind head => kind.bytes ++ head.bytes
  | .bignum large n => header (Leaf.bignum large n).tag (bignumWidth large) n
  | .newFun n => header .newFunExt 4 n
  | leaf => [leaf.tag.code]

/-- The lengths are some that the head can have.  That of a function counts its own bytes. -/
def Leaf.Fits : Leaf → Prop
  | .bitBinary n _ => n < 256 ^ 4
  | .binary n => n < 256 ^ 4
  | .string n => n < 256 ^ 2
  | .atom head => head.Fits
  | .node kind head => kind.Fits ∧ head.Fits
  | .bignum large n => n < 256 ^ bignumWidth large
  | .newFun n => 4 ≤ n ∧ n < 256 ^ 4
  | _ => True

/-- The size of the body. -/
def Leaf.size : Leaf → Nat
  | .newFloat => 8
  | .float => 31
  | .bitBinary n _ => n
  | .binary n => n
  | .string n => n
  | .atom head => head.size
  | .node kind head => head.size + kind.size
  | .smallInteger => 1
  | .integer => 4
  | .nil => 0
  | .bignum _ n => 1 + n
  | .newFun n => n - 4

/-- How many bytes of the body have to be there. -/
def Leaf.need : Leaf → Nat
  | .newFloat => 8
  | .atom head => head.need
  | .node _ head => head.need
  | .smallInteger => 1
  | .integer => 4
  | .bignum _ n => 1 + n
  | _ => 0

/-- The number of a sign and digits, of which the first one is the lowest. -/
def bignumOf (body : Binary) : Int :=
  let bignum : Int := value body.tail.reverse
  if body.headD 0 = 1 then -bignum else bignum

/-- The value of an atom head as a term. -/
def AtomHead.term (body : Binary) : AtomHead → Except Exception (Term φ)
  | .name false true _ => .ok (smallAtomValue body)
  | head => (head.value body).map .atom

/-- The value of a body. -/
def Leaf.value (py : Python φ) (body : Binary) : Leaf → Except Exception (Term φ)
  | .newFloat => .ok (.float (py.unpack body))
  | .float => (parseFloat py body).map .float
  | .bitBinary _ bits => .ok (.binary body bits)
  | .binary _ => .ok (.binary body 8)
  | .string _ => .ok (.bytes body)
  | .atom head => head.term body
  | .node kind head =>
      (head.value (body.take head.size)).map fun v => kind.value v (body.drop head.size)
  | .smallInteger => .ok (.int (Binary.value body))
  | .integer => .ok (.int (int32Value (Binary.value body)))
  | .nil => .ok (.list [])
  | .bignum _ _ => .ok (.int (bignumOf body))
  | .newFun n => .ok (.function Tag.newFunExt.code (bigEndian 4 n ++ body))

theorem Leaf.bytes_eq (leaf : Leaf) : ∃ l, leaf.bytes = leaf.tag.code :: l := by
  cases leaf with
  | atom head => exact head.bytes_eq
  | node kind head =>
    cases kind with
    | newReference newer words => exact ⟨_, rfl⟩
    | _ => exact ⟨_, rfl⟩
  | bignum large n => exact ⟨_, rfl⟩
  | _ => exact ⟨_, rfl⟩

theorem bignumLoop_eq (hk : k ≤ b.length) (h : data.drop (i + 1) = b) (acc : Nat) :
    bignumLoop data i k acc = .ok ((b.take k).foldr (fun x n => n * 256 + x.val) acc) := by
  induction k generalizing acc with
  | zero => rfl
  | succ k ih =>
    have hget : data.drop (i + (k + 1)) = b.drop k := by
      rw [Nat.add_comm k 1, ← Nat.add_assoc, ← drop_drop, h]
    have hbyte : byteAt data (i + (k + 1)) = .ok b[k] :=
      byteAt_eq (hget.trans (drop_eq_getElem_cons hk))
    rw [bignumLoop, hbyte, ok_bind, ih (Nat.le_of_succ_le hk), take_succ_eq_append_getElem hk,
      foldr_append]
    rfl

theorem foldr_digits (b : Binary) : b.foldr (fun x n => n * 256 + x.val) 0 = value b.reverse := by
  rw [value, foldl_reverse]

theorem readBignum_eq (h : data.drop i = rest) (hlen : 1 + n ≤ rest.length) :
    readBignum data n i = .ok (i + 1 + n, (.int (bignumOf (rest.take (1 + n))) : Term φ)) := by
  cases rest with
  | nil =>
    rw [length_nil] at hlen
    omega
  | cons sign digits =>
    rw [length_cons] at hlen
    have hloop := bignumLoop_eq (by omega : n ≤ digits.length) (drop_succ h) 0
    rw [foldr_digits] at hloop
    rw [readBignum, byteAt_eq h, ok_bind, hloop, Nat.add_comm 1 n, take_succ_cons]
    rfl

theorem value_singleton (x : Byte) : value [x] = x.val := by
  rw [value_cons, length_nil, Nat.pow_zero, Nat.mul_one]
  rfl

theorem bind_atom (x : Except Exception AtomValue) (j : Nat) :
    (x.map (fun v => (j, v)) >>= fun y => pure (y.1, (.atom y.2 : Term φ))) =
      (x.map Term.atom).map fun t => (j, t) := by
  cases x <;> rfl

theorem map_index (x : Except Exception AtomValue) (f : AtomValue → Term φ) (h : j = k) :
    (x.map fun v => (j, f v)) = (x.map f).map fun t => (k, t) := by
  subst h
  cases x <;> rfl

theorem index_eq (h : l = x :: l') : i + 1 + l'.length + n + w = i + l.length + (n + w) := by
  rw [h, length_cons]
  omega

variable (read : Nat → Except Exception (Nat × Term φ))

/-- A pid, a port or a reference behind its tag. -/
theorem readTerm_node
    (hfits : (Leaf.node kind head).Fits) (h : data.drop i = (Leaf.node kind head).bytes ++ rest)
    (hneed : (Leaf.node kind head).need ≤ rest.length) :
    readTerm py data read (i + 1) kind.tag =
      ((Leaf.node kind head).value py (rest.take (head.size + kind.size))).map fun t =>
        (i + (Leaf.node kind head).bytes.length + (head.size + kind.size), t) := by
  obtain ⟨hkind, hhead⟩ := hfits
  rw [Leaf.value, take_of_take _ (Nat.le_add_right _ _), drop_of_take]
  match kind, hkind, h with
  | .pid true, _, h =>
    exact (readPid_eq true hhead (drop_succ h) hneed).trans (map_index _ _ (index_eq rfl))
  | .pid false, _, h =>
    exact (readPid_eq false hhead (drop_succ h) hneed).trans (map_index _ _ (index_eq rfl))
  | .port true, _, h =>
    exact (readPort_eq true hhead (drop_succ h) hneed).trans (map_index _ _ (index_eq rfl))
  | .port false, _, h =>
    exact (readPort_eq false hhead (drop_succ h) hneed).trans (map_index _ _ (index_eq rfl))
  | .reference, _, h =>
    refine Eq.trans ?_ (map_index _ _ (index_eq rfl))
    have hatom : data.drop (i + 1) = head.bytes ++ rest := drop_succ h
    have hfields : data.drop (i + 1 + head.bytes.length + head.size) = rest.drop head.size := by
      rw [← drop_drop, drop_add hatom rfl]
    show (binaryToAtom data (i + 1) >>= fun x => _) = _
    rw [binaryToAtom_eq hhead hatom hneed]
    cases head.value (rest.take head.size) with
    | error e => rfl
    | ok v =>
      show Except.ok (_, Term.reference v _ _) = Except.ok (_, Term.reference v _ _)
      rw [slice_zero hfields, slice_add hfields, Node.size, take_of_take _ (by omega), drop_of_take]
      rfl
  | .newReference true words, hwords, h =>
    have h' : data.drop i = header .newerReferenceExt 2 words ++ (head.bytes ++ rest) := by
      rw [h, Leaf.bytes, append_assoc]
      rfl
    refine (readReference_eq true hwords hhead h' hneed).trans (map_index _ _ ?_)
    rw [Leaf.bytes, length_append, Node.bytes, length_header, Node.size]
    omega
  | .newReference false words, hwords, h =>
    have h' : data.drop i = header .newReferenceExt 2 words ++ (head.bytes ++ rest) := by
      rw [h, Leaf.bytes, append_assoc]
      rfl
    refine (readReference_eq false hwords hhead h' hneed).trans (map_index _ _ ?_)
    rw [Leaf.bytes, length_append, Node.bytes, length_header, Node.size]
    omega

/-- **A leaf is read** in front of anything, and also where the data end in its body, when the
bytes that have to be there are. -/
theorem readTerm_leaf {leaf : Leaf}
    (hfits : leaf.Fits) (h : data.drop i = leaf.bytes ++ rest) (hneed : leaf.need ≤ rest.length) :
    readTerm py data read (i + 1) leaf.tag =
      (leaf.value py (rest.take leaf.size)).map fun t =>
        (i + leaf.bytes.length + leaf.size, t) := by
  match leaf, hfits, h, hneed with
  | .newFloat, _, h, hneed =>
    have hrest : data.drop (i + 1) = rest := drop_succ h
    have hlen : (rest.take 8).length = 8 := length_take_of_le hneed
    show (unpackDouble py data (i + 1) >>= fun x => _) = _
    rw [unpackDouble, slice_zero hrest]
    simp only [hlen, if_true]
    rfl
  | .float, _, h, _ =>
    have hrest : data.drop (i + 1) = rest := drop_succ h
    show (parseFloat py (slice data (i + 1) (i + 1 + 31)) >>= fun x => _) =
      ((parseFloat py (rest.take 31)).map _).map _
    rw [slice_zero hrest]
    cases parseFloat py (rest.take 31) <;> rfl
  | .bitBinary n bits, hn, h, _ =>
    have h' : data.drop i = header .bitBinaryExt 4 n ++ (bits :: rest) := by
      rw [h, Leaf.bytes, append_assoc]
      rfl
    have hbits := drop_header' h'
    show (unpackUInt data 4 (i + 1) >>= fun j => _) = _
    rw [unpackUInt_eq (drop_header h') hn, ok_bind, byteAt_eq hbits]
    show Except.ok (i + 1 + 4 + 1 + n, Term.binary (slice data (i + 1 + 4 + 1) _) bits) = _
    rw [slice_zero (drop_succ hbits)]
    rfl
  | .binary n, hn, h, _ =>
    show (unpackUInt data 4 (i + 1) >>= fun j => _) = _
    rw [unpackUInt_eq (drop_header h) hn]
    show Except.ok (i + 1 + 4 + n, Term.binary (slice data (i + 1 + 4) _) 8) = _
    rw [slice_zero (drop_header' h)]
    rfl
  | .string n, hn, h, _ =>
    show (unpackUInt data 2 (i + 1) >>= fun j => _) = _
    rw [unpackUInt_eq (drop_header h) hn]
    show Except.ok (i + 1 + 2 + n, Term.bytes (slice data (i + 1 + 2) _)) = _
    rw [slice_zero (drop_header' h)]
    rfl
  | .atom .cacheRef, hfits, h, hneed =>
    have hread := readAtomTag_eq (.cacheRef) hfits h hneed
    show (readAtomTag data (i + 1) .atomCacheRef >>= fun x => _) = _
    rw [show readAtomTag data (i + 1) .atomCacheRef = _ from hread]
    rfl
  | .atom (.name false false n), hfits, h, hneed =>
    have hread := readAtomTag_eq (.name false false n) hfits h hneed
    show (readAtomTag data (i + 1) .atomExt >>= fun x => _) = _
    rw [show readAtomTag data (i + 1) .atomExt = _ from hread]
    rfl
  | .atom (.name false true n), hn, h, _ =>
    show (readSmallName data (i + 1) >>= fun x => _) = _
    rw [readSmallName_eq h hn]
    rfl
  | .atom (.name true false n), hfits, h, hneed =>
    have hread := readAtomTag_eq (.name true false n) hfits h hneed
    show (readAtomTag data (i + 1) .atomUtf8Ext >>= fun x => _) = _
    rw [show readAtomTag data (i + 1) .atomUtf8Ext = _ from hread]
    exact bind_atom _ _
  | .atom (.name true true n), hfits, h, hneed =>
    have hread := readAtomTag_eq (.name true true n) hfits h hneed
    show (readAtomTag data (i + 1) .smallAtomUtf8Ext >>= fun x => _) = _
    rw [show readAtomTag data (i + 1) .smallAtomUtf8Ext = _ from hread]
    exact bind_atom _ _
  | .node kind head, hfits, h, hneed => exact readTerm_node read hfits h hneed
  | .smallInteger, _, h, hneed =>
    cases rest with
    | nil => cases hneed
    | cons x rest =>
      show (byteAt data (i + 1) >>= fun b => _) = _
      rw [byteAt_eq (drop_succ h)]
      show Except.ok (_, Term.int _) = Except.ok (_, Term.int (value [x]))
      rw [value_singleton]
      rfl
  | .integer, _, h, hneed =>
    have hlen : (rest.take 4).length = 4 := length_take_of_le hneed
    have hrest : data.drop (i + 1) = rest := drop_succ h
    show (unpackInt data (i + 1) >>= fun n => _) = _
    rw [unpackInt, unpackUInt, slice_zero hrest]
    simp only [hlen, if_true]
    rfl
  | .nil, _, h, _ => rfl
  | .bignum false n, hn, h, hneed =>
    obtain ⟨x, hx, hval⟩ := byteAt_bigEndian (drop_header h) hn
    show (byteAt data (i + 1) >>= fun j => _) = _
    have hread := readBignum_eq (φ := φ) (drop_header' h) hneed
    rw [hx, ok_bind, hval]
    exact hread.trans (congrArg (fun j => Except.ok (j, Term.int _)) (Nat.add_assoc _ 1 n))
  | .bignum true n, hn, h, hneed =>
    have hlen : unpackUInt data 4 (i + 1) = .ok n := unpackUInt_eq (drop_header h) hn
    have hread := readBignum_eq (φ := φ) (drop_header' h) hneed
    show (unpackUInt data 4 (i + 1) >>= fun j => _) = _
    rw [hlen]
    exact hread.trans (congrArg (fun j => Except.ok (j, Term.int _)) (Nat.add_assoc _ 1 n))
  | .newFun n, ⟨hfour, hn⟩, h, _ =>
    have hslice : slice data (i + 1) (i + 1 + n) = bigEndian 4 n ++ rest.take (n - 4) := by
      rw [slice_zero (drop_header h), take_append, length_bigEndian,
        take_of_length_le (by rw [length_bigEndian]; exact hfour)]
    show (unpackUInt data 4 (i + 1) >>= fun length => _) = _
    rw [unpackUInt_eq (drop_header h) hn, ok_bind, hslice]
    show Except.ok (i + 1 + n, _) = Except.ok (i + 5 + (n - 4), _)
    congr 2
    omega

end CloudI.ApiPython.Erlang
