import CloudI.ApiPython.Erlang.Faults

/-!
# ApiPython.Erlang.Readings

Every reading of the decoder: a form, a term that is cut, a fault, or an exception that becomes a
`ParseException`.
-/

namespace CloudI.ApiPython.Erlang

open Binary CloudI.Except Unpack List
open Nat (add_assoc succ_pos zero_le)

variable {φ : Type} {py : Python φ} {data r : Binary} {i n : Nat} {tag : Tag}
variable {read : Nat → Except Exception (Nat × Term φ)} {limit : Nat → Binary → Bool} {d : Nat}

/-- An exception that becomes a `ParseException`. -/
def Plain (x : Except Exception α) : Prop := ∃ e, x = .error e ∧ caught e = .parseException

theorem plain_struct : Plain (.error .structError : Except Exception α) := ⟨_, rfl, rfl⟩

theorem plain_index : Plain (.error .indexError : Except Exception α) := ⟨_, rfl, rfl⟩

theorem plain_parse : Plain (.error .parseException : Except Exception α) := ⟨_, rfl, rfl⟩

theorem Plain.bind {x : Except Exception α} (h : Plain x) (f : α → Except Exception β) :
    Plain (x >>= f) := by
  obtain ⟨e, rfl, he⟩ := h
  exact ⟨e, rfl, he⟩

theorem Plain.reading {x : Except Exception (Nat × Term φ)} (h : Plain x) :
    Reading py limit d data i x := by
  obtain ⟨e, rfl, he⟩ := h
  exact .inl he

/-! ## heads -/

variable {rest : Binary} {pairs : List (Term φ × Term φ)} {key v : Term φ} {s : Sequence}

section

variable (h : data.drop i = tag.code :: r)

include h

theorem drop_eq_header (h' : data.drop (i + 1) = bigEndian w n ++ rest)
    : data.drop i = header tag w n ++ rest := by
  rw [h, ← drop_succ h, h']
  rfl

theorem smallLength_cases : (∃ (x : Byte) (rest : Binary), byteAt data (i + 1) = .ok x ∧
      data.drop i = header tag 1 x.val ++ rest) ∨ Plain (byteAt data (i + 1)) := by
  rcases byteAt_cases data (i + 1) with ⟨x, rest, hdrop⟩ | hnil
  · refine .inl ⟨x, rest, byteAt_eq hdrop, drop_eq_header h ?_⟩
    rw [hdrop, ← eq_bigEndian]
    rfl
  · rw [byteAt_nil hnil]
    exact .inr plain_index

theorem length_cases (w : Nat) :
    (∃ (n : Nat) (rest : Binary), n < 256 ^ w ∧ unpackUInt data w (i + 1) = .ok n ∧
      data.drop i = header tag w n ++ rest) ∨ Plain (unpackUInt data w (i + 1)) := by
  rcases unpackUInt_cases data w (i + 1) with ⟨n, rest, hn, hdrop⟩ | herror
  · exact .inl ⟨n, rest, hn, unpackUInt_eq hdrop hn, drop_eq_header h hdrop⟩
  · rw [herror]
    exact .inr plain_struct

theorem readAtomTag_cases : (∃ (head : AtomHead) (rest : Binary), head.tag = tag ∧ head.Fits ∧
      data.drop i = head.bytes ++ rest ∧ head.need ≤ rest.length) ∨
    Plain (readAtomTag data (i + 1) tag) := by
  cases tag with
  | atomExt =>
    rcases length_cases h 2 with ⟨n, rest, hn, -, hdrop⟩ | hplain
    · exact .inl ⟨.name false false n, rest, rfl, hn, hdrop, zero_le _⟩
    · exact .inr ((hplain.bind _).bind _)
  | atomUtf8Ext =>
    rcases length_cases h 2 with ⟨n, rest, hn, -, hdrop⟩ | hplain
    · exact .inl ⟨.name true false n, rest, rfl, hn, hdrop, zero_le _⟩
    · exact .inr ((hplain.bind _).bind _)
  | smallAtomExt =>
    rcases smallLength_cases h with ⟨x, rest, -, hdrop⟩ | hplain
    · exact .inl ⟨.name false true x.val, rest, rfl, x.isLt, hdrop, zero_le _⟩
    · exact .inr ((hplain.bind _).bind _)
  | smallAtomUtf8Ext =>
    rcases smallLength_cases h with ⟨x, rest, -, hdrop⟩ | hplain
    · exact .inl ⟨.name true true x.val, rest, rfl, x.isLt, hdrop, zero_le _⟩
    · exact .inr ((hplain.bind _).bind _)
  | atomCacheRef =>
    rcases byteAt_cases data (i + 1) with ⟨x, rest, hdrop⟩ | hnil
    · have hrest : r = x :: rest := (drop_succ h).symm.trans hdrop
      exact .inl ⟨.cacheRef, r, rfl, trivial, h, hrest ▸ succ_pos _⟩
    · right
      show Plain (byteAt data (i + 1) >>= _)
      rw [byteAt_nil hnil]
      exact plain_index.bind _
  | _ => exact .inr plain_parse

end

/-- `_binary_to_atom` finds the head of an atom, or fails without a fault. -/
theorem binaryToAtom_cases (data : Binary) (i : Nat) :
    (∃ (head : AtomHead) (rest : Binary), head.Fits ∧ data.drop i = head.bytes ++ rest ∧
      head.need ≤ rest.length) ∨ Plain (binaryToAtom data i) := by
  rcases byteAt_cases data i with ⟨x, rest, hdrop⟩ | hnil
  · cases htag : Tag.ofByte x with
    | none =>
      right
      rw [binaryToAtom, byteAt_eq hdrop, ok_bind, htag]
      exact plain_parse
    | some tag =>
      obtain rfl := Tag.code_of_ofByte htag
      rcases readAtomTag_cases hdrop with ⟨head, rest', -, hfits, hdrop', hneed⟩ | hplain
      · exact .inl ⟨head, rest', hfits, hdrop', hneed⟩
      · right
        rw [binaryToAtom, byteAt_eq hdrop, ok_bind, htag]
        exact hplain
  · right
    rw [binaryToAtom, byteAt_nil hnil]
    exact plain_index.bind _

/-! ## leaves -/

/-- **A leaf in front** is a form, or it is cut, or its value is a fault. -/
theorem reading_leaf (leaf : Leaf) (hfits : leaf.Fits) (h : data.drop i = leaf.bytes ++ rest)
    (hneed : leaf.need ≤ rest.length) :
    Reading py limit d data i (readTerm py data read (i + 1) leaf.tag) := by
  rw [readTerm_leaf read hfits h hneed]
  cases hvalue : leaf.value py (rest.take leaf.size) with
  | error e =>
    right
    rw [h]
    exact .leaf hfits hneed hvalue
  | ok t =>
    by_cases hsize : leaf.size ≤ rest.length
    · left
      refine ⟨.leaf leaf (rest.take leaf.size), rest.drop leaf.size,
        ⟨hfits, length_take_of_le hsize⟩, hvalue, ?_, ?_⟩
      · rw [h, Form.bytes, append_assoc, take_append_drop]
      · rw [Form.bytes, length_append, length_take_of_le hsize, add_assoc]
    · right
      have htake : rest.take leaf.size = rest := take_of_length_le (by omega)
      rw [htake] at hvalue
      have hpos : 0 < leaf.bytes.length := by
        obtain ⟨l, hl⟩ := leaf.bytes_eq
        rw [hl]
        exact succ_pos _
      have hlen := congrArg List.length h
      rw [length_drop, length_append] at hlen
      refine ⟨?_, .inl (by omega), by omega⟩
      rw [h]
      refine .leaf hfits hneed (by omega) ?_
      rw [hvalue]
      rfl

theorem dead_newFun (h : data.drop i = header .newFunExt 4 n ++ rest) (hn : n < 4) :
    Dead data (i + 1 + n) := by
  right
  have hdrop := drop_header h
  have hn' : n = 0 ∨ n = 1 ∨ n = 2 ∨ n = 3 := by omega
  rcases hn' with rfl | rfl | rfl | rfl
  · exact ⟨0, _, hdrop, rfl⟩
  · exact ⟨0, _, drop_succ hdrop, rfl⟩
  · exact ⟨0, _, drop_succ (drop_succ hdrop), rfl⟩
  · exact ⟨3, _, drop_succ (drop_succ (drop_succ hdrop)), rfl⟩

theorem reading_newFun (h : data.drop i = Tag.newFunExt.code :: r) :
    Reading py limit d data i (readTerm py data read (i + 1) .newFunExt) := by
  rcases length_cases h 4 with ⟨n, rest, hn, hunpack, hdrop⟩ | hplain
  · by_cases hshort : n < 4
    · show Reading py limit d data i (unpackUInt data 4 (i + 1) >>= fun length => _)
      rw [hunpack]
      refine .inr ⟨?_, dead_newFun hdrop hshort, by omega⟩
      rw [hdrop]
      exact .newFun hshort
    · exact reading_leaf (.newFun n) ⟨by omega, hn⟩ hdrop (zero_le _)
  · exact (hplain.bind _).reading

/-- A bignum whose digits are not all there. -/
theorem readBignum_short (h : data.drop i = rest) (hshort : rest.length < 1 + n) :
    Plain (readBignum (φ := φ) data n i) := by
  rw [readBignum]
  rcases byteAt_cases data i with ⟨x, rest', hdrop⟩ | hnil
  · cases n with
    | zero =>
      rw [← h, hdrop, length_cons] at hshort
      omega
    | succ n =>
      have hnil : data.drop (i + (n + 1)) = [] := by
        rw [← drop_drop, h]
        exact drop_eq_nil_of_le (by omega)
      rw [byteAt_eq hdrop, ok_bind, bignumLoop, byteAt_nil hnil]
      exact plain_index.bind _
  · rw [byteAt_nil hnil]
    exact plain_index.bind _

theorem reading_bignum (large : Bool) (h : data.drop i = (Leaf.bignum large 0).tag.code :: r) :
    Reading py limit d data i (readTerm py data read (i + 1) (Leaf.bignum large 0).tag) := by
  cases large with
  | false =>
    rcases smallLength_cases h with ⟨x, rest, hbyte, hdrop⟩ | hplain
    · by_cases hneed : 1 + x.val ≤ rest.length
      · exact reading_leaf (.bignum false x.val) x.isLt hdrop hneed
      · show Reading py limit d data i (byteAt data (i + 1) >>= fun j => _)
        rw [hbyte]
        exact (readBignum_short (drop_header' hdrop) (by omega)).reading
    · exact (hplain.bind _).reading
  | true =>
    rcases length_cases h 4 with ⟨n, rest, hn, hunpack, hdrop⟩ | hplain
    · by_cases hneed : 1 + n ≤ rest.length
      · exact reading_leaf (.bignum true n) hn hdrop hneed
      · show Reading py limit d data i (unpackUInt data 4 (i + 1) >>= fun j => _)
        rw [hunpack]
        exact (readBignum_short (drop_header' hdrop) (by omega)).reading
    · exact (hplain.bind _).reading

theorem reading_newFloat (h : data.drop i = Tag.newFloatExt.code :: r) :
    Reading py limit d data i (readTerm py data read (i + 1) .newFloatExt) := by
  by_cases hneed : 8 ≤ r.length
  · exact reading_leaf .newFloat trivial h hneed
  · show Reading py limit d data i (unpackDouble py data (i + 1) >>= fun x => _)
    have hslice : (slice data (i + 1) (i + 1 + 8)).length ≠ 8 := by
      rw [slice_zero (drop_succ h), length_take]
      omega
    rw [unpackDouble]
    simp only [hslice, if_false]
    exact (plain_struct.bind _).reading

theorem reading_integer (h : data.drop i = Tag.integerExt.code :: r) :
    Reading py limit d data i (readTerm py data read (i + 1) .integerExt) := by
  by_cases hneed : 4 ≤ r.length
  · exact reading_leaf .integer trivial h hneed
  · show Reading py limit d data i (unpackInt data (i + 1) >>= fun x => _)
    have hslice : (slice data (i + 1) (i + 1 + 4)).length ≠ 4 := by
      rw [slice_zero (drop_succ h), length_take]
      omega
    rw [unpackInt, unpackUInt]
    simp only [hslice, if_false]
    exact (plain_struct.bind _).reading

theorem reading_bitBinary (h : data.drop i = Tag.bitBinaryExt.code :: r) :
    Reading py limit d data i (readTerm py data read (i + 1) .bitBinaryExt) := by
  rcases length_cases h 4 with ⟨n, rest, hn, hunpack, hdrop⟩ | hplain
  · cases rest with
    | nil =>
      show Reading py limit d data i (unpackUInt data 4 (i + 1) >>= fun j => _)
      rw [hunpack, ok_bind, byteAt_nil (drop_header' hdrop)]
      exact (plain_index.bind _).reading
    | cons bits rest =>
      have hbytes : data.drop i = (Leaf.bitBinary n bits).bytes ++ rest := by
        rw [hdrop, Leaf.bytes, append_assoc]
        rfl
      exact reading_leaf (.bitBinary n bits) hn hbytes (zero_le _)
  · exact (hplain.bind _).reading

theorem reading_node (kind : Node) (hkind : kind.Fits) (hbytes : kind.bytes = [kind.tag.code])
    (h : data.drop i = kind.tag.code :: r) (hplain : Plain (binaryToAtom data (i + 1)) →
      Plain (readTerm py data read (i + 1) kind.tag)) :
    Reading py limit d data i (readTerm py data read (i + 1) kind.tag) := by
  rcases binaryToAtom_cases data (i + 1) with ⟨head, rest, hfits, hdrop, hneed⟩ | hplain'
  · refine reading_leaf (.node kind head) ⟨hkind, hfits⟩ ?_ hneed
    rw [h, Leaf.bytes, hbytes, ← drop_succ h, hdrop]
    rfl
  · exact (hplain hplain').reading

/-- A reference: the node is an atom behind the number of words. -/
theorem reading_reference (newer : Bool) (h : data.drop i = (Node.newReference newer 0).tag.code :: r)
    (hread : readTerm py data read (i + 1) (Node.newReference newer 0).tag =
      readReference data (creationSize newer) (i + 1)) :
    Reading py limit d data i (readTerm py data read (i + 1) (Node.newReference newer 0).tag) := by
  rcases length_cases h 2 with ⟨words, rest, hwords, hunpack, hdrop⟩ | hplain
  · have hrest : data.drop (i + 1 + 2) = rest := drop_header' hdrop
    rcases binaryToAtom_cases data (i + 1 + 2) with ⟨head, rest', hfits, hdrop', hneed⟩ | hplain
    · have hbytes : data.drop i = (Leaf.node (.newReference newer words) head).bytes ++ rest' := by
        rw [hdrop, ← hrest, hdrop', Leaf.bytes, append_assoc]
        cases newer <;> rfl
      have htag : (Leaf.node (.newReference newer words) head).tag =
          (Node.newReference newer 0).tag := by
        cases newer <;> rfl
      rw [← htag]
      exact reading_leaf _ ⟨hwords, hfits⟩ hbytes hneed
    · rw [hread, readReference, hunpack]
      exact (hplain.bind _).reading
  · rw [hread, readReference]
    exact (hplain.bind _).reading

/-! ## sequences -/

/-- What reading terms one after the other comes to. -/
def SequenceReading (py : Python φ) (limit : Nat → Binary → Bool) (d : Nat) (data : Binary)
    (i n : Nat) :
    Except Exception (Nat × List (Term φ)) → Prop
  | .ok (j, ts) =>
      (∃ (l : List Form) (rest : Binary), l.length = n ∧ Form.FitsList l ∧
        Form.valueList py l = .ok ts ∧ data.drop i = Form.bytesList l ++ rest ∧
        j = i + (Form.bytesList l).length) ∨
      (∃ (l : List Form) (b : Binary), l.length + 1 = n ∧ Form.FitsList l ∧
        (Form.valueList py l).isOk = true ∧ data.drop i = Form.bytesList l ++ b ∧
        Cut py b) ∧ Dead data j ∧ i ≤ j
  | .error e => caught e = .parseException ∨ ∃ (l : List Form) (b : Binary), l.length < n ∧
      Form.FitsList l ∧ (Form.valueList py l).isOk = true ∧
      data.drop i = Form.bytesList l ++ b ∧ Faults py limit d b e

theorem isOk_valueList_cons (hf : f.value py = .ok t) (hl : (Form.valueList py l).isOk = true) :
    (Form.valueList py (f :: l)).isOk = true := by
  obtain ⟨ts, hts⟩ := exists_of_isOk hl
  rw [Form.valueList, hf, hts]
  rfl

/-- **`_binary_to_term_sequence`**, by the number of terms. -/
theorem reading_sequence (hread : ∀ j, Reading py limit d data j (read j)) (n i : Nat) :
    SequenceReading py limit d data i n (readSequence read n i) := by
  induction n generalizing i with
  | zero => exact .inl ⟨[], data.drop i, rfl, trivial, rfl, rfl, rfl⟩
  | succ n ih =>
    have hfirst := hread i
    rw [readSequence]
    cases hx : read i with
    | error e =>
      rw [hx] at hfirst
      rcases hfirst with hplain | hfaults
      · exact .inl hplain
      · exact .inr ⟨[], data.drop i, succ_pos n, trivial, rfl, rfl, hfaults⟩
    | ok x =>
      obtain ⟨j, t⟩ := x
      rw [hx] at hfirst
      show SequenceReading py limit d data i (n + 1) (readSequence read n j >>= fun y => _)
      rcases hfirst with ⟨f, rest, hfits, hvalue, hdrop, rfl⟩ | ⟨hcut, hdead, hle⟩
      · have hrest : data.drop (i + f.bytes.length) = rest := drop_add hdrop rfl
        have hl := ih (i + f.bytes.length)
        cases hy : readSequence read n (i + f.bytes.length) with
        | error e =>
          rw [hy] at hl
          rcases hl with hplain | ⟨l, b, hlen, hfitsl, hok, hdrop', hfaults⟩
          · exact .inl hplain
          · refine .inr ⟨f :: l, b, Nat.succ_lt_succ hlen, ⟨hfits, hfitsl⟩,
              isOk_valueList_cons hvalue hok, ?_, hfaults⟩
            rw [hdrop, ← hrest, hdrop', Form.bytesList, append_assoc]
        | ok y =>
          obtain ⟨j, ts⟩ := y
          rw [hy] at hl
          rcases hl with ⟨l, rest', hlen, hfitsl, hvalues, hdrop', rfl⟩ |
            ⟨⟨l, b, hlen, hfitsl, hok, hdrop', hcut⟩, hdead, hle⟩
          · refine .inl ⟨f :: l, rest', congrArg (· + 1) hlen, ⟨hfits, hfitsl⟩, ?_, ?_, ?_⟩
            · rw [Form.valueList, hvalue, hvalues]
              rfl
            · rw [hdrop, ← hrest, hdrop', Form.bytesList, append_assoc]
            · rw [Form.bytesList, length_append, add_assoc]
          · refine .inr ⟨⟨f :: l, b, congrArg (· + 1) hlen, ⟨hfits, hfitsl⟩,
              isOk_valueList_cons hvalue hok, ?_, hcut⟩, hdead, by omega⟩
            rw [hdrop, ← hrest, hdrop', Form.bytesList, append_assoc]
      · -- nothing is read behind a term that is cut
        cases n with
        | zero => exact .inr ⟨⟨[], data.drop i, rfl, trivial, rfl, rfl, hcut⟩, hdead, hle⟩
        | succ n =>
          obtain ⟨e, he, hplain⟩ := (hread j).of_dead hdead
          rw [readSequence, he]
          exact .inl hplain

/-! ## entries -/

/-- A fault in the keys and values of a map. -/
def EntryFaults (py : Python φ) (limit : Nat → Binary → Bool) (d n : Nat)
    (pairs : List (Term φ × Term φ)) (b : Binary) (e : Exception) : Prop :=
  ∃ (l : List (Form × Form)) (ps : List (Term φ × Term φ)) (b' : Binary), l.length < n ∧
    Form.FitsEntries l ∧ Form.valueEntries py l pairs = .ok ps ∧
    b = Form.bytesEntries l ++ b' ∧
    (Faults py limit d b' e ∨ ∃ (k : Form) (key : Term φ) (b'' : Binary), k.Fits ∧
      k.value py = .ok key ∧ b' = k.bytes ++ b'' ∧
      (Faults py limit d b'' e ∨
        ReadsAt py b'' ∧ KeyFails py ps (keyOf key) e))

/-- What reading entries comes to. -/
def PairsReading (py : Python φ) (limit : Nat → Binary → Bool) (d : Nat) (data : Binary)
    (i n : Nat) (pairs : List (Term φ × Term φ)) : Except Exception (Nat × List (Term φ × Term φ)) → Prop
  | .ok (j, pairs') =>
      (∃ (l : List (Form × Form)) (rest : Binary), l.length = n ∧ Form.FitsEntries l ∧
        Form.valueEntries py l pairs = .ok pairs' ∧
        data.drop i = Form.bytesEntries l ++ rest ∧ j = i + (Form.bytesEntries l).length) ∨
      (∃ (l : List (Form × Form)) (ps : List (Term φ × Term φ)) (k : Form) (key : Term φ)
        (b : Binary), l.length + 1 = n ∧ Form.FitsEntries l ∧
        Form.valueEntries py l pairs = .ok ps ∧ k.Fits ∧ k.value py = .ok key ∧
        (∀ e, ¬ KeyFails py ps (keyOf key) e) ∧
        data.drop i = Form.bytesEntries l ++ (k.bytes ++ b) ∧ Cut py b) ∧
        Dead data j ∧ i ≤ j
  | .error e => caught e = .parseException ∨ EntryFaults py limit d n pairs (data.drop i) e

theorem valueEntries_cons {k v : Form} {l : List (Form × Form)} {value : Term φ}
    {pairs₁ : List (Term φ × Term φ)} (hk : k.value py = .ok key)
    (hv : v.value py = .ok value) (hset : setItem py pairs (keyOf key) value = .ok pairs₁) :
    Form.valueEntries py ((k, v) :: l) pairs = Form.valueEntries py l pairs₁ := by
  rw [Form.valueEntries, hk, hv, ok_bind, ok_bind, hset, ok_bind]

/-- **The loop over the entries of a map**, by their number. -/
theorem reading_pairs (hread : ∀ j, Reading py limit d data j (read j)) (n i : Nat)
    (pairs : List (Term φ × Term φ)) :
    PairsReading py limit d data i n pairs (readPairs py read n i pairs) := by
  induction n generalizing i pairs with
  | zero => exact .inl ⟨[], data.drop i, rfl, trivial, rfl, rfl, rfl⟩
  | succ n ih =>
    have hkey := hread i
    rw [readPairs]
    cases hx : read i with
    | error e =>
      rw [hx] at hkey
      rcases hkey with hplain | hfaults
      · exact .inl hplain
      · exact .inr ⟨[], pairs, data.drop i, succ_pos n, trivial, rfl, rfl, .inl hfaults⟩
    | ok x =>
      obtain ⟨j, key⟩ := x
      rw [hx] at hkey
      show PairsReading py limit d data i (n + 1) pairs (read j >>= fun y => _)
      rcases hkey with ⟨k, rest, hk, hkvalue, hdrop, rfl⟩ | ⟨-, hdead, -⟩
      swap
      · -- nothing is read behind a key that is cut
        obtain ⟨e, he, hplain⟩ := (hread j).of_dead hdead
        rw [he]
        exact .inl hplain
      have hrest : data.drop (i + k.bytes.length) = rest := drop_add hdrop rfl
      have hval := hread (i + k.bytes.length)
      cases hy : read (i + k.bytes.length) with
      | error e =>
        rw [hy] at hval
        rcases hval with hplain | hfaults
        · exact .inl hplain
        · exact .inr ⟨[], pairs, data.drop i, succ_pos n, trivial, rfl, rfl,
            .inr ⟨k, key, rest, hk, hkvalue, hdrop, .inl (hrest ▸ hfaults)⟩⟩
      | ok y =>
        obtain ⟨j, value⟩ := y
        rw [hy] at hval
        have hreads : ReadsAt py rest := by
          rcases hval with ⟨v, rest', hv, hvvalue, hdrop', -⟩ | ⟨hcut, -⟩
          · refine .inl ⟨v, rest', hv, ?_, hrest ▸ hdrop'⟩
            rw [hvvalue]
            rfl
          · exact .inr (hrest ▸ hcut)
        show PairsReading py limit d data i (n + 1) pairs
          (setItem py pairs (keyOf key) value >>= fun pairs => _)
        cases hset : setItem py pairs (keyOf key) value with
        | error e =>
          exact .inr ⟨[], pairs, data.drop i, succ_pos n, trivial, rfl, rfl,
            .inr ⟨k, key, rest, hk, hkvalue, hdrop, .inr ⟨hreads, setItem_eq_error.mp hset⟩⟩⟩
        | ok pairs₁ =>
          show PairsReading py limit d data i (n + 1) pairs (readPairs py read n j pairs₁)
          rcases hval with ⟨v, rest', hv, hvvalue, hdrop', rfl⟩ | ⟨hcut, hdead, hle⟩
          · have hbytes : data.drop i = k.bytes ++ (v.bytes ++ rest') := by
              rw [hdrop, ← hrest, hdrop']
            have hrest' : data.drop (i + k.bytes.length + v.bytes.length) = rest' :=
              drop_add hdrop' rfl
            have hcons : ∀ l b, rest' = Form.bytesEntries l ++ b →
                data.drop i = Form.bytesEntries ((k, v) :: l) ++ b := by
              intro l b hb
              rw [hbytes, hb, Form.bytesEntries]
              simp only [append_assoc]
            have hl := ih (i + k.bytes.length + v.bytes.length) pairs₁
            cases hz : readPairs py read n (i + k.bytes.length + v.bytes.length) pairs₁ with
            | error e =>
              rw [hz] at hl
              rcases hl with hplain | ⟨l, ps, b, hlen, hfits, hps, hb, hfaults⟩
              · exact .inl hplain
              · exact .inr ⟨(k, v) :: l, ps, b, Nat.succ_lt_succ hlen,
                  ⟨hk, hv, hfits⟩, (valueEntries_cons hkvalue hvvalue hset).trans hps,
                  hcons l b (hrest'.symm.trans hb), hfaults⟩
            | ok z =>
              obtain ⟨j, pairs'⟩ := z
              rw [hz] at hl
              rcases hl with ⟨l, rest'', hlen, hfits, hps, hb, rfl⟩ |
                ⟨⟨l, ps, k', key', b, hlen, hfits, hps, hk', hkvalue', hok, hb, hcut⟩,
                  hdead, hle⟩
              · refine .inl ⟨(k, v) :: l, rest'', congrArg (· + 1) hlen,
                  ⟨hk, hv, hfits⟩, (valueEntries_cons hkvalue hvvalue hset).trans hps,
                  hcons l rest'' (hrest'.symm.trans hb), ?_⟩
                rw [Form.bytesEntries, length_append, length_append]
                omega
              · exact .inr ⟨⟨(k, v) :: l, ps, k', key', b, congrArg (· + 1) hlen,
                  ⟨hk, hv, hfits⟩, (valueEntries_cons hkvalue hvvalue hset).trans hps,
                  hk', hkvalue', hok, hcons l _ (hrest'.symm.trans hb), hcut⟩, hdead,
                  by omega⟩
          · cases n with
            | zero =>
              exact .inr ⟨⟨[], pairs, k, key, rest, rfl, trivial, rfl, hk, hkvalue,
                not_keyFails hset, hdrop, hrest ▸ hcut⟩, hdead, by omega⟩
            | succ n =>
              obtain ⟨e, he, hplain⟩ := (hread j).of_dead hdead
              rw [readPairs, he]
              exact .inl hplain

/-! ## tuples, lists and maps -/

/-- The terms of a list and its tail are one sequence. -/
theorem readSequence_succ (n i : Nat) : readSequence read (n + 1) i = (do
      let (i, ts) ← readSequence read n i
      let (i, t) ← read i
      pure (i, ts ++ [t])) := by
  induction n generalizing i with
  | zero =>
    show (read i >>= fun x => _) = (read i >>= fun x => _)
    cases read i <;> rfl
  | succ n ih =>
    rw [readSequence, readSequence]
    cases read i with
    | error e => rfl
    | ok x =>
      obtain ⟨j, t⟩ := x
      show (readSequence read (n + 1) j >>= fun y => _) = _
      rw [ih]
      show _ = ((readSequence read n j >>= fun y => _) >>= fun y => _)
      cases readSequence read n j with
      | error e => rfl
      | ok y =>
        obtain ⟨k, ts⟩ := y
        show ((read k >>= fun z => _) >>= fun z => _) = (read k >>= fun z => _)
        cases read k <;> rfl

/-- **A tuple or a list behind its tag** is a sequence of terms. -/
theorem readTerm_sequence (hs : s.Fits n) (hdrop : data.drop i = s.bytes n ++ rest) :
    readTerm py data read (i + 1) s.tag =
      (readSequence read n (i + (s.bytes n).length)).map fun y => (y.1, s.value y.2) := by
  cases s with
  | smallTuple =>
    obtain ⟨x, hx, hval⟩ := byteAt_bigEndian (drop_header hdrop) hs
    show (byteAt data (i + 1) >>= fun length => _) = _
    rw [hx, ok_bind, hval, Sequence.bytes, length_header]
    cases readSequence read n (i + 1 + 1) <;> rfl
  | largeTuple =>
    show (unpackUInt data 4 (i + 1) >>= fun length => _) = _
    rw [unpackUInt_eq (drop_header hdrop) hs, ok_bind, Sequence.bytes, length_header,
      Nat.add_comm 4 1, ← add_assoc]
    cases readSequence read n (i + 1 + 4) <;> rfl
  | list =>
    obtain ⟨hpos, hle⟩ := hs
    obtain ⟨m, rfl⟩ : ∃ m, n = m + 1 := ⟨n - 1, by omega⟩
    have hm : m < 256 ^ 4 := hle
    show (unpackUInt data 4 (i + 1) >>= fun length => _) = _
    rw [unpackUInt_eq (drop_header hdrop) hm, ok_bind, readSequence_succ, Sequence.bytes,
      length_header, Nat.add_comm 4 1, ← add_assoc]
    show (readSequence read m (i + 1 + 4) >>= fun y => _) =
      (readSequence read m (i + 1 + 4) >>= fun y => _).map _
    cases readSequence read m (i + 1 + 4) with
    | error e => rfl
    | ok y =>
      obtain ⟨j, ts⟩ := y
      show (read j >>= fun z => _) = (read j >>= fun z => _).map _
      cases read j with
      | error e => rfl
      | ok z =>
        obtain ⟨k, t⟩ := z
        show Except.ok (k, listValue ts t) = .ok (k, Sequence.value (ts ++ [t]) .list)
        rw [Sequence.value, dropLast_concat, getLastD_concat]

section

variable (hread : ∀ j, Reading py limit (d + 1) data j (read j))

include hread

/-- A tuple or a list, from the reading of its terms. -/
theorem reading_composite (hs : s.Fits n) (hdrop : data.drop i = s.bytes n ++ rest) :
    Reading py limit d data i (readTerm py data read (i + 1) s.tag) := by
  rw [readTerm_sequence hs hdrop]
  have hrest : data.drop (i + (s.bytes n).length) = rest := drop_add hdrop rfl
  have hseq := reading_sequence hread n (i + (s.bytes n).length)
  cases hx : readSequence read n (i + (s.bytes n).length) with
  | error e =>
    rw [hx] at hseq
    rcases hseq with hplain | ⟨l, b, hlen, hfits, hok, hb, hfaults⟩
    · exact .inl hplain
    · right
      rw [hdrop, ← hrest, hb]
      exact .sequence hs hlen hfits hok hfaults
  | ok x =>
    obtain ⟨j, ts⟩ := x
    rw [hx] at hseq
    rcases hseq with ⟨l, rest', rfl, hfits, hvalues, hb, rfl⟩ |
      ⟨⟨l, b, rfl, hfits, hok, hb, hcut⟩, hdead, hle⟩
    · refine .inl ⟨.sequence s l, rest', ⟨hs, hfits⟩, ?_, ?_, ?_⟩
      · rw [Form.value, hvalues]
        rfl
      · rw [hdrop, ← hrest, hb, Form.bytes, append_assoc]
      · rw [Form.bytes, length_append, add_assoc]
    · refine .inr ⟨?_, hdead, by omega⟩
      rw [hdrop, ← hrest, hb]
      exact .sequence hs hfits hok hcut

theorem reading_smallTuple (h : data.drop i = Tag.smallTupleExt.code :: r) :
    Reading py limit d data i (readTerm py data read (i + 1) .smallTupleExt) := by
  rcases smallLength_cases h with ⟨x, rest, -, hdrop⟩ | hplain
  · exact reading_composite hread (s := .smallTuple) x.isLt hdrop
  · exact (hplain.bind _).reading

theorem reading_largeTuple (h : data.drop i = Tag.largeTupleExt.code :: r) :
    Reading py limit d data i (readTerm py data read (i + 1) .largeTupleExt) := by
  rcases length_cases h 4 with ⟨n, rest, hn, -, hdrop⟩ | hplain
  · exact reading_composite hread (s := .largeTuple) hn hdrop
  · exact (hplain.bind _).reading

theorem reading_list (h : data.drop i = Tag.listExt.code :: r) :
    Reading py limit d data i (readTerm py data read (i + 1) .listExt) := by
  rcases length_cases h 4 with ⟨n, rest, hn, -, hdrop⟩ | hplain
  · exact reading_composite hread (s := .list) (n := n + 1) ⟨succ_pos n, hn⟩ hdrop
  · exact (hplain.bind _).reading

theorem reading_map (h : data.drop i = Tag.mapExt.code :: r) :
    Reading py limit d data i (readTerm py data read (i + 1) .mapExt) := by
  rcases length_cases h 4 with ⟨n, rest, hn, hunpack, hdrop⟩ | hplain
  · have hrest : data.drop (i + 1 + 4) = rest := drop_header' hdrop
    have hpairs := reading_pairs hread n (i + 1 + 4) []
    show Reading py limit d data i (unpackUInt data 4 (i + 1) >>= fun length => _)
    rw [hunpack]
    show Reading py limit d data i (readPairs py read n (i + 1 + 4) [] >>= fun y => _)
    cases hx : readPairs py read n (i + 1 + 4) [] with
    | error e =>
      rw [hx] at hpairs
      rcases hpairs with hplain | ⟨l, ps, b, hlen, hfits, hps, hb, hfaults⟩
      · exact .inl hplain
      · right
        rw [hdrop, ← hrest, hb]
        rcases hfaults with hfaults | ⟨k, key, b', hk, hkey, rfl, hfaults | ⟨hreads, hset⟩⟩
        · exact .key hn hlen hfits hps hfaults
        · exact .value hn hlen hfits hps hk hkey hfaults
        · exact .item hn hlen hfits hps hk hkey hreads hset
    | ok x =>
      obtain ⟨j, pairs⟩ := x
      rw [hx] at hpairs
      rcases hpairs with ⟨l, rest', rfl, hfits, hps, hb, rfl⟩ |
        ⟨⟨l, ps, k, key, b, rfl, hfits, hps, hk, hkey, hok, hb, hcut⟩, hdead, hle⟩
      · refine .inl ⟨.map l, rest', ⟨hn, hfits⟩, ?_, ?_, ?_⟩
        · rw [Form.value, hps]
          rfl
        · rw [hdrop, ← hrest, hb, Form.bytes, append_assoc]
        · rw [Form.bytes, length_append, length_header]
          omega
      · refine .inr ⟨?_, hdead, by omega⟩
        rw [hdrop, ← hrest, hb]
        exact .map hn hfits hps hk hkey hok hcut
  · exact (hplain.bind _).reading

end

/-! ## functions -/

theorem plain_byteAt (h : data.length ≤ i) : Plain (byteAt data i) := by
  rw [byteAt_nil (drop_eq_nil_of_le h)]
  exact plain_index

theorem plain_binaryToAtom (h : data.length ≤ i) : Plain (binaryToAtom data i) :=
  (plain_byteAt h).bind _

theorem plain_binaryToInteger (h : data.length ≤ i) : Plain (binaryToInteger data i) :=
  (plain_byteAt h).bind _

/-- What reading a part of a function comes to: it is there, the data end in it, or reading it is
a fault. -/
structure PartReading (data : Binary) (i : Nat) (x : Except Exception (Nat × α))
    (there : Binary → Prop) (fault : Exception → Prop) : Prop where
  ok : ∀ j a, x = .ok (j, a) → (∃ b rest, there b ∧ data.drop i = b ++ rest ∧ j = i + b.length) ∨
    data.length ≤ j ∧ i ≤ j
  error : ∀ e, x = .error e → caught e = .parseException ∨ fault e

theorem PartReading.of_plain {x : Except Exception (Nat × α)} (h : Plain x)
    (there : Binary → Prop) (fault : Exception → Prop) : PartReading data i x there fault := by
  obtain ⟨e, rfl, he⟩ := h
  refine ⟨nofun, fun e' h => ?_⟩
  cases h
  exact .inl he

/-- The bytes of an atom whose name is read. -/
def AtomBytes (b : Binary) : Prop :=
  ∃ (head : AtomHead) (name : Binary) (v : AtomValue), head.Fits ∧ name.length = head.size ∧
    head.value name = .ok v ∧ b = head.bytes ++ name

theorem lt_length_of_drop {b : Binary} (h : data.drop i = b) (hne : b ≠ []) :
    i + b.length = data.length := by
  have hlen := congrArg List.length h
  rw [length_drop] at hlen
  have hpos := length_pos_iff.mpr hne
  omega

theorem AtomHead.bytes_ne_nil (head : AtomHead) (rest : Binary) : head.bytes ++ rest ≠ [] := by
  obtain ⟨l, hl⟩ := head.bytes_eq
  rw [hl]
  exact cons_ne_nil _ _

theorem reading_atom (data : Binary) (i : Nat) :
    PartReading data i (binaryToAtom data i) AtomBytes (AtomFaults (data.drop i)) := by
  rcases binaryToAtom_cases data i with ⟨head, rest, hfits, hdrop, hneed⟩ | hplain
  · refine ⟨fun j v h => ?_, fun e h => ?_⟩
    · rw [binaryToAtom_eq hfits hdrop hneed] at h
      obtain ⟨v', hvalue, heq⟩ := ok_of_map h
      cases heq
      by_cases hsize : head.size ≤ rest.length
      · have hname : (rest.take head.size).length = head.size := length_take_of_le hsize
        refine .inl ⟨head.bytes ++ rest.take head.size, rest.drop head.size,
          ⟨head, rest.take head.size, v, hfits, hname, hvalue, rfl⟩, ?_, ?_⟩
        · rw [hdrop, append_assoc, take_append_drop]
        · rw [length_append, hname, add_assoc]
      · right
        have hlen := lt_length_of_drop hdrop (head.bytes_ne_nil rest)
        rw [length_append] at hlen
        omega
    · rw [binaryToAtom_eq hfits hdrop hneed] at h
      right
      refine ⟨head, rest, hfits, hneed, hdrop, ?_⟩
      cases hvalue : head.value (rest.take head.size) with
      | ok v =>
        rw [hvalue] at h
        cases h
      | error e' =>
        rw [hvalue] at h
        cases h
        rfl
  · exact .of_plain hplain _ _

/-- The bytes of a pid whose node is read. -/
def PidBytes (b : Binary) : Prop :=
  ∃ (new : Bool) (node : AtomHead) (body : Binary) (v : AtomValue), node.Fits ∧
    body.length = node.size + (4 + 4 + creationSize new) ∧
    node.value (body.take node.size) = .ok v ∧
    b = (Node.pid new).tag.code :: (node.bytes ++ body)

/-- A pid whose node is not read. -/
def PidFaults (b : Binary) (e : Exception) : Prop :=
  ∃ (new : Bool) (b' : Binary), b = (Node.pid new).tag.code :: b' ∧ AtomFaults b' e

theorem reading_readPid (new : Bool) (h : data.drop i = (Node.pid new).tag.code :: r) :
    PartReading data i (readPid (φ := φ) data (creationSize new) (i + 1)) PidBytes
      (PidFaults (data.drop i)) := by
  rcases binaryToAtom_cases data (i + 1) with ⟨node, rest, hfits, hdrop, hneed⟩ | hplain
  · have hbytes : data.drop i = (Node.pid new).tag.code :: (node.bytes ++ rest) := by
      rw [h, ← drop_succ h, hdrop]
    refine ⟨fun j t heq => ?_, fun e heq => ?_⟩
    · rw [readPid_eq new hfits hdrop hneed] at heq
      obtain ⟨v, hvalue, heq⟩ := ok_of_map heq
      cases heq
      by_cases hsize : node.size + (4 + 4 + creationSize new) ≤ rest.length
      · have hbody := length_take_of_le hsize
        refine .inl ⟨(Node.pid new).tag.code ::
            (node.bytes ++ rest.take (node.size + (4 + 4 + creationSize new))),
          rest.drop (node.size + (4 + 4 + creationSize new)),
          ⟨new, node, _, v, hfits, hbody, ?_, rfl⟩, ?_, ?_⟩
        · rw [take_of_take _ (Nat.le_add_right _ _)]
          exact hvalue
        · rw [hbytes, cons_append, append_assoc, take_append_drop]
        · rw [length_cons, length_append, hbody]
          omega
      · right
        have hlen := lt_length_of_drop hbytes (cons_ne_nil _ _)
        rw [length_cons, length_append] at hlen
        omega
    · rw [readPid_eq new hfits hdrop hneed] at heq
      right
      refine ⟨new, node.bytes ++ rest, hbytes, node, rest, hfits, hneed, rfl, ?_⟩
      cases hvalue : node.value (rest.take node.size) with
      | ok v =>
        rw [hvalue] at heq
        cases heq
      | error e' =>
        rw [hvalue] at heq
        cases heq
        rfl
  · exact .of_plain (hplain.bind _) _ _

theorem reading_pid (data : Binary) (i : Nat) :
    PartReading data i (binaryToPid (φ := φ) data i) PidBytes (PidFaults (data.drop i)) := by
  rcases byteAt_cases data i with ⟨x, rest, hdrop⟩ | hnil
  · rw [binaryToPid, byteAt_eq hdrop, ok_bind]
    cases htag : Tag.ofByte x with
    | none => exact .of_plain plain_parse _ _
    | some tag =>
      obtain rfl := Tag.code_of_ofByte htag
      cases tag with
      | newPidExt => exact reading_readPid true hdrop
      | pidExt => exact reading_readPid false hdrop
      | _ => exact .of_plain plain_parse _ _
  · refine .of_plain ?_ _ _
    rw [binaryToPid, byteAt_nil hnil]
    exact plain_index.bind _

/-- An integer that is no bignum is there, or reading it is no fault. -/
theorem binaryToInteger_cases (data : Binary) (i : Nat) :
    (∃ (form : IntForm) (rest : Binary) (m : Int), form.Fits ∧ data.drop i = form.bytes ++ rest ∧
      binaryToInteger data i = .ok (i + form.bytes.length, m)) ∨ Plain (binaryToInteger data i) := by
  rcases byteAt_cases data i with ⟨x, rest, hdrop⟩ | hnil
  · cases htag : Tag.ofByte x with
    | none =>
      right
      rw [binaryToInteger, byteAt_eq hdrop, ok_bind, htag]
      exact plain_parse
    | some tag =>
      obtain rfl := Tag.code_of_ofByte htag
      cases tag with
      | smallIntegerExt =>
        rcases byteAt_cases data (i + 1) with ⟨x, rest', hdrop'⟩ | hnil
        · have hbytes : data.drop i = (IntForm.small x).bytes ++ rest' := by
            rw [hdrop, ← drop_succ hdrop, hdrop']
            rfl
          obtain ⟨m, hm⟩ := Form.binaryToInteger_eq (.small x) trivial hbytes
          exact .inl ⟨.small x, rest', m, trivial, hbytes, hm⟩
        · right
          rw [binaryToInteger, byteAt_eq hdrop, ok_bind, htag]
          rw [byteAt_nil hnil]
          exact plain_index.bind _
      | integerExt =>
        rcases unpackUInt_cases data 4 (i + 1) with ⟨n, rest', -, hdrop'⟩ | herror
        · have hbytes : data.drop i = (IntForm.integer (bigEndian 4 n)).bytes ++ rest' := by
            rw [hdrop, ← drop_succ hdrop, hdrop']
            rfl
          have hfits : (IntForm.integer (bigEndian 4 n)).Fits := length_bigEndian 4 n
          obtain ⟨m, hm⟩ := Form.binaryToInteger_eq _ hfits hbytes
          exact .inl ⟨_, rest', m, hfits, hbytes, hm⟩
        · right
          rw [binaryToInteger, byteAt_eq hdrop, ok_bind, htag]
          rw [unpackInt, herror]
          exact plain_struct.bind _
      | _ =>
        right
        rw [binaryToInteger, byteAt_eq hdrop, ok_bind, htag]
        exact plain_parse
  · right
    rw [binaryToInteger, byteAt_nil hnil]
    exact plain_index.bind _

theorem reading_export (h : data.drop i = Tag.exportExt.code :: r) :
    Reading py limit d data i (readTerm py data read (i + 1) .exportExt) := by
  have hr : data.drop (i + 1) = r := drop_succ h
  have hmodule := reading_atom data (i + 1)
  show Reading py limit d data i (binaryToAtom data (i + 1) >>= fun x => _)
  cases hx : binaryToAtom data (i + 1) with
  | error e =>
    rcases hmodule.error e hx with hplain | hfaults
    · exact .inl hplain
    · right
      rw [h, ← hr]
      exact .exportModule hfaults
  | ok x =>
    obtain ⟨j, v⟩ := x
    show Reading py limit d data i (binaryToAtom data j >>= fun x => _)
    rcases hmodule.ok j v hx with ⟨b, rest, ⟨head, name, v, hfits, hname, hv, rfl⟩, hb, rfl⟩ |
      ⟨hend, -⟩
    swap
    · exact ((plain_binaryToAtom hend).bind _).reading
    have hrest := drop_add hb rfl
    have hfunction := reading_atom data (i + 1 + (head.bytes ++ name).length)
    cases hy : binaryToAtom data (i + 1 + (head.bytes ++ name).length) with
    | error e =>
      rcases hfunction.error e hy with hplain | hfaults
      · exact .inl hplain
      · right
        rw [h, ← hr, hb]
        rw [hrest] at hfaults
        exact .exportFunction hfits hname hv hfaults
    | ok y =>
      obtain ⟨k, v'⟩ := y
      show Reading py limit d data i (byteAt data k >>= fun tag => _)
      rcases hfunction.ok k v' hy with
        ⟨b, rest', ⟨head', name', v', hfits', hname', hv', rfl⟩, hb', rfl⟩ | ⟨hend, -⟩
      swap
      · exact ((plain_byteAt hend).bind _).reading
      have hrest' := drop_add hb' rfl
      rcases byteAt_cases data (i + 1 + (head.bytes ++ name).length +
        (head'.bytes ++ name').length) with ⟨tag, rest'', hdrop⟩ | hnil
      swap
      · rw [byteAt_nil hnil]
        exact (plain_index.bind _).reading
      rw [byteAt_eq hdrop]
      by_cases htag : tag = Tag.smallIntegerExt.code
      swap
      · show Reading py limit d data i (if tag ≠ Tag.smallIntegerExt.code then _ else _)
        rw [if_pos htag]
        exact plain_parse.reading
      subst htag
      show Reading py limit d data i (byteAt data _ >>= fun _ => _)
      rcases byteAt_cases data (i + 1 + (head.bytes ++ name).length +
        (head'.bytes ++ name').length + 1) with ⟨arity, rest₃, hdrop'⟩ | hnil
      swap
      · rw [byteAt_nil hnil]
        exact (plain_index.bind _).reading
      -- both names, the tag of the arity and the arity are there
      let form : ExportForm := ⟨head, name, head', name', arity⟩
      have hbytes : data.drop (i + 1) = form.bytes ++ rest₃ := by
        rw [hb, ← hrest, hb', ← hrest', hdrop, ← drop_succ hdrop, hdrop']
        simp only [form, ExportForm.bytes, append_assoc]
        rfl
      have hfitsform : form.Fits := ⟨hfits, hname, hfits', hname'⟩
      have hindex : i + 1 + (head.bytes ++ name).length + (head'.bytes ++ name').length + 1 + 1 =
          i + (Form.exportFun form).bytes.length := by
        rw [Form.bytes, ExportForm.bytes]
        simp only [form, length_cons, length_append, length_nil]
        omega
      rw [byteAt_eq hdrop']
      refine .inl ⟨.exportFun form, rest₃, hfitsform, ?_, ?_, hindex⟩
      · have hcheck : form.check = .ok () := by
          rw [ExportForm.check, hv, hv']
          rfl
        rw [Form.value, hcheck]
        have hslice : slice data (i + 1) (i + 1 + form.bytes.length) = form.bytes := by
          rw [slice_zero hbytes, take_left]
        have hend : i + 1 + form.bytes.length = i + 1 + (head.bytes ++ name).length +
            (head'.bytes ++ name').length + 1 + 1 := by
          rw [hindex, Form.bytes, length_cons]
          omega
        rw [hend] at hslice
        rw [hslice]
        rfl
      · rw [h, ← hr, hbytes]
        rfl

theorem reading_fun (hread : ∀ j, Reading py limit (d + 1) data j (read j))
    (h : data.drop i = Tag.funExt.code :: r) :
    Reading py limit d data i (readTerm py data read (i + 1) .funExt) := by
  rcases length_cases h 4 with ⟨n, rest₀, hn, hunpack, hdrop⟩ | hplain
  swap
  · exact (hplain.bind _).reading
  have hrest₀ : data.drop (i + 1 + 4) = rest₀ := drop_header' hdrop
  have hpid := reading_pid (φ := φ) data (i + 1 + 4)
  show Reading py limit d data i (unpackUInt data 4 (i + 1) >>= fun numfree => _)
  rw [hunpack]
  show Reading py limit d data i (binaryToPid (φ := φ) data (i + 1 + 4) >>= fun x => _)
  cases hx : binaryToPid (φ := φ) data (i + 1 + 4) with
  | error e =>
    rcases hpid.error e hx with hplain | ⟨new, b, hb, hfaults⟩
    · exact .inl hplain
    · right
      rw [hdrop, ← hrest₀, hb]
      exact .functionPid hn hfaults
  | ok x =>
  obtain ⟨j, t⟩ := x
  show Reading py limit d data i (binaryToAtom data j >>= fun x => _)
  rcases hpid.ok j t hx with ⟨pid, rest₁, ⟨new, node, body, v, hnode, hbody, hv, hpidb⟩, hb, rfl⟩ |
    ⟨hend, -⟩
  swap
  · exact ((plain_binaryToAtom hend).bind _).reading
  have hrest₁ := drop_add hb rfl
  have hmodule := reading_atom data (i + 1 + 4 + pid.length)
  cases hy : binaryToAtom data (i + 1 + 4 + pid.length) with
  | error e =>
    rcases hmodule.error e hy with hplain | hfaults
    · exact .inl hplain
    · right
      rw [hrest₁] at hfaults
      rw [hdrop, ← hrest₀, hb, hpidb]
      exact .functionModule hn hnode hbody hv hfaults
  | ok y =>
  obtain ⟨k, v'⟩ := y
  show Reading py limit d data i (binaryToInteger data k >>= fun x => _)
  rcases hmodule.ok k v' hy with
    ⟨atom, rest₂, ⟨module, name, v', hmod, hname, hv', hatomb⟩, hb₂, rfl⟩ | ⟨hend, -⟩
  swap
  · exact ((plain_binaryToInteger hend).bind _).reading
  have hrest₂ := drop_add hb₂ rfl
  rcases binaryToInteger_cases data (i + 1 + 4 + pid.length + atom.length) with
    ⟨index, rest₃, m, hind, hb₃, hz⟩ | hplain
  swap
  · exact (hplain.bind _).reading
  rw [hz]
  show Reading py limit d data i (binaryToInteger data _ >>= fun x => _)
  have hrest₃ := drop_add hb₃ rfl
  rcases binaryToInteger_cases data (i + 1 + 4 + pid.length + atom.length + index.bytes.length)
    with ⟨uniq, rest₄, m', huni, hb₄, hw⟩ | hplain
  swap
  · exact (hplain.bind _).reading
  rw [hw]
  show Reading py limit d data i (readSequence read n _ >>= fun x => _)
  -- the parts are there, and the free variables follow
  have hrest₄ := drop_add hb₄ rfl
  let head : FunHead := ⟨new, node, body, module, name, index, uniq⟩
  have hfits : head.Fits := ⟨hnode, hbody, hmod, hname, hind, huni⟩
  have hcheck : head.check = .ok () := by
    rw [FunHead.check, hv, hv']
    rfl
  have hheadb : head.bytes = pid ++ (atom ++ (index.bytes ++ uniq.bytes)) := by
    rw [hpidb, hatomb]
    rfl
  have hbytes : rest₀ = head.bytes ++ rest₄ := by
    rw [← hrest₀, hb, ← hrest₁, hb₂, ← hrest₂, hb₃, ← hrest₃, hb₄, hheadb]
    simp only [append_assoc]
  have hstart : i + 1 + 4 + pid.length + atom.length + index.bytes.length + uniq.bytes.length =
      i + 1 + 4 + head.bytes.length := by
    rw [hheadb]
    simp only [length_append]
    omega
  rw [hstart]
  rw [hstart] at hrest₄
  have hseq := reading_sequence hread n (i + 1 + 4 + head.bytes.length)
  cases hs : readSequence read n (i + 1 + 4 + head.bytes.length) with
  | error e =>
    rw [hs] at hseq
    rcases hseq with hplain | ⟨fs, b, hlen, hfs, hok, hbs, hfaults⟩
    · exact .inl hplain
    · right
      rw [hdrop, hbytes, ← hrest₄, hbs]
      exact .functionFree hn hfits hcheck hlen hfs hok hfaults
  | ok y =>
    obtain ⟨last, ts⟩ := y
    rw [hs] at hseq
    rcases hseq with ⟨fs, rest₅, rfl, hfs, hvalues, hbs, rfl⟩ |
      ⟨⟨fs, b, rfl, hfs, hok, hbs, hcut⟩, hdead, hle⟩
    · have hwhole : data.drop (i + 1) =
          bigEndian 4 fs.length ++ (head.bytes ++ Form.bytesList fs) ++ rest₅ := by
        rw [drop_header hdrop, hbytes, ← hrest₄, hbs]
        simp only [append_assoc]
      have hlen : i + 1 + 4 + head.bytes.length + (Form.bytesList fs).length =
          i + 1 + (bigEndian 4 fs.length ++ (head.bytes ++ Form.bytesList fs)).length := by
        simp only [length_append, length_bigEndian]
        omega
      refine .inl ⟨.function head fs, rest₅, ⟨hn, hfits, hfs⟩, ?_, ?_, ?_⟩
      · rw [hlen, slice_zero hwhole, take_left, Form.value, hcheck]
        show (Form.valueList py fs >>= fun _ => _) = _
        rw [hvalues]
        rfl
      · rw [hdrop, hbytes, ← hrest₄, hbs, Form.bytes]
        simp only [append_assoc]
      · rw [Form.bytes]
        simp only [length_append, length_header]
        omega
    · refine .inr ⟨?_, hdead, by omega⟩
      rw [hdrop, hbytes, ← hrest₄, hbs]
      exact .function hn hfits hcheck hfs hok hcut

/-! ## terms -/

theorem reading_atomTag (h : data.drop i = tag.code :: r)
    (hplain : Plain (readAtomTag data (i + 1) tag) →
      Plain (readTerm py data read (i + 1) tag)) :
    Reading py limit d data i (readTerm py data read (i + 1) tag) := by
  rcases readAtomTag_cases h with ⟨head, rest, hhead, hfits, hdrop, hneed⟩ | hplain'
  · have hleaf : (Leaf.atom head).tag = tag := hhead
    rw [← hleaf]
    exact reading_leaf (.atom head) hfits hdrop hneed
  · exact (hplain hplain').reading

/-- **Every reading behind a tag.** -/
theorem reading_readTerm (hread : ∀ j, Reading py limit (d + 1) data j (read j))
    (h : data.drop i = tag.code :: r) :
    Reading py limit d data i (readTerm py data read (i + 1) tag) := by
  cases tag with
  | newFloatExt => exact reading_newFloat h
  | floatExt => exact reading_leaf .float trivial h (zero_le _)
  | bitBinaryExt => exact reading_bitBinary h
  | binaryExt =>
    rcases length_cases h 4 with ⟨n, rest, hn, -, hdrop⟩ | hplain
    · exact reading_leaf (.binary n) hn hdrop (zero_le _)
    · exact (hplain.bind _).reading
  | stringExt =>
    rcases length_cases h 2 with ⟨n, rest, hn, -, hdrop⟩ | hplain
    · exact reading_leaf (.string n) hn hdrop (zero_le _)
    · exact (hplain.bind _).reading
  | smallIntegerExt =>
    rcases byteAt_cases data (i + 1) with ⟨x, rest, hdrop⟩ | hnil
    · have hr : r = x :: rest := (drop_succ h).symm.trans hdrop
      exact reading_leaf .smallInteger trivial h (hr ▸ succ_pos _)
    · show Reading py limit d data i (byteAt data (i + 1) >>= fun b => _)
      rw [byteAt_nil hnil]
      exact (plain_index.bind _).reading
  | integerExt => exact reading_integer h
  | nilExt => exact reading_leaf .nil trivial h (zero_le _)
  | smallBigExt => exact reading_bignum false h
  | largeBigExt => exact reading_bignum true h
  | newFunExt => exact reading_newFun h
  | smallAtomExt =>
    rcases smallLength_cases h with ⟨x, rest, -, hdrop⟩ | hplain
    · exact reading_leaf (.atom (.name false true x.val)) x.isLt hdrop (zero_le _)
    · exact ((hplain.bind _).bind _).reading
  | newPidExt => exact reading_node (.pid true) trivial rfl h fun hplain => hplain.bind _
  | pidExt => exact reading_node (.pid false) trivial rfl h fun hplain => hplain.bind _
  | newPortExt => exact reading_node (.port true) trivial rfl h fun hplain => hplain.bind _
  | portExt => exact reading_node (.port false) trivial rfl h fun hplain => hplain.bind _
  | referenceExt =>
    exact reading_node .reference trivial rfl h fun hplain => hplain.bind _
  | newerReferenceExt => exact reading_reference true h rfl
  | newReferenceExt => exact reading_reference false h rfl
  | smallTupleExt => exact reading_smallTuple hread h
  | largeTupleExt => exact reading_largeTuple hread h
  | listExt => exact reading_list hread h
  | mapExt => exact reading_map hread h
  | exportExt => exact reading_export h
  | funExt => exact reading_fun hread h
  | compressedZlib =>
    rcases length_cases h 4 with ⟨n, rest, hn, hunpack, hdrop⟩ | hplain
    · show Reading py limit d data i (unpackUInt data 4 (i + 1) >>= fun size => _)
      rw [hunpack]
      show Reading py limit d data i (if n = 0 then _ else _)
      by_cases hzero : n = 0
      · rw [if_pos hzero]
        exact plain_parse.reading
      · rw [if_neg hzero]
        right
        rw [hdrop]
        exact .compressed hn hzero
    · exact (hplain.bind _).reading
  | _ => exact reading_atomTag h fun hplain => hplain.bind _

variable (py data limit) in
/-- **Every reading of a term.** -/
theorem reading_limitedTermAt (d fuel i : Nat) :
    Reading py limit d data i (limitedTermAt py data limit d fuel i) := by
  induction fuel generalizing d i with
  | zero => exact plain_index.reading
  | succ fuel ih =>
    rw [limitedTermAt]
    rcases byteAt_cases data i with ⟨x, rest, hdrop⟩ | hnil
    · rw [byteAt_eq hdrop, ok_bind]
      cases htag : Tag.ofByte x with
      | none => exact plain_parse.reading
      | some tag =>
        obtain rfl := Tag.code_of_ofByte htag
        by_cases hlimit : limit d (data.drop i) = true
        · simp only [hlimit, if_true]
          right
          rw [hdrop] at hlimit ⊢
          exact .deep hlimit
        · simp only [hlimit]
          exact reading_readTerm (ih (d + 1)) hdrop
    · rw [byteAt_nil hnil]
      exact (plain_index.bind _).reading

end CloudI.ApiPython.Erlang
