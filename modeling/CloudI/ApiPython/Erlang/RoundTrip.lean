import CloudI.ApiPython.Erlang.Written
import Mathlib.Data.List.Forall2

/-!
# ApiPython.Erlang.RoundTrip

`binary_to_term` of what `term_to_binary` writes.  The values come back as they were, and atoms
named `true` and `false` as booleans, up to two exceptions: keys of a dict that Python takes for the
same once they are read, and a reference without an id.
-/

namespace CloudI.ApiPython.Erlang

open Binary CloudI.Except Unpack List

variable {φ : Type} {py : Python φ}

/-! ## values -/

mutual

/-- A value with its atoms named `true` and `false` as booleans. -/
def Term.read : Term φ → Term φ
  | .atom v => v.read
  | .list l => .list (readList l)
  | .tuple l => .tuple (readList l)
  | .dict l => .dict (readEntries l)
  | .frozendict l => .frozendict (readEntries l)
  | .erlangList l improper => .erlangList (readList l) improper
  | t => t

/-- Values with their atoms named `true` and `false` as booleans. -/
def readList : List (Term φ) → List (Term φ)
  | [] => []
  | t :: l => t.read :: readList l

/-- Entries with their atoms named `true` and `false` as booleans. -/
def readEntries : List (Term φ × Term φ) → List (Term φ × Term φ)
  | [] => []
  | (k, v) :: l => (k.read, v.read) :: readEntries l

end

/-- The keys of a dict can be hashed, and each is another one than those before it. -/
structure Keys (py : Python φ) (l : List (Term φ × Term φ)) : Prop where
  hashed : ∀ x ∈ l, hash py x.1 = .ok ()
  apart : l.Pairwise fun x y => Apart py x.1 y.1

/-- The last value of a list is no list. -/
def TailFits (l : List (Term φ)) : Prop := ∃ t, l.getLast? = some t ∧ ∀ l', t ≠ .list l'

mutual

/-- **The values that are encoded**: bytes, integers, booleans, lists, tuples, dicts, and objects
with fields of the sizes that the decoder gives them. -/
def Encodable (py : Python φ) : Term φ → Prop
  | .bytes value => value ≠ [] ∧ value.length ≤ 65535
  | .int value => IntFits value
  | .bool _ => True
  | .list l => l.length ≤ 4294967295 ∧ EncodableList py l
  | .tuple l => l.length ≤ 4294967295 ∧ EncodableList py l
  | .dict l => l.length ≤ 4294967295 ∧ Keys py l ∧ EncodableEntries py l
  | .atom v => v.Fits
  | .binary value _ => value.length ≤ 4294967295
  | .erlangList l improper =>
      improper = true ∧ l.length ≤ 4294967295 ∧ TailFits l ∧ EncodableList py l
  | .pid node id serial creation =>
      node.Fits ∧ id.length = 4 ∧ serial.length = 4 ∧ CreationFits creation
  | .port node id creation => node.Fits ∧ id.length = 4 ∧ CreationFits creation
  | .reference node id creation =>
      node.Fits ∧ (∃ words ≤ 65535, id.length = words * 4) ∧ CreationFits creation
  | _ => False

/-- All values of a list are encoded. -/
def EncodableList (py : Python φ) : List (Term φ) → Prop
  | [] => True
  | t :: l => Encodable py t ∧ EncodableList py l

/-- All keys and values are encoded. -/
def EncodableEntries (py : Python φ) : List (Term φ × Term φ) → Prop
  | [] => True
  | (k, v) :: l => Encodable py k ∧ Encodable py v ∧ EncodableEntries py l

end

mutual

/-- **The condition on a value**: no reference has an empty id, and the keys of a dict are still
different, and can be compared where their hash values are the same, once they are read. -/
def Kept (py : Python φ) : Term φ → Prop
  | .list l => KeptList py l
  | .tuple l => KeptList py l
  | .erlangList l _ => KeptList py l
  | .dict l =>
      ((readEntries l).Pairwise fun x y => Apart py x.1 y.1) ∧ KeptEntries py l
  | .reference _ id _ => id ≠ []
  | _ => True

/-- The condition on the values of a list. -/
def KeptList (py : Python φ) : List (Term φ) → Prop
  | [] => True
  | t :: l => Kept py t ∧ KeptList py l

/-- The condition on keys and values. -/
def KeptEntries (py : Python φ) : List (Term φ × Term φ) → Prop
  | [] => True
  | (k, v) :: l => Kept py k ∧ Kept py v ∧ KeptEntries py l

end

theorem readList_eq (l : List (Term φ)) : readList l = l.map Term.read := by
  induction l with
  | nil => rfl
  | cons t l ih => rw [readList, ih, map_cons]

theorem readEntries_eq (l : List (Term φ × Term φ)) :
    readEntries l = l.map fun x => (x.1.read, x.2.read) := by
  induction l with
  | nil => rfl
  | cons x l ih => rw [readEntries, ih, map_cons]

variable {l : List (Term φ)} {t value key : Term φ} {pairs pairs' : List (Term φ × Term φ)}

theorem encodableList_iff : EncodableList py l ↔ ∀ t ∈ l, Encodable py t := by
  induction l with
  | nil => simp [EncodableList]
  | cons t l ih => rw [EncodableList, ih, forall_mem_cons]

theorem encodableEntries_iff {l : List (Term φ × Term φ)} :
    EncodableEntries py l ↔ ∀ x ∈ l, Encodable py x.1 ∧ Encodable py x.2 := by
  induction l with
  | nil => simp [EncodableEntries]
  | cons x l ih => rw [EncodableEntries, ih, forall_mem_cons, and_assoc]

theorem keptList_iff : KeptList py l ↔ ∀ t ∈ l, Kept py t := by
  induction l with
  | nil => simp [KeptList]
  | cons t l ih => rw [KeptList, ih, forall_mem_cons]

theorem keptEntries_iff {l : List (Term φ × Term φ)} :
    KeptEntries py l ↔ ∀ x ∈ l, Kept py x.1 ∧ Kept py x.2 := by
  induction l with
  | nil => simp [KeptEntries]
  | cons x l ih => rw [KeptEntries, ih, forall_mem_cons, and_assoc]

/-! ## keys -/

theorem termBinary_smallAtomValue (name : Binary) :
    termBinary py (smallAtomValue name) = atomBinary (.bytes name) := by
  rw [smallAtomValue]
  by_cases htrue : name = ofText "true"
  · rw [if_pos htrue, htrue]
    rfl
  · rw [if_neg htrue]
    by_cases hfalse : name = ofText "false"
    · rw [if_pos hfalse, hfalse]
      rfl
    · rw [if_neg hfalse]
      rfl

theorem termsBinary_congr {l' : List (Term φ)}
    (h : List.Forall₂ (fun t t' => termBinary py t = termBinary py t') l l') :
    termsBinary py l = termsBinary py l' := by
  induction h with
  | nil => rfl
  | cons ht _ ih => rw [termsBinary, termsBinary, ht, ih]

theorem entriesBinary_congr {l l' : List (Term φ × Term φ)}
    (h : List.Forall₂ (fun x x' => termBinary py x.1 = termBinary py x'.1 ∧
      termBinary py x.2 = termBinary py x'.2) l l') : entriesBinary py l = entriesBinary py l' := by
  induction h with
  | nil => rfl
  | cons hx _ ih => rw [entriesBinary, entriesBinary, hx.1, hx.2, ih]

variable (py) in
/-- What is read is written in the same way. -/
theorem termBinary_read (t : Term φ) : termBinary py t.read = termBinary py t := by
  have hlist : ∀ l : List (Term φ), (∀ x ∈ l, termBinary py x.read = termBinary py x) →
      termsBinary py (l.map Term.read) = termsBinary py l := fun l ih =>
    termsBinary_congr (forall₂_map_left_iff.mpr (forall₂_same.mpr ih))
  have hentries : ∀ l : List (Term φ × Term φ), (∀ x ∈ l,
      termBinary py x.1.read = termBinary py x.1 ∧
        termBinary py x.2.read = termBinary py x.2) →
      entriesBinary py (l.map fun x => (x.1.read, x.2.read)) = entriesBinary py l :=
    fun l ih => entriesBinary_congr (forall₂_map_left_iff.mpr (forall₂_same.mpr ih))
  induction t using Term.induct with
  | atom v =>
    cases v with
    | bytes name => exact termBinary_smallAtomValue name
    | _ => rfl
  | list l ih =>
    rw [Term.read, readList_eq, termBinary, termBinary, length_map, hlist l ih]
  | tuple l ih =>
    rw [Term.read, readList_eq, termBinary, termBinary, length_map, hlist l ih]
  | erlangList l improper ih =>
    rw [Term.read, readList_eq, termBinary, termBinary, length_map, hlist l ih]
  | dict l ih =>
    rw [Term.read, readEntries_eq, termBinary, termBinary, length_map, hentries l ih]
  | frozendict l ih =>
    rw [Term.read, readEntries_eq, termBinary, termBinary, length_map, hentries l ih]
  | _ => rfl

theorem hashTerms_iff : hashTerms py l = .ok () ↔ ∀ t ∈ l, hash py t = .ok () := by
  induction l with
  | nil => exact ⟨fun _ => forall_mem_nil _, fun _ => rfl⟩
  | cons t l ih =>
    rw [forall_mem_cons, ← ih, hashTerms]
    cases hash py t with
    | error e => exact ⟨(fun h => by cases h), fun h => h.1⟩
    | ok u => exact ⟨fun h => ⟨rfl, h⟩, fun h => h.2⟩

/-- A key can still be hashed when it is read. -/
theorem hash_read (hencodable : Encodable py t) (h : hash py t = .ok ()) :
    hash py t.read = .ok () := by
  induction t using Term.induct with
  | atom v =>
    cases v with
    | bytes name =>
      show hash py (smallAtomValue name) = .ok ()
      rw [smallAtomValue]
      by_cases htrue : name = ofText "true"
      · rw [if_pos htrue]
        rfl
      · rw [if_neg htrue]
        by_cases hfalse : name = ofText "false"
        · rw [if_pos hfalse]
          rfl
        · rw [if_neg hfalse]
          exact h
    | _ => exact h
  | tuple l ih =>
    have hl : ∀ x ∈ l, hash py x = .ok () := hashTerms_iff.mp h
    show hashTerms py (readList l) = .ok ()
    rw [hashTerms_iff, readList_eq]
    intro x hx
    obtain ⟨y, hy, rfl⟩ := mem_map.mp hx
    exact ih y hy (encodableList_iff.mp hencodable.2 y hy) (hl y hy)
  | erlangList l improper ih =>
    show (termBinary py (Term.erlangList l improper).read).map (fun _ => ()) = .ok ()
    rw [termBinary_read py (.erlangList l improper)]
    exact h
  | list l ih => cases h
  | dict l ih => cases h
  | frozendict l ih => exact hencodable.elim
  | _ => exact h

theorem keyOf_of_hash (h : hash py t = .ok ()) : keyOf t = t := by
  cases t with
  | list l => cases h
  | dict l => cases h
  | _ => rfl

/-! ## what is kept comes back -/

/-- **A value is written as a form** that is read as another value. -/
def WrittenAs (py : Python φ) (t t' : Term φ) : Prop :=
  ∃ f : Form, f.Fits ∧ termBinary py t = .ok f.bytes ∧ f.value py = .ok t'

theorem WrittenLeaf.writtenAs {t' : Term φ} (h : WrittenLeaf py (termBinary py t) t') :
    WrittenAs py t t' := by
  obtain ⟨head, body, hfits, hwritten, hvalue, -⟩ := h
  exact ⟨.leaf head body, hfits, hwritten, hvalue⟩

/-- Values one after the other. -/
theorem writtenAs_list (h : ∀ t ∈ l, WrittenAs py t t.read) :
    ∃ fs : List Form, fs.length = l.length ∧ Form.FitsList fs ∧
      termsBinary py l = .ok (Form.bytesList fs) ∧
      Form.valueList py fs = .ok (readList l) := by
  induction l with
  | nil => exact ⟨[], rfl, trivial, rfl, rfl⟩
  | cons t l ih =>
    obtain ⟨f, hf, hbinary, hvalue⟩ := h t mem_cons_self
    obtain ⟨fs, hlen, hfs, hbinary', hvalue'⟩ := ih fun x hx =>
      h x (mem_cons_of_mem t hx)
    refine ⟨f :: fs, by rw [length_cons, hlen, length_cons], ⟨hf, hfs⟩, ?_, ?_⟩
    · rw [termsBinary, hbinary, hbinary']
      rfl
    · rw [Form.valueList, hvalue, hvalue']
      rfl

/-- Entries one after the other. -/
theorem writtenAs_entries {l : List (Term φ × Term φ)}
    (h : ∀ x ∈ l, WrittenAs py x.1 x.1.read ∧ WrittenAs py x.2 x.2.read)
    (hhashed : ∀ x ∈ l, hash py x.1.read = .ok ())
    (hapart : (readEntries l).Pairwise fun x y => Apart py x.1 y.1) (pairs : List (Term φ × Term φ))
    (hnew : ∀ x ∈ l, ∀ y ∈ pairs, Apart py y.1 x.1.read) :
    ∃ fs : List (Form × Form), fs.length = l.length ∧ Form.FitsEntries fs ∧
      entriesBinary py l = .ok (Form.bytesEntries fs) ∧
      Form.valueEntries py fs pairs = .ok (pairs ++ readEntries l) := by
  induction l generalizing pairs with
  | nil => exact ⟨[], rfl, trivial, rfl, by rw [readEntries, append_nil]; rfl⟩
  | cons x l ih =>
    obtain ⟨k, v⟩ := x
    obtain ⟨⟨f, hf, hbinary, hvalue⟩, ⟨g, hg, hbinary', hvalue'⟩⟩ := h (k, v) mem_cons_self
    rw [readEntries, pairwise_cons, readEntries_eq] at hapart
    have hkey := hhashed (k, v) mem_cons_self
    have hset : setItem py pairs (keyOf k.read) v.read = .ok (pairs ++ [(k.read, v.read)]) := by
      rw [keyOf_of_hash hkey]
      exact setItem_of_apart hkey (hnew (k, v) mem_cons_self)
    have hnew' : ∀ x ∈ l, ∀ y ∈ pairs ++ [(k.read, v.read)], Apart py y.1 x.1.read := by
      intro x hx y hy
      rcases mem_append.mp hy with hy | hy
      · exact hnew x (mem_cons_of_mem _ hx) y hy
      · rw [mem_singleton.mp hy]
        exact hapart.1 _ (mem_map.mpr ⟨x, hx, rfl⟩)
    obtain ⟨fs, hlen, hfs, hbinary'', hvalue''⟩ := ih
      (fun x hx => h x (mem_cons_of_mem _ hx))
      (fun x hx => hhashed x (mem_cons_of_mem _ hx))
      (by rw [readEntries_eq]; exact hapart.2) _ hnew'
    refine ⟨(f, g) :: fs, by rw [length_cons, hlen, length_cons],
      ⟨hf, hg, hfs⟩, ?_, ?_⟩
    · rw [entriesBinary, hbinary, hbinary', hbinary'']
      show Except.ok _ = Except.ok _
      rw [Form.bytesEntries, append_assoc]
    · rw [Form.valueEntries, hvalue, hvalue', ok_bind, ok_bind, hset, ok_bind, hvalue'',
        readEntries, append_assoc]
      rfl

theorem isEmptyList_read (h : ∀ l', t ≠ .list l') : isEmptyList t.read = false := by
  cases t with
  | list l => exact absurd rfl (h l)
  | atom v =>
    cases v with
    | bytes name =>
      show isEmptyList (smallAtomValue name) = false
      rw [smallAtomValue]
      split
      · rfl
      · split <;> rfl
    | _ => rfl
  | _ => rfl

/-- A list is the sequence of its elements and an empty list. -/
theorem writtenAs_proper (hlen : l.length ≤ 4294967295) (h : ∀ t ∈ l, WrittenAs py t t.read)
    : WrittenAs py (.list l) (.list (readList l)) := by
  by_cases hnil : l = []
  · subst hnil
    exact ⟨.leaf .nil [], ⟨trivial, rfl⟩, rfl, rfl⟩
  · obtain ⟨fs, hfs, hfits, hbinary, hvalue⟩ := writtenAs_list h
    have hzero : l.length ≠ 0 := fun h0 => hnil (length_eq_zero_iff.mp h0)
    have hempty : (Form.leaf .nil []).value py = .ok (.list []) := rfl
    refine ⟨.sequence .list (fs ++ [.leaf .nil []]), ⟨?_, ?_⟩, ?_, ?_⟩
    · rw [length_append, length_singleton, hfs]
      exact ⟨Nat.succ_pos _, Nat.succ_le_succ hlen⟩
    · rw [Form.fitsList_iff]
      intro f hf
      rcases mem_append.mp hf with hf | hf
      · exact Form.fitsList_iff.mp hfits f hf
      · rw [mem_singleton.mp hf]
        exact ⟨trivial, rfl⟩
    · rw [termBinary, listBinary, if_neg hzero, if_neg (Nat.not_lt.mpr hlen), if_neg nofun,
        hbinary, ok_bind, Form.bytes, Form.bytesList_append, Sequence.bytes, length_append,
        length_singleton, Nat.add_sub_cancel, hfs, ← append_assoc]
      rfl
    · rw [Form.value, Form.valueList_append, hvalue, Form.valueList_singleton, hempty]
      show Except.ok (Sequence.value (readList l ++ [.list []]) .list) = _
      rw [Sequence.value, dropLast_concat, getLastD_concat]
      rfl

theorem writtenAs_improper (hlen : l.length ≤ 4294967295) (htail : TailFits l)
    (h : ∀ t ∈ l, WrittenAs py t t.read) :
    WrittenAs py (.erlangList l true) (.erlangList (readList l) true) := by
  obtain ⟨fs, hfs, hfits, hbinary, hvalue⟩ := writtenAs_list h
  obtain ⟨t, hlast, hnot⟩ := htail
  obtain ⟨l', rfl⟩ := getLast?_eq_some_iff.mp hlast
  have hzero : (l' ++ [t]).length ≠ 0 := by simp
  refine ⟨.sequence .list fs, ⟨⟨?_, ?_⟩, hfits⟩, ?_, ?_⟩
  · rw [hfs]
    exact Nat.pos_of_ne_zero hzero
  · rw [hfs]
    exact Nat.le_succ_of_le hlen
  · rw [termBinary, listBinary, if_neg hzero, if_neg (Nat.not_lt.mpr hlen), if_pos rfl,
      hbinary, ok_bind, Form.bytes, Sequence.bytes, hfs]
    rfl
  · rw [Form.value, hvalue]
    show Except.ok (Sequence.value (readList (l' ++ [t])) .list) = _
    rw [readList_eq, map_append, Sequence.value, map_singleton, dropLast_concat,
      getLastD_concat, listValue, isEmptyList_read hnot]
    rfl

theorem writtenAs_tuple (hlen : l.length ≤ 4294967295) (h : ∀ t ∈ l, WrittenAs py t t.read) :
    WrittenAs py (.tuple l) (.tuple (readList l)) := by
  obtain ⟨fs, hfs, hfits, hbinary, hvalue⟩ := writtenAs_list h
  by_cases hsmall : l.length ≤ 255
  · refine ⟨.sequence .smallTuple fs, ⟨?_, hfits⟩, ?_, ?_⟩
    · rw [hfs]
      exact Nat.lt_succ_of_le hsmall
    · rw [termBinary, tupleToBinary, if_pos hsmall, hbinary, Form.bytes, Sequence.bytes, hfs]
      rfl
    · rw [Form.value, hvalue]
      rfl
  · refine ⟨.sequence .largeTuple fs, ⟨?_, hfits⟩, ?_, ?_⟩
    · rw [hfs]
      exact Nat.lt_succ_of_le hlen
    · rw [termBinary, tupleToBinary, if_neg hsmall, if_pos hlen, hbinary, Form.bytes,
        Sequence.bytes, hfs]
      rfl
    · rw [Form.value, hvalue]
      rfl

/-- **What is kept is written as a form** that is read as the value. -/
theorem writtenAs_read (hencodable : Encodable py t) (hkept : Kept py t) :
    WrittenAs py t t.read := by
  induction t using Term.induct with
  | bytes value => exact (writtenLeaf_string _ hencodable.1 hencodable.2).writtenAs
  | int value => exact (writtenLeaf_int _ hencodable).writtenAs
  | bool value => exact (writtenLeaf_bool value).writtenAs
  | atom v => exact (writtenLeaf_atom _ (v := v) hencodable).writtenAs
  | binary value bits => exact (writtenLeaf_binary _ bits hencodable).writtenAs
  | pid node id serial creation =>
    obtain ⟨hnode, hid, hserial, hcreation⟩ := hencodable
    exact (writtenLeaf_pid _ hnode hid hserial hcreation).writtenAs
  | port node id creation =>
    obtain ⟨hnode, hid, hcreation⟩ := hencodable
    exact (writtenLeaf_port _ hnode hid hcreation).writtenAs
  | reference node id creation =>
    obtain ⟨hnode, ⟨words, hwords, hid⟩, hcreation⟩ := hencodable
    have hpos : 0 < words := by
      have hlen := length_pos_iff.mpr hkept
      omega
    exact (writtenLeaf_reference _ _ hnode hid hpos hwords hcreation).writtenAs
  | list l ih =>
    obtain ⟨hlen, hl⟩ := hencodable
    exact writtenAs_proper hlen fun t ht =>
      ih t ht (encodableList_iff.mp hl t ht) (keptList_iff.mp hkept t ht)
  | tuple l ih =>
    obtain ⟨hlen, hl⟩ := hencodable
    exact writtenAs_tuple hlen fun t ht =>
      ih t ht (encodableList_iff.mp hl t ht) (keptList_iff.mp hkept t ht)
  | erlangList l improper ih =>
    obtain ⟨rfl, hlen, htail, hl⟩ := hencodable
    exact writtenAs_improper hlen htail fun t ht =>
      ih t ht (encodableList_iff.mp hl t ht) (keptList_iff.mp hkept t ht)
  | dict l ih =>
    obtain ⟨hlen, hkeys, hl⟩ := hencodable
    obtain ⟨hapart, hkept⟩ := hkept
    have hentry : ∀ x ∈ l, WrittenAs py x.1 x.1.read ∧ WrittenAs py x.2 x.2.read := by
      intro x hx
      obtain ⟨hk, hv⟩ := encodableEntries_iff.mp hl x hx
      obtain ⟨hk', hv'⟩ := keptEntries_iff.mp hkept x hx
      exact ⟨(ih x hx).1 hk hk', (ih x hx).2 hv hv'⟩
    have hhashed : ∀ x ∈ l, hash py x.1.read = .ok () := fun x hx =>
      hash_read (encodableEntries_iff.mp hl x hx).1 (hkeys.hashed x hx)
    obtain ⟨fs, hfs, hfits, hbinary, hvalue⟩ := writtenAs_entries hentry hhashed hapart []
      fun x hx y hy => absurd hy not_mem_nil
    refine ⟨.map fs, ⟨?_, hfits⟩, ?_, ?_⟩
    · rw [hfs]
      exact Nat.lt_succ_of_le hlen
    · rw [termBinary, dictToBinary, if_pos hlen, hbinary, Form.bytes, hfs]
      rfl
    · rw [Form.value, hvalue]
      rfl
  | _ => exact hencodable.elim

/-! ## what comes back is kept -/

variable {data rest b : Binary} {fuel i i' n : Nat}

/-- **A value that comes back** is kept. -/
def ComesBack (py : Python φ) (t : Term φ) : Prop :=
  ∀ data fuel i i' rest b, termBinary py t = .ok b → data.drop i = b ++ rest →
    data.length < fuel + i → binaryToTermAt py data fuel i = .ok (i', t.read) → Kept py t

theorem ComesBack.index (hback : ComesBack py t) (hencodable : Encodable py t)
    (hb : termBinary py t = .ok b) (h : data.drop i = b ++ rest)
    (hfuel : data.length < fuel + i) (hread : binaryToTermAt py data fuel i = .ok (i', t.read))
    : Kept py t ∧ i' = i + b.length := by
  have hkept := hback data fuel i i' rest b hb h hfuel hread
  obtain ⟨f, hfits, hbinary, hvalue⟩ := writtenAs_read hencodable hkept
  cases hb.symm.trans hbinary
  rw [Form.binaryToTermAt_eq _ f hfits fuel i rest hfuel h, hvalue] at hread
  exact ⟨hkept, (Prod.mk.inj (Except.ok.inj hread)).1.symm⟩

theorem termsBinary_append (l l' : List (Term φ)) : termsBinary py (l ++ l') = (do
      let b ← termsBinary py l
      let b' ← termsBinary py l'
      pure (b ++ b')) := by
  induction l with
  | nil =>
    show termsBinary py l' = (termsBinary py l' >>= fun b' => pure b')
    cases termsBinary py l' <;> rfl
  | cons t l ih =>
    rw [cons_append, termsBinary, ih, termsBinary]
    cases termBinary py t with
    | error e => rfl
    | ok b =>
      cases termsBinary py l with
      | error e => rfl
      | ok b' =>
        cases termsBinary py l' with
        | error e => rfl
        | ok b'' =>
          show Except.ok _ = Except.ok _
          rw [append_assoc]

/-- Values that come back one after the other. -/
theorem keptList_of_readSequence (hl : ∀ t ∈ l, Encodable py t)
    (hback : ∀ t ∈ l, ComesBack py t) (hb : termsBinary py l = .ok b)
    (h : data.drop i = b ++ rest) (hfuel : data.length < fuel + i)
    (hread : readSequence (binaryToTermAt py data fuel) l.length i = .ok (i', readList l)) :
    KeptList py l ∧ i' = i + b.length := by
  induction l generalizing i b with
  | nil =>
    cases hb
    cases hread
    exact ⟨trivial, rfl⟩
  | cons t l ih =>
    obtain ⟨b₁, hb₁, hb⟩ := ok_of_bind hb
    obtain ⟨b₂, hb₂, hb⟩ := ok_of_bind hb
    cases hb
    obtain ⟨⟨i₁, t'⟩, ht, hread⟩ := ok_of_bind hread
    obtain ⟨⟨i₂, ts⟩, hts, hread⟩ := ok_of_bind hread
    cases hread
    rw [append_assoc] at h
    obtain ⟨hkept, rfl⟩ := (hback t mem_cons_self).index (hl t mem_cons_self) hb₁ h
      hfuel ht
    obtain ⟨hkept', rfl⟩ := ih (fun x hx => hl x (mem_cons_of_mem t hx))
      (fun x hx => hback x (mem_cons_of_mem t hx)) hb₂ (drop_add h rfl) (by omega) hts
    exact ⟨⟨hkept, hkept'⟩, by rw [length_append, Nat.add_assoc]⟩

/-- An assignment adds an entry, or leaves as many as there are. -/
theorem setItem_length (h : setItem py pairs key value = .ok pairs') :
    (pairs' = pairs ++ [(key, value)] ∧ hash py key = .ok () ∧ ∀ x ∈ pairs, Apart py x.1 key) ∨
      pairs'.length = pairs.length := by
  rcases setItem_cases py pairs key with ⟨e, hfails⟩ | ⟨hhash, hfirst | hall⟩
  · cases h.symm.trans (setItem_of_keyFails hfails)
  · obtain ⟨before, x, after, rfl, hbefore, hx⟩ := hfirst
    cases h.symm.trans (setItem_of_same hhash hbefore hx)
    exact .inr (by rw [length_append, length_append]; rfl)
  · cases h.symm.trans (setItem_of_apart hhash hall)
    exact .inl ⟨rfl, hhash, hall⟩

/-- A loop that adds an entry each time keeps those before it. -/
theorem readPairs_length {read : Nat → Except Exception (Nat × Term φ)}
    (h : readPairs py read n i pairs = .ok (i', pairs')) :
    pairs'.length ≤ pairs.length + n ∧
      (pairs'.length = pairs.length + n → ∃ more, pairs' = pairs ++ more) := by
  induction n generalizing i pairs with
  | zero =>
    cases h
    exact ⟨Nat.le_refl _, fun _ => ⟨[], (append_nil _).symm⟩⟩
  | succ n ih =>
    obtain ⟨⟨i₁, k⟩, -, h⟩ := ok_of_bind h
    obtain ⟨⟨i₂, v⟩, -, h⟩ := ok_of_bind h
    obtain ⟨pairs₁, hset, h⟩ := ok_of_bind h
    obtain ⟨hle, hmore⟩ := ih h
    rcases setItem_length hset with ⟨rfl, -⟩ | hsame
    · rw [length_append, length_singleton] at hle hmore
      refine ⟨by omega, fun hlen => ?_⟩
      obtain ⟨more, hmore⟩ := hmore (by omega)
      exact ⟨_, hmore.trans (append_assoc _ _ _)⟩
    · exact ⟨by omega, fun hlen => absurd hlen (by omega)⟩

theorem eq_of_keyOf (hencodable : Encodable py k) (h : keyOf k' = k.read)
    (hhashed : hash py k = .ok ()) : k' = k.read := by
  have hfrozen : ∀ l, k.read ≠ .frozendict l := by
    intro l heq
    cases k with
    | atom v =>
      cases v with
      | bytes name =>
        have hread : (smallAtomValue name : Term φ) = .frozendict l := heq
        rw [smallAtomValue] at hread
        split at hread
        · cases hread
        · split at hread <;> cases hread
      | _ => cases heq
    | frozendict l' => exact hencodable.elim
    | _ => cases heq
  have hproper : ∀ l, k.read ≠ .erlangList l false := by
    intro l heq
    cases k with
    | atom v =>
      cases v with
      | bytes name =>
        have hread : (smallAtomValue name : Term φ) = .erlangList l false := heq
        rw [smallAtomValue] at hread
        split at hread
        · cases hread
        · split at hread <;> cases hread
      | _ => cases heq
    | erlangList l' improper =>
      cases heq
      exact absurd hencodable.1 Bool.false_ne_true
    | _ => cases heq
  cases k' with
  | dict l => exact absurd h.symm (hfrozen _)
  | list l => exact absurd h.symm (hproper _)
  | _ => exact h

/-- Entries that come back one after the other. -/
theorem keptEntries_of_readPairs {l : List (Term φ × Term φ)}
    (hl : ∀ x ∈ l, Encodable py x.1 ∧ Encodable py x.2) (hhashed : ∀ x ∈ l, hash py x.1 = .ok ())
    (hback : ∀ x ∈ l, ComesBack py x.1 ∧ ComesBack py x.2)
    (hb : entriesBinary py l = .ok b) (h : data.drop i = b ++ rest) (hfuel : data.length < fuel + i)
    (hread : readPairs py (binaryToTermAt py data fuel) l.length i pairs =
      .ok (i', pairs ++ readEntries l)) :
    KeptEntries py l ∧
      ((readEntries l).Pairwise fun x y => Apart py x.1 y.1) ∧
      ∀ x ∈ readEntries l, ∀ y ∈ pairs, Apart py y.1 x.1 := by
  induction l generalizing i b pairs with
  | nil => exact ⟨trivial, List.Pairwise.nil, fun x hx => absurd hx not_mem_nil⟩
  | cons x l ih =>
    obtain ⟨k, v⟩ := x
    obtain ⟨b₁, hb₁, hb⟩ := ok_of_bind hb
    obtain ⟨b₂, hb₂, hb⟩ := ok_of_bind hb
    obtain ⟨b₃, hb₃, hb⟩ := ok_of_bind hb
    cases hb
    obtain ⟨⟨i₁, k'⟩, hk, hread⟩ := ok_of_bind hread
    obtain ⟨⟨i₂, v'⟩, hv, hread⟩ := ok_of_bind hread
    obtain ⟨pairs₁, hset, hread⟩ := ok_of_bind hread
    rw [append_assoc, append_assoc] at h
    obtain ⟨hk_enc, hv_enc⟩ := hl (k, v) mem_cons_self
    obtain ⟨hk_back, hv_back⟩ := hback (k, v) mem_cons_self
    -- every assignment adds an entry, as many as there are in the end
    have hlen : (pairs ++ readEntries ((k, v) :: l)).length = pairs.length + (l.length + 1) := by
      rw [length_append, readEntries_eq, length_map, length_cons]
    obtain ⟨hle, hmore⟩ := readPairs_length hread
    rw [hlen] at hle hmore
    rcases setItem_length hset with ⟨rfl, -, hnew⟩ | hsame
    swap
    · omega
    obtain ⟨more, hmore⟩ := hmore (by
      rw [length_append, length_singleton]
      omega)
    rw [readEntries, append_assoc, append_cancel_left_eq, singleton_append,
      List.cons.injEq, Prod.mk.injEq] at hmore
    obtain ⟨⟨hkey, rfl⟩, -⟩ := hmore
    obtain rfl := eq_of_keyOf hk_enc hkey.symm (hhashed (k, v) mem_cons_self)
    obtain ⟨hk_kept, rfl⟩ := hk_back.index hk_enc hb₁ h hfuel hk
    have hdrop := drop_add h rfl
    obtain ⟨hv_kept, rfl⟩ := hv_back.index hv_enc hb₂ hdrop (by omega) hv
    have hrest : readPairs py (binaryToTermAt py data fuel) l.length
        (i + b₁.length + b₂.length) (pairs ++ [(k.read, v.read)]) =
          .ok (i', pairs ++ [(k.read, v.read)] ++ readEntries l) := by
      rw [← hkey] at hread
      rw [append_assoc]
      exact hread
    obtain ⟨hkept, hapart, hnew'⟩ := ih (fun x hx => hl x (mem_cons_of_mem _ hx))
      (fun x hx => hhashed x (mem_cons_of_mem _ hx))
      (fun x hx => hback x (mem_cons_of_mem _ hx)) hb₃ (drop_add hdrop rfl) (by omega) hrest
    refine ⟨⟨hk_kept, hv_kept, hkept⟩, pairwise_cons.mpr ⟨fun y hy => ?_, hapart⟩, ?_⟩
    · exact hnew' y hy (k.read, v.read) (mem_append_right _ (mem_singleton.mpr rfl))
    · intro x hx y hy
      rcases mem_cons.mp hx with rfl | hx
      · exact hkey ▸ hnew y hy
      · exact hnew' x hx y (mem_append_left _ hy)

theorem comesBack_tuple (hl : ∀ t ∈ l, Encodable py t) (hback : ∀ t ∈ l, ComesBack py t) :
    ComesBack py (.tuple l) := by
  intro data fuel i i' rest b hb h hfuel hread
  rw [termBinary, tupleToBinary] at hb
  by_cases hsmall : l.length ≤ 255
  · rw [if_pos hsmall] at hb
    obtain ⟨b', hb', hb⟩ := ok_of_bind hb
    cases hb
    rw [append_assoc] at h
    obtain ⟨fuel, rfl, hterm⟩ := Form.binaryToTermAt_tag py h hfuel
    obtain ⟨x, hx, hval⟩ := byteAt_bigEndian (drop_header h) (Nat.lt_succ_of_le hsmall)
    rw [hterm] at hread
    obtain ⟨length, hlen, hread⟩ := ok_of_bind hread
    cases hx.symm.trans hlen
    rw [hval] at hread
    obtain ⟨⟨j, ts⟩, hts, hread⟩ := ok_of_bind hread
    cases hread
    exact (keptList_of_readSequence hl hback hb' (drop_header' h) (by omega) hts).1
  · rw [if_neg hsmall] at hb
    by_cases hlarge : l.length ≤ 4294967295
    · rw [if_pos hlarge] at hb
      obtain ⟨b', hb', hb⟩ := ok_of_bind hb
      cases hb
      rw [append_assoc] at h
      obtain ⟨fuel, rfl, hterm⟩ := Form.binaryToTermAt_tag py h hfuel
      rw [hterm] at hread
      obtain ⟨length, hlen, hread⟩ := ok_of_bind hread
      cases (unpackUInt_eq (drop_header h) (Nat.lt_succ_of_le hlarge)).symm.trans hlen
      obtain ⟨⟨j, ts⟩, hts, hread⟩ := ok_of_bind hread
      cases hread
      exact (keptList_of_readSequence hl hback hb' (drop_header' h) (by omega) hts).1
    · rw [if_neg hlarge] at hb
      cases hb

theorem comesBack_list (hl : ∀ t ∈ l, Encodable py t) (hback : ∀ t ∈ l, ComesBack py t) :
    ComesBack py (.list l) := by
  intro data fuel i i' rest b hb h hfuel hread
  rw [termBinary, listBinary] at hb
  by_cases hzero : l.length = 0
  · rw [length_eq_zero_iff.mp hzero]
    exact trivial
  · rw [if_neg hzero] at hb
    by_cases hlarge : 4294967295 < l.length
    · rw [if_pos hlarge] at hb
      cases hb
    · rw [if_neg hlarge, if_neg nofun] at hb
      obtain ⟨b', hb', hb⟩ := ok_of_bind hb
      cases hb
      rw [append_assoc, append_assoc] at h
      obtain ⟨fuel, rfl, hterm⟩ := Form.binaryToTermAt_tag py h hfuel
      rw [hterm] at hread
      obtain ⟨length, hlen, hread⟩ := ok_of_bind hread
      cases (unpackUInt_eq (drop_header h) (by omega)).symm.trans hlen
      obtain ⟨⟨j, ts⟩, hts, hread⟩ := ok_of_bind hread
      obtain ⟨⟨j', tail⟩, htail, hread⟩ := ok_of_bind hread
      have hvalue : listValue ts tail = .list (readList l) :=
        (Prod.mk.inj (Except.ok.inj hread)).2
      have heq : ts = readList l := by
        rw [listValue] at hvalue
        split at hvalue
        · exact Term.list.inj hvalue
        · cases hvalue
      rw [heq] at hts
      exact (keptList_of_readSequence hl hback hb' (drop_header' h) (by omega) hts).1

theorem comesBack_improper (htail : TailFits l) (hl : ∀ t ∈ l, Encodable py t)
    (hback : ∀ t ∈ l, ComesBack py t) : ComesBack py (.erlangList l true) := by
  intro data fuel i i' rest b hb h hfuel hread
  obtain ⟨t, hlast, -⟩ := htail
  obtain ⟨l', rfl⟩ := getLast?_eq_some_iff.mp hlast
  have hzero : (l' ++ [t]).length ≠ 0 := by simp
  rw [termBinary, listBinary, if_neg hzero] at hb
  by_cases hlarge : 4294967295 < (l' ++ [t]).length
  · rw [if_pos hlarge] at hb
    cases hb
  · rw [if_neg hlarge, if_pos rfl, termsBinary_append] at hb
    obtain ⟨b', hb', hb⟩ := ok_of_bind hb
    cases hb
    obtain ⟨b₁, hb₁, hb'⟩ := ok_of_bind hb'
    obtain ⟨b₂, hb₂, hb'⟩ := ok_of_bind hb'
    cases hb'
    obtain ⟨b₃, hb₃, hb₂⟩ := ok_of_bind hb₂
    cases hb₂
    rw [append_assoc, append_assoc, append_assoc, length_append,
      length_singleton, Nat.add_sub_cancel] at h
    rw [length_append, length_singleton] at hlarge
    obtain ⟨fuel, rfl, hterm⟩ := Form.binaryToTermAt_tag py h hfuel
    rw [hterm] at hread
    obtain ⟨length, hlen, hread⟩ := ok_of_bind hread
    cases (unpackUInt_eq (drop_header h) (by omega)).symm.trans hlen
    obtain ⟨⟨j, ts⟩, hts, hread⟩ := ok_of_bind hread
    obtain ⟨⟨j', t'⟩, ht', hread⟩ := ok_of_bind hread
    have hvalue : listValue ts t' = .erlangList (readList (l' ++ [t])) true :=
      (Prod.mk.inj (Except.ok.inj hread)).2
    have heq : ts ++ [t'] = readList l' ++ [t.read] := by
      rw [listValue] at hvalue
      split at hvalue
      · cases hvalue
      · rw [(Term.erlangList.inj hvalue).1, readList_eq, readList_eq, map_append]
        rfl
    obtain ⟨rfl, hlast'⟩ := append_inj' heq rfl
    obtain rfl := singleton_inj.mp hlast'
    obtain ⟨hkept, rfl⟩ := keptList_of_readSequence (fun x hx => hl x (mem_append_left _ hx))
      (fun x hx => hback x (mem_append_left _ hx)) hb₁ (drop_header' h) (by omega) hts
    have hmem : t ∈ l' ++ [t] := mem_append_right _ (mem_singleton.mpr rfl)
    have hkept' := hback t hmem data fuel _ _ _ _ hb₃ (drop_add (drop_header' h) rfl) (by omega) ht'
    refine keptList_iff.mpr fun x hx => ?_
    rcases mem_append.mp hx with hx | hx
    · exact keptList_iff.mp hkept x hx
    · rwa [mem_singleton.mp hx]

theorem comesBack_dict {l : List (Term φ × Term φ)} (hkeys : Keys py l)
    (hl : ∀ x ∈ l, Encodable py x.1 ∧ Encodable py x.2)
    (hback : ∀ x ∈ l, ComesBack py x.1 ∧ ComesBack py x.2) : ComesBack py (.dict l) := by
  intro data fuel i i' rest b hb h hfuel hread
  rw [termBinary, dictToBinary] at hb
  by_cases hlarge : l.length ≤ 4294967295
  · rw [if_pos hlarge] at hb
    obtain ⟨b', hb', hb⟩ := ok_of_bind hb
    cases hb
    rw [append_assoc] at h
    obtain ⟨fuel, rfl, hterm⟩ := Form.binaryToTermAt_tag py h hfuel
    rw [hterm] at hread
    obtain ⟨length, hlen, hread⟩ := ok_of_bind hread
    cases (unpackUInt_eq (drop_header h) (Nat.lt_succ_of_le hlarge)).symm.trans hlen
    obtain ⟨⟨j, pairs⟩, hpairs, hread⟩ := ok_of_bind hread
    cases hread
    obtain ⟨hkept, hapart, -⟩ := keptEntries_of_readPairs hl hkeys.hashed hback hb'
      (drop_header' h) (by omega) hpairs
    exact ⟨hapart, hkept⟩
  · rw [if_neg hlarge] at hb
    cases hb

theorem comesBack_reference {node : AtomValue} {id creation : Binary} (hnode : node.Fits)
    (hcreation : CreationFits creation) : ComesBack py (.reference node id creation) := by
  intro data fuel i i' rest b hb h hfuel hread
  rintro rfl
  obtain ⟨head, name, hhead, hname, hatom, hv, -⟩ := written_atom (φ := φ) hnode
  have hwritten : b = Tag.referenceExt.code :: (head.bytes ++ name ++ [] ++ creation) := by
    have hreference : (atomBinary node >>= fun node =>
        pure (Tag.referenceExt.code :: (node ++ [] ++ creation))) = Except.ok b := hb
    rw [hatom] at hreference
    exact (Except.ok.inj hreference).symm
  rw [hwritten, append_nil, cons_append] at h
  obtain ⟨fuel, rfl, hterm⟩ := Form.binaryToTermAt_tag py h hfuel
  have hdrop : data.drop (i + 1) = head.bytes ++ name ++ (creation ++ rest) := by
    rw [drop_succ h, append_assoc]
  rw [hterm] at hread
  obtain ⟨⟨j, v⟩, hj, hread⟩ := ok_of_bind hread
  rw [Form.binaryToAtom_full hhead hname hdrop, hv] at hj
  cases hj
  have hfield := slice_zero (drop_add hdrop rfl) 4
  have hid : slice data (i + 1 + (head.bytes ++ name).length)
      (i + 1 + (head.bytes ++ name).length + 4) = [] :=
    (Term.reference.inj (Prod.mk.inj (Except.ok.inj hread)).2).2.1
  rw [hfield] at hid
  cases creation with
  | nil => rcases hcreation with hlen | hlen <;> cases hlen
  | cons x creation => cases hid

/-- **What comes back is kept.** -/
theorem comesBack (hencodable : Encodable py t) : ComesBack py t := by
  induction t using Term.induct with
  | list l ih =>
    have hl := encodableList_iff.mp hencodable.2
    exact comesBack_list hl fun t ht => ih t ht (hl t ht)
  | tuple l ih =>
    have hl := encodableList_iff.mp hencodable.2
    exact comesBack_tuple hl fun t ht => ih t ht (hl t ht)
  | erlangList l improper ih =>
    obtain ⟨rfl, -, htail, hl⟩ := hencodable
    have hl := encodableList_iff.mp hl
    exact comesBack_improper htail hl fun t ht => ih t ht (hl t ht)
  | dict l ih =>
    obtain ⟨-, hkeys, hl⟩ := hencodable
    have hl := encodableEntries_iff.mp hl
    exact comesBack_dict hkeys hl fun x hx =>
      ⟨(ih x hx).1 (hl x hx).1, (ih x hx).2 (hl x hx).2⟩
  | reference node id creation =>
    obtain ⟨hnode, -, hcreation⟩ := hencodable
    exact comesBack_reference hnode hcreation
  | frozendict l ih => exact hencodable.elim
  | _ => exact fun _ _ _ _ _ _ _ _ _ _ => trivial

/-! ## the round trip -/

/-- **A round trip**: what is written of a value is read as the value. -/
def RoundTrips (py : Python φ) (t : Term φ) : Prop :=
  ∃ b, termToBinary py t = .ok b ∧ binaryToTerm py b = .ok t.read

theorem binaryToTermAt_of_binaryToTerm (h : binaryToTerm py (131 :: b) = .ok t) :
    ∃ i, binaryToTermAt py (131 :: b) (131 :: b : Binary).length 1 = .ok (i, t) := by
  rw [binaryToTerm, wholeTerm.eq_def] at h
  split at h
  · cases h
  · split at h
    · cases h
    · split at h
      · next i t' hread =>
          split at h
          · cases h
          · cases h
            exact ⟨i, hread⟩
      · cases h

/-- Floats as their bytes, which no text is read as, and the hash values of CPython: that of an
integer is the remainder by `2 ^ 61 - 1` with the sign, and -2 instead of -1; any other is larger
here. -/
def rawPython : Python Binary where
  unpack := id
  pack := id
  parse _ := none
  content b := 8 :: b.map Fin.val
  equal b b' := b = b'
  equalInt _ _ := false
  hashValue
    | [0, n, m] =>
        let h : Int := (n % (2 ^ 61 - 1) : Nat) - (m % (2 ^ 61 - 1) : Nat)
        if h = -1 then -2 else h
    | content => content.foldl (fun n b => n * 256 + b) (2 ^ 61)

/-- A tuple with a dict, an improper list and a reference. -/
def sample : Term Binary :=
  .tuple [.dict [(.bytes [107], .int 300), (.atom (.bytes (ofText "true")), .list [])],
    .erlangList [.int (-1), .bool false] true,
    .reference (.bytes [110]) [0, 0, 0, 1] [2]]

/-- A dict with the keys `OtpErlangAtom(b'true')` and `1`. -/
def trueAndOne : Term Binary :=
  .dict [(.atom (.bytes (ofText "true")), .bytes [120]), (.int 1, .bytes [121])]

end CloudI.ApiPython.Erlang
