import CloudI.ApiPython.Erlang.ExternalTerm
import CloudI.ApiPython.Erlang.Written

/-!
# ApiPython.Erlang.Meaning

The Erlang term that a Python value stands for.  A leaf is read as a value that stands for its
term, and what `term_to_binary` writes is an encoding of the term.
-/

namespace CloudI.ApiPython.Erlang

open Binary CloudI.Except List Option

variable {φ : Type} {py : Python φ}

/-! ## meaning -/

/-- The name of an atom. -/
def AtomValue.atomName : AtomValue → Option String
  | .cache _ => none
  | .text name => shortName name
  | .bytes name => shortName (latin1 name)

instance (creation : Binary) : Decidable (CreationFits creation) :=
  inferInstanceAs (Decidable (_ ∨ _))

open Classical in
/-- The function that bytes are an encoding of. -/
noncomputable def functionTerm (b : Binary) : Option ExternalTerm :=
  if ∃ f : Form, f.Fits ∧ f.bytes = b ∧ f.term = some (.function b) then some (.function b)
  else none

mutual

/-- **The term that a value stands for.** -/
noncomputable def Term.meaning : Term φ → Option ExternalTerm
  | .bytes value => some (.proper (characters value))
  | .str value => some (.proper (characters (Utf8.encode value)))
  | .int value => some (.int value)
  | .bool value => some (.atom (if value then "true" else "false"))
  | .float _ => none
  | .none => some (.atom "undefined")
  | .list l => (meaningList l).map .proper
  | .tuple l => (meaningList l).map .tuple
  | .dict l => (meaningEntries l).map .map
  | .frozendict l => (meaningEntries l).map .map
  | .atom v => v.atomName.map .atom
  | .binary value bits => if 1 ≤ bits ∧ bits ≤ 8 then some (.bitstring value bits) else none
  | .function tag value => functionTerm (tag :: value)
  | .erlangList l true => (meaningList l).map .improper
  | .erlangList l false => (meaningList l).map .proper
  | .pid node id serial creation =>
      if id.length = 4 ∧ serial.length = 4 ∧ CreationFits creation then
        node.atomName.map fun name =>
          .pid name (Binary.value id) (Binary.value serial) (Binary.value creation)
      else none
  | .port node id creation =>
      if id.length = 4 ∧ CreationFits creation then
        node.atomName.map fun name => .port name (Binary.value id) (Binary.value creation)
      else none
  | .reference node id creation =>
      if id ≠ [] ∧ id.length % 4 = 0 ∧ CreationFits creation then
        node.atomName.map fun name => .reference name id (Binary.value creation)
      else none

/-- The terms that values stand for. -/
noncomputable def meaningList : List (Term φ) → Option (List ExternalTerm)
  | [] => some []
  | t :: l => do
      let T ← t.meaning
      let l ← meaningList l
      pure (T :: l)

/-- The terms that entries stand for. -/
noncomputable def meaningEntries :
    List (Term φ × Term φ) → Option (List (ExternalTerm × ExternalTerm))
  | [] => some []
  | (k, v) :: l => do
      let K ← k.meaning
      let V ← v.meaning
      let l ← meaningEntries l
      pure ((K, V) :: l)

end

/-! ## leaves -/

variable {body b creation id : Binary} {head : AtomHead} {v node : AtomValue} {t : Term φ}
  {T : ExternalTerm} {Ts : List ExternalTerm} {l' : List Form} {l : List (Term φ)}

theorem AtomHead.atomName_eq (h : head.value body = .ok v) : v.atomName = head.atomName body := by
  match head, h with
  | .cacheRef, h =>
    cases h
    rfl
  | .name false _ _, h =>
    cases h
    rfl
  | .name true _ _, h =>
    rw [AtomHead.value, decodeUtf8] at h
    rw [AtomHead.atomName]
    cases hdecode : Utf8.decode body with
    | none =>
      rw [hdecode] at h
      cases h
    | some name =>
      rw [hdecode] at h
      cases h
      rfl

theorem AtomHead.value_of_atomName {name : String} (h : head.atomName body = some name) :
    ∃ v, head.value body = .ok v := by
  match head, h with
  | .cacheRef, h => cases h
  | .name false _ _, _ => exact ⟨_, rfl⟩
  | .name true _ _, h =>
    rw [AtomHead.atomName] at h
    rw [AtomHead.value, decodeUtf8]
    cases hdecode : Utf8.decode body with
    | none =>
      rw [hdecode] at h
      cases h
    | some text => exact ⟨_, rfl⟩

theorem meaning_smallAtomValue (name : Binary) :
    (smallAtomValue name : Term φ).meaning = (shortName (latin1 name)).map .atom := by
  rw [smallAtomValue]
  by_cases htrue : name = ofText "true"
  · rw [if_pos htrue, htrue]
    rfl
  · rw [if_neg htrue]
    by_cases hfalse : name = ofText "false"
    · rw [if_pos hfalse, hfalse]
      rfl
    · rw [if_neg hfalse]
      rfl

theorem meaning_read (v : AtomValue) : (v.read : Term φ).meaning = v.atomName.map .atom := by
  cases v with
  | bytes name => exact meaning_smallAtomValue name
  | _ => rfl

theorem functionTerm_of_form {f : Form} (hfits : f.Fits) (hb : f.bytes = b)
    (hterm : f.term = some (.function b)) : functionTerm b = some (.function b) := by
  rw [functionTerm, if_pos ⟨f, hfits, hb, hterm⟩]

theorem Node.meaning_eq {kind : Node} {fields : Binary} (hfields : fields.length = kind.size)
    (v : AtomValue) :
    (kind.value v fields : Term φ).meaning = v.atomName.bind fun name => kind.term name fields := by
  have hcreation : ∀ new, creationSize new = 1 ∨ creationSize new = 4 := by
    intro new
    cases new
    · exact .inl rfl
    · exact .inr rfl
  cases kind with
  | pid new =>
    have hsize : fields.length = 4 + 4 + creationSize new := hfields
    have hid : (fields.take 4).length = 4 := length_take_of_le (by omega)
    have hserial : ((fields.drop 4).take 4).length = 4 := by
      refine length_take_of_le ?_
      rw [length_drop]
      omega
    have hlen : (fields.drop (4 + 4)).length = creationSize new := by
      rw [length_drop, hsize, Nat.add_sub_cancel_left]
    have hfits : CreationFits (fields.drop (4 + 4)) := by
      rw [CreationFits, hlen]
      exact hcreation new
    rw [Node.value, Term.meaning, if_pos ⟨hid, hserial, hfits⟩]
    cases v.atomName <;> rfl
  | port new =>
    have hsize : fields.length = 4 + creationSize new := hfields
    have hid : (fields.take 4).length = 4 := length_take_of_le (by omega)
    have hlen : (fields.drop 4).length = creationSize new := by
      rw [length_drop, hsize, Nat.add_sub_cancel_left]
    have hfits : CreationFits (fields.drop 4) := by
      rw [CreationFits, hlen]
      exact hcreation new
    rw [Node.value, Term.meaning, if_pos ⟨hid, hfits⟩]
    cases v.atomName <;> rfl
  | reference =>
    have hsize : fields.length = 4 + 1 := hfields
    have hid : (fields.take 4).length = 4 := length_take_of_le (by omega)
    have hne : fields.take 4 ≠ [] := by
      intro hnil
      rw [hnil] at hid
      cases hid
    have hfits : CreationFits (fields.drop 4) := by
      rw [CreationFits, length_drop, hsize]
      exact .inl rfl
    rw [Node.value, Term.meaning, if_pos ⟨hne, by rw [hid], hfits⟩]
    cases v.atomName <;> rfl
  | newReference newer words =>
    have hsize : fields.length = creationSize newer + words * 4 := hfields
    have hid : (fields.drop (creationSize newer)).length = words * 4 := by
      rw [length_drop, hsize, Nat.add_sub_cancel_left]
    have hlen : (fields.take (creationSize newer)).length = creationSize newer :=
      length_take_of_le (by omega)
    have hfits : CreationFits (fields.take (creationSize newer)) := by
      rw [CreationFits, hlen]
      exact hcreation newer
    rw [Node.value, Term.meaning]
    by_cases hwords : words = 0
    · have hnil : fields.drop (creationSize newer) = [] := by
        rw [← length_eq_zero_iff, hid, hwords]
      rw [if_neg fun h => h.1 hnil]
      simp only [Node.term, hwords, if_true]
      cases v.atomName <;> rfl
    · have hne : fields.drop (creationSize newer) ≠ [] := by
        intro hnil
        rw [hnil, length_nil] at hid
        omega
      rw [if_pos ⟨hne, by rw [hid, Nat.mul_mod_left], hfits⟩]
      simp only [Node.term, hwords, if_false]
      cases v.atomName <;> rfl

/-- **A leaf is read as a value that stands for its term.** -/
theorem Leaf.meaning_eq {head : Leaf} (hfits : (Form.leaf head body).Fits)
    (hsigned : head.Signed body) (h : head.value py body = .ok t) : t.meaning = head.term body := by
  match head, hfits, hsigned, h with
  | .newFloat, _, _, h =>
    cases h
    rfl
  | .float, _, _, h =>
    rw [Leaf.value] at h
    cases hparse : parseFloat py body with
    | error e =>
      rw [hparse] at h
      cases h
    | ok x =>
      rw [hparse] at h
      cases h
      rfl
  | .bitBinary n bits, _, _, h =>
    cases h
    rfl
  | .binary n, _, _, h =>
    cases h
    rfl
  | .string n, _, _, h =>
    cases h
    rfl
  | .atom .cacheRef, _, _, h =>
    cases h
    rfl
  | .atom (.name false true n), _, _, h =>
    cases h
    exact meaning_smallAtomValue body
  | .atom (.name false false n), _, _, h =>
    cases h
    rfl
  | .atom (.name true small n), _, _, h =>
    have hatom : ((AtomHead.name true small n).value body).map Term.atom = .ok t := h
    cases hvalue : (AtomHead.name true small n).value body with
    | error e =>
      rw [hvalue] at hatom
      cases hatom
    | ok v =>
      rw [hvalue] at hatom
      cases hatom
      rw [Term.meaning, AtomHead.atomName_eq hvalue]
      rfl
  | .node kind head, hfits, _, h =>
    rw [Leaf.value] at h
    cases hvalue : head.value (body.take head.size) with
    | error e =>
      rw [hvalue] at h
      cases h
    | ok v =>
      rw [hvalue] at h
      cases h
      have hfields : (body.drop head.size).length = kind.size := by
        rw [length_drop, hfits.2, Leaf.size, Nat.add_sub_cancel_left]
      rw [Node.meaning_eq hfields, AtomHead.atomName_eq hvalue]
      rfl
  | .smallInteger, _, _, h =>
    cases h
    rfl
  | .integer, _, _, h =>
    cases h
    rfl
  | .nil, _, _, h =>
    cases h
    rfl
  | .bignum large n, _, hsigned, h =>
    cases h
    exact (if_pos hsigned).symm
  | .newFun n, hfits, _, h =>
    cases h
    exact functionTerm_of_form (f := .leaf (.newFun n) body) hfits rfl rfl

variable (py) in
/-- A leaf that encodes a term is read. -/
theorem Leaf.value_of_term {head : Leaf} (h : head.term body = some T) :
    head.Signed body ∧ ∃ t, head.value py body = .ok t := by
  match head, h with
  | .newFloat, h => cases h
  | .float, h => cases h
  | .bitBinary n bits, _ => exact ⟨trivial, _, rfl⟩
  | .binary n, _ => exact ⟨trivial, _, rfl⟩
  | .string n, _ => exact ⟨trivial, _, rfl⟩
  | .atom .cacheRef, h => cases h
  | .atom (.name false true n), _ => exact ⟨trivial, _, rfl⟩
  | .atom (.name false false n), _ => exact ⟨trivial, _, rfl⟩
  | .atom (.name true small n), h =>
    obtain ⟨name, hname, -⟩ := map_eq_some_iff.mp h
    obtain ⟨v, hv⟩ := AtomHead.value_of_atomName hname
    refine ⟨trivial, .atom v, ?_⟩
    show ((AtomHead.name true small n).value body).map Term.atom = _
    rw [hv]
    rfl
  | .node kind head, h =>
    obtain ⟨name, hname, -⟩ := bind_eq_some_iff.mp h
    obtain ⟨v, hv⟩ := AtomHead.value_of_atomName hname
    refine ⟨trivial, kind.value v (body.drop head.size), ?_⟩
    rw [Leaf.value, hv]
    rfl
  | .smallInteger, _ => exact ⟨trivial, _, rfl⟩
  | .integer, _ => exact ⟨trivial, _, rfl⟩
  | .nil, _ => exact ⟨trivial, _, rfl⟩
  | .bignum large n, h =>
    rw [Leaf.term] at h
    by_cases hsigned : body.headD 0 ≤ 1
    · exact ⟨hsigned, _, rfl⟩
    · rw [if_neg hsigned] at h
      cases h
  | .newFun n, _ => exact ⟨trivial, _, rfl⟩

/-! ## what is written -/

/-- **Bytes are an encoding of a term**, with the entries of its maps in their order. -/
def EncodedAs (b : Binary) (T : ExternalTerm) : Prop :=
  ∃ f : Form, f.Fits ∧ f.bytes = b ∧ f.term = some T

theorem Form.termList_append {l : List Form} {Ts' : List ExternalTerm} (h : termList l = some Ts)
    (h' : termList l' = some Ts') : termList (l ++ l') = some (Ts ++ Ts') := by
  induction l generalizing Ts with
  | nil =>
    cases h
    exact h'
  | cons f l ih =>
    obtain ⟨T, hT, h⟩ := bind_eq_some_iff.mp h
    obtain ⟨Ts, hTs, h⟩ := bind_eq_some_iff.mp h
    cases h
    rw [cons_append, termList, hT, ih hTs]
    rfl

theorem Form.fitsList_append {l : List Form} (h : FitsList l) (h' : FitsList l') :
    FitsList (l ++ l') := by
  rw [fitsList_iff] at h h' ⊢
  exact forall_mem_append.mpr ⟨h, h'⟩

/-- An empty list behind its elements. -/
def nilForm : Form := .leaf .nil []

theorem fits_nilForm : Form.FitsList [nilForm] := ⟨⟨trivial, rfl⟩, trivial⟩

theorem encodedAs_proper {fs : List Form} (hlen : fs.length < 256 ^ 4) (hfits : Form.FitsList fs)
    (hterm : Form.termList fs = some Ts) :
    EncodedAs (header .listExt 4 fs.length ++ Form.bytesList fs ++ [Tag.nilExt.code])
      (.proper Ts) := by
  refine ⟨.sequence .list (fs ++ [nilForm]), ⟨?_, Form.fitsList_append hfits fits_nilForm⟩, ?_, ?_⟩
  · rw [length_append]
    exact ⟨Nat.succ_pos _, hlen⟩
  · rw [Form.bytes, Sequence.bytes, length_append, length_singleton, Nat.add_sub_cancel,
      Form.bytesList_append, append_assoc]
    rfl
  · have hnil : Form.termList [nilForm] = some [.nil] := rfl
    rw [Form.term, Form.termList_append hterm hnil]
    exact congrArg some (ExternalTerm.improper_concat Ts .nil)

theorem encodedAs_of_writtenLeaf {written : Except Exception Binary}
    (h : WrittenLeaf py written t) (hb : written = .ok b) (ht : t.meaning = some T) :
    EncodedAs b T := by
  obtain ⟨head, body, hfits, hwritten, hvalue, hsigned⟩ := h
  cases hwritten.symm.trans hb
  exact ⟨.leaf head body, hfits, rfl, (Leaf.meaning_eq hfits hsigned hvalue).symm.trans ht⟩

/-- `_string_to_binary`. -/
theorem encodedAs_string {value : Binary} (h : stringToBinary value = .ok b) :
    EncodedAs b (.proper (characters value)) := by
  rw [stringToBinary] at h
  by_cases hzero : value.length = 0
  · rw [if_pos hzero] at h
    cases h
    rw [length_eq_zero_iff.mp hzero]
    exact ⟨nilForm, ⟨trivial, rfl⟩, rfl, rfl⟩
  · rw [if_neg hzero] at h
    by_cases hshort : value.length ≤ 65535
    · rw [if_pos hshort] at h
      cases h
      exact ⟨.leaf (.string value.length) value, ⟨Nat.lt_succ_of_le hshort, rfl⟩, rfl, rfl⟩
    · rw [if_neg hshort] at h
      by_cases hlong : value.length ≤ 4294967295
      · rw [if_pos hlong] at h
        cases h
        -- the characters are small integers in a list
        have hlist : ∀ l : Binary, ∃ fs : List Form, fs.length = l.length ∧ Form.FitsList fs ∧
            Form.bytesList fs = (l.flatMap fun c => [Tag.smallIntegerExt.code, c]) ∧
            Form.termList fs = some (characters l) := by
          intro l
          induction l with
          | nil => exact ⟨[], rfl, trivial, rfl, rfl⟩
          | cons c l ih =>
            obtain ⟨fs, hlen, hfits, hbytes, hterm⟩ := ih
            refine ⟨.leaf .smallInteger [c] :: fs, congrArg (· + 1) hlen,
              ⟨⟨trivial, rfl⟩, hfits⟩, ?_, ?_⟩
            · rw [Form.bytesList, hbytes]
              rfl
            · rw [Form.termList, hterm, Form.term, Leaf.term, value_singleton]
              rfl
        obtain ⟨fs, hlen, hfits, hbytes, hterm⟩ := hlist value
        have hencoded := encodedAs_proper (by omega) hfits hterm
        rwa [hlen, hbytes] at hencoded
      · rw [if_neg hlong] at h
        cases h

theorem fits_of_atomBinary (h : atomBinary v = .ok b) : v.Fits := by
  cases v with
  | cache number => exact trivial
  | _ =>
    simp only [atomBinary] at h
    split at h
    · next hle => exact Nat.le_trans hle (by decide)
    · split at h
      · next hle => exact hle
      · cases h

theorem intFits_of_longToBinary {i : Int} (h : longToBinary i = .ok b) : IntFits i := by
  rw [longToBinary] at h
  by_cases hlong : -2147483648 ≤ i ∧ i ≤ 2147483647
  · exact intFits_of_lt (by omega)
  · rw [if_neg hlong] at h
    simp only [bignumToBinary] at h
    split at h
    · next hle => exact Nat.le_trans hle (by decide)
    · split at h
      · next hle => exact hle
      · cases h

/-- The elements of a list or a tuple. -/
theorem encodedAs_list
    (h : ∀ t ∈ l, ∀ b T, t.meaning = some T → termBinary py t = .ok b → EncodedAs b T)
    (hmeaning : meaningList l = some Ts) (hb : termsBinary py l = .ok b) :
    ∃ fs : List Form, fs.length = l.length ∧ Form.FitsList fs ∧ Form.bytesList fs = b ∧
      Form.termList fs = some Ts := by
  induction l generalizing b Ts with
  | nil =>
    cases hb
    cases hmeaning
    exact ⟨[], rfl, trivial, rfl, rfl⟩
  | cons t l ih =>
    obtain ⟨T, hT, hmeaning⟩ := bind_eq_some_iff.mp hmeaning
    obtain ⟨Ts, hTs, hmeaning⟩ := bind_eq_some_iff.mp hmeaning
    cases hmeaning
    obtain ⟨b₁, hb₁, hb⟩ := ok_of_bind hb
    obtain ⟨b₂, hb₂, hb⟩ := ok_of_bind hb
    cases hb
    obtain ⟨f, hf, rfl, hterm⟩ := h t mem_cons_self b₁ T hT hb₁
    obtain ⟨fs, hlen, hfs, rfl, hterms⟩ := ih
      (fun x hx => h x (mem_cons_of_mem t hx)) hTs hb₂
    refine ⟨f :: fs, congrArg (· + 1) hlen, ⟨hf, hfs⟩, rfl, ?_⟩
    rw [Form.termList, hterm, hterms]
    rfl

/-- The entries of a dict. -/
theorem encodedAs_entries {l : List (Term φ × Term φ)} (h : ∀ x ∈ l,
      (∀ b T, x.1.meaning = some T → termBinary py x.1 = .ok b → EncodedAs b T) ∧
      (∀ b T, x.2.meaning = some T → termBinary py x.2 = .ok b → EncodedAs b T))
    {Ts : List (ExternalTerm × ExternalTerm)} (hmeaning : meaningEntries l = some Ts)
    (hb : entriesBinary py l = .ok b) :
    ∃ fs : List (Form × Form), fs.length = l.length ∧ Form.FitsEntries fs ∧
      Form.bytesEntries fs = b ∧ Form.termEntries fs = some Ts := by
  induction l generalizing b Ts with
  | nil =>
    cases hb
    cases hmeaning
    exact ⟨[], rfl, trivial, rfl, rfl⟩
  | cons x l ih =>
    obtain ⟨k, v⟩ := x
    obtain ⟨K, hK, hmeaning⟩ := bind_eq_some_iff.mp hmeaning
    obtain ⟨V, hV, hmeaning⟩ := bind_eq_some_iff.mp hmeaning
    obtain ⟨Ts, hTs, hmeaning⟩ := bind_eq_some_iff.mp hmeaning
    cases hmeaning
    obtain ⟨b₁, hb₁, hb⟩ := ok_of_bind hb
    obtain ⟨b₂, hb₂, hb⟩ := ok_of_bind hb
    obtain ⟨b₃, hb₃, hb⟩ := ok_of_bind hb
    cases hb
    obtain ⟨hk, hv⟩ := h (k, v) mem_cons_self
    obtain ⟨f, hf, rfl, hterm⟩ := hk b₁ K hK hb₁
    obtain ⟨g, hg, rfl, hterm'⟩ := hv b₂ V hV hb₂
    obtain ⟨fs, hlen, hfs, rfl, hterms⟩ := ih
      (fun x hx => h x (mem_cons_of_mem _ hx)) hTs hb₃
    refine ⟨(f, g) :: fs, congrArg (· + 1) hlen, ⟨hf, hg, hfs⟩, ?_, ?_⟩
    · rw [Form.bytesEntries, append_assoc]
    · rw [Form.termEntries, hterm, hterm', hterms]
      rfl

section

variable (h : ∀ t ∈ l, ∀ b T, t.meaning = some T → termBinary py t = .ok b → EncodedAs b T)
  (hmeaning : meaningList l = some Ts)

include h hmeaning

/-- `OtpErlangList.binary` of a list with an empty list behind. -/
theorem encodedAs_properList (hb : listBinary l.length false (termsBinary py l) = .ok b) :
    EncodedAs b (.proper Ts) := by
  rw [listBinary] at hb
  by_cases hzero : l.length = 0
  · rw [if_pos hzero] at hb
    cases hb
    rw [length_eq_zero_iff.mp hzero] at hmeaning
    cases hmeaning
    exact ⟨nilForm, ⟨trivial, rfl⟩, rfl, rfl⟩
  · rw [if_neg hzero] at hb
    by_cases hlarge : 4294967295 < l.length
    · rw [if_pos hlarge] at hb
      cases hb
    · rw [if_neg hlarge, if_neg nofun] at hb
      obtain ⟨elements, helements, hb⟩ := ok_of_bind hb
      cases hb
      obtain ⟨fs, hlen, hfits, rfl, hterm⟩ := encodedAs_list h hmeaning helements
      rw [← hlen]
      exact encodedAs_proper (by omega) hfits hterm

/-- `OtpErlangList.binary` of a list whose last value is its tail. -/
theorem encodedAs_improperList (hb : listBinary l.length true (termsBinary py l) = .ok b) :
    EncodedAs b (.improper Ts) := by
  rw [listBinary] at hb
  by_cases hzero : l.length = 0
  · rw [if_pos hzero] at hb
    cases hb
    rw [length_eq_zero_iff.mp hzero] at hmeaning
    cases hmeaning
    exact ⟨nilForm, ⟨trivial, rfl⟩, rfl, rfl⟩
  · rw [if_neg hzero] at hb
    by_cases hlarge : 4294967295 < l.length
    · rw [if_pos hlarge] at hb
      cases hb
    · rw [if_neg hlarge, if_pos rfl] at hb
      obtain ⟨elements, helements, hb⟩ := ok_of_bind hb
      cases hb
      obtain ⟨fs, hlen, hfits, rfl, hterm⟩ := encodedAs_list h hmeaning helements
      refine ⟨.sequence .list fs, ⟨?_, hfits⟩, ?_, ?_⟩
      · rw [hlen]
        exact ⟨Nat.pos_of_ne_zero hzero, by omega⟩
      · rw [Form.bytes, Sequence.bytes, hlen]
      · rw [Form.term, hterm]
        rfl

/-- `_tuple_to_binary`. -/
theorem encodedAs_tuple (hb : tupleToBinary l.length (termsBinary py l) = .ok b)
    : EncodedAs b (.tuple Ts) := by
  rw [tupleToBinary] at hb
  by_cases hsmall : l.length ≤ 255
  · rw [if_pos hsmall] at hb
    obtain ⟨elements, helements, hb⟩ := ok_of_bind hb
    cases hb
    obtain ⟨fs, hlen, hfits, rfl, hterm⟩ := encodedAs_list h hmeaning helements
    refine ⟨.sequence .smallTuple fs, ⟨?_, hfits⟩, ?_, ?_⟩
    · rw [hlen]
      exact Nat.lt_succ_of_le hsmall
    · rw [Form.bytes, Sequence.bytes, hlen]
    · rw [Form.term, hterm]
      rfl
  · rw [if_neg hsmall] at hb
    by_cases hlarge : l.length ≤ 4294967295
    · rw [if_pos hlarge] at hb
      obtain ⟨elements, helements, hb⟩ := ok_of_bind hb
      cases hb
      obtain ⟨fs, hlen, hfits, rfl, hterm⟩ := encodedAs_list h hmeaning helements
      refine ⟨.sequence .largeTuple fs, ⟨?_, hfits⟩, ?_, ?_⟩
      · rw [hlen]
        exact Nat.lt_succ_of_le hlarge
      · rw [Form.bytes, Sequence.bytes, hlen]
      · rw [Form.term, hterm]
        rfl
    · rw [if_neg hlarge] at hb
      cases hb

end

/-- `_dict_to_binary`. -/
theorem encodedAs_dict {l : List (Term φ × Term φ)} (h : ∀ x ∈ l,
      (∀ b T, x.1.meaning = some T → termBinary py x.1 = .ok b → EncodedAs b T) ∧
      (∀ b T, x.2.meaning = some T → termBinary py x.2 = .ok b → EncodedAs b T))
    {Ts : List (ExternalTerm × ExternalTerm)} (hmeaning : meaningEntries l = some Ts)
    (hb : dictToBinary l.length (entriesBinary py l) = .ok b) : EncodedAs b (.map Ts) := by
  rw [dictToBinary] at hb
  by_cases hlarge : l.length ≤ 4294967295
  · rw [if_pos hlarge] at hb
    obtain ⟨entries, hentries, hb⟩ := ok_of_bind hb
    cases hb
    obtain ⟨fs, hlen, hfits, rfl, hterm⟩ := encodedAs_entries h hmeaning hentries
    refine ⟨.map fs, ⟨?_, hfits⟩, ?_, ?_⟩
    · rw [hlen]
      exact Nat.lt_succ_of_le hlarge
    · rw [Form.bytes, hlen]
    · rw [Form.term, hterm]
      rfl
  · rw [if_neg hlarge] at hb
    cases hb

theorem fits_of_pidBinary (h : pidBinary node id serial creation = .ok b) : node.Fits := by
  rw [pidBinary] at h
  split at h
  · obtain ⟨b', hb', -⟩ := ok_of_bind h
    exact fits_of_atomBinary hb'
  · split at h
    · obtain ⟨b', hb', -⟩ := ok_of_bind h
      exact fits_of_atomBinary hb'
    · cases h

theorem fits_of_portBinary (h : portBinary node id creation = .ok b) : node.Fits := by
  rw [portBinary] at h
  split at h
  · obtain ⟨b', hb', -⟩ := ok_of_bind h
    exact fits_of_atomBinary hb'
  · split at h
    · obtain ⟨b', hb', -⟩ := ok_of_bind h
      exact fits_of_atomBinary hb'
    · cases h

theorem fits_of_referenceBinary (h : referenceBinary node id creation = .ok b) :
    node.Fits ∧ id.length / 4 ≤ 65535 := by
  simp only [referenceBinary] at h
  split at h
  · next hzero =>
      obtain ⟨b', hb', -⟩ := ok_of_bind h
      exact ⟨fits_of_atomBinary hb', by rw [hzero]; decide⟩
  · split at h
    · next hle =>
        split at h
        · obtain ⟨b', hb', -⟩ := ok_of_bind h
          exact ⟨fits_of_atomBinary hb', hle⟩
        · split at h
          · obtain ⟨b', hb', -⟩ := ok_of_bind h
            exact ⟨fits_of_atomBinary hb', hle⟩
          · cases h
    · cases h

/-- **What `term_to_binary` writes is an encoding** of the term that the value stands for. -/
theorem encodedAs_termBinary (hmeaning : t.meaning = some T) (hb : termBinary py t = .ok b) :
    EncodedAs b T := by
  induction t using Term.induct generalizing b T with
  | bytes value =>
    cases hmeaning
    exact encodedAs_string hb
  | str value =>
    cases hmeaning
    exact encodedAs_string hb
  | int i =>
    exact encodedAs_of_writtenLeaf (writtenLeaf_int py (intFits_of_longToBinary hb)) hb hmeaning
  | bool value => exact encodedAs_of_writtenLeaf (writtenLeaf_bool value) hb hmeaning
  | float x => cases hmeaning
  | none =>
    have hatom : atomBinary (.bytes (ofText "undefined")) = .ok b := hb
    have hfits := fits_of_atomBinary hatom
    exact encodedAs_of_writtenLeaf (writtenLeaf_atom py hfits) hb hmeaning
  | list l ih =>
    obtain ⟨Ts, hTs, rfl⟩ := map_eq_some_iff.mp hmeaning
    exact encodedAs_properList (fun t ht b T => ih t ht) hTs hb
  | tuple l ih =>
    obtain ⟨Ts, hTs, rfl⟩ := map_eq_some_iff.mp hmeaning
    exact encodedAs_tuple (fun t ht b T => ih t ht) hTs hb
  | dict l ih =>
    obtain ⟨Ts, hTs, rfl⟩ := map_eq_some_iff.mp hmeaning
    exact encodedAs_dict (fun x hx => ⟨fun b T => (ih x hx).1, fun b T => (ih x hx).2⟩) hTs hb
  | frozendict l ih =>
    obtain ⟨Ts, hTs, rfl⟩ := map_eq_some_iff.mp hmeaning
    exact encodedAs_dict (fun x hx => ⟨fun b T => (ih x hx).1, fun b T => (ih x hx).2⟩) hTs hb
  | atom v =>
    have hatom : atomBinary v = .ok b := hb
    have hfits := fits_of_atomBinary hatom
    have hread : (v.read : Term φ).meaning = some T := (meaning_read v).trans hmeaning
    exact encodedAs_of_writtenLeaf (writtenLeaf_atom py hfits) hb hread
  | binary value bits =>
    have hfits : value.length ≤ 4294967295 := by
      rw [termBinary, binaryBinary] at hb
      split at hb
      · cases hb
      · omega
    exact encodedAs_of_writtenLeaf (writtenLeaf_binary py bits hfits) hb hmeaning
  | function tag value =>
    cases hb
    rw [Term.meaning, functionTerm] at hmeaning
    split at hmeaning
    · next hform =>
        cases hmeaning
        exact hform
    · cases hmeaning
  | erlangList l isImproper ih =>
    cases isImproper with
    | false =>
      obtain ⟨Ts, hTs, rfl⟩ := map_eq_some_iff.mp hmeaning
      exact encodedAs_properList (fun t ht b T => ih t ht) hTs hb
    | true =>
      obtain ⟨Ts, hTs, rfl⟩ := map_eq_some_iff.mp hmeaning
      exact encodedAs_improperList (fun t ht b T => ih t ht) hTs hb
  | pid node id serial creation =>
    by_cases hfits : id.length = 4 ∧ serial.length = 4 ∧ CreationFits creation
    · exact encodedAs_of_writtenLeaf (writtenLeaf_pid py
        (fits_of_pidBinary hb) hfits.1 hfits.2.1 hfits.2.2) hb hmeaning
    · rw [Term.meaning, if_neg hfits] at hmeaning
      cases hmeaning
  | port node id creation =>
    by_cases hfits : id.length = 4 ∧ CreationFits creation
    · exact encodedAs_of_writtenLeaf (writtenLeaf_port py
        (fits_of_portBinary hb) hfits.1 hfits.2) hb hmeaning
    · rw [Term.meaning, if_neg hfits] at hmeaning
      cases hmeaning
  | reference node id creation =>
    by_cases hfits : id ≠ [] ∧ id.length % 4 = 0 ∧ CreationFits creation
    · obtain ⟨hnode, hwords⟩ := fits_of_referenceBinary hb
      obtain ⟨hne, hmod, hcreation⟩ := hfits
      have hpos := length_pos_iff.mpr hne
      exact encodedAs_of_writtenLeaf (writtenLeaf_reference py
        (id.length / 4) hnode (by omega) (by omega) hwords hcreation) hb hmeaning
    · rw [Term.meaning, if_neg hfits] at hmeaning
      cases hmeaning

end CloudI.ApiPython.Erlang
