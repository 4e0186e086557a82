import CloudI.ApiPython.Erlang.Leaves

/-!
# ApiPython.Erlang.Forms

The concrete syntax of the external term format: what is written, what the decoder makes of it, and
that it makes this of it in front of anything.
-/

namespace CloudI.ApiPython.Erlang

open Binary CloudI.Except Unpack List

variable {φ : Type} {py : Python φ} {data rest : Binary} {i n : Nat}

/-! ## syntax -/

/-- An integer that is no bignum. -/
inductive IntForm where
  | small (b : Byte)
  | integer (b : Binary)

/-- The bytes of an integer. -/
def IntForm.bytes : IntForm → Binary
  | .small b => [Tag.smallIntegerExt.code, b]
  | .integer b => Tag.integerExt.code :: b

/-- An integer has 4 bytes. -/
def IntForm.Fits : IntForm → Prop
  | .small _ => True
  | .integer b => b.length = 4

/-- The parts of a function in front of its free variables: the pid, the module, the index and
the old unique integer. -/
structure FunHead where
  new : Bool
  node : AtomHead
  body : Binary
  module : AtomHead
  name : Binary
  index : IntForm
  uniq : IntForm

/-- The bytes of the pid of a function. -/
def FunHead.pidBytes (head : FunHead) : Binary :=
  (Node.pid head.new).tag.code :: (head.node.bytes ++ head.body)

/-- The bytes of the parts of a function. -/
def FunHead.bytes (head : FunHead) : Binary :=
  head.pidBytes ++ (head.module.bytes ++ head.name ++ (head.index.bytes ++ head.uniq.bytes))

/-- The parts of a function have the sizes of their heads. -/
structure FunHead.Fits (head : FunHead) : Prop where
  node : head.node.Fits
  body : head.body.length = head.node.size + (4 + 4 + creationSize head.new)
  module : head.module.Fits
  name : head.name.length = head.module.size
  index : head.index.Fits
  uniq : head.uniq.Fits

/-- The names in the parts of a function are read. -/
def FunHead.check (head : FunHead) : Except Exception Unit := do
  let _ ← head.node.value (head.body.take head.node.size)
  let _ ← head.module.value head.name
  pure ()

/-- An exported function: the atoms of its module and its name, and its arity. -/
structure ExportForm where
  module : AtomHead
  name : Binary
  function : AtomHead
  functionName : Binary
  arity : Byte

/-- The bytes of an exported function behind its tag. -/
def ExportForm.bytes (form : ExportForm) : Binary :=
  form.module.bytes ++ form.name ++ (form.function.bytes ++ form.functionName) ++
    [Tag.smallIntegerExt.code, form.arity]

/-- The names have the sizes of their heads. -/
structure ExportForm.Fits (form : ExportForm) : Prop where
  module : form.module.Fits
  name : form.name.length = form.module.size
  function : form.function.Fits
  functionName : form.functionName.length = form.function.size

/-- The names of an exported function are read. -/
def ExportForm.check (form : ExportForm) : Except Exception Unit := do
  let _ ← form.module.value form.name
  let _ ← form.function.value form.functionName
  pure ()

/-- The composite terms that are read as a sequence: a list is that of its elements and its
tail. -/
inductive Sequence where
  | smallTuple
  | largeTuple
  | list

/-- The tag of a sequence. -/
def Sequence.tag : Sequence → Tag
  | .smallTuple => .smallTupleExt
  | .largeTuple => .largeTupleExt
  | .list => .listExt

/-- The bytes in front of a sequence of `n` terms. -/
def Sequence.bytes (n : Nat) : Sequence → Binary
  | .smallTuple => header .smallTupleExt 1 n
  | .largeTuple => header .largeTupleExt 4 n
  | .list => header .listExt 4 (n - 1)

/-- The number of terms is one that the head can have. -/
def Sequence.Fits (n : Nat) : Sequence → Prop
  | .smallTuple => n < 256 ^ 1
  | .largeTuple => n < 256 ^ 4
  | .list => 0 < n ∧ n ≤ 256 ^ 4

/-- The value of a sequence. -/
def Sequence.value (l : List (Term φ)) : Sequence → Term φ
  | .smallTuple => .tuple l
  | .largeTuple => .tuple l
  | .list => listValue l.dropLast (l.getLastD (.list []))

/-- **A form**: an encoding with its choice of tags. -/
inductive Form where
  | leaf (head : Leaf) (body : Binary)
  | sequence (s : Sequence) (l : List Form)
  | map (l : List (Form × Form))
  | exportFun (form : ExportForm)
  | function (head : FunHead) (l : List Form)

namespace Form

/-- Induction over a form, with the terms in a composite one. -/
theorem induct {P : Form → Prop} (leaf : ∀ l body, P (.leaf l body))
    (sequence : ∀ s l, (∀ x ∈ l, P x) → P (.sequence s l))
    (map : ∀ l, (∀ x ∈ l, P x.1 ∧ P x.2) → P (.map l)) (exportFun : ∀ form, P (.exportFun form))
    (function : ∀ head l, (∀ x ∈ l, P x) → P (.function head l)) (f : Form) : P f := by
  refine @Form.rec P (fun l => ∀ x ∈ l, P x) (fun l => ∀ x ∈ l, P x.1 ∧ P x.2)
    (fun x => P x.1 ∧ P x.2)
    leaf (fun s l h => sequence s l h) map exportFun (fun head l h => function head l h)
    ?_ ?_ ?_ ?_ ?_ f
  · exact fun x hx => absurd hx not_mem_nil
  · exact fun x l hx hl => forall_mem_cons.mpr ⟨hx, hl⟩
  · exact fun x hx => absurd hx not_mem_nil
  · exact fun x l hx hl => forall_mem_cons.mpr ⟨hx, hl⟩
  · exact fun k v hk hv => ⟨hk, hv⟩

mutual

/-- The bytes of a form. -/
def bytes : Form → Binary
  | .leaf head body => head.bytes ++ body
  | .sequence s l => s.bytes l.length ++ bytesList l
  | .map l => header .mapExt 4 l.length ++ bytesEntries l
  | .exportFun form => Tag.exportExt.code :: form.bytes
  | .function head l => header .funExt 4 l.length ++ (head.bytes ++ bytesList l)

/-- The bytes of forms. -/
def bytesList : List Form → Binary
  | [] => []
  | f :: l => bytes f ++ bytesList l

/-- The bytes of the keys and values of a map. -/
def bytesEntries : List (Form × Form) → Binary
  | [] => []
  | (k, v) :: l => bytes k ++ (bytes v ++ bytesEntries l)

end

mutual

/-- The lengths of a form are those of its parts, and the heads can have them. -/
def Fits : Form → Prop
  | .leaf head body => head.Fits ∧ body.length = head.size
  | .sequence s l => s.Fits l.length ∧ FitsList l
  | .map l => l.length < 256 ^ 4 ∧ FitsEntries l
  | .exportFun form => form.Fits
  | .function head l => l.length < 256 ^ 4 ∧ head.Fits ∧ FitsList l

/-- All forms of a list fit. -/
def FitsList : List Form → Prop
  | [] => True
  | f :: l => Fits f ∧ FitsList l

/-- All keys and values fit. -/
def FitsEntries : List (Form × Form) → Prop
  | [] => True
  | (k, v) :: l => Fits k ∧ Fits v ∧ FitsEntries l

end

mutual

/-- What Python makes of a form. -/
def value (py : Python φ) : Form → Except Exception (Term φ)
  | .leaf head body => head.value py body
  | .sequence s l => do
      let l ← valueList py l
      pure (s.value l)
  | .map l => do
      let pairs ← valueEntries py l []
      pure (.dict pairs)
  | .exportFun form => do
      form.check
      pure (.function Tag.exportExt.code form.bytes)
  | .function head l => do
      head.check
      let _ ← valueList py l
      pure (.function Tag.funExt.code (bigEndian 4 l.length ++ (head.bytes ++ bytesList l)))

/-- What Python makes of forms, one after the other. -/
def valueList (py : Python φ) : List Form → Except Exception (List (Term φ))
  | [] => .ok []
  | f :: l => do
      let t ← value py f
      let ts ← valueList py l
      pure (t :: ts)

/-- What Python makes of the keys and values of a map. -/
def valueEntries (py : Python φ) : List (Form × Form) → List (Term φ × Term φ) →
    Except Exception (List (Term φ × Term φ))
  | [], pairs => .ok pairs
  | (k, v) :: l, pairs => do
      let key ← value py k
      let value ← value py v
      let pairs ← setItem py pairs (keyOf key) value
      valueEntries py l pairs

end

variable {l : List Form} {head : FunHead}

theorem fitsList_iff : FitsList l ↔ ∀ f ∈ l, f.Fits := by
  induction l with
  | nil => simp [FitsList]
  | cons f l ih => rw [FitsList, ih, forall_mem_cons]

theorem fitsEntries_iff {l : List (Form × Form)} :
    FitsEntries l ↔ ∀ x ∈ l, x.1.Fits ∧ x.2.Fits := by
  induction l with
  | nil => simp [FitsEntries]
  | cons x l ih => rw [FitsEntries, ih, forall_mem_cons, and_assoc]

theorem bytesList_append (l l' : List Form) :
    bytesList (l ++ l') = bytesList l ++ bytesList l' := by
  induction l with
  | nil => rfl
  | cons f l ih => rw [cons_append, bytesList, bytesList, ih, append_assoc]

theorem valueList_append (l l' : List Form) : valueList py (l ++ l') = (do
      let ts ← valueList py l
      let ts' ← valueList py l'
      pure (ts ++ ts')) := by
  induction l with
  | nil =>
    show valueList py l' = (valueList py l' >>= fun ts' => pure ts')
    cases valueList py l' <;> rfl
  | cons f l ih =>
    rw [cons_append, valueList, ih, valueList]
    cases value py f with
    | error e => rfl
    | ok t =>
      cases valueList py l with
      | error e => rfl
      | ok ts => cases valueList py l' <;> rfl

theorem valueList_singleton (f : Form) : valueList py [f] = (value py f).map fun t => [t] := by
  rw [valueList]
  cases value py f <;> rfl

/-! ## reading -/

/-- A reader of terms reads a form at any index that is not before the next one. -/
def ReadBy (py : Python φ) (data : Binary) (fuel : Nat)
    (read : Nat → Except Exception (Nat × Term φ)) (f : Form) : Prop :=
  ∀ i rest, data.length < fuel + i → data.drop i = f.bytes ++ rest →
    read i = (f.value py).map fun t => (i + f.bytes.length, t)

variable {fuel : Nat} {read : Nat → Except Exception (Nat × Term φ)}

/-- `_binary_to_term_sequence` of forms. -/
theorem readSequence_eq (hread : ∀ f ∈ l, ReadBy py data fuel read f)
    (hfuel : data.length < fuel + i) (h : data.drop i = bytesList l ++ rest) :
    readSequence read l.length i =
      (valueList py l).map fun ts => (i + (bytesList l).length, ts) := by
  induction l generalizing i with
  | nil => rfl
  | cons f l ih =>
    rw [bytesList, append_assoc] at h
    have hdrop := drop_add h rfl
    have hrest := ih (fun g hg => hread g (mem_cons_of_mem f hg))
      (i := i + f.bytes.length) (by omega) hdrop
    rw [length_cons, readSequence, hread f mem_cons_self i _ hfuel h, valueList]
    cases value py f with
    | error e => rfl
    | ok t =>
      show (readSequence read l.length (i + f.bytes.length) >>= fun x => _) = _
      rw [hrest, bytesList, length_append, ← Nat.add_assoc]
      cases valueList py l <;> rfl

/-- The loop over the entries of a map. -/
theorem readPairs_eq {l : List (Form × Form)}
    (hread : ∀ x ∈ l, ReadBy py data fuel read x.1 ∧ ReadBy py data fuel read x.2)
    (hfuel : data.length < fuel + i) (h : data.drop i = bytesEntries l ++ rest)
    (pairs : List (Term φ × Term φ)) :
    readPairs py read l.length i pairs =
      (valueEntries py l pairs).map fun pairs => (i + (bytesEntries l).length, pairs) := by
  induction l generalizing i pairs with
  | nil => rfl
  | cons x l ih =>
    obtain ⟨k, v⟩ := x
    obtain ⟨hk, hv⟩ := hread (k, v) mem_cons_self
    rw [bytesEntries, append_assoc, append_assoc] at h
    have hdrop := drop_add h rfl
    have hdrop' := drop_add hdrop rfl
    rw [length_cons, readPairs, hk i _ hfuel h, valueEntries]
    cases value py k with
    | error e => rfl
    | ok key =>
      show (read (i + k.bytes.length) >>= fun x => _) = _
      rw [hv (i + k.bytes.length) _ (by omega) hdrop]
      cases value py v with
      | error e => rfl
      | ok value =>
        show (setItem py pairs (keyOf key) value >>= fun pairs => _) =
          (setItem py pairs (keyOf key) value >>= fun pairs => _).map _
        cases setItem py pairs (keyOf key) value with
        | error e => rfl
        | ok pairs =>
          refine (ih (fun y hy => hread y (mem_cons_of_mem _ hy)) (by omega) hdrop'
            pairs).trans ?_
          rw [bytesEntries, length_append, length_append, Nat.add_assoc, Nat.add_assoc]
          rfl

/-- An integer that is no bignum. -/
theorem binaryToInteger_eq (form : IntForm) (hfits : form.Fits)
    (h : data.drop i = form.bytes ++ rest) :
    ∃ n, binaryToInteger data i = .ok (i + form.bytes.length, n) := by
  cases form with
  | small b =>
    have hbyte : byteAt data (i + 1) = .ok b := byteAt_eq (drop_succ h)
    refine ⟨b.val, ?_⟩
    rw [binaryToInteger, byteAt_eq h, ok_bind, Tag.ofByte_code]
    show (byteAt data (i + 1) >>= fun b => _) = _
    rw [hbyte]
    rfl
  | integer b =>
    have hrest : data.drop (i + 1) = b ++ rest := drop_succ h
    have hlen : b.length = 4 := hfits
    have hslice : slice data (i + 1) (i + 1 + 4) = b := by
      rw [slice_zero hrest, take_left' hlen]
    refine ⟨int32Value (Binary.value b), ?_⟩
    rw [binaryToInteger, byteAt_eq h, ok_bind, Tag.ofByte_code]
    show (unpackInt data (i + 1) >>= fun n => _) = _
    rw [unpackInt, unpackUInt, hslice]
    simp only [hlen, if_true]
    show Except.ok (i + 1 + 4, _) = Except.ok (i + (b.length + 1), _)
    rw [hlen]

theorem binaryToAtom_full {head : AtomHead} {name : Binary} (hfits : head.Fits)
    (hname : name.length = head.size) (h : data.drop i = head.bytes ++ name ++ rest) :
    binaryToAtom data i = (head.value name).map fun v => (i + (head.bytes ++ name).length, v) := by
  have hneed : head.need ≤ (name ++ rest).length := by
    have hle : head.need ≤ head.size := by cases head <;> simp [AtomHead.need, AtomHead.size]
    rw [length_append]
    omega
  rw [append_assoc] at h
  rw [binaryToAtom_eq hfits h hneed, take_left' hname, length_append, hname,
    Nat.add_assoc]

/-- The pid of a function. -/
theorem binaryToPid_eq (hfits : head.Fits) (h : data.drop i = head.pidBytes ++ rest) :
    (∃ t : Term φ, binaryToPid data i = .ok (i + head.pidBytes.length, t) ∧
      (head.node.value (head.body.take head.node.size)).isOk = true) ∨
    ∃ e, binaryToPid (φ := φ) data i = .error e ∧
      head.node.value (head.body.take head.node.size) = .error e := by
  have hbody := hfits.body
  have hdrop : data.drop (i + 1) = head.node.bytes ++ (head.body ++ rest) := by
    have hcons : data.drop i = (Node.pid head.new).tag.code ::
        (head.node.bytes ++ (head.body ++ rest)) := by
      rw [h, FunHead.pidBytes, cons_append, append_assoc]
    exact drop_succ hcons
  have hneed : head.node.need ≤ (head.body ++ rest).length := by
    have hle : head.node.need ≤ head.node.size := by
      cases head.node <;> simp [AtomHead.need, AtomHead.size]
    rw [length_append]
    omega
  have hread := readPid_eq (φ := φ) head.new hfits.node hdrop hneed
  have htake : (head.body ++ rest).take head.node.size = head.body.take head.node.size :=
    take_append_of_le_length (by omega)
  have hpid : binaryToPid (φ := φ) data i = readPid data (creationSize head.new) (i + 1) := by
    rw [binaryToPid, byteAt_eq h, ok_bind, Tag.ofByte_code]
    cases head.new <;> rfl
  have hindex : i + 1 + head.node.bytes.length + head.node.size +
      (4 + 4 + creationSize head.new) = i + head.pidBytes.length := by
    rw [FunHead.pidBytes, length_cons, length_append, hbody]
    omega
  rw [htake, hindex] at hread
  rw [hpid, hread]
  cases head.node.value (head.body.take head.node.size) with
  | error e => exact .inr ⟨e, rfl, rfl⟩
  | ok v => exact .inl ⟨_, rfl, rfl⟩

theorem readTerm_export {form : ExportForm} (hfits : form.Fits)
    (h : data.drop i = form.bytes ++ rest) :
    readTerm py data read i .exportExt = (form.check).map fun _ =>
      (i + form.bytes.length, .function Tag.exportExt.code form.bytes) := by
  have hslice : slice data i (i + form.bytes.length) = form.bytes := by
    rw [slice_zero h, take_left]
  have hmodule : data.drop i = form.module.bytes ++ form.name ++
      (form.function.bytes ++ form.functionName ++
        ([Tag.smallIntegerExt.code, form.arity] ++ rest)) := by
    rw [h, ExportForm.bytes]
    simp only [append_assoc]
  have hfunction := drop_add hmodule rfl
  have hinteger := drop_add hfunction rfl
  have htag : byteAt data (i + (form.module.bytes ++ form.name).length +
      (form.function.bytes ++ form.functionName).length) = .ok Tag.smallIntegerExt.code :=
    byteAt_eq hinteger
  have harity : byteAt data (i + (form.module.bytes ++ form.name).length +
      (form.function.bytes ++ form.functionName).length + 1) = .ok form.arity :=
    byteAt_eq (drop_succ hinteger)
  have hindex : i + (form.module.bytes ++ form.name).length +
      (form.function.bytes ++ form.functionName).length + 1 + 1 = i + form.bytes.length := by
    rw [ExportForm.bytes]
    simp only [length_append, length_cons, length_nil]
    omega
  show (binaryToAtom data i >>= fun x => _) = _
  rw [binaryToAtom_full hfits.module hfits.name hmodule, ExportForm.check]
  cases form.module.value form.name with
  | error e => rfl
  | ok v =>
    show (binaryToAtom data (i + (form.module.bytes ++ form.name).length) >>= fun x => _) = _
    rw [binaryToAtom_full hfits.function hfits.functionName hfunction]
    cases form.function.value form.functionName with
    | error e => rfl
    | ok v' =>
      show (byteAt data _ >>= fun tag => _) = _
      rw [htag]
      show (byteAt data _ >>= fun _ => _) = _
      rw [harity]
      show Except.ok (_, Term.function _ (slice data i _)) = Except.ok _
      rw [hindex, hslice]

/-- **A function behind its tag**, up to its free variables. -/
theorem readTerm_funHead (hn : n < 256 ^ 4) (hfits : head.Fits)
    (h : data.drop i = bigEndian 4 n ++ (head.bytes ++ rest)) :
    readTerm py data read i .funExt =
      (head.check >>= fun _ => readSequence read n (i + 4 + head.bytes.length)).map fun y =>
        (y.1, .function Tag.funExt.code (slice data i y.1)) := by
  have hcount : data.drop i = bigEndian 4 n ++ (head.pidBytes ++
      (head.module.bytes ++ head.name ++ (head.index.bytes ++ (head.uniq.bytes ++ rest)))) := by
    rw [h, FunHead.bytes]
    simp only [append_assoc]
  have hpid := drop_add hcount (length_bigEndian 4 _)
  have hmodule := drop_add hpid rfl
  have hindex := drop_add hmodule rfl
  have huniq := drop_add hindex rfl
  obtain ⟨m, hm⟩ := binaryToInteger_eq _ hfits.index hindex
  obtain ⟨m', hm'⟩ := binaryToInteger_eq _ hfits.uniq huniq
  have hstart : i + 4 + head.pidBytes.length + (head.module.bytes ++ head.name).length +
      head.index.bytes.length + head.uniq.bytes.length = i + 4 + head.bytes.length := by
    rw [FunHead.bytes]
    simp only [length_append]
    omega
  show (unpackUInt data 4 i >>= fun numfree => _) = _
  rw [unpackUInt_eq hcount hn, ok_bind, FunHead.check]
  rcases binaryToPid_eq (φ := φ) hfits hpid with ⟨t, ht, hok⟩ | ⟨e, he, he'⟩
  · obtain ⟨v, hv⟩ := exists_of_isOk hok
    rw [ht, hv]
    show (binaryToAtom data _ >>= fun x => _) = _
    rw [binaryToAtom_full hfits.module hfits.name hmodule]
    cases head.module.value head.name with
    | error e => rfl
    | ok v' =>
      show (binaryToInteger data _ >>= fun x => _) = _
      rw [hm]
      show (binaryToInteger data _ >>= fun x => _) = _
      rw [hm']
      show (readSequence read n _ >>= fun x => _) = (readSequence read n _).map _
      rw [hstart]
      cases readSequence read n (i + 4 + head.bytes.length) <;> rfl
  · rw [he, he']
    rfl

/-- A function behind its tag. -/
theorem readTerm_fun (hlen : l.length < 256 ^ 4) (hfits : head.Fits)
    (hread : ∀ f ∈ l, ReadBy py data fuel read f) (hfuel : data.length < fuel + i)
    (h : data.drop i = bigEndian 4 l.length ++ (head.bytes ++ bytesList l) ++ rest) :
    readTerm py data read i .funExt = (value py (.function head l)).map fun t =>
      (i + (bigEndian 4 l.length ++ (head.bytes ++ bytesList l)).length, t) := by
  have hslice : slice data i (i + (bigEndian 4 l.length ++ (head.bytes ++ bytesList l)).length) =
      bigEndian 4 l.length ++ (head.bytes ++ bytesList l) := by
    rw [slice_zero h, take_left]
  have hparts : data.drop i = bigEndian 4 l.length ++ (head.bytes ++ (bytesList l ++ rest)) := by
    rw [h]
    simp only [append_assoc]
  have hfree : data.drop (i + 4 + head.bytes.length) = bytesList l ++ rest :=
    drop_add (drop_add hparts (length_bigEndian 4 _)) rfl
  have hseq := readSequence_eq hread (by omega) hfree
  have hend : i + 4 + head.bytes.length + (bytesList l).length =
      i + (bigEndian 4 l.length ++ (head.bytes ++ bytesList l)).length := by
    simp only [length_append, length_bigEndian]
    omega
  rw [readTerm_funHead hlen hfits hparts, hseq, hend, value]
  cases head.check with
  | error e => rfl
  | ok u =>
    show ((valueList py l).map _).map _ = (valueList py l >>= fun ts => _).map _
    cases valueList py l with
    | error e => rfl
    | ok ts =>
      show Except.ok (_, Term.function _ (slice data i _)) = Except.ok _
      rw [hslice]

theorem readTerm_sequence (hs : s.Fits l.length) (hread : ∀ f ∈ l, ReadBy py data fuel read f)
    (hfuel : data.length < fuel + (i + 1))
    (h : data.drop i = s.bytes l.length ++ (bytesList l ++ rest)) :
    ∃ tag, byteAt data i = .ok tag.code ∧
      readTerm py data read (i + 1) tag = (value py (.sequence s l)).map fun t =>
        (i + (s.bytes l.length ++ bytesList l).length, t) := by
  cases s with
  | smallTuple =>
    obtain ⟨x, hx, hval⟩ := byteAt_bigEndian (drop_header h) hs
    have hseq := readSequence_eq hread (by omega) (drop_header' h)
    refine ⟨.smallTupleExt, byteAt_eq h, ?_⟩
    show (byteAt data (i + 1) >>= fun length => _) = _
    rw [hx, ok_bind, hval, hseq, value, length_append, Sequence.bytes, length_header]
    cases valueList py l with
    | error e => rfl
    | ok ts =>
      show Except.ok (i + 1 + 1 + _, _) = Except.ok (i + (1 + 1 + _), _)
      congr 2
      omega
  | largeTuple =>
    have hseq := readSequence_eq hread (by omega) (drop_header' h)
    refine ⟨.largeTupleExt, byteAt_eq h, ?_⟩
    show (unpackUInt data 4 (i + 1) >>= fun length => _) = _
    rw [unpackUInt_eq (drop_header h) hs, ok_bind, hseq, value, length_append,
      Sequence.bytes, length_header]
    cases valueList py l with
    | error e => rfl
    | ok ts =>
      show Except.ok (i + 1 + 4 + _, _) = Except.ok (i + (4 + 1 + _), _)
      congr 2
      omega
  | list =>
    -- the last form is the tail of the list
    obtain ⟨hpos, hle⟩ := hs
    obtain rfl | ⟨l', tail, rfl⟩ := eq_nil_or_concat l
    · cases hpos
    rw [concat_eq_append] at hread h hle ⊢
    rw [length_append, length_singleton] at h hle
    have hlt : l'.length < 256 ^ 4 := by omega
    rw [Sequence.bytes, Nat.add_sub_cancel, bytesList_append, append_assoc] at h
    have hseq := readSequence_eq (fun f hf => hread f (mem_append_left _ hf))
      (by omega) (drop_header' h)
    have htail := hread tail (mem_append_right _ (mem_singleton.mpr rfl))
      (i + 1 + 4 + (bytesList l').length) ([] ++ rest) (by omega)
      (by rw [← append_assoc]; exact drop_add (drop_header' h) rfl)
    refine ⟨.listExt, byteAt_eq h, ?_⟩
    show (unpackUInt data 4 (i + 1) >>= fun length => _) = _
    rw [unpackUInt_eq (drop_header h) hlt, ok_bind, hseq, value, valueList_append]
    cases valueList py l' with
    | error e => rfl
    | ok ts =>
      show (read _ >>= fun x => _) = _
      rw [htail, ok_bind, valueList_singleton]
      cases value py tail with
      | error e => rfl
      | ok t =>
        show Except.ok (_, listValue ts t) = Except.ok (_, Sequence.value (ts ++ [t]) .list)
        rw [Sequence.value, dropLast_concat, getLastD_concat, length_append,
          Sequence.bytes, length_header, bytesList_append, length_append, bytesList,
          bytesList, append_nil]
        refine congrArg (fun j => Except.ok (j, _)) ?_
        show i + 1 + 4 + (bytesList l').length + tail.bytes.length = _
        omega

theorem binaryToTermAt_tag (py : Python φ) (h : data.drop i = tag.code :: rest)
    (hfuel : data.length < fuel + i) : ∃ fuel', fuel = fuel' + 1 ∧
      binaryToTermAt py data fuel i =
        readTerm py data (binaryToTermAt py data fuel') (i + 1) tag := by
  cases fuel with
  | zero =>
    have hnil : data.drop i = [] := drop_eq_nil_of_le (by omega)
    rw [hnil] at h
    cases h
  | succ fuel =>
    refine ⟨fuel, rfl, ?_⟩
    rw [binaryToTermAt, byteAt_eq h, ok_bind, Tag.ofByte_code]

theorem bytes_ne_nil (f : Form) : f.bytes ≠ [] := by
  cases f with
  | leaf head body =>
    obtain ⟨l, hl⟩ := head.bytes_eq
    rw [bytes, hl]
    exact cons_ne_nil _ _
  | sequence s l => cases s <;> exact cons_ne_nil _ _
  | _ => exact cons_ne_nil _ _

theorem leaf_need_le (head : Leaf) : head.need ≤ head.size := by
  have hatom : ∀ h : AtomHead, h.need ≤ h.size := by
    intro h
    cases h <;> simp [AtomHead.need, AtomHead.size]
  cases head with
  | atom h => exact hatom h
  | node kind h => exact Nat.le_trans (hatom h) (Nat.le_add_right _ _)
  | _ => simp [Leaf.need, Leaf.size]

theorem readBy_of_readTerm {f : Form} (hread : ∀ fuel i rest, data.length < fuel + (i + 1) →
    data.drop i = f.bytes ++ rest → ∃ tag, byteAt data i = .ok tag.code ∧
      readTerm py data (binaryToTermAt py data fuel) (i + 1) tag =
        (value py f).map fun t => (i + f.bytes.length, t)) (fuel : Nat) :
    ReadBy py data fuel (binaryToTermAt py data fuel) f := by
  intro i rest hfuel h
  cases fuel with
  | zero =>
    have hnil : data.drop i = [] := drop_eq_nil_of_le (by omega)
    rw [hnil] at h
    exact absurd (append_eq_nil_iff.mp h.symm).1 f.bytes_ne_nil
  | succ fuel =>
    obtain ⟨tag, htag, hterm⟩ := hread fuel i rest (by omega) h
    rw [binaryToTermAt, htag, ok_bind, Tag.ofByte_code]
    exact hterm

variable (py) in
/-- **A form is read** in front of anything, as what Python makes of it. -/
theorem binaryToTermAt_eq (f : Form) (hfits : f.Fits) (fuel : Nat) :
    ReadBy py data fuel (binaryToTermAt py data fuel) f := by
  induction f using Form.induct generalizing fuel with
  | leaf head body =>
    refine readBy_of_readTerm (fun fuel i rest hfuel h => ?_) fuel
    obtain ⟨hhead, hbody⟩ := hfits
    rw [bytes, append_assoc] at h
    have hneed : head.need ≤ (body ++ rest).length := by
      have hle := leaf_need_le head
      rw [length_append]
      omega
    have hread : readTerm py data _ _ _ = _ :=
      readTerm_leaf (binaryToTermAt py data fuel) hhead h hneed
    obtain ⟨l, hl⟩ := head.bytes_eq
    refine ⟨head.tag, ?_, ?_⟩
    · rw [hl] at h
      exact byteAt_eq h
    · rw [hread, take_left' hbody, bytes, length_append, hbody, Nat.add_assoc, value]
  | sequence s l ih =>
    refine readBy_of_readTerm (fun fuel i rest hfuel h => ?_) fuel
    obtain ⟨hs, hl⟩ := hfits
    rw [bytes, append_assoc] at h
    exact readTerm_sequence hs (fun f hf => ih f hf (fitsList_iff.mp hl f hf) fuel) hfuel h
  | map l ih =>
    refine readBy_of_readTerm (fun fuel i rest hfuel h => ?_) fuel
    obtain ⟨hlen, hl⟩ := hfits
    rw [bytes, append_assoc] at h
    have hread : ∀ x ∈ l, ReadBy py data fuel (binaryToTermAt py data fuel) x.1 ∧
        ReadBy py data fuel (binaryToTermAt py data fuel) x.2 := fun x hx =>
      ⟨(ih x hx).1 (fitsEntries_iff.mp hl x hx).1 fuel,
        (ih x hx).2 (fitsEntries_iff.mp hl x hx).2 fuel⟩
    have hpairs := readPairs_eq hread (by omega) (drop_header' h) []
    refine ⟨.mapExt, byteAt_eq h, ?_⟩
    show (unpackUInt data 4 (i + 1) >>= fun length => _) = _
    rw [unpackUInt_eq (drop_header h) hlen, ok_bind, hpairs, value, bytes, length_append,
      length_header]
    cases valueEntries py l [] with
    | error e => rfl
    | ok pairs =>
      show Except.ok (i + 1 + 4 + _, _) = Except.ok (i + (4 + 1 + _), _)
      congr 2
      omega
  | exportFun form =>
    refine readBy_of_readTerm (fun fuel i rest hfuel h => ?_) fuel
    refine ⟨.exportExt, byteAt_eq h, ?_⟩
    have hdrop : data.drop (i + 1) = form.bytes ++ rest := drop_succ h
    rw [readTerm_export hfits hdrop, value, bytes, length_cons]
    cases form.check with
    | error e => rfl
    | ok u =>
      show Except.ok (i + 1 + _, _) = Except.ok (i + (_ + 1), _)
      congr 2
      omega
  | function head l ih =>
    refine readBy_of_readTerm (fun fuel i rest hfuel h => ?_) fuel
    obtain ⟨hlen, hhead, hl⟩ := hfits
    have hdrop : data.drop (i + 1) =
        bigEndian 4 l.length ++ (head.bytes ++ bytesList l) ++ rest := drop_succ h
    refine ⟨.funExt, byteAt_eq h, ?_⟩
    rw [readTerm_fun hlen hhead (fun f hf => ih f hf (fitsList_iff.mp hl f hf) fuel) hfuel hdrop]
    refine congrArg (fun j => Except.map (fun t => (j, t)) (value py (.function head l))) ?_
    rw [bytes, header, cons_append, length_cons]
    omega

/-- **`binary_to_term`** of a form. -/
theorem binaryToTerm_eq (f : Form) (hfits : f.Fits) :
    binaryToTerm py (131 :: f.bytes) = (value py f).mapError caught := by
  have hlen : ¬ (131 :: f.bytes : Binary).length ≤ 1 := by
    have hpos := length_pos_iff.mpr f.bytes_ne_nil
    rw [length_cons]
    omega
  have hread : binaryToTermAt py _ _ _ = _ :=
    binaryToTermAt_eq _ f hfits (131 :: f.bytes : Binary).length 1 [] (Nat.lt_succ_self _)
      (append_nil _).symm
  rw [binaryToTerm, wholeTerm.eq_def, if_neg hlen, if_neg (by simp), hread]
  cases value py f with
  | error e => rfl
  | ok t =>
    show (if 1 + f.bytes.length ≠ (131 :: f.bytes : Binary).length then _ else _) = _
    rw [if_neg (by rw [length_cons]; omega)]
    rfl

end Form

end CloudI.ApiPython.Erlang
