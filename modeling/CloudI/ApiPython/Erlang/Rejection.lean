import CloudI.ApiPython.Erlang.Readings
import CloudI.ApiPython.Erlang.RoundTrip
import CloudI.ApiPython.Erlang.Unambiguous

/-!
# ApiPython.Erlang.Rejection

`binary_to_term` reads all of the data or raises a `ParseException`, up to the faults; and these do
raise other exceptions.
-/

namespace CloudI.ApiPython.Erlang

open Binary CloudI.Except Unpack List

variable {φ : Type} {py : Python φ} {data b rest : Binary} {i j n fuel : Nat} {e : Exception}
variable {limit : Nat → Binary → Bool} {d : Nat}

/-! ## loops behind forms -/

variable {ts : List (Term φ)} {l : List Form} {x : Except Exception Binary}

theorem readSequence_skip (hfits : Form.FitsList l) (hvalues : Form.valueList py l = .ok ts)
    (hfuel : data.length < fuel + i) (hdrop : data.drop i = Form.bytesList l ++ b) :
    readSequence (binaryToTermAt py data fuel) (l.length + n) i =
      (readSequence (binaryToTermAt py data fuel) n (i + (Form.bytesList l).length)).map
        fun y => (y.1, ts ++ y.2) := by
  induction l generalizing i ts with
  | nil =>
    cases hvalues
    rw [length_nil, Nat.zero_add]
    show _ = (readSequence (binaryToTermAt py data fuel) n i).map fun y => (y.1, y.2)
    cases readSequence (binaryToTermAt py data fuel) n i <;> rfl
  | cons f l ih =>
    obtain ⟨t, ht, hvalues⟩ := ok_of_bind hvalues
    obtain ⟨ts', hts, hvalues⟩ := ok_of_bind hvalues
    cases hvalues
    rw [Form.bytesList, append_assoc] at hdrop
    have hread := Form.binaryToTermAt_eq py f hfits.1 fuel i _ hfuel hdrop
    rw [ht] at hread
    have hrest := ih hfits.2 hts (i := i + f.bytes.length) (by omega) (drop_add hdrop rfl)
    rw [length_cons, Nat.add_right_comm, readSequence, hread]
    show (readSequence (binaryToTermAt py data fuel) (l.length + n) _ >>= fun y => _) = _
    rw [hrest, Form.bytesList, length_append, ← Nat.add_assoc]
    cases readSequence (binaryToTermAt py data fuel) n _ <;> rfl

/-- The loop over the entries of a map goes on behind entries. -/
theorem readPairs_skip {l : List (Form × Form)} (hfits : Form.FitsEntries l)
    {pairs pairs' : List (Term φ × Term φ)}
    (hvalues : Form.valueEntries py l pairs = .ok pairs') (hfuel : data.length < fuel + i)
    (hdrop : data.drop i = Form.bytesEntries l ++ b) :
    readPairs py (binaryToTermAt py data fuel) (l.length + n) i pairs =
      readPairs py (binaryToTermAt py data fuel) n
        (i + (Form.bytesEntries l).length) pairs' := by
  induction l generalizing i pairs with
  | nil =>
    cases hvalues
    rw [length_nil, Nat.zero_add]
    rfl
  | cons x l ih =>
    obtain ⟨k, v⟩ := x
    obtain ⟨key, hkey, hvalues⟩ := ok_of_bind hvalues
    obtain ⟨value, hvalue, hvalues⟩ := ok_of_bind hvalues
    obtain ⟨pairs₁, hset, hvalues⟩ := ok_of_bind hvalues
    rw [Form.bytesEntries, append_assoc, append_assoc] at hdrop
    have hdrop' := drop_add hdrop rfl
    have hk := Form.binaryToTermAt_eq py k hfits.1 fuel i _ hfuel hdrop
    have hv := Form.binaryToTermAt_eq py v hfits.2.1 fuel (i + k.bytes.length) _
      (by omega) hdrop'
    have hl := ih hfits.2.2 hvalues (i := i + k.bytes.length + v.bytes.length) (by omega)
      (drop_add hdrop' rfl)
    rw [hkey] at hk
    rw [hvalue] at hv
    rw [length_cons, Nat.add_right_comm, readPairs, hk]
    show (binaryToTermAt py data fuel (i + k.bytes.length) >>= fun y => _) = _
    rw [hv]
    show (setItem py pairs (keyOf key) value >>= fun pairs => _) = _
    rw [hset, ok_bind, hl, Form.bytesEntries, length_append, length_append]
    simp only [Nat.add_assoc]

theorem readTerm_map {read : Nat → Except Exception (Nat × Term φ)} (hn : n < 256 ^ 4)
    (hdrop : data.drop i = header .mapExt 4 n ++ rest) :
    readTerm py data read (i + 1) .mapExt =
      (readPairs py read n (i + 1 + 4) []).map fun y => (y.1, .dict y.2) := by
  show (unpackUInt data 4 (i + 1) >>= fun length => _) = _
  rw [unpackUInt_eq (drop_header hdrop) hn]
  show (readPairs py read n (i + 1 + 4) [] >>= fun y => _) = _
  cases readPairs py read n (i + 1 + 4) [] <;> rfl

/-! ## terms that are cut -/

/-- **A term that is cut is read**, and leaves a dead index. -/
theorem Cut.read (h : Cut py b) (hfuel : data.length < fuel + i) (hdrop : data.drop i = b) :
    ∃ j t, binaryToTermAt py data fuel i = .ok (j, t) ∧ Dead data j := by
  induction h generalizing i fuel with
  | leaf hfits hneed hsize hok =>
    rename_i head body
    obtain ⟨l, hl⟩ := head.bytes_eq
    have htag : data.drop i = head.tag.code :: (l ++ body) := by
      rw [hdrop, hl]
      rfl
    obtain ⟨fuel, rfl, hterm⟩ := Form.binaryToTermAt_tag py htag hfuel
    obtain ⟨t, ht⟩ := exists_of_isOk hok
    have htake : body.take head.size = body := take_of_length_le (Nat.le_of_lt hsize)
    rw [readTerm_leaf _ hfits hdrop hneed, htake, ht] at hterm
    refine ⟨_, t, hterm, .inl ?_⟩
    have hlen := lt_length_of_drop htag (cons_ne_nil _ _)
    rw [hl]
    rw [length_cons, length_append] at hlen
    rw [length_cons]
    omega
  | newFun hn =>
    rename_i n rest
    obtain ⟨fuel, rfl, hterm⟩ := Form.binaryToTermAt_tag py hdrop hfuel
    have hread : readTerm py data (binaryToTermAt py data fuel) (i + 1) .newFunExt =
        .ok (i + 1 + n, .function Tag.newFunExt.code (slice data (i + 1) (i + 1 + n))) := by
      show (unpackUInt data 4 (i + 1) >>= fun length => _) = _
      rw [unpackUInt_eq (drop_header hdrop) (Nat.lt_trans hn (by decide))]
      rfl
    exact ⟨_, _, hterm.trans hread, dead_newFun hdrop hn⟩
  | sequence hs hfits hok _hcut ih =>
    rename_i s l b
    have htag : ∃ r, data.drop i = s.tag.code :: r := by
      rw [hdrop]
      cases s <;> exact ⟨_, rfl⟩
    obtain ⟨r, htag⟩ := htag
    obtain ⟨fuel, rfl, hterm⟩ := Form.binaryToTermAt_tag py htag hfuel
    obtain ⟨ts, hts⟩ := exists_of_isOk hok
    have hstart := drop_add hdrop rfl
    have hpos : 0 < (s.bytes (l.length + 1)).length := by
      cases s <;> exact Nat.succ_pos _
    obtain ⟨j, t, hread, hdead⟩ := ih
      (i := i + (s.bytes (l.length + 1)).length + (Form.bytesList l).length)
      (by omega : _ < fuel + _)
      (drop_add hstart rfl)
    have hone : readSequence (binaryToTermAt py data fuel) 1
        (i + (s.bytes (l.length + 1)).length + (Form.bytesList l).length) = .ok (j, [t]) := by
      rw [readSequence, hread]
      rfl
    rw [readTerm_sequence hs hdrop, readSequence_skip hfits hts (by omega) hstart, hone] at hterm
    exact ⟨j, _, hterm, hdead⟩
  | map hn hfits hpairs hk hkey hok _hcut ih =>
    rename_i l pairs k key b
    obtain ⟨fuel, rfl, hterm⟩ := Form.binaryToTermAt_tag py hdrop hfuel
    have hstart := drop_header' hdrop
    have hkdrop := drop_add hstart rfl
    obtain ⟨j, t, hread, hdead⟩ := ih
      (i := i + 1 + 4 + (Form.bytesEntries l).length + k.bytes.length)
      (by omega : _ < fuel + _)
      (drop_add hkdrop rfl)
    have hkread := Form.binaryToTermAt_eq py k hk fuel
      (i + 1 + 4 + (Form.bytesEntries l).length) _ (by omega) hkdrop
    rw [hkey] at hkread
    obtain ⟨pairs', hset⟩ := exists_setItem hok t
    have hone : readPairs py (binaryToTermAt py data fuel) 1
        (i + 1 + 4 + (Form.bytesEntries l).length) pairs = .ok (j, pairs') := by
      rw [readPairs, hkread]
      show (binaryToTermAt py data fuel _ >>= fun y => _) = _
      rw [hread]
      show (setItem py pairs (keyOf key) t >>= fun pairs => _) = _
      rw [hset]
      rfl
    rw [readTerm_map hn hdrop, readPairs_skip hfits hpairs (by omega) hstart, hone] at hterm
    exact ⟨j, _, hterm, hdead⟩
  | function hn hhead hcheck hfits hok _hcut ih =>
    rename_i head l b
    obtain ⟨fuel, rfl, hterm⟩ := Form.binaryToTermAt_tag py hdrop hfuel
    obtain ⟨ts, hts⟩ := exists_of_isOk hok
    have hparts := drop_header hdrop
    have hfree := drop_add (drop_add hparts (length_bigEndian 4 _)) rfl
    obtain ⟨j, t, hread, hdead⟩ := ih
      (i := i + 1 + 4 + head.bytes.length + (Form.bytesList l).length)
      (by omega : _ < fuel + _)
      (drop_add hfree rfl)
    have hone : readSequence (binaryToTermAt py data fuel) 1
        (i + 1 + 4 + head.bytes.length + (Form.bytesList l).length) = .ok (j, [t]) := by
      rw [readSequence, hread]
      rfl
    rw [Form.readTerm_funHead hn hhead hparts, hcheck, ok_bind,
      readSequence_skip hfits hts (by omega) hfree, hone] at hterm
    exact ⟨j, _, hterm, hdead⟩

theorem ReadsAt.read (h : ReadsAt py b) (hfuel : data.length < fuel + i)
    (hdrop : data.drop i = b) : ∃ j t, binaryToTermAt py data fuel i = .ok (j, t) := by
  rcases h with ⟨f, rest, hfits, hok, rfl⟩ | hcut
  · obtain ⟨t, ht⟩ := exists_of_isOk hok
    have hread := Form.binaryToTermAt_eq py f hfits fuel i _ hfuel hdrop
    rw [ht] at hread
    exact ⟨_, t, hread⟩
  · obtain ⟨j, t, hread, -⟩ := hcut.read hfuel hdrop
    exact ⟨j, t, hread⟩

/-! ## faults -/

theorem AtomFaults.read (h : AtomFaults b e) (hdrop : data.drop i = b) :
    binaryToAtom data i = .error e := by
  obtain ⟨head, rest, hfits, hneed, rfl, hvalue⟩ := h
  rw [binaryToAtom_eq hfits hdrop hneed, hvalue]
  rfl

theorem AtomFaults.pid (new : Bool) (h : AtomFaults b e)
    (hdrop : data.drop i = (Node.pid new).tag.code :: b) :
    binaryToPid (φ := φ) data i = .error e := by
  have hatom : binaryToAtom data (i + 1) = .error e := h.read (drop_succ hdrop)
  rw [binaryToPid, byteAt_eq hdrop, ok_bind, Tag.ofByte_code]
  cases new with
  | false =>
    show readPid data 1 (i + 1) = _
    rw [readPid, hatom]
    rfl
  | true =>
    show readPid data 4 (i + 1) = _
    rw [readPid, hatom]
    rfl

theorem binaryToPid_full {node : AtomHead} {body : Binary} {v : AtomValue} (new : Bool)
    (hnode : node.Fits) (hbody : body.length = node.size + (4 + 4 + creationSize new))
    (hv : node.value (body.take node.size) = .ok v)
    (hdrop : data.drop i = ((Node.pid new).tag.code :: (node.bytes ++ body)) ++ b) :
    binaryToPid (φ := φ) data i =
      .ok (i + ((Node.pid new).tag.code :: (node.bytes ++ body) : Binary).length,
        (Node.pid new).value v (((body ++ b).drop node.size).take (4 + 4 + creationSize new))) := by
  have hatomdrop : data.drop (i + 1) = node.bytes ++ (body ++ b) :=
    (drop_succ hdrop).trans (append_assoc _ _ _)
  have hneed : node.need ≤ (body ++ b).length := by
    have hle : node.need ≤ node.size := by
      cases node <;> simp [AtomHead.need, AtomHead.size]
    rw [length_append]
    omega
  have hread := readPid_eq (φ := φ) new hnode hatomdrop hneed
  have htake : (body ++ b).take node.size = body.take node.size :=
    take_append_of_le_length (by omega)
  have hindex : i + 1 + node.bytes.length + node.size + (4 + 4 + creationSize new) =
      i + ((Node.pid new).tag.code :: (node.bytes ++ body) : Binary).length := by
    rw [length_cons, length_append, hbody]
    omega
  rw [htake, hv, hindex] at hread
  rw [binaryToPid, byteAt_eq hdrop, ok_bind, Tag.ofByte_code]
  cases new <;> exact hread

/-! ## exceptions that are not caught -/

/-- Every exception of a computation is raised as it is. -/
def Uncaught (x : Except Exception α) : Prop :=
  ∀ e, x = .error e → caught e ≠ .parseException

theorem uncaught_ok (a : α) : Uncaught (.ok a) := nofun

theorem uncaught_error {e : Exception} (h : caught e ≠ .parseException) :
    Uncaught (.error e : Except Exception α) := by
  intro e' heq
  cases heq
  exact h

theorem Uncaught.bind {x : Except Exception α} {f : α → Except Exception β} (hx : Uncaught x)
    (hf : ∀ a, Uncaught (f a)) : Uncaught (x >>= f) := by
  cases x with
  | ok a => exact hf a
  | error e => exact uncaught_error (hx e rfl)

theorem Uncaught.map {x : Except Exception α} (hx : Uncaught x) (f : α → β) :
    Uncaught (x.map f) := by
  cases x with
  | ok a => exact uncaught_ok (f a)
  | error e => exact uncaught_error (hx e rfl)

theorem uncaught_output : Uncaught (.error .outputException : Except Exception α) :=
  uncaught_error (by decide)

theorem uncaught_atomBinary (v : AtomValue) : Uncaught (atomBinary v) := by
  cases v with
  | cache number => exact uncaught_ok _
  | _ =>
    simp only [atomBinary]
    split
    · exact uncaught_ok _
    · split
      · exact uncaught_ok _
      · exact uncaught_output

theorem uncaught_stringToBinary (b : Binary) : Uncaught (stringToBinary b) := by
  rw [stringToBinary]
  repeat' split
  all_goals first | exact uncaught_ok _ | exact uncaught_output

theorem uncaught_longToBinary (i : Int) : Uncaught (longToBinary i) := by
  rw [longToBinary]
  split
  · exact uncaught_ok _
  · simp only [bignumToBinary]
    repeat' split
    all_goals first | exact uncaught_ok _ | exact uncaught_output

theorem uncaught_listBinary (length : Nat) (improper : Bool) (hx : Uncaught x) :
    Uncaught (listBinary length improper x) := by
  rw [listBinary]
  repeat' split
  all_goals first | exact uncaught_ok _ | exact uncaught_output | exact hx.bind fun _ => uncaught_ok _

theorem uncaught_tupleToBinary (length : Nat) (hx : Uncaught x) :
    Uncaught (tupleToBinary length x) := by
  rw [tupleToBinary]
  repeat' split
  all_goals first | exact uncaught_output | exact hx.bind fun _ => uncaught_ok _

theorem uncaught_dictToBinary (length : Nat) (hx : Uncaught x) :
    Uncaught (dictToBinary length x) := by
  rw [dictToBinary]
  split
  · exact hx.bind fun _ => uncaught_ok _
  · exact uncaught_output

theorem uncaught_termsBinary {l : List (Term φ)}
    (h : ∀ t ∈ l, Uncaught (termBinary py t)) : Uncaught (termsBinary py l) := by
  induction l with
  | nil => exact uncaught_ok _
  | cons t l ih =>
    have hl := ih fun x hx => h x (mem_cons_of_mem t hx)
    exact (h t mem_cons_self).bind fun _ => hl.bind fun _ => uncaught_ok _

theorem uncaught_entriesBinary {l : List (Term φ × Term φ)}
    (h : ∀ x ∈ l, Uncaught (termBinary py x.1) ∧ Uncaught (termBinary py x.2)) :
    Uncaught (entriesBinary py l) := by
  induction l with
  | nil => exact uncaught_ok _
  | cons x l ih =>
    obtain ⟨hk, hv⟩ := h x mem_cons_self
    have hl := ih fun y hy => h y (mem_cons_of_mem x hy)
    exact hk.bind fun _ => hv.bind fun _ => hl.bind fun _ => uncaught_ok _

/-- `term_to_binary` raises no exception that `binary_to_term` catches. -/
theorem uncaught_termBinary (t : Term φ) : Uncaught (termBinary py t) := by
  induction t using Term.induct with
  | bytes value => exact uncaught_stringToBinary value
  | str value => exact uncaught_stringToBinary _
  | int i => exact uncaught_longToBinary i
  | bool value => exact uncaught_atomBinary (.bytes (ofText (if value then "true" else "false")))
  | float x => exact uncaught_ok _
  | none => exact uncaught_atomBinary (.bytes (ofText "undefined"))
  | list l ih => exact uncaught_listBinary _ _ (uncaught_termsBinary ih)
  | tuple l ih => exact uncaught_tupleToBinary _ (uncaught_termsBinary ih)
  | dict l ih => exact uncaught_dictToBinary _ (uncaught_entriesBinary ih)
  | frozendict l ih => exact uncaught_dictToBinary _ (uncaught_entriesBinary ih)
  | atom v => exact uncaught_atomBinary v
  | binary value bits =>
    rw [termBinary, binaryBinary]
    repeat' split
    all_goals first | exact uncaught_ok _ | exact uncaught_output
  | function tag value => exact uncaught_ok _
  | erlangList l improper ih => exact uncaught_listBinary _ _ (uncaught_termsBinary ih)
  | pid node id serial creation =>
    rw [termBinary, pidBinary]
    repeat' split
    all_goals first
      | exact uncaught_output | exact (uncaught_atomBinary node).bind fun _ => uncaught_ok _
  | port node id creation =>
    rw [termBinary, portBinary]
    repeat' split
    all_goals first
      | exact uncaught_output | exact (uncaught_atomBinary node).bind fun _ => uncaught_ok _
  | reference node id creation =>
    simp only [termBinary, referenceBinary]
    repeat' split
    all_goals first
      | exact uncaught_output | exact (uncaught_atomBinary node).bind fun _ => uncaught_ok _

theorem uncaught_objectEquals (x y : Term φ) : Uncaught (objectEquals py x y) := by
  refine (uncaught_termBinary x).bind fun b => ?_
  split
  · exact (uncaught_termBinary y).bind fun b' => uncaught_ok _
  · exact uncaught_error (by decide)

theorem uncaught_leafEquals (x y : Term φ) : Uncaught (leafEquals py x y) := by
  rw [leafEquals.eq_def]
  split
  · exact uncaught_objectEquals x y
  · split
    · exact uncaught_objectEquals y x
    · split <;> exact uncaught_ok _

theorem uncaught_allM {f : α → Except Exception Bool} (h : ∀ x, Uncaught (f x)) (l : List α) :
    Uncaught (l.allM f) := by
  induction l with
  | nil => exact uncaught_ok _
  | cons x l ih =>
    refine (h x).bind fun b => ?_
    cases b with
    | true => exact ih
    | false => exact uncaught_ok _

theorem uncaught_lookup {same : Term φ → Bool} {key value : Term φ → Except Exception Bool}
    (hkey : ∀ x, Uncaught (key x)) (hvalue : ∀ x, Uncaught (value x))
    (l : List (Term φ × Term φ)) : Uncaught (lookup same key value l) := by
  induction l with
  | nil => exact uncaught_ok _
  | cons x l ih =>
    rw [lookup]
    split
    · refine (hkey x.1).bind fun b => ?_
      cases b with
      | true => exact hvalue x.2
      | false => exact ih
    · exact ih

section

variable {l : List (Term φ × Term φ)}

theorem uncaught_equalsTerms {l : List (Term φ)}
    (h : ∀ x ∈ l, ∀ turned y, Uncaught (equals py turned x y)) (turned : Bool)
    (l' : List (Term φ)) : Uncaught (equalsTerms py turned l l') := by
  induction l generalizing l' with
  | nil => exact uncaught_ok _
  | cons x l ih =>
    cases l' with
    | nil => exact uncaught_ok _
    | cons y l' =>
      refine (h x mem_cons_self turned y).bind fun b => ?_
      cases b with
      | true => exact ih (fun z hz => h z (mem_cons_of_mem x hz)) l'
      | false => exact uncaught_ok _

variable (h : ∀ x ∈ l, (∀ turned y, Uncaught (equals py turned x.1 y)) ∧
  ∀ turned y, Uncaught (equals py turned x.2 y))

include h

theorem uncaught_itemsIn (l' : List (Term φ × Term φ)) : Uncaught (itemsIn py l' l) := by
  induction l with
  | nil => exact uncaught_ok _
  | cons x l ih =>
    obtain ⟨hk, hv⟩ := h x mem_cons_self
    refine (uncaught_lookup (hk true) (hv true) l').bind fun b => ?_
    cases b with
    | true => exact ih fun z hz => h z (mem_cons_of_mem x hz)
    | false => exact uncaught_ok _

theorem uncaught_hasItem (item : Term φ × Term φ) : Uncaught (hasItem py item l) := by
  induction l with
  | nil => exact uncaught_ok _
  | cons x l ih =>
    obtain ⟨hk, hv⟩ := h x mem_cons_self
    have hl := ih fun z hz => h z (mem_cons_of_mem x hz)
    rw [hasItem]
    split
    · refine (hk false item.1).bind fun b => ?_
      cases b with
      | true => exact hv false item.2
      | false => exact hl
    · exact hl

end

variable (py) in
/-- `==` raises no exception that `binary_to_term` catches. -/
theorem uncaught_equals (x : Term φ) (turned : Bool) (y : Term φ) :
    Uncaught (equals py turned x y) := by
  have hleaf : ∀ (x : Term φ) (turned : Bool) (y : Term φ),
      Uncaught (if turned then leafEquals py y x else leafEquals py x y) := by
    intro x turned y
    split
    · exact uncaught_leafEquals y x
    · exact uncaught_leafEquals x y
  induction x using Term.induct generalizing turned y with
  | tuple l ih =>
    cases y with
    | tuple l' => exact uncaught_equalsTerms (fun x hx turned y => ih x hx turned y) turned l'
    | _ => exact hleaf _ turned _
  | frozendict l ih =>
    cases y with
    | frozendict l' =>
      rw [equals]
      split
      · exact uncaught_ok _
      · split
        · exact uncaught_allM (uncaught_hasItem ih) l'
        · exact uncaught_itemsIn ih l'
    | _ => exact hleaf _ turned _
  | _ => exact hleaf _ turned y

theorem uncaught_sameKey (x key : Term φ) : Uncaught (sameKey py x key) := by
  rw [sameKey]
  split
  · exact uncaught_equals py x false key
  · exact uncaught_ok _

theorem uncaught_setEntry (key value : Term φ) (pairs : List (Term φ × Term φ)) :
    Uncaught (setEntry py key value pairs) := by
  induction pairs with
  | nil => exact uncaught_ok _
  | cons x l ih =>
    refine (uncaught_sameKey x.1 key).bind fun b => ?_
    cases b with
    | true => exact uncaught_ok _
    | false => exact ih.bind fun _ => uncaught_ok _

theorem uncaught_hash (t : Term φ) : Uncaught (hash py t) := by
  have hobject : ∀ t : Term φ, Uncaught ((termBinary py t).map fun _ => ()) := fun t =>
    (uncaught_termBinary t).map _
  induction t using Term.induct with
  | list l => exact uncaught_error (by decide)
  | dict l => exact uncaught_error (by decide)
  | tuple l ih =>
    show Uncaught (hashTerms py l)
    induction l with
    | nil => exact uncaught_ok _
    | cons t l ih' =>
      have hl := ih' fun x hx => ih x (mem_cons_of_mem t hx)
      exact (ih t mem_cons_self).bind fun _ => hl
  | frozendict l ih =>
    have hentries : ∀ items, Uncaught (hashEntries py items l) := by
      induction l with
      | nil => exact fun _ => uncaught_ok _
      | cons x l ih' =>
        obtain ⟨hk, hv⟩ := ih x mem_cons_self
        have hl := ih' fun y hy => ih y (mem_cons_of_mem x hy)
        exact fun items => hk.bind fun _ => hv.bind fun _ =>
          (uncaught_setEntry _ _ items).bind fun items => hl items
    exact hentries []
  | atom v => exact hobject (.atom v)
  | binary value bits => exact hobject (.binary value bits)
  | function tag value => exact hobject (.function tag value)
  | erlangList l improper => exact hobject (.erlangList l improper)
  | pid node id serial creation => exact hobject (.pid node id serial creation)
  | port node id creation => exact hobject (.port node id creation)
  | reference node id creation => exact hobject (.reference node id creation)
  | _ => exact uncaught_ok _

theorem KeyFails.uncaught {pairs : List (Term φ × Term φ)} {key : Term φ}
    (h : KeyFails py pairs key e) : caught e ≠ .parseException := by
  rcases h with hhash | ⟨-, before, x, after, -, -, hx⟩
  · exact uncaught_hash key e hhash
  · exact uncaught_sameKey x.1 key e hx

theorem uncaught_atomValue (head : AtomHead) (body : Binary) : Uncaught (head.value body) := by
  match head with
  | .cacheRef => exact uncaught_ok _
  | .name false _ _ => exact uncaught_ok _
  | .name true _ _ =>
    rw [AtomHead.value, decodeUtf8]
    split
    · exact uncaught_ok _
    · exact uncaught_error (by decide)

theorem uncaught_leafValue (head : Leaf) (body : Binary) : Uncaught (head.value py body) := by
  match head with
  | .float =>
    rw [Leaf.value, parseFloat]
    split
    · exact uncaught_ok _
    · exact uncaught_error (by decide)
  | .atom (.name false true _) => exact uncaught_ok _
  | .atom .cacheRef => exact uncaught_ok _
  | .atom (.name false false _) => exact uncaught_ok _
  | .atom (.name true small n) => exact (uncaught_atomValue (.name true small n) body).map _
  | .node kind head => exact (uncaught_atomValue head _).map _
  | .newFloat => exact uncaught_ok _
  | .bitBinary _ _ => exact uncaught_ok _
  | .binary _ => exact uncaught_ok _
  | .string _ => exact uncaught_ok _
  | .smallInteger => exact uncaught_ok _
  | .integer => exact uncaught_ok _
  | .nil => exact uncaught_ok _
  | .bignum _ _ => exact uncaught_ok _
  | .newFun _ => exact uncaught_ok _

theorem AtomFaults.uncaught (h : AtomFaults b e) : caught e ≠ .parseException := by
  obtain ⟨head, rest, -, -, -, hvalue⟩ := h
  exact uncaught_atomValue head _ e hvalue

/-! ## the recursion ends -/

variable {read read' : Nat → Except Exception (Nat × Term φ)}

theorem PartReading.index_le {x : Except Exception (Nat × α)} {there : Binary → Prop}
    {fault : Exception → Prop} (h : PartReading data i x there fault) {a : α}
    (hx : x = .ok (j, a)) : i ≤ j := by
  rcases h.ok j a hx with ⟨b, rest, -, -, rfl⟩ | ⟨-, hle⟩
  · exact Nat.le_add_right _ _
  · exact hle

theorem index_le_sequence (hle : ∀ i j t, read i = .ok (j, t) → i ≤ j)
    (h : readSequence read n i = .ok (j, ts)) : i ≤ j := by
  induction n generalizing i ts with
  | zero =>
    cases h
    exact Nat.le_refl _
  | succ n ih =>
    obtain ⟨⟨k, t⟩, hk, h⟩ := ok_of_bind h
    obtain ⟨⟨k', ts'⟩, hk', h⟩ := ok_of_bind h
    cases h
    exact Nat.le_trans (hle i k t hk) (ih hk')

/-- Two computations are the same, or the first one comes to the limit on recursion where `P`. -/
def Near (P : Prop) (x y : Except Exception α) : Prop :=
  x = y ∨ P ∧ x = .error .recursionError

variable {P : Prop}

theorem Near.refl (x : Except Exception α) : Near P x x := .inl rfl

theorem Near.bind {x y : Except Exception α} {f g : α → Except Exception β} (h : Near P x y)
    (hf : ∀ a, y = .ok a → Near P (f a) (g a)) : Near P (x >>= f) (y >>= g) := by
  rcases h with rfl | ⟨hP, rfl⟩
  · cases x with
    | error e => exact .refl _
    | ok a => exact hf a rfl
  · exact .inr ⟨hP, rfl⟩

theorem le_of_binaryToInteger {m : Int} (h : binaryToInteger data i = .ok (j, m)) : i ≤ j := by
  rcases binaryToInteger_cases data i with ⟨form, rest, m', -, -, hok⟩ | ⟨e, he, -⟩
  · cases h.symm.trans hok
    exact Nat.le_add_right _ _
  · cases h.symm.trans he

section

variable (hnear : ∀ k, i ≤ k → Near P (read k) (read' k))
  (hle : ∀ i j t, read' i = .ok (j, t) → i ≤ j)

include hnear hle

theorem readSequence_near : Near P (readSequence read n i) (readSequence read' n i) := by
  induction n generalizing i with
  | zero => exact .refl _
  | succ n ih =>
    refine (hnear i (Nat.le_refl i)).bind fun x hx => ?_
    obtain ⟨k, t⟩ := x
    exact (ih fun m hm => hnear m (Nat.le_trans (hle i k t hx) hm)).bind fun y _ => .refl _

theorem readPairs_near (pairs : List (Term φ × Term φ)) :
    Near P (readPairs py read n i pairs) (readPairs py read' n i pairs) := by
  induction n generalizing i pairs with
  | zero => exact .refl _
  | succ n ih =>
    refine (hnear i (Nat.le_refl i)).bind fun x hx => ?_
    obtain ⟨k, key⟩ := x
    have hk := hle i k key hx
    refine (hnear k hk).bind fun y hy => ?_
    obtain ⟨m, value⟩ := y
    have hm := Nat.le_trans hk (hle k m value hy)
    exact (Near.refl (setItem py pairs (keyOf key) value)).bind fun pairs _ =>
      ih (fun l hl => hnear l (Nat.le_trans hm hl)) pairs

theorem readTerm_near (tag : Tag) :
    Near P (readTerm py data read i tag) (readTerm py data read' i tag) := by
  have hfrom : ∀ {k}, i ≤ k → ∀ m, k ≤ m → Near P (read m) (read' m) := fun hk m hm =>
    hnear m (Nat.le_trans hk hm)
  cases tag with
  | smallTupleExt =>
    refine (Near.refl (byteAt data i)).bind fun length _ => ?_
    exact (readSequence_near (hfrom (Nat.le_succ i)) hle).bind fun y _ => .refl _
  | largeTupleExt =>
    refine (Near.refl (unpackUInt data 4 i)).bind fun length _ => ?_
    exact (readSequence_near (hfrom (Nat.le_add_right i 4)) hle).bind fun y _ => .refl _
  | listExt =>
    refine (Near.refl (unpackUInt data 4 i)).bind fun length _ => ?_
    refine (readSequence_near (hfrom (Nat.le_add_right i 4)) hle).bind fun x hx => ?_
    obtain ⟨k, ts⟩ := x
    have hk := index_le_sequence hle hx
    exact (hnear k (by omega)).bind fun y _ => .refl _
  | mapExt =>
    refine (Near.refl (unpackUInt data 4 i)).bind fun length _ => ?_
    exact (readPairs_near (hfrom (Nat.le_add_right i 4)) hle []).bind fun y _ => .refl _
  | funExt =>
    refine (Near.refl (unpackUInt data 4 i)).bind fun numfree _ => ?_
    refine (Near.refl (binaryToPid (φ := φ) data (i + 4))).bind fun x hx => ?_
    obtain ⟨j₁, t⟩ := x
    have hj₁ := (reading_pid data (i + 4)).index_le hx
    refine (Near.refl (binaryToAtom data j₁)).bind fun y hy => ?_
    obtain ⟨j₂, v⟩ := y
    have hj₂ := (reading_atom data j₁).index_le hy
    refine (Near.refl (binaryToInteger data j₂)).bind fun z hz => ?_
    obtain ⟨j₃, m⟩ := z
    have hj₃ := le_of_binaryToInteger hz
    refine (Near.refl (binaryToInteger data j₃)).bind fun w hw => ?_
    obtain ⟨j₄, m'⟩ := w
    have hj₄ := le_of_binaryToInteger hw
    exact (readSequence_near (hfrom (by omega)) hle).bind fun y _ => .refl _
  | _ => exact .refl _

end

theorem index_le_limited {t : Term φ} (h : limitedTermAt py data limit d fuel i = .ok (j, t)) :
    i ≤ j := by
  have hreading := reading_limitedTermAt py data limit d fuel i
  rw [h] at hreading
  exact hreading.index_le

variable (py data limit) in
/-- **The limit on recursion** is all that the decoders differ in. -/
theorem limitedTermAt_near (d fuel i : Nat) :
    Near True (limitedTermAt py data limit d fuel i) (binaryToTermAt py data fuel i) := by
  induction fuel generalizing d i with
  | zero => exact .refl _
  | succ fuel ih =>
    refine (Near.refl (byteAt data i)).bind fun x _ => ?_
    cases Tag.ofByte x with
    | none => exact .refl _
    | some tag =>
      show Near True (if limit d (data.drop i) = true then _ else _) _
      split
      · exact .inr ⟨trivial, rfl⟩
      · refine readTerm_near (fun k _ => ih (d + 1) k) (fun k l t hread => ?_) tag
        rw [← limitedTermAt_never (d := d + 1)] at hread
        exact index_le_limited hread

/-- **The recursion of the code ends**: as much fuel as there are bytes is enough. -/
theorem limitedTermAt_fuel (h : data.length < fuel + i) :
    limitedTermAt py data limit d (fuel + 1) i = limitedTermAt py data limit d fuel i := by
  induction fuel generalizing d i with
  | zero =>
    have hnil : data.drop i = [] := drop_eq_nil_of_le (by omega)
    show (byteAt data i >>= fun _ => _) = Except.error Exception.indexError
    rw [byteAt_nil hnil]
    rfl
  | succ fuel ih =>
    rw [limitedTermAt, limitedTermAt]
    cases byteAt data i with
    | error e => rfl
    | ok x =>
      rw [ok_bind, ok_bind]
      cases Tag.ofByte x with
      | none => rfl
      | some tag =>
        have hsame : Near False (readTerm py data (limitedTermAt py data limit (d + 1) (fuel + 1))
            (i + 1) tag) (readTerm py data (limitedTermAt py data limit (d + 1) fuel) (i + 1) tag) :=
          readTerm_near (fun k hk => .inl (ih (by omega))) (fun k l t hread =>
            index_le_limited hread) tag
        rcases hsame with hsame | ⟨hfalse, -⟩
        · simp only [hsame]
        · exact hfalse.elim

/-! ## faults are raised -/

/-- A computation raises an exception of its own. -/
def Raises (x : Except Exception α) : Prop := ∃ e, x = .error e ∧ caught e ≠ .parseException

theorem Raises.bind {x : Except Exception α} (h : Raises x) (f : α → Except Exception β) :
    Raises (x >>= f) := by
  obtain ⟨e, rfl, he⟩ := h
  exact ⟨e, rfl, he⟩

theorem Raises.map {x : Except Exception α} (h : Raises x) (f : α → β) : Raises (x.map f) := by
  obtain ⟨e, rfl, he⟩ := h
  exact ⟨e, rfl, he⟩

theorem raises_of_uncaught {x : Except Exception α} (h : Uncaught x) (hx : x = .error e) :
    Raises x := ⟨e, hx, h e hx⟩

/-- What is read without a limit is read, or the limit is reached. -/
theorem Near.ok_or {x y : Except Exception α} (h : Near P x y) (hy : y = .ok a) :
    x = .ok a ∨ Raises x := by
  rcases h with rfl | ⟨-, rfl⟩
  · exact .inl hy
  · exact .inr ⟨_, rfl, by decide⟩

section

variable (hnear : ∀ k, Near True (read k) (binaryToTermAt py data fuel k))

include hnear

theorem readForm_or {f : Form} {t : Term φ} (hfits : f.Fits) (hvalue : f.value py = .ok t)
    (hfuel : data.length < fuel + i) (hdrop : data.drop i = f.bytes ++ rest) :
    read i = .ok (i + f.bytes.length, t) ∨ Raises (read i) := by
  have hread := Form.binaryToTermAt_eq py f hfits fuel i rest hfuel hdrop
  rw [hvalue] at hread
  exact (hnear i).ok_or hread

theorem readSequence_raises (hlt : l.length < n) (hfits : Form.FitsList l)
    (hvalues : Form.valueList py l = .ok ts) (hfuel : data.length < fuel + i)
    (hdrop : data.drop i = Form.bytesList l ++ b)
    (hread : Raises (read (i + (Form.bytesList l).length))) : Raises (readSequence read n i) := by
  obtain ⟨m, rfl⟩ : ∃ m, n = m + 1 := ⟨n - 1, by omega⟩
  induction l generalizing i ts m with
  | nil => exact hread.bind _
  | cons f l ih =>
    obtain ⟨t, ht, hvalues⟩ := ok_of_bind hvalues
    obtain ⟨ts', hts, -⟩ := ok_of_bind hvalues
    rw [Form.bytesList, append_assoc] at hdrop
    rw [Form.bytesList, length_append, ← Nat.add_assoc] at hread
    rw [length_cons] at hlt
    rw [readSequence]
    rcases readForm_or hnear hfits.1 ht hfuel hdrop with hok | hraises
    · rw [hok]
      obtain ⟨k, rfl⟩ : ∃ k, m = k + 1 := ⟨m - 1, by omega⟩
      exact (ih hfits.2 hts (by omega) (drop_add hdrop rfl) hread k (by omega)).bind _
    · exact hraises.bind _

/-- The loop over the entries of a map, up to an entry behind forms. -/
theorem readPairs_raises {l : List (Form × Form)} {pairs pairs' : List (Term φ × Term φ)}
    (hlt : l.length < n) (hfits : Form.FitsEntries l)
    (hvalues : Form.valueEntries py l pairs = .ok pairs') (hfuel : data.length < fuel + i)
    (hdrop : data.drop i = Form.bytesEntries l ++ b)
    (hread : ∀ m, Raises (readPairs py read (m + 1) (i + (Form.bytesEntries l).length) pairs')) :
    Raises (readPairs py read n i pairs) := by
  obtain ⟨m, rfl⟩ : ∃ m, n = m + 1 := ⟨n - 1, by omega⟩
  induction l generalizing i pairs m with
  | nil =>
    cases hvalues
    exact hread m
  | cons x l ih =>
    obtain ⟨k, v⟩ := x
    obtain ⟨key, hkey, hvalues⟩ := ok_of_bind hvalues
    obtain ⟨value, hvalue, hvalues⟩ := ok_of_bind hvalues
    obtain ⟨pairs₁, hset, hvalues⟩ := ok_of_bind hvalues
    rw [Form.bytesEntries, append_assoc, append_assoc] at hdrop
    have hdrop' := drop_add hdrop rfl
    rw [Form.bytesEntries, length_append, length_append, ← Nat.add_assoc,
      ← Nat.add_assoc] at hread
    rw [length_cons] at hlt
    rw [readPairs]
    rcases readForm_or hnear hfits.1 hkey hfuel hdrop with hok | hraises
    swap
    · exact hraises.bind _
    rw [hok]
    show Raises (read (i + k.bytes.length) >>= fun y => _)
    rcases readForm_or hnear hfits.2.1 hvalue (by omega) hdrop' with hok' | hraises
    swap
    · exact hraises.bind _
    rw [hok']
    show Raises (setItem py pairs (keyOf key) value >>= fun pairs => _)
    rw [hset]
    obtain ⟨m', rfl⟩ : ∃ m', m = m' + 1 := ⟨m - 1, by omega⟩
    exact ih hfits.2.2 hvalues (by omega) (drop_add hdrop' rfl) hread m' (by omega)

end

variable {tag : Tag}

theorem limitedTermAt_tag (h : data.drop i = tag.code :: rest) (hfuel : data.length < fuel + i) :
    Raises (limitedTermAt py data limit d fuel i) ∨ ∃ fuel', fuel = fuel' + 1 ∧
      limitedTermAt py data limit d fuel i =
        readTerm py data (limitedTermAt py data limit (d + 1) fuel') (i + 1) tag := by
  cases fuel with
  | zero =>
    have hnil : data.drop i = [] := drop_eq_nil_of_le (by omega)
    rw [hnil] at h
    cases h
  | succ fuel =>
    rw [limitedTermAt, byteAt_eq h, ok_bind, Tag.ofByte_code]
    by_cases hlimit : limit d (data.drop i) = true
    · left
      simp only [hlimit, if_true]
      exact ⟨_, rfl, by decide⟩
    · right
      simp only [hlimit]
      exact ⟨fuel, rfl, rfl⟩

/-- **A fault is raised**, or one before it is. -/
theorem Faults.raises (h : Faults py limit d b e) (hfuel : data.length < fuel + i)
    (hdrop : data.drop i = b) : Raises (limitedTermAt py data limit d fuel i) := by
  induction h generalizing i fuel with
  | deep hlimit =>
    rename_i d tag rest
    rw [← hdrop] at hlimit
    cases fuel with
    | zero =>
      have hnil : data.drop i = [] := drop_eq_nil_of_le (by omega)
      rw [hnil] at hdrop
      cases hdrop
    | succ fuel =>
      rw [limitedTermAt, byteAt_eq hdrop, ok_bind, Tag.ofByte_code]
      simp only [hlimit, if_true]
      exact ⟨_, rfl, by decide⟩
  | leaf hfits hneed hvalue =>
    rename_i d head rest e
    obtain ⟨l, hl⟩ := head.bytes_eq
    have htag : data.drop i = head.tag.code :: (l ++ rest) := by
      rw [hdrop, hl]
      rfl
    rcases limitedTermAt_tag (d := d) htag hfuel with hraises | ⟨fuel, rfl, hterm⟩
    · exact hraises
    rw [hterm, readTerm_leaf _ hfits hdrop hneed]
    exact (raises_of_uncaught (uncaught_leafValue _ _) hvalue).map _
  | compressed hn hne =>
    rename_i d n rest
    rcases limitedTermAt_tag (d := d) hdrop hfuel with hraises | ⟨fuel, rfl, hterm⟩
    · exact hraises
    rw [hterm]
    show Raises (unpackUInt data 4 (i + 1) >>= fun size => _)
    rw [unpackUInt_eq (drop_header hdrop) hn]
    show Raises (if n = 0 then _ else _)
    rw [if_neg hne]
    exact ⟨_, rfl, by decide⟩
  | sequence hs hlt hfits hok _hfaults ih =>
    rename_i d n s l b e
    have htag : ∃ r, data.drop i = s.tag.code :: r := by
      rw [hdrop]
      cases s <;> exact ⟨_, rfl⟩
    obtain ⟨r, htag⟩ := htag
    rcases limitedTermAt_tag (d := d) htag hfuel with hraises | ⟨fuel, rfl, hterm⟩
    · exact hraises
    obtain ⟨ts, hts⟩ := exists_of_isOk hok
    have hstart := drop_add hdrop rfl
    have hpos : 0 < (s.bytes n).length := by
      cases s <;> exact Nat.succ_pos _
    have hread : Raises (limitedTermAt py data limit (d + 1) fuel
        (i + (s.bytes n).length + (Form.bytesList l).length)) :=
      ih (by omega) (drop_add hstart rfl)
    rw [hterm, readTerm_sequence hs hdrop]
    exact (readSequence_raises (limitedTermAt_near py data limit (d + 1) fuel) hlt hfits hts
      (by omega) hstart hread).map _
  | key hn hlt hfits hpairs _hfaults ih =>
    rename_i d n l pairs b e
    rcases limitedTermAt_tag (d := d) hdrop hfuel with hraises | ⟨fuel, rfl, hterm⟩
    · exact hraises
    have hstart := drop_header' hdrop
    have hread : Raises (limitedTermAt py data limit (d + 1) fuel
        (i + 1 + 4 + (Form.bytesEntries l).length)) :=
      ih (by omega) (drop_add hstart rfl)
    rw [hterm, readTerm_map hn hdrop]
    exact (readPairs_raises (limitedTermAt_near py data limit (d + 1) fuel) hlt hfits hpairs
      (by omega) hstart fun m => hread.bind _).map _
  | value hn hlt hfits hpairs hk hkey _hfaults ih =>
    rename_i d n l pairs k key b e
    rcases limitedTermAt_tag (d := d) hdrop hfuel with hraises | ⟨fuel, rfl, hterm⟩
    · exact hraises
    have hnear := limitedTermAt_near py data limit (d + 1) fuel
    have hstart := drop_header' hdrop
    have hkdrop := drop_add hstart rfl
    have hread : Raises (limitedTermAt py data limit (d + 1) fuel
        (i + 1 + 4 + (Form.bytesEntries l).length + k.bytes.length)) :=
      ih (by omega) (drop_add hkdrop rfl)
    rw [hterm, readTerm_map hn hdrop]
    refine (readPairs_raises hnear hlt hfits hpairs (by omega) hstart fun m => ?_).map _
    rw [readPairs]
    rcases readForm_or hnear hk hkey (by omega) hkdrop with hok | hraises
    · rw [hok]
      exact hread.bind _
    · exact hraises.bind _
  | item hn hlt hfits hpairs hk hkey hreads hfails =>
    rename_i d n l pairs k key b e
    rcases limitedTermAt_tag (d := d) hdrop hfuel with hraises | ⟨fuel, rfl, hterm⟩
    · exact hraises
    have hnear := limitedTermAt_near py data limit (d + 1) fuel
    have hstart := drop_header' hdrop
    have hkdrop := drop_add hstart rfl
    obtain ⟨j, t, hvalue⟩ : ∃ j t, binaryToTermAt py data fuel
        (i + 1 + 4 + (Form.bytesEntries l).length + k.bytes.length) = .ok (j, t) :=
      hreads.read (by omega) (drop_add hkdrop rfl)
    rw [hterm, readTerm_map hn hdrop]
    refine (readPairs_raises hnear hlt hfits hpairs (by omega) hstart fun m => ?_).map _
    rw [readPairs]
    rcases readForm_or hnear hk hkey (by omega) hkdrop with hok | hraises
    swap
    · exact hraises.bind _
    rw [hok]
    show Raises (limitedTermAt py data limit (d + 1) fuel _ >>= fun y => _)
    rcases (hnear _).ok_or hvalue with hok' | hraises
    swap
    · exact hraises.bind _
    rw [hok']
    show Raises (setItem py pairs (keyOf key) t >>= fun pairs => _)
    rw [setItem_of_keyFails hfails]
    exact ⟨e, rfl, hfails.uncaught⟩
  | exportModule hatom =>
    rename_i d b e
    rcases limitedTermAt_tag (d := d) hdrop hfuel with hraises | ⟨fuel, rfl, hterm⟩
    · exact hraises
    rw [hterm]
    show Raises (binaryToAtom data (i + 1) >>= fun x => _)
    rw [hatom.read (drop_succ hdrop)]
    exact ⟨e, rfl, hatom.uncaught⟩
  | exportFunction hfits hname hv hatom =>
    rename_i d head name b v e
    rcases limitedTermAt_tag (d := d) hdrop hfuel with hraises | ⟨fuel, rfl, hterm⟩
    · exact hraises
    have hmodule := drop_succ hdrop
    rw [hterm]
    show Raises (binaryToAtom data (i + 1) >>= fun x => _)
    rw [Form.binaryToAtom_full hfits hname hmodule, hv]
    show Raises (binaryToAtom data _ >>= fun x => _)
    rw [hatom.read (drop_add hmodule rfl)]
    exact ⟨e, rfl, hatom.uncaught⟩
  | functionPid hn hatom =>
    rename_i d n new b e
    rcases limitedTermAt_tag (d := d) hdrop hfuel with hraises | ⟨fuel, rfl, hterm⟩
    · exact hraises
    have hpid : binaryToPid (φ := φ) data (i + 1 + 4) = .error e :=
      hatom.pid new (drop_header' hdrop)
    rw [hterm]
    show Raises (unpackUInt data 4 (i + 1) >>= fun numfree => _)
    rw [unpackUInt_eq (drop_header hdrop) hn]
    show Raises (binaryToPid (φ := φ) data (i + 1 + 4) >>= fun x => _)
    rw [hpid]
    exact ⟨e, rfl, hatom.uncaught⟩
  | functionModule hn hnode hbody hv hatom =>
    rename_i d n new node body b v e
    rcases limitedTermAt_tag (d := d) hdrop hfuel with hraises | ⟨fuel, rfl, hterm⟩
    · exact hraises
    have hpart := drop_header' hdrop
    have hpid := binaryToPid_full (φ := φ) new hnode hbody hv hpart
    rw [hterm]
    show Raises (unpackUInt data 4 (i + 1) >>= fun numfree => _)
    rw [unpackUInt_eq (drop_header hdrop) hn]
    show Raises (binaryToPid (φ := φ) data (i + 1 + 4) >>= fun x => _)
    rw [hpid]
    show Raises (binaryToAtom data _ >>= fun x => _)
    rw [hatom.read (drop_add hpart rfl)]
    exact ⟨e, rfl, hatom.uncaught⟩
  | functionFree hn hhead hcheck hlt hfits hok _hfaults ih =>
    rename_i d n head l b e
    rcases limitedTermAt_tag (d := d) hdrop hfuel with hraises | ⟨fuel, rfl, hterm⟩
    · exact hraises
    obtain ⟨ts, hts⟩ := exists_of_isOk hok
    have hparts := drop_header hdrop
    have hfree := drop_add (drop_add hparts (length_bigEndian 4 _)) rfl
    have hread : Raises (limitedTermAt py data limit (d + 1) fuel
        (i + 1 + 4 + head.bytes.length + (Form.bytesList l).length)) :=
      ih (by omega) (drop_add hfree rfl)
    rw [hterm, Form.readTerm_funHead hn hhead hparts, hcheck]
    exact (readSequence_raises (limitedTermAt_near py data limit (d + 1) fuel) hlt hfits hts
      (by omega) hfree hread).map _

/-! ## clean rejection -/

variable (py : Python φ)

/-- One step of `_binary_to_term`, from the reader of the terms inside. -/
def stepAt (data : Binary) (limit : Nat → Binary → Bool)
    (read : Nat → Except Exception (Nat × Term φ)) (d i : Nat) :
    Except Exception (Nat × Term φ) := do
  let tag ← byteAt data i
  match Tag.ofByte tag with
  | some tag =>
      if limit d (data.drop i) then .error .recursionError
      else readTerm py data read (i + 1) tag
  | none => .error .parseException

/-- **The data are read cleanly**: the recursion of the code ends, and all of the data behind the
version are a form that the term is read from, or a `ParseException` is raised; the latter if they
end before the form does. -/
structure Clean (py : Python φ) (limit : Nat → Binary → Bool) (data : Binary) : Prop where
  ends : ∀ d i, 0 < i → limitedTermAt py data limit d data.length i =
    stepAt py data limit (limitedTermAt py data limit (d + 1) data.length) d i
  whole : (∃ (f : Form) (t : Term φ), f.Fits ∧ f.value py = .ok t ∧ data = 131 :: f.bytes ∧
      limitedBinaryToTerm py data limit = .ok t) ∨
    limitedBinaryToTerm py data limit = .error .parseException
  cut : ∀ (f : Form) (rest : Binary), f.Fits → rest ≠ [] → data ++ rest = 131 :: f.bytes →
    limitedBinaryToTerm py data limit = .error .parseException

/-- There is a fault in the data behind the version. -/
def Faulty (limit : Nat → Binary → Bool) (data : Binary) : Prop :=
  ∃ (b : Binary) (e : Exception), data = 131 :: b ∧ Faults py limit 0 b e

theorem ends_limitedTermAt (data : Binary) (limit : Nat → Binary → Bool) (d : Nat)
    (hi : 0 < i) : limitedTermAt py data limit d data.length i =
      stepAt py data limit (limitedTermAt py data limit (d + 1) data.length) d i := by
  rw [← limitedTermAt_fuel (by omega)]
  rfl

/-- **The decoder rejects cleanly exactly when there is no fault.** -/
theorem clean_iff (limit : Nat → Binary → Bool) (data : Binary) :
    Clean py limit data ↔ ¬ Faulty py limit data := by
  constructor
  · rintro ⟨-, hwhole, -⟩ ⟨b, e, rfl, hfaults⟩
    obtain ⟨e', hread, huncaught⟩ :
        Raises (limitedTermAt py (131 :: b) limit 0 (131 :: b : Binary).length 1) :=
      hfaults.raises (Nat.lt_succ_self _) rfl
    have hb : b ≠ [] := by
      obtain ⟨tag, r, rfl⟩ := hfaults.tagged
      exact cons_ne_nil _ _
    have hpos := length_pos_iff.mpr hb
    have hraised : limitedBinaryToTerm py (131 :: b) limit = .error (caught e') := by
      rw [limitedBinaryToTerm, hread, wholeTerm, if_neg (by rw [length_cons]; omega),
        if_neg (by simp)]
    rcases hwhole with ⟨f, t, -, -, -, ht⟩ | hparse
    · cases hraised.symm.trans ht
    · exact huncaught (Except.error.inj (hraised.symm.trans hparse))
  · intro hnot
    have hwhole : (∃ (f : Form) (t : Term φ), f.Fits ∧ f.value py = .ok t ∧
        data = 131 :: f.bytes ∧ limitedBinaryToTerm py data limit = .ok t) ∨
        limitedBinaryToTerm py data limit = .error .parseException := by
      rw [limitedBinaryToTerm, wholeTerm.eq_def]
      by_cases hshort : data.length ≤ 1
      · exact .inr (if_pos hshort)
      rw [if_neg hshort]
      by_cases hversion : data[0]? ≠ some 131
      · exact .inr (if_pos hversion)
      rw [if_neg hversion]
      obtain ⟨b, rfl⟩ : ∃ b, data = 131 :: b := by
        cases data with
        | nil => exact absurd (Nat.zero_le 1) hshort
        | cons x b =>
          rw [not_not] at hversion
          cases hversion
          exact ⟨b, rfl⟩
      have hreading := reading_limitedTermAt py (131 :: b) limit 0 (131 :: b : Binary).length 1
      cases hx : limitedTermAt py (131 :: b) limit 0 (131 :: b : Binary).length 1 with
      | error e =>
        rw [hx] at hreading
        rcases hreading with hplain | hfaults
        · exact .inr (congrArg Except.error hplain)
        · exact absurd ⟨b, e, rfl, hfaults⟩ hnot
      | ok x =>
        obtain ⟨j, t⟩ := x
        rw [hx] at hreading
        show _ ∨ (if j ≠ (131 :: b : Binary).length then _ else _) = _
        by_cases hj : j = (131 :: b : Binary).length
        · left
          rcases hreading with ⟨f, rest, hfits, hvalue, hdrop, hindex⟩ | ⟨-, hdead, -⟩
          · have hb : b = f.bytes ++ rest := hdrop
            have hrest : rest = [] := by
              rw [hj, hb, length_cons, length_append] at hindex
              exact length_eq_zero_iff.mp (by omega)
            rw [hrest, append_nil] at hb
            refine ⟨f, t, hfits, hvalue, by rw [hb], ?_⟩
            show (if j ≠ (131 :: b : Binary).length then _ else _) = _
            exact if_neg (not_not.mpr hj)
          · exact absurd hj hdead.ne_length
        · exact .inr (if_pos hj)
    refine ⟨fun d i => ends_limitedTermAt py data limit d, hwhole,
      fun f rest hfits hrest hdata => ?_⟩
    rcases hwhole with ⟨g, t, hg, -, rfl, -⟩ | hparse
    · -- no form is a proper part of another one
      have hbytes : g.bytes ++ rest = f.bytes ++ [] := by
        rw [append_nil]
        exact (List.cons.inj hdata).2
      exact absurd (Form.unique g f rest [] hg hfits hbytes).2 hrest
    · exact hparse

/-- A limit on the terms around a term. -/
def atMost (n d : Nat) (_ : Binary) : Bool := n < d

/-- A tuple of a list is no key, `"s\x01a"` and the atom `a` cannot be compared, a cut name is no
UTF-8, a float is none, and a tuple is too deep. -/
theorem not_clean_faults :
    ¬ Clean rawPython (atMost 400) [131, 116, 0, 0, 0, 1, 104, 1, 106, 97, 1] ∧
      ¬ Clean rawPython (atMost 400)
        [131, 116, 0, 0, 0, 2, 107, 0, 3, 115, 1, 97, 97, 1, 115, 1, 97, 97, 2] ∧
      ¬ Clean rawPython (atMost 400) [131, 119, 2, 195] ∧
      ¬ Clean rawPython (atMost 400) [131, 99, 49, 120] ∧
      ¬ Clean rawPython (atMost 2) [131, 104, 1, 104, 1, 104, 1, 97, 1] := by
  have hnot : ∀ {limit : Nat → Binary → Bool} {data : Binary} {e : Exception},
      limitedBinaryToTerm rawPython data limit = .error e → e ≠ .parseException →
        ¬ Clean rawPython limit data := by
    intro limit data e hraised hne hclean
    rcases hclean.whole with ⟨f, t, -, -, -, ht⟩ | hparse
    · cases hraised.symm.trans ht
    · exact hne (Except.error.inj (hraised.symm.trans hparse))
  refine ⟨hnot (e := .typeError) rfl nofun, hnot (e := .attributeError) rfl nofun,
    hnot (e := .unicodeDecodeError) ?_ nofun, hnot (e := .valueError) rfl nofun,
    hnot (e := .recursionError) rfl nofun⟩
  rfl

end CloudI.ApiPython.Erlang
