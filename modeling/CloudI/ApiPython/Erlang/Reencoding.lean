import CloudI.ApiPython.Erlang.PythonValue
import CloudI.ApiPython.Erlang.RoundTrip
import CloudI.ApiPython.Erlang.Unambiguous

/-!
# ApiPython.Erlang.Reencoding

`term_to_binary` of what `binary_to_term` reads.  The term comes back unless a dict loses an entry,
the keys of a dict cannot be assigned, or a list becomes a tuple in a key: all of these leave fewer
cells of the term, or none.
-/

namespace CloudI.ApiPython.Erlang

open Binary CloudI.Except ExternalTerm List
open Option (bind_eq_some_iff)

variable {φ : Type} {py : Python φ}

/-! ## frozen keys -/

mutual

/-- **No list is frozen** when the value is a key: a list in a dict would be a tuple. -/
def Unfrozen : Term φ → Prop
  | .dict l => UnfrozenEntries l
  | _ => True

/-- No value of a dict is a list. -/
def UnfrozenEntries : List (Term φ × Term φ) → Prop
  | [] => True
  | (_, v) :: l => (∀ l', v ≠ .list l') ∧ Unfrozen v ∧ UnfrozenEntries l

end

variable {Ts : List ExternalTerm} {t v k : Term φ} {T V : ExternalTerm}
  {Ps : List (ExternalTerm × ExternalTerm)} {l pairs : List (Term φ × Term φ)} {f : Form}

theorem meaningList_cons {l : List (Term φ)} (ht : t.meaning = some T)
    (hl : meaningList l = some Ts) : meaningList (t :: l) = some (T :: Ts) := by
  rw [meaningList, ht, hl]
  rfl

theorem meaningEntries_cons (hk : k.meaning = some K) (hv : v.meaning = some V)
    (hl : meaningEntries l = some Ps) : meaningEntries ((k, v) :: l) = some ((K, V) :: Ps) := by
  rw [meaningEntries, hk, hv, hl]
  rfl

theorem of_meaningList_cons {l : List (Term φ)} (h : meaningList (t :: l) = some Ts) :
    ∃ T Ts', t.meaning = some T ∧ meaningList l = some Ts' ∧ Ts = T :: Ts' := by
  obtain ⟨T, hT, h⟩ := bind_eq_some_iff.mp h
  obtain ⟨Ts', hTs, h⟩ := bind_eq_some_iff.mp h
  cases h
  exact ⟨T, Ts', hT, hTs, rfl⟩

theorem of_meaningEntries_cons (h : meaningEntries ((k, v) :: l) = some Ps) :
    ∃ K V Ps', k.meaning = some K ∧ v.meaning = some V ∧ meaningEntries l = some Ps' ∧
      Ps = (K, V) :: Ps' := by
  obtain ⟨K, hK, h⟩ := bind_eq_some_iff.mp h
  obtain ⟨V, hV, h⟩ := bind_eq_some_iff.mp h
  obtain ⟨Ps', hPs, h⟩ := bind_eq_some_iff.mp h
  cases h
  exact ⟨K, V, Ps', hK, hV, hPs, rfl⟩

/-- **A value that is frozen** has fewer cells if a list in it is. -/
def Freezes (t : Term φ) : Prop :=
  ∀ T, t.meaning = some T → ∃ T', (freezeValue t).meaning = some T' ∧ T'.cells ≤ T.cells ∧
    (T'.cells = T.cells → (∀ l, t ≠ .list l) ∧ Unfrozen t)

theorem freezes_entries (h : ∀ x ∈ l, Freezes x.2) (hl : meaningEntries l = some Ps) :
    ∃ Ps', meaningEntries (freeze l) = some Ps' ∧ cellsEntries Ps' ≤ cellsEntries Ps ∧
      (cellsEntries Ps' = cellsEntries Ps → UnfrozenEntries l) := by
  induction l generalizing Ps with
  | nil =>
    cases hl
    exact ⟨[], rfl, Nat.le_refl _, fun _ => trivial⟩
  | cons x l ih =>
    obtain ⟨k, v⟩ := x
    obtain ⟨K, V, Ps, hK, hV, hPs, rfl⟩ := of_meaningEntries_cons hl
    obtain ⟨V', hV', hle, hsame⟩ := h (k, v) mem_cons_self V hV
    obtain ⟨Ps', hPs', hle', hsame'⟩ := ih (fun y hy => h y (mem_cons_of_mem _ hy)) hPs
    refine ⟨(K, V') :: Ps', meaningEntries_cons hK hV' hPs', ?_, fun hcells => ?_⟩
    · rw [cellsEntries, cellsEntries]
      omega
    · rw [cellsEntries, cellsEntries] at hcells
      obtain ⟨hlist, hunfrozen⟩ := hsame (by omega)
      exact ⟨hlist, hunfrozen, hsame' (by omega)⟩

theorem freezes_elements {l : List (Term φ)} (h : ∀ t ∈ l, Freezes t) (hl : meaningList l = some Ts)
    : ∃ Ts', meaningList (freezeElements l) = some Ts' ∧ cellsList Ts' ≤ cellsList Ts := by
  induction l generalizing Ts with
  | nil =>
    cases hl
    exact ⟨[], rfl, Nat.le_refl _⟩
  | cons t l ih =>
    obtain ⟨T, Ts, hT, hTs, rfl⟩ := of_meaningList_cons hl
    obtain ⟨Ts', hTs', hle⟩ := ih (fun x hx => h x (mem_cons_of_mem t hx)) hTs
    have helement : ∃ t' T', freezeElements (t :: l) = t' :: freezeElements l ∧
        t'.meaning = some T' ∧ T'.cells ≤ T.cells := by
      cases t with
      | dict entries =>
        obtain ⟨T', hT', hle', -⟩ := h (.dict entries) mem_cons_self T hT
        exact ⟨.frozendict (freeze entries), T', rfl, hT', hle'⟩
      | _ => exact ⟨_, T, rfl, hT, Nat.le_refl _⟩
    obtain ⟨t', T', heq, hT', hle'⟩ := helement
    refine ⟨T' :: Ts', ?_, ?_⟩
    · rw [heq]
      exact meaningList_cons hT' hTs'
    · rw [cellsList, cellsList]
      omega

theorem freezes (t : Term φ) : Freezes t := by
  induction t using Term.induct with
  | list l ih =>
    intro T hT
    obtain ⟨Ts, hTs, rfl⟩ := Option.map_eq_some_iff.mp hT
    obtain ⟨Ts', hTs', hle⟩ := freezes_elements ih hTs
    have hcells : (proper Ts).cells = Ts.length + cellsList Ts + 1 := cells_foldr_cons Ts .nil
    refine ⟨.tuple Ts', ?_, ?_, fun hsame => ?_⟩
    · rw [freezeValue, Term.meaning, hTs']
      rfl
    · rw [hcells, cells]
      omega
    · rw [hcells, cells] at hsame
      omega
  | dict l ih =>
    intro T hT
    obtain ⟨Ps, hPs, rfl⟩ := Option.map_eq_some_iff.mp hT
    obtain ⟨Ps', hPs', hle, hsame⟩ := freezes_entries (fun x hx => (ih x hx).2) hPs
    refine ⟨.map Ps', ?_, ?_, fun hcells => ⟨(fun _ h => by cases h), ?_⟩⟩
    · rw [freezeValue, Term.meaning, hPs']
      rfl
    · rwa [cells, cells]
    · rw [cells, cells] at hcells
      exact hsame hcells
  | _ => exact fun T hT => ⟨T, hT, Nat.le_refl _, fun _ => ⟨(fun _ h => by cases h), trivial⟩⟩

theorem meaning_keyOf (h : t.meaning = some T) :
    ∃ T', (keyOf t).meaning = some T' ∧ T'.cells ≤ T.cells ∧ (T'.cells = T.cells → Unfrozen t) := by
  cases t with
  | dict l =>
    obtain ⟨T', hT', hle, hsame⟩ := freezes (.dict l) T h
    exact ⟨T', hT', hle, fun hcells => (hsame hcells).2⟩
  | list l => exact ⟨T, h, Nat.le_refl _, fun _ => trivial⟩
  | _ => exact ⟨T, h, Nat.le_refl _, fun _ => trivial⟩

/-- What is not frozen is written as it was, and stands for the same term. -/
theorem freezeValue_unfrozen (hlist : ∀ l, t ≠ .list l) (h : Unfrozen t) :
    termBinary py (freezeValue t) = termBinary py t ∧
      (freezeValue t).meaning = t.meaning := by
  induction t using Term.induct with
  | list l => exact absurd rfl (hlist l)
  | dict l ih =>
    have hentries : (freeze l).length = l.length ∧
        entriesBinary py (freeze l) = entriesBinary py l ∧
        meaningEntries (freeze l) = meaningEntries l := by
      clear hlist
      induction l with
      | nil => exact ⟨rfl, rfl, rfl⟩
      | cons x l ih' =>
        obtain ⟨k, v⟩ := x
        obtain ⟨hv, hunfrozen, hrest⟩ := h
        obtain ⟨hbinary, hmeaning⟩ := (ih (k, v) mem_cons_self).2 hv hunfrozen
        obtain ⟨hlen, hbinaries, hmeanings⟩ := ih'
          (fun y hy => ih y (mem_cons_of_mem _ hy)) hrest
        refine ⟨congrArg (· + 1) hlen, ?_, ?_⟩
        · rw [freeze, entriesBinary, entriesBinary, hbinary, hbinaries]
        · rw [freeze, meaningEntries, meaningEntries, hmeaning, hmeanings]
    obtain ⟨hlen, hbinary, hmeaning⟩ := hentries
    refine ⟨?_, ?_⟩
    · rw [freezeValue, termBinary, termBinary, hlen, hbinary]
    · rw [freezeValue, Term.meaning, Term.meaning, hmeaning]
  | _ => exact ⟨rfl, rfl⟩

variable (py) in
theorem keyOf_unfrozen (h : Unfrozen t) :
    termBinary py (keyOf t) = termBinary py t ∧ (keyOf t).meaning = t.meaning := by
  cases t with
  | dict l => exact freezeValue_unfrozen (t := .dict l) nofun h
  | _ => exact ⟨rfl, rfl⟩

/-! ## assignments -/

theorem meaningEntries_append (h : meaningEntries l = some Ps) (h' : meaningEntries l' = some Ps') :
    meaningEntries (l ++ l') = some (Ps ++ Ps') := by
  induction l generalizing Ps with
  | nil =>
    cases h
    exact h'
  | cons x l ih =>
    obtain ⟨K, V, Ps, hK, hV, hPs, rfl⟩ := of_meaningEntries_cons h
    exact meaningEntries_cons hK hV (ih hPs)

theorem cellsEntries_append (Ps Ps' : List (ExternalTerm × ExternalTerm)) :
    cellsEntries (Ps ++ Ps') = cellsEntries Ps + cellsEntries Ps' := by
  induction Ps with
  | nil => rw [nil_append, cellsEntries, Nat.zero_add]
  | cons x Ps ih =>
    rw [cons_append, cellsEntries, cellsEntries, ih]
    omega

/-- The value of a key is replaced. -/
theorem meaning_replaced {before after : List (Term φ × Term φ)} {value : Term φ}
    (hV : value.meaning = some V) (hPs : meaningEntries (before ++ x :: after) = some Ps) :
    ∃ Ps', meaningEntries (before ++ (x.1, value) :: after) = some Ps' ∧
      cellsEntries Ps' ≤ cellsEntries Ps + V.cells := by
  induction before generalizing Ps with
  | nil =>
    obtain ⟨K, U, Us, hK, hU, hUs, rfl⟩ := of_meaningEntries_cons hPs
    refine ⟨(K, V) :: Us, meaningEntries_cons hK hV hUs, ?_⟩
    rw [cellsEntries, cellsEntries]
    omega
  | cons y before ih =>
    obtain ⟨K, U, Us, hK, hU, hUs, rfl⟩ := of_meaningEntries_cons hPs
    obtain ⟨Ps', hPs', hle⟩ := ih hUs
    refine ⟨(K, U) :: Ps', meaningEntries_cons hK hU hPs', ?_⟩
    rw [cellsEntries, cellsEntries]
    omega

/-- **Assignments lose cells** unless every one of them adds an entry. -/
theorem meaning_assignAll (pairs : List (Term φ × Term φ))
    (hapart : pairs.Pairwise fun x y => Apart py x.1 y.1) (hassign : Assignable py pairs l)
    {Qs : List (ExternalTerm × ExternalTerm)}
    (hPs : meaningEntries pairs = some Ps) (hQs : meaningEntries l = some Qs) :
    ∃ Rs, meaningEntries (assignAll py pairs l) = some Rs ∧
      cellsEntries Rs ≤ cellsEntries Ps + cellsEntries Qs ∧
      (cellsEntries Rs = cellsEntries Ps + cellsEntries Qs →
        (pairs ++ l).Pairwise fun x y => Apart py x.1 y.1) := by
  induction l generalizing pairs Ps Qs with
  | nil =>
    cases hQs
    refine ⟨Ps, hPs, Nat.le_refl _, fun _ => ?_⟩
    rwa [append_nil]
  | cons x l ih =>
    obtain ⟨k, v⟩ := x
    obtain ⟨K, V, Us, hK, hV, hUs, rfl⟩ := of_meaningEntries_cons hQs
    obtain ⟨hnot, hassign⟩ := hassign
    rw [assignAll, cellsEntries]
    rcases setItem_cases py pairs k with ⟨e, hfails⟩ | ⟨-, hfirst | hall⟩
    · exact absurd hfails (hnot e)
    · -- an entry is lost, whatever follows
      obtain ⟨before, x, after, rfl, hbefore, hx⟩ := hfirst
      have heq : assign py (before ++ x :: after) k v = before ++ (x.1, v) :: after :=
        assign_of_same hbefore hx
      have hapart' : (before ++ (x.1, v) :: after).Pairwise fun x y => Apart py x.1 y.1 := by
        rw [← pairwise_map] at hapart ⊢
        rw [map_append, map_cons] at hapart ⊢
        exact hapart
      obtain ⟨Ps', hPs', hle'⟩ := meaning_replaced hV hPs
      rw [heq] at hassign ⊢
      obtain ⟨Rs, hRs, hle, -⟩ := ih _ hapart' hassign hPs' hUs
      exact ⟨Rs, hRs, by omega, fun hcells => absurd hcells (by omega)⟩
    · have heq : assign py pairs k v = pairs ++ [(k, v)] := assign_of_apart hall
      have hapart' : (pairs ++ [(k, v)]).Pairwise fun x y => Apart py x.1 y.1 := by
        refine pairwise_append.mpr ⟨hapart, pairwise_singleton _ _, fun x hx y hy => ?_⟩
        rw [mem_singleton.mp hy]
        exact hall x hx
      have hone : meaningEntries [(k, v)] = some [(K, V)] := meaningEntries_cons hK hV rfl
      have hnew := meaningEntries_append hPs hone
      rw [heq] at hassign ⊢
      obtain ⟨Rs, hRs, hle, hsame⟩ := ih _ hapart' hassign hnew hUs
      rw [cellsEntries_append, cellsEntries, cellsEntries] at hle hsame
      refine ⟨Rs, hRs, by omega, fun hcells => ?_⟩
      have hall := hsame (by omega)
      rwa [append_assoc] at hall

/-! ## forms that come back -/

/-- A list with its tail has less than `2 ^ 32` values. -/
def Short : Term φ → Prop
  | .erlangList l _ => l.length ≤ 4294967295
  | _ => True

namespace Form

/-- **The keys of a map are kept**: they can be hashed, each is another one than those before it
and can be compared where the hash values are the same, and no list in them is frozen. -/
structure KeptKeys (py : Python φ) (l : List (Form × Form)) : Prop where
  keys : Keys py (pythonEntries py l)
  unfrozen : ∀ x ∈ l, Unfrozen (python py x.1)

mutual

/-- **The condition on a form**: the keys of its maps are kept, an improper list is not too long,
and the free variables of a function are read. -/
def Reencodable (py : Python φ) : Form → Prop
  | .leaf _ _ => True
  | .sequence s l => Short (s.value (pythonList py l)) ∧ ReencodableList py l
  | .map l => KeptKeys py l ∧ ReencodableEntries py l
  | .exportFun _ => True
  | .function _ l => ReadableList py l

/-- The condition on the forms of a list. -/
def ReencodableList (py : Python φ) : List Form → Prop
  | [] => True
  | f :: l => Reencodable py f ∧ ReencodableList py l

/-- The condition on keys and values. -/
def ReencodableEntries (py : Python φ) : List (Form × Form) → Prop
  | [] => True
  | (k, v) :: l => Reencodable py k ∧ Reencodable py v ∧ ReencodableEntries py l

end

/-! ## what is written of a leaf -/

variable {body : Binary} {v : AtomValue} {t : Term φ} {T : ExternalTerm}
  {Ts Ts' : List ExternalTerm} {ts : List (Term φ)} {s : Sequence} {f : Form}
  {l : List (Form × Form)} {Ps : List (ExternalTerm × ExternalTerm)}

theorem fits_of_value (head : AtomHead) (hfits : head.Fits) (hbody : body.length = head.size)
    (h : head.value body = .ok v) : v.Fits := by
  have hlen : ∀ {utf8 small n}, (AtomHead.name utf8 small n).Fits → n ≤ 65535 := by
    intro utf8 small n hn
    have hlt : n < 256 ^ nameWidth small := hn
    cases small
    · exact Nat.le_of_lt_succ hlt
    · exact Nat.le_trans (Nat.le_of_lt_succ hlt) (by decide)
  match head, hfits, hbody, h with
  | .cacheRef, _, _, h =>
    cases h
    exact trivial
  | .name false small n, hfits, hbody, h =>
    cases h
    have hsize : body.length = n := hbody
    rw [AtomValue.Fits, hsize]
    exact hlen hfits
  | .name true small n, hfits, hbody, h =>
    have hsize : body.length = n := hbody
    rw [AtomHead.value, decodeUtf8] at h
    cases hdecode : Utf8.decode body with
    | none =>
      rw [hdecode] at h
      cases h
    | some name =>
      rw [hdecode] at h
      cases h
      rw [AtomValue.Fits, Utf8.encode_of_decode hdecode, hsize]
      exact hlen hfits

theorem ok_of_writtenLeaf (h : WrittenLeaf py written t) : ∃ b, written = .ok b := by
  obtain ⟨head, body, -, hwritten, -⟩ := h
  exact ⟨_, hwritten⟩

/-- A pid, a port or a reference is written. -/
theorem node_written {kind : Node} {fields : Binary} (hkind : kind.Fits) (hv : v.Fits)
    (hfields : fields.length = kind.size)
    (hmeaning : (kind.value v fields : Term φ).meaning = some T) :
    ∃ b, termBinary py (kind.value v fields) = .ok b := by
  have hreference : ∀ {id creation : Binary}, id.length / 4 ≤ 65535 →
      (Term.reference v id creation : Term φ).meaning = some T →
        ∃ b, termBinary py (.reference v id creation) = .ok b := by
    intro id creation hwords hmeaning
    by_cases hfits : id ≠ [] ∧ id.length % 4 = 0 ∧ CreationFits creation
    · have hpos := length_pos_iff.mpr hfits.1
      exact ok_of_writtenLeaf (writtenLeaf_reference py (id.length / 4) hv
        (by omega) (by omega) hwords hfits.2.2)
    · rw [Term.meaning, if_neg hfits] at hmeaning
      cases hmeaning
  cases kind with
  | pid new =>
    by_cases hfits : (fields.take 4).length = 4 ∧ ((fields.drop 4).take 4).length = 4 ∧
        CreationFits (fields.drop (4 + 4))
    · exact ok_of_writtenLeaf (writtenLeaf_pid py hv hfits.1 hfits.2.1 hfits.2.2)
    · rw [Node.value, Term.meaning, if_neg hfits] at hmeaning
      cases hmeaning
  | port new =>
    by_cases hfits : (fields.take 4).length = 4 ∧ CreationFits (fields.drop 4)
    · exact ok_of_writtenLeaf (writtenLeaf_port py hv hfits.1 hfits.2)
    · rw [Node.value, Term.meaning, if_neg hfits] at hmeaning
      cases hmeaning
  | reference =>
    refine hreference ?_ hmeaning
    rw [length_take]
    omega
  | newReference newer words =>
    refine hreference ?_ hmeaning
    have hsize : fields.length = creationSize newer + words * 4 := hfields
    have hwords : words < 65536 := hkind
    rw [length_drop, hsize, Nat.add_sub_cancel_left]
    omega

theorem bignumOf_lt (h : body.length = 1 + n) : (bignumOf body).natAbs < 256 ^ n := by
  have hlt := value_lt body.tail.reverse
  rw [length_reverse, length_tail, h, Nat.add_sub_cancel_left] at hlt
  rw [bignumOf]
  split
  · rw [Int.natAbs_neg]
    exact hlt
  · exact hlt

/-- **A leaf of a term is written** when it was read. -/
theorem leaf_written {head : Leaf} (hfits : (Form.leaf head body).Fits)
    (hterm : head.term body = some T) (h : head.value py body = .ok t) :
    ∃ b, termBinary py t = .ok b := by
  obtain ⟨hhead, hbody⟩ := hfits
  obtain ⟨hsigned, -⟩ := Leaf.value_of_term py hterm
  have hmeaning := (Leaf.meaning_eq ⟨hhead, hbody⟩ hsigned h).trans hterm
  match head, hhead, hbody, hterm, h with
  | .newFloat, _, _, hterm, _ => cases hterm
  | .float, _, _, hterm, _ => cases hterm
  | .bitBinary n bits, hn, hbody, _, h =>
    cases h
    have hlen : body.length ≤ 4294967295 := hbody ▸ Nat.le_of_lt_succ hn
    exact ok_of_writtenLeaf (writtenLeaf_binary py bits hlen)
  | .binary n, hn, hbody, _, h =>
    cases h
    have hlen : body.length ≤ 4294967295 := hbody ▸ Nat.le_of_lt_succ hn
    exact ok_of_writtenLeaf (writtenLeaf_binary py 8 hlen)
  | .string n, hn, hbody, _, h =>
    cases h
    have hlen : body.length ≤ 65535 := hbody ▸ Nat.le_of_lt_succ hn
    by_cases hnil : body = []
    · rw [hnil]
      exact ⟨_, rfl⟩
    · exact ok_of_writtenLeaf (writtenLeaf_string py hnil hlen)
  | .atom .cacheRef, _, _, hterm, _ => cases hterm
  | .atom (.name false true n), hn, hbody, _, h =>
    cases h
    have hv := fits_of_value (.name false true n) hn hbody rfl
    rw [termBinary_smallAtomValue]
    exact ok_of_writtenLeaf (writtenLeaf_atom py hv)
  | .atom (.name false false n), hn, hbody, _, h =>
    cases h
    have hv := fits_of_value (.name false false n) hn hbody rfl
    exact ok_of_writtenLeaf (writtenLeaf_atom py hv)
  | .atom (.name true small n), hn, hbody, _, h =>
    have hatom : ((AtomHead.name true small n).value body).map Term.atom = .ok t := h
    obtain ⟨v, hvalue, rfl⟩ := ok_of_map hatom
    have hv := fits_of_value (.name true small n) hn hbody hvalue
    exact ok_of_writtenLeaf (writtenLeaf_atom py hv)
  | .node kind head, hn, hbody, _, h =>
    obtain ⟨v, hvalue, rfl⟩ := ok_of_map h
    have hsize : body.length = head.size + kind.size := hbody
    have hname : (body.take head.size).length = head.size := length_take_of_le (by omega)
    have hfields : (body.drop head.size).length = kind.size := by
      rw [length_drop, hsize, Nat.add_sub_cancel_left]
    exact node_written hn.1 (fits_of_value _ hn.2 hname hvalue) hfields hmeaning
  | .smallInteger, _, hbody, _, h =>
    cases h
    have hlt := value_lt body
    have hsize : body.length = 1 := hbody
    rw [hsize] at hlt
    exact ok_of_writtenLeaf (writtenLeaf_int py (intFits_of_lt (by omega)))
  | .integer, _, hbody, _, h =>
    cases h
    have hlt := value_lt body
    have hsize : body.length = 4 := hbody
    rw [hsize] at hlt
    have hint : (int32Value (Binary.value body)).natAbs < 256 ^ 4 := by
      rw [int32Value]
      split <;> omega
    exact ok_of_writtenLeaf (writtenLeaf_int py (intFits_of_lt hint))
  | .nil, _, _, _, h =>
    cases h
    exact ⟨_, rfl⟩
  | .bignum large n, hn, hbody, _, h =>
    cases h
    have hlen : n ≤ 4294967295 := by
      cases large
      · exact Nat.le_trans (Nat.le_of_lt_succ hn) (by decide)
      · exact Nat.le_of_lt_succ hn
    have hint : IntFits (bignumOf body) :=
      (length_bignumValue_le (bignumOf_lt hbody)).trans hlen
    exact ok_of_writtenLeaf (writtenLeaf_int py hint)
  | .newFun n, _, _, _, h =>
    cases h
    exact ⟨_, rfl⟩

/-! ## sequences -/

theorem termsBinary_isOk {l : List (Term φ)} :
    (termsBinary py l).isOk = true ↔ ∀ t ∈ l, (termBinary py t).isOk = true := by
  induction l with
  | nil => exact ⟨fun _ => forall_mem_nil _, fun _ => rfl⟩
  | cons t l ih =>
    rw [forall_mem_cons, ← ih, termsBinary]
    cases termBinary py t with
    | error e => simp [Except.isOk, Except.toBool]
    | ok b =>
      cases termsBinary py l with
      | error e => simp [Except.isOk, Except.toBool]
      | ok b' => exact ⟨fun _ => ⟨rfl, rfl⟩, fun _ => rfl⟩

theorem entriesBinary_isOk {l : List (Term φ × Term φ)} : (entriesBinary py l).isOk = true ↔
      ∀ x ∈ l, (termBinary py x.1).isOk = true ∧ (termBinary py x.2).isOk = true := by
  induction l with
  | nil => exact ⟨fun _ => forall_mem_nil _, fun _ => rfl⟩
  | cons x l ih =>
    obtain ⟨k, v⟩ := x
    rw [forall_mem_cons, ← ih, entriesBinary]
    cases termBinary py k with
    | error e => simp [Except.isOk, Except.toBool]
    | ok b =>
      cases termBinary py v with
      | error e => simp [Except.isOk, Except.toBool]
      | ok b' =>
        cases entriesBinary py l with
        | error e => simp [Except.isOk, Except.toBool]
        | ok b'' => exact ⟨fun _ => ⟨⟨rfl, rfl⟩, rfl⟩, fun _ => rfl⟩

variable (py) in
theorem length_pythonList (l : List Form) : (pythonList py l).length = l.length := by
  induction l with
  | nil => rfl
  | cons f l ih => rw [pythonList, length_cons, ih, length_cons]

theorem length_pythonEntries (l : List (Form × Form)) : (pythonEntries py l).length = l.length := by
  induction l with
  | nil => rfl
  | cons x l ih => rw [pythonEntries, length_cons, ih, length_cons]

theorem meaningList_append {l l' : List (Term φ)} (h : meaningList l = some Ts)
    (h' : meaningList l' = some Ts') : meaningList (l ++ l') = some (Ts ++ Ts') := by
  induction l generalizing Ts with
  | nil =>
    cases h
    exact h'
  | cons t l ih =>
    obtain ⟨T, Us, hT, hUs, rfl⟩ := of_meaningList_cons h
    exact meaningList_cons hT (ih hUs)

theorem eq_of_isEmptyList (h : isEmptyList t = true) : t = .list [] := by
  match t, h with
  | .list [], _ => rfl

theorem meaning_listValue (hts : meaningList ts = some Ts) (ht : t.meaning = some T) :
    (listValue ts t).meaning = some (.improper (Ts ++ [T])) := by
  rw [listValue]
  by_cases hempty : isEmptyList t = true
  · rw [if_pos hempty]
    obtain rfl := eq_of_isEmptyList hempty
    cases ht
    rw [Term.meaning, hts, improper_concat]
    rfl
  · rw [if_neg hempty, Term.meaning, meaningList_append hts (meaningList_cons ht rfl)]
    rfl

theorem meaning_sequence (hfits : s.Fits ts.length) (hts : meaningList ts = some Ts) :
    (s.value ts).meaning = some (s.term Ts) := by
  cases s with
  | list =>
    obtain rfl | ⟨ts', t, rfl⟩ := eq_nil_or_concat ts
    · exact absurd hfits.1 nofun
    rw [concat_eq_append] at hts ⊢
    have hparts : ∀ (l : List (Term φ)) (Us : List ExternalTerm),
        meaningList (l ++ [t]) = some Us → ∃ Us' T, meaningList l = some Us' ∧
          t.meaning = some T ∧ Us = Us' ++ [T] := by
      intro l
      induction l with
      | nil =>
        intro Us h
        obtain ⟨T, Us', hT, hUs, rfl⟩ := of_meaningList_cons h
        cases hUs
        exact ⟨[], T, rfl, hT, rfl⟩
      | cons x l ih =>
        intro Us h
        obtain ⟨U, Us', hU, hUs, rfl⟩ := of_meaningList_cons h
        obtain ⟨Us'', T, hl, hT, rfl⟩ := ih Us' hUs
        exact ⟨U :: Us'', T, meaningList_cons hU hl, hT, rfl⟩
    obtain ⟨Ts', T, hts', hT, rfl⟩ := hparts ts' Ts hts
    rw [Sequence.value, dropLast_concat, getLastD_concat]
    exact meaning_listValue hts' hT
  | _ =>
    rw [Sequence.value, Term.meaning, hts]
    rfl

theorem tuple_written : (termBinary py (.tuple ts)).isOk = true ↔
      ts.length ≤ 4294967295 ∧ ∀ t ∈ ts, (termBinary py t).isOk = true := by
  rw [← termsBinary_isOk, termBinary, tupleToBinary]
  by_cases hsmall : ts.length ≤ 255
  · rw [if_pos hsmall]
    cases termsBinary py ts with
    | error e => simp [Except.isOk, Except.toBool]
    | ok b => exact ⟨fun _ => ⟨Nat.le_trans hsmall (by decide), rfl⟩, fun _ => rfl⟩
  · rw [if_neg hsmall]
    by_cases hlarge : ts.length ≤ 4294967295
    · rw [if_pos hlarge]
      cases termsBinary py ts with
      | error e => simp [Except.isOk, Except.toBool]
      | ok b => exact ⟨fun _ => ⟨hlarge, rfl⟩, fun _ => rfl⟩
    · rw [if_neg hlarge]
      exact ⟨fun h => absurd h Bool.false_ne_true, fun h => absurd h.1 hlarge⟩

theorem listBinary_written (improper : Bool) :
    (listBinary ts.length improper (termsBinary py ts)).isOk = true ↔
      ts.length ≤ 4294967295 ∧ ∀ t ∈ ts, (termBinary py t).isOk = true := by
  rw [← termsBinary_isOk, listBinary]
  by_cases hzero : ts.length = 0
  · rw [if_pos hzero]
    obtain rfl := length_eq_zero_iff.mp hzero
    exact ⟨fun _ => ⟨Nat.zero_le _, rfl⟩, fun _ => rfl⟩
  · rw [if_neg hzero]
    by_cases hlarge : 4294967295 < ts.length
    · rw [if_pos hlarge]
      exact ⟨fun h => absurd h Bool.false_ne_true, fun h => absurd h.1 (Nat.not_le.mpr hlarge)⟩
    · rw [if_neg hlarge]
      have hle : ts.length ≤ 4294967295 := Nat.not_lt.mp hlarge
      cases improper <;> cases termsBinary py ts with
      | error e => simp [Except.isOk, Except.toBool]
      | ok b => exact ⟨fun _ => ⟨hle, rfl⟩, fun _ => rfl⟩

/-- **A sequence of values is written** when the values are and it is not too long. -/
theorem sequence_written (hfits : s.Fits ts.length) : (termBinary py (s.value ts)).isOk = true ↔
      Short (s.value ts) ∧ ∀ t ∈ ts, (termBinary py t).isOk = true := by
  cases s with
  | smallTuple =>
    rw [Sequence.value, tuple_written]
    exact ⟨fun h => ⟨trivial, h.2⟩, fun h => ⟨Nat.le_trans (Nat.le_of_lt_succ hfits)
      (by decide), h.2⟩⟩
  | largeTuple =>
    rw [Sequence.value, tuple_written]
    exact ⟨fun h => ⟨trivial, h.2⟩, fun h => ⟨Nat.le_of_lt_succ hfits, h.2⟩⟩
  | list =>
    obtain rfl | ⟨ts', t, rfl⟩ := eq_nil_or_concat ts
    · exact absurd hfits.1 (Nat.lt_irrefl 0)
    rw [concat_eq_append] at hfits ⊢
    rw [Sequence.value, dropLast_concat, getLastD_concat, listValue]
    by_cases hempty : isEmptyList t = true
    · rw [if_pos hempty, termBinary, listBinary_written]
      obtain rfl := eq_of_isEmptyList hempty
      have hle := hfits.2
      rw [length_append, length_singleton] at hle
      constructor
      · intro h
        refine ⟨trivial, forall_mem_append.mpr ⟨h.2, fun t ht => ?_⟩⟩
        rw [mem_singleton.mp ht]
        rfl
      · exact fun h => ⟨by omega, (forall_mem_append.mp h.2).1⟩
    · rw [if_neg hempty, termBinary, listBinary_written]
      exact Iff.rfl

theorem dict_written {l : List (Term φ × Term φ)} :
    (termBinary py (.dict l)).isOk = true ↔ l.length ≤ 4294967295 ∧
      ∀ x ∈ l, (termBinary py x.1).isOk = true ∧ (termBinary py x.2).isOk = true := by
  rw [← entriesBinary_isOk, termBinary, dictToBinary]
  by_cases hlarge : l.length ≤ 4294967295
  · rw [if_pos hlarge]
    cases entriesBinary py l with
    | error e => simp [Except.isOk, Except.toBool]
    | ok b => exact ⟨fun _ => ⟨hlarge, rfl⟩, fun _ => rfl⟩
  · rw [if_neg hlarge]
    exact ⟨fun h => absurd h Bool.false_ne_true, fun h => absurd h.1 hlarge⟩

theorem of_termList_cons {l : List Form} (h : termList (f :: l) = some Ts) :
    ∃ T Ts', f.term = some T ∧ termList l = some Ts' ∧ Ts = T :: Ts' := by
  obtain ⟨T, hT, h⟩ := bind_eq_some_iff.mp h
  obtain ⟨Ts', hTs, h⟩ := bind_eq_some_iff.mp h
  cases h
  exact ⟨T, Ts', hT, hTs, rfl⟩

theorem of_termEntries_cons {k v : Form} (h : termEntries ((k, v) :: l) = some Ps) :
    ∃ K V Ps', k.term = some K ∧ v.term = some V ∧ termEntries l = some Ps' ∧
      Ps = (K, V) :: Ps' := by
  obtain ⟨K, hK, h⟩ := bind_eq_some_iff.mp h
  obtain ⟨V, hV, h⟩ := bind_eq_some_iff.mp h
  obtain ⟨Ps', hPs, h⟩ := bind_eq_some_iff.mp h
  cases h
  exact ⟨K, V, Ps', hK, hV, hPs, rfl⟩

theorem meaning_function {tag : Byte} {value : Binary} (hfits : f.Fits)
    (hbytes : f.bytes = tag :: value) (hterm : f.term = some (.function (tag :: value))) :
    (Term.function tag value : Term φ).meaning = some (.function (tag :: value)) :=
  functionTerm_of_form hfits hbytes hterm

/-! ## what comes out -/

/-- **A form comes out**: it is read, as a value that stands for its term and is written. -/
structure ComesOut (py : Python φ) (f : Form) (T : ExternalTerm) : Prop where
  readable : Readable py f
  meaning : (python py f).meaning = some T
  written : (termBinary py (python py f)).isOk = true

theorem comesOut_list {l : List Form} (hterm : termList l = some Ts)
    (h : ∀ f ∈ l, ∀ T, f.term = some T → ComesOut py f T) :
    ReadableList py l ∧ meaningList (pythonList py l) = some Ts ∧
      ∀ t ∈ pythonList py l, (termBinary py t).isOk = true := by
  induction l generalizing Ts with
  | nil =>
    cases hterm
    exact ⟨trivial, rfl, nofun⟩
  | cons f l ih =>
    obtain ⟨T, Us, hT, hUs, rfl⟩ := of_termList_cons hterm
    obtain ⟨hread, hmeaning, hwritten⟩ := h f mem_cons_self T hT
    obtain ⟨hreads, hmeanings, hall⟩ := ih hUs fun g hg => h g (mem_cons_of_mem f hg)
    exact ⟨⟨hread, hreads⟩, meaningList_cons hmeaning hmeanings,
      forall_mem_cons.mpr ⟨hwritten, hall⟩⟩

theorem comesOut_entries (hterm : termEntries l = some Ps)
    (hunfrozen : ∀ x ∈ l, Unfrozen (python py x.1))
    (h : ∀ x ∈ l, (∀ T, x.1.term = some T → ComesOut py x.1 T) ∧
      ∀ T, x.2.term = some T → ComesOut py x.2 T) :
    ReadableEntries py l ∧ meaningEntries (pythonEntries py l) = some Ps ∧
      ∀ x ∈ pythonEntries py l,
        (termBinary py x.1).isOk = true ∧ (termBinary py x.2).isOk = true := by
  induction l generalizing Ps with
  | nil =>
    cases hterm
    exact ⟨trivial, rfl, nofun⟩
  | cons x l ih =>
    obtain ⟨k, v⟩ := x
    obtain ⟨K, V, Us, hK, hV, hUs, rfl⟩ := of_termEntries_cons hterm
    obtain ⟨hk, hv⟩ := h (k, v) mem_cons_self
    obtain ⟨hkread, hkmeaning, hkwritten⟩ := hk K hK
    obtain ⟨hvread, hvmeaning, hvwritten⟩ := hv V hV
    obtain ⟨hbinary, hmeaning⟩ := keyOf_unfrozen py (hunfrozen (k, v) mem_cons_self)
    obtain ⟨hreads, hmeanings, hall⟩ := ih hUs (fun y hy => hunfrozen y (mem_cons_of_mem _ hy))
      fun y hy => h y (mem_cons_of_mem _ hy)
    refine ⟨⟨hkread, hvread, hreads⟩,
      meaningEntries_cons (hmeaning.trans hkmeaning) hvmeaning hmeanings,
      forall_mem_cons.mpr ⟨⟨?_, hvwritten⟩, hall⟩⟩
    rw [hbinary]
    exact hkwritten

theorem reencodableList_iff {l : List Form} : ReencodableList py l ↔ ∀ f ∈ l, Reencodable py f := by
  induction l with
  | nil => simp [ReencodableList]
  | cons f l ih => rw [ReencodableList, ih, forall_mem_cons]

theorem reencodableEntries_iff : ReencodableEntries py l ↔
      ∀ x ∈ l, Reencodable py x.1 ∧ Reencodable py x.2 := by
  induction l with
  | nil => simp [ReencodableEntries]
  | cons x l ih => rw [ReencodableEntries, ih, forall_mem_cons, and_assoc]

variable (py) in
/-- **A form that meets the condition comes out.** -/
theorem comesOut (hfits : f.Fits) (hterm : f.term = some T) (h : Reencodable py f) :
    ComesOut py f T := by
  induction f using Form.induct generalizing T with
  | leaf head body =>
    obtain ⟨hsigned, t, ht⟩ := Leaf.value_of_term py hterm
    have hpython : python py (.leaf head body) = t := by rw [python, ht]
    obtain ⟨b, hb⟩ := leaf_written hfits hterm ht
    refine ⟨trivial, ?_, ?_⟩
    · rw [hpython]
      exact (Leaf.meaning_eq hfits hsigned ht).trans hterm
    · rw [hpython, hb]
      rfl
  | sequence s l ih =>
    obtain ⟨Ts, hTs, hterm⟩ := bind_eq_some_iff.mp hterm
    cases hterm
    obtain ⟨hs, hl⟩ := hfits
    obtain ⟨hshort, hall⟩ := h
    rw [← length_pythonList py] at hs
    obtain ⟨hreads, hmeaning, hwritten⟩ := comesOut_list hTs fun f hf T hT =>
      ih f hf (fitsList_iff.mp hl f hf) hT (reencodableList_iff.mp hall f hf)
    exact ⟨hreads, meaning_sequence hs hmeaning, (sequence_written hs).mpr ⟨hshort, hwritten⟩⟩
  | map l ih =>
    obtain ⟨Ps, hPs, hterm⟩ := bind_eq_some_iff.mp hterm
    cases hterm
    obtain ⟨hlen, hl⟩ := hfits
    obtain ⟨⟨hkeys, hunfrozen⟩, hall⟩ := h
    obtain ⟨hreads, hmeaning, hwritten⟩ := comesOut_entries hPs hunfrozen fun x hx =>
      ⟨fun T hT => (ih x hx).1 (fitsEntries_iff.mp hl x hx).1 hT
          (reencodableEntries_iff.mp hall x hx).1,
        fun T hT => (ih x hx).2 (fitsEntries_iff.mp hl x hx).2 hT
          (reencodableEntries_iff.mp hall x hx).2⟩
    obtain ⟨hassignable, hassign⟩ : Assignable py [] _ ∧ assignAll py [] _ = [] ++ _ :=
      assignable_of_apart hkeys.hashed hkeys.apart
    rw [nil_append] at hassign
    refine ⟨⟨hassignable, hreads⟩, ?_, ?_⟩
    · rw [python, hassign, Term.meaning, hmeaning]
      rfl
    · rw [python, hassign, dict_written, length_pythonEntries]
      exact ⟨Nat.le_of_lt_succ hlen, hwritten⟩
  | exportFun form =>
    have hfunction := hterm
    obtain ⟨u, -, hterm⟩ := bind_eq_some_iff.mp hterm
    cases hterm
    exact ⟨trivial, meaning_function hfits rfl hfunction, rfl⟩
  | function head l ih =>
    have hfunction := hterm
    obtain ⟨u, -, hterm⟩ := bind_eq_some_iff.mp hterm
    obtain ⟨Ts, -, hterm⟩ := bind_eq_some_iff.mp hterm
    cases hterm
    exact ⟨h, meaning_function hfits rfl hfunction, rfl⟩

/-! ## what is lost -/

/-- **A form shrinks** unless it meets the condition. -/
def Shrinks (py : Python φ) (f : Form) (T : ExternalTerm) : Prop :=
  ∃ T', (python py f).meaning = some T' ∧ T'.cells ≤ T.cells ∧
    (T'.cells = T.cells → (termBinary py (python py f)).isOk = true →
      Reencodable py f)

theorem shrinks_list {l : List Form} (hterm : termList l = some Ts)
    (h : ∀ f ∈ l, ∀ T, f.term = some T → Shrinks py f T) :
    ∃ Ts', meaningList (pythonList py l) = some Ts' ∧ Ts'.length = Ts.length ∧
      cellsList Ts' ≤ cellsList Ts ∧ (cellsList Ts' = cellsList Ts →
        (∀ t ∈ pythonList py l, (termBinary py t).isOk = true) →
          ReencodableList py l) := by
  induction l generalizing Ts with
  | nil =>
    cases hterm
    exact ⟨[], rfl, rfl, Nat.le_refl _, fun _ _ => trivial⟩
  | cons f l ih =>
    obtain ⟨T, Us, hT, hUs, rfl⟩ := of_termList_cons hterm
    obtain ⟨T', hmeaning, hle, hsame⟩ := h f mem_cons_self T hT
    obtain ⟨Us', hmeanings, hlen, hle', hsame'⟩ := ih hUs fun g hg =>
      h g (mem_cons_of_mem f hg)
    refine ⟨T' :: Us', meaningList_cons hmeaning hmeanings, congrArg (· + 1) hlen, ?_,
      fun hcells hwritten => ?_⟩
    · rw [cellsList, cellsList]
      omega
    · rw [cellsList, cellsList] at hcells
      obtain ⟨hf, hl⟩ := forall_mem_cons.mp hwritten
      exact ⟨hsame (by omega) hf, hsame' (by omega) hl⟩

theorem shrinks_entries (hterm : termEntries l = some Ps)
    (h : ∀ x ∈ l, (∀ T, x.1.term = some T → Shrinks py x.1 T) ∧
      ∀ T, x.2.term = some T → Shrinks py x.2 T) :
    ∃ Qs, meaningEntries (pythonEntries py l) = some Qs ∧
      cellsEntries Qs ≤ cellsEntries Ps ∧ (cellsEntries Qs = cellsEntries Ps →
        (∀ x ∈ pythonEntries py l,
          (termBinary py x.1).isOk = true ∧ (termBinary py x.2).isOk = true) →
        (∀ x ∈ l, Unfrozen (python py x.1)) ∧ ReencodableEntries py l) := by
  induction l generalizing Ps with
  | nil =>
    cases hterm
    exact ⟨[], rfl, Nat.le_refl _, fun _ _ => ⟨nofun, trivial⟩⟩
  | cons x l ih =>
    obtain ⟨k, v⟩ := x
    obtain ⟨K, V, Us, hK, hV, hUs, rfl⟩ := of_termEntries_cons hterm
    obtain ⟨hk, hv⟩ := h (k, v) mem_cons_self
    obtain ⟨K', hkmeaning, hkle, hksame⟩ := hk K hK
    obtain ⟨V', hvmeaning, hvle, hvsame⟩ := hv V hV
    obtain ⟨K'', hkey, hkeyle, hunfrozen⟩ := meaning_keyOf hkmeaning
    obtain ⟨Qs, hmeanings, hle, hsame⟩ := ih hUs fun y hy => h y (mem_cons_of_mem _ hy)
    refine ⟨(K'', V') :: Qs, meaningEntries_cons hkey hvmeaning hmeanings, ?_,
      fun hcells hwritten => ?_⟩
    · rw [cellsEntries, cellsEntries]
      omega
    · rw [cellsEntries, cellsEntries] at hcells
      obtain ⟨⟨hkwritten, hvwritten⟩, hall⟩ := forall_mem_cons.mp hwritten
      have hkeyunfrozen := hunfrozen (by omega)
      rw [(keyOf_unfrozen _ hkeyunfrozen).1] at hkwritten
      obtain ⟨hunfrozens, hentries⟩ := hsame (by omega) hall
      exact ⟨forall_mem_cons.mpr ⟨hkeyunfrozen, hunfrozens⟩,
        hksame (by omega) hkwritten, hvsame (by omega) hvwritten, hentries⟩

theorem cells_improper (Ts : List ExternalTerm) (hne : Ts ≠ []) :
    (improper Ts).cells + 1 = Ts.length + cellsList Ts := by
  obtain rfl | ⟨Us, T, rfl⟩ := eq_nil_or_concat Ts
  · exact absurd rfl hne
  have hcells : cellsList (Us ++ [T]) = cellsList Us + T.cells := by
    clear hne
    induction Us with
    | nil => simp [cellsList]
    | cons U Us ih =>
      rw [cons_append, cellsList, cellsList, ih]
      omega
  rw [concat_eq_append, improper_concat, cells_foldr_cons, hcells, length_append,
    length_singleton]
  omega

theorem cells_sequence (s : Sequence) (hlen : Ts'.length = Ts.length)
    (hle : cellsList Ts' ≤ cellsList Ts) :
    (s.term Ts').cells ≤ (s.term Ts).cells ∧
      ((s.term Ts').cells = (s.term Ts).cells → cellsList Ts' = cellsList Ts) := by
  cases s with
  | list =>
    rw [Sequence.term, Sequence.term]
    by_cases hnil : Ts = []
    · subst hnil
      obtain rfl := length_eq_zero_iff.mp hlen
      exact ⟨Nat.le_refl _, fun _ => rfl⟩
    · have hne : Ts' ≠ [] := by
        rintro rfl
        exact hnil (length_eq_zero_iff.mp hlen.symm)
      have hTs := cells_improper Ts hnil
      have hTs' := cells_improper Ts' hne
      exact ⟨by omega, fun h => by omega⟩
  | _ =>
    rw [Sequence.term, Sequence.term, cells, cells]
    exact ⟨hle, id⟩

/-- **A form that is read shrinks** unless it meets the condition. -/
theorem shrinks (hfits : f.Fits) (hterm : f.term = some T) (h : Readable py f) :
    Shrinks py f T := by
  induction f using Form.induct generalizing T with
  | sequence s l ih =>
    obtain ⟨Ts, hTs, hterm⟩ := bind_eq_some_iff.mp hterm
    cases hterm
    obtain ⟨hs, hl⟩ := hfits
    rw [← length_pythonList py] at hs
    have hreads := readableList_iff.mp h
    obtain ⟨Ts', hmeaning, hlen, hle, hsame⟩ := shrinks_list hTs fun f hf T hT =>
      ih f hf (fitsList_iff.mp hl f hf) hT (hreads f hf)
    obtain ⟨hcells, hcells'⟩ := cells_sequence s hlen hle
    refine ⟨s.term Ts', meaning_sequence hs hmeaning, hcells, fun heq hwritten => ?_⟩
    obtain ⟨hshort, hall⟩ := (sequence_written hs).mp hwritten
    exact ⟨hshort, hsame (hcells' heq) hall⟩
  | map l ih =>
    obtain ⟨Ps, hPs, hterm⟩ := bind_eq_some_iff.mp hterm
    cases hterm
    obtain ⟨hlen, hl⟩ := hfits
    obtain ⟨hassign, hall⟩ := h
    have hreads := readableEntries_iff.mp hall
    obtain ⟨Qs, hQs, hle, hsame⟩ := shrinks_entries hPs fun x hx =>
      ⟨fun T hT => (ih x hx).1 (fitsEntries_iff.mp hl x hx).1 hT (hreads x hx).1,
        fun T hT => (ih x hx).2 (fitsEntries_iff.mp hl x hx).2 hT (hreads x hx).2⟩
    have hnil : meaningEntries ([] : List (Term φ × Term φ)) = some [] := rfl
    obtain ⟨Rs, hRs, hle', hsame'⟩ := meaning_assignAll [] List.Pairwise.nil hassign hnil hQs
    rw [cellsEntries, Nat.zero_add] at hle' hsame'
    refine ⟨.map Rs, ?_, ?_, fun heq hwritten => ?_⟩
    · rw [python, Term.meaning, hRs]
      rfl
    · rw [cells, cells]
      omega
    · rw [cells, cells] at heq
      have hapart : (pythonEntries py l).Pairwise fun x y => Apart py x.1 y.1 :=
        hsame' (by omega)
      have hhashed := hashed_of_assignable hassign
      rw [python, (assignable_of_apart hhashed hapart).2, nil_append,
        dict_written] at hwritten
      obtain ⟨hunfrozen, hentries⟩ := hsame (by omega) hwritten.2
      exact ⟨⟨⟨hhashed, hapart⟩, hunfrozen⟩, hentries⟩
  | function head l ih =>
    obtain ⟨-, hmeaning, -⟩ := comesOut py hfits hterm h
    exact ⟨T, hmeaning, Nat.le_refl _, fun _ _ => h⟩
  | _ =>
    obtain ⟨-, hmeaning, -⟩ := comesOut py hfits hterm trivial
    exact ⟨T, hmeaning, Nat.le_refl _, fun _ _ => trivial⟩

end Form

/-! ## reencoding -/

/-- **A form is reencoded**: it is read, and what is written of the value is an encoding of its
term again. -/
def Reencodes (py : Python φ) (f : Form) (T : ExternalTerm) : Prop :=
  ∃ t b, binaryToTerm py (131 :: f.bytes) = .ok t ∧
    termToBinary py t = .ok (131 :: b) ∧ Encodes b T

/-- The form of a small number. -/
def smallForm (x : Byte) : Form := .leaf .smallInteger [x]

/-- The form of a short atom. -/
def atomForm (name : String) : Form :=
  .leaf (.atom (.name false true (ofText name).length)) (ofText name)

/-- A list of a number. -/
def listForm : Form := .sequence .list [smallForm 1, nilForm]

/-- A map with an improper list, whose key is an old atom and whose tail is a bignum. -/
def mapForm : Form :=
  .map [(.leaf (.atom (.name false false 1)) [97],
      .sequence .list [smallForm 1, .leaf (.bignum false 1) [0, 2]]),
    (smallForm 7, listForm)]

theorem fits_smallForm (x : Byte) : (smallForm x).Fits := ⟨trivial, rfl⟩

theorem fits_atomForm {name : String} (h : (ofText name).length < 256) : (atomForm name).Fits :=
  ⟨h, rfl⟩

theorem fits_pair {g : Form} (hf : f.Fits) (hg : g.Fits) : (Form.sequence .list [f, g]).Fits :=
  ⟨⟨Nat.succ_pos 1, (by decide : 2 ≤ 4294967296)⟩, hf, hg, trivial⟩

theorem fits_singleton (hf : f.Fits) : (Form.sequence .smallTuple [f]).Fits :=
  ⟨(by decide : 1 < 256), hf, trivial⟩

theorem fits_entry {k v : Form} (hk : k.Fits) (hv : v.Fits) : (Form.map [(k, v)]).Fits :=
  ⟨(by decide : 1 < 4294967296), hk, hv, trivial⟩

/-- The keys `1` and `true`. -/
def equalKeys : Form := .map [(smallForm 1, smallForm 2), (atomForm "true", smallForm 3)]

/-- A map with a list as a key. -/
def frozenKey : Form := .map [(.map [(atomForm "a", listForm)], smallForm 1)]

/-- A tuple of a list as a key. -/
def tupleKey : Form := .map [(.sequence .smallTuple [listForm], smallForm 1)]

/-- The keys `"s\x01a"` and `a`, whose hash values are the same. -/
def comparedKeys : Form :=
  .map [(.leaf (.string 3) [115, 1, 97], smallForm 1), (atomForm "a", smallForm 2)]

theorem not_encodes {U : ExternalTerm} (hfits : f.Fits) (hterm : f.term = some U)
    (hcells : U.cells ≠ T.cells) : ¬ Encodes f.bytes T := by
  rintro ⟨g, hg, hbytes, T', hT', hsame⟩
  obtain rfl := Form.eq_of_bytes hg hfits hbytes
  cases hT'.symm.trans hterm
  exact hcells hsame.cells

end CloudI.ApiPython.Erlang
