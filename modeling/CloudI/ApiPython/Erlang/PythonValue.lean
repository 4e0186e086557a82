import CloudI.ApiPython.Erlang.Meaning

/-!
# ApiPython.Erlang.PythonValue

The Python value that a form stands for, and when the decoder does not fail on it: the keys of a
map can be assigned, one after the other.
-/

namespace CloudI.ApiPython.Erlang

open Binary CloudI.Except List
open Option (bind_eq_some_iff)

variable {φ : Type} {py : Python φ}

/-! ## assignments -/

/-- An assignment to a dict that does not fail. -/
def assign (py : Python φ) : List (Term φ × Term φ) → Term φ → Term φ → List (Term φ × Term φ)
  | [], key, value => [(key, value)]
  | x :: l, key, value =>
      if sameKey py x.1 key = .ok true then (x.1, value) :: l else x :: assign py l key value

/-- The assignments of entries, one after the other. -/
def assignAll (py : Python φ) (pairs : List (Term φ × Term φ)) :
    List (Term φ × Term φ) → List (Term φ × Term φ)
  | [] => pairs
  | x :: l => assignAll py (assign py pairs x.1 x.2) l

/-- The assignments of entries, which can fail. -/
def setItems (py : Python φ) (pairs : List (Term φ × Term φ)) :
    List (Term φ × Term φ) → Except Exception (List (Term φ × Term φ))
  | [] => .ok pairs
  | x :: l => do
      let pairs ← setItem py pairs x.1 x.2
      setItems py pairs l

/-- **Keys that can be assigned**: none fails at those that are assigned before it. -/
def Assignable (py : Python φ) (pairs : List (Term φ × Term φ)) :
    List (Term φ × Term φ) → Prop
  | [] => True
  | x :: l => (∀ e, ¬ KeyFails py pairs x.1 e) ∧ Assignable py (assign py pairs x.1 x.2) l

section

variable {pairs pairs' l : List (Term φ × Term φ)} {key value : Term φ}

theorem assign_of_apart (h : ∀ x ∈ pairs, Apart py x.1 key) :
    assign py pairs key value = pairs ++ [(key, value)] := by
  induction pairs with
  | nil => rfl
  | cons x pairs ih =>
    obtain ⟨hx, hpairs⟩ := forall_mem_cons.mp h
    have hne : ¬ sameKey py x.1 key = .ok true := by
      rw [show sameKey py x.1 key = .ok false from hx]
      decide
    rw [assign, if_neg hne, ih hpairs, cons_append]

theorem assign_of_same {before after : List (Term φ × Term φ)}
    (h : ∀ y ∈ before, Apart py y.1 key) (hx : sameKey py x.1 key = .ok true) :
    assign py (before ++ x :: after) key value = before ++ (x.1, value) :: after := by
  induction before with
  | nil => rw [nil_append, assign, if_pos hx, nil_append]
  | cons y before ih =>
    obtain ⟨hy, hbefore⟩ := forall_mem_cons.mp h
    have hne : ¬ sameKey py y.1 key = .ok true := by
      rw [show sameKey py y.1 key = .ok false from hy]
      decide
    rw [cons_append, assign, if_neg hne, ih hbefore, cons_append]

/-- **An assignment fails** on a key that cannot be assigned. -/
theorem setItem_eq_ok : setItem py pairs key value = .ok pairs' ↔
      (∀ e, ¬ KeyFails py pairs key e) ∧ pairs' = assign py pairs key value := by
  have hset : ∀ pairs₁, setItem py pairs key value = .ok pairs₁ →
      assign py pairs key value = pairs₁ → (setItem py pairs key value = .ok pairs' ↔
        (∀ e, ¬ KeyFails py pairs key e) ∧ pairs' = assign py pairs key value) := by
    intro pairs₁ hok hassign
    rw [hok, hassign, Except.ok.injEq]
    exact ⟨fun h => ⟨not_keyFails hok, h.symm⟩, fun h => h.2.symm⟩
  rcases setItem_cases py pairs key with ⟨e, hfails⟩ | ⟨hhash, hfirst | hall⟩
  · rw [setItem_of_keyFails hfails]
    exact ⟨(fun h => by cases h), fun h => absurd hfails (h.1 e)⟩
  · obtain ⟨before, x, after, rfl, hbefore, hx⟩ := hfirst
    exact hset _ (setItem_of_same hhash hbefore hx) (assign_of_same hbefore hx)
  · exact hset _ (setItem_of_apart hhash hall) (assign_of_apart hall)

/-- **Assignments do not fail** exactly when the keys can be assigned. -/
theorem setItems_eq_ok : setItems py pairs l = .ok pairs' ↔
      Assignable py pairs l ∧ pairs' = assignAll py pairs l := by
  induction l generalizing pairs with
  | nil => exact ⟨fun h => ⟨trivial, (Except.ok.inj h).symm⟩, fun h => congrArg Except.ok h.2.symm⟩
  | cons x l ih =>
    constructor
    · intro h
      obtain ⟨pairs₁, hset, h⟩ := ok_of_bind h
      obtain ⟨hnot, rfl⟩ := setItem_eq_ok.mp hset
      obtain ⟨hassign, rfl⟩ := ih.mp h
      exact ⟨⟨hnot, hassign⟩, rfl⟩
    · rintro ⟨⟨hnot, hassign⟩, rfl⟩
      rw [setItems, setItem_eq_ok.mpr ⟨hnot, rfl⟩, ok_bind]
      exact ih.mpr ⟨hassign, rfl⟩

theorem hashed_of_assignable (h : Assignable py pairs l) : ∀ x ∈ l, hash py x.1 = .ok () := by
  induction l generalizing pairs with
  | nil => exact forall_mem_nil _
  | cons x l ih =>
    refine forall_mem_cons.mpr ⟨?_, ih h.2⟩
    cases hhash : hash py x.1 with
    | error e => exact absurd (.inl hhash) (h.1 e)
    | ok u => rfl

/-- **Keys that are apart** can be assigned, and every one adds an entry. -/
theorem assignable_of_apart (hhashed : ∀ x ∈ l, hash py x.1 = .ok ())
    (hapart : (pairs ++ l).Pairwise fun x y => Apart py x.1 y.1) :
    Assignable py pairs l ∧ assignAll py pairs l = pairs ++ l := by
  induction l generalizing pairs with
  | nil => exact ⟨trivial, (append_nil pairs).symm⟩
  | cons x l ih =>
    have hnew : ∀ y ∈ pairs, Apart py y.1 x.1 := fun y hy =>
      (pairwise_append.mp hapart).2.2 y hy x mem_cons_self
    have hset : setItem py pairs x.1 x.2 = _ :=
      setItem_of_apart (hhashed x mem_cons_self) hnew
    have hrest : (pairs ++ [x] ++ l).Pairwise fun x y => Apart py x.1 y.1 := by
      rwa [append_assoc]
    obtain ⟨hassign, hall⟩ := ih (fun y hy => hhashed y (mem_cons_of_mem x hy)) hrest
    have heq : assign py pairs x.1 x.2 = pairs ++ [x] := assign_of_apart hnew
    refine ⟨⟨(setItem_eq_ok.mp hset).1, ?_⟩, ?_⟩
    · rwa [heq]
    · rw [assignAll, heq, hall, append_assoc]
      rfl

end

/-! ## the value of a form -/

namespace Form

mutual

/-- **The Python value of a form**, when no assignment fails. -/
def python (py : Python φ) : Form → Term φ
  | .leaf head body =>
      match head.value py body with
      | .ok t => t
      | .error _ => .none
  | .sequence s l => s.value (pythonList py l)
  | .map l => .dict (assignAll py [] (pythonEntries py l))
  | .exportFun form => .function Tag.exportExt.code form.bytes
  | .function head l =>
      .function Tag.funExt.code (bigEndian 4 l.length ++ (head.bytes ++ bytesList l))

/-- The Python values of forms. -/
def pythonList (py : Python φ) : List Form → List (Term φ)
  | [] => []
  | f :: l => python py f :: pythonList py l

/-- The entries that are assigned for the keys and values of a map. -/
def pythonEntries (py : Python φ) : List (Form × Form) → List (Term φ × Term φ)
  | [] => []
  | (k, v) :: l => (keyOf (python py k), python py v) :: pythonEntries py l

end

mutual

/-- **A form is read**: the keys of every map in it can be assigned. -/
def Readable (py : Python φ) : Form → Prop
  | .leaf _ _ => True
  | .sequence _ l => ReadableList py l
  | .map l => Assignable py [] (pythonEntries py l) ∧ ReadableEntries py l
  | .exportFun _ => True
  | .function _ l => ReadableList py l

/-- All forms of a list are read. -/
def ReadableList (py : Python φ) : List Form → Prop
  | [] => True
  | f :: l => Readable py f ∧ ReadableList py l

/-- All keys and values are read. -/
def ReadableEntries (py : Python φ) : List (Form × Form) → Prop
  | [] => True
  | (k, v) :: l => Readable py k ∧ Readable py v ∧ ReadableEntries py l

end

theorem readableList_iff : ReadableList py l ↔ ∀ f ∈ l, Readable py f := by
  induction l with
  | nil => simp [ReadableList]
  | cons f l ih => rw [ReadableList, ih, forall_mem_cons]

variable {l : List (Form × Form)}

theorem readableEntries_iff :
    ReadableEntries py l ↔ ∀ x ∈ l, Readable py x.1 ∧ Readable py x.2 := by
  induction l with
  | nil => simp [ReadableEntries]
  | cons x l ih => rw [ReadableEntries, ih, forall_mem_cons, and_assoc]

/-- The decoder fails on no other form, and makes the Python value of it. -/
def Reads (py : Python φ) (f : Form) : Prop :=
  ∀ t, value py f = .ok t ↔ Readable py f ∧ t = python py f

variable (py) in
theorem reads_list {l : List Form} (h : ∀ f ∈ l, Reads py f) (ts : List (Term φ)) :
    valueList py l = .ok ts ↔ ReadableList py l ∧ ts = pythonList py l := by
  induction l generalizing ts with
  | nil =>
    constructor
    · intro h
      cases h
      exact ⟨trivial, rfl⟩
    · rintro ⟨-, rfl⟩
      rfl
  | cons f l ih =>
    have hf := h f mem_cons_self
    have hl := ih fun g hg => h g (mem_cons_of_mem f hg)
    constructor
    · intro hvalue
      obtain ⟨t, ht, hvalue⟩ := ok_of_bind hvalue
      obtain ⟨ts', hts, hvalue⟩ := ok_of_bind hvalue
      cases hvalue
      obtain ⟨hread, rfl⟩ := (hf t).mp ht
      obtain ⟨hreads, rfl⟩ := (hl ts').mp hts
      exact ⟨⟨hread, hreads⟩, rfl⟩
    · rintro ⟨⟨hread, hreads⟩, rfl⟩
      rw [valueList, (hf _).mpr ⟨hread, rfl⟩, (hl _).mpr ⟨hreads, rfl⟩]
      rfl

variable (py) in
theorem reads_entries (h : ∀ x ∈ l, Reads py x.1 ∧ Reads py x.2)
    (pairs pairs' : List (Term φ × Term φ)) :
    valueEntries py l pairs = .ok pairs' ↔
      ReadableEntries py l ∧ setItems py pairs (pythonEntries py l) = .ok pairs' := by
  induction l generalizing pairs with
  | nil =>
    constructor
    · exact fun h => ⟨trivial, h⟩
    · exact fun h => h.2
  | cons x l ih =>
    obtain ⟨k, v⟩ := x
    obtain ⟨hk, hv⟩ := h (k, v) mem_cons_self
    have hl := ih fun y hy => h y (mem_cons_of_mem _ hy)
    constructor
    · intro hvalue
      obtain ⟨key, hkey, hvalue⟩ := ok_of_bind hvalue
      obtain ⟨value, hval, hvalue⟩ := ok_of_bind hvalue
      obtain ⟨pairs₁, hset, hrest⟩ := ok_of_bind hvalue
      obtain ⟨hkread, rfl⟩ := (hk key).mp hkey
      obtain ⟨hvread, rfl⟩ := (hv value).mp hval
      obtain ⟨hreads, hitems⟩ := (hl pairs₁).mp hrest
      refine ⟨⟨hkread, hvread, hreads⟩, ?_⟩
      rw [pythonEntries, setItems, hset]
      exact hitems
    · rintro ⟨⟨hkread, hvread, hreads⟩, hitems⟩
      obtain ⟨pairs₁, hset, hitems⟩ := ok_of_bind hitems
      rw [valueEntries, (hk _).mpr ⟨hkread, rfl⟩, (hv _).mpr ⟨hvread, rfl⟩, ok_bind, ok_bind,
        hset, ok_bind]
      exact (hl pairs₁).mpr ⟨hreads, hitems⟩

theorem termList_mem {l : List Form} {Ts : List ExternalTerm} (h : termList l = some Ts) :
    ∀ f ∈ l, ∃ T, f.term = some T := by
  induction l generalizing Ts with
  | nil => nofun
  | cons f l ih =>
    obtain ⟨T, hT, h⟩ := bind_eq_some_iff.mp h
    obtain ⟨Ts', hTs, -⟩ := bind_eq_some_iff.mp h
    exact forall_mem_cons.mpr ⟨⟨T, hT⟩, ih hTs⟩

theorem termEntries_mem (h : termEntries l = some Ts) :
    ∀ x ∈ l, (∃ T, x.1.term = some T) ∧ ∃ T, x.2.term = some T := by
  induction l generalizing Ts with
  | nil => nofun
  | cons x l ih =>
    obtain ⟨K, hK, h⟩ := bind_eq_some_iff.mp h
    obtain ⟨V, hV, h⟩ := bind_eq_some_iff.mp h
    obtain ⟨Ts', hTs, -⟩ := bind_eq_some_iff.mp h
    exact forall_mem_cons.mpr ⟨⟨⟨K, hK⟩, ⟨V, hV⟩⟩, ih hTs⟩

theorem check_of_named {head : FunHead} (h : head.named = some ()) : head.check = .ok () := by
  obtain ⟨node, hnode, h⟩ := bind_eq_some_iff.mp h
  obtain ⟨module, hmodule, -⟩ := bind_eq_some_iff.mp h
  obtain ⟨v, hv⟩ := AtomHead.value_of_atomName hnode
  obtain ⟨v', hv'⟩ := AtomHead.value_of_atomName hmodule
  rw [FunHead.check, hv, hv']
  rfl

theorem check_of_named' {form : ExportForm} (h : form.named = some ()) : form.check = .ok () := by
  obtain ⟨module, hmodule, h⟩ := bind_eq_some_iff.mp h
  obtain ⟨function, hfunction, -⟩ := bind_eq_some_iff.mp h
  obtain ⟨v, hv⟩ := AtomHead.value_of_atomName hmodule
  obtain ⟨v', hv'⟩ := AtomHead.value_of_atomName hfunction
  rw [ExportForm.check, hv, hv']
  rfl

variable (py) in
/-- **The decoder fails on a form of a term** only if the keys of a map cannot be assigned. -/
theorem reads {f : Form} {T : ExternalTerm} (hterm : f.term = some T) : Reads py f := by
  induction f using Form.induct generalizing T with
  | leaf head body =>
    obtain ⟨-, t, ht⟩ := Leaf.value_of_term py hterm
    intro t'
    rw [value, python, ht]
    constructor
    · intro h
      cases h
      exact ⟨trivial, rfl⟩
    · rintro ⟨-, rfl⟩
      rfl
  | sequence s l ih =>
    obtain ⟨Ts, hTs, -⟩ := bind_eq_some_iff.mp hterm
    have hlist := reads_list _ fun f hf => (termList_mem hTs f hf).elim fun T hT => ih f hf hT
    intro t
    rw [value, python]
    constructor
    · intro h
      obtain ⟨ts, hts, h⟩ := ok_of_bind h
      cases h
      obtain ⟨hreads, rfl⟩ := (hlist ts).mp hts
      exact ⟨hreads, rfl⟩
    · rintro ⟨hreads, rfl⟩
      rw [(hlist _).mpr ⟨hreads, rfl⟩]
      rfl
  | map l ih =>
    obtain ⟨Ts, hTs, -⟩ := bind_eq_some_iff.mp hterm
    have hentries := reads_entries py fun x hx =>
      (termEntries_mem hTs x hx).imp (fun h => h.elim fun _ => (ih x hx).1)
        fun h => h.elim fun _ => (ih x hx).2
    intro t
    rw [value, python]
    constructor
    · intro h
      obtain ⟨pairs, hpairs, h⟩ := ok_of_bind h
      cases h
      obtain ⟨hreads, hitems⟩ := (hentries [] pairs).mp hpairs
      obtain ⟨hassign, rfl⟩ := setItems_eq_ok.mp hitems
      exact ⟨⟨hassign, hreads⟩, rfl⟩
    · rintro ⟨⟨hassign, hreads⟩, rfl⟩
      rw [(hentries [] _).mpr ⟨hreads, setItems_eq_ok.mpr ⟨hassign, rfl⟩⟩]
      rfl
  | exportFun form =>
    obtain ⟨u, hnamed, -⟩ := bind_eq_some_iff.mp hterm
    intro t
    rw [value, python, check_of_named' hnamed]
    constructor
    · intro h
      cases h
      exact ⟨trivial, rfl⟩
    · rintro ⟨-, rfl⟩
      rfl
  | function head l ih =>
    obtain ⟨u, hnamed, hterm⟩ := bind_eq_some_iff.mp hterm
    obtain ⟨Ts, hTs, -⟩ := bind_eq_some_iff.mp hterm
    have hlist := reads_list py fun f hf => (termList_mem hTs f hf).elim fun T hT => ih f hf hT
    intro t
    rw [value, python, check_of_named hnamed]
    constructor
    · intro h
      have hfree : (valueList py l >>= fun _ => pure _) = Except.ok t := h
      obtain ⟨ts, hts, hvalue⟩ := ok_of_bind hfree
      cases hvalue
      exact ⟨((hlist ts).mp hts).1, rfl⟩
    · rintro ⟨hreads, rfl⟩
      show (valueList py l >>= fun _ => _) = _
      rw [(hlist _).mpr ⟨hreads, rfl⟩]
      rfl

end Form

end CloudI.ApiPython.Erlang
