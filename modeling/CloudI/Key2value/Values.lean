import CloudI.Key2value.Operations

/-!
# Key2value.Values

The values of `key2value`: each key of either kind has a copy of its own.

What the copies should be is a `Record`: a value for each association, which a store or an
update changes for all associations that are connected with its key.
-/

namespace CloudI.Key2value

open CloudI.Lists Run Option

variable {κ₁ κ₂ ν ρ₁ ρ₂ : Type} [LinearOrder κ₁] [LinearOrder κ₂] [LinearOrder ρ₁]
  [LinearOrder ρ₂]

/-- The value of a first key. -/
def value1 (k1 : κ₁) (s : Key2value κ₁ κ₂ ν) : Option ν := (find1 k1 s).map Prod.snd

/-- The value of a second key. -/
def value2 (k2 : κ₂) (s : Key2value κ₁ κ₂ ν) : Option ν := (find2 k2 s).map Prod.snd

/-! ## what the values should be -/

/-- **The value of each association**: the last one that was stored or made by an update for
what it is connected with. -/
abbrev Record (κ₁ κ₂ ν : Type) := κ₁ → κ₂ → Option ν

namespace Record

variable (r : Record κ₁ κ₂ ν)

/-- The record with the kinds of its keys exchanged. -/
def swap : Record κ₂ κ₁ ν := fun k2 k1 => r k1 k2

/-- Two first keys that are associated with one second key. -/
def Share (j1 k1 : κ₁) : Prop :=
  ∃ k2, (r j1 k2).isSome = true ∧ (r k1 k2).isSome = true

/-- First keys that are connected by associations. -/
def Connected : κ₁ → κ₁ → Prop := Relation.ReflTransGen r.Share

/-- An association more. -/
def add (k1 : κ₁) (k2 : κ₂) (v : ν) (r : Record κ₁ κ₂ ν) : Record κ₁ κ₂ ν := fun j1 j2 =>
  if j1 = k1 ∧ j2 = k2 then some v else r j1 j2

open Classical in
/-- An update of all associations that are connected with a first key. -/
noncomputable def update1 (k1 : κ₁) (f : ν → ν) (r : Record κ₁ κ₂ ν) : Record κ₁ κ₂ ν :=
  fun j1 j2 => if r.Connected k1 j1 then (r j1 j2).map f else r j1 j2

/-- A store of two keys: the value of all associations that are then connected with them. -/
noncomputable def store (k1 : κ₁) (k2 : κ₂) (v : ν) (r : Record κ₁ κ₂ ν) : Record κ₁ κ₂ ν :=
  (r.add k1 k2 v).update1 k1 fun _ => v

/-- The record without some associations. -/
def remove (gone : κ₁ → κ₂ → Prop) [∀ j1 j2, Decidable (gone j1 j2)] (r : Record κ₁ κ₂ ν) :
    Record κ₁ κ₂ ν := fun j1 j2 => if gone j1 j2 then none else r j1 j2

/-- What an operation does to the record. -/
noncomputable def apply (r : Record κ₁ κ₂ ν) : Operation κ₁ κ₂ ν → Record κ₁ κ₂ ν
  | .store k1 k2 v => r.store k1 k2 v
  | .update1 k1 f => r.update1 k1 f
  | .update2 k2 f => (r.swap.update1 k2 f).swap
  | .erase k1 k2 => r.remove fun j1 j2 => j1 = k1 ∧ j2 = k2
  | .erase1 k1 => r.remove fun j1 _ => j1 = k1
  | .erase2 k2 => r.remove fun _ j2 => j2 = k2

end Record

/-! ## agreement -/

/-- **The values agree**: the two copies of an association are its value in the record, which
has no other association. -/
structure Agrees (s : Key2value κ₁ κ₂ ν) (r : Record κ₁ κ₂ ν) : Prop where
  isSome : ∀ k1 k2, (r k1 k2).isSome = true ↔ k2 ∈ keys2 k1 s
  value1 : ∀ k1 k2, k2 ∈ keys2 k1 s → value1 k1 s = r k1 k2
  value2 : ∀ k1 k2, k2 ∈ keys2 k1 s → value2 k2 s = r k1 k2

variable {rank1 : κ₁ → ρ₁} {rank2 : κ₂ → ρ₂} {s s' : Key2value κ₁ κ₂ ν} {r : Record κ₁ κ₂ ν}

theorem agrees_empty : Agrees ({} : Key2value κ₁ κ₂ ν) fun _ _ => none where
  isSome k1 k2 := by simp [keys2, find1]
  value1 k1 k2 := by simp [keys2, find1]
  value2 k1 k2 := by simp [keys2, find1]

theorem Agrees.swap (h : Agrees s r) (hs : Mirrors s) : Agrees (Key2value.swap s) r.swap where
  isSome k2 k1 := (h.isSome k1 k2).trans (hs k1 k2)
  value1 k2 k1 hk := h.value2 k1 k2 ((hs k1 k2).mpr hk)
  value2 k2 k1 hk := h.value1 k1 k2 ((hs k1 k2).mpr hk)

/-- The two copies of an association are the same. -/
def Copies (s : Key2value κ₁ κ₂ ν) : Prop :=
  ∀ k1 k2, k2 ∈ keys2 k1 s → Key2value.value1 k1 s = Key2value.value2 k2 s

theorem Agrees.copies (h : Agrees s r) : Copies s := fun k1 k2 hk => by
  rw [h.value1 k1 k2 hk, h.value2 k1 k2 hk]

/-- The record that a map with equal copies agrees with. -/
theorem Copies.agrees (h : Copies s)
    (hr : ∀ k1 k2, r k1 k2 = if k2 ∈ keys2 k1 s then Key2value.value1 k1 s else none) :
    Agrees s r := by
  have hvalue : ∀ k1 k2, k2 ∈ keys2 k1 s → Key2value.value1 k1 s = r k1 k2 := by
    intro k1 k2 hk
    rw [hr, if_pos hk]
  refine ⟨fun k1 k2 => ?_, hvalue, fun k1 k2 hk => by rw [← h k1 k2 hk, hvalue k1 k2 hk]⟩
  rw [hr]
  by_cases hk : k2 ∈ keys2 k1 s
  · rw [if_pos hk]
    refine iff_of_true ?_ hk
    rw [Key2value.value1]
    cases hfind : find1 k1 s with
    | none =>
      rw [keys2, hfind] at hk
      exact absurd hk List.not_mem_nil
    | some x => rfl
  · rw [if_neg hk]
    exact iff_of_false (by simp) hk

theorem Agrees.eq (h : Agrees s r) (k1 : κ₁) (k2 : κ₂) :
    r k1 k2 = if k2 ∈ keys2 k1 s then Key2value.value1 k1 s else none := by
  by_cases hk : k2 ∈ keys2 k1 s
  · rw [if_pos hk, h.value1 k1 k2 hk]
  · rw [if_neg hk, ← not_isSome_iff_eq_none, h.isSome]
    exact hk

theorem Copies.connected (h : Copies s) (hr : ∀ k1 k2, (r k1 k2).isSome = true → k2 ∈ keys2 k1 s)
    (hconnected : r.Connected k1 j1) : Key2value.value1 j1 s = Key2value.value1 k1 s := by
  induction hconnected with
  | refl => rfl
  | tail _ hshare ih =>
    obtain ⟨k2, hb, hc⟩ := hshare
    rw [← ih, h _ k2 (hr _ k2 hc), h _ k2 (hr _ k2 hb)]

omit [LinearOrder κ₂] in
/-- A first key that is connected with another one is that key, or that key shares a second key
with a third one. -/
theorem Record.Connected.eq_or_shares (h : r.Connected k1 j1) :
    j1 = k1 ∨ ∃ i1, i1 ≠ k1 ∧ r.Share k1 i1 := by
  induction h with
  | refl => exact .inl rfl
  | @tail b c _ hshare ih =>
    rcases ih with rfl | hother
    · by_cases hc : c = b
      · exact .inl hc
      · exact .inr ⟨c, hc, hshare⟩
    · exact .inr hother

/-! ## store -/

/-- The other keys of a store have its value already. -/
structure Carries (k1 : κ₁) (k2 : κ₂) (v : ν) (s : Key2value κ₁ κ₂ ν) : Prop where
  keys2 : ∀ j2 ∈ keys2 k1 s, j2 ≠ k2 → value2 j2 s = some v
  keys1 : ∀ j1 ∈ keys1 k2 s, j1 ≠ k1 → value1 j1 s = some v

theorem value1_storeBy (k1 j1 : κ₁) (k2 : κ₂) (v : ν) (s : Key2value κ₁ κ₂ ν) :
    value1 j1 (storeBy rank1 rank2 k1 k2 v s) = if k1 = j1 then some v else value1 j1 s := by
  rw [value1, find1_storeBy]
  by_cases hk : k1 = j1
  · rw [if_pos hk, if_pos hk]
    rfl
  · rw [if_neg hk, if_neg hk, value1]

theorem value2_storeBy (k1 : κ₁) (k2 j2 : κ₂) (v : ν) (s : Key2value κ₁ κ₂ ν) :
    value2 j2 (storeBy rank1 rank2 k1 k2 v s) = if k2 = j2 then some v else value2 j2 s := by
  show value1 j2 (storeBy rank2 rank1 k2 k1 v (Key2value.swap s)) = _
  rw [value1_storeBy]
  rfl

/-- **A store keeps the copies equal exactly when the other keys have its value.** -/
theorem Copies.storeBy_iff (h : Copies s) (hs : Associates rank1 rank2 s) (k1 : κ₁) (k2 : κ₂)
    (v : ν) : Copies (storeBy rank1 rank2 k1 k2 v s) ↔ Carries k1 k2 v s := by
  constructor
  · intro hstored
    refine ⟨fun j2 hj hne => ?_, fun j1 hj hne => ?_⟩
    · have hmem : j2 ∈ keys2 k1 (storeBy rank1 rank2 k1 k2 v s) := by
        rw [hs.mem_keys2_storeBy, if_neg fun hboth => hne hboth.2]
        exact hj
      have hcopy := hstored k1 j2 hmem
      rw [value1_storeBy, if_pos rfl, value2_storeBy, if_neg (Ne.symm hne)] at hcopy
      exact hcopy.symm
    · have hmem : k2 ∈ keys2 j1 (storeBy rank1 rank2 k1 k2 v s) := by
        rw [hs.mem_keys2_storeBy, if_neg fun hboth => hne hboth.1, hs.mem]
        exact hj
      have hcopy := hstored j1 k2 hmem
      rw [value1_storeBy, if_neg (Ne.symm hne), value2_storeBy, if_pos rfl] at hcopy
      exact hcopy
  · intro hcarries j1 j2 hj
    rw [hs.mem_keys2_storeBy] at hj
    rw [value1_storeBy, value2_storeBy]
    by_cases hk1 : k1 = j1 <;> by_cases hk2 : k2 = j2
    · rw [if_pos hk1, if_pos hk2]
    · rw [if_neg fun hboth => hk2 hboth.2.symm, ← hk1] at hj
      rw [if_pos hk1, if_neg hk2, hcarries.keys2 j2 hj (Ne.symm hk2)]
    · rw [if_neg fun hboth => hk1 hboth.1.symm, ← hk2, hs.mem] at hj
      rw [if_neg hk1, if_pos hk2, hcarries.keys1 j1 hj (Ne.symm hk1)]
    · rw [if_neg fun hboth => hk1 hboth.1.symm] at hj
      rw [if_neg hk1, if_neg hk2, h j1 j2 hj]

theorem Agrees.store (h : Agrees s r) (hs : Associates rank1 rank2 s)
    (hapart : Apart rank2 k2 (keys2 k1 s)) (hcarries : Carries k1 k2 v s) :
    Agrees (storeBy rank1 rank2 k1 k2 v s) (r.store k1 k2 v) := by
  have hcopies : Copies (storeBy rank1 rank2 k1 k2 v s) :=
    (h.copies.storeBy_iff hs k1 k2 v).mpr hcarries
  have hadd : ∀ j1 j2, (r.add k1 k2 v j1 j2).isSome = true ↔
      j2 ∈ keys2 j1 (storeBy rank1 rank2 k1 k2 v s) := by
    intro j1 j2
    rw [hs.mem_keys2_storeBy, Record.add]
    by_cases hboth : j1 = k1 ∧ j2 = k2
    · simp [hboth, hapart]
    · rw [if_neg hboth, if_neg hboth, h.isSome]
  refine hcopies.agrees fun j1 j2 => ?_
  rw [Record.store, Record.update1]
  by_cases hconnected : (r.add k1 k2 v).Connected k1 j1
  · have hvalue := hcopies.connected (fun i1 i2 => (hadd i1 i2).mp) hconnected
    rw [value1_storeBy k1 k1, if_pos rfl] at hvalue
    rw [if_pos hconnected, hvalue]
    by_cases hj : j2 ∈ keys2 j1 (storeBy rank1 rank2 k1 k2 v s)
    · obtain ⟨w, hw⟩ := isSome_iff_exists.mp ((hadd j1 j2).mpr hj)
      rw [if_pos hj, hw]
      rfl
    · have hnone := not_isSome_iff_eq_none.mp (mt (hadd j1 j2).mp hj)
      rw [if_neg hj, hnone]
      rfl
  · have hne : k1 ≠ j1 := by
      rintro rfl
      exact hconnected .refl
    have hnot : ¬ (j1 = k1 ∧ j2 = k2) := fun hboth => hne hboth.1.symm
    rw [if_neg hconnected, Record.add, if_neg hnot, h.eq, value1_storeBy, if_neg hne]
    simp only [hs.mem_keys2_storeBy, if_neg hnot]

/-! ## updates -/

/-- A first key whose second keys have other first keys is updated to the value that it has. -/
def Keeps1 (k1 : κ₁) (f : ν → ν) (s : Key2value κ₁ κ₂ ν) : Prop :=
  ∀ k2 ∈ keys2 k1 s, ∀ j1 ∈ keys1 k2 s, j1 ≠ k1 → (value1 k1 s).map f = value1 k1 s

theorem value1_updated (p : Prop) [Decidable p] (f : ν → ν) (o : Option (List α × ν)) :
    (if p then o.map (updated f) else o).map Prod.snd =
      if p then (o.map Prod.snd).map f else o.map Prod.snd := by
  cases o <;> split <;> rfl

/-- **An update keeps the copies equal exactly when no other key keeps the old value.** -/
theorem Copies.update1_iff (h : Copies s) (hs : Associates rank1 rank2 s) (f : ν → ν)
    (hupdate : update1 k1 f s = some s') : Copies s' ↔ Keeps1 k1 f s := by
  obtain ⟨s₁, hupdate₁, hsame, hfind1, hfind2⟩ := hs.update1_spec f (isSome_of_update1 hupdate)
  cases hupdate₁.symm.trans hupdate
  have hvalue1 : ∀ j1, value1 j1 s' = if k1 = j1 then (value1 j1 s).map f else value1 j1 s := by
    intro j1
    rw [value1, hfind1, value1_updated, value1]
  have hvalue2 : ∀ j2, value2 j2 s' =
      if j2 ∈ keys2 k1 s then (value2 j2 s).map f else value2 j2 s := by
    intro j2
    rw [value2, hfind2, value1_updated, value2]
  constructor
  · intro hupdated k2 hk2 j1 hj1 hne
    have hj2 : k2 ∈ keys2 j1 s := (hs.mem j1 k2).mpr hj1
    have hcopy := hupdated j1 k2 (by rwa [hsame.keys2])
    rw [hvalue1, if_neg (Ne.symm hne), hvalue2, if_pos hk2, h j1 k2 hj2, ← h k1 k2 hk2] at hcopy
    exact hcopy.symm
  · intro hkeeps j1 j2 hj
    rw [hsame.keys2] at hj
    rw [hvalue1, hvalue2]
    by_cases hk1 : k1 = j1
    · subst hk1
      rw [if_pos rfl, if_pos hj, h k1 j2 hj]
    · by_cases hk2 : j2 ∈ keys2 k1 s
      · have hkept := hkeeps j2 hk2 j1 ((hs.mem j1 j2).mp hj) (Ne.symm hk1)
        rw [if_neg hk1, if_pos hk2, h j1 j2 hj, ← h k1 j2 hk2, hkept]
      · rw [if_neg hk1, if_neg hk2, h j1 j2 hj]

theorem Agrees.update1 (h : Agrees s r) (hs : Associates rank1 rank2 s) (hkeeps : Keeps1 k1 f s)
    (hupdate : update1 k1 f s = some s') : Agrees s' (r.update1 k1 f) := by
  have hcopies := (h.copies.update1_iff hs f hupdate).mpr hkeeps
  obtain ⟨s₁, hupdate₁, hsame, hfind1, -⟩ := hs.update1_spec f (isSome_of_update1 hupdate)
  cases hupdate₁.symm.trans hupdate
  refine hcopies.agrees fun j1 j2 => ?_
  have hvalue1 : Key2value.value1 j1 s' =
      if k1 = j1 then (Key2value.value1 j1 s).map f else Key2value.value1 j1 s := by
    rw [Key2value.value1, hfind1, value1_updated, Key2value.value1]
  have hkept : r.Connected k1 j1 → j1 ≠ k1 →
      (Key2value.value1 j1 s).map f = Key2value.value1 j1 s := by
    intro hconnected hne
    obtain ⟨i1, hi1, k2, hk, hi⟩ := hconnected.eq_or_shares.resolve_left hne
    rw [h.isSome] at hk hi
    rw [h.copies.connected (fun i1 i2 => (h.isSome i1 i2).mp) hconnected]
    exact hkeeps k2 hk i1 ((hs.mem i1 k2).mp hi) hi1
  rw [Record.update1, hsame.keys2, hvalue1, h.eq]
  by_cases hj : j2 ∈ keys2 j1 s
  · rw [if_pos hj, if_pos hj]
    by_cases hk : k1 = j1
    · rw [if_pos hk, if_pos (hk ▸ .refl)]
    · rw [if_neg hk]
      by_cases hconnected : r.Connected k1 j1
      · rw [if_pos hconnected, hkept hconnected (Ne.symm hk)]
      · rw [if_neg hconnected]
  · rw [if_neg hj, if_neg hj]
    split <;> rfl

/-! ## erase -/

theorem Agrees.remove (h : Agrees s r) [∀ j1 j2, Decidable (gone j1 j2)]
    (hremoves : Removes gone s s') (hs' : Mirrors s') : Agrees s' (r.remove gone) := by
  have hvalue1 : ∀ j1 j2, j2 ∈ keys2 j1 s' → Key2value.value1 j1 s' = Key2value.value1 j1 s := by
    intro j1 j2 hj
    cases hfind : find1 j1 s' with
    | none =>
      rw [keys2, hfind] at hj
      exact absurd hj List.not_mem_nil
    | some x =>
      obtain ⟨l', hl'⟩ := hremoves.value1 j1 x.1 x.2 hfind
      rw [Key2value.value1, Key2value.value1, hfind, hl']
      rfl
  have hvalue2 : ∀ j1 j2, j2 ∈ keys2 j1 s' → Key2value.value2 j2 s' = Key2value.value2 j2 s := by
    intro j1 j2 hj
    rw [hs'] at hj
    cases hfind : find2 j2 s' with
    | none =>
      rw [keys1, hfind] at hj
      exact absurd hj List.not_mem_nil
    | some x =>
      obtain ⟨l', hl'⟩ := hremoves.value2 j2 x.1 x.2 hfind
      rw [Key2value.value2, Key2value.value2, hfind, hl']
      rfl
  have hcopies : Copies s' := by
    intro j1 j2 hj
    rw [hvalue1 j1 j2 hj, hvalue2 j1 j2 hj]
    exact h.copies j1 j2 ((hremoves.keys2 j1 j2).mp hj).1
  refine hcopies.agrees fun j1 j2 => ?_
  rw [Record.remove, h.eq]
  by_cases hj : j2 ∈ keys2 j1 s'
  · obtain ⟨hold, hgone⟩ := (hremoves.keys2 j1 j2).mp hj
    rw [if_neg hgone, if_pos hold, if_pos hj, hvalue1 j1 j2 hj]
  · rw [if_neg hj]
    by_cases hgone : gone j1 j2
    · rw [if_pos hgone]
    · rw [if_neg hgone, if_neg fun hold => hj ((hremoves.keys2 j1 j2).mpr ⟨hold, hgone⟩)]

/-! ## runs -/

instance [DecidableEq ν] (k1 : κ₁) (k2 : κ₂) (v : ν) (s : Key2value κ₁ κ₂ ν) :
    Decidable (Carries k1 k2 v s) :=
  decidable_of_iff ((∀ j2 ∈ keys2 k1 s, j2 ≠ k2 → value2 j2 s = some v) ∧
    ∀ j1 ∈ keys1 k2 s, j1 ≠ k1 → value1 j1 s = some v) ⟨fun h => ⟨h.1, h.2⟩, fun h => ⟨h.1, h.2⟩⟩

instance [DecidableEq ν] (k1 : κ₁) (f : ν → ν) (s : Key2value κ₁ κ₂ ν) :
    Decidable (Keeps1 k1 f s) :=
  inferInstanceAs (Decidable (∀ k2 ∈ keys2 k1 s, _))

/-- **The condition on an operation**: a store adds both keys, and the other keys of their lists
have its value already; an update of a key that is connected with more than its own list
changes nothing. -/
def Reaches (rank1 : κ₁ → ρ₁) (rank2 : κ₂ → ρ₂) (s : Key2value κ₁ κ₂ ν) :
    Operation κ₁ κ₂ ν → Prop
  | .store k1 k2 v =>
      Apart rank2 k2 (keys2 k1 s) ∧ Apart rank1 k1 (keys1 k2 s) ∧ Carries k1 k2 v s
  | .update1 k1 f => Keeps1 k1 f s
  | .update2 k2 f => Keeps1 k2 f (swap s)
  | _ => True

instance [DecidableEq ν] (s : Key2value κ₁ κ₂ ν) (op : Operation κ₁ κ₂ ν) :
    Decidable (Reaches rank1 rank2 s op) :=
  match op with
  | .store _ _ _ => inferInstanceAs (Decidable (_ ∧ _ ∧ _))
  | .update1 k1 f => inferInstanceAs (Decidable (Keeps1 k1 f s))
  | .update2 k2 f => inferInstanceAs (Decidable (Keeps1 k2 f (swap s)))
  | .erase .. | .erase1 _ | .erase2 _ => inferInstanceAs (Decidable True)

theorem Reaches.separate (h : Reaches rank1 rank2 s op) : Separate rank1 rank2 s op := by
  cases op with
  | store k1 k2 v => exact iff_of_true h.1 h.2.1
  | _ => trivial

/-- A map and the record of what was done to it. -/
structure Recorded (κ₁ κ₂ ν : Type) [LinearOrder κ₁] [LinearOrder κ₂] where
  map : Key2value κ₁ κ₂ ν
  record : Record κ₁ κ₂ ν

/-- An operation on both. -/
noncomputable def Recorded.apply (rank1 : κ₁ → ρ₁) (rank2 : κ₂ → ρ₂) (w : Recorded κ₁ κ₂ ν)
    (op : Operation κ₁ κ₂ ν) : Option (Recorded κ₁ κ₂ ν) :=
  (Key2value.apply rank1 rank2 w.map op).map fun map => { map, record := w.record.apply op }

/-- An empty map. -/
def Recorded.new : Recorded κ₁ κ₂ ν := { map := {}, record := fun _ _ => none }

/-- **The invariant**. -/
structure Recorded.Sound (rank1 : κ₁ → ρ₁) (rank2 : κ₂ → ρ₂) (w : Recorded κ₁ κ₂ ν) : Prop where
  associates : Associates rank1 rank2 w.map
  agrees : Agrees w.map w.record

theorem Recorded.Sound.apply {w w' : Recorded κ₁ κ₂ ν} {op : Operation κ₁ κ₂ ν}
    (h : w.Sound rank1 rank2) (hreaches : Reaches rank1 rank2 w.map op)
    (hstep : w.apply rank1 rank2 op = some w') : w'.Sound rank1 rank2 := by
  rw [Recorded.apply, map_eq_some_iff] at hstep
  obtain ⟨s', hs', rfl⟩ := hstep
  have hassociates := h.associates.apply hreaches.separate hs'
  refine ⟨hassociates, ?_⟩
  cases op with
  | store k1 k2 v =>
    cases hs'
    exact h.agrees.store h.associates hreaches.1 hreaches.2.2
  | update1 k1 f => exact h.agrees.update1 h.associates hreaches hs'
  | update2 k2 f =>
    have hs'' : update2 k2 f w.map = some s' := hs'
    rw [update2_eq, map_eq_some_iff] at hs''
    obtain ⟨s'', hupdate, rfl⟩ := hs''
    have hswapped := (h.agrees.swap h.associates.mem).update1 h.associates.swap hreaches hupdate
    exact hswapped.swap hassociates.swap.mem
  | erase k1 k2 =>
    cases hs'
    exact h.agrees.remove (h.associates.erase_removes k1 k2) hassociates.mem
  | erase1 k1 =>
    cases hs'
    exact h.agrees.remove (h.associates.erase1_spec k1).2 hassociates.mem
  | erase2 k2 =>
    cases hs'
    exact h.agrees.remove (h.associates.erase2_spec k2).2 hassociates.mem

/-- **Every run in which stores and updates reach all copies** keeps the values in agreement
with each other and with what was stored and updated last. -/
theorem agrees_of_steps {ops : List (Operation κ₁ κ₂ ν)} {w : Recorded κ₁ κ₂ ν}
    (h : Steps (Recorded.apply rank1 rank2) (fun w => Reaches rank1 rank2 w.map) .new ops w) :
    Agrees w.map w.record :=
  (h.invariant (I := Recorded.Sound rank1 rank2)
    (fun _ _ _ hw hreaches hstep => hw.apply hreaches hstep) ⟨associates_empty, agrees_empty⟩).agrees

/-- One key with two others, updated, and another pair. -/
def valueRun : List (Operation Nat Nat Nat) :=
  [.store 2 4 10, .store 2 6 10, .update1 2 (· + 1), .store 8 10 5, .update2 10 (· + 1), .erase 2 6]

theorem agrees_of_steps_valueRun :
    Agrees ((run (Recorded.apply number number) .new valueRun).getD .new).map
      ((run (Recorded.apply number number) .new valueRun).getD .new).record :=
  agrees_of_steps (steps_getD_of_checked (by rfl))

/-- **A store with another value**: the keys 2 and 6 are stored with the key 4, and the copy of
the key 2 keeps the first value. -/
theorem not_agrees_of_other_value : ¬ ∃ r, Agrees ((run (apply number number) {}
      ([.store 2 4 10, .store 6 4 11] : List (Operation Nat Nat Nat))).getD {}) r := by
  rintro ⟨r, h⟩
  have hcopies := h.copies 2 4
  revert hcopies
  decide

end CloudI.Key2value
