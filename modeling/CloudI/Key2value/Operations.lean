import CloudI.Key2value.Basic
import CloudI.Library.Run

/-!
# Key2value.Operations

Runs of `key2value` over any keys.

The lookups tell keys apart that are not identical (`=:=`), and `lists:umerge/2`, which
`store/4` adds a key to a list with, only those that do not compare equal (`==`): of an
integer and the float with its value it keeps one.  `rank1` and `rank2` are what `==` sees
of a key of each kind.
-/

namespace CloudI.Key2value

open CloudI.Lists Run List Option

variable {κ₁ κ₂ ν ρ₁ ρ₂ : Type} [LinearOrder κ₁] [LinearOrder κ₂] [LinearOrder ρ₁]
  [LinearOrder ρ₂]

/-! ## operations -/

/-- `store/4` of keys that can compare equal. -/
def storeBy (rank1 : κ₁ → ρ₁) (rank2 : κ₂ → ρ₂) (k1 : κ₁) (k2 : κ₂) (v : ν)
    (s : Key2value κ₁ κ₂ ν) : Key2value κ₁ κ₂ ν where
  lookup1 := Maps.updateWith k1 (fun x => (uinsertBy rank2 k2 x.1, v)) ([k2], v) s.lookup1
  lookup2 := Maps.updateWith k2 (fun x => (uinsertBy rank1 k1 x.1, v)) ([k1], v) s.lookup2

/-- Of keys that compare equal only to themselves it is `store`. -/
theorem storeBy_id (k1 : κ₁) (k2 : κ₂) (v : ν) (s : Key2value κ₁ κ₂ ν) :
    storeBy id id k1 k2 v s = store k1 k2 v s := by
  simp only [storeBy, store, umerge, foldl_cons, foldl_nil, uinsert_eq]

def update2 (k2 : κ₂) (f : ν → ν) (s : Key2value κ₁ κ₂ ν) : Option (Key2value κ₁ κ₂ ν) :=
  (find2 k2 s).bind fun x =>
    (x.1.foldlM (updateLookup f) s.lookup1).bind fun lookup1 =>
      (updateLookup f s.lookup2 k2).map fun lookup2 => { lookup1, lookup2 }

def erase1 (k1 : κ₁) (s : Key2value κ₁ κ₂ ν) : Key2value κ₁ κ₂ ν :=
  match find1 k1 s with
  | some (l, _) => l.foldl (fun s k2 => erase k1 k2 s) s
  | none => s

def erase2 (k2 : κ₂) (s : Key2value κ₁ κ₂ ν) : Key2value κ₁ κ₂ ν :=
  match find2 k2 s with
  | some (l, _) => l.foldl (fun s k1 => erase k1 k2 s) s
  | none => s

/-- The operations that change the map. -/
inductive Operation (κ₁ κ₂ ν : Type) where
  | store (k1 : κ₁) (k2 : κ₂) (v : ν)
  | update1 (k1 : κ₁) (f : ν → ν)
  | update2 (k2 : κ₂) (f : ν → ν)
  | erase (k1 : κ₁) (k2 : κ₂)
  | erase1 (k1 : κ₁)
  | erase2 (k2 : κ₂)

/-- An operation; `none` is a failure. -/
def apply (rank1 : κ₁ → ρ₁) (rank2 : κ₂ → ρ₂) (s : Key2value κ₁ κ₂ ν) :
    Operation κ₁ κ₂ ν → Option (Key2value κ₁ κ₂ ν)
  | .store k1 k2 v => some (storeBy rank1 rank2 k1 k2 v s)
  | .update1 k1 f => update1 k1 f s
  | .update2 k2 f => update2 k2 f s
  | .erase k1 k2 => some (erase k1 k2 s)
  | .erase1 k1 => some (erase1 k1 s)
  | .erase2 k2 => some (erase2 k2 s)

/-! ## the two sides -/

theorem swap_swap (s : Key2value κ₁ κ₂ ν) : swap (swap s) = s := rfl

theorem swap_storeBy (rank1 : κ₁ → ρ₁) (rank2 : κ₂ → ρ₂) (k1 : κ₁) (k2 : κ₂) (v : ν)
    (s : Key2value κ₁ κ₂ ν) :
    swap (storeBy rank1 rank2 k1 k2 v s) = storeBy rank2 rank1 k2 k1 v (swap s) := rfl

theorem update2_eq (k2 : κ₂) (f : ν → ν) (s : Key2value κ₁ κ₂ ν) :
    update2 k2 f s = (update1 k2 f (swap s)).map swap := by
  show (Maps.find k2 s.lookup2).bind _ = ((Maps.find k2 s.lookup2).bind _).map swap
  cases Maps.find k2 s.lookup2 with
  | none => rfl
  | some x =>
    rw [bind_some, bind_some]
    show (x.1.foldlM (updateLookup f) s.lookup1).bind _ =
      ((x.1.foldlM (updateLookup f) s.lookup1).bind _).map swap
    cases x.1.foldlM (updateLookup f) s.lookup1 with
    | none => rfl
    | some lookup1 =>
      rw [bind_some, bind_some]
      show (updateLookup f s.lookup2 k2).map _ = ((updateLookup f s.lookup2 k2).map _).map swap
      cases updateLookup f s.lookup2 k2 <;> rfl

theorem swap_foldl_erase (k1 : κ₁) (l : List κ₂) (s : Key2value κ₁ κ₂ ν) :
    swap (l.foldl (fun s k2 => erase k1 k2 s) s) =
      l.foldl (fun s k2 => erase k2 k1 s) (swap s) := by
  induction l generalizing s with
  | nil => rfl
  | cons k2 l ih => rw [foldl_cons, foldl_cons, ih, swap_erase]

theorem swap_erase1 (k1 : κ₁) (s : Key2value κ₁ κ₂ ν) :
    swap (erase1 k1 s) = erase2 k1 (swap s) := by
  have hfind : find2 k1 (swap s) = find1 k1 s := rfl
  rw [erase1, erase2, hfind]
  cases find1 k1 s with
  | none => rfl
  | some x => exact swap_foldl_erase k1 x.1 s

theorem swap_erase2 (k2 : κ₂) (s : Key2value κ₁ κ₂ ν) :
    swap (erase2 k2 s) = erase1 k2 (swap s) := by
  rw [← swap_swap (erase1 k2 (swap s)), swap_erase1, swap_swap]

/-! ## the invariant -/

/-- What the list of a key is: sorted, without two elements that compare equal, and not empty. -/
def Proper {α ρ : Type} [LinearOrder ρ] (rank : α → ρ) (l : List α) : Prop :=
  (l.Pairwise fun x y => rank x < rank y) ∧ l ≠ []

/-- **The invariant**: each key is in the list of the other, and all lists are proper. -/
structure Associates (rank1 : κ₁ → ρ₁) (rank2 : κ₂ → ρ₂) (s : Key2value κ₁ κ₂ ν) : Prop where
  mem : Mirrors s
  proper1 : ∀ k1 l v, find1 k1 s = some (l, v) → Proper rank2 l
  proper2 : ∀ k2 l v, find2 k2 s = some (l, v) → Proper rank1 l

variable {rank1 : κ₁ → ρ₁} {rank2 : κ₂ → ρ₂} {s s' : Key2value κ₁ κ₂ ν}

theorem associates_empty : Associates rank1 rank2 ({} : Key2value κ₁ κ₂ ν) where
  mem k1 k2 := by simp [keys1, keys2, find1, find2]
  proper1 := by simp [find1]
  proper2 := by simp [find2]

theorem Associates.swap (h : Associates rank1 rank2 s) :
    Associates rank2 rank1 (Key2value.swap s) where
  mem := h.mem.swap
  proper1 := h.proper2
  proper2 := h.proper1

theorem Associates.pairwise_keys2 (h : Associates rank1 rank2 s) (k1 : κ₁) :
    (keys2 k1 s).Pairwise fun x y => rank2 x < rank2 y := by
  rw [keys2]
  cases hfind : find1 k1 s with
  | none => exact List.Pairwise.nil
  | some x => exact (h.proper1 k1 x.1 x.2 hfind).1

variable {α : Type} {gone gone' : κ₁ → κ₂ → Prop} {f : ν → ν}

theorem nodup_of_pairwise {ρ : Type} [LinearOrder ρ] {rank : α → ρ} {l : List α}
    (h : l.Pairwise fun x y => rank x < rank y) : l.Nodup :=
  h.imp fun hlt heq => ne_of_lt hlt (congrArg rank heq)

theorem Associates.nodup_keys2 (h : Associates rank1 rank2 s) (k1 : κ₁) : (keys2 k1 s).Nodup :=
  nodup_of_pairwise (h.pairwise_keys2 k1)

/-! ## store -/

theorem find1_storeBy (k1 j1 : κ₁) (k2 : κ₂) (v : ν) (s : Key2value κ₁ κ₂ ν) :
    find1 j1 (storeBy rank1 rank2 k1 k2 v s) =
      if k1 = j1 then some (uinsertBy rank2 k2 (keys2 k1 s), v) else find1 j1 s := by
  show Maps.find j1 (Maps.updateWith k1 _ _ s.lookup1) = _
  rw [Maps.find_updateWith, keys2, find1]
  cases Maps.find k1 s.lookup1 <;> rfl

theorem keys2_storeBy (k1 j1 : κ₁) (k2 : κ₂) (v : ν) (s : Key2value κ₁ κ₂ ν) :
    keys2 j1 (storeBy rank1 rank2 k1 k2 v s) =
      if k1 = j1 then uinsertBy rank2 k2 (keys2 k1 s) else keys2 j1 s := by
  rw [keys2, find1_storeBy]
  by_cases hk : k1 = j1
  · rw [if_pos hk, if_pos hk]
    rfl
  · rw [if_neg hk, if_neg hk, keys2]

/-- No other element of a list compares equal to one that is added. -/
def Apart {α ρ : Type} [LinearOrder ρ] (rank : α → ρ) (x : α) (l : List α) : Prop :=
  ∀ y ∈ l, rank y = rank x → y = x

instance {α ρ : Type} [DecidableEq α] [LinearOrder ρ] (rank : α → ρ) (x : α) (l : List α) :
    Decidable (Apart rank x l) :=
  inferInstanceAs (Decidable (∀ y ∈ l, _))

/-- **The condition on an operation**: a store adds both keys to the list of the other, or
neither. -/
def Separate (rank1 : κ₁ → ρ₁) (rank2 : κ₂ → ρ₂) (s : Key2value κ₁ κ₂ ν) :
    Operation κ₁ κ₂ ν → Prop
  | .store k1 k2 _ => Apart rank2 k2 (keys2 k1 s) ↔ Apart rank1 k1 (keys1 k2 s)
  | _ => True

instance (s : Key2value κ₁ κ₂ ν) (op : Operation κ₁ κ₂ ν) :
    Decidable (Separate rank1 rank2 s op) := by
  unfold Separate
  split <;> infer_instance

section

variable (h : Associates rank1 rank2 s)

include h

/-- What is associated after a store, as the first lookup has it. -/
theorem Associates.mem_keys2_storeBy (k1 j1 : κ₁) (k2 j2 : κ₂) (v : ν)
    : j2 ∈ keys2 j1 (storeBy rank1 rank2 k1 k2 v s) ↔
      if j1 = k1 ∧ j2 = k2 then Apart rank2 k2 (keys2 k1 s) else j2 ∈ keys2 j1 s := by
  rw [keys2_storeBy]
  by_cases hk : k1 = j1
  · subst hk
    rw [if_pos rfl]
    by_cases hk2 : j2 = k2
    · subst hk2
      rw [if_pos ⟨rfl, rfl⟩]
      exact mem_uinsertBy_self (h.pairwise_keys2 k1)
    · rw [if_neg fun hboth => hk2 hboth.2]
      exact ⟨fun hj => (of_mem_uinsertBy hj).resolve_left hk2, mem_uinsertBy_of_mem⟩
  · rw [if_neg hk, if_neg fun hboth => hk hboth.1.symm]

theorem Associates.mem_keys1_storeBy (k1 j1 : κ₁) (k2 j2 : κ₂) (v : ν)
    : j1 ∈ keys1 j2 (storeBy rank1 rank2 k1 k2 v s) ↔
      if j1 = k1 ∧ j2 = k2 then Apart rank1 k1 (keys1 k2 s) else j1 ∈ keys1 j2 s := by
  have hswap := h.swap.mem_keys2_storeBy k2 j2 k1 j1 v
  rw [← swap_storeBy] at hswap
  refine hswap.trans ?_
  by_cases hboth : j1 = k1 ∧ j2 = k2
  · rw [if_pos hboth, if_pos hboth.symm]
    exact Iff.rfl
  · rw [if_neg hboth, if_neg fun hsymm => hboth hsymm.symm]
    exact Iff.rfl

theorem Associates.proper1_storeBy (k1 : κ₁) (k2 : κ₂) (v : ν) (j1 : κ₁) (l : List κ₂) (w : ν)
    (hfind : find1 j1 (storeBy rank1 rank2 k1 k2 v s) = some (l, w)) : Proper rank2 l := by
  rw [find1_storeBy] at hfind
  by_cases hk : k1 = j1
  · rw [if_pos hk, Option.some.injEq, Prod.mk.injEq] at hfind
    rw [← hfind.1]
    exact ⟨pairwise_uinsertBy (h.pairwise_keys2 k1), uinsertBy_ne_nil⟩
  · rw [if_neg hk] at hfind
    exact h.proper1 j1 l w hfind

/-- **A store keeps the invariant exactly under the condition.** -/
theorem Associates.storeBy_iff (k1 : κ₁) (k2 : κ₂) (v : ν) :
    Associates rank1 rank2 (storeBy rank1 rank2 k1 k2 v s) ↔
      Separate rank1 rank2 s (.store k1 k2 v) := by
  constructor
  · intro hstored
    have hmem := hstored.mem k1 k2
    rw [h.mem_keys2_storeBy, h.mem_keys1_storeBy, if_pos ⟨rfl, rfl⟩, if_pos ⟨rfl, rfl⟩] at hmem
    exact hmem
  · intro hseparate
    refine ⟨fun j1 j2 => ?_, h.proper1_storeBy k1 k2 v, h.swap.proper1_storeBy k2 k1 v⟩
    rw [h.mem_keys2_storeBy, h.mem_keys1_storeBy]
    by_cases hboth : j1 = k1 ∧ j2 = k2
    · rw [if_pos hboth, if_pos hboth]
      exact hseparate
    · rw [if_neg hboth, if_neg hboth]
      exact h.mem j1 j2

end

/-! ## erase -/

/-- What is left when `gone` is taken out: the other associations, and the values of their
keys. -/
structure Removes (gone : κ₁ → κ₂ → Prop) (s s' : Key2value κ₁ κ₂ ν) : Prop where
  keys2 : ∀ j1 j2, j2 ∈ keys2 j1 s' ↔ j2 ∈ keys2 j1 s ∧ ¬ gone j1 j2
  keys1 : ∀ j1 j2, j1 ∈ keys1 j2 s' ↔ j1 ∈ keys1 j2 s ∧ ¬ gone j1 j2
  value1 : ∀ j1 l v, find1 j1 s' = some (l, v) → ∃ l', find1 j1 s = some (l', v)
  value2 : ∀ j2 l v, find2 j2 s' = some (l, v) → ∃ l', find2 j2 s = some (l', v)

theorem Removes.swap (h : Removes gone s s') :
    Removes (fun k2 k1 => gone k1 k2) (Key2value.swap s) (Key2value.swap s') where
  keys2 j2 j1 := h.keys1 j1 j2
  keys1 j2 j1 := h.keys2 j1 j2
  value1 := h.value2
  value2 := h.value1

theorem mem_without [DecidableEq α] {k j : α} {x : List α × ν} (hnodup : x.1.Nodup) :
    j ∈ (without k x).elim [] Prod.fst ↔ j ∈ x.1 ∧ j ≠ k := by
  rw [without]
  by_cases hlast : x.1 = [k]
  · rw [if_pos hlast, hlast]
    simp
  · rw [if_neg hlast]
    show j ∈ x.1.erase k ↔ _
    rw [hnodup.mem_erase_iff, and_comm]

theorem Associates.mem_keys2_erase (h : Associates rank1 rank2 s) (k1 j1 : κ₁) (k2 j2 : κ₂) :
    j2 ∈ keys2 j1 (erase k1 k2 s) ↔ j2 ∈ keys2 j1 s ∧ ¬ (j1 = k1 ∧ j2 = k2) := by
  rw [keys2, h.mem.find1_erase]
  by_cases hk : k1 = j1
  · subst hk
    rw [if_pos rfl]
    have hnodup := h.nodup_keys2 k1
    rw [keys2] at hnodup ⊢
    cases hfind : find1 k1 s with
    | none => simp
    | some x =>
      rw [hfind] at hnodup
      rw [bind_some, mem_without hnodup]
      simp
  · rw [if_neg hk, ← keys2]
    simp [Ne.symm hk]

/-- A key that is left keeps its value, and its list stays proper. -/
theorem Associates.find1_erase_eq_some (h : Associates rank1 rank2 s)
    (hfind : find1 j1 (erase k1 k2 s) = some (l, v)) :
    Proper rank2 l ∧ ∃ l', find1 j1 s = some (l', v) := by
  rw [h.mem.find1_erase] at hfind
  by_cases hk : k1 = j1
  · rw [if_pos hk, bind_eq_some_iff] at hfind
    obtain ⟨x, hx, hwithout⟩ := hfind
    obtain ⟨hsorted, hne⟩ := h.proper1 j1 x.1 x.2 hx
    rw [without] at hwithout
    by_cases hlast : x.1 = [k2]
    · rw [if_pos hlast] at hwithout
      cases hwithout
    · rw [if_neg hlast, Option.some.injEq, Prod.mk.injEq] at hwithout
      obtain ⟨rfl, rfl⟩ := hwithout
      refine ⟨⟨hsorted.sublist erase_sublist, fun hnil => ?_⟩, x.1, hx⟩
      rcases erase_eq_nil_iff.mp hnil with heq | heq
      · exact hne heq
      · exact hlast heq
  · rw [if_neg hk] at hfind
    exact ⟨h.proper1 j1 l v hfind, l, hfind⟩

/-- **`erase`** takes out one association. -/
theorem Associates.erase_removes (h : Associates rank1 rank2 s) (k1 : κ₁) (k2 : κ₂) :
    Removes (fun j1 j2 => j1 = k1 ∧ j2 = k2) s (erase k1 k2 s) where
  keys2 j1 j2 := h.mem_keys2_erase k1 j1 k2 j2
  keys1 j1 j2 := by
    have hswap := h.swap.mem_keys2_erase k2 j2 k1 j1
    rw [← swap_erase, and_comm (a := j2 = k2)] at hswap
    exact hswap
  value1 j1 l v hfind := (h.find1_erase_eq_some hfind).2
  value2 j2 l v hfind := by
    have hswap : find1 j2 (Key2value.swap (erase k1 k2 s)) = some (l, v) := hfind
    rw [swap_erase] at hswap
    exact (h.swap.find1_erase_eq_some hswap).2

theorem Removes.mirrors (h : Removes gone s s') (hs : Mirrors s) :
    Mirrors s' := fun k1 k2 => by rw [h.keys2, h.keys1, hs]

theorem Associates.erase (h : Associates rank1 rank2 s) (k1 : κ₁) (k2 : κ₂) :
    Associates rank1 rank2 (erase k1 k2 s) where
  mem := (h.erase_removes k1 k2).mirrors h.mem
  proper1 j1 l v hfind := (h.find1_erase_eq_some hfind).1
  proper2 j2 l v hfind := by
    have hswap : find1 j2 (Key2value.swap (Key2value.erase k1 k2 s)) = some (l, v) := hfind
    rw [swap_erase] at hswap
    exact (h.swap.find1_erase_eq_some hswap).1

theorem Removes.trans (h : Removes gone s s') (h' : Removes gone' s' s'') :
    Removes (fun j1 j2 => gone j1 j2 ∨ gone' j1 j2) s s'' where
  keys2 j1 j2 := by rw [h'.keys2, h.keys2, and_assoc, not_or]
  keys1 j1 j2 := by rw [h'.keys1, h.keys1, and_assoc, not_or]
  value1 j1 l v hfind := by
    obtain ⟨l', hfind'⟩ := h'.value1 j1 l v hfind
    exact h.value1 j1 l' v hfind'
  value2 j2 l v hfind := by
    obtain ⟨l', hfind'⟩ := h'.value2 j2 l v hfind
    exact h.value2 j2 l' v hfind'

theorem Removes.congr (h : Removes gone s s')
    (hgone : ∀ j1 j2, j2 ∈ Key2value.keys2 j1 s → (gone j1 j2 ↔ gone' j1 j2)) (hs : Mirrors s) :
    Removes gone' s s' where
  keys2 j1 j2 := by
    rw [h.keys2]
    exact and_congr_right fun hj => not_congr (hgone j1 j2 hj)
  keys1 j1 j2 := by
    rw [h.keys1]
    exact and_congr_right fun hj => not_congr (hgone j1 j2 ((hs j1 j2).mpr hj))
  value1 := h.value1
  value2 := h.value2

/-- The loop of `erase1`. -/
theorem Associates.foldl_erase (h : Associates rank1 rank2 s) (k1 : κ₁) (l : List κ₂) :
    Associates rank1 rank2 (l.foldl (fun s k2 => Key2value.erase k1 k2 s) s) ∧
      Removes (fun j1 j2 => j1 = k1 ∧ j2 ∈ l) s
        (l.foldl (fun s k2 => Key2value.erase k1 k2 s) s) := by
  induction l generalizing s with
  | nil => exact ⟨h, by simp, by simp, fun j1 l v hfind => ⟨l, hfind⟩, fun j2 l v hfind => ⟨l, hfind⟩⟩
  | cons k2 l ih =>
    obtain ⟨hassociates, hremoves⟩ := ih (h.erase k1 k2)
    refine ⟨hassociates, ((h.erase_removes k1 k2).trans hremoves).congr ?_ h.mem⟩
    intro j1 j2 _
    rw [mem_cons, ← and_or_left]

/-- **`erase1`** takes out all associations of a key. -/
theorem Associates.erase1_spec (h : Associates rank1 rank2 s) (k1 : κ₁) :
    Associates rank1 rank2 (erase1 k1 s) ∧ Removes (fun j1 _ => j1 = k1) s (erase1 k1 s) := by
  rw [erase1]
  cases hfind : find1 k1 s with
  | none =>
    refine ⟨h, fun j1 j2 => ?_, fun j1 j2 => ?_, fun j1 l v hl => ⟨l, hl⟩, fun j2 l v hl => ⟨l, hl⟩⟩
    · refine (and_iff_left_of_imp fun hj heq => ?_).symm
      rw [heq, keys2, hfind] at hj
      exact not_mem_nil hj
    · refine (and_iff_left_of_imp fun hj heq => ?_).symm
      rw [heq, ← h.mem, keys2, hfind] at hj
      exact not_mem_nil hj
  | some x =>
    obtain ⟨hassociates, hremoves⟩ := h.foldl_erase k1 x.1
    refine ⟨hassociates, hremoves.congr (fun j1 j2 hj => ?_) h.mem⟩
    refine ⟨And.left, fun heq => ⟨heq, ?_⟩⟩
    rwa [heq, keys2_of_find1 hfind] at hj

/-- **`erase2`** takes out all associations of a key. -/
theorem Associates.erase2_spec (h : Associates rank1 rank2 s) (k2 : κ₂) :
    Associates rank1 rank2 (erase2 k2 s) ∧ Removes (fun _ j2 => j2 = k2) s (erase2 k2 s) := by
  obtain ⟨hassociates, hremoves⟩ := h.swap.erase1_spec k2
  rw [← swap_erase2] at hassociates hremoves
  exact ⟨hassociates.swap, hremoves.swap⟩

/-! ## updates -/

/-- Maps with the same lists under the same keys. -/
structure SameKeys (s s' : Key2value κ₁ κ₂ ν) : Prop where
  find1 : ∀ k1, (find1 k1 s').map Prod.fst = (find1 k1 s).map Prod.fst
  find2 : ∀ k2, (find2 k2 s').map Prod.fst = (find2 k2 s).map Prod.fst

theorem SameKeys.keys2 (h : SameKeys s s') (k1 : κ₁) : keys2 k1 s' = keys2 k1 s := by
  have hfind := h.find1 k1
  rw [Key2value.keys2, Key2value.keys2]
  cases h' : Key2value.find1 k1 s' <;> cases h'' : Key2value.find1 k1 s <;> simp_all

theorem SameKeys.swap (h : SameKeys s s') : SameKeys (Key2value.swap s) (Key2value.swap s') :=
  ⟨h.find2, h.find1⟩

theorem SameKeys.keys1 (h : SameKeys s s') (k2 : κ₂) : keys1 k2 s' = keys1 k2 s :=
  h.swap.keys2 k2

theorem SameKeys.proper1 (h : SameKeys s s') (hs : Associates rank1 rank2 s) (k1 : κ₁)
    (l : List κ₂) (v : ν) (hl : Key2value.find1 k1 s' = some (l, v)) : Proper rank2 l := by
  have hfind := h.find1 k1
  rw [hl, map_some, eq_comm, map_eq_some_iff] at hfind
  obtain ⟨x, hx, rfl⟩ := hfind
  exact hs.proper1 k1 x.1 x.2 hx

theorem SameKeys.associates (h : SameKeys s s') (hs : Associates rank1 rank2 s) :
    Associates rank1 rank2 s' where
  mem k1 k2 := by rw [h.keys2, h.keys1, hs.mem]
  proper1 := h.proper1 hs
  proper2 := h.swap.proper1 hs.swap

/-- **`update1`** of a key that is there. -/
theorem Associates.update1_spec (h : Associates rank1 rank2 s) (f : ν → ν)
    (hk : (find1 k1 s).isSome = true) :
    ∃ s', update1 k1 f s = some s' ∧ SameKeys s s' ∧
      (∀ j1, find1 j1 s' = if k1 = j1 then (find1 j1 s).map (updated f) else find1 j1 s) ∧
      ∀ j2, find2 j2 s' =
        if j2 ∈ Key2value.keys2 k1 s then (find2 j2 s).map (updated f) else find2 j2 s := by
  obtain ⟨x, hx⟩ := isSome_iff_exists.mp hk
  obtain ⟨s', hupdate, hfind1, hfind2⟩ := Mirrors.update1 h.mem (h.nodup_keys2 k1) f hx
  refine ⟨s', hupdate, ⟨fun j1 => ?_, fun j2 => ?_⟩, hfind1, hfind2⟩
  · rw [hfind1]
    cases find1 j1 s <;> split <;> rfl
  · rw [hfind2]
    cases find2 j2 s <;> split <;> rfl

/-- **`update2`** of a key that is there. -/
theorem Associates.update2_spec (h : Associates rank1 rank2 s) (f : ν → ν)
    (hk : (find2 k2 s).isSome = true) :
    ∃ s', update2 k2 f s = some s' ∧ SameKeys s s' ∧
      (∀ j2, find2 j2 s' = if k2 = j2 then (find2 j2 s).map (updated f) else find2 j2 s) ∧
      ∀ j1, find1 j1 s' =
        if j1 ∈ Key2value.keys1 k2 s then (find1 j1 s).map (updated f) else find1 j1 s := by
  obtain ⟨s', hupdate, hsame, hfind2, hfind1⟩ := h.swap.update1_spec f hk
  exact ⟨Key2value.swap s', by rw [update2_eq, hupdate]; rfl, hsame.swap, hfind2, hfind1⟩

theorem isSome_of_update1 (h : update1 k1 f s = some s') : (find1 k1 s).isSome = true := by
  rw [update1, bind_eq_some_iff] at h
  obtain ⟨x, hx, -⟩ := h
  rw [hx]
  rfl

theorem isSome_of_update2 (h : update2 k2 f s = some s') : (find2 k2 s).isSome = true := by
  rw [update2, bind_eq_some_iff] at h
  obtain ⟨x, hx, -⟩ := h
  rw [hx]
  rfl

/-! ## runs -/

/-- One operation keeps the invariant. -/
theorem Associates.apply (h : Associates rank1 rank2 s) (hseparate : Separate rank1 rank2 s op)
    (hstep : apply rank1 rank2 s op = some s') : Associates rank1 rank2 s' := by
  cases op with
  | store k1 k2 v =>
    cases hstep
    exact (h.storeBy_iff k1 k2 v).mpr hseparate
  | update1 k1 f =>
    obtain ⟨s₁, hupdate, hsame, -⟩ := h.update1_spec f (isSome_of_update1 hstep)
    cases hupdate.symm.trans hstep
    exact hsame.associates h
  | update2 k2 f =>
    obtain ⟨s₁, hupdate, hsame, -⟩ := h.update2_spec f (isSome_of_update2 hstep)
    cases hupdate.symm.trans hstep
    exact hsame.associates h
  | erase k1 k2 =>
    cases hstep
    exact h.erase k1 k2
  | erase1 k1 =>
    cases hstep
    exact (h.erase1_spec k1).1
  | erase2 k2 =>
    cases hstep
    exact (h.erase2_spec k2).1

/-- **A two-way map**: the keys are associated both ways in lists that are sorted, without
duplicates and not empty; the erase functions take out what they are asked to; and an update
of a key that is there does not fail. -/
structure TwoWay (rank1 : κ₁ → ρ₁) (rank2 : κ₂ → ρ₂) (s : Key2value κ₁ κ₂ ν) : Prop where
  mem : ∀ k1 k2, k2 ∈ keys2 k1 s ↔ k1 ∈ keys1 k2 s
  list1 : ∀ k1 l v, find1 k1 s = some (l, v) →
    (l.Pairwise fun x y => rank2 x < rank2 y) ∧ l.Nodup ∧ l ≠ []
  list2 : ∀ k2 l v, find2 k2 s = some (l, v) →
    (l.Pairwise fun x y => rank1 x < rank1 y) ∧ l.Nodup ∧ l ≠ []
  erase : ∀ k1 k2, Removes (fun j1 j2 => j1 = k1 ∧ j2 = k2) s (erase k1 k2 s)
  erase1 : ∀ k1, Removes (fun j1 _ => j1 = k1) s (erase1 k1 s)
  erase2 : ∀ k2, Removes (fun _ j2 => j2 = k2) s (erase2 k2 s)
  update1 : ∀ k1 f, (find1 k1 s).isSome = true → (update1 k1 f s).isSome = true
  update2 : ∀ k2 f, (find2 k2 s).isSome = true → (update2 k2 f s).isSome = true

theorem Associates.twoWay (h : Associates rank1 rank2 s) : TwoWay rank1 rank2 s where
  mem := h.mem
  list1 k1 l v hfind := by
    obtain ⟨hsorted, hne⟩ := h.proper1 k1 l v hfind
    exact ⟨hsorted, nodup_of_pairwise hsorted, hne⟩
  list2 k2 l v hfind := by
    obtain ⟨hsorted, hne⟩ := h.proper2 k2 l v hfind
    exact ⟨hsorted, nodup_of_pairwise hsorted, hne⟩
  erase := h.erase_removes
  erase1 k1 := (h.erase1_spec k1).2
  erase2 k2 := (h.erase2_spec k2).2
  update1 k1 f hk := by
    obtain ⟨s', hupdate, -⟩ := h.update1_spec f hk
    rw [hupdate]
    rfl
  update2 k2 f hk := by
    obtain ⟨s', hupdate, -⟩ := h.update2_spec f hk
    rw [hupdate]
    rfl

theorem associates_of_steps (h : Steps (apply rank1 rank2) (Separate rank1 rank2) {} ops s) :
    Associates rank1 rank2 s :=
  h.invariant (fun _ _ _ hs hseparate hstep => hs.apply hseparate hstep) associates_empty

/-- **Every run in which each store adds both keys or neither** keeps a two-way map. -/
theorem twoWay_of_steps {ops : List (Operation κ₁ κ₂ ν)}
    (h : Steps (apply rank1 rank2) (Separate rank1 rank2) {} ops s) : TwoWay rank1 rank2 s :=
  (associates_of_steps h).twoWay

/-- Numbers: `2 * n` is the integer `n`, and `2 * n + 1` the float with its value. -/
def number (n : Nat) : Nat := n / 2

/-- The integers 1 and 2 stored with each other and with more keys, erased, and stored again, many
with many. -/
def numberRun : List (Operation Nat Nat Nat) :=
  [.store 2 4 10, .store 2 6 11, .store 4 4 12, .update1 2 (· + 1), .erase 2 6, .erase2 4,
    .store 2 4 20, .store 2 6 21, .store 8 6 22, .update2 6 (· + 1)]

theorem twoWay_of_steps_numberRun :
    TwoWay number number ((run (apply number number) {} numberRun).getD {}) ∧
      find1 2 ((run (apply number number) {} numberRun).getD {}) = some ([4, 6], 22) ∧
      find2 6 ((run (apply number number) {} numberRun).getD {}) = some ([2, 8], 23) :=
  ⟨twoWay_of_steps (steps_getD_of_checked (by rfl)), rfl, rfl⟩

/-- **Keys that compare equal**: 1 and 1.0 are stored with one key, whose list keeps only 1.  1.0
has the key in its list, and after the key is erased from 1, the update of 1.0 fails. -/
theorem not_twoWay_of_equal_keys : ¬ TwoWay number number ((run (apply number number) {}
      ([.store 2 4 10, .store 3 4 10] : List (Operation Nat Nat Nat))).getD {}) := by
  intro h
  have hmem := h.mem 3 4
  revert hmem
  decide

end CloudI.Key2value
