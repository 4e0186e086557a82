import CloudI.Erlang.Maps

/-!
# Key2value.Basic

`key2value`: a map with two kinds of keys, kept as a lookup for each kind.  A key has
the list of the keys of the other kind that it was stored with, and a value; the lists
of the two lookups mirror each other (`Linked`).

The operations are described by what `find1` and `find2` find afterwards.
-/

namespace CloudI

/-- `#key2value{}` with `maps` as its module. -/
structure Key2value (κ₁ κ₂ ν : Type) [LinearOrder κ₁] [LinearOrder κ₂] where
  lookup1 : ErlMap κ₁ (List κ₂ × ν) := ∅
  lookup2 : ErlMap κ₂ (List κ₁ × ν) := ∅

namespace Key2value

open CloudI.Lists List Option

variable {κ₁ κ₂ ν : Type} [LinearOrder κ₁] [LinearOrder κ₂]

def find1 (k1 : κ₁) (s : Key2value κ₁ κ₂ ν) : Option (List κ₂ × ν) := Maps.find k1 s.lookup1

def find2 (k2 : κ₂) (s : Key2value κ₁ κ₂ ν) : Option (List κ₁ × ν) := Maps.find k2 s.lookup2

def store (k1 : κ₁) (k2 : κ₂) (v : ν) (s : Key2value κ₁ κ₂ ν) : Key2value κ₁ κ₂ ν where
  lookup1 := Maps.updateWith k1 (fun x => (umerge x.1 [k2], v)) ([k2], v) s.lookup1
  lookup2 := Maps.updateWith k2 (fun x => (umerge x.1 [k1], v)) ([k1], v) s.lookup2

/-- `erase/3`.  A key whose list has no other key is erased with it. -/
def erase (k1 : κ₁) (k2 : κ₂) (s : Key2value κ₁ κ₂ ν) : Key2value κ₁ κ₂ ν :=
  match find1 k1 s, find2 k2 s with
  | some (l2, v2), some (l1, v1) =>
      { lookup1 :=
          if l2 = [k2] then Maps.remove k1 s.lookup1
          else Maps.put k1 (l2.erase k2, v2) s.lookup1
        lookup2 :=
          if l1 = [k1] then Maps.remove k2 s.lookup2
          else Maps.put k2 (l1.erase k1, v1) s.lookup2 }
  | _, _ => s

/-- `maps:update_with/3`, which fails without the key. -/
def updateLookup {κ : Type} [LinearOrder κ] {α : Type} (f : ν → ν) (m : ErlMap κ (α × ν))
    (k : κ) : Option (ErlMap κ (α × ν)) :=
  (Maps.find k m).map fun x => Maps.put k (x.1, f x.2) m

def update1 (k1 : κ₁) (f : ν → ν) (s : Key2value κ₁ κ₂ ν) : Option (Key2value κ₁ κ₂ ν) :=
  (find1 k1 s).bind fun x =>
    (x.1.foldlM (updateLookup f) s.lookup2).bind fun lookup2 =>
      (updateLookup f s.lookup1 k1).map fun lookup1 => { lookup1, lookup2 }

/-! ## keys -/

/-- The keys that a first key is stored with. -/
def keys2 (k1 : κ₁) (s : Key2value κ₁ κ₂ ν) : List κ₂ := (find1 k1 s).elim [] Prod.fst

/-- The keys that a second key is stored with. -/
def keys1 (k2 : κ₂) (s : Key2value κ₁ κ₂ ν) : List κ₁ := (find2 k2 s).elim [] Prod.fst

/-- Each key is in the list of the other. -/
def Mirrors (s : Key2value κ₁ κ₂ ν) : Prop := ∀ k1 k2, k2 ∈ keys2 k1 s ↔ k1 ∈ keys1 k2 s

/-- **The lookups mirror each other**, in sorted lists that are not empty. -/
structure Linked (s : Key2value κ₁ κ₂ ν) : Prop where
  mem : ∀ k1 k2, k2 ∈ keys2 k1 s ↔ k1 ∈ keys1 k2 s
  sorted1 : ∀ k1 l v, find1 k1 s = some (l, v) → l.Pairwise (· < ·) ∧ l ≠ []
  sorted2 : ∀ k2 l v, find2 k2 s = some (l, v) → l.Pairwise (· < ·) ∧ l ≠ []

variable {s : Key2value κ₁ κ₂ ν}

theorem keys2_of_find1 (h : find1 k1 s = some (l, v)) : keys2 k1 s = l := by
  rw [keys2, h]
  rfl

theorem keys1_of_find2 (h : find2 k2 s = some (l, v)) : keys1 k2 s = l := by
  rw [keys1, h]
  rfl

theorem linked_empty : Linked ({} : Key2value κ₁ κ₂ ν) where
  mem k1 k2 := by simp [keys1, keys2, find1, find2]
  sorted1 := by simp [find1]
  sorted2 := by simp [find2]

theorem Linked.pairwise_keys2 (h : Linked s) (k1 : κ₁) : (keys2 k1 s).Pairwise (· < ·) := by
  rw [keys2]
  cases hfind : find1 k1 s with
  | none => exact List.Pairwise.nil
  | some x => exact (h.sorted1 k1 x.1 x.2 hfind).1

/-! ## the two sides -/

/-- The map with the kinds of its keys exchanged. -/
def swap (s : Key2value κ₁ κ₂ ν) : Key2value κ₂ κ₁ ν where
  lookup1 := s.lookup2
  lookup2 := s.lookup1

theorem swap_erase (k1 : κ₁) (k2 : κ₂) (s : Key2value κ₁ κ₂ ν) :
    swap (erase k1 k2 s) = erase k2 k1 (swap s) := by
  have hfind1 : find1 k2 (swap s) = find2 k2 s := rfl
  have hfind2 : find2 k1 (swap s) = find1 k1 s := rfl
  rw [erase, erase, hfind1, hfind2]
  cases find1 k1 s <;> cases find2 k2 s <;> rfl

theorem Linked.swap (h : Linked s) : Linked (swap s) where
  mem k2 k1 := (h.mem k1 k2).symm
  sorted1 := h.sorted2
  sorted2 := h.sorted1

/-! ## store -/

/-- A store adds the second key to those of the first, with the new value. -/
theorem find1_store (k1 j1 : κ₁) (k2 : κ₂) (v : ν) (s : Key2value κ₁ κ₂ ν) :
    find1 j1 (store k1 k2 v s) =
      if k1 = j1 then some (uinsert k2 (keys2 k1 s), v) else find1 j1 s := by
  show Maps.find j1 (Maps.updateWith k1 _ _ s.lookup1) = _
  rw [Maps.find_updateWith, keys2, find1]
  cases Maps.find k1 s.lookup1 <;> rfl

theorem find2_store (k1 : κ₁) (k2 j2 : κ₂) (v : ν) (s : Key2value κ₁ κ₂ ν) :
    find2 j2 (store k1 k2 v s) =
      if k2 = j2 then some (uinsert k1 (keys1 k2 s), v) else find2 j2 s :=
  find1_store k2 j2 k1 v (swap s)

theorem mem_keys2_store : j2 ∈ keys2 j1 (store k1 k2 v s) ↔
    (j1 = k1 ∧ j2 = k2) ∨ j2 ∈ keys2 j1 s := by
  rw [keys2, find1_store]
  by_cases hk : k1 = j1
  · subst hk
    simp
  · rw [if_neg hk, ← keys2]
    simp [Ne.symm hk]

theorem mem_keys1_store : j1 ∈ keys1 j2 (store k1 k2 v s) ↔
    (j1 = k1 ∧ j2 = k2) ∨ j1 ∈ keys1 j2 s := by
  rw [and_comm]
  exact mem_keys2_store (s := swap s)

theorem uinsert_ne_nil [LinearOrder α] (x : α) (l : List α) : uinsert x l ≠ [] :=
  ne_nil_of_mem (mem_uinsert.mpr (.inl rfl))

theorem Linked.sorted1_store (h : Linked s) (k1 : κ₁) (k2 : κ₂) (v : ν) (j1 : κ₁) (l : List κ₂)
    (w : ν) (hfind : find1 j1 (store k1 k2 v s) = some (l, w)) : l.Pairwise (· < ·) ∧ l ≠ [] := by
  rw [find1_store] at hfind
  by_cases hk : k1 = j1
  · rw [if_pos hk, Option.some.injEq, Prod.mk.injEq] at hfind
    rw [← hfind.1]
    exact ⟨pairwise_uinsert (h.pairwise_keys2 k1), uinsert_ne_nil _ _⟩
  · rw [if_neg hk] at hfind
    exact h.sorted1 j1 l w hfind

theorem Linked.store (h : Linked s) (k1 : κ₁) (k2 : κ₂) (v : ν) : Linked (store k1 k2 v s) where
  mem j1 j2 := by rw [mem_keys2_store, mem_keys1_store, h.mem]
  sorted1 := h.sorted1_store k1 k2 v
  sorted2 := h.swap.sorted1_store k2 k1 v

/-! ## erase -/

/-- What is left of a key when another key is taken from its list. -/
def without {α : Type} [DecidableEq α] (k : α) (x : List α × ν) : Option (List α × ν) :=
  if x.1 = [k] then none else some (x.1.erase k, x.2)

theorem without_of_not_mem {α : Type} [DecidableEq α] {k : α} {x : List α × ν} (h : k ∉ x.1) :
    without k x = some x := by
  have hne : x.1 ≠ [k] := by
    intro heq
    rw [heq] at h
    exact h mem_cons_self
  rw [without, if_neg hne, erase_of_not_mem h]

theorem Mirrors.find1_erase (h : Mirrors s) (k1 j1 : κ₁) (k2 : κ₂) :
    find1 j1 (Key2value.erase k1 k2 s) =
      if k1 = j1 then (find1 j1 s).bind (without k2) else find1 j1 s := by
  rw [Key2value.erase]
  cases hfind1 : find1 k1 s with
  | none =>
    by_cases hk : k1 = j1
    · rw [if_pos hk, ← hk, hfind1]
      rfl
    · rw [if_neg hk]
  | some x1 =>
    cases hfind2 : find2 k2 s with
    | none =>
      by_cases hk : k1 = j1
      · have hnot : k2 ∉ x1.1 := by
          rw [← keys2_of_find1 hfind1, h, keys1, hfind2]
          exact not_mem_nil
        rw [if_pos hk, ← hk, hfind1, bind_some, without_of_not_mem hnot]
      · rw [if_neg hk]
    | some x2 =>
      show Maps.find j1 (if x1.1 = [k2] then _ else _) = _
      by_cases hk : k1 = j1
      · subst hk
        rw [if_pos rfl, hfind1, bind_some, without]
        by_cases hlast : x1.1 = [k2]
        · rw [if_pos hlast, if_pos hlast, Maps.find_remove, if_pos rfl]
        · rw [if_neg hlast, if_neg hlast, Maps.find_put, if_pos rfl]
      · rw [if_neg hk]
        by_cases hlast : x1.1 = [k2]
        · rw [if_pos hlast, Maps.find_remove, if_neg hk, find1]
        · rw [if_neg hlast, Maps.find_put, if_neg hk, find1]

theorem Mirrors.swap (h : Mirrors s) : Mirrors (swap s) := fun k2 k1 => (h k1 k2).symm

theorem Mirrors.find2_erase (h : Mirrors s) (k1 : κ₁) (k2 j2 : κ₂) :
    find2 j2 (Key2value.erase k1 k2 s) =
      if k2 = j2 then (find2 j2 s).bind (without k1) else find2 j2 s := by
  show find1 j2 (Key2value.swap (Key2value.erase k1 k2 s)) = _
  rw [swap_erase]
  exact h.swap.find1_erase k2 j2 k1

theorem find1_erase (h : Linked s) (k1 j1 : κ₁) (k2 : κ₂) : find1 j1 (erase k1 k2 s) =
      if k1 = j1 then (find1 j1 s).bind (without k2) else find1 j1 s :=
  Mirrors.find1_erase h.mem k1 j1 k2

theorem find2_erase (h : Linked s) (k1 : κ₁) (k2 j2 : κ₂) : find2 j2 (erase k1 k2 s) =
      if k2 = j2 then (find2 j2 s).bind (without k1) else find2 j2 s :=
  Mirrors.find2_erase h.mem k1 k2 j2

theorem keys2_erase (h : Linked s) (k1 j1 : κ₁) (k2 : κ₂) :
    keys2 j1 (erase k1 k2 s) = if k1 = j1 then (keys2 j1 s).erase k2 else keys2 j1 s := by
  rw [keys2, find1_erase h]
  by_cases hk : k1 = j1
  · rw [if_pos hk, if_pos hk, keys2]
    cases find1 j1 s with
    | none => rfl
    | some x =>
      rw [bind_some, without]
      by_cases hlast : x.1 = [k2]
      · simp [hlast]
      · rw [if_neg hlast]
        rfl
  · rw [if_neg hk, if_neg hk, keys2]

theorem mem_keys2_erase (h : Linked s) : j2 ∈ keys2 j1 (erase k1 k2 s) ↔
    ¬ (j1 = k1 ∧ j2 = k2) ∧ j2 ∈ keys2 j1 s := by
  rw [keys2_erase h]
  by_cases hk : k1 = j1
  · have hnodup : (keys2 j1 s).Nodup := (h.pairwise_keys2 j1).imp ne_of_lt
    rw [if_pos hk, hnodup.mem_erase_iff]
    simp [hk]
  · simp [hk, Ne.symm hk]

theorem Linked.sorted1_erase (h : Linked s) (k1 : κ₁) (k2 : κ₂) (j1 : κ₁) (l : List κ₂) (w : ν)
    (hfind : find1 j1 (Key2value.erase k1 k2 s) = some (l, w)) : l.Pairwise (· < ·) ∧ l ≠ [] := by
  rw [find1_erase h] at hfind
  by_cases hk : k1 = j1
  · rw [if_pos hk, bind_eq_some_iff] at hfind
    obtain ⟨x, hx, hwithout⟩ := hfind
    obtain ⟨hsorted, hne⟩ := h.sorted1 j1 x.1 x.2 hx
    rw [without] at hwithout
    by_cases hlast : x.1 = [k2]
    · rw [if_pos hlast] at hwithout
      cases hwithout
    · rw [if_neg hlast, Option.some.injEq, Prod.mk.injEq] at hwithout
      rw [← hwithout.1]
      refine ⟨hsorted.sublist erase_sublist, fun hnil => ?_⟩
      rcases erase_eq_nil_iff.mp hnil with heq | heq
      · exact hne heq
      · exact hlast heq
  · rw [if_neg hk] at hfind
    exact h.sorted1 j1 l w hfind

theorem Linked.erase (h : Linked s) (k1 : κ₁) (k2 : κ₂) : Linked (erase k1 k2 s) where
  mem j1 j2 := by
    have hswap : j1 ∈ keys1 j2 (Key2value.erase k1 k2 s) ↔
        j1 ∈ keys2 j2 (Key2value.erase k2 k1 (Key2value.swap s)) := by
      rw [← swap_erase]
      rfl
    rw [hswap, mem_keys2_erase h, mem_keys2_erase h.swap, and_comm (a := j2 = k2), h.mem]
    rfl
  sorted1 := h.sorted1_erase k1 k2
  sorted2 j2 l w hfind := by
    refine h.swap.sorted1_erase k2 k1 j2 l w ?_
    rw [← swap_erase]
    exact hfind

/-! ## update1 -/

/-- An entry with its value updated. -/
def updated {α : Type} (f : ν → ν) (x : α × ν) : α × ν := (x.1, f x.2)

theorem foldlM_updateLookup {κ α : Type} [LinearOrder κ] (f : ν → ν) {l : List κ}
    (hnodup : l.Nodup) {m : ErlMap κ (α × ν)} (hall : ∀ k ∈ l, (Maps.find k m).isSome) :
    ∃ m', l.foldlM (updateLookup f) m = some m' ∧
      ∀ j, Maps.find j m' = if j ∈ l then (Maps.find j m).map (updated f) else Maps.find j m := by
  induction l generalizing m with
  | nil => exact ⟨m, rfl, fun j => by simp⟩
  | cons k l ih =>
    rw [nodup_cons] at hnodup
    obtain ⟨x, hx⟩ := isSome_iff_exists.mp (hall k mem_cons_self)
    have hstep : updateLookup f m k = some (Maps.put k (updated f x) m) := by
      rw [updateLookup, hx]
      rfl
    have hall' : ∀ j ∈ l, (Maps.find j (Maps.put k (updated f x) m)).isSome := by
      intro j hj
      have hne : k ≠ j := fun heq => hnodup.1 (heq ▸ hj)
      rw [Maps.find_put, if_neg hne]
      exact hall j (mem_cons_of_mem k hj)
    obtain ⟨m', hm', hfind⟩ := ih hnodup.2 hall'
    refine ⟨m', ?_, fun j => ?_⟩
    · rw [foldlM_cons, hstep]
      exact hm'
    · rw [hfind, Maps.find_put]
      by_cases hk : k = j
      · subst hk
        simp [hnodup.1, hx]
      · simp [hk, Ne.symm hk]

/-- `update1` of a key that is there updates its value, and the values of its keys. -/
theorem Mirrors.update1 (h : Mirrors s) (hnodup : (keys2 k1 s).Nodup) (f : ν → ν)
    (hk : find1 k1 s = some x) :
    ∃ s', update1 k1 f s = some s' ∧
      (∀ j1, find1 j1 s' = if k1 = j1 then (find1 j1 s).map (updated f) else find1 j1 s) ∧
      ∀ j2, find2 j2 s' = if j2 ∈ keys2 k1 s then (find2 j2 s).map (updated f) else find2 j2 s := by
  have hkeys : keys2 k1 s = x.1 := keys2_of_find1 hk
  have hall : ∀ k2 ∈ x.1, (Maps.find k2 s.lookup2).isSome := by
    intro k2 hk2
    rw [← hkeys, h, keys1, find2] at hk2
    cases hfind : Maps.find k2 s.lookup2 with
    | none =>
      rw [hfind] at hk2
      exact absurd hk2 not_mem_nil
    | some y => rfl
  rw [hkeys] at hnodup ⊢
  obtain ⟨lookup2, hlookup2, hfind2⟩ := foldlM_updateLookup f hnodup hall
  refine ⟨{ lookup1 := Maps.put k1 (updated f x) s.lookup1, lookup2 }, ?_, ?_, hfind2⟩
  · have hlookup1 : updateLookup f s.lookup1 k1 = some (Maps.put k1 (updated f x) s.lookup1) := by
      rw [find1] at hk
      rw [updateLookup, hk]
      rfl
    rw [Key2value.update1, hk, bind_some, hlookup2, bind_some, hlookup1]
    rfl
  · intro j1
    show Maps.find j1 (Maps.put k1 (updated f x) s.lookup1) = _
    rw [Maps.find_put]
    by_cases hj : k1 = j1
    · rw [if_pos hj, if_pos hj, ← hj, hk]
      rfl
    · rw [if_neg hj, if_neg hj, find1]

theorem elim_updated (f : ν → ν) (p : Prop) [Decidable p] (o : Option (List α × ν)) :
    (if p then o.map (updated f) else o).elim [] Prod.fst = o.elim [] Prod.fst := by
  cases o <;> split <;> rfl

/-- **`update1`** of a key that is there updates its value, and the values of its keys. -/
theorem update1_spec (h : Linked s) (f : ν → ν) (hk : find1 k1 s = some x) :
    ∃ s', update1 k1 f s = some s' ∧ Linked s' ∧
      (∀ j1, find1 j1 s' = if k1 = j1 then (find1 j1 s).map (updated f) else find1 j1 s) ∧
      ∀ j2, find2 j2 s' = if j2 ∈ keys2 k1 s then (find2 j2 s).map (updated f) else find2 j2 s := by
  have hnodup : (keys2 k1 s).Nodup := (h.pairwise_keys2 k1).imp ne_of_lt
  obtain ⟨s', hupdate, hfind1, hfind2⟩ := Mirrors.update1 h.mem hnodup f hk
  have hkeys2 : ∀ j1, keys2 j1 s' = keys2 j1 s := by
    intro j1
    rw [keys2, hfind1, elim_updated, keys2]
  have hkeys1 : ∀ j2, keys1 j2 s' = keys1 j2 s := by
    intro j2
    rw [keys1, hfind2, elim_updated, keys1]
  refine ⟨s', hupdate, ⟨fun j1 j2 => by rw [hkeys2, hkeys1, h.mem], fun j1 l v hl => ?_,
    fun j2 l v hl => ?_⟩, hfind1, hfind2⟩
  · have hkeep := keys2_of_find1 hl
    rw [hkeys2] at hkeep
    rw [hfind1] at hl
    cases hold : find1 j1 s with
    | none => simp [hold] at hl
    | some y =>
      rw [keys2_of_find1 hold] at hkeep
      exact hkeep ▸ h.sorted1 j1 y.1 y.2 hold
  · have hkeep := keys1_of_find2 hl
    rw [hkeys1] at hkeep
    rw [hfind2] at hl
    cases hold : find2 j2 s with
    | none => simp [hold] at hl
    | some y =>
      rw [keys1_of_find2 hold] at hkeep
      exact hkeep ▸ h.sorted2 j2 y.1 y.2 hold

end Key2value

end CloudI
