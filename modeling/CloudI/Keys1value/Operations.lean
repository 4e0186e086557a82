import CloudI.Keys1value.Basic
import Mathlib.Data.List.Pairwise

/-!
# Keys1value.Operations

Runs of `keys1value` over any keys, and what `to_list/1` makes of the map they come to.
-/

namespace CloudI.Keys1value

open Run List

variable {κ ν ρ : Type} [LinearOrder κ] [LinearOrder ρ] {rank : κ → ρ}

/-! ## keydelete -/

section Keydelete

omit [LinearOrder κ]

variable {α : Type} {l : List (κ × α)} {k : κ} {keys : List κ} {r : ρ}

/-- `lists:keydelete/3` takes out one tuple of those whose key compares equal. -/
theorem countP_keydelete (l : List (κ × α)) (k : κ) (r : ρ) :
    (keydelete rank l k).countP (fun x => rank x.1 = r) =
      (l.countP fun x => rank x.1 = r) - if rank k = r then 1 else 0 := by
  induction l with
  | nil => simp [keydelete]
  | cons x l ih =>
    rw [keydelete] at ih ⊢
    by_cases hx : rank x.1 = rank k
    · rw [eraseP_cons_of_pos (by simpa using hx), countP_cons, hx]
      by_cases hk : rank k = r
      · simp [hk]
      · simp [hk]
    · rw [eraseP_cons_of_neg (by simpa using hx), countP_cons, ih, countP_cons]
      by_cases hk : rank k = r
      · have hxr : rank x.1 ≠ r := fun heq => hx (heq.trans hk.symm)
        simp [hxr]
      · simp [hk]

/-- **The keys of a group are taken out**: when no more tuples compare equal to a key than keys of
the group do, exactly the tuples are left that compare equal to no key. -/
theorem mem_keydeleteAll (hcount : ∀ r ∈ keys.map rank,
    (l.countP fun x => rank x.1 = r) ≤ (keys.map rank).count r) :
    x ∈ keydeleteAll rank keys l ↔ x ∈ l ∧ rank x.1 ∉ keys.map rank := by
  induction keys generalizing l with
  | nil => simp [keydeleteAll]
  | cons k keys ih =>
    have hcount' : ∀ r ∈ keys.map rank,
        ((keydelete rank l k).countP fun x => rank x.1 = r) ≤ (keys.map rank).count r := by
      intro r hr
      have hle := hcount r (mem_cons_of_mem _ hr)
      rw [map_cons, count_cons] at hle
      rw [countP_keydelete]
      by_cases hk : rank k = r
      · simp only [hk, beq_self_eq_true, if_true] at hle ⊢
        omega
      · simp only [hk, beq_iff_eq, if_false] at hle ⊢
        omega
    show x ∈ keydeleteAll rank keys (keydelete rank l k) ↔ _
    rw [ih hcount', map_cons, mem_cons, not_or]
    by_cases hx : rank x.1 = rank k
    · refine iff_of_false (fun ⟨hmem, hnot⟩ => ?_) fun h => h.2.1 hx
      -- the key is the last one of its rank, and its tuple is gone
      have hle := hcount (rank k) mem_cons_self
      have hzero : (keys.map rank).count (rank k) = 0 :=
        count_eq_zero.mpr (hx ▸ hnot)
      rw [map_cons, count_cons_self, hzero] at hle
      have hpos : 0 < (keydelete rank l k).countP fun x => rank x.1 = rank k :=
        countP_pos_iff.mpr ⟨x, hmem, by simpa using hx⟩
      rw [countP_keydelete, if_pos rfl] at hpos
      omega
    · have hiff : x ∈ keydelete rank l k ↔ x ∈ l :=
        mem_eraseP_of_neg (by simpa using hx)
      rw [hiff]
      exact and_congr_right fun _ => (and_iff_right hx).symm

theorem keydeleteAll_sublist (keys : List κ) (l : List (κ × α)) :
    (keydeleteAll rank keys l).Sublist l := by
  induction keys generalizing l with
  | nil => exact List.Sublist.refl l
  | cons k keys ih => exact (ih (keydelete rank l k)).trans eraseP_sublist

/-- Keys of a list of pairs are no more often there than in a list that has all of them. -/
theorem countP_le_count (hdistinct : l.Pairwise fun x y => x.1 ≠ y.1)
    (hmem : ∀ x ∈ l, rank x.1 = r → x.1 ∈ keys) :
    (l.countP fun x => rank x.1 = r) ≤ (keys.map rank).count r := by
  have hnodup : ((l.filter fun x => rank x.1 = r).map Prod.fst).Nodup :=
    pairwise_map.mpr (hdistinct.filter _)
  have hsubset : ((l.filter fun x => rank x.1 = r).map Prod.fst) ⊆
      keys.filter fun k => rank k = r := by
    intro k hk
    obtain ⟨x, hx, rfl⟩ := mem_map.mp hk
    obtain ⟨hx, hr⟩ := mem_filter.mp hx
    exact mem_filter.mpr ⟨hmem x hx (of_decide_eq_true hr), hr⟩
  have hle := (hnodup.subperm hsubset).length_le
  have hcount : (keys.map rank).count r = (keys.filter fun k => rank k = r).length := by
    rw [count_eq_countP, countP_map, countP_eq_length_filter]
    congr 2
  rw [hcount, countP_eq_length_filter]
  rwa [length_map] at hle

end Keydelete

/-! ## to_list -/

/-- No key of one group compares equal to a key of the other. -/
def Apart (rank : κ → ρ) (g h : List κ × ν) : Prop :=
  ∀ k ∈ g.1, ∀ j ∈ h.1, rank k ≠ rank j

instance (g h : List κ × ν) : Decidable (Apart rank g h) :=
  inferInstanceAs (Decidable (∀ k ∈ g.1, ∀ j ∈ h.1, rank k ≠ rank j))

omit [LinearOrder κ] [LinearOrder ρ] in
theorem Apart.symm (hapart : Apart rank g h) : Apart rank h g :=
  fun k hk j hj heq => hapart j hj k hk heq.symm

/-- Pairs of a lookup: with a key of a group all keys of the group are there. -/
structure Complete (rank : κ → ρ) (l : List (κ × List κ × ν)) : Prop where
  distinct : l.Pairwise fun x y => x.1 ≠ y.1
  self : ∀ x ∈ l, x.1 ∈ x.2.1
  all : ∀ x ∈ l, ∀ k ∈ x.2.1, (k, x.2) ∈ l
  apart : ∀ x ∈ l, ∀ y ∈ l, x.2 = y.2 ∨ Apart rank x.2 y.2

section
omit [LinearOrder κ]

/-- The step of `to_list/1`: the other pairs of the first group are taken out, and no others. -/
theorem Complete.mem_keydeleteAll (h : Complete rank (x :: l)) :
    y ∈ keydeleteAll rank x.2.1 l ↔ y ∈ x :: l ∧ y.2 ≠ x.2 := by
  have hself : ∀ z ∈ x :: l, ∀ k ∈ x.2.1, rank z.1 = rank k → z.2 = x.2 := by
    intro z hz k hk hrank
    refine (h.apart z hz x mem_cons_self).resolve_right fun hapart => ?_
    exact hapart z.1 (h.self z hz) k hk hrank
  have hcount : ∀ r ∈ x.2.1.map rank,
      (l.countP fun z => rank z.1 = r) ≤ (x.2.1.map rank).count r := by
    intro r hr
    obtain ⟨k, hk, rfl⟩ := mem_map.mp hr
    refine countP_le_count (pairwise_cons.mp h.distinct).2 fun z hz hrank => ?_
    have hz' := mem_cons_of_mem x hz
    rw [← hself z hz' k hk hrank]
    exact h.self z hz'
  rw [Keys1value.mem_keydeleteAll hcount, mem_map]
  constructor
  · rintro ⟨hy, hnot⟩
    have hy' := mem_cons_of_mem x hy
    exact ⟨hy', fun heq => hnot ⟨y.1, heq ▸ h.self y hy', rfl⟩⟩
  · rintro ⟨hy, hne⟩
    refine ⟨(mem_cons.mp hy).resolve_left fun heq => hne (heq ▸ rfl), ?_⟩
    rintro ⟨k, hk, hrank⟩
    exact hne (hself y hy k hk hrank.symm)

theorem Complete.keydeleteAll (h : Complete rank (x :: l)) :
    Complete rank (keydeleteAll rank x.2.1 l) where
  distinct := (pairwise_cons.mp h.distinct).2.sublist (keydeleteAll_sublist x.2.1 l)
  self y hy := h.self y (h.mem_keydeleteAll.mp hy).1
  all y hy k hk := by
    obtain ⟨hmem, hne⟩ := h.mem_keydeleteAll.mp hy
    exact h.mem_keydeleteAll.mpr ⟨h.all y hmem k hk, hne⟩
  apart y hy z hz :=
    h.apart y (h.mem_keydeleteAll.mp hy).1 z (h.mem_keydeleteAll.mp hz).1

/-- **The loop of `to_list/1`** adds each group of the pairs once to the output. -/
theorem Complete.toListLoop (h : Complete rank l) (hnodup : output.Nodup)
    (hnew : ∀ x ∈ l, x.2 ∉ output) : (toListLoop rank l output).Nodup ∧
      ∀ g, g ∈ toListLoop rank l output ↔ g ∈ output ∨ ∃ x ∈ l, x.2 = g := by
  induction l, output using toListLoop.induct rank with
  | case1 output =>
    rw [Keys1value.toListLoop]
    exact ⟨hnodup, fun g => by simp⟩
  | case2 k entry l0 output ih =>
    have hnew' : ∀ x ∈ Keys1value.keydeleteAll rank entry.1 l0, x.2 ∉ entry :: output := by
      intro x hx
      obtain ⟨hmem, hne⟩ := h.mem_keydeleteAll.mp hx
      rw [mem_cons, not_or]
      exact ⟨hne, hnew x hmem⟩
    have hfirst : entry ∉ output := hnew (k, entry) mem_cons_self
    obtain ⟨hnodup', hmem⟩ := ih h.keydeleteAll (nodup_cons.mpr ⟨hfirst, hnodup⟩) hnew'
    rw [Keys1value.toListLoop]
    refine ⟨hnodup', fun g => ?_⟩
    rw [hmem, mem_cons]
    constructor
    · rintro ((rfl | hg) | ⟨x, hx, rfl⟩)
      · exact .inr ⟨(k, g), mem_cons_self, rfl⟩
      · exact .inl hg
      · exact .inr ⟨x, (h.mem_keydeleteAll.mp hx).1, rfl⟩
    · rintro (hg | ⟨x, hx, rfl⟩)
      · exact .inl (.inr hg)
      · by_cases heq : x.2 = entry
        · exact .inl (.inl heq)
        · exact .inr ⟨x, h.mem_keydeleteAll.mpr ⟨hx, heq⟩, rfl⟩

end

variable {live : List (List κ × ν)} {s s' : Keys1value κ ν}

omit [LinearOrder ρ] in
theorem Stands.complete (h : Stands live s) (hapart : live.Pairwise (Apart rank))
    (hl : l.Perm (Maps.toList s.lookup)) : Complete rank l := by
  have hmem : ∀ x, x ∈ l ↔ x.2 ∈ live ∧ x.1 ∈ x.2.1 := by
    rintro ⟨k, g⟩
    rw [hl.mem_iff, Maps.mem_toList, h.lookup]
  refine ⟨?_, fun x hx => ((hmem x).mp hx).2,
    fun x hx k hk => (hmem _).mpr ⟨((hmem x).mp hx).1, hk⟩, fun x hx y hy => ?_⟩
  · exact (hl.pairwise_iff Ne.symm).mpr (Maps.keys_distinct s.lookup)
  · by_cases heq : x.2 = y.2
    · exact .inl heq
    · have : Std.Symm (Apart rank : List κ × ν → List κ × ν → Prop) := ⟨fun _ _ => Apart.symm⟩
      exact .inr (hapart.forall ((hmem x).mp hx).1 ((hmem y).mp hy).1 heq)

/-- **`to_list/1`** lists every group once, whatever the order of the module's pairs. -/
theorem Stands.toList_perm (h : Stands live s) (hapart : live.Pairwise (Apart rank))
    (hl : l.Perm (Maps.toList s.lookup)) : (toList rank l).Perm live := by
  obtain ⟨hnodup, hmem⟩ := (h.complete hapart hl).toListLoop nodup_nil (by simp)
  refine (perm_ext_iff_of_nodup hnodup h.nodup).mpr fun g => ?_
  show g ∈ toListLoop rank l [] ↔ _
  rw [hmem]
  constructor
  · rintro (hg | ⟨⟨k, g⟩, hx, rfl⟩)
    · cases hg
    · exact ((h.lookup k g).mp (Maps.mem_toList.mp (hl.mem_iff.mp hx))).1
  · intro hg
    obtain ⟨k, hk⟩ := exists_mem_of_ne_nil g.1 (h.proper g hg).1
    exact .inr ⟨(k, g), hl.mem_iff.mpr (Maps.mem_toList.mpr ((h.lookup k g).mpr ⟨hg, hk⟩)), rfl⟩

/-! ## runs -/

/-- The operations that change the map. -/
inductive Operation (κ ν : Type) where
  | store (keys : List κ) (value : ν)
  | erase (key : κ)

/-- A map and its live groups: those that are stored and not erased. -/
structure World (κ ν : Type) [LinearOrder κ] where
  map : Keys1value κ ν := {}
  live : List (List κ × ν) := []

/-- An operation; `none` is a failure. -/
def apply (w : World κ ν) : Operation κ ν → Option (World κ ν)
  | .store keys value =>
      (store keys value w.map).map fun map => { map, live := (keys, value) :: w.live }
  | .erase key => some { map := erase key w.map, live := w.live.filter fun g => key ∉ g.1 }

/-- **The condition on an operation**: no key that is stored compares equal to a key of a live
group. -/
def Separate (rank : κ → ρ) (w : World κ ν) : Operation κ ν → Prop
  | .store keys value => ∀ g ∈ w.live, Apart rank (keys, value) g
  | .erase _ => True

instance (w : World κ ν) (op : Operation κ ν) : Decidable (Separate rank w op) := by
  unfold Separate
  split <;> infer_instance

/-- The invariant of the runs. -/
structure Groups (rank : κ → ρ) (w : World κ ν) : Prop where
  stands : Stands w.live w.map
  apart : w.live.Pairwise (Apart rank)

omit [LinearOrder ρ] in
theorem Groups.apply (h : Groups rank w) (hseparate : Separate rank w op)
    (hstep : apply w op = some w') : Groups rank w' := by
  cases op with
  | store keys value =>
    obtain ⟨map, hstore, rfl⟩ := Option.map_eq_some_iff.mp hstep
    exact ⟨h.stands.store hstore, pairwise_cons.mpr ⟨hseparate, h.apart⟩⟩
  | erase key =>
    cases hstep
    exact ⟨h.stands.erase key, h.apart.filter _⟩

/-- **A map of many keys to one value**: the live groups partition the keys, a key gives the value
of its group, an erase of a key removes its group and nothing else, `to_list` lists every group
once with all its keys, and new keys can be stored. -/
structure ManyKeys (rank : κ → ρ) (w : World κ ν) : Prop where
  isKey : ∀ k, isKey k w.map = true ↔ ∃ g ∈ w.live, k ∈ g.1
  partition : w.live.Pairwise fun g h => g.1.Disjoint h.1
  proper : ∀ g ∈ w.live, g.1 ≠ [] ∧ g.1.Nodup
  find : ∀ g ∈ w.live, ∀ k ∈ g.1, find k w.map = some g.2
  fetch : ∀ g ∈ w.live, ∀ k ∈ g.1, fetch k w.map = some g.2
  erase : ∀ g ∈ w.live, ∀ k ∈ g.1, ∀ j, Maps.find j (erase k w.map).lookup =
    if j ∈ g.1 then none else Maps.find j w.map.lookup
  toList : ∀ l, l.Perm (Maps.toList w.map.lookup) → (toList rank l).Perm w.live
  store : ∀ keys value, keys ≠ [] → keys.Nodup → (∀ g ∈ w.live, ∀ k ∈ keys, k ∉ g.1) →
    (store keys value w.map).isSome = true

theorem Groups.manyKeys (h : Groups rank w) : ManyKeys rank w where
  isKey k := by
    rw [Keys1value.isKey, Option.isSome_iff_exists]
    refine exists_congr fun g => h.stands.lookup k g
  partition := h.stands.disjoint
  proper := h.stands.proper
  find g hg k hk := by
    rw [Keys1value.find, (h.stands.lookup k g).mpr ⟨hg, hk⟩]
  fetch g hg k hk := by
    rw [Keys1value.fetch, (h.stands.lookup k g).mpr ⟨hg, hk⟩]
    rfl
  erase g hg k hk j := by
    rw [h.stands.find_erase]
    have hiff : (∃ g ∈ w.live, k ∈ g.1 ∧ j ∈ g.1) ↔ j ∈ g.1 := by
      refine ⟨?_, fun hj => ⟨g, hg, hk, hj⟩⟩
      rintro ⟨g', hg', hk', hj⟩
      rwa [h.stands.eq_of_mem hg hk hg' hk']
    by_cases hj : j ∈ g.1
    · rw [if_pos hj, if_pos (hiff.mpr hj)]
    · rw [if_neg hj, if_neg (mt hiff.mp hj)]
  toList _ hl := h.stands.toList_perm h.apart hl
  store keys value hne hnodup hnew :=
    h.stands.store_isSome hne hnodup (fun k hk g hg => hnew g hg k hk) value

/-- **Every run in which no stored key compares equal to a key of a live group** keeps a map of
many keys to one value. -/
theorem manyKeys_of_steps {ops : List (Operation κ ν)} {w : World κ ν}
    (h : Steps apply (Separate rank) {} ops w) : ManyKeys rank w :=
  Groups.manyKeys (h.invariant (fun _ _ _ hs hseparate hstep => hs.apply hseparate hstep)
    ⟨stands_empty, List.Pairwise.nil⟩)

/-- Numbers: `2 * n` is the integer `n`, and `2 * n + 1` the float with its value. -/
def number (n : Nat) : Nat := n / 2

/-- Three groups, of which the first has an integer and its float, and the second is erased. -/
def groupRun : List (Operation Nat Nat) :=
  [.store [2, 3, 4] 10, .store [6, 8] 11, .erase 8, .store [8, 10] 12]

theorem manyKeys_of_steps_groupRun :
    ManyKeys number ((run apply {} groupRun).getD {} : World Nat Nat) :=
  manyKeys_of_steps (steps_getD_of_checked (by rfl))

/-- **Keys that compare equal**: 1 and 1.0 are the keys of two groups, of which `to_list` lists
one. -/
theorem not_manyKeys_of_equal_keys : ¬ ManyKeys number ((run apply {}
      ([.store [2] 10, .store [3] 11] : List (Operation Nat Nat))).getD {}) := by
  intro h
  have hperm := h.toList [(2, [2], 10), (3, [3], 11)] (by decide)
  have hone : toList number [(2, [2], 10), (3, [3], 11)] = [([2], 10)] := by
    simp [toList, toListLoop, keydeleteAll, keydelete, number]
  rw [hone] at hperm
  exact absurd hperm.length_eq (by decide)

end CloudI.Keys1value
