import CloudI.Erlang.Maps
import CloudI.Library.Run
import Mathlib.Data.List.Perm.Subperm
import Mathlib.Data.List.Nodup

/-!
# Keys1value.Basic

`keys1value`: a lookup for lists of keys that have one value.  Each key of a list has a copy
of the list and of the value.

The lookup tells keys apart that are not identical (`=:=`); `lists:keydelete/3`, which
`to_list/1` takes the other keys of a list out with, deletes a key that compares equal
(`==`).  `rank` is what `==` sees of a key.
-/

namespace CloudI

/-- `#keys1value{}` with `maps` as its module. -/
structure Keys1value (κ ν : Type) [LinearOrder κ] where
  lookup : ErlMap κ (List κ × ν) := ∅

namespace Keys1value

open Run List

variable {κ ν ρ : Type} [LinearOrder κ] [LinearOrder ρ]

/-! ## functions -/

def erase (key : κ) (s : Keys1value κ ν) : Keys1value κ ν :=
  match Maps.find key s.lookup with
  | some (keys, _) => { lookup := keys.foldl (fun d k => Maps.remove k d) s.lookup }
  | none => s

/-- `fetch/2`, which fails without the key. -/
def fetch (key : κ) (s : Keys1value κ ν) : Option ν := (Maps.find key s.lookup).map (·.2)

def find (key : κ) (s : Keys1value κ ν) : Option ν :=
  match Maps.find key s.lookup with
  | some (_, value) => some value
  | none => none

/-- `is_key/2` of a key. -/
def isKey (key : κ) (s : Keys1value κ ν) : Bool := (Maps.find key s.lookup).isSome

/-- A key of `store/3`, which is not there before. -/
def storeKey (keys : List κ) (value : ν) (d : ErlMap κ (List κ × ν)) (k : κ) :
    Option (ErlMap κ (List κ × ν)) :=
  match Maps.find k d with
  | none => some (Maps.put k (keys, value) d)
  | some _ => none

def store (keys : List κ) (value : ν) (s : Keys1value κ ν) : Option (Keys1value κ ν) :=
  match keys with
  | [] => none
  | _ :: _ => (keys.foldlM (storeKey keys value) s.lookup).map fun lookup => { lookup }

/-- `lists:keydelete/3` with the first element of a tuple. -/
def keydelete {α : Type} (rank : κ → ρ) (l : List (κ × α)) (k : κ) : List (κ × α) :=
  l.eraseP fun x => rank x.1 = rank k

/-- The fold of `to_list/1` over the keys of an entry. -/
def keydeleteAll {α : Type} (rank : κ → ρ) (keys : List κ) (l : List (κ × α)) : List (κ × α) :=
  keys.foldl (keydelete rank) l

omit [LinearOrder κ] in
theorem length_keydeleteAll_le {α : Type} (rank : κ → ρ) (keys : List κ) (l : List (κ × α)) :
    (keydeleteAll rank keys l).length ≤ l.length := by
  induction keys generalizing l with
  | nil => exact Nat.le_refl _
  | cons k keys ih => exact Nat.le_trans (ih (keydelete rank l k)) length_eraseP_le

/-- The loop of `to_list/1`. -/
def toListLoop (rank : κ → ρ) : List (κ × List κ × ν) → List (List κ × ν) → List (List κ × ν)
  | [], output => output
  | (_, entry) :: l0, output => toListLoop rank (keydeleteAll rank entry.1 l0) (entry :: output)
termination_by l => l.length
decreasing_by exact Nat.lt_succ_of_le (length_keydeleteAll_le rank entry.1 l0)

/-- `to_list/1`, of the pairs of the lookup in the order of its module. -/
def toList (rank : κ → ρ) (l : List (κ × List κ × ν)) : List (List κ × ν) := toListLoop rank l []

/-! ## the groups -/

/-- **A map stands for its live groups**: lists of keys with their value, of which no two have a
key in common.  Each key has a copy of its group. -/
structure Stands (live : List (List κ × ν)) (s : Keys1value κ ν) : Prop where
  lookup : ∀ k g, Maps.find k s.lookup = some g ↔ g ∈ live ∧ k ∈ g.1
  disjoint : live.Pairwise fun g h => g.1.Disjoint h.1
  proper : ∀ g ∈ live, g.1 ≠ [] ∧ g.1.Nodup

variable {rank : κ → ρ} {live : List (List κ × ν)} {s s' : Keys1value κ ν}

theorem stands_empty : Stands [] ({} : Keys1value κ ν) where
  lookup k g := by simp
  disjoint := List.Pairwise.nil
  proper := by simp

theorem Stands.eq_of_mem (h : Stands live s) (hg : g ∈ live) (hk : k ∈ g.1) (hj : g' ∈ live)
    (hk' : k ∈ g'.1) : g = g' := by
  have hfind := (h.lookup k g).mpr ⟨hg, hk⟩
  rw [(h.lookup k g').mpr ⟨hj, hk'⟩] at hfind
  exact (Option.some.inj hfind).symm

theorem Stands.find_eq_none (h : Stands live s) :
    Maps.find k s.lookup = none ↔ ∀ g ∈ live, k ∉ g.1 := by
  constructor
  · intro hnone g hg hk
    rw [(h.lookup k g).mpr ⟨hg, hk⟩] at hnone
    cases hnone
  · intro hall
    cases hfind : Maps.find k s.lookup with
    | none => rfl
    | some g =>
      obtain ⟨hg, hk⟩ := (h.lookup k g).mp hfind
      exact absurd hk (hall g hg)

theorem Stands.nodup (h : Stands live s) : live.Nodup := by
  refine List.Pairwise.imp_of_mem ?_ h.disjoint
  rintro g g' hg - hdisjoint rfl
  obtain ⟨k, hk⟩ := exists_mem_of_ne_nil g.1 (h.proper g hg).1
  exact hdisjoint hk hk

/-! ## store -/

variable {d : ErlMap κ (List κ × ν)} {l keys : List κ} {value : ν}

/-- The fold of `store/3` succeeds when the keys are new and different. -/
theorem foldlM_storeKey (keys : List κ) (value : ν) (hnodup : l.Nodup)
    (hnew : ∀ k ∈ l, Maps.find k d = none) :
    ∃ d', l.foldlM (storeKey keys value) d = some d' ∧
      ∀ j, Maps.find j d' = if j ∈ l then some (keys, value) else Maps.find j d := by
  induction l generalizing d with
  | nil => exact ⟨d, rfl, fun j => by simp⟩
  | cons k l ih =>
    rw [nodup_cons] at hnodup
    have hstep : storeKey keys value d k = some (Maps.put k (keys, value) d) := by
      rw [storeKey, hnew k mem_cons_self]
    have hnew' : ∀ j ∈ l, Maps.find j (Maps.put k (keys, value) d) = none := by
      intro j hj
      have hne : k ≠ j := fun heq => hnodup.1 (heq ▸ hj)
      rw [Maps.find_put, if_neg hne]
      exact hnew j (mem_cons_of_mem k hj)
    obtain ⟨d', hd', hfind⟩ := ih hnodup.2 hnew'
    refine ⟨d', by rw [foldlM_cons, hstep]; exact hd', fun j => ?_⟩
    rw [hfind, Maps.find_put]
    by_cases hk : k = j
    · simp [hk]
    · simp [hk, Ne.symm hk]

/-- The fold of `store/3` fails for a key that is there, also for one that comes twice. -/
theorem foldlM_storeKey_eq_some {d' : ErlMap κ (List κ × ν)}
    (h : l.foldlM (storeKey keys value) d = some d') : l.Nodup ∧ ∀ k ∈ l, Maps.find k d = none := by
  induction l generalizing d with
  | nil => exact ⟨nodup_nil, by simp⟩
  | cons k l ih =>
    rw [foldlM_cons, Option.bind_eq_bind, Option.bind_eq_some_iff] at h
    obtain ⟨d₁, hstep, hrest⟩ := h
    rw [storeKey] at hstep
    cases hfind : Maps.find k d with
    | some x =>
      rw [hfind] at hstep
      cases hstep
    | none =>
      rw [hfind] at hstep
      cases hstep
      obtain ⟨hnodup, hnew⟩ := ih hrest
      have hnew' : ∀ j ∈ l, k ≠ j ∧ Maps.find j d = none := by
        intro j hj
        have hj' := hnew j hj
        rw [Maps.find_put] at hj'
        by_cases hk : k = j
        · rw [if_pos hk] at hj'
          cases hj'
        · rw [if_neg hk] at hj'
          exact ⟨hk, hj'⟩
      refine ⟨nodup_cons.mpr ⟨fun hk => (hnew' k hk).1 rfl, hnodup⟩, ?_⟩
      exact forall_mem_cons.mpr ⟨hfind, fun j hj => (hnew' j hj).2⟩

/-- **`store`** makes a group of keys that are new and different, and fails for others. -/
theorem Stands.store (h : Stands live s) (hstore : store keys value s = some s') :
    Stands ((keys, value) :: live) s' := by
  cases keys with
  | nil => cases hstore
  | cons k keys =>
    obtain ⟨d, hd, rfl⟩ := Option.map_eq_some_iff.mp hstore
    obtain ⟨hnodup, hnew⟩ := foldlM_storeKey_eq_some hd
    obtain ⟨d', hd', hfind⟩ := foldlM_storeKey (k :: keys) value hnodup hnew
    cases hd.symm.trans hd'
    have hfree : ∀ j ∈ k :: keys, ∀ g ∈ live, j ∉ g.1 := fun j hj =>
      h.find_eq_none.mp (hnew j hj)
    refine ⟨fun j g => ?_, pairwise_cons.mpr ⟨fun g hg j hj => hfree j hj g hg, h.disjoint⟩,
      forall_mem_cons.mpr ⟨⟨cons_ne_nil _ _, hnodup⟩, h.proper⟩⟩
    rw [hfind]
    by_cases hj : j ∈ k :: keys
    · rw [if_pos hj, Option.some.injEq]
      constructor
      · rintro rfl
        exact ⟨mem_cons_self, hj⟩
      · rintro ⟨hg, hjg⟩
        rcases mem_cons.mp hg with rfl | hg
        · rfl
        · exact absurd hjg (hfree j hj g hg)
    · rw [if_neg hj, h.lookup]
      refine ⟨fun ⟨hg, hjg⟩ => ⟨mem_cons_of_mem _ hg, hjg⟩, fun ⟨hg, hjg⟩ => ⟨?_, hjg⟩⟩
      refine (mem_cons.mp hg).resolve_left ?_
      rintro rfl
      exact hj hjg

theorem Stands.store_isSome (h : Stands live s) (hne : keys ≠ []) (hnodup : keys.Nodup)
    (hnew : ∀ k ∈ keys, ∀ g ∈ live, k ∉ g.1) (value : ν) :
    (Keys1value.store keys value s).isSome = true := by
  obtain ⟨d, hd, -⟩ := foldlM_storeKey keys value hnodup fun k hk =>
    h.find_eq_none.mpr (hnew k hk)
  cases keys with
  | nil => exact absurd rfl hne
  | cons k keys =>
    rw [Keys1value.store, hd]
    rfl

/-! ## erase -/

theorem find_foldl_remove (keys : List κ) (d : ErlMap κ (List κ × ν)) (j : κ) :
    Maps.find j (keys.foldl (fun d k => Maps.remove k d) d) =
      if j ∈ keys then none else Maps.find j d := by
  induction keys generalizing d with
  | nil => simp
  | cons k keys ih =>
    rw [foldl_cons, ih, Maps.find_remove]
    by_cases hk : k = j
    · simp [hk]
    · simp [hk, Ne.symm hk]

/-- **`erase`** removes the group of a key, and nothing else. -/
theorem Stands.find_erase (h : Stands live s) (key j : κ) : Maps.find j (erase key s).lookup =
      if ∃ g ∈ live, key ∈ g.1 ∧ j ∈ g.1 then none else Maps.find j s.lookup := by
  rw [erase]
  cases hfind : Maps.find key s.lookup with
  | none =>
    have hnot : ¬ ∃ g ∈ live, key ∈ g.1 ∧ j ∈ g.1 := by
      rintro ⟨g, hg, hk, -⟩
      exact h.find_eq_none.mp hfind g hg hk
    rw [if_neg hnot]
  | some g =>
    obtain ⟨hg, hk⟩ := (h.lookup key g).mp hfind
    have hiff : j ∈ g.1 ↔ ∃ g ∈ live, key ∈ g.1 ∧ j ∈ g.1 := by
      refine ⟨fun hj => ⟨g, hg, hk, hj⟩, ?_⟩
      rintro ⟨g', hg', hk', hj⟩
      rwa [h.eq_of_mem hg hk hg' hk']
    show Maps.find j (g.1.foldl _ s.lookup) = _
    rw [find_foldl_remove]
    by_cases hj : j ∈ g.1
    · rw [if_pos hj, if_pos (hiff.mp hj)]
    · rw [if_neg hj, if_neg (mt hiff.mpr hj)]

theorem Stands.erase (h : Stands live s) (key : κ) :
    Stands (live.filter fun g => key ∉ g.1) (erase key s) := by
  refine ⟨fun j g => ?_, h.disjoint.filter _, fun g hg => h.proper g (mem_filter.mp hg).1⟩
  rw [h.find_erase, mem_filter, decide_eq_true_eq]
  by_cases hgroup : ∃ g ∈ live, key ∈ g.1 ∧ j ∈ g.1
  · rw [if_pos hgroup]
    obtain ⟨g', hg', hk, hj⟩ := hgroup
    refine iff_of_false nofun ?_
    rintro ⟨⟨hg, hnot⟩, hjg⟩
    rw [h.eq_of_mem hg' hj hg hjg] at hk
    exact hnot hk
  · rw [if_neg hgroup, h.lookup]
    refine ⟨fun ⟨hg, hj⟩ => ⟨⟨hg, fun hk => hgroup ⟨g, hg, hk, hj⟩⟩, hj⟩, ?_⟩
    exact fun ⟨⟨hg, _⟩, hj⟩ => ⟨hg, hj⟩

end Keys1value

end CloudI
