import CloudI.Erlang.Lists
import Std.Data.ExtTreeMap

/-!
# Erlang.Maps

Erlang maps: the functions of the `maps` module the modelled code calls, over
the extensional tree map of the standard library.  Erlang terms are totally
ordered, so the keys carry a linear order.

Every lemma is stated of `find`, so a proof about a map never sees the tree.
-/

namespace CloudI

open List

/-- An Erlang map with keys `κ` and values `ν`. -/
abbrev ErlMap (κ ν : Type) [LinearOrder κ] := Std.ExtTreeMap κ ν compare

namespace Maps

variable {κ ν : Type} [LinearOrder κ]

instance transCmp : Std.TransCmp (compare : κ → κ → Ordering) := inferInstance

/-- `maps:find/2`. -/
def find (k : κ) (m : ErlMap κ ν) : Option ν := m[k]?

/-- `maps:put/3`. -/
def put (k : κ) (v : ν) (m : ErlMap κ ν) : ErlMap κ ν := m.insert k v

/-- `maps:remove/2`. -/
def remove (k : κ) (m : ErlMap κ ν) : ErlMap κ ν := m.erase k

/-- `maps:take/2`: the value and the map without the key, `none` for `error`. -/
def take (k : κ) (m : ErlMap κ ν) : Option (ν × ErlMap κ ν) :=
  (find k m).map fun v => (v, remove k m)

/-- `maps:size/1`. -/
def size (m : ErlMap κ ν) : Nat := Std.ExtTreeMap.size m

/-! ## find after an update -/

variable {m m' : ErlMap κ ν} {l : List (κ × ν)}

theorem ext (h : ∀ k, find k m = find k m') : m = m' :=
  Std.ExtTreeMap.ext_getElem? h

@[simp] theorem find_empty (k : κ) : find k (∅ : ErlMap κ ν) = none := by
  simp [find]

@[simp] theorem find_put (k j : κ) (v : ν) (m : ErlMap κ ν) :
    find j (put k v m) = if k = j then some v else find j m := by
  simp [find, put, Std.ExtTreeMap.getElem?_insert]

@[simp] theorem find_remove (k j : κ) (m : ErlMap κ ν) :
    find j (remove k m) = if k = j then none else find j m := by
  simp [find, remove, Std.ExtTreeMap.getElem?_erase]

/-! ## size -/

@[simp] theorem size_empty : size (∅ : ErlMap κ ν) = 0 := rfl

theorem mem_iff_find (k : κ) (m : ErlMap κ ν) : k ∈ m ↔ (find k m).isSome := by
  simp [find]

theorem size_put (k : κ) (v : ν) (m : ErlMap κ ν) :
    size (put k v m) = if (find k m).isSome then size m else size m + 1 := by
  rw [size, put, Std.ExtTreeMap.size_insert]
  simp only [← Std.ExtTreeMap.mem_iff_contains, mem_iff_find]
  rfl

theorem size_remove (k : κ) (m : ErlMap κ ν) :
    size (remove k m) = if (find k m).isSome then size m - 1 else size m := by
  rw [size, remove, Std.ExtTreeMap.size_erase]
  simp only [← Std.ExtTreeMap.mem_iff_contains, mem_iff_find]
  rfl

theorem size_eq_zero : size m = 0 ↔ m = ∅ := by
  rw [size, Std.ExtTreeMap.eq_empty_iff_size_eq_zero]

theorem size_pos_of_find {k : κ} (h : find k m = some v) : 0 < size m := by
  refine Nat.pos_of_ne_zero fun h0 => ?_
  rw [size_eq_zero] at h0
  simp [h0] at h

/-! ## lists of pairs -/

/-- `maps:to_list/1`, in the order of `maps:fold/3`. -/
def toList (m : ErlMap κ ν) : List (κ × ν) := Std.ExtTreeMap.toList m

theorem mem_toList : (k, v) ∈ toList m ↔ find k m = some v :=
  Std.ExtTreeMap.mem_toList_iff_getElem?_eq_some

theorem keys_distinct (m : ErlMap κ ν) : (toList m).Pairwise fun x y => x.1 ≠ y.1 := by
  have h : (Std.ExtTreeMap.toList m).Pairwise fun x y => ¬ compare x.1 y.1 = .eq :=
    Std.ExtTreeMap.distinct_keys_toList
  exact h.imp fun hxy heq => hxy (Std.LawfulEqCmp.compare_eq_iff_eq.mpr heq)

theorem keys_increase (m : ErlMap κ ν) : (toList m).Pairwise fun x y => x.1 < y.1 := by
  have h : (Std.ExtTreeMap.toList m).Pairwise fun x y => compare x.1 y.1 = .lt :=
    Std.ExtTreeMap.ordered_keys_toList
  exact h.imp compare_lt_iff_lt.mp

theorem nodup_toList (m : ErlMap κ ν) : (toList m).Nodup :=
  (keys_distinct m).imp fun hxy heq => hxy (congrArg Prod.fst heq)

/-- The pairs after a pair is put under a new key. -/
theorem toList_put_perm (h : find k m = none) (v : ν) :
    (toList (put k v m)).Perm ((k, v) :: toList m) := by
  have hnot : (k, v) ∉ toList m := by
    rw [mem_toList, h]
    simp
  refine (perm_ext_iff_of_nodup (nodup_toList _)
    (nodup_cons.mpr ⟨hnot, nodup_toList m⟩)).mpr ?_
  rintro ⟨j, w⟩
  rw [mem_toList, mem_cons, mem_toList, find_put]
  by_cases hj : k = j
  · subst hj
    simp [h, eq_comm]
  · simp [hj, Ne.symm hj]

/-- The pairs with a pair taken out. -/
theorem toList_remove_perm (h : find k m = some v) :
    (toList m).Perm ((k, v) :: toList (remove k m)) := by
  have hput : m = put k v (remove k m) := by
    refine ext fun j => ?_
    rw [find_put, find_remove]
    by_cases hj : k = j
    · rw [if_pos hj, ← hj, h]
    · rw [if_neg hj, if_neg hj]
  have hnone : find k (remove k m) = none := by simp
  have hperm := toList_put_perm hnone v
  rwa [← hput] at hperm

/-- The pairs of the first map are pairs of the second. -/
def Within (m' m : ErlMap κ ν) : Prop := ∀ k v, find k m' = some v → find k m = some v

theorem Within.refl (m : ErlMap κ ν) : Within m m := fun _ _ h => h

theorem Within.trans {m'' : ErlMap κ ν} (h : Within m'' m') (h' : Within m' m) : Within m'' m :=
  fun k v hv => h' k v (h k v hv)

theorem within_remove (k : κ) (m : ErlMap κ ν) : Within (remove k m) m := by
  intro j v hv
  rw [find_remove] at hv
  split at hv
  · cases hv
  · exact hv

/-- The pairs that a smaller map has, and the ones that it has not. -/
theorem toList_within_perm (h : Within m' m) :
    (toList m).Perm ((toList m).filter (fun x => (find x.1 m').isNone) ++ toList m') := by
  have hrest : (toList m').Perm ((toList m).filter fun x => !(find x.1 m').isNone) := by
    refine (perm_ext_iff_of_nodup (nodup_toList m') ((nodup_toList m).filter _)).mpr ?_
    rintro ⟨k, v⟩
    rw [mem_filter, mem_toList, mem_toList]
    constructor
    · intro hv
      exact ⟨h k v hv, by simp [hv]⟩
    · rintro ⟨hv, hsome⟩
      cases hfind : find k m' with
      | none => simp [hfind] at hsome
      | some w => rw [← hv, h k w hfind]
  exact (filter_append_perm _ (toList m)).symm.trans (hrest.symm.append_left _)

/-- A key that is there can be taken out before it is put. -/
theorem put_remove (k : κ) (v : ν) (m : ErlMap κ ν) : put k v (remove k m) = put k v m := by
  refine ext fun j => ?_
  rw [find_put, find_put, find_remove]
  by_cases hj : k = j
  · rw [if_pos hj, if_pos hj]
  · rw [if_neg hj, if_neg hj, if_neg hj]

/-- Maps that agree on what `f` sees of the values have the same pairs up to `f`. -/
theorem toList_map_perm (f : ν → ω) (h : ∀ k, (find k m').map f = (find k m).map f) :
    ((toList m').map fun x => (x.1, f x.2)).Perm ((toList m).map fun x => (x.1, f x.2)) := by
  have hnodup : ∀ m : ErlMap κ ν, ((toList m).map fun x => (x.1, f x.2)).Nodup := by
    intro m
    refine pairwise_map.mpr ((keys_distinct m).imp fun hxy heq => hxy ?_)
    exact (Prod.mk.inj heq).1
  have hmem : ∀ (m : ErlMap κ ν) (k : κ) (w : ω),
      (k, w) ∈ ((toList m).map fun x => (x.1, f x.2)) ↔ (find k m).map f = some w := by
    intro m k w
    rw [mem_map, Option.map_eq_some_iff]
    constructor
    · rintro ⟨⟨j, v⟩, hv, heq⟩
      cases heq
      exact ⟨v, mem_toList.mp hv, rfl⟩
    · rintro ⟨v, hv, rfl⟩
      exact ⟨(k, v), mem_toList.mpr hv, rfl⟩
  refine (perm_ext_iff_of_nodup (hnodup m') (hnodup m)).mpr ?_
  rintro ⟨k, w⟩
  rw [hmem, hmem, h]

/-- `maps:with/2`. -/
def withKeys (ks : List κ) (m : ErlMap κ ν) : ErlMap κ ν := m.filter fun k _ => k ∈ ks

@[simp] theorem find_withKeys (ks : List κ) (k : κ) (m : ErlMap κ ν) :
    find k (withKeys ks m) = if k ∈ ks then find k m else none := by
  rw [find, withKeys, Std.ExtTreeMap.getElem?_filter']
  by_cases hk : k ∈ ks
  · simp only [hk, decide_true, if_true, find]
    cases m[k]? <;> rfl
  · simp [hk]

/-- `maps:map/2`, for a function of the value. -/
def map (f : ν → ω) (m : ErlMap κ ν) : ErlMap κ ω := Std.ExtTreeMap.map (fun _ => f) m

/-- `maps:update_with/4`. -/
def updateWith (k : κ) (f : ν → ν) (v : ν) (m : ErlMap κ ν) : ErlMap κ ν :=
  match find k m with
  | some old => put k (f old) m
  | none => put k v m

theorem find_updateWith (k j : κ) (f : ν → ν) (v : ν) (m : ErlMap κ ν) :
    find j (updateWith k f v m) = if k = j then some ((find k m).elim v f) else find j m := by
  rw [updateWith]
  cases find k m <;> simp

/-- `maps:update_with/3`, with the map as it is for a key that is not there. -/
def update (k : κ) (f : ν → ν) (m : ErlMap κ ν) : ErlMap κ ν :=
  match find k m with
  | some old => put k (f old) m
  | none => m

theorem find_update (k j : κ) (f : ν → ν) (m : ErlMap κ ν) :
    find j (update k f m) = if k = j then (find k m).map f else find j m := by
  rw [update]
  cases hk : find k m with
  | some old => simp
  | none =>
    by_cases hj : k = j
    · subst hj
      simp [hk]
    · simp [hj]

variable (f : ν → ν → ν)

/-- The maps merged by a fold over the first one. -/
def merge (m1 m2 : ErlMap κ ν) : ErlMap κ ν :=
  (toList m1).foldl (fun m x => updateWith x.1 (fun v2 => f x.2 v2) x.2 m) m2

theorem find_foldl_of_not_mem (h : ∀ x ∈ l, x.1 ≠ k) (m : ErlMap κ ν) :
    find k (l.foldl (fun m x => updateWith x.1 (fun v2 => f x.2 v2) x.2 m) m) = find k m := by
  induction l generalizing m with
  | nil => rfl
  | cons x l ih =>
    have hx : x.1 ≠ k := h x mem_cons_self
    rw [foldl_cons, ih (fun y hy => h y (mem_cons_of_mem x hy)), find_updateWith,
      if_neg hx]

theorem find_foldl_of_mem (hl : l.Pairwise fun x y => x.1 ≠ y.1) (h : (k, v) ∈ l) (m : ErlMap κ ν) :
    find k (l.foldl (fun m x => updateWith x.1 (fun v2 => f x.2 v2) x.2 m) m) =
      some ((find k m).elim v (f v)) := by
  induction l generalizing m with
  | nil => cases h
  | cons x l ih =>
    rw [pairwise_cons] at hl
    rw [foldl_cons]
    rcases mem_cons.mp h with rfl | h
    · rw [find_foldl_of_not_mem f (fun y hy => Ne.symm (hl.1 y hy)), find_updateWith, if_pos rfl]
    · rw [ih hl.2 h, find_updateWith, if_neg (hl.1 _ h)]

theorem find_merge (m1 m2 : ErlMap κ ν) (k : κ) : find k (merge f m1 m2) =
      match find k m1 with
      | some v => some ((find k m2).elim v (f v))
      | none => find k m2 := by
  rw [merge]
  cases hk : find k m1 with
  | some v => exact find_foldl_of_mem f (keys_distinct m1) (mem_toList.mpr hk) m2
  | none =>
    refine find_foldl_of_not_mem f (fun x hx hxk => ?_) m2
    have hfind : find x.1 m1 = some x.2 := mem_toList.mp hx
    rw [hxk, hk] at hfind
    cases hfind

end Maps

end CloudI
