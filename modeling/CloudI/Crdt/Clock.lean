import CloudI.Erlang.Maps
import Mathlib.Order.Nat
import Mathlib.Order.MinMax

/-!
# Crdt.Clock

The vector clocks of `cloudi_crdt`: maps from node ids to counters, and the
vector clocks that a process knows of the others.
-/

namespace CloudI.Crdt

variable {ν : Type} [LinearOrder ν]

/-- `vclock()`. -/
abbrev VClock (ν : Type) [LinearOrder ν] := ErlMap ν Nat

/-- `vclocks()`. -/
abbrev VClocks (ν : Type) [LinearOrder ν] := ErlMap ν (VClock ν)

def vclockCurrent (nodeIds : List ν) (c : VClock ν) : VClock ν :=
  Maps.withKeys nodeIds c

def vclockIncrement (nodeId : ν) (c : VClock ν) : VClock ν :=
  Maps.updateWith nodeId (· + 1) 0 c

def vclockLessThan (a b : VClock ν) : Bool :=
  (Maps.toList a).all fun x =>
    match Maps.find x.1 b with
    | some clockB => x.2 < clockB
    | none => false

def vclockMerge (a b : VClock ν) : VClock ν := Maps.merge max a b

def vclockMinimum (a b : VClock ν) : VClock ν := Maps.merge min a b

def vclocksUpdate (nodeId : ν) (c : VClock ν) (cs : VClocks ν) : VClocks ν :=
  Maps.put nodeId c cs

def vclocksMinimum (cs : VClocks ν) : VClock ν :=
  (Maps.toList cs).foldl (fun vclockMin x => vclockMinimum x.2 vclockMin) ∅

/-! ## order -/

/-- Every entry of `a` is in `b`, with a counter at least as high. -/
def Below (a b : VClock ν) : Prop :=
  ∀ k x, Maps.find k a = some x → ∃ y, Maps.find k b = some y ∧ x ≤ y

theorem Below.refl (a : VClock ν) : Below a a := fun _ x hx => ⟨x, hx, le_rfl⟩

variable {c a b : VClock ν}

theorem Below.trans (hab : Below a b) (hbc : Below b c) : Below a c := by
  intro k x hx
  obtain ⟨y, hy, hxy⟩ := hab k x hx
  obtain ⟨z, hz, hyz⟩ := hbc k y hy
  exact ⟨z, hz, hxy.trans hyz⟩

theorem vclockLessThan_iff : vclockLessThan a b = true ↔
    ∀ k x, Maps.find k a = some x → ∃ y, Maps.find k b = some y ∧ x < y := by
  rw [vclockLessThan, List.all_eq_true]
  constructor
  · intro h k x hx
    have hkx := h (k, x) (Maps.mem_toList.mpr hx)
    cases hb : Maps.find k b with
    | none => simp [hb] at hkx
    | some y => exact ⟨y, rfl, by simpa [hb] using hkx⟩
  · rintro h ⟨k, x⟩ hx
    obtain ⟨y, hy, hxy⟩ := h k x (Maps.mem_toList.mp hx)
    simp [hy, hxy]

/-- A clock below one that is less than `c` is less than `c`. -/
theorem vclockLessThan_of_below (hab : Below a b) (hbc : vclockLessThan b c = true) :
    vclockLessThan a c = true := by
  rw [vclockLessThan_iff] at hbc ⊢
  intro k x hx
  obtain ⟨y, hy, hxy⟩ := hab k x hx
  obtain ⟨z, hz, hyz⟩ := hbc k y hy
  exact ⟨z, hz, by omega⟩

/-! ## entries after an update -/

theorem find_vclockCurrent (nodeIds : List ν) (k : ν) (c : VClock ν) :
    Maps.find k (vclockCurrent nodeIds c) = if k ∈ nodeIds then Maps.find k c else none :=
  Maps.find_withKeys nodeIds k c

theorem find_vclockIncrement (n k : ν) (c : VClock ν) :
    Maps.find k (vclockIncrement n c) =
      if n = k then some ((Maps.find n c).elim 0 (· + 1)) else Maps.find k c :=
  Maps.find_updateWith n k (· + 1) 0 c

theorem find_vclockMerge (a b : VClock ν) (k : ν) : Maps.find k (vclockMerge a b) =
      match Maps.find k a with
      | some x => some ((Maps.find k b).elim x (max x))
      | none => Maps.find k b := by
  rw [vclockMerge, Maps.find_merge]
  cases Maps.find k a <;> rfl

theorem below_vclockCurrent (nodeIds : List ν) (c : VClock ν) :
    Below (vclockCurrent nodeIds c) c := by
  intro k x hx
  rw [find_vclockCurrent] at hx
  by_cases hk : k ∈ nodeIds
  · rw [if_pos hk] at hx
    exact ⟨x, hx, le_rfl⟩
  · rw [if_neg hk] at hx
    cases hx

theorem below_vclockMerge_right (a b : VClock ν) : Below b (vclockMerge a b) := by
  intro k x hx
  rw [find_vclockMerge, hx]
  cases Maps.find k a with
  | none => exact ⟨x, rfl, le_rfl⟩
  | some y => exact ⟨max y x, rfl, le_max_right y x⟩

theorem below_vclockMerge_left (a b : VClock ν) : Below a (vclockMerge a b) := by
  intro k x hx
  rw [find_vclockMerge, hx]
  cases Maps.find k b with
  | none => exact ⟨x, rfl, le_rfl⟩
  | some y => exact ⟨max x y, rfl, le_max_left x y⟩

/-- The merged clock has no higher counters than the two clocks. -/
theorem find_vclockMerge_eq_some (h : Maps.find k (vclockMerge a b) = some x) :
    Maps.find k a = some x ∨ Maps.find k b = some x := by
  rw [find_vclockMerge] at h
  cases ha : Maps.find k a with
  | none =>
    rw [ha] at h
    exact .inr h
  | some y =>
    rw [ha] at h
    cases hb : Maps.find k b with
    | none =>
      rw [hb] at h
      exact .inl h
    | some z =>
      rw [hb] at h
      simp only [Option.elim_some, Option.some.injEq] at h
      rcases max_choice y z with hmax | hmax
      · exact .inl (congrArg some (hmax.symm.trans h))
      · exact .inr (congrArg some (hmax.symm.trans h))

/-- **A clock advances** for a node: no counter gets lower, and that of the node gets higher. -/
def Advances (n : ν) (c c' : VClock ν) : Prop :=
  Below c c' ∧ ∃ z, Maps.find n c' = some z ∧ ∀ y, Maps.find n c = some y → y < z

theorem advances_vclockIncrement (n : ν) (c : VClock ν) : Advances n c (vclockIncrement n c) := by
  constructor
  · intro k x hx
    rw [find_vclockIncrement]
    by_cases hk : n = k
    · subst hk
      rw [if_pos rfl, hx]
      exact ⟨x + 1, rfl, Nat.le_succ x⟩
    · rw [if_neg hk]
      exact ⟨x, hx, le_rfl⟩
  · rw [find_vclockIncrement, if_pos rfl]
    refine ⟨_, rfl, fun y hy => ?_⟩
    rw [hy]
    exact Nat.lt_succ_self y

theorem Advances.trans_below (hab : Advances n a b) (hbc : Below b c) : Advances n a c := by
  obtain ⟨hbelow, z, hz, hlt⟩ := hab
  obtain ⟨w, hw, hzw⟩ := hbc n z hz
  exact ⟨hbelow.trans hbc, w, hw, fun y hy => lt_of_lt_of_le (hlt y hy) hzw⟩

/-- The clock after a receive, `vclock_merge(Remote, vclock_increment(NodeId, VClock))`. -/
theorem advances_receive (n : ν) (remote c : VClock ν) :
    Advances n c (vclockMerge remote (vclockIncrement n c)) :=
  (advances_vclockIncrement n c).trans_below (below_vclockMerge_right remote _)

/-! ## the minimum of the known clocks -/

theorem find_vclockMinimum (a b : VClock ν) (k : ν) : Maps.find k (vclockMinimum a b) =
      match Maps.find k a with
      | some x => some ((Maps.find k b).elim x (min x))
      | none => Maps.find k b := by
  rw [vclockMinimum, Maps.find_merge]
  cases Maps.find k a <;> rfl

theorem vclockMinimum_le_left (ha : Maps.find k a = some x) :
    ∃ m, Maps.find k (vclockMinimum a b) = some m ∧ m ≤ x := by
  rw [find_vclockMinimum, ha]
  cases Maps.find k b with
  | none => exact ⟨x, rfl, le_rfl⟩
  | some y => exact ⟨min x y, rfl, min_le_left x y⟩

theorem vclockMinimum_le_right (hb : Maps.find k b = some y) :
    ∃ m, Maps.find k (vclockMinimum a b) = some m ∧ m ≤ y := by
  rw [find_vclockMinimum, hb]
  cases Maps.find k a with
  | none => exact ⟨y, rfl, le_rfl⟩
  | some x => exact ⟨min x y, rfl, min_le_right x y⟩

theorem foldl_vclockMinimum_le (l : List (ν × VClock ν)) (hc : Maps.find k c = some y) :
    ∃ m, Maps.find k (l.foldl (fun vclockMin x => vclockMinimum x.2 vclockMin) c) = some m ∧
      m ≤ y := by
  induction l generalizing c y with
  | nil => exact ⟨y, hc, le_rfl⟩
  | cons x l ih =>
    obtain ⟨m, hm, hmy⟩ := vclockMinimum_le_right (a := x.2) hc
    obtain ⟨m', hm', hmm'⟩ := ih hm
    exact ⟨m', hm', hmm'.trans hmy⟩

theorem foldl_vclockMinimum_le_of_mem {l : List (ν × VClock ν)} (hx : x ∈ l)
    (hc : Maps.find k x.2 = some y) (c : VClock ν) :
    ∃ m, Maps.find k (l.foldl (fun vclockMin x => vclockMinimum x.2 vclockMin) c) = some m ∧
      m ≤ y := by
  induction l generalizing c with
  | nil => cases hx
  | cons z l ih =>
    rcases List.mem_cons.mp hx with rfl | hx
    · obtain ⟨m, hm, hmy⟩ := vclockMinimum_le_left (b := c) hc
      obtain ⟨m', hm', hmm'⟩ := foldl_vclockMinimum_le l hm
      exact ⟨m', hm', hmm'.trans hmy⟩
    · exact ih hx _

theorem vclocksMinimum_le {cs : VClocks ν} (hc : Maps.find q cs = some c)
    (hx : Maps.find k c = some x) : ∃ m, Maps.find k (vclocksMinimum cs) = some m ∧ m ≤ x :=
  foldl_vclockMinimum_le_of_mem (Maps.mem_toList.mpr hc) hx ∅

end CloudI.Crdt
