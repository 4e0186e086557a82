import CloudI.Cpg.Agree
import Mathlib.Data.List.Sort

/-!
# Cpg.LeaveCounts

Joins and leaves with counts.  A leave takes the oldest memberships of the pid, so
that the leaves of what was joined restore the counts and the monitors, and a
history when the earlier memberships of the pid are its newest.
-/

namespace CloudI.Cpg

open CloudI.Lists CloudI.Except Run List

variable {Name Pid Node : Type} [LinearOrder Name] [LinearOrder Pid] [LinearOrder Node]
  {node : Pid → Node} {home : Node}

/-! ## the counts of a list -/

theorem taken_append (counts later : List (Name × Int)) (name : Name) :
    taken (counts ++ later) name = taken counts name + taken later name := by
  induction counts with
  | nil => exact (Nat.zero_add _).symm
  | cons x counts ih => rw [cons_append, taken, taken, ih, Nat.add_assoc]

variable {counts : List (Name × Int)} {s s' : State Name Pid Node} {H : Name → List Pid} {pid : Pid}

theorem taken_pos (hcounts : ∀ x ∈ counts, 0 < x.2) (h : x ∈ counts) : 0 < taken counts x.1 := by
  obtain ⟨earlier, later, rfl⟩ := append_of_mem h
  have hpos := hcounts x h
  rw [taken_append, taken, if_pos rfl]
  omega

theorem taken_eq_zero (h : ∀ x ∈ counts, x.1 ≠ name) : taken counts name = 0 := by
  induction counts with
  | nil => rfl
  | cons x counts ih =>
    rw [taken, if_neg (h x mem_cons_self), Nat.zero_add]
    exact ih fun y hy => h y (mem_cons_of_mem x hy)

omit [LinearOrder Pid] in
theorem more_eq (H : Name → List Pid) (pid : Pid) (counts : List (Name × Int)) (name : Name) :
    more H pid counts name = List.replicate (taken counts name) pid ++ H name := by
  induction counts generalizing H with
  | nil => rfl
  | cons x counts ih =>
    have hstep : more H pid (x :: counts) =
        more (Function.update H x.1 (List.replicate x.2.toNat pid ++ H x.1)) pid counts := rfl
    rw [hstep, ih, taken, Function.update_apply]
    by_cases hname : name = x.1
    · rw [if_pos hname, if_pos hname.symm, hname, ← append_assoc,
        replicate_append_replicate, Nat.add_comm]
    · rw [if_neg hname, if_neg (Ne.symm hname), Nat.zero_add]

theorem leavesOk_more (H : Name → List Pid) (pid : Pid) (hcounts : ∀ x ∈ counts, 0 < x.2) :
    LeavesOk (more H pid counts) pid counts := by
  rintro earlier name n later rfl
  have hn : 0 < n := hcounts (name, n) (mem_append_right _ mem_cons_self)
  left
  rw [count_more, if_pos rfl, taken_append, taken, if_pos rfl]
  omega

/-! ## states with the same histories -/

/-- The groups that a pid is in determine its monitor. -/
theorem MonitorsOk.unique {monitors monitors' : ErlMap Pid (StateMonitor Name)}
    {M : Pid → Name → Prop} (h : MonitorsOk node home monitors M)
    (h' : MonitorsOk node home monitors' M) : monitors = monitors' := by
  refine Maps.ext fun pid => ?_
  cases hm : Maps.find pid monitors with
  | none =>
    cases hm' : Maps.find pid monitors' with
    | none => rfl
    | some m' =>
      obtain ⟨⟨name, hname⟩, -⟩ := h'.some hm'
      exact absurd hname (h.none hm name)
  | some m =>
    obtain ⟨⟨name, hname⟩, hside, hsorted, hnames⟩ := h.some hm
    cases hm' : Maps.find pid monitors' with
    | none => exact absurd hname (h'.none hm' name)
    | some m' =>
      obtain ⟨-, hside', hsorted', hnames'⟩ := h'.some hm'
      obtain ⟨monitor, names⟩ := m
      obtain ⟨monitor', names'⟩ := m'
      have hsame : names = names' := hsorted.eq_of_mem_iff hsorted' fun g =>
        (hnames g).trans (hnames' g).symm
      have hmonitor : monitor = monitor' := by
        have hsides := hside.trans hside'.symm
        cases monitor <;> cases monitor' <;> first | rfl | cases hsides
      rw [hsame, hmonitor]

theorem Rep.groups_eq_iff (hs : Rep node home s H) (hs' : Rep node home s' H') :
    s'.groups = s.groups ↔ ∀ name, H' name = H name := by
  constructor
  · intro h name
    rw [← hs.historyOf_eq, ← hs'.historyOf_eq, historyOf, historyOf, h]
  · intro h
    refine Maps.ext fun name => ?_
    rw [hs.groups name, hs'.groups name, h name]

/-! ## a list of leaves -/

/-- **A list of leaves** that leads from `s` to `s'`. -/
structure Reduced (node : Pid → Node) (home : Node) (pid : Pid) (counts : List (Name × Int))
    (s s' : State Name Pid Node) : Prop where
  count_self : ∀ name, (historyOf s' name).count pid =
    (historyOf s name).count pid - taken counts name
  count_other : ∀ name q, q ≠ pid → (historyOf s' name).count q = (historyOf s name).count q
  represented : Represented node home s'

/-- The memberships of the pid are the newest. -/
def Newest (pid : Pid) (history : List Pid) : Prop :=
  ∃ n others, history = List.replicate n pid ++ others ∧ pid ∉ others

/-- **A list of joins and the leaves of the same list** that lead from `s` to `s'`.  The oldest
memberships leave. -/
structure Restored (pid : Pid) (counts : List (Name × Int)) (s s' : State Name Pid Node) :
    Prop where
  count_eq : ∀ name q, (historyOf s' name).count q = (historyOf s name).count q
  monitors_eq : s'.monitors = s.monitors
  history_eq : ∀ name, historyOf s' name = removeLast pid (taken counts name)
    (List.replicate (taken counts name) pid ++ historyOf s name)
  groups_eq_iff : s'.groups = s.groups ↔ ∀ x ∈ counts, Newest pid (historyOf s x.1)

theorem restored (hs : Rep node home s H) (hcounts : ∀ x ∈ counts, 0 < x.2)
    (hs' : Rep node home s' (less (more H pid counts) pid (taken counts))) :
    Restored pid counts s s' := by
  have hhistory : ∀ name, less (more H pid counts) pid (taken counts) name =
      removeLast pid (taken counts name) (List.replicate (taken counts name) pid ++ H name) :=
    fun name => by rw [less, more_eq]
  have hcount : ∀ name q,
      (less (more H pid counts) pid (taken counts) name).count q = (H name).count q := by
    intro name q
    rw [hhistory]
    by_cases hq : q = pid
    · subst hq
      rw [count_removeLast_self, count_append, count_replicate_self,
        Nat.add_sub_cancel_left]
    · rw [count_removeLast_of_ne hq, count_append, count_replicate,
        if_neg (by simpa using Ne.symm hq), Nat.zero_add]
  constructor
  case count_eq =>
    intro name q
    rw [hs.historyOf_eq, hs'.historyOf_eq, hcount]
  case monitors_eq =>
    refine hs'.monitors.unique (hs.monitors.congr fun p name => ?_)
    rw [← count_pos_iff, ← count_pos_iff, hcount]
  case history_eq =>
    intro name
    rw [hs.historyOf_eq, hs'.historyOf_eq, hhistory]
  case groups_eq_iff =>
    rw [hs.groups_eq_iff hs', hs.historyOf_eq]
    constructor
    · intro h x hx
      have hname := h x.1
      rw [hhistory] at hname
      exact (removeLast_replicate_append_iff (taken_pos hcounts hx)).mp hname
    · intro h name
      rw [hhistory]
      by_cases hname : ∃ x ∈ counts, x.1 = name
      · obtain ⟨x, hx, rfl⟩ := hname
        exact (removeLast_replicate_append_iff (taken_pos hcounts hx)).mpr (h x hx)
      · push Not at hname
        rw [taken_eq_zero hname, removeLast_zero]
        rfl

theorem leaveCounts_refused (hs : Rep node home s H) (hpid : sideOf node home pid = side)
    (hcounts : ∀ x ∈ counts, 0 < x.2) (h : ¬ Taken H (.leaveCounts counts pid)) :
    handleRequest node side s (.leaveCounts counts pid) = .ok (false, s) := by
  refine (handleRequest_spec hs (.leaveCounts counts pid) hpid fun _ => hcounts).2.1 ?_ h
  intro hall earlier name n later heq
  have hmem : (name, n) ∈ counts := heq ▸ mem_append_right _ mem_cons_self
  exact absurd ⟨⟨name, (hall _ hmem).1⟩, hall⟩ h

/-- **Leaves with counts**, in every reachable state: a list is accepted when the pid is in all its
groups; then it takes as many memberships, if no leave of it fails; and after a list of joins the
leaves of the same list restore the counts and the monitors. -/
theorem leaves_counts {ms : List (Message Name Pid Node)} {s : State Name Pid Node}
    (hms : ∀ m ∈ ms, Received node home m) (h : run (step node home) {} ms = some s)
    {pid : Pid} (hpid : sideOf node home pid = side) {counts : List (Name × Int)}
    (hcounts : ∀ x ∈ counts, 0 < x.2) :
    (¬ Taken (historyOf s) (.leaveCounts counts pid) →
      handleRequest node side s (.leaveCounts counts pid) = .ok (false, s)) ∧
    (Taken (historyOf s) (.leaveCounts counts pid) → LeavesOk (historyOf s) pid counts →
      ∃ s', handleRequest node side s (.leaveCounts counts pid) = .ok (true, s') ∧
        Reduced node home pid counts s s') ∧
    ∃ s1 ok s2, handleRequest node side s (.joinCounts counts pid) = .ok (true, s1) ∧
      handleRequest node side s1 (.leaveCounts counts pid) = .ok (ok, s2) ∧
      Restored pid counts s s2 := by
  obtain ⟨H, hs⟩ := reachable_rep hms h
  refine ⟨?_, ?_, ?_⟩
  · rw [hs.historyOf_eq]
    exact leaveCounts_refused hs hpid hcounts
  · rw [hs.historyOf_eq]
    intro htaken hok
    obtain ⟨s', hs', hrep⟩ :=
      (handleRequest_spec hs (.leaveCounts counts pid) hpid fun _ => hcounts).1
        (fun _ => hok) htaken
    refine ⟨s', hs', ?_⟩
    constructor
    case count_self =>
      intro name
      rw [hs.historyOf_eq, hrep.historyOf_eq]
      exact count_removeLast_self pid (taken counts name) (H name)
    case count_other =>
      intro name q hq
      rw [hs.historyOf_eq, hrep.historyOf_eq]
      exact count_removeLast_of_ne hq (taken counts name) (H name)
    case represented => exact hrep.represented
  · obtain ⟨s1, hs1, hrep1⟩ :=
      (handleRequest_spec hs (.joinCounts counts pid) hpid fun _ => hcounts).1 trivial hcounts
    by_cases htaken : Taken (more H pid counts) (.leaveCounts counts pid)
    · obtain ⟨s2, hs2, hrep2⟩ :=
        (handleRequest_spec hrep1 (.leaveCounts counts pid) hpid fun _ => hcounts).1
          (fun _ => leavesOk_more H pid hcounts) htaken
      exact ⟨s1, true, s2, hs1, hs2, restored hs hcounts hrep2⟩
    · -- only an empty list is refused, of a pid without memberships
      have hnil : counts = [] := by
        by_contra hne
        obtain ⟨x, hx⟩ := exists_mem_of_ne_nil _ hne
        have hmem : ∀ y ∈ counts, pid ∈ more H pid counts y.1 := fun y hy => by
          rw [← count_pos_iff, count_more, if_pos rfl]
          exact Nat.lt_of_lt_of_le (taken_pos hcounts hy) (Nat.le_add_left _ _)
        exact htaken ⟨⟨x.1, hmem x hx⟩, fun y hy => ⟨hmem y hy, hcounts y hy⟩⟩
      subst hnil
      refine ⟨s1, false, s1, hs1, leaveCounts_refused hrep1 hpid hcounts htaken,
        restored hs hcounts ?_⟩
      have hnothing : less (more H pid []) pid (taken []) = more H pid [] := less_zero _ _
      rw [hnothing]
      exact hrep1

/-- The pids 5 and 6 join a group, and 5 another one too. -/
def twoJoin : List (Message Nat Nat Nat) :=
  [.call (.join 1 5), .call (.join 1 6), .call (.joinCounts [(1, 2), (2, 1)] 5)]

/-- Two leaves of one group in a list, and more leaves than memberships. -/
theorem leaves_counts_twoJoin : ∃ s, run (step (· / 100) 0) {} twoJoin = some s ∧
      (∃ s', handleRequest (· / 100) .here s (.leaveCounts [(1, 1), (2, 4), (1, 1)] 5) =
          .ok (true, s') ∧
        Reduced (· / 100) 0 5 [(1, 1), (2, 4), (1, 1)] s s') ∧
      ∃ s1 ok s2, handleRequest (· / 100) .here s (.joinCounts [(1, 1), (2, 4), (1, 1)] 5) =
          .ok (true, s1) ∧
        handleRequest (· / 100) .here s1 (.leaveCounts [(1, 1), (2, 4), (1, 1)] 5) = .ok (ok, s2) ∧
        Restored 5 [(1, 1), (2, 4), (1, 1)] s s2 := by
  have hms : ∀ m ∈ twoJoin, Received (· / 100) 0 m := by
    simp [twoJoin, Received, Request.pid, sideOf]
  refine ⟨_, rfl, ?_⟩
  have hcounts : ∀ x ∈ [((1 : Nat), (1 : Int)), (2, 4), (1, 1)], 0 < x.2 := by decide
  have hpid : sideOf (· / 100) 0 5 = .here := rfl
  obtain ⟨-, hleave, hjoin⟩ := leaves_counts hms rfl hpid hcounts
  refine ⟨hleave ⟨⟨1, by decide⟩, by decide⟩ ?_, hjoin⟩
  rw [leavesOk_iff, leavesOkFrom_cons, leavesOkFrom_cons, leavesOkFrom_cons]
  exact ⟨.inl (by decide), .inl (by decide), .inl (by decide), leavesOkFrom_nil _ _ _⟩

/-- **A join and a leave do not restore the history**: the pid 5 joined before 6, and the leave
takes its older membership. -/
theorem leave_takes_oldest :
    ∃ s s1 s2, run (step (· / 100) 0) {} [.call (.join (1 : Nat) 5), .call (.join 1 6)] = some s ∧
      handleRequest (· / 100) .here s (.joinCounts [(1, 1)] 5) = .ok (true, s1) ∧
      handleRequest (· / 100) .here s1 (.leaveCounts [(1, 1)] 5) = .ok (true, s2) ∧
      historyOf s 1 = [6, 5] ∧ historyOf s2 1 = [5, 6] :=
  ⟨_, _, _, rfl, rfl, rfl, rfl, rfl⟩

end CloudI.Cpg
