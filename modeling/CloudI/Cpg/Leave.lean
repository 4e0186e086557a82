import CloudI.Cpg.Groups

/-!
# Cpg.Leave

Leaves and deaths.  `leave_group_local/4` and `leave_group_remote/4` fail when the
group is gone, or when the pid has no group left; a list of leaves can get there
by using up the memberships of the pid, and `LeavesOk` is the exact condition
under which it does not.
-/

namespace CloudI.Cpg

open CloudI.Lists CloudI.Except List Function

variable {Name Pid Node : Type} [LinearOrder Name] [LinearOrder Pid] [LinearOrder Node]
  {node : Pid → Node} {home : Node}

/-! ## one group -/

variable {pid : Pid} {s : State Name Pid Node} {H : Name → List Pid} {name : Name}
  {counts : List (Name × Int)} {t : Name → Nat}

section

variable (hs : Rep node home s H) (hpid : sideOf node home pid = side) (n : Nat)

include hs hpid n

/-- The group after `n` leaves. -/
theorem leaveGroup_data (name : Name) (hname : H name ≠ []) : leaveGroup side n name pid s = (do
      let (member, groups) :=
        if removeLast pid n (H name) = [] then (false, Maps.remove name s.groups)
        else (decide (pid ∈ removeLast pid n (H name)),
          Maps.put name (dataOf node home (removeLast pid n (H name))) s.groups)
      let monitors ← if member then .ok s.monitors else leaveMonitor side name pid s.monitors
      return { s with groups, monitors }) := by
  have hcount : (onSide node home side (H name)).count pid = (H name).count pid :=
    count_onSide hpid (H name)
  have hhistory : leaveGroupPidCount ((min n ((H name).count pid) : Nat) : Int) (H name) pid =
      .ok (removeLast pid n (H name)) := by
    rw [leaveGroupPidCount_eq (Nat.min_le_right _ _), removeLast_min]
  have hmember : (pid ∈ removeLast pid n (onSide node home side (H name))) ↔
      pid ∈ removeLast pid n (H name) := by
    rw [mem_removeLast_self, mem_removeLast_self, hcount]
  rw [leaveGroup, hs.groups.find hname]
  simp only [dataOf_pids, leaveGroupPid_eq, hcount, dataOf_history, hhistory, ok_bind, hmember]
  rw [← dataOf_leave hpid, dataOf_pids]

/-- **Step lemma**: a leave of a pid that is in a group. -/
theorem leaveGroup_spec (hname : H name ≠ []) (hmem : ∃ g, pid ∈ H g) :
    ∃ s', leaveGroup side n name pid s = .ok s' ∧
      Rep node home s' (update H name (removeLast pid n (H name))) := by
  rw [leaveGroup_data hs hpid n name hname]
  have hother : ∀ p g, p ∈ update H name (removeLast pid n (H name)) g ↔
      p ∈ H g ∧ ¬ (p = pid ∧ g = name ∧ pid ∉ removeLast pid n (H name)) := by
    intro p g
    rw [update_apply]
    by_cases hg : g = name
    · subst hg
      by_cases hp : p = pid
      · subst hp
        rw [if_pos rfl]
        have hsub : p ∈ removeLast p n (H g) → p ∈ H g := by
          rw [mem_removeLast_self, ← count_pos_iff]
          omega
        constructor
        · exact fun h => ⟨hsub h, fun hnot => hnot.2.2 h⟩
        · rintro ⟨-, hnot⟩
          by_contra h
          exact hnot ⟨rfl, rfl, h⟩
      · rw [if_pos rfl, mem_removeLast_of_ne hp]
        simp [hp]
    · simp [hg]
  by_cases hstill : pid ∈ removeLast pid n (H name)
  · -- the pid is still a member
    have hne : removeLast pid n (H name) ≠ [] := ne_nil_of_mem hstill
    simp only [if_neg hne, decide_eq_true hstill, if_true, ok_bind]
    refine ⟨_, rfl, hs.groups.put name hne, hs.monitors.congr fun p g => ?_⟩
    rw [hother]
    simp [hstill]
  · obtain ⟨monitors, hmonitors, hm⟩ := leaveMonitor_spec hs.monitors hpid hmem name
    have hm' : MonitorsOk node home monitors fun p g =>
        p ∈ update H name (removeLast pid n (H name)) g := by
      refine hm.congr fun p g => ?_
      rw [hother]
      simp [hstill]
    by_cases hempty : removeLast pid n (H name) = []
    · simp only [if_pos hempty, Bool.false_eq_true, if_false, hmonitors, ok_bind]
      refine ⟨_, rfl, ?_, hm'⟩
      rw [hempty]
      exact hs.groups.remove name
    · simp only [if_neg hempty, decide_eq_false hstill, Bool.false_eq_true, if_false, hmonitors,
        ok_bind]
      exact ⟨_, rfl, hs.groups.put name hempty, hm'⟩

theorem leaveGroup_fails (h : H name = [] ∨ ∀ g, pid ∉ H g)
    : ∃ e, leaveGroup side n name pid s = .error e := by
  by_cases hname : H name = []
  · refine ⟨.fetch, ?_⟩
    rw [leaveGroup, hs.groups name, if_pos hname]
  · have hmem : ∀ g, pid ∉ H g := h.resolve_left hname
    have hcount : (H name).count pid = 0 := count_eq_zero.mpr (hmem name)
    have hsame : removeLast pid n (H name) = H name := by
      rw [← removeLast_min, hcount, Nat.min_zero, removeLast_zero]
    have hmonitor : leaveMonitor side name pid s.monitors = .error .badkey := by
      rw [leaveMonitor]
      cases hfind : Maps.find pid s.monitors with
      | none => rfl
      | some m =>
        obtain ⟨⟨g, hg⟩, -⟩ := hs.monitors.some hfind
        exact absurd hg (hmem g)
    refine ⟨.badkey, ?_⟩
    rw [leaveGroup_data hs hpid n name hname]
    simp only [hsame, if_neg hname, decide_eq_false (hmem name), Bool.false_eq_true, if_false,
      hmonitor, error_bind]

end

/-! ## a list of groups -/

/-- The histories after `t` leaves of each group. -/
def less (H : Name → List Pid) (pid : Pid) (t : Name → Nat) (name : Name) : List Pid :=
  removeLast pid (t name) (H name)

/-- How often the group occurs in a list of leaves, with its counts. -/
def taken (counts : List (Name × Int)) (name : Name) : Nat :=
  match counts with
  | [] => 0
  | x :: counts => (if x.1 = name then x.2.toNat else 0) + taken counts name

/-- **No leave of the list fails**: at each group, the earlier leaves of the list
left the pid a membership of it, or the group has other members and the pid a
membership of some group. -/
def LeavesOk (H : Name → List Pid) (pid : Pid) (counts : List (Name × Int)) : Prop :=
  ∀ earlier name n later, counts = earlier ++ (name, n) :: later →
    taken earlier name < (H name).count pid ∨
      ((∃ q ∈ H name, q ≠ pid) ∧ ∃ g, taken earlier g < (H g).count pid)

/-- `LeavesOk` behind the leaves `t`. -/
def LeavesOkFrom (H : Name → List Pid) (pid : Pid) (t : Name → Nat) (counts : List (Name × Int)) :
    Prop :=
  ∀ earlier name n later, counts = earlier ++ (name, n) :: later →
    t name + taken earlier name < (H name).count pid ∨
      ((∃ q ∈ H name, q ≠ pid) ∧ ∃ g, t g + taken earlier g < (H g).count pid)

theorem leavesOkFrom_nil (H : Name → List Pid) (pid : Pid) (t : Name → Nat) :
    LeavesOkFrom H pid t [] := by
  intro earlier name n later h
  simp at h

theorem leavesOkFrom_cons {n : Int} : LeavesOkFrom H pid t ((name, n) :: counts) ↔
      (t name < (H name).count pid ∨ ((∃ q ∈ H name, q ≠ pid) ∧ ∃ g, t g < (H g).count pid)) ∧
      LeavesOkFrom H pid (fun g => t g + if name = g then n.toNat else 0) counts := by
  constructor
  · intro h
    refine ⟨by simpa [taken] using h [] name n counts rfl, ?_⟩
    intro earlier name' n' later hcounts
    have := h ((name, n) :: earlier) name' n' later (by rw [hcounts]; rfl)
    simpa only [taken, Nat.add_assoc] using this
  · rintro ⟨hfirst, hrest⟩ earlier name' n' later hcounts
    cases earlier with
    | nil =>
      cases hcounts
      simpa [taken] using hfirst
    | cons x earlier =>
      cases hcounts
      simpa only [taken, Nat.add_assoc] using hrest earlier name' n' later rfl

omit [LinearOrder Name] in
theorem less_ne_nil :
    less H pid t name ≠ [] ↔ t name < (H name).count pid ∨ ∃ q ∈ H name, q ≠ pid := by
  constructor
  · intro h
    obtain ⟨q, hq⟩ := exists_mem_of_ne_nil _ h
    by_cases hp : q = pid
    · subst hp
      exact .inl (mem_removeLast_self.mp hq)
    · exact .inr ⟨q, (mem_removeLast_of_ne hp).mp hq, hp⟩
  · rintro (h | ⟨q, hq, hp⟩)
    · exact ne_nil_of_mem (mem_removeLast_self.mpr h)
    · exact ne_nil_of_mem ((mem_removeLast_of_ne hp).mpr hq)

theorem less_update (H : Name → List Pid) (pid : Pid) (t : Name → Nat) (name : Name) (n : Nat) :
    update (less H pid t) name (removeLast pid n (less H pid t name)) =
      less H pid fun g => t g + if name = g then n else 0 := by
  funext g
  rw [update_apply]
  by_cases hg : g = name
  · subst hg
    rw [if_pos rfl, less, less, removeLast_add, if_pos rfl]
  · rw [if_neg hg, less, less, if_neg (Ne.symm hg), Nat.add_zero]

/-- **Run lemma** of a list of leaves, by induction on the list: it succeeds
exactly when no leave of it fails. -/
theorem leaveGroups_spec (hpid : sideOf node home pid = side) (hcounts : ∀ x ∈ counts, 0 < x.2)
    (hs : Rep node home s (less H pid t)) :
    (LeavesOkFrom H pid t counts → ∃ s', leaveGroups side pid counts s = .ok s' ∧
      Rep node home s' (less H pid fun g => t g + taken counts g)) ∧
    (¬ LeavesOkFrom H pid t counts → ∃ e, leaveGroups side pid counts s = .error e) := by
  induction counts generalizing t s with
  | nil =>
    refine ⟨fun _ => ⟨s, rfl, hs⟩, fun h => absurd (leavesOkFrom_nil H pid t) h⟩
  | cons x counts ih =>
    obtain ⟨name, n⟩ := x
    have hn : 0 < n := hcounts (name, n) mem_cons_self
    obtain ⟨m, rfl⟩ := Int.eq_ofNat_of_zero_le hn.le
    have hrest : ∀ x ∈ counts, 0 < x.2 := fun x hx => hcounts x (mem_cons_of_mem _ hx)
    have hfirst : (t name < (H name).count pid ∨
        ((∃ q ∈ H name, q ≠ pid) ∧ ∃ g, t g < (H g).count pid)) ↔
        less H pid t name ≠ [] ∧ ∃ g, pid ∈ less H pid t g := by
      rw [less_ne_nil]
      simp only [less, mem_removeLast_self]
      constructor
      · rintro (h | ⟨hq, hg⟩)
        · exact ⟨.inl h, name, h⟩
        · exact ⟨.inr hq, hg⟩
      · rintro ⟨h | hq, hg⟩
        · exact .inl h
        · exact .inr ⟨hq, hg⟩
    rw [leavesOkFrom_cons, hfirst, leaveGroups, leaveGroupSide_eq]
    by_cases hok : less H pid t name ≠ [] ∧ ∃ g, pid ∈ less H pid t g
    · obtain ⟨s', hs', hrep⟩ := leaveGroup_spec hs hpid m hok.1 hok.2
      rw [less_update] at hrep
      obtain ⟨hgood, hbad⟩ := ih hrest hrep
      rw [hs', ok_bind]
      refine ⟨fun h => ?_, fun h => hbad fun hfrom => h ⟨hok, by simpa using hfrom⟩⟩
      obtain ⟨s'', hs'', hrep'⟩ := hgood (by simpa using h.2)
      refine ⟨s'', hs'', ?_⟩
      simpa only [taken, Nat.add_assoc, Int.toNat_natCast] using hrep'
    · have hcase : less H pid t name = [] ∨ ∀ g, pid ∉ less H pid t g := by
        by_contra hnot
        push Not at hnot
        exact hok hnot
      obtain ⟨e, he⟩ := leaveGroup_fails hs hpid m hcase
      refine ⟨fun h => absurd h.1 hok, fun _ => ⟨e, ?_⟩⟩
      rw [he]
      rfl

/-! ## all groups of a pid -/

/-- The histories without a pid. -/
def without (H : Name → List Pid) (pid : Pid) (name : Name) : List Pid :=
  (H name).filter (· ≠ pid)

omit [LinearOrder Name] in
theorem without_of_notMem (h : ∀ g, pid ∉ H g) : without H pid = H := by
  funext g
  refine filter_eq_self.mpr fun q hq => ?_
  have hne : q ≠ pid := fun heq => h g (heq ▸ hq)
  simpa using hne

omit [LinearOrder Name] in
theorem mem_without : q ∈ without H pid g ↔ q ∈ H g ∧ q ≠ pid := by
  simp [without]

theorem dataOf_without (hpid : sideOf node home pid = side) (h : List Pid) :
    (dataOf node home h).set side
      ((dataOf node home h).count side - (((dataOf node home h).pids side).count pid : Int))
      (((dataOf node home h).pids side).filter (· ≠ pid)) (h.filter (· ≠ pid)) =
      dataOf node home (h.filter (· ≠ pid)) := by
  have hcomm : ∀ side', (onSide node home side' h).filter (· ≠ pid) =
      onSide node home side' (h.filter (· ≠ pid)) := by
    intro side'
    rw [onSide, onSide, filter_filter, filter_filter]
    simp only [Bool.and_comm]
  have hother : ∀ side', side' ≠ side →
      onSide node home side' (h.filter (· ≠ pid)) = onSide node home side' h := by
    intro side' hne
    rw [← hcomm]
    refine filter_eq_self.mpr fun q hq => ?_
    have hq' : sideOf node home q = side' := by simpa [onSide] using (mem_filter.mp hq).2
    have hqp : q ≠ pid := fun heq => sideOf_ne hpid side' hne (heq ▸ hq')
    simpa using hqp
  have hlen := length_filter_ne pid (onSide node home side h)
  rw [dataOf_pids, dataOf_count, hcomm]
  refine dataOf_set side hother ?_
  rw [← hcomm]
  omega

/-- A process leaves a group with all its entries. -/
theorem leaveAllGroup_spec (hg : GroupsOk node home s.groups H) (hpid : sideOf node home pid = side)
    (hname : H name ≠ []) :
    ∃ groups, leaveAllGroup side pid name s = .ok { s with groups } ∧
      GroupsOk node home groups (update H name ((H name).filter (· ≠ pid))) := by
  rw [leaveAllGroup, hg.find hname]
  simp only [leaveAllPid_eq, dataOf_history]
  rw [dataOf_without hpid]
  by_cases hempty : (H name).filter (· ≠ pid) = []
  · simp only [if_pos hempty]
    refine ⟨_, rfl, ?_⟩
    rw [hempty]
    exact hg.remove name
  · simp only [if_neg hempty]
    exact ⟨_, rfl, hg.put name hempty⟩

/-- **Run lemma** of `leave_all_local/4` and `leave_all_remote/4`, by induction on
the groups that are left. -/
theorem leaveAll_spec (hpid : sideOf node home pid = side) {names : List Name}
    (hnodup : names.Nodup) (hg : GroupsOk node home s.groups H)
    (hnames : ∀ name ∈ names, H name ≠ []) :
    ∃ groups, leaveAll side names pid s = .ok { s with groups } ∧
      GroupsOk node home groups fun g => if g ∈ names then (H g).filter (· ≠ pid) else H g := by
  induction names generalizing s H with
  | nil => exact ⟨s.groups, rfl, by simpa using hg⟩
  | cons name names ih =>
    rw [nodup_cons] at hnodup
    obtain ⟨groups, hgroup, hg'⟩ := leaveAllGroup_spec hg hpid (hnames name mem_cons_self)
    have hnames' : ∀ g ∈ names, update H name ((H name).filter (· ≠ pid)) g ≠ [] := by
      intro g hmem
      have hne : g ≠ name := fun heq => hnodup.1 (heq ▸ hmem)
      rw [update_of_ne hne]
      exact hnames g (mem_cons_of_mem name hmem)
    obtain ⟨groups', hrest, hg''⟩ := ih (s := { s with groups }) hnodup.2 hg' hnames'
    refine ⟨groups', by rw [leaveAll, hgroup, ok_bind, hrest], ?_⟩
    intro g
    rw [hg'' g]
    by_cases hname : g = name
    · subst hname
      simp [hnodup.1]
    · simp [hname]

theorem leaveAll_taken (hs : Rep node home s H) (hpid : sideOf node home pid = side)
    (hfind : Maps.find pid s.monitors = some m) :
    ∃ s', leaveAll side m.names pid { s with monitors := Maps.remove pid s.monitors } = .ok s' ∧
      Rep node home s' (without H pid) := by
  obtain ⟨-, -, hsorted, hnames⟩ := hs.monitors.some hfind
  have hne : ∀ name ∈ m.names, H name ≠ [] := fun name hmem =>
    ne_nil_of_mem ((hnames name).mp hmem)
  obtain ⟨groups, hleave, hg⟩ := leaveAll_spec hpid (hsorted.imp ne_of_lt)
    (s := { s with monitors := Maps.remove pid s.monitors }) hs.groups hne
  have hwithout : (fun g => if g ∈ m.names then (H g).filter (· ≠ pid) else H g) =
      without H pid := by
    funext g
    by_cases hg : g ∈ m.names
    · rw [if_pos hg]
      rfl
    · rw [if_neg hg, without, eq_comm, filter_eq_self]
      intro q hq
      have hq' : q ≠ pid := fun heq => hg ((hnames g).mpr (heq ▸ hq))
      simpa using hq'
  rw [hwithout] at hg
  have hm : MonitorsOk node home (Maps.remove pid s.monitors) fun p g => p ∈ without H pid g := by
    refine hs.monitors.remove pid (fun p hp g => ?_) fun g => ?_
    · simp [mem_without, hp]
    · simp [mem_without]
  exact ⟨_, hleave, hg, hm⟩

/-- **Step lemma**: a dead pid leaves all of its groups. -/
theorem memberDied_spec (hs : Rep node home s H) (hpid : sideOf node home pid = side) :
    ∃ s', memberDied side pid s = .ok s' ∧ Rep node home s' (without H pid) := by
  rw [memberDied, Maps.take]
  cases hfind : Maps.find pid s.monitors with
  | none =>
    have hnone : ∀ g, pid ∉ H g := hs.monitors.none hfind
    rw [without_of_notMem hnone]
    exact ⟨s, rfl, hs⟩
  | some m =>
    simp only [Option.map_some, leaveAllSide_eq]
    exact leaveAll_taken hs hpid hfind

/-- The histories without the pids of a list. -/
def withoutAll (H : Name → List Pid) (pids : List Pid) : Name → List Pid :=
  pids.foldl (fun H pid => without H pid) H

/-- The processes of a lost node leave all groups. -/
theorem membersDiedRemote_spec {pids : List Pid}
    (hpids : ∀ pid ∈ pids, sideOf node home pid = .remote) (hs : Rep node home s H) :
    ∃ s', membersDiedRemote pids s = .ok s' ∧ Rep node home s' (withoutAll H pids) := by
  induction pids generalizing s H with
  | nil => exact ⟨s, rfl, hs⟩
  | cons pid pids ih =>
    obtain ⟨s', hs', hrep⟩ := memberDied_spec hs (hpids pid mem_cons_self)
    obtain ⟨s'', hs'', hrep'⟩ := ih (fun p hp => hpids p (mem_cons_of_mem pid hp)) hrep
    refine ⟨s'', ?_, hrep'⟩
    rw [membersDiedRemote, hs', ok_bind, hs'']

end CloudI.Cpg
