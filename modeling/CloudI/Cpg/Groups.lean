import CloudI.Cpg.Server

/-!
# Cpg.Groups

The groups of a scope process as a function from names to histories.  `Rep` says
that a state represents such a function: the records of the groups and the
monitors are determined by the histories.  Each operation of the process has a
specification lemma here, from histories to histories.
-/

namespace CloudI.Cpg

open CloudI.Lists CloudI.Except List Function

variable {Name Pid Node : Type} [LinearOrder Name] [LinearOrder Pid] [LinearOrder Node]
  {node : Pid → Node} {home : Node}

/-! ## the record of a history -/

/-- The pids of a side, in the order of the history. -/
def onSide (node : Pid → Node) (home : Node) (side : Side) (h : List Pid) : List Pid :=
  h.filter fun p => sideOf node home p = side

/-- The record that belongs to a history. -/
def dataOf (node : Pid → Node) (home : Node) (h : List Pid) : CpgData Pid :=
  { localCount := (onSide node home .here h).length
    localPids := onSide node home .here h
    remoteCount := (onSide node home .remote h).length
    remotePids := onSide node home .remote h
    history := h }

section
omit [LinearOrder Pid]

@[simp] theorem dataOf_history (h : List Pid) : (dataOf node home h).history = h := rfl

@[simp] theorem dataOf_pids (side : Side) (h : List Pid) :
    (dataOf node home h).pids side = onSide node home side h := by
  cases side <;> rfl

@[simp] theorem dataOf_count (side : Side) (h : List Pid) :
    (dataOf node home h).count side = (onSide node home side h).length := by
  cases side <;> rfl

end

variable {h : List Pid} {p pid : Pid} {groups : ErlMap Name (CpgData Pid)} {H : Name → List Pid}
  {M M' : Pid → Name → Prop} {monitors : ErlMap Pid (StateMonitor Name)}

omit [LinearOrder Pid] in
theorem dataOf_set {h' : List Pid} (side : Side)
    (hother : ∀ side', side' ≠ side → onSide node home side' h' = onSide node home side' h)
    (hc : c = ((onSide node home side h').length : Int)) :
    (dataOf node home h).set side c (onSide node home side h') h' = dataOf node home h' := by
  subst hc
  cases side with
  | here => simp [CpgData.set, dataOf, hother .remote]
  | remote => simp [CpgData.set, dataOf, hother .here]

theorem count_onSide (hp : sideOf node home p = side) (h : List Pid) :
    (onSide node home side h).count p = h.count p := by
  rw [onSide, count_filter]
  simpa using hp

omit [LinearOrder Pid] in
theorem onSide_replicate (hp : sideOf node home p = side) (n : Nat) (h : List Pid) :
    onSide node home side (List.replicate n p ++ h) =
      List.replicate n p ++ onSide node home side h := by
  rw [onSide, filter_append, filter_replicate_of_pos (by simpa using hp)]
  rfl

omit [LinearOrder Pid] in
theorem onSide_replicate_of_ne (hp : sideOf node home p ≠ side) (n : Nat) (h : List Pid) :
    onSide node home side (List.replicate n p ++ h) = onSide node home side h := by
  rw [onSide, filter_append, filter_replicate_of_neg (by simpa using hp)]
  rfl

/-! ## groups and monitors -/

/-- The groups have the records of the histories `H`, and no group is empty. -/
def GroupsOk (node : Pid → Node) (home : Node) (groups : ErlMap Name (CpgData Pid))
    (H : Name → List Pid) : Prop :=
  ∀ name, Maps.find name groups = if H name = [] then none else some (dataOf node home (H name))

/-- The monitors know the groups `M` of each pid. -/
def MonitorsOk (node : Pid → Node) (home : Node) (monitors : ErlMap Pid (StateMonitor Name))
    (M : Pid → Name → Prop) : Prop :=
  ∀ pid, match Maps.find pid monitors with
    | none => ∀ name, ¬ M pid name
    | some m => (∃ name, M pid name) ∧ m.monitor.side = sideOf node home pid ∧
        m.names.Pairwise (· < ·) ∧ ∀ name, name ∈ m.names ↔ M pid name

/-- The state represents the histories. -/
structure Rep (node : Pid → Node) (home : Node) (s : State Name Pid Node) (H : Name → List Pid) :
    Prop where
  groups : GroupsOk node home s.groups H
  monitors : MonitorsOk node home s.monitors fun pid name => pid ∈ H name

theorem rep_new : Rep node home ({} : State Name Pid Node) fun _ => [] :=
  ⟨fun name => by simp, fun pid => by simp⟩

section
omit [LinearOrder Pid]

theorem GroupsOk.put (hg : GroupsOk node home groups H) (name : Name) (hh : h ≠ []) :
    GroupsOk node home (Maps.put name (dataOf node home h) groups) (update H name h) := by
  intro name'
  rw [Maps.find_put, update_apply]
  by_cases hname : name = name'
  · rw [if_pos hname, if_pos hname.symm, if_neg hh]
  · rw [if_neg hname, if_neg (Ne.symm hname), hg name']

theorem GroupsOk.remove (hg : GroupsOk node home groups H) (name : Name) :
    GroupsOk node home (Maps.remove name groups) (update H name []) := by
  intro name'
  rw [Maps.find_remove, update_apply]
  by_cases hname : name = name'
  · rw [if_pos hname, if_pos hname.symm, if_pos rfl]
  · rw [if_neg hname, if_neg (Ne.symm hname), hg name']

theorem GroupsOk.find (hg : GroupsOk node home groups H) (hname : H name ≠ []) :
    Maps.find name groups = some (dataOf node home (H name)) := by
  rw [hg, if_neg hname]

end

section

variable (hm : MonitorsOk node home monitors M)

include hm

theorem MonitorsOk.congr (h : ∀ pid name, M pid name ↔ M' pid name) :
    MonitorsOk node home monitors M' := by
  have heq : M = M' := funext fun pid => funext fun name => propext (h pid name)
  exact heq ▸ hm

theorem MonitorsOk.put (pid : Pid) (m : StateMonitor Name)
    (hother : ∀ p, p ≠ pid → ∀ name, M' p name ↔ M p name)
    (hpid : (∃ name, M' pid name) ∧ m.monitor.side = sideOf node home pid ∧
      m.names.Pairwise (· < ·) ∧ ∀ name, name ∈ m.names ↔ M' pid name) :
    MonitorsOk node home (Maps.put pid m monitors) M' := by
  intro p
  rw [Maps.find_put]
  by_cases hp : pid = p
  · subst hp
    rw [if_pos rfl]
    exact hpid
  · have h := hm p
    simp only [hother p (Ne.symm hp), if_neg hp]
    exact h

theorem MonitorsOk.remove (pid : Pid) (hother : ∀ p, p ≠ pid → ∀ name, M' p name ↔ M p name)
    (hpid : ∀ name, ¬ M' pid name) : MonitorsOk node home (Maps.remove pid monitors) M' := by
  intro p
  rw [Maps.find_remove]
  by_cases hp : pid = p
  · subst hp
    rw [if_pos rfl]
    exact hpid
  · have h := hm p
    simp only [hother p (Ne.symm hp), if_neg hp]
    exact h

theorem MonitorsOk.some (h : Maps.find pid monitors = some m) :
    (∃ name, M pid name) ∧ m.monitor.side = sideOf node home pid ∧
      m.names.Pairwise (· < ·) ∧ ∀ name, name ∈ m.names ↔ M pid name := by
  have := hm pid
  rwa [h] at this

theorem MonitorsOk.none (h : Maps.find pid monitors = none) (name : Name) : ¬ M pid name := by
  have := hm pid
  rw [h] at this
  exact this name

end

/-! ## joins -/

omit [LinearOrder Pid] in
theorem sideOf_eq_here : sideOf node home pid = .here ↔ node pid = home := by
  rw [sideOf]
  by_cases h : node pid = home <;> simp [h]

theorem monitorSide_spec (hm : MonitorsOk node home monitors M) (hpid : sideOf node home pid = side)
    (name : Name) (nodeMonitors : ErlMap Node Unit) :
    MonitorsOk node home (monitorSide node side pid name monitors nodeMonitors).1
      fun p g => M p g ∨ (p = pid ∧ g = name) := by
  have hother : ∀ p, p ≠ pid → ∀ g, M p g ∨ (p = pid ∧ g = name) ↔ M p g := fun p hp g => by
    simp [hp]
  have hname : ∃ g, M pid g ∨ (pid = pid ∧ g = name) := ⟨name, .inr ⟨rfl, rfl⟩⟩
  cases hfind : Maps.find pid monitors with
  | none =>
    have hnew (m : Monitor) (hside : m.side = sideOf node home pid) :=
      hm.put pid ⟨m, [name]⟩ hother
        ⟨hname, hside, pairwise_singleton _ name, fun g => by simp [hm.none hfind g]⟩
    cases side <;> simp only [monitorSide, monitorLocal, monitorRemote, hfind] <;>
      exact hnew _ hpid.symm
  | some old =>
    obtain ⟨-, hside, hsorted, hnames⟩ := hm.some hfind
    have hold := hm.put pid { old with names := umerge old.names [name] } hother
      ⟨hname, hside, pairwise_umerge hsorted, fun g => by simp [hnames g]⟩
    cases side <;> simp only [monitorSide, monitorLocal, monitorRemote, hfind] <;> exact hold

section
omit [LinearOrder Pid]

theorem sideOf_ne (hpid : sideOf node home pid = side) :
    ∀ side', side' ≠ side → sideOf node home pid ≠ side' := by
  intro side' hne heq
  exact hne (heq.symm.trans hpid)

/-- The record after `n` joins. -/
theorem dataOf_join (hpid : sideOf node home pid = side) (n : Nat) (h : List Pid) :
    (dataOf node home h).set side ((dataOf node home h).count side + n)
      (List.replicate n pid ++ (dataOf node home h).pids side) (List.replicate n pid ++ h) =
      dataOf node home (List.replicate n pid ++ h) := by
  rw [dataOf_pids, dataOf_count, ← onSide_replicate hpid]
  refine dataOf_set side (fun side' hne => onSide_replicate_of_ne (sideOf_ne hpid side' hne) n h) ?_
  rw [onSide_replicate hpid, length_append, length_replicate]
  omega

theorem duplicate_eq (n : Nat) (pid : Pid) : duplicate (n : Int) pid = .ok (List.replicate n pid) := by
  rw [duplicate, if_neg (by omega)]
  rfl

end

/-- `join_group_local/4` and `join_group_remote/4` add memberships. -/
theorem joinGroup_spec {s : State Name Pid Node} (hs : Rep node home s H)
    (hpid : sideOf node home pid = side) {n : Nat} (hn : 0 < n) (name : Name) :
    ∃ s', joinGroup node side n name pid s = .ok s' ∧
      Rep node home s' (update H name (List.replicate n pid ++ H name)) := by
  have hne : List.replicate n pid ++ H name ≠ [] := by
    intro h
    have := congrArg List.length h
    simp at this
    omega
  have hdata : joinGroupData side n (List.replicate n pid) (Maps.find name s.groups) =
      dataOf node home (List.replicate n pid ++ H name) := by
    rw [hs.groups name]
    by_cases hname : H name = []
    · rw [if_pos hname, hname, ← dataOf_join hpid n []]
      cases side <;> simp [joinGroupData, dataOf, onSide, CpgData.set, CpgData.count, CpgData.pids]
    · rw [if_neg hname]
      exact dataOf_join hpid n (H name)
  have hmonitors := monitorSide_spec hs.monitors hpid name s.nodeMonitors
  refine ⟨_, by rw [joinGroup, duplicate_eq]; rfl, ?_, ?_⟩
  · simp only [hdata]
    exact hs.groups.put name hne
  · refine hmonitors.congr fun p g => ?_
    rw [update_apply]
    by_cases hg : g = name
    · simp only [hg, if_pos, mem_append, mem_replicate]
      constructor
      · rintro (hp | ⟨hp, -⟩)
        · exact .inr hp
        · exact .inl ⟨by omega, hp⟩
      · rintro (⟨-, hp⟩ | hp)
        · exact .inr ⟨hp, trivial⟩
        · exact .inl hp
    · simp [hg]

/-! ## leaves -/

theorem onSide_removeLast (hp : sideOf node home p = side) (n : Nat) (h : List Pid) :
    onSide node home side (removeLast p n h) = removeLast p n (onSide node home side h) :=
  filter_removeLast_of_pos (by simpa using hp) n h

theorem onSide_removeLast_of_ne (hp : sideOf node home p ≠ side) (n : Nat) (h : List Pid) :
    onSide node home side (removeLast p n h) = onSide node home side h :=
  filter_removeLast_of_neg (by simpa using hp) n h

/-- The record after `n` leaves. -/
theorem dataOf_leave (hpid : sideOf node home pid = side) (n : Nat) (h : List Pid) :
    (dataOf node home h).set side ((dataOf node home h).count side - (min n (h.count pid) : Nat))
      (removeLast pid n ((dataOf node home h).pids side)) (removeLast pid n h) =
      dataOf node home (removeLast pid n h) := by
  rw [dataOf_pids, dataOf_count, ← onSide_removeLast hpid]
  refine dataOf_set side (fun side' hne => onSide_removeLast_of_ne (sideOf_ne hpid side' hne) n h) ?_
  have hlen := length_removeLast pid n (onSide node home side h)
  rw [count_onSide hpid] at hlen
  rw [onSide_removeLast hpid]
  omega

theorem leaveMonitor_spec (hm : MonitorsOk node home monitors M)
    (hpid : sideOf node home pid = side) (hmem : ∃ g, M pid g) (name : Name) :
    ∃ monitors', leaveMonitor side name pid monitors = .ok monitors' ∧
      MonitorsOk node home monitors' fun p g => M p g ∧ ¬ (p = pid ∧ g = name) := by
  rw [leaveMonitor]
  cases hfind : Maps.find pid monitors with
  | none =>
    obtain ⟨g, hg⟩ := hmem
    exact absurd hg (hm.none hfind g)
  | some old =>
    obtain ⟨-, hside, hsorted, hnames⟩ := hm.some hfind
    by_cases hone : old.names = [name]
    · simp only [if_pos hone, if_pos (hside.trans hpid)]
      refine ⟨_, rfl, hm.remove pid (fun p hp g => by simp [hp]) fun g => ?_⟩
      rintro ⟨hg, hnot⟩
      rw [← hnames, hone, mem_singleton] at hg
      exact hnot ⟨rfl, hg⟩
    · simp only [if_neg hone]
      have hnodup : old.names.Nodup := hsorted.imp ne_of_lt
      have hmem' : ∀ g, g ∈ old.names.erase name ↔ M pid g ∧ ¬ (pid = pid ∧ g = name) := by
        intro g
        rw [hnodup.mem_erase_iff, hnames]
        simp [and_comm]
      refine ⟨_, rfl, hm.put pid _ (fun p hp g => by simp [hp]) ⟨?_, hside, ?_, hmem'⟩⟩
      · -- a list other than [name] has another group, or none was its group
        obtain ⟨g, hg, hne⟩ : ∃ g ∈ old.names, g ≠ name := by
          by_contra hall
          push Not at hall
          obtain ⟨g, hg⟩ := hmem
          rw [← hnames] at hg
          match hl : old.names, hg with
          | [a], _ =>
            have ha := hall a (by simp [hl])
            exact hone (by rw [hl, ha])
          | a :: b :: l, _ =>
            have ha := hall a (by simp [hl])
            have hb := hall b (by simp [hl])
            rw [hl, ha, hb] at hnodup
            simp at hnodup
        exact ⟨g, (hnames g).mp hg, fun h => hne h.2⟩
      · exact hsorted.sublist erase_sublist

end CloudI.Cpg
