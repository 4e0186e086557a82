import CloudI.Cpg.Leave

/-!
# Cpg.Merge

The merge of the histories of another node.  In a group that exists, the count
of every pid that the other history has becomes its count there; a group that
does not exist is created with the other history.
-/

namespace CloudI.Cpg

open CloudI.Lists CloudI.Except List Function

variable {Name Pid Node : Type} [LinearOrder Name] [LinearOrder Pid] [LinearOrder Node]
  {node : Pid → Node} {home : Node}

/-! ## histories -/

/-- The history with `n` memberships of the pid. -/
def setCount (pid : Pid) (n : Nat) (h : List Pid) : List Pid :=
  if h.count pid < n then List.replicate (n - h.count pid) pid ++ h
  else removeFirst pid (h.count pid - n) h

theorem count_setCount_self (pid : Pid) (n : Nat) (h : List Pid) :
    (setCount pid n h).count pid = n := by
  rw [setCount]
  by_cases hlt : h.count pid < n
  · rw [if_pos hlt, count_append, count_replicate_self]
    omega
  · rw [if_neg hlt, count_removeFirst_self]
    omega

variable {pid : Pid} {historyX l : List Pid} {H : Name → List Pid} {M : Pid → Name → Prop}
  {s : State Name Pid Node}

theorem count_setCount_of_ne (hq : q ≠ pid) (n : Nat) (h : List Pid) :
    (setCount pid n h).count q = h.count q := by
  rw [setCount]
  by_cases hlt : h.count pid < n
  · rw [if_pos hlt, count_append, count_replicate, if_neg (by simpa using Ne.symm hq),
      Nat.zero_add]
  · rw [if_neg hlt, count_removeFirst_of_ne hq]

theorem mem_setCount (hn : 0 < n) (h : List Pid) : q ∈ setCount pid n h ↔ q ∈ h ∨ q = pid := by
  by_cases hq : q = pid
  · subst hq
    rw [← count_pos_iff, count_setCount_self]
    simp [hn]
  · rw [← count_pos_iff, count_setCount_of_ne hq, count_pos_iff]
    simp [hq]

/-- The counts of the pids become those of `historyX`. -/
def mergeCounts (historyX : List Pid) (pids h : List Pid) : List Pid :=
  pids.foldl (fun h pid => setCount pid (historyX.count pid) h) h

/-- A merged history. -/
def mergeHistory (historyX h : List Pid) : List Pid :=
  if h = [] then historyX else mergeCounts historyX (usort historyX) h

theorem count_mergeCounts (hnodup : pids.Nodup) (h : List Pid) (q : Pid) :
    (mergeCounts historyX pids h).count q = if q ∈ pids then historyX.count q else h.count q := by
  induction pids generalizing h with
  | nil => simp [mergeCounts]
  | cons pid pids ih =>
    rw [nodup_cons] at hnodup
    have hstep : mergeCounts historyX (pid :: pids) h =
        mergeCounts historyX pids (setCount pid (historyX.count pid) h) := rfl
    rw [hstep, ih hnodup.2]
    by_cases hq : q = pid
    · subst hq
      rw [if_neg hnodup.1, if_pos mem_cons_self, count_setCount_self]
    · rw [count_setCount_of_ne hq]
      simp [hq]

theorem count_mergeHistory (historyX h : List Pid) (q : Pid) : (mergeHistory historyX h).count q =
      if q ∈ historyX then historyX.count q else h.count q := by
  rw [mergeHistory]
  by_cases hh : h = []
  · rw [if_pos hh, hh]
    by_cases hq : q ∈ historyX
    · rw [if_pos hq]
    · rw [if_neg hq, count_eq_zero.mpr hq, count_nil]
  · rw [if_neg hh, count_mergeCounts (nodup_usort historyX)]
    simp only [mem_usort]

/-! ## the record of the group -/

theorem onSide_setCount (hpid : sideOf node home pid = side) (n : Nat) (h : List Pid) :
    onSide node home side (setCount pid n h) = setCount pid n (onSide node home side h) := by
  rw [setCount, setCount, count_onSide hpid]
  by_cases hlt : h.count pid < n
  · rw [if_pos hlt, if_pos hlt, onSide_replicate hpid]
  · rw [if_neg hlt, if_neg hlt]
    exact filter_removeFirst_of_pos (by simpa using hpid) _ h

theorem onSide_setCount_of_ne (hpid : sideOf node home pid ≠ side) (n : Nat) (h : List Pid) :
    onSide node home side (setCount pid n h) = onSide node home side h := by
  rw [setCount]
  by_cases hlt : h.count pid < n
  · rw [if_pos hlt, onSide_replicate_of_ne hpid]
  · rw [if_neg hlt]
    exact filter_removeFirst_of_neg (by simpa using hpid) _ h

theorem length_setCount (pid : Pid) (n : Nat) (h : List Pid) :
    ((setCount pid n h).length : Int) = h.length + ((n : Int) - h.count pid) := by
  rw [setCount]
  by_cases hlt : h.count pid < n
  · rw [if_pos hlt, length_append, length_replicate]
    omega
  · rw [if_neg hlt]
    have hlen := length_removeFirst pid (h.count pid - n) h
    omega

theorem dataOf_setCount (hpid : sideOf node home pid = side) (n : Nat) (h : List Pid) :
    (dataOf node home h).set side ((dataOf node home h).count side + ((n : Int) - h.count pid))
      (setCount pid n ((dataOf node home h).pids side)) (setCount pid n h) =
      dataOf node home (setCount pid n h) := by
  rw [dataOf_pids, dataOf_count, ← onSide_setCount hpid]
  refine dataOf_set side (fun side' hne => onSide_setCount_of_ne (sideOf_ne hpid side' hne) n h) ?_
  rw [onSide_setCount hpid, length_setCount, count_onSide hpid]

/-! ## merge_pid_conflict and merge_pid_new -/

/-- **Run lemma** of `merge_pid_conflict/10`, by induction on the pids that are left. -/
theorem mergePidConflict_spec (hg : GroupsOk node home groups H) (historyX : List Pid) (name : Name)
    (hX : ∀ pid ∈ pidsX, 0 < historyX.count pid) (hh : h ≠ []) (nodeMonitors : ErlMap Node Unit)
    (hm : MonitorsOk node home monitors fun p g => p ∈ update H name h g) :
    ∃ s', mergePidConflict node home historyX name groups pidsX (dataOf node home h) monitors
        nodeMonitors = .ok s' ∧
      Rep node home s' (update H name (mergeCounts historyX pidsX h)) := by
  induction pidsX generalizing h monitors nodeMonitors with
  | nil => exact ⟨_, rfl, hg.put name hh, hm⟩
  | cons pid pidsX ih =>
    have hpos : 0 < historyX.count pid := hX pid mem_cons_self
    have hrest : ∀ p ∈ pidsX, 0 < historyX.count p := fun p hp =>
      hX p (mem_cons_of_mem pid hp)
    obtain ⟨side, hside⟩ : ∃ side, sideOf node home pid = side := ⟨_, rfl⟩
    have hcount : (onSide node home side h).count pid = h.count pid := count_onSide hside h
    have hmem : ∀ q, q ∈ setCount pid (historyX.count pid) h ↔ q ∈ h ∨ q = pid := fun q =>
      mem_setCount hpos h
    have hne : setCount pid (historyX.count pid) h ≠ [] :=
      ne_nil_of_mem ((hmem pid).mpr (.inr rfl))
    have hdata := dataOf_setCount hside (historyX.count pid) h
    rw [mergePidConflict]
    simp only [hside, dataOf_pids, count, hcount] at hdata ⊢
    by_cases hadd : (historyX.count pid : Int) - h.count pid > 0
    · -- memberships are added, and the pid is monitored for the group
      have hlt : h.count pid < historyX.count pid := by omega
      have hnat : ((historyX.count pid : Int) - h.count pid).toNat =
          historyX.count pid - h.count pid := by omega
      have hm' := monitorSide_spec hm hside name nodeMonitors
      have hnew : ∀ l : List Pid, l.count pid = h.count pid →
          mergePidConflictAdd pid ((historyX.count pid : Int) - h.count pid).toNat l =
            setCount pid (historyX.count pid) l := by
        intro l hl
        rw [mergePidConflictAdd_eq, hnat, setCount, hl, if_pos hlt]
      rw [if_pos hadd, hnew _ hcount, dataOf_history, hnew _ rfl, hdata]
      refine ih hrest hne _ (hm'.congr fun p g => ?_)
      rw [update_apply, update_apply]
      by_cases hgn : g = name
      · rw [if_pos hgn, if_pos hgn, hmem]
        simp [hgn]
      · simp [hgn]
    · rw [if_neg hadd]
      have hkeep : MonitorsOk node home monitors fun p g =>
          p ∈ update H name (setCount pid (historyX.count pid) h) g := by
        refine hm.congr fun p g => ?_
        rw [update_apply, update_apply]
        by_cases hgn : g = name
        · rw [if_pos hgn, if_pos hgn, hmem]
          have hpid : pid ∈ h := count_pos_iff.mp (by omega)
          refine ⟨.inl, fun hp => ?_⟩
          rcases hp with hp | rfl
          · exact hp
          · exact hpid
        · rw [if_neg hgn, if_neg hgn]
      have hge : ¬ h.count pid < historyX.count pid := by omega
      by_cases hremove : (historyX.count pid : Int) - h.count pid < 0
      · -- memberships are removed, but not the last one
        have hnat : (-((historyX.count pid : Int) - h.count pid)).toNat =
            h.count pid - historyX.count pid := by omega
        have hnew : ∀ l : List Pid, l.count pid = h.count pid →
            mergePidConflictRemove pid (-((historyX.count pid : Int) - h.count pid)).toNat l =
              .ok (setCount pid (historyX.count pid) l) := by
          intro l hl
          rw [hnat, mergePidConflictRemove_eq (by omega), setCount, hl, if_neg hge]
        rw [if_pos hremove, hnew _ hcount, dataOf_history, hnew _ rfl, ok_bind, ok_bind, hdata]
        exact ih hrest hne _ hkeep
      · -- the counts are equal
        have hsame : setCount pid (historyX.count pid) h = h := by
          have hzero : h.count pid - historyX.count pid = 0 := by omega
          rw [setCount, if_neg hge, hzero, removeFirst_zero]
        rw [if_neg hremove]
        have hfold : mergeCounts historyX (pid :: pidsX) h = mergeCounts historyX pidsX h := by
          show mergeCounts historyX pidsX (setCount pid (historyX.count pid) h) = _
          rw [hsame]
        rw [hfold]
        exact ih hrest hh _ hm

omit [LinearOrder Pid] in
theorem mergePidNewData_eq (l : List Pid) (d : CpgData Pid) : mergePidNewData node home l d =
      { localCount := d.localCount + (onSide node home .here l).length
        localPids := (onSide node home .here l).reverse ++ d.localPids
        remoteCount := d.remoteCount + (onSide node home .remote l).length
        remotePids := (onSide node home .remote l).reverse ++ d.remotePids
        history := d.history } := by
  induction l generalizing d with
  | nil => simp [mergePidNewData, onSide]
  | cons pid l ih =>
    rw [mergePidNewData, ih]
    cases hside : sideOf node home pid with
    | _ =>
      simp [onSide, hside, CpgData.set, CpgData.count, CpgData.pids]
      omega

omit [LinearOrder Pid] in
theorem mergePidNewData_reverse (historyX : List Pid) :
    mergePidNewData node home historyX.reverse { history := historyX } =
      dataOf node home historyX := by
  rw [mergePidNewData_eq]
  simp [dataOf, onSide, filter_reverse]

theorem monitorLocal_foldl (name : Name) (hl : ∀ pid ∈ l, sideOf node home pid = .here)
    (hm : MonitorsOk node home m M) :
    MonitorsOk node home (l.foldl (fun m pid => monitorLocal pid name m) m)
      fun p g => M p g ∨ (p ∈ l ∧ g = name) := by
  induction l generalizing m M with
  | nil => exact hm.congr fun p g => by simp
  | cons pid l ih =>
    have hstep := monitorSide_spec hm (hl pid mem_cons_self) name ∅
    refine (ih (fun p hp => hl p (mem_cons_of_mem pid hp)) hstep).congr fun p g => ?_
    simp only [mem_cons, or_and_right, or_assoc]

theorem monitorRemote_foldl (name : Name) (hl : ∀ pid ∈ l, sideOf node home pid = .remote)
    (hm : MonitorsOk node home m.1 M) :
    MonitorsOk node home (l.foldl (fun (m : ErlMap Pid (StateMonitor Name) × ErlMap Node Unit) pid =>
      monitorRemote node pid name m.1 m.2) m).1
      fun p g => M p g ∨ (p ∈ l ∧ g = name) := by
  induction l generalizing m M with
  | nil => exact hm.congr fun p g => by simp
  | cons pid l ih =>
    have hstep := monitorSide_spec hm (hl pid mem_cons_self) name m.2
    refine (ih (fun p hp => hl p (mem_cons_of_mem pid hp)) hstep).congr fun p g => ?_
    simp only [mem_cons, or_and_right, or_assoc]

/-- **Step lemma**: a merged group. -/
theorem mergeGroup_spec (hs : Rep node home s H) (name : Name) (hX : historyX ≠ []) :
    ∃ s', mergeGroup node home name historyX s = .ok s' ∧
      Rep node home s' (update H name (mergeHistory historyX (H name))) := by
  rw [mergeGroup, hs.groups name, mergeHistory]
  by_cases hname : H name = []
  · rw [if_pos hname, if_pos hname, mergePidNew, mergePidNewData_reverse]
    have hlocal := monitorLocal_foldl name (l := usort (dataOf node home historyX).localPids)
      (fun p hp => by simpa [dataOf, onSide] using (mem_filter.mp (mem_usort.mp hp)).2)
      hs.monitors
    have hremote := monitorRemote_foldl name (l := usort (dataOf node home historyX).remotePids)
      (m := (_, s.nodeMonitors))
      (fun p hp => by simpa [dataOf, onSide] using (mem_filter.mp (mem_usort.mp hp)).2)
      hlocal
    refine ⟨_, rfl, hs.groups.put name hX, hremote.congr fun p g => ?_⟩
    rw [update_apply]
    by_cases hg : g = name
    · subst hg
      have hside : sideOf node home p = .here ∨ sideOf node home p = .remote := by
        cases sideOf node home p <;> simp
      rw [if_pos rfl, hname]
      simp only [dataOf, onSide, mem_usort, mem_filter, decide_eq_true_eq, and_true,
        not_mem_nil, false_or, ← and_or_left, hside]
    · rw [if_neg hg]
      simp [hg]
  · rw [if_neg hname, if_neg hname]
    refine mergePidConflict_spec hs.groups historyX name (fun p hp => ?_) hname _ ?_
    · exact count_pos_iff.mpr (mem_usort.mp hp)
    · rw [update_eq_self]
      exact hs.monitors

/-- The histories after a merge. -/
def mergeHistories (historyL : List (Name × List Pid)) (H : Name → List Pid) : Name → List Pid :=
  historyL.foldl (fun H x => update H x.1 (mergeHistory x.2 (H x.1))) H

/-- A merge adds the histories of the other node, group by group. -/
theorem merge_spec (hX : ∀ x ∈ historyL, x.2 ≠ []) (hs : Rep node home s H) :
    ∃ s', merge node home historyL s = .ok s' ∧ Rep node home s' (mergeHistories historyL H) := by
  induction historyL generalizing s H with
  | nil => exact ⟨s, rfl, hs⟩
  | cons x historyL ih =>
    obtain ⟨s', hs', hrep⟩ := mergeGroup_spec hs x.1 (hX x mem_cons_self)
    obtain ⟨s'', hs'', hrep'⟩ := ih (fun y hy => hX y (mem_cons_of_mem x hy)) hrep
    exact ⟨s'', by rw [merge, hs', ok_bind, hs''], hrep'⟩

end CloudI.Cpg
