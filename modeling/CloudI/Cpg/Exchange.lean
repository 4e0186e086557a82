import CloudI.Cpg.Represent

/-!
# Cpg.Exchange

What an exchange does to the counts of the groups, and that the same exchange
does nothing a second time.
-/

namespace CloudI.Cpg

open CloudI.Lists CloudI.Except Run List Function

variable {Name Pid Node : Type} [LinearOrder Name] [LinearOrder Pid] [LinearOrder Node]
  {node : Pid → Node} {home : Node}

/-- Well-formed histories: each group is there once, and none is empty. -/
structure HistoriesOk (historyL : List (Name × List Pid)) : Prop where
  names_nodup : (historyL.map Prod.fst).Nodup
  history_ne_nil : ∀ x ∈ historyL, x.2 ≠ []

/-! ## the histories after a merge -/

theorem mergeHistories_cons (x : Name × List Pid) (historyL : List (Name × List Pid))
    (H : Name → List Pid) : mergeHistories (x :: historyL) H =
      mergeHistories historyL (Function.update H x.1 (mergeHistory x.2 (H x.1))) := rfl

variable {historyL : List (Name × List Pid)} {H : Name → List Pid} {s : State Name Pid Node}

theorem mergeHistories_of_notMem (h : name ∉ historyL.map Prod.fst) :
    mergeHistories historyL H name = H name := by
  induction historyL generalizing H with
  | nil => rfl
  | cons x historyL ih =>
    rw [map_cons, mem_cons, not_or] at h
    rw [mergeHistories_cons, ih h.2, update_of_ne h.1]

theorem mergeHistories_of_mem (hnodup : (historyL.map Prod.fst).Nodup)
    (h : (name, historyX) ∈ historyL) :
    mergeHistories historyL H name = mergeHistory historyX (H name) := by
  induction historyL generalizing H with
  | nil => cases h
  | cons x historyL ih =>
    rw [map_cons, nodup_cons] at hnodup
    rw [mergeHistories_cons]
    rcases mem_cons.mp h with rfl | h
    · rw [mergeHistories_of_notMem hnodup.1, update_self]
    · have hne : name ≠ x.1 := by
        rintro rfl
        exact hnodup.1 (mem_map.mpr ⟨(x.1, historyX), h, rfl⟩)
      rw [ih hnodup.2 h, update_of_ne hne]

/-! ## a merge of the counts that are there -/

theorem mergePidConflict_same {historyX pidsX h : List Pid}
    (hcount : ∀ pid ∈ pidsX, h.count pid = historyX.count pid) (name : Name)
    (groups : ErlMap Name (CpgData Pid)) (monitors : ErlMap Pid (StateMonitor Name))
    (nodeMonitors : ErlMap Node Unit) :
    mergePidConflict node home historyX name groups pidsX (dataOf node home h) monitors
        nodeMonitors =
      .ok { groups := Maps.put name (dataOf node home h) groups, monitors, nodeMonitors } := by
  induction pidsX with
  | nil => rfl
  | cons pid pidsX ih =>
    have hzero : count pid historyX -
        count pid ((dataOf node home h).pids (sideOf node home pid)) = 0 := by
      rw [dataOf_pids, count, count, count_onSide rfl, hcount pid mem_cons_self]
      omega
    rw [mergePidConflict]
    simp only [hzero, gt_iff_lt, lt_self_iff_false, if_false]
    exact ih fun p hp => hcount p (mem_cons_of_mem pid hp)

theorem mergeGroup_same (hs : Rep node home s H) (hX : historyX ≠ [])
    (hcount : ∀ pid ∈ historyX, (H name).count pid = historyX.count pid) :
    mergeGroup node home name historyX s = .ok s := by
  obtain ⟨pid, hpid⟩ := exists_mem_of_ne_nil _ hX
  have hmem : pid ∈ H name := by
    rw [← count_pos_iff, hcount pid hpid, count_pos_iff]
    exact hpid
  have hfind := hs.groups.find (ne_nil_of_mem hmem)
  have hput : Maps.put name (dataOf node home (H name)) s.groups = s.groups := by
    refine Maps.ext fun g => ?_
    rw [Maps.find_put]
    by_cases hg : name = g
    · rw [if_pos hg, ← hg, hfind]
    · rw [if_neg hg]
  rw [mergeGroup, hfind]
  show mergePidConflict node home historyX name s.groups (usort historyX) _ _ _ = _
  rw [mergePidConflict_same fun p hp => hcount p (mem_usort.mp hp), hput]

theorem merge_same (hs : Rep node home s H) (hX : ∀ x ∈ historyL, x.2 ≠ [])
    (hcount : ∀ x ∈ historyL, ∀ pid ∈ x.2, (H x.1).count pid = x.2.count pid) :
    merge node home historyL s = .ok s := by
  induction historyL with
  | nil => rfl
  | cons x historyL ih =>
    have hx := mergeGroup_same hs (hX x mem_cons_self) (hcount x mem_cons_self)
    rw [merge, hx, ok_bind]
    exact ih (fun y hy => hX y (mem_cons_of_mem x hy)) fun y hy =>
      hcount y (mem_cons_of_mem x hy)

/-! ## exchange -/

/-- **An exchange** that leads from `s` to `s'`: the counts that were received are the
counts there, all others are as before, and the exchange changes nothing again. -/
structure Exchanged (node : Pid → Node) (home n : Node) (historyL : List (Name × List Pid))
    (s s' : State Name Pid Node) : Prop where
  count_received : ∀ name historyX, (name, historyX) ∈ historyL → ∀ pid ∈ historyX,
    (historyOf s' name).count pid = historyX.count pid
  count_other : ∀ name pid, (∀ historyX, (name, historyX) ∈ historyL → pid ∉ historyX) →
    (historyOf s' name).count pid = (historyOf s name).count pid
  represented : Represented node home s'
  again : handle node home s' (.exchange n historyL) = .ok (.nothing, s')

/-- **An exchange**, in every reachable state and for all well-formed histories. -/
theorem exchanges {ms : List (Message Name Pid Node)} {s : State Name Pid Node}
    (hms : ∀ m ∈ ms, Received node home m) (h : run (step node home) {} ms = some s) (n : Node)
    {historyL : List (Name × List Pid)} (hL : HistoriesOk historyL) :
    ∃ s', handle node home s (.exchange n historyL) = .ok (.nothing, s') ∧
      Exchanged node home n historyL s s' := by
  obtain ⟨H, hs⟩ := reachable_rep hms h
  obtain ⟨s', hs', hrep⟩ := merge_spec hL.history_ne_nil hs
  have hreceived : ∀ x ∈ historyL, ∀ pid ∈ x.2,
      (mergeHistories historyL H x.1).count pid = x.2.count pid := by
    intro x hx pid hpid
    rw [mergeHistories_of_mem hL.names_nodup hx, count_mergeHistory, if_pos hpid]
  refine ⟨s', by rw [handle, hs']; rfl, ?_⟩
  constructor
  case count_received =>
    intro name historyX hmem pid hpid
    rw [hrep.historyOf_eq]
    exact hreceived (name, historyX) hmem pid hpid
  case count_other =>
    intro name pid hpid
    rw [hrep.historyOf_eq, hs.historyOf_eq]
    by_cases hname : name ∈ historyL.map Prod.fst
    · obtain ⟨x, hx, rfl⟩ := mem_map.mp hname
      rw [mergeHistories_of_mem hL.names_nodup hx, count_mergeHistory, if_neg (hpid x.2 hx)]
    · rw [mergeHistories_of_notMem hname]
  case represented => exact hrep.represented
  case again => rw [handle, merge_same hrep hL.history_ne_nil hreceived]; rfl

/-- Memberships of the pid 5 are taken away, some of the pid 105 are added, and the group 3 is
new; the node has local and remote pids in it. -/
theorem exchanges_joinsAndLeaves :
    ∃ s, run (step (· / 100) 0) {} [.call (.joinCounts [(1, 3), (2, 1)] 5),
        .cast (.join 1 105)] = some s ∧
      ∃ s', handle (· / 100) 0 s (.exchange 1 [(1, [105, 5, 105]), (3, [106, 5])]) =
          .ok (.nothing, s') ∧
        Exchanged (· / 100) 0 1 [(1, [105, 5, 105]), (3, [106, 5])] s s' := by
  have hms : ∀ m ∈ [.call (.joinCounts [(1, 3), (2, 1)] 5), .cast (.join 1 105)],
      Received (· / 100) 0 (m : Message Nat Nat Nat) := by
    simp [Received, Request.pid, Request.counts, sideOf]
  exact ⟨_, rfl, exchanges hms rfl 1 ⟨by decide, by decide⟩⟩

end CloudI.Cpg
