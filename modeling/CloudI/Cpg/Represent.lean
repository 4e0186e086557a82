import CloudI.Cpg.Merge
import CloudI.Library.Run
import Mathlib.Order.Nat

/-!
# Cpg.Represent

The representation of the groups in every reachable state of a scope process,
and the messages that it can handle there without a failure.
-/

namespace CloudI.Cpg

open CloudI.Lists CloudI.Except Run Function

variable {Name Pid Node : Type} [LinearOrder Name] [LinearOrder Pid] [LinearOrder Node]
  {node : Pid → Node} {home : Node}

/-! ## requests -/

/-- The pid of a request. -/
def Request.pid : Request Name Pid → Pid
  | .join _ pid | .joinCounts _ pid | .leaveAll pid | .leave _ pid | .leaveCounts _ pid => pid

/-- The counts of a request. -/
def Request.counts : Request Name Pid → List (Name × Int)
  | .joinCounts counts _ | .leaveCounts counts _ => counts
  | .join .. | .leaveAll _ | .leave .. => []

/-- The histories after the joins of a list. -/
def more (H : Name → List Pid) (pid : Pid) (counts : List (Name × Int)) : Name → List Pid :=
  counts.foldl (fun H x => update H x.1 (List.replicate x.2.toNat pid ++ H x.1)) H

/-- The request is taken: its checks succeed. -/
def Taken (H : Name → List Pid) : Request Name Pid → Prop
  | .join .. => True
  | .joinCounts counts _ => ∀ x ∈ counts, 0 < x.2
  | .leaveAll pid => ∃ g, pid ∈ H g
  | .leave name pid => pid ∈ H name
  | .leaveCounts counts pid => (∃ g, pid ∈ H g) ∧ ∀ x ∈ counts, pid ∈ H x.1 ∧ 0 < x.2

/-- The histories after a request that was taken. -/
def afterRequest (H : Name → List Pid) : Request Name Pid → Name → List Pid
  | .join name pid => update H name (pid :: H name)
  | .joinCounts counts pid => more H pid counts
  | .leaveAll pid => without H pid
  | .leave name pid => update H name (removeLast pid 1 (H name))
  | .leaveCounts counts pid => less H pid (taken counts)

/-- A request that does not fail: of a list of leaves, no leave does. -/
def RequestOk (H : Name → List Pid) : Request Name Pid → Prop
  | .leaveCounts counts pid => (∀ x ∈ counts, pid ∈ H x.1 ∧ 0 < x.2) → LeavesOk H pid counts
  | .join .. | .joinCounts .. | .leaveAll _ | .leave .. => True

variable {pid : Pid} {s : State Name Pid Node} {H : Name → List Pid} {counts : List (Name × Int)}

/-- The joins of a request are counted group by group. -/
theorem joinAll_spec (hpid : sideOf node home pid = side) (hcounts : ∀ x ∈ counts, 0 < x.2)
    (hs : Rep node home s H) :
    ∃ s', joinAll node side pid counts s = .ok s' ∧ Rep node home s' (more H pid counts) := by
  induction counts generalizing s H with
  | nil => exact ⟨s, rfl, hs⟩
  | cons x counts ih =>
    have hn : 0 < x.2 := hcounts x List.mem_cons_self
    obtain ⟨name, n⟩ := x
    obtain ⟨m, rfl⟩ := Int.eq_ofNat_of_zero_le hn.le
    obtain ⟨s', hs', hrep⟩ := joinGroup_spec hs hpid (n := m) (by simpa using hn) name
    obtain ⟨s'', hs'', hrep'⟩ := ih (fun y hy => hcounts y (List.mem_cons_of_mem _ hy)) hrep
    exact ⟨s'', by rw [joinAll, joinGroupSide_eq, hs', ok_bind, hs''], hrep'⟩

theorem leavesOk_iff : LeavesOk H pid counts ↔ LeavesOkFrom H pid (fun _ => 0) counts := by
  simp [LeavesOk, LeavesOkFrom]

omit [LinearOrder Name] in
theorem less_zero (H : Name → List Pid) (pid : Pid) : less H pid (fun _ => 0) = H := by
  funext g
  simp [less]

/-- **Step lemma** of a request: it fails or not, is taken or not. -/
theorem handleRequest_spec (hs : Rep node home s H) (r : Request Name Pid)
    (hpid : sideOf node home r.pid = side) (hcounts : side = .remote → ∀ x ∈ r.counts, 0 < x.2) :
    (RequestOk H r → Taken H r → ∃ s', handleRequest node side s r = .ok (true, s') ∧
      Rep node home s' (afterRequest H r)) ∧
    (RequestOk H r → ¬ Taken H r → handleRequest node side s r = .ok (false, s)) ∧
    (¬ RequestOk H r → ∃ e, handleRequest node side s r = .error e) := by
  cases r with
  | join name pid =>
    replace hpid : sideOf node home pid = side := hpid
    obtain ⟨s', hs', hrep⟩ := joinGroup_spec hs hpid (n := 1) Nat.one_pos name
    have hcall : handleRequest node side s (.join name pid) = .ok (true, s') := by
      rw [handleRequest, joinGroupSide_eq]
      show (joinGroup node side ((1 : Nat) : Int) name pid s >>= _) = _
      rw [hs']
      rfl
    exact ⟨fun _ _ => ⟨s', hcall, hrep⟩, fun _ h => absurd trivial h, fun h => absurd trivial h⟩
  | joinCounts counts pid =>
    replace hpid : sideOf node home pid = side := hpid
    refine ⟨fun _ htaken => ?_, fun _ htaken => ?_, fun h => absurd trivial h⟩
    · obtain ⟨s', hs', hrep⟩ := joinAll_spec hpid htaken hs
      refine ⟨s', ?_, hrep⟩
      rw [handleRequest, if_neg fun h => h.2 htaken, hs']
      rfl
    · have hside : side = .here := by
        cases side with
        | here => rfl
        | remote => exact absurd (hcounts rfl) htaken
      rw [handleRequest, if_pos ⟨hside, htaken⟩]
  | leaveAll pid =>
    replace hpid : sideOf node home pid = side := hpid
    rw [handleRequest, Maps.take]
    cases hfind : Maps.find pid s.monitors with
    | none =>
      have hnone : ∀ g, pid ∉ H g := hs.monitors.none hfind
      exact ⟨fun _ h => h.elim fun g hg => absurd hg (hnone g), fun _ _ => rfl, fun h => absurd trivial h⟩
    | some m =>
      obtain ⟨hmem, hside, -⟩ := hs.monitors.some hfind
      obtain ⟨s', hs', hrep⟩ := leaveAll_taken hs hpid hfind
      refine ⟨fun _ _ => ⟨s', ?_, hrep⟩, fun _ h => absurd hmem h, fun h => absurd trivial h⟩
      simp only [Option.map_some, if_pos (hside.trans hpid), leaveAllSide_eq, hs']
      rfl
  | leave name pid =>
    replace hpid : sideOf node home pid = side := hpid
    rw [handleRequest]
    cases hfind : Maps.find pid s.monitors with
    | none =>
      have hnone : ∀ g, pid ∉ H g := hs.monitors.none hfind
      exact ⟨fun _ h => absurd h (hnone name), fun _ _ => rfl, fun h => absurd trivial h⟩
    | some m =>
      obtain ⟨hmem, hside, -, hnames⟩ := hs.monitors.some hfind
      simp only [if_pos (hside.trans hpid), hnames]
      refine ⟨fun _ htaken => ?_, fun _ htaken => ?_, fun h => absurd trivial h⟩
      · have htaken' : pid ∈ H name := htaken
        obtain ⟨s', hs', hrep⟩ := leaveGroup_spec hs hpid 1 (List.ne_nil_of_mem htaken') hmem
        refine ⟨s', ?_, hrep⟩
        rw [if_pos htaken', leaveGroupSide_eq]
        show (leaveGroup side ((1 : Nat) : Int) name pid s >>= _) = _
        rw [hs']
        rfl
      · rw [if_neg (show ¬ pid ∈ H name from htaken)]
  | leaveCounts counts pid =>
    replace hpid : sideOf node home pid = side := hpid
    rw [handleRequest]
    cases hfind : Maps.find pid s.monitors with
    | none =>
      have hnone : ∀ g, pid ∉ H g := hs.monitors.none hfind
      refine ⟨fun _ h => ?_, fun _ _ => rfl, fun h => ?_⟩
      · obtain ⟨g, hg⟩ := h.1
        exact absurd hg (hnone g)
      · refine absurd (fun hall => ?_) h
        intro earlier name n later heq
        exact absurd (hall (name, n) (by simp [heq])).1 (hnone name)
    | some m =>
      obtain ⟨hmem, hside, -, hnames⟩ := hs.monitors.some hfind
      simp only [if_pos (hside.trans hpid), hnames]
      have hvalid : (∀ x ∈ counts, pid ∈ H x.1 ∧ (side = .here → x.2 > 0)) ↔
          ∀ x ∈ counts, pid ∈ H x.1 ∧ 0 < x.2 := by
        refine forall₂_congr fun x hx => and_congr_right fun _ => ⟨fun h => ?_, fun h _ => h⟩
        cases side with
        | here => exact h rfl
        | remote => exact hcounts rfl x hx
      have hs0 : Rep node home s (less H pid fun _ => 0) := by rwa [less_zero]
      by_cases hall : ∀ x ∈ counts, pid ∈ H x.1 ∧ 0 < x.2
      · obtain ⟨hgood, hbad⟩ := leaveGroups_spec hpid (fun x hx => (hall x hx).2) hs0
        rw [if_pos (hvalid.mpr hall)]
        refine ⟨fun hok _ => ?_, fun _ h => absurd ⟨hmem, hall⟩ h, fun hok => ?_⟩
        · obtain ⟨s', hs', hrep⟩ := hgood (leavesOk_iff.mp (hok hall))
          refine ⟨s', by rw [hs']; rfl, ?_⟩
          simp only [Nat.zero_add] at hrep
          exact hrep
        · obtain ⟨e, he⟩ := hbad fun h => hok fun _ => leavesOk_iff.mpr h
          exact ⟨e, by rw [he]; rfl⟩
      · rw [if_neg fun h => hall (hvalid.mp h)]
        exact ⟨fun _ h => absurd h.2 hall, fun _ _ => rfl, fun h => absurd (fun h => absurd h hall) h⟩

/-! ## messages -/

/-- **What the process can receive**: the functions of the interface check that
the pid is local before a call, the casts of the other nodes have the counts of
a call that was taken there, and the histories of a process are not empty. -/
def Received (node : Pid → Node) (home : Node) : Message Name Pid Node → Prop
  | .call r => sideOf node home r.pid = .here
  | .cast r => sideOf node home r.pid = .remote ∧ ∀ x ∈ r.counts, 0 < x.2
  | .exchange _ historyL => ∀ x ∈ historyL, x.2 ≠ []
  | .down pid => sideOf node home pid = .here
  | .downs pids | .nodedown _ pids => ∀ pid ∈ pids, sideOf node home pid = .remote
  | .nodeup _ | .new _ => True

/-- A message that does not fail. -/
def MessageOk (H : Name → List Pid) : Message Name Pid Node → Prop
  | .call r | .cast r => RequestOk H r
  | .exchange .. | .down _ | .downs _ | .nodeup _ | .nodedown .. | .new _ => True

/-- **Step lemma** of a message. -/
theorem handle_spec (hs : Rep node home s H) (m : Message Name Pid Node) (hm : Received node home m)
    :
    (MessageOk H m → ∃ out s' H', handle node home s m = .ok (out, s') ∧ Rep node home s' H') ∧
    (¬ MessageOk H m → ∃ e, handle node home s m = .error e) := by
  cases m with
  | call r =>
    obtain ⟨htaken, hrefused, hfails⟩ := handleRequest_spec hs r hm (by simp)
    refine ⟨fun hok => ?_, fun hok => ?_⟩
    · by_cases h : Taken H r
      · obtain ⟨s', hs', hrep⟩ := htaken hok h
        exact ⟨.reply true, s', _, by rw [handle, hs']; rfl, hrep⟩
      · exact ⟨.reply false, s, H, by rw [handle, hrefused hok h]; rfl, hs⟩
    · obtain ⟨e, he⟩ := hfails hok
      exact ⟨e, by rw [handle, he]; rfl⟩
  | cast r =>
    obtain ⟨htaken, hrefused, hfails⟩ := handleRequest_spec hs r hm.1 fun _ => hm.2
    refine ⟨fun hok => ?_, fun hok => ?_⟩
    · by_cases h : Taken H r
      · obtain ⟨s', hs', hrep⟩ := htaken hok h
        exact ⟨.nothing, s', _, by rw [handle, hs']; rfl, hrep⟩
      · exact ⟨.nothing, s, H, by rw [handle, hrefused hok h]; rfl, hs⟩
    · obtain ⟨e, he⟩ := hfails hok
      exact ⟨e, by rw [handle, he]; rfl⟩
  | exchange n historyL =>
    obtain ⟨s', hs', hrep⟩ := merge_spec hm hs
    exact ⟨fun _ => ⟨.nothing, s', _, by rw [handle, hs']; rfl, hrep⟩, fun h => absurd trivial h⟩
  | down pid =>
    obtain ⟨s', hs', hrep⟩ := memberDied_spec hs hm
    refine ⟨fun _ => ⟨.nothing, s', _, ?_, hrep⟩, fun h => absurd trivial h⟩
    rw [handle, memberDiedLocal, hs']
    rfl
  | downs pids =>
    obtain ⟨s', hs', hrep⟩ := membersDiedRemote_spec hm hs
    exact ⟨fun _ => ⟨.nothing, s', _, by rw [handle, hs']; rfl, hrep⟩, fun h => absurd trivial h⟩
  | nodedown n pids =>
    refine ⟨fun _ => ?_, fun h => absurd trivial h⟩
    rw [handle]
    cases Maps.find n s.nodeMonitors with
    | none => exact ⟨.nothing, s, H, rfl, hs⟩
    | some _ =>
      obtain ⟨s', hs', hrep⟩ := membersDiedRemote_spec hm
        (s := { s with nodeMonitors := Maps.remove n s.nodeMonitors })
        ⟨hs.groups, hs.monitors⟩
      exact ⟨.nothing, s', _, by simp only [hs']; rfl, hrep⟩
  | _ => exact ⟨fun _ => ⟨_, s, H, rfl, hs⟩, fun h => absurd trivial h⟩

/-! ## reachable states -/

/-- The state after a message. -/
def step (node : Pid → Node) (home : Node) (s : State Name Pid Node)
    (m : Message Name Pid Node) : Option (State Name Pid Node) :=
  (handle node home s m).toOption.map Prod.snd

/-- The history of a group, empty when there is no group. -/
def historyOf (s : State Name Pid Node) (name : Name) : List Pid :=
  match Maps.find name s.groups with
  | none => []
  | some d => d.history

/-- **The representation invariant** of the groups and the monitors. -/
structure Represented (node : Pid → Node) (home : Node) (s : State Name Pid Node) : Prop where
  history_ne_nil : ∀ name d, Maps.find name s.groups = some d → d.history ≠ []
  localPids_eq : ∀ name d, Maps.find name s.groups = some d →
    d.localPids = d.history.filter (node · = home) ∧ d.localCount = d.localPids.length
  remotePids_eq : ∀ name d, Maps.find name s.groups = some d →
    d.remotePids = d.history.filter (node · ≠ home) ∧ d.remoteCount = d.remotePids.length
  monitored_iff : ∀ pid, (Maps.find pid s.monitors).isSome ↔ ∃ name, pid ∈ historyOf s name
  names_sorted : ∀ pid m, Maps.find pid s.monitors = some m → m.names.Pairwise (· < ·)
  mem_names_iff : ∀ pid m, Maps.find pid s.monitors = some m →
    ∀ name, name ∈ m.names ↔ pid ∈ historyOf s name

theorem Rep.historyOf_eq (hs : Rep node home s H) : historyOf s = H := by
  funext name
  rw [historyOf, hs.groups name]
  by_cases hname : H name = []
  · rw [if_pos hname, hname]
  · rw [if_neg hname]
    rfl

omit [LinearOrder Pid] in
theorem onSide_here (h : List Pid) : onSide node home .here h = h.filter (node · = home) := by
  rw [onSide]
  congr 1
  funext p
  simp [sideOf_eq_here]

omit [LinearOrder Pid] in
theorem onSide_remote (h : List Pid) : onSide node home .remote h = h.filter (node · ≠ home) := by
  rw [onSide]
  congr 1
  funext p
  by_cases hp : node p = home <;> simp [sideOf, hp]

theorem Rep.represented (hs : Rep node home s H) : Represented node home s := by
  have hfind : ∀ name d, Maps.find name s.groups = some d →
      H name ≠ [] ∧ d = dataOf node home (H name) := by
    intro name d hd
    rw [hs.groups name] at hd
    by_cases hname : H name = []
    · rw [if_pos hname] at hd
      cases hd
    · rw [if_neg hname] at hd
      cases hd
      exact ⟨hname, rfl⟩
  have hhistory : historyOf s = H := hs.historyOf_eq
  constructor
  case history_ne_nil =>
    intro name d hd
    obtain ⟨hne, rfl⟩ := hfind name d hd
    exact hne
  case localPids_eq =>
    intro name d hd
    obtain ⟨-, rfl⟩ := hfind name d hd
    exact ⟨onSide_here (H name), rfl⟩
  case remotePids_eq =>
    intro name d hd
    obtain ⟨-, rfl⟩ := hfind name d hd
    exact ⟨onSide_remote (H name), rfl⟩
  case monitored_iff =>
    intro pid
    rw [hhistory]
    cases hm : Maps.find pid s.monitors with
    | none =>
      have hnone := hs.monitors.none hm
      simp [hnone]
    | some m =>
      obtain ⟨hmem, -⟩ := hs.monitors.some hm
      simp [hmem]
  case names_sorted =>
    intro pid m hm
    obtain ⟨-, -, hsorted, -⟩ := hs.monitors.some hm
    exact hsorted
  case mem_names_iff =>
    intro pid m hm name
    obtain ⟨-, -, -, hnames⟩ := hs.monitors.some hm
    rw [hhistory]
    exact hnames name

/-- **Run lemma**: every reachable state represents histories. -/
theorem reachable_rep {ms : List (Message Name Pid Node)} (hms : ∀ m ∈ ms, Received node home m)
    (h : run (step node home) {} ms = some s) : ∃ H, Rep node home s H := by
  refine (steps_of_run_forall hms h).invariant (I := fun s => ∃ H, Rep node home s H) ?_
    ⟨_, rep_new⟩
  rintro s m s' ⟨H, hs⟩ hm hstep
  obtain ⟨hok, hfails⟩ := handle_spec hs m hm
  rw [step, Option.map_eq_some_iff] at hstep
  obtain ⟨⟨out, s1⟩, hhandle, rfl⟩ := hstep
  by_cases hmessage : MessageOk H m
  · obtain ⟨out', s'', H', hs', hrep⟩ := hok hmessage
    rw [hs'] at hhandle
    cases hhandle
    exact ⟨H', hrep⟩
  · obtain ⟨e, he⟩ := hfails hmessage
    rw [he] at hhandle
    cases hhandle

/-- **The representation invariant** holds in every reachable state, and a message
is handled there without a failure exactly when it is not a list of leaves that
runs out of memberships. -/
theorem represented_handled_iff {ms : List (Message Name Pid Node)} {s : State Name Pid Node}
    (hms : ∀ m ∈ ms, Received node home m) (h : run (step node home) {} ms = some s) :
    Represented node home s ∧ ∀ m, Received node home m →
      ((∃ r, handle node home s m = .ok r) ↔ MessageOk (historyOf s) m) := by
  obtain ⟨H, hs⟩ := reachable_rep hms h
  refine ⟨hs.represented, fun m hm => ?_⟩
  obtain ⟨hok, hfails⟩ := handle_spec hs m hm
  rw [hs.historyOf_eq]
  constructor
  · rintro ⟨r, hr⟩
    by_contra hmessage
    obtain ⟨e, he⟩ := hfails hmessage
    rw [he] at hr
    cases hr
  · intro hmessage
    obtain ⟨out, s', -, hs', -⟩ := hok hmessage
    exact ⟨_, hs'⟩

/-- A local pid joins and leaves, a remote one joins, and the other node goes down. -/
def joinsAndLeaves : List (Message Nat Nat Nat) :=
  [.call (.joinCounts [(1, 2), (2, 1)] 5), .cast (.join 1 105), .call (.leaveCounts [(1, 1)] 5),
    .exchange 1 [(3, [105, 106])], .nodedown 1 [105, 106], .down 5]

theorem represented_joinsAndLeaves :
    ∃ s, run (step (· / 100) 0) {} joinsAndLeaves = some s ∧ Represented (· / 100) 0 s := by
  have hms : ∀ m ∈ joinsAndLeaves, Received (· / 100) 0 m := by
    simp [joinsAndLeaves, Received, Request.pid, Request.counts, sideOf]
  exact ⟨_, rfl, (represented_handled_iff hms rfl).1⟩

/-- **A list of leaves runs out of memberships**: with one membership of one
group, a second leave of that group fetches a group that is gone. -/
theorem second_leave_fails : ∃ s, run (step (· / 100) 0) {} [.call (.join (1 : Nat) 5)] = some s ∧
      Received (· / 100) 0 (.call (.leaveCounts [((1 : Nat), 1), (1, 1)] 5)) ∧
      handle (· / 100) 0 s (.call (.leaveCounts [(1, 1), (1, 1)] 5)) = .error .fetch :=
  ⟨_, rfl, rfl, rfl⟩

end CloudI.Cpg
