import CloudI.Crdt.Process

/-!
# Crdt.Reachable

The order of the POLog in every reachable state of a process: the clocks of the operations
are below those of the newer ones and below the clock of the process.  Every event adds an
operation at the newest end, with a clock above all others, takes operations out, trims all
clocks to the same nodes, or replaces the whole POLog by that of another reachable process.
-/

namespace CloudI.Crdt

open List Option

variable {ν K V F Average : Type} [LinearOrder ν] [LinearOrder K]

/-- **The reachable states of a process**: requests and responses come with any clocks, and a
state that is adopted is one of a reachable process. -/
inductive Reachable (calls : Calls V F) (floats : Floats ν Average) :
    Process ν K V F Average → Prop
  | new (nodeId : ν) : Reachable calls floats (Process.new nodeId)
  | event (hp : Reachable calls floats p) (hstate : ∀ snapshot, event ≠ .state snapshot)
      (hr : p.handle calls floats event = some r) : Reachable calls floats r.process
  | state (hp : Reachable calls floats p) (hq : Reachable calls floats q)
      (hr : p.handle calls floats (.state q.snapshot) = some r) : Reachable calls floats r.process

/-- An event that can happen: a state that comes is one of a reachable process. -/
def Event.Comes (calls : Calls V F) (floats : Floats ν Average)
    (event : Event ν K V F) : Prop :=
  ∀ snapshot, event = .state snapshot →
    ∃ q, Reachable calls floats q ∧ q.snapshot = snapshot

/-! ## the order of a POLog -/

/-- The operations of a POLog are in order, with clocks below `c`. -/
structure InOrder (c : VClock ν) (polog : List (Entry ν K V F)) : Prop where
  ascending : Ascending polog
  below : ∀ e ∈ polog, Below e.vclock c

variable {c c' : VClock ν} {polog polog' : List (Entry ν K V F)}

section
omit [LinearOrder K]

theorem InOrder.nil (c : VClock ν) : InOrder c ([] : List (Entry ν K V F)) :=
  ⟨List.Pairwise.nil, fun _ he => absurd he not_mem_nil⟩

theorem InOrder.mono (h : InOrder c polog) (hc : Below c c') : InOrder c' polog :=
  ⟨h.ascending, fun e he => (h.below e he).trans hc⟩

theorem InOrder.sublist (h : InOrder c polog) (hsublist : polog'.Sublist polog) :
    InOrder c polog' :=
  ⟨h.ascending.sublist hsublist, fun e he => h.below e (hsublist.subset he)⟩

end

/-- An operation is added with a clock above all others. -/
theorem InOrder.effect (h : InOrder c polog) (op : Operation K V F)
    (id : ν × Nat) : InOrder c (pologEffect op c id polog) := by
  rw [pologEffect]
  by_cases hduplicate : pologDuplicateOperation c polog = true
  · rw [if_pos hduplicate]
    exact h
  rw [if_neg hduplicate]
  have hsublist := pologRedundancyRelation_sublist op c polog
  rcases hrelation : pologRedundancyRelation op c polog with ⟨add, pologN⟩
  cases add with
  | false =>
    rw [hrelation] at hsublist
    exact h.sublist hsublist
  | true =>
    rw [hrelation] at hsublist
    have hrest := h.sublist hsublist
    refine ⟨pairwise_cons.mpr ⟨hrest.below, hrest.ascending⟩, ?_⟩
    exact forall_mem_cons.mpr ⟨.refl c, hrest.below⟩

theorem Below.current (h : Below c c') (nodeIds : List ν) :
    Below (vclockCurrent nodeIds c) (vclockCurrent nodeIds c') := by
  intro k x hx
  rw [find_vclockCurrent] at hx ⊢
  by_cases hk : k ∈ nodeIds
  · rw [if_pos hk] at hx ⊢
    exact h k x hx
  · rw [if_neg hk] at hx
    cases hx

omit [LinearOrder K] in
theorem InOrder.current (h : InOrder c polog) (nodeIds : List ν) :
    InOrder (vclockCurrent nodeIds c) (pologCurrent nodeIds polog) := by
  constructor
  · refine pairwise_map.mpr (h.ascending.imp fun hbelow => ?_)
    exact hbelow.current nodeIds
  · intro e he
    obtain ⟨e', he', rfl⟩ := List.mem_map.mp he
    exact (h.below e' he').current nodeIds

/-! ## the invariant -/

/-- The POLog of a process is in order, and so are those of the states that it gathered. -/
structure Process.Ok (p : Process ν K V F Average) : Prop where
  log : InOrder p.vclock p.polog
  states : ∀ s ∈ p.bootstrapStates, InOrder s.vclock s.polog

variable {calls : Calls V F} {floats : Floats ν Average}
  {p : Process ν K V F Average} {m : Handled ν K V F Average}
  {nodeIdRemote : ν} {vclockRemote : VClock ν} {op : Operation K V F}
  {pids : Option (List ν)} {size : Nat}

theorem ok_new (nodeId : ν) : (Process.new nodeId : Process ν K V F Average).Ok :=
  ⟨InOrder.nil _, fun _ hs => absurd hs not_mem_nil⟩

theorem below_vclockIncrement (n : ν) (c : VClock ν) : Below c (vclockIncrement n c) :=
  (advances_vclockIncrement n c).1

theorem below_vclockReceive (s : State ν K V F) (c : VClock ν) :
    Below s.vclock (vclockReceive c s) :=
  (below_vclockIncrement s.nodeId s.vclock).trans (below_vclockMerge_right _ _)

section

variable (h : p.Ok)

include h

theorem Process.Ok.bootstrapLocal : (p.bootstrapLocal nodeIdRemote vclockRemote).Ok :=
  ⟨h.log.mono ((below_vclockIncrement p.nodeId p.vclock).trans (below_vclockMerge_right _ _)),
    h.states⟩

theorem Process.Ok.receive (hlog : InOrder vclockN polog) :
    (p.receive nodeIdRemote vclockRemote vclockN polog mcast response).process.Ok :=
  ⟨hlog, h.states⟩

theorem Process.Ok.cleanVclocksStore : p.cleanVclocksStore.process.Ok :=
  ⟨h.log.current p.nodeIds, h.states⟩

theorem Process.Ok.cleanVclocks : (p.cleanVclocks floats pids).process.Ok := by
  cases pids with
  | none => exact h
  | some pids =>
    simp only [Process.cleanVclocks]
    by_cases hfailure : p.nodeIds.length > pids.length + 1 ∧
        floats.cleanFailureMet p.nodeIds.length (pids.length + 1)
    · rw [if_pos hfailure]
      exact h
    · rw [if_neg hfailure]
      exact Process.Ok.cleanVclocksStore ⟨h.log, h.states⟩

theorem Process.Ok.eventLocal : (p.eventLocal op).process.Ok := by
  have hlog := (h.log.mono (below_vclockIncrement p.nodeId p.vclock)).effect op
    (operationId p.nodeId (vclockIncrement p.nodeId (vclockIncrement p.nodeId p.vclock)))
  exact ⟨hlog.mono (below_vclockIncrement p.nodeId _), h.states⟩

theorem Process.Ok.bootstrapLocalCheck {sendVclock : Bool} {states : List ν}
    {stateNew : Process ν K V F Average}
    (hr : p.bootstrapLocalCheck pids nodeIdRemote vclockRemote op =
      some (sendVclock, stateNew, states)) : stateNew.Ok := by
  have hnext : (p.bootstrapLocal nodeIdRemote vclockRemote).Ok := h.bootstrapLocal
  have hlog := (hnext.log.effect op (operationId nodeIdRemote vclockRemote)).mono
    (below_vclockIncrement p.nodeId _)
  unfold Process.bootstrapLocalCheck at hr
  match hb : p.bootstrapNodeId, pids with
  | none, none =>
    simp only [hb] at hr
    cases hr
    exact ⟨hlog, h.states⟩
  | none, some [] =>
    simp only [hb] at hr
    cases hr
  | none, some (pid :: pids) =>
    simp only [hb] at hr
    split at hr
    · cases hr
      exact ⟨hlog, fun _ hs => absurd hs not_mem_nil⟩
    · cases hr
      exact ⟨hlog, h.states⟩
  | some _, _ =>
    simp only [hb] at hr
    cases hr
    exact ⟨hlog, h.states⟩

theorem Process.Ok.eventRemote (hr : p.eventRemote pids nodeIdRemote vclockRemote op = some m)
    : m.process.Ok := by
  unfold Process.eventRemote at hr
  cases hmode : p.pologMode with
  | bootstrap =>
    simp only [hmode] at hr
    obtain ⟨⟨sendVclock, stateNew, states⟩, hcheck, hr⟩ := bind_eq_some_iff.mp hr
    have hnew := h.bootstrapLocalCheck hcheck
    cases sendVclock with
    | true =>
      cases hr
      exact ⟨hnew.log.mono (below_vclockIncrement p.nodeId _), hnew.states⟩
    | false =>
      cases hr
      exact hnew
  | normal =>
    simp only [hmode] at hr
    cases hr
    have hlog := (h.log.mono (below_vclockReceive p.toState vclockRemote)).effect op
      (operationId nodeIdRemote vclockRemote)
    exact h.receive (hlog.mono (below_vclockIncrement p.nodeId _))

theorem Process.Ok.eventLocalVclock :
    (p.eventLocalVclock size nodeIdRemote vclockRemote).process.Ok := by
  have hreceive := h.log.mono (below_vclockReceive p.toState vclockRemote)
  have hlocal : (p.bootstrapLocal nodeIdRemote vclockRemote).Ok := h.bootstrapLocal
  unfold Process.eventLocalVclock
  cases p.pologMode with
  | bootstrap => exact ⟨hlocal.log.mono (below_vclockIncrement p.nodeId _), h.states⟩
  | normal =>
    cases size with
    | zero => exact h.receive (hreceive.mono (below_vclockIncrement p.nodeId _))
    | succ size => exact h.receive hreceive

theorem Process.Ok.eventRemoteVclock :
    (p.eventRemoteVclock size nodeIdRemote vclockRemote).process.Ok := by
  have hreceive := h.log.mono (below_vclockReceive p.toState vclockRemote)
  unfold Process.eventRemoteVclock
  cases p.pologMode with
  | bootstrap => exact h.bootstrapLocal
  | normal =>
    cases size with
    | zero => exact h.receive (hreceive.mono (below_vclockIncrement p.nodeId _))
    | succ size => exact h.receive hreceive

theorem Process.Ok.eventLocalVclockUpdated :
    (p.eventLocalVclockUpdated nodeIdRemote vclockRemote).process.Ok := by
  unfold Process.eventLocalVclockUpdated
  cases p.pologMode with
  | bootstrap => exact h
  | normal => exact h.receive (h.log.mono (below_vclockReceive p.toState vclockRemote))

theorem Process.Ok.eventRemoteVclockUpdated :
    (p.eventRemoteVclockUpdated nodeIdRemote vclockRemote).process.Ok := by
  unfold Process.eventRemoteVclockUpdated
  cases p.pologMode with
  | bootstrap => exact h.bootstrapLocal
  | normal => exact h.eventLocalVclockUpdated

end

/-- The POLog that is adopted is one of the states that were gathered. -/
theorem bootstrapUpdateResult_ok (h : ∀ s ∈ bootstrapStates, InOrder s.vclock s.polog)
    (hr : bootstrapUpdateResult floats bootstrapNodeId bootstrapStates vclockAvg =
      some (.ok c vclocks polog data)) : InOrder c polog := by
  simp only [bootstrapUpdateResult] at hr
  by_cases hnew : (vclockAvg :: bootstrapStates.map (·.vclockAvg)).all floats.isNew = true
  · rw [if_pos hnew] at hr
    cases hr
  rw [if_neg hnew] at hr
  cases hfind : bootstrapStates.find? fun s => some s.nodeId = bootstrapNodeId with
  | none =>
    simp only [hfind] at hr
    cases hr
  | some s =>
    simp only [hfind] at hr
    have hs := h s (mem_of_find?_eq_some hfind)
    cases hmode : s.pologMode with
    | bootstrap =>
      simp only [hmode] at hr
      cases hr
    | normal =>
      simp only [hmode] at hr
      by_cases hold : floats.reachesThreshold s.vclockAvg
          (vclockAvg :: bootstrapStates.map (·.vclockAvg)) = true
      · rw [if_pos hold] at hr
        cases hr
        exact hs
      · rw [if_neg hold] at hr
        cases hr

theorem Process.Ok.bootstrapUpdateFinished (h : p.Ok)
    (hr : p.bootstrapUpdateFinished floats = some m) : m.process.Ok := by
  have hnone : ∀ s : BootstrapState ν K V F Average, s ∈ [] →
      InOrder s.vclock s.polog := fun _ hs => absurd hs not_mem_nil
  unfold Process.bootstrapUpdateFinished at hr
  by_cases hlast : p.bootstrapRequests = 0
  · rw [if_pos hlast] at hr
    obtain ⟨vclockAvg, -, hr⟩ := bind_eq_some_iff.mp hr
    obtain ⟨result, hresult, hr⟩ := bind_eq_some_iff.mp hr
    cases result with
    | bootstrapDone =>
      cases hr
      exact ⟨h.log.current p.nodeIds, hnone⟩
    | ok vclock vclocks polog data =>
      cases hr
      have hlog := bootstrapUpdateResult_ok h.states hresult
      have hbelow : Below vclock (vclockMerge vclock (vclockIncrement p.nodeId p.vclock)) :=
        below_vclockMerge_left _ _
      exact ⟨(hlog.mono hbelow).current p.nodeIds, hnone⟩
    | updateInvalid =>
      cases hr
      exact ⟨h.log, hnone⟩
  · rw [if_neg hlast] at hr
    cases hr
    exact h

theorem Process.Ok.bootstrapUpdateFinish {snapshot : Snapshot ν K V F} (h : p.Ok)
    (hsnapshot : InOrder snapshot.vclock snapshot.polog)
    (hr : p.bootstrapUpdateFinish floats snapshot = some m) : m.process.Ok := by
  unfold Process.bootstrapUpdateFinish at hr
  cases hmode : p.pologMode with
  | bootstrap =>
    simp only [hmode] at hr
    obtain ⟨vclockAvg, -, hr⟩ := bind_eq_some_iff.mp hr
    refine Process.Ok.bootstrapUpdateFinished ?_ hr
    exact ⟨h.log, forall_mem_cons.mpr ⟨hsnapshot, h.states⟩⟩
  | normal =>
    simp only [hmode] at hr
    cases hr

variable {event : Event ν K V F}

/-- **Step lemma**: every event keeps the order of the POLog. -/
theorem Process.Ok.prepare (h : p.Ok)
    (hsnapshot : ∀ snapshot, event = .state snapshot → InOrder snapshot.vclock snapshot.polog)
    (hr : p.prepare floats event = some m) : m.process.Ok := by
  cases event with
  | operation op =>
    cases hr
    exact h.eventLocal
  | request size pids request =>
    cases request with
    | operation nodeIdRemote vclockRemote op => exact h.eventRemote hr
    | vclock nodeIdRemote vclockRemote =>
      cases hr
      exact h.eventRemoteVclock
    | vclockUpdated nodeIdRemote vclockRemote =>
      cases hr
      exact h.eventRemoteVclockUpdated
  | response size response =>
    cases response with
    | vclock nodeIdRemote vclockRemote =>
      cases hr
      exact h.eventLocalVclock
    | vclockUpdated nodeIdRemote vclockRemote =>
      cases hr
      exact h.eventLocalVclockUpdated
    | updated =>
      cases hr
      exact h
  | state snapshot => exact h.bootstrapUpdateFinish (hsnapshot snapshot rfl) hr
  | cleanVclocks pids =>
    cases hr
    exact h.cleanVclocks

theorem Handled.ok_finish (h : m.process.Ok) : (m.finish calls).process.Ok := by
  unfold Handled.finish
  cases m.vclockMin with
  | none => exact h
  | some vclockMin =>
    refine ⟨h.log.sublist ?_, h.states⟩
    simp only [pologStable_eq]
    exact filter_sublist

theorem Process.Ok.handle (h : p.Ok)
    (hsnapshot : ∀ snapshot, event = .state snapshot → InOrder snapshot.vclock snapshot.polog)
    (hr : p.handle calls floats event = some r) : r.process.Ok := by
  obtain ⟨m, hm, rfl⟩ := map_eq_some_iff.mp hr
  exact Handled.ok_finish (h.prepare hsnapshot hm)

/-- **Run lemma**: in every reachable state the POLog is in order. -/
theorem Reachable.ok (h : Reachable calls floats p) : p.Ok := by
  induction h with
  | new nodeId => exact ok_new nodeId
  | event hp hstate hr ih => exact ih.handle (fun s hs => absurd hs (hstate s)) hr
  | state hp hq hr ihp ihq =>
    refine ihp.handle (fun s hs => ?_) hr
    cases hs
    exact ihq.log

/-! ## stable operations -/

omit [LinearOrder K] in
/-- The operations of a POLog in order that are less than a clock are the oldest ones. -/
theorem Ascending.split (h : Ascending polog) (c : VClock ν) :
    polog = (polog.filter fun e => !vclockLessThan e.vclock c) ++
      polog.filter fun e => vclockLessThan e.vclock c := by
  induction polog with
  | nil => rfl
  | cons e polog ih =>
    rw [Ascending, pairwise_cons] at h
    by_cases he : vclockLessThan e.vclock c = true
    · -- all older operations are less too
      have hall : ∀ e' ∈ polog, vclockLessThan e'.vclock c = true :=
        fun e' he' => vclockLessThan_of_below (h.1 e' he') he
      have hnone : (e :: polog).filter (fun e => !vclockLessThan e.vclock c) = [] := by
        simpa [he] using hall
      have hkeep : (e :: polog).filter (fun e => vclockLessThan e.vclock c) = e :: polog := by
        simpa [he] using hall
      rw [hnone, hkeep, nil_append]
    · simp only [filter_cons, he, Bool.not_false, Bool.false_eq_true, if_true, if_false,
        cons_append, ← ih h.2]

/-- **The stable operations are the oldest ones**: `polog_stable/5` splits a POLog in order
into the newer operations, which stay, and the older ones, which are less than the minimum
and are written to the data, oldest first. -/
theorem pologStable_splits (h : Ascending polog) (calls : Calls V F)
    (data : Data K V) (vclockMin : VClock ν) :
    ∃ newer older, polog = newer ++ older ∧
      pologStable calls polog data vclockMin = (newer, replay calls older data) := by
  rw [pologStable_eq]
  exact ⟨_, _, h.split vclockMin, rfl⟩

/-- Every event that calls `polog_stable/5` takes a number of the oldest operations out of
the POLog and writes them to the data, oldest first. -/
def WritesOldestFirst (calls : Calls V F) (floats : Floats ν Average)
    (p : Process ν K V F Average) : Prop :=
  ∀ (event : Event ν K V F) m, event.Comes calls floats →
    p.prepare floats event = some m → ∀ vclockMin, m.vclockMin = some vclockMin →
      ∃ newer older, m.process.polog = newer ++ older ∧
        (m.finish calls).process.polog = newer ∧
        (m.finish calls).process.data = replay calls older m.process.data

/-- **The POLog is in order**: in every reachable state the clocks do not increase from the
newest operation to the oldest one, and the oldest operations are written first. -/
theorem polog_in_order (h : Reachable calls floats p) :
    Ascending p.polog ∧ WritesOldestFirst calls floats p := by
  refine ⟨h.ok.log.ascending, fun event m hcomes hm vclockMin hmin => ?_⟩
  have hprepared : m.process.Ok := by
    refine h.ok.prepare (fun snapshot hsnapshot => ?_) hm
    obtain ⟨q, hq, rfl⟩ := hcomes snapshot hsnapshot
    exact hq.ok.log
  obtain ⟨newer, older, hsplit, hstable⟩ :=
    pologStable_splits hprepared.log.ascending calls m.process.data vclockMin
  refine ⟨newer, older, hsplit, ?_⟩
  simp only [Handled.finish, hmin, hstable, and_self]

/-! ## sample runs -/

/-- The process after an event, or as it was. -/
def Process.after (calls : Calls V F) (floats : Floats ν Average)
    (p : Process ν K V F Average) (event : Event ν K V F) :
    Process ν K V F Average :=
  (p.handle calls floats event).elim p (·.process)

theorem Reachable.after (h : Reachable calls floats p) (hcomes : event.Comes calls floats) :
    Reachable calls floats (p.after calls floats event) := by
  unfold Process.after
  cases hr : p.handle calls floats event with
  | none => exact h
  | some r =>
    cases event with
    | state snapshot =>
      obtain ⟨q, hq, rfl⟩ := hcomes snapshot rfl
      exact .state h hq hr
    | _ => exact .event h (fun _ hs => by cases hs) hr

/-- The averages as sums and counts, and the default `clean_vclocks_failure`. -/
def exactFloats : Floats Nat (Nat × Nat) where
  average := fun c => ((Maps.toList c).foldl (fun sum x => sum + x.2) 0, Maps.size c)
  isNew := fun avg => avg.1 < 30 * avg.2
  reachesThreshold := fun _ _ => true
  cleanFailureMet := fun old new => 50 * old ≤ (old - new) * 100

/-- Numbers with their sum and difference. -/
def naturalCalls : Calls Nat Unit where
  isNumber := fun _ => true
  add := (· + ·)
  sub := (· - ·)
  call1 := fun _ x => x
  call2 := fun _ x _ => x

/-- The first operation of the process 1. -/
def firstOperation : Event Nat Nat Nat Unit :=
  .request 0 (some [1]) (.operation 1 (Maps.put 1 2 ∅) (.incr 0 1))

/-- The process 1 after its first operation. -/
def otherProcess : Process Nat Nat Nat Unit (Nat × Nat) :=
  (Process.new 1).after naturalCalls exactFloats (.operation (.incr 0 1))

/-- The process 0 when it is in the mode `normal`, with the operation of the process 1 in its
POLog. -/
def startedProcess : Process Nat Nat Nat Unit (Nat × Nat) :=
  ((Process.new 0).after naturalCalls exactFloats firstOperation).after naturalCalls exactFloats
    (.state otherProcess.snapshot)

theorem reachable_startedProcess : Reachable naturalCalls exactFloats startedProcess := by
  have hother : Reachable naturalCalls exactFloats otherProcess :=
    (Reachable.new 1).after fun _ hs => by cases hs
  refine Reachable.after ((Reachable.new 0).after fun _ hs => by cases hs) ?_
  intro snapshot hs
  cases hs
  exact ⟨otherProcess, hother, rfl⟩

/-- The process 0 when it has written two more operations. -/
def writingProcess : Process Nat Nat Nat Unit (Nat × Nat) :=
  (startedProcess.after naturalCalls exactFloats (.operation (.put 3 4))).after naturalCalls
    exactFloats (.operation (.incr 0 2))

theorem reachable_writingProcess : Reachable naturalCalls exactFloats writingProcess :=
  (reachable_startedProcess.after fun _ hs => by cases hs).after fun _ hs => by cases hs

theorem polog_in_order_writingProcess :
    writingProcess.polog.map (·.id) = [(0, 6), (0, 4), (1, 2)] ∧
      Ascending writingProcess.polog ∧
      WritesOldestFirst naturalCalls exactFloats writingProcess :=
  ⟨by decide +kernel, polog_in_order reachable_writingProcess⟩

end CloudI.Crdt
