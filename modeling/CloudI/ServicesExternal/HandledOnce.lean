import CloudI.ServicesExternal.Receive
import CloudI.ServicesInternal.HandledOnce

/-!
# ServicesExternal.HandledOnce

The OS process has one request at most, and every accepted request is sent to it once or
times out once.  `Processes` says what every function that processes the queue does; a step
of a run is put together from it.
-/

namespace CloudI.ServicesExternal

open CloudI.Except Run Tickets Pqueue4 List
open ServicesInternal.Receive (ServiceRequest Options UpdatePlan Queued requests queuedIds
  totalSize account_append)

variable {ι Pid : Type} [LinearOrder ι]

/-- The requests that are sent to the OS process. -/
def sentBy (outs : List (Output ι Pid)) : List (ServiceRequest ι Pid Content) :=
  outs.filterMap Output.sent?

/-- The ids of requests. -/
def idsOf (l : List (ServiceRequest ι Pid Content)) : List ι := l.map (·.transId)

/-- **The busy flag**, with the number of what the process is busy with: an idle process has
nothing queued and nothing to wait for, it waits for one thing at most, and an update plan
that is not busy holds the flag while it waits for nothing. -/
structure Flagged (s : State ι Pid) (n : Nat) : Prop where
  idle : s.queueRequests = false → requests s.toState = [] ∧ n = 0
  single : n ≤ 1
  plan : ∀ plan, s.updatePlan = some plan →
    s.queueRequests = true ∧ (plan.queueRequests = some false → n = 0)

/-- **What the processing of the queue does** when nothing is waited for: requests leave the
queue by being sent, and `request_data` is the one that is sent. -/
structure Passes (s : State ι Pid) (r : Result ι Pid) : Prop where
  queued : Queued r.1.toState
  flagged : Flagged r.1 (sentBy r.2).length
  data : sentBy r.2 = r.1.requestData.toList
  account : (idsOf (sentBy r.2) ++ queuedIds r.1.toState).Perm (queuedIds s.toState)
  sublist : ∀ x ∈ requests r.1.toState, x ∈ requests s.toState
  timers : r.2.filterMap Output.timer? = []

/-- The processing of the queue does so, or the process stops, but neither for its flag nor for
a timer. -/
structure Processes (s : State ι Pid) (x : Except Failure (Result ι Pid)) : Prop where
  error : OnlyError .stop x
  ok : ∀ r, x = .ok r → Passes s r

/-- Outputs that send no request and start no timer. -/
structure Silent (outs : List (Output ι Pid)) : Prop where
  sent : sentBy outs = []
  timers : outs.filterMap Output.timer? = []

variable {outs : List (Output ι Pid)} {r result : Result ι Pid}
  {s s' : State ι Pid} {x : Except Failure (Result ι Pid)} {w : World ι Pid}
  {n : Nat} {event : Event ι Pid}

theorem Passes.withOutputs (h : Passes s r) (hsilent : Silent outs) :
    Passes s (withOutputs outs r) := by
  have hsent : sentBy (outs ++ r.2) = sentBy r.2 := by
    rw [sentBy, filterMap_append]
    exact (congrArg (· ++ _) hsilent.sent).trans (nil_append _)
  refine ⟨h.queued, ?_, ?_, ?_, h.sublist, ?_⟩
  · show Flagged r.1 (sentBy (outs ++ r.2)).length
    rw [hsent]
    exact h.flagged
  · exact hsent.trans h.data
  · show (idsOf (sentBy (outs ++ r.2)) ++ _).Perm _
    rw [hsent]
    exact h.account
  · show (outs ++ r.2).filterMap _ = _
    rw [filterMap_append, hsilent.timers, h.timers]
    rfl

theorem Processes.withOutputs (h : Processes s x) (hsilent : Silent outs) :
    Processes s (x.map (withOutputs outs)) where
  error := h.error.map
  ok := by
    intro r hr
    cases x with
    | error failure => cases hr
    | ok r' =>
      cases hr
      exact (h.ok r' rfl).withOutputs hsilent

theorem Processes.congr (h : Processes s' x) (s : State ι Pid) (hsame : s'.queued = s.queued)
    :
    Processes s x where
  error := h.error
  ok := by
    intro r hr
    have hpasses := h.ok r hr
    have hreq : requests s'.toState = requests s.toState := by rw [requests, requests, hsame]
    have hids : queuedIds s'.toState = queuedIds s.toState := by rw [queuedIds, queuedIds, hreq]
    exact ⟨hpasses.queued, hpasses.flagged, hpasses.data, hids ▸ hpasses.account,
      fun x hx => hreq ▸ hpasses.sublist x hx, hpasses.timers⟩

theorem processes_stop (s : State ι Pid) : Processes s (.error .stop) where
  error := onlyError_error _
  ok := fun _ h => by cases h

theorem queued_congr (h : Queued s.toState) (hqueued : s'.queued = s.queued)
    (htimers : s'.recvTimeouts = s.recvTimeouts) (hsize : s'.queuedSize = s.queuedSize) :
    Queued s'.toState := by
  have hreq : requests s'.toState = requests s.toState := by rw [requests, requests, hqueued]
  have hids : queuedIds s'.toState = queuedIds s.toState := by rw [queuedIds, queuedIds, hreq]
  refine ⟨hqueued ▸ h.cached, fun p x hx => h.place p x (hqueued ▸ hx), hids ▸ h.nodup, ?_, ?_⟩
  · intro transId
    rw [htimers, hids]
    exact h.timers transId
  · rw [hsize, h.size, totalSize, totalSize, hreq]

/-! ## the queue -/

/-- A process that may take the next request: it holds the flag and waits for nothing. -/
structure Ready (s : State ι Pid) : Prop where
  queued : Queued s.toState
  busy : s.queueRequests = true
  data : s.requestData = none

theorem processQueue_eq (hbusy : s.queueRequests = true) (a : Answers) :
    (∀ q, ServicesInternal.Receive.processQueue a.cancel s.toState = some (q, []) →
      processQueue a s = .ok ({ s with toState := q }, [])) ∧
    (∀ q tref r t, ServicesInternal.Receive.processQueue a.cancel s.toState =
        some (q, [.cancelTimer tref, .request r t]) →
      processQueue a s = if a.aspects then
          .ok ({ s with toState := q, requestData := some { r with timeout := t } },
            [.queue (.cancelTimer tref), .send { r with timeout := t }])
        else .ok (s, [.exit])) := by
  rw [ServicesInternal.Receive.processQueue, processQueue, if_pos hbusy, if_pos hbusy]
  obtain ⟨_ | ⟨size, r⟩, queued⟩ := Pqueue4.out s.queued
  · refine ⟨fun q h => ?_, fun q tref r t h => ?_⟩
    · cases h
      rfl
    · cases h
  · cases htref : Maps.find r.transId s.recvTimeouts with
    | none => exact ⟨fun q h => by simp [htref] at h, fun q tref r t h => by simp [htref] at h⟩
    | some tref =>
      refine ⟨fun q h => by simp [htref] at h, fun q tref' r' t h => ?_⟩
      simp only [htref, Option.some.injEq, Prod.mk.injEq, List.cons.injEq,
        ServicesInternal.Receive.Output.cancelTimer.injEq,
        ServicesInternal.Receive.Output.request.injEq] at h
      obtain ⟨rfl, rfl, ⟨rfl, rfl⟩, -⟩ := h
      simp only [htref]

theorem processes_processQueue (h : Ready s) (hplan : s.updatePlan = none) (a : Answers) :
    Processes s (processQueue a s) := by
  have hplan' : ∀ s' : State ι Pid, s'.updatePlan = s.updatePlan → ∀ n plan,
      s'.updatePlan = some plan → s'.queueRequests = true ∧
        (plan.queueRequests = some false → n = 0) := by
    intro s' hsame n plan hsome
    rw [hsame, hplan] at hsome
    cases hsome
  rcases ServicesInternal.Receive.processQueue_spec h.queued h.busy a.cancel with
    ⟨q, heq, hnil, hqueued, hnil'⟩ | ⟨x, tref, q, heq, hqueued, hperm, hbusy, hsame, -⟩
  · rw [(processQueue_eq h.busy a).1 _ heq]
    refine ⟨onlyError_ok _ _, fun r hr => ?_⟩
    cases hr
    refine ⟨hqueued, ⟨fun _ => ⟨hnil', rfl⟩, Nat.zero_le 1, ?_⟩, ?_, ?_, ?_, rfl⟩
    · exact hplan' { s with queueRequests := false, queued := q } rfl 0
    · show [] = s.requestData.toList
      rw [h.data]
      rfl
    · show ([] ++ queuedIds _).Perm _
      rw [queuedIds, queuedIds, hnil, hnil']
      exact List.Perm.refl _
    · intro x hx
      rw [hnil'] at hx
      cases hx
  · rw [(processQueue_eq h.busy a).2 _ _ _ _ heq]
    by_cases haspects : a.aspects = true
    · rw [if_pos haspects]
      refine ⟨onlyError_ok _ _, fun r hr => ?_⟩
      cases hr
      refine ⟨hqueued, ⟨fun hidle => ?_, Nat.le_refl 1, ?_⟩, rfl, ?_, ?_, rfl⟩
      · cases hbusy.symm.trans hidle
      · exact hplan' { s with toState := q, requestData := _ } hsame 1
      · exact (hperm.map fun y => y.2.transId).symm
      · exact fun y hy => hperm.mem_iff.mpr (mem_cons_of_mem x hy)
    · rw [if_neg haspects]
      refine ⟨onlyError_ok _ _, fun r hr => ?_⟩
      cases hr
      refine ⟨h.queued, ⟨fun hidle => ?_, Nat.zero_le 1, hplan' s rfl 0⟩, ?_, ?_, fun x hx => hx,
        rfl⟩
      · cases h.busy.symm.trans hidle
      · show [] = s.requestData.toList
        rw [h.data]
        rfl
      · exact List.Perm.refl _

/-! ## updates -/

theorem processes_processUpdate (h : Ready s) (a : Answers) : Processes s (processUpdate a s) := by
  unfold processUpdate
  split
  · next updateNow updateStart hplan =>
      have hready : Ready { s with
          options := (if updateStart then a.updated else none).getD s.options
          updatePlan := none } :=
        ⟨queued_congr h.queued rfl rfl rfl, h.busy, h.data⟩
      refine ((processes_processQueue hready rfl a).congr s rfl).withOutputs ?_
      cases (if updateStart then a.updated else none) <;> exact ⟨rfl, rfl⟩
  · exact processes_stop s

theorem processes_processQueues (h : Ready s) (a : Answers) : Processes s (processQueues a s) := by
  unfold processQueues
  cases hplan : s.updatePlan with
  | none => exact processes_processQueue h hplan a
  | some plan =>
    have hsilent : Silent (plan.updatePending.toList.map fun pid =>
        (.queue (.update pid) : Output ι Pid)) := by
      cases plan.updatePending <;> exact ⟨rfl, rfl⟩
    have hready : ∀ plan', Ready { s with updatePlan := some plan' } := fun plan' =>
      ⟨queued_congr h.queued rfl rfl rfl, h.busy, h.data⟩
    cases hnow : plan.updateNow with
    | some updateNow =>
      simp only [hnow]
      exact ((processes_processUpdate (hready _) a).congr s rfl).withOutputs hsilent
    | none =>
      simp only [hnow]
      refine ⟨onlyError_ok _ _, fun r hr => ?_⟩
      cases hr
      refine ⟨queued_congr h.queued rfl rfl rfl, ⟨fun hidle => ?_, ?_, fun _ _ => ⟨h.busy, ?_⟩⟩,
        ?_, ?_, fun x hx => hx, hsilent.timers⟩
      · cases h.busy.symm.trans hidle
      · rw [hsilent.sent]
        exact Nat.zero_le 1
      · intro _
        rw [hsilent.sent]
        rfl
      · rw [hsilent.sent]
        show [] = s.requestData.toList
        rw [h.data]
        rfl
      · rw [hsilent.sent]
        exact List.Perm.refl _

/-! ## runs -/

/-- What the process waits for: the first poll, and the answers of the OS process. -/
def World.waits (w : World ι Pid) : Nat := (if w.polls then 0 else 1) + w.osProcess.length

/-- **What holds in every reachable state**: the queue is in order, the flag is right,
`request_data` is what the OS process has, the timers that were started know their requests,
and each accepted request is sent, timed out or queued. -/
structure Sound (w : World ι Pid) : Prop where
  queued : Queued w.state.toState
  flagged : Flagged w.state w.waits
  data : w.osProcess = w.state.requestData.toList
  timers : ∀ t ∈ w.timers, t.2.1 ∈ w.transIds ∧
    ∀ x ∈ requests w.state.toState, x.2.transId = t.2.1 → x.2.priority = t.1 ∧ x.1 = t.2.2
  account : (w.sent ++ w.timedOut ++ queuedIds w.state.toState).Perm w.accepted
  once : Once w.transIds w.accepted

theorem sound_init (options : Options) : Sound (World.init options : World ι Pid) := by
  have hsound : ServicesInternal.Receive.Sound (.init options :
      ServicesInternal.Receive.World ι Pid Content Empty) :=
    ServicesInternal.Receive.sound_init options
  exact ⟨hsound.queued, ⟨nofun, Nat.le_refl 1, nofun⟩, rfl,
    fun t ht => absurd ht not_mem_nil, hsound.account, hsound.once⟩

theorem Sound.seen (hw : Sound w) (h : transId ∈ queuedIds w.state.toState) :
    transId ∈ w.transIds :=
  hw.once.of_issued _ (hw.account.mem_iff.mp (mem_append_right _ h))

/-- The processing of the queue, as a step of a run: nothing is waited for but what is sent. -/
theorem Sound.of_passes (hw : Sound w) (h : Passes w.state r) :
    Sound { state := r.1
            polls := true
            osProcess := sentBy r.2
            timers := w.timers ++ r.2.filterMap Output.timer?
            accepted := w.accepted ++ []
            sent := w.sent ++ idsOf (sentBy r.2)
            timedOut := w.timedOut ++ []
            transIds := [] ++ w.transIds : World ι Pid } where
  queued := h.queued
  flagged := by
    show Flagged r.1 (0 + (sentBy r.2).length)
    rw [Nat.zero_add]
    exact h.flagged
  data := h.data
  timers := by
    intro t ht
    replace ht : t ∈ w.timers ++ r.2.filterMap Output.timer? := ht
    rw [h.timers, append_nil] at ht
    obtain ⟨hseen, hmatch⟩ := hw.timers t ht
    exact ⟨hseen, fun x hx => hmatch x (h.sublist x hx)⟩
  account := account_append (l := []) hw.account h.account
  once := by
    show Once w.transIds (w.accepted ++ [])
    rw [append_nil]
    exact hw.once

/-- An event that leaves the queue and the OS process alone. -/
structure Keeps (s : State ι Pid) (r : Result ι Pid) : Prop where
  queued : r.1.queued = s.queued
  timers : r.1.recvTimeouts = s.recvTimeouts
  size : r.1.queuedSize = s.queuedSize
  data : r.1.requestData = s.requestData
  silent : Silent r.2

theorem Keeps.requests_eq (h : Keeps s r) :
    requests r.1.toState = requests s.toState := by rw [requests, requests, h.queued]

theorem Keeps.queuedIds_eq (h : Keeps s r) :
    queuedIds r.1.toState = queuedIds s.toState := by rw [queuedIds, queuedIds, h.requests_eq]

/-- Such an event, as a step of a run. -/
theorem Sound.of_keeps (hw : Sound w) (h : Keeps w.state r) (hflagged : Flagged r.1 w.waits) :
    Sound { state := r.1
            polls := w.polls
            osProcess := w.osProcess ++ sentBy r.2
            timers := w.timers ++ r.2.filterMap Output.timer?
            accepted := w.accepted ++ []
            sent := w.sent ++ idsOf (sentBy r.2)
            timedOut := w.timedOut ++ []
            transIds := [] ++ w.transIds : World ι Pid } := by
  rw [h.silent.sent, h.silent.timers, append_nil, append_nil]
  refine ⟨queued_congr hw.queued h.queued h.timers h.size, hflagged, ?_, ?_, ?_, ?_⟩
  · rw [h.data]
    exact hw.data
  · intro t ht
    obtain ⟨hseen, hmatch⟩ := hw.timers t ht
    exact ⟨hseen, fun x hx => hmatch x (h.requests_eq ▸ hx)⟩
  · refine account_append (l := []) hw.account ?_
    rw [h.queuedIds_eq]
    exact List.Perm.refl _
  · show Once w.transIds (w.accepted ++ [])
    rw [append_nil]
    exact hw.once

/-! ## updates, in a run -/

/-- `cloudi_service_update`: the plan has the flag, and holds it. -/
theorem keeps_handleUpdate (hflagged : Flagged s n) (updatePending : Pid) (plan : UpdatePlan Pid)
    (hr : handleUpdate updatePending plan s = .ok r) : Keeps s r ∧ Flagged r.1 n := by
  unfold handleUpdate ServicesInternal.Receive.handleUpdate at hr
  cases hplan : s.updatePlan with
  | some plan' =>
    rw [hplan] at hr
    cases hr
  | none =>
    have hnew : ∀ plan' : UpdatePlan Pid, plan'.queueRequests = some s.queueRequests →
        Flagged { s with updatePlan := some plan', queueRequests := true } n := by
      intro plan' hbusy
      refine ⟨nofun, hflagged.single, fun plan'' hsome => ⟨rfl, fun hidle => ?_⟩⟩
      cases hsome
      exact (hflagged.idle (Option.some.inj (hbusy.symm.trans hidle))).2
    rw [hplan] at hr
    by_cases hsync : plan.sync = true ∧ s.queueRequests = true
    · simp only [if_pos hsync, onQueue, Except.ok.injEq] at hr
      subst hr
      exact ⟨⟨rfl, rfl, rfl, rfl, ⟨rfl, rfl⟩⟩, hnew _ rfl⟩
    · simp only [if_neg hsync, onQueue, Except.ok.injEq] at hr
      subst hr
      exact ⟨⟨rfl, rfl, rfl, rfl, ⟨rfl, rfl⟩⟩, hnew _ rfl⟩

/-- `cloudi_service_update_now`: the plan waits with the others, or nothing is waited for. -/
theorem handleUpdateNow_cases (hqueued : Queued s.toState) (hflagged : Flagged s n)
    (hdata : n = 0 → s.requestData = none) (updateNow : Pid) (updateStart : Bool) (a : Answers) :
    (∀ r, handleUpdateNow updateNow updateStart a s = .ok r → Keeps s r ∧ Flagged r.1 n) ∧
        OnlyError .stop (handleUpdateNow updateNow updateStart a s) ∨
      n = 0 ∧ Processes s (handleUpdateNow updateNow updateStart a s) := by
  unfold handleUpdateNow
  cases hplan : s.updatePlan with
  | none => exact .inl ⟨fun r hr => (by cases hr), onlyError_error _⟩
  | some plan =>
    obtain ⟨hbusy, hzero⟩ := hflagged.plan plan hplan
    cases hqueue : plan.queueRequests with
    | none =>
      simp only [hqueue]
      exact .inl ⟨fun r hr => (by cases hr), onlyError_error _⟩
    | some busy =>
      cases busy with
      | true =>
        simp only [hqueue]
        refine .inl ⟨fun r hr => ?_, onlyError_ok _ _⟩
        cases hr
        refine ⟨⟨rfl, rfl, rfl, rfl, ⟨rfl, rfl⟩⟩, ⟨fun hidle => ?_, hflagged.single, ?_⟩⟩
        · cases hbusy.symm.trans hidle
        · intro plan' hsome
          cases hsome
          exact ⟨hbusy, nofun⟩
      | false =>
        simp only [hqueue]
        have hready : Ready { s with
            updatePlan := some { plan with
                                 updateNow := some updateNow
                                 updateStart
                                 queueRequests := some false } } :=
          ⟨queued_congr hqueued rfl rfl rfl, hbusy, hdata (hzero hqueue)⟩
        exact .inr ⟨hzero hqueue, (processes_processUpdate hready a).congr s rfl⟩

/-! ## requests -/

/-- **What a request that comes does**: it is sent, queued, or turned away. -/
structure Comes (s : State ι Pid) (n : Nat) (transId : ι) (r : Result ι Pid) :
    Prop where
  queued : Queued r.1.toState
  flagged : Flagged r.1 (n + (sentBy r.2).length)
  data : s.requestData.toList ++ sentBy r.2 = r.1.requestData.toList
  account : (idsOf (sentBy r.2) ++ queuedIds r.1.toState).Perm
    (r.2.filterMap Output.accepted? ++ queuedIds s.toState)
  accepted : (r.2.filterMap Output.accepted?).Sublist [transId]
  requests : ∀ x ∈ requests r.1.toState, x ∈ requests s.toState ∨ x.2.transId = transId
  timers : ∀ t ∈ r.2.filterMap Output.timer?, t.2.1 = transId ∧
    ∀ x ∈ ServicesInternal.Receive.requests r.1.toState, x.2.transId = transId →
      x.2.priority = t.1 ∧ x.1 = t.2.2

section

variable (h : Queued s.toState) (hflagged : Flagged s n)

include h hflagged

/-- A request that is turned away. -/
theorem comes_returnNull (r : ServiceRequest ι Pid Content)
    : Comes s n r.transId (returnNull r s) := by
  have hnull : ∀ {β : Type} (f : Output ι Pid → Option β), f (.queue (.returnNull r)) = none →
        ((ServicesInternal.Receive.returnNull r s.options).map Output.queue).filterMap f = [] := by
    intro β f hf
    unfold ServicesInternal.Receive.returnNull
    by_cases hmax : s.options.responseTimeoutImmediateMax ≤ r.timeout
    · rw [if_pos hmax]
      exact filterMap_cons_none hf
    · rw [if_neg hmax]
      rfl
  have hsent : sentBy (returnNull r s).2 = [] := hnull _ rfl
  have haccepted : (returnNull r s).2.filterMap Output.accepted? = [] := hnull _ rfl
  have htimers : (returnNull r s).2.filterMap Output.timer? = [] := hnull _ rfl
  constructor
  case queued => exact h
  case flagged =>
    rw [hsent]
    exact hflagged
  case data =>
    rw [hsent, append_nil]
    rfl
  case account =>
    rw [hsent, haccepted]
    exact List.Perm.refl _
  case accepted =>
    rw [haccepted]
    exact nil_sublist _
  case requests => exact fun x hx => .inl hx
  case timers =>
    rw [htimers]
    exact fun t ht => absurd ht not_mem_nil

theorem comes_recvTimeoutStart (hbusy : ¬ s.queueRequests = false)
    {r : ServiceRequest ι Pid Content} (hnew : r.transId ∉ queuedIds s.toState)
    (hr : recvTimeoutStart size r s = .ok result) : Comes s n r.transId result := by
  unfold recvTimeoutStart onQueue at hr
  cases hstart : ServicesInternal.Receive.timeoutStart size r s.toState with
  | none =>
    rw [hstart] at hr
    cases hr
  | some q =>
    obtain ⟨queueing, outs⟩ := q
    rw [hstart] at hr
    cases hr
    obtain ⟨hqueued, hperm, houts, hsame, hplan, -⟩ :=
      ServicesInternal.Receive.timeoutStart_spec h hnew hstart
    obtain rfl : outs = _ := houts
    replace hsame : queueing.queueRequests = s.queueRequests := hsame
    refine ⟨hqueued, ⟨fun hidle => ?_, hflagged.single, fun plan hsome => ?_⟩, ?_, ?_,
      List.Sublist.refl _, fun x hx => ?_, fun t ht => ?_⟩
    · exact absurd (hsame ▸ hidle) hbusy
    · show queueing.queueRequests = true ∧ _
      rw [hsame]
      exact hflagged.plan plan (hplan ▸ hsome)
    · exact append_nil _
    · exact hperm.map fun x => x.2.transId
    · rcases mem_cons.mp (hperm.mem_iff.mp hx) with rfl | hx
      · exact .inr rfl
      · exact .inl hx
    · obtain rfl := mem_singleton.mp ht
      refine ⟨rfl, fun x hx hid => ?_⟩
      rcases mem_cons.mp (hperm.mem_iff.mp hx) with rfl | hx
      · exact ⟨rfl, rfl⟩
      · exact absurd (hid ▸ mem_map_of_mem hx) hnew

theorem comes_handleSend (hdata : n = 0 → s.requestData = none) {r : ServiceRequest ι Pid Content}
    (hnew : r.transId ∉ queuedIds s.toState) (byteSize : Nat) (rateRequestOk aspects : Bool)
    (hr : handleSend r byteSize rateRequestOk aspects s = .ok result) :
    Comes s n r.transId result := by
  have hnull := comes_returnNull h hflagged r
  unfold handleSend at hr
  by_cases hbad : r.content.request = none ∨ r.content.requestInfo = none ∨ r.timeout = 0
  · rw [if_pos hbad] at hr
    cases hr
    exact hnull
  rw [if_neg hbad] at hr
  by_cases hidle : s.queueRequests = false
  · rw [if_pos hidle] at hr
    by_cases hrate : rateRequestOk = true
    · rw [if_pos hrate] at hr
      by_cases haspects : aspects = true
      · rw [if_pos haspects] at hr
        cases hr
        obtain ⟨hnil, rfl⟩ := hflagged.idle hidle
        refine ⟨queued_congr h rfl rfl rfl, ⟨nofun, Nat.le_refl 1, fun plan hsome => ?_⟩, ?_,
          List.Perm.refl _, List.Sublist.refl _, fun x hx => .inl hx,
          fun t ht => absurd ht not_mem_nil⟩
        · cases hidle.symm.trans (hflagged.plan plan hsome).1
        · rw [hdata rfl]
          rfl
      · rw [if_neg haspects] at hr
        cases hr
    · rw [if_neg hrate] at hr
      cases hr
      exact hnull
  · rw [if_neg hidle] at hr
    by_cases hok : ServicesInternal.Receive.queueLimitOk s.toState ∧
        (ServicesInternal.Receive.queueSizeOk byteSize s.toState).1 ∧ rateRequestOk
    · simp only [if_pos hok] at hr
      exact comes_recvTimeoutStart h hflagged hidle hnew hr
    · simp only [if_neg hok] at hr
      cases hr
      exact hnull

end

theorem onlyError_handleSend (r : ServiceRequest ι Pid Content) (byteSize : Nat)
    (rateRequestOk aspects : Bool) (s : State ι Pid) :
    OnlyError .stop (handleSend r byteSize rateRequestOk aspects s) := by
  unfold handleSend recvTimeoutStart onQueue
  repeat' split
  all_goals first | exact onlyError_ok _ _ | exact onlyError_error _

/-- A request that comes, as a step of a run. -/
theorem Sound.of_comes (hw : Sound w) (hnew : transId ∉ w.transIds)
    (h : Comes w.state w.waits transId r) :
    Sound { state := r.1
            polls := w.polls
            osProcess := w.osProcess ++ sentBy r.2
            timers := w.timers ++ r.2.filterMap Output.timer?
            accepted := w.accepted ++ r.2.filterMap Output.accepted?
            sent := w.sent ++ idsOf (sentBy r.2)
            timedOut := w.timedOut ++ []
            transIds := [transId] ++ w.transIds : World ι Pid } where
  queued := h.queued
  flagged := by
    show Flagged r.1 ((if w.polls then 0 else 1) + (w.osProcess ++ sentBy r.2).length)
    rw [length_append, ← Nat.add_assoc]
    exact h.flagged
  data := by
    show w.osProcess ++ sentBy r.2 = _
    rw [hw.data]
    exact h.data
  timers := by
    intro t ht
    rcases mem_append.mp ht with ht | ht
    · obtain ⟨hseen, hmatch⟩ := hw.timers t ht
      refine ⟨mem_append_right _ hseen, fun x hx hid => ?_⟩
      rcases h.requests x hx with hx | hx
      · exact hmatch x hx hid
      · exact absurd (hx.symm.trans hid ▸ hseen) hnew
    · obtain ⟨hid, hmatch⟩ := h.timers t ht
      exact ⟨by simp [hid], hid ▸ hmatch⟩
  account := account_append hw.account h.account
  once := by
    refine Once.step (r.2.filterMap Output.accepted?) hw.once perm_append_comm ?_ ?_ ?_
    · exact (nodup_singleton _).sublist h.accepted
    · exact fun x hx => h.accepted.subset hx
    · exact fun x hx => mem_singleton.mp hx ▸ hnew

/-- A timeout message, as a step of a run. -/
theorem Sound.of_timeout (hw : Sound w) (hmem : (priority, transId, size) ∈ w.timers)
    (hr : handleRecvTimeout priority transId size w.state = .ok (removed, s')) :
    Sound { w with
            state := s'
            timedOut := w.timedOut ++ if removed then [transId] else [] } := by
  unfold handleRecvTimeout at hr
  cases hqueue : ServicesInternal.Receive.handleRecvTimeout priority transId size
      w.state.toState with
  | none =>
    rw [hqueue] at hr
    cases hr
  | some q =>
    obtain ⟨_, queueing⟩ := q
    rw [hqueue] at hr
    cases hr
    obtain ⟨-, hmatch⟩ := hw.timers _ hmem
    obtain ⟨hqueued, hbusy, hplan, -, hperm, hsub⟩ :=
      ServicesInternal.Receive.handleRecvTimeout_spec hw.queued
        (fun hidle => (hw.flagged.idle hidle).1) hmatch hqueue
    refine ⟨hqueued, ⟨fun hidle => ?_, hw.flagged.single, fun plan hsome => ?_⟩, hw.data,
      fun t ht => ?_, ?_, hw.once⟩
    · obtain ⟨hnil, hwaits⟩ := hw.flagged.idle (hbusy ▸ hidle)
      refine ⟨eq_nil_iff_forall_not_mem.mpr fun x hx => ?_, hwaits⟩
      have hx' := hsub x hx
      rw [hnil] at hx'
      cases hx'
    · show queueing.queueRequests = true ∧ _
      rw [hbusy]
      exact hw.flagged.plan plan (hplan ▸ hsome)
    · obtain ⟨hseen', hmatch'⟩ := hw.timers t ht
      exact ⟨hseen', fun x hx => hmatch' x (hsub x hx)⟩
    · show (w.sent ++ (w.timedOut ++ _) ++ queuedIds queueing).Perm w.accepted
      refine List.Perm.trans ?_ hw.account
      rw [append_assoc, append_assoc, append_assoc]
      exact (hperm.append_left _).append_left _

theorem onlyError_handleRecvTimeout (priority : Int) (transId : ι) (size : Nat)
    (s : State ι Pid) : OnlyError .stop (handleRecvTimeout priority transId size s) := by
  unfold handleRecvTimeout
  split
  · exact onlyError_ok _ _
  · exact onlyError_error _

/-! ## answers of the OS process -/

variable [DecidableEq Pid]

omit [DecidableEq Pid] in
theorem Sound.ready (hw : Sound w) (hwaits : 0 < w.waits) :
    Ready { w.state with requestData := none } := by
  refine ⟨queued_congr hw.queued rfl rfl rfl, ?_, rfl⟩
  show w.state.queueRequests = true
  rw [← Bool.not_eq_false]
  intro hidle
  have hzero := (hw.flagged.idle hidle).2
  omega

omit [DecidableEq Pid] in
theorem processes_requestDone (hw : Sound w) (hwaits : 0 < w.waits) (aspects : Bool) (a : Answers)
    (hsilent : Silent outs) : Processes w.state (requestDone aspects a outs w.state) := by
  unfold requestDone
  by_cases haspects : aspects = true
  · rw [if_pos haspects]
    exact ((processes_processQueues (hw.ready hwaits) a).congr w.state rfl).withOutputs hsilent
  · rw [if_neg haspects]
    exact processes_stop w.state

theorem processes_handleReturn (hw : Sound w) (hwaits : 0 < w.waits) (m : ReturnMessage ι Pid)
    (requestTimeoutF : Nat → Nat) (aspects : Bool) (a : Answers) :
    Processes w.state (handleReturn m requestTimeoutF aspects a w.state) := by
  unfold handleReturn
  split
  · split
    · refine processes_requestDone hw hwaits aspects a ?_
      split <;> exact ⟨rfl, rfl⟩
    · exact processes_stop w.state
  · exact processes_stop w.state

omit [LinearOrder ι] [DecidableEq Pid] in
theorem silent_forwardOutputs (m : ForwardMessage ι Pid)
    (r : ServiceRequest ι Pid Content) (timeout : Nat) (destination : Destination Pid)
    (options : Options) : Silent (forwardOutputs m r timeout destination options) := by
  unfold forwardOutputs
  split
  case h_1 => exact ⟨rfl, rfl⟩
  case h_2 => exact ⟨rfl, rfl⟩
  all_goals split <;> exact ⟨rfl, rfl⟩

theorem processes_handleForward (hw : Sound w) (hwaits : 0 < w.waits)
    (m : ForwardMessage ι Pid) (requestTimeoutF : Nat → Nat) (destination : Destination Pid)
    (aspects : Bool) (a : Answers) :
    Processes w.state (handleForward m requestTimeoutF destination aspects a w.state) := by
  unfold handleForward
  split
  · split
    · exact processes_requestDone hw hwaits aspects a (silent_forwardOutputs _ _ _ _ _)
    · exact processes_stop w.state
  · exact processes_stop w.state

omit [DecidableEq Pid] in
theorem processes_handlePolling (hw : Sound w) (hpolls : w.polls = false) (aspectsInit : Bool)
    (a : Answers) : Processes w.state (handlePolling aspectsInit a w.state) := by
  have hwaits : w.waits = 1 + w.osProcess.length := by rw [World.waits, hpolls]; rfl
  have hsingle := hw.flagged.single
  have hnil : w.osProcess = [] := eq_nil_of_length_eq_zero (by omega)
  have hdata : w.state.requestData = none := by
    have hsame := hw.data
    rw [hnil] at hsame
    cases hrequest : w.state.requestData with
    | none => rfl
    | some r =>
      rw [hrequest] at hsame
      cases hsame
  have hready := hw.ready (by omega)
  unfold handlePolling
  by_cases haspects : aspectsInit = true
  · rw [if_pos haspects]
    have hprocesses := processes_processQueues ⟨hw.queued, hready.busy, hdata⟩ a
    exact hprocesses.withOutputs ⟨rfl, rfl⟩
  · rw [if_neg haspects]
    exact processes_stop w.state

/-! ## the steps -/

omit [DecidableEq Pid] in
/-- An answer that can come is to the only request that the OS process has. -/
theorem eraseP_of_any (hw : Sound w) (h : w.osProcess.any p = true) :
    w.osProcess.eraseP p = [] ∧ 0 < w.waits ∧ w.polls = true := by
  obtain ⟨r, hmem, hp⟩ := any_eq_true.mp h
  have hwaits : w.waits = (if w.polls then 0 else 1) + w.osProcess.length := rfl
  have hsingle := hw.flagged.single
  have hpos := length_pos_of_mem hmem
  obtain ⟨x, hone⟩ := length_eq_one_iff.mp (by omega : w.osProcess.length = 1)
  rw [hone, mem_singleton] at hmem
  subst hmem
  refine ⟨?_, by omega, ?_⟩
  · rw [hone, eraseP_cons_of_pos hp]
  · by_contra hpolls
    rw [if_neg hpolls] at hwaits
    omega

omit [DecidableEq Pid] in
theorem data_of_waits (hw : Sound w) (hwaits : w.waits = 0) :
    w.osProcess = [] ∧ w.polls = true ∧ w.state.requestData = none := by
  rw [World.waits] at hwaits
  have hnil : w.osProcess = [] := eq_nil_of_length_eq_zero (by omega)
  refine ⟨hnil, ?_, ?_⟩
  · by_contra hpolls
    rw [if_neg hpolls] at hwaits
    omega
  · have hsame := hw.data
    rw [hnil] at hsame
    cases hrequest : w.state.requestData with
    | none => rfl
    | some r =>
      rw [hrequest] at hsame
      cases hsame

omit [LinearOrder ι] [DecidableEq Pid] in
theorem eraseP_false (l : List (ServiceRequest ι Pid Content)) : l.eraseP (fun _ => false) = l :=
  eraseP_of_forall_not fun _ _ => by decide

/-- An event of a sound process does not stop it for its flag or for a timer. -/
theorem Sound.onlyError (hw : Sound w) (hen : Enabled w event = true) :
    OnlyError .stop (handle w.state event) := by
  cases event with
  | polling aspectsInit a =>
    have hpolls : w.polls = false := by simpa [Enabled] using hen
    exact (processes_handlePolling hw hpolls aspectsInit a).error.map
  | returns m requestTimeoutF aspects a =>
    obtain ⟨-, hwaits, -⟩ := eraseP_of_any hw hen
    exact (processes_handleReturn hw hwaits m requestTimeoutF aspects a).error.map
  | forward m requestTimeoutF destination aspects a =>
    obtain ⟨-, hwaits, -⟩ := eraseP_of_any hw hen
    exact (processes_handleForward hw hwaits m requestTimeoutF destination aspects a).error.map
  | send r byteSize rateRequestOk aspects =>
    exact (onlyError_handleSend r byteSize rateRequestOk aspects w.state).map
  | recvTimeout priority transId size =>
    exact (onlyError_handleRecvTimeout priority transId size w.state).map
  | update updatePending sync =>
    have honly : OnlyError .stop (handleUpdate updatePending { sync } w.state) := by
      unfold handleUpdate onQueue
      split
      · exact onlyError_ok _ _
      · exact onlyError_error _
    exact honly.map
  | updateNow updateNow updateStart a =>
    rcases handleUpdateNow_cases hw.queued hw.flagged (fun h => (data_of_waits hw h).2.2)
      updateNow updateStart a with ⟨-, honly⟩ | ⟨-, hprocesses⟩
    · exact honly.map
    · exact hprocesses.error.map

/-- **A step keeps the process sound.** -/
theorem Sound.next {w' : World ι Pid} (hw : Sound w) (hfresh : Fresh w event)
    (h : next w event = some w') : Sound w' := by
  rw [ServicesExternal.next] at h
  by_cases hen : Enabled w event = true
  swap
  · rw [if_neg hen] at h
    cases h
  rw [if_pos hen] at h
  cases hhandle : handle w.state event with
  | error failure =>
    rw [hhandle] at h
    cases h
  | ok x =>
  obtain ⟨removed, r⟩ := x
  rw [hhandle] at h
  cases h
  cases event with
  | polling aspectsInit a =>
    have hpolls : w.polls = false := by simpa [Enabled] using hen
    obtain ⟨r', hr, heq⟩ := ok_of_map hhandle
    cases heq
    have hsound := hw.of_passes ((processes_handlePolling hw hpolls aspectsInit a).ok _ hr)
    have hsingle := hw.flagged.single
    rw [World.waits, hpolls] at hsingle
    have hnil : w.osProcess = [] := eq_nil_of_length_eq_zero (by simpa using hsingle)
    show Sound (World.mk r.1 (w.polls || true) (w.osProcess.eraseP (fun _ => false) ++ _)
      _ _ _ _ _)
    rw [Bool.or_true, eraseP_false, hnil]
    exact hsound
  | returns m requestTimeoutF aspects a =>
    obtain ⟨herase, hwaits, hpolls⟩ := eraseP_of_any hw hen
    obtain ⟨r', hr, heq⟩ := ok_of_map hhandle
    cases heq
    have hprocesses := processes_handleReturn hw hwaits m requestTimeoutF aspects a
    have hsound := hw.of_passes (hprocesses.ok _ hr)
    show Sound (World.mk r.1 (w.polls || false) (w.osProcess.eraseP (fun r => m.Names r) ++ _)
      _ _ _ _ _)
    rw [hpolls, herase]
    exact hsound
  | forward m requestTimeoutF destination aspects a =>
    obtain ⟨herase, hwaits, hpolls⟩ := eraseP_of_any hw hen
    obtain ⟨r', hr, heq⟩ := ok_of_map hhandle
    cases heq
    have hprocesses := processes_handleForward hw hwaits m requestTimeoutF destination aspects a
    have hsound := hw.of_passes (hprocesses.ok _ hr)
    show Sound (World.mk r.1 (w.polls || false) (w.osProcess.eraseP (fun r => m.Names r) ++ _)
      _ _ _ _ _)
    rw [hpolls, herase]
    exact hsound
  | send r' byteSize rateRequestOk aspects =>
    obtain ⟨r'', hr, heq⟩ := ok_of_map hhandle
    cases heq
    have hnew : r'.transId ∉ w.transIds := hfresh _ (mem_singleton_self _)
    have hsound := hw.of_comes hnew (comes_handleSend hw.queued hw.flagged
      (fun h => (data_of_waits hw h).2.2) (fun hmem => hnew (hw.seen hmem)) byteSize
      rateRequestOk aspects hr)
    show Sound (World.mk r.1 (w.polls || false) (w.osProcess.eraseP (fun _ => false) ++ _)
      _ _ _ _ _)
    rw [Bool.or_false, eraseP_false]
    exact hsound
  | recvTimeout priority transId size =>
    obtain ⟨⟨removed', s'⟩, hr, heq⟩ := ok_of_map hhandle
    cases heq
    have hsound := hw.of_timeout (by simpa [Enabled] using hen) hr
    show Sound (World.mk s' (w.polls || false) (w.osProcess.eraseP (fun _ => false) ++ [])
      (w.timers ++ []) (w.accepted ++ []) (w.sent ++ []) _ w.transIds)
    rw [Bool.or_false, eraseP_false, append_nil, append_nil, append_nil,
      append_nil]
    exact hsound
  | update updatePending sync =>
    obtain ⟨r', hr, heq⟩ := ok_of_map hhandle
    cases heq
    obtain ⟨hkeeps, hflagged⟩ := keeps_handleUpdate hw.flagged updatePending _ hr
    have hsound := hw.of_keeps hkeeps hflagged
    show Sound (World.mk r.1 (w.polls || false) (w.osProcess.eraseP (fun _ => false) ++ _)
      _ _ _ _ _)
    rw [Bool.or_false, eraseP_false]
    exact hsound
  | updateNow updateNow updateStart a =>
    obtain ⟨r', hr, heq⟩ := ok_of_map hhandle
    cases heq
    show Sound (World.mk r.1 (w.polls || false) (w.osProcess.eraseP (fun _ => false) ++ _)
      _ _ _ _ _)
    rw [Bool.or_false, eraseP_false]
    rcases handleUpdateNow_cases hw.queued hw.flagged (fun h => (data_of_waits hw h).2.2)
      updateNow updateStart a with ⟨hkeeps, -⟩ | ⟨hwaits, hprocesses⟩
    · obtain ⟨hkeeps, hflagged⟩ := hkeeps r hr
      exact hw.of_keeps hkeeps hflagged
    · obtain ⟨hnil, hpolls, -⟩ := data_of_waits hw hwaits
      rw [hnil, hpolls]
      exact hw.of_passes (hprocesses.ok r hr)

/-- **The OS process has one request at most, and every accepted request is sent once or timed
out once**: in every run an idle process has nothing queued and nothing at the OS process;
`request_data` is the one request that is there; the timers are those of the queued requests
and the size is theirs; no event finds `process_queue` entered without the flag, or a queued
request without its timer; and the accepted requests, which all differ, are those sent, those
timed out and those that are queued. -/
theorem sent_once {w : World ι Pid} {events : List (Event ι Pid)}
    (h : Steps next Fresh (World.init options) events w) :
    (w.state.queueRequests = false → requests w.state.toState = [] ∧ w.osProcess = []) ∧
    (w.osProcess.length ≤ 1 ∧ w.osProcess = w.state.requestData.toList) ∧
    (∀ transId, (Maps.find transId w.state.recvTimeouts).isSome ↔
      transId ∈ queuedIds w.state.toState) ∧
    w.state.queuedSize = totalSize w.state.toState ∧
    (∀ event, Enabled w event = true → ∀ failure, handle w.state event = .error failure →
      failure ≠ .processQueue ∧ failure ≠ .badkey) ∧
    (w.sent ++ w.timedOut ++ queuedIds w.state.toState).Perm w.accepted ∧ w.accepted.Nodup := by
  have hw : Sound w := h.invariant (fun _ _ _ hs hfresh hstep => hs.next hfresh hstep)
    (sound_init options)
  have hsingle := hw.flagged.single
  rw [World.waits] at hsingle
  refine ⟨fun hidle => ?_, ⟨by omega, hw.data⟩, hw.queued.timers, hw.queued.size, ?_, hw.account,
    hw.once.nodup⟩
  · obtain ⟨hnil, hwaits⟩ := hw.flagged.idle hidle
    exact ⟨hnil, (data_of_waits hw hwaits).1⟩
  · intro event hen failure hfailure
    rw [hw.onlyError hen failure hfailure]
    decide

/-- An OS process polls; of three requests one is sent at once, one is queued and times out,
and one is queued, sent behind an update and forwarded. -/
def threeRequests : List (Event Nat Nat) :=
  let a : Answers := ⟨fun _ => some 7, true, some ⟨none, some 90, 0⟩⟩
  let content : Content := ⟨[47, 97], [47, 97], some [], some [1]⟩
  [.polling true a, .send ⟨.sync, content, 9, 0, 1, 0⟩ 10 true true,
    .send ⟨.async, content, 9, 5, 2, 0⟩ 10 true true,
    .send ⟨.async, content, 9, -5, 3, 0⟩ 10 true true, .recvTimeout 5 2 10, .update 4 true,
    .updateNow 4 true a, .returns ⟨.sync, [47, 97], [47, 97], [], [2], 9, 1, 0⟩ id true a,
    .recvTimeout (-5) 3 10, .forward ⟨.async, [47, 98], [], [1], 7, 0, 3, 0⟩ id (.found [47] 5) true a]

theorem sent_once_threeRequests :
    ∃ w, run next (World.init ⟨none, some 100, 0⟩) threeRequests = some w ∧
      w.sent = [1, 3] ∧ w.timedOut = [2] ∧ w.accepted = [1, 2, 3] ∧
      w.state.queuedSize = totalSize w.state.toState := by
  have hrun : (run (checked next Fresh) (World.init ⟨none, some 100, 0⟩) threeRequests).map
      (fun w => (w.sent, w.timedOut, w.accepted)) = some ([1, 3], [2], [1, 2, 3]) := by
    decide +kernel
  obtain ⟨w, hw, heq⟩ := Option.map_eq_some_iff.mp hrun
  have hsteps := steps_of_checked hw
  obtain ⟨hsent, htimed, haccepted⟩ : w.sent = [1, 3] ∧ w.timedOut = [2] ∧
      w.accepted = [1, 2, 3] := by simpa using heq
  exact ⟨w, hsteps.run_eq, hsent, htimed, haccepted, (sent_once hsteps).2.2.2.1⟩

end CloudI.ServicesExternal
