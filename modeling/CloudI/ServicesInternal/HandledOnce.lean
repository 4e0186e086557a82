import CloudI.ServicesInternal.ReceiveQueue
import CloudI.Library.Run

/-!
# ServicesInternal.HandledOnce

Every queued request is handled once or times out once, in every run of the dispatcher and of
the `duo_mode` process.  `Passes` says what every function that processes the queues does; a
step of a run is put together from it.
-/

namespace CloudI.ServicesInternal.Receive

open Run Tickets Pqueue4 List Option
open Option (some.inj some.injEq)

variable {ι Pid κ Info : Type} [LinearOrder ι]

/-- The jobs that outputs start. -/
def startedJobs (mode : Mode) (outs : List (Output ι Pid κ Info)) : List (Job ι) :=
  outs.filterMap (Output.job? mode)

/-- **The busy flag**: an idle process has nothing queued and no job, there is one job at most,
and an update plan that is not busy holds the flag without a job. -/
structure Flagged (s : State ι Pid κ Info) (jobs : List (Job ι)) : Prop where
  idle : s.queueRequests = false → requests s = [] ∧ s.queuedInfo = [] ∧ jobs = []
  single : jobs.length ≤ 1
  plan : ∀ plan, s.updatePlan = some plan →
    s.queueRequests = true ∧ (plan.queueRequests = some false → jobs = [])

/-- **What the processing of the queues does**, with these jobs left: requests leave the queue
by being handed on, in order, and the flag is right. -/
structure Passes (mode : Mode) (s : State ι Pid κ Info) (jobs : List (Job ι))
    (r : Result ι Pid κ Info) : Prop where
  queued : Queued r.1
  flagged : Flagged r.1 (jobs ++ startedJobs mode r.2)
  account : (r.2.filterMap Output.request? ++ queuedIds r.1).Perm (queuedIds s)
  sublist : ∀ x ∈ requests r.1, x ∈ requests s
  timers : r.2.filterMap Output.timer? = []

omit [LinearOrder ι] in
@[simp] theorem startedJobs_nil (mode : Mode) :
    startedJobs mode ([] : List (Output ι Pid κ Info)) = [] := rfl

/-- Outputs that start no job and hand no request on. -/
structure Silent (mode : Mode) (outs : List (Output ι Pid κ Info)) : Prop where
  jobs : startedJobs mode outs = []
  requests : outs.filterMap Output.request? = []
  timers : outs.filterMap Output.timer? = []

omit [LinearOrder ι] in
theorem silent_nil (mode : Mode) : Silent mode ([] : List (Output ι Pid κ Info)) :=
  ⟨rfl, rfl, rfl⟩

variable {outs : List (Output ι Pid κ Info)} {r : Result ι Pid κ Info}
  {s s' : State ι Pid κ Info} {mode : Mode} {w : World ι Pid κ Info}

theorem Passes.withOutputs (h : Passes mode s jobs r) (hsilent : Silent mode outs) :
    Passes mode s jobs (withOutputs outs r) := by
  have hjobs : startedJobs mode (outs ++ r.2) = startedJobs mode r.2 := by
    rw [startedJobs, filterMap_append]
    exact (congrArg (· ++ _) hsilent.jobs).trans (nil_append _)
  refine ⟨h.queued, ?_, ?_, h.sublist, ?_⟩
  · show Flagged r.1 (jobs ++ startedJobs mode (outs ++ r.2))
    rw [hjobs]
    exact h.flagged
  · show ((outs ++ r.2).filterMap _ ++ _).Perm _
    rw [filterMap_append, hsilent.requests]
    exact h.account
  · show (outs ++ r.2).filterMap _ = _
    rw [filterMap_append, hsilent.timers, h.timers]
    rfl

theorem Passes.of_same (hqueued : Queued s') (hsame : s'.queued = s.queued)
    (hflagged : Flagged s' (jobs ++ startedJobs mode outs))
    (hrequests : outs.filterMap Output.request? = [])
    (htimers : outs.filterMap Output.timer? = []) : Passes mode s jobs (s', outs) := by
  have hreq : requests s' = requests s := by rw [requests, requests, hsame]
  refine ⟨hqueued, hflagged, ?_, fun x hx => hreq ▸ hx, htimers⟩
  show (outs.filterMap _ ++ queuedIds s').Perm _
  rw [hrequests, queuedIds, queuedIds, hreq]
  exact List.Perm.refl _

theorem Passes.congr (h : Passes mode s' jobs r) (s : State ι Pid κ Info)
    (hsame : s'.queued = s.queued) : Passes mode s jobs r := by
  have hreq : requests s' = requests s := by rw [requests, requests, hsame]
  have hids : queuedIds s' = queuedIds s := by rw [queuedIds, queuedIds, hreq]
  exact ⟨h.queued, h.flagged, hids ▸ h.account, fun x hx => hreq ▸ h.sublist x hx, h.timers⟩

theorem Queued.congr (h : Queued s) (hs' : s' = { s with
      updatePlan := s'.updatePlan
      queueRequests := s'.queueRequests
      queuedInfo := s'.queuedInfo
      options := s'.options }) : Queued s' := by
  rw [hs']
  exact ⟨h.cached, h.place, h.nodup, h.timers, h.size⟩

/-! ## the queues -/

/-- A process that may take the next message: it holds the flag and has no update plan. -/
structure Ready (s : State ι Pid κ Info) : Prop where
  queued : Queued s
  busy : s.queueRequests = true
  plan : s.updatePlan = none

theorem passes_processQueue (mode : Mode) (h : Ready s) (hinfo : s.queuedInfo = [])
    (cancel : TimerRef → Option Nat) :
    ∃ r, processQueue cancel s = some r ∧ Passes mode s [] r := by
  rcases processQueue_spec h.queued h.busy cancel with
    ⟨q, heq, hnil, hqueued, hnil'⟩ | ⟨x, tref, s', heq, hqueued, hperm, hbusy, hplan, hinfo'⟩
  · refine ⟨_, heq, hqueued, ⟨fun _ => ⟨hnil', hinfo, rfl⟩, Nat.zero_le 1, ?_⟩, ?_, ?_, rfl⟩
    · intro plan hsome
      cases h.plan.symm.trans hsome
    · show ([] ++ queuedIds _).Perm _
      rw [queuedIds, queuedIds, hnil, hnil']
      exact List.Perm.refl _
    · intro x hx
      rw [hnil'] at hx
      cases hx
  · refine ⟨_, heq, hqueued, ⟨?_, Nat.le_refl 1, ?_⟩, ?_, ?_, rfl⟩
    · intro hidle
      cases hbusy.symm.trans hidle
    · intro plan hsome
      cases (hplan.trans h.plan).symm.trans hsome
    · exact (hperm.map fun y => y.2.transId).symm
    · exact fun y hy => hperm.mem_iff.mpr (mem_cons_of_mem x hy)

/-- What the taking of info messages does: the process is idle with none left, or its info
process has one. -/
theorem queueInfo_spec (mode : Mode) (infoOk : Info → Bool) (hbusy : s.queueRequests = true)
    (hr : queueInfo mode infoOk s = some r) :
    ∃ outs, r = ({ s with queueRequests := false, queuedInfo := [] }, outs) ∧ Silent mode outs ∨
      ∃ i queuedInfo, r = ({ s with queuedInfo }, [.info i]) ∧ mode = .dispatcher := by
  cases mode with
  | dispatcher =>
    replace hr : processQueueInfo s = some r := hr
    rw [processQueueInfo, if_pos hbusy] at hr
    cases hinfo : s.queuedInfo with
    | nil =>
      rw [hinfo] at hr
      cases hr
      rw [← hinfo]
      exact ⟨[], .inl ⟨rfl, silent_nil _⟩⟩
    | cons i l =>
      rw [hinfo] at hr
      cases hr
      exact ⟨[], .inr ⟨i, l, rfl, rfl⟩⟩
  | duo =>
    replace hr : duoProcessQueueInfo infoOk s = some r := hr
    rw [duoProcessQueueInfo, if_pos hbusy] at hr
    generalize s.queuedInfo = l at hr
    induction l generalizing r with
    | nil =>
      cases hr
      exact ⟨[], .inl ⟨rfl, silent_nil _⟩⟩
    | cons i l ih =>
      rw [duoProcessQueueInfoLoop] at hr
      by_cases hok : infoOk i
      · rw [if_pos hok] at hr
        obtain ⟨r', hr', rfl⟩ := map_eq_some_iff.mp hr
        obtain ⟨outs, ⟨rfl, hsilent⟩ | ⟨j, info, -, hmode⟩⟩ := ih hr'
        · exact ⟨.info i :: outs, .inl ⟨rfl, hsilent.jobs, hsilent.requests, hsilent.timers⟩⟩
        · cases hmode
      · rw [if_neg hok] at hr
        cases hr

theorem passes_processQueuesIdle (mode : Mode) (h : Ready s) (infoOk : Info → Bool)
    (cancel : TimerRef → Option Nat)
    (hr : processQueuesIdle (queueInfo mode infoOk) cancel s = some r) : Passes mode s [] r := by
  obtain ⟨r1, hr1, hrest⟩ := bind_eq_some_iff.mp hr
  obtain ⟨outs, ⟨rfl, hsilent⟩ | ⟨i, queuedInfo, rfl, rfl⟩⟩ := queueInfo_spec mode infoOk h.busy hr1
  · obtain ⟨r2, hr2, rfl⟩ := map_eq_some_iff.mp hrest
    have hready : Ready { s with queueRequests := true, queuedInfo := [] } :=
      ⟨h.queued.congr rfl, rfl, h.plan⟩
    obtain ⟨r3, hr3, hpasses⟩ := passes_processQueue mode hready rfl cancel
    obtain rfl : r3 = r2 := some.inj (hr3.symm.trans hr2)
    exact (hpasses.congr s rfl).withOutputs hsilent
  · have hbusy : ¬ s.queueRequests = false := by rw [h.busy]; decide
    simp only [if_neg hbusy, some.injEq] at hrest
    subst hrest
    refine .of_same (h.queued.congr rfl) rfl ⟨?_, Nat.le_refl 1, ?_⟩ rfl rfl
    · intro hidle
      cases h.busy.symm.trans hidle
    · intro plan hsome
      cases h.plan.symm.trans hsome

/-! ## updates -/

/-- A process that may take the next message, with whatever update plan. -/
structure Waiting (s : State ι Pid κ Info) : Prop where
  queued : Queued s
  busy : s.queueRequests = true

theorem passes_processUpdate (mode : Mode) (h : Waiting s) (infoOk : Info → Bool)
    (cancel : TimerRef → Option Nat) (updated : Option Options)
    (hr : processUpdate (queueInfo mode infoOk) cancel updated s = some r) :
    Passes mode s [] r := by
  unfold processUpdate at hr
  split at hr
  · obtain ⟨r1, hr1, rfl⟩ := map_eq_some_iff.mp hr
    have hready : Ready { s with options := updated.getD s.options, updatePlan := none } :=
      ⟨h.queued.congr rfl, h.busy, rfl⟩
    have hpasses := passes_processQueuesIdle mode hready infoOk cancel hr1
    exact (hpasses.congr s rfl).withOutputs ⟨rfl, rfl, rfl⟩
  · cases hr

theorem passes_processQueuesWith (mode : Mode) (h : Waiting s) (infoOk : Info → Bool)
    (cancel : TimerRef → Option Nat) (updated : Option Options)
    (hr : processQueuesWith (queueInfo mode infoOk) cancel updated s = some r) :
    Passes mode s [] r := by
  unfold processQueuesWith at hr
  cases hplan : s.updatePlan with
  | none =>
    rw [hplan] at hr
    exact passes_processQueuesIdle mode ⟨h.queued, h.busy, hplan⟩ infoOk cancel hr
  | some plan =>
    have hsilent : Silent mode (plan.updatePending.toList.map Output.update :
        List (Output ι Pid κ Info)) := by
      cases plan.updatePending <;> exact ⟨rfl, rfl, rfl⟩
    rw [hplan] at hr
    cases hnow : plan.updateNow with
    | some updateNow =>
      simp only [hnow] at hr
      obtain ⟨r1, hr1, rfl⟩ := map_eq_some_iff.mp hr
      have hwaiting : Waiting { s with
          updatePlan := some { plan with
                               updatePending := none
                               updateNow := some updateNow
                               queueRequests := some false } } :=
        ⟨h.queued.congr rfl, h.busy⟩
      have hpasses := passes_processUpdate mode hwaiting infoOk cancel updated hr1
      exact (hpasses.congr s rfl).withOutputs hsilent
    | none =>
      simp only [hnow, some.injEq] at hr
      subst hr
      refine .of_same (h.queued.congr rfl) rfl ⟨?_, ?_, ?_⟩ hsilent.requests hsilent.timers
      · intro hidle
        cases h.busy.symm.trans hidle
      · rw [hsilent.jobs]
        exact Nat.zero_le 1
      · rw [hsilent.jobs]
        exact fun _ _ => ⟨h.busy, fun _ => rfl⟩

theorem passes_handleUpdate (mode : Mode) (h : Queued s) (hflagged : Flagged s jobs)
    (updatePending : Pid) (plan : UpdatePlan Pid)
    (hr : handleUpdate updatePending plan s = some r) : Passes mode s jobs r := by
  unfold handleUpdate at hr
  cases hplan : s.updatePlan with
  | some plan' =>
    rw [hplan] at hr
    cases hr
  | none =>
    have hnew : ∀ plan' : UpdatePlan Pid, plan'.queueRequests = some s.queueRequests →
        Flagged { s with updatePlan := some plan', queueRequests := true } jobs := by
      intro plan' hbusy
      refine ⟨nofun, hflagged.single, fun plan'' hsome => ⟨rfl, fun hidle => ?_⟩⟩
      cases hsome
      exact (hflagged.idle (some.inj (hbusy.symm.trans hidle))).2.2
    rw [hplan] at hr
    by_cases hsync : plan.sync = true ∧ s.queueRequests = true
    · simp only [if_pos hsync, some.injEq] at hr
      subst hr
      refine .of_same (h.congr rfl) rfl ?_ rfl rfl
      rw [startedJobs_nil, append_nil]
      exact hnew _ rfl
    · simp only [if_neg hsync, some.injEq] at hr
      subst hr
      refine .of_same (h.congr rfl) rfl ?_ rfl rfl
      rw [show startedJobs mode [(.update updatePending : Output ι Pid κ Info)] = []
        from rfl, append_nil]
      exact hnew _ rfl

theorem passes_handleUpdateNow (mode : Mode) (h : Queued s) (hflagged : Flagged s jobs)
    (infoOk : Info → Bool) (cancel : TimerRef → Option Nat) (updated : Option Options)
    (updateNow : Pid) (updateStart : Bool)
    (hr : handleUpdateNow (queueInfo mode infoOk) cancel updated updateNow updateStart s = some r) :
    Passes mode s jobs r := by
  unfold handleUpdateNow at hr
  cases hplan : s.updatePlan with
  | none =>
    rw [hplan] at hr
    cases hr
  | some plan =>
    obtain ⟨hbusy, hjobs⟩ := hflagged.plan plan hplan
    rw [hplan] at hr
    cases hqueue : plan.queueRequests with
    | none =>
      simp only [hqueue] at hr
      cases hr
    | some busy =>
      cases busy with
      | true =>
        simp only [hqueue, some.injEq] at hr
        subst hr
        refine .of_same (h.congr rfl) rfl ⟨?_, ?_, ?_⟩ rfl rfl
        · intro hidle
          cases hbusy.symm.trans hidle
        · rw [startedJobs_nil, append_nil]
          exact hflagged.single
        · intro plan' hsome
          cases hsome
          exact ⟨hbusy, nofun⟩
      | false =>
        simp only [hqueue] at hr
        rw [hjobs hqueue]
        have hwaiting : Waiting { s with
            updatePlan := some { plan with
                                 updateNow := some updateNow
                                 updateStart
                                 queueRequests := some false } } :=
          ⟨h.congr rfl, hbusy⟩
        exact (passes_processUpdate mode hwaiting infoOk cancel updated hr).congr s rfl

/-! ## info messages -/

theorem passes_infoMessage (mode : Mode) (h : Queued s) (hflagged : Flagged s jobs)
    (infoOk : Info → Bool) (i : Info) (hr : infoMessage mode infoOk i s = some r) :
    Passes mode s jobs r := by
  by_cases hbusy : s.queueRequests = true
  · have hr' : r = ({ s with queuedInfo := s.queuedInfo ++ [i] }, []) := by
      cases mode with
      | dispatcher =>
        replace hr : some (handleInfoMessage i s) = some r := hr
        rw [handleInfoMessage, if_pos hbusy] at hr
        exact (some.inj hr).symm
      | duo =>
        replace hr : duoHandleInfoMessage infoOk i s = some r := hr
        rw [duoHandleInfoMessage, if_pos hbusy] at hr
        exact (some.inj hr).symm
    subst hr'
    refine .of_same (h.congr rfl) rfl ?_ rfl rfl
    rw [startedJobs_nil, append_nil]
    refine ⟨fun hidle => ?_, hflagged.single, hflagged.plan⟩
    cases hbusy.symm.trans hidle
  · have hfree : s.queueRequests = false := by simpa using hbusy
    obtain ⟨-, hinfo, rfl⟩ := hflagged.idle hfree
    cases mode with
    | dispatcher =>
      replace hr : some (handleInfoMessage i s) = some r := hr
      rw [handleInfoMessage, if_neg hbusy] at hr
      cases hr
      refine .of_same (h.congr rfl) rfl ⟨nofun, Nat.le_refl 1, fun plan hsome => ?_⟩ rfl rfl
      exact absurd (hflagged.plan plan hsome).1 hbusy
    | duo =>
      replace hr : duoHandleInfoMessage infoOk i s = some r := hr
      rw [duoHandleInfoMessage, if_neg hbusy] at hr
      by_cases hok : infoOk i
      · rw [if_pos hok] at hr
        cases hr
        exact .of_same h rfl hflagged rfl rfl
      · rw [if_neg hok] at hr
        cases hr

/-! ## requests -/

/-- **What a request that comes does**: it is handed on, queued, or turned away. -/
structure Comes (mode : Mode) (s : State ι Pid κ Info) (jobs : List (Job ι))
    (transId : ι) (r : Result ι Pid κ Info) : Prop where
  queued : Queued r.1
  flagged : Flagged r.1 (jobs ++ startedJobs mode r.2)
  account : (r.2.filterMap Output.request? ++ queuedIds r.1).Perm
    (r.2.filterMap Output.accepted? ++ queuedIds s)
  accepted : (r.2.filterMap Output.accepted?).Sublist [transId]
  timers : ∀ x ∈ requests r.1, x ∈ requests s ∨ x.2.transId = transId
  timer : ∀ t ∈ r.2.filterMap Output.timer?, t.2.1 = transId ∧
    ∀ x ∈ requests r.1, x.2.transId = transId → x.2.priority = t.1 ∧ x.1 = t.2.2

/-- A request that is turned away. -/
theorem comes_returnNull (mode : Mode) (h : Queued s) (hflagged : Flagged s jobs)
    (r : ServiceRequest ι Pid κ) : Comes mode s jobs r.transId (s, returnNull r s.options) := by
  have hnull : ∀ {β : Type} (f : Output ι Pid κ Info → Option β),
      f (.returnNull r) = none → (returnNull r s.options).filterMap f = [] := by
    intro β f hf
    unfold returnNull
    by_cases hmax : s.options.responseTimeoutImmediateMax ≤ r.timeout
    · rw [if_pos hmax]
      exact filterMap_cons_none hf
    · rw [if_neg hmax]
      rfl
  refine ⟨h, ?_, ?_, ?_, fun x hx => .inl hx, ?_⟩
  · show Flagged s (jobs ++ startedJobs mode (returnNull r s.options))
    rw [startedJobs, hnull _ rfl, append_nil]
    exact hflagged
  · show ((returnNull r s.options).filterMap _ ++ _).Perm ((returnNull r s.options).filterMap _ ++ _)
    rw [hnull _ rfl, hnull _ rfl]
  · show ((returnNull r s.options).filterMap _).Sublist _
    rw [hnull _ rfl]
    exact nil_sublist _
  · show ∀ t ∈ (returnNull r s.options).filterMap _, _
    rw [hnull _ rfl]
    exact fun t ht => absurd ht not_mem_nil

theorem comes_handleSendWith (mode : Mode) (h : Queued s) (hflagged : Flagged s jobs)
    {r : ServiceRequest ι Pid κ} (hnew : r.transId ∉ queuedIds s) (byteSize : Nat)
    (rateRequestOk : Bool)
    (hr : handleSendWith timeoutStart r byteSize rateRequestOk s = some result) :
    Comes mode s jobs r.transId result := by
  unfold handleSendWith at hr
  by_cases hfree : s.queueRequests = false
  · rw [if_pos hfree] at hr
    by_cases hrate : rateRequestOk = true
    · rw [if_pos hrate, some.injEq] at hr
      subst hr
      obtain ⟨hnil, -, rfl⟩ := hflagged.idle hfree
      refine ⟨h.congr rfl, ⟨nofun, Nat.le_refl 1, fun plan hsome => ?_⟩, List.Perm.refl _,
        List.Sublist.refl _, fun x hx => .inl hx, fun t ht => absurd ht not_mem_nil⟩
      cases hfree.symm.trans (hflagged.plan plan hsome).1
    · rw [if_neg hrate, some.injEq] at hr
      subst hr
      exact comes_returnNull mode h hflagged r
  · rw [if_neg hfree] at hr
    by_cases hzero : r.timeout = 0
    · rw [if_pos hzero, some.injEq] at hr
      subst hr
      exact comes_returnNull mode h hflagged r
    · rw [if_neg hzero] at hr
      simp only at hr
      by_cases hok : queueLimitOk s ∧ (queueSizeOk byteSize s).1 ∧ rateRequestOk
      · rw [if_pos hok] at hr
        obtain ⟨hqueued, hperm, houts, hbusy, hplan, hinfo⟩ := timeoutStart_spec h hnew hr
        obtain ⟨s', outs⟩ := result
        subst houts
        replace hbusy : s'.queueRequests = s.queueRequests := hbusy
        refine ⟨hqueued, ?_, ?_, List.Sublist.refl _, fun x hx => ?_, fun t ht => ?_⟩
        · show Flagged s' (jobs ++ [])
          rw [append_nil]
          refine ⟨fun hidle => absurd (hbusy ▸ hidle) hfree, hflagged.single, ?_⟩
          intro plan hsome
          rw [hbusy]
          exact hflagged.plan plan (hplan ▸ hsome)
        · exact hperm.map fun x => x.2.transId
        · rcases mem_cons.mp (hperm.mem_iff.mp hx) with rfl | hx
          · exact .inr rfl
          · exact .inl hx
        · obtain rfl := mem_singleton.mp ht
          refine ⟨rfl, fun x hx hid => ?_⟩
          rcases mem_cons.mp (hperm.mem_iff.mp hx) with rfl | hx
          · exact ⟨rfl, rfl⟩
          · exact absurd (hid ▸ List.mem_map_of_mem hx) hnew
      · rw [if_neg hok, some.injEq] at hr
        subst hr
        exact comes_returnNull mode h hflagged r

/-! ## runs -/

/-- **What holds in every reachable state**: the queue is in order, the flag is right, the timers
that were started know their requests, and each accepted request is handed on, timed out or
queued. -/
structure Sound (w : World ι Pid κ Info) : Prop where
  queued : Queued w.state
  flagged : Flagged w.state w.jobs
  timers : ∀ t ∈ w.timers, t.2.1 ∈ w.transIds ∧
    ∀ x ∈ requests w.state, x.2.transId = t.2.1 → x.2.priority = t.1 ∧ x.1 = t.2.2
  account : (w.handled ++ w.timedOut ++ queuedIds w.state).Perm w.accepted
  once : Once w.transIds w.accepted

theorem sound_init (options : Options) : Sound (World.init options : World ι Pid κ Info) := by
  have hcontents : ∀ p,
      contents (World.init options : World ι Pid κ Info).state.queued p = [] :=
    fun p => congrFun contents_new p
  have hnil : requests (World.init options : World ι Pid κ Info).state = [] := by
    refine eq_nil_iff_forall_not_mem.mpr fun x hx => ?_
    obtain ⟨p, hx⟩ := mem_requests.mp hx
    rw [hcontents] at hx
    cases hx
  have hids : queuedIds (World.init options : World ι Pid κ Info).state = [] := by
    rw [queuedIds, hnil]
    rfl
  refine ⟨⟨cached_new, fun p x hx => ?_, ?_, fun transId => ?_, ?_⟩,
    ⟨(fun h => by cases h), Nat.le_refl 1, fun _ h => by cases h⟩, fun t ht => absurd ht not_mem_nil, ?_, once_nil _⟩
  · rw [hcontents] at hx
    cases hx
  · rw [hids]
    exact nodup_nil
  · rw [hids]
    simp [World.init]
  · rw [totalSize, hnil]
    rfl
  · rw [hids]
    exact List.Perm.refl _

theorem Sound.seen (hw : Sound w) (h : transId ∈ queuedIds w.state) : transId ∈ w.transIds :=
  hw.once.of_issued _ (hw.account.mem_iff.mp (mem_append_right _ h))

/-- What leaves the queue is handed on, and what is accepted is handed on or queued. -/
theorem account_append (h : (handled ++ timedOut ++ queue).Perm accepted)
    (hids : (ids ++ queue').Perm (l ++ queue)) :
    ((handled ++ ids) ++ (timedOut ++ []) ++ queue').Perm (accepted ++ l) := by
  rw [append_nil]
  refine List.Perm.trans ?_ (h.append_right l)
  rw [append_assoc, append_assoc, append_assoc, append_assoc]
  refine List.Perm.append_left _ ?_
  rw [← append_assoc]
  refine (perm_append_comm.append_right _).trans ?_
  rw [append_assoc]
  exact (hids.trans perm_append_comm).append_left _

/-- The processing of the queues, as a step of a run. -/
theorem Sound.of_passes (hw : Sound w) (h : Passes mode w.state jobs r) :
    Sound { state := r.1
            jobs := jobs ++ startedJobs mode r.2
            timers := w.timers ++ r.2.filterMap Output.timer?
            accepted := w.accepted ++ []
            handled := w.handled ++ r.2.filterMap Output.request?
            timedOut := w.timedOut ++ []
            transIds := [] ++ w.transIds : World ι Pid κ Info } := by
  refine ⟨h.queued, h.flagged, fun t ht => ?_, ?_, ?_⟩
  · replace ht : t ∈ w.timers ++ r.2.filterMap Output.timer? := ht
    rw [h.timers, append_nil] at ht
    obtain ⟨hseen, hmatch⟩ := hw.timers t ht
    exact ⟨hseen, fun x hx => hmatch x (h.sublist x hx)⟩
  · exact account_append (l := []) hw.account h.account
  · show Once w.transIds (w.accepted ++ [])
    rw [append_nil]
    exact hw.once

/-- A request that comes, as a step of a run. -/
theorem Sound.of_comes (hw : Sound w) (hnew : transId ∉ w.transIds)
    (h : Comes mode w.state w.jobs transId r) :
    Sound { state := r.1
            jobs := w.jobs ++ startedJobs mode r.2
            timers := w.timers ++ r.2.filterMap Output.timer?
            accepted := w.accepted ++ r.2.filterMap Output.accepted?
            handled := w.handled ++ r.2.filterMap Output.request?
            timedOut := w.timedOut ++ []
            transIds := [transId] ++ w.transIds : World ι Pid κ Info } := by
  refine ⟨h.queued, h.flagged, fun t ht => ?_, ?_, ?_⟩
  · rcases mem_append.mp ht with ht | ht
    · obtain ⟨hseen, hmatch⟩ := hw.timers t ht
      refine ⟨mem_append_right _ hseen, fun x hx hid => ?_⟩
      rcases h.timers x hx with hx | hx
      · exact hmatch x hx hid
      · exact absurd (hx.symm.trans hid ▸ hseen) hnew
    · obtain ⟨hid, hmatch⟩ := h.timer t ht
      exact ⟨by simp [hid], hid ▸ hmatch⟩
  · exact account_append hw.account h.account
  · refine Once.step (r.2.filterMap Output.accepted?) hw.once perm_append_comm ?_ ?_ ?_
    · exact (nodup_singleton _).sublist h.accepted
    · exact fun x hx => h.accepted.subset hx
    · exact fun x hx => mem_singleton.mp hx ▸ hnew

/-- A timeout message, as a step of a run. -/
theorem Sound.of_timeout (hw : Sound w) (hmem : (priority, transId, size) ∈ w.timers)
    (hr : handleRecvTimeout priority transId size w.state = some (removed, s')) :
    Sound { w with
            state := s'
            timedOut := w.timedOut ++ if removed then [transId] else [] } := by
  obtain ⟨hseen, hmatch⟩ := hw.timers _ hmem
  obtain ⟨hqueued, hbusy, hplan, hinfo, hperm, hsub⟩ := handleRecvTimeout_spec hw.queued
    (fun hidle => (hw.flagged.idle hidle).1) hmatch hr
  refine ⟨hqueued, ⟨fun hidle => ?_, hw.flagged.single, fun plan hsome => ?_⟩, fun t ht => ?_, ?_,
    hw.once⟩
  · obtain ⟨hnil, hinfo', hjobs⟩ := hw.flagged.idle (hbusy ▸ hidle)
    refine ⟨eq_nil_iff_forall_not_mem.mpr fun x hx => ?_, hinfo.trans hinfo', hjobs⟩
    have hx' := hsub x hx
    rw [hnil] at hx'
    cases hx'
  · rw [hbusy]
    exact hw.flagged.plan plan (hplan ▸ hsome)
  · obtain ⟨hseen', hmatch'⟩ := hw.timers t ht
    exact ⟨hseen', fun x hx => hmatch' x (hsub x hx)⟩
  · show (w.handled ++ (w.timedOut ++ _) ++ queuedIds s').Perm w.accepted
    refine List.Perm.trans ?_ hw.account
    rw [append_assoc, append_assoc, append_assoc]
    exact (hperm.append_left _).append_left _

/-- **A step keeps the process sound.** -/
theorem Sound.next {w' : World ι Pid κ Info} (hw : Sound w) (hfresh : Fresh w event)
    (h : next mode w event = some w') : Sound w' := by
  have hwaiting : ∀ job ∈ w.jobs, Waiting w.state ∧ w.jobs.erase job = [] := by
    intro job hjob
    refine ⟨⟨hw.queued, ?_⟩, ?_⟩
    · cases hbusy : w.state.queueRequests with
      | true => rfl
      | false =>
        rw [(hw.flagged.idle hbusy).2.2] at hjob
        cases hjob
    · have hlen := length_erase_of_mem hjob
      have hsingle := hw.flagged.single
      exact eq_nil_of_length_eq_zero (by omega)
  rw [Receive.next] at h
  by_cases hen : Enabled w event = true
  swap
  · rw [if_neg hen] at h
    cases h
  rw [if_pos hen] at h
  obtain ⟨⟨removed, state, outs⟩, hhandle, rfl⟩ := map_eq_some_iff.mp h
  cases event with
  | done job a =>
    obtain ⟨hwait, herase⟩ := hwaiting job (by simpa [Enabled] using hen)
    obtain ⟨r, hr, heq⟩ := map_eq_some_iff.mp hhandle
    cases heq
    have hpasses := passes_processQueuesWith mode hwait a.infoOk a.cancel a.updated hr
    have hsound := hw.of_passes hpasses
    rw [← herase] at hsound
    exact hsound
  | send r byteSize rateRequestOk =>
    have hnew : r.transId ∉ w.transIds := hfresh _ (mem_singleton_self _)
    have hr : handleSendWith timeoutStart r byteSize rateRequestOk w.state =
        some (state, outs) := by
      cases mode <;>
      · obtain ⟨r', hr', heq⟩ := map_eq_some_iff.mp hhandle
        cases heq
        exact hr'
    exact hw.of_comes hnew (comes_handleSendWith mode hw.queued hw.flagged
      (fun hmem => hnew (hw.seen hmem)) byteSize rateRequestOk hr)
  | recvTimeout priority transId size =>
    obtain ⟨⟨removed', s'⟩, hr, heq⟩ := map_eq_some_iff.mp hhandle
    cases heq
    have hsound := hw.of_timeout (by simpa [Enabled] using hen) hr
    show Sound (World.mk _ (w.jobs ++ []) (w.timers ++ []) (w.accepted ++ []) (w.handled ++ []) _
      w.transIds)
    rw [append_nil, append_nil, append_nil, append_nil]
    exact hsound
  | info i infoOk =>
    obtain ⟨r, hr, heq⟩ := map_eq_some_iff.mp hhandle
    cases heq
    exact hw.of_passes (passes_infoMessage mode hw.queued hw.flagged infoOk i hr)
  | update updatePending sync i infoOk =>
    replace hhandle : (if w.state.updatePlan.isNone then _ else _) = some _ := hhandle
    by_cases hplan : w.state.updatePlan.isNone = true
    · rw [if_pos hplan] at hhandle
      obtain ⟨r, hr, heq⟩ := map_eq_some_iff.mp hhandle
      cases heq
      exact hw.of_passes (passes_handleUpdate mode hw.queued hw.flagged updatePending _ hr)
    · rw [if_neg hplan] at hhandle
      obtain ⟨r, hr, heq⟩ := map_eq_some_iff.mp hhandle
      cases heq
      exact hw.of_passes (passes_infoMessage mode hw.queued hw.flagged infoOk i hr)
  | updateNow updateNow updateStart a =>
    obtain ⟨r, hr, heq⟩ := map_eq_some_iff.mp hhandle
    cases heq
    exact hw.of_passes (passes_handleUpdateNow mode hw.queued hw.flagged a.infoOk a.cancel
      a.updated updateNow updateStart hr)

/-- **Every queued request is handled once or timed out once**: in every run of either process
the timers are those of the queued requests, so that a request can always be dequeued; the size
is right; an idle process has nothing to do; and the accepted requests, which all differ, are
those handed on, those timed out and those that are queued. -/
theorem handled_once {w : World ι Pid κ Info} {events : List (Event ι Pid κ Info)}
    (h : Steps (next mode) Fresh (World.init options) events w) :
    ((queuedIds w.state).Nodup ∧
      (∀ transId, (Maps.find transId w.state.recvTimeouts).isSome ↔ transId ∈ queuedIds w.state) ∧
      (w.state.queueRequests = true → ∀ cancel, (processQueue cancel w.state).isSome)) ∧
    w.state.queuedSize = totalSize w.state ∧
    (w.state.queueRequests = false →
      requests w.state = [] ∧ w.state.queuedInfo = [] ∧ w.jobs = []) ∧
    (w.handled ++ w.timedOut ++ queuedIds w.state).Perm w.accepted ∧ w.accepted.Nodup := by
  have hw : Sound w := h.invariant (fun _ _ _ hs hfresh hstep => hs.next hfresh hstep)
    (sound_init options)
  refine ⟨⟨hw.queued.nodup, hw.queued.timers, fun hbusy cancel => ?_⟩, hw.queued.size,
    hw.flagged.idle, hw.account, hw.once.nodup⟩
  rcases processQueue_spec hw.queued hbusy cancel with ⟨q, heq, -⟩ | ⟨x, tref, s', heq, -⟩
  · rw [heq]
    rfl
  · rw [heq]
    rfl

/-- Three requests: one is handled at once, one is queued and times out, one is queued and
handled. -/
def threeRequests : List (Event Nat Nat Unit Unit) :=
  let a : Answers Unit := ⟨fun _ => none, none, fun _ => true⟩
  [.done .init a, .send ⟨.sync, (), 9, 0, 1, 0⟩ 10 true, .send ⟨.async, (), 9, 5, 2, 0⟩ 10 true,
    .send ⟨.async, (), 9, -5, 3, 0⟩ 10 true, .recvTimeout 5 2 10, .done (.request 1) a,
    .recvTimeout (-5) 3 10]

theorem handled_once_threeRequests :
    ∃ w, run (next .dispatcher) (World.init ⟨none, some 100, 0⟩) threeRequests = some w ∧
      w.handled = [1, 3] ∧ w.timedOut = [2] ∧ w.accepted = [1, 2, 3] ∧
      w.state.queuedSize = totalSize w.state := by
  have hrun : (run (checked (next .dispatcher) Fresh) (World.init ⟨none, some 100, 0⟩)
      threeRequests).map (fun w => (w.handled, w.timedOut, w.accepted)) =
      some ([1, 3], [2], [1, 2, 3]) := by
    decide +kernel
  obtain ⟨w, hw, heq⟩ := map_eq_some_iff.mp hrun
  have hsteps := steps_of_checked hw
  obtain ⟨hhandled, htimed, haccepted⟩ : w.handled = [1, 3] ∧ w.timedOut = [2] ∧
      w.accepted = [1, 2, 3] := by simpa using heq
  exact ⟨w, hsteps.run_eq, hhandled, htimed, haccepted, (handled_once hsteps).2.1⟩

end CloudI.ServicesInternal.Receive
