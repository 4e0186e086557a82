import CloudI.ServicesInternal.DuoMode

/-!
# ServicesInternal.QueuedInfo

A queued info message on which the service stops or raises an exception.  A message that is
handled when it comes ends the `duo_mode` process with its terminate step.  The same failure in
`duo_process_queue_info` comes back as a stop where `duo_process_queues` takes a `#state_duo{}`:
the process exits with a `badmatch` instead, before any queued request is started.

A step that goes on is a step of `CloudI.ServicesInternal.Receive`, so what is proved there of
runs holds of these processes until they end.
-/

namespace CloudI.ServicesInternal.DuoMode

open Option
open Receive (Output)

variable {ι Pid κ Info τ Options Term : Type} [LinearOrder ι]
  {service : Nat → Service Info τ Options Term} {a : Answers τ Options}
  {s drained : State ι Pid κ Info τ Options}

/-! ## messages that fail -/

/-- The reason and the service state of a failure. -/
def InfoResult.failure? : InfoResult τ Term → Option (Reason Term × τ)
  | .success _ => none
  | .failureStop reason serviceState => some (.stop reason, serviceState)
  | .failure raised serviceState => some (.raised raised, serviceState)

/-- The handler or an aspect stops or raises on the message. -/
def Fails (service : Service Info τ Options Term) (request : Info)
    (serviceState : τ) (options : Options) : Prop :=
  ∃ newOptions result, service.checkIncoming false options = some newOptions ∧
    handleModuleInfo service request serviceState newOptions = .ok result ∧
    result.failure?.isSome

/-- The messages from time `t` on are handled until one fails: at time `k`, with the
service state and the options that the messages before it left. -/
inductive FailsAt (service : Nat → Service Info τ Options Term) :
    (t : Nat) → τ → Options → List Info →
      (k : Nat) → Info → τ → Options → Prop
  | head {t : Nat} {request : Info} {queuedInfo : List Info} {serviceState : τ}
      {options : Options} (hfails : Fails (service t) request serviceState options) :
      FailsAt service t serviceState options (request :: queuedInfo) t request serviceState options
  | tail {t k : Nat} {request request' : Info} {queuedInfo : List Info}
      {serviceState newServiceState serviceState' : τ}
      {options newOptions options' : Options}
      (hincoming : (service t).checkIncoming false options = some newOptions)
      (hsuccess : handleModuleInfo (service t) request serviceState newOptions =
        .ok (.success newServiceState))
      (hfails : FailsAt service (t + 1) newServiceState newOptions queuedInfo k request'
        serviceState' options') :
      FailsAt service t serviceState options (request :: queuedInfo) k request' serviceState'
        options'

/-- The state that `duo_process_queue_info` is called with by `duo_process_queues`. -/
def queuesState (a : Answers τ Options) (s : State ι Pid κ Info τ Options) :
    Option (State ι Pid κ Info τ Options) :=
  match s.receive.updatePlan with
  | some plan => plan.updateNow.map fun _ => afterUpdate a s
  | none => some s

/-- The state that `duo_process_queue_info` is called with at an event, if it is. -/
def drainedState (a : Answers τ Options) (s : State ι Pid κ Info τ Options) :
    Event Pid τ → Option (State ι Pid κ Info τ Options)
  | .init newServiceState => queuesState a { s with serviceState := newServiceState }
  | .requestSuccess newServiceState => queuesState a { s with serviceState := newServiceState }
  | .updateNow _ _ =>
      match s.receive.updatePlan with
      | some plan => if plan.queueRequests = some false then some (afterUpdate a s) else none
      | none => none

/-- Two steps that call `duo_mode_loop_terminate` with the same reason and the
same service state. -/
def SameTermination (e e' : Ending ι Pid κ Info τ Options Term) : Prop :=
  ∃ reason s s', e = .terminate reason s ∧ e' = .terminate reason s' ∧
    s.serviceState = s'.serviceState

/-- **Queued info messages fail like direct ones**: when a queued message fails, the step ends
like the one of an idle process that the message comes to, with the service state and the
options it met in the queue, and no request is started. -/
def FailsLikeDirect (service : Nat → Service Info τ Options Term) (t : Nat)
    (a : Answers τ Options) (s : State ι Pid κ Info τ Options) (event : Event Pid τ) : Prop :=
  ∀ drained, drainedState a s event = some drained →
    ∀ k request serviceState options,
      FailsAt service t drained.serviceState drained.options drained.receive.queuedInfo k request
        serviceState options →
      (∀ idle : State ι Pid κ Info τ Options,
        idle.receive.queueRequests = false → idle.serviceState = serviceState →
        idle.options = options →
        SameTermination (duoHandleInfo service k request idle).ending
          (handle service t a s event).ending) ∧
      (handle service t a s event).outs.filterMap Output.request? = []

/-! ## what the code does -/

/-- The message that fails makes `duo_process_queue_info` return a stop, and only
info messages were handled. -/
theorem duoProcessQueueInfoLoop_of_failsAt
    (h : FailsAt service t serviceState options queuedInfo k request serviceState' options')
    (receive : Receive.State ι Pid κ Info) :
    ∃ outs reason stopped,
      duoProcessQueueInfoLoop service t ⟨receive, serviceState, options⟩ queuedInfo =
        (outs, .ok (.stop reason stopped)) ∧ outs.filterMap Output.request? = [] := by
  induction h generalizing receive with
  | head hfails =>
    obtain ⟨newOptions, result, hincoming, hresult, hfailure⟩ := hfails
    simp only [duoProcessQueueInfoLoop, hincoming, hresult]
    cases result with
    | success => cases hfailure
    | _ => exact ⟨_, _, _, rfl, rfl⟩
  | @tail t k request request' queuedInfo _ _ _ _ _ _ hincoming hsuccess hfails ih =>
    obtain ⟨outs, reason, stopped, hloop, houts⟩ := ih { receive with queuedInfo }
    simp only [duoProcessQueueInfoLoop, hincoming, hsuccess, hloop]
    exact ⟨_, _, _, rfl, houts⟩

/-- The stop is no `#state_duo{}`. -/
theorem duoProcessQueuesIdle_of_failsAt (cancel : Receive.TimerRef → Option Nat)
    (h : FailsAt service t drained.serviceState drained.options drained.receive.queuedInfo k
      request serviceState options) :
    (duoProcessQueuesIdle service t cancel drained).ending =
        .exit (if drained.receive.queueRequests then .badmatch else .functionClause) ∧
      (duoProcessQueuesIdle service t cancel drained).outs.filterMap Output.request? = [] := by
  unfold duoProcessQueuesIdle duoProcessQueueInfo
  by_cases hbusy : drained.receive.queueRequests = true
  · obtain ⟨outs, reason, stopped, hloop, houts⟩ :=
      duoProcessQueueInfoLoop_of_failsAt h drained.receive
    rw [if_pos hbusy, if_pos hbusy, hloop]
    exact ⟨rfl, houts⟩
  · rw [if_neg hbusy, if_neg hbusy]
    exact ⟨rfl, rfl⟩

variable {event : Event Pid τ} {t : Nat}

/-- The step that processes the queued info messages does it last, after answers to the
update. -/
theorem handle_of_drainedState (h : drainedState a s event = some drained) (t : Nat) :
    ∃ outs : List (Output ι Pid κ Info), outs.filterMap Output.request? = [] ∧
      handle service t a s event =
        (duoProcessQueuesIdle service t a.cancel drained).after outs := by
  have hqueues : ∀ s : State ι Pid κ Info τ Options,
      queuesState a s = some drained →
      ∃ outs : List (Output ι Pid κ Info), outs.filterMap Output.request? = [] ∧
        duoProcessQueues service t a s =
          (duoProcessQueuesIdle service t a.cancel drained).after outs := by
    intro s hs
    unfold queuesState at hs
    unfold duoProcessQueues
    cases hplan : s.receive.updatePlan with
    | none =>
      simp only [hplan, Option.some.injEq] at hs
      subst hs
      exact ⟨[], rfl, rfl⟩
    | some plan =>
      cases hnow : plan.updateNow with
      | none => simp only [hplan, hnow, map_none, reduceCtorEq] at hs
      | some updateNow =>
        simp only [hplan, hnow, map_some, Option.some.injEq] at hs
        subst hs
        refine ⟨plan.updatePending.toList.map Output.update ++
          [.updateNow updateNow a.updated.isSome], ?_, ?_⟩
        · rw [List.filterMap_append]
          cases plan.updatePending <;> rfl
        · simp only [hnow, duoProcessUpdate, Step.after, List.append_assoc]
          rfl
  cases event with
  | updateNow updateNow updateStart =>
    simp only [drainedState] at h
    simp only [handle]
    cases hplan : s.receive.updatePlan with
    | none => simp only [hplan, reduceCtorEq] at h
    | some plan =>
      simp only [hplan] at h
      split at h
      · next hidle =>
          cases h
          refine ⟨[.updateNow updateNow a.updated.isSome], rfl, ?_⟩
          simp only [hidle, duoProcessUpdate]
          rfl
      · cases h
  | _ => exact hqueues _ h

/-- **A queued message that fails**: the process exits, and no request is started. -/
theorem handle_of_failsAt (hdrained : drainedState a s event = some drained)
    (h : FailsAt service t drained.serviceState drained.options drained.receive.queuedInfo k
      request serviceState options) :
    (handle service t a s event).ending =
        .exit (if drained.receive.queueRequests then .badmatch else .functionClause) ∧
      (handle service t a s event).outs.filterMap Output.request? = [] := by
  obtain ⟨outs, houts, heq⟩ := handle_of_drainedState hdrained t
  obtain ⟨hending, hrequests⟩ := duoProcessQueuesIdle_of_failsAt a.cancel h
  rw [heq, Step.after]
  refine ⟨hending, ?_⟩
  rw [List.filterMap_append, houts, hrequests]
  rfl

/-- **Queued info messages fail like direct ones only if none fails**: the terminate step
that a direct message takes is never taken for a queued one. -/
theorem failsLikeDirect_iff (service : Nat → Service Info τ Options Term) (t : Nat)
    (a : Answers τ Options) (s : State ι Pid κ Info τ Options) (event : Event Pid τ) :
    FailsLikeDirect service t a s event ↔ ∀ drained, drainedState a s event = some drained →
        ∀ k request serviceState options,
          ¬ FailsAt service t drained.serviceState drained.options drained.receive.queuedInfo k
            request serviceState options := by
  constructor
  · intro h drained hdrained k request serviceState options hfails
    have hsame := (h drained hdrained k request serviceState options hfails).1
      ⟨{ drained.receive with queueRequests := false }, serviceState, options⟩ rfl rfl rfl
    obtain ⟨reason, _, s', _, hterminate, _⟩ := hsame
    rw [(handle_of_failsAt hdrained hfails).1] at hterminate
    cases hterminate
  · intro h drained hdrained k request serviceState options hfails
    exact absurd hfails (h drained hdrained k request serviceState options)

/-- A service that stops on every info message. -/
def stopping : Service Unit Nat Unit Nat where
  checkIncoming _ options := some options
  aspectsInfoBefore _ := []
  aspectsInfoAfter _ := []
  handleInfo _ serviceState := .ok (.stop 1 serviceState)

/-- A process that is busy with a request, and one queued info message. -/
def oneQueued : State Nat Nat Unit Unit Nat Unit where
  receive :=
    { queuedInfo := [()]
      options := { queueLimit := none, queueSize := none, responseTimeoutImmediateMax := 0 } }
  serviceState := 0
  options := ()

/-- The request is done, and the message makes the service stop. -/
theorem not_failsLikeDirect_stopping :
    ¬ FailsLikeDirect (fun _ => stopping) 0 ⟨fun _ => none, none⟩ oneQueued
      (.requestSuccess 0 : Event Nat Nat) := by
  intro h
  have hfails : FailsAt (fun _ => stopping) 0 0 () [()] 0 () 0 () :=
    .head ⟨(), .failureStop 1 0, rfl, rfl, rfl⟩
  have hsame := (h oneQueued rfl 0 () 0 () hfails).1
    { oneQueued with receive := { oneQueued.receive with queueRequests := false } } rfl rfl rfl
  obtain ⟨reason, _, s', _, hterminate, _⟩ := hsame
  cases hterminate

/-! ## the steps that go on -/

/-- The event as `CloudI.ServicesInternal.Receive` has it, with no info message that fails. -/
def Event.receive (a : Answers τ Options) (job : Receive.Job ι) :
    Event Pid τ → Receive.Event ι Pid κ Info
  | .init _ => .done job ⟨a.cancel, a.updated.map (·.2.1), fun _ => true⟩
  | .requestSuccess _ => .done job ⟨a.cancel, a.updated.map (·.2.1), fun _ => true⟩
  | .updateNow pid updateStart =>
      .updateNow pid updateStart ⟨a.cancel, a.updated.map (·.2.1), fun _ => true⟩

theorem duoProcessQueueInfoLoop_receive (receive : Receive.State ι Pid κ Info)
    (h : duoProcessQueueInfoLoop service t ⟨receive, serviceState, options⟩ queuedInfo =
      (outs, .ok (.state s'))) (queuedInfo' : List Info) :
    Receive.duoProcessQueueInfoLoop (fun _ => true)
      { receive with queuedInfo := queuedInfo' } queuedInfo = some (s'.receive, outs) := by
  induction queuedInfo generalizing t receive serviceState options outs with
  | nil =>
    cases h
    rfl
  | cons request queuedInfo ih =>
    simp only [duoProcessQueueInfoLoop] at h
    cases hincoming : (service t).checkIncoming false options with
    | none => simp [hincoming] at h
    | some newOptions =>
      cases hresult : handleModuleInfo (service t) request serviceState newOptions with
      | error e => simp [hincoming, hresult] at h
      | ok result =>
        cases result with
        | success newServiceState =>
          simp only [hincoming, hresult, Prod.mk.injEq] at h
          obtain ⟨rfl, hloop⟩ := h
          have hrest := ih { receive with queuedInfo } (Prod.ext rfl hloop)
          rw [Receive.duoProcessQueueInfoLoop, if_pos rfl, hrest]
          rfl
        | _ => simp [hincoming, hresult] at h

theorem duoProcessQueuesIdle_receive {cancel : Receive.TimerRef → Option Nat}
    (h : duoProcessQueuesIdle service t cancel s = ⟨outs, .loop s'⟩) :
    Receive.processQueuesIdle (Receive.duoProcessQueueInfo fun _ => true) cancel s.receive =
      some (s'.receive, outs) := by
  unfold duoProcessQueuesIdle duoProcessQueueInfo at h
  unfold Receive.processQueuesIdle Receive.duoProcessQueueInfo
  by_cases hbusy : s.receive.queueRequests = true
  · rw [if_pos hbusy] at h ⊢
    generalize hloop : duoProcessQueueInfoLoop service t s s.receive.queuedInfo = info at h
    obtain ⟨outs₁, result⟩ := info
    cases result with
    | error e => cases h
    | ok result =>
      cases result with
      | stop => cases h
      | state newState =>
        have hreceive := duoProcessQueueInfoLoop_receive s.receive hloop s.receive.queuedInfo
        rw [hreceive, bind_some]
        simp only at h ⊢
        by_cases hidle : newState.receive.queueRequests = false
        · rw [if_pos hidle] at h ⊢
          unfold duoProcessQueue at h
          simp only at h
          split at h
          · cases h
          · next hqueue =>
              cases h
              rw [hqueue]
              rfl
          · next hqueue =>
              split at h
              · cases h
              · cases h
                rw [hqueue]
                rfl
        · rw [if_neg hidle] at h ⊢
          cases h
          rfl
  · rw [if_neg hbusy] at h
    cases h

theorem afterUpdate_receive (a : Answers τ Options) (s : State ι Pid κ Info τ Options) :
    (afterUpdate a s).receive = { s.receive with
        options := (a.updated.map (·.2.1)).getD s.receive.options
        updatePlan := none } := by
  unfold afterUpdate
  cases a.updated <;> rfl

theorem duoProcessUpdate_receive (h : (duoProcessUpdate service t a s).ending = .loop s') :
    Receive.processUpdate (Receive.duoProcessQueueInfo fun _ => true) a.cancel
      (a.updated.map (·.2.1)) s.receive =
        some (s'.receive, (duoProcessUpdate service t a s).outs) := by
  unfold duoProcessUpdate at h ⊢
  split at h
  · next updateNow _ hplan =>
      have hreceive := duoProcessQueuesIdle_receive (congrArg₂ Step.mk rfl h)
      rw [afterUpdate_receive] at hreceive
      rw [Receive.processUpdate, hplan]
      simp only [hreceive, map_some, Receive.withOutputs, isSome_map]
      rfl
  · cases h

theorem duoProcessQueues_receive (h : duoProcessQueues service t a s = ⟨outs, .loop s'⟩) :
    Receive.processQueuesWith (Receive.duoProcessQueueInfo fun _ => true) a.cancel
      (a.updated.map (·.2.1)) s.receive = some (s'.receive, outs) := by
  unfold duoProcessQueues at h
  unfold Receive.processQueuesWith
  cases hplan : s.receive.updatePlan with
  | none =>
    simp only [hplan] at h ⊢
    exact duoProcessQueuesIdle_receive h
  | some plan =>
    simp only [hplan] at h ⊢
    cases hnow : plan.updateNow with
    | none =>
      simp only [hnow] at h ⊢
      cases h
      rfl
    | some updateNow =>
      simp only [hnow] at h ⊢
      obtain ⟨houts, hending⟩ := Step.mk.inj h
      rw [duoProcessUpdate_receive hending, ← houts]
      rfl

/-- **A step that goes on** is the step of the process without its service. -/
theorem handle_receive (job : Receive.Job ι) (h : handle service t a s event = ⟨outs, .loop s'⟩) :
    Receive.handle .duo s.receive (event.receive a job) = some (false, s'.receive, outs) := by
  cases event with
  | updateNow pid updateStart =>
    simp only [handle] at h
    simp only [Event.receive, Receive.handle, Receive.queueInfo, Receive.handleUpdateNow]
    cases hplan : s.receive.updatePlan with
    | none =>
      simp only [hplan] at h
      cases h
    | some plan =>
      simp only [hplan] at h ⊢
      cases hqueue : plan.queueRequests with
      | none =>
        simp only [hqueue] at h
        cases h
      | some queueRequests =>
        cases queueRequests with
        | true =>
          simp only [hqueue] at h ⊢
          cases h
          rfl
        | false =>
          simp only [hqueue] at h ⊢
          rw [duoProcessUpdate_receive (congrArg Step.ending h), h]
          rfl
  | _ =>
    simp only [Event.receive, Receive.handle, Receive.queueInfo]
    rw [duoProcessQueues_receive h]
    rfl

end CloudI.ServicesInternal.DuoMode
