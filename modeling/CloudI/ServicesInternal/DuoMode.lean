import CloudI.ServicesInternal.Receive

/-!
# ServicesInternal.DuoMode

The `duo_mode` process of an internal service with what `CloudI.ServicesInternal.Receive`
leaves out: the service state, the code of the service that handles info messages, and how a
step ends.  Info messages that come while the process is busy are queued, and handled by
`duo_process_queue_info` when a request is done, after an update and after the initialization.

The code of the service is given for each time a message is handled, so that it may answer the
same message differently.  The response to a request that is done is sent before the queues are
processed, and no branch here depends on it: it is left out.
-/

namespace CloudI.ServicesInternal.DuoMode

open Receive (Output TimerRef)

variable {ι Pid κ Info τ Options Term : Type} [LinearOrder ι]

/-! ## the code of the service -/

/-- The class of an exception. -/
inductive ErrorType where
  | error
  | exit
  | throw
  deriving DecidableEq, Repr

/-- An exception that is caught. -/
structure Raised (Term : Type) where
  errorType : ErrorType
  error : Term
  stack : Term
  deriving DecidableEq, Repr

/-- What an aspect of info messages returns.  It raises an exception if it
returns anything else (`case_clause`). -/
inductive AspectResult (τ Term : Type) where
  | ok (serviceState : τ)
  | stop (reason : Term) (serviceState : τ)

/-- An aspect of info messages. -/
abbrev Aspect (Info τ Term : Type) : Type :=
  Info → τ → Except (Raised Term) (AspectResult τ Term)

/-- What `cloudi_service_handle_info/3` returns. -/
inductive HandleInfoResult (τ Term : Type) where
  | noreply (serviceState : τ)
  | stop (reason : Term) (serviceState : τ)
  | invalid

/-- The code of a service while one message is handled.  `checkIncoming` is
`check_incoming/2`, where `monkey_chaos` may exit. -/
structure Service (Info τ Options Term : Type) where
  checkIncoming : (serviceRequest : Bool) → Options → Option Options
  aspectsInfoBefore : Options → List (Aspect Info τ Term)
  aspectsInfoAfter : Options → List (Aspect Info τ Term)
  handleInfo : Info → τ →
    Except (Raised Term) (HandleInfoResult τ Term)

def aspectsInfo (request : Info) : List (Aspect Info τ Term) → τ →
    Except (Raised Term) (AspectResult τ Term)
  | [], serviceState => .ok (.ok serviceState)
  | f :: l, serviceState =>
      match f request serviceState with
      | .ok (.ok newServiceState) => aspectsInfo request l newServiceState
      | .ok (.stop reason newServiceState) => .ok (.stop reason newServiceState)
      | .error e => .error e

/-- How the process exits without its terminate step. -/
inductive Exit where
  | badmatch
  | functionClause
  /-- `handle_module_info` got what `cloudi_service_handle_info` may not return -/
  | tryClause
  /-- `check_incoming` -/
  | monkeyChaos
  /-- `duo_process_queue`: a queued request has no timer -/
  | badkey
  deriving DecidableEq, Repr

/-- What `handle_module_info` returns. -/
inductive InfoResult (τ Term : Type) where
  | success (serviceState : τ)
  | failureStop (reason : Term) (serviceState : τ)
  | failure (raised : Raised Term) (serviceState : τ)

def handleModuleInfo (service : Service Info τ Options Term) (request : Info)
    (serviceState : τ) (options : Options) : Except Exit (InfoResult τ Term) :=
  match aspectsInfo request (service.aspectsInfoBefore options) serviceState with
  | .ok (.ok nextServiceState) =>
      match service.handleInfo request nextServiceState with
      | .ok (.noreply newServiceState) =>
          match aspectsInfo request (service.aspectsInfoAfter options) newServiceState with
          | .ok (.ok finalServiceState) => .ok (.success finalServiceState)
          | .ok (.stop reason finalServiceState) => .ok (.failureStop reason finalServiceState)
          | .error e => .ok (.failure e newServiceState)
      | .ok (.stop reason newServiceState) => .ok (.failureStop reason newServiceState)
      | .ok .invalid => .error .tryClause
      | .error e => .ok (.failure e serviceState)
  | .ok (.stop reason nextServiceState) => .ok (.failureStop reason nextServiceState)
  | .error e => .ok (.failure e serviceState)

/-! ## the process -/

/-- The reason of a terminate step: a term, or `{Type, {Error, Stack}}`. -/
inductive Reason (Term : Type) where
  | stop (reason : Term)
  | raised (raised : Raised Term)
  deriving DecidableEq, Repr

/-- `#state_duo{}`: what incoming messages use, the service state and the options
that the handling of messages reads and changes. -/
structure State (ι Pid κ Info τ Options : Type) [LinearOrder ι] where
  receive : Receive.State ι Pid κ Info
  serviceState : τ
  options : Options

/-- How a step ends: the loop goes on, `duo_mode_loop_terminate` is called, or the
process exits. -/
inductive Ending (ι Pid κ Info τ Options Term : Type)
    [LinearOrder ι] where
  | loop (s : State ι Pid κ Info τ Options)
  | terminate (reason : Reason Term) (s : State ι Pid κ Info τ Options)
  | exit (e : Exit)

/-- A step: what was done, and how it ended. -/
structure Step (ι Pid κ Info τ Options Term : Type)
    [LinearOrder ι] where
  outs : List (Output ι Pid κ Info)
  ending : Ending ι Pid κ Info τ Options Term

/-- A step with more done before it. -/
def Step.after (outs : List (Output ι Pid κ Info)) (step : Step ι Pid κ Info τ Options Term) :
    Step ι Pid κ Info τ Options Term :=
  ⟨outs ++ step.outs, step.ending⟩

section Process

variable (service : Nat → Service Info τ Options Term) (t : Nat)

/-- The last clauses of `duo_handle_info`: an info message comes at time `t`. -/
def duoHandleInfo (request : Info) (s : State ι Pid κ Info τ Options) :
    Step ι Pid κ Info τ Options Term :=
  if s.receive.queueRequests then
    ⟨[], .loop { s with receive :=
      { s.receive with queuedInfo := s.receive.queuedInfo ++ [request] } }⟩
  else
    match (service t).checkIncoming false s.options with
    | none => ⟨[], .exit .monkeyChaos⟩
    | some options =>
        match handleModuleInfo (service t) request s.serviceState options with
        | .ok (.success serviceState) =>
            ⟨[.info request], .loop { s with serviceState, options }⟩
        | .ok (.failureStop reason serviceState) =>
            ⟨[.info request], .terminate (.stop reason) { s with serviceState, options }⟩
        | .ok (.failure raised serviceState) =>
            ⟨[.info request], .terminate (.raised raised) { s with serviceState, options }⟩
        | .error e => ⟨[.info request], .exit e⟩

/-- What `duo_process_queue_info` returns: a `#state_duo{}` or a stop. -/
inductive QueueInfo (ι Pid κ Info τ Options Term : Type)
    [LinearOrder ι] where
  | state (s : State ι Pid κ Info τ Options)
  | stop (reason : Reason Term) (s : State ι Pid κ Info τ Options)

/-- The recursion of `duo_process_queue_info/1` over the queued info messages. -/
def duoProcessQueueInfoLoop : Nat → State ι Pid κ Info τ Options →
    List Info → List (Output ι Pid κ Info) ×
      Except Exit (QueueInfo ι Pid κ Info τ Options Term)
  | _, s, [] =>
      ([], .ok (.state { s with receive :=
        { s.receive with queueRequests := false, queuedInfo := [] } }))
  | t, s, request :: queuedInfo =>
      match (service t).checkIncoming false s.options with
      | none => ([], .error .monkeyChaos)
      | some options =>
          let receive := { s.receive with queuedInfo }
          match handleModuleInfo (service t) request s.serviceState options with
          | .ok (.success serviceState) =>
              let (outs, result) :=
                duoProcessQueueInfoLoop (t + 1) { receive, serviceState, options } queuedInfo
              (.info request :: outs, result)
          | .ok (.failureStop reason serviceState) =>
              ([.info request], .ok (.stop (.stop reason) { receive, serviceState, options }))
          | .ok (.failure raised serviceState) =>
              ([.info request], .ok (.stop (.raised raised) { receive, serviceState, options }))
          | .error e => ([.info request], .error e)

def duoProcessQueueInfo (s : State ι Pid κ Info τ Options) :
    List (Output ι Pid κ Info) ×
      Except Exit (QueueInfo ι Pid κ Info τ Options Term) :=
  if s.receive.queueRequests then duoProcessQueueInfoLoop service t s s.receive.queuedInfo
  else ([], .error .functionClause)

def duoProcessQueue (cancel : TimerRef → Option Nat) (s : State ι Pid κ Info τ Options) :
    Step ι Pid κ Info τ Options Term :=
  match Receive.processQueue cancel s.receive with
  | none => ⟨[], .exit .badkey⟩
  | some (receive, []) => ⟨[], .loop { s with receive }⟩
  | some (receive, cancelTimer :: request) =>
      match (service t).checkIncoming true s.options with
      | none => ⟨[cancelTimer], .exit .monkeyChaos⟩
      | some options => ⟨cancelTimer :: request, .loop { s with receive, options }⟩

/-- `duo_process_queues/1` without an update plan.  Its `NewState` is matched
against a `#state_duo{}`. -/
def duoProcessQueuesIdle (cancel : TimerRef → Option Nat)
    (s : State ι Pid κ Info τ Options) : Step ι Pid κ Info τ Options Term :=
  match duoProcessQueueInfo service t s with
  | (outs, .error e) => ⟨outs, .exit e⟩
  | (outs, .ok (.stop _ _)) => ⟨outs, .exit .badmatch⟩
  | (outs, .ok (.state newState)) =>
      if newState.receive.queueRequests = false then
        (duoProcessQueue service t cancel { newState with receive :=
          { newState.receive with queueRequests := true } }).after outs
      else ⟨outs, .loop newState⟩

/-- What the surroundings answer while the queues are processed: the timers, and
what `update/3` gives, if it is not an error. -/
structure Answers (τ Options : Type) where
  cancel : TimerRef → Option Nat
  updated : Option (τ × Receive.Options × Options)

variable (a : Answers τ Options)

/-- The state that `update/3` leaves, with no update plan. -/
def afterUpdate
    (s : State ι Pid κ Info τ Options) : State ι Pid κ Info τ Options :=
  match a.updated with
  | some (serviceState, limits, options) =>
      { receive := { s.receive with options := limits, updatePlan := none }
        serviceState
        options }
  | none => { s with receive := { s.receive with updatePlan := none } }

def duoProcessUpdate
    (s : State ι Pid κ Info τ Options) : Step ι Pid κ Info τ Options Term :=
  match s.receive.updatePlan with
  | some { updateNow := some updateNow, queueRequests := some false, .. } =>
      (duoProcessQueuesIdle service t a.cancel (afterUpdate a s)).after
        [.updateNow updateNow a.updated.isSome]
  | _ => ⟨[], .exit .badmatch⟩

def duoProcessQueues
    (s : State ι Pid κ Info τ Options) : Step ι Pid κ Info τ Options Term :=
  match s.receive.updatePlan with
  | some plan =>
      let newState := { s with receive := { s.receive with updatePlan := some { plan with
        updatePending := none
        queueRequests := some false } } }
      match plan.updateNow with
      | some _ =>
          (duoProcessUpdate service t a newState).after
            (plan.updatePending.toList.map Output.update)
      | none => ⟨plan.updatePending.toList.map Output.update, .loop newState⟩
  | none => duoProcessQueuesIdle service t a.cancel s

/-- What the process handles besides info messages when its queues are processed. -/
inductive Event (Pid τ : Type) where
  /-- `duo_mode_loop_init` after the aspects of the initialization -/
  | init (newServiceState : τ)
  /-- `cloudi_service_request_success` -/
  | requestSuccess (newServiceState : τ)
  /-- `cloudi_service_update_now` -/
  | updateNow (updateNow : Pid) (updateStart : Bool)

/-- A step of `duo_mode_loop_init` or of `duo_handle_info`. -/
def handle
    (s : State ι Pid κ Info τ Options) :
    Event Pid τ → Step ι Pid κ Info τ Options Term
  | .init newServiceState =>
      duoProcessQueues service t a { s with serviceState := newServiceState }
  | .requestSuccess newServiceState =>
      duoProcessQueues service t a { s with serviceState := newServiceState }
  | .updateNow updateNow updateStart =>
      match s.receive.updatePlan with
      | none => ⟨[], .exit .badmatch⟩
      | some plan =>
          let newState := { s with receive := { s.receive with
            updatePlan := some { plan with updateNow := some updateNow, updateStart } } }
          match plan.queueRequests with
          | some true => ⟨[], .loop newState⟩
          | some false => duoProcessUpdate service t a newState
          | none => ⟨[], .exit .badmatch⟩

end Process

end CloudI.ServicesInternal.DuoMode
