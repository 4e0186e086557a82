import CloudI.Erlang.Maps
import CloudI.Pqueue4.Refine

/-!
# ServicesInternal.Receive

The incoming requests of a service: the dispatcher process of an internal service
without `duo_mode`, and its `duo_mode` process, which has the same fields and its own
copy of the code.  The copies differ in how they handle info messages: the dispatcher
gives them to its info process, the `duo_mode` process handles them itself.

The service module, its state and the options that no branch here reads are left out.
What the surroundings answer while a message is handled (the size of a term, the rate
limit, `cancel_timer`, the update of the service state) comes with the message.
`none` is a process that exits.
-/

namespace CloudI.ServicesInternal.Receive

variable {ι Pid κ Info : Type} [LinearOrder ι]

/-- A reference of a timer. -/
abbrev TimerRef := Nat

/-- The two kinds of requests. -/
inductive SendKind where
  | async
  | sync
  deriving DecidableEq

/-- A request message.  `content` is what no branch reads: the names and the request. -/
structure ServiceRequest (ι Pid κ : Type) where
  kind : SendKind
  content : κ
  timeout : Nat
  priority : Int
  transId : ι
  source : Pid

/-- The service options that incoming requests depend on. -/
structure Options where
  queueLimit : Option Nat
  queueSize : Option Nat
  responseTimeoutImmediateMax : Nat

/-- The state of a `#config_service_update{}` in a process. -/
structure UpdatePlan (Pid : Type) where
  sync : Bool
  updatePending : Option Pid := none
  updateNow : Option Pid := none
  updateStart : Bool := true
  queueRequests : Option Bool := none

/-- The part of `#state{}` and of `#state_duo{}` that incoming messages use. -/
structure State (ι Pid κ Info : Type) [LinearOrder ι] where
  recvTimeouts : ErlMap ι TimerRef := ∅
  updatePlan : Option (UpdatePlan Pid) := none
  queueRequests : Bool := true
  queued : Pqueue4.PQueue (Nat × ServiceRequest ι Pid κ) := Pqueue4.new
  queuedSize : Int := 0
  queuedInfo : List Info := []
  options : Options
  nextReference : TimerRef := 0

/-- What a process does besides changing its state. -/
inductive Output (ι Pid κ Info : Type) where
  | request (r : ServiceRequest ι Pid κ) (timeout : Nat)
  | info (i : Info)
  | returnNull (r : ServiceRequest ι Pid κ)
  | recvTimer (tref : TimerRef) (timeout : Nat) (priority : Int) (transId : ι) (size : Nat)
  | cancelTimer (tref : TimerRef)
  | update (updatePending : Pid)
  | updateNow (updateNow : Pid) (ok : Bool)

/-- The state after a message was handled, and what was done. -/
abbrev Result (ι Pid κ Info : Type) [LinearOrder ι] :=
  State ι Pid κ Info × List (Output ι Pid κ Info)

/-- A result with more done before it. -/
def withOutputs (outs : List (Output ι Pid κ Info))
    (r : Result ι Pid κ Info) : Result ι Pid κ Info :=
  (r.1, outs ++ r.2)

/-! ## requests and their timeouts -/

variable (r : ServiceRequest ι Pid κ)

/-- A null response to the source, when the timeout is worth one. -/
def returnNull (options : Options) : List (Output ι Pid κ Info) :=
  if options.responseTimeoutImmediateMax ≤ r.timeout then [.returnNull r] else []

/-- What `recv_timeout_start` and `duo_recv_timeout_start` do: the request is queued with its
size, and a timer for it is started. -/
def timeoutStart (size : Nat) (r : ServiceRequest ι Pid κ)
    (s : State ι Pid κ Info) : Option (Result ι Pid κ Info) :=
  match Pqueue4.enterAt (size, r) r.priority s.queued with
  | .error _ => none
  | .ok queued =>
      some ({ s with
              recvTimeouts := Maps.put r.transId s.nextReference s.recvTimeouts
              queued
              queuedSize := s.queuedSize + size
              nextReference := s.nextReference + 1 },
        [.recvTimer s.nextReference r.timeout r.priority r.transId size])

def recvTimeoutStart (size : Nat) (r : ServiceRequest ι Pid κ)
    (s : State ι Pid κ Info) : Option (Result ι Pid κ Info) :=
  timeoutStart size r s

def duoRecvTimeoutStart (size : Nat) (r : ServiceRequest ι Pid κ)
    (s : State ι Pid κ Info) : Option (Result ι Pid κ Info) :=
  timeoutStart size r s

/-- `queue_limit`, against the length of the queue. -/
def queueLimitOk (s : State ι Pid κ Info) : Bool :=
  match s.options.queueLimit with
  | some queueLimit => Pqueue4.len s.queued < queueLimit
  | none => true

/-- `queue_size`, and the size that the request is stored with; `byteSize` is what
`erlang_term:byte_size` says. -/
def queueSizeOk (byteSize : Nat) (s : State ι Pid κ Info) : Bool × Nat :=
  match s.options.queueSize with
  | some queueSize => (s.queuedSize + byteSize ≤ queueSize, byteSize)
  | none => (true, 0)

/-- **A request comes in**: the clauses of `cloudi_service_send_async` and
`cloudi_service_send_sync`.  An idle process hands it on; a busy one queues it if its limits
allow, unless its timeout is 0. -/
def handleSendWith (start : Nat → ServiceRequest ι Pid κ →
      State ι Pid κ Info → Option (Result ι Pid κ Info))
    (r : ServiceRequest ι Pid κ) (byteSize : Nat) (rateRequestOk : Bool)
    (s : State ι Pid κ Info) : Option (Result ι Pid κ Info) :=
  if s.queueRequests = false then
    if rateRequestOk then some ({ s with queueRequests := true }, [.request r r.timeout])
    else some (s, returnNull r s.options)
  else if r.timeout = 0 then some (s, returnNull r s.options)
  else
    let (sizeOk, size) := queueSizeOk byteSize s
    if queueLimitOk s ∧ sizeOk ∧ rateRequestOk then start size r s
    else some (s, returnNull r s.options)

/-- `handle_info` of `cloudi_service_send_async` and `cloudi_service_send_sync`. -/
def handleSend (byteSize : Nat) (rateRequestOk : Bool)
    (s : State ι Pid κ Info) : Option (Result ι Pid κ Info) :=
  handleSendWith recvTimeoutStart r byteSize rateRequestOk s

/-- `duo_handle_info` of `cloudi_service_send_async` and `cloudi_service_send_sync`. -/
def duoHandleSend (byteSize : Nat) (rateRequestOk : Bool)
    (s : State ι Pid κ Info) : Option (Result ι Pid κ Info) :=
  handleSendWith duoRecvTimeoutStart r byteSize rateRequestOk s

/-- **A timeout of a queued request**: `handle_info` and `duo_handle_info` of
`cloudi_service_recv_timeout`.  The flag is `Removed`; it is false if a timer message was sent
while cancelling. -/
def handleRecvTimeout (priority : Int) (transId : ι) (size : Nat)
    (s : State ι Pid κ Info) : Option (Bool × State ι Pid κ Info) :=
  let recvTimeouts := Maps.remove transId s.recvTimeouts
  if s.queueRequests then
    match Pqueue4.removeUniqueAt (fun x => x.2.transId = transId) priority s.queued with
    | .error _ => none
    | .ok (removed, queued) =>
        some (removed, { s with
                         recvTimeouts
                         queued
                         queuedSize := if removed then s.queuedSize - size else s.queuedSize })
  else some (false, { s with recvTimeouts })

/-! ## the queues -/

/-- `process_queue` and `duo_process_queue`: the next request is handed on with the time that
is left to it, or the process is idle. -/
def processQueue (cancel : TimerRef → Option Nat) (s : State ι Pid κ Info) :
    Option (Result ι Pid κ Info) :=
  if s.queueRequests then
    match Pqueue4.out s.queued with
    | (none, queued) => some ({ s with queueRequests := false, queued }, [])
    | (some (size, r), queued) =>
        match Maps.find r.transId s.recvTimeouts with
        | none => none
        | some tref =>
            some ({ s with
                    recvTimeouts := Maps.remove r.transId s.recvTimeouts
                    queued
                    queuedSize := s.queuedSize - size },
              [.cancelTimer tref, .request r ((cancel tref).getD 0)])
  else none

def processQueueInfo (s : State ι Pid κ Info) : Option (Result ι Pid κ Info) :=
  if s.queueRequests then
    match s.queuedInfo with
    | [] => some ({ s with queueRequests := false }, [])
    | i :: queuedInfo => some ({ s with queuedInfo }, [.info i])
  else none

/-- The loop of `duo_process_queue_info` over the queued info messages.  The stop of a failed
one is no `#state_duo{}`, where its caller takes one. -/
def duoProcessQueueInfoLoop (infoOk : Info → Bool) (s : State ι Pid κ Info) :
    List Info → Option (Result ι Pid κ Info)
  | [] => some ({ s with queueRequests := false, queuedInfo := [] }, [])
  | i :: queuedInfo =>
      if infoOk i then (duoProcessQueueInfoLoop infoOk s queuedInfo).map (withOutputs [.info i])
      else none

def duoProcessQueueInfo (infoOk : Info → Bool) (s : State ι Pid κ Info) :
    Option (Result ι Pid κ Info) :=
  if s.queueRequests then duoProcessQueueInfoLoop infoOk s s.queuedInfo else none

/-- `process_queues/1` and `duo_process_queues/1` without an update plan: info messages are
processed before service requests. -/
def processQueuesIdle (queueInfo : State ι Pid κ Info →
      Option (Result ι Pid κ Info))
    (cancel : TimerRef → Option Nat) (s : State ι Pid κ Info) : Option (Result ι Pid κ Info) :=
  (queueInfo s).bind fun (s', outs) =>
    if s'.queueRequests = false then
      (processQueue cancel { s' with queueRequests := true }).map (withOutputs outs)
    else some (s', outs)

/-- `process_update/1` and `duo_process_update/1`; `updated` is what `update/3` gives, the new
options or an error. -/
def processUpdate (queueInfo : State ι Pid κ Info →
      Option (Result ι Pid κ Info))
    (cancel : TimerRef → Option Nat) (updated : Option Options)
    (s : State ι Pid κ Info) : Option (Result ι Pid κ Info) :=
  match s.updatePlan with
  | some { updateNow := some updateNow, queueRequests := some false, .. } =>
      let s' := { s with options := updated.getD s.options, updatePlan := none }
      (processQueuesIdle queueInfo cancel s').map (withOutputs [.updateNow updateNow updated.isSome])
  | _ => none

/-- `process_queues/1` and `duo_process_queues/1`. -/
def processQueuesWith (queueInfo : State ι Pid κ Info →
      Option (Result ι Pid κ Info))
    (cancel : TimerRef → Option Nat) (updated : Option Options)
    (s : State ι Pid κ Info) : Option (Result ι Pid κ Info) :=
  match s.updatePlan with
  | some plan =>
      let outs := plan.updatePending.toList.map Output.update
      let s' := { s with
                  updatePlan := some { plan with
                                       updatePending := none
                                       queueRequests := some false } }
      match plan.updateNow with
      | some _ => (processUpdate queueInfo cancel updated s').map (withOutputs outs)
      | none => some (s', outs)
  | none => processQueuesIdle queueInfo cancel s

/-! ## updates -/

/-- `handle_info` and `duo_handle_info` of `cloudi_service_update`; without an idle update plan
the message is left to the service. -/
def handleUpdate (updatePending : Pid) (plan : UpdatePlan Pid)
    (s : State ι Pid κ Info) : Option (Result ι Pid κ Info) :=
  match s.updatePlan with
  | none =>
      if plan.sync ∧ s.queueRequests then
        some ({ s with
                updatePlan := some { plan with
                                     updatePending := some updatePending
                                     queueRequests := some s.queueRequests }
                queueRequests := true }, [])
      else
        some ({ s with
                updatePlan := some { plan with queueRequests := some s.queueRequests }
                queueRequests := true }, [.update updatePending])
  | some _ => none

/-- `handle_info` and `duo_handle_info` of `cloudi_service_update_now`. -/
def handleUpdateNow (queueInfo : State ι Pid κ Info →
      Option (Result ι Pid κ Info))
    (cancel : TimerRef → Option Nat) (updated : Option Options) (updateNow : Pid)
    (updateStart : Bool) (s : State ι Pid κ Info) : Option (Result ι Pid κ Info) :=
  match s.updatePlan with
  | none => none
  | some plan =>
      let s' := { s with
                  updatePlan := some { plan with updateNow := some updateNow, updateStart } }
      match plan.queueRequests with
      | some true => some (s', [])
      | some false => processUpdate queueInfo cancel updated s'
      | none => none

/-! ## info messages -/

def handleInfoMessage (i : Info) (s : State ι Pid κ Info) : Result ι Pid κ Info :=
  if s.queueRequests then ({ s with queuedInfo := s.queuedInfo ++ [i] }, [])
  else ({ s with queueRequests := true }, [.info i])

/-- The last clauses of `duo_handle_info`. -/
def duoHandleInfoMessage (infoOk : Info → Bool) (i : Info) (s : State ι Pid κ Info) :
    Option (Result ι Pid κ Info) :=
  if s.queueRequests then some ({ s with queuedInfo := s.queuedInfo ++ [i] }, [])
  else if infoOk i then some (s, [.info i])
  else none

/-! ## runs -/

/-- The two processes. -/
inductive Mode where
  | dispatcher
  | duo
  deriving DecidableEq

/-- What a process is busy with: its initialization, a request, or an info message that its info
process handles. -/
inductive Job (ι : Type) where
  | init
  | request (transId : ι)
  | info
  deriving DecidableEq

/-- What the surroundings answer while the queues are processed. -/
structure Answers (Info : Type) where
  cancel : TimerRef → Option Nat
  updated : Option Options
  infoOk : Info → Bool

/-- What a process handles.  `done` is the success of a job; an update that is not expected is
the info message `i`. -/
inductive Event (ι Pid κ Info : Type) where
  | done (job : Job ι) (a : Answers Info)
  | send (r : ServiceRequest ι Pid κ) (byteSize : Nat) (rateRequestOk : Bool)
  | recvTimeout (priority : Int) (transId : ι) (size : Nat)
  | info (i : Info) (infoOk : Info → Bool)
  | update (updatePending : Pid) (sync : Bool) (i : Info) (infoOk : Info → Bool)
  | updateNow (updateNow : Pid) (updateStart : Bool) (a : Answers Info)

/-- A process, and the record of a run: what it is busy with, the timers that were started, the
requests that were accepted, handed on and timed out, and all that came. -/
structure World (ι Pid κ Info : Type) [LinearOrder ι] where
  state : State ι Pid κ Info
  jobs : List (Job ι)
  timers : List (Int × ι × Nat) := []
  accepted : List ι := []
  handled : List ι := []
  timedOut : List ι := []
  transIds : List ι := []

variable (mode : Mode)

/-- How a process takes its queued info messages. -/
def queueInfo (infoOk : Info → Bool) : State ι Pid κ Info → Option (Result ι Pid κ Info) :=
  match mode with
  | .dispatcher => processQueueInfo
  | .duo => duoProcessQueueInfo infoOk

/-- How a process takes an info message. -/
def infoMessage (infoOk : Info → Bool) (i : Info)
    (s : State ι Pid κ Info) : Option (Result ι Pid κ Info) :=
  match mode with
  | .dispatcher => some (handleInfoMessage i s)
  | .duo => duoHandleInfoMessage infoOk i s

/-- What a process does at an event, and whether a timeout removed its request. -/
def handle (s : State ι Pid κ Info) :
    Event ι Pid κ Info → Option (Bool × Result ι Pid κ Info)
  | .done _ a =>
      (processQueuesWith (queueInfo mode a.infoOk) a.cancel a.updated s).map fun r => (false, r)
  | .send r byteSize rateRequestOk =>
      match mode with
      | .dispatcher => (handleSend r byteSize rateRequestOk s).map fun r => (false, r)
      | .duo => (duoHandleSend r byteSize rateRequestOk s).map fun r => (false, r)
  | .recvTimeout priority transId size =>
      (handleRecvTimeout priority transId size s).map fun (removed, s) => (removed, s, [])
  | .info i infoOk => (infoMessage mode infoOk i s).map fun r => (false, r)
  | .update updatePending sync i infoOk =>
      if s.updatePlan.isNone then
        (handleUpdate updatePending { sync } s).map fun r => (false, r)
      else (infoMessage mode infoOk i s).map fun r => (false, r)
  | .updateNow updateNow updateStart a =>
      (handleUpdateNow (queueInfo mode a.infoOk) a.cancel a.updated updateNow updateStart s).map
        fun r => (false, r)

instance lawfulBEq : LawfulBEq (Int × ι × Nat) := inferInstance

variable (w : World ι Pid κ Info)

/-- An event that can happen: a job that is done was there, and a timer message comes from a
timer, at any time after its start and as often as one likes. -/
def Enabled : Event ι Pid κ Info → Bool
  | .done job _ => job ∈ w.jobs
  | .recvTimeout priority transId size => (priority, transId, size) ∈ w.timers
  | _ => true

/-- The job that an output starts: the `duo_mode` process has no info process. -/
def Output.job? : Output ι Pid κ Info → Option (Job ι)
  | .request r _ => some (.request r.transId)
  | .info _ => if mode = .dispatcher then some .info else none
  | _ => none

/-- The request that is handed on. -/
def Output.request? : Output ι Pid κ Info → Option ι
  | .request r _ => some r.transId
  | _ => none

/-- The timer that is started for a queued request. -/
def Output.timer? : Output ι Pid κ Info → Option (Int × ι × Nat)
  | .recvTimer _ _ priority transId size => some (priority, transId, size)
  | _ => none

/-- A request that comes is accepted when it is handed on or queued. -/
def Output.accepted? : Output ι Pid κ Info → Option ι
  | .request r _ => some r.transId
  | .recvTimer _ _ _ transId _ => some transId
  | _ => none

/-- The requests that come with an event. -/
def Event.transIds : Event ι Pid κ Info → List ι
  | .send r _ _ => [r.transId]
  | _ => []

/-- The jobs that are left when an event is handled. -/
def jobsLeft :
    Event ι Pid κ Info → List (Job ι)
  | .done job _ => w.jobs.erase job
  | _ => w.jobs

variable (event : Event ι Pid κ Info)

/-- The requests that an event accepts. -/
def acceptedBy
    (outs : List (Output ι Pid κ Info)) : List ι :=
  match event with
  | .send _ _ _ => outs.filterMap Output.accepted?
  | _ => []

/-- The request that an event times out. -/
def timedOutBy (removed : Bool) : List ι :=
  match event with
  | .recvTimeout _ transId _ => if removed then [transId] else []
  | _ => []

/-- A step of a run. -/
def next (w : World ι Pid κ Info) (event : Event ι Pid κ Info) : Option (World ι Pid κ Info) :=
  if Enabled w event then
    (handle mode w.state event).map fun (removed, state, outs) =>
      { state
        jobs := jobsLeft w event ++ outs.filterMap (Output.job? mode)
        timers := w.timers ++ outs.filterMap Output.timer?
        accepted := w.accepted ++ acceptedBy event outs
        handled := w.handled ++ outs.filterMap Output.request?
        timedOut := w.timedOut ++ timedOutBy event removed
        transIds := event.transIds ++ w.transIds }
  else none

/-- The transaction ids are distinct. -/
def Fresh : Prop :=
  ∀ transId ∈ event.transIds, transId ∉ w.transIds

instance (w : World ι Pid κ Info) (event : Event ι Pid κ Info) : Decidable (Fresh w event) :=
  inferInstanceAs (Decidable (∀ transId ∈ event.transIds, transId ∉ w.transIds))

/-- A process at the start of its initialization. -/
def World.init (options : Options) : World ι Pid κ Info where
  state := { options }
  jobs := [.init]

end CloudI.ServicesInternal.Receive
