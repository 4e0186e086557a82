import CloudI.ServicesInternal.Receive
import CloudI.Erlang.Binary

/-!
# ServicesExternal.Receive

The incoming requests of an external service thread: its process in the state `HANDLE`
and its OS process, which is not replaced.

The fields of the queue and what is done with them are those of an internal service.
What the surroundings answer while a message is handled (the aspects, the size of a term,
the rate limit, `cancel_timer`, the update of the service state, the lookup of a
destination) comes with the message.
-/

namespace CloudI.ServicesExternal

open ServicesInternal.Receive (TimerRef SendKind ServiceRequest Options UpdatePlan)

variable {ι Pid : Type} [LinearOrder ι]

/-- The names and the data of a request; `none` is data that is no binary. -/
structure Content where
  name : List Nat
  pattern : List Nat
  requestInfo : Option Binary
  request : Option Binary
deriving DecidableEq

/-- The part of `#state{}` that is about the queue of requests. -/
abbrev Queueing (ι Pid : Type) [LinearOrder ι] :=
  ServicesInternal.Receive.State ι Pid Content Empty

/-- The part of `#state{}` that incoming requests use. -/
structure State (ι Pid : Type) [LinearOrder ι] extends Queueing ι Pid where
  requestData : Option (ServiceRequest ι Pid Content) := none

/-- A `return_async` or `return_sync` message of the OS process. -/
structure ReturnMessage (ι Pid : Type) where
  kind : SendKind
  name : List Nat
  pattern : List Nat
  responseInfo : Binary
  response : Binary
  nextTimeout : Nat
  transId : ι
  source : Pid
deriving DecidableEq

/-- A `forward_async` or `forward_sync` message of the OS process. -/
structure ForwardMessage (ι Pid : Type) where
  kind : SendKind
  nextName : List Nat
  nextRequestInfo : Binary
  nextRequest : Binary
  nextTimeout : Nat
  nextPriority : Int
  transId : ι
  source : Pid
deriving DecidableEq

/-- What the process does besides changing its state.  `queue` is what it does as an internal
service would; `send` and `reinit` are messages to the OS process. -/
inductive Output (ι Pid : Type) where
  | queue (output : ServicesInternal.Receive.Output ι Pid Content Empty)
  | send (r : ServiceRequest ι Pid Content)
  | reinit
  | initEnd
  | returns (m : ReturnMessage ι Pid) (timeout : Nat)
  | forward (m : ForwardMessage ι Pid) (pattern : List Nat) (pid : Pid) (timeout : Nat)
  | forwardRetry (m : ForwardMessage ι Pid) (timeout : Nat)
  | exit

/-- Why the process stops: `process_queue` is not entered with `queue_requests = true`, a
queued request has no timer, or anything else. -/
inductive Failure where
  | processQueue
  | badkey
  | stop
deriving DecidableEq

/-- The state after a message was handled, and what was done. -/
abbrev Result (ι Pid : Type) [LinearOrder ι] :=
  State ι Pid × List (Output ι Pid)

/-- A result with more done before it. -/
def withOutputs (outs : List (Output ι Pid)) (r : Result ι Pid) : Result ι Pid :=
  (r.1, outs ++ r.2)

/-- What is done with the queue alone. -/
def onQueue (s : State ι Pid) (r : Option (ServicesInternal.Receive.Result ι Pid Content Empty)) :
    Except Failure (Result ι Pid) :=
  match r with
  | some (queueing, outs) => .ok ({ s with toState := queueing }, outs.map .queue)
  | none => .error .stop

/-- A null response to the source, when the timeout is worth one. -/
def returnNull (r : ServiceRequest ι Pid Content) (s : State ι Pid) : Result ι Pid :=
  (s, (ServicesInternal.Receive.returnNull r s.options).map .queue)

/-! ## the queue -/

/-- What the surroundings answer while the queue is processed: `aspects` is whether
`aspects_request_before` gives `ok`, and `updated` is what `update/2` gives for an update that
starts, the new options or an error. -/
structure Answers where
  cancel : TimerRef → Option Nat
  aspects : Bool
  updated : Option Options

def recvTimeoutStart (size : Nat) (r : ServiceRequest ι Pid Content)
    (s : State ι Pid) : Except Failure (Result ι Pid) :=
  onQueue s (ServicesInternal.Receive.timeoutStart size r s.toState)

/-- `process_queue/1`: the next request is sent to the OS process with the time that is left to
it, or the process is idle. -/
def processQueue (a : Answers) (s : State ι Pid) : Except Failure (Result ι Pid) :=
  if s.queueRequests then
    match Pqueue4.out s.queued with
    | (none, queued) => .ok ({ s with queueRequests := false, queued }, [])
    | (some (size, r), queued) =>
        if a.aspects then
          match Maps.find r.transId s.recvTimeouts with
          | none => .error .badkey
          | some tref =>
              let r := { r with timeout := (a.cancel tref).getD 0 }
              .ok ({ s with
                     recvTimeouts := Maps.remove r.transId s.recvTimeouts
                     queued
                     queuedSize := s.queuedSize - size
                     requestData := some r },
                [.queue (.cancelTimer tref), .send r])
        else .ok (s, [.exit])
  else .error .processQueue

/-- `process_update/1`.  It ends in `process_queues`, which is `process_queue` without an update
plan. -/
def processUpdate (a : Answers) (s : State ι Pid) : Except Failure (Result ι Pid) :=
  match s.updatePlan with
  | some { updateNow := some updateNow, updateStart, queueRequests := some false, .. } =>
      let updated := if updateStart then a.updated else none
      let outs : List (Output ι Pid) :=
        (if updated.isSome then [.reinit] else []) ++
          [.queue (.updateNow updateNow updated.isSome)]
      let s := { s with options := updated.getD s.options, updatePlan := none }
      (processQueue a s).map (withOutputs outs)
  | _ => .error .stop

def processQueues (a : Answers) (s : State ι Pid) : Except Failure (Result ι Pid) :=
  match s.updatePlan with
  | some plan =>
      let outs : List (Output ι Pid) :=
        plan.updatePending.toList.map fun pid => .queue (.update pid)
      let s := { s with
                 updatePlan := some { plan with
                                      updatePending := none
                                      queueRequests := some false } }
      match plan.updateNow with
      | some _ => (processUpdate a s).map (withOutputs outs)
      | none => .ok (s, outs)
  | none => processQueue a s

/-! ## messages -/

/-- `polling`: the initialization is complete. -/
def handlePolling (aspectsInit : Bool) (a : Answers) (s : State ι Pid) :
    Except Failure (Result ι Pid) :=
  if aspectsInit then (processQueues a s).map (withOutputs [.initEnd]) else .error .stop

/-- `cloudi_service_send_async` and `cloudi_service_send_sync`. -/
def handleSend (r : ServiceRequest ι Pid Content) (byteSize : Nat)
    (rateRequestOk aspects : Bool) (s : State ι Pid) : Except Failure (Result ι Pid) :=
  if r.content.request = none ∨ r.content.requestInfo = none ∨ r.timeout = 0 then
    .ok (returnNull r s)
  else if s.queueRequests = false then
    if rateRequestOk then
      if aspects then
        .ok ({ s with queueRequests := true, requestData := some r }, [.send r])
      else .error .stop
    else .ok (returnNull r s)
  else
    let (sizeOk, size) := ServicesInternal.Receive.queueSizeOk byteSize s.toState
    if ServicesInternal.Receive.queueLimitOk s.toState ∧ sizeOk ∧ rateRequestOk then
      recvTimeoutStart size r s
    else .ok (returnNull r s)

/-- `cloudi_service_recv_timeout`. -/
def handleRecvTimeout (priority : Int) (transId : ι) (size : Nat) (s : State ι Pid) :
    Except Failure (Bool × State ι Pid) :=
  match ServicesInternal.Receive.handleRecvTimeout priority transId size s.toState with
  | some (removed, queueing) => .ok (removed, { s with toState := queueing })
  | none => .error .stop

/-- What happens behind an answer of the OS process: `aspects` is whether
`aspects_request_after` gives `ok`. -/
def requestDone (aspects : Bool) (a : Answers) (outs : List (Output ι Pid))
    (s : State ι Pid) : Except Failure (Result ι Pid) :=
  if aspects then (processQueues a { s with requestData := none }).map (withOutputs outs)
  else .error .stop

/-- The timeout behind an answer: `requestTimeoutF` is the function of `request_data`. -/
def newTimeout (requestTimeoutF : Nat → Nat) (timeout nextTimeout : Nat) : Nat :=
  if nextTimeout = timeout then requestTimeoutF timeout else nextTimeout

variable [DecidableEq Pid]

/-- The message is about a request. -/
def ReturnMessage.Names (m : ReturnMessage ι Pid) (r : ServiceRequest ι Pid Content) : Prop :=
  r.content.name = m.name ∧ r.content.pattern = m.pattern ∧ r.transId = m.transId ∧
    r.source = m.source

instance (m : ReturnMessage ι Pid) (r : ServiceRequest ι Pid Content) : Decidable (m.Names r) :=
  inferInstanceAs (Decidable (_ ∧ _))

/-- `return_async` and `return_sync`. -/
def handleReturn (m : ReturnMessage ι Pid) (requestTimeoutF : Nat → Nat) (aspects : Bool)
    (a : Answers) (s : State ι Pid) : Except Failure (Result ι Pid) :=
  match s.requestData with
  | some r =>
      if m.Names r ∧ m.nextTimeout ≤ 4294967295 then
        let noreply := m.responseInfo = [] ∧ m.response = [] ∧
          m.nextTimeout < s.options.responseTimeoutImmediateMax
        let outs : List (Output ι Pid) :=
          if noreply then []
          else [.returns m (newTimeout requestTimeoutF r.timeout m.nextTimeout)]
        requestDone aspects a outs s
      else .error .stop
  | none => .error .stop

/-- What the lookup of the next destination gives; an error is handled in another way when
`request_name_lookup` is `async`. -/
inductive Destination (Pid : Type) where
  | denied
  | timeout
  | error (async : Bool)
  | found (pattern : List Nat) (pid : Pid)

variable (m : ForwardMessage ι Pid)

/-- The message is about a request. -/
def ForwardMessage.Names
    (r : ServiceRequest ι Pid Content) : Prop :=
  r.transId = m.transId ∧ r.source = m.source

instance (m : ForwardMessage ι Pid) (r : ServiceRequest ι Pid Content) : Decidable (m.Names r) :=
  inferInstanceAs (Decidable (_ ∧ _))

/-- What is done with a request that is forwarded. -/
def forwardOutputs (r : ServiceRequest ι Pid Content)
    (timeout : Nat) (destination : Destination Pid) (options : Options) : List (Output ι Pid) :=
  match destination with
  | .denied => []
  | .timeout => []
  | .error true =>
      if options.responseTimeoutImmediateMax ≤ timeout then
        [.returns ⟨m.kind, r.content.name, r.content.pattern, [], [], timeout, m.transId, m.source⟩
          timeout]
      else []
  | .error false => if 500 ≤ timeout then [.forwardRetry m (timeout - 500)] else []
  | .found pattern pid => if 100 ≤ timeout then [.forward m pattern pid (timeout - 100)] else []

/-- `forward_async` and `forward_sync`. -/
def handleForward (requestTimeoutF : Nat → Nat)
    (destination : Destination Pid) (aspects : Bool) (a : Answers) (s : State ι Pid) :
    Except Failure (Result ι Pid) :=
  match s.requestData with
  | some r =>
      if m.Names r ∧ m.nextName ≠ [] ∧ m.nextTimeout ≤ 4294967295 ∧ -128 ≤ m.nextPriority ∧
          m.nextPriority ≤ 127 then
        let timeout := newTimeout requestTimeoutF r.timeout m.nextTimeout
        requestDone aspects a (forwardOutputs m r timeout destination s.options) s
      else .error .stop
  | none => .error .stop

/-- `cloudi_service_update`. -/
def handleUpdate (updatePending : Pid) (plan : UpdatePlan Pid) (s : State ι Pid) :
    Except Failure (Result ι Pid) :=
  onQueue s (ServicesInternal.Receive.handleUpdate updatePending plan s.toState)

/-- `cloudi_service_update_now`. -/
def handleUpdateNow (updateNow : Pid) (updateStart : Bool) (a : Answers) (s : State ι Pid) :
    Except Failure (Result ι Pid) :=
  match s.updatePlan with
  | none => .error .stop
  | some plan =>
      let s := { s with updatePlan := some { plan with updateNow := some updateNow, updateStart } }
      match plan.queueRequests with
      | some true => .ok (s, [])
      | some false => processUpdate a s
      | none => .error .stop

/-! ## runs -/

/-- What the process handles. -/
inductive Event (ι Pid : Type) where
  | polling (aspectsInit : Bool) (a : Answers)
  | returns (m : ReturnMessage ι Pid) (requestTimeoutF : Nat → Nat) (aspects : Bool)
      (a : Answers)
  | forward (m : ForwardMessage ι Pid) (requestTimeoutF : Nat → Nat)
      (destination : Destination Pid) (aspects : Bool) (a : Answers)
  | send (r : ServiceRequest ι Pid Content) (byteSize : Nat) (rateRequestOk aspects : Bool)
  | recvTimeout (priority : Int) (transId : ι) (size : Nat)
  | update (updatePending : Pid) (sync : Bool)
  | updateNow (updateNow : Pid) (updateStart : Bool) (a : Answers)

/-- A process with its OS process, and the record of a run: whether the OS process polls, the
requests that it was sent and has not answered, the timers that were started, the requests
that were accepted, sent and timed out, and all that came. -/
structure World (ι Pid : Type) [LinearOrder ι] where
  state : State ι Pid
  polls : Bool := false
  osProcess : List (ServiceRequest ι Pid Content) := []
  timers : List (Int × ι × Nat) := []
  accepted : List ι := []
  sent : List ι := []
  timedOut : List ι := []
  transIds : List ι := []

/-- What the process does at an event, and whether a timeout removed its request. -/
def handle (s : State ι Pid) : Event ι Pid → Except Failure (Bool × Result ι Pid)
  | .polling aspectsInit a => (handlePolling aspectsInit a s).map fun r => (false, r)
  | .returns m requestTimeoutF aspects a =>
      (handleReturn m requestTimeoutF aspects a s).map fun r => (false, r)
  | .forward m requestTimeoutF destination aspects a =>
      (handleForward m requestTimeoutF destination aspects a s).map fun r => (false, r)
  | .send r byteSize rateRequestOk aspects =>
      (handleSend r byteSize rateRequestOk aspects s).map fun r => (false, r)
  | .recvTimeout priority transId size =>
      (handleRecvTimeout priority transId size s).map fun (removed, s) => (removed, s, [])
  | .update updatePending sync =>
      (handleUpdate updatePending { sync } s).map fun r => (false, r)
  | .updateNow updateNow updateStart a =>
      (handleUpdateNow updateNow updateStart a s).map fun r => (false, r)

/-- The requests that an event answers. -/
def Event.answers (r : ServiceRequest ι Pid Content) : Event ι Pid → Bool
  | .returns m _ _ _ => m.Names r
  | .forward m _ _ _ _ => m.Names r
  | _ => false

/-- An event that can happen: the OS process begins to poll once, and answers a request that it
has; a timer message comes from a timer, at any time after its start and as often as one
likes. -/
def Enabled (w : World ι Pid) : Event ι Pid → Bool
  | .polling _ _ => !w.polls
  | .returns m _ _ _ => w.osProcess.any fun r => m.Names r
  | .forward m _ _ _ _ => w.osProcess.any fun r => m.Names r
  | .recvTimeout priority transId size => (priority, transId, size) ∈ w.timers
  | _ => true

/-- The request that is sent to the OS process. -/
def Output.sent? : Output ι Pid → Option (ServiceRequest ι Pid Content)
  | .send r => some r
  | _ => none

/-- The timer that is started for a queued request. -/
def Output.timer? : Output ι Pid → Option (Int × ι × Nat)
  | .queue output => output.timer?
  | _ => none

/-- A request that comes is accepted when it is sent or queued. -/
def Output.accepted? : Output ι Pid → Option ι
  | .send r => some r.transId
  | .queue output => output.accepted?
  | _ => none

/-- The requests that come with an event. -/
def Event.transIds : Event ι Pid → List ι
  | .send r _ _ _ => [r.transId]
  | _ => []

/-- Whether the OS process polls after an event. -/
def Event.polls : Event ι Pid → Bool
  | .polling _ _ => true
  | _ => false

/-- The requests that an event accepts. -/
def acceptedBy (event : Event ι Pid) (outs : List (Output ι Pid)) : List ι :=
  match event with
  | .send _ _ _ _ => outs.filterMap Output.accepted?
  | _ => []

/-- The request that an event times out. -/
def timedOutBy (event : Event ι Pid) (removed : Bool) : List ι :=
  match event with
  | .recvTimeout _ transId _ => if removed then [transId] else []
  | _ => []

/-- A step of a run; the process goes on. -/
def next (w : World ι Pid) (event : Event ι Pid) : Option (World ι Pid) :=
  if Enabled w event then
    match handle w.state event with
    | .ok (removed, state, outs) =>
        let sent := outs.filterMap Output.sent?
        some { state
               polls := w.polls || event.polls
               osProcess := w.osProcess.eraseP (event.answers ·) ++ sent
               timers := w.timers ++ outs.filterMap Output.timer?
               accepted := w.accepted ++ acceptedBy event outs
               sent := w.sent ++ sent.map (·.transId)
               timedOut := w.timedOut ++ timedOutBy event removed
               transIds := event.transIds ++ w.transIds }
    | .error _ => none
  else none

/-- The transaction ids are distinct. -/
def Fresh (w : World ι Pid) (event : Event ι Pid) : Prop :=
  ∀ transId ∈ event.transIds, transId ∉ w.transIds

instance (w : World ι Pid) (event : Event ι Pid) : Decidable (Fresh w event) :=
  inferInstanceAs (Decidable (∀ transId ∈ event.transIds, transId ∉ w.transIds))

/-- A process that begins to handle messages. -/
def World.init (options : Options) : World ι Pid where
  state := { options }

end CloudI.ServicesExternal
