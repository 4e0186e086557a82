import CloudI.Erlang.Binary
import CloudI.Erlang.Maps
import CloudI.Library.Flight

/-!
# ServicesInternal.Send

The outgoing requests of the dispatcher of an internal service: sends, returns,
timeouts, and the death of destinations.

What surrounds a request and no branch reads (the names, the request, its
priority) is one value.  The lookup of a destination, the ids that the UUID
generator gives and the answers of `cancel_timer` come with the message that is
handled.  `none` is a dispatcher that exits.
-/

namespace CloudI.ServicesInternal

open Flight CloudI.Lists

variable {ι Pid χ κ : Type} [LinearOrder ι] [LinearOrder Pid]
  [DecidableEq χ]

/-- A reference, of a monitor or of a timer. -/
abbrev Reference := Nat

/-- The first element of a `send_timeouts` value. -/
inductive SendType (χ : Type) where
  | active
  | passive
  | client (c : χ)
  deriving DecidableEq

/-- A `send_timeouts` value. -/
structure SendTimeout (Pid χ : Type) where
  type : SendType χ
  pid : Option Pid
  tref : Reference

/-- `request_name_lookup`. -/
inductive RequestNameLookup where
  | sync
  | async
  deriving DecidableEq

/-- The service options that outgoing requests depend on. -/
structure Options where
  requestTimeoutImmediateMax : Nat
  responseTimeoutAdjustment : Bool
  requestNameLookup : RequestNameLookup

/-- The part of `#state{}` that outgoing requests use. -/
structure State (ι Pid χ : Type) [LinearOrder ι] [LinearOrder Pid] where
  sendTimeouts : ErlMap ι (SendTimeout Pid χ) := ∅
  sendTimeoutMonitors : ErlMap Pid (Reference × List ι) := ∅
  asyncResponses : ErlMap ι (Binary × Binary) := ∅
  timeoutAsync : Nat
  timeoutSync : Nat
  receiverPid : Pid
  options : Options
  nextReference : Reference := 0

/-- The sends of a service that look their destination up. -/
inductive SendKind where
  | async
  | asyncActive
  | sync
  | mcastAsync
  | mcastAsyncActive
  deriving DecidableEq

/-- A send that waits for a destination, as its retry message has it. -/
structure Retry (χ κ : Type) where
  kind : SendKind
  content : κ
  timeout : Nat
  client : χ

/-- A reply to a client. -/
inductive Reply (ι : Type) where
  | timeout
  | transId (transId : ι)
  | transIdList (transIdList : List ι)
  | response (response : Binary)
  | responseInfo (responseInfo response : Binary)

/-- The messages that the dispatcher sends itself, by a timer or at once. -/
inductive Message (ι χ κ : Type) where
  | retry (retry : Retry χ κ)
  | sendAsyncTimeout (transId : ι)
  | sendSyncTimeout (transId : ι)
  | recvAsyncTimeout (transId : ι)

/-- What the dispatcher does besides changing its state. -/
inductive Output (ι Pid χ κ : Type) where
  | sendAsync (pid : Pid) (content : κ) (timeout : Nat) (transId : ι) (source : Pid)
  | sendSync (pid : Pid) (content : κ) (timeout : Nat) (transId : ι) (source : Pid)
  | reply (client : χ) (reply : Reply ι)
  | returnAsyncActive (content : κ) (responseInfo response : Binary) (timeout : Nat)
      (transId : ι)
  | timeoutAsyncActive (transId : ι)
  | monitor (pid : Pid) (ref : Reference)
  | demonitor (ref : Reference)
  | sendAfter (timeout : Nat) (message : Message ι χ κ)
  | cancelTimer (tref : Reference)
  | self (message : Message ι χ κ)
  | info (pid : Pid)

/-- The state after a message was handled, and what was done. -/
abbrev Result (ι Pid χ κ : Type) [LinearOrder ι] [LinearOrder Pid] :=
  State ι Pid χ × List (Output ι Pid χ κ)

/-! ## the timeouts of sent requests -/

/-- The message that times a request out. -/
def timeoutMessage (type : SendType χ) (transId : ι) : Message ι χ κ :=
  match type with
  | .active | .passive => .sendAsyncTimeout transId
  | .client _ => .sendSyncTimeout transId

/-- **Start of a timeout**: what `send_async_timeout_start`, `send_sync_timeout_start` and
`send_async_active_timeout_start` do for their type.  The destination is monitored when
the timeout is not below `request_timeout_immediate_max`. -/
def timeoutStart (type : SendType χ) (timeout : Nat) (transId : ι) (pid : Pid)
    (s : State ι Pid χ) : Result ι Pid χ κ :=
  let start : Output ι Pid χ κ :=
    .sendAfter timeout (timeoutMessage type transId)
  if s.options.requestTimeoutImmediateMax ≤ timeout then
    match Maps.find pid s.sendTimeoutMonitors with
    | some (ref, transIdList) =>
        ({ s with
           sendTimeouts := Maps.put transId ⟨type, some pid, s.nextReference⟩ s.sendTimeouts
           sendTimeoutMonitors :=
            Maps.put pid (ref, umerge transIdList [transId]) s.sendTimeoutMonitors
           nextReference := s.nextReference + 1 }, [start])
    | none =>
        ({ s with
           sendTimeouts := Maps.put transId ⟨type, some pid, s.nextReference + 1⟩ s.sendTimeouts
           sendTimeoutMonitors :=
            Maps.put pid (s.nextReference, [transId]) s.sendTimeoutMonitors
           nextReference := s.nextReference + 2 }, [.monitor pid s.nextReference, start])
  else
    ({ s with
       sendTimeouts := Maps.put transId ⟨type, none, s.nextReference⟩ s.sendTimeouts
       nextReference := s.nextReference + 1 }, [start])

def sendAsyncTimeoutStart (timeout : Nat) (transId : ι) (pid : Pid)
    (s : State ι Pid χ) : Result ι Pid χ κ :=
  timeoutStart .passive timeout transId pid s

def sendSyncTimeoutStart (timeout : Nat) (transId : ι) (pid : Pid) (client : χ)
    (s : State ι Pid χ) : Result ι Pid χ κ :=
  timeoutStart (.client client) timeout transId pid s

def sendAsyncActiveTimeoutStart (timeout : Nat) (transId : ι) (pid : Pid)
    (s : State ι Pid χ) : Result ι Pid χ κ :=
  timeoutStart .active timeout transId pid s

def sendTimeoutEnd (transId : ι) (pid : Option Pid) (s : State ι Pid χ) : Result ι Pid χ κ :=
  let ended := { s with sendTimeouts := Maps.remove transId s.sendTimeouts }
  match pid with
  | none => (ended, [])
  | some pid =>
      match Maps.find pid s.sendTimeoutMonitors with
      | some (ref, transIdList) =>
          if transIdList = [transId] then
            ({ ended with sendTimeoutMonitors := Maps.remove pid s.sendTimeoutMonitors },
              [.demonitor ref])
          else
            ({ ended with
               sendTimeoutMonitors :=
                Maps.put pid (ref, transIdList.erase transId) s.sendTimeoutMonitors }, [])
      | none => (ended, [])

variable (cancel : Reference → Option Nat)

/-- One request of a dead destination: its timer is cancelled and its timeout message sent
at once, unless the timer has sent it. -/
def sendTimeoutDeadEach
    (d : ErlMap ι (SendTimeout Pid χ) × List (Output ι Pid χ κ)) (transId : ι) :
    ErlMap ι (SendTimeout Pid χ) × List (Output ι Pid χ κ) :=
  match Maps.find transId d.1 with
  | some ⟨type, _, tref⟩ =>
      (Maps.put transId ⟨type, none, tref⟩ d.1,
        d.2 ++ .cancelTimer tref ::
          if (cancel tref).isSome then [.self (timeoutMessage type transId)] else [])
  | none => d

/-- `send_timeout_dead/2`; the flag tells whether a request to the pid was outstanding. -/
def sendTimeoutDead (pid : Pid) (s : State ι Pid χ) : Bool × Result ι Pid χ κ :=
  match Maps.find pid s.sendTimeoutMonitors with
  | some (_, transIdList) =>
      let d := transIdList.foldl (sendTimeoutDeadEach cancel) (s.sendTimeouts, [])
      (true, { s with
               sendTimeouts := d.1
               sendTimeoutMonitors := Maps.remove pid s.sendTimeoutMonitors }, d.2)
  | none => (false, s, [])

/-! ## sends -/

/-- What `destination_get` and `destination_all` give: the destinations, each with the id
that the UUID generator has for the request to it. -/
inductive Lookup (ι Pid : Type) where
  | timeout
  | error
  | ok (dests : List (Pid × ι))

/-- `?SEND_ASYNC_INTERVAL`. -/
def sendAsyncInterval : Nat := 500

/-- `?SEND_SYNC_INTERVAL`. -/
def sendSyncInterval : Nat := 500

/-- `?MCAST_ASYNC_INTERVAL`. -/
def mcastAsyncInterval : Nat := 500

/-- **A send by name**: the branches that the `handle_send_*` and `handle_mcast_*` functions
share.  A failed lookup is tried again after `interval` while the timeout lasts. -/
def handleSend (interval : Nat) (r : Retry χ κ) (lookup : Lookup ι Pid) (s : State ι Pid χ)
    (found : List (Pid × ι) → Option (Result ι Pid χ κ)) : Option (Result ι Pid χ κ) :=
  match lookup with
  | .timeout => some (s, [.reply r.client .timeout])
  | .error =>
      if s.options.requestNameLookup = .async then some (s, [.reply r.client .timeout])
      else if interval ≤ r.timeout then
        some (s, [.sendAfter interval (.retry { r with timeout := r.timeout - interval })])
      else some (s, [.reply r.client .timeout])
  | .ok dests => found dests

variable (content : κ)

def handleSendAsyncPid (timeout : Nat) (pid : Pid) (transId : ι)
    (client : χ) (s : State ι Pid χ) : Result ι Pid χ κ :=
  let (s', outs) := sendAsyncTimeoutStart timeout transId pid s
  (s', .sendAsync pid content timeout transId s.receiverPid ::
    .reply client (.transId transId) :: outs)

def handleSendAsyncActivePid (timeout : Nat) (pid : Pid) (transId : ι)
    (client : χ) (s : State ι Pid χ) : Result ι Pid χ κ :=
  let (s', outs) := sendAsyncActiveTimeoutStart timeout transId pid s
  (s', .sendAsync pid content timeout transId s.receiverPid ::
    .reply client (.transId transId) :: outs)

def handleSendSyncPid (timeout : Nat) (pid : Pid) (transId : ι)
    (client : χ) (s : State ι Pid χ) : Result ι Pid χ κ :=
  let (s', outs) := sendSyncTimeoutStart timeout transId pid client s
  (s', .sendSync pid content timeout transId s.receiverPid :: outs)

/-- The loop of `handle_mcast_async_pids` and `handle_mcast_async_pids_active`. -/
def handleMcastPids (start : ι → Pid → State ι Pid χ →
      Result ι Pid χ κ)
    (content : κ) (timeout : Nat) (client : χ) :
    List ι → List (Pid × ι) → State ι Pid χ →
      Result ι Pid χ κ
  | transIdList, [], s => (s, [.reply client (.transIdList transIdList.reverse)])
  | transIdList, (pid, transId) :: dests, s =>
      let (s', outs) := start transId pid s
      let (s'', outs') :=
        handleMcastPids start content timeout client (transId :: transIdList) dests s'
      (s'', .sendAsync pid content timeout transId s.receiverPid :: outs ++ outs')

def handleMcastAsyncPids (timeout : Nat) (client : χ) :
    List ι → List (Pid × ι) → State ι Pid χ →
      Result ι Pid χ κ :=
  handleMcastPids (sendAsyncTimeoutStart timeout) content timeout client

def handleMcastAsyncPidsActive (timeout : Nat) (client : χ) :
    List ι → List (Pid × ι) → State ι Pid χ →
      Result ι Pid χ κ :=
  handleMcastPids (sendAsyncActiveTimeoutStart timeout) content timeout client

/-- A lookup by `destination_get` has one destination. -/
def destinationGet (found : Pid → ι → Result ι Pid χ κ) :
    List (Pid × ι) → Option (Result ι Pid χ κ)
  | [(pid, transId)] => some (found pid transId)
  | _ => none

variable (r : Retry χ κ) (lookup : Lookup ι Pid) (s : State ι Pid χ)

def handleSendAsync : Option (Result ι Pid χ κ) :=
  handleSend sendAsyncInterval r lookup s <| destinationGet fun pid transId =>
    handleSendAsyncPid r.content r.timeout pid transId r.client s

def handleSendAsyncActive : Option (Result ι Pid χ κ) :=
  handleSend sendAsyncInterval r lookup s <| destinationGet fun pid transId =>
    handleSendAsyncActivePid r.content r.timeout pid transId r.client s

def handleSendSync : Option (Result ι Pid χ κ) :=
  handleSend sendSyncInterval r lookup s <| destinationGet fun pid transId =>
    handleSendSyncPid r.content r.timeout pid transId r.client s

def handleMcastAsync : Option (Result ι Pid χ κ) :=
  handleSend mcastAsyncInterval r lookup s fun dests =>
    some (handleMcastAsyncPids r.content r.timeout r.client [] dests s)

def handleMcastAsyncActive : Option (Result ι Pid χ κ) :=
  handleSend mcastAsyncInterval r lookup s fun dests =>
    some (handleMcastAsyncPidsActive r.content r.timeout r.client [] dests s)

/-- The handling of a send, at its call and at each retry. -/
def handleSendKind : Option (Result ι Pid χ κ) :=
  match r.kind with
  | .async => handleSendAsync r lookup s
  | .asyncActive => handleSendAsyncActive r lookup s
  | .sync => handleSendSync r lookup s
  | .mcastAsync => handleMcastAsync r lookup s
  | .mcastAsyncActive => handleMcastAsyncActive r lookup s

/-- The timeout of a send that gives none. -/
def defaultTimeout (kind : SendKind) (s : State ι Pid χ) : Nat :=
  match kind with
  | .sync => s.timeoutSync
  | _ => s.timeoutAsync

/-- `handle_call` of a send by name; `allowed` is `destination_allowed`. -/
def handleCallSend (kind : SendKind) (content : κ) (timeout : Option Nat) (client : χ)
    (allowed : Bool) (lookup : Lookup ι Pid) (s : State ι Pid χ) : Option (Result ι Pid χ κ) :=
  if allowed then
    handleSendKind ⟨kind, content, timeout.getD (defaultTimeout kind s), client⟩ lookup s
  else some (s, [.reply client .timeout])

/-- `handle_call` of a send to a pid. -/
def handleCallSendPid (kind : SendKind) (content : κ) (timeout : Option Nat)
    (client : χ) (pid : Pid) (transId : ι) (s : State ι Pid χ) : Option (Result ι Pid χ κ) :=
  let timeout := timeout.getD (defaultTimeout kind s)
  match kind with
  | .async => some (handleSendAsyncPid content timeout pid transId client s)
  | .asyncActive => some (handleSendAsyncActivePid content timeout pid transId client s)
  | .sync => some (handleSendSyncPid content timeout pid transId client s)
  | .mcastAsync | .mcastAsyncActive => none

/-! ## returns and timeouts -/

/-- A return message. -/
structure Return (ι Pid κ : Type) where
  content : κ
  responseInfo : Binary
  response : Binary
  oldTimeout : Nat
  transId : ι
  source : Pid

variable (r : Return ι Pid κ)

/-- A response without content stands for a timeout. -/
def Return.isNull : Bool := r.responseInfo = [] ∧ r.response = []

variable (s : State ι Pid χ)

/-- Whether the return of a request cancels its timer. -/
def cancels : Bool :=
  s.options.responseTimeoutAdjustment ∨ s.options.requestTimeoutImmediateMax ≤ r.oldTimeout

/-- The timeout that is left to a response. -/
def returnTimeout (tref : Reference) (r : Return ι Pid κ) (s : State ι Pid χ) : Nat :=
  if cancels r s then (cancel tref).getD 0 else r.oldTimeout

/-- The timer of a request cancelled, as the return of the request says. -/
def cancelOutput (tref : Reference) (r : Return ι Pid κ)
    (s : State ι Pid χ) : List (Output ι Pid χ κ) :=
  if cancels r s then [.cancelTimer tref] else []

def asyncResponseTimeoutStart (responseInfo response : Binary) (timeout : Nat)
    (transId : ι) (s : State ι Pid χ) : Result ι Pid χ κ :=
  if timeout = 0 then (s, [])
  else
    ({ s with asyncResponses := Maps.put transId (responseInfo, response) s.asyncResponses },
      [.sendAfter timeout (.recvAsyncTimeout transId)])

/-- A result with more done before it. -/
def before (outs : List (Output ι Pid χ κ)) (r : Result ι Pid χ κ) : Result ι Pid χ κ :=
  (r.1, outs ++ r.2)

/-- `handle_info` of `cloudi_service_return_async`. -/
def handleReturnAsync : Option (Result ι Pid χ κ) :=
  if r.source ≠ s.receiverPid then none
  else
    match Maps.find r.transId s.sendTimeouts with
    -- send_async timeout already occurred
    | none => some (s, [])
    | some ⟨.active, pid, tref⟩ =>
        let out : Output ι Pid χ κ :=
          if r.isNull then .timeoutAsyncActive r.transId
          else .returnAsyncActive r.content r.responseInfo r.response
            (returnTimeout cancel tref r s) r.transId
        some (before (cancelOutput tref r s ++ [out]) (sendTimeoutEnd r.transId pid s))
    | some ⟨.passive, pid, tref⟩ =>
        if r.isNull then
          some (before (cancelOutput tref r s) (sendTimeoutEnd r.transId pid s))
        else
          let (s', outs) := asyncResponseTimeoutStart r.responseInfo r.response
            (returnTimeout cancel tref r s) r.transId s
          some (before (cancelOutput tref r s ++ outs) (sendTimeoutEnd r.transId pid s'))
    | some ⟨.client _, _, _⟩ => none

/-- The reply to a `send_sync` client. -/
def Return.reply : Reply ι :=
  if r.isNull then .timeout
  else if r.responseInfo = [] then .response r.response
  else .responseInfo r.responseInfo r.response

/-- `handle_info` of `cloudi_service_return_sync`; `gen_server:reply` fails without a
client. -/
def handleReturnSync : Option (Result ι Pid χ κ) :=
  if r.source ≠ s.receiverPid then none
  else
    match Maps.find r.transId s.sendTimeouts with
    -- send_async timeout already occurred
    | none => some (s, [])
    | some ⟨.client client, pid, tref⟩ =>
        some (before (cancelOutput tref r s ++ [.reply client r.reply])
          (sendTimeoutEnd r.transId pid s))
    | some ⟨_, _, _⟩ => none

/-- `handle_info` of `cloudi_service_send_async_timeout`. -/
def handleSendAsyncTimeout (transId : ι) (s : State ι Pid χ) : Option (Result ι Pid χ κ) :=
  match Maps.find transId s.sendTimeouts with
  -- timer may have sent before being cancelled
  | none => some (s, [])
  | some ⟨.active, pid, _⟩ =>
      some (before [.timeoutAsyncActive transId] (sendTimeoutEnd transId pid s))
  | some ⟨.passive, pid, _⟩ => some (sendTimeoutEnd transId pid s)
  | some ⟨.client _, _, _⟩ => none

/-- `handle_info` of `cloudi_service_send_sync_timeout`. -/
def handleSendSyncTimeout (transId : ι) (s : State ι Pid χ) : Option (Result ι Pid χ κ) :=
  match Maps.find transId s.sendTimeouts with
  -- timer may have sent before being cancelled
  | none => some (s, [])
  | some ⟨.client client, pid, _⟩ =>
      some (before [.reply client .timeout] (sendTimeoutEnd transId pid s))
  | some ⟨_, _, _⟩ => none

/-- `handle_info` of `DOWN`; a pid of no request is left to the service. -/
def handleDown (pid : Pid) (s : State ι Pid χ) : Result ι Pid χ κ :=
  match sendTimeoutDead cancel pid s with
  | (true, s', outs) => (s', outs)
  | (false, s', outs) => (s', outs ++ [.info pid])

/-! ## runs -/

/-- What the dispatcher handles, with the answers it gets while it does. -/
inductive Event (ι Pid χ κ : Type) where
  | call (kind : SendKind) (content : κ) (timeout : Option Nat) (client : χ)
      (allowed : Bool) (lookup : Lookup ι Pid)
  | callPid (kind : SendKind) (content : κ) (timeout : Option Nat) (client : χ)
      (pid : Pid) (transId : ι)
  | retry (client : χ) (lookup : Lookup ι Pid)
  | returnAsync (r : Return ι Pid κ) (cancel : Reference → Option Nat)
  | returnSync (r : Return ι Pid κ)
  | sendAsyncTimeout (transId : ι)
  | sendSyncTimeout (transId : ι)
  | down (pid : Pid) (cancel : Reference → Option Nat)
  | update (options : Options)

/-- A dispatcher, the retry messages under way, and the record of a run: the monitors in
place, all that was done, and the ids and clients there have been. -/
structure World (ι Pid χ κ : Type) [LinearOrder ι] [LinearOrder Pid] where
  state : State ι Pid χ
  retries : List (Retry χ κ) := []
  monitoring : List (Pid × Reference) := []
  history : List (Output ι Pid χ κ) := []
  transIds : List ι := []
  clients : List χ := []

variable (w : World ι Pid χ κ)

/-- What the dispatcher does at an event. -/
def handle :
    Event ι Pid χ κ → Option (Result ι Pid χ κ)
  | .call kind content timeout client allowed lookup =>
      handleCallSend kind content timeout client allowed lookup w.state
  | .callPid kind content timeout client pid transId =>
      handleCallSendPid kind content timeout client pid transId w.state
  | .retry client lookup =>
      (takeFirst (fun r => r.client = client) w.retries).bind fun (r, _) =>
        handleSendKind r lookup w.state
  | .returnAsync r cancel => handleReturnAsync cancel r w.state
  | .returnSync r => handleReturnSync r w.state
  | .sendAsyncTimeout transId => handleSendAsyncTimeout transId w.state
  | .sendSyncTimeout transId => handleSendSyncTimeout transId w.state
  | .down pid cancel => some (handleDown cancel pid w.state)
  | .update options => some ({ w.state with options }, [])

/-- The ids of the requests that a lookup leads to. -/
def Lookup.transIds : Lookup ι Pid → List ι
  | .ok dests => dests.map (·.2)
  | _ => []

/-- The ids that come up at an event. -/
def Event.transIds : Event ι Pid χ κ → List ι
  | .call _ _ _ _ _ lookup | .retry _ lookup => lookup.transIds
  | .callPid _ _ _ _ _ transId => [transId]
  | _ => []

/-- The client that comes up at an event. -/
def Event.clients : Event ι Pid χ κ → List χ
  | .call _ _ _ client _ _ | .callPid _ _ _ client _ _ => [client]
  | _ => []

/-- The retry messages that are left when an event is handled. -/
def retriesLeft :
    Event ι Pid χ κ → List (Retry χ κ)
  | .retry client _ => ((takeFirst (fun r => r.client = client) w.retries).map (·.2)).getD w.retries
  | _ => w.retries

/-- The monitors that are left when an event is handled: a dead process has none. -/
def monitoringLeft :
    Event ι Pid χ κ → List (Pid × Reference)
  | .down pid _ => w.monitoring.filter (·.1 ≠ pid)
  | _ => w.monitoring

/-- The retry message that an output starts. -/
def Output.retry? : Output ι Pid χ κ → Option (Retry χ κ)
  | .sendAfter _ (.retry r) => some r
  | _ => none

/-- The monitors after an output. -/
def monitorsAfter (monitoring : List (Pid × Reference)) :
    Output ι Pid χ κ → List (Pid × Reference)
  | .monitor pid ref => (pid, ref) :: monitoring
  | .demonitor ref => monitoring.filter (·.2 ≠ ref)
  | _ => monitoring

/-- A step of a run. -/
def next (event : Event ι Pid χ κ) : Option (World ι Pid χ κ) :=
  (handle w event).map fun (state, outs) =>
    { state
      retries := retriesLeft w event ++ outs.filterMap Output.retry?
      monitoring := outs.foldl monitorsAfter (monitoringLeft w event)
      history := w.history ++ outs
      transIds := event.transIds ++ w.transIds
      clients := event.clients ++ w.clients }

/-- The ids and the clients of an event are new. -/
def Fresh (event : Event ι Pid χ κ) : Prop :=
  event.transIds.Nodup ∧ (∀ transId ∈ event.transIds, transId ∉ w.transIds) ∧
    ∀ client ∈ event.clients, client ∉ w.clients

end CloudI.ServicesInternal
