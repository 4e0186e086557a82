import CloudI.Erlang.Maps

/-!
# Queue.Basic

The `cloudi_queue` module: a client-side queue that retries service requests
and, with `{ordered, true}`, sends them one at a time.

The service calls (`get_pid`, `get_pids`, `send_async_active`, `trans_id`) and
the monotonic clock belong to the dispatcher process.  They are a parameter:
a `Dispatcher` answers the call made at a time, and every function below
threads the calls made so far, so a quantified dispatcher is any pattern of
answers.  `send_async_active` itself adds to them what it sent.
-/

namespace CloudI.Queue

/-- How a step ends other than by returning. -/
inductive Exit where
  /-- no clause of a function matches its arguments -/
  | functionClause
  /-- no clause of a `case` matches its value -/
  | caseClause
  /-- `erlang:exit(cloudi_queue)` in `failure_kill/0` -/
  | cloudiQueue
  deriving DecidableEq, Repr

/-- The service calls of the dispatcher, by the time they are made at.
`get_pids` never answers with an empty list of processes. -/
structure Dispatcher (ι τ : Type) where
  self : τ
  transId : Nat → ι
  getPid : Nat → (name : τ) → (timeout : Option τ) → Except τ τ
  getPids : Nat → (name : τ) → (timeout : Option τ) → Except τ (τ × List τ)
  refuse : Nat → (name requestInfo request : τ) → (timeout priority : Option τ) →
    (patternPid : τ) → Option τ
  secondsMonotonic : Nat → Int

/-- The `request` record: a request that was sent and has no response yet. -/
structure Request (ι τ : Type) where
  name : τ
  requestInfo : τ
  request : τ
  timeout : Option τ
  priority : Option τ
  id : ι
  patternPid : τ
  retryPatternPid : Bool
  retryCount : Nat := 0
  retryDelay : Bool := false
  deriving DecidableEq

/-- The `request_ordered_send` and `request_ordered_mcast` records. -/
inductive OrderedRequest (ι τ : Type) where
  | send (name requestInfo request : τ) (timeout priority : Option τ) (id : ι)
      (patternPid : Option τ)
  | mcast (name requestInfo request : τ) (timeout priority : Option τ)
  deriving DecidableEq

/-- The `cloudi_queue` record. `failuresSourceMaxPeriod` is `none` for
`infinity`. -/
structure State (ι τ : Type) [LinearOrder ι] where
  retry : Nat := 0
  retryDelay : Nat := 0
  ordered : Bool := false
  timeoutDefault : Option τ := none
  priorityDefault : Option τ := none
  service : Option τ := none
  validateRequestInfo : Option (τ → Bool) := none
  validateRequest : Option (τ → τ → Bool) := none
  validateResponseInfo : Option (τ → Bool) := none
  validateResponse : Option (τ → τ → Bool)
  failuresSourceDie : Bool := false
  failuresSourceMaxCount : Nat := 1
  failuresSourceMaxPeriod : Option Nat := none
  failuresSource : List Int := []
  orderedRequests : List (OrderedRequest ι τ) := []
  orderedPending : Nat := 0
  requests : ErlMap ι (Request ι τ) := ∅

/-- The service calls made so far: how many, which is the time of the next one,
and the transaction id of each send that the dispatcher accepted, in order. -/
structure Calls (ι : Type) where
  time : Nat := 0
  sent : List ι := []
  deriving DecidableEq, Repr

/-- A call that sends nothing. -/
def Calls.next (t : Calls ι) : Calls ι := { t with time := t.time + 1 }

/-- An accepted send. -/
def Calls.send (t : Calls ι) (id : ι) : Calls ι := ⟨t.time + 1, t.sent ++ [id]⟩

@[simp] theorem Calls.time_next (t : Calls ι) : t.next.time = t.time + 1 := rfl

@[simp] theorem Calls.sent_next (t : Calls ι) : t.next.sent = t.sent := rfl

@[simp] theorem Calls.time_send (t : Calls ι) (id : ι) : (t.send id).time = t.time + 1 := rfl

@[simp] theorem Calls.sent_send (t : Calls ι) (id : ι) : (t.send id).sent = t.sent ++ [id] := rfl

variable {ι τ : Type} [LinearOrder ι]

/-! ## send_async_active -/

variable (d : Dispatcher ι τ)

/-- `send_async_active/7`: the dispatcher issues the transaction id. -/
def sendAsyncActive (t : Calls ι) (name requestInfo request : τ)
    (timeout priority : Option τ) (patternPid : τ) : Except τ ι × Calls ι :=
  match d.refuse t.time name requestInfo request timeout priority patternPid with
  | none => (.ok (d.transId t.time), t.send (d.transId t.time))
  | some reason => (.error reason, t.next)

/-- `send_async_active/8`: the transaction id is given and is returned. -/
def sendAsyncActiveId (t : Calls ι) (name requestInfo request : τ)
    (timeout priority : Option τ) (transId : ι) (patternPid : τ) : Except τ ι × Calls ι :=
  match d.refuse t.time name requestInfo request timeout priority patternPid with
  | none => (.ok transId, t.send transId)
  | some reason => (.error reason, t.next)

/-! ## validation and failures -/

def validate (requestInfoF : Option (τ → Bool)) (requestF : Option (τ → τ → Bool))
    (requestInfo request : τ) : Bool :=
  match requestInfoF, requestF with
  | none, none => true
  | none, some rf => rf requestInfo request
  | some rInfoF, none => rInfoF requestInfo
  | some rInfoF, some rf => rInfoF requestInfo && rf requestInfo request

def default (value default : Option τ) : Option τ :=
  match value with
  | none => default
  | some v => some v

/-- `cloudi_timestamp:seconds_filter_monotonic/3`. -/
def secondsFilterMonotonic (secondsNow : Int) (maxPeriod : Nat) :
    List Int → List Int → Nat → Nat × List Int
  | [], output, count => (count, output)
  | seconds :: l, output, count =>
      if secondsNow - seconds > maxPeriod then
        secondsFilterMonotonic secondsNow maxPeriod l output count
      else
        secondsFilterMonotonic secondsNow maxPeriod l (seconds :: output) (count + 1)

def failureStore (failureList : List Int) (failureCount maxCount : Nat) : Except Exit (List Int) :=
  if failureCount = maxCount then .error .cloudiQueue else .ok failureList

def failureCheck (secondsNow : Int) (failureList : List Int) (maxCount : Nat) :
    Option Nat → Except Exit (List Int)
  | none => failureStore (secondsNow :: failureList) (failureList.length + 1) maxCount
  | some maxPeriod =>
      let (failureCountNew, failureListNew) :=
        secondsFilterMonotonic secondsNow maxPeriod failureList [] 0
      failureStore (secondsNow :: failureListNew) (failureCountNew + 1) maxCount

/-- `failure/4` on the fields of the state, at the clock reading of that time. -/
def failure (t : Calls ι) (s : State ι τ) : Except Exit (List Int) :=
  match s.failuresSourceDie with
  | false => .ok s.failuresSource
  | true => failureCheck (d.secondsMonotonic t.time) s.failuresSource s.failuresSourceMaxCount
      s.failuresSourceMaxPeriod

/-! ## sending -/

def queueSendFirst (t : Calls ι) (name requestInfo request : τ)
    (timeout priority patternPid timeoutDefault priorityDefault : Option τ) :
    Except τ (ι × Request ι τ) × Calls ι :=
  let timeoutNew := default timeout timeoutDefault
  let priorityNew := default priority priorityDefault
  match patternPid with
  | none =>
      match d.getPid t.time name timeoutNew with
      | .error reason => (.error reason, t.next)
      | .ok patternPid =>
          match sendAsyncActive d t.next name requestInfo request timeoutNew priorityNew
              patternPid with
          | (.error reason, t) => (.error reason, t)
          | (.ok transId, t) =>
              (.ok (transId,
                { name, requestInfo, request, timeout := timeoutNew, priority := priorityNew,
                  id := transId, patternPid, retryPatternPid := false }), t)
  | some patternPid =>
      match sendAsyncActive d t name requestInfo request timeoutNew priorityNew patternPid with
      | (.error reason, t) => (.error reason, t)
      | (.ok transId, t) =>
          (.ok (transId,
            { name, requestInfo, request, timeout := timeoutNew, priority := priorityNew,
              id := transId, patternPid, retryPatternPid := true }), t)

def queueSendFirstOrdered (t : Calls ι) (name requestInfo request : τ)
    (timeout priority : Option τ) (transId : ι)
    (patternPid timeoutDefault priorityDefault : Option τ) : Except τ (Request ι τ) × Calls ι :=
  let timeoutNew := default timeout timeoutDefault
  let priorityNew := default priority priorityDefault
  match patternPid with
  | none =>
      match d.getPid t.time name timeoutNew with
      | .error reason => (.error reason, t.next)
      | .ok patternPid =>
          match sendAsyncActiveId d t.next name requestInfo request timeoutNew priorityNew
              transId patternPid with
          | (.error reason, t) => (.error reason, t)
          | (.ok transId, t) =>
              (.ok
                { name, requestInfo, request, timeout := timeoutNew, priority := priorityNew,
                  id := transId, patternPid, retryPatternPid := false }, t)
  | some patternPid =>
      match sendAsyncActiveId d t name requestInfo request timeoutNew priorityNew transId
          patternPid with
      | (.error reason, t) => (.error reason, t)
      | (.ok transId, t) =>
          (.ok
            { name, requestInfo, request, timeout := timeoutNew, priority := priorityNew,
              id := transId, patternPid, retryPatternPid := true }, t)

def queueSendRetry (t : Calls ι) (r : Request ι τ) : Except τ (Request ι τ) × Calls ι :=
  match r.retryPatternPid with
  | false =>
      match d.getPid t.time r.name r.timeout with
      | .error reason => (.error reason, t.next)
      | .ok patternPidNew =>
          match sendAsyncActiveId d t.next r.name r.requestInfo r.request r.timeout
              r.priority r.id patternPidNew with
          | (.error reason, t) => (.error reason, t)
          | (.ok _, t) => (.ok { r with patternPid := patternPidNew }, t)
  | true =>
      match sendAsyncActiveId d t r.name r.requestInfo r.request r.timeout r.priority r.id
          r.patternPid with
      | (.error reason, t) => (.error reason, t)
      | (.ok _, t) => (.ok r, t)

/-- `queue_mcast_send/10`: the error, if any, the pending count and the map. -/
def queueMcastSend (d : Dispatcher ι τ) (name requestInfo request : τ)
    (timeout priority : Option τ) (ordered : Bool) :
    List τ → Calls ι → Nat → ErlMap ι (Request ι τ) →
      (Option τ × Nat × ErlMap ι (Request ι τ)) × Calls ι
  | [], t, orderedPending, requests => ((none, orderedPending, requests), t)
  | patternPid :: patternPids, t, orderedPending, requests =>
      match sendAsyncActive d t name requestInfo request timeout priority patternPid with
      | (.error reason, t) => ((some reason, orderedPending, requests), t)
      | (.ok transId, t) =>
          let requestState : Request ι τ :=
            { name, requestInfo, request, timeout, priority, id := transId, patternPid,
              retryPatternPid := true }
          let orderedPendingNew := if ordered then orderedPending + 1 else orderedPending
          queueMcastSend d name requestInfo request timeout priority ordered patternPids
            t orderedPendingNew (Maps.put transId requestState requests)

def queueMcast (t : Calls ι) (name requestInfo request : τ)
    (timeout priority : Option τ) (requests : ErlMap ι (Request ι τ)) (ordered : Bool)
    (timeoutDefault priorityDefault : Option τ) :
    (Option τ × Nat × ErlMap ι (Request ι τ)) × Calls ι :=
  let timeoutNew := default timeout timeoutDefault
  let priorityNew := default priority priorityDefault
  match d.getPids t.time name timeoutNew with
  | .error reason => ((some reason, 0, requests), t.next)
  | .ok (patternPid, patternPids) =>
      queueMcastSend d name requestInfo request timeoutNew priorityNew ordered
        (patternPid :: patternPids) t.next 0 requests

/-! ## the ordered queue -/

/-- `ordered_send/3`: the error, if any, and the new state. -/
def orderedSend (t : Calls ι) (name requestInfo request : τ)
    (timeout priority : Option τ) (transId : ι) (patternPid : Option τ) (s : State ι τ) :
    Except Exit ((Option τ × State ι τ) × Calls ι) :=
  match queueSendFirstOrdered d t name requestInfo request timeout priority transId
      patternPid s.timeoutDefault s.priorityDefault with
  | (.ok requestState, t) =>
      .ok ((none, { s with
        orderedPending := 1
        requests := Maps.put transId requestState s.requests }), t)
  | (.error reason, t) => do
      let failuresSrcNew ← failure d t s
      return ((some reason, { s with failuresSource := failuresSrcNew }), t)

def orderedMcast (t : Calls ι) (name requestInfo request : τ)
    (timeout priority : Option τ) (s : State ι τ) :
    Except Exit ((Option τ × State ι τ) × Calls ι) :=
  match queueMcast d t name requestInfo request timeout priority s.requests true
      s.timeoutDefault s.priorityDefault with
  | ((none, orderedPending, requestsNew), t) =>
      .ok ((none, { s with orderedPending, requests := requestsNew }), t)
  | ((some reason, orderedPending, requestsNew), t) => do
      let failuresSrcNew ← failure d t s
      return ((some reason, { s with
        failuresSource := failuresSrcNew
        orderedPending
        requests := requestsNew }), t)

/-- Send one queued request: the two non-empty branches of `queue:out/1` in
`ordered_check/2`. -/
def orderedNext (t : Calls ι) (s : State ι τ) :
    OrderedRequest ι τ → Except Exit ((Option τ × State ι τ) × Calls ι)
  | .send name requestInfo request timeout priority id patternPid =>
      orderedSend d t name requestInfo request timeout priority id patternPid s
  | .mcast name requestInfo request timeout priority =>
      orderedMcast d t name requestInfo request timeout priority s

/-- `ordered_check/2`. The first argument is the queue of the state, which the
recursion consumes: `orderedNext` leaves the rest of it in the state. -/
def orderedCheck (d : Dispatcher ι τ) :
    List (OrderedRequest ι τ) → Calls ι → State ι τ → Except Exit (State ι τ × Calls ι)
  | queue, t, s =>
      match s.ordered, s.orderedPending with
      | true, 1 =>
          match queue with
          | [] => .ok ({ s with orderedRequests := [], orderedPending := 0 }, t)
          | next :: rest => do
              let ((result, stateNew), t) ←
                orderedNext d t { s with orderedRequests := rest, orderedPending := 0 } next
              match result with
              | none => return (stateNew, t)
              | some _ =>
                  if stateNew.orderedPending = 0 then orderedCheck d rest t stateNew
                  else return (stateNew, t)
      | true, n + 2 => .ok ({ s with orderedPending := n + 1 }, t)
      | false, 0 => .ok (s, t)
      | _, _ => .error .functionClause

end CloudI.Queue
