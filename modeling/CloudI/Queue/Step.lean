import CloudI.Queue.Basic
import CloudI.Library.Run

/-!
# Queue.Step

The external functions of `cloudi_queue` that change its state — `new`,
`send_id`, `mcast`, `recv_id` and `timeout` — and the step function of a queue
in use: each call and each received message is one step.

`recv_id` and `timeout` take `ordered_check/2` as a parameter, so that the
code's check and the check it is meant to be can be put in the same place.
-/

namespace CloudI.Queue

/-- The options of `new/1`, with the checks it makes on them. -/
structure Options (τ : Type) where
  retry : Nat
  retryDelay : Nat
  ordered : Bool
  timeoutDefault : Option τ
  priorityDefault : Option τ
  validateRequestInfo : Option (τ → Bool)
  validateRequest : Option (τ → τ → Bool)
  validateResponseInfo : Option (τ → Bool)
  validateResponse : Option (τ → τ → Bool)
  failuresSourceDie : Bool
  failuresSourceMaxCount : Nat
  failuresSourceMaxPeriod : Option Nat
  retryDelay_le : retryDelay ≤ 4294967295
  maxCount_pos : 0 < failuresSourceMaxCount
  maxPeriod_pos : ∀ p ∈ failuresSourceMaxPeriod, 0 < p

/-- Why a request failed: the atom `timeout`, or the error of a service call. -/
inductive Reason (τ : Type) where
  | timeout
  | service (reason : τ)
  deriving DecidableEq, Repr

/-- What an external function returns beside the new state. -/
inductive Reply (ι τ : Type) where
  | ok
  | okId (id : ι)
  | error (reason : Reason τ)
  | ignored
  deriving DecidableEq, Repr

variable {ι τ : Type} [LinearOrder ι]

def new (o : Options τ) : State ι τ where
  retry := o.retry
  retryDelay := o.retryDelay
  ordered := o.ordered
  timeoutDefault := o.timeoutDefault
  priorityDefault := o.priorityDefault
  validateRequestInfo := o.validateRequestInfo
  validateRequest := o.validateRequest
  validateResponseInfo := o.validateResponseInfo
  validateResponse := o.validateResponse
  failuresSourceDie := o.failuresSourceDie
  failuresSourceMaxCount := o.failuresSourceMaxCount
  failuresSourceMaxPeriod := o.failuresSourceMaxPeriod

/-! ## send and mcast -/

/-- An error reply with the failure counted. -/
def failed (d : Dispatcher ι τ) (t : Calls ι) (reason : Reason τ) (s : State ι τ) :
    Except Exit ((Reply ι τ × State ι τ) × Calls ι) := do
  let failuresSrcNew ← failure d t s
  return ((.error reason, { s with failuresSource := failuresSrcNew }), t)

def sendId (d : Dispatcher ι τ) (t : Calls ι) (name requestInfo request : τ)
    (timeout priority patternPid : Option τ) (s : State ι τ) :
    Except Exit ((Reply ι τ × State ι τ) × Calls ι) :=
  if s.ordered ∧ 0 < s.orderedPending then
    match validate s.validateRequestInfo s.validateRequest requestInfo request with
    | true =>
        let transId := d.transId t.time
        .ok ((.okId transId, { s with
          orderedRequests := s.orderedRequests ++
            [.send name requestInfo request timeout priority transId patternPid] }), t.next)
    | false => failed d t .timeout s
  else
    match validate s.validateRequestInfo s.validateRequest requestInfo request with
    | true =>
        match queueSendFirst d t name requestInfo request timeout priority patternPid
            s.timeoutDefault s.priorityDefault with
        | (.ok (transId, requestState), t) =>
            .ok ((.okId transId, { s with
              orderedPending := if s.ordered then 1 else 0
              requests := Maps.put transId requestState s.requests }), t)
        | (.error reason, t) => failed d t (.service reason) s
    | false => failed d t .timeout s

def mcast (d : Dispatcher ι τ) (t : Calls ι) (name requestInfo request : τ)
    (timeout priority : Option τ) (s : State ι τ) :
    Except Exit ((Reply ι τ × State ι τ) × Calls ι) :=
  if s.ordered ∧ 0 < s.orderedPending then
    match validate s.validateRequestInfo s.validateRequest requestInfo request with
    | true =>
        .ok ((.ok, { s with
          orderedRequests := s.orderedRequests ++
            [.mcast name requestInfo request timeout priority] }), t)
    | false => failed d t .timeout s
  else
    match validate s.validateRequestInfo s.validateRequest requestInfo request with
    | true =>
        match queueMcast d t name requestInfo request timeout priority s.requests s.ordered
            s.timeoutDefault s.priorityDefault with
        | ((none, orderedPending, requestsNew), t) =>
            .ok ((.ok, { s with orderedPending, requests := requestsNew }), t)
        | ((some reason, orderedPending, requestsNew), t) =>
            failed d t (.service reason) { s with orderedPending, requests := requestsNew }
    | false => failed d t .timeout s

/-! ## recv_id and timeout -/

section Check

variable (check : List (OrderedRequest ι τ) → Calls ι → State ι τ → Except Exit (State ι τ × Calls ι))

/-- Reply after `ordered_check/2` of the state. -/
def checked (reply : Reply ι τ) (t : Calls ι) (s : State ι τ) :
    Except Exit ((Reply ι τ × State ι τ) × Calls ι) := do
  let (s, t) ← check s.orderedRequests t s
  return ((reply, s), t)

def recvId (d : Dispatcher ι τ) (t : Calls ι) (responseInfo response : τ) (transId : ι)
    (s : State ι τ) : Except Exit ((Reply ι τ × State ι τ) × Calls ι) :=
  match Maps.take transId s.requests with
  | none => .ok ((.ignored, s), t)
  | some (requestState, requestsNew) =>
      match validate s.validateResponseInfo s.validateResponse responseInfo response with
      | true => checked check (.okId requestState.id) t { s with requests := requestsNew }
      | false => do
          let failuresSrcNew ← failure d t s
          checked check (.error .timeout) t
            { s with failuresSource := failuresSrcNew, requests := requestsNew }

/-- `timeout/3`. The message that `erlang:send_after` delays is a later
`timeout` step. -/
def timeout (d : Dispatcher ι τ) (t : Calls ι) (transId : ι) (s : State ι τ) :
    Except Exit ((Reply ι τ × State ι τ) × Calls ι) :=
  match Maps.find transId s.requests with
  | none => .ok ((.ignored, s), t)
  | some requestState =>
      if requestState.retryCount = s.retry then do
        let failuresSrcNew ← failure d t s
        checked check (.error .timeout) t
          { s with failuresSource := failuresSrcNew
                   requests := Maps.remove transId s.requests }
      else if requestState.retryDelay = false ∧ 0 < s.retryDelay then
        let service := s.service.getD d.self
        .ok ((.ok, { s with
          service := some service
          requests := Maps.put transId { requestState with retryDelay := true } s.requests }), t)
      else if requestState.retryCount < s.retry then
        match queueSendRetry d t requestState with
        | (.ok requestStateNew, t) =>
            .ok ((.ok, { s with
              requests := Maps.put transId { requestStateNew with
                retryCount := requestState.retryCount + 1, retryDelay := false } s.requests }), t)
        | (.error reason, t) => do
            let failuresSrcNew ← failure d t s
            checked check (.error (.service reason)) t
              { s with failuresSource := failuresSrcNew
                       requests := Maps.remove transId s.requests }
      else .error .caseClause

end Check

/-! ## a queue in use -/

/-- A call on the queue or a message given to it. -/
inductive Op (ι τ : Type) where
  | send (name requestInfo request : τ) (timeout priority patternPid : Option τ)
  | mcast (name requestInfo request : τ) (timeout priority : Option τ)
  | recv (responseInfo response : τ) (transId : ι)
  | timeout (transId : ι)

/-- A queue and the service calls it has made. -/
structure World (ι τ : Type) [LinearOrder ι] where
  calls : Calls ι
  state : State ι τ

/-- One operation, with the check it makes after an entry has left the map. -/
def applyWith
    (check : List (OrderedRequest ι τ) → Calls ι → State ι τ → Except Exit (State ι τ × Calls ι))
    (d : Dispatcher ι τ) (w : World ι τ) : Op ι τ → Except Exit ((Reply ι τ × State ι τ) × Calls ι)
  | .send name requestInfo request timeout priority patternPid =>
      sendId d w.calls name requestInfo request timeout priority patternPid w.state
  | .mcast name requestInfo request timeout priority =>
      mcast d w.calls name requestInfo request timeout priority w.state
  | .recv responseInfo response transId =>
      recvId check d w.calls responseInfo response transId w.state
  | .timeout transId => timeout check d w.calls transId w.state

/-- One operation of the queue. -/
def apply (d : Dispatcher ι τ) (w : World ι τ) (op : Op ι τ) :
    Except Exit ((Reply ι τ × State ι τ) × Calls ι) :=
  applyWith (orderedCheck d) d w op

/-- The step of a queue in use; a step that exits ends the run. -/
def step (d : Dispatcher ι τ) (w : World ι τ) (op : Op ι τ) : Option (World ι τ) :=
  match apply d w op with
  | .ok ((_, s), t) => some ⟨t.next, s⟩
  | .error _ => none

/-- A queue that was just created. -/
def World.init (o : Options τ) : World ι τ := ⟨{}, new o⟩

/-- The requests that a step puts into the queue of requests to be sent later. -/
def queuedBy (d : Dispatcher ι τ) (w : World ι τ) : Op ι τ → List (OrderedRequest ι τ)
  | .send name requestInfo request timeout priority patternPid =>
      if (w.state.ordered ∧ 0 < w.state.orderedPending) ∧
          validate w.state.validateRequestInfo w.state.validateRequest requestInfo request then
        [.send name requestInfo request timeout priority (d.transId w.calls.time) patternPid]
      else []
  | .mcast name requestInfo request timeout priority =>
      if (w.state.ordered ∧ 0 < w.state.orderedPending) ∧
          validate w.state.validateRequestInfo w.state.validateRequest requestInfo request then
        [.mcast name requestInfo request timeout priority]
      else []
  | .recv .. => []
  | .timeout _ => []

/-- Every request queued along a run, in the order of acceptance. -/
def queuedLog (d : Dispatcher ι τ) : World ι τ → List (Op ι τ) → List (OrderedRequest ι τ)
  | _, [] => []
  | w, op :: ops =>
      queuedBy d w op ++ match step d w op with
        | some w' => queuedLog d w' ops
        | none => []

end CloudI.Queue
