import CloudI.Queue.Basic
import Mathlib.Data.Prod.Lex
import Mathlib.Order.WithBot

/-!
# Quorum.Basic

`cloudi_service_quorum`: a request is sent to all destinations, and answered when enough of them
gave the same response, or when that is no longer possible.

What is outside the module is an input of a step: the destinations that `get_pids` finds, with the
result of each send, the clock and which processes are alive.  `none` is a step that fails
(`maps:take` or `maps:get` of a missing entry, or an `if` without a true clause).
-/

namespace CloudI.Quorum

variable {ι Pid Name Info Body : Type} [LinearOrder ι] [LinearOrder Pid]
  [LinearOrder Info] [LinearOrder Body]

/-! ## state -/

/-- `quorum`; a ratio is given by `cloudi_math:ceil(Quorum * Count)`. -/
inductive Size where
  | byzantine
  | absolute (n : Nat)
  | ratio (ceil : Nat → Nat)

/-- The fields of `#state{}` that do not change. -/
structure Config (Info Body : Type) where
  quorum : Size := .byzantine
  useResponseInfo : Bool := true
  validateRequestInfo : Option (Info → Bool) := none
  validateRequest : Option (Info → Body → Bool) := none
  validateResponseInfo : Option (Info → Bool) := none
  validateResponse : Option (Info → Body → Bool)
  failuresSourceDie : Bool := false
  failuresSourceMaxCount : Nat := 2
  failuresSourceMaxPeriod : Option Nat := some 60
  failuresDestDie : Bool := false
  failuresDestMaxCount : Nat := 2
  failuresDestMaxPeriod : Option Nat := some 60

/-- `request_type()`. -/
inductive RequestType where
  | async
  | sync
  deriving DecidableEq

/-- A key of `responses`: the response and, when it is used, the response info. -/
abbrev Key (Info Body : Type) := WithBot Info ×ₗ Body

/-- `#request{}`. -/
structure Request (Pid Name Info Body : Type) [LinearOrder Info] [LinearOrder Body] where
  requestType : RequestType
  name : Name
  pattern : Name
  timeout : Nat
  source : Pid
  countRequired : Nat
  countTotal : Nat
  countResponses : Nat := 0
  countCorrect : Nat := 0
  responses : ErlMap (Key Info Body) Nat := ∅
  returned : Bool

/-- `#pending{}`. -/
structure Pending (ι Pid : Type) where
  transId : ι
  dest : Pid

/-- The fields of `#state{}` that change. -/
structure State (ι Pid Name Info Body : Type) [LinearOrder ι] [LinearOrder Pid]
    [LinearOrder Info] [LinearOrder Body] where
  failuresSource : ErlMap Pid (List Int) := ∅
  failuresDest : ErlMap Pid (List Int) := ∅
  requests : ErlMap ι (Request Pid Name Info Body) := ∅
  pending : ErlMap ι (Pending ι Pid) := ∅

/-- A request for the service. -/
structure Incoming (ι Pid Name Info Body : Type) where
  requestType : RequestType
  name : Name
  pattern : Name
  requestInfo : Info
  request : Body
  timeout : Nat
  transId : ι
  source : Pid

/-- An answer to the source: a response, or the empty one of a failure. -/
structure Answer (ι Pid Name Info Body : Type) where
  requestType : RequestType
  name : Name
  pattern : Name
  response : Option (Info × Body)
  timeout : Nat
  transId : ι
  source : Pid
  deriving DecidableEq

/-- What a step does besides its new state. -/
structure Effects (ι Pid Name Info Body : Type) where
  answers : List (Answer ι Pid Name Info Body) := []
  killed : List Pid := []

/-- The clock, and the processes that are alive. -/
structure Observed (Pid : Type) where
  secondsNow : Int
  alive : Pid → Bool

/-! ## validation and failures -/

def validate (infoF : Option (Info → Bool)) (bodyF : Option (Info → Body → Bool)) (info : Info)
    (body : Body) : Bool :=
  match infoF, bodyF with
  | none, none => true
  | none, some bodyF => bodyF info body
  | some infoF, none => infoF info
  | some infoF, some bodyF => infoF info && bodyF info body

/-- The result of `failure/5`: is the process dead, the failures, and whom it killed. -/
structure Failed (Pid : Type) [LinearOrder Pid] where
  dead : Bool
  failures : ErlMap Pid (List Int)
  killed : List Pid := []

def failureStore (failureList : List Int) (failureCount maxCount : Nat) (pid : Pid)
    (failures : ErlMap Pid (List Int)) : Failed Pid :=
  if failureCount = maxCount then ⟨true, Maps.put pid failureList failures, [pid]⟩
  else ⟨false, Maps.put pid failureList failures, []⟩

/-- `failure_check/6`; without a period there is `infinity`. -/
def failureCheck (secondsNow : Int) (failureList : List Int) (maxCount : Nat)
    (maxPeriod : Option Nat) (pid : Pid) (failures : ErlMap Pid (List Int)) : Failed Pid :=
  match maxPeriod with
  | none => failureStore (secondsNow :: failureList) (failureList.length + 1) maxCount pid failures
  | some maxPeriod =>
      let (count, newFailureList) :=
        Queue.secondsFilterMonotonic secondsNow maxPeriod failureList [] 0
      failureStore (secondsNow :: newFailureList) (count + 1) maxCount pid failures

def failure (observed : Observed Pid) (die : Bool) (maxCount : Nat) (maxPeriod : Option Nat)
    (pid : Pid) (failures : ErlMap Pid (List Int)) : Failed Pid :=
  match die with
  | false => ⟨false, failures, []⟩
  | true =>
      if observed.alive pid then
        failureCheck observed.secondsNow ((Maps.find pid failures).getD []) maxCount maxPeriod pid
          failures
      else ⟨true, failures, []⟩

section Handlers

variable (cfg : Config Info Body) (observed : Observed Pid)

/-- `failure/5` of a source. -/
def failureSource (source : Pid) (s : State ι Pid Name Info Body) : Failed Pid :=
  failure observed cfg.failuresSourceDie cfg.failuresSourceMaxCount cfg.failuresSourceMaxPeriod
    source s.failuresSource

/-- `failure/5` of a destination. -/
def failureDest (dest : Pid) (s : State ι Pid Name Info Body) : Failed Pid :=
  failure observed cfg.failuresDestDie cfg.failuresDestMaxCount cfg.failuresDestMaxPeriod dest
    s.failuresDest

/-! ## requests -/

/-- The required count for a number of destinations; `none` is a quorum that is not met. -/
def countRequired (count : Nat) : Option Nat :=
  match cfg.quorum with
  | .byzantine => if count < 4 then none else some (count - (count - 1) / 3)
  | .absolute n => if n > count then none else some n
  | .ratio ceil => some (min count (ceil count))

variable (r : Incoming ι Pid Name Info Body)

/-- The empty answer to a request. -/
def Incoming.fail :
    Answer ι Pid Name Info Body where
  requestType := r.requestType
  name := r.name
  pattern := r.pattern
  response := none
  timeout := r.timeout
  transId := r.transId
  source := r.source

def requestFailed (s : State ι Pid Name Info Body) :
    State ι Pid Name Info Body × Effects ι Pid Name Info Body :=
  let failed := failureSource cfg observed r.source s
  ({ s with failuresSource := failed.failures },
    { answers := if failed.dead then [] else [r.fail], killed := failed.killed })

/-- `mcast_send/10`: the destinations with the result of each send. -/
def mcastSend (transId : ι) : List (Pid × Option ι) → Nat →
    ErlMap ι (Pending ι Pid) → Nat × ErlMap ι (Pending ι Pid)
  | [], countSent, pending => (countSent, pending)
  | (dest, some quorumTransId) :: sends, countSent, pending =>
      mcastSend transId sends (countSent + 1) (Maps.put quorumTransId ⟨transId, dest⟩ pending)
  | (_, none) :: sends, countSent, pending => mcastSend transId sends countSent pending

/-- The new record of a request. -/
def Incoming.record (countRequired countTotal : Nat)
    (returned : Bool) : Request Pid Name Info Body where
  requestType := r.requestType
  name := r.name
  pattern := r.pattern
  timeout := r.timeout
  source := r.source
  countRequired := countRequired
  countTotal := countTotal
  returned := returned

def mcast (sends : List (Pid × Option ι)) (countRequired : Nat) (s : State ι Pid Name Info Body) :
    State ι Pid Name Info Body × Effects ι Pid Name Info Body :=
  let (countSent, newPending) := mcastSend r.transId sends 0 s.pending
  if countSent ≥ countRequired then
    ({ s with requests := Maps.put r.transId (r.record countRequired countSent false) s.requests
              pending := newPending }, {})
  else
    ({ s with requests := Maps.put r.transId (r.record countRequired countSent true) s.requests
              pending := newPending }, { answers := [r.fail] })

/-- `cloudi_service_handle_request/11`; no destinations is `{error, timeout}` of `get_pids`. -/
def handleRequest
    (sends : Option (List (Pid × Option ι))) (s : State ι Pid Name Info Body) :
    State ι Pid Name Info Body × Effects ι Pid Name Info Body :=
  if validate cfg.validateRequestInfo cfg.validateRequest r.requestInfo r.request then
    match sends with
    | some sends =>
        match countRequired cfg sends.length with
        | none => requestFailed cfg observed r s
        | some countRequired => mcast r sends countRequired s
    | none => requestFailed cfg observed r s
  else requestFailed cfg observed r s

/-! ## outcomes -/

variable (quorumTransId : ι)

/-- The pending entry of an outcome, the other ones, and its request. -/
def takePending (s : State ι Pid Name Info Body) :
    Option (Pending ι Pid × ErlMap ι (Pending ι Pid) ×
      Request Pid Name Info Body) :=
  (Maps.take quorumTransId s.pending).bind fun (pending, newPending) =>
    (Maps.find pending.transId s.requests).map fun request => (pending, newPending, request)

/-- The record is removed with the last outcome. -/
def storeRequest (transId : ι) (request : Request Pid Name Info Body)
    (requests : ErlMap ι (Request Pid Name Info Body)) :
    Option (ErlMap ι (Request Pid Name Info Body)) :=
  if request.countResponses = request.countTotal then some (Maps.remove transId requests)
  else if request.countResponses < request.countTotal then
    some (Maps.put transId request requests)
  else none

variable (request : Request Pid Name Info Body)

/-- What is returned to the source of a request. -/
def Request.answer (transId : ι) (timeout : Nat)
    (response : Option (Info × Body)) : Answer ι Pid Name Info Body where
  requestType := request.requestType
  name := request.name
  pattern := request.pattern
  response := response
  timeout := timeout
  transId := transId
  source := request.source

/-- No response can have the required count any more. -/
def Request.lost (newCountResponses countCorrect : Nat) : Bool :=
  newCountResponses = request.countTotal ||
    countCorrect + (request.countTotal - newCountResponses) < request.countRequired

/-- The key of a response. -/
def key (info : Info) (body : Body) : Key Info Body :=
  toLex (if cfg.useResponseInfo then (info : WithBot Info) else ⊥, body)

/-- How often a response was received, with this time. -/
def Request.count (k : Key Info Body) : Nat :=
  match Maps.find k request.responses with
  | some i => i + 1
  | none => 1

/-- A valid response. -/
def validResponse (transId : ι) (request : Request Pid Name Info Body) (info : Info)
    (body : Body) (timeout : Nat) :
    Request Pid Name Info Body × List (Answer ι Pid Name Info Body) :=
  let newCountResponses := request.countResponses + 1
  if request.returned then ({ request with countResponses := newCountResponses }, [])
  else
    let count := request.count (key cfg info body)
    let newCountCorrect := max count request.countCorrect
    let (newReturned, answers) :=
      if count = request.countRequired then
        (true, [request.answer transId timeout (some (info, body))])
      else if request.lost newCountResponses newCountCorrect then
        (true, [request.answer transId timeout none])
      else (request.returned, [])
    ({ request with
        countResponses := newCountResponses
        countCorrect := newCountCorrect
        responses := Maps.put (key cfg info body) count request.responses
        returned := newReturned }, answers)

/-- An invalid response or a timeout; `dead` is whether the source died of it. -/
def failedResponse (transId : ι) (request : Request Pid Name Info Body) (timeout : Nat)
    (dead : Bool) : Request Pid Name Info Body × List (Answer ι Pid Name Info Body) :=
  let newCountResponses := request.countResponses + 1
  let (newReturned, answers) :=
    if dead then (true, [])
    else if !request.returned && request.lost newCountResponses request.countCorrect then
      (true, [request.answer transId timeout none])
    else (request.returned, [])
  ({ request with countResponses := newCountResponses, returned := newReturned }, answers)

/-- A failure of the destination and of the source: an invalid response, or a timeout. -/
def handleFailed (pending : Pending ι Pid) (newPending : ErlMap ι (Pending ι Pid))
    (request : Request Pid Name Info Body) (timeout : Nat) (s : State ι Pid Name Info Body) :
    Option (State ι Pid Name Info Body × Effects ι Pid Name Info Body) :=
  let source := failureSource cfg observed request.source s
  let dest := failureDest cfg observed pending.dest s
  let (newRequest, answers) := failedResponse pending.transId request timeout source.dead
  (storeRequest pending.transId newRequest s.requests).map fun newRequests =>
    ({ s with failuresSource := source.failures, failuresDest := dest.failures
              requests := newRequests, pending := newPending },
      { answers, killed := source.killed ++ dest.killed })

/-- `#return_async_active{}`. -/
def handleReturn (info : Info) (body : Body) (timeout : Nat) (s : State ι Pid Name Info Body) :
    Option (State ι Pid Name Info Body × Effects ι Pid Name Info Body) :=
  (takePending quorumTransId s).bind fun (pending, newPending, request) =>
    if validate cfg.validateResponseInfo cfg.validateResponse info body then
      let (newRequest, answers) := validResponse cfg pending.transId request info body timeout
      (storeRequest pending.transId newRequest s.requests).map fun newRequests =>
        ({ s with requests := newRequests, pending := newPending }, { answers })
    else handleFailed cfg observed pending newPending request timeout s

/-- `#timeout_async_active{}`. -/
def handleTimeout (s : State ι Pid Name Info Body) :
    Option (State ι Pid Name Info Body × Effects ι Pid Name Info Body) :=
  (takePending quorumTransId s).bind fun (pending, newPending, request) =>
    handleFailed cfg observed pending newPending request request.timeout s

/-- `'DOWN'` of a process. -/
def handleDown (pid : Pid) (s : State ι Pid Name Info Body) : State ι Pid Name Info Body :=
  { s with
    failuresSource :=
      if cfg.failuresSourceDie then Maps.remove pid s.failuresSource else s.failuresSource
    failuresDest :=
      if cfg.failuresDestDie then Maps.remove pid s.failuresDest else s.failuresDest }

end Handlers

end CloudI.Quorum
