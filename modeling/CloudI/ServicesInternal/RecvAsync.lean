import CloudI.ServicesInternal.Send

/-!
# ServicesInternal.RecvAsync

The calls `recv_async` and `recv_asyncs` of the dispatcher of an internal service.  A call that
does not find what it asks for comes back as a retry message after `RECV_ASYNC_INTERVAL`, while
its timeout lasts; what a `recv_asyncs` call took so far lives in that message only.  A call and
a retry message are handled alike.

A world is the dispatcher of `CloudI.ServicesInternal.Send`, which stores the responses, with
the retry messages under way and the record of the replies and of what was consumed.
-/

namespace CloudI.ServicesInternal.RecvAsync

open Flight

variable {ι Pid χ κ : Type} [LinearOrder ι] [LinearOrder Pid]
  [DecidableEq χ]

/-- What the dispatcher knows of transaction ids: `<<0:128>>` and the time of an id. -/
structure TransIds (ι : Type) where
  null : ι
  getV1Time : ι → Nat

/-- The responses that wait to be received. -/
abbrev Responses (ι : Type) [LinearOrder ι] := ErlMap ι (Binary × Binary)

/-- `?RECV_ASYNC_INTERVAL`. -/
def recvAsyncInterval : Nat := 500

/-- An entry of the results of `recv_asyncs`. -/
structure Entry (ι : Type) where
  responseInfo : Binary
  response : Binary
  transId : ι
  deriving DecidableEq

/-- An entry `{<<>>, <<>>, TransId}` stands for a response that was not found. -/
def Entry.isNull (e : Entry ι) : Bool := e.responseInfo = [] ∧ e.response = []

/-- The entry that a call of `recv_asyncs` starts with. -/
def Entry.null (transId : ι) : Entry ι := ⟨[], [], transId⟩

/-- `recv_async_select_oldest/3`. -/
def recvAsyncSelectOldestFrom (ids : TransIds ι) :
    List (ι × (Binary × Binary)) → Nat → ι → ι
  | [], _, transIdCurrent => transIdCurrent
  | (transId, _) :: l, time0, transIdCurrent =>
      let time1 := ids.getV1Time transId
      if time1 < time0 then recvAsyncSelectOldestFrom ids l time1 transId
      else recvAsyncSelectOldestFrom ids l time0 transIdCurrent

variable (ids : TransIds ι)

/-- `recv_async_select_oldest/1`, which is `?RECV_ASYNC_STRATEGY`. -/
def recvAsyncSelectOldest (x : ι × (Binary × Binary)) (l : List (ι × (Binary × Binary))) : ι :=
  recvAsyncSelectOldestFrom ids l (ids.getV1Time x.1) x.1

/-- What a call is replied. -/
inductive Reply (ι : Type) where
  | timeout
  | ok (e : Entry ι)
  | oks (results : List (Entry ι))

/-- `cloudi_service_recv_async_retry` and `cloudi_service_recv_asyncs_retry`. -/
inductive Retry (ι χ : Type) where
  | recvAsync (timeout : Nat) (transId : ι) (consume : Bool) (client : χ)
  | recvAsyncs (timeout : Nat) (results : List (Entry ι)) (consume : Bool) (client : χ)

/-- What comes of a call: its reply, or a retry message after `RECV_ASYNC_INTERVAL`. -/
inductive Answer (ι χ : Type) where
  | reply (reply : Reply ι)
  | retry (retry : Retry ι χ)

/-! ## recv_async -/

/-- A response that is there: the reply, and the responses that are left. -/
def received (e : Entry ι) (consume : Bool) (asyncResponses : Responses ι) :
    Answer ι χ × Responses ι :=
  (.reply (.ok e),
    if consume then Maps.remove e.transId asyncResponses else asyncResponses)

/-- A response that is not there: another retry, or the timeout. -/
def notReceived (timeout : Nat) (transId : ι) (consume : Bool) (client : χ)
    (asyncResponses : Responses ι) : Answer ι χ × Responses ι :=
  if recvAsyncInterval ≤ timeout then
    (.retry (.recvAsync (timeout - recvAsyncInterval) transId consume client), asyncResponses)
  else (.reply .timeout, asyncResponses)

/-- `handle_call` of `recv_async` and `handle_info` of its retry message; `none` is a `badkey`
of `maps:get`. -/
def recvAsync (timeout : Nat) (transId : ι) (consume : Bool)
    (client : χ) (asyncResponses : Responses ι) : Option (Answer ι χ × Responses ι) :=
  if transId = ids.null then
    match Maps.toList asyncResponses with
    | [] => some (notReceived timeout transId consume client asyncResponses)
    | x :: l =>
        let transIdPick := recvAsyncSelectOldest ids x l
        (Maps.find transIdPick asyncResponses).map fun (responseInfo, response) =>
          received ⟨responseInfo, response, transIdPick⟩ consume asyncResponses
  else
    match Maps.find transId asyncResponses with
    | none => some (notReceived timeout transId consume client asyncResponses)
    | some (responseInfo, response) =>
        some (received ⟨responseInfo, response, transId⟩ consume asyncResponses)

/-! ## recv_asyncs -/

/-- `recv_asyncs_pick/6`: whether all were found, whether none was, the results and the
responses that are left. -/
def recvAsyncsPickLoop (consume : Bool) : List (Entry ι) → List (Entry ι) →
    (done foundOne : Bool) → Responses ι →
    Bool × Bool × List (Entry ι) × Responses ι
  | [], l, done, foundOne, asyncResponses => (done, !foundOne, l.reverse, asyncResponses)
  | e :: results, l, done, foundOne, asyncResponses =>
      if e.isNull then
        match Maps.find e.transId asyncResponses with
        | none => recvAsyncsPickLoop consume results (e :: l) false foundOne asyncResponses
        | some (responseInfo, response) =>
            recvAsyncsPickLoop consume results (⟨responseInfo, response, e.transId⟩ :: l) done true
              (if consume then Maps.remove e.transId asyncResponses else asyncResponses)
      else recvAsyncsPickLoop consume results (e :: l) done true asyncResponses

def recvAsyncsPick (results : List (Entry ι)) (consume : Bool) (asyncResponses : Responses ι) :
    Bool × Bool × List (Entry ι) × Responses ι :=
  recvAsyncsPickLoop consume results [] true false asyncResponses

/-- `handle_call` of `recv_asyncs` and `handle_info` of its retry message. -/
def recvAsyncs (timeout : Nat) (results : List (Entry ι)) (consume : Bool) (client : χ)
    (asyncResponses : Responses ι) : Answer ι χ × Responses ι :=
  match recvAsyncsPick results consume asyncResponses with
  | (true, _, newResults, newAsyncResponses) => (.reply (.oks newResults), newAsyncResponses)
  | (false, foundNone, newResults, newAsyncResponses) =>
      if recvAsyncInterval ≤ timeout then
        (.retry (.recvAsyncs (timeout - recvAsyncInterval) newResults consume client),
          newAsyncResponses)
      else if foundNone = false then (.reply (.oks newResults), newAsyncResponses)
      else (.reply .timeout, asyncResponses)

/-- The handling of a call, which is that of a retry message with its whole timeout. -/
def handleRetry (asyncResponses : Responses ι) :
    Retry ι χ → Option (Answer ι χ × Responses ι)
  | .recvAsync timeout transId consume client =>
      recvAsync ids timeout transId consume client asyncResponses
  | .recvAsyncs timeout results consume client =>
      some (recvAsyncs timeout results consume client asyncResponses)

/-! ## runs -/

/-- The client of a retry message. -/
def Retry.client : Retry ι χ → χ
  | .recvAsync _ _ _ client | .recvAsyncs _ _ _ client => client

/-- Whether the call consumes the responses that it finds. -/
def Retry.consume : Retry ι χ → Bool
  | .recvAsync _ _ consume _ | .recvAsyncs _ _ consume _ => consume

/-- What is left of the timeout. -/
def Retry.timeout : Retry ι χ → Nat
  | .recvAsync timeout _ _ _ | .recvAsyncs timeout _ _ _ => timeout

/-- A call that was replied to. -/
structure Replied (ι χ : Type) where
  client : χ
  consume : Bool
  reply : Reply ι

/-- What the dispatcher handles: what `CloudI.ServicesInternal.Send` has, the calls, their retry
messages, and the timeouts of stored responses. -/
inductive Event (ι Pid χ κ : Type) where
  | send (event : ServicesInternal.Event ι Pid χ κ)
  | recvAsync (timeout : Option Nat) (transId : ι) (consume : Bool) (client : χ)
  | recvAsyncs (timeout : Option Nat) (transIdList : List ι) (consume : Bool)
      (client : χ)
  | retry (client : χ)
  | recvAsyncTimeout (transId : ι)

/-- A dispatcher with its retry messages under way, the calls that were replied to, the
responses that each call took out of the map, and the clients there have been. -/
structure World (ι Pid χ κ : Type) [LinearOrder ι] [LinearOrder Pid] where
  send : ServicesInternal.World ι Pid χ κ
  retries : List (Retry ι χ) := []
  replies : List (Replied ι χ) := []
  consumed : List (χ × Entry ι) := []
  clients : List χ := []

variable (w : World ι Pid χ κ)

/-- The responses that wait to be received. -/
def World.responses : Responses ι :=
  w.send.state.asyncResponses

/-- The world with other responses. -/
def World.withResponses
    (asyncResponses : Responses ι) : World ι Pid χ κ :=
  { w with send := { w.send with state := { w.send.state with asyncResponses } } }

/-- The responses that are in one map and not in another. -/
def takenOut (asyncResponses newAsyncResponses : Responses ι) : List (Entry ι) :=
  ((Maps.toList asyncResponses).filter fun x => (Maps.find x.1 newAsyncResponses).isNone).map
    fun x => ⟨x.2.1, x.2.2, x.1⟩

/-- The retry message of an answer. -/
def Answer.retries : Answer ι χ → List (Retry ι χ)
  | .reply _ => []
  | .retry r => [r]

/-- The reply of an answer to a call. -/
def Answer.replies (r : Retry ι χ) :
    Answer ι χ → List (Replied ι χ)
  | .reply x => [⟨r.client, r.consume, x⟩]
  | .retry _ => []

/-- The world after a call, or a retry message that is no longer under way, was handled. -/
def answered (retry : Retry ι χ) (retries : List (Retry ι χ))
    (answer : Answer ι χ × Responses ι) : World ι Pid χ κ :=
  { w.withResponses answer.2 with
    retries := retries ++ answer.1.retries
    replies := w.replies ++ answer.1.replies retry
    consumed := w.consumed ++ (takenOut w.responses answer.2).map fun e => (retry.client, e) }

/-- The retry message that a call is handled as; a call without a timeout has the one of
synchronous requests. -/
def Event.call (timeoutSync : Nat) : Event ι Pid χ κ →
    Option (Retry ι χ)
  | .recvAsync timeout transId consume client =>
      some (.recvAsync (timeout.getD timeoutSync) transId consume client)
  | .recvAsyncs timeout transIdList consume client =>
      some (.recvAsyncs (timeout.getD timeoutSync) (transIdList.map Entry.null) consume client)
  | _ => none

/-- A step of a run. -/
def next (w : World ι Pid χ κ) (event : Event ι Pid χ κ) : Option (World ι Pid χ κ) :=
  match event with
  | .send event => (ServicesInternal.next w.send event).map fun send => { w with send }
  | .recvAsyncTimeout transId => some (w.withResponses (Maps.remove transId w.responses))
  | .retry client =>
      (takeFirst (fun r => r.client = client) w.retries).bind fun (retry, retries) =>
        (handleRetry ids w.responses retry).map (answered w retry retries)
  | event =>
      (event.call w.send.state.timeoutSync).bind fun retry =>
        (handleRetry ids w.responses retry).map fun answer =>
          { answered w retry w.retries answer with clients := retry.client :: w.clients }

/-- Requests have new ids, and calls have new clients and no id twice. -/
def Fresh : Event ι Pid χ κ → Prop
  | .send event => ServicesInternal.Fresh w.send event
  | .recvAsync _ _ _ client => client ∉ w.clients
  | .recvAsyncs _ transIdList _ client => transIdList.Nodup ∧ client ∉ w.clients
  | _ => True

/-- A dispatcher that was just started. -/
def World.init (timeoutAsync timeoutSync : Nat) (receiverPid : Pid) (options : Options) :
    World ι Pid χ κ where
  send := { state := { timeoutAsync, timeoutSync, receiverPid, options } }

end CloudI.ServicesInternal.RecvAsync
