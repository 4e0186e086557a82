import CloudI.Wire.Messages
import CloudI.Library.Except

/-!
# ApiC.PollRequest

`poll_request` of the C API between two calls of `poll(2)`: what it does with the
bytes that `read_all` left in `buffer_recv`.

An index of a buffer is a `uint32_t`.  A read behind the received bytes is a failure
of the model, although the buffer is larger than they are and the code would read what
is there.  A failed assertion is an exception, with the instance as it is then.  The results of the writes that answer
keepalive messages are a parameter, indexed by the number of such writes before.
`buffer_call.copy` does not fail.
-/

namespace CloudI.ApiC

open Binary CloudI.Except Wire

/-! ## the instance -/

/-- `errno` after a failed call. -/
inductive Errno where
  | EAGAIN | EBADF | EFAULT | EFBIG | EINTR | EINVAL | EIO | EISDIR | ENOMEM | ENOSPC | EPIPE
  | unknown
deriving DecidableEq

/-- The codes that the functions return; all but `success` are not zero. -/
inductive Code where
  | success
  | terminate
  | timeout
  | functionParameter
  | readUnderflow
  | eiEncode
  | outOfMemory
  | readNull
  | writeNull
  | writeOverflow
  | read (errno : Errno)
  | write (errno : Errno)
  | poll (errno : Errno)
deriving DecidableEq

/-- The settings of a `cloudi_instance_t`, as `MESSAGE_INIT` and `MESSAGE_REINIT` store
them; the prefix has its null byte. -/
structure Settings where
  processIndex : Nat := 0
  processCount : Nat := 0
  processCountMax : Nat := 0
  processCountMin : Nat := 0
  namePrefix : Binary := []
  timeoutInitialize : Nat := 0
  timeoutAsync : Nat := 0
  timeoutSync : Nat := 0
  timeoutTerminate : Nat := 1000
  priorityDefault : Int := 0
deriving DecidableEq

/-- `cloudi_instance_t`.  A pointer is the offset in the buffer it points into:
`response_info`, `response` and `trans_id` into `buffer_recv`. -/
structure Instance where
  terminate : Bool := false
  initializationComplete : Bool := false
  settings : Settings := {}
  bufferRecv : Binary := []
  bufferRecvIndex : Nat := 0
  bufferCall : Binary := []
  responseInfo : Nat := 0
  responseInfoSize : Nat := 0
  response : Nat := 0
  responseSize : Nat := 0
  transId : Nat := 0
  transIdCount : Nat := 0
  subscribeCount : Nat := 0
deriving DecidableEq

/-- The arguments of `callback`, with pointers into `buffer_call`. -/
structure Callback where
  command : Nat
  name : Nat
  pattern : Nat
  requestInfo : Nat
  requestInfoSize : Nat
  request : Nat
  requestSize : Nat
  timeout : Nat
  priority : Int
  transId : Nat
  pid : Nat
  pidSize : Nat

/-- Why `poll_request` does not go on: a read outside of the received bytes, or the exception of a
failed assertion. -/
inductive Failure where
  | outside
  | assertion (p : Instance)
deriving DecidableEq

/-! ## reads -/

/-- `uint32_t`. -/
def uint32 (n : Nat) : Nat := n % 2 ^ 32

variable (e : Endianness) (buffer : Binary)

/-- `store_incoming_uint32`: the integer and the next index. -/
def storeIncomingUint32 (index : Nat) : Except Failure (Nat × Nat) :=
  if index + 4 ≤ buffer.length then
    .ok (nativeValue e ((buffer.drop index).take 4), uint32 (index + 4))
  else .error .outside

def storeIncomingInt8 (index : Nat) : Except Failure (Int × Nat) :=
  match buffer[index]? with
  | some byte => .ok (int8Value byte, uint32 (index + 1))
  | none => .error .outside

def storeIncomingBinary (index : Nat) :
    Except Failure (Binary × Nat) := do
  let (size, index) ← storeIncomingUint32 e buffer index
  if index + size ≤ buffer.length then
    .ok ((buffer.drop index).take size, uint32 (index + size))
  else .error .outside

/-- `&buffer[index]`, and the index behind `size` bytes. -/
def pointer (index size : Nat) : Except Failure (Nat × Nat) :=
  if index ≤ buffer.length then .ok (index, uint32 (index + size)) else .error .outside

variable (p : Instance)

/-- What `MESSAGE_REINIT` stores. -/
def storeReinit (index : Nat) :
    Except Failure (Instance × Nat) := do
  let (processCount, index) ← storeIncomingUint32 e p.bufferRecv index
  let (timeoutAsync, index) ← storeIncomingUint32 e p.bufferRecv index
  let (timeoutSync, index) ← storeIncomingUint32 e p.bufferRecv index
  let (priorityDefault, index) ← storeIncomingInt8 p.bufferRecv index
  pure ({ p with settings :=
    { p.settings with processCount, timeoutAsync, timeoutSync, priorityDefault } }, index)

/-- What `MESSAGE_INIT` stores. -/
def storeInit (index : Nat) : Except Failure (Instance × Nat) := do
  let (processIndex, index) ← storeIncomingUint32 e p.bufferRecv index
  let (processCount, index) ← storeIncomingUint32 e p.bufferRecv index
  let (processCountMax, index) ← storeIncomingUint32 e p.bufferRecv index
  let (processCountMin, index) ← storeIncomingUint32 e p.bufferRecv index
  let (namePrefix, index) ← storeIncomingBinary e p.bufferRecv index
  let (timeoutInitialize, index) ← storeIncomingUint32 e p.bufferRecv index
  let (timeoutAsync, index) ← storeIncomingUint32 e p.bufferRecv index
  let (timeoutSync, index) ← storeIncomingUint32 e p.bufferRecv index
  let (timeoutTerminate, index) ← storeIncomingUint32 e p.bufferRecv index
  let (priorityDefault, index) ← storeIncomingInt8 p.bufferRecv index
  pure ({ p with settings :=
    { processIndex, processCount, processCountMax, processCountMin, namePrefix, timeoutInitialize,
      timeoutAsync, timeoutSync, timeoutTerminate, priorityDefault } }, index)

/-- What `MESSAGE_SEND_ASYNC` and `MESSAGE_SEND_SYNC` take from `buffer_call`. -/
def storeRequest (command index : Nat) :
    Except Failure (Callback × Nat) := do
  let (nameSize, index) ← storeIncomingUint32 e buffer index
  let (name, index) ← pointer buffer index nameSize
  let (patternSize, index) ← storeIncomingUint32 e buffer index
  let (pattern, index) ← pointer buffer index patternSize
  let (requestInfoSize, index) ← storeIncomingUint32 e buffer index
  let (requestInfo, index) ← pointer buffer index (requestInfoSize + 1)
  let (requestSize, index) ← storeIncomingUint32 e buffer index
  let (request, index) ← pointer buffer index (requestSize + 1)
  let (timeout, index) ← storeIncomingUint32 e buffer index
  let (priority, index) ← storeIncomingInt8 buffer index
  let (transId, index) ← pointer buffer index 16
  let (pidSize, index) ← storeIncomingUint32 e buffer index
  let (pid, index) ← pointer buffer index pidSize
  pure ({ command, name, pattern, requestInfo, requestInfoSize, request, requestSize, timeout,
          priority, transId, pid, pidSize }, index)

/-- What `MESSAGE_RECV_ASYNC` and `MESSAGE_RETURN_SYNC` store. -/
def storeResponse (index : Nat) :
    Except Failure (Instance × Nat) := do
  let (responseInfoSize, index) ← storeIncomingUint32 e p.bufferRecv index
  let (responseInfo, index) ← pointer p.bufferRecv index (responseInfoSize + 1)
  let (responseSize, index) ← storeIncomingUint32 e p.bufferRecv index
  let (response, index) ← pointer p.bufferRecv index (responseSize + 1)
  let (transId, index) ← pointer p.bufferRecv index 16
  pure ({ p with responseInfo, responseInfoSize, response, responseSize, transId
                 transIdCount := 1 }, index)

/-- What `MESSAGE_RETURN_ASYNC` stores. -/
def storeTransId (index : Nat) : Except Failure (Instance × Nat) := do
  let (transId, index) ← pointer p.bufferRecv index 16
  pure ({ p with transId, transIdCount := 1 }, index)

/-- What `MESSAGE_RETURNS_ASYNC` stores. -/
def storeTransIds (index : Nat) :
    Except Failure (Instance × Nat) := do
  let (transIdCount, index) ← storeIncomingUint32 e p.bufferRecv index
  let (transId, index) ← pointer p.bufferRecv index (16 * transIdCount)
  pure ({ p with transId, transIdCount }, index)

/-- What `MESSAGE_SUBSCRIBE_COUNT` stores. -/
def storeSubscribeCount (index : Nat) :
    Except Failure (Instance × Nat) := do
  let (subscribeCount, index) ← storeIncomingUint32 e p.bufferRecv index
  pure ({ p with subscribeCount }, index)

/-! ## events -/

variable (external : Bool) (keepalives : Nat → Code)

/-- One event: the next index, or the code that `handle_events` stops with.  `sent` counts
the answers to keepalive messages. -/
def handleEvent (p : Instance)
    (sent index : Nat) : Nat → Except Failure (Instance × Nat × (Nat ⊕ Code))
  | 11 => .ok ({ p with terminate := true }, sent, .inr (if external then .success else .terminate))
  | 9 => (storeReinit e p index).map fun x => (x.1, sent, .inl x.2)
  | 8 =>
      if keepalives sent = .success then .ok (p, sent + 1, .inl index)
      else .ok (p, sent + 1, .inr (keepalives sent))
  | _ => .ok (p, sent, .inr .readUnderflow)

/-- The loop of `handle_events` from a command on; the code is `none` when it returns true.
Each round reads four more bytes. -/
def handleEventsLoop (e : Endianness) (external : Bool) (keepalives : Nat → Code) :
    Nat → Instance → Nat → Nat → Nat → Except Failure (Instance × Nat × Option Code)
  | 0, _, _, _, _ => .error .outside
  | fuel + 1, p, sent, index, command => do
      match ← handleEvent e external keepalives p sent index command with
      | (p, sent, .inr code) => pure (p, sent, some code)
      | (p, sent, .inl index) =>
          if index > p.bufferRecvIndex then pure (p, sent, some .readUnderflow)
          else if index = p.bufferRecvIndex then pure (p, sent, none)
          else do
            let (command, index) ← storeIncomingUint32 e p.bufferRecv index
            handleEventsLoop e external keepalives fuel p sent index command

/-- `handle_events` without a command. -/
def handleEvents (p : Instance)
    (sent index : Nat) : Except Failure (Instance × Nat × Option Code) :=
  if index > p.bufferRecvIndex then .ok (p, sent, some .readUnderflow)
  else do
    let (command, index) ← storeIncomingUint32 e p.bufferRecv index
    handleEventsLoop e external keepalives (p.bufferRecv.length + 1) p sent index command

/-! ## messages -/

/-- What `poll_request` does after the received bytes. -/
inductive Outcome where
  | returns (code : Code)
  | waits
  | callback (args : Callback)

/-- The end of a message that is stored: the events behind it, in the mode that is
asserted for them. -/
def finish (mode : Bool) (outcome : Outcome) (sent : Nat) (x : Instance × Nat) :
    Except Failure (Instance × Nat × Outcome) :=
  if x.2 ≠ x.1.bufferRecvIndex then
    if external ≠ mode then .error (.assertion x.1)
    else do
      match ← handleEvents e external keepalives x.1 sent x.2 with
      | (p, sent, some code) => pure (p, sent, .returns code)
      | (p, sent, none) => pure ({ p with bufferRecvIndex := 0 }, sent, outcome)
  else .ok ({ x.1 with bufferRecvIndex := 0 }, sent, outcome)

/-- The message at an index: what `poll_request` does, or the next index. -/
def handleMessage (p : Instance)
    (sent index : Nat) : Nat → Except Failure (Instance × Nat × (Nat ⊕ Outcome))
  | 1 => do
      let x ← storeInit e p index
      (finish e external keepalives false (.returns .success) sent x).map stop
  | 2 => do
      let (args, index) ← storeRequest e p.bufferRecv 2 index
      (finish e external keepalives true (.callback args) sent
        ({ p with bufferCall := p.bufferRecv }, index)).map stop
  | 3 => do
      let (args, index) ← storeRequest e p.bufferRecv 3 index
      (finish e external keepalives true (.callback args) sent
        ({ p with bufferCall := p.bufferRecv }, index)).map stop
  | 4 => do
      let x ← storeResponse e p index
      (finish e external keepalives false (.returns .success) sent x).map stop
  | 5 => do
      let x ← storeTransId p index
      (finish e external keepalives false (.returns .success) sent x).map stop
  | 6 => do
      let x ← storeResponse e p index
      (finish e external keepalives false (.returns .success) sent x).map stop
  | 7 => do
      let x ← storeTransIds e p index
      (finish e external keepalives false (.returns .success) sent x).map stop
  | 8 =>
      -- the failed write is answered with `false`, which is `cloudi_success`
      if keepalives sent = .success then .ok (p, sent + 1, .inl index)
      else .ok (p, sent + 1, .inr (.returns .success))
  | 9 => (storeReinit e p index).map fun x => (x.1, sent, .inl x.2)
  | 10 => do
      let x ← storeSubscribeCount e p index
      (finish e external keepalives false (.returns .success) sent x).map stop
  | 11 => do
      match ← handleEventsLoop e external keepalives 1 p sent index 11 with
      | (p, sent, some code) => pure (p, sent, .inr (.returns code))
      | (p, _, none) => .error (.assertion p)
  | _ => .ok (p, sent, .inr (.returns .readUnderflow))
where
  stop (x : Instance × Nat × Outcome) : Instance × Nat × (Nat ⊕ Outcome) := (x.1, x.2.1, .inr x.2.2)

/-- The loop of `poll_request` over the received bytes.  Each round reads four more bytes. -/
def handleMessages (e : Endianness) (external : Bool) (keepalives : Nat → Code) :
    Nat → Instance → Nat → Nat → Except Failure (Instance × Nat × Outcome)
  | 0, _, _, _ => .error .outside
  | fuel + 1, p, sent, index => do
      let (command, index) ← storeIncomingUint32 e p.bufferRecv index
      match ← handleMessage e external keepalives p sent index command with
      | (p, sent, .inr outcome) => pure (p, sent, outcome)
      | (p, sent, .inl index) =>
          if index = p.bufferRecvIndex then pure ({ p with bufferRecvIndex := 0 }, sent, .waits)
          else if index < p.bufferRecvIndex then
            handleMessages e external keepalives fuel p sent index
          else pure (p, sent, .returns .readUnderflow)

/-- `poll_request` after `read_all`. -/
def received (p : Instance) (bytes : Binary) : Except Failure (Instance × Nat × Outcome) :=
  let p := { p with bufferRecv := bytes, bufferRecvIndex := bytes.length }
  if p.bufferRecvIndex = 0 then .ok (p, 0, .returns .readUnderflow)
  else handleMessages e external keepalives (bytes.length + 1) p 0 0

end CloudI.ApiC
