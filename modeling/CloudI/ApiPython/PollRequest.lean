import CloudI.Wire.Messages
import CloudI.Library.Except
import CloudI.Library.Unpack

/-!
# ApiPython.PollRequest

`__poll_request` of the Python API between two calls of `select`, and `__init__`, which
takes the settings from what it returns.

An attribute that is not set yet has a default.  The results of the `sendall` that
answers a keepalive message are a parameter, indexed by the number of such answers
before; so is `binary_to_term`.
-/

namespace CloudI.ApiPython

open Binary Unpack Wire

/-! ## the object -/

/-- The attributes of an `API` that `MESSAGE_INIT` and `MESSAGE_REINIT` set. -/
structure Settings where
  processIndex : Nat := 0
  processCount : Nat := 0
  processCountMax : Nat := 0
  processCountMin : Nat := 0
  namePrefix : String := ""
  timeoutInitialize : Nat := 0
  timeoutAsync : Nat := 0
  timeoutSync : Nat := 0
  timeoutTerminate : Nat := 1000
  priorityDefault : Int := 0
deriving DecidableEq

/-- An `API`. -/
structure API where
  terminate : Bool := false
  settings : Settings := {}

/-- An exception: of `struct.unpack`, of the module, of `assert`, of `decode`, of
`binary_to_term`, of `sendall`, or of an assignment to a tuple. -/
inductive Failure where
  | struct
  | messageDecoding
  | terminate (timeout : Nat)
  | assertion
  | unicode
  | term
  | send
  | assignment
deriving DecidableEq

/-- The arguments of `__callback`. -/
structure Callback (Term : Type) where
  command : Nat
  name : String
  pattern : String
  requestInfo : Binary
  request : Binary
  timeout : Nat
  priority : Int
  transId : Binary
  pid : Term

/-- The tuple that is returned for `MESSAGE_INIT`. -/
abbrev InitTuple := Nat × Nat × Nat × Nat × String × Nat × Nat × Nat × Nat × Int

/-- What `__poll_request` does after the received data: it returns a value, where `closed` is
`False`, or it calls `__callback` or waits for more. -/
inductive Result (Term : Type) where
  | init (values : InitTuple)
  | response (responseInfo response transId : Binary)
  | transId (transId : Binary)
  | transIds (transIds : List Binary)
  | count (count : Nat)
  | closed
  | callback (args : Callback Term)
  | waits

/-! ## formats -/

variable (e : Endianness)

/-- `I`. -/
def formatI : Format Byte Nat := do
  let bytes ← elements 4
  pure (nativeValue e bytes)

/-- `b`. -/
def formatB : Format Byte Int
  | byte :: rest => some (int8Value byte, rest)
  | [] => none

variable (size : Nat)

/-- `%dsc` for a size. -/
def formatSized : Format Byte Binary := do
  let bytes ← elements size
  let _ ← elements 1
  pure bytes

/-- `%dsc` for a size less one, which is no format when that is negative. -/
def formatTerminated : Nat → Format Byte Binary
  | 0 => fun _ => none
  | size + 1 => formatSized size

/-- `IIIb`. -/
def formatIIIb : Format Byte (Nat × Nat × Nat × Int) := do
  let n₁ ← formatI e
  let n₂ ← formatI e
  let n₃ ← formatI e
  let n₄ ← formatB
  pure (n₁, n₂, n₃, n₄)

/-- `IIIII`. -/
def formatIIIII : Format Byte (Nat × Nat × Nat × Nat × Nat) := do
  let n₁ ← formatI e
  let n₂ ← formatI e
  let n₃ ← formatI e
  let n₄ ← formatI e
  let n₅ ← formatI e
  pure (n₁, n₂, n₃, n₄, n₅)

/-- `%dscIIIIb` for a size less one. -/
def formatTerminatedIIIIb :
    Format Byte (Binary × Nat × Nat × Nat × Nat × Int) := do
  let bytes ← formatTerminated size
  let n₁ ← formatI e
  let n₂ ← formatI e
  let n₃ ← formatI e
  let n₄ ← formatI e
  let n₅ ← formatB
  pure (bytes, n₁, n₂, n₃, n₄, n₅)

/-- `%dscI` for a size less one. -/
def formatTerminatedI : Format Byte (Binary × Nat) := do
  let bytes ← formatTerminated size
  let n ← formatI e
  pure (bytes, n)

/-- `%dscI` for a size. -/
def formatSizedI : Format Byte (Binary × Nat) := do
  let bytes ← formatSized size
  let n ← formatI e
  pure (bytes, n)

/-- `%dscIb16sI` for a size. -/
def formatSizedIb16sI :
    Format Byte (Binary × Nat × Int × Binary × Nat) := do
  let bytes ← formatSized size
  let n₁ ← formatI e
  let n₂ ← formatB
  let bytes' ← elements 16
  let n₃ ← formatI e
  pure (bytes, n₁, n₂, bytes', n₃)

/-- `%dsc16s` for a size. -/
def formatSized16s : Format Byte (Binary × Binary) := do
  let bytes ← formatSized size
  let bytes' ← elements 16
  pure (bytes, bytes')

/-- `struct.unpack`. -/
def unpack (format : Format Byte α) (data : Binary) : Except Failure α :=
  match Unpack.unpack format data with
  | some x => .ok x
  | none => .error .struct

/-- `decode('utf-8')`. -/
def decodeUtf8 (b : Binary) : Except Failure String :=
  match String.fromUTF8? ⟨(b.map UInt8.ofFin).toArray⟩ with
  | some text => .ok text
  | none => .error .unicode

/-! ## reads -/

variable {Term : Type} (e : Endianness) (binaryToTerm : Binary → Option Term) (external : Bool)
  (sends : Nat → Bool)

/-- What is unpacked for `MESSAGE_REINIT`. -/
def readReinit (p : API) (data : Binary) (j : Nat) : Except Failure (API × Nat) := do
  let (i, j) := (j, j + 4 + 4 + 4 + 1)
  let (processCount, timeoutAsync, timeoutSync, priorityDefault) ←
    unpack (formatIIIb e) (slice data i j)
  pure ({ p with settings :=
    { p.settings with processCount, timeoutAsync, timeoutSync, priorityDefault } }, j)

/-- The variables that `MESSAGE_INIT` is unpacked into. -/
structure InitVariables where
  processIndex : Nat
  processCount : Nat
  processCountMax : Nat
  processCountMin : Nat
  namePrefix : Binary
  timeoutInitialize : Nat
  timeoutAsync : Nat
  timeoutSync : Nat
  timeoutTerminate : Nat
  priorityDefault : Int

variable (data : Binary)

/-- What is unpacked for `MESSAGE_INIT`. -/
def readInit (j : Nat) : Except Failure (InitVariables × Nat) := do
  let (i, j) := (j, j + 4 + 4 + 4 + 4 + 4)
  let (processIndex, processCount, processCountMax, processCountMin, prefixSize) ←
    unpack (formatIIIII e) (slice data i j)
  let (i, j) := (j, j + prefixSize + 4 + 4 + 4 + 4 + 1)
  let (namePrefix, timeoutInitialize, timeoutAsync, timeoutSync, timeoutTerminate,
      priorityDefault) ← unpack (formatTerminatedIIIIb e prefixSize) (slice data i j)
  pure ({ processIndex, processCount, processCountMax, processCountMin, namePrefix,
          timeoutInitialize, timeoutAsync, timeoutSync, timeoutTerminate, priorityDefault }, j)

/-- What is returned for `MESSAGE_INIT`. -/
def InitVariables.tuple (x : InitVariables) : Except Failure InitTuple := do
  let namePrefix ← decodeUtf8 x.namePrefix
  pure (x.processIndex, x.processCount, x.processCountMax, x.processCountMin, namePrefix,
    x.timeoutInitialize, x.timeoutSync, x.timeoutAsync, x.timeoutTerminate, x.priorityDefault)

/-- The variables that a request is unpacked into. -/
structure RequestVariables where
  name : Binary
  pattern : Binary
  requestInfo : Binary
  request : Binary
  requestTimeout : Nat
  priority : Int
  transId : Binary
  pid : Binary

/-- What is unpacked for `MESSAGE_SEND_ASYNC` and `MESSAGE_SEND_SYNC`. -/
def readRequest (j : Nat) : Except Failure (RequestVariables × Nat) := do
  let (i, j) := (j, j + 4)
  let nameSize ← unpack (formatI e) (slice data i j)
  let (i, j) := (j, j + nameSize + 4)
  let (name, patternSize) ← unpack (formatTerminatedI e nameSize) (slice data i j)
  let (i, j) := (j, j + patternSize + 4)
  let (pattern, requestInfoSize) ← unpack (formatTerminatedI e patternSize) (slice data i j)
  let (i, j) := (j, j + requestInfoSize + 1 + 4)
  let (requestInfo, requestSize) ← unpack (formatSizedI e requestInfoSize) (slice data i j)
  let (i, j) := (j, j + requestSize + 1 + 4 + 1 + 16 + 4)
  let (request, requestTimeout, priority, transId, pidSize) ←
    unpack (formatSizedIb16sI e requestSize) (slice data i j)
  let (i, j) := (j, j + pidSize)
  let pid := slice data i j
  pure ({ name, pattern, requestInfo, request, requestTimeout, priority, transId, pid }, j)

/-- The arguments of `__callback`. -/
def RequestVariables.args (x : RequestVariables) (command : Nat) :
    Except Failure (Callback Term) := do
  let name ← decodeUtf8 x.name
  let pattern ← decodeUtf8 x.pattern
  match binaryToTerm x.pid with
  | some pid =>
      pure { command, name, pattern, requestInfo := x.requestInfo, request := x.request
             timeout := x.requestTimeout, priority := x.priority, transId := x.transId, pid }
  | none => .error .term

/-- What is unpacked for `MESSAGE_RECV_ASYNC` and `MESSAGE_RETURN_SYNC`. -/
def readResponse (j : Nat) :
    Except Failure ((Binary × Binary × Binary) × Nat) := do
  let (i, j) := (j, j + 4)
  let responseInfoSize ← unpack (formatI e) (slice data i j)
  let (i, j) := (j, j + responseInfoSize + 1 + 4)
  let (responseInfo, responseSize) ← unpack (formatSizedI e responseInfoSize) (slice data i j)
  let (i, j) := (j, j + responseSize + 1 + 16)
  let (response, transId) ← unpack (formatSized16s responseSize) (slice data i j)
  pure ((responseInfo, response, transId), j)

/-- What is unpacked for `MESSAGE_RETURNS_ASYNC`. -/
def readTransIds (j : Nat) : Except Failure (List Binary × Nat) := do
  let (i, j) := (j, j + 4)
  let transIdCount ← unpack (formatI e) (slice data i j)
  let (i, j) := (j, j + 16 * transIdCount)
  let transIds ← unpack (repeats (elements 16) transIdCount) (slice data i j)
  pure (transIds, j)

/-! ## events -/

/-- One event: the next index, or `none` when `__handle_events` returns `False`. -/
def handleEvent (p : API) (sent j : Nat) :
    Nat → Except Failure (API × Nat × Option Nat)
  | 11 =>
      if external then .ok ({ p with terminate := true }, sent, none)
      else .error (.terminate p.settings.timeoutTerminate)
  | 9 => (readReinit e p data j).map fun x => (x.1, sent, some x.2)
  | 8 => if sends sent then .ok (p, sent + 1, some j) else .error .send
  | _ => .error .messageDecoding

/-- The loop of `__handle_events` from a command on.  Each round reads four more bytes. -/
def handleEventsLoop (data : Binary) : Nat → API → Nat → Nat → Nat →
    Except Failure (API × Nat × Bool)
  | 0, _, _, _, _ => .error .struct
  | fuel + 1, p, sent, j, command => do
      match ← handleEvent e external sends data p sent j command with
      | (p, sent, none) => pure (p, sent, false)
      | (p, sent, some j) =>
          if j > data.length then .error .messageDecoding
          else if j = data.length then pure (p, sent, true)
          else do
            let command ← unpack (formatI e) (slice data j (j + 4))
            handleEventsLoop data fuel p sent (j + 4) command

/-- `__handle_events` without a command. -/
def handleEvents (p : API) (sent : Nat) (data : Binary) (j : Nat) :
    Except Failure (API × Nat × Bool) :=
  if j > data.length then .error .messageDecoding
  else do
    let command ← unpack (formatI e) (slice data j (j + 4))
    handleEventsLoop e external sends data (data.length + 1) p sent (j + 4) command

/-- The events behind a message, in the mode that is asserted for them. -/
def eventsBehind (mode : Bool) (p : API) (sent : Nat) (data : Binary) (j : Nat) :
    Except Failure (API × Nat × Bool) :=
  if j ≠ data.length then
    if external ≠ mode then .error .assertion else handleEvents e external sends p sent data j
  else .ok (p, sent, true)

/-! ## messages -/

/-- The message at an index: what `__poll_request` does, or the next index. -/
def handleMessage (p : API) (sent : Nat) (data : Binary) (j : Nat) :
    Nat → Except Failure (API × Nat × (Nat ⊕ Result Term))
  | 1 => do
      let (x, j) ← readInit e data j
      let (p, sent, _) ← eventsBehind e external sends false p sent data j
      let values ← x.tuple
      pure (p, sent, .inr (.init values))
  | 2 => request 2
  | 3 => request 3
  | 4 => response
  | 5 => do
      let (i, j) := (j, j + 16)
      let transId := slice data i j
      reply (.transId transId) j
  | 6 => response
  | 7 => do
      let (transIds, j) ← readTransIds e data j
      reply (.transIds transIds) j
  | 8 => if sends sent then .ok (p, sent + 1, .inl j) else .error .send
  | 9 => (readReinit e p data j).map fun x => (x.1, sent, .inl x.2)
  | 10 => do
      let (i, j) := (j, j + 4)
      let count ← unpack (formatI e) (slice data i j)
      reply (.count count) j
  | 11 => do
      match ← handleEventsLoop e external sends data 1 p sent j 11 with
      | (p, sent, false) => pure (p, sent, .inr .closed)
      | (_, _, true) => .error .assertion
  | _ => .error .messageDecoding
where
  reply (result : Result Term) (j : Nat) : Except Failure (API × Nat × (Nat ⊕ Result Term)) := do
    -- what `__handle_events` returns is not looked at
    let (p, sent, _) ← eventsBehind e external sends false p sent data j
    pure (p, sent, .inr result)
  response : Except Failure (API × Nat × (Nat ⊕ Result Term)) := do
    let ((responseInfo, response, transId), j) ← readResponse e data j
    reply (.response responseInfo response transId) j
  request (command : Nat) : Except Failure (API × Nat × (Nat ⊕ Result Term)) := do
    let (x, j) ← readRequest e data j
    let (p, sent, continues) ← eventsBehind e external sends true p sent data j
    if continues then do
      let args ← x.args binaryToTerm command
      pure (p, sent, .inr (.callback args))
    else pure (p, sent, .inr .closed)

/-- The loop of `__poll_request` over the received data.  Each round reads four more bytes. -/
def handleMessages (data : Binary) : Nat → API → Nat → Nat →
    Except Failure (API × Nat × Result Term)
  | 0, _, _, _ => .error .struct
  | fuel + 1, p, sent, j => do
      let command ← unpack (formatI e) (slice data j (j + 4))
      match ← handleMessage e binaryToTerm external sends p sent data (j + 4) command with
      | (p, sent, .inr result) => pure (p, sent, result)
      | (p, sent, .inl j) =>
          if j = data.length then pure (p, sent, .waits)
          else if j < data.length then handleMessages data fuel p sent j
          else .error .messageDecoding

/-- `__poll_request` after `__recv`. -/
def received (p : API) (data : Binary) : Except Failure (API × Nat × Result Term) :=
  if data.length = 0 then .ok (p, 0, .closed)
  else handleMessages e binaryToTerm external sends data (data.length + 1) p 0 0

/-- `__init__` after `__recv`: the attributes are set from the returned tuple, and whether they
are. -/
def API.init (p : API) (data : Binary) : Except Failure (API × Nat × Bool) := do
  match ← received e binaryToTerm false sends p data with
  | (p, sent, .init (processIndex, processCount, processCountMax, processCountMin, namePrefix,
      timeoutInitialize, timeoutAsync, timeoutSync, timeoutTerminate, priorityDefault)) =>
      pure ({ p with settings :=
        { processIndex, processCount, processCountMax, processCountMin, namePrefix,
          timeoutInitialize, timeoutAsync, timeoutSync, timeoutTerminate, priorityDefault } },
        sent, true)
  | (p, sent, .callback _) => pure (p, sent, false)
  | (p, sent, .waits) => pure (p, sent, false)
  | _ => .error .assignment

end CloudI.ApiPython
