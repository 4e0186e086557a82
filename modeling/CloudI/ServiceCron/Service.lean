import CloudI.CloudiLists.Iodata
import CloudI.Erlang.Maps
import CloudI.Library.Run
import CloudI.ServiceCron.Next

/-!
# ServiceCron.Service

The cron service: the timers of its expressions, the requests that their events send and the
answers to them, handled in any order.  `none` is a call that fails, or one whose fuel is used up.
-/

namespace CloudI.ServiceCron.Service

open Calendar CloudiLists CloudI.Maps Run List Option

/-! ## the records -/

/-- `#expression{}`. -/
structure Expression where
  description : Option Text
  definition : ServiceCron.Expression
  sendArgs : List Term
  sendArgs_ne : sendArgs ≠ []
  datetimeUtc : Option DateTime
  timer : Option Nat

/-- `cloudi_service:trans_id()`. -/
abbrev TransId := Nat

/-- `#send_data{}`. -/
structure SendData where
  id : Nat
  sendStart : Int
  deriving DecidableEq

/-- `#state{}`. -/
structure State where
  utc : Bool
  timeOffsetMilliseconds : Int
  idNext : Nat
  expressions : ErlMap Nat Expression
  sends : ErlMap TransId SendData

/-- A response: a term of bytes, binaries and lists, or one with something else in it. -/
inductive Response where
  | data (d : Term)
  | other
  deriving DecidableEq

/-- How an event went. -/
inductive Result where
  | ok
  | error
  | timeout
  deriving DecidableEq

/-- The messages of `cloudi_service_handle_info/3`. -/
inductive Message where
  | timeoutAsyncActive (transId : TransId)
  | returnAsyncActive (response : Response) (transId : TransId)
  | expression (id : Nat)
  | change (timeOffset : Int)
  deriving DecidableEq

/-- The event of an expression. -/
def Message.event : Message → Option Nat
  | expression id => some id
  | _ => none

/-- The request that is answered. -/
def Message.answer : Message → Option TransId
  | timeoutAsyncActive transId => some transId
  | returnAsyncActive _ transId => some transId
  | _ => none

/-! ## the process -/

/-- The active timers, each with the expression it is for, the reference of the next timer, and
the messages that are not handled. -/
structure Runtime where
  timers : List (Nat × Nat) := []
  next : Nat := 0
  mailbox : List Message := []

namespace Runtime

variable (rt : Runtime)

/-- A message is sent to the service. -/
def tell (message : Message) : Runtime :=
  { rt with mailbox := message :: rt.mailbox }

/-- A message is taken, from anywhere in the mailbox. -/
def receive (message : Message) : Runtime :=
  { rt with mailbox := rt.mailbox.erase message }

def start (id : Nat) : Runtime :=
  { rt with timers := (rt.next, id) :: rt.timers, next := rt.next + 1 }

/-- `erlang:cancel_timer/1`: `none` for a timer that is not active. -/
def cancel (timer : Nat) : Option ((Nat × Nat) × Runtime) :=
  (rt.timers.find? fun active => active.1 = timer).map fun active =>
    (active, { rt with timers := rt.timers.erase active })

/-- The events that are still to be handled: of an active timer, or of one that has elapsed. -/
def pending : List Nat :=
  rt.timers.map Prod.snd ++ rt.mailbox.filterMap Message.event

/-- The requests whose answer is still to be handled. -/
def answers : List TransId := rt.mailbox.filterMap Message.answer

end Runtime

/-- `calendar:universal_time_to_local_time/1` and `local_time_to_universal_time_dst/1`. -/
structure Zone where
  toLocal : DateTime → DateTime
  toUniversal : DateTime → List DateTime

/-- `erlang:timestamp()`, and the milliseconds that are left until the `end_time` of the system. -/
structure Clock where
  now : DateTime
  micro : Nat
  left : Int
  valid : ValidDateTime now
  micro_lt : micro < 1000000

/-- `erlang:send_after/3`, which takes no negative time and none that is past the `end_time`. -/
def sendAfter (clock : Clock) (milliseconds : Int) (id : Nat) (rt : Runtime) :
    Option (Nat × Runtime) :=
  if 0 ≤ milliseconds ∧ milliseconds ≤ clock.left then some (rt.next, rt.start id) else none

/-- What one call of the service meets: how long a search is followed, the clock and what is left
of a timer, both for each expression, the monotonic time, and the next transaction id, of a
request that is sent or has timed out at once. -/
structure Moment where
  fuel : Nat
  clock : Nat → Clock
  remaining : Nat → Nat
  monotonic : Int
  transId : TransId
  sent : Bool

/-! ## the next event -/

def datetimeNowUtc (clock : Clock) : DateTime × Int := (clock.now, (clock.micro / 1000 : Nat) - 10)

def eventMilliseconds (eventUtc nowUtc : DateTime) (past : Int) : Option Int := do
  let event ← datetimeToGregorianSeconds eventUtc
  let now ← datetimeToGregorianSeconds nowUtc
  some (((event : Int) - now) * 1000 - past)

def datetimeEventUtc (zone : Zone) (definition : ServiceCron.Expression) (utc : Bool) :
    Nat → DateTime → Option DateTime
  | 0, _ => none
  | fuel + 1, datetime => do
      let event ← nextDatetime (fuel + 1) datetime definition
      if utc then some event else
        match zone.toUniversal event with
        | [] => datetimeEventUtc zone definition utc fuel event
        | [eventUtc] => some eventUtc
        | [_, eventUtc] => some eventUtc
        | _ => none

/-- The numbers by which datetimes are ordered as terms. -/
def numbers (datetime : DateTime) : List Nat :=
  [datetime.1.year, datetime.1.month, datetime.1.day,
    datetime.2.hour, datetime.2.minute, datetime.2.second]

variable (zone : Zone) (utc : Bool)

/-- The datetime after which `expression_next_event` looks for an event: the old event, when the
clock was set back before it. -/
def eventAfter (oldUtc : Option DateTime) (nowUtc : DateTime) : DateTime :=
  let nextUtc := match oldUtc with
    | none => nowUtc
    | some oldUtc => if numbers nowUtc < numbers oldUtc then oldUtc else nowUtc
  if utc then nextUtc else zone.toLocal nextUtc

def expressionNextEvent (fuel : Nat) (clock : Clock)
    (oldUtc : Option DateTime) (definition : ServiceCron.Expression) :
    Option (DateTime × Int) := do
  let (nowUtc, past) := datetimeNowUtc clock
  let newUtc ← datetimeEventUtc zone definition utc fuel (eventAfter zone utc oldUtc nowUtc)
  some (newUtc, ← eventMilliseconds newUtc nowUtc past)

def expressionNext (fuel : Nat) (clock : Clock) (id : Nat)
    (e : Expression) (rt : Runtime) : Option (Expression × Runtime) := do
  let (newUtc, milliseconds) ←
    expressionNextEvent zone utc fuel clock e.datetimeUtc e.definition
  let (timer, rt) ← sendAfter clock milliseconds id rt
  some ({ e with datetimeUtc := some newUtc, timer := some timer }, rt)

/-! ## all expressions -/

/-- The values of an entry, as `cloudi_proplists:take_values/2` gives them. -/
structure Args where
  description : Option Text
  sendArgs : List Term

/-- `expressions_load/6`: every process of the service takes its share. -/
def expressionsLoad (processIndex processCount : Nat) :
    List (Text × Args) → Nat → ErlMap Nat Expression → Nat → Option (Nat × ErlMap Nat Expression)
  | [], id, expressions, _ => some (id, expressions)
  | (expressionStr, args) :: l, id, expressions, index =>
      if index = processIndex then
        if h : expressionStr ≠ [] ∧ args.description ≠ some [] ∧ args.sendArgs ≠ [] then do
          let cron ← new expressionStr
          expressionsLoad processIndex processCount l (id + 1)
            (put id ⟨args.description, cron, args.sendArgs, h.2.2, none, none⟩ expressions)
            ((index + 1) % processCount)
        else none
      else expressionsLoad processIndex processCount l id expressions ((index + 1) % processCount)

/-- `maps:map/2` with a function that has effects: the values of a map are replaced. -/
def mapEach (f : Nat → Expression → Runtime → Option (Expression × Runtime)) :
    List (Nat × Expression) → ErlMap Nat Expression → Runtime →
      Option (ErlMap Nat Expression × Runtime)
  | [], expressions, rt => some (expressions, rt)
  | (id, e) :: l, expressions, rt => do
      let (e', rt') ← f id e rt
      mapEach f l (put id e' expressions) rt'

def expressionsStart (moment : Moment) (expressions : ErlMap Nat Expression) (rt : Runtime) :
    Option (ErlMap Nat Expression × Runtime) :=
  mapEach (fun id => expressionNext zone utc moment.fuel (moment.clock id) id)
    (toList expressions) expressions rt

/-- The timer of one expression, whose event has been set with it. -/
def expressionTimeOffset (moment : Moment) (offset : Int) (id : Nat) (e : Expression)
    (rt : Runtime) : Option (Expression × Runtime) := do
  let timerOld ← e.timer
  let eventUtc ← e.datetimeUtc
  match rt.cancel timerOld with
  | none => some (e, rt)
  | some (_, rt) =>
      let (nowUtc, past) := datetimeNowUtc (moment.clock id)
      if moment.remaining id + offset ≤ 0 ∨ ¬ numbers nowUtc < numbers eventUtc then
        some (e, rt.tell (.expression id))
      else do
        let milliseconds ← eventMilliseconds eventUtc nowUtc past
        let (timer, rt) ← sendAfter (moment.clock id) milliseconds id rt
        some ({ e with timer := some timer }, rt)

def expressionsTimeOffset (moment : Moment) (offset : Int) (expressions : ErlMap Nat Expression)
    (rt : Runtime) : Option (ErlMap Nat Expression × Runtime) :=
  mapEach (expressionTimeOffset moment offset) (toList expressions) expressions rt

/-! ## the messages -/

/-- `erlang:iolist_to_binary/1`: `none` for a `badarg` error. -/
def iolistToBinary : Term → Option Binary
  | .byte _ => none
  | .binary b => some b
  | .nil => some []
  | .cons (.byte n) tail => (iolistToBinary tail).map (n :: ·)
  | .cons head tail => do some ((← iolistToBinary head) ++ (← iolistToBinary tail))

/-- How an event went, by its response.  `catch _` is of a `throw` only, and the calls fail with
an `error`. -/
def resultOf : Response → Option Result
  | .data d => do
      let status ← Binary.toInteger (← iolistToBinary d)
      some (if status = 0 then .ok else .error)
  | .other => none

def eventSend (moment : Moment) (sends : ErlMap TransId SendData) (id : Nat) (rt : Runtime) :
    ErlMap TransId SendData × Runtime :=
  (put moment.transId ⟨id, moment.monotonic⟩ sends,
    if moment.sent then rt else rt.tell (.timeoutAsyncActive moment.transId))

def eventRecv (sends : ErlMap TransId SendData) (expressions : ErlMap Nat Expression)
    (transId : TransId) : Option (ErlMap TransId SendData) := do
  let (sendData, sendsNew) ← take transId sends
  let _ ← find sendData.id expressions
  some sendsNew

def expressionEvent (moment : Moment) (utc : Bool)
    (sends : ErlMap TransId SendData) (expressions : ErlMap Nat Expression) (id : Nat)
    (rt : Runtime) : Option ((ErlMap TransId SendData × ErlMap Nat Expression) × Runtime) := do
  let e ← find id expressions
  let (sendsNew, rt) := eventSend moment sends id rt
  let (eNew, rt) ← expressionNext zone utc moment.fuel (moment.clock id) id e rt
  some ((sendsNew, put id eNew expressions), rt)

/-- `time_offset_to_milliseconds`, of nanoseconds. -/
def timeOffsetToMilliseconds (timeOffset : Int) : Int := timeOffset / 1000000

/-- `cloudi_service_handle_info/3`. -/
def handleInfo (moment : Moment) (s : State) (rt : Runtime) :
    Message → Option (State × Runtime)
  | .timeoutAsyncActive transId => do
      let sends ← eventRecv s.sends s.expressions transId
      some ({ s with sends := sends }, rt)
  | .returnAsyncActive response transId => do
      let _ ← resultOf response
      let sends ← eventRecv s.sends s.expressions transId
      some ({ s with sends := sends }, rt)
  | .expression id => do
      let ((sends, expressions), rt) ←
        expressionEvent zone moment s.utc s.sends s.expressions id rt
      some ({ s with expressions := expressions, sends := sends }, rt)
  | .change timeOffset => do
      let valueNew := timeOffsetToMilliseconds timeOffset
      let (expressions, rt) ←
        expressionsTimeOffset moment (s.timeOffsetMilliseconds - valueNew) s.expressions rt
      some ({ s with timeOffsetMilliseconds := valueNew, expressions := expressions }, rt)

/-! ## runs -/

/-- The service with the requests that wait for an answer, all that were sent, and those that
were handled. -/
structure World where
  state : State
  runtime : Runtime
  waiting : List TransId
  sent : List (TransId × SendData)
  handled : List (TransId × Result)

/-- `cloudi_service_init/4`. -/
def init (timeOffset : Int) (expressions : List (Text × Args))
    (processIndex processCount : Nat) (moment : Moment) : Option World := do
  let (idNext, loaded) ← expressionsLoad processIndex processCount expressions 1 ∅ 0
  let (started, rt) ← expressionsStart zone utc moment loaded {}
  some ⟨⟨utc, timeOffsetToMilliseconds timeOffset, idNext, started, ∅⟩, rt, [], [], []⟩

/-- A timer elapses, a request is answered or times out, the clock is changed, or a message is
handled. -/
inductive Label where
  | fires (timer : Nat)
  | answers (transId : TransId) (response : Option Response)
  | changes (timeOffset : Int)
  | handles (message : Message) (moment : Moment)

/-- What is sent and what is handled with a message. -/
def World.note (moment : Moment) (w : World) : Message → World
  | .timeoutAsyncActive transId => { w with handled := (transId, .timeout) :: w.handled }
  | .returnAsyncActive response transId =>
      { w with handled := (transId, (resultOf response).getD .ok) :: w.handled }
  | .expression id =>
      { w with
        sent := (moment.transId, ⟨id, moment.monotonic⟩) :: w.sent
        waiting := if moment.sent then moment.transId :: w.waiting else w.waiting }
  | .change _ => w

def answerMessage (transId : TransId) : Option Response → Message
  | none => .timeoutAsyncActive transId
  | some response => .returnAsyncActive response transId

def step (w : World) : Label → Option World
  | .fires timer => (w.runtime.cancel timer).map fun (active, rt) =>
      { w with runtime := rt.tell (.expression active.2) }
  | .answers transId response =>
      some { w with
        waiting := w.waiting.erase transId
        runtime := w.runtime.tell (answerMessage transId response) }
  | .changes timeOffset => some { w with runtime := w.runtime.tell (.change timeOffset) }
  | .handles message moment =>
      (handleInfo zone moment w.state (w.runtime.receive message) message).map fun (s, rt) =>
        World.note moment { w with state := s, runtime := rt } message

/-- What can happen: a transaction id is fresh. -/
def Enabled (w : World) : Label → Prop
  | .fires timer => ∃ active ∈ w.runtime.timers, active.1 = timer
  | .answers transId _ => transId ∈ w.waiting
  | .changes _ => True
  | .handles message moment =>
      message ∈ w.runtime.mailbox ∧ moment.transId ∉ w.sent.map Prod.fst

/-- An event is not over, ten milliseconds after its second, and not past the `end_time`. -/
def Clock.Reaches (clock : Clock) (event : DateTime) : Prop :=
  (secondsOf clock.now < secondsOf event ∨
    secondsOf clock.now = secondsOf event ∧ clock.micro < 11000) ∧
  ((secondsOf event : Int) - secondsOf clock.now) * 1000 + 10 - (clock.micro / 1000 : Nat) ≤
    clock.left

/-- **The next event is found**: the search for it returns a datetime that is not over. -/
def Due (fuel : Nat) (clock : Clock) (e : Expression) : Prop :=
  ∃ event ∈ datetimeEventUtc zone e.definition utc fuel
      (eventAfter zone utc e.datetimeUtc clock.now),
    event.1.Valid ∧ clock.Reaches event

/-- The status code of a shell: iodata that is the text of an integer. -/
def IsStatus : Response → Prop
  | .data d => d.IsIodata ∧ (Binary.toInteger d.bytes).isSome
  | .other => False

/-- The timer of an expression is active, and a change of the clock sets it again. -/
def Resets (moment : Moment) (offset : Int) (timers : List (Nat × Nat)) (id : Nat)
    (e : Expression) (event : DateTime) : Prop :=
  e.datetimeUtc = some event ∧ (∃ timer ∈ e.timer, (timer, id) ∈ timers) ∧
    0 < moment.remaining id + offset ∧ numbers (moment.clock id).now < numbers event

/-- The timer that is set again is not past the `end_time`. -/
def CanReset (moment : Moment) (offset : Int) (timers : List (Nat × Nat)) (id : Nat)
    (e : Expression) : Prop :=
  ∀ event, Resets moment offset timers id e event → (moment.clock id).Reaches event

/-- **When a step does not fail**: a response is the text of an integer, an expression has a next
event, and a timer that is set again is not past the `end_time`. -/
def Fits (w : World) : Label → Prop
  | .handles (.returnAsyncActive response _) _ => IsStatus response
  | .handles (.expression id) moment =>
      ∀ e ∈ find id w.state.expressions, Due zone w.state.utc moment.fuel (moment.clock id) e
  | .handles (.change timeOffset) moment =>
      ∀ x ∈ toList w.state.expressions,
        CanReset moment (w.state.timeOffsetMilliseconds - timeOffsetToMilliseconds timeOffset)
          w.runtime.timers x.1 x.2
  | _ => True

/-! ## responses -/

theorem iolistToBinary_eq_some {d : Term} {b : Binary} :
    iolistToBinary d = some b ↔ d.IsIodata ∧ b = d.bytes := by
  induction d generalizing b with
  | byte n => exact ⟨nofun, fun h => h.1.elim⟩
  | binary b' => exact some_inj.trans ⟨fun h => ⟨trivial, h.symm⟩, fun h => h.2.symm⟩
  | nil => exact some_inj.trans ⟨fun h => ⟨trivial, h.symm⟩, fun h => h.2.symm⟩
  | cons head tail ihead itail =>
    by_cases hbyte : ∃ n, head = .byte n
    · obtain ⟨n, rfl⟩ := hbyte
      rw [iolistToBinary, map_eq_some_iff]
      simp only [itail]
      exact ⟨fun ⟨_, ⟨h, rfl⟩, hb⟩ => ⟨⟨.inl ⟨n, rfl⟩, h⟩, hb.symm⟩,
        fun h => ⟨_, ⟨h.1.2, rfl⟩, h.2.symm⟩⟩
    · have hcons : iolistToBinary (.cons head tail) = (iolistToBinary head).bind fun b =>
          (iolistToBinary tail).bind fun b' => some (b ++ b') := by
        cases head with
        | byte n => exact absurd ⟨n, rfl⟩ hbyte
        | _ => rfl
      simp only [hcons, bind_eq_some_iff, ihead, itail, some_inj]
      exact ⟨fun ⟨_, ⟨hhead, rfl⟩, _, ⟨htail, rfl⟩, hb⟩ => ⟨⟨.inr hhead, htail⟩, hb.symm⟩,
        fun h => ⟨_, ⟨h.1.1.resolve_left hbyte, rfl⟩, _, ⟨h.1.2, rfl⟩, h.2.symm⟩⟩

theorem isSome_resultOf {response : Response} : (resultOf response).isSome ↔ IsStatus response := by
  cases response with
  | other => exact ⟨nofun, False.elim⟩
  | data d =>
    simp only [resultOf, isSome_iff_exists, bind_eq_bind, bind_eq_some_iff,
      iolistToBinary_eq_some, some_inj, IsStatus]
    exact ⟨fun ⟨_, _, ⟨hd, hb⟩, status, hstatus, _⟩ => ⟨hd, status, hb ▸ hstatus⟩,
      fun ⟨hd, status, hstatus⟩ => ⟨_, _, ⟨hd, rfl⟩, status, hstatus, rfl⟩⟩

instance (response : Response) : Decidable (IsStatus response) :=
  decidable_of_iff _ isSome_resultOf

/-! ## the timers -/

theorem datetimeToGregorianSeconds_eq_some {datetime : DateTime} {seconds : Nat} :
    datetimeToGregorianSeconds datetime = some seconds ↔
      datetime.1.Valid ∧ secondsOf datetime = seconds := by
  unfold datetimeToGregorianSeconds dateToGregorianDays secondsOf
  by_cases h : datetime.1.Valid
  · rw [if_pos h, map_some, some_inj, and_iff_right h]
  · rw [if_neg h]
    exact ⟨nofun, fun h' => absurd h'.1 h⟩

variable {zone : Zone} {utc : Bool} {fuel id : Nat} {clock : Clock} {e : Expression}
  {rt : Runtime} {ids todo : List Nat} {expressions : ErlMap Nat Expression} {event : DateTime}

/-- The timer of an event that is not over. -/
theorem eventTimer (clock : Clock) (event : DateTime) (id : Nat) (rt : Runtime)
    (r : Nat × Runtime) :
    (eventMilliseconds event (datetimeNowUtc clock).1 (datetimeNowUtc clock).2 >>=
      fun ms => sendAfter clock ms id rt) = some r ↔
      event.1.Valid ∧ clock.Reaches event ∧ r = (rt.next, rt.start id) := by
  have hmicro := clock.micro_lt
  simp only [eventMilliseconds, datetimeNowUtc, sendAfter, bind_eq_bind,
    bind_eq_some_iff, datetimeToGregorianSeconds_eq_some, some_inj,
    ite_none_right_eq_some]
  constructor
  · rintro ⟨_, ⟨_, ⟨hevent, rfl⟩, _, ⟨-, rfl⟩, rfl⟩, ⟨hle, hend⟩, rfl⟩
    refine ⟨hevent, ?_, rfl⟩
    unfold Clock.Reaches
    omega
  · rintro ⟨hevent, hreaches, rfl⟩
    refine ⟨_, ⟨_, ⟨hevent, rfl⟩, _, ⟨clock.valid.date, rfl⟩, rfl⟩, ?_, rfl⟩
    unfold Clock.Reaches at hreaches
    omega

/-- **The next event of an expression.** -/
theorem expressionNext_eq_some {r : Expression × Runtime} :
    expressionNext zone utc fuel clock id e rt = some r ↔
      ∃ event ∈ datetimeEventUtc zone e.definition utc fuel
          (eventAfter zone utc e.datetimeUtc clock.now),
        (event.1.Valid ∧ clock.Reaches event) ∧
          r = ({ e with datetimeUtc := some event, timer := some rt.next }, rt.start id) := by
  simp only [expressionNext, expressionNextEvent, bind_eq_bind, bind_eq_some_iff,
    some_inj]
  constructor
  · rintro ⟨_, ⟨event, hevent, ms, hms, rfl⟩, _, hsend, rfl⟩
    obtain ⟨hvalid, hreaches, rfl⟩ := (eventTimer clock event id rt _).mp
      (bind_eq_some_iff.mpr ⟨ms, hms, hsend⟩)
    exact ⟨event, hevent, ⟨hvalid, hreaches⟩, rfl⟩
  · rintro ⟨event, hevent, ⟨hvalid, hreaches⟩, rfl⟩
    obtain ⟨ms, hms, hsend⟩ := bind_eq_some_iff.mp
      ((eventTimer clock event id rt _).mpr ⟨hvalid, hreaches, rfl⟩)
    exact ⟨_, ⟨event, hevent, ms, hms, rfl⟩, _, hsend, rfl⟩

/-! ## the timers -/

/-- The event of an expression is a date, and an active timer under its reference is its own. -/
def Owned (id : Nat) (e : Expression) (rt : Runtime) : Prop :=
  ∃ event timer, e.datetimeUtc = some event ∧ e.timer = some timer ∧ event.1.Valid ∧
    timer < rt.next ∧ ∀ active ∈ rt.timers, active.1 = timer → active.2 = id

/-- **Every expression has one pending event**, but those that are still to be given one. -/
structure Scheduled (ids todo : List Nat) (expressions : ErlMap Nat Expression) (rt : Runtime) :
    Prop where
  known : ∀ id, (find id expressions).isSome ↔ id ∈ ids
  pending : (todo ++ rt.pending).Perm ids
  owned : ∀ id e, find id expressions = some e → id ∉ todo → Owned id e rt
  fresh : ∀ active ∈ rt.timers, active.1 < rt.next

variable {rt' : Runtime} {message : Message} {e' : Expression}

theorem Owned.mono (h : Owned id e rt) (hnext : rt.next ≤ rt'.next)
    (htimers : ∀ active ∈ rt'.timers, active ∈ rt.timers ∨ rt.next ≤ active.1) :
    Owned id e rt' := by
  obtain ⟨event, timer, hevent, htimer, hvalid, hlt, howns⟩ := h
  refine ⟨event, timer, hevent, htimer, hvalid, by omega, fun active hactive heq => ?_⟩
  rcases htimers active hactive with hold | hnew
  · exact howns active hold heq
  · omega

theorem Scheduled.find_isSome (h : Scheduled ids (id :: todo) expressions rt) :
    ∃ e, find id expressions = some e :=
  isSome_iff_exists.mp ((h.known id).mpr (h.pending.mem_iff.mp mem_cons_self))

/-- A timer is started for an expression. -/
theorem Scheduled.start (h : Scheduled ids (id :: todo) expressions rt)
    (hevent : e'.datetimeUtc = some event) (hvalid : event.1.Valid)
    (htimer : e'.timer = some rt.next) :
    Scheduled ids todo (put id e' expressions) (rt.start id) := by
  obtain ⟨e, he⟩ := h.find_isSome
  refine ⟨fun j => ?_, perm_middle.trans h.pending, fun j f hf hj => ?_, ?_⟩
  · rw [← h.known j, find_put]
    split
    · rename_i heq
      rw [← heq, he]
      exact iff_of_true rfl rfl
    · rfl
  · rw [find_put] at hf
    split at hf
    · rename_i heq
      cases hf
      subst heq
      refine ⟨event, rt.next, hevent, htimer, hvalid, Nat.lt_succ_self _,
        fun active hactive hnext => ?_⟩
      rcases mem_cons.mp hactive with rfl | hold
      · rfl
      · exact absurd hnext (Nat.ne_of_lt (h.fresh active hold))
    · rename_i hne
      refine (h.owned j f hf fun hmem => ?_).mono (Nat.le_succ _) fun active hactive => ?_
      · rcases mem_cons.mp hmem with rfl | hmem
        · exact hne rfl
        · exact hj hmem
      · rcases mem_cons.mp hactive with rfl | hold
        · exact .inr (Nat.le_refl _)
        · exact .inl hold
  · intro active hactive
    rcases mem_cons.mp hactive with rfl | hold
    · exact Nat.lt_succ_self _
    · exact Nat.lt_succ_of_lt (h.fresh active hold)

theorem filterMap_cons_toList {α β : Type} (f : α → Option β) (x : α) (l : List α) :
    (x :: l).filterMap f = (f x).toList ++ l.filterMap f := by
  rw [filterMap_cons]
  cases f x <;> rfl

theorem pending_tell (rt : Runtime) (message : Message) :
    (message.event.toList ++ rt.pending).Perm (rt.tell message).pending := by
  unfold Runtime.pending Runtime.tell
  rw [filterMap_cons_toList]
  exact perm_append_comm_assoc _ _ _

theorem pending_receive (hmem : message ∈ rt.mailbox) :
    (message.event.toList ++ (rt.receive message).pending).Perm rt.pending :=
  (pending_tell (rt.receive message) message).trans
    (((perm_cons_erase hmem).filterMap _).symm.append_left _)

theorem answers_receive (hmem : message ∈ rt.mailbox) :
    (message.answer.toList ++ (rt.receive message).answers).Perm rt.answers := by
  unfold Runtime.answers Runtime.receive
  rw [← filterMap_cons_toList]
  exact ((perm_cons_erase hmem).filterMap _).symm

/-- A message is sent to the service. -/
theorem Scheduled.tell (message : Message)
    (h : Scheduled ids (message.event.toList ++ todo) expressions rt)
    (howned : ∀ id ∈ message.event, ∀ e, find id expressions = some e → Owned id e rt) :
    Scheduled ids todo expressions (rt.tell message) := by
  refine ⟨h.known, ?_, fun j e he hj => ?_, h.fresh⟩
  · have hpending := h.pending
    rw [append_assoc] at hpending
    exact ((pending_tell rt message).symm.append_left todo).trans
      ((perm_append_comm_assoc _ _ _).trans hpending)
  · by_cases hmem : j ∈ message.event
    · exact howned j hmem e he
    · exact h.owned j e he fun h => (mem_append.mp h).elim
        (fun h => hmem (mem_toList.mp h)) hj

/-- A message is taken. -/
theorem Scheduled.receive (h : Scheduled ids [] expressions rt) (hmem : message ∈ rt.mailbox) :
    Scheduled ids message.event.toList expressions (rt.receive message) :=
  ⟨h.known, (pending_receive hmem).trans h.pending, fun j e he _ => h.owned j e he nofun, h.fresh⟩

/-- A timer elapses or is cancelled. -/
theorem Scheduled.cancel (h : Scheduled ids [] expressions rt)
    (hcancel : rt.cancel timer = some (active, rt')) :
    (active ∈ rt.timers ∧ active.1 = timer) ∧ Scheduled ids [active.2] expressions rt' ∧
      (∀ id e, Owned id e rt → Owned id e rt') ∧ rt'.answers = rt.answers := by
  obtain ⟨_, hfind, heq⟩ := map_eq_some_iff.mp hcancel
  cases heq
  have hmem := mem_of_find?_eq_some hfind
  have hsub : ∀ x ∈ rt.timers.erase active, x ∈ rt.timers := fun x => mem_of_mem_erase
  have howned : ∀ id e, Owned id e rt → Owned id e { rt with timers := rt.timers.erase active } :=
    fun id e h => h.mono (Nat.le_refl _) fun x hx => .inl (hsub x hx)
  refine ⟨⟨hmem, by simpa using find?_some hfind⟩, ⟨h.known, ?_, fun j e he _ =>
    howned j e (h.owned j e he nofun), fun x hx => h.fresh x (hsub x hx)⟩, howned, rfl⟩
  exact .trans (((perm_cons_erase hmem).map Prod.snd).symm.append_right _) h.pending

/-! ## all expressions -/

/-- **The rule of a map**: what the function preserves, for each expression, holds in the end. -/
theorem mapEach_spec {f : Nat → Expression → Runtime → Option (Expression × Runtime)}
    (fails : Prop) (P : List (Nat × Expression) → ErlMap Nat Expression → Runtime → Prop)
    (hstep : ∀ id e l expressions rt, P ((id, e) :: l) expressions rt →
      (f id e rt).elim fails fun r => P l (put id r.1 expressions) r.2)
    {l : List (Nat × Expression)} (h : P l expressions rt) :
    (mapEach f l expressions rt).elim fails fun r => P [] r.1 r.2 := by
  induction l generalizing expressions rt with
  | nil => exact h
  | cons x l ih =>
    have hx := hstep x.1 x.2 l expressions rt h
    rw [mapEach]
    cases hf : f x.1 x.2 rt with
    | none =>
      rw [hf] at hx
      exact hx
    | some r =>
      rw [hf] at hx
      exact ih hx

/-- **The expressions are started.** -/
theorem expressionsStart_spec {moment : Moment}
    (h : expressionsStart zone utc moment expressions {} = some (expressions', rt)) :
    Scheduled ((toList expressions).map Prod.fst) [] expressions' rt ∧ rt.answers = [] := by
  have hstart : Scheduled ((toList expressions).map Prod.fst) ((toList expressions).map Prod.fst)
      expressions {} := by
    refine ⟨fun id => ?_, .of_eq (append_nil _), fun id e he hid => ?_, nofun⟩
    · rw [isSome_iff_exists, List.mem_map]
      exact ⟨fun ⟨e, he⟩ => ⟨(id, e), mem_toList.mpr he, rfl⟩,
        fun ⟨x, hx, hid⟩ => ⟨x.2, by rw [← hid]; exact mem_toList.mp hx⟩⟩
    · exact absurd (List.mem_map.mpr ⟨(id, e), mem_toList.mpr he, rfl⟩) hid
  have hspec := mapEach_spec True
    (fun l acc rt => Scheduled ((toList expressions).map Prod.fst) (l.map Prod.fst) acc rt ∧
      rt.answers = [])
    (f := fun id => expressionNext zone utc moment.fuel (moment.clock id) id) ?_ ⟨hstart, rfl⟩
  · unfold expressionsStart at h
    rw [h] at hspec
    exact hspec
  · rintro id e l acc rt ⟨hs, ha⟩
    cases hr : expressionNext zone utc moment.fuel (moment.clock id) id e rt with
    | none => trivial
    | some r =>
      obtain ⟨event, -, ⟨hvalid, -⟩, rfl⟩ := expressionNext_eq_some.mp hr
      exact ⟨hs.start rfl hvalid rfl, ha⟩

theorem put_of_find (he : find id expressions = some e) : put id e expressions = expressions := by
  refine Maps.ext fun j => ?_
  rw [find_put]
  split
  · rename_i heq
    rw [← heq, he]
  · rfl

/-- The timer of one expression is set again, or its event is sent at once.  It fails exactly when
the timer cannot be set, and leaves those of the others as they are. -/
theorem expressionTimeOffset_spec (moment : Moment) (offset : Int)
    (h : Scheduled ids [] expressions rt) (he : find id expressions = some e) :
    (expressionTimeOffset moment offset id e rt).elim (¬ CanReset moment offset rt.timers id e)
      fun r => CanReset moment offset rt.timers id e ∧
        Scheduled ids [] (put id r.1 expressions) r.2 ∧ r.2.answers = rt.answers ∧
        ∀ j ≠ id, ∀ timer, (timer, j) ∈ r.2.timers ↔ (timer, j) ∈ rt.timers := by
  obtain ⟨event, timer, hevent, htimer, hvalid, -, howns⟩ := h.owned id e he nofun
  cases hcancel : rt.cancel timer with
  | none =>
    have heq : expressionTimeOffset moment offset id e rt = some (e, rt) := by
      rw [expressionTimeOffset, htimer, hevent, bind_eq_bind, bind_some, bind_eq_bind, bind_some,
        hcancel]
    rw [heq]
    refine ⟨?_, by rwa [put_of_find he], rfl, fun _ _ _ => Iff.rfl⟩
    rintro event' ⟨-, ⟨timer', htimer', hmem⟩, -⟩
    obtain rfl := Option.some.inj (htimer.symm.trans htimer')
    have hnone := find?_eq_none.mp (map_eq_none_iff.mp hcancel) _ hmem
    simp at hnone
  | some r =>
    obtain ⟨⟨hmem, hactive⟩, hs, howned, hanswers⟩ := h.cancel hcancel
    obtain rfl : r.1.2 = id := howns r.1 hmem hactive
    subst hactive
    have hothers : ∀ j ≠ r.1.2, ∀ timer, (timer, j) ∈ r.2.timers ↔ (timer, j) ∈ rt.timers := by
      intro j hj timer
      obtain ⟨_, -, rfl⟩ := map_eq_some_iff.mp hcancel
      exact mem_erase_of_ne fun heq => hj (congrArg Prod.snd heq)
    by_cases hover : moment.remaining r.1.2 + offset ≤ 0 ∨
        ¬ numbers (moment.clock r.1.2).now < numbers event
    · have heq : expressionTimeOffset moment offset r.1.2 e rt =
          some (e, r.2.tell (.expression r.1.2)) := by
        rw [expressionTimeOffset, htimer, hevent, bind_eq_bind, bind_some, bind_eq_bind, bind_some,
          hcancel]
        exact if_pos hover
      rw [heq]
      refine ⟨?_, ?_, hanswers, hothers⟩
      · rintro event' ⟨hevent', -, hpos, hlater⟩
        obtain rfl := Option.some.inj (hevent.symm.trans hevent')
        exact absurd hover (not_or.mpr ⟨not_le.mpr hpos, not_not.mpr hlater⟩)
      · rw [put_of_find he]
        refine .tell (.expression r.1.2) hs fun j hj f hf => ?_
        cases hj
        exact howned _ f (h.owned _ f hf nofun)
    · obtain ⟨hpos, hlater⟩ := not_or.mp hover
      have hsend := eventTimer (moment.clock r.1.2) event r.1.2 r.2
      have heq : expressionTimeOffset moment offset r.1.2 e rt =
          (eventMilliseconds event (datetimeNowUtc (moment.clock r.1.2)).1
            (datetimeNowUtc (moment.clock r.1.2)).2 >>= fun ms =>
              sendAfter (moment.clock r.1.2) ms r.1.2 r.2).map fun x =>
                ({ e with timer := some x.1 }, x.2) := by
        rw [expressionTimeOffset, htimer, hevent, bind_eq_bind, bind_some, bind_eq_bind, bind_some,
          hcancel]
        refine (if_neg hover).trans ?_
        simp only [datetimeNowUtc, bind_eq_bind]
        cases eventMilliseconds event (moment.clock r.1.2).now
            (((moment.clock r.1.2).micro / 1000 : Nat) - 10) with
        | none => rfl
        | some ms =>
          simp only [bind_some]
          cases sendAfter (moment.clock r.1.2) ms r.1.2 r.2 <;> rfl
      rw [heq]
      cases hx : eventMilliseconds event (datetimeNowUtc (moment.clock r.1.2)).1
          (datetimeNowUtc (moment.clock r.1.2)).2 >>= fun ms =>
            sendAfter (moment.clock r.1.2) ms r.1.2 r.2 with
      | none =>
        intro hcan
        have hreaches := hcan event ⟨hevent, ⟨r.1.1, htimer, hmem⟩, not_le.mp hpos, not_not.mp hlater⟩
        cases hx.symm.trans ((hsend _).mpr ⟨hvalid, hreaches, rfl⟩)
      | some x =>
        obtain ⟨-, hreaches, rfl⟩ := (hsend x).mp hx
        refine ⟨?_, hs.start hevent hvalid rfl, hanswers, fun j hj timer => ?_⟩
        · rintro event' ⟨hevent', -⟩
          obtain rfl := Option.some.inj (hevent.symm.trans hevent')
          exact hreaches
        · rw [← hothers j hj]
          exact mem_cons.trans (or_iff_right fun heq => hj (congrArg Prod.snd heq))

/-- **The timers are set again** after a change of the clock, when each can be set. -/
theorem expressionsTimeOffset_spec (moment : Moment) (offset : Int)
    (h : Scheduled ids [] expressions rt) :
    (expressionsTimeOffset moment offset expressions rt).elim
      (¬ ∀ x ∈ toList expressions, CanReset moment offset rt.timers x.1 x.2) fun r =>
        (∀ x ∈ toList expressions, CanReset moment offset rt.timers x.1 x.2) ∧
          Scheduled ids [] r.1 r.2 ∧ r.2.answers = rt.answers := by
  have hspec := mapEach_spec (¬ ∀ x ∈ toList expressions, CanReset moment offset rt.timers x.1 x.2)
    (fun l acc rt' => (∀ x ∈ toList expressions,
        x ∈ l ∨ CanReset moment offset rt.timers x.1 x.2) ∧
      (Scheduled ids [] acc rt' ∧ rt'.answers = rt.answers) ∧
      (∀ x ∈ l, find x.1 acc = some x.2 ∧ x ∈ toList expressions ∧
        ∀ timer, (timer, x.1) ∈ rt'.timers ↔ (timer, x.1) ∈ rt.timers) ∧
      l.Pairwise fun x y => x.1 ≠ y.1)
    (f := expressionTimeOffset moment offset) ?_
    ⟨fun x hx => .inl hx, ⟨h, rfl⟩, fun x hx => ⟨mem_toList.mp hx, hx, fun _ => Iff.rfl⟩,
      keys_distinct expressions⟩
  · unfold expressionsTimeOffset
    cases hr : mapEach (expressionTimeOffset moment offset) (toList expressions) expressions rt with
    | none =>
      rw [hr] at hspec
      exact hspec
    | some r =>
      rw [hr] at hspec
      exact ⟨fun x hx => (hspec.1 x hx).resolve_left not_mem_nil, hspec.2.1⟩
  · rintro id e l acc rt' ⟨hdone, ⟨hs, hanswers⟩, hl, hdistinct⟩
    obtain ⟨hne, hdistinct⟩ := pairwise_cons.mp hdistinct
    obtain ⟨hfind, hmem, hsame⟩ := hl (id, e) mem_cons_self
    have hcan : CanReset moment offset rt'.timers id e ↔ CanReset moment offset rt.timers id e := by
      simp only [CanReset, Resets, hsame]
    have hone := expressionTimeOffset_spec moment offset hs hfind
    rw [hcan] at hone
    cases hr : expressionTimeOffset moment offset id e rt' with
    | none =>
      rw [hr] at hone
      exact fun hall => hone (hall (id, e) hmem)
    | some r =>
      rw [hr] at hone
      obtain ⟨hreset, hs', hanswers', hothers⟩ := hone
      refine ⟨fun x hx => ?_, ⟨hs', hanswers'.trans hanswers⟩, fun x hx => ?_, hdistinct⟩
      · rcases hdone x hx with hx | hx
        · rcases mem_cons.mp hx with rfl | hx
          · exact .inr hreset
          · exact .inl hx
        · exact .inr hx
      · obtain ⟨hfindx, hmemx, hsamex⟩ := hl x (mem_cons_of_mem _ hx)
        refine ⟨?_, hmemx, fun timer => (hothers x.1 (hne x hx).symm timer).trans (hsamex timer)⟩
        rw [find_put, if_neg (hne x hx)]
        exact hfindx

/-! ## the requests -/

/-- **The requests that are sent**: each is to be answered or was handled, and the map holds those
that are to be answered. -/
structure Tracked (ids : List Nat) (unanswered : List TransId) (sent : List (TransId × SendData))
    (handled : List TransId) (sends : ErlMap TransId SendData) : Prop where
  perm : (unanswered ++ handled).Perm (sent.map Prod.fst)
  nodup : (sent.map Prod.fst).Nodup
  known : ∀ x ∈ sent, x.2.id ∈ ids
  sends : ∀ t data, find t sends = some data ↔ (t, data) ∈ sent ∧ t ∉ handled

section Requests

variable {unanswered unanswered' handled : List TransId} {sent : List (TransId × SendData)}
  {sends : ErlMap TransId SendData} {t : TransId} {data : SendData}

theorem Tracked.of_perm (h : Tracked ids unanswered sent handled sends)
    (hperm : unanswered'.Perm unanswered) : Tracked ids unanswered' sent handled sends :=
  ⟨(hperm.append_right _).trans h.perm, h.nodup, h.known, h.sends⟩

/-- A request is sent. -/
theorem Tracked.send (h : Tracked ids unanswered sent handled sends)
    (hfresh : t ∉ sent.map Prod.fst) (hid : data.id ∈ ids) :
    Tracked ids (t :: unanswered) ((t, data) :: sent) handled (put t data sends) := by
  refine ⟨h.perm.cons t, nodup_cons.mpr ⟨hfresh, h.nodup⟩, ?_, fun u d => ?_⟩
  · rintro x hx
    rcases mem_cons.mp hx with rfl | hx
    · exact hid
    · exact h.known x hx
  · have hhandled : t ∉ handled := fun hmem =>
      hfresh (h.perm.mem_iff.mp (mem_append_right _ hmem))
    rw [find_put, mem_cons]
    split
    · rename_i heq
      subst heq
      have hnot : (t, d) ∉ sent := fun hmem => hfresh (List.mem_map_of_mem hmem)
      simp only [hnot, or_false, hhandled, not_false_eq_true, and_true, Prod.mk.injEq, true_and,
        some_inj, eq_comm]
    · rename_i hne
      have hnot : (u, d) ≠ (t, data) := fun heq => hne (congrArg Prod.fst heq).symm
      rw [h.sends u d, or_iff_right hnot]

/-- **An answer is handled**: its request is in the map. -/
theorem eventRecv_spec (h : Tracked ids (t :: unanswered) sent handled sends)
    (hknown : ∀ id, (find id expressions).isSome ↔ id ∈ ids) :
    ∃ sends', eventRecv sends expressions t = some sends' ∧
      Tracked ids unanswered sent (t :: handled) sends' := by
  have hnodup := h.perm.nodup_iff.mpr h.nodup
  obtain ⟨hnot, hnodup'⟩ := nodup_cons.mp hnodup
  obtain ⟨⟨_, data⟩, hdata, rfl⟩ := List.mem_map.mp (h.perm.mem_iff.mp mem_cons_self)
  have hfind := (h.sends _ data).mpr ⟨hdata, fun hmem => hnot (mem_append_right _ hmem)⟩
  obtain ⟨e, he⟩ := isSome_iff_exists.mp ((hknown _).mpr (h.known _ hdata))
  refine ⟨_, bind_eq_some_iff.mpr ⟨_, map_eq_some_iff.mpr ⟨_, hfind, rfl⟩,
    bind_eq_some_iff.mpr ⟨e, he, rfl⟩⟩, perm_middle.trans h.perm, h.nodup, h.known,
    fun u d => ?_⟩
  rw [find_remove, mem_cons]
  split
  · rename_i heq
    exact ⟨nofun, fun hd => absurd (.inl heq.symm) hd.2⟩
  · rename_i hne
    rw [h.sends u d, or_iff_right (Ne.symm hne)]

end Requests

/-! ## runs -/

/-- What holds in every state of a run. -/
structure Inv (ids : List Nat) (w : World) : Prop where
  scheduled : Scheduled ids [] w.state.expressions w.runtime
  tracked : Tracked ids (w.waiting ++ w.runtime.answers) w.sent (w.handled.map Prod.fst)
    w.state.sends

section Steps

variable {w w' : World} {label : Label} {moment : Moment}

/-- The request of an event is sent, or has timed out. -/
theorem eventSend_spec (moment : Moment) (id : Nat) (waiting : List TransId)
    (sends : ErlMap TransId SendData) (hs : Scheduled ids todo expressions rt) :
    Scheduled ids todo expressions (eventSend moment sends id rt).2 ∧
      ((if moment.sent then moment.transId :: waiting else waiting) ++
        (eventSend moment sends id rt).2.answers).Perm
          (moment.transId :: (waiting ++ rt.answers)) := by
  unfold eventSend
  cases moment.sent with
  | true => exact ⟨hs, .refl _⟩
  | false => exact ⟨.tell (.timeoutAsyncActive moment.transId) hs nofun, perm_middle⟩

/-- **An expression event** sends a request, and the next event is searched for. -/
theorem expression_spec (hs : Scheduled ids [id] w.state.expressions rt)
    (ht : Tracked ids (w.waiting ++ rt.answers) w.sent (w.handled.map Prod.fst) w.state.sends)
    (hfresh : moment.transId ∉ w.sent.map Prod.fst) :
    ((handleInfo zone moment w.state rt (.expression id)).isSome ↔
      ∀ e ∈ find id w.state.expressions, Due zone w.state.utc moment.fuel (moment.clock id) e) ∧
    ∀ r, handleInfo zone moment w.state rt (.expression id) = some r →
      Inv ids (World.note moment { w with state := r.1, runtime := r.2 } (.expression id)) := by
  obtain ⟨e, he⟩ := hs.find_isSome
  obtain ⟨hs', hperm⟩ := eventSend_spec moment id w.waiting w.state.sends hs
  have heq : handleInfo zone moment w.state rt (.expression id) =
      (expressionNext zone w.state.utc moment.fuel (moment.clock id) id e
        (eventSend moment w.state.sends id rt).2).map fun r =>
          ({ w.state with
              expressions := put id r.1 w.state.expressions
              sends := put moment.transId ⟨id, moment.monotonic⟩ w.state.sends }, r.2) := by
    simp only [handleInfo, expressionEvent, he, bind_eq_bind, bind_some]
    cases expressionNext zone w.state.utc moment.fuel (moment.clock id) id e _ <;> rfl
  rw [heq, he]
  constructor
  · simp only [isSome_map, isSome_iff_exists, expressionNext_eq_some]
    constructor
    · rintro ⟨_, event, hevent, hreaches, -⟩ e' ⟨⟩
      exact ⟨event, hevent, hreaches⟩
    · intro hdue
      obtain ⟨event, hevent, hreaches⟩ := hdue e rfl
      exact ⟨_, event, hevent, hreaches, rfl⟩
  · intro r hr
    obtain ⟨_, hnext, rfl⟩ := map_eq_some_iff.mp hr
    obtain ⟨event, -, ⟨hvalid, -⟩, rfl⟩ := expressionNext_eq_some.mp hnext
    refine ⟨hs'.start rfl hvalid rfl, (ht.send hfresh ?_).of_perm hperm⟩
    exact (hs.known id).mp (isSome_iff_exists.mpr ⟨e, he⟩)

/-- **A message is handled.** -/
theorem handles_spec {message : Message} (h : Inv ids w)
    (henabled : Enabled w (.handles message moment)) :
    ((step zone w (.handles message moment)).isSome ↔ Fits zone w (.handles message moment)) ∧
      ∀ w', step zone w (.handles message moment) = some w' → Inv ids w' := by
  obtain ⟨hmem, hfresh⟩ := henabled
  have hs := h.scheduled.receive hmem
  have ht : Tracked ids
      (message.answer.toList ++ (w.waiting ++ (w.runtime.receive message).answers)) w.sent
      (w.handled.map Prod.fst) w.state.sends :=
    h.tracked.of_perm ((perm_append_comm_assoc _ _ _).trans
      ((answers_receive hmem).append_left _))
  suffices hspec : ((handleInfo zone moment w.state (w.runtime.receive message) message).isSome ↔
      Fits zone w (.handles message moment)) ∧
        ∀ r, handleInfo zone moment w.state (w.runtime.receive message) message = some r →
          Inv ids (World.note moment { w with state := r.1, runtime := r.2 } message) by
    refine ⟨by rw [step, isSome_map]; exact hspec.1, fun w' hw' => ?_⟩
    obtain ⟨r, hr, rfl⟩ := map_eq_some_iff.mp hw'
    exact hspec.2 r hr
  cases message with
  | timeoutAsyncActive t =>
    obtain ⟨sends', hrecv, ht'⟩ := eventRecv_spec ht hs.known
    have heq : handleInfo zone moment w.state (w.runtime.receive (.timeoutAsyncActive t))
        (.timeoutAsyncActive t) = some ({ w.state with sends := sends' }, _) :=
      bind_eq_some_iff.mpr ⟨sends', hrecv, rfl⟩
    rw [heq]
    refine ⟨iff_of_true rfl trivial, ?_⟩
    rintro r ⟨⟩
    exact ⟨hs, ht'⟩
  | returnAsyncActive response t =>
    obtain ⟨sends', hrecv, ht'⟩ := eventRecv_spec ht hs.known
    have heq : handleInfo zone moment w.state (w.runtime.receive (.returnAsyncActive response t))
        (.returnAsyncActive response t) =
          (resultOf response).map fun _ => ({ w.state with sends := sends' },
            w.runtime.receive (.returnAsyncActive response t)) := by
      simp only [handleInfo, hrecv]
      cases resultOf response <;> rfl
    rw [heq]
    refine ⟨by rw [isSome_map]; exact isSome_resultOf, ?_⟩
    intro r hr
    obtain ⟨_, -, rfl⟩ := map_eq_some_iff.mp hr
    exact ⟨hs, ht'⟩
  | expression id => exact expression_spec hs ht hfresh
  | change timeOffset =>
    have hspec := expressionsTimeOffset_spec moment
      (w.state.timeOffsetMilliseconds - timeOffsetToMilliseconds timeOffset) hs
    have heq : handleInfo zone moment w.state (w.runtime.receive (.change timeOffset))
        (.change timeOffset) = (expressionsTimeOffset moment
          (w.state.timeOffsetMilliseconds - timeOffsetToMilliseconds timeOffset) w.state.expressions
          (w.runtime.receive (.change timeOffset))).map fun r => ({ w.state with
            timeOffsetMilliseconds := timeOffsetToMilliseconds timeOffset
            expressions := r.1 }, r.2) := by
      simp only [handleInfo]
      cases expressionsTimeOffset moment _ w.state.expressions _ <;> rfl
    rw [heq]
    cases hr : expressionsTimeOffset moment
        (w.state.timeOffsetMilliseconds - timeOffsetToMilliseconds timeOffset) w.state.expressions
        (w.runtime.receive (.change timeOffset)) with
    | none =>
      rw [hr] at hspec
      exact ⟨iff_of_false Bool.false_ne_true hspec, fun r hr => by cases hr⟩
    | some r' =>
      rw [hr] at hspec
      obtain ⟨hfits, hs', hanswers⟩ := hspec
      refine ⟨iff_of_true rfl hfits, ?_⟩
      rintro r ⟨⟩
      refine ⟨hs', ?_⟩
      show Tracked ids (w.waiting ++ r'.2.answers) _ _ _
      rw [hanswers]
      exact ht

/-- **One step**: it fails exactly when its condition does not hold, and preserves the invariant. -/
theorem step_spec (h : Inv ids w) (henabled : Enabled w label) :
    ((step zone w label).isSome ↔ Fits zone w label) ∧
      ∀ w', step zone w label = some w' → Inv ids w' := by
  cases label with
  | fires timer =>
    obtain ⟨active, hmem, rfl⟩ := henabled
    have hsome : (w.runtime.cancel active.1).isSome := by
      rw [Runtime.cancel, isSome_map, find?_isSome]
      exact ⟨active, hmem, by simp⟩
    obtain ⟨r, hr⟩ := isSome_iff_exists.mp hsome
    obtain ⟨-, hs, howned, hanswers⟩ := h.scheduled.cancel hr
    refine ⟨iff_of_true (by rw [step, hr]; rfl) trivial, fun w' hw' => ?_⟩
    rw [step, hr] at hw'
    cases hw'
    refine ⟨.tell (.expression r.1.2) hs fun j hj f hf => ?_, ?_⟩
    · cases hj
      exact howned _ f (h.scheduled.owned _ f hf nofun)
    · show Tracked ids (w.waiting ++ r.2.answers) _ _ _
      rw [hanswers]
      exact h.tracked
  | answers t response =>
    refine ⟨iff_of_true rfl trivial, ?_⟩
    rintro w' ⟨⟩
    have hevent : (answerMessage t response).event = none := by cases response <;> rfl
    have hanswer : (answerMessage t response).answer = some t := by cases response <;> rfl
    refine ⟨.tell _ (by rw [hevent]; exact h.scheduled) (by rw [hevent]; exact nofun),
      h.tracked.of_perm ?_⟩
    show (w.waiting.erase t ++ (_ :: w.runtime.mailbox).filterMap Message.answer).Perm _
    rw [filterMap_cons_toList, hanswer]
    exact perm_middle.trans ((perm_cons_erase henabled).symm.append_right _)
  | changes timeOffset =>
    refine ⟨iff_of_true rfl trivial, ?_⟩
    rintro w' ⟨⟩
    exact ⟨.tell (.change timeOffset) h.scheduled nofun, h.tracked⟩
  | handles message moment => exact handles_spec h henabled

/-- **The service survives every response that is a status code**: in every state of every run, a
step fails only where its condition does not hold, the map holds the requests whose answer has not
been handled, and every expression has one pending event. -/
theorem service_survives {timeOffset : Int} {args : List (Text × Args)}
    {processIndex processCount : Nat} {w₀ : World} {labels : List Label}
    (hinit : init zone utc timeOffset args processIndex processCount moment = some w₀)
    (hsteps : Steps (step zone) Enabled w₀ labels w) :
    (∀ label, Enabled w label → ((step zone w label).isSome ↔ Fits zone w label)) ∧
      (∀ t data, find t w.state.sends = some data ↔
        (t, data) ∈ w.sent ∧ t ∉ w.handled.map Prod.fst) ∧
      ∀ id, w.runtime.pending.count id =
        if (find id w₀.state.expressions).isSome then 1 else 0 := by
  obtain ⟨⟨idNext, loaded⟩, -, hinit⟩ := bind_eq_some_iff.mp hinit
  obtain ⟨⟨started, rt⟩, hstart, hinit⟩ := bind_eq_some_iff.mp hinit
  cases hinit
  obtain ⟨hs, hanswers⟩ := expressionsStart_spec hstart
  have hnodup : ((toList loaded).map Prod.fst).Nodup :=
    pairwise_map.mpr (keys_distinct loaded)
  have hinv : Inv ((toList loaded).map Prod.fst) w := by
    refine hsteps.invariant (fun _ _ w' h henabled hstep => (step_spec h henabled).2 w' hstep)
      ⟨hs, ?_⟩
    show Tracked _ ([] ++ rt.answers) [] [] ∅
    rw [hanswers]
    exact ⟨.refl _, nodup_nil, nofun, fun t data => by rw [find_empty]; exact ⟨nofun, nofun⟩⟩
  refine ⟨fun label henabled => (step_spec hinv henabled).1, hinv.tracked.sends, fun id => ?_⟩
  rw [show w.runtime.pending.count id = _ from hinv.scheduled.pending.count_eq id, hnodup.count]
  exact if_congr (hs.known id).symm rfl rfl

end Steps

/-! ## a run -/

instance (w : World) (label : Label) : Decidable (Enabled w label) :=
  match label with
  | .fires _ => inferInstanceAs (Decidable (∃ active ∈ w.runtime.timers, _))
  | .answers transId _ => inferInstanceAs (Decidable (transId ∈ w.waiting))
  | .changes _ => inferInstanceAs (Decidable True)
  | .handles message moment => inferInstanceAs (Decidable
      (message ∈ w.runtime.mailbox ∧ moment.transId ∉ w.sent.map Prod.fst))

/-- A call on Monday, in half of a second. -/
def onMonday (time : Time) (h : time.Valid) (transId : TransId) : Moment :=
  { fuel := 1
    clock := fun _ =>
      ⟨(⟨2019, 11, 4⟩, time), 500000, 10 ^ 13, ⟨validDateTime_monday.date, h⟩,
        show 500000 < _ by decide⟩
    remaining := fun _ => 0, monotonic := 0, transId := transId, sent := true }

/-- A call at five o'clock. -/
def atFive : TransId → Moment := onMonday ⟨17, 0, 0⟩ ⟨by decide, by decide, by decide⟩

def universal : Zone := ⟨fun datetime => datetime, fun datetime => [datetime]⟩

/-- A service with `0 17 * * *`. -/
def everyDayService : Option World :=
  init universal true 0 [("0 17 * * *".toList, ⟨none, [.nil]⟩)] 0 1
    (onMonday monday.2 validDateTime_monday.time 0)

/-- An event whose request is answered. -/
def answeredRun (response : Response) : List Label :=
  [.fires 0, .handles (.expression 1) (atFive 7), .answers 7 (some response)]

/-- The answer is handled. -/
def handling (response : Response) : Label := .handles (.returnAsyncActive response 7) (atFive 8)

theorem exists_answeredRun (response : Response) (p : World → Bool)
    (h : (everyDayService.bind fun w₀ =>
      (run (checked (step universal) Enabled) w₀ (answeredRun response)).map p) = some true) :
    ∃ w₀ w, everyDayService = some w₀ ∧
      Steps (step universal) Enabled w₀ (answeredRun response) w ∧ p w = true := by
  obtain ⟨w₀, hinit, hrun⟩ := bind_eq_some_iff.mp h
  obtain ⟨w, hrun, hp⟩ := map_eq_some_iff.mp hrun
  exact ⟨w₀, w, hinit, steps_of_checked hrun, hp⟩

/-- The text `0`. -/
def zero : Response := .data (.binary (Binary.ofText "0"))

theorem service_survives_zero : ∃ w₀ w, everyDayService = some w₀ ∧
    Steps (step universal) Enabled w₀ (answeredRun zero) w ∧
    Enabled w (handling zero) ∧ (step universal w (handling zero)).isSome := by
  obtain ⟨w₀, w, hinit, hsteps, hp⟩ := exists_answeredRun zero
    (fun w => decide (Enabled w (handling zero))) (by decide +kernel)
  have henabled := of_decide_eq_true hp
  exact ⟨w₀, w, hinit, hsteps, henabled, ((service_survives hinit hsteps).1 _ henabled).mpr
    (show IsStatus zero by decide +kernel)⟩

/-- The text `ok`. -/
def ok : Response := .data (.binary (Binary.ofText "ok"))

/-- **A response that is no status code**: the text `ok` is not taken for a success. -/
theorem not_survives_ok : ∃ w₀ w, everyDayService = some w₀ ∧
    Steps (step universal) Enabled w₀ (answeredRun ok) w ∧
    Enabled w (handling ok) ∧ step universal w (handling ok) = none := by
  obtain ⟨w₀, w, hinit, hsteps, hp⟩ := exists_answeredRun ok
    (fun w => decide (Enabled w (handling ok) ∧ (step universal w (handling ok)).isNone))
    (by decide +kernel)
  obtain ⟨henabled, hnone⟩ := of_decide_eq_true hp
  exact ⟨w₀, w, hinit, hsteps, henabled, isNone_iff_eq_none.mp hnone⟩

end CloudI.ServiceCron.Service
