import CloudI.Erlang.Binary

/-!
# Wire.Messages

The messages that `cloudi_core_i_services_external` sends to the OS process of an
external service, and their encoders.

Integers are in the byte order of the machine, which the OS process shares.  A
service name, a pattern and the prefix of the service are lists of bytes; the
source of a request is its `term_to_binary`.  `none` is a clause that does not match,
or a failed match of a size.
-/

namespace CloudI.Wire

open Binary List Option
open Option (some.inj)

/-! ## native integers -/

/-- The byte order of the machine. -/
inductive Endianness where
  | little
  | big
deriving DecidableEq

/-- `N:W/unsigned-integer-native`, in bytes. -/
def native : Endianness → Nat → Nat → Binary
  | .big, w, n => bigEndian w n
  | .little, w, n => (bigEndian w n).reverse

/-- The unsigned integer of bytes in the byte order. -/
def nativeValue : Endianness → Binary → Nat
  | .big, b => value b
  | .little, b => value b.reverse

/-- `N:8/signed-integer-native`. -/
def int8 (n : Int) : Byte := Fin.ofNat 256 (n % 256).toNat

/-- The signed integer of a byte. -/
def int8Value (byte : Byte) : Int :=
  if byte.val < 128 then byte.val else (byte.val : Int) - 256

@[simp] theorem length_native (e : Endianness) (w n : Nat) : (native e w n).length = w := by
  cases e <;> simp [native]

theorem nativeValue_native (e : Endianness) (h : n < 256 ^ w) :
    nativeValue e (native e w n) = n := by
  cases e with
  | little => rw [native, nativeValue, reverse_reverse, value_bigEndian, Nat.mod_eq_of_lt h]
  | big => rw [native, nativeValue, value_bigEndian, Nat.mod_eq_of_lt h]

theorem int8Value_int8 (h : -128 ≤ n) (h' : n ≤ 127) : int8Value (int8 n) = n := by
  rw [int8Value, int8, Fin.val_ofNat]
  by_cases hn : 0 ≤ n
  · have hmod : n % 256 = n := Int.emod_eq_of_lt hn (by omega)
    rw [hmod, if_pos (by omega)]
    omega
  · have hmod : n % 256 = n + 256 := by omega
    rw [hmod, if_neg (by omega)]
    omega

/-! ## messages -/

/-- The arguments of `init_out`. -/
structure Init where
  processIndex : Nat
  processCount : Nat
  processCountMax : Nat
  processCountMin : Nat
  namePrefix : Binary
  timeoutInit : Nat
  timeoutAsync : Nat
  timeoutSync : Nat
  timeoutTerm : Nat
  priorityDefault : Int
deriving DecidableEq

/-- The arguments of `reinit_out`. -/
structure Reinit where
  processCount : Nat
  timeoutAsync : Nat
  timeoutSync : Nat
  priorityDefault : Int
deriving DecidableEq

/-- The arguments of `send_async_out` and `send_sync_out`. -/
structure Request where
  name : Binary
  pattern : Binary
  requestInfo : Binary
  request : Binary
  timeout : Nat
  priority : Int
  transId : Binary
  source : Binary
deriving DecidableEq

/-- The arguments of `return_sync_out` and `recv_async_out`. -/
structure Response where
  responseInfo : Binary
  response : Binary
  transId : Binary
deriving DecidableEq

/-- What can follow another message. -/
inductive Event where
  | reinit (x : Reinit)
  | keepalive
deriving DecidableEq

/-- The number of an event. -/
def Event.number : Event → Nat
  | .reinit _ => 9
  | .keepalive => 8

/-- The answers that an event takes. -/
def Event.answers : Event → Nat
  | .reinit _ => 0
  | .keepalive => 1

/-- A message. -/
inductive Message where
  | init (x : Init)
  | sendAsync (x : Request)
  | sendSync (x : Request)
  | recvAsync (x : Response)
  | returnAsync (transId : Binary)
  | returnSync (x : Response)
  | returnsAsync (transIds : List Binary)
  | subscribeCount (count : Nat)
  | event (x : Event)
  | term
deriving DecidableEq

/-- A message that is a request. -/
def Message.isRequest : Message → Bool
  | .sendAsync _ => true
  | .sendSync _ => true
  | _ => false

/-- A message that answers a call. -/
def Message.isReply : Message → Bool
  | .recvAsync _ => true
  | .returnAsync _ => true
  | .returnSync _ => true
  | .returnsAsync _ => true
  | .subscribeCount _ => true
  | _ => false

/-- A message that initializes. -/
def Message.isInit : Message → Bool
  | .init _ => true
  | _ => false

/-- The number of a message. -/
def Message.number : Message → Nat
  | .init _ => 1
  | .sendAsync _ => 2
  | .sendSync _ => 3
  | .recvAsync _ => 4
  | .returnAsync _ => 5
  | .returnSync _ => 6
  | .returnsAsync _ => 7
  | .subscribeCount _ => 10
  | .event x => x.number
  | .term => 11

/-- The events in front of the first other message. -/
def leadingEvents : List Message → List Event
  | .event x :: messages => x :: leadingEvents messages
  | _ => []

/-- The first message that is not an event. -/
def firstOther : List Message → Option Message
  | [] => none
  | .event _ :: messages => firstOther messages
  | m :: _ => some m

/-- The events of a message. -/
def Message.events : Message → List Event
  | .event x => [x]
  | _ => []

theorem number_lt (m : Message) : m.number < 2 ^ 32 := by
  cases m with
  | event x => cases x <;> simp [Message.number, Event.number]
  | _ => simp [Message.number]

theorem firstOther_cons (h : m.events = []) (messages : List Message) :
    firstOther (m :: messages) = some m := by
  cases m with
  | event x => cases h
  | _ => rfl

/-! ## encoders -/

/-- A size and the bytes, with a null byte behind them that is counted in the size. -/
def nullTerminated (e : Endianness) (b : Binary) : Binary := native e 4 (b.length + 1) ++ (b ++ [0])

/-- A size and the bytes, with a null byte behind them that is not counted. -/
def sized (e : Endianness) (b : Binary) : Binary := native e 4 b.length ++ (b ++ [0])

/-- `?TIMEOUT_TERMINATE_EXTERNAL`. -/
def timeoutTerminateExternal (timeoutTerm : Nat) : Nat := max 0 (timeoutTerm - 500)

def initOut (e : Endianness) (x : Init) : Option Binary :=
  if x.namePrefix ≠ [] ∧ -128 ≤ x.priorityDefault ∧ x.priorityDefault ≤ 127 ∧
      x.processCount < 2 ^ 32 ∧ x.processCountMax < 2 ^ 32 ∧ x.processCountMin < 2 ^ 32 ∧
      x.namePrefix.length + 1 < 2 ^ 32 then
    some (native e 4 1 ++ (native e 4 x.processIndex ++ (native e 4 x.processCount ++
      (native e 4 x.processCountMax ++ (native e 4 x.processCountMin ++
      (nullTerminated e x.namePrefix ++ (native e 4 x.timeoutInit ++ (native e 4 x.timeoutAsync ++
      (native e 4 x.timeoutSync ++ (native e 4 (timeoutTerminateExternal x.timeoutTerm) ++
      [int8 x.priorityDefault]))))))))))
  else none

def reinitOut (e : Endianness) (x : Reinit) : Option Binary :=
  if -128 ≤ x.priorityDefault ∧ x.priorityDefault ≤ 127 ∧ x.processCount < 2 ^ 32 then
    some (native e 4 9 ++ (native e 4 x.processCount ++ (native e 4 x.timeoutAsync ++
      (native e 4 x.timeoutSync ++ [int8 x.priorityDefault]))))
  else none

def terminateOut (e : Endianness) : Option Binary := some (native e 4 11)

def keepaliveOut (e : Endianness) : Option Binary := some (native e 4 8)

/-- `send_async_out/8` and `send_sync_out/8`, which differ in the number of the message. -/
def sendOut (e : Endianness) (number : Nat) (x : Request) : Option Binary :=
  if x.name ≠ [] ∧ x.pattern ≠ [] ∧ x.name.length + 1 < 2 ^ 32 ∧ x.pattern.length + 1 < 2 ^ 32 ∧
      x.requestInfo.length < 2 ^ 32 ∧ x.request.length < 2 ^ 32 ∧ x.source.length < 2 ^ 32 then
    some (native e 4 number ++ (nullTerminated e x.name ++ (nullTerminated e x.pattern ++
      (sized e x.requestInfo ++ (sized e x.request ++ (native e 4 x.timeout ++
      (int8 x.priority :: (x.transId ++ (native e 4 x.source.length ++ x.source)))))))))
  else none

def sendAsyncOut (e : Endianness) (x : Request) : Option Binary := sendOut e 2 x

def sendSyncOut (e : Endianness) (x : Request) : Option Binary := sendOut e 3 x

def returnAsyncOut (e : Endianness) (transId : Binary) : Option Binary :=
  some (native e 4 5 ++ transId)

/-- `return_async_out/0`. -/
def returnAsyncOutNone (e : Endianness) : Option Binary :=
  some (native e 4 5 ++ List.replicate 16 0)

/-- `return_sync_out/3` and `recv_async_out/3`, which differ in the number of the message. -/
def responseOut (e : Endianness) (number : Nat) (x : Response) : Option Binary :=
  if x.responseInfo.length < 2 ^ 32 ∧ x.response.length < 2 ^ 32 then
    some (native e 4 number ++ (sized e x.responseInfo ++ (sized e x.response ++ x.transId)))
  else none

def returnSyncOut (e : Endianness) (x : Response) : Option Binary := responseOut e 6 x

def recvAsyncOut (e : Endianness) (x : Response) : Option Binary := responseOut e 4 x

/-- `return_sync_out/2` and `recv_async_out/2`, of a timeout. -/
def timeoutOut (e : Endianness) (number : Nat) (transId : Binary) : Option Binary :=
  some (native e 4 number ++ (native e 4 0 ++ ([0] ++ (native e 4 0 ++ ([0] ++ transId)))))

/-- `return_sync_out/2`. -/
def returnSyncOutTimeout (e : Endianness) (transId : Binary) : Option Binary :=
  timeoutOut e 6 transId

/-- `return_sync_out/0`. -/
def returnSyncOutNone (e : Endianness) : Option Binary := timeoutOut e 6 (List.replicate 16 0)

/-- `recv_async_out/2`. -/
def recvAsyncOutTimeout (e : Endianness) (transId : Binary) : Option Binary :=
  timeoutOut e 4 transId

def returnsAsyncOut (e : Endianness) (transIds : List Binary) : Option Binary :=
  if transIds.length < 2 ^ 32 then
    some (native e 4 7 ++ (native e 4 transIds.length ++ transIds.flatten))
  else none

/-- `returns_async_out/0`. -/
def returnsAsyncOutNone (e : Endianness) : Option Binary := some (native e 4 7 ++ (native e 4 0))

def subscribeCountOut (e : Endianness) (count : Nat) : Option Binary :=
  if count < 2 ^ 32 then some (native e 4 10 ++ (native e 4 count)) else none

/-- The encoder of an event. -/
def Event.out (e : Endianness) : Event → Option Binary
  | .reinit x => reinitOut e x
  | .keepalive => keepaliveOut e

/-- The encoder of a message. -/
def Message.out (e : Endianness) : Message → Option Binary
  | .init x => initOut e x
  | .sendAsync x => sendAsyncOut e x
  | .sendSync x => sendSyncOut e x
  | .recvAsync x => recvAsyncOut e x
  | .returnAsync transId => returnAsyncOut e transId
  | .returnSync x => returnSyncOut e x
  | .returnsAsync transIds => returnsAsyncOut e transIds
  | .subscribeCount count => subscribeCountOut e count
  | .event x => x.out e
  | .term => terminateOut e

/-! ## empty answers

The encoders of an empty answer write the message of empty arguments. -/

/-- The transaction id of no response. -/
def noTransId : Binary := List.replicate 16 0

section

variable (e : Endianness)

include e

theorem timeoutOut_eq (number : Nat) (transId : Binary) :
    timeoutOut e number transId = responseOut e number ⟨[], [], transId⟩ := by
  simp [responseOut, timeoutOut, sized]

theorem returnAsyncOutNone_eq : returnAsyncOutNone e = returnAsyncOut e noTransId := rfl

theorem returnSyncOutTimeout_eq (transId : Binary) :
    returnSyncOutTimeout e transId = returnSyncOut e ⟨[], [], transId⟩ := timeoutOut_eq e 6 transId

theorem returnSyncOutNone_eq :
    returnSyncOutNone e = returnSyncOut e ⟨[], [], noTransId⟩ := timeoutOut_eq e 6 noTransId

theorem recvAsyncOutTimeout_eq (transId : Binary) :
    recvAsyncOutTimeout e transId = recvAsyncOut e ⟨[], [], transId⟩ := timeoutOut_eq e 4 transId

theorem returnsAsyncOutNone_eq : returnsAsyncOutNone e = returnsAsyncOut e [] := by
  simp [returnsAsyncOut, returnsAsyncOutNone]

end

/-! ## admitted arguments -/

/-- The integers are those of their fields; what the encoders check is not repeated. -/
def Init.Admitted (x : Init) : Prop :=
  x.processIndex < 2 ^ 32 ∧ x.timeoutInit < 2 ^ 32 ∧ x.timeoutAsync < 2 ^ 32 ∧
    x.timeoutSync < 2 ^ 32 ∧ x.timeoutTerm < 2 ^ 32

def Reinit.Admitted (x : Reinit) : Prop := x.timeoutAsync < 2 ^ 32 ∧ x.timeoutSync < 2 ^ 32

def Request.Admitted (x : Request) : Prop :=
  x.timeout < 2 ^ 32 ∧ -128 ≤ x.priority ∧ x.priority ≤ 127 ∧ x.transId.length = 16

def Event.Admitted : Event → Prop
  | .reinit x => x.Admitted
  | .keepalive => True

/-- The arguments are in their ranges, and a transaction id has 128 bits. -/
def Message.Admitted : Message → Prop
  | .init x => x.Admitted
  | .sendAsync x => x.Admitted
  | .sendSync x => x.Admitted
  | .recvAsync x => x.transId.length = 16
  | .returnAsync transId => transId.length = 16
  | .returnSync x => x.transId.length = 16
  | .returnsAsync transIds => ∀ transId ∈ transIds, transId.length = 16
  | .subscribeCount _ => True
  | .event x => x.Admitted
  | .term => True

instance (x : Init) : Decidable x.Admitted := inferInstanceAs (Decidable (_ ∧ _))

instance (x : Reinit) : Decidable x.Admitted := inferInstanceAs (Decidable (_ ∧ _))

instance (x : Request) : Decidable x.Admitted := inferInstanceAs (Decidable (_ ∧ _))

instance : (x : Event) → Decidable x.Admitted
  | .reinit x => inferInstanceAs (Decidable x.Admitted)
  | .keepalive => .isTrue trivial

instance : (m : Message) → Decidable m.Admitted
  | .init x => inferInstanceAs (Decidable x.Admitted)
  | .sendAsync x => inferInstanceAs (Decidable x.Admitted)
  | .sendSync x => inferInstanceAs (Decidable x.Admitted)
  | .recvAsync x => inferInstanceAs (Decidable (x.transId.length = 16))
  | .returnAsync transId => inferInstanceAs (Decidable (transId.length = 16))
  | .returnSync x => inferInstanceAs (Decidable (x.transId.length = 16))
  | .returnsAsync transIds =>
      inferInstanceAs (Decidable (∀ transId ∈ transIds, transId.length = 16))
  | .subscribeCount _ => .isTrue trivial
  | .event x => inferInstanceAs (Decidable x.Admitted)
  | .term => .isTrue trivial

/-- The encoders of a list of events. -/
def eventsOut (e : Endianness) : List Event → Option Binary
  | [] => some []
  | x :: events => (x.out e).bind fun b => (eventsOut e events).map (b ++ ·)

/-- The encoder of a list of messages. -/
def messagesOut (e : Endianness) : List Message → Option Binary
  | [] => some []
  | m :: messages => (m.out e).bind fun b => (messagesOut e messages).map (b ++ ·)

theorem messagesOut_cons_eq_some (h : messagesOut e (m :: messages) = some b) :
    ∃ b₁ b₂, m.out e = some b₁ ∧ messagesOut e messages = some b₂ ∧ b = b₁ ++ b₂ := by
  rw [messagesOut, bind_eq_some_iff] at h
  obtain ⟨b₁, h₁, h⟩ := h
  obtain ⟨b₂, h₂, rfl⟩ := map_eq_some_iff.mp h
  exact ⟨b₁, b₂, h₁, h₂, rfl⟩

/-- `reinit_out/4` without the number of the message. -/
def reinitBody (e : Endianness) (x : Reinit) : Binary :=
  native e 4 x.processCount ++ (native e 4 x.timeoutAsync ++ (native e 4 x.timeoutSync ++
    [int8 x.priorityDefault]))

theorem reinitOut_eq_some (h : reinitOut e x = some b) :
    b = native e 4 9 ++ reinitBody e x ∧ -128 ≤ x.priorityDefault ∧ x.priorityDefault ≤ 127 ∧
      x.processCount < 2 ^ 32 := by
  rw [reinitOut, ite_none_right_eq_some] at h
  obtain ⟨hchecks, h⟩ := h
  cases h
  exact ⟨rfl, hchecks⟩

theorem out_eq_some {m : Message} (h : m.out e = some b) :
    ∃ body, b = native e 4 m.number ++ body := by
  cases m with
  | init x =>
    simp only [Message.out, initOut, ite_none_right_eq_some] at h
    exact ⟨_, (some.inj h.2).symm⟩
  | sendAsync x =>
    simp only [Message.out, sendAsyncOut, sendOut, ite_none_right_eq_some] at h
    exact ⟨_, (some.inj h.2).symm⟩
  | sendSync x =>
    simp only [Message.out, sendSyncOut, sendOut, ite_none_right_eq_some] at h
    exact ⟨_, (some.inj h.2).symm⟩
  | recvAsync x =>
    simp only [Message.out, recvAsyncOut, responseOut, ite_none_right_eq_some] at h
    exact ⟨_, (some.inj h.2).symm⟩
  | returnAsync transId => exact ⟨_, (some.inj h).symm⟩
  | returnSync x =>
    simp only [Message.out, returnSyncOut, responseOut, ite_none_right_eq_some] at h
    exact ⟨_, (some.inj h.2).symm⟩
  | returnsAsync transIds =>
    simp only [Message.out, returnsAsyncOut, ite_none_right_eq_some] at h
    exact ⟨_, (some.inj h.2).symm⟩
  | subscribeCount count =>
    simp only [Message.out, subscribeCountOut, ite_none_right_eq_some] at h
    exact ⟨_, (some.inj h.2).symm⟩
  | event x =>
    cases x with
    | reinit x =>
      simp only [Message.out, Event.out, reinitOut, ite_none_right_eq_some] at h
      exact ⟨_, (some.inj h.2).symm⟩
    | keepalive => exact ⟨[], (some.inj h).symm.trans (append_nil _).symm⟩
  | term => exact ⟨[], (some.inj h).symm.trans (append_nil _).symm⟩

theorem length_out_pos {m : Message} (hout : m.out e = some b) : 0 < b.length := by
  obtain ⟨body, rfl⟩ := out_eq_some hout
  rw [length_append, length_native]
  omega

theorem eventsOut_cons_eq_some (h : eventsOut e (x :: events) = some b) :
    ∃ b₁ b₂, x.out e = some b₁ ∧ eventsOut e events = some b₂ ∧ b = b₁ ++ b₂ := by
  rw [eventsOut, bind_eq_some_iff] at h
  obtain ⟨b₁, h₁, h⟩ := h
  obtain ⟨b₂, h₂, rfl⟩ := map_eq_some_iff.mp h
  exact ⟨b₁, b₂, h₁, h₂, rfl⟩

/-- Events are not empty. -/
theorem length_eventsOut_le (h : eventsOut e events = some b) : 4 * events.length ≤ b.length := by
  induction events generalizing b with
  | nil => exact Nat.zero_le _
  | cons x events ih =>
    obtain ⟨b₁, b₂, h₁, h₂, rfl⟩ := eventsOut_cons_eq_some h
    have hrest := ih h₂
    have hfirst : 4 ≤ b₁.length := by
      cases x with
      | reinit x =>
        obtain ⟨rfl, -⟩ := reinitOut_eq_some h₁
        rw [length_append, length_native]
        omega
      | keepalive =>
        cases h₁
        rw [length_native]
    rw [length_append, length_cons]
    omega

theorem length_flatten_ids {ids : List Binary} (h : ∀ x ∈ ids, x.length = 16) :
    16 * ids.length = ids.flatten.length := by
  induction ids with
  | nil => rfl
  | cons x ids ih =>
    have hrest := ih fun y hy => h y (mem_cons_of_mem x hy)
    rw [flatten_cons, length_append, h x mem_cons_self, ← hrest, length_cons]
    omega

end CloudI.Wire
