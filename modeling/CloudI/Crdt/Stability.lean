import CloudI.Crdt.Network
import CloudI.Library.Run

/-!
# Crdt.Stability

When a process writes an operation to its data as stable, have all processes received it?
Here every message is delivered any number of times, in any order, and the queues are of any
size.

A clock is `Valid` for a process when the process received every operation that the clock
covers.  That holds of all clocks when a clock is never received before the operations that it
covers, and then the minimum of the known clocks covers what all processes received, if the
clock of every process is known.  Neither is checked (`stable_too_early`).
-/

namespace CloudI.Crdt

open Run List Option
open Function (update update_self update_of_ne)

variable {ν K V F : Type} [LinearOrder ν] [LinearOrder K]

/-! ## messages -/

/-- A request or a response. -/
inductive Message (ν K V F : Type) [LinearOrder ν] where
  | request (request : Request ν K V F)
  | response (response : Response ν)

/-- The node id and the clock of a message. -/
def Message.stamp? : Message ν K V F → Option (ν × VClock ν)
  | .request (.operation nodeId c _) | .request (.vclock nodeId c)
  | .request (.vclockUpdated nodeId c) | .response (.vclock nodeId c)
  | .response (.vclockUpdated nodeId c) => some (nodeId, c)
  | .response .updated => none

/-- The operation of a message. -/
def Message.operationId? : Message ν K V F → Option (ν × Nat)
  | .request (.operation nodeId c _) => some (operationId nodeId c)
  | _ => none

/-- A message that was sent. -/
structure Packet (ν K V F : Type) [LinearOrder ν] where
  sender : ν
  receiver : ν
  message : Message ν K V F

/-- The processes, all messages that were sent, the operations that were written, those that
each process received, and those that it wrote to its data as stable. -/
structure Net (ν K V F : Type) [LinearOrder ν] [LinearOrder K] where
  processes : ν → State ν K V F
  sent : List (Packet ν K V F) := []
  issued : List (ν × Nat) := []
  received : ν → List (ν × Nat) := fun _ => []
  stable : ν → List (ν × Nat) := fun _ => []

/-- A step: a write, or the delivery of a message, with the size of the queue. -/
inductive Step (K V F ν : Type) where
  | write (n : ν) (op : Operation K V F)
  | deliver (index size : Nat)

variable (nodes : List ν) (calls : Calls V F)

/-- What a process does with a message. -/
def handleMessage (size : Nat) (s : State ν K V F) :
    Message ν K V F → Outcome ν K V F × Option (Response ν)
  | .request request =>
      let (r, response) := handleRequest calls size s request
      (r, some response)
  | .response response => (handleResponse calls size s response, none)

/-- The packets of an event. -/
def packets (n sender : ν) (r : Outcome ν K V F)
    (response : Option (Response ν)) : List (Packet ν K V F) :=
  (match r.mcast with
    | some request => (others nodes n).map fun receiver => ⟨n, receiver, .request request⟩
    | none => []) ++
    response.toList.map fun response => ⟨n, sender, .response response⟩

/-- What a process received after a message. -/
def receivedAfter (n : ν) (m : Message ν K V F)
    (received : ν → List (ν × Nat)) : ν → List (ν × Nat) :=
  update received n (m.operationId?.toList ++ received n)

/-- A step of the system. -/
def step (w : Net ν K V F) :
    Step K V F ν → Option (Net ν K V F)
  | .write n op =>
      if n ∈ nodes then
        let r := eventLocal op (w.processes n)
        let id := operationId (w.processes n).nodeId r.state.vclock
        some { w with
               processes := update w.processes n r.state
               sent := w.sent ++ packets nodes n n r none
               issued := id :: w.issued
               received := update w.received n (id :: w.received n) }
      else none
  | .deliver index size =>
      (w.sent[index]?).map fun x =>
        let (r, response) := handleMessage calls size (w.processes x.receiver) x.message
        { w with
          processes := update w.processes x.receiver r.state
          sent := w.sent ++ packets nodes x.receiver x.sender r response
          received := receivedAfter x.receiver x.message w.received
          stable := update w.stable x.receiver
            (r.written.map (·.id) ++ w.stable x.receiver) }

/-! ## the property and its condition -/

/-- **Causal stability**: what a process wrote to its data was received by all processes of its
`node_ids`. -/
def CausallyStable (w : Net ν K V F) : Prop :=
  ∀ p ∈ nodes, ∀ id ∈ w.stable p, ∀ q ∈ (w.processes p).nodeIds, id ∈ w.received q

/-- The start: the processes know each other, no POLog has an operation, and no clock has a
counter that is higher than that of its process. -/
structure NetStart (w : Net ν K V F) : Prop where
  nodeId : ∀ p ∈ nodes, (w.processes p).nodeId = p
  nodeIds : ∀ p ∈ nodes, (w.processes p).nodeIds = nodes
  polog : ∀ p ∈ nodes, (w.processes p).polog = []
  vclock : ∀ p ∈ nodes, ∀ a ∈ nodes, ∀ x, Maps.find a (w.processes p).vclock = some x →
    ∃ y, Maps.find a (w.processes a).vclock = some y ∧ x ≤ y
  vclocks : ∀ p ∈ nodes, ∀ q c, Maps.find q (w.processes p).vclocks = some c →
    ∀ a ∈ nodes, ∀ x, Maps.find a c = some x →
      ∃ y, Maps.find a (w.processes a).vclock = some y ∧ x ≤ y
  sent : w.sent = []
  issued : w.issued = []
  stable : ∀ p ∈ nodes, w.stable p = []

/-- The receiver has every operation that the clock of the message covers. -/
def Causal (w : Net ν K V F) (x : Packet ν K V F) : Prop :=
  ∀ stamp ∈ x.message.stamp?, ∀ id ∈ w.issued, ∀ counter ∈ Maps.find id.1 stamp.2,
    id.2 ≤ counter → id ∈ receivedAfter x.receiver x.message w.received x.receiver

/-- The clock of every process is known for an operation of `a`. -/
def AllKnown (nodeIds : List ν) (vclocks : VClocks ν) (a : ν) : Prop :=
  ∀ q ∈ nodeIds, ∃ c ∈ Maps.find q vclocks, (Maps.find a c).isSome = true

/-- The POLog of a process with the operation of a message. -/
def pologReceive (s : State ν K V F) :
    Message ν K V F → List (Entry ν K V F)
  | .request (.operation nodeId c op) =>
      pologEffect op (vclockReceive c s) (operationId nodeId c) s.polog
  | _ => s.polog

/-- The clock of a process that received the clock `c` with a message: an operation is counted,
and so is a clock that is sent on, as long as the queue is empty. -/
def vclockWith (size : Nat) (s : State ν K V F) (c : VClock ν) :
    Message ν K V F → VClock ν
  | .request (.operation ..) => vclockIncrement s.nodeId (vclockReceive c s)
  | .request (.vclock ..) | .response (.vclock ..) =>
      if size = 0 then vclockIncrement s.nodeId (vclockReceive c s) else vclockReceive c s
  | _ => vclockReceive c s

/-- The clocks that a process knows with that of a message. -/
def vclocksWith (size : Nat) (s : State ν K V F) (m : Message ν K V F)
    (stamp : ν × VClock ν) : VClocks ν :=
  vclocksReceive stamp.1 stamp.2 (vclockWith size s stamp.2 m) s

/-- Of the operations that are below the clocks which the process knows with that of the message,
all clocks are known. -/
def StableKnown (size : Nat) (s : State ν K V F) (m : Message ν K V F) : Prop :=
  ∀ stamp ∈ m.stamp?, ∀ e ∈ pologReceive s m,
    vclockLessThan e.vclock (vclocksMinimum (vclocksWith size s m stamp)) = true →
      AllKnown s.nodeIds (vclocksWith size s m stamp) e.id.1

/-- **The step is causal, and all clocks are known** of the operations that get stable. -/
def StableOk (w : Net ν K V F) : Step K V F ν → Prop
  | .write _ _ => True
  | .deliver index size => ∀ x ∈ w.sent[index]?,
      Causal w x ∧ StableKnown size (w.processes x.receiver) x.message

instance (w : Net ν K V F) (x : Packet ν K V F) : Decidable (Causal w x) := by
  unfold Causal
  infer_instance

instance (nodeIds : List ν) (vclocks : VClocks ν) (a : ν) :
    Decidable (AllKnown nodeIds vclocks a) := by
  unfold AllKnown
  infer_instance

instance (s : State ν K V F) (m : Message ν K V F) :
    Decidable (StableKnown size s m) := by
  unfold StableKnown
  infer_instance

instance (w : Net ν K V F) (l : Step K V F ν) : Decidable (StableOk w l) :=
  match l with
  | .write _ _ => isTrue trivial
  | .deliver index size => inferInstanceAs (Decidable (∀ x ∈ w.sent[index]?,
      Causal w x ∧ StableKnown size (w.processes x.receiver) x.message))

/-! ## what a receive does -/

variable {nodes calls} {s : State ν K V F} {w w' : Net ν K V F}
  {c : VClock ν} {n p q a : ν} {op : Operation K V F} {counter size : Nat}
  {polog : List (Entry ν K V F)} {r : Outcome ν K V F}
  {m : Message ν K V F}

/-- **What a receive of a clock does**; `polog` is the POLog before some of it is stable. -/
structure Receives (s : State ν K V F) (nodeIdRemote : ν) (c : VClock ν)
    (polog : List (Entry ν K V F)) (r : Outcome ν K V F) : Prop where
  nodeId : r.state.nodeId = s.nodeId
  nodeIds : r.state.nodeIds = s.nodeIds
  vclock : r.state.vclock = vclockReceive c s ∨
    r.state.vclock = vclockIncrement s.nodeId (vclockReceive c s)
  vclocks : r.state.vclocks = vclocksReceive nodeIdRemote c r.state.vclock s
  kept : ∀ e ∈ r.state.polog, e ∈ polog
  written : ∀ e ∈ r.written, e ∈ polog ∧
    vclockLessThan e.vclock (vclocksMinimum r.state.vclocks) = true
  mcast : ∀ request ∈ r.mcast,
    (Message.request request).stamp? = some (s.nodeId, vclockReceive c s) ∧
      (Message.request request).operationId? = none

theorem receives_stabilize
    (hclock : vclockN = vclockReceive c s ∨ vclockN = vclockIncrement s.nodeId (vclockReceive c s))
    (hmcast : ∀ request ∈ mcast,
      (Message.request request).stamp? = some (s.nodeId, vclockReceive c s) ∧
        (Message.request request).operationId? = none) :
    Receives s nodeId c polog (stabilize calls nodeId c vclockN polog s mcast) where
  nodeId := rfl
  nodeIds := rfl
  vclock := hclock
  vclocks := rfl
  kept e he := by
    rw [stabilize_polog] at he
    exact (mem_filter.mp he).1
  written e he := mem_filter.mp he
  mcast := hmcast

theorem receives_eventVclock
    (hrequest : ∀ k c, (Message.request (request k c)).stamp? = some (k, c) ∧
      (Message.request (request k c)).operationId? = none) :
    Receives s nodeId c s.polog (eventVclock calls request nodeId c size s) := by
  cases size with
  | zero =>
    refine receives_stabilize (.inr rfl) fun q hq => ?_
    cases hq
    exact hrequest _ _
  | succ size => exact receives_stabilize (.inl rfl) nofun

/-- **What a process does with a message that has a clock.** -/
theorem handleMessage_receives (hm : m.stamp? = some stamp) :
    Receives s stamp.1 stamp.2 (pologReceive s m) (handleMessage calls size s m).1 := by
  cases m with
  | request request =>
    cases request with
    | operation nodeId c op =>
      cases hm
      exact receives_stabilize (.inr rfl) nofun
    | vclock nodeId c =>
      cases hm
      exact receives_eventVclock fun _ _ => ⟨rfl, rfl⟩
    | vclockUpdated nodeId c =>
      cases hm
      exact receives_stabilize (.inl rfl) nofun
  | response response =>
    cases response with
    | vclock nodeId c =>
      cases hm
      exact receives_eventVclock fun _ _ => ⟨rfl, rfl⟩
    | vclockUpdated nodeId c =>
      cases hm
      exact receives_stabilize (.inl rfl) nofun
    | updated => cases hm

theorem handleMessage_vclock (hm : m.stamp? = some stamp) :
    (handleMessage calls size s m).1.state.vclock = vclockWith size s stamp.2 m := by
  cases m with
  | request request => cases request <;> cases hm <;> cases size <;> rfl
  | response response =>
    cases response with
    | updated => cases hm
    | _ => cases hm; cases size <;> rfl

/-- **What is written is what was below the clocks.** -/
theorem StableKnown.written (h : StableKnown size s m) (hm : m.stamp? = some stamp) :
    ∀ e ∈ (handleMessage calls size s m).1.written,
      AllKnown (handleMessage calls size s m).1.state.nodeIds
        (handleMessage calls size s m).1.state.vclocks e.id.1 := by
  intro e he
  have hreceives : Receives s stamp.1 stamp.2 (pologReceive s m) (handleMessage calls size s m).1 :=
    handleMessage_receives hm
  obtain ⟨hmem, hless⟩ := hreceives.written e he
  have hvclocks : (handleMessage calls size s m).1.state.vclocks = vclocksWith size s m stamp := by
    rw [hreceives.vclocks, handleMessage_vclock hm, vclocksWith]
  rw [hvclocks] at hless ⊢
  rw [hreceives.nodeIds]
  exact h stamp hm e hmem hless

/-- The response has the clock of the process after the message. -/
theorem handleMessage_response (h : (handleMessage calls size s m).2 = some response) :
    (Message.response response : Message ν K V F).operationId? = none ∧
      ∀ stamp ∈ (Message.response response : Message ν K V F).stamp?,
        stamp = (s.nodeId, (handleMessage calls size s m).1.state.vclock) := by
  cases m with
  | response response => cases h
  | request request =>
    cases request with
    | vclockUpdated nodeId c =>
      cases h
      exact ⟨rfl, fun stamp hstamp => by cases hstamp⟩
    | _ =>
      cases h
      exact ⟨rfl, fun stamp hstamp => (Option.some.inj hstamp).symm⟩

/-! ## clocks -/

/-- The counter of a process in a clock of `q`: `q` received the operations that it covers, and
the process is that far. -/
def ValidAt (nodes : List ν) (w : Net ν K V F) (q a : ν) (counter : Nat) : Prop :=
  (∀ id ∈ w.issued, id.1 = a → id.2 ≤ counter → id ∈ w.received q) ∧
    (a ∈ nodes → ∃ y, Maps.find a (w.processes a).vclock = some y ∧ counter ≤ y)

/-- **A clock that is valid for a process.** -/
def Valid (nodes : List ν) (w : Net ν K V F) (q : ν) (c : VClock ν) : Prop :=
  ∀ a counter, Maps.find a c = some counter → ValidAt nodes w q a counter

theorem Valid.current (h : Valid nodes w q c) (nodeIds : List ν) :
    Valid nodes w q (vclockCurrent nodeIds c) := by
  intro a counter hfind
  obtain ⟨y, hy, hle⟩ := below_vclockCurrent nodeIds c a counter hfind
  rw [find_vclockCurrent] at hfind
  by_cases ha : a ∈ nodeIds
  · rw [if_pos ha] at hfind
    exact h a counter hfind
  · rw [if_neg ha] at hfind
    cases hfind

/-- What a step leaves of the clocks: processes receive more and their counters get higher, and
a new operation is above the counter of its process. -/
structure Grows (nodes : List ν) (w w' : Net ν K V F) : Prop where
  received : ∀ q, ∀ id ∈ w.received q, id ∈ w'.received q
  vclock : ∀ a ∈ nodes, Below (w.processes a).vclock (w'.processes a).vclock
  issued : ∀ id ∈ w'.issued, id ∈ w.issued ∨ id.1 ∈ nodes ∧
    ∀ y, Maps.find id.1 (w.processes id.1).vclock = some y → y < id.2

theorem ValidAt.grows (h : ValidAt nodes w q a counter) (hgrows : Grows nodes w w') :
    ValidAt nodes w' q a counter := by
  refine ⟨fun id hid ha hle => ?_, fun ha => ?_⟩
  · rcases hgrows.issued id hid with hold | ⟨hmem, hnew⟩
    · exact hgrows.received q id (h.1 id hold ha hle)
    · rw [ha] at hmem hnew
      obtain ⟨y, hy, hcounter⟩ := h.2 hmem
      have hlt := hnew y hy
      omega
  · obtain ⟨y, hy, hle⟩ := h.2 ha
    obtain ⟨z, hz, hyz⟩ := hgrows.vclock a ha a y hy
    exact ⟨z, hz, hle.trans hyz⟩

theorem Valid.grows (h : Valid nodes w q c) (hgrows : Grows nodes w w') : Valid nodes w' q c :=
  fun a counter hfind => (h a counter hfind).grows hgrows

theorem validAt_self {c' : VClock ν} (hown : ∀ id ∈ w.issued, id ∈ w.received id.1)
    (hbelow : Below c' (w.processes p).vclock) (hfind : Maps.find p c' = some counter) :
    ValidAt nodes w p p counter := by
  refine ⟨fun id hid hp _ => ?_, fun _ => hbelow p counter hfind⟩
  rw [← hp]
  exact hown id hid

/-! ## the invariant -/

/-- An entry of a POLog: its process is far enough in the clock of the entry. -/
def EntryOk (w : Net ν K V F) (e : Entry ν K V F) : Prop :=
  e.id ∈ w.issued ∧ ∃ counter, Maps.find e.id.1 e.vclock = some counter ∧ e.id.2 ≤ counter + 1

/-- A message that was sent. -/
structure PacketOk (nodes : List ν) (w : Net ν K V F)
    (x : Packet ν K V F) : Prop where
  sender : x.sender ∈ nodes
  receiver : x.receiver ∈ nodes
  stamp : ∀ stamp ∈ x.message.stamp?, stamp.1 = x.sender ∧ Valid nodes w x.sender stamp.2
  operation : ∀ nodeId c op, x.message = .request (.operation nodeId c op) →
    operationId nodeId c ∈ w.issued ∧ (Maps.find nodeId c).isSome = true

/-- **The invariant of all runs** whose steps are causal. -/
structure NetInv (nodes : List ν) (w : Net ν K V F) : Prop where
  nodeId : ∀ p ∈ nodes, (w.processes p).nodeId = p
  nodeIds : ∀ p ∈ nodes, (w.processes p).nodeIds = nodes
  own : ∀ id ∈ w.issued, id.1 ∈ nodes ∧ id ∈ w.received id.1
  vclock : ∀ p ∈ nodes, Valid nodes w p (w.processes p).vclock
  vclocks : ∀ p ∈ nodes, ∀ q c, Maps.find q (w.processes p).vclocks = some c → Valid nodes w q c
  polog : ∀ p ∈ nodes, ∀ e ∈ (w.processes p).polog, EntryOk w e
  sent : ∀ x ∈ w.sent, PacketOk nodes w x
  stable : ∀ p ∈ nodes, ∀ id ∈ w.stable p, ∀ q ∈ nodes, id ∈ w.received q

theorem mem_pologEffect {id : ν × Nat} {e : Entry ν K V F}
    (h : e ∈ pologEffect op c id polog) : e = ⟨c, op, id⟩ ∨ e ∈ polog := by
  rw [pologEffect] at h
  split at h
  · exact .inr h
  · have hsublist := pologRedundancyRelation_sublist op c polog
    split at h
    · next pologN heq =>
        rw [heq] at hsublist
        exact .inr (hsublist.subset h)
    · next pologN heq =>
        rw [heq] at hsublist
        exact (mem_cons.mp h).imp_right fun he => hsublist.subset he

theorem netInv_start (hstart : NetStart nodes w) : NetInv nodes w := by
  have hissued : ∀ id, id ∉ w.issued := fun id => by
    rw [hstart.issued]
    exact not_mem_nil
  refine ⟨hstart.nodeId, hstart.nodeIds, fun id hid => absurd hid (hissued id),
    fun p hp a counter hfind => ⟨fun id hid => absurd hid (hissued id), fun ha =>
      hstart.vclock p hp a ha counter hfind⟩,
    fun p hp q c hc a counter hfind => ⟨fun id hid => absurd hid (hissued id), fun ha =>
      hstart.vclocks p hp q c hc a ha counter hfind⟩, fun p hp e he => ?_, fun x hx => ?_,
    fun p hp id hid => ?_⟩
  · rw [hstart.polog p hp] at he
    cases he
  · rw [hstart.sent] at hx
    cases hx
  · rw [hstart.stable p hp] at hid
    cases hid

/-! ## a write -/

theorem mem_packets (h : x ∈ packets nodes n sender r response) : x.sender = n ∧
      ((x.receiver ∈ nodes ∧ ∃ request ∈ r.mcast, x.message = .request request) ∨
        (x.receiver = sender ∧ ∃ q ∈ response, x.message = .response q)) := by
  rw [packets, mem_append] at h
  rcases h with h | h
  · cases hmcast : r.mcast with
    | none =>
      rw [hmcast] at h
      cases h
    | some request =>
      rw [hmcast] at h
      obtain ⟨q, hq, rfl⟩ := List.mem_map.mp h
      exact ⟨rfl, .inl ⟨(mem_filter.mp hq).1, request, rfl, rfl⟩⟩
  · obtain ⟨q, hq, rfl⟩ := List.mem_map.mp h
    exact ⟨rfl, .inr ⟨rfl, q, mem_toList.mp hq, rfl⟩⟩

theorem find_vclockIncrement_twice (n : ν) (c : VClock ν) : ∃ counter,
    Maps.find n (vclockIncrement n c) = some counter ∧
      Maps.find n (vclockIncrement n (vclockIncrement n c)) = some (counter + 1) ∧
      ∀ y, Maps.find n c = some y → y < counter := by
  obtain ⟨-, counter, hcounter, hlt⟩ := advances_vclockIncrement n c
  refine ⟨counter, hcounter, ?_, hlt⟩
  rw [find_vclockIncrement, if_pos rfl, hcounter]
  rfl

theorem EntryOk.grows {e : Entry ν K V F} (h : EntryOk w e)
    (hissued : ∀ id ∈ w.issued, id ∈ w'.issued) : EntryOk w' e :=
  ⟨hissued e.id h.1, h.2⟩

theorem PacketOk.grows {x : Packet ν K V F} (h : PacketOk nodes w x)
    (hgrows : Grows nodes w w') (hissued : ∀ id ∈ w.issued, id ∈ w'.issued) :
    PacketOk nodes w' x where
  sender := h.sender
  receiver := h.receiver
  stamp stamp hstamp := ⟨(h.stamp stamp hstamp).1, (h.stamp stamp hstamp).2.grows hgrows⟩
  operation nodeId c op hm :=
    ⟨hissued _ (h.operation nodeId c op hm).1, (h.operation nodeId c op hm).2⟩

/-- What the invariant says of one process. -/
structure ProcessOk (nodes : List ν) (w : Net ν K V F) (n : ν)
    (s : State ν K V F) : Prop where
  nodeId : s.nodeId = n
  nodeIds : s.nodeIds = nodes
  vclock : Valid nodes w n s.vclock
  vclocks : ∀ q c, Maps.find q s.vclocks = some c → Valid nodes w q c
  polog : ∀ e ∈ s.polog, EntryOk w e

/-- **A step of one process**: the others are as they were. -/
theorem NetInv.at_process {s : State ν K V F} (h : NetInv nodes w)
    (hgrows : Grows nodes w w') (hissued : ∀ id ∈ w.issued, id ∈ w'.issued)
    (hprocesses : w'.processes = update w.processes n s) (hs : ProcessOk nodes w' n s)
    (hown : ∀ id ∈ w'.issued, id.1 ∈ nodes ∧ id ∈ w'.received id.1)
    (hsent : ∀ x ∈ w'.sent, PacketOk nodes w' x)
    (hstable : ∀ p ∈ nodes, ∀ id ∈ w'.stable p, ∀ q ∈ nodes, id ∈ w'.received q) :
    NetInv nodes w' := by
  have hall : ∀ p ∈ nodes, ProcessOk nodes w' p (w'.processes p) := by
    intro p hp
    rw [hprocesses]
    by_cases hpn : p = n
    · subst hpn
      rw [update_self]
      exact hs
    · rw [update_of_ne hpn]
      exact ⟨h.nodeId p hp, h.nodeIds p hp, (h.vclock p hp).grows hgrows,
        fun q c hc => (h.vclocks p hp q c hc).grows hgrows,
        fun e he => (h.polog p hp e he).grows hissued⟩
  exact ⟨fun p hp => (hall p hp).nodeId, fun p hp => (hall p hp).nodeIds, hown,
    fun p hp => (hall p hp).vclock, fun p hp => (hall p hp).vclocks,
    fun p hp => (hall p hp).polog, hsent, hstable⟩

theorem NetInv.write (h : NetInv nodes w) (hstep : step nodes calls w (.write n op) = some w') :
    NetInv nodes w' := by
  rw [step, ite_none_right_eq_some] at hstep
  obtain ⟨hn, heq⟩ := hstep
  have hnodeId := h.nodeId n hn
  obtain ⟨counter, hone, htwo, hlt⟩ := find_vclockIncrement_twice n (w.processes n).vclock
  have hstate : (eventLocal op (w.processes n)).state.vclock =
      vclockIncrement n (vclockIncrement n (w.processes n).vclock) := by
    rw [eventLocal, hnodeId]
  have hnew : operationId (w.processes n).nodeId (eventLocal op (w.processes n)).state.vclock =
      (n, counter + 1) := by
    rw [operationId, hstate, hnodeId, htwo]
    rfl
  dsimp only at heq
  rw [hnew] at heq
  cases heq
  have hissued : ∀ id ∈ w.issued, id ∈ (n, counter + 1) :: w.issued :=
    fun id hid => mem_cons_of_mem _ hid
  have hbelow : Below (w.processes n).vclock
      (vclockIncrement n (vclockIncrement n (w.processes n).vclock)) :=
    (advances_vclockIncrement n _).1.trans (advances_vclockIncrement n _).1
  let wNew : Net ν K V F :=
    { w with
      processes := update w.processes n (eventLocal op (w.processes n)).state
      sent := w.sent ++ packets nodes n n (eventLocal op (w.processes n)) none
      issued := (n, counter + 1) :: w.issued
      received := update w.received n ((n, counter + 1) :: w.received n) }
  have hgrows : Grows nodes w wNew := by
    refine ⟨fun q id hid => ?_, fun a _ => ?_, fun id hid => ?_⟩
    · dsimp only [wNew]
      by_cases hq : q = n
      · subst hq
        rw [update_self]
        exact mem_cons_of_mem _ hid
      · rw [update_of_ne hq]
        exact hid
    · dsimp only [wNew]
      by_cases ha : a = n
      · subst ha
        rw [update_self, hstate]
        exact hbelow
      · rw [update_of_ne ha]
        exact .refl _
    · rcases mem_cons.mp hid with rfl | hid
      · exact .inr ⟨hn, fun y hy => (hlt y hy).trans (Nat.lt_succ_self counter)⟩
      · exact .inl hid
  have hown : ∀ id ∈ (n, counter + 1) :: w.issued, id.1 ∈ nodes ∧
      id ∈ update w.received n ((n, counter + 1) :: w.received n) id.1 := by
    intro id hid
    rcases mem_cons.mp hid with rfl | hid
    · refine ⟨hn, ?_⟩
      rw [update_self]
      exact mem_cons_self
    · exact ⟨(h.own id hid).1, hgrows.received _ id (h.own id hid).2⟩
  have hvalid : Valid nodes wNew n (eventLocal op (w.processes n)).state.vclock := by
    intro a x hfind
    by_cases ha : a = n
    · subst ha
      refine validAt_self (fun id hid => (hown id hid).2) ?_ hfind
      dsimp only [wNew]
      rw [update_self]
      exact .refl _
    · rw [hstate, find_vclockIncrement, if_neg (Ne.symm ha), find_vclockIncrement,
        if_neg (Ne.symm ha)] at hfind
      exact (h.vclock n hn a x hfind).grows hgrows
  show NetInv nodes wNew
  refine h.at_process hgrows hissued rfl
    ⟨hnodeId, h.nodeIds n hn, hvalid, fun q c hc => ?_, fun e he => ?_⟩ hown (fun x hx => ?_)
    fun p hp id hid q hq => ?_
  · exact (h.vclocks n hn q c hc).grows hgrows
  · rcases mem_pologEffect he with rfl | he
    · refine ⟨mem_cons.mpr (.inl hnew), counter, ?_, (congrArg Prod.snd hnew).le⟩
      dsimp only [operationId]
      rw [hnodeId]
      exact hone
    · exact (h.polog n hn e he).grows hissued
  · rcases mem_append.mp hx with hx | hx
    · exact (h.sent x hx).grows hgrows hissued
    · obtain ⟨hsender, ⟨hreceiver, request, hrequest, hmessage⟩ | ⟨-, q, hq, -⟩⟩ := mem_packets hx
      · obtain rfl : Request.operation _ _ _ = request := Option.some.inj hrequest
        refine ⟨by rw [hsender]; exact hn, hreceiver, fun stamp hstamp => ?_, fun k c op hm => ?_⟩
        · rw [hmessage] at hstamp
          cases hstamp
          rw [hsender]
          exact ⟨hnodeId, hvalid⟩
        · rw [hmessage] at hm
          cases hm
          refine ⟨?_, ?_⟩
          · exact mem_cons.mpr (.inl hnew)
          · rw [hnodeId, htwo]
            rfl
      · cases hq
  · exact hgrows.received q id (h.stable p hp id hid q hq)

/-! ## a delivery -/

theorem find_vclocksReceive (sender q : ν) (c vclockN : VClock ν)
    (s : State ν K V F) : Maps.find q (vclocksReceive sender c vclockN s) =
      if s.nodeId = q then some vclockN
      else if sender = q then some (vclockCurrent s.nodeIds c) else Maps.find q s.vclocks := by
  rw [vclocksReceive, vclocksUpdate, vclocksUpdate, Maps.find_put, Maps.find_put]

theorem find_vclockReceive (ha : a ∈ s.nodeIds) (hfind : Maps.find a c = some counter) :
    ∃ z, Maps.find a (vclockReceive c s) = some z ∧ counter ≤ z := by
  rw [vclockReceive, find_vclockMerge, find_vclockCurrent, if_pos ha, hfind]
  cases Maps.find a (vclockIncrement s.nodeId s.vclock) with
  | none => exact ⟨counter, rfl, le_rfl⟩
  | some y => exact ⟨max counter y, rfl, le_max_left counter y⟩

theorem find_vclockReceive_of_ne (ha : a ≠ s.nodeId)
    (hfind : Maps.find a (vclockReceive c s) = some counter) :
    Maps.find a c = some counter ∨ Maps.find a s.vclock = some counter := by
  refine (find_vclockMerge_eq_some hfind).imp (fun h => ?_) fun h => ?_
  · rw [find_vclockCurrent] at h
    by_cases hmem : a ∈ s.nodeIds
    · rwa [if_pos hmem] at h
    · rw [if_neg hmem] at h
      cases h
  · rwa [find_vclockIncrement, if_neg (Ne.symm ha)] at h

/-- The world after a delivery of a message with a clock. -/
def Net.delivered (nodes : List ν) (w : Net ν K V F)
    (x : Packet ν K V F) (r : Outcome ν K V F)
    (response : Option (Response ν)) : Net ν K V F :=
  { w with
    processes := update w.processes x.receiver r.state
    sent := w.sent ++ packets nodes x.receiver x.sender r response
    received := receivedAfter x.receiver x.message w.received
    stable := update w.stable x.receiver (r.written.map (·.id) ++ w.stable x.receiver) }

variable {x : Packet ν K V F} {stamp : ν × VClock ν}
  {response : Option (Response ν)}

theorem Receives.below (h : Receives s nodeIdRemote c polog r) :
    Below (vclockReceive c s) r.state.vclock ∧ Below s.vclock r.state.vclock := by
  have hreceive : Below s.vclock (vclockReceive c s) := (advances_receive s.nodeId _ s.vclock).1
  rcases h.vclock with hv | hv
  · rw [hv]
    exact ⟨.refl _, hreceive⟩
  · rw [hv]
    have hincrement := (advances_vclockIncrement s.nodeId (vclockReceive c s)).1
    exact ⟨hincrement, hreceive.trans hincrement⟩

theorem grows_delivered (h : Receives (w.processes x.receiver) stamp.1 stamp.2 polog r) :
    Grows nodes w (w.delivered nodes x r response) := by
  refine ⟨fun q id hid => ?_, fun a _ => ?_, fun id hid => .inl hid⟩
  · rw [Net.delivered, receivedAfter]
    dsimp only
    by_cases hq : q = x.receiver
    · subst hq
      rw [update_self]
      exact mem_append_right _ hid
    · rw [update_of_ne hq]
      exact hid
  · rw [Net.delivered]
    dsimp only
    by_cases ha : a = x.receiver
    · subst ha
      rw [update_self]
      exact h.below.2
    · rw [update_of_ne ha]
      exact .refl _

section

variable (h : NetInv nodes w) (hx : PacketOk nodes w x) (hstamp : x.message.stamp? = some stamp)

include h hx hstamp

/-- **The clocks of the receiver are valid** after a causal delivery. -/
theorem valid_delivered (hcausal : Causal w x)
    (hr : Receives (w.processes x.receiver) stamp.1 stamp.2 polog r)
    (hc : c = vclockReceive stamp.2 (w.processes x.receiver) ∨ c = r.state.vclock)
    (hbelow : Below c r.state.vclock) :
    Valid nodes (w.delivered nodes x r response) x.receiver c := by
  have hgrows : Grows nodes w (w.delivered nodes x r response) := grows_delivered hr
  have hnodeId := h.nodeId x.receiver hx.receiver
  intro a counter hfind
  by_cases ha : a = x.receiver
  · subst ha
    refine validAt_self (fun id hid => hgrows.received _ id (h.own id hid).2) ?_ hfind
    rw [Net.delivered]
    dsimp only
    rw [update_self]
    exact hbelow
  · have hne : a ≠ (w.processes x.receiver).nodeId := by rw [hnodeId]; exact ha
    have hreceive : Maps.find a (vclockReceive stamp.2 (w.processes x.receiver)) = some counter := by
      rcases hc with rfl | rfl
      · exact hfind
      · rcases hr.vclock with hv | hv
        · rwa [hv] at hfind
        · rwa [hv, find_vclockIncrement, if_neg (Ne.symm hne)] at hfind
    rcases find_vclockReceive_of_ne hne hreceive with hremote | hown
    · have hvalid := ((hx.stamp stamp hstamp).2 a counter hremote).grows hgrows
      refine ⟨fun id hid hida hle => ?_, hvalid.2⟩
      rw [← hida] at hremote
      exact hcausal stamp hstamp id hid counter hremote hle
    · exact (h.vclock x.receiver hx.receiver a counter hown).grows hgrows

/-- The entries of the POLog when a message is received. -/
theorem NetInv.entryOk_receive :
    ∀ e ∈ pologReceive (w.processes x.receiver) x.message, EntryOk w e := by
  have hp := hx.receiver
  intro e he
  cases hm : x.message with
  | response q =>
    rw [hm] at he
    exact h.polog x.receiver hp e he
  | request request =>
    cases request with
    | operation nodeId c op =>
      rw [hm] at he hstamp
      cases hstamp
      obtain ⟨hissued, hsome⟩ := hx.operation nodeId c op hm
      obtain ⟨counter, hcounter⟩ := isSome_iff_exists.mp hsome
      rcases mem_pologEffect he with rfl | he
      · have hsender : nodeId = x.sender := (hx.stamp (nodeId, c) (by rw [hm]; rfl)).1
        have hmem : nodeId ∈ (w.processes x.receiver).nodeIds := by
          rw [h.nodeIds x.receiver hp, hsender]
          exact hx.sender
        obtain ⟨z, hz, hle⟩ := find_vclockReceive hmem hcounter
        refine ⟨hissued, z, hz, ?_⟩
        rw [operationId, hcounter]
        exact hle.trans (Nat.le_succ z)
      · exact h.polog x.receiver hp e he
    | _ =>
      rw [hm] at he
      exact h.polog x.receiver hp e he

theorem NetInv.delivered (hcausal : Causal w x)
    (hr : Receives (w.processes x.receiver) stamp.1 stamp.2
      (pologReceive (w.processes x.receiver) x.message) r) (hresponse : ∀ q ∈ response,
      (Message.response q : Message ν K V F).operationId? = none ∧
        ∀ t ∈ (Message.response q : Message ν K V F).stamp?,
          t = ((w.processes x.receiver).nodeId, r.state.vclock))
    (hknown : ∀ e ∈ r.written, AllKnown r.state.nodeIds r.state.vclocks e.id.1) :
    NetInv nodes (w.delivered nodes x r response) := by
  have hgrows : Grows nodes w (w.delivered nodes x r response) := grows_delivered hr
  have hp := hx.receiver
  have hnodeId := h.nodeId x.receiver hp
  have hvalid : Valid nodes (w.delivered nodes x r response) x.receiver r.state.vclock :=
    valid_delivered h hx hstamp hcausal hr (.inr rfl) (.refl _)
  have hvclocks : ∀ q c, Maps.find q r.state.vclocks = some c →
      Valid nodes (w.delivered nodes x r response) q c := by
    intro q c hc
    rw [hr.vclocks, find_vclocksReceive, hnodeId] at hc
    by_cases hq : x.receiver = q
    · rw [if_pos hq] at hc
      cases hc
      rw [← hq]
      exact hvalid
    · rw [if_neg hq] at hc
      by_cases hs : stamp.1 = q
      · rw [if_pos hs] at hc
        cases hc
        obtain ⟨hsender, hremote⟩ := hx.stamp stamp hstamp
        rw [← hs, hsender]
        exact (hremote.grows hgrows).current _
      · rw [if_neg hs] at hc
        exact (h.vclocks x.receiver hp q c hc).grows hgrows
  have hentry := h.entryOk_receive hx hstamp
  refine h.at_process hgrows (fun _ hid => hid) rfl
    ⟨hr.nodeId.trans hnodeId, hr.nodeIds.trans (h.nodeIds x.receiver hp), hvalid, hvclocks,
      fun e he => (hentry e (hr.kept e he)).grows fun _ hid => hid⟩
    (fun id hid => ⟨(h.own id hid).1, hgrows.received _ id (h.own id hid).2⟩) (fun y hy => ?_)
    fun p hp' id hid q hq => ?_
  · rcases mem_append.mp hy with hy | hy
    · exact (h.sent y hy).grows hgrows fun _ hid => hid
    · obtain ⟨hsender, ⟨hreceiver, request, hrequest, hmessage⟩ | ⟨hreceiver, q, hq, hmessage⟩⟩ :=
        mem_packets hy
      · obtain ⟨hstamp', hnone⟩ := hr.mcast request hrequest
        refine ⟨by rw [hsender]; exact hp, hreceiver, fun t ht => ?_, fun k c op hm => ?_⟩
        · rw [hmessage, hstamp'] at ht
          cases ht
          rw [hsender]
          exact ⟨hnodeId, valid_delivered h hx hstamp hcausal hr (.inl rfl) hr.below.1⟩
        · rw [hmessage] at hm
          cases hm
          cases hnone
      · obtain ⟨-, hstamp'⟩ := hresponse q hq
        refine ⟨by rw [hsender]; exact hp, by rw [hreceiver]; exact hx.sender, fun t ht => ?_,
          fun k c op hm => ?_⟩
        · rw [hmessage] at ht
          rw [hstamp' t ht, hsender]
          exact ⟨hnodeId, hvalid⟩
        · rw [hmessage] at hm
          cases hm
  · by_cases hpx : p = x.receiver
    · subst hpx
      rw [Net.delivered] at hid
      dsimp only at hid
      rw [update_self] at hid
      rcases mem_append.mp hid with hid | hid
      · obtain ⟨e, he, rfl⟩ := List.mem_map.mp hid
        obtain ⟨hmem, hless⟩ := hr.written e he
        obtain ⟨hissued, counter, hcounter, hle⟩ := hentry e hmem
        have hqIds : q ∈ r.state.nodeIds := by
          rw [hr.nodeIds, h.nodeIds x.receiver hp]
          exact hq
        obtain ⟨c, hc, hsome⟩ := hknown e he q hqIds
        obtain ⟨y, hy⟩ := isSome_iff_exists.mp hsome
        obtain ⟨m, hm, hlt⟩ := vclockLessThan_iff.mp hless e.id.1 counter hcounter
        obtain ⟨m', hm', hmy⟩ := vclocksMinimum_le hc hy
        rw [hm, Option.some.injEq] at hm'
        exact (hvclocks q c hc e.id.1 y hy).1 e.id hissued rfl (by omega)
      · exact hgrows.received q id (h.stable x.receiver hp id hid q hq)
    · rw [Net.delivered] at hid
      dsimp only at hid
      rw [update_of_ne hpx] at hid
      exact hgrows.received q id (h.stable p hp' id hid q hq)

end

/-! ## runs -/

theorem NetInv.step {l : Step K V F ν} (h : NetInv nodes w) (hok : StableOk w l)
    (hstep : Crdt.step nodes calls w l = some w') : NetInv nodes w' := by
  cases l with
  | write n op => exact h.write hstep
  | deliver index size =>
    obtain ⟨x, hx, heq⟩ := map_eq_some_iff.mp hstep
    obtain ⟨hcausal, hknown⟩ := hok x hx
    have hpacket := h.sent x (mem_of_getElem? hx)
    cases hstamp : x.message.stamp? with
    | some stamp =>
      have hreceives : Receives (w.processes x.receiver) stamp.1 stamp.2
          (pologReceive (w.processes x.receiver) x.message)
          (handleMessage calls size (w.processes x.receiver) x.message).1 :=
        handleMessage_receives hstamp
      have hnew : NetInv nodes (w.delivered nodes x _ _) :=
        h.delivered hpacket hstamp hcausal hreceives (fun q hq => handleMessage_response hq)
          (hknown.written hstamp)
      cases heq
      exact hnew
    | none =>
      obtain ⟨sender, receiver, message⟩ := x
      obtain rfl : message = .response .updated := by
        cases message with
        | request request => cases request <;> cases hstamp
        | response response =>
          cases response with
          | updated => rfl
          | _ => cases hstamp
      have hsame : w' = w := by
        simpa [handleMessage, handleResponse, packets, receivedAfter, Message.operationId?] using
          heq.symm
      rw [hsame]
      exact h

/-- **Causal stability**: in every run whose steps are causal, and in which all clocks are known of
the operations that get stable, what a process wrote to its data was received by all. -/
theorem causallyStable_of_steps {steps : List (Step K V F ν)}
    (hstart : NetStart nodes w) (hsteps : Steps (Crdt.step nodes calls) StableOk w steps w') :
    CausallyStable nodes w' := by
  have hinv : NetInv nodes w' :=
    hsteps.invariant (fun _ _ _ h hok hstep => h.step hok hstep) (netInv_start hstart)
  intro p hp id hid q hq
  rw [hinv.nodeIds p hp] at hq
  exact hinv.stable p hp id hid q hq

/-! ## sample runs -/

/-- Processes that know each other, before any operation. -/
def knowing (nodes : List Nat) : Net Nat Nat Nat Unit where
  processes := fun n =>
    { nodeId := n
      nodeIds := nodes
      vclock := nodes.foldr (Maps.put · 1) ∅ }

theorem netStart_knowing (nodes : List Nat) : NetStart nodes (knowing nodes) where
  nodeId _ _ := rfl
  nodeIds _ _ := rfl
  polog _ _ := rfl
  vclock _ _ _ _ x hx := ⟨x, hx, le_rfl⟩
  vclocks _ _ _ _ hc := by
    rw [knowing, Maps.find_empty] at hc
    cases hc
  sent := rfl
  issued := rfl
  stable _ _ := rfl

/-- Values that are never added. -/
def plainCalls : Calls Nat Unit where
  isNumber := fun _ => false
  add := fun x _ => x
  sub := fun x _ => x
  call1 := fun _ x => x
  call2 := fun _ x _ => x

/-- The processes after a run. -/
def netAfter (nodes : List Nat) (steps : List (Step Nat Nat Unit Nat)) : Net Nat Nat Nat Unit :=
  (run (Crdt.step nodes plainCalls) (knowing nodes) steps).getD (knowing nodes)

/-- An operation of the process 0, and the clocks until both know that it was received. -/
def known : List (Step Nat Nat Unit Nat) :=
  [.write 0 (.put 0 1), .deliver 0 0, .deliver 1 0, .deliver 2 1]

theorem causallyStable_of_steps_known :
    (0, 3) ∈ (netAfter [0, 1] known).stable 0 ∧ CausallyStable [0, 1] (netAfter [0, 1] known) := by
  have hsteps : Steps (Crdt.step [0, 1] plainCalls) StableOk (knowing [0, 1]) known
      (netAfter [0, 1] known) :=
    steps_getD_of_checked (by decide +kernel)
  exact ⟨by decide +kernel, causallyStable_of_steps (netStart_knowing [0, 1]) hsteps⟩

/-- **An operation is stable before all processes received it**: the process 0 has no clock of
the process 2, and the response of the process 1 covers an operation that 0 has not received. -/
theorem stable_too_early : ∃ (steps : List (Step Nat Nat Unit Nat)) (w : Net Nat Nat Nat Unit),
    NetStart [0, 1, 2] (knowing [0, 1, 2]) ∧
      Steps (Crdt.step [0, 1, 2] plainCalls) (fun _ _ => True) (knowing [0, 1, 2]) steps w ∧
      ¬ CausallyStable [0, 1, 2] w := by
  have hsteps : Steps (Crdt.step [0, 1, 2] plainCalls) (fun _ _ => True) (knowing [0, 1, 2])
      [.write 2 (.put 0 1), .deliver 1 0, .write 0 (.put 1 1), .deliver 3 0, .deliver 5 1]
      (netAfter [0, 1, 2]
        [.write 2 (.put 0 1), .deliver 1 0, .write 0 (.put 1 1), .deliver 3 0, .deliver 5 1]) :=
    steps_getD_of_checked (by decide +kernel)
  refine ⟨_, _, netStart_knowing _, hsteps, fun h => ?_⟩
  have hreceived := h 0 (by decide) (0, 3) (by decide +kernel) 2 (by decide +kernel)
  revert hreceived
  decide +kernel

end CloudI.Crdt
