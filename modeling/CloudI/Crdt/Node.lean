import CloudI.Crdt.Polog

/-!
# Crdt.Node

One process of `cloudi_crdt` in the POLog mode `normal`: what it does for a local write, for
the requests of the other processes and for their responses.

A write and a received operation are stamped with the clock of the process.  Every received
clock is merged, and then the operations that are less than the minimum of the known clocks
are written to the data (`stabilize`).
-/

namespace CloudI.Crdt

variable {ν K V F : Type} [LinearOrder ν] [LinearOrder K]

/-! ## the process -/

/-- The part of `#cloudi_crdt{}` that the events use. -/
structure State (ν K V F : Type) [LinearOrder ν] [LinearOrder K] where
  nodeId : ν
  nodeIds : List ν
  vclock : VClock ν
  vclocks : VClocks ν := ∅
  polog : List (Entry ν K V F) := []
  data : Data K V := ∅

/-- What a process sends to all others. -/
inductive Request (ν K V F : Type) [LinearOrder ν] where
  | operation (nodeId : ν) (vclock : VClock ν) (operation : Operation K V F)
  | vclock (nodeId : ν) (vclock : VClock ν)
  | vclockUpdated (nodeId : ν) (vclock : VClock ν)

/-- The response to a request; `updated` is the atom `vclock_updated`. -/
inductive Response (ν : Type) [LinearOrder ν] where
  | vclock (nodeId : ν) (vclock : VClock ν)
  | vclockUpdated (nodeId : ν) (vclock : VClock ν)
  | updated

/-- What an event comes to: the state, the request that is sent to all others, and the
operations that were written to the data. -/
structure Outcome (ν K V F : Type) [LinearOrder ν] [LinearOrder K] where
  state : State ν K V F
  mcast : Option (Request ν K V F) := none
  written : List (Entry ν K V F) := []

/-- The operation that a process sends with a clock. -/
def operationId (nodeId : ν) (vclock : VClock ν) : ν × Nat :=
  (nodeId, (Maps.find nodeId vclock).getD 0)

/-- The clock after a receive. -/
def vclockReceive (vclockRemote : VClock ν) (s : State ν K V F) : VClock ν :=
  vclockMerge (vclockCurrent s.nodeIds vclockRemote) (vclockIncrement s.nodeId s.vclock)

/-- The clocks that are known after a receive. -/
def vclocksReceive (nodeIdRemote : ν) (vclockRemote vclockN : VClock ν)
    (s : State ν K V F) : VClocks ν :=
  vclocksUpdate s.nodeId vclockN
    (vclocksUpdate nodeIdRemote (vclockCurrent s.nodeIds vclockRemote) s.vclocks)

variable (calls : Calls V F)

/-- What is the same in the events that receive a clock: the known clocks are updated, and the
stable operations are written to the data. -/
def stabilize (nodeIdRemote : ν) (vclockRemote vclockN : VClock ν)
    (polog : List (Entry ν K V F)) (s : State ν K V F)
    (mcast : Option (Request ν K V F)) : Outcome ν K V F :=
  let vclocks := vclocksReceive nodeIdRemote vclockRemote vclockN s
  let vclockMin := vclocksMinimum vclocks
  let (pologNew, dataNew) := pologStable calls polog s.data vclockMin
  { state := { s with vclock := vclockN, vclocks, polog := pologNew, data := dataNew }
    mcast
    written := polog.filter fun e => vclockLessThan e.vclock vclockMin }

def eventLocal (op : Operation K V F) (s : State ν K V F) :
    Outcome ν K V F :=
  let vclock1 := vclockIncrement s.nodeId s.vclock
  let vclockN := vclockIncrement s.nodeId vclock1
  { state := { s with
      vclock := vclockN
      polog := pologEffect op vclock1 (operationId s.nodeId vclockN) s.polog }
    mcast := some (.operation s.nodeId vclockN op) }

def eventRemote (nodeIdRemote : ν) (vclockRemote : VClock ν)
    (op : Operation K V F) (s : State ν K V F) : Outcome ν K V F :=
  let vclock1 := vclockReceive vclockRemote s
  stabilize calls nodeIdRemote vclockRemote (vclockIncrement s.nodeId vclock1)
    (pologEffect op vclock1 (operationId nodeIdRemote vclockRemote) s.polog) s none

/-- What is the same in `event_local_vclock/4` and `event_remote_vclock/4`: when the queue is
empty, the clock is sent. -/
def eventVclock (request : ν → VClock ν → Request ν K V F)
    (nodeIdRemote : ν) (vclockRemote : VClock ν) (size : Nat)
    (s : State ν K V F) : Outcome ν K V F :=
  let vclock1 := vclockReceive vclockRemote s
  match size with
  | 0 =>
      stabilize calls nodeIdRemote vclockRemote (vclockIncrement s.nodeId vclock1) s.polog s
        (some (request s.nodeId vclock1))
  | _ + 1 => stabilize calls nodeIdRemote vclockRemote vclock1 s.polog s none

/-- `event_local_vclock/4`; `size` is that of the queue. -/
def eventLocalVclock (nodeIdRemote : ν) (vclockRemote : VClock ν) (size : Nat)
    (s : State ν K V F) : Outcome ν K V F :=
  eventVclock calls .vclock nodeIdRemote vclockRemote size s

def eventRemoteVclock (nodeIdRemote : ν) (vclockRemote : VClock ν) (size : Nat)
    (s : State ν K V F) : Outcome ν K V F :=
  eventVclock calls .vclockUpdated nodeIdRemote vclockRemote size s

def eventLocalVclockUpdated (nodeIdRemote : ν) (vclockRemote : VClock ν)
    (s : State ν K V F) : Outcome ν K V F :=
  stabilize calls nodeIdRemote vclockRemote (vclockReceive vclockRemote s) s.polog s none

def eventRemoteVclockUpdated (nodeIdRemote : ν) (vclockRemote : VClock ν)
    (s : State ν K V F) : Outcome ν K V F :=
  eventLocalVclockUpdated calls nodeIdRemote vclockRemote s

/-- The requests of `handle_request/11`; `size` is that of the queue. -/
def handleRequest (size : Nat) (s : State ν K V F) :
    Request ν K V F → Outcome ν K V F × Response ν
  | .operation nodeIdRemote vclockRemote op =>
      let r := eventRemote calls nodeIdRemote vclockRemote op s
      (r, .vclock s.nodeId r.state.vclock)
  | .vclock nodeIdRemote vclockRemote =>
      let r := eventRemoteVclock calls nodeIdRemote vclockRemote size s
      (r, .vclockUpdated s.nodeId r.state.vclock)
  | .vclockUpdated nodeIdRemote vclockRemote =>
      (eventRemoteVclockUpdated calls nodeIdRemote vclockRemote s, .updated)

/-- The responses of `handle_info/3`; `size` is that of the queue without the request. -/
def handleResponse (size : Nat) (s : State ν K V F) :
    Response ν → Outcome ν K V F
  | .vclock nodeIdRemote vclockRemote => eventLocalVclock calls nodeIdRemote vclockRemote size s
  | .vclockUpdated nodeIdRemote vclockRemote =>
      eventLocalVclockUpdated calls nodeIdRemote vclockRemote s
  | .updated => { state := s }

/-! ## the POLog of a process -/

/-- The operations of the POLog are in order, and the clock of the process is above them. -/
structure PologOk (s : State ν K V F) : Prop where
  ascending : Ascending s.polog
  below : ∀ e ∈ s.polog, Below e.vclock s.vclock

variable {calls} {s : State ν K V F} {c vclockN vclockRemote : VClock ν}
  {op : Operation K V F} {polog : List (Entry ν K V F)}
  {nodeIdRemote : ν} {mcast : Option (Request ν K V F)}

/-- The data of a process after all operations of its POLog. -/
def State.total (calls : Calls V F) (s : State ν K V F) : Data K V :=
  replay calls s.polog s.data

theorem stabilize_polog : (stabilize calls nodeIdRemote vclockRemote vclockN polog s mcast).state.polog =
    polog.filter fun e =>
      !vclockLessThan e.vclock (vclocksMinimum (vclocksReceive nodeIdRemote vclockRemote vclockN s)) := by
  rw [stabilize, pologStable_eq]

theorem total_stabilize (h : Ascending polog) :
    (stabilize calls nodeIdRemote vclockRemote vclockN polog s mcast).state.total calls =
      replay calls polog s.data :=
  replay_pologStable calls h s.data _

theorem pologOk_stabilize (h : Ascending polog) (hbelow : ∀ e ∈ polog, Below e.vclock vclockN) :
    PologOk (stabilize calls nodeIdRemote vclockRemote vclockN polog s mcast).state := by
  refine ⟨?_, fun e he => ?_⟩
  · rw [stabilize_polog]
    exact h.sublist List.filter_sublist
  · rw [stabilize_polog] at he
    exact hbelow e (List.mem_filter.mp he).1

section

variable (h : PologOk s)

include h

theorem PologOk.below_of_advances (hc : Advances s.nodeId s.vclock c) :
    ∀ e ∈ s.polog, Below e.vclock c ∧ e.vclock ≠ c := by
  intro e he
  refine ⟨(h.below e he).trans hc.1, fun heq => ?_⟩
  obtain ⟨z, hz, hlt⟩ := hc.2
  obtain ⟨y, hy, hzy⟩ := h.below e he s.nodeId z (by rw [heq]; exact hz)
  exact absurd (hlt y hy) (not_lt.mpr hzy)

/-- **A kept operation** takes effect, and the POLog stays in order. -/
theorem PologOk.effect (hc : Advances s.nodeId s.vclock c) (hkept : Kept op c s.polog)
    (id : ν × Nat) : Ascending (pologEffect op c id s.polog) ∧
      (∀ e ∈ pologEffect op c id s.polog, Below e.vclock c) ∧
      ∀ data : Data K V,
        replay calls (pologEffect op c id s.polog) data = write calls op (replay calls s.polog data) := by
  have hbelow := h.below_of_advances hc
  obtain ⟨rest, heq, hsublist, hreplay⟩ :=
    pologEffect_of_kept calls (fun e he => (hbelow e he).2) hkept id
  have hrest : ∀ e ∈ rest, Below e.vclock c := fun e he => (hbelow e (hsublist.subset he)).1
  rw [heq]
  refine ⟨List.pairwise_cons.mpr ⟨hrest, h.ascending.sublist hsublist⟩, ?_, hreplay⟩
  exact List.forall_mem_cons.mpr ⟨.refl c, hrest⟩

/-! ## what the events do to the data -/

/-- The own operation is written last. -/
theorem eventLocal_spec (hkept : Kept op (vclockIncrement s.nodeId s.vclock) s.polog) :
    PologOk (eventLocal op s).state ∧
      (eventLocal op s).state.total calls = write calls op (s.total calls) := by
  have hadvances := advances_vclockIncrement s.nodeId s.vclock
  obtain ⟨hascending, hbelow, hreplay⟩ := h.effect hadvances hkept
    (operationId s.nodeId (vclockIncrement s.nodeId (vclockIncrement s.nodeId s.vclock)))
  refine ⟨⟨hascending, fun e he => ?_⟩, hreplay s.data⟩
  exact (hbelow e he).trans (advances_vclockIncrement s.nodeId _).1

/-- A received operation is written last. -/
theorem eventRemote_spec (hkept : Kept op (vclockReceive vclockRemote s) s.polog) :
    PologOk (eventRemote calls nodeIdRemote vclockRemote op s).state ∧
      (eventRemote calls nodeIdRemote vclockRemote op s).state.total calls =
        write calls op (s.total calls) := by
  have hadvances : Advances s.nodeId s.vclock (vclockReceive vclockRemote s) := advances_receive _ _ _
  obtain ⟨hascending, hbelow, hreplay⟩ := h.effect hadvances hkept
    (operationId nodeIdRemote vclockRemote)
  refine ⟨pologOk_stabilize hascending fun e he => ?_, (total_stabilize hascending).trans (hreplay _)⟩
  exact (hbelow e he).trans (advances_vclockIncrement s.nodeId _).1

/-- Stable operations go into the data without a change of the total. -/
theorem stabilize_spec (hbelow : Below (vclockReceive vclockRemote s) vclockN) :
    PologOk (stabilize calls nodeIdRemote vclockRemote vclockN s.polog s mcast).state ∧
      (stabilize calls nodeIdRemote vclockRemote vclockN s.polog s mcast).state.total calls =
        s.total calls := by
  have hadvances : Advances s.nodeId s.vclock (vclockReceive vclockRemote s) := advances_receive _ _ _
  refine ⟨pologOk_stabilize h.ascending fun e he => ?_, total_stabilize h.ascending⟩
  exact ((h.below e he).trans hadvances.1).trans hbelow

theorem eventVclock_spec :
    PologOk (eventVclock calls request nodeIdRemote vclockRemote size s).state ∧
      (eventVclock calls request nodeIdRemote vclockRemote size s).state.total calls =
        s.total calls := by
  cases size with
  | zero => exact stabilize_spec h (advances_vclockIncrement s.nodeId _).1
  | succ size => exact stabilize_spec h (.refl _)

theorem handleResponse_spec : PologOk (handleResponse calls size s response).state ∧
      (handleResponse calls size s response).state.total calls = s.total calls := by
  cases response with
  | vclock nodeIdRemote vclockRemote => exact eventVclock_spec h
  | vclockUpdated nodeIdRemote vclockRemote => exact stabilize_spec h (.refl _)
  | updated => exact ⟨h, rfl⟩

end

end CloudI.Crdt
