import CloudI.Crdt.Node
import Mathlib.Data.List.Basic

/-!
# Crdt.Process

The whole process of `cloudi_crdt`.  A new process is in the POLog mode `bootstrap`: it
gathers the node ids and the operations that it receives, until it knows all processes and
asks them for their states.  Then it goes on in the mode `normal`, with its own POLog and data
when all processes are new, or with those of the process whose operation came last.  The clocks
of processes that vanished are removed in intervals.

`prepare` is an event up to the call of `polog_stable/5`, and `handle` goes on with the call.
In the mode `normal` this is the process of `CloudI.Crdt.Node`.

The averages of the clocks are floating point numbers, and what is asked of them is a
parameter, as is the answer of `cloudi_service:get_pids/3`: the node ids of the other
processes, or `none` for a timeout.
-/

namespace CloudI.Crdt

variable {ν K V F Average : Type} [LinearOrder ν] [LinearOrder K]

/-! ## the process -/

/-- `polog_mode()`. -/
inductive PologMode where
  | bootstrap
  | normal
  deriving DecidableEq

/-- The floating point arithmetic of a process. -/
structure Floats (ν Average : Type) [LinearOrder ν] where
  /-- `vclock_average/1` of a clock that is not empty. -/
  average : VClock ν → Average
  /-- `VClockAvgValue < 30`. -/
  isNew : Average → Bool
  /-- `VClockAvgRemote >= VClockAllAvgThreshold`, for the list `VClockAvgL`. -/
  reachesThreshold : Average → List Average → Bool
  /-- `(NodeIdsOldCount - NodeIdsNewCount) * 100 / NodeIdsOldCount >= CleanFailure`. -/
  cleanFailureMet : Nat → Nat → Bool

/-- The response to a request for the state. -/
structure Snapshot (ν K V F : Type) [LinearOrder ν] [LinearOrder K] where
  nodeId : ν
  vclock : VClock ν
  vclocks : VClocks ν
  pologMode : PologMode
  polog : List (Entry ν K V F)
  data : Data K V

/-- `bootstrap_state()`. -/
structure BootstrapState (ν K V F Average : Type) [LinearOrder ν]
    [LinearOrder K] extends Snapshot ν K V F where
  vclockAvg : Average

/-- `#cloudi_crdt{}` with the POLog mode. -/
structure Process (ν K V F Average : Type) [LinearOrder ν] [LinearOrder K]
    extends State ν K V F where
  pologMode : PologMode := .bootstrap
  bootstrapNodeId : Option ν := none
  bootstrapStates : List (BootstrapState ν K V F Average) := []
  bootstrapRequests : Int := 0

def Process.new (nodeId : ν) : Process ν K V F Average where
  nodeId
  nodeIds := [nodeId]
  vclock := Maps.put nodeId 0 ∅

/-- What a process responds to a request for its state. -/
def Process.snapshot (p : Process ν K V F Average) :
    Snapshot ν K V F where
  nodeId := p.nodeId
  vclock := p.vclock
  vclocks := p.vclocks
  pologMode := p.pologMode
  polog := p.polog
  data := p.data

/-- What happens to a process: a local write, a request (`size` is that of the queue), a
response, the response with a state, and the message `cloudi_crdt_clean_vclocks`. -/
inductive Event (ν K V F : Type) [LinearOrder ν] [LinearOrder K] where
  | operation (op : Operation K V F)
  | request (size : Nat) (pids : Option (List ν)) (request : Request ν K V F)
  | response (size : Nat) (response : Response ν)
  | state (snapshot : Snapshot ν K V F)
  | cleanVclocks (pids : Option (List ν))

/-- What an event comes to: the process, the minimum that `polog_stable/5` is called with, the
request that is sent to all others, the processes that are asked for their states, and the
response. -/
structure Handled (ν K V F Average : Type) [LinearOrder ν]
    [LinearOrder K] where
  process : Process ν K V F Average
  vclockMin : Option (VClock ν) := none
  mcast : Option (Request ν K V F) := none
  states : List ν := []
  response : Option (Response ν) := none

/-! ## removal of vanished nodes -/

def vclocksCurrent (nodeIds : List ν) (cs : VClocks ν) : VClocks ν :=
  Maps.map (vclockCurrent nodeIds) (Maps.withKeys nodeIds cs)

/-- The operations of the POLog with the clocks of the current nodes. -/
def pologCurrent (nodeIds : List ν) (polog : List (Entry ν K V F)) :
    List (Entry ν K V F) :=
  polog.map fun e => { e with vclock := vclockCurrent nodeIds e.vclock }

def Process.cleanVclocksStore (p : Process ν K V F Average) :
    Handled ν K V F Average :=
  let vclockN := vclockCurrent p.nodeIds p.vclock
  let vclocksN := vclocksCurrent p.nodeIds (vclocksUpdate p.nodeId vclockN p.vclocks)
  { process := { p with
      vclock := vclockN, vclocks := vclocksN, polog := pologCurrent p.nodeIds p.polog }
    vclockMin := some (vclocksMinimum vclocksN) }

/-- The node ids of the process and of the other processes. -/
def Process.currentNodeIds (pids : List ν) (p : Process ν K V F Average) : List ν :=
  pids.foldl (fun nodeIdsNext x => Lists.umerge nodeIdsNext [x]) [p.nodeId]

variable (floats : Floats ν Average) (pids : Option (List ν))

def Process.cleanVclocks
    (p : Process ν K V F Average) : Handled ν K V F Average :=
  match pids with
  | none => { process := p }
  | some pids =>
      let oldCount := p.nodeIds.length
      let newCount := pids.length + 1
      if oldCount > newCount ∧ floats.cleanFailureMet oldCount newCount then { process := p }
      else Process.cleanVclocksStore { p with nodeIds := p.currentNodeIds pids }

/-! ## bootstrap -/

variable (nodeIdRemote : ν) (vclockRemote : VClock ν)

def Process.bootstrapLocal
    (p : Process ν K V F Average) : Process ν K V F Average :=
  { p with
    nodeIds := Lists.umerge p.nodeIds [nodeIdRemote]
    vclock := vclockMerge vclockRemote (vclockIncrement p.nodeId p.vclock) }

def Process.bootstrapUpdateStart (pids : List ν) (bootstrapNodeId : ν)
    (p : Process ν K V F Average) : Process ν K V F Average :=
  { p with
    bootstrapNodeId := some bootstrapNodeId, bootstrapStates := []
    bootstrapRequests := pids.length }

/-- `bootstrap_local_check/5`: whether the clock is sent, the process, and the processes that
are asked for their states. -/
def Process.bootstrapLocalCheck (nodeIdRemote : ν)
    (vclockRemote : VClock ν) (op : Operation K V F)
    (p : Process ν K V F Average) :
    Option (Bool × Process ν K V F Average × List ν) :=
  let stateNext := p.bootstrapLocal nodeIdRemote vclockRemote
  let stateNew := { stateNext with
    vclock := vclockIncrement p.nodeId stateNext.vclock
    polog := pologEffect op stateNext.vclock (operationId nodeIdRemote vclockRemote)
      stateNext.polog }
  match p.bootstrapNodeId, pids with
  | none, some [] => none
  | none, some (pid :: pids) =>
      let nodeIdsNew := p.currentNodeIds (pid :: pids)
      if (nodeIdsNew.diff stateNext.nodeIds).isEmpty ∧ nodeIdRemote ∈ nodeIdsNew then
        some (false, Process.bootstrapUpdateStart (pid :: pids) nodeIdRemote
          { stateNew with nodeIds := nodeIdsNew }, pid :: pids)
      else some (true, stateNew, [])
  | none, none => some (false, stateNew, [])
  | some _, _ => some (false, stateNew, [])

/-- `vclock_average/1`; the average of an empty clock is a division by zero. -/
def vclockAverage (c : VClock ν) : Option Average :=
  if Maps.size c = 0 then none else some (floats.average c)

/-- The result of `bootstrap_update_result/3`. -/
inductive BootstrapResult (ν K V F : Type) [LinearOrder ν]
    [LinearOrder K] where
  | bootstrapDone
  | ok (vclock : VClock ν) (vclocks : VClocks ν)
      (polog : List (Entry ν K V F)) (data : Data K V)
  | updateInvalid

def bootstrapUpdateResult (bootstrapNodeId : Option ν)
    (bootstrapStates : List (BootstrapState ν K V F Average)) (vclockAvg : Average) :
    Option (BootstrapResult ν K V F) :=
  let vclockAvgL := vclockAvg :: bootstrapStates.map (·.vclockAvg)
  if vclockAvgL.all floats.isNew then some .bootstrapDone
  else match bootstrapStates.find? fun s => some s.nodeId = bootstrapNodeId with
    | none => none
    | some s =>
        match s.pologMode with
        | .normal =>
            if floats.reachesThreshold s.vclockAvg vclockAvgL then
              some (.ok s.vclock s.vclocks s.polog s.data)
            else some .updateInvalid
        | .bootstrap => some .updateInvalid

/-- A process with the POLog mode `normal`. -/
def Handled.normal (m : Handled ν K V F Average) : Handled ν K V F Average :=
  { m with process := { m.process with pologMode := .normal } }

def Process.bootstrapUpdateFinished
    (p : Process ν K V F Average) : Option (Handled ν K V F Average) :=
  if p.bootstrapRequests = 0 then do
    let stateNext := { p with bootstrapNodeId := none, bootstrapStates := [] }
    let vclockAvg ← vclockAverage floats (vclockCurrent p.nodeIds p.vclock)
    match ← bootstrapUpdateResult floats p.bootstrapNodeId p.bootstrapStates vclockAvg with
    | .bootstrapDone => some (Process.cleanVclocksStore stateNext).normal
    | .ok vclockRemote vclocks polog data =>
        some (Process.cleanVclocksStore { stateNext with
          vclock := vclockMerge vclockRemote (vclockIncrement p.nodeId p.vclock)
          vclocks, polog, data }).normal
    | .updateInvalid => some { process := stateNext }
  else some { process := p }

def Process.bootstrapUpdateFinish
    (snapshot : Snapshot ν K V F) (p : Process ν K V F Average) :
    Option (Handled ν K V F Average) :=
  match p.pologMode with
  | .bootstrap => do
      let vclockAvg ← vclockAverage floats (vclockCurrent p.nodeIds snapshot.vclock)
      Process.bootstrapUpdateFinished floats { p with
        bootstrapStates := { snapshot with vclockAvg } :: p.bootstrapStates
        bootstrapRequests := p.bootstrapRequests - 1 }
  | .normal => none

/-! ## the events -/

/-- What is the same in the events that receive a clock in the mode `normal`. -/
def Process.receive (vclockRemote vclockN : VClock ν) (polog : List (Entry ν K V F))
    (mcast : Option (Request ν K V F)) (response : Option (Response ν))
    (p : Process ν K V F Average) : Handled ν K V F Average :=
  let vclocksNew := vclocksReceive nodeIdRemote vclockRemote vclockN p.toState
  { process := { p with vclock := vclockN, vclocks := vclocksNew, polog }
    vclockMin := some (vclocksMinimum vclocksNew)
    mcast
    response }

/-- `event_local/3`, in both modes. -/
def Process.eventLocal (op : Operation K V F)
    (p : Process ν K V F Average) : Handled ν K V F Average :=
  let r := Crdt.eventLocal op p.toState
  { process := { p with toState := r.state }, mcast := r.mcast }

def Process.eventRemote (nodeIdRemote : ν) (vclockRemote : VClock ν) (op : Operation K V F)
    (p : Process ν K V F Average) : Option (Handled ν K V F Average) :=
  match p.pologMode with
  | .bootstrap => do
      let (sendVclock, stateNew, states) ←
        p.bootstrapLocalCheck pids nodeIdRemote vclockRemote op
      if sendVclock then
        let vclockN := vclockIncrement p.nodeId stateNew.vclock
        some {
          process := { stateNew with vclock := vclockN }
          mcast := some (.vclock p.nodeId stateNew.vclock)
          response := some (.vclock p.nodeId vclockN) }
      else some { process := stateNew, states, response := some .updated }
  | .normal =>
      let vclock1 := vclockReceive vclockRemote p.toState
      let vclockN := vclockIncrement p.nodeId vclock1
      some (p.receive nodeIdRemote vclockRemote vclockN
        (pologEffect op vclock1 (operationId nodeIdRemote vclockRemote) p.polog)
        none (some (.vclock p.nodeId vclockN)))

def Process.eventLocalVclock (size : Nat) (nodeIdRemote : ν) (vclockRemote : VClock ν)
    (p : Process ν K V F Average) : Handled ν K V F Average :=
  match p.pologMode with
  | .bootstrap =>
      let stateNew := p.bootstrapLocal nodeIdRemote vclockRemote
      { process := { stateNew with vclock := vclockIncrement p.nodeId stateNew.vclock }
        mcast := some (.vclock p.nodeId stateNew.vclock) }
  | .normal =>
      let vclock1 := vclockReceive vclockRemote p.toState
      match size with
      | 0 => p.receive nodeIdRemote vclockRemote (vclockIncrement p.nodeId vclock1) p.polog
          (some (.vclock p.nodeId vclock1)) none
      | _ + 1 => p.receive nodeIdRemote vclockRemote vclock1 p.polog none none

def Process.eventRemoteVclock (size : Nat) (nodeIdRemote : ν) (vclockRemote : VClock ν)
    (p : Process ν K V F Average) : Handled ν K V F Average :=
  match p.pologMode with
  | .bootstrap =>
      let stateNew := p.bootstrapLocal nodeIdRemote vclockRemote
      { process := stateNew, response := some (.vclockUpdated p.nodeId stateNew.vclock) }
  | .normal =>
      let vclock1 := vclockReceive vclockRemote p.toState
      match size with
      | 0 =>
          let vclockN := vclockIncrement p.nodeId vclock1
          p.receive nodeIdRemote vclockRemote vclockN p.polog
            (some (.vclockUpdated p.nodeId vclock1)) (some (.vclockUpdated p.nodeId vclockN))
      | _ + 1 => p.receive nodeIdRemote vclockRemote vclock1 p.polog none
          (some (.vclockUpdated p.nodeId vclock1))

def Process.eventLocalVclockUpdated
    (p : Process ν K V F Average) : Handled ν K V F Average :=
  match p.pologMode with
  | .bootstrap => { process := p }
  | .normal => p.receive nodeIdRemote vclockRemote (vclockReceive vclockRemote p.toState) p.polog
      none none

def Process.eventRemoteVclockUpdated
    (p : Process ν K V F Average) : Handled ν K V F Average :=
  match p.pologMode with
  | .bootstrap =>
      { process := p.bootstrapLocal nodeIdRemote vclockRemote, response := some .updated }
  | .normal =>
      { p.eventLocalVclockUpdated nodeIdRemote vclockRemote with response := some .updated }

/-- An event up to the call of `polog_stable/5`; `none` is an exit of the process. -/
def Process.prepare (p : Process ν K V F Average) :
    Event ν K V F → Option (Handled ν K V F Average)
  | .operation op => some (p.eventLocal op)
  | .request _ pids (.operation nodeIdRemote vclockRemote op) =>
      p.eventRemote pids nodeIdRemote vclockRemote op
  | .request size _ (.vclock nodeIdRemote vclockRemote) =>
      some (p.eventRemoteVclock size nodeIdRemote vclockRemote)
  | .request _ _ (.vclockUpdated nodeIdRemote vclockRemote) =>
      some (p.eventRemoteVclockUpdated nodeIdRemote vclockRemote)
  | .response size (.vclock nodeIdRemote vclockRemote) =>
      some (p.eventLocalVclock size nodeIdRemote vclockRemote)
  | .response _ (.vclockUpdated nodeIdRemote vclockRemote) =>
      some (p.eventLocalVclockUpdated nodeIdRemote vclockRemote)
  | .response _ .updated => some { process := p }
  | .state snapshot => p.bootstrapUpdateFinish floats snapshot
  | .cleanVclocks pids => some (p.cleanVclocks floats pids)

/-- The call of `polog_stable/5`. -/
def Handled.finish (calls : Calls V F) (m : Handled ν K V F Average) :
    Handled ν K V F Average :=
  match m.vclockMin with
  | none => m
  | some vclockMin =>
      let (polog, data) := pologStable calls m.process.polog m.process.data vclockMin
      { m with process := { m.process with polog, data } }

/-- An event. -/
def Process.handle (calls : Calls V F) (floats : Floats ν Average)
    (p : Process ν K V F Average) (event : Event ν K V F) :
    Option (Handled ν K V F Average) :=
  (p.prepare floats event).map (Handled.finish calls)

/-! ## the mode normal -/

variable {calls : Calls V F} {floats : Floats ν Average}
  {p : Process ν K V F Average}

/-- **A request in the mode `normal`** is handled as in `handleRequest`. -/
theorem handle_request_normal (calls : Calls V F) (floats : Floats ν Average)
    (h : p.pologMode = .normal) (size : Nat)
    (pids : Option (List ν)) (request : Request ν K V F) :
    ∃ vclockMin, p.handle calls floats (.request size pids request) = some
      { process := { p with toState := (handleRequest calls size p.toState request).1.state }
        vclockMin
        mcast := (handleRequest calls size p.toState request).1.mcast
        response := some (handleRequest calls size p.toState request).2 } := by
  obtain ⟨s, mode, bootstrapNodeId, states, requests⟩ := p
  change mode = .normal at h
  subst h
  cases request with
  | vclock nodeIdRemote vclockRemote =>
    cases size with
    | _ => exact ⟨_, rfl⟩
  | _ => exact ⟨_, rfl⟩

end CloudI.Crdt
