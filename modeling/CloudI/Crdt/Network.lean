import CloudI.Crdt.Node
import CloudI.Library.Flight

/-!
# Crdt.Network

The processes of a CRDT, their queues and the messages in flight.  A queue is ordered: it sends
a request to all other processes, and the next one when every process responded.  The requests
from one process to another one keep their order, and so do the responses; a message is
delivered once.

`missing` lists the operations that a process did not receive yet, in the order in which they
were written: no process reads it, it is there to say what a process does not know.
-/

namespace CloudI.Crdt

open Flight Function

variable {ν K V F : Type} [LinearOrder ν] [LinearOrder K]

/-! ## the queue of a process -/

/-- The requests that have no response yet, and the requests that wait. -/
structure Outbox (ν K V F : Type) [LinearOrder ν] where
  pending : Nat := 0
  waiting : List (Request ν K V F) := []

/-- `cloudi_queue:size/2`. -/
def Outbox.size (outbox : Outbox ν K V F) : Nat :=
  outbox.waiting.length + outbox.pending

/-- The processes, their queues and the messages in flight; the key of a message is its sender
and its receiver. -/
structure World (ν K V F : Type) [LinearOrder ν] [LinearOrder K] where
  processes : ν → State ν K V F
  outboxes : ν → Outbox ν K V F := fun _ => {}
  requests : List ((ν × ν) × Request ν K V F) := []
  responses : List ((ν × ν) × Response ν) := []
  missing : ν → List (ν × Operation K V F) := fun _ => []

variable (nodes : List ν) (n : ν)

/-- The other processes. -/
def others : List ν := nodes.filter (· ≠ n)

/-- A request to all other processes. -/
def sends (request : Request ν K V F) : List ((ν × ν) × Request ν K V F) :=
  (others nodes n).map fun receiver => ((n, receiver), request)

/-- `cloudi_queue:mcast/4`. -/
def World.mcast (request : Request ν K V F)
    (w : World ν K V F) : World ν K V F :=
  let outbox := w.outboxes n
  if outbox.pending > 0 then
    { w with
      outboxes := update w.outboxes n
        { outbox with waiting := outbox.waiting ++ [request] } }
  else
    { w with
      outboxes := update w.outboxes n
        { outbox with pending := (others nodes n).length }
      requests := w.requests ++ sends nodes n request }

/-- `ordered_check/2` of `cloudi_queue`: a request got its response. -/
def World.orderedCheck (w : World ν K V F) : World ν K V F :=
  let outbox := w.outboxes n
  match outbox.pending, outbox.waiting with
  | 1, [] => { w with outboxes := update w.outboxes n {} }
  | 1, request :: waiting =>
      { w with
        outboxes := update w.outboxes n
          { pending := (others nodes n).length, waiting }
        requests := w.requests ++ sends nodes n request }
  | pending, waiting =>
      { w with outboxes := update w.outboxes n { pending := pending - 1, waiting } }

/-- The world after an event of a process. -/
def World.finish (r : Outcome ν K V F)
    (w : World ν K V F) : World ν K V F :=
  let wNew := { w with processes := update w.processes n r.state }
  match r.mcast with
  | some request => wNew.mcast nodes n request
  | none => wNew

/-- The operation of a request. -/
def Request.operation? : Request ν K V F → Option (Operation K V F)
  | .operation _ _ op => some op
  | .vclock _ _ | .vclockUpdated _ _ => none

/-- What a process is missing after it received a request. -/
def missingAfter (sender receiver : ν) (request : Request ν K V F)
    (missing : ν → List (ν × Operation K V F)) : ν → List (ν × Operation K V F) :=
  match request.operation? with
  | some _ => update missing receiver ((missing receiver).eraseP (·.1 = sender))
  | none => missing

/-- A step of the system. -/
inductive Label (ν K V F : Type) where
  | write (n : ν) (op : Operation K V F)
  | request (sender receiver : ν)
  | response (sender receiver : ν)

variable (calls : Calls V F) (w : World ν K V F)

/-- A step of the system; `none` is a step that cannot happen. -/
def next :
    Label ν K V F → Option (World ν K V F)
  | .write n op =>
      if n ∈ nodes then
        some { w.finish nodes n (eventLocal op (w.processes n)) with
               missing := fun m => if m = n then w.missing m else w.missing m ++ [(n, op)] }
      else none
  | .request sender receiver =>
      (takeFirst (fun m => decide (m.1 = (sender, receiver))) w.requests).map fun (m, requests) =>
        let (r, response) := handleRequest calls (w.outboxes receiver).size (w.processes receiver) m.2
        { World.finish nodes receiver r { w with requests } with
          responses := w.responses ++ [((receiver, sender), response)]
          missing := missingAfter sender receiver m.2 w.missing }
  | .response sender receiver =>
      (takeFirst (fun m => decide (m.1 = (sender, receiver))) w.responses).map fun (m, responses) =>
        let wNext := World.orderedCheck nodes receiver { w with responses }
        wNext.finish nodes receiver (handleResponse calls (wNext.outboxes receiver).size
          (wNext.processes receiver) m.2)

/-! ## convergence -/

/-- The start: every POLog is empty, the data are equal, and nothing is in flight. -/
structure Start (w : World ν K V F) : Prop where
  polog : ∀ n ∈ nodes, (w.processes n).polog = []
  data : ∀ n ∈ nodes, ∀ m ∈ nodes, (w.processes n).data = (w.processes m).data
  outboxes : ∀ n ∈ nodes, w.outboxes n = {}
  requests : w.requests = []
  responses : w.responses = []
  missing : ∀ n ∈ nodes, w.missing n = []

/-- No message is in flight, and every POLog is empty. -/
structure Quiet (w : World ν K V F) : Prop where
  requests : w.requests = []
  responses : w.responses = []
  polog : ∀ n ∈ nodes, (w.processes n).polog = []

/-- The data of all processes are equal. -/
def Converged : Prop :=
  ∀ n ∈ nodes, ∀ m ∈ nodes, (w.processes n).data = (w.processes m).data

/-- The request that a process receives next from another one. -/
def World.nextRequest (sender receiver : ν) (w : World ν K V F) :
    Option (Request ν K V F) :=
  (takeFirst (fun m => decide (m.1 = (sender, receiver))) w.requests).map (·.1.2)

/-- **An operation that can be taken where it is**: the POLog does not ignore it, and it can be
written before or after the older operations that are missing. -/
def Takes (calls : Calls V F) (op : Operation K V F) (c : VClock ν)
    (s : State ν K V F) (older : List (ν × Operation K V F)) : Prop :=
  Kept op c s.polog ∧ ∀ x ∈ older, Commute calls op x.2

/-- **The operation of a step can be taken where it is**, at the process that writes it and at
the one that receives it. -/
def StepOk : Label ν K V F → Prop
  | .write n op =>
      Takes calls op (vclockIncrement (w.processes n).nodeId (w.processes n).vclock)
        (w.processes n) (w.missing n)
  | .request sender receiver => ∀ nodeId c op,
      w.nextRequest sender receiver = some (.operation nodeId c op) →
        Takes calls op (vclockReceive c (w.processes receiver)) (w.processes receiver)
          ((w.missing receiver).takeWhile (·.1 ≠ sender))
  | .response _ _ => True

end CloudI.Crdt
