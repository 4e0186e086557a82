import CloudI.Cpg.Represent
import CloudI.Library.Flight

/-!
# Cpg.Network

Connected scope processes, one for each node, and their clients.  A client calls
the scope process of its node and then casts the request to the other nodes; in
between it is pending.  On a `nodeup` or `new` message a scope process sends its
histories to the other one.  Messages of one sender to one receiver keep their
order.

A request carries `removed`, the memberships that it took out at the node of its
pid: no process reads it, it is there to say what the other nodes should do.
-/

namespace CloudI.Cpg

open Flight

variable {Name Pid Node χ : Type} [LinearOrder Name] [LinearOrder Pid] [LinearOrder Node]
  [DecidableEq χ]

/-- The processes that send casts. -/
inductive Sender (Node χ : Type) where
  | client (c : χ)
  | scope (n : Node)
  deriving DecidableEq

/-- A cast in flight. -/
structure Packet (Name Pid Node χ : Type) where
  sender : Sender Node χ
  receiver : Node
  message : Message Name Pid Node
  removed : Name → Nat

/-- A client between its call and its casts. -/
structure Pending (Name Pid χ : Type) where
  client : χ
  request : Request Name Pid
  removed : Name → Nat

/-- The scope processes, the clients that are pending and the casts in flight. -/
structure System (Name Pid Node χ : Type) [LinearOrder Name] [LinearOrder Pid]
    [LinearOrder Node] where
  scopes : Node → State Name Pid Node
  pending : List (Pending Name Pid χ)
  flight : List (Packet Name Pid Node χ)

/-- A step of the system. -/
inductive Event (Name Pid Node χ : Type) where
  | call (c : χ) (request : Request Name Pid)
  | abcast (c : χ)
  | nodeup (n m : Node)
  | deliver (sender : Sender Node χ) (receiver : Node)

/-- The memberships of each group that a request takes out, of those in `H`. -/
def removed (H : Name → List Pid) : Request Name Pid → Name → Nat
  | .join .., _ | .joinCounts .., _ => 0
  | .leaveAll pid, g => (H g).count pid
  | .leave name pid, g => if g = name then min 1 ((H g).count pid) else 0
  | .leaveCounts counts pid, g =>
      if ∀ x ∈ counts, pid ∈ H x.1 then min (taken counts g) ((H g).count pid) else 0

variable (s : System Name Pid Node χ)

/-- The state of one scope process replaced. -/
def System.setScope (n : Node) (scope : State Name Pid Node) : System Name Pid Node χ :=
  { s with scopes := Function.update s.scopes n scope }

/-- The casts of a request to the other nodes. -/
def casts (nodes : List Node) (n : Node) (x : Pending Name Pid χ) : List (Packet Name Pid Node χ) :=
  (nodes.filter (· ≠ n)).map fun receiver =>
    { sender := .client x.client, receiver, message := .cast x.request, removed := x.removed }

/-- A step of the system; `none` is a step that cannot happen (a client calls for a
pid of its own node, and not while it is pending), or the failure of a scope
process. -/
def next (node : Pid → Node) (clientNode : χ → Node) (nodes : List Node)
    (s : System Name Pid Node χ) :
    Event Name Pid Node χ → Option (System Name Pid Node χ)
  | .call c request =>
      let n := node request.pid
      if clientNode c ≠ n ∨ n ∉ nodes ∨ ∃ x ∈ s.pending, x.client = c then none
      else match handleRequest node .here (s.scopes n) request with
        | .error _ => none
        | .ok (false, _) => some s
        | .ok (true, scope) =>
            some { s.setScope n scope with
                   pending := s.pending ++
                    [⟨c, request, removed (historyOf (s.scopes n)) request⟩] }
  | .abcast c =>
      match takeFirst (·.client = c) s.pending with
      | none => none
      | some (x, pending) =>
          some { s with pending, flight := s.flight ++ casts nodes (node x.request.pid) x }
  | .nodeup n m =>
      if n ∉ nodes ∨ m ∉ nodes ∨ n = m then none
      else match handle node n (s.scopes n) (.nodeup m) with
        | .ok (.exchange receiver historyL, _) =>
            some { s with
                   flight := s.flight ++
                    [⟨.scope n, receiver, .exchange n historyL, fun _ => 0⟩] }
        | _ => some s
  | .deliver sender receiver =>
      match takeFirst (fun x => x.sender = sender ∧ x.receiver = receiver) s.flight with
      | none => none
      | some (x, flight) =>
          match handle node receiver (s.scopes receiver) x.message with
          | .error _ => none
          | .ok (_, scope) => some { s.setScope receiver scope with flight }

/-! ## agreement -/

/-- The memberships of a pid in a group that a node records. -/
def recorded (n : Node) (pid : Pid) (g : Name) : Nat :=
  (historyOf (s.scopes n) g).count pid

/-- **The counts agree**: every node records the memberships that the node of the pid does. -/
def Agree (node : Pid → Node) (nodes : List Node) (s : System Name Pid Node χ) : Prop :=
  ∀ n ∈ nodes, ∀ pid, node pid ∈ nodes → ∀ g, recorded s n pid g = recorded s (node pid) pid g

/-- No message is in flight and no client is between its call and its casts. -/
def Quiet : Prop := s.pending = [] ∧ s.flight = []

/-- **A cast that does at the receiver what it should**: a request takes out as
many memberships as it did at the node of its pid, and an exchange lists each pid
with the count that the receiver records. -/
def CastOk (H : Name → List Pid) (x : Packet Name Pid Node χ) : Prop :=
  match x.message with
  | .cast r => ∀ g, removed H r g = x.removed g
  | .exchange _ historyL => ∀ y ∈ historyL, ∀ pid ∈ y.2, (H y.1).count pid = y.2.count pid
  | _ => True

/-- The condition on a step: a delivered cast does what it should. -/
def StepOk : Event Name Pid Node χ → Prop
  | .deliver sender receiver => ∀ x flight,
      takeFirst (fun x => x.sender = sender ∧ x.receiver = receiver) s.flight = some (x, flight) →
      CastOk (historyOf (s.scopes receiver)) x
  | .call .. | .abcast _ | .nodeup .. => True

end CloudI.Cpg
