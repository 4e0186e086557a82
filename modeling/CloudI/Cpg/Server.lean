import CloudI.Cpg.Data
import CloudI.Erlang.Maps
import CloudI.Library.Except

/-!
# Cpg.Server

A `cpg` scope process: the groups, the monitors that know the groups of each
pid, and the handling of calls, casts and other messages.

`DictI` is a finite map.  Callbacks and log messages are left out, and so are
the monitoring processes of the nodes: a monitor is a reference of a local pid
or the process for the node of a remote one.  The process listens to visible
nodes, so that it does not forward requests to hidden nodes.
-/

namespace CloudI.Cpg

open CloudI.Except CloudI.Lists

/-- What `monitor` of a `#state_monitor{}` is. -/
inductive Monitor where
  | reference
  | process
  deriving DecidableEq

/-- `#state_monitor{}`. -/
structure StateMonitor (Name : Type) where
  monitor : Monitor
  names : List Name

/-- `#state{}`. -/
structure State (Name Pid Node : Type) [LinearOrder Name] [LinearOrder Pid] [LinearOrder Node] where
  groups : ErlMap Name (CpgData Pid) := ∅
  monitors : ErlMap Pid (StateMonitor Name) := ∅
  nodeMonitors : ErlMap Node Unit := ∅

/-- A request of a client, called at its node and cast to the other nodes. -/
inductive Request (Name Pid : Type) where
  | join (name : Name) (pid : Pid)
  | joinCounts (counts : List (Name × Int)) (pid : Pid)
  | leaveAll (pid : Pid)
  | leave (name : Name) (pid : Pid)
  | leaveCounts (counts : List (Name × Int)) (pid : Pid)

/-- What the process receives. -/
inductive Message (Name Pid Node : Type) where
  | call (request : Request Name Pid)
  | cast (request : Request Name Pid)
  | exchange (node : Node) (historyL : List (Name × List Pid))
  | down (pid : Pid)
  | downs (pids : List Pid)
  | nodeup (node : Node)
  | nodedown (node : Node) (pids : List Pid)
  | new (node : Node)

/-- What the process sends: a reply, or its histories to a node. -/
inductive Output (Name Pid Node : Type) where
  | nothing
  | reply (ok : Bool)
  | exchange (node : Node) (historyL : List (Name × List Pid))

variable {Name Pid Node : Type} [LinearOrder Name] [LinearOrder Pid] [LinearOrder Node]

/-! ## monitors -/

/-- The side that a monitor belongs to: `is_reference` and `is_pid`. -/
def Monitor.side : Monitor → Side
  | .reference => .here
  | .process => .remote

def monitorLocal (pid : Pid) (name : Name) (monitors : ErlMap Pid (StateMonitor Name)) :
    ErlMap Pid (StateMonitor Name) :=
  match Maps.find pid monitors with
  | some old => Maps.put pid { old with names := umerge old.names [name] } monitors
  | none => Maps.put pid { monitor := .reference, names := [name] } monitors

variable (node : Pid → Node)

def monitorRemote (pid : Pid) (name : Name)
    (monitors : ErlMap Pid (StateMonitor Name)) (nodeMonitors : ErlMap Node Unit) :
    ErlMap Pid (StateMonitor Name) × ErlMap Node Unit :=
  match Maps.find pid monitors with
  | some old => (Maps.put pid { old with names := umerge old.names [name] } monitors, nodeMonitors)
  | none =>
      let next :=
        match Maps.find (node pid) nodeMonitors with
        | some _ => nodeMonitors
        | none => Maps.put (node pid) () nodeMonitors
      (Maps.put pid { monitor := .process, names := [name] } monitors, next)

variable (side : Side)

/-- `monitor_local/3` or `monitor_remote/4`. -/
def monitorSide (pid : Pid) (name : Name)
    (monitors : ErlMap Pid (StateMonitor Name)) (nodeMonitors : ErlMap Node Unit) :
    ErlMap Pid (StateMonitor Name) × ErlMap Node Unit :=
  match side with
  | .here => (monitorLocal pid name monitors, nodeMonitors)
  | .remote => monitorRemote node pid name monitors nodeMonitors

/-! ## joins -/

/-- The record of a group, old or new, with the pids of a join. -/
def joinGroupData (count : Int) (pidList : List Pid) :
    Option (CpgData Pid) → CpgData Pid
  | some old =>
      old.set side (old.count side + count) (pidList ++ old.pids side) (pidList ++ old.history)
  | none => ({} : CpgData Pid).set side count pidList pidList

/-- The clauses that `join_group_local/4` and `join_group_remote/4` share. -/
def joinGroup (count : Int) (name : Name) (pid : Pid)
    (s : State Name Pid Node) : Except Exit (State Name Pid Node) := do
  let pidList ← duplicate count pid
  let groupData := joinGroupData side count pidList (Maps.find name s.groups)
  let (monitors, nodeMonitors) := monitorSide node side pid name s.monitors s.nodeMonitors
  return { groups := Maps.put name groupData s.groups, monitors, nodeMonitors }

def joinGroupLocal : Int → Name → Pid → State Name Pid Node →
    Except Exit (State Name Pid Node) := joinGroup node .here

def joinGroupRemote : Int → Name → Pid → State Name Pid Node →
    Except Exit (State Name Pid Node) := joinGroup node .remote

/-- `join_group_local/4` in a call and `join_group_remote/4` in a cast. -/
def joinGroupSide : Int → Name → Pid → State Name Pid Node → Except Exit (State Name Pid Node) :=
  match side with
  | .here => joinGroupLocal node
  | .remote => joinGroupRemote node

theorem joinGroupSide_eq (count : Int) (name : Name) (pid : Pid) (s : State Name Pid Node) :
    joinGroupSide node side count name pid s = joinGroup node side count name pid s := by
  cases side with
  | here => rfl
  | remote => rfl

/-! ## leaves -/

/-- The monitors without the group of the pid. -/
def leaveMonitor (name : Name) (pid : Pid) (monitors : ErlMap Pid (StateMonitor Name)) :
    Except Exit (ErlMap Pid (StateMonitor Name)) :=
  match Maps.find pid monitors with
  | none => .error .badkey
  | some old =>
      if old.names = [name] then
        if old.monitor.side = side then .ok (Maps.remove pid monitors) else .error .badmatch
      else .ok (Maps.put pid { old with names := old.names.erase name } monitors)

/-- The clauses that `leave_group_local/4` and `leave_group_remote/4` share. -/
def leaveGroup (count : Int) (name : Name) (pid : Pid) (s : State Name Pid Node) :
    Except Exit (State Name Pid Node) :=
  match Maps.find name s.groups with
  | none => .error .fetch
  | some old => do
      let (i, pids) := leaveGroupPid count (old.pids side) pid
      let history ← leaveGroupPidCount i old.history pid
      let (member, groups) :=
        if history = [] then (false, Maps.remove name s.groups)
        else (decide (pid ∈ pids),
          Maps.put name (old.set side (old.count side - i) pids history) s.groups)
      let monitors ← if member then .ok s.monitors else leaveMonitor side name pid s.monitors
      return { s with groups, monitors }

def leaveGroupLocal : Int → Name → Pid → State Name Pid Node →
    Except Exit (State Name Pid Node) := leaveGroup .here

def leaveGroupRemote : Int → Name → Pid → State Name Pid Node →
    Except Exit (State Name Pid Node) := leaveGroup .remote

/-- `leave_group_local/4` in a call and `leave_group_remote/4` in a cast. -/
def leaveGroupSide : Int → Name → Pid → State Name Pid Node → Except Exit (State Name Pid Node) :=
  match side with
  | .here => leaveGroupLocal
  | .remote => leaveGroupRemote

theorem leaveGroupSide_eq (count : Int) (name : Name) (pid : Pid) (s : State Name Pid Node) :
    leaveGroupSide side count name pid s = leaveGroup side count name pid s := by
  cases side with
  | here => rfl
  | remote => rfl

/-- One group of `leave_all_local/4` and `leave_all_remote/4`. -/
def leaveAllGroup (pid : Pid) (name : Name) (s : State Name Pid Node) :
    Except Exit (State Name Pid Node) :=
  match Maps.find name s.groups with
  | none => .error .fetch
  | some old =>
      let (i, pids) := leaveAllPid (old.pids side) pid
      let history := old.history.filter (· ≠ pid)
      let groups :=
        if history = [] then Maps.remove name s.groups
        else Maps.put name (old.set side (old.count side - i) pids history) s.groups
      .ok { s with groups }

/-- `leave_all_local/4` and `leave_all_remote/4`. -/
def leaveAll (side : Side) : List Name → Pid → State Name Pid Node →
    Except Exit (State Name Pid Node)
  | [], _, s => .ok s
  | name :: names, pid, s => do
      let s ← leaveAllGroup side pid name s
      leaveAll side names pid s

def leaveAllLocal : List Name → Pid → State Name Pid Node → Except Exit (State Name Pid Node) :=
  leaveAll .here

def leaveAllRemote : List Name → Pid → State Name Pid Node → Except Exit (State Name Pid Node) :=
  leaveAll .remote

/-- `leave_all_local/4` or `leave_all_remote/4`. -/
def leaveAllSide : List Name → Pid → State Name Pid Node → Except Exit (State Name Pid Node) :=
  match side with
  | .here => leaveAllLocal
  | .remote => leaveAllRemote

theorem leaveAllSide_eq (names : List Name) (pid : Pid) (s : State Name Pid Node) :
    leaveAllSide side names pid s = leaveAll side names pid s := by
  cases side with
  | here => rfl
  | remote => rfl

/-! ## merges -/

/-- The side of a pid. -/
def sideOf (home : Node) (pid : Pid) : Side :=
  if node pid = home then .here else .remote

/-- `merge_pid_conflict/10`: the counts of each pid become those of `historyX`. -/
def mergePidConflict (node : Pid → Node) (home : Node) (historyX : List Pid) (name : Name)
    (groups : ErlMap Name (CpgData Pid)) :
    List Pid → CpgData Pid → ErlMap Pid (StateMonitor Name) → ErlMap Node Unit →
    Except Exit (State Name Pid Node)
  | [], groupData, monitors, nodeMonitors =>
      .ok { groups := Maps.put name groupData groups, monitors, nodeMonitors }
  | pid :: pidsX, groupData, monitors, nodeMonitors =>
      let side := sideOf node home pid
      let i := count pid historyX - count pid (groupData.pids side)
      if i > 0 then
        let (monitors, nodeMonitors) := monitorSide node side pid name monitors nodeMonitors
        mergePidConflict node home historyX name groups pidsX
          (groupData.set side (groupData.count side + i)
            (mergePidConflictAdd pid i.toNat (groupData.pids side))
            (mergePidConflictAdd pid i.toNat groupData.history))
          monitors nodeMonitors
      else if i < 0 then do
        let pids ← mergePidConflictRemove pid (-i).toNat (groupData.pids side)
        let history ← mergePidConflictRemove pid (-i).toNat groupData.history
        mergePidConflict node home historyX name groups pidsX
          (groupData.set side (groupData.count side + i) pids history) monitors nodeMonitors
      else
        mergePidConflict node home historyX name groups pidsX groupData monitors nodeMonitors

/-- The group data of `merge_pid_new/9`; the history is already set. -/
def mergePidNewData (node : Pid → Node) (home : Node) : List Pid → CpgData Pid → CpgData Pid
  | [], groupData => groupData
  | pid :: pidsX, groupData =>
      let side := sideOf node home pid
      mergePidNewData node home pidsX
        (groupData.set side (groupData.count side + 1) (pid :: groupData.pids side)
          groupData.history)

def mergePidNew (home : Node) (pidsX : List Pid) (groupData : CpgData Pid)
    (name : Name) (s : State Name Pid Node) : State Name Pid Node :=
  let groupData := mergePidNewData node home pidsX groupData
  let monitors := (usort groupData.localPids).foldl
    (fun monitors pid => monitorLocal pid name monitors) s.monitors
  let (monitors, nodeMonitors) := (usort groupData.remotePids).foldl
    (fun (m : ErlMap Pid (StateMonitor Name) × ErlMap Node Unit) pid =>
      monitorRemote node pid name m.1 m.2) (monitors, s.nodeMonitors)
  { groups := Maps.put name groupData s.groups, monitors, nodeMonitors }

/-- One group of `merge_pids/7`. -/
def mergeGroup (home : Node) (name : Name) (historyX : List Pid)
    (s : State Name Pid Node) : Except Exit (State Name Pid Node) :=
  match Maps.find name s.groups with
  | some groupData =>
      mergePidConflict node home historyX name s.groups (usort historyX) groupData s.monitors
        s.nodeMonitors
  | none => .ok (mergePidNew node home historyX.reverse { history := historyX } name s)

/-- `merge/2`, with the loop `merge_pids/7`. -/
def merge (node : Pid → Node) (home : Node) : List (Name × List Pid) → State Name Pid Node →
    Except Exit (State Name Pid Node)
  | [], s => .ok s
  | (name, historyX) :: historyL, s => do
      let s ← mergeGroup node home name historyX s
      merge node home historyL s

/-- The histories that `merge_start/2` sends. -/
def histories (s : State Name Pid Node) : List (Name × List Pid) :=
  (s.groups.toList.map fun x => (x.1, x.2.history)).reverse

def mergeStart (n : Node) (s : State Name Pid Node) : Output Name Pid Node :=
  if histories s = [] then .nothing else .exchange n (histories s)

/-! ## deaths -/

/-- A pid of a side that died, if it is monitored. -/
def memberDied (pid : Pid) (s : State Name Pid Node) : Except Exit (State Name Pid Node) :=
  match Maps.take pid s.monitors with
  | some (m, monitors) => leaveAllSide side m.names pid { s with monitors }
  | none => .ok s

def memberDiedLocal : Pid → State Name Pid Node → Except Exit (State Name Pid Node) :=
  memberDied .here

/-- `members_died_remote/2` and `node_died/3`. -/
def membersDiedRemote : List Pid → State Name Pid Node → Except Exit (State Name Pid Node)
  | [], s => .ok s
  | pid :: pids, s => do
      let s ← memberDied .remote pid s
      membersDiedRemote pids s

/-! ## requests -/

/-- Join every group of a list. -/
def joinAll (node : Pid → Node) (side : Side) (pid : Pid) : List (Name × Int) →
    State Name Pid Node → Except Exit (State Name Pid Node)
  | [], s => .ok s
  | (name, count) :: counts, s => do
      let s ← joinGroupSide node side count name pid s
      joinAll node side pid counts s

/-- Leave every group of a list. -/
def leaveGroups (side : Side) (pid : Pid) : List (Name × Int) → State Name Pid Node →
    Except Exit (State Name Pid Node)
  | [], s => .ok s
  | (name, count) :: counts, s => do
      let s ← leaveGroupSide side count name pid s
      leaveGroups side pid counts s

/-- A request at a side: `handle_call/3` for `here` and `handle_cast/2` for
`remote`.  The answer is whether the request was taken.  A cast has the counts
of a call that was taken, and does not check them. -/
def handleRequest (s : State Name Pid Node) :
    Request Name Pid → Except Exit (Bool × State Name Pid Node)
  | .join name pid => do return (true, ← joinGroupSide node side 1 name pid s)
  | .joinCounts counts pid =>
      if side = .here ∧ ¬ ∀ x ∈ counts, x.2 > 0 then .ok (false, s)
      else do return (true, ← joinAll node side pid counts s)
  | .leaveAll pid =>
      match Maps.take pid s.monitors with
      | none => .ok (false, s)
      | some (m, monitors) =>
          if m.monitor.side = side then do
            return (true, ← leaveAllSide side m.names pid { s with monitors })
          else .error .badmatch
  | .leave name pid =>
      match Maps.find pid s.monitors with
      | none => .ok (false, s)
      | some m =>
          if m.monitor.side = side then
            if name ∈ m.names then do return (true, ← leaveGroupSide side 1 name pid s)
            else .ok (false, s)
          else .error .badmatch
  | .leaveCounts counts pid =>
      match Maps.find pid s.monitors with
      | none => .ok (false, s)
      | some m =>
          if m.monitor.side = side then
            if ∀ x ∈ counts, x.1 ∈ m.names ∧ (side = .here → x.2 > 0) then do
              return (true, ← leaveGroups side pid counts s)
            else .ok (false, s)
          else .error .badmatch

/-- `handle_call/3`, `handle_cast/2` and `handle_info/2`. -/
def handle (home : Node) (s : State Name Pid Node) :
    Message Name Pid Node → Except Exit (Output Name Pid Node × State Name Pid Node)
  | .call request => do
      let (ok, s) ← handleRequest node .here s request
      return (.reply ok, s)
  | .cast request => do
      let (_, s) ← handleRequest node .remote s request
      return (.nothing, s)
  | .exchange _ historyL => do return (.nothing, ← merge node home historyL s)
  | .down pid => do return (.nothing, ← memberDiedLocal pid s)
  | .downs pids => do return (.nothing, ← membersDiedRemote pids s)
  | .nodeup n => .ok (mergeStart n s, s)
  | .nodedown n pids =>
      match Maps.find n s.nodeMonitors with
      | none => .ok (.nothing, s)
      | some _ => do
          return (.nothing, ← membersDiedRemote pids
            { s with nodeMonitors := Maps.remove n s.nodeMonitors })
  | .new n => .ok (mergeStart n s, s)

end CloudI.Cpg
