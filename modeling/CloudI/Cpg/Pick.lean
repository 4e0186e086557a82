import CloudI.Cpg.Data
import CloudI.Erlang.Maps
import CloudI.Trie.Match2

/-!
# Cpg.Pick

`cpg_data`: the functions that pick a destination from the members of a group.
A caller has a copy of the groups; a group is found by its name, or by a pattern
that matches the name when the groups are in a trie.
-/

namespace CloudI.Cpg

/-- `state()`, the tuple of a storage module and its groups.  The names of the groups in
a trie are patterns. -/
inductive Storage (Pid : Type) : Type → Type 1 where
  | trie (groups : Trie.Tree (CpgData Pid)) : Storage Pid (List Nat)
  | dict {Name : Type} [LinearOrder Name] (groups : ErlMap Name (CpgData Pid)) : Storage Pid Name

/-- `get_pid_error_reason()`. -/
inductive GetPidError (Name : Type) where
  | noSuchGroup (name : Name)
  | noProcess (name : Name)
  deriving DecidableEq

/-- The name of the group and a pid, or an error; or an exception. -/
abbrev Picked (Name Pid : Type) := Except Trie.Exit (Except (GetPidError Name) (Name × Pid))

variable {Name Pid Node : Type}

/-- `group_find/2`; `none` is `error`. -/
def groupFind (name : Name) :
    Storage Pid Name → Except Trie.Exit (Option (Name × CpgData Pid))
  | .trie groups =>
      match Trie.findMatch2 name groups with
      | .error .badarg => .ok none
      | found => found
  | @Storage.dict _ _ _ groups => .ok ((Maps.find name groups).map fun data => (name, data))

/-! ## pick -/

/-- `random/1`: every number from 1 to `n`, as `draw` goes through all numbers. -/
def random (n : Int) (draw : Nat) : Except Trie.Exit Nat :=
  if n < 1 then .error .badarg else .ok (draw % n.toNat + 1)

/-- `lists:nth/2`. -/
def nth (i : Nat) (l : List Pid) : Except Trie.Exit Pid :=
  match i, l[i - 1]? with
  | _ + 1, some pid => .ok pid
  | _, _ => .error .functionClause

/-- The second clause of `pick/3`. -/
def pickNth (draw : Nat) (n : Int) (l : List Pid) (pattern : Name) : Picked Name Pid :=
  (random n draw).bind fun i => (nth i l).map fun pid => .ok (pattern, pid)

def pick (draw : Nat) (n : Int) (l : List Pid) (pattern : Name) : Picked Name Pid :=
  match l with
  | [pid] => if n = 1 then .ok (.ok (pattern, pid)) else pickNth draw n [pid] pattern
  | l => pickNth draw n l pattern

variable [DecidableEq Pid] [DecidableEq Node]

/-- `pick_i/8`; the pids that were passed over are `filtered`, and `length` is their number. -/
def pickI (random : Nat) (exclude : Pid) (name pattern : Name) :
    Nat → Nat → List Pid → List Pid → Picked Name Pid
  | i, length, filtered, [] =>
      if i = random then
        match filtered, length with
        | [], _ => .ok (.error (.noProcess name))
        | [pid], 1 => .ok (.ok (pattern, pid))
        | filtered, length => (nth (i % length + 1) filtered).map fun pid => .ok (pattern, pid)
      else .error .functionClause
  | i, length, filtered, pid :: l =>
      if i = random then
        if pid = exclude then pickI random exclude name pattern i length filtered l
        else .ok (.ok (pattern, pid))
      else if pid = exclude then pickI random exclude name pattern (i + 1) length filtered l
      else pickI random exclude name pattern (i + 1) (length + 1) (pid :: filtered) l

/-- `pick/5`. -/
def pickExclude (draw : Nat) (n : Int) (l : List Pid) (exclude : Pid) (name pattern : Name) :
    Picked Name Pid :=
  if n = 0 ∧ l = [] then .ok (.error (.noProcess name))
  else (random n draw).bind fun random => pickI random exclude name pattern 1 0 [] l

/-- `pick/7`: the second pids when the first have none; they have a draw of their own. -/
def pickEither (draw draw2 : Nat) (n1 : Int) (l1 : List Pid) (n2 : Int) (l2 : List Pid)
    (exclude : Pid) (name pattern : Name) : Picked Name Pid :=
  if n1 = 0 ∧ l1 = [] then pickExclude draw2 n2 l2 exclude name pattern
  else (pickExclude draw n1 l1 exclude name pattern).bind fun
    | .error _ => pickExclude draw2 n2 l2 exclude name pattern
    | .ok success => .ok (.ok success)

/-! ## history -/

/-- The functions `history_*_pid`: the first pid that is wanted. -/
def historyFirst (wanted : Pid → Bool) (name pattern : Name) : List Pid → Picked Name Pid
  | [] => .ok (.error (.noProcess name))
  | pid :: history =>
      if wanted pid then .ok (.ok (pattern, pid)) else historyFirst wanted name pattern history

/-- A history that must not be empty. -/
def nonEmpty (f : List Pid → Picked Name Pid) : List Pid → Picked Name Pid
  | [] => .error .functionClause
  | pid :: history => f (pid :: history)

def historyOldest (pattern : Name) : List Pid → Picked Name Pid :=
  nonEmpty fun history => match history.reverse with
    | [] => .error .badmatch
    | pid :: _ => .ok (.ok (pattern, pid))

def historyNewest (pattern : Name) : List Pid → Picked Name Pid
  | [] => .error .functionClause
  | pid :: _ => .ok (.ok (pattern, pid))

/-- `history_oldest/4`. -/
def historyOldestExclude (exclude : Pid) (name pattern : Name) : List Pid → Picked Name Pid :=
  nonEmpty fun history => historyFirst (· ≠ exclude) name pattern history.reverse

/-- `history_newest/4`. -/
def historyNewestExclude (exclude : Pid) (name pattern : Name) : List Pid → Picked Name Pid :=
  nonEmpty fun history => historyFirst (· ≠ exclude) name pattern history

section
variable (node : Pid → Node) (home : Node) (name pattern : Name)

def historyLocalOldest : List Pid → Picked Name Pid :=
  nonEmpty fun history => historyFirst (node · = home) name pattern history.reverse

/-- `history_local_oldest/4`. -/
def historyLocalOldestExclude (exclude : Pid) (name pattern : Name) : List Pid → Picked Name Pid :=
  nonEmpty fun history =>
    historyFirst (fun pid => pid ≠ exclude ∧ node pid = home) name pattern history.reverse

def historyRemoteOldest : List Pid → Picked Name Pid :=
  nonEmpty fun history => historyFirst (node · ≠ home) name pattern history.reverse

/-- `history_remote_oldest/4`. -/
def historyRemoteOldestExclude (exclude : Pid) (name pattern : Name) : List Pid → Picked Name Pid :=
  nonEmpty fun history =>
    historyFirst (fun pid => pid ≠ exclude ∧ node pid ≠ home) name pattern history.reverse

def historyLocalNewest : List Pid → Picked Name Pid :=
  nonEmpty fun history => historyFirst (node · = home) name pattern history

/-- `history_local_newest/4`. -/
def historyLocalNewestExclude (exclude : Pid) (name pattern : Name) : List Pid → Picked Name Pid :=
  nonEmpty fun history =>
    historyFirst (fun pid => pid ≠ exclude ∧ node pid = home) name pattern history

def historyRemoteNewest : List Pid → Picked Name Pid :=
  nonEmpty fun history => historyFirst (node · ≠ home) name pattern history

/-- `history_remote_newest/4`. -/
def historyRemoteNewestExclude (exclude : Pid) (name pattern : Name) : List Pid → Picked Name Pid :=
  nonEmpty fun history =>
    historyFirst (fun pid => pid ≠ exclude ∧ node pid ≠ home) name pattern history

end

/-! ## get_pid -/

/-- The functions `get_*_pid`: the group of the name, and a pid of it unless it has none. -/
def getPid (noPids : CpgData Pid → Prop) [DecidablePred noPids]
    (select : Name → CpgData Pid → Picked Name Pid) (name : Name) (groups : Storage Pid Name) :
    Picked Name Pid :=
  (groupFind name groups).bind fun
    | none => .ok (.error (.noSuchGroup name))
    | some (pattern, data) =>
        if noPids data then .ok (.error (.noProcess name)) else select pattern data

def getClosestPid (draw : Nat) : Name → Storage Pid Name → Picked Name Pid :=
  getPid (·.history = []) fun pattern data =>
    if data.localCount = 0 then pick draw data.remoteCount data.remotePids pattern
    else pick draw data.localCount data.localPids pattern

/-- `get_closest_pid/3`. -/
def getClosestPidExclude (draw draw2 : Nat) (name : Name) (exclude : Pid) :
    Storage Pid Name → Picked Name Pid :=
  getPid (·.history = []) (fun pattern data =>
    if data.localCount = 0 then
      pickExclude draw data.remoteCount data.remotePids exclude name pattern
    else
      pickEither draw draw2 data.localCount data.localPids data.remoteCount data.remotePids
        exclude name pattern) name

def getFurthestPid (draw : Nat) : Name → Storage Pid Name → Picked Name Pid :=
  getPid (·.history = []) fun pattern data =>
    if data.remoteCount = 0 then pick draw data.localCount data.localPids pattern
    else pick draw data.remoteCount data.remotePids pattern

/-- `get_furthest_pid/3`. -/
def getFurthestPidExclude (draw draw2 : Nat) (name : Name) (exclude : Pid) :
    Storage Pid Name → Picked Name Pid :=
  getPid (·.history = []) (fun pattern data =>
    if data.remoteCount = 0 then
      pickExclude draw data.localCount data.localPids exclude name pattern
    else
      pickEither draw draw2 data.remoteCount data.remotePids data.localCount data.localPids
        exclude name pattern) name

def getRandomPid (draw : Nat) : Name → Storage Pid Name → Picked Name Pid :=
  getPid (·.history = []) fun pattern data =>
    pick draw (data.localCount + data.remoteCount) (data.localPids ++ data.remotePids) pattern

/-- `get_random_pid/3`. -/
def getRandomPidExclude (draw : Nat) (name : Name) (exclude : Pid) :
    Storage Pid Name → Picked Name Pid :=
  getPid (·.history = []) (fun pattern data =>
    pickExclude draw (data.localCount + data.remoteCount) (data.localPids ++ data.remotePids)
      exclude name pattern) name

def getLocalPid (draw : Nat) : Name → Storage Pid Name → Picked Name Pid :=
  getPid (·.localCount = 0) fun pattern data => pick draw data.localCount data.localPids pattern

/-- `get_local_pid/3`. -/
def getLocalPidExclude (draw : Nat) (name : Name) (exclude : Pid) :
    Storage Pid Name → Picked Name Pid :=
  getPid (·.localCount = 0) (fun pattern data =>
    pickExclude draw data.localCount data.localPids exclude name pattern) name

def getRemotePid (draw : Nat) : Name → Storage Pid Name → Picked Name Pid :=
  getPid (·.remoteCount = 0) fun pattern data =>
    pick draw data.remoteCount data.remotePids pattern

/-- `get_remote_pid/3`. -/
def getRemotePidExclude (draw : Nat) (name : Name) (exclude : Pid) :
    Storage Pid Name → Picked Name Pid :=
  getPid (·.remoteCount = 0) (fun pattern data =>
    pickExclude draw data.remoteCount data.remotePids exclude name pattern) name

def getOldestPid : Name → Storage Pid Name → Picked Name Pid :=
  getPid (·.history = []) fun pattern data => historyOldest pattern data.history

/-- `get_oldest_pid/3`. -/
def getOldestPidExclude (name : Name) (exclude : Pid) : Storage Pid Name → Picked Name Pid :=
  getPid (·.history = [])
    (fun pattern data => historyOldestExclude exclude name pattern data.history) name

def getNewestPid : Name → Storage Pid Name → Picked Name Pid :=
  getPid (·.history = []) fun pattern data => historyNewest pattern data.history

/-- `get_newest_pid/3`. -/
def getNewestPidExclude (name : Name) (exclude : Pid) : Storage Pid Name → Picked Name Pid :=
  getPid (·.history = [])
    (fun pattern data => historyNewestExclude exclude name pattern data.history) name

section
variable (node : Pid → Node) (home : Node) (name : Name)

def getLocalOldestPid : Storage Pid Name → Picked Name Pid :=
  getPid (·.localCount = 0)
    (fun pattern data => historyLocalOldest node home name pattern data.history) name

/-- `get_local_oldest_pid/3`. -/
def getLocalOldestPidExclude (exclude : Pid) : Storage Pid Name → Picked Name Pid :=
  getPid (·.localCount = 0) (fun pattern data =>
    historyLocalOldestExclude node home exclude name pattern data.history) name

def getRemoteOldestPid : Storage Pid Name → Picked Name Pid :=
  getPid (·.remoteCount = 0)
    (fun pattern data => historyRemoteOldest node home name pattern data.history) name

/-- `get_remote_oldest_pid/3`. -/
def getRemoteOldestPidExclude (exclude : Pid) : Storage Pid Name → Picked Name Pid :=
  getPid (·.remoteCount = 0) (fun pattern data =>
    historyRemoteOldestExclude node home exclude name pattern data.history) name

def getLocalNewestPid : Storage Pid Name → Picked Name Pid :=
  getPid (·.localCount = 0)
    (fun pattern data => historyLocalNewest node home name pattern data.history) name

/-- `get_local_newest_pid/3`. -/
def getLocalNewestPidExclude (exclude : Pid) : Storage Pid Name → Picked Name Pid :=
  getPid (·.localCount = 0) (fun pattern data =>
    historyLocalNewestExclude node home exclude name pattern data.history) name

def getRemoteNewestPid : Storage Pid Name → Picked Name Pid :=
  getPid (·.remoteCount = 0)
    (fun pattern data => historyRemoteNewest node home name pattern data.history) name

/-- `get_remote_newest_pid/3`. -/
def getRemoteNewestPidExclude (exclude : Pid) : Storage Pid Name → Picked Name Pid :=
  getPid (·.remoteCount = 0) (fun pattern data =>
    historyRemoteNewestExclude node home exclude name pattern data.history) name

end

end CloudI.Cpg
