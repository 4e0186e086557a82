import CloudI.Erlang.Lists

/-!
# Cpg.Data

The members of a process group, and the functions of `cpg` on its pid lists.
All pid lists are ordered from newest (head) to oldest (tail).
-/

namespace CloudI.Cpg

open CloudI.Lists List

variable {Pid : Type} [DecidableEq Pid]

/-- The exceptions of the scope process. -/
inductive Exit where
  | fetch
  | badkey
  | badmatch
  | functionClause
  deriving DecidableEq

/-- `#cpg_data{}`.  The same pid can be duplicated for each join. -/
structure CpgData (Pid : Type) where
  localCount : Int := 0
  localPids : List Pid := []
  remoteCount : Int := 0
  remotePids : List Pid := []
  history : List Pid := []
  deriving DecidableEq

/-- The two sides of a group: the pids of the node and those of other nodes. -/
inductive Side where
  | here
  | remote
  deriving DecidableEq

/-- The pids of a side. -/
def CpgData.pids (d : CpgData Pid) : Side → List Pid
  | .here => d.localPids
  | .remote => d.remotePids

/-- The count of a side. -/
def CpgData.count (d : CpgData Pid) : Side → Int
  | .here => d.localCount
  | .remote => d.remoteCount

/-- The record with a new count, pids and history. -/
def CpgData.set (d : CpgData Pid) (side : Side) (count : Int) (pids history : List Pid) :
    CpgData Pid :=
  match side with
  | .here => { d with localCount := count, localPids := pids, history := history }
  | .remote => { d with remoteCount := count, remotePids := pids, history := history }

/-- `lists:duplicate/2`. -/
def duplicate (count : Int) (pid : Pid) : Except Exit (List Pid) :=
  if count < 0 then .error .functionClause else .ok (List.replicate count.toNat pid)

/-- `leave_group_pid/5`. -/
def leaveGroupPidLoop (pid : Pid) : Int → List Pid → Int → List Pid → Int × List Pid
  | _, [], i, output => (i, output)
  | count, p :: pids, i, output =>
      if count = 0 then (i, (p :: pids).reverse ++ output)
      else if p = pid then leaveGroupPidLoop pid (count - 1) pids (i + 1) output
      else leaveGroupPidLoop pid count pids i (p :: output)

/-- `leave_group_pid/3`: the oldest memberships leave. -/
def leaveGroupPid (count : Int) (pids : List Pid) (pid : Pid) : Int × List Pid :=
  leaveGroupPidLoop pid count pids.reverse 0 []

/-- `leave_group_pid_count/4`. -/
def leaveGroupPidCountLoop (pid : Pid) : Int → List Pid → List Pid → Except Exit (List Pid)
  | count, [], output => if count = 0 then .ok output else .error .functionClause
  | count, p :: pids, output =>
      if count = 0 then .ok ((p :: pids).reverse ++ output)
      else if p = pid then leaveGroupPidCountLoop pid (count - 1) pids output
      else leaveGroupPidCountLoop pid count pids (p :: output)

def leaveGroupPidCount (count : Int) (pids : List Pid) (pid : Pid) : Except Exit (List Pid) :=
  leaveGroupPidCountLoop pid count pids.reverse []

/-- `leave_all_pid/4`. -/
def leaveAllPidLoop (pid : Pid) : List Pid → Int → List Pid → Int × List Pid
  | [], i, output => (i, output.reverse)
  | p :: pids, i, output =>
      if p = pid then leaveAllPidLoop pid pids (i + 1) output
      else leaveAllPidLoop pid pids i (p :: output)

def leaveAllPid (pids : List Pid) (pid : Pid) : Int × List Pid := leaveAllPidLoop pid pids 0 []

def mergePidConflictAdd (pid : Pid) : Nat → List Pid → List Pid
  | 0, pids => pids
  | i + 1, pids => mergePidConflictAdd pid i (pid :: pids)

/-- `merge_pid_conflict_remove/3`; there the count is negative and goes up to 0. -/
def mergePidConflictRemove (pid : Pid) : Nat → List Pid → Except Exit (List Pid)
  | 0, pids => .ok pids
  | _ + 1, [] => .error .functionClause
  | i + 1, p :: pids =>
      if p = pid then mergePidConflictRemove pid i pids
      else (mergePidConflictRemove pid (i + 1) pids).map (p :: ·)

def count (pid : Pid) (l : List Pid) : Int := l.count pid

/-! ## what they do to the lists -/

theorem leaveGroupPidLoop_eq (pid : Pid) (n : Nat) (pids : List Pid) (i : Int)
    (output : List Pid) : leaveGroupPidLoop pid n pids i output =
      (i + min n (pids.count pid), (removeFirst pid n pids).reverse ++ output) := by
  induction pids generalizing n i output with
  | nil => cases n <;> simp [leaveGroupPidLoop, removeFirst]
  | cons p pids ih =>
    cases n with
    | zero => simp [leaveGroupPidLoop]
    | succ n =>
      have hpos : ¬ ((n + 1 : Nat) : Int) = 0 := by omega
      rw [leaveGroupPidLoop, if_neg hpos, removeFirst]
      by_cases hp : p = pid
      · subst hp
        have hdec : ((n + 1 : Nat) : Int) - 1 = (n : Int) := by omega
        rw [if_pos rfl, if_pos rfl, hdec, ih, count_cons_self]
        congr 1
        omega
      · rw [if_neg hp, if_neg hp, ih, count_cons_of_ne hp]
        simp

theorem leaveGroupPid_eq (n : Nat) (pids : List Pid) (pid : Pid) : leaveGroupPid n pids pid =
      (((min n (pids.count pid) : Nat) : Int), removeLast pid n pids) := by
  rw [leaveGroupPid, leaveGroupPidLoop_eq, count_reverse, append_nil, Int.zero_add]
  rfl

theorem leaveGroupPidCountLoop_eq (pid : Pid) (n : Nat) (pids output : List Pid)
    (h : n ≤ pids.count pid) : leaveGroupPidCountLoop pid n pids output =
      .ok ((removeFirst pid n pids).reverse ++ output) := by
  induction pids generalizing n output with
  | nil =>
    have hn : n = 0 := by simpa using h
    subst hn
    rfl
  | cons p pids ih =>
    cases n with
    | zero => simp [leaveGroupPidCountLoop]
    | succ n =>
      have hpos : ¬ ((n + 1 : Nat) : Int) = 0 := by omega
      rw [leaveGroupPidCountLoop, if_neg hpos, removeFirst]
      by_cases hp : p = pid
      · subst hp
        have hdec : ((n + 1 : Nat) : Int) - 1 = (n : Int) := by omega
        rw [count_cons_self] at h
        rw [if_pos rfl, if_pos rfl, hdec, ih n output (by omega)]
      · rw [count_cons_of_ne hp] at h
        rw [if_neg hp, if_neg hp, ih (n + 1) (p :: output) h]
        simp

theorem leaveGroupPidCount_eq {n : Nat} {pids : List Pid} (h : n ≤ pids.count pid) :
    leaveGroupPidCount n pids pid = .ok (removeLast pid n pids) := by
  have hcount : n ≤ pids.reverse.count pid := by rwa [count_reverse]
  rw [leaveGroupPidCount, leaveGroupPidCountLoop_eq pid n _ _ hcount, append_nil]
  rfl

theorem leaveAllPidLoop_eq (pid : Pid) (pids : List Pid) (i : Int) (output : List Pid) :
    leaveAllPidLoop pid pids i output =
      (i + pids.count pid, output.reverse ++ pids.filter (· ≠ pid)) := by
  induction pids generalizing i output with
  | nil => simp [leaveAllPidLoop]
  | cons p pids ih =>
    rw [leaveAllPidLoop]
    by_cases hp : p = pid
    · subst hp
      rw [if_pos rfl, ih, count_cons_self, filter_cons_of_neg (by simp)]
      congr 1
      omega
    · rw [if_neg hp, ih, count_cons_of_ne hp, filter_cons_of_pos (by simpa using hp)]
      simp

theorem leaveAllPid_eq (pids : List Pid) (pid : Pid) :
    leaveAllPid pids pid = ((pids.count pid : Int), pids.filter (· ≠ pid)) := by
  rw [leaveAllPid, leaveAllPidLoop_eq, Int.zero_add, reverse_nil, nil_append]

omit [DecidableEq Pid] in
theorem mergePidConflictAdd_eq (pid : Pid) (n : Nat) (pids : List Pid) :
    mergePidConflictAdd pid n pids = List.replicate n pid ++ pids := by
  induction n generalizing pids with
  | zero => rfl
  | succ n ih =>
    rw [mergePidConflictAdd, ih, replicate_succ', append_assoc, singleton_append]

theorem mergePidConflictRemove_eq {n : Nat} {pids : List Pid} (h : n ≤ pids.count pid) :
    mergePidConflictRemove pid n pids = .ok (removeFirst pid n pids) := by
  induction pids generalizing n with
  | nil =>
    have hn : n = 0 := by simpa using h
    subst hn
    rfl
  | cons p pids ih =>
    cases n with
    | zero => rfl
    | succ n =>
      rw [mergePidConflictRemove, removeFirst]
      by_cases hp : p = pid
      · subst hp
        rw [count_cons_self] at h
        rw [if_pos rfl, if_pos rfl, ih (by omega)]
      · rw [count_cons_of_ne hp] at h
        rw [if_neg hp, if_neg hp, ih h]
        rfl

end CloudI.Cpg
