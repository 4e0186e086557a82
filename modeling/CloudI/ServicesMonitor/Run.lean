import CloudI.Library.Run
import CloudI.ServicesMonitor.Stored

/-!
# ServicesMonitor.Run

Runs of the services monitor among the processes that it started.  A process dies at any
time and for any reason; its `DOWN` message is handled once, on its own or while the
monitor waits for it in `terminate_service_wait`.  The messages of the monitor to itself,
`restarts` and `timers`, come at any time and in any order.
-/

namespace CloudI.ServicesMonitor

variable {σ Pid α : Type} [LinearOrder σ] [LinearOrder Pid]

/-- Where a process is in its life, as far as the monitor can know: `down` has its `DOWN`
message on the way, and the message of one that is `gone` was received. -/
inductive Status where
  | unknown
  | alive
  | down (reason : DownReason)
  | gone
  deriving DecidableEq

/-- The process was started and its `DOWN` message was not received yet. -/
def Status.Unhandled : Status → Prop
  | .alive | .down _ => True
  | .unknown | .gone => False

/-- The monitor, the processes, and the messages that the monitor sent to itself; `removed`
records the services that were terminated for good. -/
structure World (σ Pid α : Type) [LinearOrder σ] [LinearOrder Pid] where
  state : State σ Pid α := {}
  status : Pid → Status := fun _ => .unknown
  restarts : List (Restarting σ Pid α) := []
  timers : List σ := []
  removed : List σ := []

/-- What happens: the monitor handles a message, or a process dies. -/
inductive Event (σ Pid α : Type) where
  | message (message : Message σ Pid α)
  | dies (pid : Pid) (reason : DownReason)

/-! ## effects -/

/-- The service that a process is started for. -/
def Effect.start? : Effect σ Pid α → Option σ
  | .start sid => some sid
  | _ => none

/-- The process that is monitored. -/
def Effect.monitor? : Effect σ Pid α → Option Pid
  | .monitor pid => some pid
  | _ => none

/-- The process whose `DOWN` message is received. -/
def Effect.receiveDown? : Effect σ Pid α → Option Pid
  | .receiveDown pid => some pid
  | _ => none

/-- The message of a restart. -/
def Effect.restart? : Effect σ Pid α → Option (Restarting σ Pid α)
  | .restart _ message => some message
  | _ => none

/-- The timer of the changes of a service. -/
def Effect.changes? : Effect σ Pid α → Option σ
  | .changes _ sid => some sid
  | _ => none

/-- The service that is terminated. -/
def Effect.terminated? : Effect σ Pid α → Option σ
  | .terminated sid _ => some sid
  | _ => none

variable (effects : List (Effect σ Pid α))

/-- The services that processes are started for. -/
def starts : List σ :=
  effects.filterMap Effect.start?

/-- The processes that are monitored. -/
def monitored : List Pid :=
  effects.filterMap Effect.monitor?

/-- The processes whose `DOWN` messages are received. -/
def received : List Pid :=
  effects.filterMap Effect.receiveDown?

/-- The messages of restarts. -/
def restartsSent : List (Restarting σ Pid α) :=
  effects.filterMap Effect.restart?

/-- The timers of changes. -/
def timersStarted : List σ :=
  effects.filterMap Effect.changes?

/-- The services that are terminated. -/
def terminated : List σ :=
  effects.filterMap Effect.terminated?

/-! ## steps -/

/-- The processes that a message brings, when they are started. -/
def Message.pids : Message σ Pid α → List Pid
  | .monitor _ _ started | .down _ _ _ started | .restart _ _ started => started.getD []
  | .changes _ starts => starts.flatMap fun started => started.getD []
  | _ => []

/-- The process of a `DOWN` message. -/
def Message.downPid? : Message σ Pid α → Option Pid
  | .down pid _ _ _ => some pid
  | _ => none

/-- The `DOWN` message of the process was received before. -/
def World.isGone (w : World σ Pid α) (pid : Pid) : Bool := w.status pid = .gone

variable [DecidableEq α]

/-- The messages of restarts that are left when a message is handled. -/
def restartsLeft (w : World σ Pid α) :
    Message σ Pid α → List (Restarting σ Pid α)
  | .restart message _ _ => w.restarts.erase message
  | _ => w.restarts

/-- The timers that are left when a message is handled. -/
def timersLeft (w : World σ Pid α) : Message σ Pid α → List σ
  | .changes sid _ => w.timers.erase sid
  | _ => w.timers

/-- What the processes are after a message was handled. -/
def statusAfter (status : Pid → Status) (downPid : Option Pid)
    (effects : List (Effect σ Pid α)) (pid : Pid) : Status :=
  if pid ∈ monitored effects then .alive
  else if pid ∈ received effects ∨ downPid = some pid then .gone
  else status pid

/-- The world after a message was handled. -/
def World.after (w : World σ Pid α) (m : Message σ Pid α) (r : Result σ Pid α (State σ Pid α)) :
    World σ Pid α where
  state := r.1
  status := statusAfter w.status m.downPid? r.2
  restarts := restartsLeft w m ++ restartsSent r.2
  timers := timersLeft w m ++ timersStarted r.2
  removed := terminated r.2 ++ w.removed

/-- A step of a run. -/
def next (w : World σ Pid α) :
    Event σ Pid α → Option (World σ Pid α)
  | .message m => ((handle w.isGone w.state m).toOption).map (w.after m)
  | .dies pid reason => some { w with status := Function.update w.status pid (.down reason) }

/-- A message that can come: a `DOWN` message of a process that died, a message that the
monitor sent to itself, or a change as `count_process_dynamic_reinit` asks for it. -/
def Sent (w : World σ Pid α) : Message σ Pid α → Prop
  | .change _ _ entry => entry.Asked
  | .changes sid _ => sid ∈ w.timers
  | .down pid reason _ _ => w.status pid = .down reason
  | .restart message _ _ => message ∈ w.restarts
  | _ => True

/-- An event that can happen.  The processes that are started are new. -/
def Enabled (w : World σ Pid α) : Event σ Pid α → Prop
  | .message m => Sent w m ∧ m.pids.Nodup ∧ ∀ pid ∈ m.pids, w.status pid = .unknown
  | .dies pid _ => w.status pid = .alive

instance (w : World σ Pid α) (m : Message σ Pid α) : Decidable (Sent w m) :=
  match m with
  | .change _ _ entry => inferInstanceAs (Decidable entry.Asked)
  | .changes sid _ => inferInstanceAs (Decidable (sid ∈ w.timers))
  | .down pid reason _ _ => inferInstanceAs (Decidable (w.status pid = .down reason))
  | .restart message _ _ => inferInstanceAs (Decidable (message ∈ w.restarts))
  | .monitor _ _ _ | .shutdown _ | .update _ _ | .terminateBegin _ _ => .isTrue trivial

instance (w : World σ Pid α) (e : Event σ Pid α) : Decidable (Enabled w e) :=
  match e with
  | .message m => inferInstanceAs
      (Decidable (Sent w m ∧ m.pids.Nodup ∧ ∀ pid ∈ m.pids, w.status pid = .unknown))
  | .dies pid _ => inferInstanceAs (Decidable (w.status pid = .alive))

end CloudI.ServicesMonitor
