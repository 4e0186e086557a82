import Mathlib.Algebra.Group.Nat.Defs

/-!
# ServicesMonitor.Restart

The record of a service in `cloudi_core_i_services_monitor`, and what a restart comes
to: a delay, an attempt to start the processes again, or the failure of the service.
The functions of the source also store the new record; here they say what is to be
stored (`Restarted`), and `CloudI.ServicesMonitor.Basic` does it.

The times are seconds of the monotonic clock, which can be negative.  A function that
reads the clock takes the reading.  `none` is an Erlang exception.
-/

namespace CloudI.ServicesMonitor

def timeoutMaxErlang : Nat := 4294967295

/-- `#restart_delay{}`, with the times that the method uses. -/
inductive RestartDelay where
  | exponential (timeMin timeMax : Nat)
  | linear (timeMin timeMax timeSlope : Nat)
  | absolute (timeValue : Nat)
  deriving DecidableEq

/-- `#service{}`.  `arguments` stands for the module, the function and the arguments that
start the processes.  The times that only the status of a service shows are left out. -/
structure Service (Pid α : Type) where
  arguments : α
  processIndex : Nat
  countProcess : Int
  countThread : Nat
  countThread_pos : 0 < countThread
  pids : List Pid
  timeTerminate : Option Int := none
  restartCountTotal : Nat := 0
  restartCount : Nat := 0
  restartTimes : List Int := []
  restartDelay : Option RestartDelay
  maxR : Nat
  maxT : Nat
  deriving DecidableEq

variable {Pid α : Type}

/-! ## the times of the restarts -/

/-- The loop of `cloudi_timestamp:seconds_filter_monotonic/3`. -/
def secondsFilterMonotonicLoop (secondsNow : Int) (maxPeriod : Nat) :
    List Int → List Int → Nat → Nat × List Int
  | [], output, count => (count, output)
  | seconds :: l, output, count =>
      if secondsNow - seconds > maxPeriod then
        secondsFilterMonotonicLoop secondsNow maxPeriod l output count
      else secondsFilterMonotonicLoop secondsNow maxPeriod l (seconds :: output) (count + 1)

/-- `cloudi_timestamp:seconds_filter_monotonic/3`. -/
def secondsFilterMonotonic (l : List Int) (secondsNow : Int) (maxPeriod : Nat) : Nat × List Int :=
  secondsFilterMonotonicLoop secondsNow maxPeriod l [] 0

def restartDelayValueNow (restartCount : Nat) : RestartDelay → Nat
  | .exponential timeMin timeMax =>
      let timeValue := 2 ^ restartCount * timeMin
      if timeValue > timeMax then timeMax else timeValue
  | .linear timeMin timeMax timeSlope =>
      let timeValue := timeSlope * restartCount + timeMin
      if timeValue > timeMax then timeMax else timeValue
  | .absolute timeValue => timeValue

/-- `restart_delay_value/3`; `none` is `false`. -/
def restartDelayValue (restartTimes : List Int) (maxT : Nat) (secondsNow : Int) :
    Option RestartDelay → Option (Nat × List Int × Nat)
  | none => none
  | some state =>
      let (restartCount, restartTimesNew) := secondsFilterMonotonic restartTimes secondsNow maxT
      some (restartCount, restartTimesNew, restartDelayValueNow restartCount state)

/-! ## the stages of a restart -/

/-- The clock while a restart is handled: in `restart_delay_value`, in the last-restart clause
of `restart_stage3`, and when the processes are started. -/
structure Readings where
  delay : Int
  filter : Int
  start : Int

/-- What a restart comes to.  In `started` and `again` the processes were started, with and
without success. -/
inductive Restarted (Pid α : Type) where
  | failed (service : Service Pid α)
  | delayed (delay : Nat) (service : Service Pid α)
  | started (service : Service Pid α)
  | again (service : Service Pid α)

/-- What the start of the processes comes to: `{ok, Pid}` or `{ok, Pids}`, or an error. -/
abbrev Started (Pid : Type) := Option (List Pid)

/-- The record after an attempt. -/
def Service.attempt (restartCount : Nat) (restartTimes : List Int) (started : Started Pid)
    (service : Service Pid α) : Restarted Pid α :=
  let serviceNew := { service with
                      restartCountTotal := service.restartCountTotal + 1
                      restartCount
                      restartTimes }
  match started with
  | some pids => .started { serviceNew with pids }
  | none => .again serviceNew

/-- The clauses of `restart_stage3` that start the processes: the first restart, and the
typical restart scenario, which looks for the least of the times. -/
def restartStart (readings : Readings) (started : Started Pid)
    (service : Service Pid α) : Option (Restarted Pid α) :=
  if service.restartCount = 0 ∧ service.restartTimes = [] then
    some (service.attempt 1 [readings.start] started)
  else if service.restartTimes = [] then none
  else
    some (service.attempt (service.restartCount + 1) (readings.start :: service.restartTimes)
      started)

/-- `restart_stage3/6`.  Below `maxR`, the call of itself does not come to the last-restart
clause again. -/
def restartStage3 (readings : Readings) (started : Started Pid)
    (service : Service Pid α) : Option (Restarted Pid α) :=
  if service.restartCount = 0 ∧ service.restartTimes = [] then
    restartStart readings started service
  else if service.maxR = service.restartCount then
    let (restartCount, restartTimes) :=
      secondsFilterMonotonic service.restartTimes readings.filter service.maxT
    if restartCount < service.restartCount then
      restartStart readings started { service with restartCount, restartTimes }
    else some (.failed service)
  else restartStart readings started service

def restartStage2 (readings : Readings) (started : Started Pid)
    (service : Service Pid α) : Option (Restarted Pid α) :=
  if service.restartCount = 0 ∧ service.maxR = 0 then some (.failed service)
  else
    match restartDelayValue service.restartTimes service.maxT readings.delay
        service.restartDelay with
    | none => restartStage3 readings started service
    | some (restartCount, restartTimes, delay) =>
        let serviceNew := { service with restartCount, restartTimes }
        if delay = 0 then restartStage3 readings started serviceNew
        else if delay ≤ timeoutMaxErlang then some (.delayed delay serviceNew)
        else none

end CloudI.ServicesMonitor
