import CloudI.Key2value.Basic
import CloudI.ServicesMonitor.CountProcess
import CloudI.ServicesMonitor.Restart

/-!
# ServicesMonitor.Basic

`cloudi_core_i_services_monitor`: the process that starts the processes of the services,
monitors them and starts them again.  `services` has the record of every process and the
processes of every service; `changes` collects what the processes of a service ask for
until a timer ends.

A handler takes what its surroundings answer (the clock, the results of the starts, which
`DOWN` messages were received before) and gives the new state and what it did.  The
durations for the status, the log and the enforcement of the termination times are left
out.
-/

namespace CloudI.ServicesMonitor

variable {σ Pid α : Type} [LinearOrder σ] [LinearOrder Pid]

/-- `services` in `#state{}`. -/
abbrev Services (σ Pid α : Type) [LinearOrder σ] [LinearOrder Pid] :=
  Key2value σ Pid (Service Pid α)

/-- `#pids_change_input{}`. -/
structure PidsChangeInput where
  terminated : Bool := false
  period : Nat
  changes : List Change

/-- `#state{}`. -/
structure State (σ Pid α : Type) [LinearOrder σ] [LinearOrder Pid] where
  services : Services σ Pid α := {}
  changes : ErlMap σ PidsChangeInput := ∅

/-- The stages of a restart that come as messages. -/
inductive RestartStage where
  | stage2
  | stage3
  deriving DecidableEq

/-- `#restart_stage2{}` and `#restart_stage3{}`. -/
structure Restarting (σ Pid α : Type) where
  stage : RestartStage
  pid : Pid
  serviceId : σ
  service : Service Pid α
  deriving DecidableEq

/-- What the services monitor does besides changing its state. -/
inductive Effect (σ Pid α : Type) where
  | start (serviceId : σ)
  | monitor (pid : Pid)
  | exit (pid : Pid)
  | receiveDown (pid : Pid)
  | restart (delay : Nat) (message : Restarting σ Pid α)
  | changes (period : Nat) (serviceId : σ)
  | terminated (serviceId : σ) (configurationRemove : Bool)
  | processUpdate (pid : Pid) (countProcess : Int)
  | processTerminate (pid : Pid)

/-- A changed value, and what was done. -/
abbrev Result (σ Pid α β : Type) := β × List (Effect σ Pid α)

/-! ## the processes of a service -/

/-- The processes of a record are stored, each with the record. -/
def storePids (serviceId : σ) (service : Service Pid α) (pids : List Pid)
    (services : Services σ Pid α) : Services σ Pid α :=
  pids.foldl (fun d p => Key2value.store serviceId p service d) services

/-- `find2` of a process, where the code takes a process of one service. -/
def findPid (pid : Pid) (services : Services σ Pid α) :
    Except Failure (Option (σ × Service Pid α)) :=
  match Key2value.find2 pid services with
  | none => .ok none
  | some ([serviceId], service) => .ok (some (serviceId, service))
  | some _ => .error .exception

/-- `fetch1` of a service. -/
def fetchService (serviceId : σ) (services : Services σ Pid α) :
    Except Failure (List Pid × Service Pid α) :=
  match Key2value.find1 serviceId services with
  | some x => .ok x
  | none => .error .badkey

/-- `new_service_process`, with the fields that the caller takes from `service`. -/
def newServiceProcess (service : Service Pid α) (processIndex : Nat) (pids : List Pid) :
    Service Pid α :=
  { service with
    processIndex
    pids
    timeTerminate := none
    restartCount := 0
    restartTimes := [] }

/-! ## termination -/

def terminateServicePids (serviceId : σ) (oldPid : Option Pid) :
    List Pid → Services σ Pid α →
      Services σ Pid α × List (Effect σ Pid α)
  | [], services => (services, [])
  | pid :: pids, services =>
      let (servicesNew, effects) :=
        terminateServicePids serviceId oldPid pids (Key2value.erase serviceId pid services)
      (servicesNew, if oldPid = some pid then effects else .exit pid :: effects)

/-- `terminate_service_wait/2`: the `DOWN` messages of the processes are received.  One that
was received before does not come again. -/
def terminateServiceWait (oldPid : Option Pid) (gone : List Pid) (isGone : Pid → Bool) :
    List Pid → Except Failure (Result σ Pid α Unit)
  | [] => .ok ((), [])
  | pid :: pids =>
      if oldPid = some pid then terminateServiceWait oldPid gone isGone pids
      else if isGone pid ∨ pid ∈ gone then .error .wait
      else
        (terminateServiceWait oldPid (pid :: gone) isGone pids).map fun (_, effects) =>
          ((), .receiveDown pid :: effects)

variable (isGone : Pid → Bool)

def terminateService (pids : List Pid) (serviceId : σ)
    (oldPid : Option Pid) (block : Bool) (services : Services σ Pid α) :
    Except Failure (Result σ Pid α (Services σ Pid α)) :=
  let (servicesNew, exits) := terminateServicePids serviceId oldPid pids services
  if block then
    (terminateServiceWait oldPid [] isGone pids).map fun (_, effects) =>
      (servicesNew, exits ++ effects)
  else .ok (servicesNew, exits)

/-- `terminated_service/3`: "the service is completely terminated and will not restart". -/
def terminatedService (serviceId : σ) (configurationRemove : Bool) (s : State σ Pid α) :
    State σ Pid α × List (Effect σ Pid α) :=
  let changes :=
    match Maps.find serviceId s.changes with
    | some change => Maps.put serviceId { change with terminated := true } s.changes
    | none => s.changes
  ({ s with changes }, [.terminated serviceId configurationRemove])

/-- All processes of a service are terminated, and the service with them. -/
def terminateAll (pids : List Pid) (serviceId : σ)
    (oldPid : Option Pid) (block configurationRemove : Bool) (s : State σ Pid α) :
    Except Failure (Result σ Pid α (State σ Pid α)) := do
  let (services, effects) ← terminateService isGone pids serviceId oldPid block s.services
  let (s', effects') := terminatedService serviceId configurationRemove { s with services }
  return (s', effects ++ effects')

/-! ## restarts -/

def restartFailed (serviceId : σ) (s : State σ Pid α) :
    Except Failure (Result σ Pid α (State σ Pid α)) :=
  match Key2value.find1 serviceId s.services with
  | some (pids, _) => terminateAll isGone pids serviceId none false true s
  | none => .ok (terminatedService serviceId true s)

/-- What a stage does with what the restart comes to. -/
def restartResult (serviceId : σ) (oldPid : Pid) (s : State σ Pid α) :
    Option (Restarted Pid α) →
      Except Failure (Result σ Pid α (State σ Pid α))
  | none => .error .exception
  | some (.failed _) => restartFailed isGone serviceId s
  | some (.delayed delay service) =>
      .ok (s, [.restart delay { stage := .stage3, pid := oldPid, serviceId, service }])
  | some (.started service) =>
      .ok ({ s with services := storePids serviceId service service.pids s.services },
        .start serviceId :: service.pids.map .monitor)
  | some (.again service) =>
      .ok (s, [.start serviceId,
        .restart 0 { stage := .stage2, pid := oldPid, serviceId, service }])

/-- `restart/5` and `restart_stage1/6`, up to the next stage. -/
def restartStage1 (readings : Readings) (started : Started Pid)
    (service : Service Pid α) (serviceId : σ) (oldPid : Pid) (s : State σ Pid α) :
    Except Failure (Result σ Pid α (State σ Pid α)) := do
  let (services, effects) ←
    terminateService isGone service.pids serviceId (some oldPid) true s.services
  let serviceNew := { service with pids := [], timeTerminate := none }
  let (s', effects') ← restartResult isGone serviceId oldPid { s with services }
    (restartStage2 readings started serviceNew)
  return (s', effects ++ effects')

/-! ## changes of the process count -/

/-- `lists:keymerge/3` by the process index, of a sorted list and one record. -/
def keymerge (service : Service Pid α) :
    List (Service Pid α) → List (Service Pid α)
  | [] => [service]
  | x :: results =>
      if x.processIndex ≤ service.processIndex then x :: keymerge service results
      else service :: x :: results

/-- `service_instance/4`: the records of the processes, one for each instance and in the order
of their indexes.  The number bounds the calls. -/
def serviceInstanceLoop (serviceId : σ) (services : Services σ Pid α) :
    Nat → List Pid → List (Service Pid α) →
      Except Failure (List (Service Pid α))
  | _, [], results => .ok results
  | 0, _ :: _, _ => .error .exception
  | n + 1, pid :: pids, results =>
      match Key2value.find2 pid services with
      | some ([id], service) =>
          if id = serviceId then
            serviceInstanceLoop serviceId services n
              (if service.pids = [pid] then pids else pids.diff service.pids)
              (keymerge service results)
          else .error .exception
      | _ => .error .exception

def serviceInstance (pids : List Pid) (serviceId : σ) (services : Services σ Pid α) :
    Except Failure (List (Service Pid α)) :=
  serviceInstanceLoop serviceId services pids.length pids []

/-- `pids_change_update/4`: the records with the new count, each stored with the processes it
lists, and in the reverse order. -/
def pidsChangeUpdate (countProcess : Int) (serviceId : σ)
    (serviceL : List (Service Pid α)) (services : Services σ Pid α) :
    List (Service Pid α) × Services σ Pid α ×
      List (Effect σ Pid α) :=
  serviceL.foldl (fun (output, services, effects) service =>
    let serviceNew := { service with countProcess }
    (serviceNew :: output, storePids serviceId serviceNew service.pids services,
      effects ++ service.pids.map fun p => .processUpdate p countProcess)) ([], services, [])

def pidsChangeIncreaseLoop (service : Service Pid α) (serviceId : σ) :
    Nat → Nat → List (Started Pid) → Services σ Pid α →
      Services σ Pid α × List (Effect σ Pid α)
  | 0, _, _, services => (services, [])
  | count + 1, processIndex, starts, services =>
      let pids := (starts.headD none).getD []
      let servicesNext :=
        storePids serviceId (newServiceProcess service processIndex pids) pids services
      let (servicesNew, effects) :=
        pidsChangeIncreaseLoop service serviceId count (processIndex + 1) starts.tail servicesNext
      (servicesNew, .start serviceId :: (pids.map .monitor ++ effects))

/-- `pids_change_decrease_loop/2`, of the instances in the reverse order of their indexes. -/
def pidsChangeDecreaseLoop : Nat → List (Service Pid α) →
    Except Failure (List (Service Pid α) × List (Effect σ Pid α))
  | 0, serviceL => .ok (serviceL, [])
  | _ + 1, [] => .error .exception
  | count + 1, service :: serviceL =>
      (pidsChangeDecreaseLoop count serviceL).map fun (serviceL', effects) =>
        (serviceL', service.pids.map .processTerminate ++ effects)

def pidsChangeIncrease (count : Nat) (starts : List (Started Pid)) (oldPids : List Pid)
    (countProcessCurrent : Int) (serviceId : σ) (services : Services σ Pid α) :
    Except Failure (Result σ Pid α (Services σ Pid α)) := do
  let serviceL ← serviceInstance oldPids serviceId services
  let (serviceLNew, servicesNew, updates) :=
    pidsChangeUpdate (countProcessCurrent + count) serviceId serviceL services
  match serviceLNew with
  | [] => .error .exception
  | service :: _ =>
      let (servicesN, effects) := pidsChangeIncreaseLoop service serviceId count
        (service.processIndex + 1) starts servicesNew
      return (servicesN, updates ++ effects)

/-- `pids_change_decrease/6`, with the count as the number of instances to terminate. -/
def pidsChangeDecrease (count : Nat) (oldPids : List Pid) (countProcessCurrent : Int)
    (serviceId : σ) (services : Services σ Pid α) :
    Except Failure (Result σ Pid α (Services σ Pid α)) := do
  let serviceL ← serviceInstance oldPids serviceId services
  let (serviceLNew, terminates) ← pidsChangeDecreaseLoop count serviceL.reverse
  let (_, servicesNew, updates) :=
    pidsChangeUpdate (countProcessCurrent - count) serviceId serviceLNew services
  return (servicesNew, terminates ++ updates)

def pidsChangeNow (serviceId : σ) (changeList : List Change) (starts : List (Started Pid))
    (s : State σ Pid α) :
    Except Failure (Result σ Pid α (State σ Pid α)) := do
  let (pids, service) ← fetchService serviceId s.services
  let countProcessCurrent := erlangRound (pids.length / service.countThread)
  let (i, _) ← pidsChange changeList countProcessCurrent
  let (services, effects) ← (
    if i = 0 then .ok (s.services, [])
    else if i > 0 then
      pidsChangeIncrease i.toNat starts pids countProcessCurrent serviceId s.services
    else pidsChangeDecrease (-i).toNat pids countProcessCurrent serviceId s.services)
  return ({ s with services }, effects)

def pidsChangeCheck (serviceId : σ) (starts : List (Started Pid)) (s : State σ Pid α) :
    Except Failure (Result σ Pid α (State σ Pid α)) :=
  match Maps.find serviceId s.changes with
  | some change =>
      if change.terminated then
        if change.changes = [] then
          .ok ({ s with changes := Maps.remove serviceId s.changes }, [])
        else
          .ok ({ s with changes := Maps.put serviceId { change with changes := [] } s.changes },
            [.changes change.period serviceId])
      else
        pidsChangeNow serviceId change.changes starts
          { s with changes := Maps.remove serviceId s.changes }
  | none => .ok (s, [])

/-! ## messages -/

/-- The reasons of a `DOWN` message that the code tells apart. -/
inductive DownReason where
  | shutdown
  | countProcessDynamicTerminate
  | shutdownReason
  | error
  deriving DecidableEq

/-- What the services monitor handles.  The calls that do not change its state are left out;
`update` is the success of an update, which changes the arguments of the services. -/
inductive Message (σ Pid α : Type) where
  | monitor (serviceId : σ) (service : Service Pid α) (started : Started Pid)
  | shutdown (serviceId : σ)
  | update (serviceIds : List σ) (argumentsNew : α → α)
  | change (pid : Pid) (period : Nat) (entry : Change)
  | terminateBegin (pid : Pid) (timeTerminate : Int)
  | changes (serviceId : σ) (starts : List (Started Pid))
  | down (pid : Pid) (reason : DownReason) (readings : Readings) (started : Started Pid)
  | restart (message : Restarting σ Pid α) (readings : Readings)
      (started : Started Pid)

/-- `handle_call` of `monitor`. -/
def handleMonitor (serviceId : σ) (service : Service Pid α)
    (started : Started Pid) (s : State σ Pid α) : State σ Pid α × List (Effect σ Pid α) :=
  match started with
  | some pids =>
      let serviceNew :=
        newServiceProcess { service with restartCountTotal := 0 } service.processIndex pids
      ({ s with services := storePids serviceId serviceNew pids s.services },
        .start serviceId :: pids.map .monitor)
  | none => (s, [.start serviceId])

/-- `handle_call` of `shutdown`; without the service, `not_found` is the reply. -/
def handleShutdown (serviceId : σ) (s : State σ Pid α) :
    Except Failure (Result σ Pid α (State σ Pid α)) :=
  match Key2value.find1 serviceId s.services with
  | some (pids, _) => terminateAll isGone pids serviceId none true false s
  | none => .ok (s, [])

/-- `update_service/4`, as far as it changes the services. -/
def updateService (serviceIds : List σ) (argumentsNew : α → α) (services : Services σ Pid α) :
    Except Failure (Services σ Pid α) :=
  serviceIds.foldlM (fun services serviceId =>
    match Key2value.update1 serviceId
        (fun service => { service with arguments := argumentsNew service.arguments }) services with
    | some services => .ok services
    | none => .error .exception) services

/-- `handle_cast` of `increase` and `decrease`. -/
def handleChange (pid : Pid) (period : Nat) (entry : Change) (s : State σ Pid α) :
    Except Failure (Result σ Pid α (State σ Pid α)) := do
  match ← findPid pid s.services with
  | none => return (s, [])
  | some (serviceId, _) =>
      match Maps.find serviceId s.changes with
      | some change =>
          let changeNew := { change with changes := entry :: change.changes }
          return ({ s with changes := Maps.put serviceId changeNew s.changes }, [])
      | none =>
          let changeNew : PidsChangeInput := { period, changes := [entry] }
          return ({ s with changes := Maps.put serviceId changeNew s.changes },
            [.changes period serviceId])

/-- `handle_cast` of `#cloudi_service_terminate_begin{}`. -/
def handleTerminateBegin (pid : Pid) (timeTerminate : Int) (s : State σ Pid α) :
    Except Failure (Result σ Pid α (State σ Pid α)) := do
  match ← findPid pid s.services with
  | none => return (s, [])
  | some (serviceId, service) =>
      let serviceNew := { service with timeTerminate := some timeTerminate }
      return ({ s with services := Key2value.store serviceId pid serviceNew s.services }, [])

/-- `handle_info` of a `DOWN` message. -/
def handleDown (pid : Pid) (reason : DownReason) (readings : Readings)
    (started : Started Pid) (s : State σ Pid α) :
    Except Failure (Result σ Pid α (State σ Pid α)) := do
  match ← findPid pid s.services with
  | none => return (s, [])
  | some (serviceId, service) =>
      match reason with
      | .shutdown | .shutdownReason =>
          let (pids, _) ← fetchService serviceId s.services
          terminateAll isGone pids serviceId (some pid) false true s
      | .countProcessDynamicTerminate =>
          return ({ s with services := Key2value.erase serviceId pid s.services }, [])
      | .error => restartStage1 isGone readings started service serviceId pid s

/-- `handle_info` of `#restart_stage2{}` and `#restart_stage3{}`. -/
def handleRestart (message : Restarting σ Pid α)
    (readings : Readings) (started : Started Pid) (s : State σ Pid α) :
    Except Failure (Result σ Pid α (State σ Pid α)) :=
  restartResult isGone message.serviceId message.pid s <|
    match message.stage with
    | .stage2 => restartStage2 readings started message.service
    | .stage3 => restartStage3 readings started message.service

/-- **A message is handled.**  `isGone` says of which processes the `DOWN` message was received
before. -/
def handle (s : State σ Pid α) :
    Message σ Pid α →
      Except Failure (Result σ Pid α (State σ Pid α))
  | .monitor serviceId service started => .ok (handleMonitor serviceId service started s)
  | .shutdown serviceId => handleShutdown isGone serviceId s
  | .update serviceIds argumentsNew =>
      (updateService serviceIds argumentsNew s.services).map fun services =>
        ({ s with services }, [])
  | .change pid period entry => handleChange pid period entry s
  | .terminateBegin pid timeTerminate => handleTerminateBegin pid timeTerminate s
  | .changes serviceId starts => pidsChangeCheck serviceId starts s
  | .down pid reason readings started => handleDown isGone pid reason readings started s
  | .restart message readings started => handleRestart isGone message readings started s

end CloudI.ServicesMonitor
