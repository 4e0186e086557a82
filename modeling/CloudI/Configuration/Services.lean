import CloudI.ServicesMonitor.Run

/-!
# Configuration.Services

The services of the configuration: `services_add`, `services_remove` and `services_restart` of
`cloudi_core_i_configuration`, with what `cloudi_core_i_configurator` does for each service and
the services monitor that it calls (`CloudI.ServicesMonitor.Run`).

The configurator handles one call after the other.  Within a call it waits: for the services
monitor, for the initialization of the processes it started, for the removal of a module.  What
it waits for is a `Call`; in between, the services monitor and its processes go on.  What the
code server, the applications and the processes come to is answered by the surroundings.  The
log, the reloading of modules and the group leaders are left out.
-/

namespace CloudI.Configuration

open ServicesMonitor (Service Started)

variable {σ Pid α Name ρ : Type}

/-! ## the configuration -/

/-- What `#config_service_internal{}` has that `#config_service_external{}` does not: the module
(or the file it is found with), and the options about its application. -/
inductive ServiceType (Name : Type) where
  | internal (module : Name) (automaticLoading : Bool) (applicationName : Option Name)
  | external
  deriving DecidableEq

/-- `#config_service_internal{}` and `#config_service_external{}`.  `countProcess` is what
`cloudi_concurrency:count/1` makes of the count, and `process` is what the services monitor is
given for each process. -/
structure ConfigService (σ Pid α Name : Type) where
  uuid : σ
  type : ServiceType Name
  countProcess : Nat
  countProcess_pos : 0 < countProcess
  process : Service Pid α

variable (services : List (ConfigService σ Pid α Name))

/-- The service ids of a list of services. -/
def uuids : List σ :=
  services.map ConfigService.uuid

/-- The reasons of the errors. -/
inductive ErrorReason (σ ρ : Type) where
  | serviceInvalid
  | serviceNotFound (id : σ)
  | servicesValidate (reason : ρ)
  | serviceStartFind (reason : ρ)
  | serviceInternalStartFailed (reason : ρ)
  | serviceExternalStartFailed (reason : ρ)
  | serviceStopRemove (reason : ρ)
  | serviceInternalStopNotFound
  | serviceExternalStopNotFound
  | serviceInternalRestartNotFound
  | serviceExternalRestartNotFound
  deriving DecidableEq

/-- What a call returns.  Only `services_add` returns ids. -/
abbrev Reply (σ ρ : Type) := Except (ErrorReason σ ρ) (List σ)

/-! ## calls -/

/-- The arguments of `services_add_service/3`, with the ids to be returned. -/
structure Adding (σ Pid α Name : Type) where
  ids : List σ
  services : List (ConfigService σ Pid α Name)
  added : List (ConfigService σ Pid α Name)

/-- The arguments of `services_remove_all/3`; `stopped` records the services whose shutdown
succeeded in the call. -/
structure Removing (σ Pid α Name : Type) where
  removeServices : List (ConfigService σ Pid α Name)
  services : List (ConfigService σ Pid α Name)
  stopped : List σ

/-- What the configurator waits for within a call. -/
inductive Call (σ Pid α Name ρ : Type) where
  | find (service : ConfigService σ Pid α Name)
      (adding : Adding σ Pid α Name)
  | monitor (indexProcess : Nat) (pids : List Pid)
      (service : ConfigService σ Pid α Name)
      (adding : Adding σ Pid α Name)
  | initEnd (pids : List Pid) (error : Option (ErrorReason σ ρ))
      (service : ConfigService σ Pid α Name)
      (adding : Adding σ Pid α Name)
  | shutdown (service : ConfigService σ Pid α Name) (remove : Bool)
      (removing : Removing σ Pid α Name)
  | remove (service : ConfigService σ Pid α Name)
      (removing : Removing σ Pid α Name)
  | restart (service : ConfigService σ Pid α Name)
      (restartServices : List (ConfigService σ Pid α Name))

/-- How far a call gets: it waits, or it returns and leaves the services of the configuration
behind; `stopped` as in `Removing`. -/
inductive Outcome (σ Pid α Name ρ : Type) where
  | waits (call : Call σ Pid α Name ρ)
  | replies (reply : Reply σ ρ)
      (services : List (ConfigService σ Pid α Name)) (stopped : List σ)

/-! ## `services_add` -/

variable (service : ConfigService σ Pid α Name)

/-- `service_start/2`: an internal service is found first. -/
def serviceStart
    (adding : Adding σ Pid α Name) : Call σ Pid α Name ρ :=
  match service.type with
  | .internal _ _ _ => .find service adding
  | .external => .monitor 0 [] service adding

def servicesAddService
    (adding : Adding σ Pid α Name) : Outcome σ Pid α Name ρ :=
  match adding.services with
  | [] => .replies (.ok adding.ids) (services ++ adding.added.reverse) []
  | service :: servicesNext =>
      .waits (serviceStart service { adding with services := servicesNext })

/-- `services_add_service/3` after the start of a service that succeeded. -/
def serviceAdded
    (newService : ConfigService σ Pid α Name)
    (adding : Adding σ Pid α Name) : Outcome σ Pid α Name ρ :=
  servicesAddService services { adding with added := newService :: adding.added }

/-- `services_add_service/3` after the start of a service that failed. -/
def serviceNotAdded
    (reason : ErrorReason σ ρ) (adding : Adding σ Pid α Name) : Outcome σ Pid α Name ρ :=
  .replies (.error reason) (services ++ adding.added.reverse) []

variable (service : ConfigService σ Pid α Name)

/-- The result of `service_start_find_internal/2`: the module of the service is known now. -/
def serviceStartFound
    (adding : Adding σ Pid α Name) :
    Except ρ Name → Outcome σ Pid α Name ρ
  | .ok module =>
      let type :=
        match service.type with
        | .internal _ automaticLoading applicationName =>
            .internal module automaticLoading applicationName
        | .external => .external
      .waits (.monitor 0 [] { service with type } adding)
  | .error reason => serviceNotAdded services (.serviceStartFind reason) adding

/-- `service_start_internal/6` and `service_start_external/6` after a process was started: the
next one, or the wait for all of them. -/
def serviceStartProcess (indexProcess : Nat) (pids : List Pid)
    (service : ConfigService σ Pid α Name) (adding : Adding σ Pid α Name) : Call σ Pid α Name ρ :=
  if indexProcess = service.countProcess then .initEnd pids none service adding
  else .monitor indexProcess pids service adding

/-- The error of a process that was not started. -/
def startFailed (reason : ρ) : ErrorReason σ ρ :=
  match service.type with
  | .internal _ _ _ => .serviceInternalStartFailed reason
  | .external => .serviceExternalStartFailed reason

/-- `service_start_wait_pid/2`: the first error is kept. -/
def serviceStartWaitPid (error : Option (ErrorReason σ ρ)) :
    Option ρ → Option (ErrorReason σ ρ)
  | none => error
  | some info => error <|> some (.serviceInternalStartFailed info)

def serviceStartWaitPids
    (pids : List Pid) (error : Option (ErrorReason σ ρ)) (service : ConfigService σ Pid α Name)
    (adding : Adding σ Pid α Name) : Outcome σ Pid α Name ρ :=
  match pids, error with
  | [], none => serviceAdded services service adding
  | [], some reason => serviceNotAdded services reason adding
  | pid :: pids, error => .waits (.initEnd (pid :: pids) error service adding)

def servicesAdd :
    Except ρ (List (ConfigService σ Pid α Name)) →
      Outcome σ Pid α Name ρ
  | .ok validated =>
      servicesAddService services { ids := uuids validated, services := validated, added := [] }
  | .error reason => .replies (.error (.servicesValidate reason)) services []

/-! ## `services_remove` -/

/-- `services_remove_uuid/4`, up to the call of `services_remove_all`; `none` is a `case_clause`
exception.  An element that is no service id is `none` too. -/
def servicesRemoveUuid [DecidableEq σ] :
    List (Option σ) → List (ConfigService σ Pid α Name) →
      List (ConfigService σ Pid α Name) →
        Option (Except (ErrorReason σ ρ) (Removing σ Pid α Name))
  | [], removeServices, services =>
      some (.ok { removeServices := removeServices.reverse, services, stopped := [] })
  | some id :: ids, removeServices, services =>
      let (serviceList, servicesNext) := services.partition fun s => s.uuid = id
      match serviceList with
      | [] => some (.error (.serviceNotFound id))
      | [service] => servicesRemoveUuid ids (service :: removeServices) servicesNext
      | _ => none
  | none :: _, _, _ => some (.error .serviceInvalid)

/-- `services_remove_all_internal/2`: the last service with its module and its application. -/
def servicesRemoveAllInternal [DecidableEq Name] (service : ConfigService σ Pid α Name) :
    List (ConfigService σ Pid α Name) → Bool :=
  match service.type with
  | .external => fun _ => false
  | .internal module _ applicationName => fun services =>
      services.all fun s =>
        match s.type with
        | .internal module' _ applicationName' =>
            module' ≠ module ∧
              (applicationName' = none ∨ applicationName' ≠ applicationName)
        | .external => true

def servicesRemoveAll [DecidableEq Name] (removing : Removing σ Pid α Name) :
    Outcome σ Pid α Name ρ :=
  match removing.removeServices with
  | [] => .replies (.ok []) removing.services removing.stopped
  | service :: removeServices =>
      let remove := servicesRemoveAllInternal service (removeServices ++ removing.services)
      .waits (.shutdown service remove { removing with removeServices })

/-- `service_stop_internal/3` and `service_stop_external/2` with the reply of `shutdown`: the
module is removed with the last service that uses it, unless it was not loaded for it. -/
def serviceStop [DecidableEq Name] (services : List (ConfigService σ Pid α Name))
    (service : ConfigService σ Pid α Name) (remove found : Bool)
    (removing : Removing σ Pid α Name) : Outcome σ Pid α Name ρ :=
  let removingNew := { removing with stopped := service.uuid :: removing.stopped }
  match service.type, found with
  | .internal _ automaticLoading _, true =>
      if remove ∧ automaticLoading then .waits (.remove service removingNew)
      else servicesRemoveAll removingNew
  | .external, true => servicesRemoveAll removingNew
  | .internal _ _ _, false =>
      .replies (.error .serviceInternalStopNotFound) services removing.stopped
  | .external, false => .replies (.error .serviceExternalStopNotFound) services removing.stopped

/-- The result of `service_stop_remove_internal/2`. -/
def serviceStopRemoved [DecidableEq Name] (services : List (ConfigService σ Pid α Name))
    (removing : Removing σ Pid α Name) :
    Option ρ → Outcome σ Pid α Name ρ
  | none => servicesRemoveAll removing
  | some reason => .replies (.error (.serviceStopRemove reason)) services removing.stopped

def servicesRemove [DecidableEq σ] [DecidableEq Name]
    (services : List (ConfigService σ Pid α Name)) :
    List (Option σ) → Option (Outcome σ Pid α Name ρ)
  | some id :: ids =>
      (servicesRemoveUuid (some id :: ids) [] services).map fun
        | .ok removing => servicesRemoveAll removing
        | .error reason => .replies (.error reason) services []
  | _ => some (.replies (.error .serviceInvalid) services [])

/-! ## `services_restart` -/

/-- `services_restart_uuid/4`, up to the call of `services_restart_all`. -/
def servicesRestartUuid [DecidableEq σ] (services : List (ConfigService σ Pid α Name)) :
    List (Option σ) → List (ConfigService σ Pid α Name) →
      Option (Except (ErrorReason σ ρ)
        (List (ConfigService σ Pid α Name)))
  | [], restartServices => some (.ok restartServices.reverse)
  | some id :: ids, restartServices =>
      match services.filter fun s => s.uuid = id with
      | [] => some (.error (.serviceNotFound id))
      | [service] => servicesRestartUuid services ids (service :: restartServices)
      | _ => none
  | none :: _, _ => some (.error .serviceInvalid)

def servicesRestartAll :
    List (ConfigService σ Pid α Name) →
      Outcome σ Pid α Name ρ
  | [] => .replies (.ok []) services []
  | service :: restartServices => .waits (.restart service restartServices)

/-- `service_restart_internal/2` and `service_restart_external/2` with the reply of
`restart`. -/
def serviceRestart
    (found : Bool) (restartServices : List (ConfigService σ Pid α Name)) : Outcome σ Pid α Name ρ :=
  match service.type, found with
  | _, true => servicesRestartAll services restartServices
  | .internal _ _ _, false => .replies (.error .serviceInternalRestartNotFound) services []
  | .external, false => .replies (.error .serviceExternalRestartNotFound) services []

def servicesRestart [DecidableEq σ] (services : List (ConfigService σ Pid α Name)) :
    List (Option σ) → Option (Outcome σ Pid α Name ρ)
  | some id :: ids =>
      (servicesRestartUuid services (some id :: ids) []).map fun
        | .ok restartServices => servicesRestartAll services restartServices
        | .error reason => .replies (.error reason) services []
  | _ => some (.replies (.error .serviceInvalid) services [])

def serviceTerminatedRemove [DecidableEq σ] (id : σ) :
    List (ConfigService σ Pid α Name) →
      List (ConfigService σ Pid α Name)
  | [] => []
  | service :: services =>
      if service.uuid = id then services else service :: serviceTerminatedRemove id services

/-! ## requests -/

/-- The calls.  For `services_add`, what `services_validate` and `services_acl_expand` make of
the argument. -/
inductive Request (σ Pid α Name ρ : Type) where
  | servicesAdd (validated : Except ρ (List (ConfigService σ Pid α Name)))
  | servicesRemove (value : List (Option σ))
  | servicesRestart (value : List (Option σ))

/-- The service ids that a request makes. -/
def Request.ids : Request σ Pid α Name ρ → List σ
  | .servicesAdd (.ok services) => uuids services
  | _ => []

/-- `handle_call`, up to where it waits first. -/
def handleCall [DecidableEq σ] [DecidableEq Name] (services : List (ConfigService σ Pid α Name)) :
    Request σ Pid α Name ρ →
      Option (Outcome σ Pid α Name ρ)
  | .servicesAdd validated => some (servicesAdd services validated)
  | .servicesRemove value => servicesRemove services value
  | .servicesRestart value => servicesRestart services value

/-! ## runs -/

/-- What the configurator waits for comes: a result, a message, or the handling of its call by
the services monitor. -/
inductive Answer (Pid Name ρ : Type) where
  | found (result : Except ρ Name)
  | started (started : Started Pid) (reason : ρ)
  | initEnd
  | down (info : ρ)
  | shutdown
  | removed (error : Option ρ)
  | restarted

/-- What happens: the services monitor and its processes do something on their own, a call is
made, it gets its answer, or a `service_terminated` message is handled. -/
inductive Event (σ Pid α Name ρ : Type) where
  | process (event : ServicesMonitor.Event σ Pid α)
  | request (request : Request σ Pid α Name ρ)
  | answer (answer : Answer Pid Name ρ)
  | serviceTerminated

/-- The `service_terminated` messages that the services monitor sends to the configurator. -/
def serviceTerminatedSent (effects : List (ServicesMonitor.Effect σ Pid α)) : List σ :=
  effects.filterMap fun
    | .terminated serviceId true => some serviceId
    | _ => none

variable [LinearOrder σ] [LinearOrder Pid]

/-- The configurator, the messages it has not handled, and the services monitor.  `reply` is
what the last call returned, `used` has the service ids that were made, and `stopped` the
services whose shutdown succeeded in the calls of `services_remove` that returned. -/
structure World (σ Pid α Name ρ : Type) [LinearOrder σ]
    [LinearOrder Pid] where
  services : List (ConfigService σ Pid α Name) := []
  call : Option (Call σ Pid α Name ρ) := none
  casts : List σ := []
  monitor : ServicesMonitor.World σ Pid α := {}
  reply : Option (Reply σ ρ) := none
  used : List σ := []
  stopped : List σ := []

/-- The call of the configurator goes on. -/
def World.turn (w : World σ Pid α Name ρ) :
    Outcome σ Pid α Name ρ → World σ Pid α Name ρ
  | .waits call => { w with call := some call }
  | .replies reply services stopped =>
      { w with call := none, reply := some reply, services, stopped := stopped ++ w.stopped }

variable [DecidableEq α]

/-- The services monitor handles a message. -/
def World.handles (w : World σ Pid α Name ρ) (m : ServicesMonitor.Message σ Pid α) :
    Option (World σ Pid α Name ρ) :=
  (ServicesMonitor.handle w.monitor.isGone w.monitor.state m).toOption.map fun r =>
    { w with monitor := w.monitor.after m r, casts := w.casts ++ serviceTerminatedSent r.2 }

/-- The services monitor and its processes do something on their own. -/
def World.process (w : World σ Pid α Name ρ) :
    ServicesMonitor.Event σ Pid α →
      Option (World σ Pid α Name ρ)
  | .message m => w.handles m
  | .dies pid reason =>
      (ServicesMonitor.next w.monitor (.dies pid reason)).map fun monitor => { w with monitor }

/-- The message with which the services monitor is to start a process of a service. -/
def monitorMessage (indexProcess : Nat) (service : ConfigService σ Pid α Name)
    (started : Started Pid) : ServicesMonitor.Message σ Pid α :=
  .monitor service.uuid
    { service.process with processIndex := indexProcess, countProcess := service.countProcess }
    started

/-- The answer of a call that waits. -/
def World.answered [DecidableEq Name] (w : World σ Pid α Name ρ) :
    Call σ Pid α Name ρ → Answer Pid Name ρ →
      Option (World σ Pid α Name ρ)
  | .find service adding, .found result =>
      some (w.turn (serviceStartFound w.services service adding result))
  | .monitor indexProcess pids service adding, .started started reason =>
      (w.handles (monitorMessage indexProcess service started)).map fun w' =>
        w'.turn <| match started with
          | some p => .waits (serviceStartProcess (indexProcess + 1) (pids ++ p) service adding)
          | none => serviceNotAdded w.services (startFailed service reason) adding
  | .initEnd (_ :: pids) error service adding, .initEnd =>
      some (w.turn (serviceStartWaitPids w.services pids (serviceStartWaitPid error none)
        service adding))
  | .initEnd (_ :: pids) error service adding, .down info =>
      some (w.turn (serviceStartWaitPids w.services pids (serviceStartWaitPid error (some info))
        service adding))
  | .shutdown service remove removing, .shutdown =>
      let found := (Key2value.find1 service.uuid w.monitor.state.services).isSome
      (w.handles (.shutdown service.uuid)).map fun w' =>
        w'.turn (serviceStop w.services service remove found removing)
  | .remove _ removing, .removed error =>
      some (w.turn (serviceStopRemoved w.services removing error))
  | .restart service restartServices, .restarted =>
      let found := (Key2value.find1 service.uuid w.monitor.state.services).isSome
      some (w.turn (serviceRestart w.services service found restartServices))
  | _, _ => none

/-- A step of a run.  The configurator takes a call or a message when it has none. -/
def next [DecidableEq Name] (w : World σ Pid α Name ρ) :
    Event σ Pid α Name ρ →
      Option (World σ Pid α Name ρ)
  | .process event => w.process event
  | .request request =>
      match w.call with
      | none => (handleCall w.services request).map fun outcome =>
          ({ w with used := request.ids ++ w.used } : World _ _ _ _ _).turn outcome
      | some _ => none
  | .answer answer => w.call.bind fun call => w.answered call answer
  | .serviceTerminated =>
      match w.call, w.casts with
      | none, id :: casts =>
          some { w with casts, services := serviceTerminatedRemove id w.services }
      | _, _ => none

/-- A message that the services monitor gets from its processes or from itself. -/
def Own : ServicesMonitor.Message σ Pid α → Prop
  | .monitor _ _ _ | .shutdown _ | .update _ _ => False
  | _ => True

/-- An event that can happen.  The service ids of `services_add` are new, a process that was
started has a pid, and the initialization that fails is that of a process which died. -/
def Enabled (w : World σ Pid α Name ρ) :
    Event σ Pid α Name ρ → Prop
  | .process event =>
      ServicesMonitor.Enabled w.monitor event ∧
        match event with
        | .message m => Own m
        | .dies _ _ => True
  | .request request => request.ids.Nodup ∧ ∀ id ∈ request.ids, id ∉ w.used
  | .answer answer =>
      match w.call, answer with
      | some (.monitor indexProcess _ service _), .started started _ =>
          started ≠ some [] ∧ ServicesMonitor.Enabled w.monitor
            (.message (monitorMessage indexProcess service started))
      | some (.initEnd (pid :: _) _ _ _), .down _ =>
          w.monitor.status pid ≠ .unknown ∧ w.monitor.status pid ≠ .alive
      | _, _ => True
  | .serviceTerminated => True

end CloudI.Configuration
