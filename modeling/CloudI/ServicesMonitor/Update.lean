import CloudI.Library.Flight
import CloudI.ServicesInternal.Update
import CloudI.ServicesMonitor.ProcessChange
import Mathlib.Data.List.Lex
import Mathlib.Data.List.ReduceOption

/-!
# ServicesMonitor.Update

The call `update` of the services monitor and the processes of the services that it
updates.  The monitor asks every process (`update_start`), loads the modules, tells every
process that is left to take its step (`update_now`), and replies; a process that dies
is told by its `DOWN` message.

The processes are those of internal services, so the results `{ok, Port}` of external ones
are left out.  A process dies at any time.  The messages of one process come in the order
in which they were sent, with its `DOWN` message as the last one.
-/

namespace CloudI.ServicesMonitor

open List Option Function
open ServicesInternal.Receive (ConfigServiceUpdate Reason Request Answer Process ProcessEvent
  ServiceType)

variable {σ Pid α ι κ Info Module CodePath Term : Type}
  [LinearOrder σ] [LinearOrder Pid] [LinearOrder ι] [LinearOrder Term]

/-! ## the processes of the services -/

/-- `service_id_pids/2`, in the order of the process indexes; `none` is `not_found`. -/
def serviceIdPids (serviceId : σ) (services : Services σ Pid α) :
    Except Failure (Option (List Pid)) :=
  match Key2value.find1 serviceId services with
  | none => .ok none
  | some (pids, _) => do
      let pidsOrdered ← pids.foldlM (fun (pidsOrdered : List (Nat ×ₗ List Pid)) pid =>
        match Key2value.find2 pid services with
        | some (_, service) =>
            .ok (Lists.umerge pidsOrdered [toLex (service.processIndex, service.pids)])
        | none => .error .badkey) []
      return some (pidsOrdered.flatMap fun x => (ofLex x).2)

/-- The loop of `service_ids_pids/2`. -/
def serviceIdsPidsLoop (services : Services σ Pid α) :
    List σ → List Pid → Except Failure (Option (List Pid))
  | [], pids => .ok (some pids)
  | serviceId :: serviceIdList, pids => do
      match ← serviceIdPids serviceId services with
      | some pidList => serviceIdsPidsLoop services serviceIdList (pids ++ pidList)
      | none => return none

def serviceIdsPids (serviceIdList : List σ) (services : Services σ Pid α) :
    Except Failure (Option (List Pid)) :=
  serviceIdsPidsLoop services serviceIdList []

/-! ## results and modules -/

/-- A result of the update. -/
abbrev UpdateResult (Term : Type) := Except (Reason Term) Unit

/-- `update_results/1`, the errors. -/
def updateResults (results : List (UpdateResult Term)) : List (Reason Term) :=
  Lists.usort (results.filterMap fun result =>
    match result with
    | .ok _ => none
    | .error reason => some reason)

/-- The code server: `code:add_patha/1` and `module_reload/1`. -/
structure CodeServer (Module CodePath Term : Type) where
  addPatha : CodePath → Except Term Unit
  moduleReload : Module → Except Term Unit

/-- `update_load_module/1`. -/
def updateLoadModules (code : CodeServer Module CodePath Term) :
    List Module → UpdateResult Term
  | [] => .ok ()
  | module :: modulesLoad =>
      match code.moduleReload module with
      | .ok _ => updateLoadModules code modulesLoad
      | .error term => .error (.load term)

def updateLoadModule (code : CodeServer Module CodePath Term) :
    List CodePath → List Module → UpdateResult Term
  | [], modulesLoad => updateLoadModules code modulesLoad
  | codePathAdd :: codePathsAdd, modulesLoad =>
      match code.addPatha codePathAdd with
      | .ok _ => updateLoadModule code codePathsAdd modulesLoad
      | .error term => .error (.load term)

def updateBefore (code : CodeServer Module CodePath Term)
    (plan : ConfigServiceUpdate σ Pid α Module CodePath Term) : List (UpdateResult Term) :=
  [updateLoadModule code plan.codePathsAdd plan.modulesLoad]

/-- `update_unload_module/1`.  After the first code path it goes on with `update_load_module/1`,
whose `module_reload/1` has no clause for a code path. -/
def updateUnloadModule : List CodePath → Option Unit
  | [] | [_] => some ()
  | _ :: _ :: _ => none

/-- `update_service/4`, as far as it changes the services. -/
def updateServicePlan (plan : ConfigServiceUpdate σ Pid α Module CodePath Term)
    (services : Services σ Pid α) : Except Failure (Services σ Pid α) :=
  match plan.type, plan.uuids with
  | .internal, serviceIds => updateService serviceIds plan.arguments services
  | .external, [serviceId] => updateService [serviceId] plan.arguments services
  | .external, _ => .error .exception

def updateAfter (updateSuccess : Bool) (plan : ConfigServiceUpdate σ Pid α Module CodePath Term)
    (services : Services σ Pid α) :
    Except Failure (Services σ Pid α) := do
  let servicesNew ← (if updateSuccess then updateServicePlan plan services else .ok services)
  match updateUnloadModule plan.codePathsRemove with
  | some _ => return servicesNew
  | none => .error .exception

theorem updateResults_eq_nil {results : List (UpdateResult Term)} :
    updateResults results = [] ↔ ∀ r ∈ results, r = .ok () := by
  rw [eq_nil_iff_forall_not_mem]
  constructor
  · intro h r hr
    cases r with
    | ok x => rfl
    | error reason =>
      refine absurd ?_ (h reason)
      rw [updateResults, Lists.mem_usort, mem_filterMap]
      exact ⟨.error reason, hr, rfl⟩
  · intro h reason hmem
    rw [updateResults, Lists.mem_usort, mem_filterMap] at hmem
    obtain ⟨r, hr, heq⟩ := hmem
    rw [h r hr] at heq
    cases heq

theorem updateUnloadModule_isSome :
    (updateUnloadModule codePathsRemove).isSome = true ↔ codePathsRemove.length ≤ 1 := by
  match codePathsRemove with
  | [] => simp [updateUnloadModule]
  | [_] => simp [updateUnloadModule]
  | _ :: _ :: _ => simp [updateUnloadModule]

/-! ## the services monitor -/

/-- What comes to the services monitor.  Only the processes of external services refuse an
update with `updateError`. -/
inductive UpdateMessage (Term : Type) where
  | down
  | answer (answer : Answer Term)
  | updateError (reason : Reason Term)

/-- Where the services monitor is in the call: it receives the answers of `update_start` or of
`update_now`, or it is done. -/
inductive UpdateStage (Pid Term : Type) where
  | startRecv (pidList : List Pid) (pidListNew : List (Option Pid))
      (updateResults : List (UpdateResult Term))
  | nowRecv (updateStart : Bool) (pidList : List (Option Pid))
      (updateResults : List (UpdateResult Term))
  | replied (reply : Except (List (Reason Term)) Unit)
  | crashed

/-- The services monitor while it handles `update`, the messages that wait for it, and the
processes. -/
structure UpdateWorld (σ Pid α ι κ Info Term : Type)
    [LinearOrder σ] [LinearOrder Pid] [LinearOrder ι] where
  stage : UpdateStage Pid Term
  services : Services σ Pid α
  mailbox : List (Pid × UpdateMessage Term) := []
  processes : Pid → Process ι Pid κ Info Term
  alive : Pid → Bool := fun _ => true

/-- The messages that `update_start_recv` waits for. -/
def isStartAnswer : UpdateMessage Term → Bool
  | .down | .answer .update | .updateError _ => true
  | .answer (.updateNow _) => false

/-- The messages that `update_now_recv` waits for. -/
def isNowAnswer : UpdateMessage Term → Bool
  | .down | .answer (.updateNow _) => true
  | .answer .update | .updateError _ => false

/-- `receive` takes the first message of the process that it waits for. -/
def receive (accept : UpdateMessage Term → Bool) (pid : Pid)
    (mailbox : List (Pid × UpdateMessage Term)) :
    Option ((Pid × UpdateMessage Term) × List (Pid × UpdateMessage Term)) :=
  Flight.takeFirst (fun m => decide (m.1 = pid) && accept m.2) mailbox

/-- A message of the services monitor to a process. -/
def sendRequest (request : Request) (processes : Pid → Process ι Pid κ Info Term)
    (pid : Pid) : Pid → Process ι Pid κ Info Term :=
  update processes pid
    { processes pid with inbox := (processes pid).inbox ++ [request] }

/-- `update_start/2` and `update_now/3`, as far as they send. -/
def sendRequests (request : Request) (pidList : List (Option Pid))
    (processes : Pid → Process ι Pid κ Info Term) : Pid → Process ι Pid κ Info Term :=
  pidList.foldl (fun processes pid? =>
    match pid? with
    | none => processes
    | some pid => sendRequest request processes pid) processes

variable (plan : ConfigServiceUpdate σ Pid α Module CodePath Term)
  (code : CodeServer Module CodePath Term) (monitor : Pid)

/-- `handle_call` of `update`, until the first message is received. -/
def handleUpdate (services : Services σ Pid α) (processes : Pid → Process ι Pid κ Info Term) :
    Except Failure (UpdateWorld σ Pid α ι κ Info Term) := do
  match ← serviceIdsPids plan.uuids services with
  | some pidList =>
      return {
        stage := .startRecv pidList [] []
        services
        processes := sendRequests .update (pidList.map some) processes }
  | none => return { stage := .replied (.error [.notFound]), services, processes }

/-- `update_start_recv` takes a message of the process. -/
def startReceived (pid : Pid) (pidList : List Pid) (pidListNew : List (Option Pid))
    (results : List (UpdateResult Term)) (rest : List (Pid × UpdateMessage Term))
    (w : UpdateWorld σ Pid α ι κ Info Term) :
    UpdateMessage Term → UpdateWorld σ Pid α ι κ Info Term
  | .down =>
      { w with
        stage := .startRecv pidList (none :: pidListNew) (.error .pidDied :: results)
        mailbox := rest ++ [(pid, .down)] }
  | .answer _ =>
      { w with stage := .startRecv pidList (some pid :: pidListNew) results, mailbox := rest }
  | .updateError reason =>
      { w with
        stage := .startRecv pidList (none :: pidListNew) (.error reason :: results)
        mailbox := rest }

/-- `update_now_recv` takes a message of the process. -/
def nowReceived (updateStart : Bool) (pid : Pid) (pidList : List (Option Pid))
    (results : List (UpdateResult Term)) (rest : List (Pid × UpdateMessage Term))
    (w : UpdateWorld σ Pid α ι κ Info Term) :
    UpdateMessage Term → UpdateWorld σ Pid α ι κ Info Term
  | .answer (.updateNow result) =>
      { w with stage := .nowRecv updateStart pidList (result :: results), mailbox := rest }
  | .answer .update | .updateError _ | .down =>
      { w with
        stage := .nowRecv updateStart pidList (.error .pidDied :: results)
        mailbox := rest ++ [(pid, .down)] }

/-- `update_now/3` sends, after `update_before/1` when all processes are ready. -/
def startReturned (pidListNew : List (Option Pid)) (results : List (UpdateResult Term))
    (w : UpdateWorld σ Pid α ι κ Info Term) : UpdateWorld σ Pid α ι κ Info Term :=
  let updateStart := results.isEmpty
  { w with
    stage := .nowRecv updateStart pidListNew
      (if updateStart then updateBefore code plan else results)
    processes := sendRequests (.updateNow updateStart) pidListNew w.processes }

/-- The end of `handle_call` of `update`. -/
def nowReturned (updateStart : Bool) (results : List (UpdateResult Term))
    (w : UpdateWorld σ Pid α ι κ Info Term) : UpdateWorld σ Pid α ι κ Info Term :=
  let resultsError := updateResults results
  if updateStart then
    let updateSuccess := resultsError.isEmpty
    match updateAfter updateSuccess plan w.services with
    | .error _ => { w with stage := .crashed }
    | .ok servicesNew =>
        if updateSuccess then { w with stage := .replied (.ok ()), services := servicesNew }
        else { w with stage := .replied (.error resultsError) }
  else { w with stage := .replied (.error resultsError) }

variable (w : UpdateWorld σ Pid α ι κ Info Term)

/-- A step of the services monitor. -/
def monitorStep : Option (UpdateWorld σ Pid α ι κ Info Term) :=
  match w.stage with
  | .startRecv [] pidListNew results => some (startReturned plan code pidListNew.reverse results w)
  | .startRecv (pid :: pidList) pidListNew results =>
      (receive isStartAnswer pid w.mailbox).map fun (m, rest) =>
        startReceived pid pidList pidListNew results rest w m.2
  | .nowRecv updateStart [] results => some (nowReturned plan updateStart results.reverse w)
  | .nowRecv updateStart (none :: pidList) results =>
      some { w with stage := .nowRecv updateStart pidList results }
  | .nowRecv updateStart (some pid :: pidList) results =>
      (receive isNowAnswer pid w.mailbox).map fun (m, rest) =>
        nowReceived updateStart pid pidList results rest w m.2
  | .replied _ | .crashed => none

/-- The reply was sent, or the services monitor crashed. -/
def UpdateStage.isDone : UpdateStage Pid Term → Bool
  | .startRecv _ _ _ | .nowRecv _ _ _ => false
  | .replied _ | .crashed => true

/-- What happens while `update` is handled. -/
inductive UpdateEvent (Pid ι κ Info : Type) where
  | monitor
  | process (pid : Pid) (e : ProcessEvent ι Pid κ Info)
  | dies (pid : Pid)

/-- A step of a run. -/
def updateNext :
    UpdateEvent Pid ι κ Info →
      Option (UpdateWorld σ Pid α ι κ Info Term)
  | .monitor => monitorStep plan code w
  | .process pid e =>
      if w.alive pid then
        ((w.processes pid).step plan pid monitor e).map fun (p, sent) =>
          { w with
            processes := update w.processes pid p
            mailbox := w.mailbox ++ sent.map fun answer => (pid, .answer answer) }
      else none
  | .dies pid =>
      if w.alive pid then
        some { w with
               alive := update w.alive pid false
               mailbox := w.mailbox ++ [(pid, .down)] }
      else none

/-! ## the processes that are found -/

section found

variable {services : Services σ Pid α} {serviceId : σ} {pids : List Pid}
  {acc : List (Nat ×ₗ List Pid)}

/-- The loop of `service_id_pids/2` keeps the lists of the records, by their index. -/
theorem serviceIdPids_loop (h : Grouped services) {keys : List Pid}
    (hkeys : ∀ p ∈ keys, ∃ service, record services p = some (serviceId, service))
    {l : List (Nat ×ₗ List Pid)}
    (hok : keys.foldlM (fun (pidsOrdered : List (Nat ×ₗ List Pid)) pid =>
        match Key2value.find2 pid services with
        | some (_, service) =>
          Except.ok (Lists.umerge pidsOrdered [toLex (service.processIndex, service.pids)])
        | none => .error Failure.badkey) acc = .ok l) (hacc : acc.Pairwise (· < ·)) :
    l.Pairwise (· < ·) ∧ ∀ x ∈ l, x ∈ acc ∨ ∃ p service,
      record services p = some (serviceId, service) ∧
        x = toLex (service.processIndex, service.pids) := by
  induction keys generalizing acc with
  | nil =>
    cases hok
    exact ⟨hacc, fun x hx => .inl hx⟩
  | cons p keys ih =>
    obtain ⟨service, hrecord⟩ := hkeys p mem_cons_self
    rw [foldlM_cons, (record_eq_some h.owned).mp hrecord] at hok
    have hrest := ih (fun q hq => hkeys q (mem_cons_of_mem p hq)) hok
      (Lists.pairwise_umerge hacc)
    refine ⟨hrest.1, fun x hx => ?_⟩
    rcases hrest.2 x hx with hx | hx
    · rw [Lists.mem_umerge, mem_singleton] at hx
      exact hx.imp_right fun hx => ⟨p, service, hrecord, hx⟩
    · exact .inr hx

/-- **`service_id_pids`** lists processes of the service, each of them once. -/
theorem serviceIdPids_spec (h : Grouped services)
    (hok : serviceIdPids serviceId services = .ok (some pids)) :
    (Key2value.find1 serviceId services).isSome = true ∧ pids.Nodup ∧
      ∀ p ∈ pids, ∃ q x, instances services q = some x ∧ x.serviceId = serviceId ∧ p ∈ x.pids := by
  rw [serviceIdPids] at hok
  cases hfind : Key2value.find1 serviceId services with
  | none =>
    rw [hfind] at hok
    cases hok
  | some x =>
    obtain ⟨keys, service⟩ := x
    rw [hfind] at hok
    dsimp only at hok
    obtain ⟨l, hl, hpids⟩ := Except.ok_of_bind hok
    cases hpids
    have hkeys : ∀ p ∈ keys, ∃ service, record services p = some (serviceId, service) := by
      intro p hp
      rw [← Key2value.keys2_of_find1 hfind] at hp
      exact (mem_keys2 h.owned).mp hp
    obtain ⟨hsorted, hmem⟩ := serviceIdPids_loop h hkeys hl List.Pairwise.nil
    have hstored : ∀ x ∈ l, ∃ p, instances services p =
        some { serviceId, processIndex := (ofLex x).1, pids := (ofLex x).2 } := by
      intro x hx
      obtain ⟨p, service, hrecord, rfl⟩ := (hmem x hx).resolve_left not_mem_nil
      exact ⟨p, instances_of_record hrecord⟩
    refine ⟨rfl, nodup_flatMap.mpr ⟨fun x hx => ?_, hsorted.imp_of_mem ?_⟩, fun p hp => ?_⟩
    · obtain ⟨p, hp⟩ := hstored x hx
      exact h.nodup p _ hp
    · intro x y hx hy hlt p hpx hpy
      obtain ⟨q, hq⟩ := hstored x hx
      obtain ⟨r, hr⟩ := hstored y hy
      have hsame := h.same q r _ _ p hq hr hpx hpy
      rw [ServiceInstance.mk.injEq] at hsame
      exact absurd (ofLex.injective (Prod.ext hsame.2.1 hsame.2.2)) hlt.ne
    · obtain ⟨x, hx, hpx⟩ := mem_flatMap.mp hp
      obtain ⟨q, hq⟩ := hstored x hx
      exact ⟨q, _, hq, rfl, hpx⟩

variable {serviceIdList : List σ}

/-- The loop of `service_ids_pids/2` adds processes of the other services. -/
theorem serviceIdsPidsLoop_spec (h : Grouped services) (done : List σ) {acc : List Pid}
    (hnodup : (done ++ serviceIdList).Nodup) (hacc : acc.Nodup)
    (hdone : ∀ p ∈ acc, ∃ q x, instances services q = some x ∧ x.serviceId ∈ done ∧ p ∈ x.pids)
    (hok : serviceIdsPidsLoop services serviceIdList acc = .ok (some pids)) :
    pids.Nodup ∧ ∀ serviceId ∈ serviceIdList, (Key2value.find1 serviceId services).isSome = true := by
  induction serviceIdList generalizing acc done with
  | nil =>
    cases hok
    exact ⟨hacc, nofun⟩
  | cons serviceId serviceIdList ih =>
    rw [serviceIdsPidsLoop] at hok
    obtain ⟨pidList?, hpidList, hok⟩ := Except.ok_of_bind hok
    cases pidList? with
    | none => cases hok
    | some pidList =>
      obtain ⟨hfind, hnodupList, hlist⟩ := serviceIdPids_spec h hpidList
      rw [append_cons] at hnodup
      have hnew : serviceId ∉ done :=
        fun hmem => (nodup_append.mp hnodup.of_append_left).2.2 _ hmem _
          (mem_singleton_self serviceId) rfl
      have hdisjoint : acc.Disjoint pidList := by
        intro p hp hp'
        obtain ⟨q, x, hx, hid, hpx⟩ := hdone p hp
        obtain ⟨r, y, hy, hid', hpy⟩ := hlist p hp'
        rw [h.same q r x y p hx hy hpx hpy, hid'] at hid
        exact hnew hid
      have hrest := ih _ hnodup (hacc.append hnodupList hdisjoint) ?_ hok
      · refine ⟨hrest.1, fun id hid => ?_⟩
        rcases mem_cons.mp hid with rfl | hid
        · exact hfind
        · exact hrest.2 id hid
      · intro p hp
        rcases mem_append.mp hp with hp | hp
        · obtain ⟨q, x, hx, hid, hpx⟩ := hdone p hp
          exact ⟨q, x, hx, mem_append_left _ hid, hpx⟩
        · obtain ⟨q, x, hx, hid, hpx⟩ := hlist p hp
          refine ⟨q, x, hx, ?_, hpx⟩
          rw [hid]
          exact mem_append_right _ (mem_singleton_self serviceId)

/-- **`service_ids_pids`** lists each process once. -/
theorem serviceIdsPids_spec (h : Grouped services) (hnodup : serviceIdList.Nodup)
    (hok : serviceIdsPids serviceIdList services = .ok (some pids)) :
    pids.Nodup ∧ ∀ serviceId ∈ serviceIdList, (Key2value.find1 serviceId services).isSome = true :=
  serviceIdsPidsLoop_spec h [] hnodup nodup_nil nofun hok

/-- `update_service` of services that are there. -/
theorem updateService_ok (argumentsNew : α → α) (h : Key2value.Linked services)
    (hfind : ∀ serviceId ∈ serviceIdList, (Key2value.find1 serviceId services).isSome = true) :
    ∃ servicesNew, updateService serviceIdList argumentsNew services = .ok servicesNew := by
  induction serviceIdList generalizing services with
  | nil => exact ⟨services, rfl⟩
  | cons id serviceIdList ih =>
    obtain ⟨x, hx⟩ := isSome_iff_exists.mp (hfind id mem_cons_self)
    obtain ⟨services₁, hupdate, hlinked, hfind1, -⟩ := Key2value.update1_spec h
      (fun service => { service with arguments := argumentsNew service.arguments }) hx
    have hrest : ∀ serviceId ∈ serviceIdList,
        (Key2value.find1 serviceId services₁).isSome = true := by
      intro serviceId hmem
      rw [hfind1]
      split
      · rw [isSome_map]
        exact hfind serviceId (mem_cons_of_mem id hmem)
      · exact hfind serviceId (mem_cons_of_mem id hmem)
    obtain ⟨servicesNew, hnew⟩ := ih hlinked hrest
    refine ⟨servicesNew, ?_⟩
    rw [updateService, foldlM_cons, hupdate]
    exact hnew

/-- The plan is of services that are there. -/
structure PlanOk (plan : ConfigServiceUpdate σ Pid α Module CodePath Term)
    (services : Services σ Pid α) : Prop where
  linked : Key2value.Linked services
  found : ∀ serviceId ∈ plan.uuids, (Key2value.find1 serviceId services).isSome = true
  single : plan.type = .external → plan.uuids.length = 1

omit [LinearOrder Term] in
/-- `update_after` crashes when there is more than one code path to remove. -/
theorem updateAfter_spec {plan : ConfigServiceUpdate σ Pid α Module CodePath Term}
    (h : PlanOk plan services) (updateSuccess : Bool) :
    ∃ servicesNew, updateAfter updateSuccess plan services =
      if plan.codePathsRemove.length ≤ 1 then .ok servicesNew else .error .exception := by
  have hafter : ∃ servicesNew,
      (if updateSuccess then updateServicePlan plan services else .ok services) =
        Except.ok servicesNew := by
    cases updateSuccess with
    | false => exact ⟨services, rfl⟩
    | true =>
      rw [if_pos rfl, updateServicePlan]
      cases htype : plan.type with
      | internal => exact updateService_ok plan.arguments h.linked h.found
      | external =>
        obtain ⟨serviceId, hids⟩ := length_eq_one_iff.mp (h.single htype)
        rw [hids]
        have hfound := h.found
        rw [hids] at hfound
        exact updateService_ok plan.arguments h.linked hfound
  obtain ⟨servicesNew, hnew⟩ := hafter
  refine ⟨servicesNew, ?_⟩
  rw [updateAfter, hnew, Except.ok_bind]
  by_cases hlen : plan.codePathsRemove.length ≤ 1
  · obtain ⟨_, hunload⟩ := isSome_iff_exists.mp (updateUnloadModule_isSome.mpr hlen)
    rw [if_pos hlen, hunload]
    rfl
  · have hunload := mt updateUnloadModule_isSome.mp hlen
    rw [not_isSome_iff_eq_none] at hunload
    rw [if_neg hlen, hunload]

end found

/-! ## the requests -/

omit [LinearOrder Term] in
theorem sendRequests_apply (hnodup : pidList.reduceOption.Nodup)
    (processes : Pid → Process ι Pid κ Info Term) (p : Pid) :
    sendRequests request pidList processes p =
      if some p ∈ pidList then { processes p with inbox := (processes p).inbox ++ [request] }
      else processes p := by
  induction pidList generalizing processes with
  | nil => rfl
  | cons pid? pidList ih =>
    cases pid? with
    | none =>
      rw [reduceOption_cons_of_none] at hnodup
      show sendRequests request pidList processes p = _
      rw [ih hnodup]
      simp
    | some pid =>
      rw [reduceOption_cons_of_some, nodup_cons, reduceOption_mem_iff] at hnodup
      show sendRequests request pidList (sendRequest request processes pid) p = _
      rw [ih hnodup.2, sendRequest]
      by_cases hp : p = pid
      · subst hp
        rw [if_neg hnodup.1, if_pos mem_cons_self, update_self]
      · rw [update_of_ne hp]
        simp [hp]

end CloudI.ServicesMonitor
