import CloudI.ServicesMonitor.ProcessChange

/-!
# ServicesMonitor.Handled

What a message comes to, once for all messages (`handle_handled`): nothing, a change of
the process count that waits for its timer, or a step of one service (`Advances`).  The
invariants of the services monitor are derived from it, without a look at the handlers.
-/

namespace CloudI.ServicesMonitor

open List

variable {σ Pid α : Type} [LinearOrder σ] [LinearOrder Pid]

/-! ## what a message is about -/

/-- What the restart after the death of a process comes to. -/
def Service.restarted (service : Service Pid α) (readings : Readings)
    (started : Started Pid) : Option (Restarted Pid α) :=
  restartStage2 readings started { service with pids := [], timeTerminate := none }

/-- What the stage of a restart that comes as a message comes to. -/
def Restarting.restarted (message : Restarting σ Pid α) (readings : Readings)
    (started : Started Pid) : Option (Restarted Pid α) :=
  match message.stage with
  | .stage2 => restartStage2 readings started message.service
  | .stage3 => restartStage3 readings started message.service

/-- A process of the service is stored. -/
def Present (sid : σ) (services : Services σ Pid α) : Prop :=
  ∃ p x, instances services p = some x ∧ x.serviceId = sid

variable (s : State σ Pid α) (m : Message σ Pid α)

/-- The service whose processes a message can start or terminate. -/
def Concerns
    (sid : σ) : Prop :=
  match m with
  | .monitor id _ _ => id = sid
  | .shutdown _ | .down _ _ _ _ => Present sid s.services
  | .changes id _ => id = sid ∧
      ∃ change, Maps.find id s.changes = some change ∧ change.terminated = false
  | .restart message _ _ => message.serviceId = sid
  | .update _ _ | .change _ _ _ | .terminateBegin _ _ => False

/-- The service that a message terminates for good. -/
def Removes
    (sid : σ) : Prop :=
  match m with
  | .shutdown id => id = sid ∧ Present id s.services
  | .down pid reason readings started =>
      ∃ service, record s.services pid = some (sid, service) ∧
        (reason = .shutdown ∨ reason = .shutdownReason ∨
          (reason = .error ∧ ∃ failed, service.restarted readings started = some (.failed failed)))
  | .restart message readings started => message.serviceId = sid ∧
      ∃ failed, message.restarted readings started = some (.failed failed)
  | _ => False

/-- The records that a message makes the monitor store again. -/
def Message.rewrites :
    Message σ Pid α → List (Service Pid α)
  | .changes sid _ =>
      match Maps.find sid s.changes with
      | some input =>
          if input.terminated then [] else rewritten sid input.changes s.services
      | none => []
  | _ => []

/-- Where the index of a new instance comes from. -/
def Placed
    (dropped : List Pid) (y : ServiceInstance σ Pid) : Prop :=
  match m with
  | .monitor _ service started => started ≠ none ∧ y.processIndex = service.processIndex
  | .down pid _ _ _ => ∃ x, instances s.services pid = some x ∧
      y.processIndex = x.processIndex ∧ x.pids ⊆ dropped
  | .changes _ _ => ∀ p x, instances s.services p = some x → x.serviceId = y.serviceId →
      x.processIndex < y.processIndex
  | .restart message readings started =>
      y ∈ restartNew message.serviceId (message.restarted readings started)
  | _ => False

/-- A process that a message makes the monitor erase, when it does not terminate the service: one
that ended for a decrease, or one of the instance that is to start again. -/
def Lost (p : Pid) : Prop :=
  match m with
  | .down pid .countProcessDynamicTerminate _ _ => p = pid
  | .down pid .error _ _ => ∃ x, instances s.services pid = some x ∧ p ∈ x.pids
  | _ => False

/-- **A step of one service.** -/
structure Advances (sid : σ) (dropped again : List Pid)
    (new : List (ServiceInstance σ Pid)) (s : State σ Pid α)
    (m : Message σ Pid α) (s' : State σ Pid α)
    (effects : List (Effect σ Pid α)) : Prop
    extends Evolves sid dropped again new s s' effects where
  concerns : Concerns s m sid
  down : ∀ p ∈ m.downPid?, p ∈ dropped
  pids : (new.flatMap ServiceInstance.pids).Sublist m.pids
  again_eq : again = (m.rewrites s).flatMap Service.pids
  exclusive : again = [] ∨ dropped = []
  placed : ∀ y ∈ new, Placed s m dropped y
  sorted : new.Pairwise (·.processIndex < ·.processIndex)
  removes : ∀ id ∈ terminated effects, Removes s m id
  drops : sid ∈ terminated effects ∨ ∀ p, p ∈ dropped ↔ Lost s m p

/-- A change of the process count is asked for, of a service with processes. -/
def Asks (s s' : State σ Pid α) (m : Message σ Pid α) : Prop :=
  ∃ pid period entry sid change, m = .change pid period entry ∧
    Present sid s.services ∧
    s'.changes = Maps.put sid { change with changes := entry :: change.changes } s.changes ∧
    (Maps.find sid s.changes = some change ∨ change = { period, changes := [] })

/-- **What a message comes to.** -/
inductive Handled (s : State σ Pid α) (m : Message σ Pid α)
    (s' : State σ Pid α) (effects : List (Effect σ Pid α)) : Prop
  | same (h : Same s s' effects) (hchanges : ∀ id change, Maps.find id s'.changes = some change →
      change.terminated = true ∨ Maps.find id s.changes = some change)
      (hdown : ∀ p ∈ m.downPid?, instances s.services p = none)
  | asked (h : Same s s' effects) (hasks : Asks s s' m)
  | advances {sid : σ} {dropped again : List Pid}
      {new : List (ServiceInstance σ Pid)}
      (h : Advances sid dropped again new s m s' effects)

variable {s s' : State σ Pid α} {effects : List (Effect σ Pid α)}
  {sid : σ} {isGone : Pid → Bool} {pid : Pid} {readings : Readings}
  {started : Started Pid} {service : Service Pid α}

/-! ## small facts -/

theorem Unlisted.instances_none {services : Services σ Pid α}
    (h : Grouped services) (hunlisted : Unlisted services pid) : instances services pid = none := by
  by_contra hstored
  obtain ⟨x, hx⟩ := Option.ne_none_iff_exists'.mp hstored
  exact hunlisted pid x hx (h.mem pid x hx)

theorem present_of_find1 (howned : Owned s.services)
    (h : Key2value.find1 sid s.services = some x) : Present sid s.services := by
  obtain ⟨p, hp⟩ := exists_mem_of_ne_nil x.1 (howned.linked.sorted1 sid x.1 x.2 h).2
  rw [← Key2value.keys2_of_find1 h, mem_keys2_iff_instances howned] at hp
  exact ⟨p, hp⟩

theorem find1_ne_none_of_present (howned : Owned s.services) (h : Present sid s.services) :
    Key2value.find1 sid s.services ≠ none := by
  obtain ⟨p, x, hx, hid⟩ := h
  have hmem := (mem_keys2_iff_instances howned).mpr ⟨x, hx, hid⟩
  intro hnone
  rw [Key2value.keys2, hnone] at hmem
  cases hmem

theorem present_of_record (h : record s.services pid = some (sid, service)) :
    Present sid s.services :=
  ⟨pid, _, instances_of_record h, rfl⟩

theorem Same.filterMap (h : Same s s' effects) (hf : ∀ period id, f (.changes period id) = none) :
    effects.filterMap f = [] := by
  rw [filterMap_eq_nil_iff]
  intro e he
  obtain ⟨period, id, rfl⟩ := h.effects e he
  exact hf period id

variable {id : σ} {new : List (ServiceInstance σ Pid)} {dropped again : List Pid}
  {r : Option (Restarted Pid α)}

theorem Evolves.eq_of_terminated (h : Evolves sid dropped again new s s' effects)
    (hid : id ∈ terminated effects) : id = sid := by
  obtain ⟨e, he, heid⟩ := mem_filterMap.mp hid
  refine h.only e he id ?_
  cases e <;> cases heid
  rfl

/-- Nothing is new, and nothing is written again. -/
theorem Evolves.handled {m : Message σ Pid α}
    (h : Evolves sid dropped [] [] s s' effects) (hconcerns : Concerns s m sid)
    (hdown : ∀ p ∈ m.downPid?, p ∈ dropped) (hrewrites : m.rewrites s = [])
    (hremoves : ∀ id ∈ terminated effects, Removes s m id)
    (hdrops : sid ∈ terminated effects ∨ ∀ p, p ∈ dropped ↔ Lost s m p) : Handled s m s' effects :=
  .advances { h with
    concerns := hconcerns
    down := hdown
    pids := nil_sublist _
    again_eq := by rw [hrewrites, flatMap_nil]
    exclusive := .inl rfl
    placed := forall_mem_nil _
    sorted := List.Pairwise.nil
    removes := hremoves
    drops := hdrops }

section
omit [LinearOrder σ] [LinearOrder Pid]

theorem restartNew_pids (sid : σ)
    (h : ∀ service', r = some (.started service') → started = some service'.pids) :
    ((restartNew sid r).flatMap ServiceInstance.pids).Sublist (started.getD []) := by
  cases r with
  | none => exact nil_sublist _
  | some r =>
    cases r with
    | started service' =>
      rw [h service' rfl]
      simp [restartNew, Service.toInstance]
    | _ => exact nil_sublist _

theorem mem_restartNew (hy : y ∈ restartNew sid r) :
    ∃ service', r = some (.started service') ∧ y = service'.toInstance sid := by
  cases r with
  | none => cases hy
  | some r =>
    cases r with
    | started service' => exact ⟨service', rfl, mem_singleton.mp hy⟩
    | _ => cases hy

theorem restartNew_sorted : (restartNew sid r).Pairwise (·.processIndex < ·.processIndex) := by
  cases r with
  | none => exact List.Pairwise.nil
  | some r =>
    cases r with
    | started service' => exact pairwise_singleton _ _
    | _ => exact List.Pairwise.nil

theorem terminated_starts (sid : σ) (l : List Pid) :
    terminated (.start sid :: l.map .monitor : List (Effect σ Pid α)) =
      [] := by
  have hstarts : ∀ e ∈ (.start sid :: l.map .monitor : List (Effect σ Pid α)),
      e = .start sid ∨ ∃ p, e = .monitor p := by
    intro e he
    rcases mem_cons.mp he with rfl | he
    · exact .inl rfl
    · obtain ⟨p, _, rfl⟩ := mem_map.mp he
      exact .inr ⟨p, rfl⟩
  exact filterMap_starts hstarts rfl fun _ => rfl

end

theorem restartResult_terminated (hr : restartResult isGone sid pid s r = .ok (s', effects))
    (hid : id ∈ terminated effects) : ∃ failed, r = some (.failed failed) := by
  cases r with
  | none => cases hr
  | some r =>
    cases r with
    | failed service' => exact ⟨service', rfl⟩
    | started service' =>
      cases hr
      rw [terminated_starts] at hid
      cases hid
    | _ =>
      cases hr
      cases hid

/-! ## the calls and the casts -/

theorem handleMonitor_handled (sid : σ) (service : Service Pid α) (h : Grouped s.services)
    (hunlisted : ∀ q ∈ started.getD [], Unlisted s.services q) :
    Handled s (.monitor sid service started) (handleMonitor sid service started s).1
      (handleMonitor sid service started s).2 := by
  cases started with
  | none =>
    have hevolves : Evolves sid [] [] [] s s [.start sid] :=
      restart_evolves h.owned fun e he => .inl (mem_singleton.mp he)
    exact hevolves.handled rfl (fun _ hp => by cases hp) rfl
      (fun _ hid => absurd hid not_mem_nil) (.inr fun _ => mem_nil_iff _)
  | some pids =>
    let serviceNew :=
      newServiceProcess { service with restartCountTotal := 0 } service.processIndex pids
    have hevolves := start_evolves sid serviceNew h.owned
      fun p hp => (hunlisted p hp).instances_none h
    refine .advances { hevolves with
      concerns := rfl
      down := fun _ hp => by cases hp
      pids := ?_
      again_eq := rfl
      exclusive := .inl rfl
      placed := ?_
      sorted := pairwise_singleton _ _
      removes := ?_
      drops := .inr fun _ => mem_nil_iff _ }
    · simp [Message.pids, Service.toInstance, serviceNew, newServiceProcess]
    · intro y hy
      rw [mem_singleton.mp hy]
      exact ⟨Option.some_ne_none pids, rfl⟩
    · intro id hid
      have hnone : terminated (.start sid :: pids.map .monitor :
          List (Effect σ Pid α)) = [] := terminated_starts sid pids
      exact absurd (hnone ▸ hid) not_mem_nil

theorem handleShutdown_handled (h : Grouped s.services)
    (hr : handleShutdown isGone sid s = .ok (s', effects)) :
    Handled s (.shutdown sid) s' effects := by
  rw [handleShutdown] at hr
  cases hfind : Key2value.find1 sid s.services with
  | none =>
    rw [hfind] at hr
    cases hr
    exact .same ⟨h.owned, fun _ => rfl, nofun⟩ (fun _ _ => .inr) nofun
  | some x =>
    rw [hfind] at hr
    have hevolves := terminateAll_evolves h.owned (allOf_find1 h.owned hfind)
      (free_find1 h.owned hfind) hr
    have hpresent := present_of_find1 h.owned hfind
    refine hevolves.handled hpresent (fun _ hp => by cases hp) rfl (fun id hid => ?_)
      (.inl (terminateAll_terminated hr))
    obtain rfl := hevolves.eq_of_terminated hid
    exact ⟨rfl, hpresent⟩

theorem handleChange_handled (h : Grouped s.services)
    (hr : handleChange pid period entry s = .ok (s', effects)) :
    Handled s (.change pid period entry) s' effects := by
  rw [handleChange, findPid_eq h.owned, Except.ok_bind] at hr
  cases hrecord : record s.services pid with
  | none =>
    rw [hrecord] at hr
    cases hr
    exact .same ⟨h.owned, fun _ => rfl, nofun⟩ (fun _ _ => .inr) nofun
  | some x =>
    obtain ⟨sid, service⟩ := x
    have hpresent := present_of_record hrecord
    rw [hrecord] at hr
    dsimp only at hr
    cases hfind : Maps.find sid s.changes with
    | some change =>
      rw [hfind] at hr
      cases hr
      exact .asked ⟨h.owned, fun _ => rfl, nofun⟩
        ⟨pid, period, entry, sid, change, rfl, hpresent, rfl, .inl hfind⟩
    | none =>
      rw [hfind] at hr
      cases hr
      refine .asked ⟨h.owned, fun _ => rfl, fun e he => ?_⟩
        ⟨pid, period, entry, sid, { period, changes := [] }, rfl, hpresent, rfl, .inr rfl⟩
      exact ⟨period, sid, mem_singleton.mp he⟩

theorem handleTerminateBegin_handled (h : Grouped s.services)
    (hr : handleTerminateBegin pid timeTerminate s = .ok (s', effects)) :
    Handled s (.terminateBegin pid timeTerminate) s' effects := by
  rw [handleTerminateBegin, findPid_eq h.owned, Except.ok_bind] at hr
  cases hrecord : record s.services pid with
  | none =>
    rw [hrecord] at hr
    cases hr
    exact .same ⟨h.owned, fun _ => rfl, nofun⟩ (fun _ _ => .inr) nofun
  | some x =>
    obtain ⟨sid, service⟩ := x
    rw [hrecord] at hr
    cases hr
    have hinstance := instances_of_record hrecord
    have hfree : FreeFor s.services sid pid := by
      intro x hx
      rw [hinstance, Option.some.injEq] at hx
      rw [← hx]
      rfl
    refine .same ⟨h.owned.store hfree, fun q => ?_, nofun⟩ (fun _ _ => .inr) nofun
    rw [instances_store h.owned hfree]
    by_cases hq : pid = q
    · rw [if_pos hq, ← hq, hinstance]
      rfl
    · rw [if_neg hq]

/-! ## the changes of the process count -/

theorem Evolves.of_remove (h : Evolves sid dropped again new
      { s with changes := Maps.remove sid s.changes } s' effects) :
    Evolves sid dropped again new s s' effects :=
  { h with
    changes := fun id change hchange => by
      rcases h.changes id change hchange with hterminated | hkept
      · exact .inl hterminated
      · rw [Maps.find_remove] at hkept
        by_cases hid : sid = id
        · rw [if_pos hid] at hkept
          cases hkept
        · rw [if_neg hid] at hkept
          exact .inr hkept }

theorem pidsChangeCheck_handled {starts : List (Started Pid)} (h : Grouped s.services)
    (hnodup : (starts.flatMap fun started => started.getD []).Nodup)
    (hunlisted : ∀ q ∈ starts.flatMap fun started => started.getD [], Unlisted s.services q)
    (hr : pidsChangeCheck sid starts s = .ok (s', effects)) :
    Handled s (.changes sid starts) s' effects := by
  rw [pidsChangeCheck] at hr
  cases hfind : Maps.find sid s.changes with
  | none =>
    rw [hfind] at hr
    cases hr
    exact .same ⟨h.owned, fun _ => rfl, nofun⟩ (fun _ _ => .inr) nofun
  | some input =>
    rw [hfind] at hr
    dsimp only at hr
    by_cases hterminated : input.terminated = true
    · rw [if_pos hterminated] at hr
      by_cases hempty : input.changes = []
      · rw [if_pos hempty] at hr
        cases hr
        refine .same ⟨h.owned, fun _ => rfl, nofun⟩ (fun id change hchange => ?_) nofun
        dsimp only at hchange
        rw [Maps.find_remove] at hchange
        by_cases hid : sid = id
        · rw [if_pos hid] at hchange
          cases hchange
        · rw [if_neg hid] at hchange
          exact .inr hchange
      · rw [if_neg hempty] at hr
        cases hr
        refine .same ⟨h.owned, fun _ => rfl, fun e he => ?_⟩ (fun id change hchange => ?_) nofun
        · exact ⟨_, sid, mem_singleton.mp he⟩
        · dsimp only at hchange
          rw [Maps.find_put] at hchange
          by_cases hid : sid = id
          · rw [if_pos hid, Option.some.injEq] at hchange
            rw [← hchange]
            exact .inl hterminated
          · rw [if_neg hid] at hchange
            exact .inr hchange
    · rw [if_neg hterminated] at hr
      obtain ⟨new, hchanged⟩ := pidsChangeNow_changed
        (s := { s with changes := Maps.remove sid s.changes }) h hnodup hunlisted hr
      have hevolves := hchanged.evolves.of_remove
      have hrewrites : (Message.changes sid starts).rewrites s =
          rewritten sid input.changes s.services := by
        simp [Message.rewrites, hfind, hterminated]
      exact .advances { hevolves with
        concerns := ⟨rfl, input, hfind, by simpa using hterminated⟩
        down := nofun
        pids := hchanged.pids
        again_eq := by rw [hrewrites]
        exclusive := .inr rfl
        placed := fun y hy p x hx hid =>
          hchanged.above y hy p x hx (hid.trans (hevolves.new_id y hy))
        sorted := hchanged.sorted
        removes := fun id hid => by
          rw [hchanged.quiet] at hid
          cases hid
        drops := .inr fun _ => mem_nil_iff _ }

/-! ## deaths and restarts -/

/-- **The death of a process for an error**: its processes are erased. -/
theorem restartStage1_handled (h : Grouped s.services)
    (hrecord : record s.services pid = some (sid, service))
    (hunlisted : ∀ q ∈ started.getD [], Unlisted s.services q)
    (hr : restartStage1 isGone readings started service sid pid s = .ok (s', effects)) :
    Handled s (.down pid .error readings started) s' effects := by
  rw [restartStage1] at hr
  obtain ⟨⟨services, exits⟩, hterminate, hr⟩ := Except.ok_of_bind hr
  obtain ⟨⟨s'', effects'⟩, hresult, hr⟩ := Except.ok_of_bind hr
  cases hr
  have hinstance := instances_of_record hrecord
  obtain ⟨howned, hstops, hinstances⟩ := terminateService_spec h.owned hterminate
  have hstarted : ∀ service', service.restarted readings started = some (.started service') →
      started = some service'.pids ∧ service'.processIndex = service.processIndex := by
    intro service' hservice'
    have hstage2 := restartStage2_started hservice'
    exact hstage2
  have hpids := restartNew_pids sid fun service' hservice' =>
    (hstarted service' hservice').1
  have hnew : ∀ y ∈ restartNew sid (service.restarted readings started), ∀ p ∈ y.pids,
      instances services p = none := by
    intro y hy p hp
    have hun := hunlisted p (hpids.subset (mem_flatMap.mpr ⟨y, hy, hp⟩))
    cases hstored : instances services p with
    | none => rfl
    | some x =>
      have hbefore := ((hinstances p x).mp hstored).1
      rw [hun.instances_none h] at hbefore
      cases hbefore
  have hfree : ∀ p ∈ service.pids, FreeFor s.services sid p := by
    intro p hp x hx
    rw [h.same p pid x _ p hx hinstance (h.mem p x hx) hp]
    rfl
  obtain ⟨dropped, hevolves, hdrops⟩ := restartResult_evolves howned hnew hresult
  have hadvances := hevolves.after_stops hfree hstops hinstances
  exact .advances { hadvances with
                    concerns := present_of_record hrecord
                    down := fun p hp => by
                      cases hp
                      exact mem_append_left _ (h.mem pid _ hinstance)
                    pids := hpids
                    again_eq := rfl
                    exclusive := .inl rfl
                    placed := fun y hy => by
                      obtain ⟨service', hservice', rfl⟩ := mem_restartNew hy
                      exact ⟨_, hinstance, (hstarted service' hservice').2,
                        subset_append_left _ _⟩
                    sorted := restartNew_sorted
                    removes := fun id hid => by
                      obtain rfl := hadvances.eq_of_terminated hid
                      rw [terminated, filterMap_append,
                        filterMap_stops hstops (fun _ => rfl) fun _ => rfl] at hid
                      exact ⟨service, hrecord, .inr (.inr ⟨rfl, restartResult_terminated hresult hid⟩)⟩
                    drops := hdrops.imp (fun hid => by
                        rw [terminated, filterMap_append]
                        exact mem_append_right _ hid)
                      fun hnil p => by
                        rw [hnil, append_nil]
                        refine ⟨fun hp => ⟨_, hinstance, hp⟩, fun hlost => ?_⟩
                        obtain ⟨x, hx, hp⟩ := hlost
                        rw [hinstance, Option.some.injEq] at hx
                        rwa [← hx] at hp }

theorem handleDown_handled (h : Grouped s.services)
    (hunlisted : ∀ q ∈ started.getD [], Unlisted s.services q)
    (hr : handleDown isGone pid reason readings started s = .ok (s', effects)) :
    Handled s (.down pid reason readings started) s' effects := by
  rw [handleDown, findPid_eq h.owned, Except.ok_bind] at hr
  cases hrecord : record s.services pid with
  | none =>
    rw [hrecord] at hr
    cases hr
    refine .same ⟨h.owned, fun _ => rfl, forall_mem_nil _⟩ (fun _ _ => .inr) fun p hp => ?_
    cases hp
    rw [instances, hrecord]
    rfl
  | some x =>
    obtain ⟨sid, service⟩ := x
    rw [hrecord] at hr
    dsimp only at hr
    have hpresent := present_of_record hrecord
    have hinstance := instances_of_record hrecord
    have hall (hreason : reason = .shutdown ∨ reason = .shutdownReason)
        (hr : (fetchService sid s.services >>= fun x =>
          terminateAll isGone x.1 sid (some pid) false true s) = .ok (s', effects)) :
        Handled s (.down pid reason readings started) s' effects := by
      obtain ⟨⟨pids, service'⟩, hfetch, hr⟩ := Except.ok_of_bind hr
      have hfind := find1_of_fetchService hfetch
      have hevolves := terminateAll_evolves h.owned (allOf_find1 h.owned hfind)
        (free_find1 h.owned hfind) hr
      refine hevolves.handled hpresent (fun p hp => ?_) rfl (fun id hid => ?_)
        (.inl (terminateAll_terminated hr))
      · cases hp
        exact allOf_find1 h.owned hfind pid _ hinstance rfl
      · obtain rfl := hevolves.eq_of_terminated hid
        exact ⟨service, hrecord, hreason.imp_right .inl⟩
    cases reason with
    | shutdown => exact hall (.inl rfl) hr
    | shutdownReason => exact hall (.inr rfl) hr
    | countProcessDynamicTerminate =>
      cases hr
      have hfree : FreeFor s.services sid pid := by
        intro x hx
        rw [hinstance, Option.some.injEq] at hx
        rw [← hx]
        rfl
      have hevolves := erase_evolves h.owned hfree
      exact hevolves.handled hpresent
        (fun p hp => mem_singleton.mpr (Option.some.inj hp).symm) rfl
        (fun _ hid => absurd hid not_mem_nil) (.inr fun _ => mem_singleton)
    | error => exact restartStage1_handled h hrecord hunlisted hr

omit [LinearOrder σ] [LinearOrder Pid] in
/-- A restart starts the instance of its own record. -/
theorem Restarting.restarted_started (message : Restarting σ Pid α) {service' : Service Pid α}
    (h : message.restarted readings started = some (.started service')) :
    started = some service'.pids ∧ service'.processIndex = message.service.processIndex := by
  rw [Restarting.restarted] at h
  cases hstage : message.stage with
  | stage2 =>
    rw [hstage] at h
    exact restartStage2_started h
  | stage3 =>
    rw [hstage] at h
    exact restartStage3_started h

theorem handleRestart_handled {message : Restarting σ Pid α}
    (h : Grouped s.services) (hunlisted : ∀ q ∈ started.getD [], Unlisted s.services q)
    (hr : handleRestart isGone message readings started s = .ok (s', effects)) :
    Handled s (.restart message readings started) s' effects := by
  have hresult : restartResult isGone message.serviceId message.pid s
      (message.restarted readings started) = .ok (s', effects) := hr
  have hstarted : ∀ service', message.restarted readings started = some (.started service') →
      started = some service'.pids :=
    fun _ hservice' => (message.restarted_started hservice').1
  have hpids := restartNew_pids message.serviceId hstarted
  obtain ⟨dropped, hevolves, hdrops⟩ := restartResult_evolves h.owned (fun y hy p hp =>
    (hunlisted p (hpids.subset (mem_flatMap.mpr ⟨y, hy, hp⟩))).instances_none h) hresult
  exact .advances { hevolves with
    concerns := rfl
    down := nofun
    pids := hpids
    again_eq := rfl
    exclusive := .inl rfl
    placed := fun y hy => hy
    sorted := restartNew_sorted
    removes := fun id hid => by
      obtain rfl := hevolves.eq_of_terminated hid
      exact ⟨rfl, restartResult_terminated hresult hid⟩
    drops := hdrops.imp_right fun hnil _ => by
      rw [hnil]
      exact mem_nil_iff _ }

/-! ## all messages -/

/-- **What a message comes to**, when the processes that it brings are new. -/
theorem handle_handled {m : Message σ Pid α} (h : Grouped s.services)
    (hnodup : m.pids.Nodup) (hunlisted : ∀ q ∈ m.pids, Unlisted s.services q)
    (hr : handle isGone s m = .ok (s', effects)) : Handled s m s' effects := by
  cases m with
  | monitor sid service started =>
    have heq : handleMonitor sid service started s = (s', effects) := Except.ok.inj hr
    have hhandled := handleMonitor_handled sid service h hunlisted
    rwa [heq] at hhandled
  | shutdown sid => exact handleShutdown_handled h hr
  | update serviceIds argumentsNew =>
    rw [handle] at hr
    cases hupdate : updateService serviceIds argumentsNew s.services with
    | error failure =>
      rw [hupdate] at hr
      cases hr
    | ok services =>
      rw [hupdate] at hr
      cases hr
      obtain ⟨howned, hinstances⟩ := updateService_spec h.owned hupdate
      exact .same ⟨howned, hinstances, nofun⟩ (fun _ _ => .inr) nofun
  | change pid period entry => exact handleChange_handled h hr
  | terminateBegin pid timeTerminate => exact handleTerminateBegin_handled h hr
  | changes sid starts => exact pidsChangeCheck_handled h hnodup hunlisted hr
  | down pid reason readings started => exact handleDown_handled h hunlisted hr
  | restart message readings started => exact handleRestart_handled h hunlisted hr

end CloudI.ServicesMonitor
