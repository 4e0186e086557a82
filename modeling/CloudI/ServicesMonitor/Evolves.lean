import CloudI.ServicesMonitor.Run

/-!
# ServicesMonitor.Evolves

What one message can do to the stored instances (`handle_evolves`).  Every handler is
about one service.  An instance that is stored afterwards was stored before for the same
process, or was started by the message, or a change of the process count stored a
process again that its record lists (`Evolves.origin`).

`Grouped` is the invariant that holds in all runs: the records of one instance agree.
-/

namespace CloudI.ServicesMonitor

open List Option

variable {σ Pid α : Type} [LinearOrder σ] [LinearOrder Pid]

/-- The service that an effect is about. -/
def Effect.serviceId? : Effect σ Pid α → Option σ
  | .start sid | .changes _ sid | .terminated sid _ => some sid
  | .restart _ message => some message.serviceId
  | _ => none

/-- Nothing is left of a service but a change that is not taken. -/
structure Absent (sid : σ) (s : State σ Pid α) : Prop where
  instances : ∀ pid x, instances s.services pid = some x → x.serviceId ≠ sid
  changes : ∀ change, Maps.find sid s.changes = some change → change.terminated = true

/-- **What a handler does**, for one service: the processes `dropped` are erased, the processes
`again` are stored with the instance that lists them, and the instances `new` are started. -/
structure Evolves (sid : σ) (dropped again : List Pid)
    (new : List (ServiceInstance σ Pid)) (s s' : State σ Pid α)
    (effects : List (Effect σ Pid α)) : Prop where
  owned : Owned s'.services
  origin : ∀ q y, instances s'.services q = some y →
    (instances s.services q = some y ∧ ¬ (q ∈ dropped ∧ y.serviceId = sid)) ∨
      (y ∈ new ∧ q ∈ y.pids) ∨
      (q ∈ again ∧ ∃ p, instances s.services p = some y ∧ q ∈ y.pids)
  free : ∀ p ∈ dropped, FreeFor s.services sid p
  monitor : monitored effects = new.flatMap ServiceInstance.pids
  new_id : ∀ y ∈ new, y.serviceId = sid
  receive : ∀ p ∈ received effects, p ∈ dropped
  only : ∀ e ∈ effects, ∀ id ∈ e.serviceId?, id = sid
  changes : ∀ id change, Maps.find id s'.changes = some change →
    change.terminated = true ∨ Maps.find id s.changes = some change
  terminate : sid ∈ terminated effects → Absent sid s' ∧ restartsSent effects = []
  kept : ∀ q y, instances s.services q = some y → ¬ (q ∈ dropped ∧ y.serviceId = sid) →
    (instances s'.services q).isSome = true

/-- The instances stay, and a timer is all that is started. -/
structure Same (s s' : State σ Pid α)
    (effects : List (Effect σ Pid α)) : Prop where
  owned : Owned s'.services
  instances : ∀ q, instances s'.services q = instances s.services q
  effects : ∀ e ∈ effects, ∃ period sid, e = .changes period sid

variable {s s' : State σ Pid α} {effects : List (Effect σ Pid α)}
  {sid : σ} {isGone : Pid → Bool} {oldPid : Option Pid} {pids : List Pid}

/-! ## termination -/

/-- What the termination of processes does. -/
inductive Effect.Stops (pids : List Pid) : Effect σ Pid α → Prop
  | exit {pid : Pid} : Stops pids (.exit pid)
  | receiveDown {pid : Pid} (h : pid ∈ pids) : Stops pids (.receiveDown pid)

omit [LinearOrder σ] [LinearOrder Pid] in
theorem Effect.Stops.mono {pids' : List Pid} (hsub : ∀ p ∈ pids, p ∈ pids')
    {e : Effect σ Pid α} (h : e.Stops pids) : e.Stops pids' := by
  cases h with
  | exit => exact .exit
  | receiveDown hmem => exact .receiveDown (hsub _ hmem)

omit [LinearOrder σ] [LinearOrder Pid] in
theorem filterMap_stops (h : ∀ e ∈ effects, e.Stops pids) (hexit : ∀ pid, f (.exit pid) = none)
    (hdown : ∀ pid, f (.receiveDown pid) = none) : effects.filterMap f = [] := by
  rw [filterMap_eq_nil_iff]
  intro e he
  cases h e he with
  | exit => exact hexit _
  | receiveDown _ => exact hdown _

theorem terminateServicePids_stops (pids' : List Pid) (services : Services σ Pid α) :
    ∀ e ∈ (terminateServicePids sid oldPid pids services).2, e.Stops pids' := by
  induction pids generalizing services with
  | nil => nofun
  | cons pid pids ih =>
    intro e he
    dsimp only [terminateServicePids] at he
    by_cases hold : oldPid = some pid
    · rw [if_pos hold] at he
      exact ih _ e he
    · rw [if_neg hold, mem_cons] at he
      rcases he with rfl | he
      · exact .exit
      · exact ih _ e he

omit [LinearOrder σ] in
theorem terminateServiceWait_stops {gone : List Pid} {r : Unit}
    (h : terminateServiceWait oldPid gone isGone pids = .ok (r, effects)) :
    ∀ e ∈ effects, e.Stops pids := by
  induction pids generalizing gone effects with
  | nil =>
    cases h
    nofun
  | cons pid pids ih =>
    rw [terminateServiceWait] at h
    by_cases hold : oldPid = some pid
    · rw [if_pos hold] at h
      exact fun e he => (ih h e he).mono fun _ => mem_cons_of_mem pid
    · rw [if_neg hold] at h
      by_cases hgone : isGone pid ∨ pid ∈ gone
      · rw [if_pos hgone] at h
        cases h
      · rw [if_neg hgone] at h
        cases hrest : (terminateServiceWait oldPid (pid :: gone) isGone pids :
            Except Failure (Result σ Pid α Unit)) with
        | error failure =>
          rw [hrest] at h
          cases h
        | ok rest =>
          rw [hrest] at h
          cases h
          intro e he
          rcases mem_cons.mp he with rfl | he
          · exact .receiveDown mem_cons_self
          · exact (ih hrest e he).mono fun _ => mem_cons_of_mem pid

variable {block : Bool} {services' : Services σ Pid α} {pid : Pid}
  {x : List Pid × Service Pid α}

theorem terminateService_spec (h : Owned services)
    (hr : terminateService isGone pids sid oldPid block services = .ok (services', effects)) :
    Owned services' ∧ (∀ e ∈ effects, e.Stops pids) ∧ ∀ q x, instances services' q = some x ↔
        instances services q = some x ∧ ¬ (q ∈ pids ∧ x.serviceId = sid) := by
  obtain ⟨howned, hinstances⟩ := terminateServicePids_spec sid oldPid pids h
  have hstops : ∀ e ∈ (terminateServicePids sid oldPid pids services).2, e.Stops pids :=
    terminateServicePids_stops pids services
  dsimp only [terminateService] at hr
  cases block with
  | false =>
    cases hr
    exact ⟨howned, hstops, hinstances⟩
  | true =>
    rw [if_pos rfl] at hr
    cases hwait : (terminateServiceWait oldPid [] isGone pids :
        Except Failure (Result σ Pid α Unit)) with
    | error failure =>
      rw [hwait] at hr
      cases hr
    | ok r =>
      rw [hwait] at hr
      cases hr
      refine ⟨howned, fun e he => ?_, hinstances⟩
      rcases mem_append.mp he with he | he
      · exact hstops e he
      · exact terminateServiceWait_stops hwait e he

/-- A step after the termination of processes. -/
theorem Evolves.after_stops (hfree : ∀ p ∈ pids, FreeFor s.services sid p)
    (hstops : ∀ e ∈ effects, e.Stops pids) (hinstances : ∀ q x, instances services' q = some x ↔
      instances s.services q = some x ∧ ¬ (q ∈ pids ∧ x.serviceId = sid))
    (h : Evolves sid dropped again new { s with services := services' } s' effects') :
    Evolves sid (pids ++ dropped) again new s s' (effects ++ effects') where
  owned := h.owned
  origin q y hy := by
    rcases h.origin q y hy with ⟨hkept, hdropped⟩ | hnew | ⟨hq, p, hp, hmem⟩
    · obtain ⟨hbefore, hpids⟩ := (hinstances q y).mp hkept
      refine .inl ⟨hbefore, fun hand => ?_⟩
      rcases mem_append.mp hand.1 with hin | hin
      · exact hpids ⟨hin, hand.2⟩
      · exact hdropped ⟨hin, hand.2⟩
    · exact .inr (.inl hnew)
    · exact .inr (.inr ⟨hq, p, ((hinstances p y).mp hp).1, hmem⟩)
  free p hp x hx := by
    by_cases hpids : p ∈ pids
    · exact hfree p hpids x hx
    · have hkept : instances services' p = some x :=
        (hinstances p x).mpr ⟨hx, fun hand => hpids hand.1⟩
      exact h.free p ((mem_append.mp hp).resolve_left hpids) x hkept
  monitor := by
    have hnone : monitored effects = [] := filterMap_stops hstops (fun _ => rfl) fun _ => rfl
    rw [← h.monitor, monitored, filterMap_append, ← monitored, hnone]
    rfl
  new_id := h.new_id
  receive p hp := by
    rw [received, filterMap_append, mem_append] at hp
    rcases hp with hp | hp
    · obtain ⟨e, he, hpe⟩ := mem_filterMap.mp hp
      cases hstops e he with
      | exit => cases hpe
      | receiveDown hmem =>
        cases hpe
        exact mem_append_left _ hmem
    · exact mem_append_right _ (h.receive p hp)
  only e he id hid := by
    rcases mem_append.mp he with he | he
    · cases hstops e he with
      | exit => cases hid
      | receiveDown _ => cases hid
    · exact h.only e he id hid
  changes := h.changes
  terminate hmem := by
    have hterminated : terminated effects = [] := filterMap_stops hstops (fun _ => rfl) fun _ => rfl
    have hrestarts : restartsSent effects = [] := filterMap_stops hstops (fun _ => rfl) fun _ => rfl
    rw [terminated, filterMap_append, ← terminated, hterminated] at hmem
    rw [restartsSent, filterMap_append, ← restartsSent, hrestarts]
    exact h.terminate hmem
  kept q y hy hnot := by
    have hpids : ¬ (q ∈ pids ∧ y.serviceId = sid) :=
      fun hand => hnot ⟨mem_append_left _ hand.1, hand.2⟩
    refine h.kept q y ((hinstances q y).mpr ⟨hy, hpids⟩) fun hand => ?_
    exact hnot ⟨mem_append_right _ hand.1, hand.2⟩

/-- One process is erased. -/
theorem erase_evolves (howned : Owned s.services) (hfree : FreeFor s.services sid pid) :
    Evolves sid [pid] [] [] s
      { s with services := Key2value.erase sid pid s.services } [] where
  owned := howned.erase
  origin q y hy := by
    obtain ⟨hbefore, hne⟩ := (instances_erase howned).mp hy
    exact .inl ⟨hbefore, fun hand => hne ⟨(mem_singleton.mp hand.1).symm, hand.2⟩⟩
  free p hp := by
    rw [mem_singleton.mp hp]
    exact hfree
  monitor := rfl
  new_id := nofun
  receive := nofun
  only := nofun
  changes _ _ := .inr
  terminate := nofun
  kept q y hy hnot := by
    refine isSome_of_mem ((instances_erase howned).mpr ⟨hy, fun hand => hnot ?_⟩)
    exact ⟨mem_singleton.mpr hand.1.symm, hand.2⟩

/-- `terminated_service` of a service without processes. -/
theorem terminatedService_evolves (configurationRemove : Bool) (howned : Owned s.services)
    (hnone : ∀ pid x, instances s.services pid = some x → x.serviceId ≠ sid) :
    Evolves sid [] [] [] s (terminatedService sid configurationRemove s).1
      (terminatedService sid configurationRemove s).2 where
  owned := howned
  origin q y hy := .inl ⟨hy, nofun⟩
  free := nofun
  monitor := rfl
  new_id := nofun
  receive := nofun
  only e he id hid := by
    rcases mem_singleton.mp he with rfl
    cases hid
    rfl
  changes id change hchange := by
    rw [terminatedService] at hchange
    cases hold : Maps.find sid s.changes with
    | none =>
      rw [hold] at hchange
      exact .inr hchange
    | some old =>
      rw [hold] at hchange
      dsimp only at hchange
      rw [Maps.find_put] at hchange
      by_cases hid : sid = id
      · rw [if_pos hid, Option.some.injEq] at hchange
        rw [← hchange]
        exact .inl rfl
      · rw [if_neg hid] at hchange
        exact .inr hchange
  terminate _ := by
    refine ⟨⟨hnone, fun change hchange => ?_⟩, rfl⟩
    rw [terminatedService] at hchange
    cases hold : Maps.find sid s.changes with
    | none =>
      rw [hold] at hchange
      dsimp only at hchange
      rw [hold] at hchange
      cases hchange
    | some old =>
      rw [hold] at hchange
      dsimp only at hchange
      rw [Maps.find_put, if_pos rfl, Option.some.injEq] at hchange
      rw [← hchange]
  kept q y hy _ := isSome_of_mem hy

/-- All processes of a service are among `pids`. -/
def AllOf (sid : σ) (pids : List Pid) (services : Services σ Pid α) : Prop :=
  ∀ q x, instances services q = some x → x.serviceId = sid → q ∈ pids

theorem allOf_find1 (howned : Owned s.services)
    (h : Key2value.find1 sid s.services = some x) : AllOf sid x.1 s.services := by
  intro q y hy hid
  rw [← Key2value.keys2_of_find1 h]
  exact (mem_keys2_iff_instances howned).mpr ⟨y, hy, hid⟩

theorem free_find1 (howned : Owned s.services) (h : Key2value.find1 sid s.services = some x) :
    ∀ p ∈ x.1, FreeFor s.services sid p := by
  intro p hp y hy
  rw [← Key2value.keys2_of_find1 h, mem_keys2_iff_instances howned] at hp
  obtain ⟨z, hz, hid⟩ := hp
  rw [hy, Option.some.injEq] at hz
  rw [hz, hid]

theorem terminateAll_terminated (hr : terminateAll isGone pids sid oldPid block
    configurationRemove s = .ok (s', effects)) : sid ∈ terminated effects := by
  obtain ⟨⟨services, exits⟩, _, hr⟩ := Except.ok_of_bind hr
  cases hr
  rw [terminated, filterMap_append]
  exact mem_append_right _ mem_cons_self

theorem terminateAll_evolves (howned : Owned s.services) (hall : AllOf sid pids s.services)
    (hfree : ∀ p ∈ pids, FreeFor s.services sid p)
    (hr : terminateAll isGone pids sid oldPid block configurationRemove s =
      .ok (s', effects)) : Evolves sid pids [] [] s s' effects := by
  obtain ⟨⟨services, exits⟩, hterminate, hr⟩ := Except.ok_of_bind hr
  cases hr
  obtain ⟨howned', hstops, hinstances⟩ := terminateService_spec howned hterminate
  have hnone : ∀ pid x, instances services pid = some x → x.serviceId ≠ sid := by
    intro pid x hx hid
    obtain ⟨hbefore, hpids⟩ := (hinstances pid x).mp hx
    exact hpids ⟨hall pid x hbefore hid, hid⟩
  have h := Evolves.after_stops hfree hstops hinstances
    (terminatedService_evolves (s := { s with services }) configurationRemove howned' hnone)
  rwa [append_nil] at h

/-! ## starts and restarts -/

/-- **The processes of a new instance are stored.** -/
theorem start_evolves (sid : σ) (service : Service Pid α) (howned : Owned s.services)
    (hnew : ∀ p ∈ service.pids, instances s.services p = none) :
    Evolves sid [] [] [service.toInstance sid] s
      { s with services := storePids sid service service.pids s.services }
      (.start sid :: service.pids.map .monitor) := by
  have hfree : ∀ p ∈ service.pids, FreeFor s.services sid p := by
    intro p hp x hx
    rw [hnew p hp] at hx
    cases hx
  have hstart : ∀ l : List Pid,
      monitored (l.map .monitor : List (Effect σ Pid α)) = l := by
    intro l
    induction l with
    | nil => rfl
    | cons p l ih =>
      show p :: monitored (l.map .monitor) = p :: l
      rw [ih]
  refine ⟨(storePids_spec howned hfree).1, fun q y hy => ?_, nofun, ?_, ?_, ?_, ?_,
    fun _ _ => .inr, ?_, fun q y hy _ => ?_⟩
  · rw [instances_storePids howned hfree] at hy
    by_cases hq : q ∈ service.pids
    · rw [if_pos hq, Option.some.injEq] at hy
      subst hy
      exact .inr (.inl ⟨mem_singleton.mpr rfl, hq⟩)
    · rw [if_neg hq] at hy
      exact .inl ⟨hy, nofun⟩
  · show monitored (service.pids.map .monitor) = _
    rw [hstart]
    simp [Service.toInstance]
  · intro y hy
    rw [mem_singleton.mp hy]
    rfl
  · intro p hp
    simp [received, Effect.receiveDown?] at hp
  · intro e he id hid
    rcases mem_cons.mp he with rfl | he
    · cases hid
      rfl
    · obtain ⟨p, _, rfl⟩ := List.mem_map.mp he
      cases hid
  · intro hmem
    simp [terminated, Effect.terminated?] at hmem
  · rw [instances_storePids howned hfree]
    split
    · rfl
    · exact isSome_of_mem hy

variable {readings : Readings} {started : Started Pid} {service service' : Service Pid α}

section
omit [LinearOrder Pid]

theorem restartStart_started (h : restartStart readings started service = some (.started service')) :
    started = some service'.pids ∧ service'.processIndex = service.processIndex := by
  unfold restartStart Service.attempt at h
  cases started with
  | none => split at h <;> simp at h
  | some pids =>
    split at h
    · cases h
      exact ⟨rfl, rfl⟩
    · split at h
      · cases h
      · cases h
        exact ⟨rfl, rfl⟩

theorem restartStage3_started (h : restartStage3 readings started service = some (.started service')) :
    started = some service'.pids ∧ service'.processIndex = service.processIndex := by
  unfold restartStage3 at h
  split at h
  · exact restartStart_started h
  · split at h
    · dsimp only at h
      split at h
      · have hstarted := restartStart_started h
        exact hstarted
      · cases h
    · exact restartStart_started h

theorem restartStage2_started (h : restartStage2 readings started service = some (.started service')) :
    started = some service'.pids ∧ service'.processIndex = service.processIndex := by
  unfold restartStage2 at h
  split at h
  · cases h
  · split at h
    · exact restartStage3_started h
    · dsimp only at h
      split at h
      · have hstarted := restartStage3_started h
        exact hstarted
      · split at h <;> cases h

end

/-- The instances that a restart starts. -/
def restartNew (sid : σ) :
    Option (Restarted Pid α) → List (ServiceInstance σ Pid)
  | some (.started service) => [service.toInstance sid]
  | _ => []

/-- A step that only sends a message of a restart. -/
theorem restart_evolves (howned : Owned s.services)
    (h : ∀ e ∈ effects, e = .start sid ∨ ∃ delay message,
      e = .restart delay message ∧ message.serviceId = sid) : Evolves sid [] [] [] s s effects := by
  have hnil {β : Type} {f : Effect σ Pid α → Option β}
      (hstart : f (.start sid) = none) (hrestart : ∀ delay message,
        f (.restart delay message) = none) : effects.filterMap f = [] := by
    rw [filterMap_eq_nil_iff]
    intro e he
    rcases h e he with rfl | ⟨delay, message, rfl, _⟩
    · exact hstart
    · exact hrestart delay message
  refine ⟨howned, fun q y hy => .inl ⟨hy, nofun⟩, nofun, hnil rfl fun _ _ => rfl, nofun, ?_, ?_,
    fun _ _ => .inr, ?_, fun q y hy _ => isSome_of_mem hy⟩
  · intro p hp
    rw [received, hnil rfl fun _ _ => rfl] at hp
    cases hp
  · intro e he id hid
    rcases h e he with rfl | ⟨delay, message, rfl, hmessage⟩
    · cases hid
      rfl
    · cases hid
      exact hmessage
  · intro hmem
    rw [terminated, hnil rfl fun _ _ => rfl] at hmem
    cases hmem

theorem restartFailed_evolves (howned : Owned s.services)
    (hr : restartFailed isGone sid s = .ok (s', effects)) :
    ∃ dropped, Evolves sid dropped [] [] s s' effects ∧ sid ∈ terminated effects := by
  rw [restartFailed] at hr
  cases hfind : Key2value.find1 sid s.services with
  | none =>
    rw [hfind] at hr
    cases hr
    refine ⟨[], terminatedService_evolves true howned fun pid x hx hid => ?_, mem_cons_self⟩
    have hmem := (mem_keys2_iff_instances howned).mpr ⟨x, hx, hid⟩
    rw [Key2value.keys2, hfind] at hmem
    cases hmem
  | some x =>
    rw [hfind] at hr
    exact ⟨x.1, terminateAll_evolves howned (allOf_find1 howned hfind) (free_find1 howned hfind) hr,
      terminateAll_terminated hr⟩

/-- A stage of a restart erases processes only with the whole service. -/
theorem restartResult_evolves (howned : Owned s.services)
    (hnew : ∀ y ∈ restartNew sid r, ∀ p ∈ y.pids, instances s.services p = none)
    (hr : restartResult isGone sid pid s r = .ok (s', effects)) :
    ∃ dropped, Evolves sid dropped [] (restartNew sid r) s s' effects ∧
      (sid ∈ terminated effects ∨ dropped = []) := by
  cases r with
  | none => cases hr
  | some r =>
    cases r with
    | failed service =>
      obtain ⟨dropped, hevolves, hterminated⟩ := restartFailed_evolves howned hr
      exact ⟨dropped, hevolves, .inl hterminated⟩
    | delayed delay service =>
      cases hr
      refine ⟨[], restart_evolves howned fun e he => ?_, .inr rfl⟩
      rw [mem_singleton.mp he]
      exact .inr ⟨_, _, rfl, rfl⟩
    | started service =>
      cases hr
      exact ⟨[], start_evolves sid service howned (hnew _ (mem_singleton.mpr rfl)),
        .inr rfl⟩
    | again service =>
      cases hr
      refine ⟨[], restart_evolves howned fun e he => ?_, .inr rfl⟩
      rcases mem_cons.mp he with rfl | he
      · exact .inl rfl
      · rw [mem_singleton.mp he]
        exact .inr ⟨_, _, rfl, rfl⟩

end CloudI.ServicesMonitor
