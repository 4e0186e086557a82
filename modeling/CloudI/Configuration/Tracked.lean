import CloudI.Configuration.Services
import CloudI.ServicesMonitor.Held

/-!
# Configuration.Tracked

The configuration tracks the running services: after each call, a service that has a process in
the services monitor is in the configuration, and a service whose shutdown succeeded in
`services_remove` is not (`tracked_of_steps`).

Four things break this.  `service_start` that fails leaves the processes it started before to
the services monitor, and the configuration does not get the service.  `services_remove` that
fails throws away what it removed before; so does the removal of a module that fails, after the
shutdown of its service.  And a restart that is pending when a service is terminated brings a
process of it back (`CloudI.ServicesMonitor.Removed`).  The runs without these are `Recorded`.
-/

namespace CloudI.Configuration

open Run List Option
open ServicesMonitor (allRemoved_next consistent_next held_of_next)
open ServicesMonitor (Service Started Consistent AllRemoved NoPendingRestart
  Held)

variable {σ Pid α Name ρ : Type} [LinearOrder σ] [LinearOrder Pid]

/-- **The configuration tracks the services**: the services with processes are listed, and the
services that were stopped are not. -/
def Tracked (w : World σ Pid α Name ρ) : Prop :=
  (∀ id, Key2value.find1 id w.monitor.state.services ≠ none → id ∈ uuids w.services) ∧
    ∀ id ∈ w.stopped, id ∉ uuids w.services

/-! ## the invariant -/

/-- The services of a call of `services_add` that can have processes. -/
def starting : Option (Call σ Pid α Name ρ) → List σ
  | some (.find _ adding) => uuids adding.added
  | some (.monitor _ pids service adding) =>
      if pids = [] then uuids adding.added else service.uuid :: uuids adding.added
  | some (.initEnd _ _ service adding) => service.uuid :: uuids adding.added
  | _ => []

/-- Service ids that were made and not stopped. -/
def Fresh (w : World σ Pid α Name ρ) (ids : List σ) : Prop :=
  ∀ id ∈ ids, id ∈ w.used ∧ id ∉ w.stopped

/-- A call of `services_remove` is to stop the services `left`, and `services` are to stay. -/
structure RemovingFrom (w : World σ Pid α Name ρ)
    (left services : List (ConfigService σ Pid α Name))
    (stopped : List σ) : Prop where
  nodup : (uuids left).Nodup
  disjoint : ∀ id ∈ uuids left, id ∉ uuids services
  listed : ∀ id, id ∈ uuids left ∨ id ∈ uuids services → id ∈ uuids w.services
  held : ∀ id, Held id w.monitor → id ∈ uuids left ∨ id ∈ uuids services
  stopped : ∀ id ∈ stopped, id ∈ w.used ∧ id ∉ uuids left ∧ id ∉ uuids services

/-- What holds within a call. -/
def CallInvariant (w : World σ Pid α Name ρ) :
    Option (Call σ Pid α Name ρ) → Prop
  | some (.find service adding) | some (.monitor _ _ service adding)
  | some (.initEnd _ _ service adding) =>
      Fresh w (service.uuid :: (uuids adding.services ++ uuids adding.added))
  | some (.shutdown service _ removing) =>
      RemovingFrom w (service :: removing.removeServices) removing.services removing.stopped
  | some (.remove _ removing) =>
      RemovingFrom w removing.removeServices removing.services removing.stopped
  | _ => True

/-- What holds whatever the call waits for. -/
structure Settled (w : World σ Pid α Name ρ) : Prop where
  consistent : Consistent w.monitor
  removed : AllRemoved w.monitor
  casts : ∀ id ∈ w.casts, id ∈ w.monitor.removed
  made : ∀ id ∈ uuids w.services, id ∈ w.used
  stopped : ∀ id ∈ w.stopped, id ∈ w.used ∧ id ∉ uuids w.services

/-- **The invariant of the runs**: a service that the services monitor holds is listed, or the
call of `services_add` has its processes. -/
structure Invariant (w : World σ Pid α Name ρ) : Prop
    extends Settled w where
  held : ∀ id, Held id w.monitor → id ∈ uuids w.services ∨ id ∈ starting w.call
  call : CallInvariant w w.call

variable {w w' : World σ Pid α Name ρ} {id : σ}
  {service : ConfigService σ Pid α Name}
  {services left removeServices : List (ConfigService σ Pid α Name)}
  {adding : Adding σ Pid α Name} {removing : Removing σ Pid α Name}

section
omit [LinearOrder σ] [LinearOrder Pid]

theorem mem_uuids_reverse : id ∈ uuids services.reverse ↔ id ∈ uuids services := by
  simp [uuids]

theorem mem_uuids_append :
    id ∈ uuids (services ++ left) ↔ id ∈ uuids services ∨ id ∈ uuids left := by
  simp [uuids]

theorem mem_uuids_cons :
    id ∈ uuids (service :: services) ↔ id = service.uuid ∨ id ∈ uuids services := by
  simp [uuids]

end

/-! ## calls that return -/

theorem Settled.replies (h : Settled w) (hheld : ∀ id, Held id w.monitor → id ∈ uuids w.services)
    (reply : Reply σ ρ) : Invariant (w.turn (.replies reply w.services [])) where
  consistent := h.consistent
  removed := h.removed
  casts := h.casts
  made := h.made
  stopped := h.stopped
  held id hid := .inl (hheld id hid)
  call := trivial

/-- A call of `services_add` returns with the services that it added. -/
theorem Settled.replies_added (h : Settled w)
    (hheld : ∀ id, Held id w.monitor → id ∈ uuids w.services ∨ id ∈ uuids adding.added)
    (hfresh : Fresh w (uuids adding.added)) (reply : Reply σ ρ) :
    Invariant (w.turn (.replies reply (w.services ++ adding.added.reverse) [])) where
  consistent := h.consistent
  removed := h.removed
  casts := h.casts
  made id hid := by
    rcases mem_uuids_append.mp hid with hlisted | hadded
    · exact h.made id hlisted
    · exact (hfresh id (mem_uuids_reverse.mp hadded)).1
  stopped id hid := by
    refine ⟨(h.stopped id hid).1, fun hmem => ?_⟩
    rcases mem_uuids_append.mp hmem with hlisted | hadded
    · exact (h.stopped id hid).2 hlisted
    · exact (hfresh id (mem_uuids_reverse.mp hadded)).2 hid
  held id hid := by
    refine .inl (mem_uuids_append.mpr ?_)
    rw [mem_uuids_reverse]
    exact hheld id hid
  call := trivial

variable {call : Call σ Pid α Name ρ} {ids stopped : List σ}
  {id' : σ} {pids : List Pid} {e : Event σ Pid α Name ρ}
  {events : List (Event Nat Nat Unit Nat Unit)}

theorem Settled.waits (h : Settled w)
    (hheld : ∀ id, Held id w.monitor → id ∈ uuids w.services ∨ id ∈ starting (some call))
    (hcall : CallInvariant w (some call)) : Invariant (w.turn (.waits call)) where
  consistent := h.consistent
  removed := h.removed
  casts := h.casts
  made := h.made
  stopped := h.stopped
  held := hheld
  call := by
    cases call with
    | shutdown service remove removing =>
      exact ⟨hcall.nodup, hcall.disjoint, hcall.listed, hcall.held, hcall.stopped⟩
    | remove service removing =>
      exact ⟨hcall.nodup, hcall.disjoint, hcall.listed, hcall.held, hcall.stopped⟩
    | _ => exact hcall

/-! ## `services_add` -/

theorem Fresh.mono (h : Fresh w ids) (hsub : ∀ id ∈ ids', id ∈ ids) : Fresh w ids' :=
  fun id hid => h id (hsub id hid)

/-- The loop over the services goes on. -/
theorem Settled.servicesAddService (h : Settled w) (adding : Adding σ Pid α Name)
    (hheld : ∀ id, Held id w.monitor → id ∈ uuids w.services ∨ id ∈ uuids adding.added)
    (hfresh : Fresh w (uuids adding.services ++ uuids adding.added)) :
    Invariant (w.turn (servicesAddService w.services adding)) := by
  rw [Configuration.servicesAddService]
  cases hservices : adding.services with
  | nil =>
    refine h.replies_added hheld (hfresh.mono fun id hid => ?_) _
    exact mem_append_right _ hid
  | cons service servicesNext =>
    rw [hservices] at hfresh
    cases htype : service.type with
    | _ =>
      simp only [serviceStart, htype]
      exact h.waits hheld hfresh

theorem Settled.held_of_removed (h : Settled w) (hremoved : id' ∈ w.monitor.removed)
    (hheld : ∀ id, Held id w.monitor → id ∈ uuids w.services ∨ id ∈ id' :: ids) :
    ∀ id, Held id w.monitor → id ∈ uuids w.services ∨ id ∈ ids := by
  intro id hid
  refine (hheld id hid).imp_right fun hmem => ?_
  rcases mem_cons.mp hmem with rfl | hids
  · exact absurd hid (h.removed.not_held hremoved)
  · exact hids

section Found

variable (h : Settled w)
  (hheld : ∀ id, Held id w.monitor → id ∈ uuids w.services ∨ id ∈ uuids adding.added)
  (hfresh : Fresh w (service.uuid :: (uuids adding.services ++ uuids adding.added)))

include h hheld hfresh

theorem Settled.serviceNotAdded (reason : ErrorReason σ ρ) :
    Invariant (w.turn (serviceNotAdded w.services reason adding)) := by
  refine h.replies_added hheld (hfresh.mono fun id hid => ?_) _
  exact mem_cons_of_mem _ (mem_append_right _ hid)

theorem Settled.serviceStartFound (result : Except ρ Name) :
    Invariant (w.turn (serviceStartFound w.services service adding result)) := by
  cases result with
  | error reason => exact h.serviceNotAdded hheld hfresh _
  | ok module => exact h.waits hheld hfresh

end Found

variable {indexProcess : Nat} {casts : List σ}

section Started

variable (h : Settled w) (hheld : ∀ id, Held id w.monitor →
    id ∈ uuids w.services ∨ id ∈ service.uuid :: uuids adding.added)
  (hfresh : Fresh w (service.uuid :: (uuids adding.services ++ uuids adding.added)))

include h hheld hfresh

theorem Settled.serviceAdded : Invariant (w.turn (serviceAdded w.services service adding)) := by
  refine h.servicesAddService _ hheld (hfresh.mono fun id hid => ?_)
  rcases mem_append.mp hid with hservices | hadded
  · exact mem_cons_of_mem _ (mem_append_left _ hservices)
  · rcases mem_uuids_cons.mp hadded with rfl | hadded
    · exact mem_cons_self
    · exact mem_cons_of_mem _ (mem_append_right _ hadded)

theorem Settled.serviceStartProcess (hpids : pids ≠ []) : Invariant (w.turn (.waits (serviceStartProcess indexProcess pids service adding :
      Call σ Pid α Name ρ))) := by
  rw [Configuration.serviceStartProcess]
  by_cases hlast : indexProcess = service.countProcess
  · rw [if_pos hlast]
    exact h.waits hheld hfresh
  · rw [if_neg hlast]
    refine h.waits ?_ hfresh
    rw [starting, if_neg hpids]
    exact hheld

/-- The wait for the processes of a service goes on or ends.  When it ends with an error, the
services monitor has terminated the service. -/
theorem Settled.serviceStartWaitPids
    (hremoved : pids = [] → error ≠ none → service.uuid ∈ w.monitor.removed) :
    Invariant (w.turn (serviceStartWaitPids w.services pids error service adding)) := by
  cases pids with
  | cons pid pids => exact h.waits hheld hfresh
  | nil =>
    cases error with
    | none => exact h.serviceAdded hheld hfresh
    | some reason =>
      have hgone := hremoved rfl (some_ne_none reason)
      exact h.serviceNotAdded (h.held_of_removed hgone hheld) hfresh reason

end Started

/-! ## `services_remove` -/

omit [LinearOrder Pid] in
/-- The services to be removed are taken out of the others. -/
theorem servicesRemoveUuid_spec (h : servicesRemoveUuid value removeServices services =
      some (.ok removing : Except (ErrorReason σ ρ) _))
    (hnodup : (uuids removeServices).Nodup)
    (hdisjoint : ∀ id ∈ uuids removeServices, id ∉ uuids services) :
    removing.stopped = [] ∧ (uuids removing.removeServices).Nodup ∧
      (∀ id ∈ uuids removing.removeServices, id ∉ uuids removing.services) ∧
      ∀ id, (id ∈ uuids removing.removeServices ∨ id ∈ uuids removing.services) ↔
        (id ∈ uuids removeServices ∨ id ∈ uuids services) := by
  induction value generalizing removeServices services with
  | nil =>
    cases h
    refine ⟨rfl, ?_, fun id hid => hdisjoint id (mem_uuids_reverse.mp hid), fun id => ?_⟩
    · simpa [uuids] using hnodup
    · rw [mem_uuids_reverse]
  | cons id ids ih =>
    cases id with
    | none => cases h
    | some id =>
      rw [servicesRemoveUuid, partition_eq_filter_filter] at h
      dsimp only at h
      cases hlist : services.filter fun s => s.uuid = id with
      | nil =>
        rw [hlist] at h
        cases h
      | cons service rest =>
        rw [hlist] at h
        cases rest with
        | cons service' rest => cases h
        | nil =>
          have hservice : ∀ s, (s ∈ services ∧ s.uuid = id) ↔ s = service := by
            intro s
            have := congrArg (s ∈ ·) hlist
            simpa using this
          obtain ⟨hmem, huuid⟩ := (hservice service).mpr rfl
          have hlisted : id ∈ uuids services := huuid ▸ List.mem_map_of_mem hmem
          have hnext : ∀ id', id' ∈ uuids (services.filter ((!·) ∘ fun s => s.uuid = id)) ↔
              id' ∈ uuids services ∧ id' ≠ id := by
            intro id'
            simp [uuids]
            grind
          obtain ⟨hstopped, hnodup', hdisjoint', hiff⟩ := ih h (by
              rw [uuids, map_cons, huuid]
              exact nodup_cons.mpr ⟨fun hid => hdisjoint id hid hlisted, hnodup⟩)
            (by
              intro id' hid'
              rw [hnext]
              rcases mem_uuids_cons.mp hid' with rfl | hid'
              · exact fun hne => hne.2 huuid
              · exact fun hne => hdisjoint id' hid' hne.1)
          refine ⟨hstopped, hnodup', hdisjoint', fun id' => (hiff id').trans ?_⟩
          rw [hnext, mem_uuids_cons, huuid]
          by_cases hid' : id' = id
          · rw [hid']
            simp [hlisted]
          · simp [hid']

theorem RemovingFrom.stop (h : RemovingFrom w (service :: left) services stopped)
    (hmade : ∀ id ∈ uuids w.services, id ∈ w.used) (hgone : ¬ Held service.uuid w.monitor) :
    RemovingFrom w left services (service.uuid :: stopped) where
  nodup := (nodup_cons.mp h.nodup).2
  disjoint id hid := h.disjoint id (mem_uuids_cons.mpr (.inr hid))
  listed id hid := h.listed id (hid.imp_left fun hid => mem_uuids_cons.mpr (.inr hid))
  held id hid := by
    refine (h.held id hid).imp_left fun hmem => ?_
    rcases mem_uuids_cons.mp hmem with rfl | hmem
    · exact absurd hid hgone
    · exact hmem
  stopped id hid := by
    rcases mem_cons.mp hid with rfl | hid
    · have hself : service.uuid ∈ uuids (service :: left) := mem_uuids_cons.mpr (.inl rfl)
      exact ⟨hmade _ (h.listed _ (.inl hself)), (nodup_cons.mp h.nodup).1, h.disjoint _ hself⟩
    · obtain ⟨hused, hleft, hservices⟩ := h.stopped id hid
      exact ⟨hused, fun hmem => hleft (mem_uuids_cons.mpr (.inr hmem)), hservices⟩

theorem RemovingFrom.listed_of_held (h : RemovingFrom w left services stopped) :
    ∀ id, Held id w.monitor → id ∈ uuids w.services :=
  fun id hid => h.listed id (h.held id hid)

variable [DecidableEq α] [DecidableEq Name]

section
omit [DecidableEq α]

/-- The loop over the services to be removed goes on. -/
theorem Settled.servicesRemoveAll (h : Settled w)
    (hremoving : RemovingFrom w removing.removeServices removing.services removing.stopped) :
    Invariant (w.turn (servicesRemoveAll removing : Outcome _ _ _ _ ρ)) := by
  rw [Configuration.servicesRemoveAll]
  cases hleft : removing.removeServices with
  | cons service removeServices =>
    rw [hleft] at hremoving
    exact h.waits (fun id hid => .inl (hremoving.listed_of_held id hid)) hremoving
  | nil =>
    rw [hleft] at hremoving
    refine ⟨⟨h.consistent, h.removed, h.casts, fun id hid => ?_, fun id hid => ?_⟩,
      fun id hid => ?_, trivial⟩
    · exact h.made id (hremoving.listed id (.inr hid))
    · rcases mem_append.mp hid with hstopped | hbefore
      · obtain ⟨hused, _, hservices⟩ := hremoving.stopped id hstopped
        exact ⟨hused, hservices⟩
      · obtain ⟨hused, hservices⟩ := h.stopped id hbefore
        exact ⟨hused, fun hmem => hservices (hremoving.listed id (.inr hmem))⟩
    · exact .inl ((hremoving.held id hid).resolve_left not_mem_nil)

theorem Settled.serviceStop_found (h : Settled w) (remove : Bool)
    (hremoving : RemovingFrom w removing.removeServices removing.services
      (service.uuid :: removing.stopped)) :
    Invariant (w.turn (serviceStop w.services service remove true removing :
      Outcome _ _ _ _ ρ)) := by
  have hall : Invariant (w.turn (CloudI.Configuration.servicesRemoveAll
      { removing with stopped := service.uuid :: removing.stopped } : Outcome _ _ _ _ ρ)) :=
    h.servicesRemoveAll hremoving
  unfold serviceStop
  cases htype : service.type with
  | external => exact hall
  | internal module automaticLoading applicationName =>
    dsimp only
    split
    · exact h.waits (fun id hid => .inl (hremoving.listed_of_held id hid)) hremoving
    · exact hall

theorem Settled.serviceStop_notFound (h : Settled w) (remove : Bool)
    (hstopped : removing.stopped = []) (hheld : ∀ id, Held id w.monitor → id ∈ uuids w.services) :
    Invariant (w.turn (serviceStop w.services service remove false removing :
      Outcome _ _ _ _ ρ)) := by
  unfold serviceStop
  cases htype : service.type with
  | _ =>
    dsimp only
    rw [hstopped]
    exact h.replies hheld _

end

/-! ## `services_restart` -/

omit [DecidableEq α] [DecidableEq Name] in
theorem Settled.servicesRestartAll (h : Settled w)
    (hheld : ∀ id, Held id w.monitor → id ∈ uuids w.services)
    (restartServices : List (ConfigService σ Pid α Name)) :
    Invariant (w.turn (servicesRestartAll w.services restartServices :
      Outcome _ _ _ _ ρ)) := by
  cases restartServices with
  | nil => exact h.replies hheld _
  | cons service restartServices => exact h.waits (fun id hid => .inl (hheld id hid)) trivial

omit [DecidableEq α] [DecidableEq Name] in
theorem Settled.serviceRestart (h : Settled w)
    (hheld : ∀ id, Held id w.monitor → id ∈ uuids w.services) (found : Bool)
    (restartServices : List (ConfigService σ Pid α Name)) :
    Invariant (w.turn (serviceRestart w.services service found restartServices :
      Outcome _ _ _ _ ρ)) := by
  unfold Configuration.serviceRestart
  cases found with
  | true => exact h.servicesRestartAll hheld restartServices
  | false =>
    cases service.type with
    | _ => exact h.replies hheld _

/-! ## the services monitor -/

omit [DecidableEq Name] in
/-- **What the services monitor does within a step.** -/
theorem handles_spec (h : w.handles m = some w') : ∃ monitor casts, w' = { w with monitor, casts } ∧
      ServicesMonitor.next w.monitor (.message m) = some monitor ∧
      (∀ id ∈ w.monitor.removed, id ∈ monitor.removed) ∧
      ∀ id ∈ casts, id ∈ w.casts ∨ id ∈ monitor.removed := by
  rw [World.handles, map_eq_some_iff] at h
  obtain ⟨r, hr, rfl⟩ := h
  refine ⟨_, _, rfl, ?_, fun id hid => mem_append_right _ hid, fun id hid => ?_⟩
  · rw [ServicesMonitor.next, hr]
    rfl
  · rcases mem_append.mp hid with hbefore | hsent
    · exact .inl hbefore
    · refine .inr (mem_append_left _ ?_)
      obtain ⟨e, he, hid⟩ := mem_filterMap.mp hsent
      refine mem_filterMap.mpr ⟨e, he, ?_⟩
      split at hid
      · cases hid
        rfl
      · cases hid

omit [DecidableEq α] [DecidableEq Name] in
theorem Settled.monitor {monitor : ServicesMonitor.World σ Pid α} (h : Settled w)
    (hconsistent : Consistent monitor) (hremoved : AllRemoved monitor)
    (hmono : ∀ id ∈ w.monitor.removed, id ∈ monitor.removed)
    (hcasts : ∀ id ∈ casts, id ∈ w.casts ∨ id ∈ monitor.removed) :
    Settled { w with monitor, casts } where
  consistent := hconsistent
  removed := hremoved
  casts id hid := by
    rcases hcasts id hid with hbefore | hnow
    · exact hmono id (h.casts id hbefore)
    · exact hnow
  made := h.made
  stopped := h.stopped

omit [DecidableEq α] [DecidableEq Name] in
/-- What holds within a call holds as long as the services monitor does not hold more. -/
theorem CallInvariant.monitor {monitor : ServicesMonitor.World σ Pid α}
    {call : Option (Call σ Pid α Name ρ)} (h : CallInvariant w call)
    (hheld : ∀ id, Held id monitor → Held id w.monitor) :
    CallInvariant { w with monitor, casts } call := by
  match call, h with
  | none, _ => trivial
  | some (.find _ _), h => exact h
  | some (.monitor _ _ _ _), h => exact h
  | some (.initEnd _ _ _ _), h => exact h
  | some (.shutdown _ _ _), h =>
    exact ⟨h.nodup, h.disjoint, h.listed, fun id hid => h.held id (hheld id hid), h.stopped⟩
  | some (.remove _ _), h =>
    exact ⟨h.nodup, h.disjoint, h.listed, fun id hid => h.held id (hheld id hid), h.stopped⟩
  | some (.restart _ _), _ => trivial

/-! ## one step -/

/-- The branches that go wrong are not taken.  A start that fails fails at the first process of
its service, or the services monitor has terminated the service; no process is started for a
service that it has terminated.  A shutdown finds the service, or none succeeded before in the
same call; the removal of a module does not fail.  No restart is pending for a service that is
terminated. -/
def Recorded (w : World σ Pid α Name ρ) :
    Event σ Pid α Name ρ → Prop
  | .process event => NoPendingRestart w.monitor event
  | .answer answer =>
      match w.call, answer with
      | some (.monitor _ pids service _), .started none _ =>
          pids = [] ∨ service.uuid ∈ w.monitor.removed
      | some (.monitor _ _ service _), .started (some _) _ => service.uuid ∉ w.monitor.removed
      | some (.initEnd [_] (some _) service _), .initEnd => service.uuid ∈ w.monitor.removed
      | some (.initEnd [_] _ service _), .down _ => service.uuid ∈ w.monitor.removed
      | some (.shutdown service _ removing), .shutdown =>
          if Key2value.find1 service.uuid w.monitor.state.services = none then
            removing.stopped = []
          else ∀ r ∈ w.monitor.restarts, r.serviceId ≠ service.uuid
      | some (.remove _ _), .removed error => error = none
      | _, _ => True
  | _ => True

/-- A side condition of a run. -/
abbrev Good (w : World σ Pid α Name ρ) (e : Event σ Pid α Name ρ) : Prop :=
  Enabled w e ∧ Recorded w e

omit [DecidableEq α] [DecidableEq Name] in
theorem Invariant.own (h : Invariant w) {monitor : ServicesMonitor.World σ Pid α}
    (hconsistent : Consistent monitor) (hremoved : AllRemoved monitor)
    (hmono : ∀ id ∈ w.monitor.removed, id ∈ monitor.removed)
    (hcasts : ∀ id ∈ casts, id ∈ w.casts ∨ id ∈ monitor.removed)
    (hheld : ∀ id, Held id monitor → Held id w.monitor) :
    Invariant { w with monitor, casts } where
  toSettled := h.toSettled.monitor hconsistent hremoved hmono hcasts
  held id hid := h.held id (hheld id hid)
  call := h.call.monitor hheld

omit [DecidableEq Name] in
theorem invariant_process (h : Invariant w) (hgood : Good w (.process event))
    (hnext : w.process event = some w') : Invariant w' := by
  obtain ⟨⟨henabled, hown⟩, hpending⟩ := hgood
  cases event with
  | dies pid reason =>
    rw [World.process, map_eq_some_iff] at hnext
    obtain ⟨monitor, hmonitor, rfl⟩ := hnext
    have hconsistent := consistent_next h.consistent henabled hmonitor
    cases hmonitor
    exact h.own hconsistent ⟨h.removed.absent, h.removed.restarts⟩ (fun _ hid => hid)
      (fun _ hid => .inl hid) fun _ hid => hid
  | message m =>
    obtain ⟨monitor, casts, rfl, hmonitor, hmono, hcasts⟩ := handles_spec hnext
    have hreused : ServicesMonitor.NotReused w.monitor (.message m) := by
      cases m with
      | monitor serviceId service started => exact hown.elim
      | _ => trivial
    refine h.own (consistent_next h.consistent henabled hmonitor)
      (allRemoved_next h.consistent h.removed ⟨henabled, hreused, hpending⟩
        hmonitor) hmono hcasts fun id hid => ?_
    refine (held_of_next h.consistent henabled hmonitor hid).resolve_right ?_
    cases m with
    | monitor serviceId service started => exact hown.elim
    | _ => exact fun hmonitors => hmonitors

omit [DecidableEq α] [DecidableEq Name] in
theorem Settled.used (h : Settled w) (ids : List σ) :
    Settled { w with used := ids ++ w.used } where
  consistent := h.consistent
  removed := h.removed
  casts := h.casts
  made id hid := mem_append_right _ (h.made id hid)
  stopped id hid := ⟨mem_append_right _ (h.stopped id hid).1, (h.stopped id hid).2⟩

omit [DecidableEq α] in
theorem invariant_request (h : Settled w) (hheld : ∀ id, Held id w.monitor → id ∈ uuids w.services)
    (hnew : ∀ id ∈ request.ids, id ∉ w.used)
    (houtcome : handleCall w.services request = some outcome) :
    Invariant (({ w with used := request.ids ++ w.used } : World _ _ _ _ _).turn outcome) := by
  have hsettled := h.used request.ids
  cases request with
  | servicesAdd validated =>
    cases houtcome
    cases validated with
    | error reason => exact hsettled.replies hheld _
    | ok services =>
      refine hsettled.servicesAddService ⟨uuids services, services, []⟩
        (fun id hid => .inl (hheld id hid)) fun id hid => ?_
      rw [show uuids ([] : List (ConfigService σ Pid α Name)) = [] from rfl,
        append_nil] at hid
      exact ⟨mem_append_left _ hid, fun hstopped => hnew id hid (h.stopped id hstopped).1⟩
  | servicesRestart value =>
    rw [handleCall, servicesRestart.eq_def] at houtcome
    split at houtcome
    · rw [map_eq_some_iff] at houtcome
      obtain ⟨r, _, rfl⟩ := houtcome
      cases r with
      | error reason => exact hsettled.replies hheld _
      | ok restartServices => exact hsettled.servicesRestartAll hheld restartServices
    · cases houtcome
      exact hsettled.replies hheld _
  | servicesRemove value =>
    rw [handleCall, servicesRemove.eq_def] at houtcome
    split at houtcome
    · rw [map_eq_some_iff] at houtcome
      obtain ⟨r, hr, rfl⟩ := houtcome
      cases r with
      | error reason => exact hsettled.replies hheld _
      | ok removing =>
        obtain ⟨hstopped, hnodup, hdisjoint, hiff⟩ :=
          servicesRemoveUuid_spec hr nodup_nil (fun _ hid => absurd hid not_mem_nil)
        refine hsettled.servicesRemoveAll ⟨hnodup, hdisjoint, fun id hid => ?_,
          fun id hid => ?_, fun id hid => ?_⟩
        · exact ((hiff id).mp hid).resolve_left not_mem_nil
        · exact (hiff id).mpr (.inr (hheld id hid))
        · rw [hstopped] at hid
          cases hid
    · cases houtcome
      exact hsettled.replies hheld _

theorem invariant_started {pids : List Pid} {started : Started Pid} {reason : ρ}
    (h : Invariant w) (hcall : w.call = some (.monitor indexProcess pids service adding))
    (hgood : Good w (.answer (.started started reason)))
    (hnext : w.answered (.monitor indexProcess pids service adding) (.started started reason) =
      some w') : Invariant w' := by
  obtain ⟨henabled, hrecorded⟩ := hgood
  simp only [Enabled, hcall] at henabled
  have hinv := h.call
  have hbefore := h.held
  simp only [hcall, CallInvariant] at hinv
  simp only [hcall, starting] at hbefore
  have hheld : ∀ id, Held id w.monitor →
      id ∈ uuids w.services ∨ id ∈ service.uuid :: uuids adding.added := by
    intro id hid
    refine (hbefore id hid).imp_right fun hmem => ?_
    split at hmem
    · exact mem_cons_of_mem _ hmem
    · exact hmem
  simp only [World.answered, map_eq_some_iff] at hnext
  obtain ⟨w'', hhandles, rfl⟩ := hnext
  obtain ⟨monitor, casts, rfl, hmonitor, hmono, hcasts⟩ := handles_spec hhandles
  have hconsistent := consistent_next h.consistent henabled.2 hmonitor
  have hheldNext : ∀ id, Held id monitor → Held id w.monitor ∨ service.uuid = id ∧ started ≠ none :=
    fun id hid => held_of_next h.consistent henabled.2 hmonitor hid
  cases started with
  | some p =>
    simp only [Recorded, hcall] at hrecorded
    have hremoved := allRemoved_next h.consistent h.removed
      ⟨henabled.2, hrecorded, fun id hid => hid.elim⟩ hmonitor
    refine (h.toSettled.monitor hconsistent hremoved hmono hcasts).serviceStartProcess ?_ hinv ?_
    · intro id hid
      rcases hheldNext id hid with hid | ⟨rfl, _⟩
      · exact hheld id hid
      · exact .inr mem_cons_self
    · intro hnil
      exact henabled.1 (congrArg some (append_eq_nil_iff.mp hnil).2)
  | none =>
    simp only [Recorded, hcall] at hrecorded
    have hremoved := ServicesMonitor.allRemoved_start_failed h.removed hmonitor
    have hsettled := h.toSettled.monitor hconsistent hremoved hmono hcasts
    have hsame : ∀ id, Held id monitor → Held id w.monitor :=
      fun id hid => (hheldNext id hid).resolve_right fun hstarts => hstarts.2 rfl
    refine hsettled.serviceNotAdded ?_ hinv _
    rcases hrecorded with hnil | hgone
    · intro id hid
      simpa only [if_pos hnil] using hbefore id (hsame id hid)
    · exact hsettled.held_of_removed (hmono _ hgone) fun id hid => hheld id (hsame id hid)

theorem invariant_shutdown {remove : Bool} (h : Invariant w)
    (hcall : w.call = some (.shutdown service remove removing)) (hgood : Good w (.answer .shutdown))
    (hnext : w.answered (.shutdown service remove removing) .shutdown = some w') :
    Invariant w' := by
  obtain ⟨_, hrecorded⟩ := hgood
  have hinv := h.call
  simp only [hcall, CallInvariant] at hinv
  simp only [Recorded, hcall] at hrecorded
  simp only [World.answered, map_eq_some_iff] at hnext
  obtain ⟨w'', hhandles, rfl⟩ := hnext
  obtain ⟨monitor, casts, rfl, hmonitor, hmono, hcasts⟩ := handles_spec hhandles
  have henabled : ServicesMonitor.Enabled w.monitor (.message (.shutdown service.uuid)) :=
    ⟨trivial, nodup_nil, fun _ hp => absurd hp not_mem_nil⟩
  have hconsistent := consistent_next h.consistent henabled hmonitor
  have hheld : ∀ id, Held id monitor → Held id w.monitor := fun id hid =>
    (held_of_next h.consistent henabled hmonitor hid).resolve_right fun hm => hm
  have hallRemoved (hpending : ∀ r ∈ w.monitor.restarts,
      ServicesMonitor.Present service.uuid w.monitor.state.services →
        r.serviceId ≠ service.uuid) : AllRemoved monitor :=
    allRemoved_next h.consistent h.removed
      ⟨henabled, trivial, fun id hid r hr => hid.1 ▸ hpending r hr hid.2⟩ hmonitor
  by_cases hfind : Key2value.find1 service.uuid w.monitor.state.services = none
  · rw [if_pos hfind] at hrecorded
    have hremoved := hallRemoved fun r _ hpresent => absurd hfind
      (ServicesMonitor.find1_ne_none_of_present h.consistent.grouped.owned hpresent)
    have hsettled := h.toSettled.monitor hconsistent hremoved hmono hcasts
    rw [hfind]
    exact hsettled.serviceStop_notFound remove hrecorded fun id hid =>
      hinv.listed_of_held id (hheld id hid)
  · rw [if_neg hfind] at hrecorded
    have hremoved := hallRemoved fun r hr _ => hrecorded r hr
    have hsettled := h.toSettled.monitor hconsistent hremoved hmono hcasts
    rw [isSome_iff_ne_none.mpr hfind]
    refine hsettled.serviceStop_found remove (RemovingFrom.stop ?_ h.made ?_)
    · exact ⟨hinv.nodup, hinv.disjoint, hinv.listed, fun id hid => hinv.held id (hheld id hid),
        hinv.stopped⟩
    · exact hremoved.not_held (ServicesMonitor.removed_of_shutdown hfind hmonitor)

theorem invariant_answered (h : Invariant w) (hcall : w.call = some call)
    (hgood : Good w (.answer answer)) (hnext : w.answered call answer = some w') :
    Invariant w' := by
  have hinv := h.call
  have hheld := h.held
  rw [hcall] at hinv hheld
  have hrecorded := hgood.2
  cases call with
  | find service adding =>
    cases answer with
    | found result =>
      cases hnext
      exact h.toSettled.serviceStartFound hheld hinv result
    | _ => cases hnext
  | monitor indexProcess pids service adding =>
    cases answer with
    | started started reason => exact invariant_started h hcall hgood hnext
    | _ => cases hnext
  | initEnd pids error service adding =>
    cases pids with
    | nil => cases answer <;> cases hnext
    | cons pid pids =>
      cases answer with
      | initEnd =>
        cases hnext
        refine h.toSettled.serviceStartWaitPids hheld hinv ?_
        intro hnil herror
        obtain ⟨reason, rfl⟩ := ne_none_iff_exists'.mp herror
        rw [hnil] at hcall
        simpa only [Recorded, hcall] using hrecorded
      | down info =>
        cases hnext
        refine h.toSettled.serviceStartWaitPids hheld hinv ?_
        intro hnil _
        rw [hnil] at hcall
        simpa only [Recorded, hcall] using hrecorded
      | _ => cases hnext
  | shutdown service remove removing =>
    cases answer with
    | shutdown => exact invariant_shutdown h hcall hgood hnext
    | _ => cases hnext
  | remove service removing =>
    cases answer with
    | removed error =>
      cases hnext
      simp only [Recorded, hcall] at hrecorded
      rw [hrecorded]
      exact h.toSettled.servicesRemoveAll hinv
    | _ => cases hnext
  | restart service restartServices =>
    cases answer with
    | restarted =>
      cases hnext
      exact h.toSettled.serviceRestart
        (fun id hid => (hheld id hid).resolve_right not_mem_nil) _ _
    | _ => cases hnext

omit [LinearOrder Pid] [DecidableEq α] [DecidableEq Name] in
theorem mem_serviceTerminatedRemove (hne : id ≠ id') :
    id ∈ uuids (serviceTerminatedRemove id' services) ↔ id ∈ uuids services := by
  induction services with
  | nil => rfl
  | cons service services ih =>
    rw [serviceTerminatedRemove]
    by_cases hservice : service.uuid = id'
    · rw [if_pos hservice, mem_uuids_cons, hservice]
      simp [hne]
    · rw [if_neg hservice, mem_uuids_cons, mem_uuids_cons, ih]

omit [LinearOrder Pid] [DecidableEq α] [DecidableEq Name] in
theorem subset_serviceTerminatedRemove (h : id ∈ uuids (serviceTerminatedRemove id' services)) :
    id ∈ uuids services := by
  induction services with
  | nil => cases h
  | cons service services ih =>
    rw [serviceTerminatedRemove] at h
    by_cases hservice : service.uuid = id'
    · rw [if_pos hservice] at h
      exact mem_uuids_cons.mpr (.inr h)
    · rw [if_neg hservice] at h
      exact mem_uuids_cons.mpr ((mem_uuids_cons.mp h).imp_right ih)

theorem invariant_serviceTerminated (h : Invariant w)
    (hnext : next w .serviceTerminated = some w') : Invariant w' := by
  rw [next] at hnext
  split at hnext
  · next id casts hcall hcasts =>
      cases hnext
      have hgone := h.removed.not_held (h.casts id (hcasts ▸ mem_cons_self))
      refine ⟨⟨h.consistent, h.removed, fun id' hid => ?_, fun id' hid => ?_, fun id' hid => ?_⟩,
        fun id' hid => ?_, ?_⟩
      · exact h.casts id' (hcasts ▸ mem_cons_of_mem id hid)
      · exact h.made id' (subset_serviceTerminatedRemove hid)
      · obtain ⟨hused, hlisted⟩ := h.stopped id' hid
        exact ⟨hused, fun hmem => hlisted (subset_serviceTerminatedRemove hmem)⟩
      · have hlisted := h.held id' hid
        rw [hcall] at hlisted
        refine .inl ((mem_serviceTerminatedRemove ?_).mpr (hlisted.resolve_right not_mem_nil))
        rintro rfl
        exact hgone hid
      · rw [hcall]
        trivial
  · cases hnext

/-- **Step lemma**: every step of a run in which what goes wrong does not happen keeps the
invariant. -/
theorem invariant_next (h : Invariant w) (hgood : Good w e) (hnext : next w e = some w') :
    Invariant w' := by
  cases e with
  | process event => exact invariant_process h hgood hnext
  | serviceTerminated => exact invariant_serviceTerminated h hnext
  | answer answer =>
    rw [next, bind_eq_some_iff] at hnext
    obtain ⟨call, hcall, hanswered⟩ := hnext
    exact invariant_answered h hcall hgood hanswered
  | request request =>
    rw [next] at hnext
    split at hnext
    · next hcall =>
        rw [map_eq_some_iff] at hnext
        obtain ⟨outcome, houtcome, rfl⟩ := hnext
        have hheld := h.held
        rw [hcall] at hheld
        exact invariant_request h.toSettled
          (fun id hid => (hheld id hid).resolve_right not_mem_nil) hgood.1.2 houtcome
    · cases hnext

omit [DecidableEq α] [DecidableEq Name] in
theorem invariant_empty : Invariant ({} : World σ Pid α Name ρ) := by
  refine ⟨⟨ServicesMonitor.consistent_empty, ⟨nofun, nofun⟩, nofun, nofun, nofun⟩,
    fun id hid => ?_, trivial⟩
  rcases hid with ⟨p, x, hx, _⟩ | ⟨r, hr, _⟩
  · rw [show ({} : World σ Pid α Name ρ).monitor.state.services = {} from rfl,
      ServicesMonitor.instances_empty] at hx
    cases hx
  · cases hr

/-- **The configuration tracks the running services** after every call of a run in which what
goes wrong does not happen. -/
theorem tracked_of_steps {events : List (Event σ Pid α Name ρ)}
    (h : Steps next Good {} events w) (hidle : w.call = none) : Tracked w := by
  have hinv : Invariant w := h.invariant (fun _ _ _ => invariant_next) invariant_empty
  refine ⟨fun id hfind => ?_, fun id hid => (hinv.stopped id hid).2⟩
  obtain ⟨x, hx⟩ := ne_none_iff_exists'.mp hfind
  have hheld := hinv.held id (.inl (ServicesMonitor.present_of_find1
    hinv.consistent.grouped.owned hx))
  rw [hidle] at hheld
  exact hheld.resolve_right not_mem_nil

/-! ## runs -/

instance (m : ServicesMonitor.Message σ Pid α) : Decidable (Own m) :=
  match m with
  | .monitor _ _ _ | .shutdown _ | .update _ _ => .isFalse fun h => h
  | .change _ _ _ | .terminateBegin _ _ | .changes _ _ | .down _ _ _ _ | .restart _ _ _ =>
      .isTrue trivial

instance (w : World σ Pid α Name ρ) (e : Event σ Pid α Name ρ) : Decidable (Enabled w e) := by
  unfold Enabled
  repeat' split
  all_goals infer_instance

/-- The branches that go wrong are not taken, and no restart is pending at all. -/
def RecordedNow (w : World σ Pid α Name ρ) (e : Event σ Pid α Name ρ) : Prop :=
  w.monitor.restarts = [] ∧
    match e with
    | .process _ => True
    | e => Recorded w e

instance (w : World σ Pid α Name ρ) (e : Event σ Pid α Name ρ) : Decidable (RecordedNow w e) := by
  unfold RecordedNow Recorded
  cases e with
  | answer answer =>
      dsimp only
      repeat' split
      all_goals infer_instance
  | _ => infer_instance

omit [DecidableEq Name] in
theorem RecordedNow.recorded (h : RecordedNow w e) : Recorded w e := by
  cases e with
  | process event => exact ServicesMonitor.noPendingRestart_of_nil h.1
  | _ => exact h.2

/-- The world after a run. -/
def worldAfter (events : List (Event Nat Nat Unit Nat Unit)) : World Nat Nat Unit Nat Unit :=
  (run next {} events).getD {}

/-- An internal service. -/
def sampleInternal (uuid countProcess : Nat) (restartDelay : Option ServicesMonitor.RestartDelay) :
    ConfigService Nat Nat Unit Nat where
  uuid
  type := .internal uuid true none
  countProcess := countProcess + 1
  countProcess_pos := Nat.succ_pos countProcess
  process := { ServicesMonitor.sampleService 0 0 with restartDelay }

/-- An external service with one process. -/
def sampleExternal (uuid : Nat) : ConfigService Nat Nat Unit Nat where
  uuid
  type := .external
  countProcess := 1
  countProcess_pos := Nat.one_pos
  process := ServicesMonitor.sampleService 0 0

/-- Two services are added, the first is restarted and then removed. -/
def trackedRun : List (Event Nat Nat Unit Nat Unit) :=
  [.request (.servicesAdd (.ok [sampleInternal 0 1 none, sampleExternal 1])),
    .answer (.found (.ok 0)), .answer (.started (some [1]) ()), .answer (.started (some [2]) ()),
    .answer .initEnd, .answer .initEnd, .answer (.started (some [3]) ()), .answer .initEnd,
    .request (.servicesRestart [some 0]), .answer .restarted, .process (.dies 1 .error),
    .process (.message (.down 1 .error { delay := 0, filter := 0, start := 0 } (some [4]))),
    .request (.servicesRemove [some 0]), .answer .shutdown, .answer (.removed none)]

theorem tracked_of_steps_trackedRun :
    Tracked (worldAfter trackedRun) ∧ uuids (worldAfter trackedRun).services = [1] ∧
      (worldAfter trackedRun).stopped = [0] := by
  have hsteps : Steps next (fun w e => Enabled w e ∧ RecordedNow w e) {} trackedRun
      (worldAfter trackedRun) := steps_getD_of_checked (by decide +kernel)
  have hgood : Steps next Good {} trackedRun (worldAfter trackedRun) :=
    hsteps.mono fun _ _ h => ⟨h.1, h.2.recorded⟩
  exact ⟨tracked_of_steps hgood (by decide +kernel), by decide +kernel, by decide +kernel⟩

/-- The second process of a service is not started. -/
def startFailsRun : List (Event Nat Nat Unit Nat Unit) :=
  [.request (.servicesAdd (.ok [sampleInternal 0 1 none])), .answer (.found (.ok 0)),
    .answer (.started (some [1]) ()), .answer (.started none ())]

/-- The second of two services is gone when both are to be removed. -/
def removeFailsRun : List (Event Nat Nat Unit Nat Unit) :=
  [.request (.servicesAdd (.ok [sampleExternal 0, sampleExternal 1])),
    .answer (.started (some [1]) ()), .answer .initEnd,
    .answer (.started (some [2]) ()), .answer .initEnd, .process (.dies 2 .shutdown),
    .process (.message (.down 2 .shutdown { delay := 0, filter := 0, start := 0 } none)),
    .request (.servicesRemove [some 0, some 1]), .answer .shutdown, .answer .shutdown]

/-- The module of a service that was stopped is not removed. -/
def moduleFailsRun : List (Event Nat Nat Unit Nat Unit) :=
  [.request (.servicesAdd (.ok [sampleInternal 0 0 none])), .answer (.found (.ok 0)),
    .answer (.started (some [1]) ()), .answer .initEnd,
    .request (.servicesRemove [some 0]), .answer .shutdown, .answer (.removed (some ()))]

/-- A process of a service waits for its restart when the service is removed. -/
def restartPendingRun : List (Event Nat Nat Unit Nat Unit) :=
  [.request (.servicesAdd (.ok [sampleInternal 0 1 (some (.absolute 5))])),
    .answer (.found (.ok 0)),
    .answer (.started (some [1]) ()), .answer (.started (some [2]) ()),
    .answer .initEnd, .answer .initEnd, .process (.dies 1 .error),
    .process (.message (.down 1 .error { delay := 0, filter := 0, start := 0 } none)),
    .request (.servicesRemove [some 0]), .answer .shutdown, .answer (.removed none),
    .process (.message (.restart
      { stage := .stage3, pid := 1, serviceId := 0, service := ServicesMonitor.sampleService 0 0 }
      { delay := 0, filter := 0, start := 5 } (some [3])))]

/-- A run after which the configuration does not track the services. -/
def Untracked (events : List (Event Nat Nat Unit Nat Unit)) : Prop :=
  ∃ w, Steps next Enabled {} events w ∧ w.call = none ∧ ¬ Tracked w

theorem untracked_of_unlisted (id : Nat) (h : (run (checked next Enabled) {} events).isSome = true)
    (hidle : (worldAfter events).call.isNone = true)
    (hfind : (Key2value.find1 id (worldAfter events).monitor.state.services).isSome = true)
    (hlisted : id ∉ uuids (worldAfter events).services) : Untracked events := by
  refine ⟨worldAfter events, steps_getD_of_checked h, isNone_iff_eq_none.mp hidle,
    fun htracked => hlisted (htracked.1 id ?_)⟩
  exact isSome_iff_ne_none.mp hfind

theorem untracked_of_stopped (id : Nat) (h : (run (checked next Enabled) {} events).isSome = true)
    (hidle : (worldAfter events).call.isNone = true) (hstopped : id ∈ (worldAfter events).stopped)
    (hlisted : id ∈ uuids (worldAfter events).services) : Untracked events :=
  ⟨worldAfter events, steps_getD_of_checked h, isNone_iff_eq_none.mp hidle,
    fun htracked => htracked.2 id hstopped hlisted⟩

/-- **The configuration does not track the services** after a start that fails, after a removal
that fails in either of two ways, and after a restart that was pending. -/
theorem services_untracked :
    Untracked startFailsRun ∧ Untracked removeFailsRun ∧ Untracked moduleFailsRun ∧
      Untracked restartPendingRun := by
  refine ⟨?_, ?_, ?_, ?_⟩
  · exact untracked_of_unlisted 0 (by decide +kernel) (by decide +kernel)
      (by decide +kernel) (by decide +kernel)
  · exact untracked_of_stopped 0 (by decide +kernel) (by decide +kernel)
      (by decide +kernel) (by decide +kernel)
  · exact untracked_of_stopped 0 (by decide +kernel) (by decide +kernel)
      (by decide +kernel) (by decide +kernel)
  · exact untracked_of_unlisted 0 (by decide +kernel) (by decide +kernel)
      (by decide +kernel) (by decide +kernel)

end CloudI.Configuration
