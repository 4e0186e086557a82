import CloudI.ServicesMonitor.Live

/-!
# ServicesMonitor.NeverFails

The services monitor does not fail on its own state (`never_fails`): the service of a
change is found, the change of the process count divides by no zero, and
`terminate_service_wait` waits for no process that is gone.

A change is asked for by a stored process, but all processes of the service can be in a
delayed restart when the timer ends; and a record lists all threads of its instance,
also those whose `DOWN` message was handled before.  The conditions are on the deaths that lead
there.  Under them the service of every change that waits has a process (`PendingPresent`), and
the threads of an instance that died for an error are all stored (`Intact`).
-/

namespace CloudI.ServicesMonitor

open Run Function
open CloudI.Except (ok_bind onlyError_error onlyError_ok)

variable {σ Pid α : Type} [LinearOrder σ] [LinearOrder Pid]

variable {s s' : State σ Pid α} {services : Services σ Pid α}
  {effects : List (Effect σ Pid α)} {sid : σ}
  {isGone : Pid → Bool} {pids : List Pid} {pid : Pid} {oldPid : Option Pid}

/-! ## the parts that fail with an exception only -/

omit [LinearOrder σ] in
/-- **`terminate_service_wait`** ends when no process is gone or listed twice. -/
theorem terminateServiceWait_ok (hnodup : pids.Nodup) (hgone : ∀ p ∈ pids, p ∉ gone)
    (hlive : ∀ p ∈ pids, oldPid ≠ some p → isGone p = false) :
    ∃ r, (terminateServiceWait oldPid gone isGone pids :
      Except Failure (Result σ Pid α Unit)) = .ok r := by
  induction pids generalizing gone with
  | nil => exact ⟨_, rfl⟩
  | cons p pids ih =>
    rw [List.nodup_cons] at hnodup
    rw [terminateServiceWait]
    have hlive' : ∀ q ∈ pids, oldPid ≠ some q → isGone q = false :=
      fun q hq => hlive q (List.mem_cons_of_mem p hq)
    by_cases hold : oldPid = some p
    · rw [if_pos hold]
      exact ih hnodup.2 (fun q hq => hgone q (List.mem_cons_of_mem p hq)) hlive'
    · rw [if_neg hold]
      have hp : ¬ (isGone p = true ∨ p ∈ gone) := by
        rw [hlive p List.mem_cons_self hold]
        simp [hgone p List.mem_cons_self]
      rw [if_neg hp]
      have hgone' : ∀ q ∈ pids, q ∉ p :: gone := by
        intro q hq hmem
        rcases List.mem_cons.mp hmem with rfl | hmem
        · exact hnodup.1 hq
        · exact hgone q (List.mem_cons_of_mem p hq) hmem
      obtain ⟨r, hr⟩ := ih hnodup.2 hgone' hlive'
      rw [hr]
      exact ⟨_, rfl⟩

theorem terminateService_ok (hnodup : pids.Nodup)
    (hlive : ∀ p ∈ pids, oldPid ≠ some p → isGone p = false) :
    ∃ r, terminateService isGone pids sid oldPid block services = .ok r := by
  cases block with
  | false => exact ⟨_, rfl⟩
  | true =>
    obtain ⟨r, hr⟩ : ∃ r, (terminateServiceWait oldPid [] isGone pids :
        Except Failure (Result σ Pid α Unit)) = .ok r :=
      terminateServiceWait_ok hnodup (fun _ _ => List.not_mem_nil) hlive
    dsimp only [terminateService]
    rw [if_pos rfl, hr]
    exact ⟨_, rfl⟩

theorem terminateAll_ok {block configurationRemove : Bool} (hnodup : pids.Nodup)
    (hlive : block = true → ∀ p ∈ pids, oldPid ≠ some p → isGone p = false) :
    ∃ r, terminateAll isGone pids sid oldPid block configurationRemove s = .ok r := by
  obtain ⟨r, hr⟩ : ∃ r, terminateService isGone pids sid oldPid block s.services = .ok r := by
    cases block with
    | false => exact ⟨_, rfl⟩
    | true => exact terminateService_ok hnodup (hlive rfl)
  rw [terminateAll, hr]
  exact ⟨_, rfl⟩

theorem nodup_find1 {x : List Pid × Service Pid α} (h : Owned services)
    (hfind : Key2value.find1 sid services = some x) : x.1.Nodup :=
  (h.linked.sorted1 sid x.1 x.2 hfind).1.imp ne_of_lt

theorem restartResult_onlyError (howned : Owned s.services) (r : Option (Restarted Pid α)) :
    Except.OnlyError .exception (restartResult isGone sid pid s r) := by
  cases r with
  | none => exact onlyError_error _
  | some r =>
    cases r with
    | failed service =>
      show Except.OnlyError .exception (restartFailed isGone sid s)
      rw [restartFailed]
      cases hfind : Key2value.find1 sid s.services with
      | none => exact onlyError_ok _ _
      | some x =>
        obtain ⟨r, hr⟩ : ∃ r, terminateAll isGone x.1 sid none false true s = .ok r :=
          terminateAll_ok (nodup_find1 howned hfind) fun h => absurd h Bool.false_ne_true
        dsimp only
        rw [hr]
        exact onlyError_ok _ _
    | _ => exact onlyError_ok _ _

theorem serviceInstanceLoop_onlyError :
    Except.OnlyError .exception (serviceInstanceLoop sid services n pids results) := by
  induction n generalizing pids results with
  | zero =>
    cases pids with
    | nil => exact onlyError_ok _ _
    | cons pid pids => exact onlyError_error _
  | succ n ih =>
    cases pids with
    | nil => exact onlyError_ok _ _
    | cons pid pids =>
      rw [serviceInstanceLoop]
      split
      · split
        · exact ih
        · exact onlyError_error _
      · exact onlyError_error _

omit [LinearOrder σ] [LinearOrder Pid] in
theorem pidsChangeDecreaseLoop_onlyError :
    Except.OnlyError .exception (pidsChangeDecreaseLoop count serviceL :
      Except Failure (List (Service Pid α) × List (Effect σ Pid α))) := by
  induction count generalizing serviceL with
  | zero => exact onlyError_ok _ _
  | succ count ih =>
    cases serviceL with
    | nil => exact onlyError_error _
    | cons service serviceL => exact ih.map

/-- A `DOWN` message, when no stored process is gone and all processes of the instance are
stored. -/
theorem handleDown_onlyError {reason : DownReason} {readings : Readings} {started : Started Pid}
    (h : Grouped s.services)
    (hlive : ∀ p, (instances s.services p).isSome = true → isGone p = false)
    (hinstance : reason = .error → ∀ x ∈ instances s.services pid, ∀ p ∈ x.pids,
      (instances s.services p).isSome = true) :
    Except.OnlyError .exception (handleDown isGone pid reason readings started s) := by
  rw [handleDown, findPid_eq h.owned, ok_bind]
  cases hrecord : record s.services pid with
  | none => exact onlyError_ok _ _
  | some x =>
    obtain ⟨sid, service⟩ := x
    have hstored := instances_of_record hrecord
    dsimp only
    have hshutdown : Except.OnlyError .exception (fetchService sid s.services >>= fun x =>
        terminateAll isGone x.1 sid (some pid) false true s) := by
      have hmem : pid ∈ Key2value.keys2 sid s.services :=
        (mem_keys2 h.owned).mpr ⟨service, hrecord⟩
      cases hfind : Key2value.find1 sid s.services with
      | none =>
        rw [Key2value.keys2, hfind] at hmem
        cases hmem
      | some x =>
        obtain ⟨r, hr⟩ : ∃ r, terminateAll isGone x.1 sid (some pid) false true s = .ok r :=
          terminateAll_ok (nodup_find1 h.owned hfind) fun h => absurd h Bool.false_ne_true
        rw [fetchService, hfind, ok_bind, hr]
        exact onlyError_ok _ _
    cases reason with
    | countProcessDynamicTerminate => exact onlyError_ok _ _
    | error =>
      obtain ⟨⟨services, exits⟩, hterminate⟩ :
          ∃ r, terminateService isGone service.pids sid (some pid) true s.services = .ok r :=
        terminateService_ok (h.nodup pid _ hstored) fun p hp _ =>
          hlive p (hinstance rfl _ hstored p hp)
      dsimp only
      rw [restartStage1, hterminate, ok_bind]
      have howned := (terminateService_spec h.owned hterminate).1
      exact (restartResult_onlyError howned _).bind fun _ _ => onlyError_ok _ _
    | _ => exact hshutdown

theorem pidsChangeNow_onlyError {changeList : List Change} {starts : List (Started Pid)}
    (hpresent : Key2value.find1 sid s.services ≠ none) (hne : changeList ≠ [])
    (hasked : ∀ change ∈ changeList, change.Asked) :
    Except.OnlyError .exception (pidsChangeNow sid changeList starts s) := by
  obtain ⟨⟨pids, service⟩, hfind⟩ := Option.ne_none_iff_exists'.mp hpresent
  have hfetch : fetchService sid s.services = .ok (pids, service) := by
    rw [fetchService, hfind]
  obtain ⟨⟨i, rate⟩, hchange⟩ :=
    pidsChange_ok hasked hne (erlangRound (pids.length / service.countThread))
  rw [pidsChangeNow, hfetch, ok_bind]
  dsimp only
  rw [hchange, ok_bind]
  refine Except.OnlyError.bind ?_ fun a _ => onlyError_ok _ _
  dsimp only
  split
  · exact onlyError_ok _ _
  · split
    · refine Except.OnlyError.bind serviceInstanceLoop_onlyError fun serviceL _ => ?_
      dsimp only
      split
      · exact onlyError_error _
      · exact onlyError_ok _ _
    · refine Except.OnlyError.bind serviceInstanceLoop_onlyError fun serviceL _ => ?_
      exact Except.OnlyError.bind pidsChangeDecreaseLoop_onlyError
        fun _ _ => onlyError_ok _ _

theorem updateService_onlyError {serviceIds : List σ} {argumentsNew : α → α} :
    Except.OnlyError .exception (updateService serviceIds argumentsNew services) := by
  induction serviceIds generalizing services with
  | nil => exact onlyError_ok _ _
  | cons id serviceIds ih =>
    rw [updateService, List.foldlM_cons]
    refine Except.OnlyError.bind ?_ fun _ _ => ih
    split
    · exact onlyError_ok _ _
    · exact onlyError_error _

/-! ## the changes that wait -/

/-- The changes of a service that is not terminated are as its processes ask for them. -/
def ChangesAsked (s : State σ Pid α) : Prop :=
  ∀ id change, Maps.find id s.changes = some change → change.terminated = false →
    change.changes ≠ [] ∧ ∀ entry ∈ change.changes, entry.Asked

variable {m : Message σ Pid α}

theorem ChangesAsked.kept (h : ChangesAsked s)
    (hchanges : ∀ id change, Maps.find id s'.changes = some change →
      change.terminated = true ∨ Maps.find id s.changes = some change) : ChangesAsked s' := by
  intro id change hchange hterminated
  rcases hchanges id change hchange with htrue | hbefore
  · rw [htrue] at hterminated
    cases hterminated
  · exact h id change hbefore hterminated

theorem ChangesAsked.handled (h : ChangesAsked s)
    (hasked : ∀ pid period entry, m = .change pid period entry → entry.Asked)
    (hhandled : Handled s m s' effects) : ChangesAsked s' := by
  cases hhandled with
  | same _ hchanges _ => exact h.kept hchanges
  | advances hadvances => exact h.kept hadvances.changes
  | asked _ hasks =>
    obtain ⟨pid, period, entry, id, change, hm, _, hput, hfrom⟩ := hasks
    intro id' change' hchange' hterminated
    rw [hput, Maps.find_put] at hchange'
    by_cases hid : id = id'
    · rw [if_pos hid, Option.some.injEq] at hchange'
      subst hchange'
      refine ⟨List.cons_ne_nil _ _, fun x hx => ?_⟩
      rcases List.mem_cons.mp hx with rfl | hx
      · exact hasked pid period x hm
      · rcases hfrom with hfind | rfl
        · exact (h id change hfind hterminated).2 x hx
        · cases hx
    · rw [if_neg hid] at hchange'
      exact h id' change' hchange' hterminated

/-- A change of the process count waits for its timer, of a service that was not terminated. -/
def Pending (s : State σ Pid α) (sid : σ) : Prop :=
  ∃ change ∈ Maps.find sid s.changes, change.terminated = false

/-- The services of the changes that wait have processes. -/
def PendingPresent (s : State σ Pid α) : Prop :=
  ∀ sid, Pending s sid → Present sid s.services

/-! ## the conditions -/

variable {w w' : World σ Pid α}
  {e : Event σ Pid α}

/-- A process of the service is stored that is not one of the lost ones. -/
def Remains (s : State σ Pid α) (sid : σ) (lost : List Pid) : Prop :=
  ∃ p ∈ Key2value.keys2 sid s.services, p ∉ lost

/-- The restart starts processes at once, or gives the service up. -/
def Restarted.AtOnce : Restarted Pid α → Prop
  | .started service => service.pids ≠ []
  | .failed _ => True
  | .delayed _ _ | .again _ => False

/-- **No service loses its last processes while a change waits for it**, but to a restart that
starts them again at once: when a process dies for an error and its instance is erased, and when
one ends for a decrease and is erased alone. -/
def PendingRemains (w : World σ Pid α) : Event σ Pid α → Prop
  | .message (.down pid .error readings started) =>
      ∀ x ∈ record w.state.services pid, Pending w.state x.1 →
        Remains w.state x.1 x.2.pids ∨ ∀ r ∈ x.2.restarted readings started, r.AtOnce
  | .message (.down pid .countProcessDynamicTerminate _ _) =>
      ∀ x ∈ record w.state.services pid, Pending w.state x.1 → Remains w.state x.1 [pid]
  | _ => True

/-- **The threads of an instance do not end both ways**: none dies for an error after another one
ended for a decrease, and none that ends for a decrease leaves another one that died for an
error. -/
def ThreadsAgree (w : World σ Pid α) : Event σ Pid α → Prop
  | .dies pid .error => ∀ x ∈ instances w.state.services pid, ∀ p ∈ x.pids,
      (instances w.state.services p).isSome = true
  | .message (.down pid .countProcessDynamicTerminate _ _) =>
      ∀ x ∈ instances w.state.services pid, ∀ p ∈ x.pids, w.status p ≠ .down .error
  | _ => True

/-- The side condition of a run that does not fail. -/
abbrev UnfailingGood (w : World σ Pid α) (e : Event σ Pid α) : Prop :=
  Enabled w e ∧ RewritesStored w e ∧ PendingRemains w e ∧ ThreadsAgree w e

/-! ## the processes that stay -/

variable {dropped again : List Pid} {new : List (ServiceInstance σ Pid)} {p q : Pid}
  {x y : ServiceInstance σ Pid}

/-- A stored process that is not erased keeps its instance. -/
theorem Advances.instances_kept (h : Advances sid dropped again new s m s' effects)
    (hgrouped : Grouped s.services) (hunlisted : ∀ q ∈ m.pids, Unlisted s.services q)
    (hx : instances s.services p = some x) (hnot : ¬ (p ∈ dropped ∧ x.serviceId = sid)) :
    instances s'.services p = some x := by
  obtain ⟨y, hy⟩ := Option.isSome_iff_exists.mp (h.kept p x hx hnot)
  have hlisted := hgrouped.mem p x hx
  rcases h.origin p y hy with ⟨hkept, _⟩ | ⟨hnew, hp⟩ | ⟨_, p', hp', hp⟩
  · rw [hy, ← hkept, hx]
  · exact absurd hlisted (h.unlisted hunlisted hnew p hp p x hx)
  · rw [hy, hgrouped.same p' p y x p hp' hx hp hlisted]

theorem present_of_remains (howned : Owned s.services) (h : Remains s sid pids) :
    ∃ p x, instances s.services p = some x ∧ x.serviceId = sid ∧ p ∉ pids := by
  obtain ⟨p, hp, hnot⟩ := h
  obtain ⟨x, hx, hid⟩ := (mem_keys2_iff_instances howned).mp hp
  exact ⟨p, x, hx, hid, hnot⟩

/-- An instance that is started again at once is stored. -/
theorem present_of_atOnce {service : Service Pid α} {readings : Readings}
    {started : Started Pid} (h : Grouped s.services)
    (hunlisted : ∀ q ∈ started.getD [], Unlisted s.services q)
    (hrecord : record s.services pid = some (sid, service))
    (hatOnce : ∀ r ∈ service.restarted readings started, r.AtOnce)
    (hr : handleDown isGone pid .error readings started s = .ok (s', effects)) :
    sid ∈ terminated effects ∨ Present sid s'.services := by
  rw [handleDown, findPid_eq h.owned, ok_bind, hrecord] at hr
  dsimp only at hr
  rw [restartStage1] at hr
  obtain ⟨⟨services, exits⟩, hterminate, hr⟩ := Except.ok_of_bind hr
  obtain ⟨⟨s₁, effects'⟩, hresult, hr⟩ := Except.ok_of_bind hr
  cases hr
  obtain ⟨howned, _, hinstances⟩ := terminateService_spec h.owned hterminate
  replace hresult : restartResult isGone sid pid { s with services }
    (service.restarted readings started) = .ok (s', effects') := hresult
  cases hrestarted : service.restarted readings started with
  | none =>
    rw [hrestarted] at hresult
    cases hresult
  | some r =>
    have honce := hatOnce r hrestarted
    rw [hrestarted] at hresult
    cases r with
    | failed failed =>
      obtain ⟨_, _, hterminated⟩ := restartFailed_evolves howned hresult
      rw [terminated, List.filterMap_append]
      exact .inl (List.mem_append_right _ hterminated)
    | delayed delay service' => exact honce.elim
    | again service' => exact honce.elim
    | started service' =>
      cases hresult
      obtain ⟨p, hp⟩ := List.exists_mem_of_ne_nil _ honce
      have hstarted : started = some service'.pids := (restartStage2_started hrestarted).1
      have hfree : ∀ q ∈ service'.pids, FreeFor services sid q := by
        intro q hq z hz
        have hun := hunlisted q (by rw [hstarted]; exact hq)
        have hbefore := ((hinstances q z).mp hz).1
        rw [hun.instances_none h] at hbefore
        cases hbefore
      refine .inr ⟨p, service'.toInstance sid, ?_, rfl⟩
      show instances (storePids sid service' service'.pids services) p = _
      rw [instances_storePids howned hfree, if_pos hp]

/-- **Presence is kept**: a step of a service with a change that waits leaves a process of it. -/
theorem Advances.present (h : Advances sid dropped again new w.state m s' effects)
    (hgrouped : Grouped w.state.services) (hunlisted : ∀ q ∈ m.pids, Unlisted w.state.services q)
    (hr : handle w.isGone w.state m = .ok (s', effects))
    (hremains : PendingRemains w (.message m)) (hpending : Pending w.state sid)
    (hpresent : Present sid w.state.services) (hon : sid ∉ terminated effects) :
    Present sid s'.services := by
  have hlost := h.drops.resolve_left hon
  obtain ⟨p, x, hx, hid⟩ := hpresent
  by_cases hp : p ∈ dropped
  · have hother (lost : List Pid) (hlost : ∀ q ∈ dropped, q ∈ lost)
        (hremains : Remains w.state sid lost) : Present sid s'.services := by
      obtain ⟨q, y, hy, hidy, hnot⟩ := present_of_remains hgrouped.owned hremains
      have hkept := h.instances_kept hgrouped hunlisted hy fun hand => hnot (hlost q hand.1)
      exact ⟨q, y, hkept, hidy⟩
    cases m with
    | down pid reason readings started =>
      cases reason with
      | countProcessDynamicTerminate =>
        obtain rfl : p = pid := (hlost p).mp hp
        obtain ⟨⟨id, service⟩, hrecord, rfl⟩ := Option.map_eq_some_iff.mp hx
        obtain rfl : id = sid := hid
        exact hother [p] (fun q hq => List.mem_singleton.mpr ((hlost q).mp hq))
          (hremains _ hrecord hpending)
      | error =>
        obtain ⟨x', hx', hmem⟩ := (hlost p).mp hp
        have hsame := hgrouped.same p pid x x' p hx hx' (hgrouped.mem p x hx) hmem
        obtain ⟨⟨id, service⟩, hrecord, hservice⟩ := Option.map_eq_some_iff.mp hx'
        rw [hsame, ← hservice] at hid
        obtain rfl : id = sid := hid
        rcases hremains _ hrecord hpending with hleft | hatOnce
        · refine hother service.pids (fun q hq => ?_) hleft
          obtain ⟨x'', hx'', hq⟩ := (hlost q).mp hq
          rw [hx', Option.some.injEq] at hx''
          rw [← hx'', ← hservice] at hq
          exact hq
        · exact (present_of_atOnce hgrouped hunlisted hrecord hatOnce hr).resolve_left hon
      | _ => exact ((hlost p).mp hp).elim
    | _ => exact ((hlost p).mp hp).elim
  · exact ⟨p, x, h.instances_kept hgrouped hunlisted hx fun hand => hp hand.1, hid⟩

variable [DecidableEq α]

theorem pendingPresent_next (hconsistent : Consistent w) (h : PendingPresent w.state)
    (henabled : Enabled w e) (hremains : PendingRemains w e) (hnext : next w e = some w') :
    PendingPresent w'.state := by
  cases e with
  | dies pid reason =>
    cases hnext
    exact h
  | message m =>
    obtain ⟨s', effects, hr, rfl⟩ := next_message hnext
    have hsame (hsame : Same w.state s' effects) {id : σ}
        (hpresent : Present id w.state.services) : Present id s'.services := by
      obtain ⟨p, x, hx, hid⟩ := hpresent
      exact ⟨p, x, (hsame.instances p).trans hx, hid⟩
    rintro id ⟨change, hchange, hterminated⟩
    cases hconsistent.handled henabled hr with
    | same hkept hchanges _ =>
      refine hsame hkept (h id ⟨change, (hchanges id change hchange).resolve_left ?_, hterminated⟩)
      simp [hterminated]
    | asked hkept hasks =>
      obtain ⟨pid, period, entry, sid, change', _, hpresent, hput, _⟩ := hasks
      refine hsame hkept ?_
      by_cases hid : sid = id
      · exact hid ▸ hpresent
      · replace hchange : Maps.find id s'.changes = some change := hchange
        rw [hput, Maps.find_put, if_neg hid] at hchange
        exact h id ⟨change, hchange, hterminated⟩
    | @advances sid dropped again new hadvances =>
      have hbefore : Pending w.state id :=
        ⟨change, (hadvances.changes id change hchange).resolve_left (by simp [hterminated]),
          hterminated⟩
      have hunlisted := hconsistent.unlisted henabled
      by_cases hid : id = sid
      · subst hid
        refine hadvances.present hconsistent.grouped hunlisted hr hremains hbefore (h id hbefore)
          fun hend => ?_
        have hvoid := (hadvances.terminate hend).1.changes change hchange
        rw [hterminated] at hvoid
        cases hvoid
      · obtain ⟨p, x, hx, hidx⟩ := h id hbefore
        refine ⟨p, x, hadvances.instances_kept hconsistent.grouped hunlisted hx fun hand => ?_, hidx⟩
        exact hid (hidx.symm.trans hand.2)

/-- The threads of an instance are all stored, when one of them died for an error. -/
def Intact (w : World σ Pid α) : Prop :=
  ∀ q y, instances w.state.services q = some y → w.status q = .down .error →
    ∀ p ∈ y.pids, (instances w.state.services p).isSome = true

omit [LinearOrder σ] [DecidableEq α] in
/-- The `DOWN` message of a process that is dead after a message was on its way before. -/
theorem down_of_statusAfter {status : Pid → Status} {downPid : Option Pid} {reason : DownReason}
    (h : statusAfter status downPid effects q = .down reason) :
    status q = .down reason ∧ q ∉ monitored effects := by
  rw [statusAfter] at h
  by_cases hmonitored : q ∈ monitored effects
  · rw [if_pos hmonitored] at h
    cases h
  · rw [if_neg hmonitored] at h
    split at h
    · cases h
    · exact ⟨h, hmonitored⟩

omit [DecidableEq α] in
/-- A step of a service erases an instance that died for an error as a whole, or none of it. -/
theorem Advances.intact (h : Advances sid dropped again new w.state m s' effects)
    (hgrouped : Grouped w.state.services) (hunlisted : ∀ q ∈ m.pids, Unlisted w.state.services q)
    (hagree : ThreadsAgree w (.message m)) (hintact : Intact w)
    (hy : instances w.state.services q = some y) (hdown : w.status q = .down .error)
    (hstays : instances s'.services q = some y) : ∀ p ∈ y.pids,
      (instances s'.services p).isSome = true := by
  intro p hp
  obtain ⟨x, hx⟩ := Option.isSome_iff_exists.mp (hintact q y hy hdown p hp)
  obtain rfl := hgrouped.same p q x y p hx hy (hgrouped.mem p x hx) hp
  refine Option.isSome_of_mem (h.instances_kept hgrouped hunlisted hx ?_)
  rintro ⟨hdropped, rfl⟩
  rcases h.drops with hend | hlost
  · exact (h.terminate hend).1.instances q x hstays rfl
  · have hlostp := (hlost p).mp hdropped
    cases m with
    | down pid reason readings started =>
      cases reason with
      | countProcessDynamicTerminate =>
        obtain rfl : p = pid := hlostp
        exact hagree x hx q (hgrouped.mem q x hy) hdown
      | error =>
        obtain ⟨x', hx', hmem⟩ := hlostp
        obtain rfl := hgrouped.same p pid x x' p hx hx' (hgrouped.mem p x hx) hmem
        have hq := (hlost q).mpr ⟨x, hx', hgrouped.mem q x hy⟩
        rcases h.origin q x hstays with ⟨_, hkept⟩ | ⟨hnew, hq'⟩ | ⟨hagain, _⟩
        · exact hkept ⟨hq, rfl⟩
        · exact h.unlisted hunlisted hnew q hq' q x hy (hgrouped.mem q x hy)
        · rw [h.exclusive.resolve_left (List.ne_nil_of_mem hagain)] at hq
          cases hq
      | _ => exact hlostp
    | _ => exact hlostp

theorem intact_next (hconsistent : Consistent w) (h : Intact w) (henabled : Enabled w e)
    (hstored : RewritesStored w e) (hagree : ThreadsAgree w e) (hnext : next w e = some w') :
    Intact w' := by
  cases e with
  | dies pid reason =>
    cases hnext
    intro q y hy hdown
    replace hdown : update w.status pid (.down reason) q = .down .error := hdown
    by_cases hq : q = pid
    · subst hq
      rw [update_self, Status.down.injEq] at hdown
      subst hdown
      exact hagree y hy
    · rw [update_of_ne hq] at hdown
      exact h q y hy hdown
  | message m =>
    obtain ⟨s', effects, hr, rfl⟩ := next_message hnext
    intro q y hy hdown
    obtain ⟨hbefore, hmonitored⟩ := down_of_statusAfter hdown
    have hsame (hsame : Same w.state s' effects) :
        ∀ p ∈ y.pids, (instances s'.services p).isSome = true := by
      intro p hp
      rw [hsame.instances]
      exact h q y ((hsame.instances q).symm.trans hy) hbefore p hp
    cases hconsistent.handled henabled hr with
    | same hkept _ _ => exact hsame hkept
    | asked hkept _ => exact hsame hkept
    | @advances sid dropped again new hadvances =>
      have hgrouped := hconsistent.grouped
      have hstays : instances w.state.services q = some y := by
        rcases hadvances.origin q y hy with ⟨hkept, _⟩ | ⟨hnew, hq⟩ | ⟨hagain, p, hp, hq⟩
        · exact hkept
        · refine absurd ?_ hmonitored
          rw [hadvances.monitor]
          exact List.mem_flatMap.mpr ⟨y, hnew, hq⟩
        · rw [hadvances.again_eq, List.mem_flatMap] at hagain
          obtain ⟨service, hservice, hmem⟩ := hagain
          obtain ⟨x, hx⟩ := Option.isSome_iff_exists.mp (hstored.rewrites service hservice q hmem)
          rw [hx, hgrouped.same q p x y q hx hp (hgrouped.mem q x hx) hq]
      exact hadvances.intact hgrouped (hconsistent.unlisted henabled) hagree h hstays hbefore hy

/-! ## one message -/

omit [DecidableEq α] in
/-- The `DOWN` message of a stored process was not received. -/
theorem Live.not_gone (h : Live w) {p : Pid} (hp : (instances w.state.services p).isSome = true) :
    w.isGone p = false := by
  obtain ⟨x, hx⟩ := Option.isSome_iff_exists.mp hp
  have hunhandled := h p x hx
  rw [World.isGone]
  refine decide_eq_false fun hgone => ?_
  rw [hgone] at hunhandled
  exact hunhandled

omit [DecidableEq α] in
/-- **One message fails with an exception of another kind only.** -/
theorem handle_onlyError (hconsistent : Consistent w) (hlive : Live w)
    (hchanges : ChangesAsked w.state) (hpresent : PendingPresent w.state) (hintact : Intact w)
    (henabled : Enabled w (.message m)) :
    Except.OnlyError .exception (handle w.isGone w.state m) := by
  have howned := hconsistent.grouped.owned
  cases m with
  | monitor sid service started => exact onlyError_ok _ _
  | shutdown sid =>
    show Except.OnlyError .exception (handleShutdown w.isGone sid w.state)
    rw [handleShutdown]
    cases hfind : Key2value.find1 sid w.state.services with
    | none => exact onlyError_ok _ _
    | some x =>
      obtain ⟨r, hr⟩ : ∃ r, terminateAll w.isGone x.1 sid none true false w.state = .ok r :=
        terminateAll_ok (nodup_find1 howned hfind) fun _ p hp _ => hlive.not_gone (by
          rw [← Key2value.keys2_of_find1 hfind, mem_keys2_iff_instances howned] at hp
          obtain ⟨y, hy, _⟩ := hp
          rw [hy]
          rfl)
      dsimp only
      rw [hr]
      exact onlyError_ok _ _
  | update serviceIds argumentsNew => exact updateService_onlyError.map
  | change pid period entry =>
    show Except.OnlyError .exception (handleChange pid period entry w.state)
    rw [handleChange, findPid_eq howned, ok_bind]
    split
    · exact onlyError_ok _ _
    · split
      · exact onlyError_ok _ _
      · exact onlyError_ok _ _
  | terminateBegin pid timeTerminate =>
    show Except.OnlyError .exception (handleTerminateBegin pid timeTerminate w.state)
    rw [handleTerminateBegin, findPid_eq howned, ok_bind]
    split
    · exact onlyError_ok _ _
    · exact onlyError_ok _ _
  | changes sid starts =>
    show Except.OnlyError .exception (pidsChangeCheck sid starts w.state)
    rw [pidsChangeCheck]
    cases hfind : Maps.find sid w.state.changes with
    | none => exact onlyError_ok _ _
    | some change =>
      dsimp only
      by_cases hterminated : change.terminated = true
      · rw [if_pos hterminated]
        split
        · exact onlyError_ok _ _
        · exact onlyError_ok _ _
      · rw [if_neg hterminated]
        rw [Bool.not_eq_true] at hterminated
        obtain ⟨hne, hasked⟩ := hchanges sid change hfind hterminated
        have hfind1 := find1_ne_none_of_present howned
          (hpresent sid ⟨change, hfind, hterminated⟩)
        exact pidsChangeNow_onlyError hfind1 hne hasked
  | down pid reason readings started =>
    refine handleDown_onlyError hconsistent.grouped (fun p hp => hlive.not_gone hp) ?_
    rintro rfl x hx
    exact hintact pid x hx henabled.1
  | restart message readings started => exact restartResult_onlyError howned _

/-! ## runs -/

theorem changesAsked_next (hconsistent : Consistent w) (h : ChangesAsked w.state)
    (henabled : Enabled w e) (hnext : next w e = some w') : ChangesAsked w'.state := by
  cases e with
  | dies pid reason =>
    cases hnext
    exact h
  | message m =>
    obtain ⟨s', effects, hr, rfl⟩ := next_message hnext
    refine h.handled (fun pid period entry hm => ?_) (hconsistent.handled henabled hr)
    rw [hm] at henabled
    exact henabled.1

/-- The invariant of the runs that do not fail. -/
structure Unfailing (w : World σ Pid α) : Prop where
  consistent : Consistent w
  live : Live w
  asked : ChangesAsked w.state
  present : PendingPresent w.state
  intact : Intact w

omit [DecidableEq α] in
theorem unfailing_empty : Unfailing ({} : World σ Pid α) := by
  have hnone (id : σ) : Maps.find id ({} : State σ Pid α).changes = none :=
    Maps.find_empty id
  refine ⟨consistent_empty, live_empty, fun id change hchange => ?_, ?_, fun q y hy => ?_⟩
  · rw [hnone] at hchange
    cases hchange
  · rintro id ⟨change, hchange, _⟩
    rw [hnone] at hchange
    cases hchange
  · rw [instances_empty] at hy
    cases hy

theorem unfailing_next (h : Unfailing w) (hgood : UnfailingGood w e) (hnext : next w e = some w') :
    Unfailing w' := by
  obtain ⟨henabled, hstored, hremains, hagree⟩ := hgood
  exact ⟨consistent_next h.consistent henabled hnext,
    live_next h.consistent h.live henabled hstored hnext,
    changesAsked_next h.consistent h.asked henabled hnext,
    pendingPresent_next h.consistent h.present henabled hremains hnext,
    intact_next h.consistent h.intact henabled hstored hagree hnext⟩

/-- **The services monitor does not fail on its own state**: no fetch of a service without
processes, no division by zero, and no wait for a process that is gone. -/
theorem never_fails {events : List (Event σ Pid α)}
    (h : Steps next UnfailingGood {} events w) (henabled : Enabled w (.message m)) :
    handle w.isGone w.state m ≠ .error .badkey ∧ handle w.isGone w.state m ≠ .error .badarith ∧
      handle w.isGone w.state m ≠ .error .wait := by
  have hinv : Unfailing w := h.invariant (fun _ _ _ => unfailing_next) unfailing_empty
  have honly := handle_onlyError hinv.consistent hinv.live hinv.asked hinv.present hinv.intact
    henabled
  refine ⟨fun herror => ?_, fun herror => ?_, fun herror => ?_⟩
  · cases honly _ herror
  · cases honly _ herror
  · cases honly _ herror

/-! ## sample runs -/

instance (s : State σ Pid α) (id : σ) : Decidable (Pending s id) :=
  inferInstanceAs (Decidable (∃ change ∈ Maps.find id s.changes, change.terminated = false))

instance (s : State σ Pid α) (id : σ) (lost : List Pid) : Decidable (Remains s id lost) :=
  inferInstanceAs (Decidable (∃ p ∈ Key2value.keys2 id s.services, p ∉ lost))

instance (r : Restarted Pid α) : Decidable r.AtOnce := by
  cases r <;> unfold Restarted.AtOnce <;> infer_instance

instance (w : World σ Pid α) (e : Event σ Pid α) : Decidable (PendingRemains w e) :=
  match e with
  | .message (.down pid .error readings started) => inferInstanceAs (Decidable
      (∀ x ∈ record w.state.services pid, Pending w.state x.1 →
        Remains w.state x.1 x.2.pids ∨ ∀ r ∈ x.2.restarted readings started, r.AtOnce))
  | .message (.down pid .countProcessDynamicTerminate _ _) => inferInstanceAs (Decidable
      (∀ x ∈ record w.state.services pid, Pending w.state x.1 → Remains w.state x.1 [pid]))
  | .message (.down _ .shutdown _ _) | .message (.down _ .shutdownReason _ _)
  | .message (.monitor _ _ _) | .message (.shutdown _) | .message (.update _ _)
  | .message (.change _ _ _) | .message (.terminateBegin _ _) | .message (.changes _ _)
  | .message (.restart _ _ _) | .dies _ _ => .isTrue trivial

instance (w : World σ Pid α) (e : Event σ Pid α) : Decidable (ThreadsAgree w e) :=
  match e with
  | .dies pid .error => inferInstanceAs (Decidable (∀ x ∈ instances w.state.services pid,
      ∀ p ∈ x.pids, (instances w.state.services p).isSome = true))
  | .message (.down pid .countProcessDynamicTerminate _ _) => inferInstanceAs (Decidable
      (∀ x ∈ instances w.state.services pid, ∀ p ∈ x.pids, w.status p ≠ .down .error))
  | .dies _ .shutdown | .dies _ .shutdownReason | .dies _ .countProcessDynamicTerminate
  | .message (.down _ .error _ _) | .message (.down _ .shutdown _ _)
  | .message (.down _ .shutdownReason _ _) | .message (.monitor _ _ _) | .message (.shutdown _)
  | .message (.update _ _) | .message (.change _ _ _) | .message (.terminateBegin _ _)
  | .message (.changes _ _) | .message (.restart _ _ _) => .isTrue trivial

/-- Of two instances of two threads, one dies for an error while a change waits for its timer. -/
def deathRun : List (Event Nat Nat Unit) :=
  [.message (.monitor 0 (sampleService 0 1) (some [1, 2])),
    .message (.change 1 1000 sampleIncrease),
    .message (.changes 0 [some [3, 4]]),
    .message (.change 2 1000 sampleDecrease),
    .dies 3 .error,
    .message (.down 3 .error { delay := 0, filter := 0, start := 0 } none)]

theorem never_fails_deathRun :
    handle (worldAfter deathRun).isGone (worldAfter deathRun).state (.changes 0 []) ≠
        .error .badkey ∧
      handle (worldAfter deathRun).isGone (worldAfter deathRun).state (.changes 0 []) ≠
        .error .badarith ∧
      handle (worldAfter deathRun).isGone (worldAfter deathRun).state (.changes 0 []) ≠
        .error .wait := by
  have hsteps : Steps next UnfailingGood {} deathRun (worldAfter deathRun) :=
    steps_getD_of_checked (by decide +kernel)
  exact never_fails hsteps (by decide +kernel)

/-- The only process waits for its restart when the change that it asked for is made. -/
def delayedRun : List (Event Nat Nat Unit) :=
  [.message (.monitor 0 (sampleService 0 0) (some [1])),
    .message (.change 1 1000 sampleIncrease),
    .dies 1 .error,
    .message (.down 1 .error { delay := 0, filter := 0, start := 0 } none)]

/-- One of two threads that a decrease terminates dies for an error after the other ended. -/
def errorRun : List (Event Nat Nat Unit) :=
  [.message (.monitor 0 (sampleService 0 1) (some [1, 2])),
    .message (.monitor 0 (sampleService 1 1) (some [3, 4])),
    .message (.change 1 1000 sampleDecrease),
    .message (.changes 0 []),
    .dies 3 .countProcessDynamicTerminate,
    .message (.down 3 .countProcessDynamicTerminate { delay := 0, filter := 0, start := 0 } none),
    .dies 4 .error]

/-- The `DOWN` message of the thread that died for an error. -/
def errorDown : Message Nat Nat Unit := .down 4 .error { delay := 0, filter := 0, start := 0 } none

/-- **A change fails on its missing service, and a restart waits for a thread that is gone.** -/
theorem fails_on_its_state : (Steps next Enabled {} delayedRun (worldAfter delayedRun) ∧
      Enabled (worldAfter delayedRun) (.message (.changes 0 [])) ∧
      handle (worldAfter delayedRun).isGone (worldAfter delayedRun).state (.changes 0 []) =
        .error .badkey) ∧
    Steps next Enabled {} errorRun (worldAfter errorRun) ∧
      Enabled (worldAfter errorRun) (.message errorDown) ∧
      handle (worldAfter errorRun).isGone (worldAfter errorRun).state errorDown = .error .wait := by
  have hdelayed : Steps next Enabled {} delayedRun (worldAfter delayedRun) :=
    steps_getD_of_checked (by decide +kernel)
  have herror : Steps next Enabled {} errorRun (worldAfter errorRun) :=
    steps_getD_of_checked (by decide +kernel)
  refine ⟨⟨hdelayed, by decide +kernel, ?_⟩, herror, by decide +kernel, ?_⟩
  · exact Except.error?_eq_some.mp (by decide +kernel)
  · exact Except.error?_eq_some.mp (by decide +kernel)

end CloudI.ServicesMonitor
