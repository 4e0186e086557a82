import CloudI.ServicesMonitor.Evolves

/-!
# ServicesMonitor.ProcessChange

The changes of the process count.  `service_instance` finds a record of every instance
of the service, in the order of the indexes; `pids_change_update` then stores the records
with all the processes that they list, and an increase starts instances under the indexes
after the last one.
-/

namespace CloudI.ServicesMonitor

open List Option
open CloudI.Except (ok_bind ok_of_bind)

variable {σ Pid α : Type} [LinearOrder σ] [LinearOrder Pid]

/-- **The records of an instance agree**: a process is in the list of its record, and two
records that list a process are of one instance. -/
structure Grouped (services : Services σ Pid α) : Prop where
  owned : Owned services
  mem : ∀ p x, instances services p = some x → p ∈ x.pids
  nodup : ∀ p x, instances services p = some x → x.pids.Nodup
  same : ∀ p q x y r, instances services p = some x → instances services q = some y →
    r ∈ x.pids → r ∈ y.pids → x = y

variable {services services' : Services σ Pid α} {sid : σ}
  {service : Service Pid α} {serviceL results : List (Service Pid α)}
  {pids : List Pid} {effects : List (Effect σ Pid α)}

/-! ## service_instance -/

omit [LinearOrder Pid] in
theorem mem_keymerge : x ∈ keymerge service results ↔ x = service ∨ x ∈ results := by
  induction results with
  | nil => simp [keymerge]
  | cons y results ih =>
    rw [keymerge]
    by_cases hle : y.processIndex ≤ service.processIndex
    · rw [if_pos hle, mem_cons, ih, mem_cons]
      exact or_left_comm
    · rw [if_neg hle, mem_cons]

omit [LinearOrder Pid] in
theorem sorted_keymerge (h : results.Pairwise (·.processIndex ≤ ·.processIndex)) :
    (keymerge service results).Pairwise (·.processIndex ≤ ·.processIndex) := by
  induction results with
  | nil => exact pairwise_singleton _ service
  | cons y results ih =>
    rw [keymerge]
    rw [pairwise_cons] at h
    by_cases hle : y.processIndex ≤ service.processIndex
    · rw [if_pos hle, pairwise_cons]
      refine ⟨fun x hx => ?_, ih h.2⟩
      rcases mem_keymerge.mp hx with rfl | hx
      · exact hle
      · exact h.1 x hx
    · rw [if_neg hle, pairwise_cons]
      refine ⟨fun x hx => ?_, pairwise_cons.mpr h⟩
      rcases mem_cons.mp hx with rfl | hx
      · exact Nat.le_of_not_le hle
      · exact Nat.le_trans (Nat.le_of_not_le hle) (h.1 x hx)

/-- **`service_instance`**: sorted records of the service, one of which lists each process. -/
theorem serviceInstanceLoop_spec (h : Grouped services)
    (hresults : ∀ x ∈ results, ∃ p, instances services p = some (x.toInstance sid))
    (hsorted : results.Pairwise (·.processIndex ≤ ·.processIndex))
    (hr : serviceInstanceLoop sid services n pids results = .ok serviceL) :
    (∀ x ∈ serviceL, ∃ p, instances services p = some (x.toInstance sid)) ∧
      serviceL.Pairwise (·.processIndex ≤ ·.processIndex) ∧ (∀ x ∈ results, x ∈ serviceL) ∧
      ∀ p ∈ pids, ∃ x ∈ serviceL, p ∈ x.pids := by
  induction n generalizing pids results with
  | zero =>
    cases pids with
    | nil =>
      cases hr
      exact ⟨hresults, hsorted, fun x hx => hx, nofun⟩
    | cons pid pids => cases hr
  | succ n ih =>
    cases pids with
    | nil =>
      cases hr
      exact ⟨hresults, hsorted, fun x hx => hx, nofun⟩
    | cons pid pids =>
      rw [serviceInstanceLoop, find2_eq h.owned] at hr
      cases hrecord : record services pid with
      | none =>
        rw [hrecord] at hr
        cases hr
      | some x =>
        obtain ⟨id, service⟩ := x
        rw [hrecord] at hr
        dsimp only [map_some] at hr
        by_cases hid : id = sid
        · rw [if_pos hid] at hr
          subst hid
          have hinstance := instances_of_record hrecord
          obtain ⟨hall, hsorted', hkeep, hcover⟩ := ih (fun x hx => by
            rcases mem_keymerge.mp hx with rfl | hx
            · exact ⟨pid, hinstance⟩
            · exact hresults x hx) (sorted_keymerge hsorted) hr
          have hservice : service ∈ serviceL := hkeep service (mem_keymerge.mpr (.inl rfl))
          refine ⟨hall, hsorted', fun x hx => hkeep x (mem_keymerge.mpr (.inr hx)), ?_⟩
          intro p hp
          by_cases hlisted : p ∈ service.pids
          · exact ⟨service, hservice, hlisted⟩
          · rcases mem_cons.mp hp with rfl | hp
            · exact absurd (h.mem p _ hinstance) hlisted
            · refine hcover p ?_
              split
              · exact hp
              · exact mem_diff_of_mem hp hlisted
        · rw [if_neg hid] at hr
          cases hr

theorem serviceInstance_spec (h : Grouped services)
    (hr : serviceInstance pids sid services = .ok serviceL) :
    (∀ x ∈ serviceL, ∃ p, instances services p = some (x.toInstance sid)) ∧
      serviceL.Pairwise (·.processIndex ≤ ·.processIndex) ∧
      ∀ p ∈ pids, ∃ x ∈ serviceL, p ∈ x.pids := by
  obtain ⟨hall, hsorted, _, hcover⟩ :=
    serviceInstanceLoop_spec h (fun _ hx => absurd hx not_mem_nil) List.Pairwise.nil hr
  exact ⟨hall, hsorted, hcover⟩

/-! ## pids_change_update -/

/-- The effects that tell a process the new count. -/
def Updates (effects : List (Effect σ Pid α)) : Prop :=
  ∀ e ∈ effects, ∃ p countProcess, e = .processUpdate p countProcess

/-- An instance afterwards is an instance from before, of a process that it lists, and no process
is erased. -/
structure Regrouped (services services' : Services σ Pid α) (again : List Pid) :
    Prop where
  origin : ∀ q y, instances services' q = some y →
    instances services q = some y ∨
      (q ∈ again ∧ ∃ p, instances services p = some y ∧ q ∈ y.pids)
  kept : ∀ q, (instances services q).isSome = true → (instances services' q).isSome = true

/-- One record is stored with the processes that it lists. -/
theorem regrouped_storePids (h : Grouped services) (hregrouped : Regrouped services services' again)
    (howned : Owned services') (hlisted : instances services p = some (service.toInstance sid)) :
    Owned (storePids sid service service.pids services') ∧
      Regrouped services (storePids sid service service.pids services')
        (again ++ service.pids) := by
  have hfree : ∀ q ∈ service.pids, FreeFor services' sid q := by
    intro q hq y hy
    obtain ⟨p', hp', hmem⟩ : ∃ p', instances services p' = some y ∧ q ∈ y.pids := by
      rcases hregrouped.origin q y hy with hkept | ⟨_, p', hp', hmem⟩
      · exact ⟨q, hkept, h.mem q y hkept⟩
      · exact ⟨p', hp', hmem⟩
    rw [h.same p' p y _ q hp' hlisted hmem hq]
    rfl
  refine ⟨(storePids_spec howned hfree).1, fun q y hy => ?_, fun q hq => ?_⟩
  · rw [instances_storePids howned hfree] at hy
    by_cases hq : q ∈ service.pids
    · rw [if_pos hq, Option.some.injEq] at hy
      subst hy
      exact .inr ⟨mem_append_right _ hq, p, hlisted, hq⟩
    · rw [if_neg hq] at hy
      rcases hregrouped.origin q y hy with hkept | ⟨hagain, hfrom⟩
      · exact .inl hkept
      · exact .inr ⟨mem_append_left _ hagain, hfrom⟩
  · rw [instances_storePids howned hfree]
    split
    · rfl
    · exact hregrouped.kept q hq

/-- **`pids_change_update`** stores the instances that it is given with all their processes. -/
theorem pidsChangeUpdate_spec (countProcess : Int) (h : Grouped services)
    (hlisted : ∀ x ∈ serviceL, ∃ p, instances services p = some (x.toInstance sid)) :
    ∃ output services' effects,
      pidsChangeUpdate countProcess sid serviceL services = (output, services', effects) ∧
        output.map (Service.toInstance sid) =
          (serviceL.map (Service.toInstance sid)).reverse ∧
        Owned services' ∧ Regrouped services services' (serviceL.flatMap Service.pids) ∧
        Updates effects := by
  suffices hgeneral : ∀ (output : List (Service Pid α))
      (services₁ : Services σ Pid α)
      (effects₁ : List (Effect σ Pid α)) (again : List Pid),
      Owned services₁ → Regrouped services services₁ again → Updates effects₁ →
      ∃ output' services' effects', serviceL.foldl (fun x service =>
          let serviceNew := { service with countProcess }
          (serviceNew :: x.1, storePids sid serviceNew service.pids x.2.1,
            x.2.2 ++ service.pids.map fun p => .processUpdate p countProcess))
          (output, services₁, effects₁) = (output', services', effects') ∧
        output'.map (Service.toInstance sid) =
          (serviceL.map (Service.toInstance sid)).reverse ++
            output.map (Service.toInstance sid) ∧
        Owned services' ∧ Regrouped services services' (again ++ serviceL.flatMap Service.pids) ∧
        Updates effects' by
    obtain ⟨output, services', effects, heq, houtput, howned, hregrouped, hupdates⟩ :=
      hgeneral [] services [] [] h.owned ⟨fun q y hy => .inl hy, fun _ hq => hq⟩
        (forall_mem_nil _)
    exact ⟨output, services', effects, heq, by simpa using houtput, howned, hregrouped, hupdates⟩
  induction serviceL with
  | nil =>
    intro output services₁ effects₁ again howned hregrouped hupdates
    exact ⟨output, services₁, effects₁, rfl, by simp, howned, by simpa using hregrouped, hupdates⟩
  | cons x serviceL ih =>
    intro output services₁ effects₁ again howned hregrouped hupdates
    obtain ⟨p, hp⟩ := hlisted x mem_cons_self
    let xNew : Service Pid α := { x with countProcess }
    have hpNew : instances services p = some (xNew.toInstance sid) := hp
    have hstore := regrouped_storePids h hregrouped howned hpNew
    let effects₂ := effects₁ ++ x.pids.map fun p => Effect.processUpdate p countProcess
    have hupdates₂ : Updates effects₂ := by
      intro e he
      rcases mem_append.mp he with he | he
      · exact hupdates e he
      · obtain ⟨q, _, rfl⟩ := List.mem_map.mp he
        exact ⟨q, countProcess, rfl⟩
    obtain ⟨output', services', effects', heq, houtput, howned', hregrouped', hupdates'⟩ :=
      ih (fun y hy => hlisted y (mem_cons_of_mem x hy)) (xNew :: output)
        (storePids sid xNew x.pids services₁) effects₂ (again ++ x.pids) hstore.1
        hstore.2 hupdates₂
    refine ⟨output', services', effects', heq, ?_, howned', ?_, hupdates'⟩
    · rw [houtput]
      simp [xNew, Service.toInstance]
    · rwa [append_assoc] at hregrouped'

/-! ## increase and decrease -/

/-- The instances that an increase starts, those that fail without processes. -/
def increased (sid : σ) : Nat → Nat → List (Started Pid) →
    List (ServiceInstance σ Pid)
  | 0, _, _ => []
  | count + 1, processIndex, starts =>
      { serviceId := sid, processIndex, pids := (starts.headD none).getD [] } ::
        increased sid count (processIndex + 1) starts.tail

variable {starts : List (Started Pid)} {count processIndex : Nat} {β : Type}
  {changeList : List Change} {rate : ℚ} {f : Effect σ Pid α → Option β}

section
omit [LinearOrder σ] [LinearOrder Pid]

theorem increased_id : ∀ y ∈ increased sid count processIndex starts, y.serviceId = sid := by
  induction count generalizing processIndex starts with
  | zero => nofun
  | succ count ih =>
    intro y hy
    rcases mem_cons.mp hy with rfl | hy
    · rfl
    · exact ih y hy

/-- The indexes of an increase follow the first one. -/
theorem increased_index :
    (increased sid count processIndex starts).Pairwise (·.processIndex < ·.processIndex) ∧
      ∀ y ∈ increased sid count processIndex starts, processIndex ≤ y.processIndex := by
  induction count generalizing processIndex starts with
  | zero => exact ⟨List.Pairwise.nil, nofun⟩
  | succ count ih =>
    obtain ⟨hsorted, hle⟩ : (increased sid count (processIndex + 1) starts.tail).Pairwise
            (·.processIndex < ·.processIndex) ∧
          ∀ y ∈ increased sid count (processIndex + 1) starts.tail,
            processIndex + 1 ≤ y.processIndex := ih
    refine ⟨pairwise_cons.mpr ⟨fun y hy => hle y hy, hsorted⟩, fun y hy => ?_⟩
    rcases mem_cons.mp hy with rfl | hy
    · exact Nat.le_refl _
    · exact Nat.le_of_succ_le (hle y hy)

theorem increased_pids (sid : σ) (count processIndex : Nat) (starts : List (Started Pid)) :
    ((increased sid count processIndex starts).flatMap ServiceInstance.pids).Sublist
      (starts.flatMap fun started => started.getD []) := by
  induction count generalizing processIndex starts with
  | zero => exact nil_sublist _
  | succ count ih =>
    cases starts with
    | nil => exact ih (processIndex + 1) []
    | cons started starts => exact (List.Sublist.refl _).append (ih (processIndex + 1) starts)

end

theorem pidsChangeIncreaseLoop_spec (howned : Owned services)
    (hnodup : ((increased sid count processIndex starts).flatMap ServiceInstance.pids).Nodup)
    (hnew : ∀ y ∈ increased sid count processIndex starts, ∀ p ∈ y.pids,
      instances services p = none)
    (hr : pidsChangeIncreaseLoop service sid count processIndex starts services =
      (services', effects)) :
    Owned services' ∧ (∀ q y, instances services' q = some y → instances services q = some y ∨
        (y ∈ increased sid count processIndex starts ∧ q ∈ y.pids)) ∧
      (∀ q, (instances services q).isSome = true → (instances services' q).isSome = true) ∧
      monitored effects =
        (increased sid count processIndex starts).flatMap ServiceInstance.pids ∧
      ∀ e ∈ effects, e = .start sid ∨ ∃ p, e = .monitor p := by
  induction count generalizing processIndex starts services services' effects with
  | zero =>
    cases hr
    exact ⟨howned, fun q y hy => .inl hy, fun _ hq => hq, rfl, nofun⟩
  | succ count ih =>
    cases hr
    let pids := (starts.headD none).getD []
    let serviceNew := newServiceProcess service processIndex pids
    have hhead := start_evolves (s := { services }) sid serviceNew howned
      (hnew _ mem_cons_self)
    have hinstances : ∀ q y, instances (storePids sid serviceNew pids services) q = some y →
          instances services q = some y ∨ (y = serviceNew.toInstance sid ∧ q ∈ pids) := by
      intro q y hy
      rcases hhead.origin q y hy with hkept | ⟨hmem, hq⟩ | ⟨hq, _⟩
      · exact .inl hkept.1
      · obtain rfl := mem_singleton.mp hmem
        exact .inr ⟨rfl, hq⟩
      · cases hq
    rw [increased, flatMap_cons, nodup_append] at hnodup
    obtain ⟨howned', horigin, hkept, hmonitored, honly⟩ := ih hhead.owned hnodup.2.1 (fun y hy p hp => by
        by_contra hstored
        obtain ⟨z, hz⟩ := ne_none_iff_exists'.mp hstored
        rcases hinstances p z hz with hbefore | ⟨_, hhead⟩
        · rw [hnew y (mem_cons_of_mem _ hy) p hp] at hbefore
          cases hbefore
        · exact hnodup.2.2 p hhead p (mem_flatMap.mpr ⟨y, hy, hp⟩) rfl) rfl
    refine ⟨howned', fun q y hy => ?_, fun q hq => hkept q ?_, ?_, fun e he => ?_⟩
    · rcases horigin q y hy with hbefore | ⟨hmem, hq⟩
      · rcases hinstances q y hbefore with hold | ⟨rfl, hq⟩
        · exact .inl hold
        · exact .inr ⟨mem_cons_self, hq⟩
      · exact .inr ⟨mem_cons_of_mem _ hmem, hq⟩
    · obtain ⟨y, hy⟩ := isSome_iff_exists.mp hq
      exact hhead.kept q y hy fun hand => absurd hand.1 not_mem_nil
    · have hpids : monitored (.start sid :: pids.map .monitor :
          List (Effect σ Pid α)) = pids := by
        refine hhead.monitor.trans ?_
        simp [serviceNew, newServiceProcess, Service.toInstance, pids]
      rw [increased, flatMap_cons, ← hmonitored]
      show monitored ((Effect.start sid :: pids.map .monitor) ++ _) = _
      rw [monitored, filterMap_append, ← monitored, hpids]
      rfl
    · rcases mem_cons.mp he with rfl | he
      · exact .inl rfl
      · rcases mem_append.mp he with he | he
        · obtain ⟨p, _, rfl⟩ := List.mem_map.mp he
          exact .inr ⟨p, rfl⟩
        · exact honly e he

omit [LinearOrder σ] [LinearOrder Pid] in
theorem pidsChangeDecreaseLoop_spec
    (hr : pidsChangeDecreaseLoop count serviceL = .ok (serviceL', effects)) :
    (∀ x ∈ serviceL', x ∈ serviceL) ∧ ∀ e ∈ effects, ∃ p, e = .processTerminate p := by
  induction count generalizing serviceL effects with
  | zero =>
    cases hr
    exact ⟨fun x hx => hx, nofun⟩
  | succ count ih =>
    cases serviceL with
    | nil => cases hr
    | cons service serviceL =>
      rw [pidsChangeDecreaseLoop] at hr
      cases hrest : (pidsChangeDecreaseLoop count serviceL : Except Failure
          (List (Service Pid α) × List (Effect σ Pid α))) with
      | error failure =>
        rw [hrest] at hr
        cases hr
      | ok rest =>
        rw [hrest] at hr
        cases hr
        obtain ⟨hsub, hterminate⟩ := ih hrest
        refine ⟨fun x hx => mem_cons_of_mem _ (hsub x hx), fun e he => ?_⟩
        rcases mem_append.mp he with he | he
        · obtain ⟨p, _, rfl⟩ := List.mem_map.mp he
          exact ⟨p, rfl⟩
        · exact hterminate e he

/-! ## the whole change -/

/-- The records that a change of `i` stores again: all for an increase, and those that are not
terminated for a decrease. -/
def rewrittenOf (σ : Type) (serviceL : List (Service Pid α)) (i : Int) :
    Except Failure (List (Service Pid α)) :=
  if i = 0 then .ok []
  else if i > 0 then .ok serviceL
  else
    let decreased : Except Failure
        (List (Service Pid α) × List (Effect σ Pid α)) :=
      pidsChangeDecreaseLoop (-i).toNat serviceL.reverse
    decreased.map Prod.fst

/-- The records that a change list makes the monitor store again. -/
def rewritten (sid : σ) (changeList : List Change)
    (services : Services σ Pid α) : List (Service Pid α) :=
  match (do
    let (pids, service) ← fetchService sid services
    let (i, _) ← pidsChange changeList (erlangRound (pids.length / service.countThread))
    let serviceL ← serviceInstance pids sid services
    rewrittenOf σ serviceL i : Except Failure (List (Service Pid α))) with
  | .ok serviceL => serviceL
  | .error _ => []

/-- No record lists the process. -/
def Unlisted (services : Services σ Pid α) (q : Pid) : Prop :=
  ∀ p x, instances services p = some x → q ∉ x.pids

/-- **A change of the process count**: some records are stored again, and the new instances have
higher indexes than all others of the service. -/
structure Changed (sid : σ) (new : List (ServiceInstance σ Pid))
    (starts : List (Started Pid)) (serviceL : List (Service Pid α))
    (s s' : State σ Pid α) (effects : List (Effect σ Pid α)) :
    Prop where
  evolves : Evolves sid [] (serviceL.flatMap Service.pids) new s s' effects
  pids : (new.flatMap ServiceInstance.pids).Sublist (starts.flatMap fun started => started.getD [])
  above : ∀ y ∈ new, ∀ p x, instances s.services p = some x → x.serviceId = sid →
    x.processIndex < y.processIndex
  sorted : new.Pairwise (·.processIndex < ·.processIndex)
  quiet : terminated effects = []

variable {s s' : State σ Pid α} {countProcess : Int}

section
omit [LinearOrder σ] [LinearOrder Pid]

theorem Updates.filterMap (h : Updates effects) (hf : ∀ p n, f (.processUpdate p n) = none) :
    effects.filterMap f = [] := by
  rw [filterMap_eq_nil_iff]
  intro e he
  obtain ⟨p, n, rfl⟩ := h e he
  exact hf p n

theorem filterMap_starts (h : ∀ e ∈ effects, e = .start sid ∨ ∃ p, e = .monitor p)
    (hstart : f (.start sid) = none) (hmonitor : ∀ p, f (.monitor p) = none) :
    effects.filterMap f = [] := by
  rw [filterMap_eq_nil_iff]
  intro e he
  rcases h e he with rfl | ⟨p, rfl⟩
  · exact hstart
  · exact hmonitor p

/-- The first record of the reversed list has the highest index. -/
theorem le_last_index (hsorted : serviceL.Pairwise (·.processIndex ≤ ·.processIndex))
    (houtput : (service :: output).map (Service.toInstance sid) =
      (serviceL.map (Service.toInstance sid)).reverse) :
    ∀ x ∈ serviceL, x.processIndex ≤ service.processIndex := by
  intro x hx
  rw [map_cons, ← map_reverse] at houtput
  rw [← mem_reverse] at hx
  cases hrev : serviceL.reverse with
  | nil =>
    rw [hrev] at hx
    cases hx
  | cons last rest =>
    rw [hrev, map_cons, List.cons.injEq] at houtput
    have hlast : service.processIndex = last.processIndex :=
      congrArg ServiceInstance.processIndex houtput.1
    have hdesc := pairwise_reverse.mpr hsorted
    rw [hrev, pairwise_cons] at hdesc
    rw [hrev] at hx
    rw [hlast]
    rcases mem_cons.mp hx with rfl | hx
    · exact Nat.le_refl _
    · exact hdesc.1 x hx

end

theorem pidsChangeIncrease_changed (h : Grouped s.services) (hall : AllOf sid pids s.services)
    (hnodup : (starts.flatMap fun started => started.getD []).Nodup)
    (hunlisted : ∀ q ∈ starts.flatMap fun started => started.getD [], Unlisted s.services q)
    (hserviceL : serviceInstance pids sid s.services = .ok serviceL)
    (hr : pidsChangeIncrease count starts pids countProcess sid s.services =
      .ok (services', effects)) :
    ∃ new, Changed sid new starts serviceL s { s with services := services' } effects := by
  obtain ⟨hlisted, hsorted, hcover⟩ := serviceInstance_spec h hserviceL
  rw [pidsChangeIncrease, hserviceL] at hr
  obtain ⟨output, services₁, updates, heq, houtput, howned₁, hregrouped, hupdates⟩ :=
    pidsChangeUpdate_spec (countProcess + count) h hlisted
  rw [ok_bind, heq] at hr
  dsimp only at hr
  cases output with
  | nil => cases hr
  | cons service output =>
    let new := increased sid count (service.processIndex + 1) starts
    have hpids := increased_pids sid count (service.processIndex + 1) starts
    have hnew : ∀ y ∈ new, ∀ p ∈ y.pids, instances services₁ p = none := by
      intro y hy p hp
      have hun := hunlisted p (hpids.subset (mem_flatMap.mpr ⟨y, hy, hp⟩))
      by_contra hstored
      obtain ⟨z, hz⟩ := ne_none_iff_exists'.mp hstored
      rcases hregrouped.origin p z hz with hkept | ⟨_, p', hp', hmem⟩
      · exact hun p z hkept (h.mem p z hkept)
      · exact hun p' z hp' hmem
    dsimp only at hr
    cases hloop : pidsChangeIncreaseLoop service sid count (service.processIndex + 1)
        starts services₁ with
    | mk services₂ effects₂ =>
      rw [hloop] at hr
      cases hr
      obtain ⟨howned₂, horigin, hstored, hmonitored, honly⟩ :=
        pidsChangeIncreaseLoop_spec howned₁ (hpids.nodup hnodup) hnew hloop
      have hquiet : terminated (updates ++ effects₂) = [] := by
        rw [terminated, filterMap_append, hupdates.filterMap fun _ _ => rfl,
          filterMap_starts honly rfl fun _ => rfl]
        rfl
      refine ⟨new, ⟨howned₂, fun q y hy => ?_, forall_mem_nil _, ?_, increased_id, ?_,
        fun e he id hid => ?_, fun _ _ => .inr, ?_, fun q y hy _ =>
          hstored q (hregrouped.kept q (isSome_of_mem hy))⟩, hpids, ?_, increased_index.1,
        hquiet⟩
      · rcases horigin q y hy with hbefore | hmem
        · rcases hregrouped.origin q y hbefore with hkept | ⟨hagain, hfrom⟩
          · exact .inl ⟨hkept, fun hagain => absurd hagain.1 not_mem_nil⟩
          · exact .inr (.inr ⟨hagain, hfrom⟩)
        · exact .inr (.inl hmem)
      · rw [monitored, filterMap_append, hupdates.filterMap fun _ _ => rfl, ← monitored,
          hmonitored]
        rfl
      · intro p hp
        rw [received, filterMap_append,
          hupdates.filterMap fun _ _ => rfl, filterMap_starts honly rfl fun _ => rfl] at hp
        cases hp
      · rcases mem_append.mp he with he | he
        · obtain ⟨p, n, rfl⟩ := hupdates e he
          cases hid
        · rcases honly e he with rfl | ⟨p, rfl⟩
          · cases hid
            rfl
          · cases hid
      · intro hmem
        rw [hquiet] at hmem
        cases hmem
      · intro y hy p x hx hid
        obtain ⟨service₀, hservice₀, hp⟩ := hcover p (hall p x hx hid)
        obtain ⟨p₀, hp₀⟩ := hlisted service₀ hservice₀
        have hsame := h.same p p₀ x _ p hx hp₀ (h.mem p x hx) hp
        have hle := le_last_index hsorted houtput service₀ hservice₀
        have hindex : x.processIndex = service₀.processIndex := by
          rw [hsame]
          rfl
        have hlt := increased_index.2 y hy
        omega

omit [LinearOrder σ] [LinearOrder Pid] in
theorem filterMap_terminates (h : ∀ e ∈ effects, ∃ p, e = .processTerminate p)
    (hf : ∀ p, f (.processTerminate p) = none) : effects.filterMap f = [] := by
  rw [filterMap_eq_nil_iff]
  intro e he
  obtain ⟨p, rfl⟩ := h e he
  exact hf p

theorem pidsChangeDecrease_changed {serviceLNew : List (Service Pid α)}
    {terminates : List (Effect σ Pid α)} (h : Grouped s.services)
    (hserviceL : serviceInstance pids sid s.services = .ok serviceL)
    (hloop : pidsChangeDecreaseLoop count serviceL.reverse = .ok (serviceLNew, terminates))
    (hr : pidsChangeDecrease count pids countProcess sid s.services =
      .ok (services', effects)) (starts : List (Started Pid)) :
    Changed sid [] starts serviceLNew s { s with services := services' } effects := by
  obtain ⟨hlisted, _, _⟩ := serviceInstance_spec h hserviceL
  obtain ⟨hsub, hterminates⟩ := pidsChangeDecreaseLoop_spec hloop
  have hlistedNew : ∀ x ∈ serviceLNew, ∃ p, instances s.services p = some (x.toInstance sid) :=
    fun x hx => hlisted x (mem_reverse.mp (hsub x hx))
  obtain ⟨output, services₁, updates, heq, _, howned₁, hregrouped, hupdates⟩ :=
    pidsChangeUpdate_spec (countProcess - count) h hlistedNew
  rw [pidsChangeDecrease, hserviceL, ok_bind, hloop, ok_bind] at hr
  dsimp only at hr
  rw [heq] at hr
  cases hr
  have hnone {β : Type} {f : Effect σ Pid α → Option β}
      (hterminate : ∀ p, f (.processTerminate p) = none)
      (hupdate : ∀ p n, f (.processUpdate p n) = none) : (terminates ++ updates).filterMap f = [] := by
    rw [filterMap_append, filterMap_terminates hterminates hterminate,
      hupdates.filterMap hupdate]
    rfl
  refine ⟨⟨howned₁, fun q y hy => ?_, nofun, hnone (fun _ => rfl) fun _ _ => rfl, nofun,
    fun p hp => ?_, fun e he id hid => ?_, fun _ _ => .inr, fun hmem => ?_,
    fun q y hy _ => hregrouped.kept q (isSome_of_mem hy)⟩, nil_sublist _, nofun, List.Pairwise.nil, hnone (fun _ => rfl) fun _ _ => rfl⟩
  · rcases hregrouped.origin q y hy with hkept | ⟨hagain, hfrom⟩
    · exact .inl ⟨hkept, nofun⟩
    · exact .inr (.inr ⟨hagain, hfrom⟩)
  · rw [received, hnone (fun _ => rfl) fun _ _ => rfl] at hp
    cases hp
  · rcases mem_append.mp he with he | he
    · obtain ⟨p, rfl⟩ := hterminates e he
      cases hid
    · obtain ⟨p, n, rfl⟩ := hupdates e he
      cases hid
  · rw [terminated, hnone (fun _ => rfl) fun _ _ => rfl] at hmem
    cases hmem

theorem changed_nil (howned : Owned s.services) : Changed sid [] starts [] s s [] where
  evolves := {
    owned := howned
    origin := fun _ _ hy => .inl ⟨hy, nofun⟩
    free := nofun
    monitor := rfl
    new_id := nofun
    receive := nofun
    only := nofun
    changes := fun _ _ => .inr
    terminate := nofun
    kept := fun _ _ hy _ => isSome_of_mem hy }
  pids := nil_sublist _
  above := nofun
  sorted := List.Pairwise.nil
  quiet := rfl

theorem rewritten_eq (hfetch : fetchService sid services = .ok (pids, service))
    (hchange : pidsChange changeList (erlangRound (pids.length / service.countThread)) =
      .ok (i, rate)) (hserviceL : serviceInstance pids sid services = .ok serviceL)
    (hof : rewrittenOf σ serviceL i = .ok results) :
    rewritten sid changeList services = results := by
  rw [rewritten, hfetch, ok_bind]
  dsimp only
  rw [hchange, ok_bind]
  dsimp only
  rw [hserviceL, ok_bind, hof]

theorem rewritten_zero (hfetch : fetchService sid services = .ok (pids, service))
    (hchange : pidsChange changeList (erlangRound (pids.length / service.countThread)) =
      .ok (0, rate)) : rewritten sid changeList services = [] := by
  rw [rewritten, hfetch, ok_bind]
  dsimp only
  rw [hchange, ok_bind]
  cases serviceInstance pids sid services <;> rfl

theorem find1_of_fetchService (h : fetchService sid services = .ok (pids, service)) :
    Key2value.find1 sid services = some (pids, service) := by
  rw [fetchService] at h
  split at h
  next x heq => rw [heq, Except.ok.inj h]
  · cases h

theorem pidsChangeNow_changed (h : Grouped s.services)
    (hnodup : (starts.flatMap fun started => started.getD []).Nodup)
    (hunlisted : ∀ q ∈ starts.flatMap fun started => started.getD [], Unlisted s.services q)
    (hr : pidsChangeNow sid changeList starts s = .ok (s', effects)) :
    ∃ new, Changed sid new starts (rewritten sid changeList s.services) s s'
      effects := by
  rw [pidsChangeNow] at hr
  obtain ⟨⟨pids, service⟩, hfetch, hr⟩ := ok_of_bind hr
  obtain ⟨⟨i, rate⟩, hchange, hr⟩ := ok_of_bind hr
  obtain ⟨⟨services', effects'⟩, hservices, hr⟩ := ok_of_bind hr
  cases hr
  have hfind := find1_of_fetchService hfetch
  have hall : AllOf sid pids s.services := allOf_find1 h.owned hfind
  by_cases hzero : i = 0
  · subst hzero
    rw [if_pos rfl] at hservices
    cases hservices
    rw [rewritten_zero hfetch hchange]
    exact ⟨[], changed_nil h.owned⟩
  · rw [if_neg hzero] at hservices
    by_cases hpos : i > 0
    · rw [if_pos hpos] at hservices
      obtain ⟨serviceL, hserviceL, _⟩ := ok_of_bind hservices
      rw [rewritten_eq hfetch hchange hserviceL (by rw [rewrittenOf, if_neg hzero, if_pos hpos])]
      exact pidsChangeIncrease_changed h hall hnodup hunlisted hserviceL hservices
    · rw [if_neg hpos] at hservices
      obtain ⟨serviceL, hserviceL, hrest⟩ := ok_of_bind hservices
      obtain ⟨⟨serviceLNew, terminates⟩, hloop, _⟩ := ok_of_bind hrest
      have hof : rewrittenOf σ serviceL i = .ok serviceLNew := by
        rw [rewrittenOf, if_neg hzero, if_neg hpos, hloop]
        rfl
      rw [rewritten_eq hfetch hchange hserviceL hof]
      exact ⟨[], pidsChangeDecrease_changed h hserviceL hloop hservices starts⟩

end CloudI.ServicesMonitor
