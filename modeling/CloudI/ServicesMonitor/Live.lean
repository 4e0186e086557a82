import CloudI.ServicesMonitor.Consistent

/-!
# ServicesMonitor.Live

`services` has live processes only, each once (`StoresLive`): the `DOWN` message of a
stored process was not handled yet, the lists of the records are disjoint, and an index
belongs to one instance of its service.

Two things break this.  `pids_change_update` stores every process that a record lists,
also one whose thread ended before the others; and an index is used twice when the
restart of its instance is delayed while a change starts new instances, or when an
instance is monitored after a change took its index.  Apart from these it holds in all
runs (`stores_live`).
-/

namespace CloudI.ServicesMonitor

open Run List Function

variable {σ Pid α : Type} [LinearOrder σ] [LinearOrder Pid] {w w' : World σ Pid α}
  {m : Message σ Pid α} {e : Event σ Pid α}
  {s s' : State σ Pid α} {effects : List (Effect σ Pid α)}
  {sid : σ} {dropped again : List Pid} {new : List (ServiceInstance σ Pid)}

/-- **Live processes only, each once.** -/
structure StoresLive (w : World σ Pid α) : Prop where
  unhandled : ∀ sid, ∀ p ∈ Key2value.keys2 sid w.state.services, (w.status p).Unhandled
  listed : ∀ p x, instances w.state.services p = some x → p ∈ x.pids
  disjoint : ∀ p q x y, instances w.state.services p = some x →
    instances w.state.services q = some y → x = y ∨ x.pids.Disjoint y.pids
  index : ∀ p q x y, instances w.state.services p = some x →
    instances w.state.services q = some y → x.serviceId = y.serviceId →
      x.processIndex = y.processIndex → x = y

/-- A change that is made, of a service that was not terminated, stores records again: these list
stored processes only. -/
def RewritesStored (w : World σ Pid α) : Event σ Pid α → Prop
  | .message (.changes sid _) =>
      ∀ change ∈ Maps.find sid w.state.changes, change.terminated = false →
        ∀ service ∈ rewritten sid change.changes w.state.services, ∀ p ∈ service.pids,
          (instances w.state.services p).isSome = true
  | _ => True

/-- No stored instance of the service has the index. -/
def IndexFree (sid : σ) (processIndex : Nat) (services : Services σ Pid α) : Prop :=
  ∀ p x, instances services p = some x → x.serviceId = sid → x.processIndex ≠ processIndex

/-- The instance that a call of `monitor` or a message of a restart starts has a free index. -/
def StartsFree (w : World σ Pid α) : Event σ Pid α → Prop
  | .message (.monitor sid service started) =>
      started ≠ none → IndexFree sid service.processIndex w.state.services
  | .message (.restart message readings started) =>
      ∀ service, message.restarted readings started = some (.started service) →
        IndexFree message.serviceId message.service.processIndex w.state.services
  | _ => True

theorem RewritesStored.rewrites (h : RewritesStored w (.message m)) :
    ∀ service ∈ m.rewrites w.state, ∀ p ∈ service.pids,
      (instances w.state.services p).isSome = true := by
  intro service hservice
  cases m with
  | changes sid starts =>
    rw [Message.rewrites] at hservice
    cases hfind : Maps.find sid w.state.changes with
    | none =>
      rw [hfind] at hservice
      cases hservice
    | some change =>
      simp only [hfind] at hservice
      cases hterminated : change.terminated with
      | true =>
        rw [hterminated] at hservice
        cases hservice
      | false =>
        rw [hterminated] at hservice
        exact h change hfind hterminated service hservice
  | _ => cases hservice

/-! ## live processes -/

/-- The `DOWN` message of a stored process was not handled yet. -/
def Live (w : World σ Pid α) : Prop :=
  ∀ p x, instances w.state.services p = some x → (w.status p).Unhandled

variable {status : Pid → Status} {p : Pid} {y x : ServiceInstance σ Pid}
  {events : List (Event σ Pid α)}

omit [LinearOrder σ] in
theorem unhandled_statusAfter (h : (status p).Unhandled) (hreceived : p ∉ received effects)
    (hdown : m.downPid? ≠ some p) : (statusAfter status m.downPid? effects p).Unhandled := by
  rw [statusAfter]
  by_cases hmonitored : p ∈ monitored effects
  · rw [if_pos hmonitored]
    trivial
  · rw [if_neg hmonitored, if_neg (not_or.mpr ⟨hreceived, hdown⟩)]
    exact h

/-- A step of one service takes no `DOWN` message of a process that it does not erase. -/
theorem Advances.unhandled (h : Advances sid dropped again new s m s' effects)
    (hstatus : (status p).Unhandled) (hp : p ∉ dropped) :
    (statusAfter status m.downPid? effects p).Unhandled :=
  unhandled_statusAfter hstatus (fun hmem => hp (h.receive p hmem)) fun hdown => hp (h.down p hdown)

variable [DecidableEq α]

theorem live_next (hconsistent : Consistent w) (h : Live w) (henabled : Enabled w e)
    (hstored : RewritesStored w e) (hnext : next w e = some w') : Live w' := by
  cases e with
  | dies pid reason =>
    cases hnext
    intro p x hx
    show (update w.status pid (.down reason) p).Unhandled
    by_cases hp : p = pid
    · rw [hp, update_self]
      trivial
    · rw [update_of_ne hp]
      exact h p x hx
  | message m =>
    obtain ⟨s', effects, hr, rfl⟩ := next_message hnext
    intro p x hx
    show (statusAfter w.status m.downPid? effects p).Unhandled
    cases hconsistent.handled henabled hr with
    | same hsame _ hdown =>
      have hbefore : instances w.state.services p = some x := (hsame.instances p).symm.trans hx
      refine unhandled_statusAfter (h p x hbefore) ?_ fun hp => ?_
      · rw [received, hsame.filterMap fun _ _ => rfl]
        exact not_mem_nil
      · rw [hdown p hp] at hbefore
        cases hbefore
    | asked hsame hasks =>
      obtain ⟨pid, period, entry, id, change, rfl, _⟩ := hasks
      have hbefore : instances w.state.services p = some x := (hsame.instances p).symm.trans hx
      refine unhandled_statusAfter (h p x hbefore) ?_ fun hp => by cases hp
      rw [received, hsame.filterMap fun _ _ => rfl]
      exact not_mem_nil
    | @advances sid dropped again new hadvances =>
      rcases hadvances.origin p x hx with ⟨hkept, hdropped⟩ | ⟨hnew, hp⟩ | ⟨hagain, _⟩
      · refine hadvances.unhandled (h p x hkept) fun hp => ?_
        exact hdropped ⟨hp, hadvances.free p hp x hkept⟩
      · have hmonitored : p ∈ monitored effects := by
          rw [hadvances.monitor]
          exact mem_flatMap.mpr ⟨x, hnew, hp⟩
        rw [statusAfter, if_pos hmonitored]
        trivial
      · have hnone : dropped = [] :=
          hadvances.exclusive.resolve_left (ne_nil_of_mem hagain)
        rw [hadvances.again_eq, mem_flatMap] at hagain
        obtain ⟨service, hservice, hp⟩ := hagain
        obtain ⟨y, hy⟩ := Option.isSome_iff_exists.mp (hstored.rewrites service hservice p hp)
        refine hadvances.unhandled (h p y hy) ?_
        rw [hnone]
        exact not_mem_nil

/-! ## indexes -/

/-- An index belongs to one instance of its service. -/
def Indexed (services : Services σ Pid α) : Prop :=
  ∀ p q x y, instances services p = some x → instances services q = some y →
    x.serviceId = y.serviceId → x.processIndex = y.processIndex → x = y

omit [DecidableEq α] in
/-- A new instance has another index than the instances that stay. -/
theorem Advances.index_ne (h : Advances sid dropped again new w.state m s' effects)
    (hgrouped : Grouped w.state.services) (hindexed : Indexed w.state.services)
    (hfree : StartsFree w (.message m)) (hx : instances s'.services p = some x) (hxnew : x ∉ new)
    (hy : y ∈ new) (hid : x.serviceId = y.serviceId) : x.processIndex ≠ y.processIndex := by
  obtain ⟨p', hp'⟩ := (h.source hgrouped hx).2.resolve_right hxnew
  have hplaced := h.placed y hy
  have hyid := h.new_id y hy
  cases m with
  | monitor id service started =>
    have hconcerns : id = sid := h.concerns
    rw [hplaced.2]
    exact hfree hplaced.1 p' x hp' (by rw [hid, hyid, hconcerns])
  | restart message readings started =>
    obtain ⟨service', hservice', rfl⟩ := mem_restartNew hplaced
    have hindex : service'.processIndex = message.service.processIndex :=
      (message.restarted_started hservice').2
    have hne := hfree service' hservice' p' x hp' hid
    rwa [← hindex] at hne
  | changes id starts => exact ne_of_lt (hplaced p' x hp' hid)
  | down pid reason readings started =>
    obtain ⟨x₀, hx₀, hindex, hsubset⟩ := hplaced
    have hpid : pid ∈ dropped := h.down pid rfl
    intro heq
    have hsame : x = x₀ := hindexed p' pid x x₀ hp' hx₀
      (by rw [hid, hyid, h.free pid hpid x₀ hx₀]) (heq.trans hindex)
    rcases h.origin p x hx with ⟨hkept, hdropped⟩ | ⟨hnew, _⟩ | ⟨hagain, _⟩
    · refine hdropped ⟨hsubset ?_, hid.trans hyid⟩
      rw [← hsame]
      exact hgrouped.mem p x hkept
    · exact hxnew hnew
    · rw [h.exclusive.resolve_left (ne_nil_of_mem hagain)] at hpid
      cases hpid
  | _ => exact hplaced.elim

theorem eq_of_processIndex_eq (hsorted : new.Pairwise (·.processIndex < ·.processIndex))
    (hx : x ∈ new) (hy : y ∈ new) (hindex : x.processIndex = y.processIndex) : x = y := by
  have hne : new.Pairwise fun x y => x.processIndex ≠ y.processIndex := hsorted.imp ne_of_lt
  have hsymm : Std.Symm fun x y : ServiceInstance σ Pid =>
      x.processIndex ≠ y.processIndex := ⟨fun _ _ h => h.symm⟩
  by_contra hxy
  exact hne.forall hx hy hxy hindex

theorem indexed_next (hconsistent : Consistent w) (h : Indexed w.state.services)
    (henabled : Enabled w e) (hfree : StartsFree w e) (hnext : next w e = some w') :
    Indexed w'.state.services := by
  cases e with
  | dies pid reason =>
    cases hnext
    exact h
  | message m =>
    obtain ⟨s', effects, hr, rfl⟩ := next_message hnext
    have hsame (hsame : Same w.state s' effects) : Indexed s'.services := by
      intro p q x y hx hy
      rw [hsame.instances] at hx hy
      exact h p q x y hx hy
    cases hconsistent.handled henabled hr with
    | same hkept _ _ => exact hsame hkept
    | asked hkept _ => exact hsame hkept
    | @advances sid dropped again new hadvances =>
      intro p q x y hx hy hid hindex
      have hgrouped := hconsistent.grouped
      by_cases hxnew : x ∈ new
      · by_cases hynew : y ∈ new
        · exact eq_of_processIndex_eq hadvances.sorted hxnew hynew hindex
        · exact absurd hindex.symm (hadvances.index_ne hgrouped h hfree hy hynew hxnew hid.symm)
      · by_cases hynew : y ∈ new
        · exact absurd hindex (hadvances.index_ne hgrouped h hfree hx hxnew hynew hid)
        · obtain ⟨p', hp'⟩ := (hadvances.source hgrouped hx).2.resolve_right hxnew
          obtain ⟨q', hq'⟩ := (hadvances.source hgrouped hy).2.resolve_right hynew
          exact h p' q' x y hp' hq' hid hindex

/-! ## runs -/

/-- The side condition of a run that stores live processes only. -/
abbrev LiveGood (w : World σ Pid α) (e : Event σ Pid α) : Prop :=
  Enabled w e ∧ RewritesStored w e ∧ StartsFree w e

omit [DecidableEq α] in
theorem live_empty : Live ({} : World σ Pid α) := by
  intro p x hx
  rw [instances_empty] at hx
  cases hx

theorem live_of_steps (h : Steps next (fun w e => Enabled w e ∧ RewritesStored w e) {} events w) :
    Consistent w ∧ Live w := by
  have hstep : ∀ (w : World σ Pid α) e w', Consistent w ∧ Live w →
      Enabled w e ∧ RewritesStored w e → next w e = some w' → Consistent w' ∧ Live w' :=
    fun w e w' hw hgood hnext => ⟨consistent_next hw.1 hgood.1 hnext,
      live_next hw.1 hw.2 hgood.1 hgood.2 hnext⟩
  exact h.invariant (I := fun w => Consistent w ∧ Live w) hstep ⟨consistent_empty, live_empty⟩

theorem indexed_of_steps (h : Steps next (fun w e => Enabled w e ∧ StartsFree w e) {} events w) :
    Consistent w ∧ Indexed w.state.services := by
  have hstep : ∀ (w : World σ Pid α) e w',
      Consistent w ∧ Indexed w.state.services → Enabled w e ∧ StartsFree w e →
        next w e = some w' → Consistent w' ∧ Indexed w'.state.services :=
    fun w e w' hw hgood hnext => ⟨consistent_next hw.1 hgood.1 hnext,
      indexed_next hw.1 hw.2 hgood.1 hgood.2 hnext⟩
  refine h.invariant (I := fun w => Consistent w ∧ Indexed w.state.services) hstep
    ⟨consistent_empty, fun p q x y hx => ?_⟩
  rw [instances_empty] at hx
  cases hx

/-- **The services monitor stores live processes only, each once.** -/
theorem stores_live {events : List (Event σ Pid α)}
    (h : Steps next LiveGood {} events w) : StoresLive w := by
  obtain ⟨hconsistent, hlive⟩ := live_of_steps (h.mono fun w e hgood => ⟨hgood.1, hgood.2.1⟩)
  obtain ⟨_, hindexed⟩ := indexed_of_steps (h.mono fun w e hgood => ⟨hgood.1, hgood.2.2⟩)
  have hgrouped := hconsistent.grouped
  refine ⟨fun sid p hp => ?_, hgrouped.mem, fun p q x y hx hy => ?_, hindexed⟩
  · obtain ⟨x, hx, _⟩ := (mem_keys2_iff_instances hgrouped.owned).mp hp
    exact hlive p x hx
  · by_cases hxy : x = y
    · exact .inl hxy
    · exact .inr fun r hrx hry => hxy (hgrouped.same p q x y r hx hy hrx hry)

/-! ## sample runs -/

instance (w : World σ Pid α) (e : Event σ Pid α) : Decidable (RewritesStored w e) :=
  match e with
  | .message (.changes sid _) => inferInstanceAs (Decidable
      (∀ change ∈ Maps.find sid w.state.changes, change.terminated = false →
        ∀ service ∈ rewritten sid change.changes w.state.services, ∀ p ∈ service.pids,
          (instances w.state.services p).isSome = true))
  | .message (.monitor _ _ _) | .message (.shutdown _) | .message (.update _ _)
  | .message (.change _ _ _) | .message (.terminateBegin _ _) | .message (.down _ _ _ _)
  | .message (.restart _ _ _) | .dies _ _ => .isTrue trivial

/-- An event that starts no instance under an old index. -/
def Event.isFollowing : Event σ Pid α → Bool
  | .message (.monitor _ _ _) | .message (.restart _ _ _) => false
  | _ => true

omit [DecidableEq α] in
theorem startsFree_of_isFollowing (h : e.isFollowing = true) : StartsFree w e := by
  cases e with
  | dies pid reason => trivial
  | message m =>
    cases m with
    | monitor sid service started => cases h
    | restart message readings started => cases h
    | _ => trivial

/-- Two threads are started, and a change starts two more. -/
def increaseRun : List (Event Nat Nat Unit) :=
  [.message (.change 1 1000 sampleIncrease), .message (.changes 0 [some [3, 4]]), .dies 3 .error]

theorem stores_live_increaseRun : ∃ w : World Nat Nat Unit,
    Key2value.keys2 0 w.state.services = [1, 2, 3, 4] ∧ StoresLive w := by
  let start : Message Nat Nat Unit := .monitor 0 (sampleService 0 1) (some [1, 2])
  have hstart : LiveGood {} (.message start) := by
    refine ⟨by decide +kernel, by decide +kernel, fun _ p x hx => ?_⟩
    have hnone : instances ({} : Services Nat Nat Unit) p = none := instances_empty p
    exact absurd (hnone.symm.trans hx) nofun
  have hrest : Steps next (fun w e => Enabled w e ∧ RewritesStored w e ∧ e.isFollowing = true)
      (worldAfter [.message start]) increaseRun
      ((run next (worldAfter [.message start]) increaseRun).getD {}) :=
    steps_getD_of_checked (by decide +kernel)
  have hgood : Steps next LiveGood {} (.message start :: increaseRun)
      ((run next (worldAfter [.message start]) increaseRun).getD {}) :=
    .cons hstart rfl (hrest.mono fun w e h => ⟨h.1, h.2.1, startsFree_of_isFollowing h.2.2⟩)
  exact ⟨_, by decide +kernel, stores_live hgood⟩

/-- A decrease terminates two threads, of which one ends before an increase. -/
def threadRun : List (Event Nat Nat Unit) :=
  [.message (.monitor 0 (sampleService 0 1) (some [1, 2])),
    .message (.monitor 0 (sampleService 1 1) (some [3, 4])),
    .message (.change 1 1000 sampleDecrease),
    .message (.changes 0 []),
    .dies 3 .countProcessDynamicTerminate,
    .message (.down 3 .countProcessDynamicTerminate { delay := 0, filter := 0, start := 0 } none),
    .message (.change 1 1000 sampleIncrease),
    .message (.changes 0 [some [5, 6], some [7, 8]])]

/-- The restart of an instance is delayed while a change starts a new instance. -/
def indexRun : List (Event Nat Nat Unit) :=
  [.message (.monitor 0 (sampleService 0 0) (some [1])),
    .message (.monitor 0 (sampleService 1 0) (some [2])),
    .dies 2 .error,
    .message (.down 2 .error { delay := 0, filter := 0, start := 0 } none),
    .message (.change 1 1000 sampleIncrease),
    .message (.changes 0 [some [3]]),
    .message (.restart { stage := .stage3, pid := 2, serviceId := 0, service := sampleService 1 0 }
      { delay := 0, filter := 0, start := 5 } (some [4]))]

/-- **A process that ended is stored again, and an index is used twice.** -/
theorem not_stores_live : (Steps next Enabled {} threadRun (worldAfter threadRun) ∧
      ¬ StoresLive (worldAfter threadRun)) ∧
    Steps next Enabled {} indexRun (worldAfter indexRun) ∧ ¬ StoresLive (worldAfter indexRun) := by
  have hthread : Steps next Enabled {} threadRun (worldAfter threadRun) :=
    steps_getD_of_checked (by decide +kernel)
  have hindex : Steps next Enabled {} indexRun (worldAfter indexRun) :=
    steps_getD_of_checked (by decide +kernel)
  have hgone : 3 ∈ Key2value.keys2 0 (worldAfter threadRun).state.services ∧
      (worldAfter threadRun).status 3 = .gone := by decide +kernel
  have htwice : instances (worldAfter indexRun).state.services 3 =
        some { serviceId := 0, processIndex := 1, pids := [3] } ∧
      instances (worldAfter indexRun).state.services 4 =
        some { serviceId := 0, processIndex := 1, pids := [4] } := by decide +kernel
  refine ⟨⟨hthread, fun hlive => ?_⟩, hindex, fun hlive => ?_⟩
  · have hunhandled := hlive.unhandled 0 3 hgone.1
    rw [hgone.2] at hunhandled
    exact hunhandled
  · have heq := hlive.index 3 4 _ _ htwice.1 htwice.2 rfl rfl
    cases heq

end CloudI.ServicesMonitor
