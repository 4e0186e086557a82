import CloudI.ServicesMonitor.Consistent

/-!
# ServicesMonitor.Removed

A removed service: after `shutdown` replied or `terminated_service` was run, nothing of
the service is left (`Absent`), and no step starts a process for it.  This holds as long
as no restart of the service is pending when the service is terminated.  A restart that
is pending has its own copy of the record, and `shutdown` looks only at the processes
that are stored: the service starts again, though "the service is completely terminated
and will not restart" (`removed_starts_again`).
-/

namespace CloudI.ServicesMonitor

open Run List

variable {σ Pid α : Type} [LinearOrder σ] [LinearOrder Pid]
  [DecidableEq α] {w w' : World σ Pid α}
  {m : Message σ Pid α} {e : Event σ Pid α}
  {s' : State σ Pid α} {effects : List (Effect σ Pid α)}

/-- The ids of the services are never reused. -/
def NotReused (w : World σ Pid α) : Event σ Pid α → Prop
  | .message (.monitor sid _ _) => sid ∉ w.removed
  | _ => True

/-- No restart of a service is pending when the service is terminated. -/
def NoPendingRestart (w : World σ Pid α) : Event σ Pid α → Prop
  | .message m => ∀ sid, Removes w.state m sid →
      ∀ r ∈ restartsLeft w m, r.serviceId ≠ sid
  | .dies _ _ => True

/-- **Nothing of a removed service is left.** -/
structure AllRemoved (w : World σ Pid α) : Prop where
  absent : ∀ id ∈ w.removed, Absent id w.state
  restarts : ∀ id ∈ w.removed, ∀ r ∈ w.restarts, r.serviceId ≠ id

theorem mem_of_mem_restartsLeft (h : r ∈ restartsLeft w m) : r ∈ w.restarts := by
  cases m with
  | restart message readings started => exact mem_of_mem_erase h
  | _ => exact h

omit [DecidableEq α] in
theorem Absent.not_present {s : State σ Pid α} {id : σ}
    (h : Absent id s) : ¬ Present id s.services := by
  rintro ⟨p, x, hx, hid⟩
  exact h.instances p x hx hid

section

variable (h : AllRemoved w) (henabled : Enabled w (.message m)) (hreused : NotReused w (.message m))

include h henabled hreused

section
omit [DecidableEq α]

theorem AllRemoved.not_concerns {id : σ} (hid : id ∈ w.removed) : ¬ Concerns w.state m id := by
  intro hconcerns
  cases m with
  | monitor sid service started => exact hreused (hconcerns ▸ hid)
  | shutdown sid => exact (h.absent id hid).not_present hconcerns
  | down pid reason readings started => exact (h.absent id hid).not_present hconcerns
  | changes sid starts =>
    obtain ⟨rfl, change, hfind, hterminated⟩ := hconcerns
    rw [(h.absent sid hid).changes change hfind] at hterminated
    cases hterminated
  | restart message readings started => exact h.restarts id hid message henabled.1 hconcerns
  | _ => exact hconcerns

/-- **One message leaves nothing of a removed service.** -/
theorem AllRemoved.absent_after (hhandled : Handled w.state m s' effects) {id : σ}
    (hid : id ∈ w.removed) : Absent id s' := by
  have habsent := h.absent id hid
  cases hhandled with
  | same hsame hchanges _ =>
    refine ⟨fun p x hx => ?_, fun change hchange => ?_⟩
    · rw [hsame.instances] at hx
      exact habsent.instances p x hx
    · rcases hchanges id change hchange with hterminated | hkept
      · exact hterminated
      · exact habsent.changes change hkept
  | asked hsame hasks =>
    obtain ⟨pid, period, entry, sid, change, _, hpresent, hput, _⟩ := hasks
    have hne : sid ≠ id := by
      rintro rfl
      exact habsent.not_present hpresent
    refine ⟨fun p x hx => ?_, fun change hchange => ?_⟩
    · rw [hsame.instances] at hx
      exact habsent.instances p x hx
    · rw [hput, Maps.find_put, if_neg hne] at hchange
      exact habsent.changes change hchange
  | @advances sid dropped again new hadvances =>
    have hne : sid ≠ id := by
      rintro rfl
      exact h.not_concerns henabled hreused hid hadvances.concerns
    refine ⟨fun q y hy => ?_, fun change hchange => ?_⟩
    · rcases hadvances.origin q y hy with ⟨hkept, _⟩ | ⟨hnew, _⟩ | ⟨_, p, hp, _⟩
      · exact habsent.instances q y hkept
      · rw [hadvances.new_id y hnew]
        exact hne
      · exact habsent.instances p y hp
    · rcases hadvances.changes id change hchange with hterminated | hkept
      · exact hterminated
      · exact habsent.changes change hkept

theorem AllRemoved.only (hhandled : Handled w.state m s' effects) {id : σ} (hid : id ∈ w.removed)
    : id ∉ starts effects ∧ ∀ r ∈ restartsSent effects, r.serviceId ≠ id := by
  have hsame (hsame : Same w.state s' effects) :
      id ∉ starts effects ∧ ∀ r ∈ restartsSent effects, r.serviceId ≠ id := by
    rw [starts, hsame.filterMap fun _ _ => rfl, restartsSent, hsame.filterMap fun _ _ => rfl]
    exact ⟨not_mem_nil, forall_mem_nil _⟩
  cases hhandled with
  | same hkept _ _ => exact hsame hkept
  | asked hkept _ => exact hsame hkept
  | @advances sid dropped again new hadvances =>
    have hne : id ≠ sid := by
      rintro rfl
      exact h.not_concerns henabled hreused hid hadvances.concerns
    refine ⟨fun hstart => ?_, fun r hr hrid => ?_⟩
    · obtain ⟨e, he, heid⟩ := mem_filterMap.mp hstart
      cases e <;> cases heid
      exact hne (hadvances.only _ he id rfl)
    · obtain ⟨e, he, her⟩ := mem_filterMap.mp hr
      cases e <;> cases her
      exact hne (hrid ▸ hadvances.only _ he r.serviceId rfl)

end

end

omit [DecidableEq α] in
theorem Handled.absent_of_terminated (h : Handled w.state m s' effects) {id : σ}
    (hid : id ∈ terminated effects) :
    Absent id s' ∧ restartsSent effects = [] ∧ Removes w.state m id := by
  have hsame (hsame : Same w.state s' effects) : False := by
    rw [terminated, hsame.filterMap fun _ _ => rfl] at hid
    cases hid
  cases h with
  | same hkept _ _ => exact (hsame hkept).elim
  | asked hkept _ => exact (hsame hkept).elim
  | advances hadvances =>
    have hremoves := hadvances.removes id hid
    obtain rfl := hadvances.eq_of_terminated hid
    obtain ⟨habsent, hrestarts⟩ := hadvances.terminate hid
    exact ⟨habsent, hrestarts, hremoves⟩

/-- A side condition of a run. -/
abbrev RemovalGood (w : World σ Pid α) (e : Event σ Pid α) : Prop :=
  Enabled w e ∧ NotReused w e ∧ NoPendingRestart w e

theorem allRemoved_next (hconsistent : Consistent w) (h : AllRemoved w) (hgood : RemovalGood w e)
    (hnext : next w e = some w') : AllRemoved w' := by
  obtain ⟨henabled, hreused, hpending⟩ := hgood
  cases e with
  | dies pid reason =>
    cases hnext
    exact ⟨h.absent, h.restarts⟩
  | message m =>
    obtain ⟨s', effects, hr, rfl⟩ := next_message hnext
    have hhandled := hconsistent.handled henabled hr
    refine ⟨fun id hid => ?_, fun id hid r hr => ?_⟩
    · rcases mem_append.mp hid with hterminated | hbefore
      · exact (hhandled.absent_of_terminated hterminated).1
      · exact h.absent_after henabled hreused hhandled hbefore
    · rcases mem_append.mp hid with hterminated | hbefore
      · obtain ⟨_, hnone, hremoves⟩ := hhandled.absent_of_terminated hterminated
        rcases mem_append.mp hr with hleft | hsent
        · exact hpending id hremoves r hleft
        · rw [hnone] at hsent
          cases hsent
      · rcases mem_append.mp hr with hleft | hsent
        · exact h.restarts id hbefore r (mem_of_mem_restartsLeft hleft)
        · exact (h.only henabled hreused hhandled hbefore).2 r hsent

theorem allRemoved_of_steps {events : List (Event σ Pid α)}
    (h : Steps next RemovalGood {} events w) : Consistent w ∧ AllRemoved w := by
  have hstep : ∀ (w : World σ Pid α) e w', Consistent w ∧ AllRemoved w →
      RemovalGood w e → next w e = some w' → Consistent w' ∧ AllRemoved w' :=
    fun w e w' hw hgood hnext =>
    ⟨consistent_next hw.1 hgood.1 hnext, allRemoved_next hw.1 hw.2 hgood hnext⟩
  have hempty : AllRemoved ({} : World σ Pid α) := ⟨nofun, nofun⟩
  exact h.invariant (I := fun w => Consistent w ∧ AllRemoved w) hstep ⟨consistent_empty, hempty⟩

theorem noPendingRestart_of_nil (h : w.restarts = []) : NoPendingRestart w e := by
  cases e with
  | dies pid reason => trivial
  | message m =>
    intro id _ r hr
    have hmem := mem_of_mem_restartsLeft hr
    rw [h] at hmem
    cases hmem

/-- **A removed service stays removed**: no later step starts a process for it. -/
theorem removed_stays_removed {events : List (Event σ Pid α)}
    (h : Steps next RemovalGood {} events w) (henabled : Enabled w (.message m))
    (hreused : NotReused w (.message m)) (hr : handle w.isGone w.state m = .ok (s', effects)) :
    ∀ id ∈ w.removed, id ∉ starts effects := by
  obtain ⟨hconsistent, hremoved⟩ := allRemoved_of_steps h
  intro id hid
  exact (hremoved.only henabled hreused (hconsistent.handled henabled hr) hid).1

/-! ## runs -/

instance (w : World σ Pid α) (e : Event σ Pid α) : Decidable (NotReused w e) :=
  match e with
  | .message (.monitor sid _ _) => inferInstanceAs (Decidable (sid ∉ w.removed))
  | .message (.shutdown _) | .message (.update _ _) | .message (.change _ _ _)
  | .message (.terminateBegin _ _) | .message (.changes _ _) | .message (.down _ _ _ _)
  | .message (.restart _ _ _) | .dies _ _ => .isTrue trivial

/-- A service whose process asks for a change is shut down before the timer ends. -/
def shutdownRun : List (Event Nat Nat Unit) :=
  [.message (.monitor 0 (sampleService 0 0) (some [1])),
    .message (.change 1 1000 sampleIncrease),
    .message (.shutdown 0)]

theorem removed_stays_removed_shutdownRun : (worldAfter shutdownRun).removed = [0] ∧
      ∃ s' effects, handle (worldAfter shutdownRun).isGone (worldAfter shutdownRun).state
          (.changes 0 [some [2]]) = .ok (s', effects) ∧
        ∀ id ∈ (worldAfter shutdownRun).removed, id ∉ starts effects := by
  have hsteps : Steps next (fun w e => Enabled w e ∧ NotReused w e ∧ w.restarts = []) {}
      shutdownRun (worldAfter shutdownRun) := steps_getD_of_checked (by decide +kernel)
  have hgood : Steps next RemovalGood {} shutdownRun (worldAfter shutdownRun) :=
    hsteps.mono fun w e h => ⟨h.1, h.2.1, noPendingRestart_of_nil h.2.2⟩
  obtain ⟨⟨s', effects⟩, hr⟩ := Except.exists_of_isOk (x := handle (worldAfter shutdownRun).isGone
    (worldAfter shutdownRun).state (.changes 0 [some [2]])) (by decide +kernel)
  exact ⟨by decide +kernel, s', effects, hr,
    removed_stays_removed (m := .changes 0 [some [2]]) hgood (by decide +kernel) trivial hr⟩

/-- One of two processes waits for its restart when the service is shut down. -/
def pendingRun : List (Event Nat Nat Unit) :=
  [.message (.monitor 0 (sampleService 0 0) (some [1])),
    .message (.monitor 0 (sampleService 1 0) (some [2])),
    .dies 1 .error,
    .message (.down 1 .error { delay := 0, filter := 0, start := 0 } none),
    .message (.shutdown 0)]

/-- The restart of the process comes after the shutdown. -/
def pendingRestart : Message Nat Nat Unit :=
  .restart { stage := .stage3, pid := 1, serviceId := 0, service := sampleService 0 0 }
    { delay := 0, filter := 0, start := 5 } (some [3])

/-- **The service that was shut down starts again.** -/
theorem removed_starts_again :
    ∃ (events : List (Event Nat Nat Unit)) (w : World Nat Nat Unit) (m : Message Nat Nat Unit)
      (s' : State Nat Nat Unit) (effects : List (Effect Nat Nat Unit)),
      Steps next (fun w e => Enabled w e ∧ NotReused w e) {} events w ∧
        Enabled w (.message m) ∧ NotReused w (.message m) ∧
        handle w.isGone w.state m = .ok (s', effects) ∧ ∃ id ∈ w.removed, id ∈ starts effects := by
  have hsteps : Steps next (fun w e => Enabled w e ∧ NotReused w e) {} pendingRun
      (worldAfter pendingRun) := steps_getD_of_checked (by decide +kernel)
  have hstarts : (handle (worldAfter pendingRun).isGone (worldAfter pendingRun).state
      pendingRestart).toOption.any (fun r => 0 ∈ starts r.2) = true := by decide +kernel
  obtain ⟨⟨s', effects⟩, hr⟩ := Except.exists_of_isOk (x := handle (worldAfter pendingRun).isGone
    (worldAfter pendingRun).state pendingRestart) (by decide +kernel)
  rw [hr] at hstarts
  exact ⟨pendingRun, worldAfter pendingRun, pendingRestart, s', effects, hsteps, by decide +kernel,
    trivial, hr, 0, by decide +kernel, of_decide_eq_true hstarts⟩

end CloudI.ServicesMonitor
