import CloudI.ServicesMonitor.Removed

/-!
# ServicesMonitor.Held

The services that the services monitor holds: those with a process, and those that wait for a
restart.  Only `monitor` makes the services monitor hold a service (`held_of_next`): every other
message starts processes for a service that it holds already.
-/

namespace CloudI.ServicesMonitor

variable {σ Pid α : Type} [LinearOrder σ] [LinearOrder Pid] {w w' : World σ Pid α}
  {m : Message σ Pid α} {s s' : State σ Pid α}
  {effects : List (Effect σ Pid α)} {isGone : Pid → Bool} {id : σ}

/-- The services monitor has a process of the service, or is to start one again. -/
def Held (id : σ) (w : World σ Pid α) : Prop :=
  Present id w.state.services ∨ ∃ r ∈ w.restarts, r.serviceId = id

/-- The message is the first start of a process of the service. -/
def Message.Monitors (m : Message σ Pid α) (id : σ) : Prop :=
  match m with
  | .monitor sid _ started => sid = id ∧ started ≠ none
  | _ => False

theorem AllRemoved.not_held (h : AllRemoved w) (hid : id ∈ w.removed) : ¬ Held id w := by
  rintro (hpresent | ⟨r, hr, hrid⟩)
  · exact (h.absent id hid).not_present hpresent
  · exact h.restarts id hid r hr hrid

/-! ## one message -/

/-- The process count changes of a service with processes only. -/
theorem present_of_changes {starts : List (Started Pid)} {change : PidsChangeInput}
    {r : Result σ Pid α (State σ Pid α)} (howned : Owned s.services)
    (hfind : Maps.find id s.changes = some change) (hterminated : change.terminated = false)
    (hr : pidsChangeCheck id starts s = .ok r) : Present id s.services := by
  rw [pidsChangeCheck, hfind] at hr
  dsimp only at hr
  rw [hterminated, if_neg Bool.false_ne_true, pidsChangeNow] at hr
  obtain ⟨_, hfetch, _⟩ := Except.ok_of_bind hr
  cases hfind1 : Key2value.find1 id s.services with
  | some x => exact present_of_find1 howned hfind1
  | none =>
    rw [fetchService] at hfetch
    simp only [hfind1] at hfetch
    cases hfetch

theorem held_of_concerns (hconsistent : Consistent w) (henabled : Enabled w (.message m))
    (hr : handle w.isGone w.state m = .ok (s', effects)) (hconcerns : Concerns w.state m id) :
    Held id w ∨ ∃ service started, m = .monitor id service started := by
  cases m with
  | monitor sid service started =>
    obtain rfl : sid = id := hconcerns
    exact .inr ⟨service, started, rfl⟩
  | shutdown sid => exact .inl (.inl hconcerns)
  | down pid reason readings started => exact .inl (.inl hconcerns)
  | changes sid starts =>
    obtain ⟨rfl, change, hfind, hterminated⟩ := hconcerns
    exact .inl (.inl (present_of_changes hconsistent.grouped.owned hfind hterminated hr))
  | restart message readings started => exact .inl (.inr ⟨message, henabled.1, hconcerns⟩)
  | _ => exact hconcerns.elim

variable [DecidableEq α]

/-- **Only `monitor` makes the services monitor hold a service.** -/
theorem held_of_next (hconsistent : Consistent w) (henabled : Enabled w (.message m))
    (hnext : next w (.message m) = some w') (hheld : Held id w') : Held id w ∨ m.Monitors id := by
  obtain ⟨s', effects, hr, rfl⟩ := next_message hnext
  have hhandled := hconsistent.handled henabled hr
  rcases hheld with ⟨q, y, hy, hid⟩ | ⟨r, hmem, hid⟩
  · cases hhandled with
    | same hsame _ _ => exact .inl (.inl ⟨q, y, (hsame.instances q).symm.trans hy, hid⟩)
    | asked hsame _ => exact .inl (.inl ⟨q, y, (hsame.instances q).symm.trans hy, hid⟩)
    | @advances sid dropped again new hadvances =>
      rcases hadvances.origin q y hy with ⟨hkept, _⟩ | ⟨hnew, _⟩ | ⟨_, p, hp, _⟩
      · exact .inl (.inl ⟨q, y, hkept, hid⟩)
      · obtain rfl : sid = id := (hadvances.new_id y hnew).symm.trans hid
        refine (held_of_concerns hconsistent henabled hr hadvances.concerns).imp_right ?_
        rintro ⟨service, started, rfl⟩
        exact ⟨rfl, (hadvances.placed y hnew).1⟩
      · exact .inl (.inl ⟨p, y, hp, hid⟩)
  · rcases List.mem_append.mp hmem with hleft | hsent
    · exact .inl (.inr ⟨r, mem_of_mem_restartsLeft hleft, hid⟩)
    · cases hhandled with
      | same hsame _ _ =>
        rw [restartsSent, hsame.filterMap fun _ _ => rfl] at hsent
        cases hsent
      | asked hsame _ =>
        rw [restartsSent, hsame.filterMap fun _ _ => rfl] at hsent
        cases hsent
      | @advances sid dropped again new hadvances =>
        obtain ⟨e, he, her⟩ := List.mem_filterMap.mp hsent
        cases e <;> cases her
        obtain rfl : id = sid :=
          hid.symm.trans (hadvances.only _ he r.serviceId rfl)
        refine (held_of_concerns hconsistent henabled hr hadvances.concerns).imp_right ?_
        rintro ⟨service, started, rfl⟩
        cases started with
        | some pids => exact ⟨rfl, Option.some_ne_none pids⟩
        | none =>
          cases hr
          simp at he

/-! ## a shutdown -/

theorem removed_of_shutdown (hfind : Key2value.find1 id w.state.services ≠ none)
    (hnext : next w (.message (.shutdown id)) = some w') : id ∈ w'.removed := by
  obtain ⟨s', effects, hr, rfl⟩ := next_message hnext
  obtain ⟨⟨pids, service⟩, hfind1⟩ := Option.ne_none_iff_exists'.mp hfind
  rw [handle, handleShutdown, hfind1] at hr
  obtain ⟨⟨services, exits⟩, _, hreturn⟩ := Except.ok_of_bind hr
  cases hreturn
  refine List.mem_append_left _ (List.mem_filterMap.mpr ⟨.terminated id false, ?_, rfl⟩)
  exact List.mem_append_right _ List.mem_cons_self

/-! ## a start that fails -/

theorem allRemoved_start_failed (h : AllRemoved w)
    (hnext : next w (.message (.monitor sid service none)) = some w') : AllRemoved w' := by
  obtain ⟨s', effects, hr, rfl⟩ := next_message hnext
  cases hr
  refine ⟨h.absent, fun id hid r hr => ?_⟩
  have hbefore : r ∈ w.restarts := by
    simpa [World.after, restartsLeft, restartsSent, Effect.restart?] using hr
  exact h.restarts id hid r hbefore

end CloudI.ServicesMonitor
