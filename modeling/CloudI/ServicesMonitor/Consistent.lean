import CloudI.ServicesMonitor.Handled
import Mathlib.Data.List.Nodup
import Mathlib.Data.List.Pairwise

/-!
# ServicesMonitor.Consistent

The invariant of all runs of the services monitor (`consistent_of_steps`): the records of
one instance agree (`Grouped`), and the processes that a record lists were started.  The
processes that a message brings are new, so no record lists them.
-/

namespace CloudI.ServicesMonitor

open Run Function

variable {σ Pid α : Type} [LinearOrder σ] [LinearOrder Pid]

/-- **The invariant of all runs.** -/
structure Consistent (w : World σ Pid α) : Prop where
  grouped : Grouped w.state.services
  known : ∀ p x, instances w.state.services p = some x → ∀ q ∈ x.pids, w.status q ≠ .unknown

variable {s s' : State σ Pid α} {effects : List (Effect σ Pid α)}
  {m : Message σ Pid α} {sid : σ} {dropped again : List Pid}
  {new : List (ServiceInstance σ Pid)}

/-! ## one message -/

variable {q : Pid} {y : ServiceInstance σ Pid}

theorem Advances.source (h : Advances sid dropped again new s m s' effects)
    (hgrouped : Grouped s.services) (hy : instances s'.services q = some y) :
    q ∈ y.pids ∧ ((∃ p, instances s.services p = some y) ∨ y ∈ new) := by
  rcases h.origin q y hy with ⟨hkept, _⟩ | ⟨hnew, hq⟩ | ⟨_, p, hp, hq⟩
  · exact ⟨hgrouped.mem q y hkept, .inl ⟨q, hkept⟩⟩
  · exact ⟨hq, .inr hnew⟩
  · exact ⟨hq, .inl ⟨p, hp⟩⟩

theorem Advances.unlisted (h : Advances sid dropped again new s m s' effects)
    (hunlisted : ∀ q ∈ m.pids, Unlisted s.services q) (hy : y ∈ new) :
    ∀ p ∈ y.pids, Unlisted s.services p := by
  intro p hp
  exact hunlisted p (h.pids.subset (List.mem_flatMap.mpr ⟨y, hy, hp⟩))

theorem eq_of_mem_flatMap_pids (hnodup : (new.flatMap ServiceInstance.pids).Nodup) (hx : x ∈ new)
    (hy : y ∈ new) (hpx : p ∈ x.pids) (hpy : p ∈ y.pids) : x = y := by
  have hdisjoint := (List.nodup_flatMap.mp hnodup).2
  have hsymm : Std.Symm (Function.onFun List.Disjoint
      (ServiceInstance.pids : ServiceInstance σ Pid → List Pid)) :=
    ⟨fun _ _ h p hp hq => h hq hp⟩
  by_contra hne
  exact hdisjoint.forall hx hy hne hpx hpy

/-- **One message keeps the records of the instances in agreement.** -/
theorem Grouped.handled (h : Grouped s.services) (hnodup : m.pids.Nodup)
    (hunlisted : ∀ q ∈ m.pids, Unlisted s.services q) (hhandled : Handled s m s' effects) :
    Grouped s'.services := by
  have hsame (hsame : Same s s' effects) : Grouped s'.services := by
    refine ⟨hsame.owned, fun p x hx => ?_, fun p x hx => ?_, fun p q x y r hx hy => ?_⟩
    · rw [hsame.instances] at hx
      exact h.mem p x hx
    · rw [hsame.instances] at hx
      exact h.nodup p x hx
    · rw [hsame.instances] at hx hy
      exact h.same p q x y r hx hy
  cases hhandled with
  | same hkept _ _ => exact hsame hkept
  | asked hkept _ => exact hsame hkept
  | @advances sid dropped again new hadvances =>
    have hpids := hadvances.pids.nodup hnodup
    refine ⟨hadvances.owned, fun p x hx => (hadvances.source h hx).1, fun p x hx => ?_,
      fun p q x y r hx hy hrx hry => ?_⟩
    · rcases (hadvances.source h hx).2 with ⟨p', hp'⟩ | hnew
      · exact h.nodup p' x hp'
      · exact (List.nodup_flatMap.mp hpids).1 x hnew
    · rcases (hadvances.source h hx).2 with ⟨p', hp'⟩ | hxnew
      · rcases (hadvances.source h hy).2 with ⟨q', hq'⟩ | hynew
        · exact h.same p' q' x y r hp' hq' hrx hry
        · exact absurd hrx (hadvances.unlisted hunlisted hynew r hry p' x hp')
      · rcases (hadvances.source h hy).2 with ⟨q', hq'⟩ | hynew
        · exact absurd hry (hadvances.unlisted hunlisted hxnew r hrx q' y hq')
        · exact eq_of_mem_flatMap_pids hpids hxnew hynew hrx hry

theorem Handled.source (h : Handled s m s' effects) (hgrouped : Grouped s.services)
    (hy : instances s'.services q = some y) :
    (∃ p, instances s.services p = some y) ∨ ∀ p ∈ y.pids, p ∈ monitored effects := by
  cases h with
  | same hkept _ _ => exact .inl ⟨q, by rw [← hkept.instances, hy]⟩
  | asked hkept _ => exact .inl ⟨q, by rw [← hkept.instances, hy]⟩
  | advances hadvances =>
    refine (hadvances.source hgrouped hy).2.imp_right fun hnew p hp => ?_
    rw [hadvances.monitor]
    exact List.mem_flatMap.mpr ⟨y, hnew, hp⟩

/-! ## runs -/

variable [DecidableEq α] {w w' : World σ Pid α}

theorem next_message (h : next w (.message m) = some w') :
    ∃ s' effects, handle w.isGone w.state m = .ok (s', effects) ∧ w' = w.after m (s', effects) := by
  rw [next, Option.map_eq_some_iff] at h
  obtain ⟨⟨s', effects⟩, hr, hafter⟩ := h
  refine ⟨s', effects, ?_, hafter.symm⟩
  cases hhandle : handle w.isGone w.state m with
  | error failure =>
    rw [hhandle] at hr
    cases hr
  | ok r =>
    rw [hhandle] at hr
    cases hr
    rfl

omit [DecidableEq α] in
theorem Consistent.unlisted (h : Consistent w) (henabled : Enabled w (.message m)) :
    ∀ q ∈ m.pids, Unlisted w.state.services q :=
  fun q hq p x hx hmem => h.known p x hx q hmem (henabled.2.2 q hq)

omit [DecidableEq α] in
/-- **What an enabled message comes to.** -/
theorem Consistent.handled (h : Consistent w) (henabled : Enabled w (.message m))
    (hr : handle w.isGone w.state m = .ok (s', effects)) : Handled w.state m s' effects :=
  handle_handled h.grouped henabled.2.1 (h.unlisted henabled) hr

theorem consistent_next (h : Consistent w) (henabled : Enabled w e) (hnext : next w e = some w') :
    Consistent w' := by
  cases e with
  | dies pid reason =>
    cases hnext
    refine ⟨h.grouped, fun p x hx q hq => ?_⟩
    show update w.status pid (.down reason) q ≠ .unknown
    by_cases hpid : q = pid
    · rw [hpid, update_self]
      nofun
    · rw [update_of_ne hpid]
      exact h.known p x hx q hq
  | message m =>
    obtain ⟨s', effects, hr, rfl⟩ := next_message hnext
    have hhandled := h.handled henabled hr
    refine ⟨h.grouped.handled henabled.2.1 (h.unlisted henabled) hhandled, ?_⟩
    intro p x hx q hq
    show statusAfter w.status m.downPid? effects q ≠ .unknown
    rw [statusAfter]
    by_cases hmonitored : q ∈ monitored effects
    · rw [if_pos hmonitored]
      nofun
    · rw [if_neg hmonitored]
      split
      · nofun
      · rcases hhandled.source h.grouped hx with ⟨p', hp'⟩ | hnew
        · exact h.known p' x hp' q hq
        · exact absurd (hnew q hq) hmonitored

omit [DecidableEq α] in
theorem consistent_empty : Consistent ({} : World σ Pid α) := by
  refine ⟨⟨owned_empty, fun p x hx => ?_, fun p x hx => ?_, fun p q x y r hx => ?_⟩,
    fun p x hx => ?_⟩
  all_goals
    rw [instances_empty] at hx
    cases hx

/-- **Run lemma**: the invariant holds in every run. -/
theorem consistent_of_steps (h : Steps next Enabled {} events w) : Consistent w :=
  h.invariant (fun _ _ _ => consistent_next) consistent_empty

/-! ## sample runs -/

/-- The world after a run. -/
def worldAfter (events : List (Event σ Pid α)) : World σ Pid α :=
  (run next {} events).getD {}

/-- A record of a service whose restarts are delayed, with more threads than one. -/
def sampleService (processIndex threads : Nat) : Service Nat Unit where
  arguments := ()
  processIndex
  countProcess := 2
  countThread := threads + 1
  countThread_pos := Nat.succ_pos threads
  pids := []
  restartDelay := some (.absolute 5)
  maxR := 5
  maxT := 300

/-- A process asks for twice the processes. -/
def sampleIncrease : Change where
  direction := .increase
  rateCurrent := 2
  rateLimit := 1
  countProcessLimit := 4

/-- A process asks for half of the processes. -/
def sampleDecrease : Change where
  direction := .decrease
  rateCurrent := 1
  rateLimit := 2
  countProcessLimit := 1

end CloudI.ServicesMonitor
