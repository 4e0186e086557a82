import CloudI.Queue.Steps

/-!
# Queue.Drain

What `ordered_check/2` is for: when nothing is pending any more, queued requests
are sent in order, a request that cannot be sent is dropped, and this ends with
the first one that is sent or with an empty queue.  `drain` says so; the code
does the same except in one case, which `Strands` describes on the state and
the answers of the service calls before the step.
-/

namespace CloudI.Queue

open CloudI.Except

variable {ι τ : Type} [LinearOrder ι] {d : Dispatcher ι τ}

/-! ## the intended check -/

/-- Send queued requests until one is (at least partly) sent or none is left. -/
def drain (d : Dispatcher ι τ) :
    List (OrderedRequest ι τ) → Calls ι → State ι τ → Except Exit (State ι τ × Calls ι)
  | [], t, s => .ok ({ s with orderedRequests := [], orderedPending := 0 }, t)
  | next :: rest, t, s => do
      let ((_, stateNew), t) ←
        orderedNext d t { s with orderedRequests := rest, orderedPending := 0 } next
      if stateNew.orderedPending = 0 then drain d rest t stateNew else return (stateNew, t)

/-- The check after an entry has left the requests map. -/
def intendedCheck (d : Dispatcher ι τ) (queue : List (OrderedRequest ι τ)) (t : Calls ι)
    (s : State ι τ) : Except Exit (State ι τ × Calls ι) :=
  if 1 < s.orderedPending then .ok ({ s with orderedPending := s.orderedPending - 1 }, t)
  else drain d queue t s

theorem drain_cons (next : OrderedRequest ι τ) (rest : List (OrderedRequest ι τ)) (t : Calls ι)
    (s : State ι τ) : drain d (next :: rest) t s =
      (orderedNext d t { s with orderedRequests := rest, orderedPending := 0 } next >>= fun out =>
        if out.1.2.orderedPending = 0 then drain d rest out.2 out.1.2
        else .ok (out.1.2, out.2)) := rfl

variable {s : State ι τ} {w : World ι τ} (queue : List (OrderedRequest ι τ))

theorem drain_error (h : drain d queue t s = .error e) : e = .cloudiQueue := by
  induction queue generalizing t s with
  | nil => cases h
  | cons next rest ih =>
    rw [drain_cons] at h
    cases hnext : orderedNext d t { s with orderedRequests := rest, orderedPending := 0 } next with
    | error e' =>
      rw [hnext, error_bind, Except.error.injEq] at h
      exact h ▸ orderedNext_error hnext
    | ok out =>
      rw [hnext, ok_bind] at h
      split at h
      · exact ih h
      · cases h

theorem intendedCheck_error
    (h : intendedCheck d queue t s = .error e) : e = .cloudiQueue := by
  unfold intendedCheck at h
  split at h
  · cases h
  · exact drain_error queue h

/-! ## where the code differs -/

/-- The response or timeout step takes out the last pending entry while a
request is queued, the service calls for that request fail before any send of
it is accepted, and the failure accounting does not end the service. -/
def Strands (d : Dispatcher ι τ) (w : World ι τ) (op : Op ι τ) : Prop :=
  ∃ t s next rest t' l, Leaves d w op t s ∧ w.state.orderedPending = 1 ∧
    w.state.orderedRequests = next :: rest ∧ refusedAt d t s next = some t' ∧
    failure d t' s = .ok l

/-- What a response or a timeout step has to do: find its clauses, and treat the
queue as intended. -/
def Behaves (d : Dispatcher ι τ) (w : World ι τ) (op : Op ι τ) : Prop :=
  apply d w op ≠ .error .functionClause ∧ apply d w op ≠ .error .caseClause ∧
    apply d w op = applyWith (intendedCheck d) d w op

theorem checked_error (h : checked check reply t s = .error e) :
    check s.orderedRequests t s = .error e := by
  unfold checked at h
  cases hcheck : check s.orderedRequests t s with
  | ok out => rw [hcheck] at h; cases h
  | error e' =>
    rw [hcheck] at h
    simpa using h

theorem Leaves.unique (h : Leaves d w op t s) (h' : Leaves d w op t' s') : t = t' ∧ s = s' := by
  obtain ⟨reply, heq⟩ := h.applyWith_eq
  obtain ⟨reply', heq'⟩ := h'.applyWith_eq
  have hsame := (heq fun _ t s => .ok (s, t)).symm.trans (heq' fun _ t s => .ok (s, t))
  simp only [checked, ok_bind, pure_eq_ok, Except.ok.injEq, Prod.mk.injEq] at hsame
  exact ⟨hsame.2, hsame.1.2⟩

theorem Leaves.not_of_const (hconst : ∀ check, applyWith check d w op = out)
    (hout : out ≠ .error .functionClause) : ¬ Leaves d w op t s := by
  intro h
  obtain ⟨reply, heq⟩ := h.applyWith_eq
  refine hout ((hconst fun _ _ _ => .error .functionClause).symm.trans (heq _))

theorem refusedAt_idle (n : Nat) :
    refusedAt d t { s with orderedRequests := queue, orderedPending := n } next =
      refusedAt d t s next := by
  cases next with
  | send name requestInfo request timeout priority transId patternPid =>
    cases patternPid with
    | none => rfl
    | some patternPid => rfl
  | mcast name requestInfo request timeout priority => rfl

/-- The code's check is the intended one, or the queue is stranded. -/
theorem orderedCheck_cases (hs : Accounted d t.time 1 s) :
    (orderedCheck d s.orderedRequests t s = intendedCheck d s.orderedRequests t s ∧
      ∀ next rest t' l, s.orderedPending = 1 → s.orderedRequests = next :: rest →
        refusedAt d t s next = some t' → failure d t' s ≠ .ok l) ∨
    (orderedCheck d s.orderedRequests t s = .error .functionClause ∧
      ∃ next rest t' l, s.orderedPending = 1 ∧ s.orderedRequests = next :: rest ∧
        refusedAt d t s next = some t' ∧ failure d t' s = .ok l) := by
  cases hpending : s.orderedPending with
  | zero =>
    have := hs.pending
    omega
  | succ n =>
    cases n with
    | succ n =>
      refine .inl ⟨?_, fun _ _ _ _ h => by omega⟩
      rw [orderedCheck_counts hs.ordered hpending, intendedCheck, hpending]
      rfl
    | zero =>
      have hnot : ¬ 1 < s.orderedPending := by omega
      rw [intendedCheck, if_neg hnot]
      cases hqueue : s.orderedRequests with
      | nil =>
        refine .inl ⟨?_, fun _ _ _ _ _ h => by cases h⟩
        rw [orderedCheck_nil hs.ordered hpending]
        rfl
      | cons next rest =>
        rw [orderedCheck_cons hs.ordered hpending, drain_cons]
        cases hrefused : refusedAt d t s next with
        | none =>
          refine .inl ⟨?_, fun _ _ _ _ _ heq h => ?_⟩
          · cases hnext : orderedNext d t
                { s with orderedRequests := rest, orderedPending := 0 } next with
            | error e => rfl
            | ok out =>
              obtain ⟨⟨res, s₁⟩, t₁⟩ := out
              have hpos := orderedNext_not_refused ((refusedAt_idle rest 0).trans hrefused) hnext
              simp only [ok_bind, if_neg (Nat.ne_of_gt hpos)]
              simp [Nat.ne_of_gt hpos]
          · cases heq
            rw [hrefused] at h
            cases h
        | some t' =>
          obtain ⟨reason, hnext⟩ := orderedNext_refused
            (s := { s with orderedRequests := rest, orderedPending := 0 }) rfl
            ((refusedAt_idle rest 0).trans hrefused)
          have hfail : failure d t' { s with orderedRequests := rest, orderedPending := 0 }
              = failure d t' s := rfl
          rw [hnext, hfail]
          cases hfailure : failure d t' s with
          | error e =>
            refine .inl ⟨rfl, fun _ _ _ _ _ heq h => ?_⟩
            cases heq
            rw [hrefused] at h
            cases h
            simp [hfailure]
          | ok l =>
            refine .inr ⟨?_, next, rest, t', l, rfl, rfl, hrefused, hfailure⟩
            simp only [ok_bind, ne_eq, reduceCtorEq, not_false_eq_true, and_self, if_true]
            refine orderedCheck_zero ?_ ?_ _
            · exact hs.ordered
            · rfl

/-- **The queue drains unless it is stranded**: after any run of an ordered queue
in which no step failed, a response or timeout step finds its clauses and does
what the check is meant to do exactly when it does not strand the queue. -/
theorem reply_behaves_iff (hd : Function.Injective d.transId) (o : Options τ)
    (ho : o.ordered = true) (ops : List (Op ι τ))
    (hrun : Run.run (step d) (World.init o) ops = some w) (op : Op ι τ)
    (hop : op.answers = some transId) : Behaves d w op ↔ ¬ Strands d w op := by
  have hw := (run_accounted hd (accounted_new d o ho) hrun).1
  rcases applyWith_cases hw hop with ⟨t, s, hleaves⟩ | ⟨reply, s, t, heq, -⟩ | hexit
  · obtain ⟨htime, hs, hqueue, hpending, -⟩ := hleaves.accounted hw
    obtain ⟨reply, heq⟩ := hleaves.applyWith_eq
    rcases orderedCheck_cases hs with ⟨hcheck, hnot⟩ | ⟨hcheck, next, rest, t', l, hone, hcons, hr⟩
    · refine iff_of_true ?_ ?_
      · have hsame : apply d w op = applyWith (intendedCheck d) d w op := by
          rw [apply, heq, heq, checked, checked, hcheck]
        have herror : ∀ e, apply d w op = .error e → e = .cloudiQueue := by
          intro e he
          rw [hsame, heq] at he
          exact intendedCheck_error _ (checked_error he)
        exact ⟨fun he => absurd (herror _ he) (by simp), fun he => absurd (herror _ he) (by simp),
          hsame⟩
      · rintro ⟨t₁, s₁, next, rest, t', l, hleaves', hone, hcons, hrefused, hfailure⟩
        obtain ⟨rfl, rfl⟩ := hleaves.unique hleaves'
        exact hnot next rest t' l (hpending.trans hone) (hqueue.trans hcons) hrefused hfailure
    · refine iff_of_false ?_ ?_
      · rintro ⟨hclause, -⟩
        refine hclause ?_
        rw [apply, heq, checked, hcheck, error_bind]
      · exact not_not_intro ⟨t, s, next, rest, t', l, hleaves, hpending ▸ hone, hqueue ▸ hcons, hr⟩
  · refine iff_of_true ⟨?_, ?_, ?_⟩ ?_
    · simp [apply, heq]
    · simp [apply, heq]
    · rw [apply, heq, heq]
    · rintro ⟨t, s, -, -, -, -, hleaves, -⟩
      exact Leaves.not_of_const heq (by simp) hleaves
  · refine iff_of_true ⟨?_, ?_, ?_⟩ ?_
    · simp [apply, hexit]
    · simp [apply, hexit]
    · rw [apply, hexit, hexit]
    · rintro ⟨t, s, -, -, -, -, hleaves, -⟩
      exact Leaves.not_of_const hexit (by simp) hleaves

theorem reply_behaves_three_sends :
    ∃ w, Run.run (step (refusing 7)) (World.init orderedOptions) threeSends = some w ∧
      (Behaves (refusing 7) w (.recv 0 1 0) ↔ ¬ Strands (refusing 7) w (.recv 0 1 0)) :=
  ⟨_, rfl, reply_behaves_iff (fun _ _ h => h) orderedOptions rfl threeSends rfl _ rfl⟩

/-- The response to the first of three sends, when the second cannot be sent:
the step has no clause, while the intended check sends the third. -/
theorem stranded_queue_exits :
    Function.Injective (refusing 6).transId ∧ orderedOptions.ordered = true ∧
    ∃ w, Run.run (step (refusing 6)) (World.init orderedOptions) threeSends = some w ∧
      apply (refusing 6) w (.recv 0 1 0) = .error .functionClause ∧
      ∃ s t, applyWith (intendedCheck (refusing 6)) (refusing 6) w (.recv 0 1 0)
          = .ok ((.okId 0, s), t) ∧
        s.orderedRequests = [] ∧ s.orderedPending = 1 ∧ (Maps.find 4 s.requests).isSome :=
  ⟨fun _ _ h => h, rfl, _, rfl, rfl, _, _, rfl, rfl, rfl, rfl⟩

end CloudI.Queue
