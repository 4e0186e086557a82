import CloudI.Queue.Accounting

/-!
# Queue.Ordered

`ordered_check/2` and the steps that run it.  A step that takes an entry out of
the requests map either counts it off, or finds the map empty and sends the
next queued request.

`ordered_check/2` has no clause for a pending count of zero.  Its own recursion
after a request that was not sent at all re-enters with that count, so the
recursion never drops more than one request: it exits.
-/

namespace CloudI.Queue

open CloudI.Except Option

variable {ι τ : Type} [LinearOrder ι] {d : Dispatcher ι τ}

/-! ## failures -/

theorem failureStore_error (h : failureStore l n maxCount = .error e) : e = .cloudiQueue := by
  unfold failureStore at h
  split at h
  · cases h
    rfl
  · cases h

variable {s : State ι τ}

theorem failure_error (h : failure d t s = .error e) : e = .cloudiQueue := by
  unfold failure failureCheck at h
  split at h
  · cases h
  · split at h
    · exact failureStore_error h
    · exact failureStore_error h

/-! ## sending a queued request -/

/-- The calls after the ones for a queued request, if these fail before any send
of it is accepted. -/
def refusedAt (d : Dispatcher ι τ) (t : Calls ι) (s : State ι τ) : OrderedRequest ι τ → Option (Calls ι)
  | .send name requestInfo request timeout priority _ none =>
      match d.getPid t.time name (default timeout s.timeoutDefault) with
      | .error _ => some t.next
      | .ok patternPid =>
          (d.refuse t.next.time name requestInfo request (default timeout s.timeoutDefault)
            (default priority s.priorityDefault) patternPid).map fun _ => t.next.next
  | .send name requestInfo request timeout priority _ (some patternPid) =>
      (d.refuse t.time name requestInfo request (default timeout s.timeoutDefault)
        (default priority s.priorityDefault) patternPid).map fun _ => t.next
  | .mcast name requestInfo request timeout priority =>
      match d.getPids t.time name (default timeout s.timeoutDefault) with
      | .error _ => some t.next
      | .ok (patternPid, _) =>
          (d.refuse t.next.time name requestInfo request (default timeout s.timeoutDefault)
            (default priority s.priorityDefault) patternPid).map fun _ => t.next.next

/-- A request that is refused at once leaves nothing but the failure. -/
theorem orderedNext_refused (hp : s.orderedPending = 0) (h : refusedAt d t s r = some t') :
    ∃ reason, orderedNext d t s r =
      (failure d t' s >>= fun l => .ok ((some reason, { s with failuresSource := l }), t')) := by
  cases r with
  | send name requestInfo request timeout priority transId patternPid =>
    cases patternPid with
    | none =>
      simp only [refusedAt] at h
      simp only [orderedNext, orderedSend, queueSendFirstOrdered, sendAsyncActiveId]
      cases hpid : d.getPid t.time name (default timeout s.timeoutDefault) with
      | error reason =>
        simp only [hpid, Option.some.injEq] at h
        subst h
        exact ⟨reason, rfl⟩
      | ok patternPid =>
        simp only [hpid, map_eq_some_iff] at h
        obtain ⟨reason, hrefuse, rfl⟩ := h
        simp only [hrefuse]
        exact ⟨reason, rfl⟩
    | some patternPid =>
      simp only [refusedAt, map_eq_some_iff] at h
      obtain ⟨reason, hrefuse, rfl⟩ := h
      simp only [orderedNext, orderedSend, queueSendFirstOrdered, sendAsyncActiveId, hrefuse]
      exact ⟨reason, rfl⟩
  | mcast name requestInfo request timeout priority =>
    simp only [refusedAt] at h
    simp only [orderedNext, orderedMcast, queueMcast]
    cases hpids : d.getPids t.time name (default timeout s.timeoutDefault) with
    | error reason =>
      simp only [hpids, Option.some.injEq] at h
      subst h
      exact ⟨reason, by simp only [← hp]; rfl⟩
    | ok pids =>
      simp only [hpids, map_eq_some_iff] at h
      obtain ⟨reason, hrefuse, rfl⟩ := h
      simp only [queueMcastSend, sendAsyncActive, hrefuse]
      exact ⟨reason, by simp only [← hp]; rfl⟩

/-- An mcast that reaches its first destination counts it. -/
theorem queueMcastSend_pending (name requestInfo request : τ) (timeout priority : Option τ)
    (patternPids : List τ)
    (h : queueMcastSend d name requestInfo request timeout priority true patternPids t pending m
      = ((r, pending', m'), t')) : pending ≤ pending' := by
  induction patternPids generalizing t pending m with
  | nil =>
    simp only [queueMcastSend] at h
    cases h
    exact Nat.le_refl _
  | cons patternPid patternPids ih =>
    simp only [queueMcastSend] at h
    split at h
    · cases h
      exact Nat.le_refl _
    · have := ih h
      simp only [if_true] at this
      omega

/-- A request that is not refused at once is pending afterwards. -/
theorem orderedNext_not_refused (h : refusedAt d t s r = none)
    (hok : orderedNext d t s r = .ok ((res, s'), t')) : 0 < s'.orderedPending := by
  cases r with
  | send name requestInfo request timeout priority transId patternPid =>
    cases patternPid with
    | none =>
      simp only [refusedAt] at h
      simp only [orderedNext, orderedSend, queueSendFirstOrdered, sendAsyncActiveId] at hok
      cases hpid : d.getPid t.time name (default timeout s.timeoutDefault) with
      | error reason => simp only [hpid] at h; cases h
      | ok patternPid =>
        simp only [hpid, map_eq_none_iff] at h
        simp only [hpid, h] at hok
        cases hok
        exact Nat.one_pos
    | some patternPid =>
      simp only [refusedAt, map_eq_none_iff] at h
      simp only [orderedNext, orderedSend, queueSendFirstOrdered, sendAsyncActiveId, h] at hok
      cases hok
      exact Nat.one_pos
  | mcast name requestInfo request timeout priority =>
    simp only [refusedAt] at h
    simp only [orderedNext, orderedMcast, queueMcast] at hok
    cases hpids : d.getPids t.time name (default timeout s.timeoutDefault) with
    | error reason => simp only [hpids] at h; cases h
    | ok pids =>
      simp only [hpids, map_eq_none_iff] at h
      simp only [hpids, queueMcastSend, sendAsyncActive, h, if_true] at hok
      split at hok
      · next heq =>
          have hle := queueMcastSend_pending _ _ _ _ _ _ heq
          cases hok
          exact Nat.lt_of_lt_of_le Nat.one_pos hle
      · next heq =>
          have hle := queueMcastSend_pending _ _ _ _ _ _ heq
          obtain ⟨l, -, hok⟩ := ok_of_bind hok
          cases hok
          exact Nat.lt_of_lt_of_le Nat.one_pos hle

/-- What sending a queued request with an empty map does to the state. -/
theorem orderedNext_spec (hd : Function.Injective d.transId) (hreq : s.requests = ∅)
    (hp : s.orderedPending = 0)
    (hr : ∀ name requestInfo request timeout priority transId patternPid,
      r = .send name requestInfo request timeout priority transId patternPid →
        ∃ u < t.time, transId = d.transId u) (h : orderedNext d t s r = .ok ((res, s'), t')) :
    t.time ≤ t'.time ∧ s'.ordered = s.ordered ∧ s'.orderedRequests = s.orderedRequests ∧
      s'.orderedPending = Maps.size s'.requests ∧ Entries d t'.time s'.retry s'.requests := by
  cases r with
  | send name requestInfo request timeout priority transId patternPid =>
    obtain ⟨u, hu, hissued⟩ := hr _ _ _ _ _ _ _ rfl
    simp only [orderedNext, orderedSend] at h
    split at h
    · next q t₁ heq =>
        obtain ⟨htime, -, hq⟩ := queueSendFirstOrdered_spec _ _ _ _ _ _ _ _ _ heq
        obtain ⟨hid, hretry, -⟩ := hq q rfl
        cases h
        refine ⟨by omega, rfl, rfl, ?_, ?_⟩
        · simp [hreq, Maps.size_put]
        · rw [hreq]
          exact (Entries.empty d _ _).put hid (by omega) ⟨u, by omega, hissued⟩
    · next reason t₁ heq =>
        obtain ⟨htime, -⟩ := queueSendFirstOrdered_spec _ _ _ _ _ _ _ _ _ heq
        obtain ⟨l, -, h⟩ := ok_of_bind h
        cases h
        refine ⟨by omega, rfl, rfl, ?_, ?_⟩
        · simp [hreq, hp]
        · rw [hreq]
          exact Entries.empty d _ _
  | mcast name requestInfo request timeout priority =>
    simp only [orderedNext, orderedMcast, hreq] at h
    split at h
    · next heq =>
        obtain ⟨htime, hm, hsize⟩ := queueMcast_spec hd _ _ _ _ _ _ _ heq
        cases h
        exact ⟨by omega, rfl, rfl, hsize, hm⟩
    · next heq =>
        obtain ⟨htime, hm, hsize⟩ := queueMcast_spec hd _ _ _ _ _ _ _ heq
        obtain ⟨l, -, h⟩ := ok_of_bind h
        cases h
        exact ⟨by omega, rfl, rfl, hsize, hm⟩

theorem orderedNext_error (h : orderedNext d t s r = .error e) : e = .cloudiQueue := by
  cases r with
  | send name requestInfo request timeout priority transId patternPid =>
    simp only [orderedNext, orderedSend] at h
    split at h
    · cases h
    · cases hf : failure d _ s with
      | ok l => rw [hf] at h; cases h
      | error e' =>
        rw [hf] at h
        cases h
        exact failure_error hf
  | mcast name requestInfo request timeout priority =>
    simp only [orderedNext, orderedMcast] at h
    split at h
    · cases h
    · cases hf : failure d _ s with
      | ok l => rw [hf] at h; cases h
      | error e' =>
        rw [hf] at h
        cases h
        exact failure_error hf

/-! ## ordered_check -/

theorem orderedCheck_counts (ho : s.ordered = true) (hp : s.orderedPending = n + 2)
    (queue : List (OrderedRequest ι τ)) :
    orderedCheck d queue t s = .ok ({ s with orderedPending := n + 1 }, t) := by
  unfold orderedCheck
  rw [ho, hp]

theorem orderedCheck_zero (ho : s.ordered = true) (hp : s.orderedPending = 0)
    (queue : List (OrderedRequest ι τ)) : orderedCheck d queue t s = .error .functionClause := by
  unfold orderedCheck
  rw [ho, hp]

theorem orderedCheck_nil (ho : s.ordered = true) (hp : s.orderedPending = 1) :
    orderedCheck d [] t s = .ok ({ s with orderedRequests := [], orderedPending := 0 }, t) := by
  unfold orderedCheck
  rw [ho, hp]

/-- The last pending request is gone: the next queued request is sent, and the
recursion after one that was not sent at all has no clause. -/
theorem orderedCheck_cons (ho : s.ordered = true) (hp : s.orderedPending = 1)
    (next : OrderedRequest ι τ) (rest : List (OrderedRequest ι τ)) :
    orderedCheck d (next :: rest) t s =
      (orderedNext d t { s with orderedRequests := rest, orderedPending := 0 } next >>= fun out =>
        if out.1.1 ≠ none ∧ out.1.2.orderedPending = 0 then
          orderedCheck d rest out.2 out.1.2
        else .ok (out.1.2, out.2)) := by
  rw [orderedCheck, ho, hp]
  simp only
  congr 1
  funext ⟨⟨result, stateNew⟩, t'⟩
  cases result with
  | none => rfl
  | some reason => by_cases h : stateNew.orderedPending = 0 <;> simp [h]

/-- The step that the check made: a queued request was sent, the first one, and
no request was in the map. -/
def Started (d : Dispatcher ι τ) (s s' : State ι τ) (t' : Calls ι) : Prop :=
  ∃ next t res, s.orderedRequests = next :: s'.orderedRequests ∧ s.requests = ∅ ∧
    orderedNext d t { s with orderedRequests := s'.orderedRequests, orderedPending := 0 } next =
      .ok ((res, s'), t')

/-- The check restores the accounting whenever it returns. -/
theorem orderedCheck_ok (hd : Function.Injective d.transId) (hs : Accounted d t.time 1 s)
    (h : orderedCheck d s.orderedRequests t s = .ok (s', t')) :
    t.time ≤ t'.time ∧ Accounted d t'.time 0 s' ∧
      (s'.orderedRequests = s.orderedRequests ∨ Started d s s' t') := by
  cases hpending : s.orderedPending with
  | zero =>
    have := hs.pending
    omega
  | succ n =>
    cases n with
    | succ n =>
      rw [orderedCheck_counts hs.ordered hpending] at h
      cases h
      refine ⟨Nat.le_refl _, ⟨hs.ordered, ?_, by simp, hs.entries, hs.queued⟩, .inl rfl⟩
      have := hs.pending
      simp only
      omega
    | zero =>
      have hempty := hs.requests_eq_empty hpending
      cases hqueue : s.orderedRequests with
      | nil =>
        rw [hqueue, orderedCheck_nil hs.ordered hpending] at h
        cases h
        exact ⟨Nat.le_refl _, ⟨hs.ordered, by simp [hempty], fun _ => rfl, hs.entries,
          by simp⟩, .inl rfl⟩
      | cons next rest =>
        rw [hqueue, orderedCheck_cons hs.ordered hpending] at h
        obtain ⟨⟨⟨res, s₁⟩, t₁⟩, hnext, h⟩ := ok_of_bind h
        have hr : ∀ name requestInfo request timeout priority transId patternPid,
            next = .send name requestInfo request timeout priority transId patternPid →
              ∃ u < t.time, transId = d.transId u := by
          intro name requestInfo request timeout priority transId patternPid heq
          refine hs.queued name requestInfo request timeout priority transId patternPid ?_
          rw [hqueue, heq]
          exact List.mem_cons_self
        obtain ⟨htime, hord, hq, hp, hm⟩ := orderedNext_spec
          (s := { s with orderedRequests := rest, orderedPending := 0 })
          hd hempty rfl hr hnext
        split at h
        · next hcond =>
            rw [orderedCheck_zero (hord.trans hs.ordered) hcond.2] at h
            cases h
        · next hcond =>
            cases h
            have hpos : 0 < s₁.orderedPending := by
              cases hrefused : refusedAt d t
                  { s with orderedRequests := rest, orderedPending := 0 } next with
              | none => exact orderedNext_not_refused hrefused hnext
              | some t₂ =>
                obtain ⟨reason, heq⟩ := orderedNext_refused rfl hrefused
                rw [heq] at hnext
                obtain ⟨l, -, hl⟩ := ok_of_bind hnext
                cases hl
                simp at hcond
            simp only at hq
            refine ⟨htime, ⟨hord.trans hs.ordered, by omega,
              fun h0 => absurd h0 (Nat.ne_of_gt hpos), hm, ?_⟩, .inr ?_⟩
            · intro name requestInfo request timeout priority transId patternPid hmem
              rw [hq] at hmem
              obtain ⟨u, hu, hissued⟩ :=
                hs.queued _ _ _ _ _ _ _ (hqueue ▸ List.mem_cons_of_mem _ hmem)
              exact ⟨u, Nat.lt_of_lt_of_le hu htime, hissued⟩
            · exact ⟨next, t, res, by rw [hqueue, hq], hempty, by rw [hq]; exact hnext⟩

end CloudI.Queue
