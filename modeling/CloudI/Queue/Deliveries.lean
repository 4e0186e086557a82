import CloudI.Library.Deliveries
import CloudI.Queue.Steps

/-!
# Queue.Deliveries

The deliveries of a queue, ordered or not.  What was sent is read off the calls that
`send_async_active` accepted, what was accepted and what has left off the states of the run.
Each operation is a sequence of the moves that `CloudI.Library.Deliveries` allows with the
retries of the queue as the limit, so along every run each request is sent at most
`retry + 1` times and leaves once.
-/

namespace CloudI.Queue

open Deliveries List Option Function
open CloudI.Except

variable {ι τ : Type} [LinearOrder ι] {d : Dispatcher ι τ}

/-! ## the book of a state -/

/-- The transaction id that a queued request was accepted with. -/
def OrderedRequest.accepted : OrderedRequest ι τ → Option ι
  | .send _ _ _ _ _ id _ => some id
  | .mcast .. => none

/-- What the requests map holds of each request: how often it was retried. -/
def held (m : ErlMap ι (Request ι τ)) (id : ι) : Option Nat := (Maps.find id m).map (·.retryCount)

/-- The transaction ids in the queue of requests to be sent later. -/
def waiting (s : State ι τ) : List ι := s.orderedRequests.filterMap OrderedRequest.accepted

/-- The deliveries of a queue after a log. -/
def book (s : State ι τ) (log : Log ι) : Book ι := ⟨held s.requests, waiting s, log⟩

variable {s s' : State ι τ} {m : ErlMap ι (Request ι τ)} {id transId : ι} {w : World ι τ}

theorem waiting_congr (h : s'.orderedRequests = s.orderedRequests) : waiting s' = waiting s := by
  rw [waiting, waiting, h]

theorem held_put (id : ι) (q : Request ι τ) (m : ErlMap ι (Request ι τ)) :
    held (Maps.put id q m) = Function.update (held m) id (some q.retryCount) := by
  funext x
  rw [held, Maps.find_put]
  by_cases hx : x = id
  · subst hx
    simp
  · rw [if_neg (Ne.symm hx), update_of_ne hx, held]

theorem held_remove (id : ι) (m : ErlMap ι (Request ι τ)) :
    held (Maps.remove id m) = Function.update (held m) id none := by
  funext x
  rw [held, Maps.find_remove]
  by_cases hx : x = id
  · subst hx
    simp
  · rw [if_neg (Ne.symm hx), update_of_ne hx, held]

/-- Every request is stored under its own transaction id. -/
def Keyed (m : ErlMap ι (Request ι τ)) : Prop := ∀ id q, Maps.find id m = some q → q.id = id

theorem Keyed.put (h : Keyed m) (hid : q.id = id) : Keyed (Maps.put id q m) := by
  intro id' q' hq
  rw [Maps.find_put] at hq
  split at hq
  · next heq =>
      cases hq
      exact hid.trans heq
  · exact h id' q' hq

theorem Keyed.remove (h : Keyed m) (id : ι) : Keyed (Maps.remove id m) := by
  intro id' q hq
  rw [Maps.find_remove] at hq
  split at hq
  · cases hq
  · exact h id' q hq

/-- Every accepted transaction id was issued before time `t`. -/
def Issued (d : Dispatcher ι τ) (t : Nat) (ids : List ι) : Prop :=
  ∀ id ∈ ids, ∃ u < t, id = d.transId u

section
omit [LinearOrder ι]

theorem Issued.mono (h : Issued d t ids) (ht : t ≤ t') : Issued d t' ids := by
  intro id hid
  obtain ⟨u, hu, heq⟩ := h id hid
  exact ⟨u, Nat.lt_of_lt_of_le hu ht, heq⟩

theorem Issued.append (h : Issued d t ids) (h' : Issued d t ids') : Issued d t (ids ++ ids') :=
  fun id hid => (mem_append.mp hid).elim (h id) (h' id)

theorem Issued.fresh (hd : Function.Injective d.transId) (h : Issued d t ids) (hu : t ≤ u) :
    d.transId u ∉ ids := by
  intro hmem
  obtain ⟨v, hv, heq⟩ := h _ hmem
  have := hd heq
  omega

end

/-! ## effects -/

/-- What an operation does to the deliveries while it makes the calls from `t`
to `t'`.  The sends of `e` are the ones that the dispatcher accepted in them. -/
structure Effect (d : Dispatcher ι τ) (t : Calls ι) (s : State ι τ) (e : Log ι) (t' : Calls ι)
    (s' : State ι τ) : Prop where
  time : t.time ≤ t'.time
  sent : t'.sent = t.sent ++ e.sent
  retry : s'.retry = s.retry
  keyed : Keyed s.requests → Keyed s'.requests
  issued : Issued d t'.time e.accepted
  moves : ∀ log, Issued d t.time log.accepted → Moves s.retry (book s log) (book s' (log ++ e))

theorem Effect.trans (h : Effect d t s e t' s') (h' : Effect d t' s' e' t'' s'') :
    Effect d t s (e ++ e') t'' s'' where
  time := Nat.le_trans h.time h'.time
  sent := by rw [h'.sent, h.sent, append_assoc, Log.sent_append]
  retry := h'.retry.trans h.retry
  keyed := fun hs => h'.keyed (h.keyed hs)
  issued := (h.issued.mono h'.time).append h'.issued
  moves := by
    intro log hlog
    have hmoves := h'.moves (log ++ e) ((hlog.mono h.time).append h.issued)
    rw [h.retry, Log.append_assoc] at hmoves
    exact (h.moves log hlog).trans hmoves

theorem Effect.keep (ht : t.time ≤ t'.time) (hsent : t'.sent = t.sent) (hretry : s'.retry = s.retry)
    (hkeyed : Keyed s.requests → Keyed s'.requests) (hheld : held s'.requests = held s.requests)
    (hwaiting : waiting s' = waiting s) : Effect d t s .none t' s' where
  time := ht
  sent := hsent.trans (append_nil _).symm
  retry := hretry
  keyed := hkeyed
  issued := forall_mem_nil _
  moves := by
    intro log _
    rw [Log.append_none, book, book, hheld, hwaiting]

theorem Effect.wait (hd : Function.Injective d.transId) (hu : t.time ≤ u) (hu' : u < t'.time)
    (hsent : t'.sent = t.sent) (hretry : s'.retry = s.retry) (hrequests : s'.requests = s.requests)
    (hwaiting : waiting s' = waiting s ++ [d.transId u]) :
    Effect d t s (.queued (d.transId u)) t' s' where
  time := by omega
  sent := hsent.trans (append_nil _).symm
  retry := hretry
  keyed := fun hs => hrequests ▸ hs
  issued := forall_mem_singleton.mpr ⟨u, hu', rfl⟩
  moves := by
    intro log hlog
    rw [book, book, hrequests, hwaiting]
    exact .single (.wait (hlog.fresh hd hu))

/-- A request is sent under a new transaction id. -/
theorem Effect.start (hd : Function.Injective d.transId) (hu : t.time ≤ u) (hu' : u < t'.time)
    (hsent : t'.sent = t.sent ++ [d.transId u]) (hid : q.id = d.transId u)
    (hcount : q.retryCount = 0) (hretry : s'.retry = s.retry)
    (hrequests : s'.requests = Maps.put (d.transId u) q s.requests)
    (hqueue : s'.orderedRequests = s.orderedRequests) :
    Effect d t s (.started [d.transId u]) t' s' where
  time := by omega
  sent := hsent
  retry := hretry
  keyed := fun hs => hrequests ▸ hs.put hid
  issued := forall_mem_singleton.mpr ⟨u, hu', rfl⟩
  moves := by
    intro log hlog
    rw [book, book, hrequests, held_put, hcount, waiting_congr hqueue]
    exact .single (.start (hlog.fresh hd hu))

theorem Effect.first (ht : t.time ≤ t'.time) (hsent : t'.sent = t.sent ++ [id]) (hid : q.id = id)
    (hcount : q.retryCount = 0) (hretry : s'.retry = s.retry)
    (hrequests : s'.requests = Maps.put id q s.requests)
    (hwaiting : waiting s = id :: waiting s') : Effect d t s (.resent id) t' s' where
  time := ht
  sent := hsent
  retry := hretry
  keyed := fun hs => hrequests ▸ hs.put hid
  issued := forall_mem_nil _
  moves := by
    intro log _
    rw [book, book, hrequests, held_put, hcount, hwaiting]
    exact .single (.first rfl)

theorem Effect.again (ht : t.time ≤ t'.time) (hsent : t'.sent = t.sent ++ [id])
    (hfind : Maps.find id s.requests = some q) (hlt : q.retryCount < s.retry) (hid : q'.id = id)
    (hcount : q'.retryCount = q.retryCount + 1) (hretry : s'.retry = s.retry)
    (hrequests : s'.requests = Maps.put id q' s.requests)
    (hqueue : s'.orderedRequests = s.orderedRequests) : Effect d t s (.resent id) t' s' where
  time := ht
  sent := hsent
  retry := hretry
  keyed := fun hs => hrequests ▸ hs.put hid
  issued := forall_mem_nil _
  moves := by
    intro log _
    have hheld : held s.requests id = some q.retryCount := by rw [held, hfind, map_some]
    rw [book, book, hrequests, held_put, hcount, waiting_congr hqueue]
    exact .single (.again hheld hlt)

theorem Effect.leave (ht : t.time ≤ t'.time) (hsent : t'.sent = t.sent)
    (hfind : Maps.find id s.requests = some q) (hretry : s'.retry = s.retry)
    (hrequests : s'.requests = Maps.remove id s.requests)
    (hqueue : s'.orderedRequests = s.orderedRequests) : Effect d t s (.gone id) t' s' where
  time := ht
  sent := hsent.trans (append_nil _).symm
  retry := hretry
  keyed := fun hs => hrequests ▸ hs.remove id
  issued := forall_mem_nil _
  moves := by
    intro log _
    have hheld : held s.requests id = some q.retryCount := by rw [held, hfind, map_some]
    rw [book, book, hrequests, held_remove, waiting_congr hqueue]
    exact .single (.leave hheld)

/-- An effect that takes no request out of the map. -/
def Sends (d : Dispatcher ι τ) (t : Calls ι) (s : State ι τ) (t' : Calls ι) (s' : State ι τ) :
    Prop :=
  ∃ e, e.left = [] ∧ Effect d t s e t' s'

theorem Sends.trans (h : Sends d t s t' s') (h' : Sends d t' s' t'' s'') : Sends d t s t'' s'' := by
  obtain ⟨e, hleft, heffect⟩ := h
  obtain ⟨e', hleft', heffect'⟩ := h'
  refine ⟨_, ?_, heffect.trans heffect'⟩
  rw [Log.left_append, hleft, hleft']
  rfl

/-- Only other fields of the state change, and no call sends. -/
theorem Sends.same (ht : t.time ≤ t'.time) (hsent : t'.sent = t.sent) (hretry : s'.retry = s.retry)
    (hrequests : s'.requests = s.requests) (hqueue : s'.orderedRequests = s.orderedRequests) :
    Sends d t s t' s' :=
  ⟨.none, rfl, .keep ht hsent hretry (fun hs => hrequests ▸ hs) (by rw [hrequests])
    (waiting_congr hqueue)⟩

/-! ## sending -/

section

variable (hd : Function.Injective d.transId)

include hd

theorem queueMcastSend_sends (name requestInfo request : τ) (timeout priority : Option τ)
    (ordered : Bool) (patternPids : List τ) (s : State ι τ)
    (h : queueMcastSend d name requestInfo request timeout priority ordered patternPids t pending m
      = ((r, pending', m'), t')) :
    Sends d t { s with requests := m } t' { s with requests := m' } := by
  induction patternPids generalizing t pending m with
  | nil =>
    simp only [queueMcastSend] at h
    cases h
    exact .same (Nat.le_refl _) rfl rfl rfl rfl
  | cons patternPid patternPids ih =>
    simp only [queueMcastSend] at h
    split at h
    · next reason t₁ hsend =>
        obtain ⟨htime, herror, -⟩ := sendAsyncActive_spec _ _ _ _ _ _ hsend
        cases h
        exact .same (by omega) (herror reason rfl) rfl rfl rfl
    · next transId t₁ hsend =>
        obtain ⟨htime, -, hok⟩ := sendAsyncActive_spec _ _ _ _ _ _ hsend
        obtain ⟨rfl, hsent⟩ := hok transId rfl
        have hfirst : ∀ q : Request ι τ, q.id = d.transId t.time → q.retryCount = 0 →
            Sends d t { s with requests := m } t₁
              { s with requests := Maps.put (d.transId t.time) q m } := by
          intro q hid hcount
          exact ⟨.started [_], rfl,
            .start hd (Nat.le_refl _) (by omega) hsent hid hcount rfl rfl rfl⟩
        exact (hfirst _ rfl rfl).trans (ih h)

theorem queueMcast_sends (name requestInfo request : τ)
    (timeout priority timeoutDefault priorityDefault : Option τ) (ordered : Bool) (s : State ι τ)
    (h : queueMcast d t name requestInfo request timeout priority s.requests ordered
      timeoutDefault priorityDefault = ((r, pending, m), t')) :
    Sends d t s t' { s with requests := m } := by
  unfold queueMcast at h
  simp only at h
  have hcall : Sends d t s t.next { s with requests := s.requests } :=
    .same (Nat.le_succ t.time) rfl rfl rfl rfl
  split at h
  · cases h
    exact hcall
  · exact hcall.trans (queueMcastSend_sends hd _ _ _ _ _ _ _ s h)

/-- A queued request is sent, at least to one process: this is what the check
makes of it when it returns. -/
theorem orderedNext_sends {next : OrderedRequest ι τ} (hqueue : s.orderedRequests = next :: rest)
    (h : orderedNext d t { s with orderedRequests := rest, orderedPending := 0 } next =
      .ok ((res, s'), t')) : s'.ordered = s.ordered ∧
      ((res ≠ none ∧ s'.orderedPending = 0) ∨ Sends d t s t' s') := by
  cases next with
  | send name requestInfo request timeout priority id patternPid =>
    simp only [orderedNext, orderedSend] at h
    split at h
    · next q t₁ hsend =>
        obtain ⟨htime, -, hq⟩ := queueSendFirstOrdered_spec _ _ _ _ _ _ _ _ _ hsend
        obtain ⟨hid, hcount, hsent⟩ := hq q rfl
        cases h
        refine ⟨rfl, .inr ⟨.resent id, rfl,
          .first (Nat.le_of_lt htime) hsent hid hcount rfl rfl ?_⟩⟩
        rw [waiting, hqueue]
        rfl
    · obtain ⟨l, -, h⟩ := ok_of_bind h
      cases h
      exact ⟨rfl, .inl ⟨by simp, rfl⟩⟩
  | mcast name requestInfo request timeout priority =>
    simp only [orderedNext, orderedMcast] at h
    have hwaiting : waiting { s with orderedRequests := rest, orderedPending := 0 } =
        waiting s := by
      rw [waiting, waiting, hqueue]
      rfl
    have hpop : Sends d t s t { s with orderedRequests := rest, orderedPending := 0 } :=
      ⟨.none, rfl, .keep (Nat.le_refl t.time) rfl rfl (fun hs => hs) rfl hwaiting⟩
    split at h
    · next pending m t₁ hsend =>
        cases h
        have hmcast := hpop.trans (queueMcast_sends hd _ _ _ _ _ _ _ _
          { s with orderedRequests := rest, orderedPending := 0 } hsend)
        exact ⟨rfl, .inr (hmcast.trans (.same (Nat.le_refl _) rfl rfl rfl rfl))⟩
    · next reason pending m t₁ hsend =>
        obtain ⟨l, -, h⟩ := ok_of_bind h
        cases h
        have hmcast := hpop.trans (queueMcast_sends hd _ _ _ _ _ _ _ _
          { s with orderedRequests := rest, orderedPending := 0 } hsend)
        exact ⟨rfl, .inr (hmcast.trans (.same (Nat.le_refl _) rfl rfl rfl rfl))⟩

/-- **The check**: it takes nothing out of the map and sends one queued request at most. -/
theorem orderedCheck_sends (h : orderedCheck d s.orderedRequests t s = .ok (s', t'))
    : Sends d t s t' s' := by
  cases ho : s.ordered with
  | false =>
    unfold orderedCheck at h
    rw [ho] at h
    split at h
    · next heq _ => cases heq
    · next heq _ => cases heq
    · cases h
      exact .same (Nat.le_refl _) rfl rfl rfl rfl
    · cases h
  | true =>
    rcases hp : s.orderedPending with _ | _ | n
    · rw [orderedCheck_zero ho hp] at h
      cases h
    · cases hqueue : s.orderedRequests with
      | nil =>
        rw [hqueue, orderedCheck_nil ho hp] at h
        cases h
        exact .same (Nat.le_refl _) rfl rfl rfl hqueue.symm
      | cons next rest =>
        rw [hqueue, orderedCheck_cons ho hp] at h
        obtain ⟨⟨⟨res, s₁⟩, t₁⟩, hnext, h⟩ := ok_of_bind h
        obtain ⟨ho₁, hcase⟩ := orderedNext_sends hd hqueue hnext
        simp only at h
        split at h
        · next hrefused =>
            rw [orderedCheck_zero (ho₁.trans ho) hrefused.2] at h
            cases h
        · next hsent =>
            cases h
            exact hcase.resolve_left hsent
    · rw [orderedCheck_counts ho hp] at h
      cases h
      exact .same (Nat.le_refl _) rfl rfl rfl rfl

end

/-! ## the operations -/

/-- A request leaves the map by its response, by the timeout that follows its last
retry, or by a retry that cannot be sent. -/
inductive Ends (d : Dispatcher ι τ) (w : World ι τ) : Op ι τ → ι → Prop
  | response {id : ι} : Ends d w (.recv responseInfo response id) id
  | exhausted {id : ι} (hfind : Maps.find id w.state.requests = some q)
      (hretry : q.retryCount = w.state.retry) : Ends d w (.timeout id) id
  | refused {id : ι} (hfind : Maps.find id w.state.requests = some q)
      (hsend : queueSendRetry d w.calls q = (.error reason, t)) : Ends d w (.timeout id) id

/-- What an operation does, and which request it may take out of the map. -/
def Does (d : Dispatcher ι τ) (w : World ι τ) (op : Op ι τ) (t' : Calls ι) (s' : State ι τ) :
    Prop :=
  ∃ e, (∀ id ∈ e.left, held w.state.requests id ≠ none ∧ Ends d w op id) ∧
    Effect d w.calls w.state e t' s'

theorem Sends.does (h : Sends d w.calls w.state t' s') : Does d w op t' s' := by
  obtain ⟨e, hleft, heffect⟩ := h
  exact ⟨e, hleft ▸ forall_mem_nil _, heffect⟩

theorem failed_sends (ht : t.time ≤ t₁.time) (hsent : t₁.sent = t.sent)
    (h : failed d t₁ reason s = .ok ((reply, s'), t')) : Sends d t s t' s' := by
  obtain ⟨l, rfl, rfl⟩ := failed_ok h
  exact .same ht hsent rfl rfl rfl

section

variable (hd : Function.Injective d.transId)

include hd

theorem sendId_sends {timeout : Option τ}
    (h : sendId d t name requestInfo request timeout priority patternPid s
      = .ok ((reply, s'), t')) : Sends d t s t' s' := by
  unfold sendId at h
  split at h
  · split at h
    · cases h
      refine ⟨.queued _, rfl, .wait hd (Nat.le_refl _) (Nat.lt_succ_self _) rfl rfl rfl ?_⟩
      rw [waiting, waiting, filterMap_append]
      rfl
    · exact failed_sends (Nat.le_refl _) rfl h
  · split at h
    · split at h
      · next transId q t₁ hsend =>
          obtain ⟨htime, -, hq⟩ := queueSendFirst_spec _ _ _ _ _ _ _ _ hsend
          obtain ⟨hid, hcount, hsent, u, hu, hu', rfl⟩ := hq transId q rfl
          cases h
          exact ⟨.started [_], rfl, .start hd hu hu' hsent hid hcount rfl rfl rfl⟩
      · next reason t₁ hsend =>
          obtain ⟨htime, herror, -⟩ := queueSendFirst_spec _ _ _ _ _ _ _ _ hsend
          exact failed_sends (Nat.le_of_lt htime) (herror reason rfl) h
    · exact failed_sends (Nat.le_refl _) rfl h

theorem mcast_sends {timeout : Option τ}
    (h : mcast d t name requestInfo request timeout priority s = .ok ((reply, s'), t')) :
    Sends d t s t' s' := by
  unfold mcast at h
  split at h
  · split at h
    · cases h
      refine ⟨.none, rfl, .keep (Nat.le_refl _) rfl rfl (fun hs => hs) rfl ?_⟩
      rw [waiting, waiting, filterMap_append]
      exact append_nil _
    · exact failed_sends (Nat.le_refl _) rfl h
  · split at h
    · split at h
      · next pending m t₁ hsend =>
          cases h
          have hmcast := queueMcast_sends hd _ _ _ _ _ _ _ _ s hsend
          exact hmcast.trans (.same (Nat.le_refl _) rfl rfl rfl rfl)
      · next reason pending m t₁ hsend =>
          have hmcast := queueMcast_sends hd _ _ _ _ _ _ _ _ s hsend
          have hcount : Sends d t₁ { s with requests := m } t₁
              { s with orderedPending := pending, requests := m } :=
            .same (Nat.le_refl _) rfl rfl rfl rfl
          exact (hmcast.trans hcount).trans (failed_sends (Nat.le_refl _) rfl h)
    · exact failed_sends (Nat.le_refl _) rfl h

/-- A request leaves and the check runs. -/
theorem checked_does (ht : w.calls.time ≤ t₁.time) (hsent : t₁.sent = w.calls.sent)
    (hfind : Maps.find transId w.state.requests = some q) (hends : Ends d w op transId)
    (h : checked (orderedCheck d) reply t₁
      { w.state with failuresSource := l, requests := Maps.remove transId w.state.requests }
        = .ok ((reply', s'), t')) :
    Does d w op t' s' := by
  have hleave : Effect d w.calls w.state (.gone transId) t₁
      { w.state with failuresSource := l, requests := Maps.remove transId w.state.requests } :=
    .leave ht hsent hfind rfl rfl rfl
  obtain ⟨e, hleft, hcheck⟩ := orderedCheck_sends hd (checked_ok h)
  refine ⟨_, ?_, hleave.trans hcheck⟩
  rw [Log.left_append, hleft, append_nil]
  refine forall_mem_singleton.mpr ⟨?_, hends⟩
  rw [held, hfind]
  simp

theorem recvId_does
    (h : recvId (orderedCheck d) d w.calls responseInfo response transId w.state
      = .ok ((reply, s'), t')) : Does d w (.recv responseInfo response transId) t' s' := by
  unfold recvId at h
  cases hfind : Maps.find transId w.state.requests with
  | none =>
    simp only [Maps.take, hfind, map_none] at h
    cases h
    exact (Sends.same (Nat.le_refl _) rfl rfl rfl rfl).does
  | some q =>
    simp only [Maps.take, hfind, map_some] at h
    split at h
    · exact checked_does hd (Nat.le_refl _) rfl hfind .response h
    · obtain ⟨l, -, h⟩ := ok_of_bind h
      exact checked_does hd (Nat.le_refl _) rfl hfind .response h

theorem timeout_does (hkeyed : Keyed w.state.requests)
    (h : timeout (orderedCheck d) d w.calls transId w.state = .ok ((reply, s'), t')) :
    Does d w (.timeout transId) t' s' := by
  unfold timeout at h
  cases hfind : Maps.find transId w.state.requests with
  | none =>
    simp only [hfind] at h
    cases h
    exact (Sends.same (Nat.le_refl _) rfl rfl rfl rfl).does
  | some q =>
    have hid : q.id = transId := hkeyed transId q hfind
    simp only [hfind] at h
    split at h
    · next hlast =>
        obtain ⟨l, -, h⟩ := ok_of_bind h
        exact checked_does hd (Nat.le_refl _) rfl hfind (.exhausted hfind hlast) h
    · split at h
      · cases h
        have hheld : held (Maps.put transId { q with retryDelay := true } w.state.requests) =
            held w.state.requests := by
          -- the entry is put back with the same count
          rw [held_put]
          refine update_eq_self_iff.mpr ?_
          rw [held, hfind, map_some]
        exact Sends.does ⟨.none, rfl,
          .keep (Nat.le_refl _) rfl rfl (fun hs => hs.put hid) hheld rfl⟩
      · split at h
        · next hlt =>
            split at h
            · next q' t₁ hsend =>
                obtain ⟨htime, -, hkeep⟩ := queueSendRetry_spec q hsend
                obtain ⟨hid', hsent⟩ := hkeep q' rfl
                cases h
                rw [hid] at hsent
                refine Sends.does ⟨.resent transId, rfl,
                  .again (Nat.le_of_lt htime) hsent hfind hlt ?_ rfl rfl rfl rfl⟩
                exact hid'.trans hid
            · next reason t₁ hsend =>
                obtain ⟨htime, herror, -⟩ := queueSendRetry_spec q hsend
                obtain ⟨l, -, h⟩ := ok_of_bind h
                exact checked_does hd (Nat.le_of_lt htime) (herror reason rfl) hfind
                  (.refused hfind hsend) h
        · cases h

/-- **Step lemma**: an operation makes moves of the deliveries, with the retries
of the queue as the limit, and sends what it moves. -/
theorem apply_does (hkeyed : Keyed w.state.requests) (h : apply d w op = .ok ((reply, s'), t')) :
    Does d w op t' s' := by
  cases op with
  | send name requestInfo request timeout priority patternPid => exact (sendId_sends hd h).does
  | mcast name requestInfo request timeout priority => exact (mcast_sends hd h).does
  | recv responseInfo response transId => exact recvId_does hd h
  | timeout transId => exact timeout_does hd hkeyed h

end

/-! ## the runs -/

/-- The request is known: it waits in the queue or is in the requests map. -/
def Known (s : State ι τ) (id : ι) : Prop := id ∈ waiting s ∨ held s.requests id ≠ none

instance (s : State ι τ) (id : ι) : Decidable (Known s id) := inferInstanceAs (Decidable (_ ∨ _))

/-- A request becomes known. -/
def Accepts (id : ι) (w w' : World ι τ) : Prop := ¬ Known w.state id ∧ Known w'.state id

/-- A request leaves the requests map. -/
def Loses (id : ι) (w w' : World ι τ) : Prop :=
  held w.state.requests id ≠ none ∧ held w'.state.requests id = none

instance (id : ι) (w w' : World ι τ) : Decidable (Accepts id w w') :=
  inferInstanceAs (Decidable (_ ∧ _))

instance (id : ι) (w w' : World ι τ) : Decidable (Loses id w w') :=
  inferInstanceAs (Decidable (_ ∧ _))

/-- A queue whose requests all have a standing, as the log has it. -/
structure Kept (d : Dispatcher ι τ) (limit : Nat) (log : Log ι) (w : World ι τ) : Prop where
  retry : w.state.retry = limit
  keyed : Keyed w.state.requests
  issued : Issued d w.calls.time log.accepted
  sent : log.sent = w.calls.sent
  settled : Settled limit (book w.state log)

theorem kept_init (d : Dispatcher ι τ) (o : Options τ) :
    Kept d o.retry .none (World.init (ι := ι) o) where
  retry := rfl
  keyed := by
    intro id q hq
    rw [World.init, new, Maps.find_empty] at hq
    cases hq
  issued := forall_mem_nil _
  sent := rfl
  settled := by
    have hempty : book (World.init (ι := ι) o).state Log.none = Book.empty := by
      rw [book, Book.empty]
      congr 1
    rw [hempty]
    exact settled_empty o.retry

/-- **Step lemma**: a step accepts and loses what its states say. -/
theorem kept_step (hd : Function.Injective d.transId) (hw : Kept d limit log w)
    (h : step d w op = some w') :
    ∃ log', Kept d limit log' w' ∧
      ∀ id, log'.accepted.count id = log.accepted.count id + (if Accepts id w w' then 1 else 0) ∧
        log'.left.count id = log.left.count id + (if Loses id w w' then 1 else 0) ∧
        (Loses id w w' → Ends d w op id) := by
  obtain ⟨reply, t, happly, htime⟩ := apply_of_step h
  obtain ⟨e, hleft, heffect⟩ := apply_does hd hw.keyed happly
  have hmoves := heffect.moves log hw.issued
  rw [hw.retry] at hmoves
  have hsettled := hw.settled.moves hmoves
  refine ⟨log ++ e, ⟨heffect.retry.trans hw.retry, heffect.keyed hw.keyed, ?_, ?_, hsettled⟩, ?_⟩
  · rw [htime]
    refine Issued.mono ?_ (Nat.le_succ t.time)
    exact (hw.issued.mono heffect.time).append heffect.issued
  · rw [htime, Calls.sent_next, heffect.sent, Log.sent_append, hw.sent]
  · intro id
    have hbefore := hw.settled id
    have hafter := hsettled id
    have hkept : held w.state.requests id = none → (log ++ e).left.count id = log.left.count id := by
      intro hnone
      have hnot : id ∉ e.left := fun hmem => (hleft id hmem).1 hnone
      rw [Log.left_append, count_append, count_eq_zero.mpr hnot, Nat.add_zero]
    have haccepted := hbefore.accepted_eq hafter (by simp [book]) hkept
    have hlost := hbefore.left_eq hafter (by simp [book]) hkept
    simp only [book, count_pos_iff] at haccepted hlost
    refine ⟨haccepted, hlost, fun hloses => ?_⟩
    have hcount : (log ++ e).left.count id = log.left.count id + 1 := by
      rw [hlost]
      exact congrArg _ (if_pos hloses)
    rw [Log.left_append, count_append] at hcount
    exact (hleft id (count_pos_iff.mp (by omega))).2

/-- **Run lemma**: so does a run. -/
theorem kept_run (hd : Function.Injective d.transId) (hw : Kept d limit log w)
    (h : Run.run (step d) w ops = some w') :
    ∃ log', Kept d limit log' w' ∧ ∀ id,
      log'.accepted.count id = log.accepted.count id + Run.changes (step d) (Accepts id) w ops ∧
      log'.left.count id = log.left.count id + Run.changes (step d) (Loses id) w ops := by
  induction ops generalizing w log with
  | nil =>
    rw [Run.run, Option.some.injEq] at h
    subst h
    exact ⟨log, hw, fun id => ⟨rfl, rfl⟩⟩
  | cons op ops ih =>
    rw [Run.run, bind_eq_some_iff] at h
    obtain ⟨w₁, hstep, hrest⟩ := h
    obtain ⟨log₁, hw₁, hcounts₁⟩ := kept_step hd hw hstep
    obtain ⟨log', hw', hcounts⟩ := ih hw₁ hrest
    refine ⟨log', hw', fun id => ?_⟩
    rw [(hcounts id).1, (hcounts id).2, (hcounts₁ id).1, (hcounts₁ id).2.1,
      Run.changes_cons hstep, Run.changes_cons hstep, Nat.add_assoc, Nat.add_assoc]
    exact ⟨rfl, rfl⟩

/-- A response or a timeout for a transaction id that is not in the requests
map changes nothing and calls nothing. -/
theorem apply_ignored (hop : op.answers = some transId)
    (hfind : Maps.find transId w.state.requests = none) :
    apply d w op = .ok ((.ignored, w.state), w.calls) := by
  cases op with
  | send => cases hop
  | mcast => cases hop
  | recv responseInfo response transId =>
    cases hop
    simp [apply, applyWith, recvId, Maps.take, hfind]
  | timeout transId =>
    cases hop
    simp only [apply, applyWith, timeout, hfind]

/-- **Delivery bound of a queue**: along every run each transaction id was sent
at most `retry + 1` times and has one standing: it was never accepted; or it
waits in the queue and was not sent yet; or it is in the requests map, sent once
more than it was retried; or it has left the map, once.  Whatever the next step
is, it takes a request out only by its response or by a timeout after which it
is not sent again, and whatever is not in the map is ignored. -/
theorem delivery_bound (hd : Function.Injective d.transId) (o : Options τ) (ops : List (Op ι τ))
    (h : Run.run (step d) (World.init o) ops = some w) :
    (∀ id, w.calls.sent.count id ≤ o.retry + 1) ∧
    (∀ id, Standing o.retry (Run.changes (step d) (Accepts id) (World.init o) ops)
      (w.calls.sent.count id) (Run.changes (step d) (Loses id) (World.init o) ops)
      ((waiting w.state).count id) (held w.state.requests id)) ∧
    (∀ op w' id, step d w op = some w' → Loses id w w' → Ends d w op id) ∧
    ∀ op transId, op.answers = some transId → Maps.find transId w.state.requests = none →
      apply d w op = .ok ((.ignored, w.state), w.calls) := by
  obtain ⟨log, hw, hcounts⟩ := kept_run hd (kept_init d o) h
  have hstanding : ∀ id, Standing o.retry (Run.changes (step d) (Accepts id) (World.init o) ops)
      (w.calls.sent.count id) (Run.changes (step d) (Loses id) (World.init o) ops)
      ((waiting w.state).count id) (held w.state.requests id) := by
    intro id
    have hid := hw.settled id
    obtain ⟨haccepted, hleft⟩ := hcounts id
    simp only [Log.none, count_nil, Nat.zero_add] at haccepted hleft
    simp only [book] at hid
    rwa [haccepted, hleft, hw.sent] at hid
  refine ⟨fun id => (hstanding id).sent_le, hstanding, fun op w' id hstep hloses => ?_,
    fun op transId hop hfind => apply_ignored hop hfind⟩
  obtain ⟨log', -, hstep⟩ := kept_step hd hw hstep
  exact (hstep id).2.2 hloses

/-- Three sends, the first of which goes out and is sent again by a timeout; a second timeout
gives it up, and the next one goes out. -/
def sendsAndTimeouts : List (Op Nat Nat) := threeSends ++ [.timeout 0, .timeout 0]

theorem delivery_bound_timeouts :
    ∃ w, Run.run (step (refusing 20)) (World.init { orderedOptions with retry := 1 })
        sendsAndTimeouts = some w ∧ w.calls.sent = [0, 0, 2] ∧ w.calls.sent.count 0 ≤ 2 :=
  ⟨_, rfl, rfl, (delivery_bound (d := refusing 20) (fun _ _ h => h)
    { orderedOptions with retry := 1 } sendsAndTimeouts rfl).1 0⟩

end CloudI.Queue
