import CloudI.Library.Except
import CloudI.Queue.Step

/-!
# Queue.Accounting

The accounting of an ordered queue: `ordered_pending` counts the entries of the
requests map, and requests wait only while it is not zero.  One spec lemma for
each function that edits the map or the queue, then the step and the run.
-/

namespace CloudI.Queue

open CloudI.Except

variable {ι τ : Type} [LinearOrder ι] {d : Dispatcher ι τ}

/-! ## the requests map -/

/-- What every entry of a requests map is: stored under its own transaction id,
one issued before time `t`, and retried no more often than the queue retries. -/
def Entries (d : Dispatcher ι τ) (t retry : Nat) (m : ErlMap ι (Request ι τ)) : Prop :=
  ∀ id q, Maps.find id m = some q →
    q.id = id ∧ q.retryCount ≤ retry ∧ ∃ u < t, id = d.transId u

theorem Entries.empty (d : Dispatcher ι τ) (t retry : Nat) : Entries d t retry ∅ := by
  intro id q h
  simp at h

theorem Entries.mono (h : Entries d t retry m) (ht : t ≤ t') : Entries d t' retry m := by
  intro id q hq
  obtain ⟨hid, hretry, u, hu, hissued⟩ := h id q hq
  exact ⟨hid, hretry, u, by omega, hissued⟩

theorem Entries.put (h : Entries d t retry m) (hid : q.id = transId) (hretry : q.retryCount ≤ retry)
    (hissued : ∃ u < t, transId = d.transId u) : Entries d t retry (Maps.put transId q m) := by
  intro id' q' hq
  rw [Maps.find_put] at hq
  split at hq
  · next heq =>
      cases hq
      exact ⟨hid.trans heq, hretry, heq ▸ hissued⟩
  · exact h id' q' hq

theorem Entries.remove (h : Entries d t retry m) (transId : ι) :
    Entries d t retry (Maps.remove transId m) := by
  intro id' q hq
  rw [Maps.find_remove] at hq
  split at hq
  · cases hq
  · exact h id' q hq

/-! ## the accounting of a state -/

/-- An ordered queue between two calls.  `left` is one while an entry has left
the map and `ordered_check/2` has still to run, and zero otherwise. -/
structure Accounted (d : Dispatcher ι τ) (t left : Nat) (s : State ι τ) : Prop where
  ordered : s.ordered = true
  pending : s.orderedPending = Maps.size s.requests + left
  idle : s.orderedPending = 0 → s.orderedRequests = []
  entries : Entries d t s.retry s.requests
  queued : ∀ name requestInfo request timeout priority id patternPid,
    .send name requestInfo request timeout priority id patternPid ∈ s.orderedRequests →
      ∃ u < t, id = d.transId u

theorem Accounted.mono (h : Accounted d t left s) (ht : t ≤ t') : Accounted d t' left s where
  ordered := h.ordered
  pending := h.pending
  idle := h.idle
  entries := h.entries.mono ht
  queued := by
    intro name requestInfo request timeout priority id patternPid hmem
    obtain ⟨u, hu, hissued⟩ := h.queued _ _ _ _ _ _ _ hmem
    exact ⟨u, by omega, hissued⟩

theorem Accounted.failuresSource (h : Accounted d t left s) (l : List Int) :
    Accounted d t left { s with failuresSource := l } :=
  ⟨h.ordered, h.pending, h.idle, h.entries, h.queued⟩

theorem Accounted.service (h : Accounted d t left s) (service : Option τ) :
    Accounted d t left { s with service := service } :=
  ⟨h.ordered, h.pending, h.idle, h.entries, h.queued⟩

theorem Accounted.remove (h : Accounted d t 0 s) (hq : Maps.find transId s.requests = some q) :
    Accounted d t 1 { s with requests := Maps.remove transId s.requests } where
  ordered := h.ordered
  pending := by
    have hpos := Maps.size_pos_of_find hq
    have hpending := h.pending
    rw [Maps.size_remove, hq]
    simp only [Option.isSome_some, if_true]
    omega
  idle := h.idle
  entries := h.entries.remove transId
  queued := h.queued

theorem Accounted.replace (h : Accounted d t 0 s) (hq : Maps.find transId s.requests = some q)
    (hid : r.id = transId) (hretry : r.retryCount ≤ s.retry) :
    Accounted d t 0 { s with requests := Maps.put transId r s.requests } where
  ordered := h.ordered
  pending := by
    rw [Maps.size_put, hq]
    simpa using h.pending
  idle := h.idle
  entries := h.entries.put hid hretry (h.entries transId q hq).2.2
  queued := h.queued

/-- A request is put into the queue while another is pending. -/
theorem Accounted.enqueue (h : Accounted d t left s) (hpending : 0 < s.orderedPending)
    (hr : ∀ name requestInfo request timeout priority id patternPid,
      r = .send name requestInfo request timeout priority id patternPid →
        ∃ u < t, id = d.transId u) :
    Accounted d t left { s with orderedRequests := s.orderedRequests ++ [r] } where
  ordered := h.ordered
  pending := h.pending
  idle := by
    intro h0
    have h0 : s.orderedPending = 0 := h0
    omega
  entries := h.entries
  queued := by
    intro name requestInfo request timeout priority id patternPid hmem
    rw [List.mem_append, List.mem_singleton] at hmem
    cases hmem with
    | inl hmem => exact h.queued _ _ _ _ _ _ _ hmem
    | inr heq => exact hr _ _ _ _ _ _ _ heq.symm

theorem accounted_new (d : Dispatcher ι τ) (o : Options τ) (ho : o.ordered = true) :
    Accounted d 0 0 (new (ι := ι) o) where
  ordered := ho
  pending := rfl
  idle := fun _ => rfl
  entries := Entries.empty d 0 _
  queued := by simp [new]

theorem Accounted.requests_eq_empty (h : Accounted d t left s)
    (hpending : s.orderedPending = left) : s.requests = ∅ := by
  have hsize := h.pending
  exact Maps.size_eq_zero.mp (by omega)

/-! ## the service calls -/

variable (name requestInfo request : τ) (timeout priority : Option τ)

section
omit [LinearOrder ι]

/-- A send is one call: it sends under the transaction id of that call, or sends nothing. -/
theorem sendAsyncActive_spec
    (patternPid : τ)
    (h : sendAsyncActive d t name requestInfo request timeout priority patternPid = (r, t')) :
    t'.time = t.time + 1 ∧ (∀ reason, r = .error reason → t'.sent = t.sent) ∧
      ∀ id, r = .ok id → id = d.transId t.time ∧ t'.sent = t.sent ++ [id] := by
  unfold sendAsyncActive at h
  split at h
  · cases h
    simp
  · cases h
    simp

/-- A send with a given transaction id is one call, which sends it or nothing. -/
theorem sendAsyncActiveId_spec
    (transId : ι) (patternPid : τ)
    (h : sendAsyncActiveId d t name requestInfo request timeout priority transId patternPid
      = (r, t')) :
    t'.time = t.time + 1 ∧ (∀ reason, r = .error reason → t'.sent = t.sent) ∧
      ∀ id, r = .ok id → id = transId ∧ t'.sent = t.sent ++ [transId] := by
  unfold sendAsyncActiveId at h
  split at h
  · cases h
    simp
  · cases h
    simp

/-- A send takes one or two service calls and sends what it returns, once; a
request it returns is new and carries the transaction id of one of the calls. -/
theorem queueSendFirst_spec
    (timeout priority patternPid timeoutDefault priorityDefault : Option τ)
    (h : queueSendFirst d t name requestInfo request timeout priority patternPid
      timeoutDefault priorityDefault = (r, t')) :
    t.time < t'.time ∧ (∀ reason, r = .error reason → t'.sent = t.sent) ∧
      ∀ transId q, r = .ok (transId, q) → q.id = transId ∧ q.retryCount = 0 ∧
        t'.sent = t.sent ++ [transId] ∧ ∃ u, t.time ≤ u ∧ u < t'.time ∧ transId = d.transId u := by
  unfold queueSendFirst at h
  cases patternPid with
  | none =>
    simp only at h
    split at h
    · cases h
      simp
    · split at h
      · next hsend =>
          obtain ⟨htime, herror, -⟩ := sendAsyncActive_spec _ _ _ _ _ _ hsend
          rw [Calls.time_next] at htime
          cases h
          exact ⟨by omega, fun reason _ => herror _ rfl, by simp⟩
      · next hsend =>
          obtain ⟨htime, -, hok⟩ := sendAsyncActive_spec _ _ _ _ _ _ hsend
          obtain ⟨hissued, hsent⟩ := hok _ rfl
          rw [Calls.time_next] at htime hissued
          cases h
          refine ⟨by omega, by simp, fun transId q heq => ?_⟩
          cases heq
          exact ⟨rfl, rfl, hsent, t.time + 1, by omega, by omega, hissued⟩
  | some p =>
    simp only at h
    split at h
    · next hsend =>
        obtain ⟨htime, herror, -⟩ := sendAsyncActive_spec _ _ _ _ _ _ hsend
        cases h
        exact ⟨by omega, fun reason _ => herror _ rfl, by simp⟩
    · next hsend =>
        obtain ⟨htime, -, hok⟩ := sendAsyncActive_spec _ _ _ _ _ _ hsend
        obtain ⟨hissued, hsent⟩ := hok _ rfl
        cases h
        refine ⟨by omega, by simp, fun transId q heq => ?_⟩
        cases heq
        exact ⟨rfl, rfl, hsent, t.time, by omega, by omega, hissued⟩

/-- A queued send that goes out keeps the transaction id it was accepted with,
and is sent once. -/
theorem queueSendFirstOrdered_spec
    (transId : ι) (patternPid timeoutDefault priorityDefault : Option τ)
    (h : queueSendFirstOrdered d t name requestInfo request timeout priority transId
      patternPid timeoutDefault priorityDefault = (r, t')) :
    t.time < t'.time ∧ (∀ reason, r = .error reason → t'.sent = t.sent) ∧
      ∀ q, r = .ok q → q.id = transId ∧ q.retryCount = 0 ∧ t'.sent = t.sent ++ [transId] := by
  unfold queueSendFirstOrdered at h
  cases patternPid with
  | none =>
    simp only at h
    split at h
    · cases h
      simp
    · split at h
      · next hsend =>
          obtain ⟨htime, herror, -⟩ := sendAsyncActiveId_spec _ _ _ _ _ _ _ hsend
          rw [Calls.time_next] at htime
          cases h
          exact ⟨by omega, fun reason _ => herror _ rfl, by simp⟩
      · next hsend =>
          obtain ⟨htime, -, hok⟩ := sendAsyncActiveId_spec _ _ _ _ _ _ _ hsend
          obtain ⟨rfl, hsent⟩ := hok _ rfl
          rw [Calls.time_next] at htime
          cases h
          refine ⟨by omega, by simp, fun q heq => ?_⟩
          cases heq
          exact ⟨rfl, rfl, hsent⟩
  | some p =>
    simp only at h
    split at h
    · next hsend =>
        obtain ⟨htime, herror, -⟩ := sendAsyncActiveId_spec _ _ _ _ _ _ _ hsend
        cases h
        exact ⟨by omega, fun reason _ => herror _ rfl, by simp⟩
    · next hsend =>
        obtain ⟨htime, -, hok⟩ := sendAsyncActiveId_spec _ _ _ _ _ _ _ hsend
        obtain ⟨rfl, hsent⟩ := hok _ rfl
        cases h
        refine ⟨by omega, by simp, fun q heq => ?_⟩
        cases heq
        exact ⟨rfl, rfl, hsent⟩

/-- A retry sends the request under its own transaction id, once, or fails and
sends nothing. -/
theorem queueSendRetry_spec (q : Request ι τ) (h : queueSendRetry d t q = (r, t')) :
    t.time < t'.time ∧ (∀ reason, r = .error reason → t'.sent = t.sent) ∧
      ∀ q', r = .ok q' → q'.id = q.id ∧ t'.sent = t.sent ++ [q.id] := by
  unfold queueSendRetry at h
  split at h
  · split at h
    · cases h
      simp
    · split at h
      · next hsend =>
          obtain ⟨htime, herror, -⟩ := sendAsyncActiveId_spec _ _ _ _ _ _ _ hsend
          rw [Calls.time_next] at htime
          cases h
          exact ⟨by omega, fun reason _ => herror _ rfl, by simp⟩
      · next hsend =>
          obtain ⟨htime, -, hok⟩ := sendAsyncActiveId_spec _ _ _ _ _ _ _ hsend
          rw [Calls.time_next] at htime
          cases h
          refine ⟨by omega, by simp, fun q' heq => ?_⟩
          cases heq
          exact ⟨rfl, (hok _ rfl).2⟩
  · split at h
    · next hsend =>
        obtain ⟨htime, herror, -⟩ := sendAsyncActiveId_spec _ _ _ _ _ _ _ hsend
        cases h
        exact ⟨by omega, fun reason _ => herror _ rfl, by simp⟩
    · next hsend =>
        obtain ⟨htime, -, hok⟩ := sendAsyncActiveId_spec _ _ _ _ _ _ _ hsend
        cases h
        refine ⟨by omega, by simp, fun q' heq => ?_⟩
        cases heq
        exact ⟨rfl, (hok _ rfl).2⟩

end

/-- An ordered mcast counts each destination it sends to once, because the
transaction ids are distinct. -/
theorem queueMcastSend_spec (hd : Function.Injective d.transId) (name requestInfo request : τ)
    (timeout priority : Option τ) (patternPids : List τ) (hm : Entries d t.time retry m)
    (h : queueMcastSend d name requestInfo request timeout priority true patternPids t pending m
      = ((r, pending', m'), t')) :
    t.time ≤ t'.time ∧ Entries d t'.time retry m' ∧
      pending' + Maps.size m = pending + Maps.size m' := by
  induction patternPids generalizing t pending m with
  | nil =>
    simp only [queueMcastSend] at h
    cases h
    exact ⟨Nat.le_refl _, hm, rfl⟩
  | cons patternPid patternPids ih =>
    simp only [queueMcastSend] at h
    split at h
    · next hsend =>
        have htime := (sendAsyncActive_spec _ _ _ _ _ _ hsend).1
        cases h
        exact ⟨by omega, hm.mono (by omega), rfl⟩
    · next transId t₁ hsend =>
        obtain ⟨htime, -, hok⟩ := sendAsyncActive_spec _ _ _ _ _ _ hsend
        have hissued := (hok transId rfl).1
        have hfresh : Maps.find transId m = none := by
          cases hfind : Maps.find transId m with
          | none => rfl
          | some q =>
            obtain ⟨-, -, u, hu, heq⟩ := hm _ q hfind
            have := hd (hissued.symm.trans heq)
            omega
        simp only [if_true] at h
        have hrest := fun hput => ih hput h
        obtain ⟨htime', hm', hsize⟩ := hrest <|
          (hm.mono (by omega)).put rfl (Nat.zero_le _) ⟨t.time, by omega, hissued⟩
        refine ⟨by omega, hm', ?_⟩
        rw [Maps.size_put, hfresh] at hsize
        simp at hsize
        omega

/-- The sends of a multicast are stored, and `pending` counts them. -/
theorem queueMcast_spec (hd : Function.Injective d.transId) (name requestInfo request : τ)
    (timeout priority timeoutDefault priorityDefault : Option τ)
    (h : queueMcast d t name requestInfo request timeout priority ∅ true
      timeoutDefault priorityDefault = ((r, pending, m), t')) :
    t.time < t'.time ∧ Entries d t'.time retry m ∧ pending = Maps.size m := by
  unfold queueMcast at h
  simp only at h
  split at h
  · cases h
    exact ⟨by simp, Entries.empty d _ _, by simp⟩
  · obtain ⟨htime, hm, hsize⟩ := queueMcastSend_spec hd _ _ _ _ _ _ (Entries.empty d _ _) h
    rw [Calls.time_next] at htime
    exact ⟨by omega, hm, by simpa using hsize⟩

end CloudI.Queue
