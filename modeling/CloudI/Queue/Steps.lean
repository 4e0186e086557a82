import CloudI.Queue.Ordered
import Mathlib.Order.Nat

/-!
# Queue.Steps

What each operation does to the accounting of an ordered queue, and the run
theorems: the accounting of every reachable state, and the order in which
queued requests are sent.
-/

namespace CloudI.Queue

open CloudI.Except Option

variable {ι τ : Type} [LinearOrder ι] {d : Dispatcher ι τ}

/-! ## send and mcast -/

variable {s : State ι τ} {timeout : Option τ} {w : World ι τ}

theorem failed_ok (h : failed d t reason s = .ok ((reply, s'), t')) :
    ∃ l, s' = { s with failuresSource := l } ∧ t' = t := by
  obtain ⟨l, -, h⟩ := ok_of_bind h
  cases h
  exact ⟨l, rfl, rfl⟩

theorem sendId_ok (hw : Accounted d w.calls.time 0 w.state)
    (h : sendId d w.calls name requestInfo request timeout priority patternPid w.state
      = .ok ((reply, s'), t')) :
    w.calls.time ≤ t'.time ∧ Accounted d (t'.time + 1) 0 s' ∧ s'.orderedRequests = w.state.orderedRequests ++
      queuedBy d w (.send name requestInfo request timeout priority patternPid) := by
  unfold sendId at h
  split at h
  · next hpending =>
      split at h
      · next hvalid =>
          cases h
          rw [Calls.time_next]
          refine ⟨by omega, ?_, by simp [queuedBy, hpending, hvalid]⟩
          refine (hw.mono (by omega)).enqueue hpending.2 fun _ _ _ _ _ _ _ heq => ?_
          cases heq
          exact ⟨w.calls.time, by omega, rfl⟩
      · next hvalid =>
          obtain ⟨l, rfl, rfl⟩ := failed_ok h
          exact ⟨by omega, (hw.mono (by omega)).failuresSource l, by simp [queuedBy, hvalid]⟩
  · next hpending =>
      have hp : w.state.orderedPending = 0 := by
        simp only [hw.ordered, true_and] at hpending
        omega
      have hempty := hw.requests_eq_empty hp
      split at h
      · split at h
        · next transId q t₁ hsend =>
            obtain ⟨htime, -, hq⟩ := queueSendFirst_spec _ _ _ _ _ _ _ _ hsend
            obtain ⟨hid, hretry, -, u, -, hu, hissued⟩ := hq transId q rfl
            cases h
            refine ⟨by omega, ⟨hw.ordered, ?_, ?_, ?_, ?_⟩, by simp [queuedBy, hpending]⟩
            · simp [hw.ordered, hempty, Maps.size_put]
            · simp [hw.ordered]
            · exact (hw.entries.mono (by omega)).put hid (by omega) ⟨u, by omega, hissued⟩
            · simp [hw.idle hp]
        · next reason t₁ hsend =>
            obtain ⟨htime, -⟩ := queueSendFirst_spec _ _ _ _ _ _ _ _ hsend
            obtain ⟨l, rfl, rfl⟩ := failed_ok h
            exact ⟨by omega, (hw.mono (by omega)).failuresSource l, by simp [queuedBy, hpending]⟩
      · obtain ⟨l, rfl, rfl⟩ := failed_ok h
        exact ⟨by omega, (hw.mono (by omega)).failuresSource l, by simp [queuedBy, hpending]⟩

theorem mcast_ok (hd : Function.Injective d.transId) (hw : Accounted d w.calls.time 0 w.state)
    (h : mcast d w.calls name requestInfo request timeout priority w.state = .ok ((reply, s'), t')) :
    w.calls.time ≤ t'.time ∧ Accounted d (t'.time + 1) 0 s' ∧ s'.orderedRequests = w.state.orderedRequests ++
      queuedBy d w (.mcast name requestInfo request timeout priority) := by
  unfold mcast at h
  split at h
  · next hpending =>
      split at h
      · next hvalid =>
          cases h
          refine ⟨by omega, ?_, by simp [queuedBy, hpending, hvalid]⟩
          refine (hw.mono (by omega)).enqueue hpending.2 fun _ _ _ _ _ _ _ heq => ?_
          cases heq
      · next hvalid =>
          obtain ⟨l, rfl, rfl⟩ := failed_ok h
          exact ⟨by omega, (hw.mono (by omega)).failuresSource l, by simp [queuedBy, hvalid]⟩
  · next hpending =>
      have hp : w.state.orderedPending = 0 := by
        simp only [hw.ordered, true_and] at hpending
        omega
      have hempty := hw.requests_eq_empty hp
      have hqueue := hw.idle hp
      split at h
      · rw [hw.ordered, hempty] at h
        split at h
        · next pending m t₁ hsend =>
            obtain ⟨htime, hm, hsize⟩ := queueMcast_spec hd _ _ _ _ _ _ _ hsend
            cases h
            refine ⟨by omega, ⟨rfl, by omega, fun _ => hqueue, hm.mono (by omega), ?_⟩,
              by simp [queuedBy, hpending]⟩
            simp [hqueue]
        · next pending m t₁ hsend =>
            obtain ⟨htime, hm, hsize⟩ := queueMcast_spec hd _ _ _ _ _ _ _ hsend
            obtain ⟨l, rfl, rfl⟩ := failed_ok h
            refine ⟨by omega, ⟨rfl, by omega, fun _ => hqueue, hm.mono (by omega), ?_⟩,
              by simp [queuedBy, hpending]⟩
            simp [hqueue]
      · obtain ⟨l, rfl, rfl⟩ := failed_ok h
        exact ⟨by omega, (hw.mono (by omega)).failuresSource l, by simp [queuedBy, hpending]⟩

/-! ## recv_id and timeout -/

/-- The transaction id that a response or a timeout is about; a call has none. -/
def Op.answers : Op ι τ → Option ι
  | .send .. => none
  | .mcast .. => none
  | .recv _ _ transId => some transId
  | .timeout transId => some transId

/-- A response or a timeout takes an entry out of the requests map, and the
check runs on the state `s` after the calls `t`. -/
inductive Leaves (d : Dispatcher ι τ) (w : World ι τ) : Op ι τ → Calls ι → State ι τ → Prop
  | response (hfind : Maps.find transId w.state.requests = some q)
      (hvalid : validate w.state.validateResponseInfo w.state.validateResponse
        responseInfo response = true) :
      Leaves d w (.recv responseInfo response transId) w.calls
        { w.state with requests := Maps.remove transId w.state.requests }
  | badResponse (hfind : Maps.find transId w.state.requests = some q)
      (hvalid : validate w.state.validateResponseInfo w.state.validateResponse
        responseInfo response = false)
      (hfailure : failure d w.calls w.state = .ok l) :
      Leaves d w (.recv responseInfo response transId) w.calls
        { w.state with failuresSource := l
                       requests := Maps.remove transId w.state.requests }
  | lastTimeout (hfind : Maps.find transId w.state.requests = some q)
      (hretry : q.retryCount = w.state.retry) (hfailure : failure d w.calls w.state = .ok l) :
      Leaves d w (.timeout transId) w.calls
        { w.state with failuresSource := l
                       requests := Maps.remove transId w.state.requests }
  | retryFailed (hfind : Maps.find transId w.state.requests = some q)
      (hretry : q.retryCount < w.state.retry)
      (hdelay : ¬ (q.retryDelay = false ∧ 0 < w.state.retryDelay))
      (hsend : queueSendRetry d w.calls q = (.error reason, t))
      (hfailure : failure d t w.state = .ok l) :
      Leaves d w (.timeout transId) t
        { w.state with failuresSource := l
                       requests := Maps.remove transId w.state.requests }

/-- The state in which the check runs. -/
theorem Leaves.accounted (hw : Accounted d w.calls.time 0 w.state) (h : Leaves d w op t s) :
    w.calls.time ≤ t.time ∧ Accounted d t.time 1 s ∧ s.orderedRequests = w.state.orderedRequests ∧
      s.orderedPending = w.state.orderedPending ∧
      ∃ transId, op.answers = some transId ∧ s.requests = Maps.remove transId w.state.requests := by
  cases h with
  | response hfind => exact ⟨Nat.le_refl _, hw.remove hfind, rfl, rfl, _, rfl, rfl⟩
  | badResponse hfind hvalid hfailure =>
    exact ⟨Nat.le_refl _, (hw.remove hfind).failuresSource _, rfl, rfl, _, rfl, rfl⟩
  | lastTimeout hfind hretry hfailure =>
    exact ⟨Nat.le_refl _, (hw.remove hfind).failuresSource _, rfl, rfl, _, rfl, rfl⟩
  | retryFailed hfind hretry hdelay hsend hfailure =>
    have htime := (queueSendRetry_spec _ hsend).1
    exact ⟨by omega, ((hw.mono (by omega)).remove hfind).failuresSource _, rfl, rfl, _, rfl, rfl⟩

/-- When an entry leaves the map, the operation is its check. -/
theorem Leaves.applyWith_eq (h : Leaves d w op t s) :
    ∃ reply, ∀ check, applyWith check d w op = checked check reply t s := by
  cases h with
  | @response _ q _ _ hfind hvalid =>
    refine ⟨.okId q.id, fun check => ?_⟩
    simp only [applyWith, recvId, Maps.take, hfind, map_some, hvalid]
  | badResponse hfind hvalid hfailure =>
    refine ⟨.error .timeout, fun check => ?_⟩
    simp only [applyWith, recvId, Maps.take, hfind, map_some, hvalid, hfailure, ok_bind]
  | lastTimeout hfind hretry hfailure =>
    refine ⟨.error .timeout, fun check => ?_⟩
    simp only [applyWith, timeout, hfind, hretry, if_true, hfailure, ok_bind]
  | @retryFailed _ q _ reason _ hfind hretry hdelay hsend hfailure =>
    refine ⟨.error (.service reason), fun check => ?_⟩
    simp only [applyWith, timeout, hfind, if_neg (Nat.ne_of_lt hretry), if_neg hdelay,
      if_pos hretry, hsend, hfailure, ok_bind]

/-- **What a response or a timeout does**: an entry leaves the map and the
check runs, or the map keeps its size and there is no check, or the service
is killed for its failures. -/
theorem applyWith_cases (hw : Accounted d w.calls.time 0 w.state) (hop : op.answers = some transId) :
    (∃ t s, Leaves d w op t s) ∨
    (∃ reply s t, (∀ check, applyWith check d w op = .ok ((reply, s), t)) ∧
      w.calls.time ≤ t.time ∧ Accounted d t.time 0 s ∧ s.orderedRequests = w.state.orderedRequests) ∨
    (∀ check, applyWith check d w op = .error .cloudiQueue) := by
  cases op with
  | send => cases hop
  | mcast => cases hop
  | recv responseInfo response transId =>
    cases hfind : Maps.find transId w.state.requests with
    | none =>
      refine .inr (.inl ⟨.ignored, w.state, w.calls, fun check => ?_, Nat.le_refl _, hw, rfl⟩)
      simp only [applyWith, recvId, Maps.take, hfind, map_none]
    | some q =>
      cases hvalid : validate w.state.validateResponseInfo w.state.validateResponse
          responseInfo response with
      | true => exact .inl ⟨_, _, .response hfind hvalid⟩
      | false =>
        cases hfailure : failure d w.calls w.state with
        | ok l => exact .inl ⟨_, _, .badResponse hfind hvalid hfailure⟩
        | error e =>
          refine .inr (.inr fun check => ?_)
          simp only [applyWith, recvId, Maps.take, hfind, map_some, hvalid,
            hfailure, error_bind, failure_error hfailure]
  | timeout transId =>
    cases hfind : Maps.find transId w.state.requests with
    | none =>
      refine .inr (.inl ⟨.ignored, w.state, w.calls, fun check => ?_, Nat.le_refl _, hw, rfl⟩)
      simp only [applyWith, timeout, hfind]
    | some q =>
      obtain ⟨hid, hle, -⟩ := hw.entries _ _ hfind
      by_cases hlast : q.retryCount = w.state.retry
      · cases hfailure : failure d w.calls w.state with
        | ok l => exact .inl ⟨_, _, .lastTimeout hfind hlast hfailure⟩
        | error e =>
          refine .inr (.inr fun check => ?_)
          simp only [applyWith, timeout, hfind, hlast, if_true, hfailure, error_bind,
            failure_error hfailure]
      by_cases hdelay : q.retryDelay = false ∧ 0 < w.state.retryDelay
      · have hs := hw.replace hfind (r := { q with retryDelay := true }) hid hle
        refine .inr (.inl ⟨.ok, _, w.calls, fun check => ?_, Nat.le_refl _,
          hs.service (some (w.state.service.getD d.self)), rfl⟩)
        simp only [applyWith, timeout, hfind, if_neg hlast, if_pos hdelay]
      have hlt : q.retryCount < w.state.retry := by omega
      cases hsend : queueSendRetry d w.calls q with
      | mk r t =>
        obtain ⟨htime, -, hkeep⟩ := queueSendRetry_spec q hsend
        cases r with
        | ok q' =>
          have hs := (hw.mono (Nat.le_of_lt htime)).replace hfind
            (r := { q' with retryCount := q.retryCount + 1, retryDelay := false })
            ((hkeep q' rfl).1.trans hid) hlt
          refine .inr (.inl ⟨.ok, _, t, fun check => ?_, by omega, hs, rfl⟩)
          simp only [applyWith, timeout, hfind, if_neg hlast, if_neg hdelay, if_pos hlt, hsend]
        | error reason =>
          cases hfailure : failure d t w.state with
          | ok l => exact .inl ⟨_, _, .retryFailed hfind hlt hdelay hsend hfailure⟩
          | error e =>
            refine .inr (.inr fun check => ?_)
            simp only [applyWith, timeout, hfind, if_neg hlast, if_neg hdelay,
              if_pos hlt, hsend, hfailure, error_bind, failure_error hfailure]

theorem checked_ok (h : checked check reply t s = .ok ((reply', s'), t')) :
    check s.orderedRequests t s = .ok (s', t') := by
  obtain ⟨⟨s₁, t₁⟩, hcheck, h⟩ := ok_of_bind h
  cases h
  exact hcheck

/-! ## the step and the run -/

theorem apply_of_step (h : step d w op = some w') :
    ∃ reply t, apply d w op = .ok ((reply, w'.state), t) ∧ w'.calls = t.next := by
  unfold step at h
  split at h
  · next heq =>
      cases h
      exact ⟨_, _, heq, rfl⟩
  · cases h

/-- The step is a response or a timeout that sends the first queued request:
the entry that left was the last one, and the request is sent from a state with
an empty requests map. -/
def SendsNext (d : Dispatcher ι τ) (w : World ι τ) (op : Op ι τ) (w' : World ι τ) : Prop :=
  ∃ transId next t idle res t', op.answers = some transId ∧
    Maps.remove transId w.state.requests = ∅ ∧
    w.state.orderedRequests = next :: w'.state.orderedRequests ∧ idle.requests = ∅ ∧
    orderedNext d t idle next = .ok ((res, w'.state), t')

theorem queuedBy_of_answers (hop : op.answers = some transId) : queuedBy d w op = [] := by
  cases op with
  | send => cases hop
  | mcast => cases hop
  | recv => rfl
  | timeout => rfl

/-- **Step lemma**: a step keeps the accounting, and either the queue only
grows by what the step accepts, or the step sends the next queued request. -/
theorem step_accounted (hd : Function.Injective d.transId) (hw : Accounted d w.calls.time 0 w.state)
    (h : step d w op = some w') :
    Accounted d w'.calls.time 0 w'.state ∧
      (w'.state.orderedRequests = w.state.orderedRequests ++ queuedBy d w op ∨
        SendsNext d w op w') := by
  obtain ⟨reply, t, happly, htime⟩ := apply_of_step h
  rw [htime, Calls.time_next]
  have hreply : ∀ transId, op.answers = some transId → Accounted d (t.time + 1) 0 w'.state ∧
        (w'.state.orderedRequests = w.state.orderedRequests ∨ SendsNext d w op w') := by
    intro transId hop
    rcases applyWith_cases hw hop with ⟨t₁, s, hleaves⟩ | ⟨_, s, t₁, heq, -, hs, hqueue⟩ | hexit
    · obtain ⟨-, hs, hqueue, -, transId, hop, hrequests⟩ := hleaves.accounted hw
      obtain ⟨reply', heq⟩ := hleaves.applyWith_eq
      rw [apply, heq] at happly
      obtain ⟨-, hs', hcase⟩ := orderedCheck_ok hd hs (checked_ok happly)
      refine ⟨hs'.mono (Nat.le_succ t.time), hcase.imp (hqueue ▸ ·) ?_⟩
      rintro ⟨next, t₂, res, hcons, hempty, hnext⟩
      exact ⟨transId, next, t₂,
        { s with orderedRequests := w'.state.orderedRequests, orderedPending := 0 }, res, t,
        hop, hrequests ▸ hempty, hqueue ▸ hcons, hempty, hnext⟩
    · rw [apply, heq] at happly
      cases happly
      exact ⟨hs.mono (Nat.le_succ t.time), .inl hqueue⟩
    · rw [apply, hexit] at happly
      cases happly
  cases op with
  | send name requestInfo request timeout priority patternPid =>
    obtain ⟨-, hs, hqueue⟩ := sendId_ok hw happly
    exact ⟨hs, .inl hqueue⟩
  | mcast name requestInfo request timeout priority =>
    obtain ⟨-, hs, hqueue⟩ := mcast_ok hd hw happly
    exact ⟨hs, .inl hqueue⟩
  | recv responseInfo response transId => simpa [queuedBy] using hreply transId rfl
  | timeout transId => simpa [queuedBy] using hreply transId rfl

/-- **Run lemma**: the accounting of every reachable state, and the queue holds
the requests accepted last, in the order of acceptance. -/
theorem run_accounted (hd : Function.Injective d.transId) (hw : Accounted d w.calls.time 0 w.state)
    (h : Run.run (step d) w ops = some w') :
    Accounted d w'.calls.time 0 w'.state ∧
      ∃ sent, w.state.orderedRequests ++ queuedLog d w ops = sent ++ w'.state.orderedRequests := by
  induction ops generalizing w with
  | nil =>
    rw [Run.run, Option.some.injEq] at h
    subst h
    exact ⟨hw, [], by simp [queuedLog]⟩
  | cons op ops ih =>
    rw [Run.run, bind_eq_some_iff] at h
    obtain ⟨w₁, hstep, hrest⟩ := h
    obtain ⟨hw₁, hcase⟩ := step_accounted hd hw hstep
    obtain ⟨hw', sent, hsent⟩ := ih hw₁ hrest
    refine ⟨hw', ?_⟩
    simp only [queuedLog, hstep]
    rcases hcase with hqueue | ⟨_, next, _, _, _, _, hop, _, hcons, _⟩
    · exact ⟨sent, by rw [← hsent, hqueue, List.append_assoc]⟩
    · exact ⟨next :: sent, by
        rw [queuedBy_of_answers hop, hcons, List.cons_append, List.nil_append, hsent]; rfl⟩

/-! ## the queue that is not ordered -/

/-- A queue that is not ordered counts nothing and queues nothing. -/
structure Unordered (s : State ι τ) : Prop where
  ordered : s.ordered = false
  pending : s.orderedPending = 0
  queue : s.orderedRequests = []

theorem orderedCheck_unordered (hs : Unordered s) (queue : List (OrderedRequest ι τ)) :
    orderedCheck d queue t s = .ok (s, t) := by
  unfold orderedCheck
  rw [hs.ordered, hs.pending]
  rfl

theorem queueMcastSend_unordered (name requestInfo request : τ) (timeout priority : Option τ)
    (patternPids : List τ)
    (h : queueMcastSend d name requestInfo request timeout priority false patternPids t pending m
      = ((r, pending', m'), t')) : pending' = pending := by
  induction patternPids generalizing t pending m with
  | nil =>
    simp only [queueMcastSend] at h
    cases h
    rfl
  | cons patternPid patternPids ih =>
    simp only [queueMcastSend] at h
    split at h
    · cases h
      rfl
    · exact ih h

theorem queueMcast_unordered (name requestInfo request : τ)
    (timeout priority timeoutDefault priorityDefault : Option τ)
    (h : queueMcast d t name requestInfo request timeout priority m false
      timeoutDefault priorityDefault = ((r, pending, m'), t')) : pending = 0 := by
  unfold queueMcast at h
  simp only at h
  split at h
  · cases h
    rfl
  · exact queueMcastSend_unordered _ _ _ _ _ _ h

theorem failed_unordered (h : failed d t reason s = .ok ((reply, s'), t')) (hs : Unordered s) :
    Unordered s' := by
  obtain ⟨l, rfl, -⟩ := failed_ok h
  exact ⟨hs.ordered, hs.pending, hs.queue⟩

theorem checked_unordered (h : checked (orderedCheck d) reply t s = .ok ((reply', s'), t'))
    (hs : Unordered s) : Unordered s' := by
  have hcheck := checked_ok h
  rw [orderedCheck_unordered hs] at hcheck
  cases hcheck
  exact hs

theorem apply_unordered (hw : Unordered w.state) (h : apply d w op = .ok ((reply, s'), t')) :
    Unordered s' := by
  have hnot : ¬ (w.state.ordered = true ∧ 0 < w.state.orderedPending) := by simp [hw.ordered]
  cases op with
  | send name requestInfo request timeout priority patternPid =>
    simp only [apply, applyWith, sendId, if_neg hnot] at h
    split at h
    · split at h
      · cases h
        exact ⟨hw.ordered, by simp [hw.ordered], hw.queue⟩
      · exact failed_unordered h hw
    · exact failed_unordered h hw
  | mcast name requestInfo request timeout priority =>
    simp only [apply, applyWith, mcast, if_neg hnot] at h
    split at h
    · split at h
      · next hsend =>
          rw [hw.ordered] at hsend
          cases h
          exact ⟨hw.ordered, queueMcast_unordered _ _ _ _ _ _ _ hsend, hw.queue⟩
      · next hsend =>
          rw [hw.ordered] at hsend
          exact failed_unordered h ⟨hw.ordered, queueMcast_unordered _ _ _ _ _ _ _ hsend, hw.queue⟩
    · exact failed_unordered h hw
  | recv responseInfo response transId =>
    simp only [apply, applyWith, recvId] at h
    split at h
    · cases h
      exact hw
    · split at h
      · exact checked_unordered h ⟨hw.ordered, hw.pending, hw.queue⟩
      · obtain ⟨l, -, h⟩ := ok_of_bind h
        exact checked_unordered h ⟨hw.ordered, hw.pending, hw.queue⟩
  | timeout transId =>
    simp only [apply, applyWith, Queue.timeout] at h
    split at h
    · cases h
      exact hw
    · split at h
      · obtain ⟨l, -, h⟩ := ok_of_bind h
        exact checked_unordered h ⟨hw.ordered, hw.pending, hw.queue⟩
      · split at h
        · cases h
          exact ⟨hw.ordered, hw.pending, hw.queue⟩
        · split at h
          · split at h
            · cases h
              exact ⟨hw.ordered, hw.pending, hw.queue⟩
            · obtain ⟨l, -, h⟩ := ok_of_bind h
              exact checked_unordered h ⟨hw.ordered, hw.pending, hw.queue⟩
          · cases h

/-! ## the accounting of every run -/

/-- A dispatcher that numbers its transactions and refuses the send made at
one time. -/
def refusing (refused : Nat) : Dispatcher Nat Nat where
  self := 0
  transId := id
  getPid _ name _ := .ok name
  getPids _ name _ := .ok (name, [])
  refuse t _ _ _ _ _ _ := if t = refused then some 1 else none
  secondsMonotonic _ := 0

/-- The default options with `{ordered, true}`; `0` is the empty binary, and
`validate_response` refuses an empty response with empty info. -/
def orderedOptions : Options Nat where
  retry := 0
  retryDelay := 0
  ordered := true
  timeoutDefault := none
  priorityDefault := none
  validateRequestInfo := none
  validateRequest := none
  validateResponseInfo := none
  validateResponse := some fun responseInfo response => (responseInfo, response) ≠ (0, 0)
  failuresSourceDie := false
  failuresSourceMaxCount := 1
  failuresSourceMaxPeriod := none
  retryDelay_le := by decide
  maxCount_pos := by decide
  maxPeriod_pos := by simp

/-- Three sends to one process: the first goes out, two are queued. -/
def threeSends : List (Op Nat Nat) :=
  [.send 5 0 0 none none (some 5), .send 5 0 1 none none (some 5), .send 5 0 2 none none (some 5)]

end CloudI.Queue
