import CloudI.ServicesInternal.Outcome

/-!
# ServicesInternal.Stores

What outgoing requests do to the responses that wait to be received: only the return of a
request of `send_async` stores one, and the request is then outstanding no more.
-/

namespace CloudI.ServicesInternal

open Flight

variable {ι Pid χ κ : Type} [LinearOrder ι] [LinearOrder Pid]

variable (κ) in
theorem keepsResponses_timeoutStart (type : SendType χ) (timeout : Nat) (transId : ι)
    (pid : Pid) (s : State ι Pid χ) :
    KeepsResponses s (timeoutStart type timeout transId pid s : Result ι Pid χ κ) := by
  rw [timeoutStart]
  by_cases himm : s.options.requestTimeoutImmediateMax ≤ timeout
  · rw [if_pos himm]
    cases Maps.find pid s.sendTimeoutMonitors <;> rfl
  · rw [if_neg himm]
    rfl

theorem keepsResponses_handleMcastPids (type : SendType χ) (content : κ)
    (timeout : Nat) (client : χ) (transIdList : List ι) (dests : List (Pid × ι))
    (s : State ι Pid χ) :
    KeepsResponses s
      (handleMcastPids (timeoutStart type timeout) content timeout client transIdList dests s) := by
  induction dests generalizing s transIdList with
  | nil => rfl
  | cons dest dests ih =>
    obtain ⟨pid, transId⟩ := dest
    have hrest := ih (transId :: transIdList)
      (timeoutStart type timeout transId pid s : Result ι Pid χ κ).1
    exact hrest.trans (keepsResponses_timeoutStart κ type timeout transId pid s)

variable {result r : Result ι Pid χ κ} {s : State ι Pid χ}
  {lookup : Lookup ι Pid} {ret : Return ι Pid κ}
  {w : World ι Pid χ κ}

theorem keepsResponses_handleSend {interval : Nat} {r : Retry χ κ}
    {found : List (Pid × ι) → Option (Result ι Pid χ κ)}
    (h : handleSend interval r lookup s found = some result)
    (hfound : ∀ dests, found dests = some result → KeepsResponses s result) :
    KeepsResponses s result := by
  rw [handleSend.eq_def] at h
  cases lookup with
  | timeout =>
    cases h
    rfl
  | error =>
    by_cases hasync : s.options.requestNameLookup = .async
    · simp only [hasync, if_true] at h
      cases h
      rfl
    · by_cases hinterval : interval ≤ r.timeout
      · simp only [if_neg hasync, if_pos hinterval] at h
        cases h
        rfl
      · simp only [if_neg hasync, if_neg hinterval] at h
        cases h
        rfl
  | ok dests => exact hfound dests h

theorem keepsResponses_destinationGet (h : destinationGet found dests = some result)
    (hfound : ∀ pid transId, KeepsResponses s (found pid transId)) : KeepsResponses s result := by
  match dests, h with
  | [(pid, transId)], h =>
    cases h
    exact hfound pid transId

theorem keepsResponses_handleSendKind {r : Retry χ κ}
    (h : handleSendKind r lookup s = some result) : KeepsResponses s result := by
  unfold handleSendKind at h
  cases hkind : r.kind with
  | async =>
    rw [hkind] at h
    exact keepsResponses_handleSend h fun dests hfound =>
      keepsResponses_destinationGet hfound fun pid transId =>
        keepsResponses_timeoutStart κ .passive r.timeout transId pid s
  | asyncActive =>
    rw [hkind] at h
    exact keepsResponses_handleSend h fun dests hfound =>
      keepsResponses_destinationGet hfound fun pid transId =>
        keepsResponses_timeoutStart κ .active r.timeout transId pid s
  | sync =>
    rw [hkind] at h
    exact keepsResponses_handleSend h fun dests hfound =>
      keepsResponses_destinationGet hfound fun pid transId =>
        keepsResponses_timeoutStart κ (.client r.client) r.timeout transId pid s
  | mcastAsync =>
    rw [hkind] at h
    refine keepsResponses_handleSend h fun dests hfound => ?_
    cases hfound
    exact keepsResponses_handleMcastPids .passive ..
  | mcastAsyncActive =>
    rw [hkind] at h
    refine keepsResponses_handleSend h fun dests hfound => ?_
    cases hfound
    exact keepsResponses_handleMcastPids .active ..

theorem keepsResponses_handleDown (cancel : Reference → Option Nat) (pid : Pid)
    (s : State ι Pid χ) : KeepsResponses s (handleDown cancel pid s : Result ι Pid χ κ) := by
  unfold handleDown sendTimeoutDead
  cases Maps.find pid s.sendTimeoutMonitors <;> rfl

theorem keepsResponses_handleReturnSync (h : handleReturnSync ret s = some r) :
    KeepsResponses s r := by
  obtain ⟨-, rfl⟩ | ⟨client, pid, tref, -, rfl⟩ := handleReturnSync_cases h
  · rfl
  · exact keepsResponses_before ..

theorem keepsResponses_handleSendAsyncTimeout (h : handleSendAsyncTimeout transId s = some r) :
    KeepsResponses s r := by
  obtain ⟨-, rfl⟩ | ⟨pid, tref, -, rfl⟩ | ⟨pid, tref, -, rfl⟩ := handleSendAsyncTimeout_cases h
  · rfl
  · exact keepsResponses_before ..
  · exact keepsResponses_sendTimeoutEnd κ ..

theorem keepsResponses_handleSendSyncTimeout (h : handleSendSyncTimeout transId s = some r) :
    KeepsResponses s r := by
  obtain ⟨-, rfl⟩ | ⟨client, pid, tref, -, rfl⟩ := handleSendSyncTimeout_cases h
  · rfl
  · exact keepsResponses_before ..

/-- **What an event does to the responses**: nothing, or an outstanding request leaves and its
response, which has content, is stored. -/
inductive Stores (w : World ι Pid χ κ) (event : Event ι Pid χ κ)
    (r : Result ι Pid χ κ) : Prop
  | nothing (hkeeps : KeepsResponses w.state r)
  | response (transId : ι) (e : SendTimeout Pid χ) (x : Binary × Binary)
      (hfind : Maps.find transId w.state.sendTimeouts = some e) (hx : x ≠ ([], []))
      (hids : event.transIds = [])
      (hsend : r.1.sendTimeouts = Maps.remove transId w.state.sendTimeouts)
      (hresponses : r.1.asyncResponses = Maps.put transId x w.state.asyncResponses)

theorem stores_handleReturnAsync (h : handleReturnAsync cancel ret w.state = some r) :
    Stores w (.returnAsync ret cancel) r := by
  rw [handleReturnAsync] at h
  by_cases hsource : ret.source ≠ w.state.receiverPid
  · rw [if_pos hsource] at h
    cases h
  rw [if_neg hsource] at h
  cases hfind : Maps.find ret.transId w.state.sendTimeouts with
  | none =>
    rw [hfind] at h
    cases h
    exact .nothing rfl
  | some e =>
    obtain ⟨type, pid, tref⟩ := e
    rw [hfind] at h
    cases type with
    | client c => cases h
    | active =>
      cases h
      exact .nothing (keepsResponses_before _ ret.transId pid w.state)
    | passive =>
      cases hnull : ret.isNull with
      | true =>
        simp only [hnull, if_true] at h
        cases h
        exact .nothing (keepsResponses_before _ ret.transId pid w.state)
      | false =>
        simp only [hnull, Bool.false_eq_true, if_false] at h
        cases h
        have hcontent : (ret.responseInfo, ret.response) ≠ ([], []) := by
          rw [Return.isNull, decide_eq_false_iff_not] at hnull
          rwa [ne_eq, Prod.mk.injEq]
        unfold asyncResponseTimeoutStart
        by_cases hzero : returnTimeout cancel tref ret w.state = 0
        · rw [if_pos hzero]
          exact .nothing (keepsResponses_before _ ret.transId pid w.state)
        · rw [if_neg hzero]
          refine .response ret.transId _ _ hfind hcontent rfl ?_
            (keepsResponses_before _ ret.transId pid _)
          exact (sendTimeoutEnd_spec κ ret.transId pid _ rfl).1

theorem handle_stores [DecidableEq χ] {event : Event ι Pid χ κ} (h : handle w event = some r) :
    Stores w event r := by
  cases event with
  | call kind content timeout client allowed lookup =>
    replace h : handleCallSend kind content timeout client allowed lookup w.state = some r := h
    rw [handleCallSend] at h
    by_cases hallowed : allowed
    · rw [if_pos hallowed] at h
      exact .nothing (keepsResponses_handleSendKind h)
    · rw [if_neg hallowed] at h
      cases h
      exact .nothing rfl
  | callPid kind content timeout client pid transId =>
    cases kind with
    | async => cases h; exact .nothing (keepsResponses_timeoutStart κ .passive ..)
    | asyncActive => cases h; exact .nothing (keepsResponses_timeoutStart κ .active ..)
    | sync => cases h; exact .nothing (keepsResponses_timeoutStart κ (.client client) ..)
    | _ => cases h
  | retry client lookup =>
    obtain ⟨x, -, hsend⟩ := Option.bind_eq_some_iff.mp h
    exact .nothing (keepsResponses_handleSendKind hsend)
  | returnAsync ret cancel => exact stores_handleReturnAsync h
  | returnSync ret => exact .nothing (keepsResponses_handleReturnSync h)
  | sendAsyncTimeout transId => exact .nothing (keepsResponses_handleSendAsyncTimeout h)
  | sendSyncTimeout transId => exact .nothing (keepsResponses_handleSendSyncTimeout h)
  | down pid cancel =>
    cases h
    exact .nothing (keepsResponses_handleDown cancel pid w.state)
  | update options =>
    cases h
    exact .nothing rfl

end CloudI.ServicesInternal
