import CloudI.ServicesInternal.Settle
import CloudI.Library.Run

/-!
# ServicesInternal.Outcome

One outcome for every outgoing request, over the runs of a dispatcher with new ids and new
clients.  Each id is outstanding or had its outcome, and each client waits or was replied to;
`Once` keeps the two accounts.
-/

namespace CloudI.ServicesInternal

open Flight CloudI.Lists Run Tickets List Option

variable {ι Pid χ κ : Type} [LinearOrder ι] [LinearOrder Pid]
  [DecidableEq χ]

/-! ## one event -/

/-- The request that a return or a timeout is about. -/
def Event.about : Event ι Pid χ κ → Option ι
  | .returnAsync r _ | .returnSync r => some r.transId
  | .sendAsyncTimeout transId | .sendSyncTimeout transId => some transId
  | _ => none

/-- The client whose send is handled. -/
def Event.callers : Event ι Pid χ κ → List χ
  | .call _ _ _ client _ _ | .callPid _ _ _ client _ _ | .retry client _ => [client]
  | _ => []

/-- **The cases of an event**: it ends a request, or it starts requests and ends none. -/
inductive Handled (w : World ι Pid χ κ) (event : Event ι Pid χ κ)
    (r : Result ι Pid χ κ) : Prop
  | ends (transId : ι) (habout : event.about = some transId) (hcallers : event.callers = [])
      (hleft : retriesLeft w event = w.retries) (hends : Ends w.state transId r)
  | starts (habout : event.about = none) (started : List (ι × SendType χ))
      (hsub : (started.map (·.1)).Sublist event.transIds)
      (hmoves : Moves w.state r started [] event.callers)

/-- The ids of an event are new to the dispatcher, each once. -/
def NewIds (w : World ι Pid χ κ) (event : Event ι Pid χ κ) : Prop :=
  event.transIds.Nodup ∧
    ∀ transId ∈ event.transIds, Maps.find transId w.state.sendTimeouts = none

variable {r : Result ι Pid χ κ} {event : Event ι Pid χ κ}
  {w : World ι Pid χ κ} {l : List (ι × SendType χ)}

/-- What an event does: its case, and that the index stays exact. -/
theorem handle_spec (h : handle w event = some r) (hnew : NewIds w event)
    (hindex : Index w.state w.monitoring) :
    Handled w event r ∧ Index r.1 (r.2.foldl monitorsAfter (monitoringLeft w event)) := by
  obtain ⟨hnodup, hnew⟩ := hnew
  have hsends : ∀ client, event.callers = [client] → monitoringLeft w event = w.monitoring →
      event.about = none → Sends w.state r event.transIds client →
      Handled w event r ∧ Index r.1 (r.2.foldl monitorsAfter (monitoringLeft w event)) := by
    intro client hcallers hleft habout hs
    obtain ⟨started, hsub, hmoves⟩ := hs.moves
    refine ⟨.starts habout started hsub (hcallers ▸ hmoves), ?_⟩
    rw [hleft]
    exact hs.index _ hindex
  cases event with
  | call kind content timeout client allowed lookup =>
    refine hsends client rfl rfl rfl ?_
    replace h : handleCallSend kind content timeout client allowed lookup w.state = some r := h
    rw [handleCallSend] at h
    by_cases hallowed : allowed
    · rw [if_pos hallowed] at h
      exact sends_handleSendKind h hnodup hnew
    · rw [if_neg hallowed] at h
      cases h
      exact sends_one rfl rfl (fun _ => rfl) _
  | callPid kind content timeout client pid transId =>
    refine hsends client rfl rfl rfl ?_
    have hfind := hnew transId mem_cons_self
    cases kind with
    | async => cases h; exact sends_handleSendAsyncPid hfind ..
    | asyncActive => cases h; exact sends_handleSendAsyncActivePid hfind ..
    | sync => cases h; exact sends_handleSendSyncPid hfind ..
    | _ => cases h
  | retry client lookup =>
    refine hsends client rfl rfl rfl ?_
    obtain ⟨⟨retry, retries⟩, htake, hsend⟩ := bind_eq_some_iff.mp h
    have hclient : retry.client = client := by simpa using (takeFirst_eq_some htake).1
    rw [← hclient]
    exact sends_handleSendKind hsend hnodup hnew
  | returnAsync ret cancel =>
    have hends := ends_handleReturnAsync h
    exact ⟨.ends _ rfl rfl rfl hends, hends.index hindex⟩
  | returnSync ret =>
    have hends := ends_handleReturnSync h
    exact ⟨.ends _ rfl rfl rfl hends, hends.index hindex⟩
  | sendAsyncTimeout transId =>
    have hends := ends_handleSendAsyncTimeout h
    exact ⟨.ends _ rfl rfl rfl hends, hends.index hindex⟩
  | sendSyncTimeout transId =>
    have hends := ends_handleSendSyncTimeout h
    exact ⟨.ends _ rfl rfl rfl hends, hends.index hindex⟩
  | down pid cancel =>
    cases h
    refine ⟨.starts rfl [] (List.Sublist.refl _) (moves_handleDown cancel pid w.state), ?_⟩
    exact ⟨monitorsExact_handleDown hindex.index cancel pid,
      monitoringExact_handleDown hindex.monitoring cancel pid rfl⟩
  | update options =>
    cases h
    refine ⟨.starts rfl [] (List.Sublist.refl _) ⟨List.Perm.refl _, rfl, List.Perm.refl _⟩, ?_⟩
    exact ⟨hindex.index, hindex.monitoring.exact, hindex.monitoring.below,
      hindex.monitoring.distinct⟩

/-! ## the accounts of a run -/

/-- **The accounts**: the index is exact, the outstanding requests have issued ids, an id of an
active request had its outcome or is outstanding, and a client was replied to or waits. -/
structure Accounts (w : World ι Pid χ κ) : Prop where
  index : Index w.state w.monitoring
  known : ∀ x ∈ types w.state, x.1 ∈ w.transIds
  active : Once w.transIds
    (w.history.filterMap Output.activeOutcome? ++ (types w.state).filterMap activeId)
  clients : Once w.clients (w.history.filterMap Output.replied? ++
    (w.retries.map (·.client) ++ (types w.state).filterMap clientOf))

/-- A dispatcher that was just started. -/
def World.init (timeoutAsync timeoutSync : Nat) (receiverPid : Pid) (options : Options) :
    World ι Pid χ κ where
  state := { timeoutAsync, timeoutSync, receiverPid, options }

omit [DecidableEq χ] in
theorem accounts_init (timeoutAsync timeoutSync : Nat) (receiverPid : Pid) (options : Options) :
    Accounts (World.init timeoutAsync timeoutSync receiverPid options :
      World ι Pid χ κ) where
  index := by
    refine ⟨fun pid => ?_, ⟨fun pid ref => ?_, by simp [World.init], by simp [World.init]⟩⟩
    · show MonitorExact (Option.map _ (Maps.find pid ∅)) _
      rw [Maps.find_empty]
      rintro transId ⟨e, he, -⟩
      replace he : Maps.find transId ∅ = some e := he
      simp at he
    · simp [World.init]
  known := by
    rintro ⟨transId, type⟩ hx
    obtain ⟨e, he, -⟩ := mem_types.mp hx
    replace he : Maps.find transId ∅ = some e := he
    simp at he
  active := once_nil _
  clients := once_nil _

omit [LinearOrder ι] [DecidableEq χ] in
theorem filterMap_activeId_sublist (l : List (ι × SendType χ)) :
    (l.filterMap activeId).Sublist (l.map (·.1)) := by
  induction l with
  | nil => exact List.Sublist.refl _
  | cons x l ih =>
    obtain ⟨transId, type⟩ := x
    cases type with
    | active => exact ih.cons_cons transId
    | _ => exact ih.cons transId

omit [DecidableEq χ] in
theorem Accounts.newIds (hw : Accounts w) (hfresh : Fresh w event) : NewIds w event := by
  refine ⟨hfresh.1, fun transId hid => ?_⟩
  cases hfind : Maps.find transId w.state.sendTimeouts with
  | none => rfl
  | some e =>
    have hmem : (transId, e.type) ∈ types w.state := mem_types.mpr ⟨e, hfind, rfl⟩
    exact absurd (hw.known _ hmem) (hfresh.2.1 transId hid)

theorem callers_perm (h : handle w event = some r) :
    (event.callers ++ (retriesLeft w event).map (·.client)).Perm
      (event.clients ++ w.retries.map (·.client)) := by
  cases event with
  | retry client lookup =>
    obtain ⟨⟨retry, retries⟩, htake, -⟩ := bind_eq_some_iff.mp h
    obtain ⟨hclient, l1, l2, hretries, hrest, -⟩ := takeFirst_eq_some htake
    replace hclient : retry.client = client := by simpa using hclient
    rw [retriesLeft, htake, hretries]
    show ([client] ++ retries.map _).Perm ([] ++ _)
    rw [hrest, ← hclient]
    simpa using perm_middle.symm
  | _ => exact List.Perm.refl _

theorem Handled.moves (h : Handled w event r) :
    ∃ started ended, (started.map (·.1)).Sublist event.transIds ∧
      Moves w.state r started ended event.callers ∧
      ∀ x ∈ ended, event.about = some x.1 := by
  cases h with
  | ends transId habout hcallers hleft hends =>
    refine ⟨[], _, nil_sublist _, hcallers ▸ hends.moves, fun x hx => ?_⟩
    obtain ⟨e, -, rfl⟩ := map_eq_some_iff.mp (mem_toList.mp hx)
    exact habout
  | starts habout started hsub hmoves => exact ⟨started, [], hsub, hmoves, by simp⟩

/-- **A step keeps the accounts.** -/
theorem Accounts.next {w' : World ι Pid χ κ} (hw : Accounts w)
    (hfresh : Fresh w event) (h : next w event = some w') : Accounts w' := by
  obtain ⟨r, hhandle, hw'⟩ := map_eq_some_iff.mp h
  obtain ⟨hhandled, hindex⟩ := handle_spec hhandle (hw.newIds hfresh) hw.index
  obtain ⟨started, ended, hsub, hmoves, -⟩ := hhandled.moves
  have hactives := hmoves.requests.filterMap activeId
  rw [filterMap_append, filterMap_append] at hactives
  have hnew : ∀ x ∈ started.map (·.1), x ∈ event.transIds := fun x hx => hsub.subset hx
  subst hw'
  refine ⟨hindex, fun x hx => ?_, ?_, ?_⟩
  · have hmem := hmoves.requests.mem_iff.mp (mem_append_right ended hx)
    rcases mem_append.mp hmem with hmem | hmem
    · exact mem_append_left _ (hnew _ (List.mem_map_of_mem hmem))
    · exact mem_append_right _ (hw.known x hmem)
  · refine Once.step (started.filterMap activeId) hw.active ?_ ?_ ?_ hfresh.2.1
    · show ((w.history ++ r.2).filterMap _ ++ _).Perm _
      rw [filterMap_append, hmoves.active, append_assoc]
      refine (hactives.append_left _).trans ?_
      rw [← append_assoc, ← append_assoc]
      exact perm_append_comm.append_right _
    · exact (hfresh.1.sublist hsub).sublist (filterMap_activeId_sublist started)
    · exact fun x hx => hnew x ((filterMap_activeId_sublist started).subset hx)
  · refine Once.step event.clients hw.clients ?_ ?_ (fun _ hx => hx) hfresh.2.2
    · have hclients := hmoves.requests.filterMap clientOf
      rw [filterMap_append, filterMap_append] at hclients
      refine perm_iff_count.mpr fun c => ?_
      have h1 := hclients.count_eq c
      have h2 := hmoves.clients.count_eq c
      have h3 := (callers_perm hhandle).count_eq c
      show ((w.history ++ r.2).filterMap _ ++
        ((retriesLeft w event ++ r.2.filterMap _).map _ ++ _)).count c = _
      simp only [filterMap_append, map_append, count_append, retryClients]
        at h1 h2 h3 ⊢
      omega
    · cases event <;> simp [Event.clients]

/-! ## outcomes -/

/-- The responses are those of the state before. -/
def KeepsResponses (s : State ι Pid χ) (r : Result ι Pid χ κ) : Prop :=
  r.1.asyncResponses = s.asyncResponses

variable (κ) in
omit [DecidableEq χ] in
theorem keepsResponses_sendTimeoutEnd (transId : ι) (pid : Option Pid) (s : State ι Pid χ) :
    KeepsResponses s (sendTimeoutEnd transId pid s : Result ι Pid χ κ) := by
  unfold sendTimeoutEnd
  cases pid with
  | none => rfl
  | some pid =>
    cases hmon : Maps.find pid s.sendTimeoutMonitors with
    | none =>
      simp only [hmon]
      rfl
    | some x =>
      obtain ⟨ref, ids⟩ := x
      by_cases hids : ids = [transId]
      · simp only [hmon, if_pos hids]
        rfl
      · simp only [hmon, if_neg hids]
        rfl

omit [DecidableEq χ] in
theorem keepsResponses_before (outs : List (Output ι Pid χ κ)) (transId : ι)
    (pid : Option Pid) (s : State ι Pid χ) :
    KeepsResponses s (before outs (sendTimeoutEnd transId pid s)) :=
  keepsResponses_sendTimeoutEnd κ transId pid s

/-- **What `recv_async` finds of a passive request** once the event has ended it: its response,
with a timer for as long as it is kept, and nothing of a response without content or without
time left, nor of a timeout. -/
def Received (s : State ι Pid χ) (r : Result ι Pid χ κ)
    (transId : ι) (tref : Reference) : Event ι Pid χ κ → Prop
  | .returnAsync ret cancel => ret.transId = transId ∧
      if ret.isNull ∨ returnTimeout cancel tref ret s = 0 then KeepsResponses s r
      else r.1.asyncResponses =
          Maps.put transId (ret.responseInfo, ret.response) s.asyncResponses ∧
        .sendAfter (returnTimeout cancel tref ret s) (.recvAsyncTimeout transId) ∈ r.2
  | .sendAsyncTimeout i => i = transId ∧ KeepsResponses s r
  | _ => False

/-- **The outcome of a request** of a type at an event: a message to the service for an active
request, a reply for a client, and for a passive one what `recv_async` finds. -/
def Outcome (s : State ι Pid χ) (event : Event ι Pid χ κ)
    (r : Result ι Pid χ κ) (transId : ι) (tref : Reference) :
    SendType χ → Prop
  | .active => transId ∈ r.2.filterMap Output.activeOutcome?
  | .client c => c ∈ r.2.filterMap Output.replied?
  | .passive => Received s r transId tref event

/-- What an event does for one id: an outstanding request leaves exactly with its outcome, and
there is none for an unknown id. -/
def OutcomeOf (s : State ι Pid χ) (event : Event ι Pid χ κ)
    (r : Result ι Pid χ κ) (transId : ι) : Prop :=
  match Maps.find transId s.sendTimeouts with
  | some e => Maps.find transId r.1.sendTimeouts = none ↔ Outcome s event r transId e.tref e.type
  | none => transId ∉ r.2.filterMap Output.activeOutcome? ∧
      (event.about = some transId → r = (s, []))

omit [DecidableEq χ] in
theorem Received.about (h : Received s r transId tref event) : event.about = some transId := by
  cases event with
  | returnAsync ret cancel => exact congrArg some h.1
  | sendAsyncTimeout i => exact congrArg some h.1
  | _ => cases h

omit [DecidableEq χ] in
theorem received_handleReturnAsync {s : State ι Pid χ}
    {ret : Return ι Pid κ} (h : handleReturnAsync cancel ret s = some r)
    (hfind : Maps.find ret.transId s.sendTimeouts = some ⟨.passive, pid, tref⟩) :
    Received s r ret.transId tref (.returnAsync ret cancel) := by
  rw [handleReturnAsync] at h
  by_cases hsource : ret.source ≠ s.receiverPid
  · rw [if_pos hsource] at h
    cases h
  rw [if_neg hsource, hfind] at h
  refine ⟨rfl, ?_⟩
  cases hnull : ret.isNull with
  | true =>
    simp only [hnull, if_true] at h
    cases h
    rw [if_pos (.inl rfl)]
    exact keepsResponses_before ..
  | false =>
    simp only [hnull, Bool.false_eq_true, if_false] at h
    cases h
    unfold asyncResponseTimeoutStart
    by_cases hzero : returnTimeout cancel tref ret s = 0
    · rw [if_pos (.inr hzero), if_pos hzero]
      exact keepsResponses_before ..
    · rw [if_neg (by simp [hzero]), if_neg hzero]
      refine ⟨keepsResponses_before .., ?_⟩
      exact mem_append_left _ (mem_append_right _ (mem_singleton_self _))

/-- **A return or a timeout of a passive request leaves what `recv_async` is to find**, and no
other event does. -/
theorem received_iff (h : handle w event = some r)
    (hfind : Maps.find transId w.state.sendTimeouts = some e) (htype : e.type = .passive) :
    Received w.state r transId e.tref event ↔ event.about = some transId := by
  refine ⟨Received.about, fun habout => ?_⟩
  obtain ⟨type, pid, tref⟩ := e
  cases htype
  cases event with
  | returnAsync ret cancel =>
    cases habout
    exact received_handleReturnAsync h hfind
  | sendAsyncTimeout i =>
    cases habout
    replace h : handleSendAsyncTimeout transId w.state = some r := h
    rw [handleSendAsyncTimeout, hfind] at h
    cases h
    exact ⟨rfl, keepsResponses_sendTimeoutEnd κ ..⟩
  | returnSync ret =>
    cases habout
    obtain ⟨hnone, -⟩ | ⟨client, pid, tref, hsome, -⟩ := handleReturnSync_cases h
    · rw [hfind] at hnone
      cases hnone
    · rw [hfind] at hsome
      cases hsome
  | sendSyncTimeout i =>
    cases habout
    obtain ⟨hnone, -⟩ | ⟨client, pid, tref, hsome, -⟩ := handleSendSyncTimeout_cases h
    · rw [hfind] at hnone
      cases hnone
    · rw [hfind] at hsome
      cases hsome
  | _ => cases habout

omit [LinearOrder ι] [DecidableEq χ] in
theorem mem_filterMap_activeId : transId ∈ l.filterMap activeId ↔ (transId, .active) ∈ l := by
  rw [mem_filterMap]
  constructor
  · rintro ⟨⟨j, type⟩, hx, hj⟩
    cases type <;> cases hj
    exact hx
  · exact fun h => ⟨_, h, rfl⟩

omit [LinearOrder ι] [DecidableEq χ] in
theorem mem_filterMap_clientOf :
    c ∈ l.filterMap clientOf ↔ ∃ transId, (transId, .client c) ∈ l := by
  rw [mem_filterMap]
  constructor
  · rintro ⟨⟨j, type⟩, hx, hj⟩
    cases type <;> cases hj
    exact ⟨j, hx⟩
  · rintro ⟨transId, h⟩
    exact ⟨_, h, rfl⟩

omit [DecidableEq χ] in
theorem mem_types_of_find {s : State ι Pid χ}
    (h : Maps.find transId s.sendTimeouts = some e) : (transId, e.type) ∈ types s :=
  mem_types.mpr ⟨e, h, rfl⟩

omit [DecidableEq χ] in
theorem Accounts.client_unique (hw : Accounts w) (hi : (i, .client c) ∈ types w.state)
    (hj : (j, .client c) ∈ types w.state) : i = j := by
  have hnodup := (nodup_append.mp (nodup_append.mp hw.clients.nodup).2.1).2.1
  exact congrArg Prod.fst (eq_of_nodup_filterMap hnodup hi hj rfl rfl)

theorem Accounts.not_caller (hw : Accounts w) (hfresh : Fresh w event) (h : handle w event = some r)
    (hmem : (transId, .client c) ∈ types w.state) : c ∉ event.callers := by
  intro hc
  have hwaits : c ∈ (types w.state).filterMap clientOf := mem_filterMap_clientOf.mpr ⟨_, hmem⟩
  have hnodup := (nodup_append.mp hw.clients.nodup).2.1
  rw [nodup_append] at hnodup
  have hfrom := (callers_perm h).mem_iff.mp (mem_append_left _ hc)
  rcases mem_append.mp hfrom with hnew | hretry
  · refine hfresh.2.2 c hnew (hw.clients.of_issued c ?_)
    exact mem_append_right _ (mem_append_right _ hwaits)
  · exact hnodup.2.2 c hretry c hwaits rfl

/-- The end of a request, as it shows in the outputs. -/
theorem Ends.outcomeOf (hw : Accounts w) (hhandle : handle w event = some r)
    (habout : event.about = some transId) (h : Ends w.state transId r) (j : ι) :
    OutcomeOf w.state event r j := by
  have hmoves := h.moves
  cases h with
  | unknown hfind hr =>
    subst hr
    unfold OutcomeOf
    cases hj : Maps.find j w.state.sendTimeouts with
    | none => exact ⟨not_mem_nil, fun _ => rfl⟩
    | some e =>
      refine ⟨nofun, fun houtcome => ?_⟩
      cases htype : e.type with
      | passive =>
        rw [htype, Outcome, received_iff hhandle hj htype, habout] at houtcome
        cases houtcome
        rw [hfind] at hj
        cases hj
      | _ => rw [htype] at houtcome; cases houtcome
  | known e outs s' hfind hs' hr hactive hreplied hretries hmonitors =>
    obtain ⟨hremove, hquiet⟩ := sendTimeoutEnd_spec κ transId e.pid s' rfl
    have hsend : r.1.sendTimeouts = Maps.remove transId w.state.sendTimeouts := by
      have hsame : s'.sendTimeouts = w.state.sendTimeouts := by rw [hs']
      rw [hr, ← hsame]
      exact hremove
    have hactive' : r.2.filterMap Output.activeOutcome? =
        [(transId, e.type)].filterMap activeId := by
      rw [hr, before, filterMap_append, hquiet.active, append_nil, hactive]
    have hreplied' : r.2.filterMap Output.replied? = [(transId, e.type)].filterMap clientOf := by
      rw [hr, before, filterMap_append, hquiet.replied, append_nil, hreplied]
    have hmem := mem_types_of_find hfind
    unfold OutcomeOf
    cases hj : Maps.find j w.state.sendTimeouts with
    | none =>
      refine ⟨fun hout => ?_, fun hsame => ?_⟩
      · rw [hactive', mem_filterMap_activeId, mem_singleton] at hout
        obtain rfl : j = transId := congrArg Prod.fst hout
        rw [hfind] at hj
        cases hj
      · rw [habout] at hsame
        cases hsame
        rw [hfind] at hj
        cases hj
    | some e' =>
      show Maps.find j r.1.sendTimeouts = none ↔ _
      rw [hsend, Maps.find_remove, hj]
      have hgone : (if transId = j then none else some e') = none ↔ transId = j := by
        by_cases heq : transId = j <;> simp [heq]
      rw [hgone]
      have hmem' := mem_types_of_find hj
      cases htype : e'.type with
      | active =>
        rw [Outcome, hactive', mem_filterMap_activeId, mem_singleton]
        constructor
        · rintro rfl
          rw [hfind] at hj
          cases hj
          rw [htype]
        · exact fun heq => (congrArg Prod.fst heq).symm
      | client c =>
        rw [Outcome, hreplied', mem_filterMap_clientOf]
        constructor
        · rintro rfl
          rw [hfind] at hj
          cases hj
          exact ⟨transId, by rw [htype]; exact mem_singleton_self _⟩
        · rintro ⟨i, hi⟩
          rw [mem_singleton] at hi
          rw [htype] at hmem'
          rw [← hi] at hmem
          rw [← show i = transId from congrArg Prod.fst hi]
          exact hw.client_unique hmem hmem'
      | passive =>
        rw [Outcome, received_iff hhandle hj htype, habout, Option.some.injEq]

/-- An event that ends no request has no outcome. -/
theorem Handled.outcomeOf (hw : Accounts w) (hfresh : Fresh w event) (h : handle w event = some r)
    (hhandled : Handled w event r) (j : ι) : OutcomeOf w.state event r j := by
  cases hhandled with
  | ends transId habout hcallers hleft hends => exact hends.outcomeOf hw h habout j
  | starts habout started hsub hmoves =>
    have hactive : r.2.filterMap Output.activeOutcome? = [] := hmoves.active
    unfold OutcomeOf
    cases hj : Maps.find j w.state.sendTimeouts with
    | none =>
      refine ⟨by simp [hactive], fun hsame => ?_⟩
      rw [habout] at hsame
      cases hsame
    | some e =>
      have hmem := mem_types_of_find hj
      have hstays := hmoves.requests.mem_iff.mpr (mem_append_right started hmem)
      obtain ⟨e', he', -⟩ := mem_types.mp (mem_append.mp hstays |>.resolve_left (by simp))
      show Maps.find j r.1.sendTimeouts = none ↔ _
      rw [he']
      refine ⟨nofun, fun houtcome => ?_⟩
      cases htype : e.type with
      | active =>
        rw [htype, Outcome, hactive] at houtcome
        cases houtcome
      | client c =>
        rw [htype, Outcome] at houtcome
        rw [htype] at hmem
        have hreplied : c ∈ [].filterMap clientOf ++ event.callers :=
          hmoves.clients.mem_iff.mp (mem_append_left _ (mem_append_left _ houtcome))
        exact absurd hreplied (hw.not_caller hfresh h hmem)
      | passive =>
        rw [htype, Outcome, received_iff h hj htype, habout] at houtcome
        cases houtcome

/-- **One outcome for every request**: in every run a client is replied to at most once, an
active request has at most one message to the service, the index of the monitors is exact and
a process is monitored exactly while a request names it; and at the next event every request
leaves exactly with its outcome, with none for an unknown id. -/
theorem one_outcome {w : World ι Pid χ κ} {events : List (Event ι Pid χ κ)}
    (h : Steps next Fresh (World.init timeoutAsync timeoutSync receiverPid options) events w) :
    (∀ c, (w.history.filterMap Output.replied?).count c ≤ 1) ∧
    (∀ transId, (w.history.filterMap Output.activeOutcome?).count transId ≤ 1) ∧
    MonitorsExact w.state ∧
    (∀ pid, (∃ ref, (pid, ref) ∈ w.monitoring) ↔ ∃ transId, Names w.state pid transId) ∧
    ∀ event r, Fresh w event → handle w event = some r →
      ∀ transId, OutcomeOf w.state event r transId := by
  have hw : Accounts w := h.invariant (fun _ _ _ hs hfresh hstep => hs.next hfresh hstep)
    (accounts_init timeoutAsync timeoutSync receiverPid options)
  refine ⟨hw.clients.count_le_one, hw.active.count_le_one, hw.index.index, fun pid => ?_, ?_⟩
  · have hexact := hw.index.index pid
    constructor
    · rintro ⟨ref, href⟩
      obtain ⟨ids, hids⟩ := (hw.index.monitoring.exact pid ref).mp href
      rw [hids] at hexact
      obtain ⟨id, hid⟩ := exists_mem_of_ne_nil _ hexact.1
      exact ⟨id, (hexact.2.2 id).mp hid⟩
    · rintro ⟨transId, hnames⟩
      cases hfind : Maps.find pid w.state.sendTimeoutMonitors with
      | none =>
        rw [hfind] at hexact
        exact absurd hnames (hexact transId)
      | some x => exact ⟨x.1, (hw.index.monitoring.exact pid x.1).mpr ⟨x.2, hfind⟩⟩
  · intro event r hfresh hhandle transId
    have hspec := handle_spec hhandle (hw.newIds hfresh) hw.index
    exact hspec.1.outcomeOf hw hfresh hhandle transId

/-- A dispatcher that monitors the destinations of every request. -/
def dispatcher : World Nat Nat Nat Unit := World.init 5000 5000 0 ⟨0, true, .sync⟩

/-- A synchronous, an active and a passive request to one process, which dies; the first request
times out and the second one is returned by another process. -/
def diesWithRequests : List (Event Nat Nat Nat Unit) :=
  [.callPid .sync () none 7 5 1, .call .asyncActive () (some 2000) 8 true (.ok [(5, 2)]),
    .callPid .async () (some 3000) 9 5 3, .down 5 fun _ => some 100, .sendSyncTimeout 1,
    .returnAsync ⟨(), [], [1], 2000, 2, 0⟩ fun _ => none, .sendAsyncTimeout 2]

/-- The passive request is returned, and its response is what `recv_async` finds. -/
theorem one_outcome_diesWithRequests : ∃ w, run next dispatcher diesWithRequests = some w ∧
      w.history.filterMap Output.replied? = [8, 9, 7] ∧
      w.history.filterMap Output.activeOutcome? = [2] ∧ MonitorsExact w.state ∧
      ∃ r, handle w (.returnAsync ⟨(), [], [6], 3000, 3, 0⟩ fun _ => some 40) = some r ∧
        OutcomeOf w.state (.returnAsync ⟨(), [], [6], 3000, 3, 0⟩ fun _ => some 40) r 3 ∧
        Maps.find 3 r.1.asyncResponses = some ([], [6]) := by
  have hsteps : ∃ w, Steps next Fresh dispatcher diesWithRequests w ∧
      w.history.filterMap Output.replied? = [8, 9, 7] ∧
      w.history.filterMap Output.activeOutcome? = [2] ∧
      Fresh w (.returnAsync ⟨(), [], [6], 3000, 3, 0⟩ fun _ => some 40) ∧
      ∃ r, handle w (.returnAsync ⟨(), [], [6], 3000, 3, 0⟩ fun _ => some 40) = some r ∧
        Maps.find 3 r.1.asyncResponses = some ([], [6]) := by
    refine ⟨_, .cons ⟨by decide, by decide, by decide⟩ rfl <|
      .cons ⟨by decide, by decide, by decide⟩ rfl <|
      .cons ⟨by decide, by decide, by decide⟩ rfl <|
      .cons ⟨by decide, by decide, by decide⟩ rfl <|
      .cons ⟨by decide, by decide, by decide⟩ rfl <|
      .cons ⟨by decide, by decide, by decide⟩ rfl <|
      .cons ⟨by decide, by decide, by decide⟩ rfl <| .nil _, rfl, rfl,
      ⟨by decide, by decide, by decide⟩, _, rfl, rfl⟩
  obtain ⟨w, hsteps, hreplied, hactive, hfresh, r, hhandle, hresponse⟩ := hsteps
  obtain ⟨-, -, hexact, -, houtcome⟩ := one_outcome hsteps
  exact ⟨w, hsteps.run_eq, hreplied, hactive, hexact, r, hhandle,
    houtcome _ _ hfresh hhandle 3, hresponse⟩

end CloudI.ServicesInternal
