import CloudI.ServicesInternal.Received
import CloudI.ServicesInternal.Stores

/-!
# ServicesInternal.ReceivedOnce

Responses are received without loss, over the runs of a dispatcher with new ids and new calls.
`Received` keeps the accounts: an id is outstanding, stored or consumed, and what a call
consumed is in its retry message or in its reply.
-/

namespace CloudI.ServicesInternal.RecvAsync

open Flight Run Tickets List Option

variable {ι Pid χ κ : Type} [LinearOrder ι] [LinearOrder Pid]
  [DecidableEq χ] {ids : TransIds ι} {w w' : World ι Pid χ κ}
  {event : Event ι Pid χ κ}

/-! ## steps -/

/-- **The cases of a step.** -/
inductive Stepped (ids : TransIds ι) (w : World ι Pid χ κ)
    (event : Event ι Pid χ κ) (w' : World ι Pid χ κ) : Prop
  | send (event' : ServicesInternal.Event ι Pid χ κ)
      (send : ServicesInternal.World ι Pid χ κ) (hevent : event = .send event')
      (hsend : ServicesInternal.next w.send event' = some send) (hw' : w' = { w with send })
  | timeout (transId : ι) (hevent : event = .recvAsyncTimeout transId)
      (hw' : w' = w.withResponses (Maps.remove transId w.responses))
  | retry (q : Retry ι χ) (l1 l2 : List (Retry ι χ))
      (answer : Answer ι χ × Responses ι) (hevent : event = .retry q.client)
      (hretries : w.retries = l1 ++ q :: l2)
      (hhandle : handleRetry ids w.responses q = some answer)
      (hw' : w' = answered w q (l1 ++ l2) answer)
  | call (q : Retry ι χ) (answer : Answer ι χ × Responses ι)
      (hcall : event.call w.send.state.timeoutSync = some q)
      (hhandle : handleRetry ids w.responses q = some answer)
      (hw' : w' = { answered w q w.retries answer with clients := q.client :: w.clients })

theorem next_cases (h : next ids w event = some w') : Stepped ids w event w' := by
  have hcalls : ∀ q, event.call w.send.state.timeoutSync = some q →
      ((event.call w.send.state.timeoutSync).bind fun retry =>
        (handleRetry ids w.responses retry).map fun answer =>
          { answered w retry w.retries answer with clients := retry.client :: w.clients }) =
        some w' → Stepped ids w event w' := by
    intro q hq hnext
    rw [hq, bind_some] at hnext
    obtain ⟨answer, hhandle, hw'⟩ := map_eq_some_iff.mp hnext
    exact .call q answer hq hhandle hw'.symm
  cases event with
  | send event =>
    obtain ⟨send, hsend, hw'⟩ := map_eq_some_iff.mp h
    exact .send event send rfl hsend hw'.symm
  | recvAsyncTimeout transId => exact .timeout transId rfl (Option.some.inj h).symm
  | retry client =>
    obtain ⟨⟨q, retries⟩, htake, hnext⟩ := bind_eq_some_iff.mp h
    obtain ⟨answer, hhandle, hw'⟩ := map_eq_some_iff.mp hnext
    obtain ⟨hclient, l1, l2, hretries, hrest, -⟩ := takeFirst_eq_some htake
    replace hclient : q.client = client := by simpa using hclient
    subst hrest
    exact .retry q l1 l2 answer (by rw [hclient]) hretries hhandle hw'.symm
  | _ => exact hcalls _ rfl h

/-! ## the accounts of a run -/

/-- The ids of responses. -/
def idsOf (rs : Responses ι) : List ι := (Maps.toList rs).map (·.1)

/-- The ids of the outstanding requests. -/
def outstanding (s : State ι Pid χ) : List ι := (types s).map (·.1)

/-- The clients that were replied to and the ones that wait. -/
def World.callers (w : World ι Pid χ κ) : List χ :=
  w.replies.map Replied.client ++ w.retries.map Retry.client

/-- What a client consumed. -/
def World.consumedBy (w : World ι Pid χ κ) (client : χ) : List (Entry ι) :=
  mail client w.consumed

/-- **The accounts**: an id is consumed, stored or outstanding, a client was replied to or waits,
and what it consumed is what its reply or its retry message has. -/
structure Received (w : World ι Pid χ κ) : Prop where
  accounts : Accounts w.send
  nonNull : NonNull w.responses
  ids : Once w.send.transIds
    (w.consumed.map (·.2.transId) ++ (idsOf w.responses ++ outstanding w.send.state))
  clients : Once w.clients w.callers
  replied : ∀ x ∈ w.replies, (w.consumedBy x.client).Perm x.taken
  waits : ∀ r ∈ w.retries, (w.consumedBy r.client).Perm r.taken
  of_caller : ∀ x ∈ w.consumed, x.1 ∈ w.callers
  distinct : ∀ r ∈ w.retries, r.Distinct

theorem received_init (timeoutAsync timeoutSync : Nat) (receiverPid : Pid) (options : Options) :
    Received (World.init timeoutAsync timeoutSync receiverPid options :
      World ι Pid χ κ) where
  accounts := accounts_init timeoutAsync timeoutSync receiverPid options
  nonNull := by
    intro id x hx
    replace hx : Maps.find id ∅ = some x := hx
    simp at hx
  ids := once_nil _
  clients := once_nil _
  replied := nofun
  waits := nofun
  of_caller := nofun
  distinct := nofun

variable {rs : Responses ι} {answer : Answer ι χ × Responses ι}
  {retries : List (Retry ι χ)} {q r : Retry ι χ}
  {events : List (Event ι Pid χ κ)} {transIdList : List ι} {client : χ}
  {consume : Bool}

theorem Received.withResponses (hw : Received w) (hwithin : Maps.Within rs w.responses) :
    Received (w.withResponses rs) where
  accounts := ⟨⟨hw.accounts.index.index, hw.accounts.index.monitoring.exact,
    hw.accounts.index.monitoring.below, hw.accounts.index.monitoring.distinct⟩,
    hw.accounts.known, hw.accounts.active, hw.accounts.clients⟩
  nonNull := hw.nonNull.within hwithin
  ids := by
    refine hw.ids.subperm (subperm_ext_iff.mpr fun x _ => ?_)
    have hids := (ids_perm hwithin).count_eq x
    show List.count x (w.consumed.map _ ++ (idsOf rs ++ outstanding w.send.state)) ≤ _
    simp only [count_append, idsOf] at hids ⊢
    omega
  clients := hw.clients
  replied := hw.replied
  waits := hw.waits
  of_caller := hw.of_caller
  distinct := hw.distinct

theorem consumedBy_answered (q : Retry ι χ) (retries : List (Retry ι χ))
    (answer : Answer ι χ × Responses ι) (client : χ) :
    (answered w q retries answer).consumedBy client = w.consumedBy client ++
      if q.client = client then takenOut w.responses answer.2 else [] := by
  show mail client (w.consumed ++ _) = _
  rw [mail_append]
  by_cases h : q.client = client
  · subst h
    rw [mail_map_self, if_pos rfl]
    rfl
  · rw [mail_map_of_ne h, if_neg h]
    rfl

theorem callers_answered (hanswers : Answers w.responses q answer) :
    (answered w q retries answer).callers.Perm
      (w.replies.map Replied.client ++ q.client :: retries.map Retry.client) := by
  refine perm_iff_count.mpr fun c => ?_
  have honce := congrArg (List.count c) hanswers.once
  show List.count c ((w.replies ++ answer.1.replies q).map _ ++
    (retries ++ answer.1.retries).map _) = _
  simp only [map_append, count_append, count_cons, count_nil] at honce ⊢
  omega

/-- **The accounts of a call**, which has consumed what it holds: it is not counted among the
callers while it is handled. -/
theorem Received.answered (hw : Received w) {clients : List χ}
    (hanswers : Answers w.responses q answer) (htaken : (w.consumedBy q.client).Perm q.taken)
    (hdistinct : q.Distinct) (hsub : ∀ r ∈ retries, r ∈ w.retries) (hcallers : ∀ c ∈ w.callers,
      c ∈ w.replies.map Replied.client ++ q.client :: retries.map Retry.client)
    (hclients : Once clients
      (w.replies.map Replied.client ++ q.client :: retries.map Retry.client)) :
    Received { answered w q retries answer with clients } := by
  have hresponses := hw.withResponses hanswers.within
  have hperm : (RecvAsync.answered w q retries answer).callers.Perm _ :=
    callers_answered hanswers
  have hsame : ∀ c ∈ w.replies.map Replied.client ++ retries.map Retry.client,
      (RecvAsync.answered w q retries answer).consumedBy c = w.consumedBy c := by
    intro c hc
    have hnot := nodup_middle.mp hclients.nodup
    rw [nodup_cons] at hnot
    have hne : q.client ≠ c := fun heq => hnot.1 (heq ▸ hc)
    rw [consumedBy_answered, if_neg hne, append_nil]
  have hnew : ∀ c ∈ (answer.1.replies q).map Replied.client ++ answer.1.retries.map Retry.client,
      ((RecvAsync.answered w q retries answer).consumedBy c).Perm
        (q.taken ++ takenOut w.responses answer.2) := by
    rw [hanswers.once]
    intro c hc
    rw [mem_singleton.mp hc, consumedBy_answered, if_pos rfl]
    exact htaken.append_right _
  refine ⟨hresponses.accounts, hresponses.nonNull, ?_, hclients.subperm hperm.subperm, ?_, ?_,
    ?_, ?_⟩
  · refine hw.ids.subperm (List.Perm.subperm (perm_iff_count.mpr fun x => ?_))
    have hids := (ids_perm hanswers.within).count_eq x
    show List.count x ((w.consumed ++ (takenOut _ _).map _).map _ ++
      (idsOf answer.2 ++ outstanding w.send.state)) = _
    simp only [map_append, List.map_map, count_append, idsOf] at hids ⊢
    show _ + List.count x ((takenOut _ _).map fun e => e.transId) + _ = _
    omega
  · intro x hx
    rcases mem_append.mp hx with hx | hx
    · have hmem : x.client ∈ w.replies.map Replied.client ++ retries.map Retry.client :=
        mem_append_left _ (List.mem_map_of_mem hx)
      exact (hsame _ hmem) ▸ hw.replied x hx
    · have hmem : x.client ∈ (answer.1.replies q).map Replied.client ++
          answer.1.retries.map Retry.client := mem_append_left _ (List.mem_map_of_mem hx)
      exact (hnew _ hmem).trans (hanswers.replied x hx).symm
  · intro r hr
    rcases mem_append.mp hr with hr | hr
    · have hmem : r.client ∈ w.replies.map Replied.client ++ retries.map Retry.client :=
        mem_append_right _ (List.mem_map_of_mem hr)
      exact (hsame _ hmem) ▸ hw.waits r (hsub r hr)
    · have hmem : r.client ∈ (answer.1.replies q).map Replied.client ++
          answer.1.retries.map Retry.client := mem_append_right _ (List.mem_map_of_mem hr)
      exact (hnew _ hmem).trans (hanswers.waits r hr).symm
  · intro x hx
    refine hperm.mem_iff.mpr ?_
    rcases mem_append.mp hx with hx | hx
    · exact hcallers x.1 (hw.of_caller x hx)
    · obtain ⟨e, -, rfl⟩ := List.mem_map.mp hx
      simp
  · intro r hr
    rcases mem_append.mp hr with hr | hr
    · exact hw.distinct r (hsub r hr)
    · exact hanswers.distinct hdistinct r hr

/-- **The accounts of what requests do.** -/
theorem Received.send {event : ServicesInternal.Event ι Pid χ κ}
    {send : ServicesInternal.World ι Pid χ κ} (hw : Received w)
    (hfresh : ServicesInternal.Fresh w.send event)
    (h : ServicesInternal.next w.send event = some send) : Received { w with send } := by
  have haccounts := hw.accounts.next hfresh h
  obtain ⟨r, hhandle, hsend⟩ := map_eq_some_iff.mp h
  obtain ⟨hhandled, -⟩ := handle_spec hhandle (hw.accounts.newIds hfresh) hw.accounts.index
  subst hsend
  cases handle_stores hhandle with
  | nothing hkeeps =>
    obtain ⟨started, ended, hsub, hmoves, -⟩ := hhandled.moves
    replace hkeeps : r.1.asyncResponses = w.responses := hkeeps
    refine ⟨haccounts, ?_, ?_, hw.clients, hw.replied, hw.waits, hw.of_caller, hw.distinct⟩
    · show NonNull r.1.asyncResponses
      exact hkeeps ▸ hw.nonNull
    · have hissued := Once.step (started.map (·.1)) hw.ids (List.Perm.refl _)
        (hfresh.1.sublist hsub) (fun x hx => hsub.subset hx) hfresh.2.1
      refine hissued.subperm (subperm_ext_iff.mpr fun x _ => ?_)
      have hrequests := (hmoves.requests.map (·.1)).count_eq x
      show List.count x (w.consumed.map _ ++ (idsOf r.1.asyncResponses ++ outstanding r.1)) ≤ _
      rw [hkeeps]
      simp only [map_append, count_append, outstanding] at hrequests ⊢
      omega
  | response transId e x hfind hx hids hremove hput =>
    have hrequests := types_remove hfind hremove
    replace hput : r.1.asyncResponses = Maps.put transId x w.responses := hput
    have hmem : transId ∈ outstanding w.send.state :=
      List.mem_map_of_mem (mem_types_of_find hfind)
    have hnone : Maps.find transId w.responses = none := by
      cases hstored : Maps.find transId w.responses with
      | none => rfl
      | some y =>
        have hnodup := (nodup_append.mp hw.ids.nodup).2.1
        have hids : transId ∈ idsOf w.responses :=
          List.mem_map_of_mem (Maps.mem_toList.mpr hstored)
        exact absurd rfl ((nodup_append.mp hnodup).2.2 transId hids transId hmem)
    refine ⟨haccounts, ?_, ?_, hw.clients, hw.replied, hw.waits, hw.of_caller, hw.distinct⟩
    · intro j y hy
      replace hy : Maps.find j r.1.asyncResponses = some y := hy
      rw [hput, Maps.find_put] at hy
      split at hy
      · cases hy
        exact hx
      · exact hw.nonNull j y hy
    · show Once (event.transIds ++ w.send.transIds) _
      rw [hids]
      refine hw.ids.subperm (List.Perm.subperm (perm_iff_count.mpr fun j => ?_))
      have hcount := (hrequests.map (·.1)).count_eq j
      have hstored := ((Maps.toList_put_perm hnone x).map (·.1)).count_eq j
      show List.count j (w.consumed.map _ ++ (idsOf r.1.asyncResponses ++ outstanding r.1)) = _
      rw [hput]
      simp only [map_cons, count_append, count_cons, outstanding, idsOf]
        at hcount hstored ⊢
      omega

omit [DecidableEq χ] in
/-- What a call has before it is handled. -/
theorem Event.call_spec {timeoutSync : Nat} (h : event.call timeoutSync = some q)
    (hfresh : Fresh w event) : q.client ∉ w.clients ∧ q.taken = [] ∧ q.Distinct := by
  cases event with
  | recvAsync timeout transId consume client =>
    cases h
    exact ⟨hfresh, rfl, trivial⟩
  | recvAsyncs timeout transIdList consume client =>
    cases h
    obtain ⟨hnodup, hnew⟩ := hfresh
    have hnone : found (transIdList.map Entry.null) = [] := by
      rw [found, filter_eq_nil_iff]
      intro e he
      obtain ⟨transId, -, rfl⟩ := List.mem_map.mp he
      simp [Entry.isNull, Entry.null]
    refine ⟨hnew, ?_, ?_⟩
    · show (if consume then found (transIdList.map Entry.null) else []) = []
      rw [hnone, ite_self]
    · show ((transIdList.map Entry.null).map (·.transId)).Nodup
      rw [List.map_map]
      show (transIdList.map fun transId => transId).Nodup
      rwa [List.map_id']
  | _ => cases h

/-- **A step keeps the accounts.** -/
theorem Received.next (hw : Received w) (hfresh : Fresh w event) (h : next ids w event = some w') :
    Received w' := by
  cases next_cases h with
  | send event' send hevent hsend hw' =>
    subst hevent hw'
    exact hw.send hfresh hsend
  | timeout transId hevent hw' =>
    subst hw'
    exact hw.withResponses (Maps.within_remove transId w.responses)
  | retry q l1 l2 answer hevent hretries hhandle hw' =>
    subst hw'
    obtain ⟨answer', hanswer, hanswers⟩ := handleRetry_spec ids hw.nonNull q
    cases hhandle.symm.trans hanswer
    have hmem : q ∈ w.retries := by simp [hretries]
    have hcallers : w.callers.Perm
        (w.replies.map Replied.client ++ q.client :: (l1 ++ l2).map Retry.client) := by
      rw [World.callers, hretries, ← map_cons]
      exact (perm_middle.map _).append_left _
    refine hw.answered hanswers (hw.waits q hmem) (hw.distinct q hmem) (fun r hr => ?_)
      (fun c hc => hcallers.mem_iff.mp hc) (hw.clients.subperm hcallers.symm.subperm)
    rw [hretries]
    exact (sublist_cons_self q l2).append_left l1 |>.subset hr
  | call q answer hcall hhandle hw' =>
    subst hw'
    obtain ⟨answer', hanswer, hanswers⟩ := handleRetry_spec ids hw.nonNull q
    cases hhandle.symm.trans hanswer
    obtain ⟨hnew, htaken, hdistinct⟩ := Event.call_spec hcall hfresh
    have hnothing : w.consumedBy q.client = [] := by
      refine mail_eq_nil fun x hx heq => hnew ?_
      exact heq ▸ hw.clients.of_issued x.1 (hw.of_caller x hx)
    refine hw.answered hanswers ?_ hdistinct (fun _ hr => hr) (fun c hc => ?_) ?_
    · rw [hnothing, htaken]
    · exact mem_append.mp hc |>.elim (mem_append_left _)
        fun hc => mem_append_right _ (mem_cons_of_mem _ hc)
    · have hissued : Once ([q.client] ++ w.clients) _ := Once.step [q.client] hw.clients
        (List.Perm.refl _) (nodup_singleton _) (fun c hc => hc) fun c hc => ?_
      · exact hissued.subperm perm_middle.subperm
      rw [mem_singleton.mp hc]
      exact hnew

/-! ## waiting -/

/-- The event is the retry message of the client. -/
def Event.isRetry (client : χ) : Event ι Pid χ κ → Bool
  | .retry c => c = client
  | _ => false

theorem next_grows (h : next ids w event = some w') :
    (∀ x ∈ w.replies, x ∈ w'.replies) ∧ ∀ x ∈ w.consumed, x ∈ w'.consumed := by
  cases next_cases h with
  | send event' send hevent hsend hw' =>
    subst hw'
    exact ⟨fun _ hx => hx, fun _ hx => hx⟩
  | timeout transId hevent hw' =>
    subst hw'
    exact ⟨fun _ hx => hx, fun _ hx => hx⟩
  | retry q l1 l2 answer hevent hretries hhandle hw' =>
    subst hw'
    exact ⟨fun _ hx => mem_append_left _ hx, fun _ hx => mem_append_left _ hx⟩
  | call q answer hcall hhandle hw' =>
    subst hw'
    exact ⟨fun _ hx => mem_append_left _ hx, fun _ hx => mem_append_left _ hx⟩

theorem steps_grow (h : Steps (RecvAsync.next ids) Fresh w events w') :
    (∀ x ∈ w.replies, x ∈ w'.replies) ∧ ∀ x ∈ w.consumed, x ∈ w'.consumed := by
  refine ⟨fun x hx => ?_, fun x hx => ?_⟩
  · exact h.invariant (I := fun w => x ∈ w.replies)
      (fun _ _ _ hmem _ hstep => (next_grows hstep).1 x hmem) hx
  · exact h.invariant (I := fun w => x ∈ w.consumed)
      (fun _ _ _ hmem _ hstep => (next_grows hstep).2 x hmem) hx

theorem Received.retry_unique (hw : Received w) (hq : q ∈ w.retries) (hr : r ∈ w.retries)
    (hclient : q.client = r.client) : q = r :=
  inj_on_of_nodup_map (nodup_append.mp hw.clients.nodup).2.1 hq hr hclient

theorem Received.not_replied (hw : Received w) (hr : r ∈ w.retries) :
    r.client ∉ w.replies.map Replied.client :=
  fun hmem => (nodup_append.mp hw.clients.nodup).2.2 _ hmem _ (List.mem_map_of_mem hr) rfl

omit [DecidableEq χ] in
theorem replied_iff (hnot : q.client ∉ w.replies.map Replied.client)
    (retries : List (Retry ι χ)) (answer : Answer ι χ × Responses ι) :
    q.client ∈ (answered w q retries answer).replies.map Replied.client ↔
      ∃ reply, answer.1 = .reply reply := by
  show q.client ∈ (w.replies ++ answer.1.replies q).map Replied.client ↔ _
  rw [map_append, mem_append, or_iff_right hnot]
  obtain ⟨answer, rs⟩ := answer
  cases answer with
  | _ => simp [Answer.replies]

/-- A retry message that is under way can be handled. -/
theorem Received.retry_enabled (hw : Received w) (hr : r ∈ w.retries) :
    (RecvAsync.next ids w (.retry r.client)).isSome := by
  have hfind : (w.retries.find? fun q => q.client = r.client).isSome := by
    rw [find?_isSome]
    exact ⟨r, hr, by simp⟩
  obtain ⟨q, hq⟩ := isSome_iff_exists.mp hfind
  obtain ⟨answer, hanswer, -⟩ := handleRetry_spec ids hw.nonNull q
  have htake : takeFirst (fun q => q.client = r.client) w.retries =
      some (q, w.retries.eraseP fun q => q.client = r.client) := by
    rw [takeFirst, hq]
    rfl
  show ((takeFirst _ w.retries).bind _).isSome
  rw [htake, bind_some]
  show ((handleRetry ids w.responses q).map _).isSome
  rw [hanswer]
  rfl

/-- **A step of a call that waits**: it is replied to, or it waits on with an interval less when
its retry message was handled. -/
theorem Received.wait_next (hw : Received w) (h : RecvAsync.next ids w event = some w')
    (hr : r ∈ w.retries) :
    r.client ∈ w'.replies.map Replied.client ∨ ∃ r' ∈ w'.retries, r'.client = r.client ∧
      r'.timeout + recvAsyncInterval * (if event.isRetry r.client then 1 else 0) = r.timeout := by
  cases next_cases h with
  | send event' send hevent hsend hw' =>
    subst hevent hw'
    exact .inr ⟨r, hr, rfl, by simp [Event.isRetry]⟩
  | timeout transId hevent hw' =>
    subst hevent hw'
    exact .inr ⟨r, hr, rfl, by simp [Event.isRetry]⟩
  | retry q l1 l2 answer hevent hretries hhandle hw' =>
    subst hevent hw'
    obtain ⟨answer', hanswer, hanswers⟩ := handleRetry_spec ids hw.nonNull q
    cases hhandle.symm.trans hanswer
    have hmem : q ∈ w.retries := by simp [hretries]
    by_cases hclient : q.client = r.client
    · obtain rfl := hw.retry_unique hmem hr hclient
      have hcaller : q.client ∈ (answer.1.replies q).map Replied.client ++
          answer.1.retries.map Retry.client := by
        rw [hanswers.once]
        exact mem_singleton_self _
      rcases mem_append.mp hcaller with hcaller | hcaller
      · left
        show q.client ∈ (w.replies ++ _).map _
        rw [map_append]
        exact mem_append_right _ hcaller
      · obtain ⟨r', hr', hsame⟩ := List.mem_map.mp hcaller
        refine .inr ⟨r', mem_append_right _ hr', hsame, ?_⟩
        have hlater := hanswers.later r' hr'
        simpa [Event.isRetry] using hlater
    · rw [hretries] at hr
      have hstays : r ∈ l1 ++ l2 := by
        have hne : r ≠ q := fun heq => hclient (heq ▸ rfl)
        simpa [hne] using hr
      exact .inr ⟨r, mem_append_left _ hstays, rfl, by simp [Event.isRetry, hclient]⟩
  | call q answer hcall hhandle hw' =>
    subst hw'
    have hother : event.isRetry r.client = false := by
      cases event with
      | retry client => cases hcall
      | _ => rfl
    exact .inr ⟨r, mem_append_left _ hr, rfl, by simp [hother]⟩

/-- **A run of a call that waits**: it is replied to, or it waits on with an interval less for
each of its retry messages. -/
theorem Received.wait_steps (h : Steps (RecvAsync.next ids) Fresh w events w') (hw : Received w)
    (hr : r ∈ w.retries) :
    r.client ∈ w'.replies.map Replied.client ∨ ∃ r' ∈ w'.retries, r'.client = r.client ∧
      r'.timeout + recvAsyncInterval * events.countP (Event.isRetry r.client) = r.timeout := by
  induction h generalizing r with
  | nil w => exact .inr ⟨r, hr, rfl, by simp⟩
  | cons hgood hstep hrest ih =>
    rcases hw.wait_next hstep hr with hreplied | ⟨r1, hr1, hclient1, htime1⟩
    · obtain ⟨x, hx, hxr⟩ := List.mem_map.mp hreplied
      exact .inl (List.mem_map.mpr ⟨x, (steps_grow hrest).1 x hx, hxr⟩)
    · have hrest := ih (hw.next hgood hstep) hr1
      rw [hclient1] at hrest
      refine hrest.imp id fun ⟨r2, hr2, hclient2, htime2⟩ => ⟨r2, hr2, hclient2, ?_⟩
      rw [countP_cons, Nat.mul_add]
      omega

/-! ## without loss -/

theorem Received.reply_of_consumed (hw : Received w) (hx : x ∈ w.consumed) (hy : y ∈ w.replies)
    (he : e ∈ y.taken) (hid : e.transId = x.2.transId) : y.client = x.1 := by
  have hconsumed : (y.client, e) ∈ w.consumed := mem_mail.mp ((hw.replied y hy).mem_iff.mpr he)
  have hnodup := (nodup_append.mp hw.ids.nodup).1
  exact congrArg Prod.fst (inj_on_of_nodup_map hnodup hconsumed hx hid)

theorem Received.wait_reply (h : Steps (RecvAsync.next ids) Fresh w events w') (hw : Received w)
    (hr : r ∈ w.retries) :
    (∃ x ∈ w'.replies, x.client = r.client ∧ ∀ e ∈ w.consumedBy r.client, e ∈ x.reply.found) ∨
    ∃ r' ∈ w'.retries, r'.client = r.client ∧
      r'.timeout + recvAsyncInterval * events.countP (Event.isRetry r.client) = r.timeout := by
  have hw' : Received w' := h.invariant (fun _ _ _ hs hgood hstep => hs.next hgood hstep) hw
  refine (hw.wait_steps h hr).imp_left fun hreplied => ?_
  obtain ⟨x, hx, hclient⟩ := List.mem_map.mp hreplied
  refine ⟨x, hx, hclient, fun e he => ?_⟩
  have hconsumed : e ∈ w'.consumedBy x.client := by
    rw [hclient]
    exact mem_mail.mpr ((steps_grow h).2 _ (mem_mail.mp he))
  have htaken : e ∈ x.taken := (hw'.replied x hx).mem_iff.mp hconsumed
  rw [Replied.taken] at htaken
  split at htaken
  · exact htaken
  · cases htaken

/-- A new call of `recv_asyncs` asks for every id. -/
theorem allFound_null : AllFound (transIdList.map Entry.null) rs ↔
      ∀ transId ∈ transIdList, (Maps.find transId rs).isSome := by
  simp [AllFound, Entry.null, Entry.isNull]

/-- **When a call of `recv_asyncs` is replied to at once.** -/
theorem recvAsyncs_next (hw : Received w)
    (hfresh : Fresh w (.recvAsyncs timeout transIdList consume client))
    (h : RecvAsync.next ids w (.recvAsyncs timeout transIdList consume client) = some w') :
    client ∈ w'.replies.map Replied.client ↔
      (∀ transId ∈ transIdList, (Maps.find transId w.responses).isSome) ∨
        timeout.getD w.send.state.timeoutSync < recvAsyncInterval := by
  have hnot : client ∉ w.replies.map Replied.client := fun hmem =>
    hfresh.2 (hw.clients.of_issued client (mem_append_left _ hmem))
  cases h
  have hcall : (Event.recvAsyncs timeout transIdList consume client :
      Event ι Pid χ κ).call w.send.state.timeoutSync = some _ := rfl
  have hdistinct := (Event.call_spec hcall hfresh).2.2
  rw [← allFound_null]
  exact (replied_iff hnot w.retries _).trans (recvAsyncs_replies_iff hdistinct)

/-- **When a retry of `recv_asyncs` is replied to.** -/
theorem recvAsyncs_retry (hw : Received w)
    (hr : .recvAsyncs timeout results consume client ∈ w.retries)
    (h : RecvAsync.next ids w (.retry client) = some w') : client ∈ w'.replies.map Replied.client ↔
      AllFound results w.responses ∨ timeout < recvAsyncInterval := by
  cases next_cases h with
  | send event' send hevent hsend hw' => cases hevent
  | timeout transId hevent hw' => cases hevent
  | call q answer hcall hhandle hw' => cases hcall
  | retry q l1 l2 answer hevent hretries hhandle hw' =>
    have hclient : q.client = client := by simpa using hevent.symm
    obtain rfl := hw.retry_unique (by simp [hretries]) hr hclient
    cases hhandle
    subst hw'
    exact (replied_iff (hw.not_replied hr) (l1 ++ l2) _).trans
      (recvAsyncs_replies_iff (hw.distinct _ hr))

/-- **Responses are received without loss**: in every run a call is replied to at most once and
has consumed what its reply gives, nothing with a timeout.  A call that consumed a response was
replied to or waits, and no other call that consumes is replied it.  A call that waits can be
handled, and until it is replied to each of its retry messages has an interval less.  A
`recv_asyncs` is replied to when all its ids are found or less than an interval is left. -/
theorem received_without_loss {events : List (Event ι Pid χ κ)}
    (h : Steps (RecvAsync.next ids) Fresh
      (World.init timeoutAsync timeoutSync receiverPid options) events w) :
    (w.replies.map Replied.client).Nodup ∧
    (∀ x ∈ w.replies, (w.consumedBy x.client).Perm (if x.consume then x.reply.found else [])) ∧
    (∀ x ∈ w.replies, x.reply = .timeout → w.consumedBy x.client = []) ∧
    (∀ x ∈ w.consumed, x.1 ∈ w.callers ∧ ∀ y ∈ w.replies, y.consume = true →
      ∀ e ∈ y.reply.found, e.transId = x.2.transId → y.client = x.1) ∧
    (∀ r ∈ w.retries, (RecvAsync.next ids w (.retry r.client)).isSome ∧
      ∀ events' w', Steps (RecvAsync.next ids) Fresh w events' w' →
        (∃ x ∈ w'.replies, x.client = r.client ∧ ∀ e ∈ w.consumedBy r.client, e ∈ x.reply.found) ∨
        ∃ r' ∈ w'.retries, r'.client = r.client ∧
          r'.timeout + recvAsyncInterval * events'.countP (Event.isRetry r.client) = r.timeout) ∧
    (∀ timeout transIdList consume client w',
      Fresh w (.recvAsyncs timeout transIdList consume client) →
      RecvAsync.next ids w (.recvAsyncs timeout transIdList consume client) = some w' →
      (client ∈ w'.replies.map Replied.client ↔
        (∀ transId ∈ transIdList, (Maps.find transId w.responses).isSome) ∨
          timeout.getD w.send.state.timeoutSync < recvAsyncInterval)) ∧
    ∀ timeout results consume client w', .recvAsyncs timeout results consume client ∈ w.retries →
      RecvAsync.next ids w (.retry client) = some w' →
      (client ∈ w'.replies.map Replied.client ↔
        AllFound results w.responses ∨ timeout < recvAsyncInterval) := by
  have hw : Received w := h.invariant (fun _ _ _ hs hgood hstep => hs.next hgood hstep)
    (received_init timeoutAsync timeoutSync receiverPid options)
  refine ⟨(nodup_append.mp hw.clients.nodup).1, hw.replied, fun x hx htimeout => ?_,
    fun x hx => ⟨hw.of_caller x hx, fun y hy hconsume e he hid => ?_⟩, fun r hr => ?_,
    fun timeout transIdList consume client w' hfresh hnext => recvAsyncs_next hw hfresh hnext,
    fun timeout results consume client w' hr hnext => recvAsyncs_retry hw hr hnext⟩
  · have hreplied := hw.replied x hx
    rw [Replied.taken, htimeout, Reply.found, ite_self] at hreplied
    exact hreplied.eq_nil
  · refine hw.reply_of_consumed hx hy (e := e) ?_ hid
    rwa [Replied.taken, if_pos hconsume]
  · exact ⟨hw.retry_enabled hr, fun events' w' h' => hw.wait_reply h' hr⟩

/-- Ids that are numbers, which are their times. -/
def numberIds : TransIds Nat := ⟨0, fun transId => transId⟩

/-- A dispatcher with numbers for clients. -/
def receiver : World Nat Nat Nat Unit := World.init 5000 5000 0 ⟨0, true, .sync⟩

/-- Two requests, one of which has its response when both are asked for; another client asks for
that one before the other response is there. -/
def twoCalls : List (Event Nat Nat Nat Unit) :=
  [.send (.callPid .async () none 1 5 1), .send (.callPid .async () none 2 5 2),
    .send (.returnAsync ⟨(), [], [1], 5000, 1, 0⟩ fun _ => some 4000),
    .recvAsyncs (some 1200) [1, 2] true 7, .recvAsync (some 100) 1 true 8,
    .send (.returnAsync ⟨(), [9], [2], 5000, 2, 0⟩ fun _ => some 4000), .retry 7]

theorem received_without_loss_twoCalls :
    ∃ w, run (RecvAsync.next numberIds) receiver twoCalls = some w ∧
      w.replies.map Replied.client = [8, 7] ∧
      (w.consumedBy 7).Perm [⟨[], [1], 1⟩, ⟨[9], [2], 2⟩] ∧ w.consumedBy 8 = [] := by
  have hsteps : ∃ w, Steps (RecvAsync.next numberIds) Fresh receiver twoCalls w ∧
      w.replies = [⟨8, true, .timeout⟩, ⟨7, true, .oks [⟨[], [1], 1⟩, ⟨[9], [2], 2⟩]⟩] := by
    refine ⟨_, .cons ⟨by decide, by decide, by decide⟩ rfl <|
      .cons ⟨by decide, by decide, by decide⟩ rfl <|
      .cons ⟨by decide, by decide, by decide⟩ rfl <|
      .cons ⟨by decide, by decide⟩ rfl <| .cons (show 8 ∉ [7] by decide) rfl <|
      .cons ⟨by decide, by decide, by decide⟩ rfl <| .cons trivial rfl <| .nil _, rfl⟩
  obtain ⟨w, hsteps, hreplies⟩ := hsteps
  obtain ⟨-, hreplied, htimeout, -⟩ := received_without_loss hsteps
  have htwo := hreplied ⟨7, true, .oks [⟨[], [1], 1⟩, ⟨[9], [2], 2⟩]⟩ (by simp [hreplies])
  have hnone := htimeout ⟨8, true, .timeout⟩ (by simp [hreplies]) rfl
  exact ⟨w, hsteps.run_eq, by rw [hreplies]; rfl, htwo, hnone⟩

/-- A response that one client looks at before another client consumes it. -/
def looksAndTakes : List (Event Nat Nat Nat Unit) :=
  [.send (.callPid .async () none 1 5 1),
    .send (.returnAsync ⟨(), [], [1], 5000, 1, 0⟩ fun _ => some 4000),
    .recvAsync none 1 false 7, .recvAsync none 1 true 8]

/-- A call that does not consume is replied what another call consumes, and a `recv_asyncs`
with less than an interval is replied to before its id is found. -/
theorem not_received_by_one :
    (¬ ∀ events w, Steps (RecvAsync.next numberIds) Fresh receiver events w →
      ∀ x ∈ w.consumed, ∀ y ∈ w.replies, x.2 ∈ y.reply.found → y.client = x.1) ∧
    ¬ ∀ events w, Steps (RecvAsync.next numberIds) Fresh receiver events w →
      ∀ timeout transIdList consume client w',
        Fresh w (.recvAsyncs timeout transIdList consume client) →
        RecvAsync.next numberIds w (.recvAsyncs timeout transIdList consume client) = some w' →
        (client ∈ w'.replies.map Replied.client ↔
          ∀ transId ∈ transIdList, (Maps.find transId w.responses).isSome) := by
  constructor
  · intro hclaim
    have hsteps : ∃ w, Steps (RecvAsync.next numberIds) Fresh receiver looksAndTakes w ∧
        w.replies = [⟨7, false, .ok ⟨[], [1], 1⟩⟩, ⟨8, true, .ok ⟨[], [1], 1⟩⟩] ∧
        w.consumed = [(8, ⟨[], [1], 1⟩)] := by
      refine ⟨_, .cons ⟨by decide, by decide, by decide⟩ rfl <|
        .cons ⟨by decide, by decide, by decide⟩ rfl <| .cons (show 7 ∉ [] by decide) rfl <|
        .cons (show 8 ∉ [7] by decide) rfl <| .nil _, rfl, rfl⟩
    obtain ⟨w, hsteps, hreplies, hconsumed⟩ := hsteps
    have hsame := hclaim _ w hsteps (8, ⟨[], [1], 1⟩) (by simp [hconsumed])
      ⟨7, false, .ok ⟨[], [1], 1⟩⟩ (by simp [hreplies]) (mem_singleton_self _)
    exact absurd hsame (by decide)
  · intro hclaim
    have hall := (hclaim [] receiver (.nil _) (some 499) [1] true 7 _ ⟨by decide, by decide⟩ rfl).mp
      (by decide)
    exact absurd (hall 1 (by decide)) (by decide)

end CloudI.ServicesInternal.RecvAsync
