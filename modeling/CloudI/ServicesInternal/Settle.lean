import CloudI.ServicesInternal.SendTimeouts

/-!
# ServicesInternal.Settle

The accounts of every handled message: the requests it starts, the requests it ends, and the
clients that it replies to.
-/

namespace CloudI.ServicesInternal

open Flight CloudI.Lists List

variable {ι Pid χ κ : Type} [LinearOrder ι] [LinearOrder Pid]

/-! ## returns and timeouts -/

variable {outs outs' : List (Output ι Pid χ κ)} {s s' : State ι Pid χ}
  {e : SendTimeout Pid χ} {r result : Result ι Pid χ κ}
  {monitoring : List (Pid × Reference)} {client : χ} {dests : List (Pid × ι)}
  {lookup : Lookup ι Pid}

/-- The end of a request, with its outcome sent before. -/
theorem moves_end (hfind : Maps.find transId s.sendTimeouts = some e)
    (hs' : s'.sendTimeouts = s.sendTimeouts)
    (hactive : outs.filterMap Output.activeOutcome? = [(transId, e.type)].filterMap activeId)
    (hreplied : outs.filterMap Output.replied? = [(transId, e.type)].filterMap clientOf)
    (hretries : retryClients outs = []) :
    Moves s (before outs (sendTimeoutEnd transId e.pid s')) [] [(transId, e.type)] [] := by
  obtain ⟨hremove, hquiet⟩ := sendTimeoutEnd_spec κ transId e.pid s' rfl
  rw [hs'] at hremove
  refine ⟨types_remove hfind hremove, ?_, ?_⟩
  · show (outs ++ _).filterMap _ = _
    rw [filterMap_append, hquiet.active, append_nil, hactive]
  · show ((outs ++ _).filterMap _ ++ retryClients (outs ++ _) ++ _).Perm _
    rw [filterMap_append, retryClients_append, hquiet.replied, hquiet.retries, hreplied,
      hretries]
    simp

/-- The requests that a message about one request ends. -/
def endedOf (s : State ι Pid χ) (transId : ι) : List (ι × SendType χ) :=
  ((Maps.find transId s.sendTimeouts).map fun e => (transId, e.type)).toList

theorem endedOf_none (h : Maps.find transId s.sendTimeouts = none) : endedOf s transId = [] := by
  rw [endedOf, h]
  rfl

theorem endedOf_some (h : Maps.find transId s.sendTimeouts = some e) :
    endedOf s transId = [(transId, e.type)] := by
  rw [endedOf, h]
  rfl

theorem moves_nothing (s : State ι Pid χ) : Moves s ((s, []) : Result ι Pid χ κ) [] [] [] :=
  ⟨List.Perm.refl _, rfl, List.Perm.refl _⟩

/-- Outputs that leave the monitors as they are. -/
def KeepsMonitors (outs : List (Output ι Pid χ κ)) : Prop :=
  ∀ monitoring, outs.foldl monitorsAfter monitoring = monitoring

omit [LinearOrder ι] [LinearOrder Pid] in
theorem KeepsMonitors.append (h : KeepsMonitors outs) (h' : KeepsMonitors outs') :
    KeepsMonitors (outs ++ outs') := by
  intro monitoring
  rw [foldl_append, h, h']

/-- **What a message about one request does**: nothing when the request is unknown; else the
request ends, and before that the outputs with its outcome are made. -/
inductive Ends (s : State ι Pid χ) (transId : ι)
    (r : Result ι Pid χ κ) : Prop
  | unknown (hfind : Maps.find transId s.sendTimeouts = none) (hr : r = (s, []))
  | known (e : SendTimeout Pid χ) (outs : List (Output ι Pid χ κ))
      (s' : State ι Pid χ) (hfind : Maps.find transId s.sendTimeouts = some e)
      (hs' : s' = { s with asyncResponses := s'.asyncResponses })
      (hr : r = before outs (sendTimeoutEnd transId e.pid s'))
      (hactive : outs.filterMap Output.activeOutcome? = [(transId, e.type)].filterMap activeId)
      (hreplied : outs.filterMap Output.replied? = [(transId, e.type)].filterMap clientOf)
      (hretries : retryClients outs = []) (hmonitors : KeepsMonitors outs)

theorem Ends.moves (h : Ends s transId r) : Moves s r [] (endedOf s transId) [] := by
  cases h with
  | unknown hfind hr =>
    rw [endedOf_none hfind, hr]
    exact moves_nothing s
  | known e outs s' hfind hs' hr hactive hreplied hretries hmonitors =>
    rw [endedOf_some hfind, hr]
    exact moves_end hfind (by rw [hs']) hactive hreplied hretries

theorem Ends.monitorsExact (h : Ends s transId r) (hs : MonitorsExact s) : MonitorsExact r.1 := by
  cases h with
  | unknown hfind hr => rwa [hr]
  | known e outs s' hfind hs' hr hactive hreplied hretries hmonitors =>
    rw [hr]
    refine monitorsExact_sendTimeoutEnd (s := s') ?_ (by rw [hs', hfind])
    rw [hs']
    exact hs

theorem cancelOutput_spec (tref : Reference) (r : Return ι Pid κ)
    (s : State ι Pid χ) : Quiet (cancelOutput tref r s) ∧
      KeepsMonitors (cancelOutput tref r s) := by
  rw [cancelOutput]
  by_cases h : cancels r s
  · rw [if_pos h]
    exact ⟨⟨rfl, rfl, rfl⟩, fun _ => rfl⟩
  · rw [if_neg h]
    exact ⟨quiet_nil, fun _ => rfl⟩

variable (κ) in
theorem asyncResponseTimeoutStart_spec (responseInfo response : Binary) (timeout : Nat)
    (transId : ι) (s : State ι Pid χ)
    (hr : asyncResponseTimeoutStart responseInfo response timeout transId s = r) :
    r.1 = { s with asyncResponses := r.1.asyncResponses } ∧ Quiet r.2 ∧ KeepsMonitors r.2 := by
  subst hr
  rw [asyncResponseTimeoutStart]
  by_cases h : timeout = 0
  · rw [if_pos h]
    exact ⟨rfl, quiet_nil, fun _ => rfl⟩
  · rw [if_neg h]
    exact ⟨rfl, ⟨rfl, rfl, rfl⟩, fun _ => rfl⟩

theorem Ends.of_quiet (hfind : Maps.find transId s.sendTimeouts = some e)
    (hs' : s' = { s with asyncResponses := s'.asyncResponses }) (hquiet : Quiet outs)
    (hkeeps : KeepsMonitors outs) (hkeeps' : KeepsMonitors outs')
    (hactive : outs'.filterMap Output.activeOutcome? = [(transId, e.type)].filterMap activeId)
    (hreplied : outs'.filterMap Output.replied? = [(transId, e.type)].filterMap clientOf)
    (hretries : retryClients outs' = []) :
    Ends s transId (before (outs ++ outs') (sendTimeoutEnd transId e.pid s')) := by
  refine .known e _ s' hfind hs' rfl ?_ ?_ ?_ (hkeeps.append hkeeps')
  · rw [filterMap_append, hquiet.active, hactive, nil_append]
  · rw [filterMap_append, hquiet.replied, hreplied, nil_append]
  · rw [retryClients_append, hquiet.retries, hretries]
    rfl

theorem ends_handleReturnAsync {r : Return ι Pid κ}
    (h : handleReturnAsync cancel r s = some result) : Ends s r.transId result := by
  rw [handleReturnAsync] at h
  by_cases hsource : r.source ≠ s.receiverPid
  · rw [if_pos hsource] at h
    cases h
  rw [if_neg hsource] at h
  cases hfind : Maps.find r.transId s.sendTimeouts with
  | none =>
    rw [hfind] at h
    cases h
    exact .unknown hfind rfl
  | some e =>
    obtain ⟨type, pid, tref⟩ := e
    obtain ⟨hquiet, hkeeps⟩ := cancelOutput_spec tref r s
    rw [hfind] at h
    cases type with
    | client c => cases h
    | active =>
      cases h
      refine .of_quiet hfind rfl hquiet hkeeps ?_ ?_ ?_ ?_
      all_goals by_cases hnull : r.isNull
      all_goals simp only [hnull, if_true, Bool.false_eq_true, if_false]
      all_goals first | rfl | exact fun _ => rfl
    | passive =>
      by_cases hnull : r.isNull
      · simp only [hnull, if_true] at h
        cases h
        have hend : Ends s r.transId (before (cancelOutput tref r s ++ [])
            (sendTimeoutEnd r.transId pid s)) :=
          .of_quiet hfind rfl hquiet hkeeps (fun _ => rfl) rfl rfl rfl
        rwa [append_nil] at hend
      · simp only [hnull, Bool.false_eq_true, if_false] at h
        cases h
        obtain ⟨hs', hquiet', hkeeps'⟩ := asyncResponseTimeoutStart_spec κ
          r.responseInfo r.response (returnTimeout cancel tref r s) r.transId s rfl
        exact .of_quiet hfind hs' hquiet hkeeps hkeeps' hquiet'.active hquiet'.replied
          hquiet'.retries

theorem handleReturnSync_cases {r : Return ι Pid κ} (h : handleReturnSync r s = some result) :
    Maps.find r.transId s.sendTimeouts = none ∧ result = (s, []) ∨
      ∃ client pid tref, Maps.find r.transId s.sendTimeouts = some ⟨.client client, pid, tref⟩ ∧
        result = before (cancelOutput tref r s ++ [.reply client r.reply])
          (sendTimeoutEnd r.transId pid s) := by
  unfold handleReturnSync at h
  split at h
  · cases h
  · split at h <;> simp_all

theorem ends_handleReturnSync {r : Return ι Pid κ}
    (h : handleReturnSync r s = some result) : Ends s r.transId result := by
  obtain ⟨hfind, rfl⟩ | ⟨client, pid, tref, hfind, rfl⟩ := handleReturnSync_cases h
  · exact .unknown hfind rfl
  · obtain ⟨hquiet, hkeeps⟩ := cancelOutput_spec tref r s
    exact .of_quiet hfind rfl hquiet hkeeps (fun _ => rfl) rfl rfl rfl

theorem handleSendAsyncTimeout_cases (h : handleSendAsyncTimeout transId s = some result) :
    Maps.find transId s.sendTimeouts = none ∧ result = (s, []) ∨
      (∃ pid tref, Maps.find transId s.sendTimeouts = some ⟨.active, pid, tref⟩ ∧
        result = before [.timeoutAsyncActive transId] (sendTimeoutEnd transId pid s)) ∨
      ∃ pid tref, Maps.find transId s.sendTimeouts = some ⟨.passive, pid, tref⟩ ∧
        result = sendTimeoutEnd transId pid s := by
  unfold handleSendAsyncTimeout at h
  split at h <;> simp_all

theorem ends_handleSendAsyncTimeout (h : handleSendAsyncTimeout transId s = some result) :
    Ends s transId result := by
  obtain ⟨hfind, rfl⟩ | ⟨pid, tref, hfind, rfl⟩ | ⟨pid, tref, hfind, rfl⟩ :=
    handleSendAsyncTimeout_cases h
  · exact .unknown hfind rfl
  · exact .known _ _ s hfind rfl rfl rfl rfl rfl fun _ => rfl
  · exact .known _ [] s hfind rfl rfl rfl rfl rfl fun _ => rfl

theorem handleSendSyncTimeout_cases (h : handleSendSyncTimeout transId s = some result) :
    Maps.find transId s.sendTimeouts = none ∧ result = (s, []) ∨
      ∃ client pid tref, Maps.find transId s.sendTimeouts = some ⟨.client client, pid, tref⟩ ∧
        result = before [.reply client .timeout] (sendTimeoutEnd transId pid s) := by
  unfold handleSendSyncTimeout at h
  split at h <;> simp_all

theorem ends_handleSendSyncTimeout (h : handleSendSyncTimeout transId s = some result) :
    Ends s transId result := by
  obtain ⟨hfind, rfl⟩ | ⟨client, pid, tref, hfind, rfl⟩ := handleSendSyncTimeout_cases h
  · exact .unknown hfind rfl
  · exact .known _ _ s hfind rfl rfl rfl rfl rfl fun _ => rfl

/-! ## the monitors in place -/

/-- **The monitors in place** are those of the index, with references of their own. -/
structure MonitoringExact (s : State ι Pid χ) (monitoring : List (Pid × Reference)) :
    Prop where
  exact : ∀ pid ref, (pid, ref) ∈ monitoring ↔
    ∃ ids, Maps.find pid s.sendTimeoutMonitors = some (ref, ids)
  below : ∀ x ∈ monitoring, x.2 < s.nextReference
  distinct : ∀ x ∈ monitoring, ∀ y ∈ monitoring, x.2 = y.2 → x = y

/-- The index is exact, and so are the monitors in place. -/
structure Index (s : State ι Pid χ) (monitoring : List (Pid × Reference)) : Prop where
  index : MonitorsExact s
  monitoring : MonitoringExact s monitoring

theorem monitoringExact_timeoutStart (h : MonitoringExact s monitoring) (type : SendType χ)
    (timeout : Nat) (transId : ι) (pid : Pid) (hr : timeoutStart type timeout transId pid s = r) :
    MonitoringExact r.1 (r.2.foldl monitorsAfter monitoring) := by
  subst hr
  rw [timeoutStart]
  by_cases himm : s.options.requestTimeoutImmediateMax ≤ timeout
  · rw [if_pos himm]
    cases hfind : Maps.find pid s.sendTimeoutMonitors with
    | some x =>
      obtain ⟨ref, ids⟩ := x
      refine ⟨fun p ref' => ?_, fun x hx => Nat.lt_succ_of_lt (h.below x hx), h.distinct⟩
      refine (h.exact p ref').trans ?_
      show _ ↔ ∃ ids', Maps.find p (Maps.put pid _ _) = _
      rw [Maps.find_put]
      by_cases hp : pid = p
      · subst hp
        rw [if_pos rfl, hfind]
        simp
      · rw [if_neg hp]
    | none =>
      have hold : ∀ x ∈ monitoring, x.2 ≠ s.nextReference := fun x hx =>
        Nat.ne_of_lt (h.below x hx)
      refine ⟨fun p ref' => ?_, fun x hx => ?_, ?_⟩
      · show (p, ref') ∈ (pid, s.nextReference) :: monitoring ↔
          ∃ ids', Maps.find p (Maps.put pid _ _) = _
        rw [mem_cons, h.exact, Maps.find_put]
        by_cases hp : pid = p
        · subst hp
          simp [hfind, eq_comm]
        · simp [hp, Ne.symm hp]
      · show x.2 < s.nextReference + 2
        rcases mem_cons.mp hx with rfl | hx
        · exact Nat.lt_add_of_pos_right Nat.two_pos
        · exact Nat.lt_add_right 2 (h.below x hx)
      · intro x hx y hy hxy
        rcases mem_cons.mp hx with rfl | hx <;> rcases mem_cons.mp hy with rfl | hy
        · rfl
        · exact absurd hxy.symm (hold y hy)
        · exact absurd hxy (hold x hx)
        · exact h.distinct x hx y hy hxy
  · rw [if_neg himm]
    exact ⟨h.exact, fun x hx => Nat.lt_succ_of_lt (h.below x hx), h.distinct⟩

theorem monitoringExact_sendTimeoutEnd (h : MonitoringExact s monitoring) (transId : ι)
    (pid : Option Pid) (hr : sendTimeoutEnd transId pid s = r) :
    MonitoringExact r.1 (r.2.foldl monitorsAfter monitoring) := by
  subst hr
  unfold sendTimeoutEnd
  cases pid with
  | none => exact ⟨h.exact, h.below, h.distinct⟩
  | some pid =>
    cases hmon : Maps.find pid s.sendTimeoutMonitors with
    | none =>
      simp only [hmon]
      exact ⟨h.exact, h.below, h.distinct⟩
    | some x =>
      obtain ⟨ref, ids⟩ := x
      have hmem : (pid, ref) ∈ monitoring := (h.exact pid ref).mpr ⟨ids, hmon⟩
      by_cases hids : ids = [transId]
      · simp only [hmon, if_pos hids]
        refine ⟨fun p ref' => ?_, fun x hx => h.below x (mem_filter.mp hx).1,
          fun x hx y hy => h.distinct x (mem_filter.mp hx).1 y (mem_filter.mp hy).1⟩
        show (p, ref') ∈ monitoring.filter (·.2 ≠ ref) ↔ ∃ ids', Maps.find p (Maps.remove pid _) = _
        rw [mem_filter, Maps.find_remove, h.exact]
        by_cases hp : pid = p
        · subst hp
          simpa [hmon] using Eq.symm
        · simp only [if_neg hp, decide_eq_true_eq, and_iff_left_iff_imp]
          rintro hfind rfl
          have hmem' := (h.exact p ref').mpr hfind
          exact hp (congrArg Prod.fst (h.distinct _ hmem _ hmem' rfl))
      · simp only [hmon, if_neg hids]
        refine ⟨fun p ref' => (h.exact p ref').trans ?_, h.below, h.distinct⟩
        show _ ↔ ∃ ids', Maps.find p (Maps.put pid _ _) = _
        rw [Maps.find_put]
        by_cases hp : pid = p
        · subst hp
          rw [if_pos rfl, hmon]
          simp
        · rw [if_neg hp]

omit [LinearOrder Pid] in
/-- The outputs for a dead destination are about timers. -/
theorem keepsMonitors_sendTimeoutDeadEach (cancel : Reference → Option Nat) (ids : List ι)
    (d : ErlMap ι (SendTimeout Pid χ) × List (Output ι Pid χ κ))
    (hd : KeepsMonitors d.2) : KeepsMonitors (ids.foldl (sendTimeoutDeadEach cancel) d).2 := by
  induction ids generalizing d with
  | nil => exact hd
  | cons id ids ih =>
    rw [foldl_cons]
    refine ih _ ?_
    rw [sendTimeoutDeadEach]
    cases Maps.find id d.1 with
    | none => exact hd
    | some e =>
      obtain ⟨type, pid, tref⟩ := e
      refine hd.append ?_
      by_cases hcancel : (cancel tref).isSome
      · rw [if_pos hcancel]
        exact fun _ => rfl
      · rw [if_neg hcancel]
        exact fun _ => rfl

theorem monitoringExact_handleDown (h : MonitoringExact s monitoring)
    (cancel : Reference → Option Nat) (pid : Pid) (hr : handleDown cancel pid s = r) :
    MonitoringExact r.1 (r.2.foldl monitorsAfter (monitoring.filter (·.1 ≠ pid))) := by
  subst hr
  have hleft : ∀ x ∈ monitoring.filter (·.1 ≠ pid), x ∈ monitoring := fun x hx =>
    (mem_filter.mp hx).1
  unfold handleDown sendTimeoutDead
  cases hmon : Maps.find pid s.sendTimeoutMonitors with
  | none =>
    refine ⟨fun p ref => ?_, fun x hx => h.below x (hleft x hx), fun x hx y hy =>
      h.distinct x (hleft x hx) y (hleft y hy)⟩
    show (p, ref) ∈ monitoring.filter (·.1 ≠ pid) ↔ ∃ ids, Maps.find p _ = _
    rw [mem_filter, h.exact]
    simp only [decide_eq_true_eq, and_iff_left_iff_imp]
    rintro ⟨ids, hids⟩ rfl
    rw [hmon] at hids
    cases hids
  | some x =>
    obtain ⟨ref, ids⟩ := x
    have hkeeps := keepsMonitors_sendTimeoutDeadEach cancel ids
      (s.sendTimeouts, ([] : List (Output ι Pid χ κ))) (fun _ => rfl)
    show MonitoringExact _ (List.foldl monitorsAfter _
      (ids.foldl (sendTimeoutDeadEach cancel) (s.sendTimeouts, [])).2)
    rw [hkeeps]
    refine ⟨fun p ref' => ?_, fun x hx => h.below x (hleft x hx), fun x hx y hy =>
      h.distinct x (hleft x hx) y (hleft y hy)⟩
    show _ ↔ ∃ ids', Maps.find p (Maps.remove pid _) = _
    rw [mem_filter, h.exact, Maps.find_remove]
    by_cases hp : pid = p
    · simp [hp]
    · simp [hp, Ne.symm hp]

theorem Ends.index (h : Ends s transId r) (hs : Index s monitoring) :
    Index r.1 (r.2.foldl monitorsAfter monitoring) := by
  refine ⟨h.monitorsExact hs.index, ?_⟩
  cases h with
  | unknown hfind hr =>
    rw [hr]
    exact hs.monitoring
  | known e outs s' hfind hs' hr hactive hreplied hretries hmonitors =>
    rw [hr, before, foldl_append, hmonitors]
    have hsame : MonitoringExact s' monitoring := by
      rw [hs']
      exact ⟨hs.monitoring.exact, hs.monitoring.below, hs.monitoring.distinct⟩
    exact monitoringExact_sendTimeoutEnd hsame transId e.pid rfl

/-! ## sends -/

/-- **What a send does**: requests with ids of `transIds` start, and the client is replied to,
or waits. -/
structure Sends (s : State ι Pid χ) (r : Result ι Pid χ κ)
    (transIds : List ι) (client : χ) : Prop where
  moves : ∃ started : List (ι × SendType χ),
    (started.map (·.1)).Sublist transIds ∧ Moves s r started [] [client]
  index : ∀ monitoring, Index s monitoring → Index r.1 (r.2.foldl monitorsAfter monitoring)

/-- A send to a pid: the outputs `outs`, and then the start of the timeout. -/
theorem sends_timeoutStart (outs : List (Output ι Pid χ κ))
    (type : SendType χ) (hnew : Maps.find transId s.sendTimeouts = none) (timeout : Nat)
    (pid : Pid) (hactive : outs.filterMap Output.activeOutcome? = [])
    (hretries : retryClients outs = [])
    (hclient : outs.filterMap Output.replied? ++ (clientOf (transId, type)).toList = [client])
    (hkeeps : KeepsMonitors outs) :
    Sends s (before outs (timeoutStart type timeout transId pid s)) [transId] client := by
  obtain ⟨e, htype, hput, hquiet⟩ := timeoutStart_spec κ type timeout transId pid s rfl
  have hrequests := types_put hnew hput
  rw [htype] at hrequests
  refine ⟨⟨[(transId, type)], List.Sublist.refl _, hrequests, ?_, ?_⟩, fun monitoring h => ?_⟩
  · show (outs ++ _).filterMap _ = _
    rw [filterMap_append, hactive, hquiet.active]
    rfl
  · show ((outs ++ _).filterMap _ ++ retryClients (outs ++ _) ++ _).Perm _
    rw [filterMap_append, retryClients_append, hquiet.replied, hretries, hquiet.retries,
      append_nil, append_nil, append_nil, filterMap_cons, filterMap_nil]
    cases hc : clientOf (transId, type) with
    | _ =>
      rw [hc] at hclient
      exact .of_eq hclient
  · show Index _ ((outs ++ _).foldl _ _)
    rw [foldl_append, hkeeps]
    exact ⟨monitorsExact_timeoutStart h.index hnew type timeout pid,
      monitoringExact_timeoutStart h.monitoring type timeout transId pid rfl⟩

/-- The loop of the multicasts: each destination starts a request. -/
theorem sends_handleMcastPids (htype : ∀ transId : ι, clientOf (transId, type) = none)
    (content : κ) (timeout : Nat) (client : χ) (transIdList : List ι)
    (hnodup : (dests.map (·.2)).Nodup)
    (hnew : ∀ transId ∈ dests.map (·.2), Maps.find transId s.sendTimeouts = none) :
    Sends s (handleMcastPids (timeoutStart type timeout) content timeout client transIdList
      dests s) (dests.map (·.2)) client := by
  induction dests generalizing s transIdList with
  | nil =>
    exact ⟨⟨[], List.Sublist.refl _, List.Perm.refl _, rfl, List.Perm.refl _⟩,
      fun monitoring h => h⟩
  | cons dest dests ih =>
    obtain ⟨pid, transId⟩ := dest
    rw [map_cons, nodup_cons] at hnodup
    have hfresh := hnew transId mem_cons_self
    obtain ⟨e, hetype, hput, hquiet⟩ :=
      timeoutStart_spec κ type timeout transId pid s rfl
    have hrequests := types_put hfresh hput
    rw [hetype] at hrequests
    have hrest : ∀ j ∈ dests.map (·.2), Maps.find j (timeoutStart type timeout transId pid s :
          Result ι Pid χ κ).1.sendTimeouts = none := by
      intro j hj
      have hne : transId ≠ j := by
        rintro rfl
        exact hnodup.1 hj
      rw [hput, Maps.find_put, if_neg hne]
      exact hnew j (mem_cons_of_mem _ hj)
    have hsends := ih (transId :: transIdList) hnodup.2 hrest
    obtain ⟨started, hsub, hmoves⟩ := hsends.moves
    rw [handleMcastPids]
    refine ⟨⟨(transId, type) :: started, hsub.cons_cons transId, ?_, ?_, ?_⟩,
      fun monitoring h => ?_⟩
    · have hswap := hmoves.requests.trans (hrequests.append_left started)
      exact hswap.trans perm_middle
    · show (_ :: (_ ++ _)).filterMap _ = _
      rw [filterMap_cons_none rfl, filterMap_append, hquiet.active, hmoves.active]
      rfl
    · show ((_ :: (_ ++ _)).filterMap _ ++ retryClients (_ :: (_ ++ _)) ++ _).Perm _
      rw [filterMap_cons_none rfl, filterMap_append, hquiet.replied,
        filterMap_cons_none (htype transId)]
      have hclients := hmoves.clients
      have hretry := retryClients_append (.sendAsync pid content timeout transId s.receiverPid ::
        (timeoutStart type timeout transId pid s : Result ι Pid χ κ).2)
        (handleMcastPids (timeoutStart type timeout) content timeout client
          (transId :: transIdList) dests (timeoutStart type timeout transId pid s :
            Result ι Pid χ κ).1).2
      rw [show retryClients (.sendAsync pid content timeout transId s.receiverPid ::
        (timeoutStart type timeout transId pid s : Result ι Pid χ κ).2) = []
        from hquiet.retries] at hretry
      rw [← cons_append, hretry]
      exact hclients
    · show Index _ (List.foldl _ _ (_ :: (_ ++ _)))
      rw [foldl_cons, foldl_append]
      exact hsends.index _ ⟨monitorsExact_timeoutStart h.index hfresh type timeout pid,
        monitoringExact_timeoutStart h.monitoring type timeout transId pid rfl⟩

theorem sends_one {out : Output ι Pid χ κ} (hactive : out.activeOutcome? = none)
    (hclient : out.replied?.toList ++ (out.retry?.map (·.client)).toList = [client])
    (hkeeps : KeepsMonitors [out]) (transIds : List ι) : Sends s (s, [out]) transIds client := by
  refine ⟨⟨[], nil_sublist _, List.Perm.refl _, filterMap_cons_none hactive, ?_⟩,
    fun monitoring h => by rwa [hkeeps]⟩
  have hlist : [out].filterMap Output.replied? ++ retryClients [out] = [client] := by
    rw [← hclient, retryClients]
    cases hr : out.replied? <;> cases ht : out.retry? <;> simp [hr, ht]
  show (_ ++ _ ++ []).Perm ([] ++ _)
  rw [hlist]
  exact List.Perm.refl _

/-- A send by name does what a send to its destinations does, if it finds any. -/
theorem sends_handleSend {interval : Nat} {r : Retry χ κ}
    {found : List (Pid × ι) → Option (Result ι Pid χ κ)}
    (h : handleSend interval r lookup s found = some result)
    (hfound : ∀ dests, lookup = .ok dests → found dests = some result →
      Sends s result (dests.map (·.2)) r.client) : Sends s result lookup.transIds r.client := by
  rw [handleSend.eq_def] at h
  cases lookup with
  | timeout =>
    cases h
    exact sends_one rfl rfl (fun _ => rfl) []
  | error =>
    by_cases hasync : s.options.requestNameLookup = .async
    · simp only [hasync, if_true] at h
      cases h
      exact sends_one rfl rfl (fun _ => rfl) []
    · by_cases hinterval : interval ≤ r.timeout
      · simp only [if_neg hasync, if_pos hinterval] at h
        cases h
        exact sends_one rfl rfl (fun _ => rfl) []
      · simp only [if_neg hasync, if_neg hinterval] at h
        cases h
        exact sends_one rfl rfl (fun _ => rfl) []
  | ok dests => exact hfound dests rfl h

theorem sends_destinationGet (h : destinationGet found dests = some result)
    (hfound : ∀ pid transId, dests = [(pid, transId)] →
      Sends s (found pid transId) [transId] client) : Sends s result (dests.map (·.2)) client := by
  match dests, h with
  | [(pid, transId)], h =>
    cases h
    exact hfound pid transId rfl

theorem sends_handleSendAsyncPid (hnew : Maps.find transId s.sendTimeouts = none)
    (content : κ) (timeout : Nat) (pid : Pid) (client : χ) :
    Sends s (handleSendAsyncPid content timeout pid transId client s) [transId] client :=
  sends_timeoutStart [_, _] .passive hnew timeout pid rfl rfl rfl fun _ => rfl

theorem sends_handleSendAsyncActivePid (hnew : Maps.find transId s.sendTimeouts = none)
    (content : κ) (timeout : Nat) (pid : Pid) (client : χ) :
    Sends s (handleSendAsyncActivePid content timeout pid transId client s) [transId] client :=
  sends_timeoutStart [_, _] .active hnew timeout pid rfl rfl rfl fun _ => rfl

theorem sends_handleSendSyncPid (hnew : Maps.find transId s.sendTimeouts = none) (content : κ)
    (timeout : Nat) (pid : Pid) (client : χ) :
    Sends s (handleSendSyncPid content timeout pid transId client s) [transId] client :=
  sends_timeoutStart [_] (.client client) hnew timeout pid rfl rfl rfl fun _ => rfl

theorem sends_handleSendKind {r : Retry χ κ}
    (h : handleSendKind r lookup s = some result) (hnodup : lookup.transIds.Nodup)
    (hnew : ∀ transId ∈ lookup.transIds, Maps.find transId s.sendTimeouts = none) :
    Sends s result lookup.transIds r.client := by
  have hone : ∀ dests pid transId, lookup = .ok dests → dests = [(pid, transId)] →
      Maps.find transId s.sendTimeouts = none := by
    rintro _ pid transId rfl rfl
    exact hnew transId mem_cons_self
  unfold handleSendKind at h
  cases hkind : r.kind with
  | async =>
    rw [hkind] at h
    refine sends_handleSend h fun dests hdests hfound => ?_
    exact sends_destinationGet hfound fun pid transId hdest =>
      sends_handleSendAsyncPid (hone dests pid transId hdests hdest) ..
  | asyncActive =>
    rw [hkind] at h
    refine sends_handleSend h fun dests hdests hfound => ?_
    exact sends_destinationGet hfound fun pid transId hdest =>
      sends_handleSendAsyncActivePid (hone dests pid transId hdests hdest) ..
  | sync =>
    rw [hkind] at h
    refine sends_handleSend h fun dests hdests hfound => ?_
    exact sends_destinationGet hfound fun pid transId hdest =>
      sends_handleSendSyncPid (hone dests pid transId hdests hdest) ..
  | _ =>
    rw [hkind] at h
    refine sends_handleSend h fun dests hdests hfound => ?_
    subst hdests
    cases hfound
    exact sends_handleMcastPids (fun _ => rfl) _ _ _ _ hnodup hnew

end CloudI.ServicesInternal
