import CloudI.ServicesInternal.Send
import CloudI.Library.Tickets

/-!
# ServicesInternal.SendTimeouts

What the handling of a message does to `send_timeouts` and to the index of the monitors:
which requests it starts and which it ends, and that the index stays exact.
-/

namespace CloudI.ServicesInternal

open Flight CloudI.Lists List
open Maps (find_put find_remove)

variable {ι Pid χ κ : Type} [LinearOrder ι] [LinearOrder Pid]

/-! ## the index of the monitors -/

/-- A request whose `send_timeouts` entry names a pid. -/
def Names (s : State ι Pid χ) (pid : Pid) (transId : ι) : Prop :=
  ∃ e, Maps.find transId s.sendTimeouts = some e ∧ e.pid = some pid

/-- The ids of a pid in the index: sorted, some, and those of the requests. -/
def MonitorExact (transIdList : Option (List ι)) (names : ι → Prop) : Prop :=
  match transIdList with
  | some transIdList =>
      transIdList ≠ [] ∧ transIdList.Pairwise (· < ·) ∧ ∀ id, id ∈ transIdList ↔ names id
  | none => ∀ id, ¬ names id

/-- **The index of the monitors is exact**: for each pid it has the sorted list of the requests
that name the pid, and nothing for a pid that no request names. -/
def MonitorsExact (s : State ι Pid χ) : Prop :=
  ∀ pid, MonitorExact ((Maps.find pid s.sendTimeoutMonitors).map (·.2)) (Names s pid)

theorem MonitorExact.congr {transIdList : Option (List ι)} {names names' : ι → Prop}
    (h : MonitorExact transIdList names) (hnames : ∀ id, names' id ↔ names id) :
    MonitorExact transIdList names' := by
  have heq : names' = names := funext fun id => propext (hnames id)
  rwa [heq]

variable {s s' : State ι Pid χ} {e : SendTimeout Pid χ}
  {r : Result ι Pid χ κ}

theorem names_put (hs' : s'.sendTimeouts = Maps.put transId e s.sendTimeouts) (pid : Pid) (j : ι) :
    Names s' pid j ↔ if transId = j then e.pid = some pid else Names s pid j := by
  by_cases hj : transId = j
  · simp [Names, hs', hj]
  · simp [Names, hs', hj]

theorem names_remove (hs' : s'.sendTimeouts = Maps.remove transId s.sendTimeouts) (pid : Pid)
    (j : ι) : Names s' pid j ↔ transId ≠ j ∧ Names s pid j := by
  by_cases hj : transId = j
  · simp [Names, hs', hj]
  · simp [Names, hs', hj]

theorem not_names_of_none (h : Maps.find transId s.sendTimeouts = none) (pid : Pid) :
    ¬ Names s pid transId := by
  rintro ⟨e, he, -⟩
  rw [h] at he
  cases he

theorem names_put_of_ne (hs' : s'.sendTimeouts = Maps.put transId e s.sendTimeouts)
    (hnew : Maps.find transId s.sendTimeouts = none) (hp : e.pid ≠ some pid) (j : ι) :
    Names s' pid j ↔ Names s pid j := by
  rw [names_put hs']
  by_cases hj : transId = j
  · subst hj
    simp [hp, not_names_of_none hnew pid]
  · rw [if_neg hj]

/-- A new request keeps the index exact. -/
theorem monitorsExact_timeoutStart (h : MonitorsExact s)
    (hnew : Maps.find transId s.sendTimeouts = none) (type : SendType χ) (timeout : Nat)
    (pid : Pid) : MonitorsExact (timeoutStart type timeout transId pid s : Result ι Pid χ κ).1 := by
  intro p
  have hp := h p
  rw [timeoutStart]
  by_cases himm : s.options.requestTimeoutImmediateMax ≤ timeout
  · rw [if_pos himm]
    cases hfind : Maps.find pid s.sendTimeoutMonitors with
    | some x =>
      obtain ⟨ref, ids⟩ := x
      by_cases hpid : pid = p
      · subst hpid
        rw [hfind] at hp
        obtain ⟨-, hsorted, hmem⟩ := hp
        have hsome : transId ∈ umerge ids [transId] := by simp
        rw [find_put, if_pos rfl]
        refine ⟨ne_nil_of_mem hsome, pairwise_umerge hsorted, fun j => ?_⟩
        rw [mem_umerge, mem_singleton, names_put rfl, hmem]
        by_cases hj : transId = j
        · simp [hj]
        · simp [hj, Ne.symm hj]
      · rw [find_put, if_neg hpid]
        exact hp.congr (names_put_of_ne rfl hnew (by simp [hpid]))
    | none =>
      by_cases hpid : pid = p
      · subst hpid
        rw [hfind] at hp
        rw [find_put, if_pos rfl]
        refine ⟨by simp, by simp, fun j => ?_⟩
        rw [mem_singleton, names_put rfl]
        by_cases hj : transId = j
        · simp [hj]
        · simp [hj, Ne.symm hj, hp j]
      · rw [find_put, if_neg hpid]
        exact hp.congr (names_put_of_ne rfl hnew (by simp [hpid]))
  · rw [if_neg himm]
    exact hp.congr (names_put_of_ne rfl hnew (by simp))

/-- The end of a request keeps the index exact. -/
theorem monitorsExact_sendTimeoutEnd (h : MonitorsExact s)
    (hfind : Maps.find transId s.sendTimeouts = some e) :
    MonitorsExact (sendTimeoutEnd transId e.pid s : Result ι Pid χ κ).1 := by
  intro p
  have hp := h p
  have hother : e.pid ≠ some p → ∀ s' : State ι Pid χ,
      s'.sendTimeouts = Maps.remove transId s.sendTimeouts →
      ∀ j, Names s' p j ↔ Names s p j := by
    intro hne s' hs' j
    rw [names_remove hs']
    refine ⟨And.right, fun hj => ⟨?_, hj⟩⟩
    rintro rfl
    obtain ⟨e', he', hpid⟩ := hj
    cases hfind.symm.trans he'
    exact hne hpid
  unfold sendTimeoutEnd
  cases hpid : e.pid with
  | none => exact hp.congr (hother (by simp [hpid]) _ rfl)
  | some pid =>
    have hnames : Names s pid transId := ⟨e, hfind, hpid⟩
    have hpid' := h pid
    cases hmon : Maps.find pid s.sendTimeoutMonitors with
    | none =>
      rw [hmon] at hpid'
      exact absurd hnames (hpid' transId)
    | some x =>
      obtain ⟨ref, ids⟩ := x
      rw [hmon] at hpid'
      obtain ⟨-, hsorted, hmem⟩ := hpid'
      replace hsorted : ids.Pairwise (· < ·) := hsorted
      replace hmem : ∀ id, id ∈ ids ↔ Names s pid id := hmem
      have hnodup : ids.Nodup := hsorted.imp fun hlt => ne_of_lt hlt
      by_cases hids : ids = [transId]
      · simp only [hmon, if_pos hids]
        by_cases hpp : pid = p
        · subst hpp
          rw [find_remove, if_pos rfl]
          intro j hj
          obtain ⟨hne, hj⟩ := (names_remove rfl pid j).mp hj
          have hjmem := (hmem j).mpr hj
          rw [hids, mem_singleton] at hjmem
          exact hne hjmem.symm
        · rw [find_remove, if_neg hpp]
          exact hp.congr (hother (by simp [hpid, hpp]) _ rfl)
      · simp only [hmon, if_neg hids]
        by_cases hpp : pid = p
        · subst hpp
          rw [find_put, if_pos rfl]
          refine ⟨?_, hsorted.sublist erase_sublist, fun j => ?_⟩
          · intro (hnil : ids.erase transId = [])
            have hperm := perm_cons_erase ((hmem transId).mpr hnames)
            rw [hnil] at hperm
            exact hids (perm_singleton.mp hperm)
          · rw [hnodup.mem_erase_iff, hmem]
            exact (and_congr_left fun _ => ne_comm).trans (names_remove rfl pid j).symm
        · rw [find_put, if_neg hpp]
          exact hp.congr (hother (by simp [hpid, hpp]) _ rfl)

/-! ## the death of a destination -/

/-- An entry that names nobody any more. -/
def SendTimeout.unnamed (e : SendTimeout Pid χ) : SendTimeout Pid χ :=
  { e with pid := none }

variable (cancel : Reference → Option Nat)

omit [LinearOrder Pid] in
/-- The entries of the ids lose their pid, the others stay. -/
theorem find_sendTimeoutDeadEach (ids : List ι)
    (d : ErlMap ι (SendTimeout Pid χ) × List (Output ι Pid χ κ)) (j : ι) :
    Maps.find j (ids.foldl (sendTimeoutDeadEach cancel) d).1 =
      if j ∈ ids then (Maps.find j d.1).map SendTimeout.unnamed else Maps.find j d.1 := by
  induction ids generalizing d with
  | nil => simp
  | cons id ids ih =>
    have heach : Maps.find j (sendTimeoutDeadEach cancel d id).1 =
        if id = j then (Maps.find j d.1).map SendTimeout.unnamed else Maps.find j d.1 := by
      rw [sendTimeoutDeadEach]
      cases hfind : Maps.find id d.1 with
      | some e =>
        rw [find_put]
        by_cases hj : id = j
        · subst hj
          simp [hfind, SendTimeout.unnamed]
        · simp [hj]
      | none =>
        by_cases hj : id = j
        · subst hj
          simp [hfind]
        · simp [hj]
    rw [foldl_cons, ih, heach]
    by_cases hj : id = j
    · subst hj
      rw [if_pos rfl]
      by_cases hmem : id ∈ ids
      · simp only [if_pos hmem, mem_cons_self, if_true, Option.map_map]
        rfl
      · simp [hmem]
    · simp [hj, Ne.symm hj]

variable (κ) in
/-- The death of a destination keeps the index exact. -/
theorem monitorsExact_sendTimeoutDead (h : MonitorsExact s) (cancel : Reference → Option Nat)
    (pid : Pid) :
    MonitorsExact
      (sendTimeoutDead cancel pid s : Bool × Result ι Pid χ κ).2.1 := by
  intro p
  have hp := h p
  have hpid := h pid
  rw [sendTimeoutDead]
  cases hmon : Maps.find pid s.sendTimeoutMonitors with
  | none => exact hp
  | some x =>
    obtain ⟨ref, ids⟩ := x
    rw [hmon] at hpid
    obtain ⟨-, -, hmem⟩ := hpid
    have hfind := find_sendTimeoutDeadEach cancel ids
      (s.sendTimeouts, ([] : List (Output ι Pid χ κ)))
    by_cases hpp : pid = p
    · subst hpp
      rw [find_remove, if_pos rfl]
      rintro j ⟨e, he, hepid⟩
      rw [hfind] at he
      by_cases hj : j ∈ ids
      · rw [if_pos hj] at he
        obtain ⟨e', -, rfl⟩ := Option.map_eq_some_iff.mp he
        cases hepid
      · rw [if_neg hj] at he
        exact hj ((hmem j).mpr ⟨e, he, hepid⟩)
    · rw [find_remove, if_neg hpp]
      refine hp.congr fun j => ?_
      show (∃ e, Maps.find j _ = some e ∧ _) ↔ ∃ e, Maps.find j _ = some e ∧ _
      rw [hfind]
      by_cases hj : j ∈ ids
      · -- an id of the dead process names that process, and then nobody
        obtain ⟨e, he, hepid⟩ := (hmem j).mp hj
        rw [if_pos hj, he]
        constructor
        · rintro ⟨e', he', hpid'⟩
          cases he'
          cases hpid'
        · rintro ⟨e', he', hpid'⟩
          cases he'
          exact absurd (Option.some.inj (hepid.symm.trans hpid')) hpp
      · rw [if_neg hj]

theorem monitorsExact_handleDown (h : MonitorsExact s) (cancel : Reference → Option Nat) (pid : Pid)
    : MonitorsExact (handleDown cancel pid s : Result ι Pid χ κ).1 := by
  have hdead := monitorsExact_sendTimeoutDead κ h cancel pid
  rw [handleDown]
  cases hr : sendTimeoutDead cancel pid s with
  | mk known r =>
    rw [hr] at hdead
    cases known <;> exact hdead

/-! ## the requests that a message starts and ends -/

/-- The outstanding requests with their types. -/
def types (s : State ι Pid χ) : List (ι × SendType χ) :=
  (Maps.toList s.sendTimeouts).map fun x => (x.1, x.2.type)

/-- The id of an active request. -/
def activeId : ι × SendType χ → Option ι
  | (transId, .active) => some transId
  | _ => none

/-- The client of a `send_sync` request. -/
def clientOf : ι × SendType χ → Option χ
  | (_, .client c) => some c
  | _ => none

/-- The id whose outcome is sent to the service: `return_async_active` or
`timeout_async_active`. -/
def Output.activeOutcome? : Output ι Pid χ κ → Option ι
  | .returnAsyncActive _ _ _ _ transId | .timeoutAsyncActive transId => some transId
  | _ => none

/-- The client that is replied to. -/
def Output.replied? : Output ι Pid χ κ → Option χ
  | .reply c _ => some c
  | _ => none

/-- The clients of the retry messages that are started. -/
def retryClients (outs : List (Output ι Pid χ κ)) : List χ :=
  (outs.filterMap Output.retry?).map (·.client)

/-- **What a handled message does**: the requests `started` come, the requests `ended` go with
an outcome each, and `callers`, the clients whose sends are handled, are replied to, wait for
a retry, or wait for a request. -/
structure Moves (s : State ι Pid χ) (r : Result ι Pid χ κ)
    (started ended : List (ι × SendType χ)) (callers : List χ) : Prop where
  requests : (ended ++ types r.1).Perm (started ++ types s)
  active : r.2.filterMap Output.activeOutcome? = ended.filterMap activeId
  clients : (r.2.filterMap Output.replied? ++ retryClients r.2 ++ started.filterMap clientOf).Perm
    (ended.filterMap clientOf ++ callers)

/-- Outputs that settle nothing: no outcome, no reply and no retry. -/
structure Quiet (outs : List (Output ι Pid χ κ)) : Prop where
  active : outs.filterMap Output.activeOutcome? = []
  replied : outs.filterMap Output.replied? = []
  retries : retryClients outs = []

section
omit [LinearOrder ι] [LinearOrder Pid]

theorem retryClients_append (outs outs' : List (Output ι Pid χ κ)) :
    retryClients (outs ++ outs') = retryClients outs ++ retryClients outs' := by
  rw [retryClients, filterMap_append, map_append]
  rfl

theorem Quiet.append {outs outs' : List (Output ι Pid χ κ)} (h : Quiet outs)
    (h' : Quiet outs') : Quiet (outs ++ outs') where
  active := by rw [filterMap_append, h.active, h'.active, append_nil]
  replied := by rw [filterMap_append, h.replied, h'.replied, append_nil]
  retries := by rw [retryClients_append, h.retries, h'.retries, append_nil]

theorem quiet_nil : Quiet ([] : List (Output ι Pid χ κ)) := ⟨rfl, rfl, rfl⟩

end

theorem types_put (hnew : Maps.find transId s.sendTimeouts = none)
    (hs' : s'.sendTimeouts = Maps.put transId e s.sendTimeouts) :
    (types s').Perm ((transId, e.type) :: types s) := by
  rw [types, hs']
  exact (Maps.toList_put_perm hnew e).map _

theorem types_remove (hfind : Maps.find transId s.sendTimeouts = some e)
    (hs' : s'.sendTimeouts = Maps.remove transId s.sendTimeouts) :
    ((transId, e.type) :: types s').Perm (types s) := by
  rw [types, hs']
  exact ((Maps.toList_remove_perm hfind).map fun x => (x.1, x.2.type)).symm

theorem mem_types : (transId, type) ∈ types s ↔
      ∃ e, Maps.find transId s.sendTimeouts = some e ∧ e.type = type := by
  rw [types, mem_map]
  constructor
  · rintro ⟨⟨j, e⟩, he, heq⟩
    cases heq
    exact ⟨e, Maps.mem_toList.mp he, rfl⟩
  · rintro ⟨e, he, rfl⟩
    exact ⟨(transId, e), Maps.mem_toList.mpr he, rfl⟩

variable (κ) in
theorem timeoutStart_spec (type : SendType χ) (timeout : Nat) (transId : ι) (pid : Pid)
    (s : State ι Pid χ) (hr : timeoutStart type timeout transId pid s = r) :
    ∃ e : SendTimeout Pid χ, e.type = type ∧
      r.1.sendTimeouts = Maps.put transId e s.sendTimeouts ∧ Quiet r.2 := by
  subst hr
  have hquiet : Quiet ([.sendAfter timeout (timeoutMessage type transId)] :
      List (Output ι Pid χ κ)) := by
    cases type <;> exact ⟨rfl, rfl, rfl⟩
  rw [timeoutStart]
  by_cases himm : s.options.requestTimeoutImmediateMax ≤ timeout
  · rw [if_pos himm]
    cases Maps.find pid s.sendTimeoutMonitors with
    | some x => exact ⟨⟨type, some pid, s.nextReference⟩, rfl, rfl, hquiet⟩
    | none =>
      have hmonitor : Quiet ([.monitor pid s.nextReference] :
          List (Output ι Pid χ κ)) := ⟨rfl, rfl, rfl⟩
      exact ⟨⟨type, some pid, s.nextReference + 1⟩, rfl, rfl, hmonitor.append hquiet⟩
  · rw [if_neg himm]
    exact ⟨⟨type, none, s.nextReference⟩, rfl, rfl, hquiet⟩

variable (κ) in
theorem sendTimeoutEnd_spec (transId : ι) (pid : Option Pid) (s : State ι Pid χ)
    (hr : sendTimeoutEnd transId pid s = r) :
    r.1.sendTimeouts = Maps.remove transId s.sendTimeouts ∧ Quiet r.2 := by
  subst hr
  unfold sendTimeoutEnd
  cases pid with
  | none => exact ⟨rfl, quiet_nil⟩
  | some pid =>
    cases hmon : Maps.find pid s.sendTimeoutMonitors with
    | none =>
      simp only [hmon]
      exact ⟨trivial, quiet_nil⟩
    | some x =>
      obtain ⟨ref, ids⟩ := x
      by_cases hids : ids = [transId]
      · simp only [hmon, if_pos hids]
        exact ⟨trivial, rfl, rfl, rfl⟩
      · simp only [hmon, if_neg hids]
        exact ⟨trivial, quiet_nil⟩

omit [LinearOrder Pid] in
/-- The outputs for a dead destination settle nothing. -/
theorem quiet_sendTimeoutDeadEach (ids : List ι)
    (d : ErlMap ι (SendTimeout Pid χ) × List (Output ι Pid χ κ))
    (hd : Quiet d.2) : Quiet (ids.foldl (sendTimeoutDeadEach cancel) d).2 := by
  induction ids generalizing d with
  | nil => exact hd
  | cons id ids ih =>
    rw [foldl_cons]
    refine ih _ ?_
    rw [sendTimeoutDeadEach]
    cases Maps.find id d.1 with
    | none => exact hd
    | some e =>
      obtain ⟨type, pid, tref⟩ := e
      refine hd.append ?_
      by_cases hcancel : (cancel tref).isSome
      · rw [if_pos hcancel]
        cases type <;> exact ⟨rfl, rfl, rfl⟩
      · rw [if_neg hcancel]
        exact ⟨rfl, rfl, rfl⟩

/-- The death of a destination ends no request. -/
theorem moves_handleDown (pid : Pid) (s : State ι Pid χ) :
    Moves s (handleDown cancel pid s : Result ι Pid χ κ) [] [] [] := by
  unfold handleDown sendTimeoutDead
  cases hmon : Maps.find pid s.sendTimeoutMonitors with
  | none => exact ⟨List.Perm.refl _, rfl, List.Perm.refl _⟩
  | some x =>
    obtain ⟨ref, ids⟩ := x
    have hquiet := quiet_sendTimeoutDeadEach cancel ids
      (s.sendTimeouts, ([] : List (Output ι Pid χ κ))) quiet_nil
    have hfind := find_sendTimeoutDeadEach cancel ids
      (s.sendTimeouts, ([] : List (Output ι Pid χ κ)))
    refine ⟨?_, hquiet.active, ?_⟩
    · refine Maps.toList_map_perm SendTimeout.type fun j => ?_
      rw [hfind]
      by_cases hj : j ∈ ids
      · rw [if_pos hj, Option.map_map]
        rfl
      · rw [if_neg hj]
    · simp only [hquiet.replied, hquiet.retries]
      exact List.Perm.refl _

end CloudI.ServicesInternal
