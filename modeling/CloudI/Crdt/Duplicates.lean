import CloudI.Crdt.Compaction
import Mathlib.Data.Multiset.ZeroCons

/-!
# Crdt.Duplicates

What the second delivery of an operation does.  `polog_duplicate_operation/2` compares the
clock that a received operation is stamped with, and this clock is always new, because the
receiver increments its own counter for every receive: a duplicate is never found.  So the
second delivery has no effect only where the operation is ignored, or where the second copy
takes the place of the first one.
-/

namespace CloudI.Crdt

open List

variable {ν K V F Average : Type} [LinearOrder ν] [LinearOrder K]
  {calls : Calls V F} {floats : Floats ν Average}
  {p : Process ν K V F Average} {op : Operation K V F}
  {c vclockMin : VClock ν} {polog : List (Entry ν K V F)}
  {data : Data K V}

/-- The operations of the POLog and the data are as they were. -/
def Unchanged (p r : Process ν K V F Average) : Prop :=
  (r.polog.map (·.operation)).Perm (p.polog.map (·.operation)) ∧ r.data = p.data

/-- The message of an operation is delivered once more, with no effect. -/
def DeliversOnce (calls : Calls V F) (floats : Floats ν Average)
    (nodeIdRemote : ν) (vclockRemote : VClock ν) (op : Operation K V F)
    (p : Process ν K V F Average) : Prop :=
  ∀ size pids r,
    p.handle calls floats (.request size pids (.operation nodeIdRemote vclockRemote op)) = some r →
      Unchanged p r.process

/-- **A second copy of an operation without effect**, stamped with `c` when the stable
operations are those that are less than `vclockMin`: the copy is ignored and no operation is
stable, or the copy takes the place of the only operation that leaves the POLog, which is the
same one.  It leaves as redundant, or it is stable and its write changes nothing. -/
inductive Suppressed (calls : Calls V F) (op : Operation K V F)
    (c vclockMin : VClock ν) (polog : List (Entry ν K V F))
    (data : Data K V) : Prop where
  | ignored (hreplaces : op.replaces = some key)
      (hfind : polog.find? (fun e => e.operation.replaces = some key) = some e)
      (hless : ¬ vclockLessThan e.vclock c = true)
      (hstable : ∀ e ∈ polog, ¬ vclockLessThan e.vclock vclockMin = true)
  | replaced (hreplaces : op.replaces = some key)
      (hfind : polog.find? (fun e => e.operation.replaces = some key) = some e)
      (hless : vclockLessThan e.vclock c = true) (hsame : e.operation = op)
      (hstable : ∀ e ∈ polog.eraseP fun e => e.operation.replaces = some key,
        ¬ vclockLessThan e.vclock vclockMin = true)
      (hcopy : ¬ vclockLessThan c vclockMin = true)
  | cleared (hop : op = .clearAll) (hpolog : polog = newer ++ [e]) (hsame : e.operation = op)
      (hless : vclockLessThan e.vclock c = true)
      (hnewer : ∀ e ∈ newer, ¬ vclockLessThan e.vclock c = true)
      (hcopy : ¬ vclockLessThan c vclockMin = true)
  | stable (hreplaces : op.replaces = none) (hop : op ≠ .clearAll) (hpolog : polog = newer ++ [e])
      (hsame : e.operation = op) (hless : vclockLessThan e.vclock vclockMin = true)
      (hnewer : ∀ e ∈ newer, ¬ vclockLessThan e.vclock vclockMin = true)
      (hcopy : ¬ vclockLessThan c vclockMin = true) (hwrite : write calls op data = data)

/-! ## what stays in the POLog -/

theorem perm_cons_append_singleton : (a :: l).Perm (l ++ [b]) ↔ b = a := by
  constructor
  · intro h
    have hcons : (a :: l).Perm (b :: l) := h.trans perm_append_comm
    rw [← Multiset.coe_eq_coe, ← Multiset.cons_coe, ← Multiset.cons_coe,
      Multiset.cons_inj_left] at hcons
    exact hcons.symm
  · rintro rfl
    exact (perm_append_singleton b l).symm

theorem perm_eraseP {α : Type} {q : α → Bool} {l : List α} {a : α} (h : l.find? q = some a) :
    l.Perm (a :: l.eraseP q) := by
  obtain ⟨ha, front, behind, rfl, hfront⟩ := find?_eq_some_iff_append.mp h
  have hnone : ∀ b ∈ front, ¬ q b = true := fun b hb => by simpa using hfront b hb
  rw [eraseP_append_right _ hnone, eraseP_cons_of_pos ha]
  exact perm_middle

theorem pologEffect_of_added (hnew : ∀ e ∈ polog, e.vclock ≠ c)
    {rest : List (Entry ν K V F)}
    (hrelation : pologRedundancyRelation op c polog = (true, rest)) (id : ν × Nat) :
    pologEffect op c id polog = ⟨c, op, id⟩ :: rest := by
  have hduplicate : pologDuplicateOperation c polog = false := by
    simpa [pologDuplicateOperation] using hnew
  rw [pologEffect, hduplicate, hrelation]
  rfl

theorem pologRedundancyRelation_clearAll (c : VClock ν) (polog : List (Entry ν K V F)) :
    pologRedundancyRelation .clearAll c polog =
      (true, polog.filter fun e => !vclockLessThan e.vclock c) := by
  rw [pologRedundancyRelation, pologRedundancyRelationClearAll_eq]
  rfl

theorem pologRedundancyRelation_of_none (hreplaces : op.replaces = none) (hop : op ≠ .clearAll)
    (c : VClock ν) (polog : List (Entry ν K V F)) :
    pologRedundancyRelation op c polog = (true, polog) := by
  cases op with
  | put key value => cases hreplaces
  | clear key => cases hreplaces
  | clearAll => exact absurd rfl hop
  | _ => rfl

theorem pologRedundancyRelation_replaced {key : K} {e : Entry ν K V F}
    (hreplaces : op.replaces = some key)
    (hfind : polog.find? (fun e => e.operation.replaces = some key) = some e)
    (hless : vclockLessThan e.vclock c = true) :
    pologRedundancyRelation op c polog =
      (true, polog.eraseP fun e => e.operation.replaces = some key) := by
  rw [pologRedundancyRelation_of_replaces hreplaces, pologRedundancyRelationKey_eq]
  simp only [hfind, if_pos hless, reverse_nil, nil_append]

/-! ## the second delivery -/

section Delivery

/- The POLog holds the operation, all its clocks are below the one that the copy is stamped
with, and what is stable is less than that clock. -/

variable (hascending : Ascending polog) (hbelow : ∀ e ∈ polog, Below e.vclock c)
  (hnew : ∀ e ∈ polog, e.vclock ≠ c)
  (hstable : ∀ e ∈ polog, vclockLessThan e.vclock vclockMin = true →
    vclockLessThan e.vclock c = true)
  (hin : ∃ e ∈ polog, e.operation = op) (id : ν × Nat)

/-- The operations that stay in the POLog. -/
def stays (vclockMin : VClock ν) (polog : List (Entry ν K V F)) :
    List (Entry ν K V F) :=
  polog.filter fun e => !vclockLessThan e.vclock vclockMin

omit [LinearOrder K] in
theorem stays_eq_self (h : ∀ e ∈ polog, ¬ vclockLessThan e.vclock vclockMin = true) :
    stays vclockMin polog = polog :=
  filter_eq_self.mpr fun e he => by simp [h e he]

omit [LinearOrder K] in
theorem not_stable_of_length (h : (stays vclockMin polog).length = polog.length) :
    ∀ e ∈ polog, ¬ vclockLessThan e.vclock vclockMin = true := by
  intro e he
  simpa using length_filter_eq_length_iff.mp h e he

include hbelow hin in
omit [LinearOrder K] in
theorem copy_not_stable (hrest : rest.Sublist polog)
    (hperm : ((stays vclockMin (⟨c, op, id⟩ :: rest)).map (·.operation)).Perm
      (polog.map (·.operation))) : ¬ vclockLessThan c vclockMin = true := by
  intro hcopy
  have hnone : stays vclockMin (⟨c, op, id⟩ :: rest) = [] := by
    refine filter_eq_nil_iff.mpr fun e he => ?_
    rcases mem_cons.mp he with rfl | he
    · simp [hcopy]
    · simp [vclockLessThan_of_below (hbelow e (hrest.subset he)) hcopy]
  have hlen := hperm.length_eq
  obtain ⟨e, he, -⟩ := hin
  have hpos := length_pos_of_mem he
  rw [hnone, map_nil, length_nil, length_map] at hlen
  omega

/-- The operations that are written to the data. -/
def leaves (vclockMin : VClock ν) (polog : List (Entry ν K V F)) :
    List (Entry ν K V F) :=
  polog.filter fun e => vclockLessThan e.vclock vclockMin

section
omit [LinearOrder K]

theorem leaves_eq_nil (h : ∀ e ∈ polog, ¬ vclockLessThan e.vclock vclockMin = true) :
    leaves vclockMin polog = [] := filter_eq_nil_iff.mpr h

theorem stays_cons (h : ¬ vclockLessThan c vclockMin = true) :
    stays vclockMin (⟨c, op, id⟩ :: polog) = ⟨c, op, id⟩ :: stays vclockMin polog := by
  simp [stays, h]

theorem leaves_cons (h : ¬ vclockLessThan c vclockMin = true) :
    leaves vclockMin (⟨c, op, id⟩ :: polog) = leaves vclockMin polog := by
  simp [leaves, h]

theorem not_stable_cons (hcopy : ¬ vclockLessThan c vclockMin = true)
    (h : ∀ e ∈ polog, ¬ vclockLessThan e.vclock vclockMin = true) :
    ∀ e ∈ (⟨c, op, id⟩ :: polog : List (Entry ν K V F)),
      ¬ vclockLessThan e.vclock vclockMin = true :=
  forall_mem_cons.mpr ⟨hcopy, h⟩

theorem older_singleton (hpolog : polog = newer ++ older)
    (hlen : (⟨c, op, id⟩ :: newer : List (Entry ν K V F)).length = polog.length) :
    ∃ e, older = [e] := by
  have hone : older.length = 1 := by
    rw [hpolog, length_append, length_cons] at hlen
    omega
  exact length_eq_one_iff.mp hone

theorem same_of_perm (hpolog : polog = newer ++ [e])
    (hperm : ((⟨c, op, id⟩ :: newer : List (Entry ν K V F)).map
      (·.operation)).Perm (polog.map (·.operation))) : e.operation = op := by
  rw [hpolog, map_append, map_cons, map_cons, map_nil] at hperm
  exact perm_cons_append_singleton.mp hperm

end

/-- What the second delivery leaves unchanged. -/
def Keeps (calls : Calls V F) (vclockMin : VClock ν)
    (pologNext polog : List (Entry ν K V F)) (data : Data K V) : Prop :=
  ((stays vclockMin pologNext).map (·.operation)).Perm (polog.map (·.operation)) ∧
    replay calls (leaves vclockMin pologNext) data = data

theorem keeps_of_none {pologNext : List (Entry ν K V F)}
    (hnone : ∀ e ∈ pologNext, ¬ vclockLessThan e.vclock vclockMin = true)
    (hperm : (pologNext.map (·.operation)).Perm (polog.map (·.operation))) :
    Keeps calls vclockMin pologNext polog data := by
  rw [Keeps, stays_eq_self hnone, leaves_eq_nil hnone]
  exact ⟨hperm, rfl⟩

include hnew hstable in
theorem keeps_of_suppressed (h : Suppressed calls op c vclockMin polog data) :
    Keeps calls vclockMin (pologEffect op c id polog) polog data := by
  cases h with
  | ignored hreplaces hfind hless hnone =>
    rw [pologEffect_of_ignored hreplaces hfind hless]
    exact keeps_of_none hnone (List.Perm.refl _)
  | @replaced key e hreplaces hfind hless hsame hnone hcopy =>
    rw [pologEffect_of_added hnew (pologRedundancyRelation_replaced hreplaces hfind hless)]
    refine keeps_of_none (not_stable_cons id hcopy hnone) ?_
    have hperm := (perm_eraseP hfind).map (·.operation)
    rw [map_cons, hsame] at hperm
    exact hperm.symm
  | @cleared newer e hop hpolog hsame hless hnewer hcopy =>
    subst hop
    have hrest : polog.filter (fun e => !vclockLessThan e.vclock c) = newer := by
      rw [hpolog, filter_append, filter_eq_self.mpr fun e he => by simp [hnewer e he]]
      simp [hless]
    rw [pologEffect_of_added hnew (pologRedundancyRelation_clearAll c polog), hrest]
    have hnone : ∀ e ∈ newer, ¬ vclockLessThan e.vclock vclockMin = true := by
      intro e he hmin
      exact hnewer e he (hstable e (by simp [hpolog, he]) hmin)
    refine keeps_of_none (not_stable_cons id hcopy hnone) ?_
    rw [hpolog, map_append, map_cons, map_cons, map_nil]
    exact perm_cons_append_singleton.mpr hsame
  | @stable newer e hreplaces hop hpolog hsame hless hnewer hcopy hwrite =>
    rw [pologEffect_of_added hnew (pologRedundancyRelation_of_none hreplaces hop c polog), Keeps,
      stays_cons id hcopy, leaves_cons id hcopy]
    have hstays : stays vclockMin polog = newer := by
      rw [hpolog, stays, filter_append,
        filter_eq_self.mpr fun e he => by simp [hnewer e he]]
      simp [hless]
    have hleaves : leaves vclockMin polog = [e] := by
      rw [hpolog, leaves, filter_append, filter_eq_nil_iff.mpr hnewer]
      simp [hless]
    rw [hstays, hleaves, hpolog, map_append, map_cons, map_cons, map_nil]
    refine ⟨perm_cons_append_singleton.mpr hsame, ?_⟩
    show write calls e.operation data = data
    rw [hsame, hwrite]

include hascending hbelow hnew hstable hin in
theorem suppressed_of_keeps (h : Keeps calls vclockMin (pologEffect op c id polog) polog data) :
    Suppressed calls op c vclockMin polog data := by
  obtain ⟨hperm, hdata⟩ := h
  have hlen := hperm.length_eq
  rw [length_map, length_map] at hlen
  cases hreplaces : op.replaces with
  | some key =>
    obtain ⟨e0, he0, hop0⟩ := hin
    cases hfind : polog.find? fun e => e.operation.replaces = some key with
    | none =>
      have hnone := find?_eq_none.mp hfind e0 he0
      simp [hop0, hreplaces] at hnone
    | some e =>
      by_cases hless : vclockLessThan e.vclock c = true
      · -- the copy takes the place of the newest operation of the key
        have heffect := pologEffect_of_added hnew
          (pologRedundancyRelation_replaced hreplaces hfind hless) id
        have hpolog := perm_eraseP hfind
        rw [heffect] at hperm hlen
        have hnone := not_stable_of_length (hlen.trans hpolog.length_eq)
        rw [stays_eq_self hnone] at hperm
        refine .replaced hreplaces hfind hless ?_
          (fun e he => hnone e (mem_cons_of_mem _ he)) (hnone _ mem_cons_self)
        have hcons := hperm.trans (hpolog.map (·.operation))
        rw [map_cons, map_cons, ← Multiset.coe_eq_coe, ← Multiset.cons_coe,
          ← Multiset.cons_coe, Multiset.cons_inj_left] at hcons
        exact hcons.symm
      · have heffect := pologEffect_of_ignored hreplaces hfind hless id
        rw [heffect] at hlen
        exact .ignored hreplaces hfind hless (not_stable_of_length hlen)
  | none =>
    by_cases hop : op = .clearAll
    · subst hop
      have heffect := pologEffect_of_added hnew (pologRedundancyRelation_clearAll c polog) id
      rw [heffect] at hperm hlen
      have hcopy := copy_not_stable hbelow hin id filter_sublist hperm
      have hsplit := hascending.split c
      have hnewer : ∀ e ∈ polog.filter fun e => !vclockLessThan e.vclock c,
          ¬ vclockLessThan e.vclock c = true := by
        intro e he
        simpa using (mem_filter.mp he).2
      have hnone : ∀ e ∈ polog.filter fun e => !vclockLessThan e.vclock c,
          ¬ vclockLessThan e.vclock vclockMin = true := by
        intro e he hmin
        exact hnewer e he (hstable e (mem_filter.mp he).1 hmin)
      rw [stays_cons id hcopy, stays_eq_self hnone] at hperm hlen
      -- one operation is redundant
      obtain ⟨e, he⟩ := older_singleton id hsplit hlen
      have hless : e ∈ polog.filter fun e => vclockLessThan e.vclock c := by simp [he]
      rw [he] at hsplit
      exact .cleared rfl hsplit (same_of_perm id hsplit hperm) (mem_filter.mp hless).2 hnewer
        hcopy
    · have heffect := pologEffect_of_added hnew
        (pologRedundancyRelation_of_none hreplaces hop c polog) id
      rw [heffect] at hperm hlen hdata
      have hcopy := copy_not_stable hbelow hin id (List.Sublist.refl polog) hperm
      have hsplit := hascending.split vclockMin
      have hnewer : ∀ e ∈ stays vclockMin polog, ¬ vclockLessThan e.vclock vclockMin = true := by
        intro e he
        simpa using (mem_filter.mp he).2
      rw [stays_cons id hcopy] at hperm hlen
      -- one operation is stable
      obtain ⟨e, he⟩ := older_singleton id hsplit hlen
      have hless : e ∈ polog.filter fun e => vclockLessThan e.vclock vclockMin := by simp [he]
      rw [he] at hsplit
      have hsame := same_of_perm id hsplit hperm
      have hwrite : write calls e.operation data = data := by
        rw [leaves_cons id hcopy, leaves, he] at hdata
        exact hdata
      rw [hsame] at hwrite
      exact .stable hreplaces hop hsplit hsame (mem_filter.mp hless).2 hnewer hcopy hwrite

end Delivery

/-- The clock that a received operation is stamped with. -/
def Process.stamp (vclockRemote : VClock ν) (p : Process ν K V F Average) : VClock ν :=
  vclockReceive vclockRemote p.toState

/-- The minimum of the known clocks after an operation was received. -/
def Process.minimumAfter (nodeIdRemote : ν) (vclockRemote : VClock ν)
    (p : Process ν K V F Average) : VClock ν :=
  vclocksMinimum (vclocksReceive nodeIdRemote vclockRemote
    (vclockIncrement p.nodeId (p.stamp vclockRemote)) p.toState)

theorem less_of_stable (h : p.Ok) (he : e ∈ p.polog) (nodeIdRemote : ν) (vclockRemote : VClock ν)
    (hless : vclockLessThan e.vclock (p.minimumAfter nodeIdRemote vclockRemote) = true) :
    vclockLessThan e.vclock (p.stamp vclockRemote) = true := by
  have hadvances : Advances p.nodeId p.vclock (p.stamp vclockRemote) := advances_receive _ _ _
  rw [vclockLessThan_iff] at hless ⊢
  intro k x hx
  obtain ⟨y, hy, hxy⟩ := hless k x hx
  obtain ⟨z, hz, hxz⟩ := h.log.below e he k x hx
  obtain ⟨w, hw, hzw⟩ := hadvances.1 k z hz
  refine ⟨w, hw, ?_⟩
  by_cases hk : p.nodeId = k
  · -- the counter of the process itself
    subst hk
    obtain ⟨w', hw', hlt⟩ := hadvances.2
    rw [hw] at hw'
    cases hw'
    exact lt_of_le_of_lt hxz (hlt z hz)
  · -- the minimum is at most the counter of the copy
    have hknown : Maps.find p.nodeId (vclocksReceive nodeIdRemote vclockRemote
        (vclockIncrement p.nodeId (p.stamp vclockRemote)) p.toState) =
          some (vclockIncrement p.nodeId (p.stamp vclockRemote)) := by
      rw [vclocksReceive, vclocksUpdate, Maps.find_put, if_pos rfl]
    have hcounter : Maps.find k (vclockIncrement p.nodeId (p.stamp vclockRemote)) = some w := by
      rw [find_vclockIncrement, if_neg hk, hw]
    obtain ⟨m, hm, hmw⟩ := vclocksMinimum_le hknown hcounter
    rw [Process.minimumAfter, hm] at hy
    cases hy
    exact lt_of_lt_of_le hxy hmw

theorem deliversOnce_iff_keeps (hmode : p.pologMode = .normal) :
    DeliversOnce calls floats nodeIdRemote vclockRemote op p ↔
      Keeps calls (p.minimumAfter nodeIdRemote vclockRemote)
        (pologEffect op (p.stamp vclockRemote) (operationId nodeIdRemote vclockRemote) p.polog)
        p.polog p.data := by
  have hstate : ∀ size, (handleRequest calls size p.toState
      (.operation nodeIdRemote vclockRemote op)).1.state.polog =
        stays (p.minimumAfter nodeIdRemote vclockRemote) (pologEffect op (p.stamp vclockRemote)
          (operationId nodeIdRemote vclockRemote) p.polog) ∧
      (handleRequest calls size p.toState (.operation nodeIdRemote vclockRemote op)).1.state.data =
        replay calls (leaves (p.minimumAfter nodeIdRemote vclockRemote) (pologEffect op
          (p.stamp vclockRemote) (operationId nodeIdRemote vclockRemote) p.polog)) p.data := by
    intro size
    simp only [handleRequest, eventRemote, stabilize, pologStable_eq]
    exact ⟨rfl, rfl⟩
  constructor
  · intro h
    obtain ⟨vclockMin, hr⟩ := handle_request_normal calls floats hmode 0
      none (.operation nodeIdRemote vclockRemote op)
    obtain ⟨hperm, hdata⟩ := h 0 none _ hr
    rw [(hstate 0).1] at hperm
    exact ⟨hperm, (hstate 0).2.symm.trans hdata⟩
  · rintro ⟨hperm, hdata⟩ size pids r hr
    obtain ⟨vclockMin, hr'⟩ := handle_request_normal calls floats hmode
      size pids (.operation nodeIdRemote vclockRemote op)
    rw [hr'] at hr
    cases hr
    refine ⟨?_, (hstate size).2.trans hdata⟩
    show ((handleRequest calls size p.toState
      (.operation nodeIdRemote vclockRemote op)).1.state.polog.map (·.operation)).Perm _
    rw [(hstate size).1]
    exact hperm

/-- **The second delivery has no effect** exactly when the copy is suppressed: for every
reachable state whose POLog holds the operation of the message. -/
theorem deliversOnce_iff_suppressed {nodeIdRemote : ν} {vclockRemote : VClock ν}
    (h : Reachable calls floats p) (hmode : p.pologMode = .normal)
    (hin : ∃ e ∈ p.polog, e.id = operationId nodeIdRemote vclockRemote ∧ e.operation = op) :
    DeliversOnce calls floats nodeIdRemote vclockRemote op p ↔
      Suppressed calls op (p.stamp vclockRemote) (p.minimumAfter nodeIdRemote vclockRemote)
        p.polog p.data := by
  have hok : PologOk p.toState := ⟨h.ok.log.ascending, h.ok.log.below⟩
  have hadvances : Advances p.nodeId p.vclock (p.stamp vclockRemote) := advances_receive _ _ _
  have hbelow : ∀ e ∈ p.polog, Below e.vclock (p.stamp vclockRemote) :=
    fun e he => (hok.below_of_advances hadvances e he).1
  have hnew : ∀ e ∈ p.polog, e.vclock ≠ p.stamp vclockRemote :=
    fun e he => (hok.below_of_advances hadvances e he).2
  have hstable : ∀ e ∈ p.polog,
      vclockLessThan e.vclock (p.minimumAfter nodeIdRemote vclockRemote) = true →
        vclockLessThan e.vclock (p.stamp vclockRemote) = true :=
    fun e he => less_of_stable h.ok he nodeIdRemote vclockRemote
  obtain ⟨e, he, -, hop⟩ := hin
  rw [deliversOnce_iff_keeps hmode]
  constructor
  · exact suppressed_of_keeps h.ok.log.ascending hbelow hnew hstable ⟨e, he, hop⟩ _
  · exact keeps_of_suppressed hnew hstable _

theorem deliversOnce_iff_suppressed_startedProcess :
    DeliversOnce naturalCalls exactFloats 1 (Maps.put 1 2 ∅) (.incr 0 1) startedProcess ↔
      Suppressed naturalCalls (.incr 0 1) (startedProcess.stamp (Maps.put 1 2 ∅))
        (startedProcess.minimumAfter 1 (Maps.put 1 2 ∅)) startedProcess.polog
        startedProcess.data :=
  deliversOnce_iff_suppressed reachable_startedProcess (by decide +kernel) (by decide +kernel)

/-- The process 0 after the process 1 sent it one more operation, in the mode `normal`. -/
def receivedProcess : Process Nat Nat Nat Unit (Nat × Nat) :=
  startedProcess.after naturalCalls exactFloats
    (.request 0 none (.operation 1 (Maps.put 0 1 (Maps.put 1 5 ∅)) (.incr 0 7)))

theorem reachable_receivedProcess : Reachable naturalCalls exactFloats receivedProcess :=
  reachable_startedProcess.after fun _ hs => by cases hs

/-- **The second delivery is not found**: the increment takes effect twice. -/
theorem second_delivery_added : Reachable naturalCalls exactFloats receivedProcess ∧
    receivedProcess.pologMode = .normal ∧
    (∃ e ∈ receivedProcess.polog,
      e.id = operationId 1 (Maps.put 0 1 (Maps.put 1 5 ∅)) ∧ e.operation = .incr 0 7) ∧
    ¬ DeliversOnce naturalCalls exactFloats 1 (Maps.put 0 1 (Maps.put 1 5 ∅)) (.incr 0 7)
      receivedProcess := by
  refine ⟨reachable_receivedProcess, by decide +kernel, by decide +kernel, fun h => ?_⟩
  rw [deliversOnce_iff_keeps (by decide +kernel)] at h
  have hlen := h.1.length_eq
  revert hlen
  decide +kernel

end CloudI.Crdt
