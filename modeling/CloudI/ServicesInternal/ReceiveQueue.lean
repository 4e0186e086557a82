import CloudI.ServicesInternal.Receive
import CloudI.Library.Tickets
import Mathlib.Tactic.Ring

/-!
# ServicesInternal.ReceiveQueue

The queue of incoming requests with its timers and its size, one operation at a time.
`Queued` is what holds between operations; `requests` lists the queued requests.
-/

namespace CloudI.ServicesInternal.Receive

open Fifos Pqueue4 List Function

variable {ι Pid κ Info : Type} [LinearOrder ι]

variable (s : State ι Pid κ Info)

/-- The queued requests with the sizes that are stored with them. -/
def requests : List (Nat × ServiceRequest ι Pid κ) :=
  elements priorities (contents s.queued)

/-- The ids of the queued requests. -/
def queuedIds : List ι :=
  (requests s).map (·.2.transId)

/-- The sizes of the queued requests together. -/
def totalSize : Nat := ((requests s).map (·.1)).sum

/-- **The queue is in order**: each request is at its priority and is there once, the timers are
those of the queued requests, and the size is that of the queued requests together. -/
structure Queued (s : State ι Pid κ Info) : Prop where
  cached : Cached s.queued
  place : ∀ p, ∀ x ∈ contents s.queued p, x.2.priority = p
  nodup : (queuedIds s).Nodup
  timers : ∀ transId, (Maps.find transId s.recvTimeouts).isSome ↔ transId ∈ queuedIds s
  size : s.queuedSize = totalSize s

variable {s s' : State ι Pid κ Info} {x : Nat × ServiceRequest ι Pid κ}

theorem mem_requests : x ∈ requests s ↔ ∃ p, x ∈ contents s.queued p := by
  rw [requests, elements, mem_flatMap]
  constructor
  · rintro ⟨p, -, hx⟩
    exact ⟨p, hx⟩
  · rintro ⟨p, hx⟩
    refine ⟨p, mem_priorities.mpr ?_, hx⟩
    by_contra hp
    rw [contents_of_not_inRange _ hp] at hx
    cases hx

theorem requests_take (hp : InRange p) (hcontents : contents s.queued p = l1 ++ x :: l2)
    (hs' : contents s'.queued = update (contents s.queued) p (l1 ++ l2)) :
    (requests s).Perm (x :: requests s') := by
  have hupdate := elements_update_perm (a := contents s.queued) priorities_nodup
    (mem_priorities.mpr hp) (l1 ++ l2)
  rw [← hs', hcontents] at hupdate
  have hmiddle : (elements priorities (contents s'.queued) ++ (l1 ++ x :: l2)).Perm
      (x :: elements priorities (contents s'.queued) ++ (l1 ++ l2)) := by
    refine (perm_middle.append_left _).trans ?_
    exact perm_middle
  exact (perm_append_right_iff _).mp (hupdate.symm.trans hmiddle)

theorem requests_put (hp : InRange p)
    (hs' : contents s'.queued = update (contents s.queued) p (contents s.queued p ++ [x]))
    : (requests s').Perm (x :: requests s) := by
  have hupdate := elements_update_perm (a := contents s.queued) priorities_nodup
    (mem_priorities.mpr hp) (contents s.queued p ++ [x])
  rw [← hs', ← append_assoc] at hupdate
  refine List.Perm.trans ?_ (perm_append_singleton x (requests s))
  refine (perm_append_right_iff (contents s.queued p)).mp (hupdate.trans ?_)
  rw [append_assoc, append_assoc]
  exact perm_append_comm.append_left _

/-! ## put -/

/-- A request that is put at the end of its place with a timer and its size. -/
theorem Queued.put (h : Queued s) (s' : State ι Pid κ Info) (hp : InRange x.2.priority)
    (hnew : x.2.transId ∉ queuedIds s) (hcached : Cached s'.queued)
    (hs' : contents s'.queued = update (contents s.queued) x.2.priority
      (contents s.queued x.2.priority ++ [x]))
    (htimers : s'.recvTimeouts = Maps.put x.2.transId tref s.recvTimeouts)
    (hsize : s'.queuedSize = s.queuedSize + x.1) :
    Queued s' ∧ (requests s').Perm (x :: requests s) := by
  have hperm := requests_put hp hs'
  have hids : (queuedIds s').Perm (x.2.transId :: queuedIds s) := hperm.map _
  refine ⟨⟨hcached, ?_, ?_, ?_, ?_⟩, hperm⟩
  · intro p y hy
    rw [hs'] at hy
    by_cases hpr : p = x.2.priority
    · subst hpr
      rw [update_self, mem_append, mem_singleton] at hy
      rcases hy with hy | rfl
      · exact h.place _ y hy
      · rfl
    · rw [update_of_ne hpr] at hy
      exact h.place p y hy
  · exact hids.nodup_iff.mpr (nodup_cons.mpr ⟨hnew, h.nodup⟩)
  · intro transId
    rw [hids.mem_iff, mem_cons, htimers, Maps.find_put]
    by_cases hid : x.2.transId = transId
    · simp [hid]
    · rw [if_neg hid, h.timers]
      simp [Ne.symm hid]
  · have hsizes := (hperm.map fun y => y.1).sum_eq
    rw [map_cons, sum_cons] at hsizes
    rw [hsize, h.size, totalSize, totalSize, hsizes]
    push_cast
    ring

/-- **A request is queued**: it joins the others. -/
theorem timeoutStart_spec (h : Queued s) (hnew : r.transId ∉ queuedIds s)
    (hr : timeoutStart size r s = some result) :
    Queued result.1 ∧ (requests result.1).Perm ((size, r) :: requests s) ∧
      result.2 = [.recvTimer s.nextReference r.timeout r.priority r.transId size] ∧
      result.1.queueRequests = s.queueRequests ∧ result.1.updatePlan = s.updatePlan ∧
      result.1.queuedInfo = s.queuedInfo := by
  rw [timeoutStart] at hr
  by_cases hp : InRange r.priority
  · obtain ⟨q', heq, hcached, hcontents⟩ := enterAt_spec h.cached hp (size, r)
    rw [heq] at hr
    obtain ⟨s', outs⟩ := result
    obtain ⟨rfl, rfl⟩ := Prod.mk.inj (Option.some.inj hr)
    obtain ⟨hqueued, hperm⟩ := h.put { s with
        recvTimeouts := Maps.put r.transId s.nextReference s.recvTimeouts
        queued := q'
        queuedSize := s.queuedSize + size
        nextReference := s.nextReference + 1 } (x := (size, r)) hp hnew hcached hcontents rfl rfl
    exact ⟨hqueued, hperm, rfl, rfl, rfl, rfl⟩
  · have hbad : r.priority < -128 ∨ r.priority > 128 := by
      rw [InRange] at hp
      omega
    rw [enterAt, if_pos hbad] at hr
    cases hr

/-! ## take -/

/-- A request that is taken from the queue with its timer and its size leaves it in order. -/
theorem Queued.take (h : Queued s) (s' : State ι Pid κ Info) (hp : InRange p)
    (hcontents : contents s.queued p = l1 ++ x :: l2) (hcached : Cached s'.queued)
    (hs' : contents s'.queued = update (contents s.queued) p (l1 ++ l2))
    (htimers : s'.recvTimeouts = Maps.remove x.2.transId s.recvTimeouts)
    (hsize : s'.queuedSize = s.queuedSize - x.1) :
    Queued s' ∧ (requests s).Perm (x :: requests s') := by
  have hperm := requests_take hp hcontents hs'
  have hids : (queuedIds s).Perm (x.2.transId :: queuedIds s') := hperm.map _
  have hnodup := hids.nodup_iff.mp h.nodup
  rw [nodup_cons] at hnodup
  refine ⟨⟨hcached, ?_, hnodup.2, ?_, ?_⟩, hperm⟩
  · intro r y hy
    rw [hs'] at hy
    by_cases hr : r = p
    · subst hr
      rw [update_self] at hy
      refine h.place _ y ?_
      rw [hcontents]
      exact (sublist_cons_self x l2).append_left l1 |>.subset hy
    · rw [update_of_ne hr] at hy
      exact h.place r y hy
  · intro transId
    rw [htimers, Maps.find_remove]
    by_cases hid : x.2.transId = transId
    · subst hid
      simp [hnodup.1]
    · rw [if_neg hid, h.timers, hids.mem_iff, mem_cons]
      simp [Ne.symm hid]
  · have hsizes := (hperm.map fun x => x.1).sum_eq
    rw [map_cons, sum_cons] at hsizes
    rw [hsize, h.size, totalSize, hsizes, totalSize]
    push_cast
    ring

/-- **The next request is handed on**, or the process is idle with an empty queue. -/
theorem processQueue_spec (h : Queued s) (hbusy : s.queueRequests = true)
    (cancel : TimerRef → Option Nat) :
    (∃ q, processQueue cancel s = some ({ s with queueRequests := false, queued := q }, []) ∧
      requests s = [] ∧ Queued { s with queueRequests := false, queued := q } ∧
      requests { s with queueRequests := false, queued := q } = []) ∨
    ∃ x tref s', processQueue cancel s =
        some (s', [.cancelTimer tref, .request x.2 ((cancel tref).getD 0)]) ∧
      Queued s' ∧ (requests s).Perm (x :: requests s') ∧ s'.queueRequests = true ∧
      s'.updatePlan = s.updatePlan ∧ s'.queuedInfo = s.queuedInfo := by
  rw [processQueue, if_pos hbusy]
  rcases out_spec h.cached with ⟨hzero, heq, -⟩ | ⟨p, x, l, q', hp, hfirst, heq, -, hcached, hq'⟩
  · have hnil : requests s = [] := by
      refine eq_nil_iff_forall_not_mem.mpr fun x hx => ?_
      obtain ⟨p, hx⟩ := mem_requests.mp hx
      rw [h.cached.contents_eq_nil hzero p] at hx
      cases hx
    rw [heq]
    exact .inl ⟨_, rfl, hnil, ⟨h.cached, h.place, h.nodup, h.timers, h.size⟩, hnil⟩
  · have hmem : x.2.transId ∈ queuedIds s := by
      refine mem_map_of_mem (mem_requests.mpr ⟨p, ?_⟩)
      rw [hfirst.head]
      exact mem_cons_self
    obtain ⟨tref, htref⟩ := Option.isSome_iff_exists.mp ((h.timers _).mpr hmem)
    rw [heq]
    simp only [htref]
    refine .inr ⟨x, tref, _, rfl, ?_⟩
    have htake := h.take { s with
        recvTimeouts := Maps.remove x.2.transId s.recvTimeouts
        queued := q'
        queuedSize := s.queuedSize - x.1 } hp (hfirst.head.trans (nil_append _).symm)
      hcached (hq'.trans (by rw [nil_append])) rfl rfl
    exact ⟨htake.1, htake.2, hbusy, rfl, rfl⟩

theorem Queued.drop (h : Queued s) (hnot : transId ∉ queuedIds s) :
    Queued { s with recvTimeouts := Maps.remove transId s.recvTimeouts } := by
  refine ⟨h.cached, h.place, h.nodup, fun j => ?_, h.size⟩
  show (Maps.find j (Maps.remove transId s.recvTimeouts)).isSome ↔ j ∈ queuedIds s
  rw [Maps.find_remove]
  by_cases hj : transId = j
  · subst hj
    simp [hnot]
  · rw [if_neg hj, h.timers]

/-- **A timeout removes its request**, if that is still queued. -/
theorem handleRecvTimeout_spec (h : Queued s) (hidle : s.queueRequests = false → requests s = [])
    (htimer : ∀ x ∈ requests s, x.2.transId = transId → x.2.priority = priority ∧ x.1 = size)
    (hr : handleRecvTimeout priority transId size s = some (removed, s')) :
    Queued s' ∧ s'.queueRequests = s.queueRequests ∧ s'.updatePlan = s.updatePlan ∧
      s'.queuedInfo = s.queuedInfo ∧
      ((if removed then [transId] else []) ++ queuedIds s').Perm (queuedIds s) ∧
      ∀ x ∈ requests s', x ∈ requests s := by
  rw [handleRecvTimeout] at hr
  by_cases hbusy : s.queueRequests = true
  · rw [if_pos hbusy, removeUniqueAt] at hr
    by_cases hbad : priority < -128 ∨ priority > 128
    · rw [if_pos hbad] at hr
      cases hr
    have hp : InRange priority := by
      rw [InRange]
      omega
    rw [if_neg hbad] at hr
    rcases removeUniqueP_spec h.cached hp (fun x => decide (x.2.transId = transId))
      with ⟨hnone, heq⟩ | ⟨l1, x, l2, q', hl, hx, heq, hcached, hq'⟩
    · have hnot : transId ∉ queuedIds s := by
        intro hmem
        obtain ⟨x, hx, hid⟩ := mem_map.mp hmem
        obtain ⟨p, hxp⟩ := mem_requests.mp hx
        obtain rfl : p = priority := (h.place p x hxp).symm.trans (htimer x hx hid).1
        simpa [hid] using hnone x hxp
      rw [heq] at hr
      obtain ⟨rfl, rfl⟩ := Prod.mk.inj (Option.some.inj hr)
      exact ⟨h.drop hnot, rfl, rfl, rfl, .refl _, fun _ => id⟩
    · replace hx : x.2.transId = transId := by simpa using hx
      have hmem : x ∈ requests s := mem_requests.mpr ⟨priority, by rw [hl]; simp⟩
      obtain ⟨-, hsize⟩ := htimer x hmem hx
      rw [heq] at hr
      obtain ⟨rfl, rfl⟩ := Prod.mk.inj (Option.some.inj hr)
      obtain ⟨hqueued, hperm⟩ := h.take { s with
        recvTimeouts := Maps.remove transId s.recvTimeouts
        queued := q'
        queuedSize := s.queuedSize - size } hp hl hcached hq' (by rw [hx]) (by rw [hsize])
      have hids := (hperm.map fun y => y.2.transId).symm
      rw [map_cons, hx] at hids
      exact ⟨hqueued, rfl, rfl, rfl, hids,
        fun y hy => hperm.mem_iff.mpr (mem_cons_of_mem x hy)⟩
  · have hfree : s.queueRequests = false := by simpa using hbusy
    have hnot : transId ∉ queuedIds s := by
      rw [queuedIds, hidle hfree]
      exact not_mem_nil
    rw [if_neg hbusy] at hr
    obtain ⟨rfl, rfl⟩ := Prod.mk.inj (Option.some.inj hr)
    exact ⟨h.drop hnot, rfl, rfl, rfl, .refl _, fun _ => id⟩

end CloudI.ServicesInternal.Receive
