import CloudI.ServicesInternal.RecvAsync

/-!
# ServicesInternal.Received

What one call of `recv_async` or `recv_asyncs`, or one of its retry messages, does: what it
takes out of the map is what its reply or its next retry message has more.
-/

namespace CloudI.ServicesInternal.RecvAsync

open Flight List

variable {ι Pid χ κ : Type} [LinearOrder ι] {ids : TransIds ι} {rs rs' : Responses ι}

/-! ## what is taken out of the map -/

/-- Every response has content. -/
def NonNull (rs : Responses ι) : Prop := ∀ id x, Maps.find id rs = some x → x ≠ ([], [])

theorem NonNull.within (h : NonNull rs) (hwithin : Maps.Within rs' rs) : NonNull rs' :=
  fun id x hx => h id x (hwithin id x hx)

variable {transId : ι} {e : Entry ι} {q : Retry ι χ}
  {results : List (Entry ι)}

theorem NonNull.isNull (h : NonNull rs) (hx : Maps.find transId rs = some (responseInfo, response))
    : (⟨responseInfo, response, transId⟩ : Entry ι).isNull = false := by
  have hne := h transId _ hx
  simp only [ne_eq, Prod.mk.injEq] at hne
  simp only [Entry.isNull, decide_eq_false_iff_not]
  exact hne

theorem takenOut_self (rs : Responses ι) : takenOut rs rs = [] := by
  rw [takenOut, map_eq_nil_iff, filter_eq_nil_iff]
  rintro ⟨id, x⟩ hx
  rw [Maps.mem_toList] at hx
  simp [hx]

theorem takenOut_remove (hx : Maps.find transId rs = some (responseInfo, response))
    (hwithin : Maps.Within rs' (Maps.remove transId rs)) :
    (takenOut rs rs').Perm
      (⟨responseInfo, response, transId⟩ :: takenOut (Maps.remove transId rs) rs') := by
  have hnone : (Maps.find transId rs').isNone = true := by
    cases hfind : Maps.find transId rs' with
    | none => rfl
    | some y =>
      have hy := hwithin transId y hfind
      rw [Maps.find_remove, if_pos rfl] at hy
      cases hy
  have hperm := ((Maps.toList_remove_perm hx).filter fun x => (Maps.find x.1 rs').isNone).map
    fun x => (⟨x.2.1, x.2.2, x.1⟩ : Entry ι)
  simp only [filter_cons, hnone, if_true, map_cons] at hperm
  exact hperm

theorem ids_perm (hwithin : Maps.Within rs' rs) : ((Maps.toList rs).map (·.1)).Perm
      ((takenOut rs rs').map (·.transId) ++ (Maps.toList rs').map (·.1)) := by
  have hperm := (Maps.toList_within_perm hwithin).map (·.1)
  rw [map_append] at hperm
  rw [takenOut, map_map]
  exact hperm

/-! ## one call -/

/-- The entries of results that were found. -/
def found (results : List (Entry ι)) : List (Entry ι) :=
  results.filter fun e => !e.isNull

omit [LinearOrder ι] in
theorem found_cons_of_null (h : e.isNull = true) (results : List (Entry ι)) :
    found (e :: results) = found results := by
  simp [found, h]

omit [LinearOrder ι] in
theorem found_cons_of_nonNull (h : e.isNull = false) (results : List (Entry ι)) :
    found (e :: results) = e :: found results := by
  simp [found, h]

/-- What `recv_asyncs_pick` makes of results. -/
structure Picked (consume : Bool) (results : List (Entry ι)) (rs : Responses ι)
    (newResults : List (Entry ι)) (rs' : Responses ι) : Prop where
  ids : newResults.map (·.transId) = results.map (·.transId)
  within : Maps.Within rs' rs
  kept : consume = false → rs' = rs
  taken : consume = true → (found newResults).Perm (found results ++ takenOut rs rs')

/-- **Pick**: the flags say whether all entries are found and whether none is, and a found
entry is one that was found before or that is taken out now. -/
theorem recvAsyncsPickLoop_spec (consume : Bool) (results l : List (Entry ι))
    (done foundOne : Bool) (hnull : NonNull rs) :
    ∃ newResults rs', recvAsyncsPickLoop consume results l done foundOne rs =
        (done && newResults.all fun e => !e.isNull, !(foundOne || newResults.any fun e => !e.isNull),
          l.reverse ++ newResults, rs') ∧ Picked consume results rs newResults rs' := by
  induction results generalizing l done foundOne rs with
  | nil =>
    refine ⟨[], rs, by simp [recvAsyncsPickLoop], rfl, .refl rs, fun _ => rfl, fun _ => ?_⟩
    rw [takenOut_self]
    rfl
  | cons e results ih =>
    rw [recvAsyncsPickLoop]
    cases hnullEntry : e.isNull with
    | false =>
      obtain ⟨newResults, rs', hloop, hpicked⟩ := ih (e :: l) done true hnull
      refine ⟨e :: newResults, rs', ?_, ?_, hpicked.within, hpicked.kept, fun hconsume => ?_⟩
      · rw [if_neg Bool.false_ne_true, hloop]
        simp [hnullEntry]
      · rw [map_cons, map_cons, hpicked.ids]
      · rw [found_cons_of_nonNull hnullEntry, found_cons_of_nonNull hnullEntry]
        exact (hpicked.taken hconsume).cons e
    | true =>
      rw [if_pos rfl]
      cases hfind : Maps.find e.transId rs with
      | none =>
        obtain ⟨newResults, rs', hloop, hpicked⟩ := ih (e :: l) false foundOne hnull
        refine ⟨e :: newResults, rs', ?_, ?_, hpicked.within, hpicked.kept, fun hconsume => ?_⟩
        · simp only [hloop]
          simp [hnullEntry]
        · rw [map_cons, map_cons, hpicked.ids]
        · rw [found_cons_of_null hnullEntry, found_cons_of_null hnullEntry]
          exact hpicked.taken hconsume
      | some x =>
        obtain ⟨responseInfo, response⟩ := x
        have hnew := hnull.isNull hfind
        have hrest : Maps.Within (if consume then Maps.remove e.transId rs else rs) rs := by
          cases consume with
          | true => exact Maps.within_remove e.transId rs
          | false => exact .refl rs
        obtain ⟨newResults, rs', hloop, hpicked⟩ :=
          ih (⟨responseInfo, response, e.transId⟩ :: l) done true (hnull.within hrest)
        refine ⟨⟨responseInfo, response, e.transId⟩ :: newResults, rs', ?_, ?_,
          hpicked.within.trans hrest, fun hconsume => ?_, fun hconsume => ?_⟩
        · simp only [hloop]
          simp [hnew]
        · rw [map_cons, map_cons, hpicked.ids]
        · rw [hpicked.kept hconsume, hconsume]
          rfl
        · subst hconsume
          have htaken := takenOut_remove hfind hpicked.within
          rw [found_cons_of_nonNull hnew, found_cons_of_null hnullEntry]
          refine ((hpicked.taken rfl).cons _).trans ?_
          exact perm_middle.symm.trans (htaken.symm.append_left _)

/-- The entries that a reply gives. -/
def Reply.found : Reply ι → List (Entry ι)
  | .timeout => []
  | .ok e => [e]
  | .oks results => RecvAsync.found results

/-- What a consuming call that was replied to has taken. -/
def Replied.taken (x : Replied ι χ) : List (Entry ι) :=
  if x.consume then x.reply.found else []

/-- What a consuming call that waits has taken so far. -/
def Retry.taken : Retry ι χ → List (Entry ι)
  | .recvAsync _ _ _ _ => []
  | .recvAsyncs _ results consume _ => if consume then found results else []

/-- The ids that a call of `recv_asyncs` asks for differ. -/
def Retry.Distinct : Retry ι χ → Prop
  | .recvAsync _ _ _ _ => True
  | .recvAsyncs _ results _ _ => (results.map (·.transId)).Nodup

/-- **What the handling of a call does**: it is replied to or waits with less time, it has what
it had before and what is taken out now, and it takes nothing else. -/
structure Answers (rs : Responses ι) (q : Retry ι χ)
    (answer : Answer ι χ × Responses ι) : Prop where
  within : Maps.Within answer.2 rs
  replied : ∀ x ∈ answer.1.replies q, x.taken.Perm (q.taken ++ takenOut rs answer.2)
  waits : ∀ r ∈ answer.1.retries, r.taken.Perm (q.taken ++ takenOut rs answer.2)
  once : (answer.1.replies q).map Replied.client ++ answer.1.retries.map Retry.client = [q.client]
  later : ∀ r ∈ answer.1.retries, r.timeout + recvAsyncInterval = q.timeout
  distinct : q.Distinct → ∀ r ∈ answer.1.retries, r.Distinct

theorem Answers.of_reply (hwithin : Maps.Within rs' rs)
    (htaken : (if q.consume then reply.found else []).Perm (q.taken ++ takenOut rs rs')) :
    Answers rs q (.reply reply, rs') where
  within := hwithin
  replied := by
    intro x hx
    simp only [Answer.replies, mem_singleton] at hx
    subst hx
    exact htaken
  waits := nofun
  once := rfl
  later := nofun
  distinct := fun _ => nofun

theorem Answers.of_retry (hwithin : Maps.Within rs' rs) (hclient : r.client = q.client)
    (hlater : r.timeout + recvAsyncInterval = q.timeout) (hdistinct : q.Distinct → r.Distinct)
    (htaken : r.taken.Perm (q.taken ++ takenOut rs rs')) : Answers rs q (.retry r, rs') where
  within := hwithin
  replied := nofun
  waits := by
    intro r' hr
    simp only [Answer.retries, mem_singleton] at hr
    subst hr
    exact htaken
  once := by
    simp only [Answer.replies, Answer.retries, map_nil, map_cons, nil_append,
      hclient]
  later := by
    intro r' hr
    simp only [Answer.retries, mem_singleton] at hr
    subst hr
    exact hlater
  distinct := by
    intro hq r' hr
    simp only [Answer.retries, mem_singleton] at hr
    subst hr
    exact hdistinct hq

theorem answers_notReceived (timeout : Nat) (transId : ι) (consume : Bool) (client : χ)
    (rs : Responses ι) :
    Answers rs (.recvAsync timeout transId consume client)
      (notReceived timeout transId consume client rs) := by
  have hnothing : ([] : List (Entry ι)).Perm ([] ++ takenOut rs rs) := by
    rw [takenOut_self]
    exact .refl _
  rw [notReceived]
  by_cases h : recvAsyncInterval ≤ timeout
  · rw [if_pos h]
    exact .of_retry (.refl rs) (by simp only [Retry.client]) (Nat.sub_add_cancel h)
      (fun _ => trivial) hnothing
  · rw [if_neg h]
    refine .of_reply (.refl rs) ?_
    cases consume <;> exact hnothing

theorem answers_received (hfind : Maps.find e.transId rs = some (e.responseInfo, e.response))
    (timeout : Nat) (transId : ι) (consume : Bool) (client : χ) :
    Answers rs (.recvAsync timeout transId consume client) (received e consume rs) := by
  cases consume with
  | false =>
    refine .of_reply (.refl rs) ?_
    rw [if_neg Bool.false_ne_true, takenOut_self]
    exact .refl _
  | true =>
    refine .of_reply (Maps.within_remove e.transId rs) ?_
    have htaken := takenOut_remove hfind (.refl _)
    rw [takenOut_self] at htaken
    exact htaken.symm

theorem answers_recvAsyncs (hnull : NonNull rs) (timeout : Nat) (results : List (Entry ι))
    (consume : Bool) (client : χ) :
    Answers rs (.recvAsyncs timeout results consume client)
      (recvAsyncs timeout results consume client rs) := by
  obtain ⟨newResults, rs', hloop, hpicked⟩ :=
    recvAsyncsPickLoop_spec consume results [] true false hnull
  have htaken : (if consume then found newResults else []).Perm
      ((if consume then found results else []) ++ takenOut rs rs') := by
    cases consume with
    | false =>
      rw [hpicked.kept rfl, takenOut_self]
      exact .refl _
    | true => exact hpicked.taken rfl
  have hreply : Answers rs (.recvAsyncs timeout results consume client)
      (.reply (.oks newResults), rs') := .of_reply hpicked.within htaken
  rw [recvAsyncs, recvAsyncsPick, hloop]
  cases hall : newResults.all fun e => !e.isNull with
  | true => exact hreply
  | false =>
    simp only [Bool.true_and, Bool.false_or]
    by_cases hwait : recvAsyncInterval ≤ timeout
    · rw [if_pos hwait]
      refine .of_retry hpicked.within (by simp only [Retry.client]) (Nat.sub_add_cancel hwait)
        (fun hdistinct => ?_) htaken
      show (newResults.map _).Nodup
      rw [hpicked.ids]
      exact hdistinct
    · rw [if_neg hwait]
      cases hany : newResults.any fun e => !e.isNull with
      | true => exact hreply
      | false =>
        -- nothing was found, and so nothing was taken before or now
        have hnone : found newResults = [] := by
          rw [found, filter_eq_nil_iff]
          exact fun e he => by simpa using any_eq_false.mp hany e he
        simp only [hnone, ite_self] at htaken
        have hempty := (append_eq_nil_iff.mp htaken.symm.eq_nil).1
        rw [if_neg (by decide)]
        refine .of_reply (.refl rs) ?_
        rw [takenOut_self, append_nil]
        show (if consume then [] else []).Perm (if consume then found results else [])
        rw [hempty, ite_self]

variable (ids : TransIds ι)

omit [LinearOrder ι] in
theorem recvAsyncSelectOldestFrom_mem
    (l : List (ι × (Binary × Binary))) (time : Nat) (transId : ι) :
    recvAsyncSelectOldestFrom ids l time transId ∈ transId :: l.map (·.1) := by
  induction l generalizing time transId with
  | nil => exact mem_singleton_self transId
  | cons x l ih =>
    rw [recvAsyncSelectOldestFrom, map_cons]
    by_cases h : ids.getV1Time x.1 < time
    · rw [if_pos h]
      exact mem_cons_of_mem transId (ih _ _)
    · rw [if_neg h]
      rcases mem_cons.mp (ih time transId) with hself | hmem
      · rw [hself]
        exact mem_cons_self
      · exact mem_cons_of_mem transId (mem_cons_of_mem x.1 hmem)

theorem find_recvAsyncSelectOldest (h : Maps.toList rs = x :: l) :
    ∃ response, Maps.find (recvAsyncSelectOldest ids x l) rs = some response := by
  have hmem := recvAsyncSelectOldestFrom_mem ids l (ids.getV1Time x.1) x.1
  rw [← map_cons, ← h] at hmem
  obtain ⟨⟨transId, response⟩, hx, heq⟩ := mem_map.mp hmem
  rw [recvAsyncSelectOldest, ← heq]
  exact ⟨response, Maps.mem_toList.mp hx⟩

/-- **Every call is handled**: `maps:get` never fails. -/
theorem handleRetry_spec (hnull : NonNull rs)
    (q : Retry ι χ) : ∃ answer, handleRetry ids rs q = some answer ∧
      Answers rs q answer := by
  cases q with
  | recvAsyncs timeout results consume client =>
    exact ⟨_, rfl, answers_recvAsyncs hnull timeout results consume client⟩
  | recvAsync timeout transId consume client =>
    rw [handleRetry, recvAsync]
    by_cases hnullId : transId = ids.null
    · rw [if_pos hnullId]
      cases hlist : Maps.toList rs with
      | nil => exact ⟨_, rfl, answers_notReceived timeout transId consume client rs⟩
      | cons x l =>
        obtain ⟨⟨responseInfo, response⟩, hfind⟩ := find_recvAsyncSelectOldest ids hlist
        simp only [hfind, Option.map_some]
        exact ⟨_, rfl, answers_received hfind timeout transId consume client⟩
    · rw [if_neg hnullId]
      cases hfind : Maps.find transId rs with
      | none => exact ⟨_, rfl, answers_notReceived timeout transId consume client rs⟩
      | some x =>
        obtain ⟨responseInfo, response⟩ := x
        exact ⟨_, rfl, answers_received hfind timeout transId consume client⟩

/-- All that `recv_asyncs` asks for is found, before or now. -/
def AllFound (results : List (Entry ι)) (rs : Responses ι) : Prop :=
  ∀ e ∈ results, e.isNull = true → (Maps.find e.transId rs).isSome

theorem allFound_cons : AllFound (e :: results) rs ↔
      (e.isNull = true → (Maps.find e.transId rs).isSome) ∧ AllFound results rs := by
  simp only [AllFound, forall_mem_cons]

theorem allFound_remove (h : transId ∉ results.map (·.transId)) :
    AllFound results (Maps.remove transId rs) ↔ AllFound results rs := by
  refine forall₂_congr fun e he => ?_
  have hne : transId ≠ e.transId := fun heq => h (heq ▸ mem_map_of_mem he)
  rw [Maps.find_remove, if_neg hne]

/-- The first flag of the pick. -/
theorem recvAsyncsPickLoop_done (consume : Bool) (results l : List (Entry ι))
    (done foundOne : Bool) (rs : Responses ι) (hdistinct : (results.map (·.transId)).Nodup) :
    (recvAsyncsPickLoop consume results l done foundOne rs).1 = true ↔
      done = true ∧ AllFound results rs := by
  induction results generalizing l done foundOne rs with
  | nil => simp [recvAsyncsPickLoop, AllFound]
  | cons e results ih =>
    obtain ⟨hnot, hrest⟩ := nodup_cons.mp hdistinct
    rw [recvAsyncsPickLoop, allFound_cons]
    cases hnull : e.isNull with
    | false =>
      rw [if_neg Bool.false_ne_true, ih _ _ _ _ hrest]
      simp
    | true =>
      rw [if_pos rfl]
      cases hfind : Maps.find e.transId rs with
      | none =>
        simp only [ih _ _ _ _ hrest]
        simp
      | some x =>
        simp only [ih _ _ _ _ hrest]
        cases consume with
        | false => simp
        | true => simp [allFound_remove hnot]

/-- **When `recv_asyncs` replies**: all is found, or less than the interval is left. -/
theorem recvAsyncs_replies_iff (hdistinct : (results.map (·.transId)).Nodup) :
    (∃ reply, (recvAsyncs timeout results consume client rs).1 = .reply reply) ↔
      AllFound results rs ∨ timeout < recvAsyncInterval := by
  have hdone := recvAsyncsPickLoop_done consume results [] true false rs hdistinct
  rw [recvAsyncs, recvAsyncsPick]
  generalize recvAsyncsPickLoop consume results [] true false rs = picked at hdone ⊢
  obtain ⟨done, foundNone, newResults, rs'⟩ := picked
  simp only [true_and] at hdone
  rw [← hdone]
  cases done with
  | true => simp
  | false =>
    simp only [Bool.false_eq_true, false_or]
    by_cases hwait : recvAsyncInterval ≤ timeout
    · rw [if_pos hwait]
      simp [Nat.not_lt.mpr hwait]
    · rw [if_neg hwait]
      cases foundNone <;> simp [Nat.lt_of_not_le hwait]

end CloudI.ServicesInternal.RecvAsync
