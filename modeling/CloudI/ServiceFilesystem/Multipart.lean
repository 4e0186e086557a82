import CloudI.ServiceFilesystem.Append
import Mathlib.Data.List.Nodup

/-!
# ServiceFilesystem.Multipart

When a multi-part append loses nothing: the invariant of the chunks that wait and their timers,
and the runs that keep it.
-/

namespace CloudI.ServiceFilesystem

open CloudI.Lists List Option Function

/-! ## the chunks of an identifier -/

section Appends

variable {Id Req : Type} [LinearOrder Id] {id other : Id}
  {appends rest : Appends Id Req} {l : List (Chunk Req)}

/-- The chunks that wait for an identifier. -/
def waiting (id : Id) (appends : Appends Id Req) : Option (List (Chunk Req)) :=
  (keytake id appends).map (·.1)

theorem waiting_cons (x : Id × List (Chunk Req)) (appends : Appends Id Req) :
    waiting id (x :: appends) = if x.1 = id then some x.2 else waiting id appends := by
  obtain ⟨id', l⟩ := x
  unfold waiting
  rw [keytake]
  by_cases h : id' = id
  · rw [if_pos h, if_pos h]
    rfl
  · rw [if_neg h, if_neg h, Option.map_map]
    rfl

theorem waiting_eq_none : waiting id appends = none ↔ id ∉ appends.map (·.1) := by
  induction appends with
  | nil => simp [waiting, keytake]
  | cons x appends ih =>
    rw [waiting_cons, map_cons, mem_cons, not_or]
    by_cases h : x.1 = id
    · rw [if_pos h]
      exact iff_of_false (by simp) fun hne => hne.1 h.symm
    · rw [if_neg h, ih]
      exact ⟨fun hid => ⟨Ne.symm h, hid⟩, fun hid => hid.2⟩

/-- Taking the chunks of an identifier leaves those of the others. -/
theorem waiting_of_keytake (h : keytake id appends = some (l, rest))
    (hnodup : (appends.map (·.1)).Nodup) :
    (rest.map (·.1)).Nodup ∧ ∀ other, waiting other rest =
      if other = id then none else waiting other appends := by
  induction appends generalizing rest with
  | nil => cases h
  | cons x appends ih =>
    obtain ⟨id', l'⟩ := x
    rw [map_cons, nodup_cons] at hnodup
    rw [keytake] at h
    by_cases hid : id' = id
    · rw [if_pos hid] at h
      cases h
      subst hid
      refine ⟨hnodup.2, fun other => ?_⟩
      rw [waiting_cons]
      by_cases hother : other = id'
      · rw [if_pos hother, hother]
        exact waiting_eq_none.mpr hnodup.1
      · rw [if_neg hother, if_neg (Ne.symm hother)]
    · rw [if_neg hid] at h
      obtain ⟨x, hx, heq⟩ := map_eq_some_iff.mp h
      obtain ⟨l'', rest'⟩ := x
      cases heq
      obtain ⟨hnodup', hrest⟩ := ih hx hnodup.2
      have hnone : waiting id' rest' = none := by
        rw [hrest, if_neg hid]
        exact waiting_eq_none.mpr hnodup.1
      refine ⟨nodup_cons.mpr ⟨waiting_eq_none.mp hnone, hnodup'⟩, fun other => ?_⟩
      rw [waiting_cons, waiting_cons, hrest]
      by_cases hother : id' = other
      · subst hother
        rw [if_pos rfl, if_pos rfl, if_neg hid]
      · rw [if_neg hother, if_neg hother]

theorem requestAppendTake_of_waiting (h : waiting id appends = some l)
    (hnodup : (appends.map (·.1)).Nodup) :
    ∃ rest, requestAppendTake id appends =
        some (l.map (·.rangeRequest), l.filterMap (·.tref), rest) ∧
      (rest.map (·.1)).Nodup ∧
      ∀ other, waiting other rest = if other = id then none else waiting other appends := by
  obtain ⟨⟨l', rest⟩, htake, heq⟩ := map_eq_some_iff.mp h
  cases heq
  exact ⟨rest, by rw [requestAppendTake, htake]; rfl, waiting_of_keytake htake hnodup⟩

/-- The chunks of a new identifier are put among the others. -/
theorem waiting_uinsertBy (h : id ∉ appends.map (·.1)) :
    ((uinsertBy (·.1) (id, l) appends).map (·.1)).Perm (id :: appends.map (·.1)) ∧
      ∀ other, waiting other (uinsertBy (·.1) (id, l) appends) =
        if other = id then some l else waiting other appends := by
  have hne : ∀ x ∈ appends, x.1 ≠ id := fun x hx heq => h (List.mem_map.mpr ⟨x, hx, heq⟩)
  refine ⟨(perm_uinsertBy hne).map _, fun other => ?_⟩
  induction appends with
  | nil =>
    rw [uinsertBy, waiting_cons]
    by_cases hother : id = other
    · rw [if_pos hother, if_pos hother.symm]
    · rw [if_neg hother, if_neg (Ne.symm hother)]
  | cons x appends ih =>
    rw [forall_mem_cons] at hne
    rw [map_cons, mem_cons, not_or] at h
    rw [uinsertBy]
    by_cases hlt : id < x.1
    · rw [if_pos hlt, waiting_cons]
      by_cases hother : id = other
      · rw [if_pos hother, if_pos hother.symm]
      · rw [if_neg hother, if_neg (Ne.symm hother)]
    · rw [if_neg hlt, if_neg (Ne.symm hne.1), waiting_cons, waiting_cons, ih h.2 hne.2]
      by_cases hother : other = id
      · rw [if_pos hother, if_neg fun hx => hne.1 (hx.trans hother), if_pos hother]
      · rw [if_neg hother, if_neg hother]

variable [LinearOrder Req]

/-- The chunks of an identifier with one more. -/
def stored (index : Int) (rangeRequest : RangeRequest Req) (tref : Option Nat) :
    Option (List (Chunk Req)) → List (Chunk Req)
  | some l => uinsertBy Chunk.rank ⟨index, none, rangeRequest⟩ l
  | none => [⟨index, tref, rangeRequest⟩]

/-- **A chunk is stored** with those of its identifier. -/
theorem waiting_store (id : Id) (index : Int) (rangeRequest : RangeRequest Req) (tref : Option Nat)
    (hnodup : (appends.map (·.1)).Nodup) :
    ((requestAppendStore id index rangeRequest tref appends).map (·.1)).Nodup ∧
      ∀ other, waiting other (requestAppendStore id index rangeRequest tref appends) =
        if other = id then some (stored index rangeRequest tref (waiting id appends))
        else waiting other appends := by
  unfold requestAppendStore
  cases htake : keytake id appends with
  | none =>
    have hnone : waiting id appends = none := by rw [waiting, htake]; rfl
    obtain ⟨hperm, hall⟩ := waiting_uinsertBy (l := [⟨index, tref, rangeRequest⟩])
      (waiting_eq_none.mp hnone)
    refine ⟨hperm.nodup_iff.mpr (nodup_cons.mpr ⟨waiting_eq_none.mp hnone, hnodup⟩),
      fun other => ?_⟩
    rw [hall, hnone]
    rfl
  | some x =>
    obtain ⟨l, next⟩ := x
    have hsome : waiting id appends = some l := by rw [waiting, htake]; rfl
    obtain ⟨hnodup', hnext⟩ := waiting_of_keytake htake hnodup
    have hnone : waiting id next = none := by rw [hnext, if_pos rfl]
    obtain ⟨hperm, hall⟩ := waiting_uinsertBy
      (l := uinsertBy Chunk.rank ⟨index, none, rangeRequest⟩ l) (waiting_eq_none.mp hnone)
    refine ⟨hperm.nodup_iff.mpr (nodup_cons.mpr ⟨waiting_eq_none.mp hnone, hnodup'⟩),
      fun other => ?_⟩
    rw [hall, hsome]
    by_cases hother : other = id
    · rw [if_pos hother, if_pos hother]
      rfl
    · rw [if_neg hother, if_neg hother, hnext, if_neg hother]

/-- The last chunk is stored, and taken with those that wait. -/
theorem requestAppendTake_store (id : Id) (index : Int) (rangeRequest : RangeRequest Req)
    (hnodup : (appends.map (·.1)).Nodup) :
    ∃ rest, requestAppendTake id (requestAppendStore id index rangeRequest none appends) =
        some ((stored index rangeRequest none (waiting id appends)).map (·.rangeRequest),
          (stored index rangeRequest none (waiting id appends)).filterMap (·.tref), rest) ∧
      (rest.map (·.1)).Nodup ∧
      ∀ other, waiting other rest = if other = id then none else waiting other appends := by
  obtain ⟨hnodup', hstore⟩ := waiting_store id index rangeRequest none hnodup
  have hself := hstore id
  rw [if_pos rfl] at hself
  obtain ⟨rest, htake, hrest⟩ := requestAppendTake_of_waiting hself hnodup'
  refine ⟨rest, htake, hrest.1, fun other => ?_⟩
  rw [hrest.2]
  by_cases hother : other = id
  · rw [if_pos hother, if_pos hother]
  · rw [if_neg hother, if_neg hother, hstore, if_neg hother]

end Appends

/-! ## the chunks that have arrived -/

/-- The chunks of each identifier that have arrived since its last chunk, or since they were
cleared, with their indexes. -/
abbrev Arrived (Id Req : Type) := Id → List (Int × RangeRequest Req)

section Tracked

variable {Id Req : Type} [LinearOrder Id] {id : Id} {appends rest : Appends Id Req}
  {l : List (Chunk Req)} {timers : List (Nat × Name × Id)} {messages : List (Name × Id)}
  {arrived : Arrived Id Req}

variable [LinearOrder Req]

/-- **The invariant of the chunks**: those that wait are the ones that have arrived, in the order
of their indexes, and each timer or message is for chunks that wait. -/
structure Tracked (appends : Appends Id Req) (timers : List (Nat × Name × Id))
    (messages : List (Name × Id)) (arrived : Arrived Id Req) : Prop where
  nodup : (appends.map (·.1)).Nodup
  sorted : ∀ id l, waiting id appends = some l → l.Pairwise fun a b => a.rank < b.rank
  gone : ∀ id, waiting id appends = none → arrived id = []
  perm : ∀ id l, waiting id appends = some l → ((arrived id).map (·.1)).Nodup →
    (l.map fun chunk => (chunk.index, chunk.rangeRequest)).Perm (arrived id)
  timer : ∀ t ∈ timers, t.2.1 = .post ∧
    ∃ l, waiting t.2.2 appends = some l ∧ ∃ chunk ∈ l, chunk.tref = some t.1
  message : ∀ m ∈ messages, m.1 = .post ∧ waiting m.2 appends ≠ none
  once : (timers.map (·.2.2) ++ messages.map (·.2)).Nodup

theorem Chunk.index_le_of_rank {a b : Chunk Req} (h : a.rank < b.rank) : a.index ≤ b.index :=
  (Prod.Lex.lt_iff.mp h).elim Int.le_of_lt fun h => Int.le_of_eq h.1

theorem mem_stored (hl : waiting id appends = some l) (h : chunk ∈ l) (index : Int)
    (rangeRequest : RangeRequest Req) (tref : Option Nat) :
    chunk ∈ stored index rangeRequest tref (waiting id appends) := by
  rw [hl]
  exact mem_uinsertBy_of_mem h

section

variable (h : Tracked appends timers messages arrived)

include h

theorem Tracked.sorted_stored (id : Id) (index : Int) (rangeRequest : RangeRequest Req)
    (tref : Option Nat) :
    (stored index rangeRequest tref (waiting id appends)).Pairwise fun a b => a.rank < b.rank := by
  cases hl : waiting id appends with
  | none => exact pairwise_singleton _ _
  | some l => exact pairwise_uinsertBy (h.sorted id l hl)

/-- A chunk with a new index is among those that wait. -/
theorem Tracked.perm_stored (hnodup : (((index, rangeRequest) :: arrived id).map (·.1)).Nodup)
    (tref : Option Nat) : ((stored index rangeRequest tref (waiting id appends)).map fun chunk =>
      (chunk.index, chunk.rangeRequest)).Perm ((index, rangeRequest) :: arrived id) := by
  cases hl : waiting id appends with
  | none =>
    rw [h.gone id hl]
    exact List.Perm.refl _
  | some l =>
    rw [map_cons, nodup_cons] at hnodup
    have hperm := h.perm id l hl hnodup.2
    have hnew : ∀ y ∈ l, y.rank ≠ Chunk.rank ⟨index, none, rangeRequest⟩ := by
      intro y hy heq
      have hindex : y.index = index := congrArg (fun r => (ofLex r).1) heq
      have hmem := hperm.mem_iff.mp (List.mem_map_of_mem hy)
      exact hnodup.1 (List.mem_map.mpr ⟨_, hmem, hindex⟩)
    exact ((perm_uinsertBy hnew).map _).trans (hperm.cons _)

/-- **The order of the indexes** is the order of the chunks. -/
theorem Tracked.eq_stored {index : Int} {rangeRequest : RangeRequest Req}
    {chunks : List (Int × RangeRequest Req)}
    (hperm : chunks.Perm ((index, rangeRequest) :: arrived id))
    (hsorted : chunks.Pairwise fun a b => a.1 < b.1) (tref : Option Nat) :
    (stored index rangeRequest tref (waiting id appends)).map
      (fun chunk => (chunk.index, chunk.rangeRequest)) = chunks := by
  have hnodup : (((index, rangeRequest) :: arrived id).map (·.1)).Nodup := by
    rw [← (hperm.map _).nodup_iff]
    exact pairwise_map.mpr (hsorted.imp Int.ne_of_lt)
  have hstored := (h.perm_stored hnodup tref).trans hperm.symm
  have hle : ((stored index rangeRequest tref (waiting id appends)).map
      fun chunk => (chunk.index, chunk.rangeRequest)).Pairwise fun a b => a.1 ≤ b.1 :=
    pairwise_map.mpr ((h.sorted_stored id index rangeRequest tref).imp Chunk.index_le_of_rank)
  have hle' : chunks.Pairwise fun a b => a.1 ≤ b.1 := hsorted.imp Int.le_of_lt
  refine List.Perm.eq_of_pairwise (fun a b ha hb hab hba => ?_) hle hle' hstored
  have hinj := inj_on_of_nodup_map ((hperm.map _).nodup_iff.mpr hnodup)
  exact hinj (hstored.mem_iff.mp ha) hb (le_antisymm hab hba)

/-- **A chunk that is not the last one is stored**, the first one with a timer. -/
theorem Tracked.store (id : Id) (index : Int) (rangeRequest : RangeRequest Req) (tref : Nat) :
    Tracked (requestAppendStore id index rangeRequest (some tref) appends)
      (if (waiting id appends).isNone then (tref, .post, id) :: timers else timers) messages
      (Function.update arrived id ((index, rangeRequest) :: arrived id)) := by
  obtain ⟨hnodup, hwaiting⟩ := waiting_store id index rangeRequest (some tref) h.nodup
  have hself := hwaiting id
  rw [if_pos rfl] at hself
  have hother : ∀ other, other ≠ id →
      waiting other (requestAppendStore id index rangeRequest (some tref) appends) =
        waiting other appends := fun other hne => by rw [hwaiting, if_neg hne]
  -- what waited still waits
  have hkept : ∀ other l, waiting other appends = some l → ∃ l',
      waiting other (requestAppendStore id index rangeRequest (some tref) appends) = some l' ∧
        ∀ chunk ∈ l, chunk ∈ l' := by
    intro other l hl
    by_cases hne : other = id
    · subst hne
      exact ⟨_, hself, fun chunk hchunk => mem_stored hl hchunk index rangeRequest (some tref)⟩
    · exact ⟨l, (hother other hne).trans hl, fun chunk hchunk => hchunk⟩
  have hold : ∀ t ∈ timers, t.2.1 = Name.post ∧ ∃ l,
      waiting t.2.2 (requestAppendStore id index rangeRequest (some tref) appends) = some l ∧
        ∃ chunk ∈ l, chunk.tref = some t.1 := by
    intro t ht
    obtain ⟨hpost, l, hl, chunk, hchunk, htref⟩ := h.timer t ht
    obtain ⟨l', hl', hmem⟩ := hkept t.2.2 l hl
    exact ⟨hpost, l', hl', chunk, hmem chunk hchunk, htref⟩
  constructor
  case nodup => exact hnodup
  case sorted =>
    intro other l hl
    by_cases hne : other = id
    · rw [hne, hself] at hl
      cases hl
      exact h.sorted_stored id index rangeRequest (some tref)
    · exact h.sorted other l ((hother other hne).symm.trans hl)
  case gone =>
    intro other hnone
    have hne : other ≠ id := fun heq => by
      rw [heq, hself] at hnone
      cases hnone
    rw [update_of_ne hne]
    exact h.gone other ((hother other hne).symm.trans hnone)
  case perm =>
    intro other l hl hindexes
    by_cases hne : other = id
    · subst hne
      rw [update_self] at hindexes ⊢
      rw [hself] at hl
      cases hl
      exact h.perm_stored hindexes (some tref)
    · rw [update_of_ne hne] at hindexes ⊢
      exact h.perm other l ((hother other hne).symm.trans hl) hindexes
  case timer =>
    by_cases hfirst : (waiting id appends).isNone
    · rw [if_pos hfirst, forall_mem_cons]
      refine ⟨⟨rfl, _, hself, ⟨index, some tref, rangeRequest⟩, ?_, rfl⟩, hold⟩
      rw [isNone_iff_eq_none.mp hfirst]
      exact mem_singleton_self _
    · rw [if_neg hfirst]
      exact hold
  case message =>
    intro m hm
    obtain ⟨hpost, hne⟩ := h.message m hm
    obtain ⟨l, hl⟩ := ne_none_iff_exists'.mp hne
    obtain ⟨l', hl', -⟩ := hkept m.2 l hl
    exact ⟨hpost, by rw [hl']; exact some_ne_none l'⟩
  case once =>
    by_cases hfirst : (waiting id appends).isNone
    · rw [if_pos hfirst]
      have hnone := isNone_iff_eq_none.mp hfirst
      refine nodup_cons.mpr ⟨fun hmem => ?_, h.once⟩
      rcases mem_append.mp hmem with hmem | hmem
      · obtain ⟨t, ht, heq⟩ := List.mem_map.mp hmem
        obtain ⟨-, l, hl, -⟩ := h.timer t ht
        rw [heq, hnone] at hl
        cases hl
      · obtain ⟨m, hm, heq⟩ := List.mem_map.mp hmem
        exact (h.message m hm).2 (heq ▸ hnone)
    · rw [if_neg hfirst]
      exact h.once

/-- **The chunks of an identifier are taken**, with their timers. -/
theorem Tracked.take (hnodup : (rest.map (·.1)).Nodup)
    (hrest : ∀ other, waiting other rest = if other = id then none else waiting other appends)
    (htimers : timers'.Sublist timers) (hmessages : messages'.Sublist messages)
    (htimer : ∀ t ∈ timers', t.2.2 ≠ id) (hmessage : ∀ m ∈ messages', m.2 ≠ id) :
    Tracked rest timers' messages' (Function.update arrived id []) := by
  have hself : waiting id rest = none := by rw [hrest, if_pos rfl]
  have hother : ∀ other, other ≠ id → waiting other rest = waiting other appends :=
    fun other hne => by rw [hrest, if_neg hne]
  have hne : ∀ other l, waiting other rest = some l → other ≠ id := by
    intro other l hl heq
    rw [heq, hself] at hl
    cases hl
  constructor
  case nodup => exact hnodup
  case sorted =>
    intro other l hl
    exact h.sorted other l ((hother other (hne other l hl)).symm.trans hl)
  case gone =>
    intro other hnone
    by_cases heq : other = id
    · rw [heq, update_self]
    · rw [update_of_ne heq]
      exact h.gone other ((hother other heq).symm.trans hnone)
  case perm =>
    intro other l hl hindexes
    rw [update_of_ne (hne other l hl)] at hindexes ⊢
    exact h.perm other l ((hother other (hne other l hl)).symm.trans hl) hindexes
  case timer =>
    intro t ht
    obtain ⟨hpost, l, hl, hchunk⟩ := h.timer t (htimers.mem ht)
    exact ⟨hpost, l, (hother _ (htimer t ht)).trans hl, hchunk⟩
  case message =>
    intro m hm
    obtain ⟨hpost, hwait⟩ := h.message m (hmessages.mem hm)
    exact ⟨hpost, by rwa [hother _ (hmessage m hm)]⟩
  case once => exact ((htimers.map _).append (hmessages.map _)).nodup h.once

theorem Tracked.cancelled (id : Id) (taken : List (Chunk Req))
    (htaken : ∀ l, waiting id appends = some l → ∀ chunk ∈ l, chunk ∈ taken) :
    ∀ t ∈ timers.filter (·.1 ∉ taken.filterMap (·.tref)), t.2.2 ≠ id := by
  intro t ht heq
  rw [mem_filter] at ht
  obtain ⟨-, l, hl, chunk, hchunk, htref⟩ := h.timer t ht.1
  rw [heq] at hl
  have hmem := mem_filterMap.mpr ⟨chunk, htaken l hl chunk hchunk, htref⟩
  exact of_decide_eq_true ht.2 hmem

/-- A timer runs out. -/
theorem Tracked.fire (ht : t ∈ timers) :
    Tracked appends (timers.filter (·.1 ≠ t.1)) (messages ++ [t.2]) arrived := by
  obtain ⟨hpost, l, hl, -⟩ := h.timer t ht
  refine { h with
    timer := fun t' ht' => h.timer t' (mem_filter.mp ht').1
    message := ?_
    once := ?_ }
  · rw [forall_mem_append, forall_mem_singleton]
    exact ⟨h.message, hpost, by rw [hl]; exact some_ne_none l⟩
  · have honce := nodup_append.mp h.once
    rw [map_append, ← append_assoc, map_singleton]
    have hsub : ((timers.filter (·.1 ≠ t.1)).map (·.2.2) ++ messages.map (·.2)).Sublist
        (timers.map (·.2.2) ++ messages.map (·.2)) :=
      ((filter_sublist).map _).append (List.Sublist.refl _)
    refine nodup_append.mpr ⟨hsub.nodup h.once, nodup_singleton _, ?_⟩
    intro id hid id' hid' heq
    rw [mem_singleton.mp hid'] at heq
    subst heq
    rcases mem_append.mp hid with hid | hid
    · -- another timer for the identifier
      obtain ⟨t', ht', heq⟩ := List.mem_map.mp hid
      rw [mem_filter] at ht'
      have hsame : t' = t := inj_on_of_nodup_map honce.1 ht'.1 ht heq
      exact of_decide_eq_true ht'.2 (congrArg (·.1) hsame)
    · exact honce.2.2 _ (List.mem_map_of_mem ht) _ hid rfl

end

end Tracked

end CloudI.ServiceFilesystem
