import CloudI.Library.Fifos
import CloudI.Pqueue.Basic
import Mathlib.Order.MinMax
import Mathlib.Order.Nat

/-!
# Pqueue.Join

What `join/2` makes of two queues.  The joined queue holds at each priority the
elements of the first queue before those of the second one, and drains as the stable
priority queue with these lists.  The cached priority is a lower bound of the
occupied ones: `out/1` leaves it where it took an element, and `join/2` takes the
smaller of the two.
-/

namespace CloudI.Pqueue

open Fifos Function

variable {α β : Type}

/-! ## the tuples as a map -/

/-- The priority of a place. -/
def Slot.priority : Slot → Int
  | .n14 i => i - 20
  | .n7 i => i - 13
  | .n1 i => i - 6
  | .zero => 0
  | .p1 i => i + 1
  | .p7 i => i + 7
  | .p14 i => i + 14

theorem priority_slot (hp : InRange p) : (slot p).priority = p := by
  obtain ⟨h1, h2⟩ := hp
  unfold slot
  split_ifs <;> simp only [Slot.priority, Fin.val_ofNat] <;> omega

theorem slot_injective (hp : InRange p) (hr : InRange r) (h : slot p = slot r) : p = r := by
  rw [← priority_slot hp, h, priority_slot hr]

theorem getElem_set (t : Vector (ErlQueue α) n) (i i' : Fin n) (v : ErlQueue α) :
    (t.set i v)[i'] = if i = i' then v else t[i'] := by
  by_cases hi : i = i'
  · subst hi
    simp
  · have hne : (i : Nat) ≠ i' := fun h => hi (Fin.ext h)
    simp [hi, hne]

theorem Slot.get_set (s s' : Slot) (v : ErlQueue α) (q : PQueue α) :
    s'.get (s.set v q) = if s = s' then v else s'.get q := by
  cases s <;> cases s' <;> simp only [Slot.get, Slot.set, getElem_set, Slot.n14.injEq,
    Slot.n7.injEq, Slot.n1.injEq, Slot.p1.injEq, Slot.p7.injEq, Slot.p14.injEq, reduceCtorEq,
    if_false, if_true]

theorem bucket_setBucket (hp : InRange p) (hr : InRange r) (v : ErlQueue α) (q : PQueue α) :
    bucket r (setBucket p v q) = if p = r then v else bucket r q := by
  rw [bucket, setBucket, Slot.get_set]
  by_cases hpr : p = r
  · rw [if_pos hpr, if_pos (congrArg slot hpr)]
  · rw [if_neg hpr, if_neg fun h => hpr (slot_injective hp hr h)]
    rfl

@[simp] theorem bucket_with (r : Int) (q : PQueue α) (pc : Option Int) :
    bucket r { q with pc } = bucket r q := by
  unfold bucket
  cases slot r <;> rfl

theorem bucket_join (p : Int) (q1 q2 : PQueue α) :
    bucket p (join q1 q2) = (bucket p q1).join (bucket p q2) := by
  unfold bucket
  cases slot p <;> simp [Slot.get, join]

/-! ## the contents -/

/-- The priorities, in order. -/
def priorities : List Int := (List.range 41).map fun i : Nat => (i : Int) - 20

theorem mem_priorities : p ∈ priorities ↔ InRange p := by
  simp only [priorities, List.mem_map, List.mem_range, InRange]
  constructor
  · rintro ⟨i, hi, rfl⟩
    omega
  · intro h
    exact ⟨(p + 20).toNat, by omega, by omega⟩

theorem priorities_pairwise : priorities.Pairwise (· < ·) := by
  rw [priorities, List.pairwise_map]
  exact List.pairwise_lt_range.imp fun h => by omega

/-- The elements at each priority, oldest first. -/
def contents (q : PQueue α) (p : Int) : List α :=
  if InRange p then (bucket p q).toList else []

theorem contents_of_not_inRange (q : PQueue α) (hp : ¬ InRange p) : contents q p = [] :=
  if_neg hp

theorem contents_of_inRange (q : PQueue α) (hp : InRange p) :
    contents q p = (bucket p q).toList := if_pos hp

@[simp] theorem contents_with (q : PQueue α) (pc : Option Int) :
    contents { q with pc } = contents q := by
  funext p
  rw [contents, contents, bucket_with]

theorem contents_set (hp : InRange p) (v : ErlQueue α) (q : PQueue α) (pc : Option Int) :
    contents { setBucket p v q with pc } = update (contents q) p v.toList := by
  funext r
  rw [contents_with]
  by_cases hr : InRange r
  · rw [contents_of_inRange _ hr, bucket_setBucket hp hr]
    by_cases hpr : p = r
    · subst hpr
      rw [if_pos rfl, update_self]
    · rw [if_neg hpr, update_of_ne (Ne.symm hpr), contents_of_inRange _ hr]
  · have hpr : r ≠ p := fun h => hr (h ▸ hp)
    rw [contents_of_not_inRange _ hr, update_of_ne hpr, contents_of_not_inRange _ hr]

theorem contents_new : contents (new : PQueue α) = fun _ => [] := by
  funext p
  by_cases hp : InRange p
  · rw [contents_of_inRange _ hp, bucket]
    cases slot p <;> simp [Slot.get, new]
  · exact contents_of_not_inRange _ hp

/-- **The joined lists**: at each priority those of the first queue come first. -/
theorem contents_join (q1 q2 : PQueue α) :
    contents (join q1 q2) = fun p => contents q1 p ++ contents q2 p := by
  funext p
  by_cases hp : InRange p
  · rw [contents_of_inRange _ hp, contents_of_inRange _ hp, contents_of_inRange _ hp, bucket_join,
      ErlQueue.toList_join]
  · rw [contents_of_not_inRange _ hp, contents_of_not_inRange _ hp, contents_of_not_inRange _ hp]
    rfl

/-! ## the invariant -/

/-- No element has a priority below the cached one; there is none at all when it is
`empty`. -/
def Bounded (pc : Option Int) (a : Int → List α) : Prop :=
  match pc with
  | none => ∀ p, a p = []
  | some c => InRange c ∧ ∀ r < c, a r = []

/-- The cached priority is a lower bound of the occupied ones. -/
def Cached (q : PQueue α) : Prop := Bounded q.pc (contents q)

theorem cached_new : Cached (new : PQueue α) := fun p => by rw [contents_new]

theorem Bounded.update (h : Bounded (some c) a) (hp : c ≤ p) (l : List α) :
    Bounded (some c) (update a p l) := by
  refine ⟨h.1, fun r hr => ?_⟩
  rw [update_of_ne (ne_of_lt (lt_of_lt_of_le hr hp)), h.2 r hr]

/-- **Join**: the smaller bound is one of both. -/
theorem Bounded.join (h1 : Bounded pc1 a1) (h2 : Bounded pc2 a2) :
    Bounded (minPc pc1 pc2) fun p => a1 p ++ a2 p := by
  cases pc1 with
  | none =>
    have happend : (fun p => a1 p ++ a2 p) = a2 := by
      funext p
      rw [h1 p, List.nil_append]
    rw [happend]
    exact h2
  | some c1 =>
    cases pc2 with
    | none =>
      have happend : (fun p => a1 p ++ a2 p) = a1 := by
        funext p
        rw [h2 p, List.append_nil]
      rw [happend]
      exact h1
    | some c2 =>
      refine ⟨?_, fun r hr => ?_⟩
      · rcases min_choice c1 c2 with hmin | hmin
        · rw [hmin]
          exact h1.1
        · rw [hmin]
          exact h2.1
      · have hlt := lt_min_iff.mp hr
        show a1 r ++ a2 r = []
        rw [h1.2 r hlt.1, h2.2 r hlt.2]
        rfl

theorem cached_join (h1 : Cached q1) (h2 : Cached q2) : Cached (join q1 q2) := by
  rw [Cached, contents_join]
  exact h1.join h2

/-! ## in and out -/

theorem enterAt_spec (h : Cached q) (hp : InRange p) (x : α) :
    ∃ q', enterAt x p q = some q' ∧ Cached q' ∧
      contents q' = update (contents q) p (contents q p ++ [x]) := by
  have hrange : ¬ (p < -20 ∨ p > 20) := by
    obtain ⟨h1, h2⟩ := hp
    omega
  have hlist : ((bucket p q).enter x).toList = contents q p ++ [x] := by
    rw [ErlQueue.toList_enter, contents_of_inRange q hp]
  have hset : ∀ pc, contents { setBucket p ((bucket p q).enter x) q with pc } =
      update (contents q) p (contents q p ++ [x]) := fun pc => by
    rw [contents_set hp, hlist]
  have hhigher : (∀ r < p, contents q r = []) → Cached (inHigher p q x) := by
    intro hbelow
    rw [Cached, inHigher, hset]
    exact Bounded.update ⟨hp, hbelow⟩ le_rfl _
  rw [enterAt, if_neg hrange]
  rw [Cached] at h
  cases hpc : q.pc with
  | none =>
    rw [hpc] at h
    exact ⟨_, rfl, hhigher fun r _ => h r, hset _⟩
  | some pc =>
    rw [hpc] at h
    by_cases hlt : p < pc
    · exact ⟨_, if_pos hlt, hhigher fun r hr => h.2 r (hr.trans hlt), hset _⟩
    · refine ⟨_, if_neg hlt, ?_, hset _⟩
      rw [Cached, inLower, hset, hpc]
      exact h.update (not_lt.mp hlt) _

theorem bucket_out (q : PQueue α) (hp : InRange p) :
    (contents q p = [] ∧ (bucket p q).out = (none, bucket p q)) ∨
    ∃ x v, (bucket p q).out = (some x, v) ∧ contents q p = x :: v.toList := by
  rw [contents_of_inRange q hp]
  exact (bucket p q).out_toList

theorem before_zero : before 0 = 20 := by
  unfold before
  rfl

theorem before_eq (k : Nat) : before k = 20 - k := by
  unfold before
  rfl

/-- What `out_current/3` does: it takes the oldest element of the smallest occupied
priority, or there is none and the cached priority gets `empty`. -/
def TakesFirst (returnType : α → Int → β) (q : PQueue α) (r : Option β × PQueue α) : Prop :=
  ((∀ p, contents q p = []) ∧ r.1 = none ∧ contents r.2 = contents q ∧ r.2.pc = none) ∨
  ∃ p x l, First (contents q) p x l ∧ r.1 = some (returnType x p) ∧ Cached r.2 ∧
    contents r.2 = update (contents q) p l

theorem takesFirst_of_out (returnType : α → Int → β) (hp : InRange p)
    (hbelow : ∀ r < p, contents q r = []) (hcons : contents q p = x :: v.toList) :
    TakesFirst returnType q (some (returnType x p), { setBucket p v q with pc := some p }) := by
  refine .inr ⟨p, x, v.toList, ⟨hcons, hbelow⟩, rfl, ?_, contents_set hp v q _⟩
  rw [Cached, contents_set hp v q]
  exact Bounded.update ⟨hp, hbelow⟩ le_rfl _

theorem outCurrent_spec (returnType : α → Int → β) (hk : k ≤ 40)
    (hbelow : ∀ r < before k, contents q r = []) :
    TakesFirst returnType q (outCurrent returnType k q) := by
  induction k with
  | zero =>
    rw [before_zero] at hbelow
    have hp : InRange 20 := by decide
    rw [outCurrent]
    rcases bucket_out q hp with ⟨hnil, hout⟩ | ⟨x, v, hout, hcons⟩
    · rw [hout]
      refine .inl ⟨fun p => ?_, rfl, contents_with q none, rfl⟩
      by_cases hlt : p < 20
      · exact hbelow p hlt
      · by_cases hgt : p = 20
        · rw [hgt, hnil]
        · refine contents_of_not_inRange q fun hrange => ?_
          obtain ⟨h1, h2⟩ := hrange
          omega
    · rw [hout]
      exact takesFirst_of_out returnType hp hbelow hcons
  | succ k ih =>
    have hnext := before_eq (k + 1)
    have hthis := before_eq k
    have hp : InRange (before (k + 1)) := by
      constructor <;> omega
    rw [outCurrent]
    rcases bucket_out q hp with ⟨hnil, hout⟩ | ⟨x, v, hout, hcons⟩
    · simp only [hout]
      refine ih (by omega) fun r hr => ?_
      by_cases hr' : r < before (k + 1)
      · exact hbelow r hr'
      · have hrk : r = before (k + 1) := by omega
        rw [hrk, hnil]
    · simp only [hout]
      exact takesFirst_of_out returnType hp hbelow hcons

theorem outReturning_spec (returnType : α → Int → β) (h : Cached q) :
    TakesFirst returnType q (outReturning returnType q) := by
  rw [outReturning]
  rw [Cached] at h
  cases hpc : q.pc with
  | none =>
    rw [hpc] at h
    exact .inl ⟨h, rfl, rfl, hpc⟩
  | some c =>
    rw [hpc] at h
    obtain ⟨⟨h1, h2⟩, hbelow⟩ := h
    refine outCurrent_spec returnType (by omega) fun r hr => hbelow r ?_
    rw [before_eq] at hr
    omega

theorem TakesFirst.cached (h : TakesFirst returnType q r) : Cached r.2 := by
  rcases h with ⟨hnil, -, hcontents, hpc⟩ | ⟨p, x, l, -, -, hcached, -⟩
  · rw [Cached, hpc, hcontents]
    exact hnil
  · exact hcached

/-- `out/2` takes the oldest element of its priority. -/
theorem outAt_spec (h : Cached q) (hp : InRange p) :
    ∃ value q', outAt p q = some (value, q') ∧ Cached q' ∧
      ((value = none ∧ contents q p = [] ∧ contents q' = contents q) ∨
        ∃ x l, value = some x ∧ contents q p = x :: l ∧
          contents q' = update (contents q) p l) := by
  have hrange : ¬ (p < -20 ∨ p > 20) := by
    obtain ⟨h1, h2⟩ := hp
    omega
  rw [outAt, if_neg hrange]
  cases hpc : q.pc with
  | none =>
    have hnil := h
    rw [Cached, hpc] at hnil
    exact ⟨none, q, rfl, h, .inl ⟨rfl, hnil p, rfl⟩⟩
  | some c =>
    rw [Cached, hpc] at h
    simp only [outSpecific]
    rcases bucket_out q hp with ⟨hnil, hout⟩ | ⟨x, v, hout, hcons⟩
    · have hsame : contents { setBucket p (bucket p q) q with pc := q.pc } = contents q := by
        rw [contents_set hp, ← contents_of_inRange q hp, update_eq_self]
      rw [hout]
      refine ⟨none, _, rfl, ?_, .inl ⟨rfl, hnil, hsame⟩⟩
      rw [Cached, hsame, hpc]
      exact h
    · rw [hout]
      refine ⟨some x, _, rfl, ?_, .inr ⟨x, v.toList, rfl, hcons, contents_set hp v q _⟩⟩
      rw [Cached, contents_set hp, hpc]
      refine h.update (not_lt.mp fun hlt => ?_) _
      rw [h.2 p hlt] at hcons
      cases hcons

/-! ## runs -/

/-- A queue that operations made from new queues. -/
inductive Reachable : PQueue α → Prop
  | new : Reachable new
  | enter (h : Reachable q) (hq : enter x q = some q') : Reachable q'
  | enterAt (h : Reachable q) (hq : enterAt x p q = some q') : Reachable q'
  | out (h : Reachable q) : Reachable (out q).2
  | pout (h : Reachable q) : Reachable (pout q).2
  | outAt (h : Reachable q) (hq : outAt p q = some (value, q')) : Reachable q'
  | join (h1 : Reachable q1) (h2 : Reachable q2) : Reachable (join q1 q2)

theorem inRange_of_enterAt (h : enterAt x p q = some q') : InRange p := by
  by_cases hrange : p < -20 ∨ p > 20
  · rw [enterAt, if_pos hrange] at h
    cases h
  · constructor <;> omega

theorem inRange_of_outAt (h : outAt p q = some r) : InRange p := by
  by_cases hrange : p < -20 ∨ p > 20
  · rw [outAt, if_pos hrange] at h
    cases h
  · constructor <;> omega

theorem cached_of_enterAt (h : Cached q) (hq : enterAt x p q = some q') : Cached q' := by
  obtain ⟨q'', heq, hcached, -⟩ := enterAt_spec h (inRange_of_enterAt hq) x
  rw [heq] at hq
  cases hq
  exact hcached

/-- **Every run**: the cached priority stays a lower bound. -/
theorem Reachable.cached (h : Reachable q) : Cached q := by
  induction h with
  | new => exact cached_new
  | enter h hq ih => exact cached_of_enterAt ih hq
  | enterAt h hq ih => exact cached_of_enterAt ih hq
  | out h ih => exact (outReturning_spec _ ih).cached
  | pout h ih => exact (outReturning_spec _ ih).cached
  | outAt h hq ih =>
    obtain ⟨value', q'', heq, hcached, -⟩ := outAt_spec ih (inRange_of_outAt hq)
    rw [heq] at hq
    cases hq
    exact hcached
  | join h1 h2 ih1 ih2 => exact cached_join ih1 ih2

/-! ## draining -/

/-- The elements that `n` calls of `out/1` answer. -/
def drain : Nat → PQueue α → List α
  | 0, _ => []
  | n + 1, q =>
      match out q with
      | (none, _) => []
      | (some x, q) => x :: drain n q

/-- **Draining** answers the elements by their priority, and the oldest first. -/
theorem drain_eq (h : Cached q) (n : Nat) :
    drain n q = (elements priorities (contents q)).take n := by
  induction n generalizing q with
  | zero => rfl
  | succ n ih =>
    rw [drain]
    have hout := outReturning_spec (fun x _ => x) h
    rw [show outReturning (fun x _ => x) q = out q from rfl] at hout
    rcases hout with ⟨hnil, hnone, -⟩ | ⟨p, x, l, hfirst, hsome, hcached, hcontents⟩
    · rw [elements_nil hnil, List.take_nil]
      generalize out q = r at hnone
      obtain ⟨value, q'⟩ := r
      cases hnone
      rfl
    · have hp : InRange p := by
        by_contra hrange
        have hcons := hfirst.head
        rw [contents_of_not_inRange q hrange] at hcons
        cases hcons
      rw [elements_first priorities_pairwise (mem_priorities.mpr hp) hfirst, List.take_succ_cons]
      generalize out q = r at hsome hcached hcontents
      obtain ⟨value, q'⟩ := r
      cases hsome
      rw [← hcontents, ← ih hcached]

/-! ## join -/

/-- The cached priority is the smallest occupied one, or `empty`. -/
def Exact (q : PQueue α) : Prop :=
  q.pc = none ∨ ∃ p x l, q.pc = some p ∧ First (contents q) p x l

/-- What drains from a joined queue: at each priority the elements of the first queue
and then those of the second one. -/
def DrainsJoined (q1 q2 : PQueue α) : Prop :=
  ∀ n, drain n (join q1 q2) =
    (elements priorities fun p => contents q1 p ++ contents q2 p).take n

/-- **A join that is right**: it drains as the stable priority queue of both, and its
cached priority is the smallest occupied one, `empty` only if those of both are. -/
def JoinsExactly (q1 q2 : PQueue α) : Prop :=
  DrainsJoined q1 q2 ∧ Exact (join q1 q2) ∧
    ((join q1 q2).pc = none → q1.pc = none ∧ q2.pc = none)

/-- What a join does: its cached priority is not above the smallest occupied one, and
is that one when the cached priorities of both queues are theirs. -/
structure Joins (q1 q2 : PQueue α) : Prop where
  drains : DrainsJoined q1 q2
  bound : ∀ c p x l, (join q1 q2).pc = some c → First (contents (join q1 q2)) p x l → c ≤ p
  exact : Exact q1 → Exact q2 → Exact (join q1 q2)
  empty : (join q1 q2).pc = none → q1.pc = none ∧ q2.pc = none
  empty_nil : (join q1 q2).pc = none → ∀ p, contents (join q1 q2) p = []

theorem drainsJoined (h1 : Cached q1) (h2 : Cached q2) : DrainsJoined q1 q2 := by
  intro n
  rw [drain_eq (cached_join h1 h2), contents_join]

theorem minPc_eq_none (h : minPc pc1 pc2 = none) : pc1 = none ∧ pc2 = none := by
  cases pc1 with
  | none => exact ⟨rfl, h⟩
  | some c1 => cases pc2 <;> cases h

/-- A queue whose cached priority is `empty` has no part in a joined list. -/
theorem Cached.of_none (h : Cached q) (hpc : q.pc = none) (p : Int) : contents q p = [] := by
  rw [Cached, hpc] at h
  exact h p

theorem exact_join (h1 : Cached q1) (h2 : Cached q2) (he1 : Exact q1) (he2 : Exact q2) :
    Exact (join q1 q2) := by
  rw [Exact, contents_join]
  have hpc : (join q1 q2).pc = minPc q1.pc q2.pc := rfl
  rw [hpc]
  rcases he1 with he1 | ⟨c1, x1, l1, he1, hfirst1⟩
  · rcases he2 with he2 | ⟨c2, x2, l2, he2, hfirst2⟩
    · rw [he1, he2]
      exact .inl rfl
    · rw [he1, he2]
      refine .inr ⟨c2, x2, l2, rfl, ?_, fun r hr => ?_⟩
      · rw [h1.of_none he1, hfirst2.head, List.nil_append]
      · rw [h1.of_none he1, hfirst2.below r hr, List.nil_append]
  · rcases he2 with he2 | ⟨c2, x2, l2, he2, hfirst2⟩
    · rw [he1, he2]
      refine .inr ⟨c1, x1, l1, rfl, ?_, fun r hr => ?_⟩
      · rw [h2.of_none he2, hfirst1.head, List.append_nil]
      · rw [h2.of_none he2, hfirst1.below r hr, List.append_nil]
    · rw [he1, he2]
      by_cases hle : c1 ≤ c2
      · refine .inr ⟨c1, x1, l1 ++ contents q2 c1, congrArg some (min_eq_left hle), ?_,
          fun r hr => ?_⟩
        · rw [hfirst1.head, List.cons_append]
        · rw [hfirst1.below r hr, hfirst2.below r (lt_of_lt_of_le hr hle), List.nil_append]
      · have hlt := not_le.mp hle
        refine .inr ⟨c2, x2, l2, congrArg some (min_eq_right hlt.le), ?_, fun r hr => ?_⟩
        · rw [hfirst1.below c2 hlt, hfirst2.head, List.nil_append]
        · rw [hfirst1.below r (hr.trans hlt), hfirst2.below r hr, List.nil_append]

/-- **Joining**: for every two queues that operations can make. -/
theorem joins {q1 q2 : PQueue α} (hq1 : Reachable q1) (hq2 : Reachable q2) : Joins q1 q2 := by
  have h1 := hq1.cached
  have h2 := hq2.cached
  have hjoin := cached_join h1 h2
  constructor
  case drains => exact drainsJoined h1 h2
  case bound =>
      intro c p x l hpc hfirst
      rw [Cached, hpc] at hjoin
      by_contra hlt
      have hnil := hjoin.2 p (not_le.mp hlt)
      rw [hfirst.head] at hnil
      cases hnil
  case exact => exact exact_join h1 h2
  case empty => exact minPc_eq_none
  case empty_nil => exact fun hpc => hjoin.of_none hpc

/-- An element at priority 0 that was taken out. -/
def drainedQueue : PQueue Nat := (out (inHigher 0 new 7)).2

/-- An element at priority 5. -/
def laterQueue : PQueue Nat := inHigher 5 new 9

theorem reachable_drainedQueue : Reachable drainedQueue :=
  .out (.enterAt (x := 7) (p := 0) .new rfl)

theorem reachable_laterQueue : Reachable laterQueue := .enterAt (x := 9) (p := 5) .new rfl

/-- Two elements at priority 5 and one at priority -3. -/
def firstQueue : PQueue Nat := inLower 5 (inHigher (-3) (inHigher 5 new 1) 2) 3

/-- An element at priority 5 and one at priority 20. -/
def secondQueue : PQueue Nat := inLower 20 (inHigher 5 new 4) 6

theorem joins_sharedPriority :
    contents (join firstQueue secondQueue) 5 = [1, 3, 4] ∧ Joins firstQueue secondQueue :=
  ⟨by decide +kernel,
    joins (.enterAt (x := 3) (p := 5) (.enterAt (x := 2) (p := -3) (.enterAt (x := 1) (p := 5)
        .new rfl) rfl) rfl)
      (.enterAt (x := 6) (p := 20) (.enterAt (x := 4) (p := 5) .new rfl) rfl)⟩

/-- **The cached priority stays behind**: it is 0 in the joined queue, whose only
element has priority 5. -/
theorem join_keeps_cached_priority :
    Reachable drainedQueue ∧ Reachable laterQueue ∧ ¬ JoinsExactly drainedQueue laterQueue := by
  refine ⟨reachable_drainedQueue, reachable_laterQueue, ?_⟩
  rintro ⟨-, hexact, -⟩
  have hpc : (join drainedQueue laterQueue).pc = some 0 := by decide +kernel
  have hnil : contents drainedQueue 0 ++ contents laterQueue 0 = [] := by decide +kernel
  rcases hexact with hnone | ⟨p, x, l, hp, hfirst⟩
  · rw [hpc] at hnone
    cases hnone
  · rw [hpc] at hp
    cases hp
    have hcons : contents drainedQueue 0 ++ contents laterQueue 0 = x :: l :=
      (congrFun (contents_join drainedQueue laterQueue) 0).symm.trans hfirst.head
    rw [hnil] at hcons
    cases hcons

end CloudI.Pqueue
