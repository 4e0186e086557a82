import CloudI.Pqueue4.Buckets

/-!
# Pqueue4.Operations

One lemma for each operation of the queue: that it keeps the caches right, what
it answers and what it does to the contents.

The lemmas about the recursions through the priorities carry what is known of
the priorities already passed.
-/

namespace CloudI.Pqueue4

open Fifos List Function
open Function (update_self update_of_ne)

variable {α : Type}

theorem before_eq (k : Nat) : before k = 128 - k := by rw [before]

theorem before_zero : before 0 = 128 := by rw [before_eq]; rfl

/-- The priorities below one of the recursions' are those below the next, and
that one. -/
theorem before_succ (k : Nat) : before k = before (k + 1) + 1 := by
  rw [before_eq, before_eq]
  omega

theorem inRange_before (hk : k ≤ 256) : InRange (before k) := by
  rw [before_eq]
  exact ⟨by omega, by omega⟩

theorem currentOr_of_ne (h : size ≠ 0) (pc : Option Int) : currentOr size pc = pc := if_neg h

/-- Changing a list to one that is empty where it was keeps a lower bound of the
occupied priorities. -/
theorem below_update {a : Int → List α} (hbelow : ∀ r < c, a r = []) (hl : a p = [] → l = []) :
    ∀ r < c, update a p l r = [] := by
  intro r hr
  by_cases hpr : r = p
  · subst hpr
    rw [update_self]
    exact hl (hbelow r hr)
  · rw [update_of_ne hpr]
    exact hbelow r hr

variable {q : PQueue α} {k : Nat}

theorem Cached.current_update (h : Cached q) (hsize : q.size ≠ 0) (hl : contents q p = [] → l = [])
    : ∃ c, q.pc = some c ∧ InRange c ∧ ∀ r < c, update (contents q) p l r = [] := by
  obtain ⟨c, hc, hrange, hbelow⟩ := h.current hsize
  exact ⟨c, hc, hrange, below_update hbelow hl⟩

/-! ## in -/

section

variable (h : Cached q) (hp : InRange p)

include h hp

theorem inHigher_spec (hbelow : ∀ r < p, contents q r = []) (x : α) : Cached (inHigher p q x) ∧
      contents (inHigher p q x) = update (contents q) p (contents q p ++ [x]) := by
  have hpos : q.size + 1 ≠ 0 := by
    have := h.size_eq
    omega
  have hlist : ((bucket p q).enter x).toList = contents q p ++ [x] := by
    rw [ErlQueue.toList_enter, contents_of_inRange q hp]
  have hcached := cached_set (n := q.size + 1) (m := some p) h hp ((bucket p q).enter x)
    (by rw [hlist, length_append]; simp only [length_singleton]; omega)
    (fun _ => ⟨p, rfl, hp, fun r hr => by
      rw [update_of_ne (ne_of_lt hr)]; exact hbelow r hr⟩)
  rw [currentOr_of_ne hpos] at hcached
  exact ⟨hcached, by rw [inHigher, contents_set hp, hlist]⟩

theorem inLower_spec (hpc : q.pc = some c) (hle : c ≤ p) (x : α) : Cached (inLower p q x) ∧
      contents (inLower p q x) = update (contents q) p (contents q p ++ [x]) := by
  have hpos : q.size + 1 ≠ 0 := by
    have := h.size_eq
    omega
  have hne : q.size ≠ 0 := fun h0 => by
    have := h.empty h0
    rw [hpc] at this
    cases this
  obtain ⟨c', hc', hrange, hbelow⟩ := h.current hne
  rw [hpc, Option.some.injEq] at hc'
  subst hc'
  have hlist : ((bucket p q).enter x).toList = contents q p ++ [x] := by
    rw [ErlQueue.toList_enter, contents_of_inRange q hp]
  have hcached := cached_set (n := q.size + 1) (m := q.pc) h hp ((bucket p q).enter x)
    (by rw [hlist, length_append]; simp only [length_singleton]; omega)
    (fun _ => ⟨c, hpc, hrange, fun r hr => by
      rw [update_of_ne (by omega)]; exact hbelow r hr⟩)
  rw [currentOr_of_ne hpos] at hcached
  exact ⟨hcached, by rw [inLower, contents_set hp, hlist]⟩

/-- `in/3` appends to the list of its priority. -/
theorem enterAt_spec (x : α) : ∃ q', enterAt x p q = .ok q' ∧ Cached q' ∧
      contents q' = update (contents q) p (contents q p ++ [x]) := by
  have hrange : ¬ (p < -128 ∨ p > 128) := by
    obtain ⟨h1, h2⟩ := hp
    omega
  unfold enterAt
  rw [if_neg hrange]
  cases hpc : q.pc with
  | none =>
    have hzero : q.size = 0 := by
      by_contra hne
      obtain ⟨c, hc, -⟩ := h.current hne
      rw [hpc] at hc
      cases hc
    exact ⟨_, rfl, inHigher_spec h hp (fun r _ => h.contents_eq_nil hzero r) x⟩
  | some c =>
    by_cases hlt : p < c
    · refine ⟨_, if_pos hlt, inHigher_spec h hp (fun r hr => ?_) x⟩
      have hne : q.size ≠ 0 := fun h0 => by
        have := h.empty h0
        rw [hpc] at this
        cases this
      obtain ⟨c', hc', -, hbelow⟩ := h.current hne
      rw [hpc, Option.some.injEq] at hc'
      subst hc'
      exact hbelow r (by omega)
    · exact ⟨_, if_neg hlt, inLower_spec h hp hpc (by omega) x⟩

/-! ## out and pout -/

theorem take_spec (hfirst : First (contents q) p x l) (hv : v.toList = l) :
    Cached { setBucket p v q with pc := currentOr (q.size - 1) (some p), size := q.size - 1 } ∧
      contents { setBucket p v q with pc := currentOr (q.size - 1) (some p), size := q.size - 1 }
        = update (contents q) p l := by
  refine ⟨cached_set h hp v ?_ ?_, by rw [contents_set hp, hv]⟩
  · rw [hfirst.head, hv, length_cons]
    omega
  · intro _
    exact ⟨p, rfl, hp, fun r hr => by
      rw [update_of_ne (ne_of_lt hr)]; exact hfirst.below r hr⟩

end

/-- The queue at a priority, as `queue:out/1` sees it. -/
theorem bucket_out (q : PQueue α) (hp : InRange p) :
    (contents q p = [] ∧ (bucket p q).out = (none, bucket p q)) ∨
    ∃ x v, (bucket p q).out = (some x, v) ∧ contents q p = x :: v.toList := by
  rw [contents_of_inRange q hp]
  exact ErlQueue.out_toList (bucket p q)

/-- Both recursions find the smallest occupied priority at or above `before k`. -/
theorem outCurrent_spec (h : Cached q) (hsize : q.size ≠ 0) (hk : k ≤ 256)
    (hbelow : ∀ r < before k, contents q r = []) :
    ∃ p x l q', InRange p ∧ First (contents q) p x l ∧ outCurrent k q = (some x, q') ∧
      outCurrentP k q = (some (x, p), q') ∧ Cached q' ∧
      contents q' = update (contents q) p l := by
  induction k with
  | zero =>
    rw [before_zero] at hbelow
    have hp : InRange 128 := by decide
    rcases bucket_out q hp with ⟨hnil, -⟩ | ⟨x, v, hout, hcons⟩
    · obtain ⟨p, hrange, hne⟩ := h.exists_element hsize
      have hp128 : p = 128 := by
        by_contra hne128
        obtain ⟨h1, h2⟩ := hrange
        exact hne (hbelow p (by omega))
      exact absurd (hp128 ▸ hnil) hne
    · have hfirst : First (contents q) 128 x v.toList :=
        ⟨hcons, hbelow⟩
      refine ⟨128, x, v.toList, _, hp, hfirst, ?_, ?_, take_spec h hp hfirst rfl⟩
      · rw [outCurrent, hout]
      · rw [outCurrentP, hout]
  | succ k ih =>
    have hp : InRange (before (k + 1)) := inRange_before hk
    have hnext := before_succ k
    rcases bucket_out q hp with ⟨hnil, hout⟩ | ⟨x, v, hout, hcons⟩
    · have hbelow' : ∀ r < before k, contents q r = [] := by
        intro r hr
        by_cases hr' : r < before (k + 1)
        · exact hbelow r hr'
        · have : r = before (k + 1) := by omega
          rw [this, hnil]
      obtain ⟨p, x, l, q', hrange, hfirst, h1, h2, hq'⟩ := ih (by omega) hbelow'
      refine ⟨p, x, l, q', hrange, hfirst, ?_, ?_, hq'⟩
      · rw [outCurrent, ← h1]
        simp only [hout]
      · rw [outCurrentP, ← h2]
        simp only [hout]
    · have hfirst : First (contents q) (before (k + 1)) x v.toList := ⟨hcons, hbelow⟩
      refine ⟨_, x, v.toList, _, hp, hfirst, ?_, ?_, take_spec h hp hfirst rfl⟩
      · rw [outCurrent]
        simp only [hout]
      · rw [outCurrentP]
        simp only [hout]

/-- `out/1` and `pout/1` take the oldest element of the smallest occupied
priority. -/
theorem out_spec (h : Cached q) : (q.size = 0 ∧ out q = (none, q) ∧ pout q = (none, q)) ∨
    ∃ p x l q', InRange p ∧ First (contents q) p x l ∧ out q = (some x, q') ∧
      pout q = (some (x, p), q') ∧ Cached q' ∧ contents q' = update (contents q) p l := by
  by_cases hsize : q.size = 0
  · refine .inl ⟨hsize, ?_, ?_⟩
    · rw [out, h.empty hsize]
    · rw [pout, h.empty hsize]
  · obtain ⟨c, hc, ⟨h1, h2⟩, hbelow⟩ := h.current hsize
    refine .inr ?_
    rw [out, pout, hc]
    have hc := before_eq (128 - c).toNat
    exact outCurrent_spec h hsize (by omega) fun r hr => hbelow r (by omega)

/-- `out/2` takes the oldest element of its priority. -/
theorem outAt_spec (h : Cached q) (hp : InRange p) :
    ∃ value q', outAt p q = .ok (value, q') ∧ Cached q' ∧
      ((value = none ∧ contents q p = [] ∧ contents q' = contents q) ∨
        ∃ x l, value = some x ∧ contents q p = x :: l ∧
          contents q' = update (contents q) p l) := by
  have hrange : ¬ (p < -128 ∨ p > 128) := by
    obtain ⟨h1, h2⟩ := hp
    omega
  unfold outAt
  rw [if_neg hrange]
  by_cases hsize : q.size = 0
  · rw [h.empty hsize]
    exact ⟨none, q, rfl, h, .inl ⟨rfl, h.contents_eq_nil hsize p, rfl⟩⟩
  · obtain ⟨c, hc, -⟩ := h.current hsize
    rw [hc]
    simp only [outSpecific]
    rcases bucket_out q hp with ⟨hnil, hout⟩ | ⟨x, v, hout, hcons⟩
    · rw [hout]
      have hv : (bucket p q).toList = contents q p := (contents_of_inRange q hp).symm
      refine ⟨none, _, rfl, cached_set h hp _ ?_ ?_, .inl ⟨rfl, hnil, ?_⟩⟩
      · simp [hv]
      · intro _
        exact h.current_update hsize fun hnil' => hv.trans hnil'
      · rw [contents_set hp, hv, update_eq_self]
    · rw [hout]
      refine ⟨some x, _, rfl, cached_set h hp v ?_ ?_, .inr ⟨x, v.toList, rfl, hcons, ?_⟩⟩
      · simp only [Option.isSome_some, if_true, hcons, length_cons]
        omega
      · intro _
        exact h.current_update hsize fun hnil => by rw [hcons] at hnil; cases hnil
      · rw [contents_set hp]

/-! ## filter -/

theorem filterPriority_spec (h : Cached q) (hp : InRange p) (f : α → Bool) :
    Cached (filterPriority p f q) ∧ contents (filterPriority p f q) =
      update (contents q) p ((contents q p).filter f) := by
  have hv : ((bucket p q).filter f).toList = (contents q p).filter f := by
    rw [ErlQueue.toList_filter, contents_of_inRange q hp]
  have hlen : (bucket p q).len = (contents q p).length := by
    rw [ErlQueue.len_eq, contents_of_inRange q hp]
  have hlen' : ((bucket p q).filter f).len = ((contents q p).filter f).length := by
    rw [ErlQueue.len_eq, hv]
  refine ⟨cached_set h hp _ ?_ ?_, by rw [filterPriority, contents_set hp, hv]⟩
  · rw [hv, hlen, hlen']
    omega
  · intro hne
    have hsize : q.size ≠ 0 := by
      intro h0
      rw [hlen, hlen', h.contents_eq_nil h0] at hne
      simp [h0] at hne
    exact h.current_update hsize fun hnil => by rw [hv, hnil]; rfl

/-- The recursion filters the priorities from `before k` on. -/
theorem filterAll_spec (h : Cached q) (hk : k ≤ 256) (f : α → Bool) :
    Cached (filterAll f k q) ∧ contents (filterAll f k q) =
      fun p => if before k ≤ p then (contents q p).filter f else contents q p := by
  induction k generalizing q with
  | zero =>
    rw [filterAll]
    by_cases hsize : q.size = 0
    · rw [if_pos hsize]
      refine ⟨h, funext fun p => ?_⟩
      simp [h.contents_eq_nil hsize p]
    · rw [if_neg hsize]
      obtain ⟨hcached, hcontents⟩ := filterPriority_spec h (p := 128) (by decide) f
      refine ⟨hcached, funext fun p => ?_⟩
      rw [hcontents, before_zero]
      by_cases hp : p = 128
      · subst hp
        simp
      · rw [update_of_ne hp]
        split
        · next hle =>
            rw [contents_of_not_inRange q fun hr => by
              obtain ⟨h1, h2⟩ := hr
              omega]
            rfl
        · rfl
  | succ k ih =>
    rw [filterAll]
    by_cases hsize : q.size = 0
    · rw [if_pos hsize]
      refine ⟨h, funext fun p => ?_⟩
      simp [h.contents_eq_nil hsize p]
    · rw [if_neg hsize]
      have hp : InRange (before (k + 1)) := inRange_before hk
      have hnext := before_succ k
      obtain ⟨hcached, hcontents⟩ := filterPriority_spec h hp f
      obtain ⟨hcached', hcontents'⟩ := ih hcached (by omega)
      refine ⟨hcached', funext fun p => ?_⟩
      simp only [hcontents', hcontents]
      by_cases hpk : p = before (k + 1)
      · subst hpk
        rw [update_self, if_neg (by omega), if_pos (by omega)]
      · rw [update_of_ne hpk]
        by_cases hle : before k ≤ p
        · rw [if_pos hle, if_pos (by omega)]
        · rw [if_neg hle, if_neg (by omega)]

/-- `filter/2` keeps the accepted elements of every priority in order. -/
theorem filter_spec (h : Cached q) (f : α → Bool) :
    Cached (filter f q) ∧ contents (filter f q) = fun p => (contents q p).filter f := by
  unfold filter
  by_cases hsize : q.size = 0
  · rw [h.empty hsize]
    refine ⟨h, funext fun p => ?_⟩
    rw [h.contents_eq_nil hsize p]
    rfl
  · obtain ⟨c, hc, ⟨h1, h2⟩, hbelow⟩ := h.current hsize
    rw [hc]
    obtain ⟨hcached, hcontents⟩ := filterAll_spec h (k := (128 - c).toNat) (by omega) f
    refine ⟨hcached, hcontents.trans (funext fun p => ?_)⟩
    have hstart := before_eq (128 - c).toNat
    split
    · rfl
    · next hlt =>
        rw [hbelow p (by omega)]
        rfl

/-! ## remove_unique -/

variable (f : α → Bool)

/-- The loop takes the first accepted element out of the rest of the list. -/
theorem queueRemoveUniqueLoop_spec (l0 l1 l : List α) :
    ((∀ y ∈ l0, f y = false) ∧ queueRemoveUniqueLoop f l0 l1 l = (false, l)) ∨
    ∃ l2 x l3, l0 = l2 ++ x :: l3 ∧ f x = true ∧
      queueRemoveUniqueLoop f l0 l1 l = (true, l1.reverse ++ (l2 ++ l3)) := by
  induction l0 generalizing l1 with
  | nil => exact .inl ⟨by simp, rfl⟩
  | cons x l0 ih =>
    rw [queueRemoveUniqueLoop]
    by_cases hx : f x = true
    · exact .inr ⟨[], x, l0, rfl, hx, if_pos hx⟩
    · rw [if_neg hx]
      rcases ih (x :: l1) with ⟨hnone, heq⟩ | ⟨l2, y, l3, rfl, hy, heq⟩
      · refine .inl ⟨?_, heq⟩
        rw [forall_mem_cons]
        exact ⟨by simpa using hx, hnone⟩
      · exact .inr ⟨x :: l2, y, l3, rfl, hy, by rw [heq]; simp⟩

theorem queueRemoveUniqueF_spec (l : List α) :
    ((∀ y ∈ l, f y = false) ∧ queueRemoveUniqueF f l = (false, l)) ∨
    ∃ l2 x l3, l = l2 ++ x :: l3 ∧ f x = true ∧ queueRemoveUniqueF f l = (true, l2 ++ l3) := by
  cases l with
  | nil => exact .inl ⟨by simp, rfl⟩
  | cons x l => exact queueRemoveUniqueLoop_spec f (x :: l) [] (x :: l)

/-- One accepted element of a queue is removed, if there is one. -/
theorem queueRemoveUnique_spec (q : ErlQueue α) :
    ((∀ y ∈ q.toList, f y = false) ∧ queueRemoveUnique f q = (false, q)) ∨
    ∃ l1 x l2 q', q.toList = l1 ++ x :: l2 ∧ f x = true ∧
      queueRemoveUnique f q = (true, q') ∧ q'.toList = l1 ++ l2 := by
  obtain ⟨r, l⟩ := q
  unfold queueRemoveUnique
  rcases queueRemoveUniqueF_spec f l with ⟨hfront, heq⟩ | ⟨l1, x, l2, rfl, hx, heq⟩
  · rcases queueRemoveUniqueF_spec f r with ⟨hrear, heq'⟩ | ⟨r1, x, r2, rfl, hx, heq'⟩
    · refine .inl ⟨?_, by simp only [heq, heq']⟩
      intro y hy
      rw [ErlQueue.toList_mk, mem_append, mem_reverse] at hy
      exact hy.elim (hfront y) (hrear y)
    · refine .inr ⟨l ++ r2.reverse, x, r1.reverse, ?_⟩
      simp only [heq, heq']
      cases hnil : r1 ++ r2 with
      | nil =>
        rw [append_eq_nil_iff] at hnil
        exact ⟨_, by simp [hnil], hx, rfl, by simp [hnil]⟩
      | cons z zs => exact ⟨_, by simp, hx, rfl, by rw [← hnil]; simp⟩
  · refine .inr ⟨l1, x, l2 ++ r.reverse, ?_⟩
    simp only [heq]
    cases hnil : l1 ++ l2 with
    | nil =>
      rw [append_eq_nil_iff] at hnil
      exact ⟨_, by simp, hx, rfl, by simp [hnil]⟩
    | cons z zs =>
      refine ⟨_, by simp, hx, rfl, ?_⟩
      rw [← hnil, ErlQueue.toList_mk, append_assoc]

/-- One accepted element of a priority is removed, if there is one; otherwise
the queue is the same. -/
theorem removeUniqueP_spec (h : Cached q) (hp : InRange p) (f : α → Bool) :
    ((∀ y ∈ contents q p, f y = false) ∧ removeUniqueP p f q = (false, q)) ∨
    ∃ l1 x l2 q', contents q p = l1 ++ x :: l2 ∧ f x = true ∧
      removeUniqueP p f q = (true, q') ∧ Cached q' ∧
      contents q' = update (contents q) p (l1 ++ l2) := by
  unfold removeUniqueP
  rw [contents_of_inRange q hp]
  rcases queueRemoveUnique_spec f (bucket p q) with ⟨hnone, heq⟩ | ⟨l1, x, l2, v, hl, hx, heq, hv⟩
  · refine .inl ⟨hnone, ?_⟩
    have hpc : currentOr q.size q.pc = q.pc := by
      by_cases hsize : q.size = 0
      · rw [currentOr, if_pos hsize, h.empty hsize]
      · exact currentOr_of_ne hsize q.pc
    simp only [heq, setBucket_bucket, Bool.false_eq_true, if_false, hpc]
  · have hcons : contents q p = l1 ++ x :: l2 := by rw [contents_of_inRange q hp, hl]
    refine .inr ⟨l1, x, l2, _, hl, hx, by simp only [heq]; rfl, ?_, ?_⟩
    · refine cached_set h hp v ?_ ?_
      · rw [hcons, hv]
        simp only [if_true, length_append, length_cons]
        omega
      · intro _
        have hsize : q.size ≠ 0 := by
          intro h0
          have := h.contents_eq_nil h0 p
          rw [hcons] at this
          simp at this
        exact h.current_update hsize fun hnil => by rw [hcons] at hnil; simp at hnil
    · rw [contents_set hp, hv]

/-- What `remove_unique/2` answers: one accepted element, of the smallest
priority that holds one, is gone; or there is none and nothing changed. -/
def RemovesOne (q : PQueue α) (out : Except Exit (Bool × PQueue α)) : Prop :=
  ((∀ p, ∀ y ∈ contents q p, f y = false) ∧ out = .ok (false, q)) ∨
  ∃ p l1 x l2 q', contents q p = l1 ++ x :: l2 ∧ f x = true ∧
    (∀ r < p, ∀ y ∈ contents q r, f y = false) ∧ out = .ok (true, q') ∧ Cached q' ∧
    contents q' = update (contents q) p (l1 ++ l2)

theorem removeUniqueAll_spec [DecidableEq α] (h : Cached q) (hk : k ≤ 256) (f : α → Bool)
    (hbelow : ∀ r < before k, ∀ y ∈ contents q r, f y = false) :
    RemovesOne f q (removeUniqueAll f k q) := by
  induction k with
  | zero =>
    rw [before_zero] at hbelow
    rw [removeUniqueAll]
    rcases removeUniqueP_spec h (p := 128) (by decide) f with
      ⟨hnone, heq⟩ | ⟨l1, x, l2, q', hl, hx, heq, hq'⟩
    · refine .inl ⟨fun p y hy => ?_, by rw [heq]⟩
      by_cases hp : p < 128
      · exact hbelow p hp y hy
      · by_cases hp' : p = 128
        · exact hnone y (hp' ▸ hy)
        · rw [contents_of_not_inRange q fun hr => by
            obtain ⟨h1, h2⟩ := hr
            omega] at hy
          cases hy
    · exact .inr ⟨128, l1, x, l2, q', hl, hx, hbelow, by rw [heq], hq'⟩
  | succ k ih =>
    rw [removeUniqueAll]
    rcases removeUniqueP_spec h (inRange_before hk) f with
      ⟨hnone, heq⟩ | ⟨l1, x, l2, q', hl, hx, heq, hq'⟩
    · simp only [heq, if_true]
      refine ih (by omega) fun r hr y hy => ?_
      by_cases hr' : r < before (k + 1)
      · exact hbelow r hr' y hy
      · have hnext := before_succ k
        have : r = before (k + 1) := by omega
        exact hnone y (this ▸ hy)
    · simp only [heq]
      exact .inr ⟨_, l1, x, l2, q', hl, hx, hbelow, rfl, hq'⟩

theorem removeUnique_spec [DecidableEq α] (h : Cached q) (f : α → Bool) :
    RemovesOne f q (removeUnique f q) := by
  unfold removeUnique
  by_cases hsize : q.size = 0
  · rw [if_pos hsize]
    refine .inl ⟨fun p y hy => ?_, rfl⟩
    rw [h.contents_eq_nil hsize] at hy
    cases hy
  · obtain ⟨c, hc, ⟨h1, h2⟩, hbelow⟩ := h.current hsize
    have hstart := before_eq (128 - c).toNat
    rw [if_neg hsize, hc]
    refine removeUniqueAll_spec h (by omega) f fun r hr y hy => ?_
    rw [hbelow r (by omega)] at hy
    cases hy

/-! ## to_plist -/

theorem size_of_take {q' : PQueue α} (h : Cached q) (h' : Cached q') (hp : InRange p)
    (hfirst : First (contents q) p x l) (hq' : contents q' = update (contents q) p l) :
    q'.size + 1 = q.size := by
  have hcount := count_update (a := contents q) priorities_nodup (mem_priorities.mpr hp) l
  rw [hfirst.head, length_cons, ← hq'] at hcount
  have hsize := h.size_eq
  have hsize' := h'.size_eq
  omega

/-- The loop with a group begun: the values of its priority so far come before
those the queue still holds, and then the rest of the queue is listed. -/
theorem toPlistLoop_spec {fuel : Nat} (h : Cached q) (hfuel : q.size < fuel)
    (l : List (Int × List α)) (y : α) (lp : List α) (hbelow : ∀ r < c, contents q r = []) :
    toPlistLoop fuel l (y :: lp) (some c) q = some (l.reverse ++
      (c, (y :: lp).reverse ++ contents q c) ::
        listing priorities (update (contents q) c [])) := by
  induction fuel generalizing q l y lp c with
  | zero =>
    have := h.size_eq
    omega
  | succ fuel ih =>
    rw [toPlistLoop]
    swap
    · exact cons_ne_nil y lp
    rcases out_spec h with ⟨hzero, -, hpout⟩ | ⟨p, x, l', q', hp, hfirst, -, hpout, h', hq'⟩
    · have hnil := h.contents_eq_nil hzero
      have hlisting : listing priorities (update (contents q) c []) = [] := by
        refine listing_nil fun r _ => ?_
        rw [show contents q = fun _ => [] from funext hnil, update_eq_self]
      simp [hpout, hnil c, hlisting]
    · have hsize := size_of_take h h' hp hfirst hq'
      simp only [hpout]
      by_cases hpc : c = p
      · subst hpc
        have hbelow' : ∀ r < c, contents q' r = [] := by
          intro r hr
          rw [hq', update_of_ne (ne_of_lt hr)]
          exact hbelow r hr
        rw [if_pos rfl, ih h' (by omega) l x (y :: lp) hbelow', hq', update_self,
          update_idem, hfirst.head]
        simp
      · have hne : some c ≠ some p := fun heq => hpc (Option.some.inj heq)
        have hlt : c < p := by
          by_contra hle
          have hnil := hbelow p (by omega)
          rw [hfirst.head] at hnil
          cases hnil
        have hbelow' : ∀ r < p, contents q' r = [] := by
          intro r hr
          rw [hq', update_of_ne (ne_of_lt hr)]
          exact hfirst.below r hr
        have hrest : listing priorities (update (contents q) c []) =
            (p, x :: l') :: listing priorities (update (contents q) p []) := by
          have hself := update_eq_self c (contents q)
          rw [hfirst.below c hlt] at hself
          rw [hself]
          exact listing_first priorities_pairwise (mem_priorities.mpr hp) hfirst
        rw [if_neg hne, ih h' (by omega) _ x [] hbelow', hq', update_self,
          update_idem, hrest, hfirst.below c hlt]
        simp

/-- `to_plist/1` lists the elements of every occupied priority. -/
theorem toPlist_spec (h : Cached q) : toPlist q = some (listing priorities (contents q)) := by
  rw [toPlist, toPlistLoop]
  rcases out_spec h with ⟨hzero, -, hpout⟩ | ⟨p, x, l, q', hp, hfirst, -, hpout, h', hq'⟩
  · have hlisting : listing priorities (contents q) = [] :=
      listing_nil fun r _ => h.contents_eq_nil hzero r
    simp only [hpout, hlisting]
    rfl
  · have hsize := size_of_take h h' hp hfirst hq'
    have hcount := h.size_eq
    have hbelow' : ∀ r < p, contents q' r = [] := by
      intro r hr
      rw [hq', update_of_ne (ne_of_lt hr)]
      exact hfirst.below r hr
    simp only [hpout, reduceCtorEq, if_false]
    rw [toPlistLoop_spec h' (by omega) [] x [] hbelow', hq', update_self,
      update_idem, listing_first priorities_pairwise (mem_priorities.mpr hp) hfirst]
    simp

end CloudI.Pqueue4
