import CloudI.Library.Fifos
import CloudI.Pqueue3.Layers

/-!
# Pqueue3.Operations

The contents of a queue, the invariant of its cached current priority, and one lemma for
each operation: what it answers and what it does to the contents.
-/

namespace CloudI.Pqueue3

open Fifos Option
open Function (update update_self update_of_ne)

variable {α : Type}

/-! ## the contents -/

/-- The priorities that a queue admits. -/
def InRange (size offset p : Int) : Prop := 0 ≤ p + offset ∧ p + offset ≤ size

instance (size offset p : Int) : Decidable (InRange size offset p) :=
  inferInstanceAs (Decidable (_ ∧ _))

/-- The queue at a priority index. -/
def bucket (k : Nat) (q : PQueue α) : Option (ErlQueue α) :=
  (layerIndexes q.size k).bind fun is => getAt is q.bins

/-- The elements at each priority, oldest first. -/
def contents (q : PQueue α) (p : Int) : List α :=
  if InRange q.size q.offset p then (bucket (p + q.offset).toNat q).elim [] (·.toList) else []

/-- The tuples have the sizes that `create/1` was given. -/
def Sized (q : PQueue α) : Prop := ∃ ns, layerSizes q.size = some ns ∧ Shaped ns q.bins

theorem contents_of_not_inRange (q : PQueue α) (h : ¬ InRange q.size q.offset p) :
    contents q p = [] := if_neg h

variable {q : PQueue α} {k : Nat} {ns : List Nat}

/-- **The place of a priority index**: its queue can be read and set, and no other queue
changes. -/
theorem place (h : Sized q) (hk : (k : Int) ≤ q.size) :
    ∃ is v, layerIndexes q.size k = some is ∧ getAt is q.bins = some v ∧
      v.toList = contents q (k - q.offset) ∧
      ∀ v', ∃ bins, setAt is v' q.bins = some bins ∧ ∀ current, Sized { q with current, bins } ∧
        contents { q with current, bins } =
          update (contents q) (k - q.offset) v'.toList := by
  obtain ⟨ns, hsizes, hshaped⟩ := h
  obtain ⟨is, his, hin, hown⟩ := layerIndexes_spec hsizes hk
  obtain ⟨v, hv⟩ := getAt_within hshaped hin
  have hrange : InRange q.size q.offset (k - q.offset) := ⟨by omega, by omega⟩
  have hindex : ((k : Int) - q.offset + q.offset).toNat = k := by omega
  refine ⟨is, v, his, hv, ?_, fun v' => ?_⟩
  · rw [contents, if_pos hrange, hindex, bucket, his, bind_some, hv]
    rfl
  obtain ⟨bins, hbins, hshaped', hget⟩ := setAt_spec hshaped hin v'
  refine ⟨bins, hbins, fun current => ⟨⟨ns, hsizes, hshaped'⟩, funext fun p => ?_⟩⟩
  by_cases hp : InRange q.size q.offset p
  · obtain ⟨hlow, hhigh⟩ := hp
    obtain ⟨js, hjs, hjin, hjown⟩ := layerIndexes_spec (k := (p + q.offset).toNat) hsizes (by omega)
    by_cases heq : p = k - q.offset
    · -- the priority that is set
      subst heq
      rw [update_self, contents, if_pos ⟨hlow, hhigh⟩, hindex, bucket, his,
        bind_some, hget is hin, if_pos rfl]
      rfl
    · have hne : js ≠ is := by
        intro hsame
        have := hown (p + q.offset).toNat (by omega) (hsame ▸ hjs)
        omega
      rw [update_of_ne heq, contents, contents, if_pos ⟨hlow, hhigh⟩,
        if_pos ⟨hlow, hhigh⟩, bucket, bucket, hjs, bind_some, bind_some,
        hget js hjin, if_neg hne]
  · have hne : p ≠ k - q.offset := fun heq => hp (heq ▸ hrange)
    rw [update_of_ne hne, contents_of_not_inRange q hp]
    exact contents_of_not_inRange { q with current, bins } hp

/-! ## one queue -/

theorem inQueue_spec (h : Sized q) (hk : (k : Int) ≤ q.size) (x : α) :
    ∃ is bins, layerIndexes q.size k = some is ∧ inQueue is x q.bins = some bins ∧
      ∀ current, Sized { q with current, bins } ∧
        contents { q with current, bins } = update (contents q) (k - q.offset)
          (contents q (k - q.offset) ++ [x]) := by
  obtain ⟨is, v, his, hv, hlist, hset⟩ := place h hk
  obtain ⟨bins, hbins, hafter⟩ := hset (v.enter x)
  rw [ErlQueue.toList_enter, hlist] at hafter
  exact ⟨is, bins, his, (inQueue_eq hv x).trans hbins, hafter⟩

/-- What `out_queue/2` answers, and what it does to the contents. -/
theorem outQueue_spec (h : Sized q) (hk : (k : Int) ≤ q.size) :
    ∃ is result bins, layerIndexes q.size k = some is ∧ outQueue is q.bins = some (result, bins) ∧
      (∀ current, Sized { q with current, bins }) ∧
      ((result = none ∧ contents q (k - q.offset) = [] ∧
          ∀ current, contents { q with current, bins } = contents q) ∨
        ∃ x l, result = some x ∧ contents q (k - q.offset) = x :: l ∧
          ∀ current, contents { q with current, bins } =
            update (contents q) (k - q.offset) l) := by
  obtain ⟨is, v, his, hv, hlist, hset⟩ := place h hk
  obtain ⟨bins, hbins, hafter⟩ := hset v.out.2
  refine ⟨is, v.out.1, bins, his, ?_, fun current => (hafter current).1, ?_⟩
  · rw [outQueue_eq hv, hbins, map_some]
  rcases v.out_toList with ⟨hnil, hout⟩ | ⟨x, v', hout, hcons⟩
  · rw [hlist] at hnil
    refine .inl ⟨by rw [hout], hnil, fun current => ?_⟩
    rw [(hafter current).2, hout]
    exact (congrArg _ hlist).trans (Function.update_eq_self _ _)
  · rw [hlist] at hcons
    refine .inr ⟨x, v'.toList, by rw [hout], hcons, fun current => ?_⟩
    rw [(hafter current).2, hout]

/-! ## the search for the next priority -/

/-- `pout_check/4` finds what `out_check/3` finds. -/
theorem poutCheck_eq (fuel i : Nat) (size offset : Int) (r : Option α × Bins α) :
    poutCheck fuel i size offset r = (outCheck fuel i size r).map fun x =>
      (x.1.map fun value => (value, (x.2.1.getD 0 : Int) - offset), x.2.1, x.2.2) := by
  induction fuel generalizing i r with
  | zero => rfl
  | succ fuel ih =>
    match r with
    | (some value, bins) => rfl
    | (none, bins) =>
      rw [poutCheck, outCheck]
      by_cases hi : (i : Int) = size
      · rw [if_pos hi, if_pos hi]
        rfl
      · rw [if_neg hi, if_neg hi]
        cases layerIndexes size (i + 1) with
        | none => rfl
        | some is =>
          cases hout : outQueue is bins with
          | none => simp [hout]
          | some r => simp [hout, ih]

/-- **The search ends**: from the priority index `i` on, when nothing is below it, the search
finds the smallest occupied priority, or that there is none. -/
theorem outCheck_spec (n : Nat) (h : Sized q) {i : Nat} (hi : (i : Int) + n = q.size)
    (hbelow : ∀ p, p + q.offset < i → contents q p = []) :
    ∃ is r, layerIndexes q.size i = some is ∧ outQueue is q.bins = some r ∧
      ((∀ p, contents q p = []) ∧ (∃ bins, (∀ fuel > n,
          outCheck fuel i q.size r = some (none, none, bins)) ∧
          ∀ current, Sized { q with current, bins } ∧
            contents { q with current, bins } = contents q) ∨
        ∃ (k : Nat) (x : α) (l : List α) (bins : Bins α), (k : Int) ≤ q.size ∧
          First (contents q) (k - q.offset) x l ∧
          (∀ fuel > n, outCheck fuel i q.size r = some (some x, some k, bins)) ∧
          ∀ current, Sized { q with current, bins } ∧ contents { q with current, bins } =
              update (contents q) (k - q.offset) l) := by
  induction n generalizing q i with
  | zero =>
    obtain ⟨is, result, bins, his, hout, hsized, hcase⟩ := outQueue_spec h (k := i) (by omega)
    refine ⟨is, (result, bins), his, hout, ?_⟩
    rcases hcase with ⟨rfl, hnil, hsame⟩ | ⟨x, l, rfl, hcons, hupdate⟩
    · refine .inl ⟨fun p => ?_, bins, fun fuel hfuel => ?_, fun current =>
        ⟨hsized current, hsame current⟩⟩
      · by_cases hp : InRange q.size q.offset p
        · obtain ⟨hlow, hhigh⟩ := hp
          by_cases hlt : p + q.offset < i
          · exact hbelow p hlt
          · have heq : p = i - q.offset := by omega
            rw [heq, hnil]
        · exact contents_of_not_inRange q hp
      · obtain ⟨fuel, rfl⟩ : ∃ n, fuel = n + 1 := ⟨fuel - 1, by omega⟩
        exact if_pos (by omega)
    · refine .inr ⟨i, x, l, bins, by omega, ⟨hcons, fun p hp => hbelow p (by omega)⟩,
        fun fuel hfuel => ?_, fun current => ⟨hsized current, hupdate current⟩⟩
      obtain ⟨fuel, rfl⟩ : ∃ n, fuel = n + 1 := ⟨fuel - 1, by omega⟩
      rfl
  | succ n ih =>
    obtain ⟨is, result, bins, his, hout, hsized, hcase⟩ := outQueue_spec h (k := i) (by omega)
    refine ⟨is, (result, bins), his, hout, ?_⟩
    rcases hcase with ⟨rfl, hnil, hsame⟩ | ⟨x, l, rfl, hcons, hupdate⟩
    · -- the next priority index, in tuples with the same contents
      have hcontents := hsame q.current
      have hnext : ∀ p, p + q.offset < (i + 1 : Nat) → contents { q with bins } p = [] := by
        intro p hp
        rw [hcontents]
        by_cases hlt : p + q.offset < i
        · exact hbelow p hlt
        · have heq : p = i - q.offset := by omega
          rw [heq, hnil]
      obtain ⟨is', r', his', hout', hcase⟩ :=
        ih (q := { q with bins }) (hsized q.current) (i := i + 1) (by simp only; omega) hnext
      have hcheck : ∀ fuel, outCheck (fuel + 1) i q.size (none, bins) =
          outCheck fuel (i + 1) q.size r' := by
        intro fuel
        rw [outCheck, if_neg (by omega)]
        simp only [bind_eq_bind]
        rw [show layerIndexes q.size (i + 1) = some is' from his', bind_some,
          show outQueue is' bins = some r' from hout', bind_some]
      rw [hcontents] at hcase
      rcases hcase with ⟨hall, bins', hfuel, hafter⟩ | ⟨k, x, l, bins', hk, hfirst, hfuel, hafter⟩
      · refine .inl ⟨hall, bins', fun fuel hlt => ?_, hafter⟩
        obtain ⟨fuel, rfl⟩ : ∃ n, fuel = n + 1 := ⟨fuel - 1, by omega⟩
        exact (hcheck fuel).trans (hfuel fuel (by omega))
      · refine .inr ⟨k, x, l, bins', hk, hfirst, fun fuel hlt => ?_, hafter⟩
        obtain ⟨fuel, rfl⟩ : ∃ n, fuel = n + 1 := ⟨fuel - 1, by omega⟩
        exact (hcheck fuel).trans (hfuel fuel (by omega))
    · refine .inr ⟨i, x, l, bins, by omega, ⟨hcons, fun p hp => hbelow p (by omega)⟩,
        fun fuel hfuel => ?_, fun current => ⟨hsized current, hupdate current⟩⟩
      obtain ⟨fuel, rfl⟩ : ∃ n, fuel = n + 1 := ⟨fuel - 1, by omega⟩
      rfl

/-! ## the invariant -/

/-- The tuples have their sizes, and the cached current priority is at most the smallest
occupied one; `empty` stands for a queue without elements. -/
structure Cached (q : PQueue α) : Prop where
  sized : Sized q
  empty : q.current = none → ∀ p, contents q p = []
  current : ∀ i, q.current = some i →
    (i : Int) ≤ q.size ∧ ∀ p, p + q.offset < i → contents q p = []

/-- The size and the offset of a queue do not change. -/
structure Same (q q' : PQueue α) : Prop where
  size : q'.size = q.size
  offset : q'.offset = q.offset

theorem getAt_create (h : getAt is (create ns) = some v) : v = ErlQueue.new := by
  induction is generalizing ns with
  | nil =>
    cases ns with
    | nil =>
      cases h
      rfl
    | cons n ns => cases h
  | cons i is ih =>
    cases ns with
    | nil => cases h
    | cons n ns =>
      obtain ⟨b, hb, hv⟩ := bind_eq_some_iff.mp h
      have hmem : b = create ns := by
        unfold Tuple.element at hb
        by_cases hi : i = 0
        · rw [if_pos hi] at hb
          cases hb
        · rw [if_neg hi] at hb
          exact List.eq_of_mem_replicate (List.mem_of_getElem? hb)
      exact ih (hmem ▸ hv)

theorem contents_create (h : q.bins = create ns) (p : Int) : contents q p = [] := by
  unfold contents
  by_cases hp : InRange q.size q.offset p
  · rw [if_pos hp]
    cases hbucket : bucket (p + q.offset).toNat q with
    | none => rfl
    | some v =>
      obtain ⟨is, -, hv⟩ := bind_eq_some_iff.mp hbucket
      rw [h] at hv
      rw [getAt_create hv]
      rfl
  · rw [if_neg hp]

theorem new_spec (h : new size middleZero = some q) : Cached q ∧ contents q = fun _ => [] := by
  obtain ⟨ns, hsizes, rfl⟩ := map_eq_some_iff.mp h
  exact ⟨⟨⟨ns, hsizes, shaped_create ns⟩, fun _ p => contents_create rfl p,
    fun i hi => nomatch hi⟩, funext fun p => contents_create rfl p⟩

/-- Changing a list to one that is empty where it was keeps a lower bound of the occupied
priorities. -/
theorem below_update {a : Int → List α} {i offset : Int}
    (hbelow : ∀ p, p + offset < i → a p = []) (hl : a r = [] → l = []) :
    ∀ p, p + offset < i → update a r l p = [] := by
  intro p hp
  by_cases hpr : p = r
  · subst hpr
    rw [update_self]
    exact hl (hbelow p hp)
  · rw [update_of_ne hpr]
    exact hbelow p hp

/-! ## in and out -/

/-- `in/3` appends to the list of its priority. -/
theorem enterAt_spec (h : Cached q) (hp : InRange q.size q.offset p) (x : α) :
    ∃ q', enterAt x p q = some q' ∧ Cached q' ∧ Same q q' ∧
      contents q' = update (contents q) p (contents q p ++ [x]) := by
  obtain ⟨hlow, hhigh⟩ := hp
  have hindex : ((p + q.offset).toNat : Int) - q.offset = p := by omega
  obtain ⟨is, bins, his, hbins, hafter⟩ :=
    inQueue_spec h.sized (k := (p + q.offset).toNat) (by omega) x
  rw [hindex] at hafter
  unfold enterAt
  rw [if_neg (by omega)]
  simp only [his, hbins, bind_eq_bind, bind_some]
  -- the priority is the new current one
  have hlower : (∀ r, r + q.offset < p + q.offset → contents q r = []) →
      Cached { q with current := some (p + q.offset).toNat, bins } := by
    intro hbelow
    refine ⟨(hafter _).1, fun hnone => (by cases hnone), fun i hi => ?_⟩
    cases hi
    refine ⟨by simp only; omega, fun r hr => ?_⟩
    have hr : r + q.offset < ((p + q.offset).toNat : Int) := hr
    rw [(hafter _).2, update_of_ne (by omega)]
    exact hbelow r (by omega)
  cases hcurrent : q.current with
  | none =>
    exact ⟨_, rfl, hlower fun r _ => h.empty hcurrent r, ⟨rfl, rfl⟩, (hafter _).2⟩
  | some i =>
    obtain ⟨hi, hbelow⟩ := h.current i hcurrent
    by_cases hlt : p + q.offset < i
    · simp only [if_pos hlt]
      exact ⟨_, rfl, hlower fun r hr => hbelow r (by omega), ⟨rfl, rfl⟩, (hafter _).2⟩
    · simp only [if_neg hlt]
      refine ⟨_, rfl, ⟨(hafter _).1, fun hnone => ?_, fun j hj => ?_⟩, ⟨rfl, rfl⟩, (hafter _).2⟩
      · cases hnone
      · cases hj
        refine ⟨hi, fun r hr => ?_⟩
        have hr : r + q.offset < i := hr
        rw [(hafter _).2, update_of_ne (by omega)]
        exact hbelow r hr

/-- `out/1` and `pout/1` take the oldest element of the smallest occupied priority. -/
theorem out_spec (h : Cached q) :
    ((∀ p, contents q p = []) ∧ ∃ q', Cached q' ∧ Same q q' ∧ contents q' = contents q ∧
        ∀ fuel > q.size.toNat, out fuel q = some (none, q') ∧ pout fuel q = some (none, q')) ∨
      ∃ p x l q', InRange q.size q.offset p ∧ First (contents q) p x l ∧ Cached q' ∧ Same q q' ∧
        contents q' = update (contents q) p l ∧
        ∀ fuel > q.size.toNat,
          out fuel q = some (some x, q') ∧ pout fuel q = some (some (x, p), q') := by
  cases hcurrent : q.current with
  | none =>
    refine .inl ⟨h.empty hcurrent, q, h, ⟨rfl, rfl⟩, rfl, fun fuel _ => ?_⟩
    simp only [out, pout, hcurrent, and_self]
  | some i =>
    obtain ⟨hi, hbelow⟩ := h.current i hcurrent
    obtain ⟨is, r, his, hr, hcase⟩ := outCheck_spec (q.size - i).toNat h.sized (i := i)
      (by omega) hbelow
    rcases hcase with ⟨hall, bins, hfuel, hafter⟩ | ⟨k, x, l, bins, hk, hfirst, hfuel, hafter⟩
    · refine .inl ⟨hall, { q with current := none, bins }, ?_, ⟨rfl, rfl⟩, (hafter none).2,
        fun fuel hlt => ?_⟩
      · refine ⟨(hafter none).1, fun _ p => ?_, fun j hj => nomatch hj⟩
        rw [(hafter none).2, hall]
      · simp only [out, pout, hcurrent, his, hr, bind_eq_bind, bind_some,
          poutCheck_eq, hfuel fuel (by omega), map_some, map_none]
        exact ⟨rfl, rfl⟩
    · refine .inr ⟨k - q.offset, x, l, { q with current := some k, bins }, ⟨by omega, by omega⟩,
        hfirst, ?_, ⟨rfl, rfl⟩, (hafter _).2, fun fuel hlt => ?_⟩
      · refine ⟨(hafter _).1, fun hnone => (by cases hnone), fun j hj => ?_⟩
        cases hj
        refine ⟨hk, fun p hp => ?_⟩
        have hp : p + q.offset < k := hp
        rw [(hafter _).2, update_of_ne (by omega)]
        exact hfirst.below p (by omega)
      · simp only [out, pout, hcurrent, his, hr, bind_eq_bind, bind_some,
          poutCheck_eq, hfuel fuel (by omega), map_some, getD_some]
        exact ⟨rfl, rfl⟩

/-- `out/2` takes the oldest element of its priority. -/
theorem outAt_spec (h : Cached q) (hp : InRange q.size q.offset p) :
    ∃ value q', outAt p q = some (value, q') ∧ Cached q' ∧ Same q q' ∧
      ((value = none ∧ contents q p = [] ∧ contents q' = contents q) ∨
        ∃ x l, value = some x ∧ contents q p = x :: l ∧
          contents q' = update (contents q) p l) := by
  obtain ⟨hlow, hhigh⟩ := hp
  have hindex : ((p + q.offset).toNat : Int) - q.offset = p := by omega
  unfold outAt
  rw [if_neg (by omega)]
  cases hcurrent : q.current with
  | none =>
    exact ⟨none, q, rfl, h, ⟨rfl, rfl⟩, .inl ⟨rfl, h.empty hcurrent p, rfl⟩⟩
  | some i =>
    obtain ⟨hi, hbelow⟩ := h.current i hcurrent
    obtain ⟨is, result, bins, his, hout, hsized, hcase⟩ :=
      outQueue_spec h.sized (k := (p + q.offset).toNat) (by omega)
    rw [hindex] at hcase
    simp only [his, hout, bind_eq_bind, bind_some]
    have hcached : (∀ r, r + q.offset < i → contents { q with current := some i, bins } r = []) →
        Cached { q with current := some i, bins } := by
      intro hnew
      refine ⟨hsized _, fun hnone => (by cases hnone), fun j hj => ?_⟩
      cases hj
      exact ⟨hi, hnew⟩
    rcases hcase with ⟨rfl, hnil, hsame⟩ | ⟨x, l, rfl, hcons, hupdate⟩
    · refine ⟨none, _, rfl, hcached ?_, ⟨rfl, rfl⟩, .inl ⟨rfl, hnil, hsame _⟩⟩
      rw [hsame]
      exact hbelow
    · refine ⟨some x, _, rfl, hcached ?_, ⟨rfl, rfl⟩, .inr ⟨x, l, rfl, hcons, hupdate _⟩⟩
      rw [hupdate]
      exact below_update hbelow fun hnil => by
        rw [hcons] at hnil
        cases hnil

end CloudI.Pqueue3
