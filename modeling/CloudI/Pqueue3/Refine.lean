import CloudI.Pqueue3.Operations

/-!
# Pqueue3.Refine

`pqueue3` as a stable priority queue.  `Spec` says what each operation does to the FIFO
list of each priority and what it answers; every run of operations on the tuples is a run
of `Spec`, for every size that `new/1` accepts.
-/

namespace CloudI.Pqueue3

open Fifos List Option Function

variable {α : Type}

/-- An operation of the queue. -/
inductive Op (α : Type) where
  | enter (x : α)
  | enterAt (x : α) (p : Int)
  | out
  | outAt (p : Int)
  | pout
  | isEmpty
  | len
  | toList

/-- What an operation answers beside the new queue. -/
inductive Answer (α : Type) where
  | queue
  | value (x : Option α)
  | valueAt (x : Option (α × Int))
  | empty (b : Bool)
  | length (n : Nat)
  | list (l : List α)
  deriving DecidableEq

/-- The priorities that an operation names; `in/2` names 0. -/
def Op.InRange (size offset : Int) : Op α → Prop
  | .enter _ => Pqueue3.InRange size offset 0
  | .enterAt _ p => Pqueue3.InRange size offset p
  | .outAt p => Pqueue3.InRange size offset p
  | .out | .pout | .isEmpty | .len | .toList => True

instance (size offset : Int) : DecidablePred (Op.InRange (α := α) size offset)
  | .enter _ => inferInstanceAs (Decidable (Pqueue3.InRange size offset 0))
  | .enterAt _ p => inferInstanceAs (Decidable (Pqueue3.InRange size offset p))
  | .outAt p => inferInstanceAs (Decidable (Pqueue3.InRange size offset p))
  | .out | .pout | .isEmpty | .len | .toList => inferInstanceAs (Decidable True)

/-- One operation on the tuples. -/
def apply (fuel : Nat) (q : PQueue α) : Op α → Option (Answer α × PQueue α)
  | .enter x => (enter x q).map fun q => (.queue, q)
  | .enterAt x p => (enterAt x p q).map fun q => (.queue, q)
  | .out => (out fuel q).map fun (value, q) => (.value value, q)
  | .outAt p => (outAt p q).map fun (value, q) => (.value value, q)
  | .pout => (pout fuel q).map fun (value, q) => (.valueAt value, q)
  | .isEmpty => (isEmpty fuel q).map fun b => (.empty b, q)
  | .len => (len fuel q).map fun n => (.length n, q)
  | .toList => (toList fuel q).map fun l => (.list l, q)

/-- The operations in order, with their answers. -/
def exec (fuel : Nat) (q : PQueue α) : List (Op α) → Option (List (Answer α) × PQueue α)
  | [] => some ([], q)
  | op :: ops => do
      let (answer, q) ← apply fuel q op
      let (answers, q) ← exec fuel q ops
      return (answer :: answers, q)

/-! ## the stable priority queue -/

/-- **What each operation means** for the FIFO lists `a` of the priorities `ps`:
`Spec ps a op answer a'`. -/
inductive Spec (ps : List Int) :
    (Int → List α) → Op α → Answer α → (Int → List α) → Prop
  | enter : Spec ps a (.enter x) .queue (update a 0 (a 0 ++ [x]))
  | enterAt : Spec ps a (.enterAt x p) .queue (update a p (a p ++ [x]))
  | outEmpty (h : ∀ p, a p = []) : Spec ps a .out (.value none) a
  | out (h : First a p x l) : Spec ps a .out (.value (some x)) (update a p l)
  | outAtEmpty (h : a p = []) : Spec ps a (.outAt p) (.value none) a
  | outAt (h : a p = x :: l) : Spec ps a (.outAt p) (.value (some x)) (update a p l)
  | poutEmpty (h : ∀ p, a p = []) : Spec ps a .pout (.valueAt none) a
  | pout (h : First a p x l) : Spec ps a .pout (.valueAt (some (x, p))) (update a p l)
  | isEmpty (h : b = true ↔ ∀ p, a p = []) : Spec ps a .isEmpty (.empty b) a
  | len : Spec ps a .len (.length (elements ps a).length) a
  | toList : Spec ps a .toList (.list (elements ps a)) a

/-- A run of `Spec`. -/
inductive SpecRun (ps : List Int) :
    (Int → List α) → List (Op α) → List (Answer α) → (Int → List α) → Prop
  | nil : SpecRun ps a [] [] a
  | cons (h : Spec ps a op answer a') (hrest : SpecRun ps a' ops answers a'') :
      SpecRun ps a (op :: ops) (answer :: answers) a''

/-- The priorities that a queue admits, smallest first. -/
def priorities (size offset : Int) : List Int :=
  (List.range (size + 1).toNat).map fun i : Nat => (i : Int) - offset

theorem mem_priorities {size offset p : Int} :
    p ∈ priorities size offset ↔ InRange size offset p := by
  simp only [priorities, List.mem_map, mem_range, InRange]
  constructor
  · rintro ⟨i, hi, rfl⟩
    omega
  · rintro ⟨hlow, hhigh⟩
    exact ⟨(p + offset).toNat, by omega, by omega⟩

theorem priorities_sorted (size offset : Int) : (priorities size offset).Pairwise (· < ·) := by
  unfold priorities
  rw [pairwise_map]
  exact pairwise_lt_range.imp fun h => by omega

variable {q q' : PQueue α}

theorem Same.priorities_eq (h : Same q q') :
    priorities q'.size q'.offset = priorities q.size q.offset := by
  rw [h.size, h.offset]

theorem Op.InRange.same (h : Same q q') {op : Op α} (hop : op.InRange q.size q.offset) :
    op.InRange q'.size q'.offset := by
  rw [h.size, h.offset]
  exact hop

/-! ## taking every element -/

/-- **The elements come out in order**: the loop of `to_list/1` takes every element, the
smallest priority first and the oldest element of a priority first. -/
theorem toListLoop_spec (h : Cached q) (hfuel : q.size.toNat < fuel) (l : List α)
    (hn : (elements (priorities q.size q.offset) (contents q)).length < n) :
    (out fuel q).bind (toListLoop fuel n l) =
      some (l.reverse ++ elements (priorities q.size q.offset) (contents q)) := by
  induction n generalizing q l with
  | zero => omega
  | succ n ih =>
    rcases out_spec h with ⟨hnil, q', h', -, -, hout⟩ |
      ⟨p, x, rest, q', hp, hfirst, h', hsame, hq', hout⟩
    · rw [(hout fuel hfuel).1, elements_nil hnil, append_nil]
      rfl
    · have helements := elements_first (priorities_sorted q.size q.offset)
        (mem_priorities.mpr hp) hfirst
      rw [← hq'] at helements
      rw [helements, length_cons, ← hsame.priorities_eq] at hn
      rw [(hout fuel hfuel).1, bind_some, helements, ← hsame.priorities_eq]
      show (out fuel q').bind (toListLoop fuel n (x :: l)) = _
      rw [ih h' (hsame.size ▸ hfuel) (x :: l) (by omega), reverse_cons, append_assoc]
      rfl

/-- The loop of `len/1` counts what the loop of `to_list/1` collects. -/
theorem lenLoop_eq (fuel n : Nat) (l : List α) (r : Option α × PQueue α) :
    lenLoop fuel n l.length r = (toListLoop fuel n l r).map List.length := by
  induction n generalizing l r with
  | zero => rfl
  | succ n ih =>
    match r with
    | (none, q) =>
      rw [lenLoop, toListLoop, map_some, length_reverse]
    | (some value, q) =>
      rw [lenLoop, toListLoop]
      cases hout : out fuel q with
      | none => rfl
      | some r => exact ih (value :: l) r

theorem toList_spec (h : Cached q) (fuel : Nat) (hfuel : q.size.toNat < fuel)
    (hlen : (elements (priorities q.size q.offset) (contents q)).length < fuel) :
    toList fuel q = some (elements (priorities q.size q.offset) (contents q)) :=
  toListLoop_spec h hfuel [] hlen

theorem len_eq (fuel : Nat) (q : PQueue α) : len fuel q = (toList fuel q).map List.length := by
  unfold len toList
  cases hout : out fuel q with
  | none => rfl
  | some r => exact lenLoop_eq fuel fuel [] r

theorem isEmpty_spec (h : Cached q) (hfuel : q.size.toNat < fuel) :
    ∃ b, isEmpty fuel q = some b ∧ (b = true ↔ ∀ p, contents q p = []) := by
  unfold isEmpty
  cases hcurrent : q.current with
  | none => exact ⟨true, rfl, fun _ => h.empty hcurrent, fun _ => rfl⟩
  | some i =>
    rcases out_spec h with ⟨hnil, q', -, -, -, hout⟩ | ⟨p, x, rest, q', -, hfirst, -, -, -, hout⟩
    · simp only [(hout fuel hfuel).1]
      exact ⟨true, rfl, fun _ => hnil, fun _ => rfl⟩
    · simp only [(hout fuel hfuel).1]
      refine ⟨false, rfl, fun hb => (by cases hb), fun hall => ?_⟩
      have hhead := hfirst.head
      rw [hall p] at hhead
      cases hhead

/-! ## runs -/

/-- **Step lemma**: an operation on the tuples is a step of `Spec` and keeps the invariant;
from some fuel on, its searches end. -/
theorem apply_spec (h : Cached q) (op : Op α) (hop : op.InRange q.size q.offset) :
    ∃ bound answer q', (∀ fuel ≥ bound, apply fuel q op = some (answer, q')) ∧ Cached q' ∧
      Same q q' ∧ Spec (priorities q.size q.offset) (contents q) op answer (contents q') := by
  cases op with
  | enter x =>
    obtain ⟨q', heq, h', hsame, hq'⟩ := enterAt_spec h hop x
    refine ⟨0, .queue, q', fun fuel _ => ?_, h', hsame, hq' ▸ .enter⟩
    simp only [apply, enter, heq, map_some]
  | enterAt x p =>
    obtain ⟨q', heq, h', hsame, hq'⟩ := enterAt_spec h hop x
    refine ⟨0, .queue, q', fun fuel _ => ?_, h', hsame, hq' ▸ .enterAt⟩
    simp only [apply, heq, map_some]
  | out =>
    rcases out_spec h with ⟨hnil, q', h', hsame, hq', hout⟩ |
      ⟨p, x, l, q', -, hfirst, h', hsame, hq', hout⟩
    · refine ⟨q.size.toNat + 1, .value none, q', fun fuel hfuel => ?_, h', hsame,
        hq'.symm ▸ .outEmpty hnil⟩
      simp only [apply, (hout fuel hfuel).1, map_some]
    · refine ⟨q.size.toNat + 1, .value (some x), q', fun fuel hfuel => ?_, h', hsame,
        hq' ▸ .out hfirst⟩
      simp only [apply, (hout fuel hfuel).1, map_some]
  | outAt p =>
    obtain ⟨value, q', heq, h', hsame, hcase⟩ := outAt_spec h hop
    refine ⟨0, .value value, q', fun fuel _ => ?_, h', hsame, ?_⟩
    · simp only [apply, heq, map_some]
    · rcases hcase with ⟨rfl, hnil, hq'⟩ | ⟨x, l, rfl, hcons, hq'⟩
      · rw [hq']
        exact .outAtEmpty hnil
      · rw [hq']
        exact .outAt hcons
  | pout =>
    rcases out_spec h with ⟨hnil, q', h', hsame, hq', hout⟩ |
      ⟨p, x, l, q', -, hfirst, h', hsame, hq', hout⟩
    · refine ⟨q.size.toNat + 1, .valueAt none, q', fun fuel hfuel => ?_, h', hsame,
        hq'.symm ▸ .poutEmpty hnil⟩
      simp only [apply, (hout fuel hfuel).2, map_some]
    · refine ⟨q.size.toNat + 1, .valueAt (some (x, p)), q', fun fuel hfuel => ?_, h', hsame,
        hq' ▸ .pout hfirst⟩
      simp only [apply, (hout fuel hfuel).2, map_some]
  | isEmpty =>
    -- the fuel does not change the answer
    obtain ⟨b, -, hb⟩ := isEmpty_spec h (Nat.lt_succ_self _)
    refine ⟨q.size.toNat + 1, .empty b, q, fun fuel hfuel => ?_, h, ⟨rfl, rfl⟩, .isEmpty hb⟩
    obtain ⟨b', heq, hb'⟩ := isEmpty_spec h hfuel
    have hbb : b' = b := Bool.eq_iff_iff.mpr (hb'.trans hb.symm)
    simp only [apply, heq, map_some, hbb]
  | len =>
    refine ⟨max (q.size.toNat + 1) ((elements (priorities q.size q.offset)
      (contents q)).length + 1), .length _, q, fun fuel hfuel => ?_, h, ⟨rfl, rfl⟩, .len⟩
    simp only [apply, len_eq, toList_spec h fuel (by omega) (by omega), map_some]
  | toList =>
    refine ⟨max (q.size.toNat + 1) ((elements (priorities q.size q.offset)
      (contents q)).length + 1), .list _, q, fun fuel hfuel => ?_, h, ⟨rfl, rfl⟩, .toList⟩
    simp only [apply, toList_spec h fuel (by omega) (by omega), map_some]

theorem exec_spec (h : Cached q) (ops : List (Op α)) (hops : ∀ op ∈ ops, op.InRange q.size q.offset)
    :
    ∃ bound answers q', (∀ fuel ≥ bound, exec fuel q ops = some (answers, q')) ∧
      SpecRun (priorities q.size q.offset) (contents q) ops answers (contents q') := by
  induction ops generalizing q with
  | nil => exact ⟨0, [], q, fun _ _ => rfl, .nil⟩
  | cons op ops ih =>
    rw [forall_mem_cons] at hops
    obtain ⟨bound, answer, q₁, heq, h₁, hsame, hspec⟩ := apply_spec h op hops.1
    obtain ⟨bound', answers, q', heq', hrun⟩ :=
      ih h₁ fun op hop => (hops.2 op hop).same hsame
    rw [hsame.priorities_eq] at hrun
    refine ⟨max bound bound', answer :: answers, q', fun fuel hfuel => ?_, .cons hspec hrun⟩
    simp only [exec, heq fuel (by omega), heq' fuel (by omega), bind_eq_bind,
      bind_some]
    rfl

/-- **A stable priority queue for every size**: for each size that `new/1` accepts, every
sequence of operations with priorities in range runs to its end without an index outside a
tuple, its searches end, and it answers what `Spec` says. -/
theorem runs_stable {size : Int} {middleZero : Bool} {q : PQueue α}
    (hnew : new size middleZero = some q) (ops : List (Op α))
    (hops : ∀ op ∈ ops, op.InRange size q.offset) :
    ∃ bound answers q' a, (∀ fuel ≥ bound, exec fuel q ops = some (answers, q')) ∧
      SpecRun (priorities size q.offset) (fun _ => []) ops answers a := by
  obtain ⟨h, hcontents⟩ := new_spec hnew
  obtain ⟨sizes, -, rfl⟩ := map_eq_some_iff.mp hnew
  obtain ⟨bound, answers, q', heq, hrun⟩ := exec_spec h ops hops
  rw [hcontents] at hrun
  exact ⟨bound, answers, q', contents q', heq, hrun⟩

/-- Two elements of priority 3 and one of priority -5, and every way to take or list them. -/
def sampleOps : List (Op Nat) :=
  [.enterAt 1 3, .enterAt 2 3, .enterAt 3 (-5), .toList, .pout, .out, .len, .outAt 3, .isEmpty]

/-- A queue for 300 priorities has tuples in tuples. -/
theorem runs_stable_sample : ∃ q : PQueue Nat, new 300 true = some q ∧
      ∃ bound answers q' a, (∀ fuel ≥ bound, exec fuel q sampleOps = some (answers, q')) ∧
        SpecRun (priorities 300 q.offset) (fun _ => []) sampleOps answers a :=
  ⟨_, rfl, runs_stable rfl sampleOps (by decide)⟩

end CloudI.Pqueue3
