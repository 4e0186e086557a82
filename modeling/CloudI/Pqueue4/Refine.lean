import CloudI.Library.Except
import CloudI.Pqueue4.Operations

/-!
# Pqueue4.Refine

`pqueue4` as a stable priority queue.  `Spec` says what each operation does to
the FIFO list of each priority and what it answers; every run of operations on
the tuples is a run of `Spec`.
-/

namespace CloudI.Pqueue4

open Fifos CloudI.Except Function

variable {α : Type}

/-- An operation of the queue. -/
inductive Op (α : Type) where
  | enter (x : α)
  | enterAt (x : α) (p : Int)
  | out
  | outAt (p : Int)
  | pout
  | filter (f : α → Bool)
  | filterAt (f : α → Bool) (p : Int)
  | removeUnique (f : α → Bool)
  | removeUniqueAt (f : α → Bool) (p : Int)

/-- What an operation answers beside the new queue. -/
inductive Answer (α : Type) where
  | queue
  | value (x : Option α)
  | valueAt (x : Option (α × Int))
  | removed (b : Bool)
  deriving DecidableEq

/-- The priorities that an operation names. -/
def Op.InRange : Op α → Prop
  | .enterAt _ p => Pqueue4.InRange p
  | .outAt p => Pqueue4.InRange p
  | .filterAt _ p => Pqueue4.InRange p
  | .removeUniqueAt _ p => Pqueue4.InRange p
  | .enter _ | .out | .pout | .filter _ | .removeUnique _ => True

/-- One operation on the tuples. -/
def apply [DecidableEq α] (q : PQueue α) : Op α → Except Exit (Answer α × PQueue α)
  | .enter x => do return (.queue, ← enter x q)
  | .enterAt x p => do return (.queue, ← enterAt x p q)
  | .out => let (value, q) := out q; .ok (.value value, q)
  | .outAt p => do let (value, q) ← outAt p q; return (.value value, q)
  | .pout => let (value, q) := pout q; .ok (.valueAt value, q)
  | .filter f => .ok (.queue, filter f q)
  | .filterAt f p => do return (.queue, ← filterAt f p q)
  | .removeUnique f => do let (b, q) ← removeUnique f q; return (.removed b, q)
  | .removeUniqueAt f p => do let (b, q) ← removeUniqueAt f p q; return (.removed b, q)

/-- The operations in order, with their answers. -/
def exec [DecidableEq α] (q : PQueue α) : List (Op α) → Except Exit (List (Answer α) × PQueue α)
  | [] => .ok ([], q)
  | op :: ops => do
      let (answer, q) ← apply q op
      let (answers, q) ← exec q ops
      return (answer :: answers, q)

/-! ## the stable priority queue -/

/-- **What each operation means** for the FIFO lists `a` of the priorities:
`Spec a op answer a'`. -/
inductive Spec : (Int → List α) → Op α → Answer α → (Int → List α) → Prop
  | enter : Spec a (.enter x) .queue (update a 0 (a 0 ++ [x]))
  | enterAt : Spec a (.enterAt x p) .queue (update a p (a p ++ [x]))
  | outEmpty (h : ∀ p, a p = []) : Spec a .out (.value none) a
  | out (h : First a p x l) : Spec a .out (.value (some x)) (update a p l)
  | outAtEmpty (h : a p = []) : Spec a (.outAt p) (.value none) a
  | outAt (h : a p = x :: l) : Spec a (.outAt p) (.value (some x)) (update a p l)
  | poutEmpty (h : ∀ p, a p = []) : Spec a .pout (.valueAt none) a
  | pout (h : First a p x l) : Spec a .pout (.valueAt (some (x, p))) (update a p l)
  | filter : Spec a (.filter f) .queue fun p => (a p).filter f
  | filterAt : Spec a (.filterAt f p) .queue (update a p ((a p).filter f))
  | removeNone (h : ∀ p, ∀ y ∈ a p, f y = false) : Spec a (.removeUnique f) (.removed false) a
  | remove (h : a p = l1 ++ x :: l2) (hx : f x = true)
      (hbelow : ∀ r < p, ∀ y ∈ a r, f y = false) :
      Spec a (.removeUnique f) (.removed true) (update a p (l1 ++ l2))
  | removeAtNone (h : ∀ y ∈ a p, f y = false) :
      Spec a (.removeUniqueAt f p) (.removed false) a
  | removeAt (h : a p = l1 ++ x :: l2) (hx : f x = true) :
      Spec a (.removeUniqueAt f p) (.removed true) (update a p (l1 ++ l2))

/-- A run of `Spec`. -/
inductive SpecRun : (Int → List α) → List (Op α) → List (Answer α) → (Int → List α) → Prop
  | nil : SpecRun a [] [] a
  | cons (h : Spec a op answer a') (hrest : SpecRun a' ops answers a'') :
      SpecRun a (op :: ops) (answer :: answers) a''

theorem inRange_not_badarg (hp : InRange p) : ¬ (p < -128 ∨ p > 128) := by
  obtain ⟨h1, h2⟩ := hp
  omega

/-- **Step lemma**: an operation on the tuples is a step of `Spec` and keeps the
caches right. -/
theorem apply_spec [DecidableEq α] {q : PQueue α} (h : Cached q) (op : Op α) (hop : op.InRange) :
    ∃ answer q', apply q op = .ok (answer, q') ∧ Cached q' ∧
      Spec (contents q) op answer (contents q') := by
  have hremove : ∀ f out, RemovesOne f q out → ∃ b q', out = .ok (b, q') ∧ Cached q' ∧
        Spec (contents q) (.removeUnique f) (.removed b) (contents q') := by
    rintro f out (⟨hnone, rfl⟩ | ⟨p, l1, x, l2, q', hl, hx, hbelow, rfl, h', hq'⟩)
    · exact ⟨false, q, rfl, h, .removeNone hnone⟩
    · exact ⟨true, q', rfl, h', hq' ▸ .remove hl hx hbelow⟩
  cases op with
  | enter x =>
    obtain ⟨q', heq, h', hq'⟩ := enterAt_spec h (p := 0) (by decide) x
    exact ⟨.queue, q', by simp only [apply, enter, heq]; rfl, h', hq' ▸ .enter⟩
  | enterAt x p =>
    obtain ⟨q', heq, h', hq'⟩ := enterAt_spec h hop x
    exact ⟨.queue, q', by simp only [apply, heq]; rfl, h', hq' ▸ .enterAt⟩
  | out =>
    rcases out_spec h with ⟨hzero, heq, -⟩ | ⟨p, x, l, q', -, hfirst, heq, -, h', hq'⟩
    · exact ⟨.value none, q, by simp only [apply, heq], h, .outEmpty (h.contents_eq_nil hzero)⟩
    · exact ⟨.value (some x), q', by simp only [apply, heq], h', hq' ▸ .out hfirst⟩
  | outAt p =>
    obtain ⟨value, q', heq, h', hcase⟩ := outAt_spec h hop
    refine ⟨.value value, q', by simp only [apply, heq]; rfl, h', ?_⟩
    rcases hcase with ⟨rfl, hnil, hq'⟩ | ⟨x, l, rfl, hcons, hq'⟩
    · rw [hq']
      exact .outAtEmpty hnil
    · rw [hq']
      exact .outAt hcons
  | pout =>
    rcases out_spec h with ⟨hzero, -, heq⟩ | ⟨p, x, l, q', -, hfirst, -, heq, h', hq'⟩
    · exact ⟨.valueAt none, q, by simp only [apply, heq], h, .poutEmpty (h.contents_eq_nil hzero)⟩
    · exact ⟨.valueAt (some (x, p)), q', by simp only [apply, heq], h', hq' ▸ .pout hfirst⟩
  | filter f =>
    obtain ⟨h', hq'⟩ := filter_spec h f
    exact ⟨.queue, _, rfl, h', hq' ▸ .filter⟩
  | filterAt f p =>
    obtain ⟨h', hq'⟩ := filterPriority_spec h hop f
    refine ⟨.queue, filterPriority p f q, ?_, h', hq' ▸ .filterAt⟩
    simp only [apply, filterAt, if_neg (inRange_not_badarg hop)]
    rfl
  | removeUnique f =>
    obtain ⟨b, q', heq, h', hspec⟩ := hremove f _ (removeUnique_spec h f)
    exact ⟨.removed b, q', by simp only [apply, heq]; rfl, h', hspec⟩
  | removeUniqueAt f p =>
    rcases removeUniqueP_spec h hop f with ⟨hnone, heq⟩ | ⟨l1, x, l2, q', hl, hx, heq, h', hq'⟩
    · refine ⟨.removed false, q, ?_, h, .removeAtNone hnone⟩
      simp only [apply, removeUniqueAt, if_neg (inRange_not_badarg hop), heq]
      rfl
    · refine ⟨.removed true, q', ?_, h', hq' ▸ .removeAt hl hx⟩
      simp only [apply, removeUniqueAt, if_neg (inRange_not_badarg hop), heq]
      rfl

theorem exec_spec [DecidableEq α] {q : PQueue α} (h : Cached q) (ops : List (Op α))
    (hops : ∀ op ∈ ops, op.InRange) :
    ∃ answers q', exec q ops = .ok (answers, q') ∧ Cached q' ∧
      SpecRun (contents q) ops answers (contents q') := by
  induction ops generalizing q with
  | nil => exact ⟨[], q, rfl, h, .nil⟩
  | cons op ops ih =>
    rw [List.forall_mem_cons] at hops
    obtain ⟨answer, q₁, heq, h₁, hspec⟩ := apply_spec h op hops.1
    obtain ⟨answers, q', heq', h', hrun⟩ := ih h₁ hops.2
    refine ⟨answer :: answers, q', ?_, h', .cons hspec hrun⟩
    simp only [exec, heq, heq', ok_bind, pure_eq_ok]

/-- **The queue is a stable priority queue**: every sequence of operations with
priorities in range runs without an exit and answers what `Spec` says, and the
final queue lists and counts exactly the remaining elements. -/
theorem exec_stable [DecidableEq α] (ops : List (Op α)) (hops : ∀ op ∈ ops, op.InRange) :
    ∃ answers q a, exec new ops = .ok (answers, q) ∧ SpecRun (fun _ => []) ops answers a ∧
      toPlist q = some (listing priorities a) ∧ len q = count priorities a ∧
      (isEmpty q = true ↔ ∀ p, a p = []) := by
  obtain ⟨answers, q, heq, h, hrun⟩ := exec_spec cached_new ops hops
  rw [contents_new] at hrun
  refine ⟨answers, q, contents q, heq, hrun, toPlist_spec h, h.size_eq, ?_⟩
  rw [isEmpty, decide_eq_true_eq]
  constructor
  · exact h.contents_eq_nil
  · intro hnil
    by_contra hne
    obtain ⟨p, -, hp⟩ := h.exists_element hne
    exact hp (hnil p)

/-! ## the element that remove_unique removes -/

/-- Three elements of one priority, and the removal of one that is at least 2. -/
def removeSecond : List (Op Nat) :=
  [.enter 1, .enter 2, .enter 3, .removeUnique fun x => 2 ≤ x]

theorem exec_stable_removeSecond : ∃ answers q a, exec new removeSecond = .ok (answers, q) ∧
      SpecRun (fun _ => []) removeSecond answers a ∧ toPlist q = some (listing priorities a) ∧
      len q = count priorities a ∧ (isEmpty q = true ↔ ∀ p, a p = []) :=
  exec_stable removeSecond (by simp [removeSecond, Op.InRange])

/-- The first accepted element is 2, and 3 is removed. -/
theorem removeUnique_not_first :
    (exec new removeSecond).toOption.map (fun out => (out.1.getLast?, toPlist out.2))
      = some (some (.removed true), some [(0, [1, 2])]) := by
  decide +kernel

end CloudI.Pqueue4
