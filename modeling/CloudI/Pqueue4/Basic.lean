import CloudI.Erlang.Queue
import Mathlib.Data.Vector.Basic

/-!
# Pqueue4.Basic

The `pqueue4` module: a priority queue with one FIFO queue for each of the
priorities -128 to 128, kept in sixteen tuples of sixteen queues and a queue
for priority 0, with a cached current priority and a cached size.

The source expands each operation into one clause per priority.  Each family of
clauses is one definition here, over `slot`, the place of a priority in the
tuples.  Where a recursion runs through the priorities up to 128, its argument
is the distance to 128, so that the clause for 128 is the base case.
-/

namespace CloudI.Pqueue4

/-- The queue `{Pc, Size, Qn128, …, Qn16, Q0, Qp16, …, Qp128}`: `neg` holds the
eight tuples of the negative priorities and `pos` those of the positive ones. -/
structure PQueue (α : Type) where
  pc : Option Int
  size : Int
  neg : Vector (Vector (ErlQueue α) 16) 8
  q0 : ErlQueue α
  pos : Vector (Vector (ErlQueue α) 16) 8
  deriving DecidableEq

/-- How an operation exits. -/
inductive Exit where
  | badarg
  | functionClause
  | caseClause
  deriving DecidableEq, Repr

variable {α : Type}

def new : PQueue α where
  pc := none
  size := 0
  neg := Vector.replicate 8 (Vector.replicate 16 ErlQueue.new)
  q0 := ErlQueue.new
  pos := Vector.replicate 8 (Vector.replicate 16 ErlQueue.new)

def len (q : PQueue α) : Int := q.size

def isEmpty (q : PQueue α) : Bool := q.size = 0

/-! ## the place of a priority -/

/-- The place of a queue in the tuples. -/
inductive Slot where
  | neg (i : Fin 8) (j : Fin 16)
  | zero
  | pos (i : Fin 8) (j : Fin 16)
  deriving DecidableEq

variable (p : Int)

/-- The priorities there are. -/
def InRange : Prop := -128 ≤ p ∧ p ≤ 128

instance (p : Int) : Decidable (InRange p) := inferInstanceAs (Decidable (_ ∧ _))

/-- `Qn128` to `Qn1` are -128 to -1 in order, `Qp1` to `Qp128` are 1 to 128. -/
def slot : Slot :=
  if p < 0 then .neg (Fin.ofNat 8 ((p + 128).toNat / 16)) (Fin.ofNat 16 ((p + 128).toNat % 16))
  else if p = 0 then .zero
  else .pos (Fin.ofNat 8 ((p - 1).toNat / 16)) (Fin.ofNat 16 ((p - 1).toNat % 16))

def Slot.get (q : PQueue α) : Slot → ErlQueue α
  | .neg i j => q.neg[i][j]
  | .zero => q.q0
  | .pos i j => q.pos[i][j]

def Slot.set (v : ErlQueue α) (q : PQueue α) : Slot → PQueue α
  | .neg i j => { q with neg := q.neg.set i (q.neg[i].set j v) }
  | .zero => { q with q0 := v }
  | .pos i j => { q with pos := q.pos.set i (q.pos[i].set j v) }

theorem getElem_set_set (t : Vector (Vector (ErlQueue α) 16) 8) (i i' : Fin 8) (j j' : Fin 16)
    (v : ErlQueue α) :
    (t.set i (t[i].set j v))[i'][j'] = if i = i' ∧ j = j' then v else t[i'][j'] := by
  by_cases hi : i = i'
  · subst hi
    by_cases hj : j = j'
    · subst hj
      simp
    · have hne : (j : Nat) ≠ j' := fun h => hj (Fin.ext h)
      simp [hj, hne]
  · have hne : (i : Nat) ≠ i' := fun h => hi (Fin.ext h)
    simp [hi, hne]

/-- The queue at a priority. -/
def bucket (q : PQueue α) : ErlQueue α := (slot p).get q

/-- The tuples with another queue at a priority. -/
def setBucket (v : ErlQueue α) (q : PQueue α) : PQueue α := (slot p).set v q

/-- The priority `k` places before 128. -/
@[irreducible] def before (k : Nat) : Int := 128 - k

/-- `if NewSize == 0 -> empty; true -> P end`. -/
def currentOr (newSize : Int) (p : Option Int) : Option Int :=
  if newSize = 0 then none else p

/-! ## in -/

def inHigher (q : PQueue α) (x : α) : PQueue α :=
  { setBucket p ((bucket p q).enter x) q with pc := some p, size := q.size + 1 }

def inLower (q : PQueue α) (x : α) : PQueue α :=
  { setBucket p ((bucket p q).enter x) q with pc := q.pc, size := q.size + 1 }

/-- `in/3`. -/
def enterAt (x : α) (p : Int) (q : PQueue α) : Except Exit (PQueue α) :=
  if p < -128 ∨ p > 128 then .error .badarg
  else match q.pc with
    | none => .ok (inHigher p q x)
    | some pc => if p < pc then .ok (inHigher p q x) else .ok (inLower p q x)

/-- `in/2`. -/
def enter (x : α) (q : PQueue α) : Except Exit (PQueue α) := enterAt x 0 q

/-! ## out -/

/-- `out_current/2` at priority `before k`. -/
def outCurrent : Nat → PQueue α → Option α × PQueue α
  | 0, q =>
      match (bucket 128 q).out with
      | (none, v2) => (none, { setBucket 128 v2 q with pc := none, size := 0 })
      | (some x, v2) =>
          (some x, { setBucket 128 v2 q with
            pc := currentOr (q.size - 1) (some 128), size := q.size - 1 })
  | k + 1, q =>
      let p := before (k + 1)
      match (bucket p q).out with
      | (none, _) => outCurrent k q
      | (some x, v2) =>
          (some x, { setBucket p v2 q with
            pc := currentOr (q.size - 1) (some p), size := q.size - 1 })

def out (q : PQueue α) : Option α × PQueue α :=
  match q.pc with
  | none => (none, q)
  | some pc => outCurrent (128 - pc).toNat q

/-- `out_current_p/2` at priority `before k`. -/
def outCurrentP : Nat → PQueue α → Option (α × Int) × PQueue α
  | 0, q =>
      match (bucket 128 q).out with
      | (none, _) => (none, { q with pc := none, size := 0 })
      | (some x, v2) =>
          (some (x, 128), { setBucket 128 v2 q with
            pc := currentOr (q.size - 1) (some 128), size := q.size - 1 })
  | k + 1, q =>
      let p := before (k + 1)
      match (bucket p q).out with
      | (none, _) => outCurrentP k q
      | (some x, v2) =>
          (some (x, p), { setBucket p v2 q with
            pc := currentOr (q.size - 1) (some p), size := q.size - 1 })

def pout (q : PQueue α) : Option (α × Int) × PQueue α :=
  match q.pc with
  | none => (none, q)
  | some pc => outCurrentP (128 - pc).toNat q

def outSpecific (q : PQueue α) : Option α × PQueue α :=
  let (value, v2) := (bucket p q).out
  let newSize := if value.isSome then q.size - 1 else q.size
  (value, { setBucket p v2 q with pc := currentOr newSize q.pc, size := newSize })

/-- `out/2`. -/
def outAt (q : PQueue α) : Except Exit (Option α × PQueue α) :=
  if p < -128 ∨ p > 128 then .error .badarg
  else match q.pc with
    | none => .ok (none, q)
    | some _ => .ok (outSpecific p q)

/-! ## filter -/

variable (f : α → Bool)

def filterPriority (q : PQueue α) : PQueue α :=
  let v1 := bucket p q
  let v2 := v1.filter f
  let newSize := q.size - ((v1.len : Int) - v2.len)
  { setBucket p v2 q with pc := currentOr newSize q.pc, size := newSize }

/-- `filter_all/3` from priority `before k`. -/
def filterAll (f : α → Bool) : Nat → PQueue α → PQueue α
  | 0, q => if q.size = 0 then q else filterPriority 128 f q
  | k + 1, q => if q.size = 0 then q else filterAll f k (filterPriority (before (k + 1)) f q)

def filter (q : PQueue α) : PQueue α :=
  match q.pc with
  | none => q
  | some pc => filterAll f (128 - pc).toNat q

/-- `filter/3`. -/
def filterAt (p : Int) (q : PQueue α) : Except Exit (PQueue α) :=
  if p < -128 ∨ p > 128 then .error .badarg else .ok (filterPriority p f q)

/-! ## remove_unique -/

/-- `queue_remove_unique_f/4`. -/
def queueRemoveUniqueLoop (f : α → Bool) : List α → List α → List α → Bool × List α
  | [], _, l => (false, l)
  | x :: l0, l1, l => if f x then (true, l1.reverse ++ l0) else queueRemoveUniqueLoop f l0 (x :: l1) l

def queueRemoveUniqueF (l : List α) : Bool × List α :=
  match l with
  | [] => (false, [])
  | x :: l => queueRemoveUniqueLoop f (x :: l) [] (x :: l)

/-- `queue_remove_unique/2`: the front from the oldest element on, then the rear
from the newest one back. -/
def queueRemoveUnique (q : ErlQueue α) : Bool × ErlQueue α :=
  match queueRemoveUniqueF f q.front with
  | (true, []) => (true, ErlQueue.r2f q.rear)
  | (true, f1) => (true, ⟨q.rear, f1⟩)
  | (false, f1) =>
      match queueRemoveUniqueF f q.rear with
      | (true, []) => (true, ErlQueue.f2r f1)
      | (true, r1) => (true, ⟨r1, f1⟩)
      | (false, _) => (false, q)

def removeUniqueP (q : PQueue α) : Bool × PQueue α :=
  let (value, v2) := queueRemoveUnique f (bucket p q)
  let newSize := if value then q.size - 1 else q.size
  (value, { setBucket p v2 q with pc := currentOr newSize q.pc, size := newSize })

/-- `remove_unique_all/3` from priority `before k`.  The pattern `{false, Q}`
matches only the queue itself. -/
def removeUniqueAll [DecidableEq α] (f : α → Bool) : Nat → PQueue α → Except Exit (Bool × PQueue α)
  | 0, q => .ok (removeUniqueP 128 f q)
  | k + 1, q =>
      match removeUniqueP (before (k + 1)) f q with
      | (true, q') => .ok (true, q')
      | (false, q') => if q' = q then removeUniqueAll f k q else .error .caseClause

def removeUnique [DecidableEq α] (f : α → Bool) (q : PQueue α) : Except Exit (Bool × PQueue α) :=
  if q.size = 0 then .ok (false, q)
  else match q.pc with
    | none => .error .functionClause
    | some pc => removeUniqueAll f (128 - pc).toNat q

/-- `remove_unique/3`. -/
def removeUniqueAt (p : Int) (q : PQueue α) : Except Exit (Bool × PQueue α) :=
  if p < -128 ∨ p > 128 then .error .badarg else .ok (removeUniqueP p f q)

/-! ## to_plist -/

/-- `to_plist/4`, with a bound on the number of `pout/1` calls.  A priority is
`undefined` only while the list of its values is empty. -/
def toPlistLoop : Nat → List (Int × List α) → List α → Option Int → PQueue α →
    Option (List (Int × List α))
  | 0, _, _, _, _ => none
  | fuel + 1, l, lp, pc, q =>
      match pout q with
      | (none, _) =>
          match lp, pc with
          | [], _ => some l.reverse
          | _, none => none
          | lp, some pc => some ((pc, lp.reverse) :: l).reverse
      | (some (x, p), q) =>
          if pc = some p then toPlistLoop fuel l (x :: lp) pc q
          else match lp, pc with
            | [], _ => toPlistLoop fuel l [x] (some p) q
            | _, none => none
            | lp, some pc => toPlistLoop fuel ((pc, lp.reverse) :: l) [x] (some p) q

def toPlist (q : PQueue α) : Option (List (Int × List α)) :=
  toPlistLoop (q.size.toNat + 1) [] [] none q

end CloudI.Pqueue4
