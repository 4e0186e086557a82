import CloudI.Erlang.Queue
import Mathlib.Data.Vector.Basic

/-!
# Pqueue.Basic

The `pqueue` module: a priority queue with one FIFO queue for each of the
priorities -20 to 20, in six tuples of six or seven queues and a queue for priority
0, with a cached current priority.

The source expands each operation into one clause per priority.  Each family of
clauses is one definition here, over `slot`, the place of a priority in the
tuples.  The argument of the recursion through the priorities up to 20 is the
distance to 20, so that the clause for 20 is the base case.
-/

namespace CloudI.Pqueue

/-- The queue `{Pc, Qsn14, Qsn7, Qsn1, Q0, Qsp1, Qsp7, Qsp14}`. -/
structure PQueue (α : Type) where
  pc : Option Int
  qsn14 : Vector (ErlQueue α) 7
  qsn7 : Vector (ErlQueue α) 7
  qsn1 : Vector (ErlQueue α) 6
  q0 : ErlQueue α
  qsp1 : Vector (ErlQueue α) 6
  qsp7 : Vector (ErlQueue α) 7
  qsp14 : Vector (ErlQueue α) 7

variable {α β : Type}

def new : PQueue α where
  pc := none
  qsn14 := .replicate 7 .new
  qsn7 := .replicate 7 .new
  qsn1 := .replicate 6 .new
  q0 := .new
  qsp1 := .replicate 6 .new
  qsp7 := .replicate 7 .new
  qsp14 := .replicate 7 .new

/-! ## the place of a priority -/

/-- The place of a queue in the tuples. -/
inductive Slot where
  | n14 (i : Fin 7)
  | n7 (i : Fin 7)
  | n1 (i : Fin 6)
  | zero
  | p1 (i : Fin 6)
  | p7 (i : Fin 7)
  | p14 (i : Fin 7)
  deriving DecidableEq

variable (p : Int)

/-- The priorities there are. -/
def InRange : Prop := -20 ≤ p ∧ p ≤ 20

instance (p : Int) : Decidable (InRange p) := inferInstanceAs (Decidable (_ ∧ _))

/-- `Qn20` to `Qn1` are -20 to -1 in order, `Qp1` to `Qp20` are 1 to 20. -/
def slot : Slot :=
  if p < -13 then .n14 (Fin.ofNat 7 (p + 20).toNat)
  else if p < -6 then .n7 (Fin.ofNat 7 (p + 13).toNat)
  else if p < 0 then .n1 (Fin.ofNat 6 (p + 6).toNat)
  else if p = 0 then .zero
  else if p < 7 then .p1 (Fin.ofNat 6 (p - 1).toNat)
  else if p < 14 then .p7 (Fin.ofNat 7 (p - 7).toNat)
  else .p14 (Fin.ofNat 7 (p - 14).toNat)

variable (q : PQueue α)

def Slot.get : Slot → ErlQueue α
  | .n14 i => q.qsn14[i]
  | .n7 i => q.qsn7[i]
  | .n1 i => q.qsn1[i]
  | .zero => q.q0
  | .p1 i => q.qsp1[i]
  | .p7 i => q.qsp7[i]
  | .p14 i => q.qsp14[i]

def Slot.set (v : ErlQueue α) (q : PQueue α) : Slot → PQueue α
  | .n14 i => { q with qsn14 := q.qsn14.set i v }
  | .n7 i => { q with qsn7 := q.qsn7.set i v }
  | .n1 i => { q with qsn1 := q.qsn1.set i v }
  | .zero => { q with q0 := v }
  | .p1 i => { q with qsp1 := q.qsp1.set i v }
  | .p7 i => { q with qsp7 := q.qsp7.set i v }
  | .p14 i => { q with qsp14 := q.qsp14.set i v }

/-- The queue at a priority. -/
def bucket : ErlQueue α := (slot p).get q

/-- The tuples with another queue at a priority. -/
def setBucket (v : ErlQueue α) (q : PQueue α) : PQueue α := (slot p).set v q

/-- The priority `k` places before 20. -/
@[irreducible] def before (k : Nat) : Int := 20 - k

/-! ## in -/

def inHigher (x : α) : PQueue α :=
  { setBucket p ((bucket p q).enter x) q with pc := some p }

def inLower (x : α) : PQueue α :=
  { setBucket p ((bucket p q).enter x) q with pc := q.pc }

/-- `in/3`; `none` is the exit `badarg`. -/
def enterAt (x : α) (p : Int) (q : PQueue α) : Option (PQueue α) :=
  if p < -20 ∨ p > 20 then none
  else match q.pc with
    | none => some (inHigher p q x)
    | some pc => if p < pc then some (inHigher p q x) else some (inLower p q x)

/-- `in/2`. -/
def enter (x : α) (q : PQueue α) : Option (PQueue α) := enterAt x 0 q

/-! ## out -/

/-- `out_current/3` at priority `before k`.  The `ReturnType` is what the answer has
of an element and its priority. -/
def outCurrent (returnType : α → Int → β) : Nat → PQueue α → Option β × PQueue α
  | 0, q =>
      match (bucket 20 q).out with
      | (none, _) => (none, { q with pc := none })
      | (some x, v) => (some (returnType x 20), { setBucket 20 v q with pc := some 20 })
  | k + 1, q =>
      let p := before (k + 1)
      match (bucket p q).out with
      | (none, _) => outCurrent returnType k q
      | (some x, v) => (some (returnType x p), { setBucket p v q with pc := some p })

/-- `out/1` and `pout/1`. -/
def outReturning (returnType : α → Int → β) (q : PQueue α) : Option β × PQueue α :=
  match q.pc with
  | none => (none, q)
  | some pc => outCurrent returnType (20 - pc).toNat q

def out : Option α × PQueue α := outReturning (fun x _ => x) q

def pout : Option (α × Int) × PQueue α := outReturning (fun x p => (x, p)) q

def outSpecific : Option α × PQueue α :=
  let (value, v) := (bucket p q).out
  (value, { setBucket p v q with pc := q.pc })

/-- `out/2`. -/
def outAt : Option (Option α × PQueue α) :=
  if p < -20 ∨ p > 20 then none
  else match q.pc with
    | none => some (none, q)
    | some _ => some (outSpecific p q)

/-! ## join -/

/-- `erlang:min/2`; a number is less than the atom `empty`. -/
def minPc : Option Int → Option Int → Option Int
  | none, pc => pc
  | pc, none => pc
  | some p1, some p2 => some (min p1 p2)

def join (q1 q2 : PQueue α) : PQueue α where
  pc := minPc q1.pc q2.pc
  qsn14 := q1.qsn14.zipWith .join q2.qsn14
  qsn7 := q1.qsn7.zipWith .join q2.qsn7
  qsn1 := q1.qsn1.zipWith .join q2.qsn1
  q0 := q1.q0.join q2.q0
  qsp1 := q1.qsp1.zipWith .join q2.qsp1
  qsp7 := q1.qsp7.zipWith .join q2.qsp7
  qsp14 := q1.qsp14.zipWith .join q2.qsp14

end CloudI.Pqueue
