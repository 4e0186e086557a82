import CloudI.Erlang.Queue

/-!
# Pqueue2.Basic

The `pqueue2` module: a priority queue as a heap.  A node has a priority, two heaps
and its data, one element or a queue of elements.

`merge/2` has no clause for two nodes of one priority that both have a queue; an
operation that raises an exception answers `none`.
-/

namespace CloudI.Pqueue2

variable {α : Type}

/-- What a node holds: `element, Value` or `queue, Queue`. -/
inductive Data (α : Type) where
  | element (x : α)
  | queue (q : ErlQueue α)

/-- A heap: `empty`, or `{P, HL, HR, Type, Data}`. -/
inductive Heap (α : Type) where
  | empty
  | node (p : Int) (hl hr : Heap α) (d : Data α)

namespace Heap

/-- The number of nodes. -/
def size : Heap α → Nat
  | empty => 0
  | node _ hl hr _ => hl.size + hr.size + 1

end Heap

def new : Heap α := .empty

/-- The data of two nodes of one priority, the last three clauses of `merge/2`. -/
def mergeData : Data α → Data α → Option (Data α)
  | .element x1, .element x2 => some (.queue (.fromList [x2, x1]))
  | .queue q, .element x => some (.queue (q.enter x))
  | .element x, .queue q => some (.queue (q.enter x))
  | .queue _, .queue _ => none

def merge : Heap α → Heap α → Option (Heap α)
  | .empty, h2 => some h2
  | .node p hl hr d, .empty => some (.node p hl hr d)
  | .node p1 hl1 hr1 d1, .node p2 hl2 hr2 d2 =>
      if p1 < p2 then
        (merge hr1 (.node p2 hl2 hr2 d2)).map fun hr => .node p1 hl1 hr d1
      else if p1 > p2 then
        (merge (.node p1 hl1 hr1 d1) hr2).map fun hr => .node p2 hl2 hr d2
      else
        match merge hl1 hr1, merge hl2 hr2, mergeData d1 d2 with
        | some hl, some hr, some d => some (.node p1 hl hr d)
        | _, _, _ => none
termination_by h1 h2 => h1.size + h2.size
decreasing_by all_goals simp only [Heap.size]; omega

/-- A merged heap has no more nodes. -/
theorem size_merge {h1 h2 h : Heap α} (hm : merge h1 h2 = some h) : h.size ≤ h1.size + h2.size := by
  fun_induction merge h1 h2 generalizing h with
  | case1 h2 =>
    cases hm
    exact Nat.le_add_left _ _
  | case2 p hl hr d =>
    cases hm
    exact Nat.le_add_right _ _
  | case3 p1 hl1 hr1 d1 p2 hl2 hr2 d2 hlt ih =>
    obtain ⟨hr, hhr, rfl⟩ := Option.map_eq_some_iff.mp hm
    have hsize := ih hhr
    simp only [Heap.size] at hsize ⊢
    omega
  | case4 p1 hl1 hr1 d1 p2 hl2 hr2 d2 hle hgt ih =>
    obtain ⟨hr, hhr, rfl⟩ := Option.map_eq_some_iff.mp hm
    have hsize := ih hhr
    simp only [Heap.size] at hsize ⊢
    omega
  | case5 p1 hl1 hr1 d1 p2 hl2 hr2 d2 hle hge hl hr d hd hhr hhl ih1 ih2 =>
    cases hm
    have hsize1 := ih1 hhl
    have hsize2 := ih2 hhr
    simp only [Heap.size]
    omega
  | case6 => cases hm

/-- `in/3`. -/
def enterAt (x : α) (p : Int) (h : Heap α) : Option (Heap α) :=
  merge (.node p .empty .empty (.element x)) h

/-- `in/2`. -/
def enter (x : α) (h : Heap α) : Option (Heap α) := enterAt x 0 h

/-- `pout/1`; `none` is the answer `empty`. -/
def pout : Heap α → Option (Option (α × Int) × Heap α)
  | .empty => some (none, .empty)
  | .node p hl hr (.element x) => (merge hl hr).map fun h => (some (x, p), h)
  | .node p hl hr (.queue q) =>
      match q.out with
      | (some x, q) => some (some (x, p), .node p hl hr (.queue q))
      | (none, _) =>
          match _hm : merge hl hr with
          | none => none
          | some h => pout h
termination_by h => h.size
decreasing_by
  have hsize := size_merge _hm
  simp only [Heap.size]
  omega

def out : Heap α → Option (Option α × Heap α)
  | .empty => some (none, .empty)
  | .node _ hl hr (.element x) => (merge hl hr).map fun h => (some x, h)
  | .node p hl hr (.queue q) =>
      match q.out with
      | (some x, q) => some (some x, .node p hl hr (.queue q))
      | (none, _) =>
          match _hm : merge hl hr with
          | none => none
          | some h => out h
termination_by h => h.size
decreasing_by
  have hsize := size_merge _hm
  simp only [Heap.size]
  omega

/-- `out/2`. -/
def outAt (p : Int) : Heap α → Option (Option α × Heap α)
  | .empty => some (none, .empty)
  | .node p1 hl hr d =>
      if p < p1 then some (none, .node p1 hl hr d)
      else if p > p1 then
        match outAt p hl with
        | none => none
        | some (some x, hl) => some (some x, .node p1 hl hr d)
        | some (none, hl) => (outAt p hr).map fun (value, hr) => (value, .node p1 hl hr d)
      else
        match d with
        | .element x => (merge hl hr).map fun h => (some x, h)
        | .queue q =>
            match q.out with
            | (some x, q) => some (some x, .node p1 hl hr (.queue q))
            | (none, _) =>
                match _hm : merge hl hr with
                | none => none
                | some h => outAt p h
termination_by h => h.size
decreasing_by
  all_goals simp only [Heap.size]
  · omega
  · omega
  · have hsize := size_merge _hm
    omega

end CloudI.Pqueue2
