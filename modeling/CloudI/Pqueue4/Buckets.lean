import CloudI.Library.Fifos
import CloudI.Pqueue4.Basic
import Mathlib.Order.Nat

/-!
# Pqueue4.Buckets

The tuples of tuples as a map from priorities to queues, the abstract contents
of a queue, and the invariant of its cached size and current priority.
-/

namespace CloudI.Pqueue4

open Fifos Function

variable {α : Type}

/-! ## the tuples as a map -/

/-- The priority of a place. -/
def Slot.priority : Slot → Int
  | .neg i j => i * 16 + j - 128
  | .zero => 0
  | .pos i j => i * 16 + j + 1

theorem priority_slot (hp : InRange p) : (slot p).priority = p := by
  obtain ⟨h1, h2⟩ := hp
  unfold slot
  split_ifs <;> simp only [Slot.priority, Fin.val_ofNat] <;> omega

theorem slot_injective (hp : InRange p) (hr : InRange r) (h : slot p = slot r) : p = r := by
  rw [← priority_slot hp, h, priority_slot hr]

theorem Slot.get_set (s s' : Slot) (v : ErlQueue α) (q : PQueue α) :
    s'.get (s.set v q) = if s = s' then v else s'.get q := by
  cases s with
  | neg i j =>
    cases s' with
    | neg i' j' => simp only [Slot.get, Slot.set, getElem_set_set, Slot.neg.injEq]
    | _ => simp [Slot.get, Slot.set]
  | zero =>
    cases s' with
    | _ => simp [Slot.get, Slot.set]
  | pos i j =>
    cases s' with
    | pos i' j' => simp only [Slot.get, Slot.set, getElem_set_set, Slot.pos.injEq]
    | _ => simp [Slot.get, Slot.set]

theorem bucket_setBucket (hp : InRange p) (hr : InRange r) (v : ErlQueue α) (q : PQueue α) :
    bucket r (setBucket p v q) = if p = r then v else bucket r q := by
  rw [bucket, setBucket, Slot.get_set]
  by_cases hpr : p = r
  · rw [if_pos hpr, if_pos (congrArg slot hpr)]
  · rw [if_neg hpr, if_neg fun h => hpr (slot_injective hp hr h)]
    rfl

theorem setBucket_bucket (p : Int) (q : PQueue α) : setBucket p (bucket p q) q = q := by
  unfold setBucket bucket
  cases slot p with
  | zero => rfl
  | _ => simp [Slot.set, Slot.get]

@[simp] theorem bucket_with (r : Int) (q : PQueue α) (pc : Option Int) (size : Int) :
    bucket r { q with pc, size } = bucket r q := by
  unfold bucket
  cases slot r with
  | _ => rfl

/-! ## the contents -/

/-- The priorities, in order. -/
def priorities : List Int := (List.range 257).map fun i : Nat => (i : Int) - 128

theorem mem_priorities : p ∈ priorities ↔ InRange p := by
  simp only [priorities, List.mem_map, List.mem_range, InRange]
  constructor
  · rintro ⟨i, hi, rfl⟩
    omega
  · intro h
    exact ⟨(p + 128).toNat, by omega, by omega⟩

theorem priorities_pairwise : priorities.Pairwise (· < ·) := by
  rw [priorities, List.pairwise_map]
  exact List.pairwise_lt_range.imp fun h => by omega

theorem priorities_nodup : priorities.Nodup :=
  priorities_pairwise.imp fun h => ne_of_lt h

/-- The elements at each priority, oldest first. -/
def contents (q : PQueue α) (p : Int) : List α :=
  if InRange p then (bucket p q).toList else []

theorem contents_of_not_inRange (q : PQueue α) (hp : ¬ InRange p) : contents q p = [] :=
  if_neg hp

theorem contents_of_inRange (q : PQueue α) (hp : InRange p) :
    contents q p = (bucket p q).toList := if_pos hp

theorem contents_set (hp : InRange p) (v : ErlQueue α) (q : PQueue α) (pc : Option Int)
    (size : Int) : contents { setBucket p v q with pc, size } =
      update (contents q) p v.toList := by
  funext r
  by_cases hr : InRange r
  · rw [contents_of_inRange _ hr, bucket_with, bucket_setBucket hp hr]
    by_cases hpr : p = r
    · subst hpr
      rw [if_pos rfl, update_self]
    · rw [if_neg hpr, update_of_ne (Ne.symm hpr), contents_of_inRange _ hr]
  · have hpr : r ≠ p := fun h => hr (h ▸ hp)
    rw [contents_of_not_inRange _ hr, update_of_ne hpr, contents_of_not_inRange _ hr]

theorem contents_new : contents (new : PQueue α) = fun _ => [] := by
  funext p
  by_cases hp : InRange p
  · rw [contents_of_inRange _ hp, bucket]
    cases slot p with
    | zero => rfl
    | _ => simp [Slot.get, new]
  · exact contents_of_not_inRange _ hp

/-! ## the invariant -/

/-- The cached size counts the elements; the cached priority is `empty` for an
empty queue and else at most the smallest occupied priority. -/
structure Cached (q : PQueue α) : Prop where
  size_eq : q.size = count priorities (contents q)
  empty : q.size = 0 → q.pc = none
  current : q.size ≠ 0 → ∃ c, q.pc = some c ∧ InRange c ∧ ∀ r < c, contents q r = []

theorem cached_new : Cached (new : PQueue α) where
  size_eq := by
    have hzero : count priorities (contents (new : PQueue α)) = 0 :=
      count_eq_zero.mpr fun p _ => by rw [contents_new]
    rw [hzero]
    rfl
  empty := fun _ => rfl
  current := fun h => absurd rfl h

theorem Cached.contents_eq_nil {q : PQueue α} (h : Cached q) (hsize : q.size = 0) (p : Int) :
    contents q p = [] := by
  by_cases hp : InRange p
  · have hzero : count priorities (contents q) = 0 := by
      have := h.size_eq
      omega
    exact count_eq_zero.mp hzero p (mem_priorities.mpr hp)
  · exact contents_of_not_inRange q hp

theorem Cached.exists_element {q : PQueue α} (h : Cached q) (hsize : q.size ≠ 0) :
    ∃ p, InRange p ∧ contents q p ≠ [] := by
  by_contra hnone
  have hzero : count priorities (contents q) = 0 := by
    refine count_eq_zero.mpr fun p hp => ?_
    by_contra hne
    exact hnone ⟨p, mem_priorities.mp hp, hne⟩
  have := h.size_eq
  omega

/-- The elements at one priority change, the size by as many, and the cached
priority is not above an occupied one. -/
theorem cached_set {q : PQueue α} (h : Cached q) (hp : InRange p) (v : ErlQueue α)
    (hsize : n + (contents q p).length = q.size + v.toList.length)
    (hpc : n ≠ 0 → ∃ c, m = some c ∧ InRange c ∧
      ∀ r < c, update (contents q) p v.toList r = []) :
    Cached { setBucket p v q with pc := currentOr n m, size := n } where
  size_eq := by
    have hcount := count_update (a := contents q) priorities_nodup (mem_priorities.mpr hp) v.toList
    have hold := h.size_eq
    simp only [contents_set hp]
    omega
  empty := fun h0 => if_pos h0
  current := by
    intro hne
    have hne : n ≠ 0 := hne
    obtain ⟨c, hc, hrange, hbelow⟩ := hpc hne
    refine ⟨c, ?_, hrange, ?_⟩
    · simp only [currentOr, if_neg hne]
      exact hc
    · rw [contents_set hp]
      exact hbelow

end CloudI.Pqueue4
