import Mathlib.Algebra.GroupWithZero.Nat
import Mathlib.Order.Lattice

/-!
# Library.Fifos

What a stable priority queue is: a FIFO list for each priority of a linear
order.  The next element is the head of the list of the smallest priority whose
list is not empty.

A listing and a count are taken along a list `ps` of priorities in increasing
order that covers every occupied one.
-/

namespace CloudI.Fifos

open List
open Function (update update_self update_of_ne)

variable {ι α : Type}

/-- The smallest occupied priority is `p`, and its list is `x :: l`. -/
structure First [LinearOrder ι] (a : ι → List α) (p : ι) (x : α) (l : List α) : Prop where
  head : a p = x :: l
  below : ∀ r < p, a r = []

/-- The occupied priorities of `ps` with their lists. -/
def listing (ps : List ι) (a : ι → List α) : List (ι × List α) :=
  ps.filterMap fun p => if (a p).isEmpty then none else some (p, a p)

/-- The number of elements at the priorities of `ps`. -/
def count (ps : List ι) (a : ι → List α) : Nat := (ps.map fun p => (a p).length).sum

/-- The elements at the priorities of `ps`. -/
def elements (ps : List ι) (a : ι → List α) : List α := ps.flatMap a

/-! ## the count -/

variable {a b : ι → List α}

theorem count_congr (h : ∀ p ∈ ps, a p = b p) : count ps a = count ps b := by
  unfold count
  rw [map_congr_left fun p hp => by rw [h p hp]]

/-- Another list at one priority changes the count by the difference. -/
theorem count_update [LinearOrder ι] (hnodup : ps.Nodup) (hp : p ∈ ps) (l : List α) :
    count ps (update a p l) + (a p).length = count ps a + l.length := by
  induction ps with
  | nil => cases hp
  | cons r ps ih =>
    rw [nodup_cons] at hnodup
    have hcons : ∀ b : ι → List α, count (r :: ps) b = (b r).length + count ps b :=
      fun b => by simp [count]
    rw [hcons, hcons]
    by_cases hr : r = p
    · subst hr
      have htail : count ps (update a r l) = count ps a :=
        count_congr fun s hs => update_of_ne (ne_of_mem_of_not_mem hs hnodup.1) l a
      rw [htail, update_self]
      omega
    · have htail := ih hnodup.2 ((mem_cons.mp hp).resolve_left (Ne.symm hr))
      rw [update_of_ne hr]
      omega

theorem count_eq_zero : count ps a = 0 ↔ ∀ p ∈ ps, a p = [] := by
  induction ps with
  | nil => simp [count]
  | cons r ps ih =>
    rw [forall_mem_cons, ← ih]
    simp [count]

/-! ## the elements -/

theorem elements_congr (h : ∀ p ∈ ps, a p = b p) : elements ps a = elements ps b := by
  unfold elements
  induction ps with
  | nil => rfl
  | cons r ps ih =>
    rw [forall_mem_cons] at h
    rw [flatMap_cons, flatMap_cons, h.1, ih h.2]

/-- Another list at one priority takes the place of the one that was there. -/
theorem elements_update_perm [LinearOrder ι] (hnodup : ps.Nodup) (hp : p ∈ ps) (l : List α) :
    (elements ps (update a p l) ++ a p).Perm (elements ps a ++ l) := by
  induction ps with
  | nil => cases hp
  | cons r ps ih =>
    rw [nodup_cons] at hnodup
    have hcons : ∀ b : ι → List α, elements (r :: ps) b = b r ++ elements ps b :=
      fun b => flatMap_cons
    rw [hcons, hcons]
    by_cases hr : r = p
    · subst hr
      have htail : elements ps (update a r l) = elements ps a :=
        elements_congr fun s hs => update_of_ne (ne_of_mem_of_not_mem hs hnodup.1) l a
      rw [htail, update_self]
      have hswap : (l ++ elements ps a ++ a r).Perm (a r ++ (l ++ elements ps a)) :=
        perm_append_comm
      rw [append_assoc (a r)]
      exact hswap.trans (perm_append_comm.append_left _)
    · have htail := ih hnodup.2 ((mem_cons.mp hp).resolve_left (Ne.symm hr))
      rw [update_of_ne hr, append_assoc, append_assoc]
      exact htail.append_left _

/-- The first element is the oldest one of the smallest occupied priority. -/
theorem elements_first [LinearOrder ι] (hsorted : ps.Pairwise (· < ·)) (hp : p ∈ ps)
    (h : First a p x l) : elements ps a = x :: elements ps (update a p l) := by
  have hcons : ∀ (r : ι) (ps : List ι) (b : ι → List α),
      elements (r :: ps) b = b r ++ elements ps b := fun _ _ _ => flatMap_cons
  induction ps with
  | nil => cases hp
  | cons r ps ih =>
    rw [pairwise_cons] at hsorted
    rw [hcons, hcons]
    by_cases hr : r = p
    · subst hr
      have htail : elements ps (update a r l) = elements ps a :=
        elements_congr fun s hs => update_of_ne (ne_of_gt (hsorted.1 s hs)) _ _
      rw [htail, update_self, h.head, cons_append]
    · have hmem := (mem_cons.mp hp).resolve_left (Ne.symm hr)
      rw [h.below r (hsorted.1 p hmem), update_of_ne hr, h.below r (hsorted.1 p hmem),
        nil_append, nil_append, ih hsorted.2 hmem]

theorem elements_nil (h : ∀ p, a p = []) : elements ps a = [] :=
  flatMap_eq_nil_iff.mpr fun p _ => h p

/-! ## the listing -/

theorem listing_nil (h : ∀ p ∈ ps, a p = []) : listing ps a = [] := by
  simp only [listing, filterMap_eq_nil_iff]
  intro p hp
  simp [h p hp]

theorem listing_congr (h : ∀ p ∈ ps, a p = b p) : listing ps a = listing ps b := by
  induction ps with
  | nil => rfl
  | cons r ps ih =>
    rw [forall_mem_cons] at h
    have htail := ih h.2
    simp only [listing] at htail ⊢
    rw [filterMap_cons, filterMap_cons, htail, h.1]

/-- The first entry of a listing is the smallest occupied priority. -/
theorem listing_first [LinearOrder ι] (hsorted : ps.Pairwise (· < ·)) (hp : p ∈ ps)
    (h : First a p x l) : listing ps a = (p, x :: l) :: listing ps (update a p []) := by
  induction ps with
  | nil => cases hp
  | cons r ps ih =>
    rw [pairwise_cons] at hsorted
    by_cases hr : r = p
    · subst hr
      have htail : listing ps (update a r []) = listing ps a :=
        listing_congr fun s hs => update_of_ne (ne_of_gt (hsorted.1 s hs)) _ _
      simp only [listing] at htail ⊢
      rw [filterMap_cons, filterMap_cons, htail]
      simp [h.head]
    · have hmem := (mem_cons.mp hp).resolve_left (Ne.symm hr)
      have hempty := h.below r (hsorted.1 p hmem)
      have htail := ih hsorted.2 hmem
      simp only [listing] at htail ⊢
      rw [filterMap_cons, filterMap_cons, htail]
      simp [update_of_ne hr, hempty]

end CloudI.Fifos
