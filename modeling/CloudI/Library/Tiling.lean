import Mathlib.Data.List.Pairwise
import Mathlib.Data.List.Perm.Basic

/-!
# Library.Tiling

Extents, from a start to a stop, that tile the numbers below a bound: they are
not empty, they are pairwise apart, and each number below the bound is in one of
them.  The order of the extents does not matter.
-/

namespace CloudI.Tiling

open List

/-- Two extents without a common number. -/
def Apart (e f : Nat × Nat) : Prop := e.2 ≤ f.1 ∨ f.2 ≤ e.1

/-- **A tiling** of the numbers below `stop`. -/
structure Tiles (l : List (Nat × Nat)) (stop : Nat) : Prop where
  proper : ∀ e ∈ l, e.1 < e.2
  apart : l.Pairwise Apart
  covers : ∀ x, x < stop ↔ ∃ e ∈ l, e.1 ≤ x ∧ x < e.2

theorem Apart.symm (h : Apart e f) : Apart f e := h.elim .inr .inl

theorem tiles_nil : Tiles [] 0 :=
  ⟨by simp, .nil, by simp⟩

theorem Tiles.perm (h : Tiles l stop) (hl : l.Perm l') : Tiles l' stop where
  proper := fun e he => h.proper e (hl.mem_iff.mpr he)
  apart := (hl.pairwise_iff fun h => h.symm).mp h.apart
  covers := by
    intro x
    rw [h.covers]
    simp only [hl.mem_iff]

/-- An extent ends below the bound. -/
theorem Tiles.le_stop (h : Tiles l stop) (he : e ∈ l) : e.2 ≤ stop := by
  have hproper := h.proper e he
  have hin : e.2 - 1 < stop := (h.covers (e.2 - 1)).mpr ⟨e, he, by omega, by omega⟩
  omega

/-- A new extent at the end. -/
theorem Tiles.extend (h : Tiles l stop) (hstop : stop < stop') : Tiles ((stop, stop') :: l) stop' where
  proper := by
    intro e he
    rcases mem_cons.mp he with rfl | he
    · exact hstop
    · exact h.proper e he
  apart := pairwise_cons.mpr ⟨fun e he => .inr (h.le_stop he), h.apart⟩
  covers := by
    intro x
    constructor
    · intro hx
      by_cases hlt : x < stop
      · obtain ⟨e, he, hex⟩ := (h.covers x).mp hlt
        exact ⟨e, mem_cons_of_mem _ he, hex⟩
      · exact ⟨(stop, stop'), mem_cons_self, Nat.not_lt.mp hlt, hx⟩
    · rintro ⟨e, he, hle, hlt⟩
      rcases mem_cons.mp he with rfl | he
      · exact hlt
      · have hstop' := h.le_stop he
        omega

/-- The last extent taken out. -/
theorem Tiles.shrink (h : Tiles ((a, stop) :: l) stop) : Tiles l a := by
  obtain ⟨hapart, hl⟩ := pairwise_cons.mp h.apart
  have ha : a < stop := h.proper (a, stop) mem_cons_self
  constructor
  case proper => exact fun e he => h.proper e (mem_cons_of_mem _ he)
  case apart => exact hl
  case covers =>
    intro x
    constructor
    · intro hx
      obtain ⟨e, he, hle, hlt⟩ := (h.covers x).mp (by omega)
      rcases mem_cons.mp he with rfl | he
      · exact absurd hle (Nat.not_le.mpr hx)
      · exact ⟨e, he, hle, hlt⟩
    · rintro ⟨e, he, hle, hlt⟩
      have hstop := h.le_stop (mem_cons_of_mem _ he)
      rcases hapart e he with hright | hleft
      · simp only at hright
        omega
      · simp only at hleft
        omega

/-! ## in order -/

/-- Extents in order: each starts where the one before it stops. -/
def Chain (f : α → Nat × Nat) : Nat → List α → Nat → Prop
  | start, [], stop => start = stop
  | start, x :: l, stop => (f x).1 = start ∧ Chain f (f x).2 l stop

variable {f : α → Nat × Nat}

theorem Chain.append (h : Chain f a l b) (h' : Chain f b l' c) : Chain f a (l ++ l') c := by
  induction l generalizing a with
  | nil =>
    obtain rfl : a = b := h
    exact h'
  | cons x l ih => exact ⟨h.1, ih h.2⟩

section

variable (h : Chain f a l b) (hproper : ∀ x ∈ l, (f x).1 < (f x).2)

include h hproper

/-- The extents of a chain are past its start. -/
theorem Chain.start_le (hx : x ∈ l) : a ≤ (f x).1 := by
  induction l generalizing a with
  | nil => cases hx
  | cons y l ih =>
    rcases mem_cons.mp hx with rfl | hx
    · exact Nat.le_of_eq h.1.symm
    · have hle := ih h.2 (fun z hz => hproper z (mem_cons_of_mem y hz)) hx
      have hy := hproper y mem_cons_self
      have hstart := h.1
      omega

/-- A chain goes forward. -/
theorem Chain.le_stop : a ≤ b := by
  induction l generalizing a with
  | nil => exact Nat.le_of_eq h
  | cons y l ih =>
    have hle := ih h.2 (fun z hz => hproper z (mem_cons_of_mem y hz))
    have hy := hproper y mem_cons_self
    have hstart := h.1
    omega

/-- A chain is in the order of the starts. -/
theorem Chain.pairwise : l.Pairwise fun x y => (f x).1 < (f y).1 := by
  induction l generalizing a with
  | nil => exact .nil
  | cons x l ih =>
    have hl : ∀ y ∈ l, (f y).1 < (f y).2 := fun y hy => hproper y (mem_cons_of_mem x hy)
    refine pairwise_cons.mpr ⟨fun y hy => ?_, ih h.2 hl⟩
    exact Nat.lt_of_lt_of_le (hproper x mem_cons_self) (h.2.start_le hl hy)

end

/-- **A tiling in order**: the last extent is the one that has the last number. -/
theorem Tiles.exists_chain {l : List α} (h : Tiles (l.map f) stop) :
    ∃ l', l'.Perm l ∧ Chain f 0 l' stop := by
  induction hn : l.length generalizing l stop with
  | zero =>
    obtain rfl := length_eq_zero_iff.mp hn
    have hstop : stop = 0 := by
      by_contra hne
      obtain ⟨e, he, -⟩ := (h.covers 0).mp (Nat.pos_of_ne_zero hne)
      cases he
    exact ⟨[], List.Perm.refl _, hstop.symm⟩
  | succ n ih =>
    have hpos : 0 < stop := by
      obtain ⟨x, hx⟩ := exists_mem_of_length_pos (by omega : 0 < l.length)
      have hproper := h.proper _ (mem_map_of_mem hx)
      have hle := h.le_stop (mem_map_of_mem hx)
      omega
    obtain ⟨e, he, hle, hlt⟩ := (h.covers (stop - 1)).mp (by omega)
    obtain ⟨x, hx, rfl⟩ := mem_map.mp he
    have hlast : (f x).2 = stop := by
      have hstop := h.le_stop he
      omega
    obtain ⟨l₁, l₂, rfl⟩ := append_of_mem hx
    have hperm : (l₁ ++ x :: l₂).Perm (x :: (l₁ ++ l₂)) := perm_middle
    have htiles : Tiles (((f x).1, stop) :: (l₁ ++ l₂).map f) stop := by
      have hhead : f x = ((f x).1, stop) := by rw [← hlast]
      rw [← hhead]
      exact h.perm (hperm.map f)
    obtain ⟨l', hl', hchain⟩ := ih htiles.shrink (by simp at hn ⊢; omega)
    refine ⟨l' ++ [x], ?_, hchain.append ⟨rfl, hlast⟩⟩
    exact (perm_append_singleton x l').trans ((hl'.cons x).trans hperm.symm)

end CloudI.Tiling
