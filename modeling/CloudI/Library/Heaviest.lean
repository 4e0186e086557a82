import Mathlib.Order.Lattice

/-!
# Library.Heaviest

The elements of a list whose weight is the greatest in it, in the order of the list.
They are all of the list when the weights are equal, and those of a part of the list
when the part is heavier than the rest.
-/

namespace CloudI.Heaviest

open List

variable {α β : Type} [LinearOrder β] {w : α → β} {l : List α}

/-- The elements of the greatest weight. -/
def heaviest (w : α → β) (l : List α) : List α := l.filter fun x => l.all fun y => w y ≤ w x

/-- Elements of one weight. -/
theorem heaviest_of_eq {m : β} (h : ∀ x ∈ l, w x = m) : heaviest w l = l := by
  refine filter_eq_self.mpr fun x hx => ?_
  rw [all_eq_true]
  exact fun y hy => decide_eq_true (by rw [h x hx, h y hy])

/-- **Localisation**: the elements outside of a part that is not empty do not count
when they are lighter. -/
theorem heaviest_filter {p : α → Bool} (hne : l.filter p ≠ [])
    (hlt : ∀ x ∈ l, ∀ y ∈ l, p x = true → p y = false → w y < w x) :
    heaviest w l = heaviest w (l.filter p) := by
  obtain ⟨z, hz⟩ := exists_mem_of_ne_nil _ hne
  rw [mem_filter] at hz
  rw [heaviest, heaviest, filter_filter]
  refine filter_congr fun x hx => ?_
  rw [Bool.eq_iff_iff, Bool.and_eq_true, all_eq_true, all_eq_true]
  constructor
  · intro hall
    refine ⟨fun y hy => hall y (mem_filter.mp hy).1, ?_⟩
    by_contra hpx
    rw [Bool.not_eq_true] at hpx
    exact absurd (hlt z hz.1 x hx hz.2 hpx) (not_lt.mpr (of_decide_eq_true (hall z hz.1)))
  · rintro ⟨hall, hpx⟩ y hy
    cases hpy : p y with
    | true => exact hall y (mem_filter.mpr ⟨hy, hpy⟩)
    | false => exact decide_eq_true (le_of_lt (hlt x hx y hy hpx hpy))

end CloudI.Heaviest
