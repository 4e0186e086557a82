import Mathlib.Data.List.Nodup
import Mathlib.Data.List.Perm.Basic

/-!
# Library.Tickets

Tickets that are issued once and used at most once.  `Once issued l` says that `l`, the
tickets that are held or used, has no ticket twice and only issued ones; it stays so when
tickets move within `l`, and when new ones are issued.
-/

namespace CloudI.Tickets

open List

variable {α : Type} {issued new taken l l' l1 l2 : List α}

/-- Each of the tickets once, and each of them issued. -/
structure Once (issued l : List α) : Prop where
  nodup : l.Nodup
  of_issued : ∀ x ∈ l, x ∈ issued

theorem once_nil (issued : List α) : Once issued [] := ⟨nodup_nil, by simp⟩

/-- **Step rule**: new tickets are issued, some of them taken, and the others move. -/
theorem Once.step (taken : List α) (h : Once issued l) (hperm : l'.Perm (taken ++ l))
    (hnodup : taken.Nodup)
    (hnew : ∀ x ∈ taken, x ∈ new) (hfresh : ∀ x ∈ new, x ∉ issued) : Once (new ++ issued) l' := by
  have hdisjoint : ∀ x ∈ taken, ∀ y ∈ l, x ≠ y := by
    intro x hx y hy hxy
    exact hfresh x (hnew x hx) (hxy ▸ h.of_issued y hy)
  refine ⟨hperm.nodup_iff.mpr (nodup_append.mpr ⟨hnodup, h.nodup, hdisjoint⟩), ?_⟩
  intro x hx
  rw [mem_append]
  rcases mem_append.mp (hperm.mem_iff.mp hx) with hx | hx
  · exact .inl (hnew x hx)
  · exact .inr (h.of_issued x hx)

/-- Tickets may move, and be dropped. -/
theorem Once.subperm (h : Once issued l) (hl : l'.Subperm l) : Once issued l' := by
  obtain ⟨l1, hperm, hsub⟩ := hl
  refine ⟨hperm.nodup_iff.mp (h.nodup.sublist hsub), fun x hx => ?_⟩
  exact h.of_issued x (hsub.subset (hperm.mem_iff.mpr hx))

/-- A ticket is used once at most. -/
theorem Once.count_le_one [DecidableEq α] (h : Once issued (l1 ++ l2)) (x : α) :
    l1.count x ≤ 1 := by
  have hcount := nodup_iff_count_le_one.mp h.nodup x
  rw [count_append] at hcount
  omega

/-- Two entries with one ticket are the same entry. -/
theorem eq_of_nodup_filterMap {β : Type} {f : β → Option α} {l : List β} {x y : β} {a : α}
    (h : (l.filterMap f).Nodup) (hx : x ∈ l) (hy : y ∈ l) (hfx : f x = some a)
    (hfy : f y = some a) : x = y := by
  induction l with
  | nil => cases hx
  | cons z l ih =>
    cases hz : f z with
    | none =>
      rw [filterMap_cons_none hz] at h
      have hxl : x ∈ l := (mem_cons.mp hx).resolve_left fun he => by simp_all
      have hyl : y ∈ l := (mem_cons.mp hy).resolve_left fun he => by simp_all
      exact ih h hxl hyl
    | some b =>
      rw [filterMap_cons_some hz, nodup_cons] at h
      have hnot : ∀ w ∈ l, f w = some a → b ≠ a := by
        intro w hw hfw hb
        exact h.1 (mem_filterMap.mpr ⟨w, hw, hb ▸ hfw⟩)
      have hz' : ∀ w, f w = some a → w = z → b = a := by
        intro w hfw hw
        exact Option.some.inj ((hw ▸ hz.symm).trans hfw)
      rcases mem_cons.mp hx with hxz | hxl <;> rcases mem_cons.mp hy with hyz | hyl
      · exact hxz.trans hyz.symm
      · exact absurd (hz' x hfx hxz) (hnot y hyl hfy)
      · exact absurd (hz' y hfy hyz) (hnot x hxl hfx)
      · exact ih h.2 hxl hyl

end CloudI.Tickets
