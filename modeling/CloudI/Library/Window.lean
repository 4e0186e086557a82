import Mathlib.Data.List.Basic

/-!
# Library.Window

Lists of times, newest first, and how many of them lie within a window that ends
now.  A limit on what a window holds keeps the times apart: `spread_cons` is the
step, one more time while fewer than the limit are recent.
-/

namespace CloudI.Window

open List

/-- The times that are at most `width` ago. -/
def recent (width now : Int) (times : List Int) : List Int :=
  times.filter fun t => now - t ≤ width

/-- Any `limit + 1` successive times span more than `width`. -/
def Spread (limit : Nat) (width : Int) (times : List Int) : Prop :=
  ∀ i t u, times[i]? = some t → times[i + limit]? = some u → width < t - u

theorem spread_nil (limit : Nat) (width : Int) : Spread limit width [] := by
  intro i t u ht
  simp at ht

/-- Times get old: what is recent later was recent before. -/
theorem recent_recent {now now' : Int} (h : now ≤ now') (width : Int) (times : List Int) :
    recent width now' (recent width now times) = recent width now' times := by
  rw [recent, recent, filter_filter]
  refine filter_congr fun t _ => ?_
  by_cases hnew : now' - t ≤ width
  · have hold : now - t ≤ width := by omega
    simp [hnew, hold]
  · simp [hnew]

theorem le_length_recent {times : List Int} (hsorted : times.Pairwise (· ≥ ·))
    (hu : times[n]? = some u) (hrecent : now - u ≤ width) :
    n + 1 ≤ (recent width now times).length := by
  have hn : n < times.length := (List.getElem?_eq_some_iff.mp hu).1
  have hall : ∀ t ∈ times.take (n + 1), decide (now - t ≤ width) = true := by
    intro t ht
    obtain ⟨i, hi, rfl⟩ := getElem_of_mem ht
    rw [length_take] at hi
    have hle : u ≤ times[i] := by
      obtain ⟨_, rfl⟩ := List.getElem?_eq_some_iff.mp hu
      by_cases heq : i = n
      · subst heq
        exact Int.le_refl _
      · exact pairwise_iff_getElem.mp hsorted i n (by omega) hn (by omega)
    rw [getElem_take, decide_eq_true_eq]
    omega
  have hsub := (take_sublist (n + 1) times).filter fun t => decide (now - t ≤ width)
  rw [filter_eq_self.mpr hall] at hsub
  have hlen := hsub.length_le
  rw [length_take] at hlen
  show n + 1 ≤ (times.filter fun t => decide (now - t ≤ width)).length
  omega

/-- **One more time**: the times stay apart while fewer than `limit` of them are recent. -/
theorem spread_cons {times : List Int} (hsorted : times.Pairwise (· ≥ ·))
    (hfew : (recent width now times).length < limit) (h : Spread limit width times) :
    Spread limit width (now :: times) := by
  intro i t u ht hu
  cases i with
  | zero =>
    obtain ⟨n, rfl⟩ : ∃ n, limit = n + 1 := ⟨limit - 1, by omega⟩
    obtain rfl : now = t := by simpa using ht
    rw [Nat.zero_add, getElem?_cons_succ] at hu
    by_contra hnot
    have hle := le_length_recent hsorted hu (show now - u ≤ width by omega)
    omega
  | succ i =>
    rw [getElem?_cons_succ] at ht
    rw [show i + 1 + limit = i + limit + 1 by omega, getElem?_cons_succ] at hu
    exact h i t u ht hu

end CloudI.Window
