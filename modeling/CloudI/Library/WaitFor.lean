import Mathlib.Logic.Relation

/-!
# Library.WaitFor

Who waits for whom, as a relation that changes step by step, and the absence of cycles of
waiting.

Waiting that ends cannot close a cycle (`Acyclic.mono`), and waiting that starts cannot either
when nobody waits for the one that starts to wait (`Acyclic.start`).
-/

namespace CloudI.WaitFor

open Relation

variable {α : Type} {waits waits' : α → α → Prop} {x y : α}

/-- **No cycle**: nobody waits for itself, directly or through others. -/
def Acyclic (waits : α → α → Prop) : Prop := ∀ x, ¬ TransGen waits x x

/-- Nobody waits. -/
theorem acyclic_of_forall (h : ∀ x y, ¬ waits x y) : Acyclic waits := by
  intro x hcycle
  obtain ⟨y, hxy, -⟩ := TransGen.head'_iff.mp hcycle
  exact h x y hxy

/-- Some waiting ends. -/
theorem Acyclic.mono (h : Acyclic waits) (hsub : ∀ x y, waits' x y → waits x y) : Acyclic waits' :=
  fun x hcycle => h x (TransGen.mono hsub x x hcycle)

/-- A path that does not begin at `x` does not go through `x` when nobody waits for `x`. -/
theorem path_avoids (hsub : ∀ a b, waits' a b → waits a b ∨ a = x) (hno : ∀ a, ¬ waits' a x)
    {a b : α} (ha : a ≠ x) (hpath : TransGen waits' a b) : TransGen waits a b := by
  induction hpath with
  | single hab => exact .single ((hsub _ _ hab).resolve_right ha)
  | @tail b c hpath hbc ih =>
    have hb : b ≠ x := by
      rintro rfl
      obtain ⟨d, -, hdb⟩ := TransGen.tail'_iff.mp hpath
      exact hno d hdb
    exact ih.tail ((hsub _ _ hbc).resolve_right hb)

/-- **`x` starts to wait, and nobody waits for `x`.** -/
theorem Acyclic.start (h : Acyclic waits) (hsub : ∀ a b, waits' a b → waits a b ∨ a = x)
    (hno : ∀ a, ¬ waits' a x) : Acyclic waits' := by
  intro y hcycle
  have hy : y ≠ x := by
    rintro rfl
    obtain ⟨d, -, hdy⟩ := TransGen.tail'_iff.mp hcycle
    exact hno d hdy
  exact h y (path_avoids hsub hno hy hcycle)

/-- Two that wait for each other. -/
theorem not_acyclic_of_both (hxy : waits x y) (hyx : waits y x) : ¬ Acyclic waits :=
  fun h => h x ((TransGen.single hxy).tail hyx)

end CloudI.WaitFor
