/-!
# Library.Run

Runs of a labelled, partial step function, and the induction rules over them.

A component is a step function `step : σ → ℓ → Option σ`; `none` is a step that
fails (an Erlang exception, or a label that is not enabled).  `run` executes a
list of labels; `Steps` is the same run as a relation which also records that
every step met a side condition `good`.  Safety proofs give one step lemma and
take the run lemma from here.
-/

namespace CloudI.Run

/-- Execute the labels in order; the run stops at the first failing step. -/
def run (step : σ → ℓ → Option σ) : σ → List ℓ → Option σ
  | s, [] => some s
  | s, l :: ls => (step s l).bind fun s' => run step s' ls

/-- A run all of whose steps meet `good` in the state they are taken from. -/
inductive Steps (step : σ → ℓ → Option σ) (good : σ → ℓ → Prop) : σ → List ℓ → σ → Prop
  | nil (s : σ) : Steps step good s [] s
  | cons {s s' s'' : σ} {l : ℓ} {ls : List ℓ} (hgood : good s l) (hstep : step s l = some s')
      (hrest : Steps step good s' ls s'') : Steps step good s (l :: ls) s''

variable {step : σ → ℓ → Option σ} {good : σ → ℓ → Prop}

/-- **Run rule**: what every good step preserves holds at the end of a good run. -/
theorem Steps.invariant {I : σ → Prop} (hinv : ∀ s l s', I s → good s l → step s l = some s' → I s')
    (h : Steps step good s ls s') (hs : I s) : I s' := by
  induction h with
  | nil => exact hs
  | cons hgood hstep _ ih => exact ih (hinv _ _ _ hs hgood hstep)

/-- A run over a weaker side condition. -/
theorem Steps.mono (hg : ∀ s l, good s l → good' s l) (h : Steps step good s ls s') :
    Steps step good' s ls s' := by
  induction h with
  | nil => exact .nil _
  | cons hgood hstep _ ih => exact .cons (hg _ _ hgood) hstep ih

/-- A relational run is an execution of its labels. -/
theorem Steps.run_eq (h : Steps step good s ls s') : run step s ls = some s' := by
  induction h with
  | nil => rfl
  | cons _ hstep _ ih => rw [run, hstep]; exact ih

/-- An execution whose labels all meet a condition. -/
theorem steps_of_run_forall {P : ℓ → Prop} (hP : ∀ l ∈ ls, P l) (h : run step s ls = some s') :
    Steps step (fun _ l => P l) s ls s' := by
  induction ls generalizing s with
  | nil => rw [run, Option.some.injEq] at h; exact h ▸ .nil s
  | cons l ls ih =>
    rw [run, Option.bind_eq_some_iff] at h
    obtain ⟨s₁, hstep, hrest⟩ := h
    have hrest' := ih (fun x hx => hP x (List.mem_cons_of_mem l hx)) hrest
    exact .cons (hP l List.mem_cons_self) hstep hrest'

/-- An execution is a run under the trivial side condition. -/
theorem steps_of_run (h : run step s ls = some s') : Steps step (fun _ _ => True) s ls s' :=
  steps_of_run_forall (fun _ _ => trivial) h

/-- A step that is taken only when it meets the side condition. -/
def checked (step : σ → ℓ → Option σ) (good : σ → ℓ → Prop) [∀ s l, Decidable (good s l)]
    (s : σ) (l : ℓ) : Option σ :=
  if good s l then step s l else none

/-- An execution of checked steps is a run under the side condition. -/
theorem steps_of_checked [∀ s l, Decidable (good s l)]
    (h : run (checked step good) s ls = some s') : Steps step good s ls s' := by
  induction ls generalizing s with
  | nil => rw [run, Option.some.injEq] at h; exact h ▸ .nil s
  | cons l ls ih =>
    rw [run, Option.bind_eq_some_iff] at h
    obtain ⟨s₁, hstep, hrest⟩ := h
    by_cases hgood : good s l
    · rw [checked, if_pos hgood] at hstep
      exact .cons hgood hstep (ih hrest)
    · rw [checked, if_neg hgood] at hstep
      cases hstep

/-- An execution of checked steps, and the state that it comes to. -/
theorem steps_getD_of_checked [∀ s l, Decidable (good s l)]
    (h : (run (checked step good) s ls).isSome = true) :
    Steps step good s ls ((run step s ls).getD d) := by
  obtain ⟨s', hrun⟩ := Option.isSome_iff_exists.mp h
  have hsteps := steps_of_checked hrun
  rw [hsteps.run_eq]
  exact hsteps

/-- How many steps of a run change the state in the given way. -/
def changes (step : σ → ℓ → Option σ) (change : σ → σ → Prop) [∀ s s', Decidable (change s s')] :
    σ → List ℓ → Nat
  | _, [] => 0
  | s, l :: ls =>
      match step s l with
      | some s' => (if change s s' then 1 else 0) + changes step change s' ls
      | none => 0

theorem changes_cons {change : σ → σ → Prop} [∀ s s', Decidable (change s s')]
    (hstep : step s l = some s') (ls : List ℓ) : changes step change s (l :: ls) =
      (if change s s' then 1 else 0) + changes step change s' ls := by
  rw [changes, hstep]

end CloudI.Run
