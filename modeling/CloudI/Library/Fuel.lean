/-!
# Library.Fuel

Computations with fuel: what they return does not change with more fuel, and computations one
after another can share theirs.  An outcome tells one that has failed from one that is running
when its fuel is used up.
-/

namespace CloudI.Fuel

variable {α β : Type}

/-- More fuel does not change what is returned. -/
def Steady (f : Nat → Option α) : Prop :=
  ∀ fuel fuel' a, f fuel = some a → fuel ≤ fuel' → f fuel' = some a

/-- `a` is returned with some fuel. -/
def Returns (f : Nat → Option α) (a : α) : Prop := ∃ fuel, f fuel = some a

variable {f : Nat → Option α} {g : α → Nat → Option β}

/-- One step more makes a steady computation. -/
theorem steady_of_succ (h : ∀ fuel a, f fuel = some a → f (fuel + 1) = some a) : Steady f := by
  intro fuel fuel' a ha hle
  induction hle with
  | refl => exact ha
  | step _ ih => exact h _ a ih

/-- A computation without fuel. -/
theorem steady_const (x : Option α) : Steady fun _ => x := fun _ _ _ h _ => h

theorem returns_const {x : Option α} {a : α} : Returns (fun _ => x) a ↔ x = some a :=
  ⟨fun ⟨_, h⟩ => h, fun h => ⟨0, h⟩⟩

theorem Steady.bind (hf : Steady f) (hg : ∀ a, Steady (g a)) :
    Steady fun fuel => f fuel >>= fun a => g a fuel := by
  intro fuel fuel' b hb hle
  obtain ⟨a, ha, hb⟩ := Option.bind_eq_some_iff.mp hb
  exact Option.bind_eq_some_iff.mpr ⟨a, hf fuel fuel' a ha hle, hg a fuel fuel' b hb hle⟩

/-- **Computations one after another**: each returns with some fuel of its own. -/
theorem returns_bind (hf : Steady f) (hg : ∀ a, Steady (g a)) {b : β} :
    Returns (fun fuel => f fuel >>= fun a => g a fuel) b ↔ ∃ a, Returns f a ∧ Returns (g a) b := by
  constructor
  · rintro ⟨fuel, hb⟩
    obtain ⟨a, ha, hb⟩ := Option.bind_eq_some_iff.mp hb
    exact ⟨a, ⟨fuel, ha⟩, fuel, hb⟩
  · rintro ⟨a, ⟨n, hn⟩, m, hm⟩
    have hn' := hf n (max n m) a hn (Nat.le_max_left n m)
    have hm' := hg a m (max n m) b hm (Nat.le_max_right n m)
    exact ⟨max n m, Option.bind_eq_some_iff.mpr ⟨a, hn', hm'⟩⟩

/-! ## failed, or still running -/

/-- How far a computation has come when its fuel is used up. -/
inductive Outcome (α : Type) where
  | returned (a : α)
  | failed
  | running
deriving DecidableEq, Repr

namespace Outcome

instance : Monad Outcome where
  pure := .returned
  bind
    | .returned a, f => f a
    | .failed, _ => .failed
    | .running, _ => .running

/-- A computation without fuel. -/
def ofOption : Option α → Outcome α
  | some a => .returned a
  | none => .failed

/-- What is returned. -/
def toOption : Outcome α → Option α
  | .returned a => some a
  | .failed | .running => none

variable {x : Outcome α}

theorem toOption_eq_some {a : α} : x.toOption = some a ↔ x = .returned a := by
  cases x <;> simp [toOption]

@[simp] theorem toOption_ofOption (x : Option α) : (ofOption x).toOption = x := by
  cases x <;> rfl

@[simp] theorem toOption_bind (x : Outcome α) (f : α → Outcome β) :
    (x >>= f).toOption = x.toOption >>= fun a => (f a).toOption := by
  cases x <;> rfl

theorem bind_eq_failed {f : α → Outcome β} :
    x >>= f = .failed ↔ x = .failed ∨ ∃ a, x = .returned a ∧ f a = .failed := by
  cases x with
  | returned a =>
    refine ⟨fun h => .inr ⟨a, rfl, h⟩, ?_⟩
    rintro (h | ⟨b, h, hb⟩)
    · cases h
    · cases h
      exact hb
  | failed => exact ⟨fun _ => .inl rfl, fun _ => rfl⟩
  | running =>
    refine iff_of_false (fun h : Outcome.running = .failed => nomatch h) ?_
    rintro (h | ⟨b, h, -⟩)
    · cases h
    · cases h

theorem ne_running : x ≠ .running ↔ x = .failed ∨ ∃ a, x = .returned a := by
  cases x <;> simp

end Outcome

end CloudI.Fuel
