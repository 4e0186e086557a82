/-!
# Library.Except

Inversion of a computation that can exit: from the result of a `do` block, the
results of its parts.
-/

namespace CloudI.Except

@[simp] theorem ok_bind (a : α) (f : α → Except ε β) : (.ok a : Except ε α) >>= f = f a := rfl

@[simp] theorem error_bind (e : ε) (f : α → Except ε β) :
    (.error e : Except ε α) >>= f = .error e := rfl

@[simp] theorem pure_eq_ok (a : α) : (pure a : Except ε α) = .ok a := rfl

/-- A block that returns: its first part returned, and then the rest did. -/
theorem ok_of_bind {x : Except ε α} {f : α → Except ε β} (h : x >>= f = .ok b) :
    ∃ a, x = .ok a ∧ f a = .ok b := by
  match x, h with
  | .ok a, h => exact ⟨a, rfl, h⟩

/-- A block whose result is changed. -/
theorem ok_of_map {x : Except ε α} {f : α → β} (h : x.map f = .ok b) :
    ∃ a, x = .ok a ∧ f a = b := by
  cases x with
  | ok a => exact ⟨a, rfl, Except.ok.inj h⟩
  | error e => cases h

/-- A block that returns has a result. -/
theorem exists_of_isOk {x : Except ε α} (h : x.isOk = true) : ∃ a, x = .ok a := by
  cases x with
  | ok a => exact ⟨a, rfl⟩
  | error e => cases h

/-- What a block exits with. -/
def error? : Except ε α → Option ε
  | .ok _ => none
  | .error e => some e

theorem error?_eq_some {x : Except ε α} {e : ε} : error? x = some e ↔ x = .error e := by
  cases x <;> simp [error?]

/-- A block exits with no error but `e`. -/
def OnlyError (e : ε) (x : Except ε α) : Prop := ∀ e', x = .error e' → e' = e

theorem onlyError_ok (e : ε) (a : α) : OnlyError e (.ok a) := nofun

theorem onlyError_error (e : ε) : OnlyError e (.error e : Except ε α) := by
  intro e' h
  cases h
  rfl

theorem OnlyError.bind {e : ε} {x : Except ε α} {f : α → Except ε β} (hx : OnlyError e x)
    (hf : ∀ a, x = .ok a → OnlyError e (f a)) : OnlyError e (x >>= f) := by
  cases x with
  | ok a => exact hf a rfl
  | error e' => exact fun e'' h => hx e'' (by cases h; rfl)

theorem OnlyError.map {e : ε} {x : Except ε α} {f : α → β} (hx : OnlyError e x) :
    OnlyError e (x.map f) := by
  cases x with
  | ok a => exact onlyError_ok e (f a)
  | error e' => exact fun e'' h => hx e'' (by cases h; rfl)

end CloudI.Except
