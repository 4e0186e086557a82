/-!
# Erlang.Tuple

Tuples as lists, and the built-in functions on them.  Elements are counted from
1; `none` is the exception `badarg`.
-/

namespace CloudI.Tuple

variable {α : Type}

def element (i : Nat) (t : List α) : Option α := if i = 0 then none else t[i - 1]?

/-- `setelement/3`. -/
def setElement (i : Nat) (t : List α) (x : α) : Option (List α) :=
  if 1 ≤ i ∧ i ≤ t.length then some (t.set (i - 1) x) else none

def makeTuple (n : Nat) (x : α) : List α := List.replicate n x

@[simp] theorem element_add_one (i : Nat) (t : List α) : element (i + 1) t = t[i]? := rfl

theorem setElement_add_one {t : List α} (h : i < t.length) (x : α) :
    setElement (i + 1) t x = some (t.set i x) := if_pos ⟨by omega, by omega⟩

theorem setElement_one (x y : α) (t : List α) : setElement 1 (y :: t) x = some (x :: t) :=
  setElement_add_one (by simp) x

theorem setElement_last (t : List α) (x y : α) :
    setElement (t.length + 1) (t ++ [y]) x = some (t ++ [x]) := by
  rw [setElement_add_one (by simp)]
  simp

end CloudI.Tuple
