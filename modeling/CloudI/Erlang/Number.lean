import CloudI.Library.Double

/-!
# Erlang.Number

Integers and floats, and the arithmetic on them that the modelled code uses.  A float is a finite
double; an operation whose result is too large raises `badarith` (`none`).  Numbers of both kinds
are compared by their exact values, as `==`, `<` and `=<` do; `=:=` tells an integer from a float.
-/

namespace CloudI

open Double

/-- A float: a finite double. -/
structure ErlFloat where
  value : ℚ
  isDouble : IsDouble value
  inRange : InRange value

/-- A number. -/
inductive Number where
  | integer (i : Int)
  | float (f : ErlFloat)

namespace ErlFloat

@[ext] theorem ext {f g : ErlFloat} (h : f.value = g.value) : f = g := by
  cases f
  cases g
  cases h
  rfl

instance : DecidableEq ErlFloat := fun f g =>
  decidable_of_iff (f.value = g.value) ⟨ext, congrArg value⟩

/-- The float next to an exact result, or `badarith`. -/
def ofRat (x : ℚ) : Option ErlFloat :=
  if h : InRange (nearest x) then some ⟨nearest x, isDouble_nearest x, h⟩ else none

theorem value_of_ofRat (h : ofRat x = some f) : f.value = nearest x := by
  unfold ofRat at h
  split at h
  · cases h
    rfl
  · cases h

theorem ofRat_of_inRange (h : InRange (nearest x)) : ∃ f, ofRat x = some f :=
  ⟨_, dif_pos h⟩

/-- The literal of a float that is an integer. -/
def literal (n : ℤ) (h : |n| ≤ 2 ^ 53) : ErlFloat where
  value := n
  isDouble := isDouble_intCast h
  inRange := by
    have hle : |(n : ℚ)| ≤ 2 ^ 53 := by exact_mod_cast h
    exact hle.trans_lt pow_lt_limit

/-- `f * i` with an integer, which is made a float first. -/
def mulInteger (f : ErlFloat) (i : Int) : Option ErlFloat := do
  let g ← ofRat i
  ofRat (f.value * g.value)

theorem value_of_mulInteger {f g : ErlFloat} {i : Int} (h : f.mulInteger i = some g) :
    g.value = nearest (f.value * nearest i) := by
  unfold mulInteger at h
  rw [Option.bind_eq_bind, Option.bind_eq_some_iff] at h
  obtain ⟨j, hj, h⟩ := h
  rw [value_of_ofRat h, value_of_ofRat hj]

end ErlFloat

namespace Number

deriving instance DecidableEq for Number

/-- The exact value of a number. -/
def value : Number → ℚ
  | integer i => i
  | float f => f.value

/-- `x + i` with an integer that a float represents. -/
def addInteger (x : Number) (i : Int) : Option Number :=
  match x with
  | integer j => some (integer (j + i))
  | float f => (ErlFloat.ofRat (f.value + i)).map float

theorem value_of_addInteger_integer (h : (integer j).addInteger i = some y) : y.value = j + i := by
  cases h
  simp [value]

theorem value_of_addInteger_float (h : (float f).addInteger i = some y) :
    y.value = nearest (f.value + i) := by
  rw [addInteger, Option.map_eq_some_iff] at h
  obtain ⟨g, hg, rfl⟩ := h
  exact ErlFloat.value_of_ofRat hg

/-- A float that something is taken from stays in the range of the floats. -/
theorem sub_isSome {x : Number} (hpos : 0 < x.value) {i : Int} (hi : 0 ≤ i) (hi' : i ≤ 2 ^ 53) :
    ∃ y, x.addInteger (-i) = some y ∧ y.value ≤ x.value := by
  cases x with
  | integer j =>
    refine ⟨_, rfl, ?_⟩
    have : ((j + -i : Int) : ℚ) ≤ (j : Int) := by
      exact_mod_cast (show j + -i ≤ j by omega)
    exact this
  | float f =>
    have hpos : 0 < f.value := hpos
    have hi0 : (0 : ℚ) ≤ i := by exact_mod_cast hi
    have hhigh : nearest (f.value + (-i : Int)) ≤ f.value :=
      f.isDouble.nearest_le (by push_cast; linarith)
    have hlow : ((-i : Int) : ℚ) ≤ nearest (f.value + (-i : Int)) :=
      (isDouble_intCast (by rw [abs_neg, abs_of_nonneg hi]; exact hi')).le_nearest (by linarith)
    have hrange : InRange (nearest (f.value + (-i : Int))) := by
      have hf := abs_lt.mp f.inRange
      have hi53 : (i : ℚ) ≤ 2 ^ 53 := by exact_mod_cast hi'
      have hlt := pow_lt_limit
      rw [InRange, abs_lt]
      push_cast at hlow hhigh ⊢
      constructor <;> linarith
    obtain ⟨g, hg⟩ := ErlFloat.ofRat_of_inRange hrange
    refine ⟨float g, by rw [addInteger, hg]; rfl, ?_⟩
    show g.value ≤ f.value
    rw [ErlFloat.value_of_ofRat hg]
    exact hhigh

end Number

end CloudI
