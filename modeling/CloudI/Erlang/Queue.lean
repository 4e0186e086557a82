/-!
# Erlang.Queue

The `queue` module of Erlang: a FIFO queue as a pair of a rear list, newest
element first, and a front list, oldest element first.

The order of the elements is `toList`; every lemma says what an operation does
to it, and no later proof looks at the pair.
-/

namespace CloudI

open List

/-- A queue `{R, F}`. -/
structure ErlQueue (α : Type) where
  rear : List α
  front : List α
  deriving DecidableEq, Repr

namespace ErlQueue

variable {α : Type}

/-- `queue:new/0`. -/
def new : ErlQueue α := ⟨[], []⟩

variable (q : ErlQueue α)

/-- `queue:to_list/1`. -/
def toList : List α := q.front ++ q.rear.reverse

/-- `queue:len/1`. -/
def len : Nat := q.rear.length + q.front.length

/-- `r2f/1`: move half of the elements from the rear to the front. -/
def r2f : List α → ErlQueue α
  | [] => ⟨[], []⟩
  | [x] => ⟨[], [x]⟩
  | [x, y] => ⟨[x], [y]⟩
  | x :: y :: z :: l =>
      let (ff, rr) := (x :: y :: z :: l).splitAt ((x :: y :: z :: l).length / 2 + 1)
      ⟨ff, rr.reverse⟩

/-- `f2r/1`: move half of the elements from the front to the rear. -/
def f2r : List α → ErlQueue α
  | [] => ⟨[], []⟩
  | [x] => ⟨[x], []⟩
  | [x, y] => ⟨[y], [x]⟩
  | x :: y :: z :: l =>
      let (ff, rr) := (x :: y :: z :: l).splitAt ((x :: y :: z :: l).length / 2 + 1)
      ⟨rr.reverse, ff⟩

/-- `queue:from_list/1`. -/
def fromList (l : List α) : ErlQueue α := f2r l

/-- `queue:join/2`. -/
def join : ErlQueue α → ErlQueue α → ErlQueue α
  | ⟨r, f⟩, ⟨[], []⟩ => ⟨r, f⟩
  | ⟨[], []⟩, ⟨r, f⟩ => ⟨r, f⟩
  | ⟨r1, f1⟩, ⟨r2, f2⟩ => ⟨r2, f1 ++ r1.reverse ++ f2⟩

/-- `queue:in/2`. -/
def enter (x : α) : ErlQueue α → ErlQueue α
  | ⟨[y], []⟩ => ⟨[x], [y]⟩
  | ⟨r, f⟩ => ⟨x :: r, f⟩

/-- `queue:out/1`. -/
def out : ErlQueue α → Option α × ErlQueue α
  | ⟨[], []⟩ => (none, ⟨[], []⟩)
  | ⟨[x], []⟩ => (some x, ⟨[], []⟩)
  | ⟨y :: r, []⟩ =>
      match r.reverse with
      | [] => (some y, ⟨[], []⟩)
      | x :: f => (some x, ⟨[y], f⟩)
  | ⟨r, [x]⟩ => (some x, r2f r)
  | ⟨r, x :: f⟩ => (some x, ⟨r, f⟩)

/-- `queue:filter/2` with a predicate that answers a boolean. -/
def filter (p : α → Bool) (q : ErlQueue α) : ErlQueue α :=
  let f := q.front.filter p
  let r := q.rear.filter p
  if r.isEmpty then f2r f
  else if f.isEmpty then r2f r
  else ⟨r, f⟩

/-! ## the order of the elements -/

@[simp] theorem toList_mk (r f : List α) : toList ⟨r, f⟩ = f ++ r.reverse := rfl

@[simp] theorem toList_new : (new : ErlQueue α).toList = [] := rfl

theorem len_eq : q.len = q.toList.length := by
  simp [len, toList, Nat.add_comm]

@[simp] theorem toList_r2f (l : List α) : (r2f l).toList = l.reverse := by
  match l with
  | [] => rfl
  | [x] => rfl
  | [x, y] => rfl
  | x :: y :: z :: l =>
    simp only [r2f, toList_mk, splitAt_eq]
    rw [← reverse_append, take_append_drop]

@[simp] theorem toList_f2r (l : List α) : (f2r l).toList = l := by
  match l with
  | [] => rfl
  | [x] => rfl
  | [x, y] => rfl
  | x :: y :: z :: l =>
    simp only [f2r, toList_mk, splitAt_eq, reverse_reverse]
    rw [take_append_drop]

@[simp] theorem toList_fromList (l : List α) : (fromList l).toList = l := toList_f2r l

@[simp] theorem toList_join (q1 q2 : ErlQueue α) : (q1.join q2).toList = q1.toList ++ q2.toList := by
  fun_cases join q1 q2 with
  | case1 r f => simp
  | case2 r f => simp
  | case3 => simp

@[simp] theorem toList_enter (x : α) (q : ErlQueue α) : (q.enter x).toList = q.toList ++ [x] := by
  fun_cases enter x q with
  | case1 y => rfl
  | case2 r f => simp

/-- `queue:out/1` answers the oldest element. -/
theorem out_toList : (q.toList = [] ∧ q.out = (none, q)) ∨
    ∃ x q', q.out = (some x, q') ∧ q.toList = x :: q'.toList := by
  fun_cases out q with
  | case1 => exact .inl ⟨rfl, rfl⟩
  | case2 x => exact .inr ⟨x, _, rfl, rfl⟩
  | case3 y r hr h =>
    rw [reverse_eq_nil_iff] at h
    exact absurd h hr
  | case4 y r hr x f h => exact .inr ⟨x, _, rfl, by simp [h]⟩
  | case5 r x => exact .inr ⟨x, _, rfl, by simp⟩
  | case6 r x f h => exact .inr ⟨x, _, rfl, by simp⟩

@[simp] theorem toList_filter (p : α → Bool) (q : ErlQueue α) :
    (q.filter p).toList = q.toList.filter p := by
  obtain ⟨r, f⟩ := q
  simp only [filter, toList_mk, filter_append, filter_reverse]
  split
  · next h =>
      rw [List.isEmpty_iff] at h
      rw [toList_f2r, h, reverse_nil, append_nil]
  · split
    · next h =>
        rw [List.isEmpty_iff] at h
        rw [toList_r2f, h, nil_append]
    · rfl

end ErlQueue

end CloudI
