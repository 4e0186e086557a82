import CloudI.Trie.Order

/-!
# Trie.Iter

The iterations that a callback can stop: `iter/2` and `itera/3`.  The callback is
given the rest of the iteration as a function and stops by not calling it.
-/

namespace CloudI.Trie

open List

variable {V A : Type}

/-- What a call of `iter/3` answers: `trie_iter_done` or any other term. -/
inductive IterAnswer where
  | done
  | other
  deriving DecidableEq

/-- What a callback of `itera/3` answers: `{trie_itera_done, A}` or any other
term, which is the accumulator then. -/
inductive IteraAnswer (A : Type) where
  | done (a : A)
  | result (a : A)

section Iter

variable {m : Type → Type} [Monad m]

mutual

/-- `iter/3`. -/
def iterNode (f : List Nat → V → m IterAnswer → m IterAnswer) (key : List Nat) :
    Tree V → m IterAnswer
  | .str _ => pure .done
  | .node i0 _ data => iterElement f key i0 data

def iterElement (f : List Nat → V → m IterAnswer → m IterAnswer) (key : List Nat) :
    Nat → List (Element V) → m IterAnswer
  | _, [] => pure .done
  | c, (.node i0 i1 below, none) :: data => do
      let _ ← iterNode f (key ++ [c]) (.node i0 i1 below)
      iterElement f key (c + 1) data
  | c, (.node i0 i1 below, some value) :: data => do
      let newKey := key ++ [c]
      match ← f newKey value (iterNode f newKey (.node i0 i1 below)) with
      | .done => iterElement f key (c + 1) data
      | .other => pure .other
  | c, (.str _, none) :: data => iterElement f key (c + 1) data
  | c, (.str s, some value) :: data =>
      f (key ++ [c] ++ s) value (iterElement f key (c + 1) data)

end

def iter (f : List Nat → V → m IterAnswer → m IterAnswer) : Tree V → m Unit
  | .str [] => pure ()
  | n => do
      let _ ← iterNode f [] n
      pure ()

mutual

/-- `itera/4`; the accumulator is the one of `{trie_itera_done, A}`. -/
def iteraNode (f : List Nat → V → A → (A → m (IteraAnswer A)) → m (IteraAnswer A))
    (key : List Nat) : A → Tree V → m A
  | a, .str _ => pure a
  | a, .node i0 _ data => iteraElement f key i0 a data

def iteraElement (f : List Nat → V → A → (A → m (IteraAnswer A)) → m (IteraAnswer A))
    (key : List Nat) : Nat → A → List (Element V) → m A
  | _, a, [] => pure a
  | c, a, (.node i0 i1 below, none) :: data => do
      let a ← iteraNode f (key ++ [c]) a (.node i0 i1 below)
      iteraElement f key (c + 1) a data
  | c, a, (.node i0 i1 below, some value) :: data => do
      let newKey := key ++ [c]
      let next a := return .done (← iteraNode f newKey a (.node i0 i1 below))
      match ← f newKey value a next with
      | .done a => iteraElement f key (c + 1) a data
      | .result a => pure a
  | c, a, (.str _, none) :: data => iteraElement f key (c + 1) a data
  | c, a, (.str s, some value) :: data => do
      let next a := return .done (← iteraElement f key (c + 1) a data)
      match ← f (key ++ [c] ++ s) value a next with
      | .done a => pure a
      | .result a => pure a

end

def itera (f : List Nat → V → A → (A → m (IteraAnswer A)) → m (IteraAnswer A)) (a : A) :
    Tree V → m A
  | .str [] => pure a
  | n => iteraNode f [] a n

end Iter

/-! ## callbacks that stop -/

variable {S : Type}

/-- A callback of `iter/2` with a state: each call is recorded, and goes on unless
`step` asks to stop. -/
def stopIter (step : List Nat → V → S → Bool × S) (key : List Nat) (value : V)
    (next : StateM (S × List (List Nat × V)) IterAnswer) :
    StateM (S × List (List Nat × V)) IterAnswer := do
  let (s, calls) ← get
  let (stop, s) := step key value s
  set (s, calls ++ [(key, value)])
  if stop then pure .other else next

/-- A callback of `itera/3` whose state is the accumulator. -/
def stopItera (step : List Nat → V → S → Bool × S) (key : List Nat) (value : V) (a : S)
    (next : S → StateM (List (List Nat × V)) (IteraAnswer S)) :
    StateM (List (List Nat × V)) (IteraAnswer S) := do
  let (stop, a) := step key value a
  modify (· ++ [(key, value)])
  if stop then pure (.result a) else next a

/-- The calls of a callback with the keys of a list, up to the one at which it
asks to stop, and its state then. -/
def untilStop (step : List Nat → V → S → Bool × S) : S → List (List Nat × V) →
    S × List (List Nat × V)
  | s, [] => (s, [])
  | s, x :: l =>
      if (step x.1 x.2 s).1 then ((step x.1 x.2 s).2, [x])
      else
        let (s', calls) := untilStop step (step x.1 x.2 s).2 l
        (s', x :: calls)

/-- The key at which the callback asks to stop. -/
def stopsAt (step : List Nat → V → S → Bool × S) : S → List (List Nat × V) → Option (List Nat)
  | _, [] => none
  | s, x :: l => if (step x.1 x.2 s).1 then some x.1 else stopsAt step (step x.1 x.2 s).2 l

/-- **Nothing after**: at every child node on the path of the key, no key follows
the child node in the node above it. -/
def NothingAfter : List Nat → Tree V → Prop
  | h :: h1 :: t, .node i0 _ data =>
      match data[h - i0]? with
      | some (.node j0 j1 below, _) =>
          (∀ e ∈ data.drop (h - i0 + 1), entriesOne [] e = []) ∧
            NothingAfter (h1 :: t) (.node j0 j1 below)
      | _ => True
  | _, _ => True

/-! ## the calls of a list -/

section Calls

variable (step : List Nat → V → S → Bool × S)

variable {s : S} {x : List Nat × V} {l l1 : List (List Nat × V)} {k : List Nat}

theorem untilStop_of_stop (h : (step x.1 x.2 s).1 = true) (l : List (List Nat × V)) :
    untilStop step s (x :: l) = ((step x.1 x.2 s).2, [x]) := if_pos h

theorem untilStop_of_not_stop (h : (step x.1 x.2 s).1 = false) (l : List (List Nat × V)) :
    untilStop step s (x :: l) =
      ((untilStop step (step x.1 x.2 s).2 l).1, x :: (untilStop step (step x.1 x.2 s).2 l).2) := by
  rw [untilStop, h]
  rfl

theorem stopsAt_of_stop (h : (step x.1 x.2 s).1 = true) (l : List (List Nat × V)) :
    stopsAt step s (x :: l) = some x.1 := if_pos h

theorem stopsAt_of_not_stop (h : (step x.1 x.2 s).1 = false) (l : List (List Nat × V)) :
    stopsAt step s (x :: l) = stopsAt step (step x.1 x.2 s).2 l := by
  rw [stopsAt, h]
  rfl

theorem untilStop_all (h : stopsAt step s l = none) : (untilStop step s l).2 = l := by
  induction l generalizing s with
  | nil => rfl
  | cons x l ih =>
    cases hx : (step x.1 x.2 s).1 with
    | true =>
      rw [stopsAt_of_stop step hx] at h
      cases h
    | false =>
      rw [stopsAt_of_not_stop step hx] at h
      rw [untilStop_of_not_stop step hx, ih h]

theorem stopsAt_mem (h : stopsAt step s l = some k) : ∃ x, (k, x) ∈ l := by
  induction l generalizing s with
  | nil => cases h
  | cons x l ih =>
    cases hx : (step x.1 x.2 s).1 with
    | true =>
      rw [stopsAt_of_stop step hx] at h
      cases h
      exact ⟨x.2, mem_cons_self⟩
    | false =>
      rw [stopsAt_of_not_stop step hx] at h
      obtain ⟨y, hy⟩ := ih h
      exact ⟨y, mem_cons_of_mem x hy⟩

/-- Without a stop in the first list the calls go on with the second one. -/
theorem append_of_stopsAt_none (h : stopsAt step s l1 = none) (l2 : List (List Nat × V)) :
    stopsAt step s (l1 ++ l2) = stopsAt step (untilStop step s l1).1 l2 ∧
      untilStop step s (l1 ++ l2) = ((untilStop step (untilStop step s l1).1 l2).1,
        l1 ++ (untilStop step (untilStop step s l1).1 l2).2) := by
  induction l1 generalizing s with
  | nil => exact ⟨rfl, rfl⟩
  | cons x l1 ih =>
    cases hx : (step x.1 x.2 s).1 with
    | true =>
      rw [stopsAt_of_stop step hx] at h
      cases h
    | false =>
      rw [stopsAt_of_not_stop step hx] at h
      obtain ⟨hstop, hcalls⟩ := ih h
      rw [cons_append, stopsAt_of_not_stop step hx, untilStop_of_not_stop step hx,
        untilStop_of_not_stop step hx, hstop, hcalls]
      exact ⟨rfl, rfl⟩

theorem append_of_stopsAt_some (h : stopsAt step s l1 = some k) (l2 : List (List Nat × V)) :
    stopsAt step s (l1 ++ l2) = some k ∧ untilStop step s (l1 ++ l2) = untilStop step s l1 := by
  induction l1 generalizing s with
  | nil => cases h
  | cons x l1 ih =>
    cases hx : (step x.1 x.2 s).1 with
    | true =>
      rw [stopsAt_of_stop step hx] at h
      rw [cons_append, stopsAt_of_stop step hx, untilStop_of_stop step hx,
        untilStop_of_stop step hx]
      exact ⟨h, rfl⟩
    | false =>
      rw [stopsAt_of_not_stop step hx] at h
      obtain ⟨hstop, hcalls⟩ := ih h
      rw [cons_append, stopsAt_of_not_stop step hx, untilStop_of_not_stop step hx,
        untilStop_of_not_stop step hx, hstop, hcalls]
      exact ⟨rfl, rfl⟩

theorem untilStop_ne_nil (h : l ≠ []) : (untilStop step s l).2 ≠ [] := by
  cases l with
  | nil => exact absurd rfl h
  | cons x l =>
    cases hx : (step x.1 x.2 s).1 with
    | true => rw [untilStop_of_stop step hx]; exact cons_ne_nil x []
    | false => rw [untilStop_of_not_stop step hx]; exact cons_ne_nil x _

end Calls

/-! ## the entries of a child -/

theorem entriesOne_eq_nil_iff (key : List Nat) (e : Element V) :
    entriesOne key e = [] ↔ entriesOne [] e = [] := by
  have hkey := entriesOne_key key [] e
  rw [append_nil] at hkey
  rw [hkey, map_eq_nil_iff]

theorem entriesElement_eq_nil_iff (key : List Nat) (c : Nat) (data : List (Element V)) :
    entriesElement key c data = [] ↔ ∀ e ∈ data, entriesOne [] e = [] := by
  induction data generalizing c with
  | nil => simp [entriesElement]
  | cons e data ih =>
    rw [entriesElement, append_eq_nil_iff, ih, entriesOne_eq_nil_iff, forall_mem_cons]

end CloudI.Trie
