import Mathlib.Algebra.BigOperators.Group.List.Basic

/-!
# Library.Flight

Messages in flight, as one list in the order of sending.  A message is taken out
as the first one that meets a condition: with the sender and the receiver as the
condition, that is FIFO order for each pair.

`total f l` adds up what each message is worth; taking a message out takes its
worth from the total.
-/

namespace CloudI.Flight

open List

variable {α M : Type} [AddCommMonoid M]

/-- The first element that meets the condition, and the others. -/
def takeFirst (p : α → Bool) (l : List α) : Option (α × List α) :=
  (l.find? p).map fun x => (x, l.eraseP p)

/-- What the elements are worth together. -/
def total (f : α → M) (l : List α) : M := (l.map f).sum

variable {p : α → Bool}

omit [AddCommMonoid M] in
theorem takeFirst_eq_some (h : takeFirst p l = some (x, rest)) :
    p x = true ∧ ∃ l1 l2, l = l1 ++ x :: l2 ∧ rest = l1 ++ l2 ∧ ∀ y ∈ l1, p y = false := by
  obtain ⟨y, hfind, heq⟩ := Option.map_eq_some_iff.mp h
  cases heq
  obtain ⟨hp, l1, l2, rfl, hnot⟩ := find?_eq_some_iff_append.mp hfind
  have hnot' : ∀ y ∈ l1, p y = false := fun y hy => by simpa using hnot y hy
  refine ⟨hp, l1, l2, rfl, ?_, hnot'⟩
  rw [eraseP_append_right _ fun y hy => by simp [hnot' y hy], eraseP_cons_of_pos hp]

omit [AddCommMonoid M] in
theorem mem_of_takeFirst (h : takeFirst p l = some (x, rest)) : x ∈ l ∧ ∀ y ∈ rest, y ∈ l := by
  obtain ⟨-, l1, l2, rfl, rfl, -⟩ := takeFirst_eq_some h
  refine ⟨by simp, fun y hy => ?_⟩
  rcases mem_append.mp hy with hy | hy
  · exact mem_append_left _ hy
  · exact mem_append_right _ (mem_cons_of_mem x hy)

@[simp] theorem total_nil (f : α → M) : total f [] = 0 := rfl

@[simp] theorem total_cons (f : α → M) (x : α) (l : List α) :
    total f (x :: l) = f x + total f l := by
  simp [total]

@[simp] theorem total_append (f : α → M) (l1 l2 : List α) :
    total f (l1 ++ l2) = total f l1 + total f l2 := by
  simp [total]

theorem total_takeFirst (h : takeFirst p l = some (x, rest)) (f : α → M) :
    total f l = f x + total f rest := by
  obtain ⟨-, l1, l2, rfl, rfl, -⟩ := takeFirst_eq_some h
  rw [total_append, total_cons, total_append, add_left_comm]

/-! ## the mail of one sender -/

/-- The messages of one sender, in order. -/
def mail {κ : Type} [DecidableEq κ] (k : κ) (l : List (κ × α)) : List α :=
  l.filterMap fun m => if m.1 = k then some m.2 else none

section mail

variable {κ : Type} [DecidableEq κ] {k j : κ} {l l1 l2 : List (κ × α)}

omit [AddCommMonoid M]

@[simp] theorem mail_append : mail k (l1 ++ l2) = mail k l1 ++ mail k l2 :=
  filterMap_append

variable {x : α} {xs : List α} {rest : List (κ × α)} {m : κ × α}

@[simp] theorem mail_cons_self : mail k ((k, x) :: l) = x :: mail k l := by
  simp [mail]

theorem mail_cons_of_ne (h : j ≠ k) : mail k ((j, x) :: l) = mail k l := by
  simp [mail, h]

@[simp] theorem mail_nil : mail k ([] : List (κ × α)) = [] := rfl

theorem mail_concat_of_ne (h : j ≠ k) : mail k (l ++ [(j, x)]) = mail k l := by
  rw [mail_append, mail_cons_of_ne h, mail_nil, append_nil]

/-- The messages that one sender sends. -/
theorem mail_map_self : mail k (xs.map fun x => (k, x)) = xs := by
  induction xs with
  | nil => rfl
  | cons x xs ih => rw [map_cons, mail_cons_self, ih]

theorem mail_map_of_ne (h : j ≠ k) : mail k (xs.map fun x => (j, x)) = [] := by
  induction xs with
  | nil => rfl
  | cons x xs ih => rw [map_cons, mail_cons_of_ne h, ih]

/-- The messages of a sender are those that it sent. -/
theorem mem_mail : x ∈ mail k l ↔ (k, x) ∈ l := by
  rw [mail, mem_filterMap]
  constructor
  · rintro ⟨⟨j, y⟩, hm, hx⟩
    by_cases hj : j = k
    · rw [if_pos hj, Option.some.injEq] at hx
      exact hj ▸ hx ▸ hm
    · rw [if_neg hj] at hx
      cases hx
  · exact fun hm => ⟨(k, x), hm, if_pos rfl⟩

/-- No message of the sender. -/
theorem mail_eq_nil (h : ∀ m ∈ l, m.1 ≠ k) : mail k l = [] := by
  rw [mail, filterMap_eq_nil_iff]
  exact fun m hm => if_neg (h m hm)

/-- The mail of one of the keys that a message is sent under. -/
theorem mail_broadcast {ι : Type} [DecidableEq ι] {key : ι → κ} {i : ι}
    (hkey : ∀ j, key j = k ↔ j = i) {js : List ι} (hnodup : js.Nodup) (x : α) :
    mail k (js.map fun j => (key j, x)) = if i ∈ js then [x] else [] := by
  induction js with
  | nil => rfl
  | cons j js ih =>
    rw [nodup_cons] at hnodup
    rw [map_cons]
    by_cases hj : j = i
    · subst hj
      rw [(hkey j).mpr rfl, mail_cons_self, ih hnodup.2, if_neg hnodup.1, if_pos mem_cons_self]
    · rw [mail_cons_of_ne (mt (hkey j).mp hj), ih hnodup.2]
      simp [Ne.symm hj]

/-- Receiving from a sender that sends only what is accepted takes the first message of its
mail, and leaves the mail of the others. -/
theorem mail_takeFirst {accept : α → Bool}
    (h : takeFirst (fun m => decide (m.1 = k) && accept m.2) l = some (m, rest))
    (haccept : ∀ x ∈ mail k l, accept x = true) :
    m.1 = k ∧ mail k l = m.2 :: mail k rest ∧ ∀ j, j ≠ k → mail j rest = mail j l := by
  obtain ⟨hm, l1, l2, rfl, rfl, hnot⟩ := takeFirst_eq_some h
  rw [Bool.and_eq_true, decide_eq_true_eq] at hm
  obtain ⟨j, x⟩ := m
  obtain ⟨rfl, -⟩ := hm
  have hfirst : mail j l1 = [] := by
    rw [mail, filterMap_eq_nil_iff]
    intro y hy
    by_cases hyj : y.1 = j
    · have hmem : y.2 ∈ mail j (l1 ++ (j, x) :: l2) := by
        rw [mail, mem_filterMap]
        exact ⟨y, mem_append_left _ hy, if_pos hyj⟩
      have hy' := hnot y hy
      rw [decide_eq_true hyj, haccept y.2 hmem] at hy'
      cases hy'
    · exact if_neg hyj
  refine ⟨rfl, ?_, fun i hi => ?_⟩
  · rw [mail_append, mail_append, hfirst, mail_cons_self]
    rfl
  · rw [mail_append, mail_append, mail_cons_of_ne (Ne.symm hi)]

/-- Receiving from a sender takes the first message of its mail. -/
theorem mail_takeFirst_key (h : takeFirst (fun m => decide (m.1 = k)) l = some (m, rest)) :
    m.1 = k ∧ mail k l = m.2 :: mail k rest ∧ ∀ j, j ≠ k → mail j rest = mail j l := by
  have hall : takeFirst (fun m : κ × α => decide (m.1 = k) && true) l = some (m, rest) := by
    simpa only [Bool.and_true] using h
  exact mail_takeFirst hall fun _ _ => rfl

end mail

/-! ## broadcasts -/

/-- A message sent to each of a list of receivers counts once for each of them. -/
theorem total_broadcast {κ : Type} [DecidableEq κ] {f : α → M} {send : κ → α} {a : M}
    {receiver : κ} (hsend : ∀ k, f (send k) = if k = receiver then a else 0) {l : List κ}
    (hnodup : l.Nodup) : total f (l.map send) = if receiver ∈ l then a else 0 := by
  induction l with
  | nil => rfl
  | cons k l ih =>
    rw [nodup_cons] at hnodup
    rw [map_cons, total_cons, hsend, ih hnodup.2]
    by_cases hk : k = receiver
    · subst hk
      rw [if_pos rfl, if_neg hnodup.1, if_pos mem_cons_self, add_zero]
    · rw [if_neg hk, zero_add]
      simp [Ne.symm hk]

end CloudI.Flight
