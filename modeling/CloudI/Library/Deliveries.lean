import Mathlib.Logic.Relation
import Mathlib.Data.List.Basic

/-!
# Library.Deliveries

Deliveries that are accepted once, sent again a bounded number of times and given up once.

A `Book` is what is known of the deliveries of a sender: the ones that wait for their first
send, the ones that are held with the number of times they were sent again, and the log of
what happened so far.  `Move` is everything a sender may do with one delivery.  `Standing`
says which counts a delivery can have, and each move keeps every delivery in one of them:
whatever the order of the moves, a delivery is sent at most `limit + 1` times and leaves at
most once.
-/

namespace CloudI.Deliveries

open List
open Function (update update_self update_of_ne)

/-- What happened to deliveries, each list in the order of the events. -/
structure Log (ι : Type) where
  accepted : List ι
  sent : List ι
  left : List ι
  deriving DecidableEq, Repr

variable {ι : Type}

namespace Log

/-- Nothing happened. -/
def none : Log ι := ⟨[], [], []⟩

/-- A delivery is accepted and waits. -/
def queued (id : ι) : Log ι := ⟨[id], [], []⟩

/-- Deliveries are accepted and sent at once. -/
def started (ids : List ι) : Log ι := ⟨ids, ids, []⟩

/-- A delivery that was accepted before is sent. -/
def resent (id : ι) : Log ι := ⟨[], [id], []⟩

/-- A delivery leaves. -/
def gone (id : ι) : Log ι := ⟨[], [], [id]⟩

instance : Append (Log ι) :=
  ⟨fun l l' => ⟨l.accepted ++ l'.accepted, l.sent ++ l'.sent, l.left ++ l'.left⟩⟩

@[simp] theorem accepted_append (l l' : Log ι) :
    (l ++ l').accepted = l.accepted ++ l'.accepted := rfl

@[simp] theorem sent_append (l l' : Log ι) : (l ++ l').sent = l.sent ++ l'.sent := rfl

@[simp] theorem left_append (l l' : Log ι) : (l ++ l').left = l.left ++ l'.left := rfl

theorem ext {l l' : Log ι} (ha : l.accepted = l'.accepted) (hs : l.sent = l'.sent)
    (hl : l.left = l'.left) : l = l' := by
  cases l
  cases l'
  simp only at ha hs hl
  subst ha hs hl
  rfl

theorem append_assoc (l l' l'' : Log ι) : l ++ l' ++ l'' = l ++ (l' ++ l'') := by
  apply ext <;> simp

@[simp] theorem append_none (l : Log ι) : l ++ none = l := by
  apply ext <;> simp [none]

@[simp] theorem none_append (l : Log ι) : none ++ l = l := by
  apply ext <;> simp [none]

end Log

/-- The deliveries of a sender.  A delivery that is held was sent again as many
times as the number says. -/
structure Book (ι : Type) where
  held : ι → Option Nat
  waiting : List ι
  log : Log ι

/-- A sender that was just created. -/
def Book.empty : Book ι := ⟨fun _ => Option.none, [], .none⟩

section Move

variable [DecidableEq ι]

/-- What a sender may do with one delivery. -/
inductive Move (limit : Nat) : Book ι → Book ι → Prop
  | wait {b : Book ι} {id : ι} (hnew : id ∉ b.log.accepted) :
      Move limit b ⟨b.held, b.waiting ++ [id], b.log ++ .queued id⟩
  | start {b : Book ι} {id : ι} (hnew : id ∉ b.log.accepted) :
      Move limit b ⟨update b.held id (some 0), b.waiting, b.log ++ .started [id]⟩
  | first {b : Book ι} {id : ι} {rest : List ι} (hwaiting : b.waiting = id :: rest) :
      Move limit b ⟨update b.held id (some 0), rest, b.log ++ .resent id⟩
  | again {b : Book ι} {id : ι} {n : Nat} (hheld : b.held id = some n) (hn : n < limit) :
      Move limit b ⟨update b.held id (some (n + 1)), b.waiting, b.log ++ .resent id⟩
  | leave {b : Book ι} {id : ι} {n : Nat} (hheld : b.held id = some n) :
      Move limit b ⟨update b.held id none, b.waiting, b.log ++ .gone id⟩

/-- Any number of moves. -/
abbrev Moves (limit : Nat) : Book ι → Book ι → Prop := Relation.ReflTransGen (Move limit)

/-- The counts that one delivery can have: how often it was accepted, was sent and has left,
how often it waits, and what is held of it. -/
inductive Standing (limit : Nat) : (accepted sent left waiting : Nat) → Option Nat → Prop
  | unknown : Standing limit 0 0 0 0 none
  | waiting : Standing limit 1 0 0 1 none
  | held {n : Nat} (hn : n ≤ limit) : Standing limit 1 (n + 1) 0 0 (some n)
  | left {n : Nat} (hn : n ≤ limit) : Standing limit 1 (n + 1) 1 0 none

/-- **The bound**: no standing has more sends. -/
theorem Standing.sent_le {limit accepted sent left waiting : Nat} {held : Option Nat}
    (h : Standing limit accepted sent left waiting held) : sent ≤ limit + 1 := by
  cases h with
  | _ => omega

/-! A standing changes with each move of its delivery. -/

section Standing

variable {limit accepted sent left waiting n : Nat} {held : Option Nat}

theorem Standing.wait (h : Standing limit 0 sent left waiting held) :
    Standing limit 1 sent left (waiting + 1) held := by
  cases h
  exact .waiting

theorem Standing.start (h : Standing limit 0 sent left waiting held) :
    Standing limit 1 (sent + 1) left waiting (some 0) := by
  cases h
  exact .held (Nat.zero_le limit)

theorem Standing.first (h : Standing limit accepted sent left (waiting + 1) held) :
    Standing limit accepted (sent + 1) left waiting (some 0) := by
  cases h
  exact .held (Nat.zero_le limit)

theorem Standing.again (h : Standing limit accepted sent left waiting (some n)) (hn : n < limit) :
    Standing limit accepted (sent + 1) left waiting (some (n + 1)) := by
  cases h
  exact .held hn

theorem Standing.leave (h : Standing limit accepted sent left waiting (some n)) :
    Standing limit accepted sent (left + 1) waiting none := by
  cases h with
  | held hn => exact .left hn

/-! Two standings of a delivery, one before and one after some moves, tell what the moves
accepted and gave up.  Only a delivery that was held can be given up. -/

theorem Standing.left_eq {accepted' sent' left' waiting' : Nat} {held' : Option Nat}
    (h : Standing limit accepted sent left waiting held)
    (h' : Standing limit accepted' sent' left' waiting' held') (hs : sent ≤ sent')
    (hleft : held = none → left' = left) :
    left' = left + if held ≠ none ∧ held' = none then 1 else 0 := by
  cases h with
  | held => cases h' <;> simp <;> omega
  | _ => simp [hleft]

theorem Standing.accepted_eq {accepted' sent' left' waiting' : Nat} {held' : Option Nat}
    (h : Standing limit accepted sent left waiting held)
    (h' : Standing limit accepted' sent' left' waiting' held') (ha : accepted ≤ accepted')
    (hleft : held = none → left' = left) :
    accepted' = accepted +
      if ¬ (0 < waiting ∨ held ≠ none) ∧ (0 < waiting' ∨ held' ≠ none) then 1 else 0 := by
  cases h with
  | held =>
    cases h' with
    | unknown => omega
    | _ => simp
  | _ =>
    have := hleft rfl
    cases h' <;> simp <;> omega

end Standing

/-- Every delivery has a standing. -/
def Settled (limit : Nat) (b : Book ι) : Prop :=
  ∀ id, Standing limit (b.log.accepted.count id) (b.log.sent.count id) (b.log.left.count id)
    (b.waiting.count id) (b.held id)

theorem settled_empty (limit : Nat) : Settled limit (Book.empty : Book ι) :=
  fun _ => .unknown

theorem count_append_self (l : List ι) (id : ι) : (l ++ [id]).count id = l.count id + 1 := by
  simp

theorem count_append_ne {id x : ι} (h : x ≠ id) (l : List ι) : (l ++ [id]).count x = l.count x := by
  simp [Ne.symm h]

/-- **Step rule**: a move takes its delivery from one standing to another, and
leaves the others alone. -/
theorem Settled.move {limit : Nat} {b b' : Book ι} (hb : Settled limit b)
    (h : Move limit b b') : Settled limit b' := by
  intro x
  have hx := hb x
  cases h with
  | @wait id hnew =>
    simp only [Log.queued, Log.accepted_append, Log.sent_append, Log.left_append, append_nil]
    by_cases heq : x = id
    · subst heq
      rw [count_eq_zero.mpr hnew] at hx
      rw [count_append_self, count_append_self, count_eq_zero.mpr hnew]
      exact hx.wait
    · rw [count_append_ne heq, count_append_ne heq]
      exact hx
  | @start id hnew =>
    simp only [Log.started, Log.accepted_append, Log.sent_append, Log.left_append, append_nil]
    by_cases heq : x = id
    · subst heq
      rw [count_eq_zero.mpr hnew] at hx
      rw [count_append_self, count_append_self, count_eq_zero.mpr hnew, update_self]
      exact hx.start
    · rw [count_append_ne heq, count_append_ne heq, update_of_ne heq]
      exact hx
  | @first id rest hwaiting =>
    simp only [Log.resent, Log.accepted_append, Log.sent_append, Log.left_append, append_nil]
    rw [hwaiting] at hx
    by_cases heq : x = id
    · subst heq
      rw [count_cons_self] at hx
      rw [count_append_self, update_self]
      exact hx.first
    · rw [count_cons_of_ne (Ne.symm heq)] at hx
      rw [count_append_ne heq, update_of_ne heq]
      exact hx
  | @again id n hheld hn =>
    simp only [Log.resent, Log.accepted_append, Log.sent_append, Log.left_append, append_nil]
    by_cases heq : x = id
    · subst heq
      rw [hheld] at hx
      rw [count_append_self, update_self]
      exact hx.again hn
    · rw [count_append_ne heq, update_of_ne heq]
      exact hx
  | @leave id n hheld =>
    simp only [Log.gone, Log.accepted_append, Log.sent_append, Log.left_append, append_nil]
    by_cases heq : x = id
    · subst heq
      rw [hheld] at hx
      rw [count_append_self, update_self]
      exact hx.leave
    · rw [count_append_ne heq, update_of_ne heq]
      exact hx

/-- **Run rule**: every delivery keeps a standing along any moves. -/
theorem Settled.moves {limit : Nat} {b b' : Book ι} (hb : Settled limit b)
    (h : Moves limit b b') : Settled limit b' := by
  induction h with
  | refl => exact hb
  | tail _ hmove ih => exact ih.move hmove

end Move

end CloudI.Deliveries
