import Mathlib.Data.List.Infix
import Mathlib.Data.List.Count

/-!
# Library.Votes

Votes that arrive one after the other, and the moment at which they decide.

A vote is for a key, with a ballot, or it is void.  `total` votes are expected.  The votes decide
for a ballot when it is the first whose key has the `required` number of votes, and they fail as
soon as no key can reach that number any more.  `decision` is what the votes so far decided: the
first of their prefixes that decides.

`Tally` is what a counter has to keep for it: the votes of each key, and the highest number.
-/

namespace CloudI.Votes

variable {κ ρ : Type} [DecidableEq κ] {votes : List (Option (κ × ρ))} {v : Option (κ × ρ)}
  {required total : Nat} {k : κ}

/-- How many votes are for a key. -/
def votesFor (k : κ) (votes : List (Option (κ × ρ))) : Nat :=
  votes.countP fun v => v.any (·.1 = k)

/-- No key can reach the required number: none of those voted for, and no new one. -/
def Hopeless (required total : Nat) (votes : List (Option (κ × ρ))) : Prop :=
  total - votes.length < required ∧
    ∀ v ∈ votes, ∀ x ∈ v, votesFor x.1 votes + (total - votes.length) < required

instance : Decidable (Hopeless required total votes) := by
  unfold Hopeless
  infer_instance

/-- What the last vote decides: for its ballot, or that no key can win. -/
def decisionAt (required total : Nat) (votes : List (Option (κ × ρ))) : Option (Option ρ) :=
  match votes.getLast?.join with
  | some (k, ballot) =>
      if votesFor k votes = required then some (some ballot)
      else if Hopeless required total votes then some none else none
  | none => if Hopeless required total votes then some none else none

/-- **The decision**: that of the first prefix which decides. -/
def decision (required total : Nat) (votes : List (Option (κ × ρ))) : Option (Option ρ) :=
  votes.inits.findSome? (decisionAt required total)

/-! ## one more vote -/

theorem votesFor_concat (k : κ) (votes : List (Option (κ × ρ))) (v : Option (κ × ρ)) :
    votesFor k (votes ++ [v]) = votesFor k votes + if v.any (·.1 = k) then 1 else 0 := by
  rw [votesFor, List.countP_append, List.countP_singleton]
  rfl

theorem decision_nil : decision required total ([] : List (Option (κ × ρ))) =
      if total < required then some none else none := by
  by_cases h : total < required
  · simp [decision, decisionAt, Hopeless, h]
  · simp [decision, decisionAt, Hopeless, h]

theorem decision_concat (required total : Nat) (votes : List (Option (κ × ρ)))
    (v : Option (κ × ρ)) : decision required total (votes ++ [v]) =
      (decision required total votes).or (decisionAt required total (votes ++ [v])) := by
  rw [decision, List.inits_append, List.findSome?_append]
  simp [decision]

/-- A vote for a key. -/
theorem decisionAt_some (ballot : ρ) : decisionAt required total (votes ++ [some (k, ballot)]) =
    if votesFor k votes + 1 = required then some (some ballot)
    else if Hopeless required total (votes ++ [some (k, ballot)]) then some none else none := by
  simp [decisionAt, votesFor_concat]

/-- A void vote. -/
theorem decisionAt_none : decisionAt required total (votes ++ [none]) =
    if Hopeless required total (votes ++ [none]) then some none else none := by
  simp [decisionAt]

/-- Undecided votes: no key has enough of them. -/
theorem votesFor_lt (hrequired : 0 < required) (h : decision required total votes = none) (k : κ) :
    votesFor k votes < required := by
  induction votes using List.reverseRecOn with
  | nil => exact hrequired
  | append_singleton votes v ih =>
    rw [decision_concat, Option.or_eq_none_iff] at h
    have hlt := ih h.1
    rw [votesFor_concat]
    cases v with
    | none => simpa using hlt
    | some x =>
      obtain ⟨k', ballot⟩ := x
      by_cases hk : k' = k
      · subst hk
        have hat := h.2
        rw [decisionAt_some] at hat
        have hne : votesFor k' votes + 1 ≠ required := by
          intro heq
          rw [if_pos heq] at hat
          cases hat
        simp only [Option.any_some, decide_true, if_true]
        omega
      · simp [hk, hlt]

/-- **All votes decide.** -/
theorem decision_isSome (hrequired : 0 < required) (hall : total ≤ votes.length) :
    (decision required total votes).isSome = true := by
  rw [Option.isSome_iff_ne_none]
  intro h
  have hlt := votesFor_lt hrequired h
  have hhopeless : Hopeless required total votes :=
    ⟨by omega, fun v _ x _ => by have := hlt x.1; omega⟩
  cases votes using List.reverseRecOn with
  | nil =>
    rw [decision_nil, if_pos (by simp at hall; omega)] at h
    cases h
  | append_singleton votes v =>
    rw [decision_concat, Option.or_eq_none_iff] at h
    have hat := h.2
    cases v with
    | none =>
      rw [decisionAt_none, if_pos hhopeless] at hat
      cases hat
    | some x =>
      rw [decisionAt_some, if_pos hhopeless] at hat
      by_cases heq : votesFor x.1 votes + 1 = required
      · rw [if_pos heq] at hat
        cases hat
      · rw [if_neg heq] at hat
        cases hat

/-! ## counting -/

/-- **A tally**: the votes of each key that has one, and the highest number of them. -/
structure Tally (votes : List (Option (κ × ρ))) (count : κ → Option Nat) (highest : Nat) :
    Prop where
  count : ∀ k, (count k).getD 0 = votesFor k votes
  le : ∀ k, votesFor k votes ≤ highest
  attained : highest = 0 ∨ ∃ v ∈ votes, ∃ x ∈ v, votesFor x.1 votes = highest

theorem tally_nil : Tally ([] : List (Option (κ × ρ))) (fun _ => none) 0 :=
  ⟨fun _ => rfl, fun _ => le_rfl, .inl rfl⟩

variable {count count' : κ → Option Nat} {highest : Nat}

/-- **The highest number tells when the votes are hopeless.** -/
theorem Tally.hopeless_iff (h : Tally votes count highest) :
    Hopeless required total votes ↔ highest + (total - votes.length) < required := by
  constructor
  · rintro ⟨hnew, hold⟩
    rcases h.attained with rfl | ⟨v, hv, x, hx, heq⟩
    · omega
    · rw [← heq]
      exact hold v hv x hx
  · intro hlt
    refine ⟨by omega, fun v _ x _ => ?_⟩
    have hle := h.le x.1
    omega

/-- A void vote. -/
theorem Tally.void (h : Tally votes count highest) : Tally (votes ++ [none]) count highest := by
  have hsame : ∀ k, votesFor k (votes ++ [none]) = votesFor k votes := by
    intro k
    rw [votesFor_concat]
    rfl
  refine ⟨fun k => (h.count k).trans (hsame k).symm, fun k => (hsame k).le.trans (h.le k), ?_⟩
  refine h.attained.imp_right fun ⟨v, hv, x, hx, heq⟩ => ?_
  exact ⟨v, List.mem_append_left _ hv, x, hx, (hsame x.1).trans heq⟩

/-- A vote for a key. -/
theorem Tally.vote (h : Tally votes count highest) (ballot : ρ)
    (hk : count' k = some ((count k).getD 0 + 1)) (hother : ∀ k', k' ≠ k → count' k' = count k') :
    Tally (votes ++ [some (k, ballot)]) count' (max ((count k).getD 0 + 1) highest) := by
  have hself : votesFor k (votes ++ [some (k, ballot)]) = votesFor k votes + 1 := by
    rw [votesFor_concat]
    simp
  have hsame : ∀ k', k' ≠ k → votesFor k' (votes ++ [some (k, ballot)]) = votesFor k' votes := by
    intro k' hne
    rw [votesFor_concat]
    simp [hne.symm]
  rw [h.count k]
  refine ⟨fun k' => ?_, fun k' => ?_, ?_⟩
  · by_cases heq : k' = k
    · subst heq
      rw [hk, hself, h.count k']
      rfl
    · rw [hother k' heq, hsame k' heq]
      exact h.count k'
  · by_cases heq : k' = k
    · subst heq
      rw [hself]
      exact le_max_left _ _
    · rw [hsame k' heq]
      exact (h.le k').trans (le_max_right _ _)
  · right
    rcases le_total highest (votesFor k votes + 1) with hle | hle
    · refine ⟨some (k, ballot), by simp, (k, ballot), rfl, ?_⟩
      rw [hself, max_eq_left hle]
    · rw [max_eq_right hle]
      rcases h.attained with rfl | ⟨v, hv, x, hx, heq⟩
      · omega
      · by_cases hxk : x.1 = k
        · rw [hxk] at heq
          omega
        · exact ⟨v, List.mem_append_left _ hv, x, hx, (hsame x.1 hxk).trans heq⟩

end CloudI.Votes
