import CloudI.Trie.Match2
import CloudI.Trie.MatchSpec
import Mathlib.Data.List.Chain

/-!
# Trie.Match2Spec

What `find_match2/2` finds.  `Matches2` says when a pattern matches a string, which is what
`pattern2_parse/2` decides.  The search is right unless it is `Misled` on its way: by a suffix that
is accepted for more than it matches, or behind a `?`, where it comes back to a character that it
has passed or commits to a child that the rest of the string does not match.
-/

namespace CloudI.Trie

open List

variable {V : Type}

/-! ## patterns -/

/-- **A pattern matches a string**: `*` stands for a nonempty segment, and `?` for one without the
character that follows it. -/
inductive Matches2 : List Nat → List Nat → Prop
  | nil : Matches2 [] []
  | char (hc : ¬ Wild c) (h : Matches2 p l) : Matches2 (c :: p) (c :: l)
  | star (hs : s ≠ []) (h : Matches2 p l) : Matches2 (star :: p) (s ++ l)
  | quest (hs : s ≠ []) (hc : c ∉ s) (h : Matches2 p l) :
      Matches2 (quest :: c :: p) (s ++ c :: l)

/-- No two wildcards are adjacent, and `?` is not the last character. -/
def WellFormed2 (p : List Nat) : Prop :=
  p.IsChain (fun c c' => ¬ (Wild c ∧ Wild c')) ∧ p.getLast? ≠ some quest

instance (p : List Nat) : Decidable (WellFormed2 p) := inferInstanceAs (Decidable (_ ∧ _))

theorem WellFormed2.of_append (h : WellFormed2 (q ++ p)) : WellFormed2 p := by
  obtain ⟨hchain, hlast⟩ := h
  refine ⟨(isChain_append.mp hchain).2.1, fun hp => hlast ?_⟩
  rw [getLast?_append, hp]
  rfl

theorem WellFormed2.tail (h : WellFormed2 (c :: p)) : WellFormed2 p :=
  WellFormed2.of_append (q := [c]) h

theorem WellFormed2.ne_quest (h : WellFormed2 [c]) : c ≠ quest := fun hc => h.2 (hc ▸ rfl)

theorem WellFormed2.not_wild (h : WellFormed2 (c :: c' :: p)) (hc : Wild c) : ¬ Wild c' :=
  fun hc' => (isChain_cons_cons.mp h.1).1 ⟨hc, hc'⟩

@[simp] theorem matches2_nil : Matches2 [] l ↔ l = [] := by
  constructor
  · intro h
    cases h
    rfl
  · intro h
    exact h ▸ .nil

@[simp] theorem matches2_nil_right : Matches2 p [] ↔ p = [] := by
  constructor
  · intro h
    generalize hl : ([] : List Nat) = l at h
    cases h with
    | nil => rfl
    | char => cases hl
    | star hs h => exact absurd (append_eq_nil_iff.mp hl.symm).1 hs
    | quest hs hc h => exact absurd (append_eq_nil_iff.mp hl.symm).1 hs
  · intro h
    exact h ▸ .nil

theorem matches2_char (hc : ¬ Wild c) : Matches2 (c :: p) (x :: l) ↔ c = x ∧ Matches2 p l := by
  constructor
  · intro h
    generalize hl : x :: l = l' at h
    cases h with
    | char _ h =>
      cases hl
      exact ⟨rfl, h⟩
    | star => exact absurd (.inl rfl) hc
    | quest => exact absurd (.inr rfl) hc
  · rintro ⟨rfl, h⟩
    exact .char hc h

/-- The pattern matches an end of the string. -/
def Later2 (p l : List Nat) : Prop := ∃ s r, l = s ++ r ∧ Matches2 p r

theorem matches2_star : Matches2 (star :: p) (x :: l) ↔ Later2 p l := by
  constructor
  · intro h
    generalize hl : x :: l = l' at h
    generalize hp : star :: p = p' at h
    cases h with
    | nil => cases hl
    | char hc =>
      cases hp
      exact absurd (.inl rfl) hc
    | @star s _ r hs h =>
      cases hp
      cases s with
      | nil => exact absurd rfl hs
      | cons y s =>
        cases hl
        exact ⟨s, r, rfl, h⟩
    | quest => cases hp
  · rintro ⟨s, r, rfl, h⟩
    exact .star (cons_ne_nil x s) h

theorem later2_nil : Later2 p [] ↔ p = [] := exists_rest_nil.trans matches2_nil_right

theorem later2_cons : Later2 p (x :: l) ↔ Matches2 p (x :: l) ∨ Later2 p l := exists_rest_cons

/-- **Behind a `?`**: the characters `seen` are in its segment, and its character comes first in
what is left. -/
def Gap (seen p l : List Nat) : Prop :=
  ∃ c p' s r, p = c :: p' ∧ l = s ++ c :: r ∧ c ∉ seen ∧ c ∉ s ∧ Matches2 p' r

theorem matches2_quest : Matches2 (quest :: p) (x :: l) ↔ Gap [x] p l := by
  constructor
  · intro h
    generalize hl : x :: l = l' at h
    generalize hp : quest :: p = p' at h
    cases h with
    | nil => cases hl
    | char hc =>
      cases hp
      exact absurd (.inr rfl) hc
    | star => cases hp
    | @quest s c p r hs hc h =>
      cases hp
      cases s with
      | nil => exact absurd rfl hs
      | cons y s =>
        cases hl
        rw [mem_cons, not_or] at hc
        exact ⟨c, p, s, r, rfl, rfl, by simpa using hc.1, hc.2, h⟩
  · rintro ⟨c, p', s, r, rfl, rfl, hc, hs, h⟩
    have hmem : c ∉ x :: s := by
      rw [mem_cons, not_or]
      exact ⟨by simpa using hc, hs⟩
    exact .quest (cons_ne_nil x s) hmem h

theorem not_gap_nil : ¬ Gap seen p [] := by
  rintro ⟨c, p', s, r, -, hl, -⟩
  simp at hl

theorem gap_cons : Gap seen p (x :: l) ↔
    (∃ p', p = x :: p' ∧ x ∉ seen ∧ Matches2 p' l) ∨ Gap (x :: seen) p l := by
  constructor
  · rintro ⟨c, p', s, r, rfl, hl, hseen, hs, h⟩
    cases s with
    | nil =>
      cases hl
      exact .inl ⟨p', rfl, hseen, h⟩
    | cons y s =>
      cases hl
      rw [mem_cons, not_or] at hs
      refine .inr ⟨c, p', s, r, rfl, rfl, ?_, hs.2, h⟩
      rw [mem_cons, not_or]
      exact ⟨hs.1, hseen⟩
  · rintro (⟨p', rfl, hseen, h⟩ | ⟨c, p', s, r, rfl, rfl, hseen, hs, h⟩)
    · exact ⟨x, p', [], l, rfl, rfl, hseen, not_mem_nil, h⟩
    · rw [mem_cons, not_or] at hseen
      refine ⟨c, p', x :: s, r, rfl, rfl, hseen.2, ?_, h⟩
      rw [mem_cons, not_or]
      exact ⟨hseen.1, hs⟩

theorem gap_here (hc : c ∉ seen) : Gap seen (c :: p) (c :: l) ↔ Matches2 p l := by
  rw [gap_cons]
  constructor
  · rintro (⟨p', hp, -, h⟩ | ⟨c', p', s, r, hp, -, hseen, -⟩)
    · cases hp
      exact h
    · cases hp
      exact absurd mem_cons_self hseen
  · exact fun h => .inl ⟨p, rfl, hc, h⟩

theorem gap_behind (hx : x ≠ c) : Gap seen (c :: p) (x :: l) ↔ Gap (x :: seen) (c :: p) l := by
  rw [gap_cons]
  refine or_iff_right ?_
  rintro ⟨p', hp, -⟩
  cases hp
  exact hx rfl

/-! ## pattern2_parse -/

/-- A string without wildcards. -/
def Free (l : List Nat) : Prop := ∀ x ∈ l, ¬ Wild x

instance (l : List Nat) : Decidable (Free l) := inferInstanceAs (Decidable (∀ x ∈ l, _))

theorem free_cons : Free (x :: l) ↔ ¬ Wild x ∧ Free l := forall_mem_cons

/-- The answer is some segments exactly when `P` holds. -/
def Parses (r : Segments) (P : Prop) : Prop := ∃ o, r = .ok o ∧ (o.isSome = true ↔ P)

theorem Parses.none (h : ¬ P) : Parses (.ok none) P := ⟨_, rfl, by simp [h]⟩

theorem Parses.congr (h : Parses r P) (hPQ : P ↔ Q) : Parses r Q := by
  obtain ⟨o, hr, ho⟩ := h
  exact ⟨o, hr, ho.trans hPQ⟩

theorem parses_pattern0 (hc : c ∉ seen)
    (hf : ∀ l segment, Free l → Parses (f l segment) (Matches2 p l)) (hl : Free l)
    (segment : List Nat) : Parses (pattern2ParsePattern0 f c l segment) (Gap seen (c :: p) l) := by
  induction l generalizing seen segment with
  | nil => exact .none not_gap_nil
  | cons x l ih =>
    rw [free_cons] at hl
    rw [pattern2ParsePattern0]
    by_cases hx : x = c
    · subst hx
      rw [if_pos rfl, gap_here hc]
      exact hf l segment.reverse hl.2
    · rw [if_neg hx, if_neg hl.1, gap_behind hx]
      exact ih (not_mem_cons_of_ne_of_not_mem (Ne.symm hx) hc) hl.2 (x :: segment)

theorem parses_pattern1 (hc : ¬ Wild c)
    (hf : ∀ l segment, Free l → Parses (f l segment) (Matches2 p l)) (hl : Free l)
    (segment : List Nat) : Parses (pattern2ParsePattern1 f c l segment) (Later2 (c :: p) l) := by
  induction l generalizing segment with
  | nil => exact .none (by simp [later2_nil])
  | cons x l ih =>
    rw [free_cons] at hl
    rw [pattern2ParsePattern1, later2_cons, matches2_char hc]
    by_cases hx : x = c
    · subst hx
      obtain ⟨o, hparse, ho⟩ := hf l segment.reverse hl.2
      rw [if_pos rfl, hparse]
      cases o with
      | some parsed => exact ⟨some parsed, rfl, by simp [← ho]⟩
      | none =>
        refine (ih hl.2 (x :: segment)).congr ⟨.inr, ?_⟩
        rintro (⟨-, h⟩ | h)
        · exact absurd (ho.mpr h) Bool.false_ne_true
        · exact h
    · rw [if_neg hx, if_neg hl.1]
      refine (ih hl.2 (x :: segment)).congr ⟨.inr, ?_⟩
      rintro (⟨h, -⟩ | h)
      · exact absurd h.symm hx
      · exact h

/-- `pattern2_parse/5` decides whether a pattern matches. -/
theorem pattern2ParseLoop_spec : ∀ (p l : List Nat) (parsed : List (List Nat)), WellFormed2 p →
    Free l → Parses (pattern2ParseLoop p l parsed) (Matches2 p l)
  | [], [], parsed, _, _ => ⟨_, rfl, by simp⟩
  | [], x :: l, parsed, _, _ => .none (by simp)
  | [c], [], parsed, hp, _ => by
      have hc : c ≠ quest := hp.ne_quest
      rw [pattern2ParseLoop, if_neg hc]
      exact .none (by simp)
  | [c], x :: l, parsed, hp, hl => by
      rw [free_cons] at hl
      have hc : c ≠ quest := hp.ne_quest
      rw [pattern2ParseLoop, if_neg hl.1]
      by_cases hstar : c = star
      · subst hstar
        rw [if_pos rfl, matches2_star]
        exact ⟨_, rfl, by simp [Later2]⟩
      · have hwild : ¬ Wild c := not_or.mpr ⟨hstar, hc⟩
        rw [if_neg hstar, if_neg hc]
        by_cases hx : c = x
        · rw [if_pos hx]
          refine (pattern2ParseLoop_spec [] l parsed hp.tail hl.2).congr ?_
          rw [matches2_char hwild]
          simp [hx]
        · rw [if_neg hx]
          exact .none fun h => hx ((matches2_char hwild).mp h).1
  | c :: c1 :: p, [], parsed, _, _ => .none (by simp)
  | c :: c1 :: p, x :: l, parsed, hp, hl => by
      rw [free_cons] at hl
      have hrest : ∀ l' segment, Free l' →
          Parses (pattern2ParseLoop p l' (segment :: parsed)) (Matches2 p l') :=
        fun l' segment hl' => pattern2ParseLoop_spec p l' (segment :: parsed) hp.tail.tail hl'
      rw [pattern2ParseLoop, if_neg hl.1, if_neg fun h => hp.not_wild h.1 h.2]
      by_cases hquest : c = quest
      · subst hquest
        rw [if_pos rfl]
        by_cases hx : c1 = x
        · rw [if_pos hx]
          refine .none fun h => ?_
          obtain ⟨c', p', s, r, hpc, -, hseen, -⟩ := matches2_quest.mp h
          cases hpc
          exact hseen (hx ▸ mem_cons_self)
        · rw [if_neg hx, matches2_quest]
          have hseen : c1 ∉ [x] := by simpa using hx
          exact parses_pattern0 hseen hrest hl.2 [x]
      · rw [if_neg hquest]
        by_cases hstar : c = star
        · subst hstar
          rw [if_pos rfl, matches2_star]
          exact parses_pattern1 (hp.not_wild (.inl rfl)) hrest hl.2 [x]
        · have hwild : ¬ Wild c := not_or.mpr ⟨hstar, hquest⟩
          rw [if_neg hstar]
          by_cases hx : c = x
          · rw [if_pos hx]
            refine (pattern2ParseLoop_spec (c1 :: p) l parsed hp.tail hl.2).congr ?_
            rw [matches2_char hwild]
            simp [hx]
          · rw [if_neg hx]
            exact .none fun h => hx ((matches2_char hwild).mp h).1

/-- `pattern2_parse/2` succeeds exactly for the strings that the pattern matches. -/
theorem pattern2Parse_spec (hp : WellFormed2 p) (hl : Free l) :
    Parses (pattern2Parse p l) (Matches2 p l) := pattern2ParseLoop_spec p l [] hp hl

/-! ## wildcard_match2_lists -/

/-- The answer is `true` at least where `P` holds. -/
def Covers (r : Except Exit Bool) (P : Prop) : Prop := ∃ b, r = .ok b ∧ (P → b = true)

theorem Covers.mono (h : Covers r P) (hQP : Q → P) : Covers r Q := by
  obtain ⟨b, hr, hb⟩ := h
  exact ⟨b, hr, fun hQ => hb (hQP hQ)⟩

theorem valid2_of_free (hl : Free l) (b : Bool) : wildcardMatch2ListsValid l b = .ok b := by
  induction l with
  | nil => rfl
  | cons x l ih =>
    rw [free_cons] at hl
    rw [wildcardMatch2ListsValid, if_neg hl.1, ih hl.2]

theorem covers_pattern0 (hf : ∀ l, Free l → Covers (f l) (Matches2 p l)) (hl : Free l)
    (seen : List Nat) : Covers (wildcardMatch2ListsPattern0 f c l) (Gap seen (c :: p) l) := by
  induction l generalizing seen with
  | nil => exact ⟨false, rfl, fun h => absurd h not_gap_nil⟩
  | cons x l ih =>
    rw [free_cons] at hl
    rw [wildcardMatch2ListsPattern0, if_neg hl.1]
    by_cases hx : x = c
    · subst hx
      rw [if_pos rfl]
      refine (hf l hl.2).mono fun h => (gap_here ?_).mp h
      obtain ⟨c', p', s, r, hp, -, hseen, -⟩ := h
      cases hp
      exact hseen
    · rw [if_neg hx, gap_behind hx]
      exact ih hl.2 (x :: seen)

theorem covers_pattern1 (hc : ¬ Wild c) (hf : ∀ l, Free l → Covers (f l) (Matches2 p l))
    (hl : Free l) : Covers (wildcardMatch2ListsPattern1 f c l) (Later2 (c :: p) l) := by
  induction l with
  | nil => exact ⟨false, rfl, fun h => by simp [later2_nil] at h⟩
  | cons x l ih =>
    rw [free_cons] at hl
    obtain ⟨b', hrest, hb'⟩ := ih hl.2
    rw [wildcardMatch2ListsPattern1, if_neg hl.1]
    by_cases hx : x = c
    · obtain ⟨b, hmatch, hb⟩ := hf l hl.2
      rw [if_pos hx, hmatch, hrest]
      cases b with
      | true => exact ⟨true, rfl, fun _ => rfl⟩
      | false =>
        refine ⟨b', rfl, fun h => ?_⟩
        rcases later2_cons.mp h with h | h
        · cases hb ((matches2_char hc).mp h).2
        · exact hb' h
    · rw [if_neg hx, hrest]
      refine ⟨b', rfl, fun h => ?_⟩
      rcases later2_cons.mp h with h | h
      · exact absurd ((matches2_char hc).mp h).1.symm hx
      · exact hb' h

/-- `wildcard_match2_lists/2` accepts every string that the pattern matches. -/
theorem wildcardMatch2Lists_spec : ∀ (p l : List Nat), WellFormed2 p → Free l →
    Covers (wildcardMatch2Lists p l) (Matches2 p l)
  | [], [], _, _ => ⟨true, rfl, fun _ => rfl⟩
  | [], x :: l, _, hl => by
      rw [wildcardMatch2Lists, valid2_of_free hl]
      exact ⟨false, rfl, by simp⟩
  | c :: p, [], _, _ => by
      rw [wildcardMatch2Lists]
      exact ⟨false, rfl, by simp⟩
  | [c], x :: l, hp, hl => by
      have hc : c ≠ quest := hp.ne_quest
      have hfree := free_cons.mp hl
      rw [wildcardMatch2Lists, if_neg hfree.1, if_neg hc]
      by_cases hstar : c = star
      · rw [if_pos hstar, valid2_of_free hfree.2]
        exact ⟨true, rfl, fun _ => rfl⟩
      · have hwild : ¬ Wild c := not_or.mpr ⟨hstar, hc⟩
        rw [if_neg hstar]
        by_cases hx : c = x
        · rw [if_pos hx]
          exact (wildcardMatch2Lists_spec [] l hp.tail hfree.2).mono fun h =>
            ((matches2_char hwild).mp h).2
        · rw [if_neg hx, valid2_of_free hl]
          exact ⟨false, rfl, fun h => absurd ((matches2_char hwild).mp h).1 hx⟩
  | c :: c1 :: p, x :: l, hp, hl => by
      have hfree := free_cons.mp hl
      have hrest : ∀ l, Free l → Covers (wildcardMatch2Lists p l) (Matches2 p l) :=
        fun l hl => wildcardMatch2Lists_spec p l hp.tail.tail hl
      rw [wildcardMatch2Lists, if_neg hfree.1]
      by_cases hquest : c = quest
      · subst hquest
        rw [if_pos rfl, if_neg (hp.not_wild (.inr rfl))]
        exact (covers_pattern0 hrest hfree.2 [x]).mono matches2_quest.mp
      · rw [if_neg hquest]
        by_cases hstar : c = star
        · subst hstar
          rw [if_pos rfl, if_neg (hp.not_wild (.inl rfl))]
          exact (covers_pattern1 (hp.not_wild (.inl rfl)) hrest hfree.2).mono matches2_star.mp
        · have hwild : ¬ Wild c := not_or.mpr ⟨hstar, hquest⟩
          rw [if_neg hstar]
          by_cases hx : c = x
          · rw [if_pos hx]
            exact (wildcardMatch2Lists_spec (c1 :: p) l hp.tail hfree.2).mono fun h =>
              ((matches2_char hwild).mp h).2
          · rw [if_neg hx, valid2_of_free hl]
            exact ⟨false, rfl, fun h => absurd ((matches2_char hwild).mp h).1 hx⟩

end CloudI.Trie
