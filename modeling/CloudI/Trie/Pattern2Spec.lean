import CloudI.Trie.Match2Spec
import CloudI.Trie.PatternSpec

/-!
# Trie.Pattern2Spec

What `pattern2_parse/2` answers.  It decides `Matches2`, and the segments that it
answers are those of a decomposition, which fill the pattern to the string.
-/

namespace CloudI.Trie

open CloudI.Except List

/-- **A string decomposes along a pattern with two wildcards**, with their segments:
one of `?` is free of the character behind it. -/
inductive Decomposes2 : List Nat → List Nat → List (List Nat) → Prop
  | nil : Decomposes2 [] [] []
  | char (hc : ¬ Wild c) (h : Decomposes2 p l ws) : Decomposes2 (c :: p) (c :: l) ws
  | star (hs : s ≠ []) (h : Decomposes2 p l ws) : Decomposes2 (star :: p) (s ++ l) (s :: ws)
  | quest (hs : s ≠ []) (hc : c ∉ s) (hw : ¬ Wild c) (h : Decomposes2 p l ws) :
      Decomposes2 (quest :: c :: p) (s ++ c :: l) (s :: ws)

/-- No two wildcards are adjacent. -/
abbrev NoAdjacent (p : List Nat) : Prop := p.IsChain fun c c' => ¬ (Wild c ∧ Wild c')

theorem Decomposes2.matches (h : Decomposes2 p l ws) : Matches2 p l := by
  induction h with
  | nil => exact .nil
  | char hc h ih => exact .char hc ih
  | star hs h ih => exact .star hs ih
  | quest hs hc hw h ih => exact .quest hs hc ih

/-- A character follows every `?` of a pattern that a string decomposes along. -/
theorem getLast?_of_decomposes2 (h : Decomposes2 p l ws) : p.getLast? ≠ some quest := by
  induction h with
  | nil => exact fun h => nomatch h
  | @char c p l ws hc h ih =>
    rw [getLast?_cons]
    cases hlast : p.getLast? with
    | none => exact fun h => hc (.inr (Option.some.inj h))
    | some x => exact hlast ▸ ih
  | @star s p l ws hs h ih =>
    rw [getLast?_cons]
    cases hlast : p.getLast? with
    | none => exact fun h => absurd (Option.some.inj h) (by decide)
    | some x => exact hlast ▸ ih
  | @quest s c p l ws hs hc hw h ih =>
    rw [getLast?_cons_cons, getLast?_cons]
    cases hlast : p.getLast? with
    | none => exact fun h => hw (.inr (Option.some.inj h))
    | some x => exact hlast ▸ ih

/-! ## the segments of an answer -/

variable {parse : List Nat → List Nat → Segments} {segment : List Nat}

theorem pattern2ParsePattern0_some (h : pattern2ParsePattern0 parse c l segment = .ok (some r)) :
    ∃ s t, l = s ++ c :: t ∧ c ∉ s ∧ parse t (segment.reverse ++ s) = .ok (some r) := by
  induction l generalizing segment with
  | nil => cases h
  | cons x l ih =>
    rw [pattern2ParsePattern0] at h
    by_cases hx : x = c
    · subst hx
      rw [if_pos rfl] at h
      exact ⟨[], l, rfl, not_mem_nil, by rwa [append_nil]⟩
    · rw [if_neg hx] at h
      by_cases hw : Wild x
      · rw [if_pos hw] at h
        cases h
      · rw [if_neg hw] at h
        obtain ⟨s, t, rfl, hs, hparse⟩ := ih h
        refine ⟨x :: s, t, rfl, not_mem_cons_of_ne_of_not_mem (Ne.symm hx) hs, ?_⟩
        rw [reverse_cons, append_assoc] at hparse
        exact hparse

theorem pattern2ParsePattern1_some (h : pattern2ParsePattern1 parse c l segment = .ok (some r)) :
    ∃ s t, l = s ++ c :: t ∧ parse t (segment.reverse ++ s) = .ok (some r) := by
  induction l generalizing segment with
  | nil => cases h
  | cons x l ih =>
    have hlater : pattern2ParsePattern1 parse c l (x :: segment) = .ok (some r) →
        ∃ s t, x :: l = s ++ c :: t ∧ parse t (segment.reverse ++ s) = .ok (some r) := by
      intro h
      obtain ⟨s, t, rfl, hparse⟩ := ih h
      refine ⟨x :: s, t, rfl, ?_⟩
      rw [reverse_cons, append_assoc] at hparse
      exact hparse
    rw [pattern2ParsePattern1] at h
    by_cases hx : x = c
    · subst hx
      rw [if_pos rfl] at h
      obtain ⟨o, hparse, h⟩ := ok_of_bind h
      cases o with
      | some parsed =>
        cases h
        exact ⟨[], l, rfl, by rwa [append_nil]⟩
      | none => exact hlater h
    · rw [if_neg hx] at h
      by_cases hw : Wild x
      · rw [if_pos hw] at h
        cases h
      · rw [if_neg hw] at h
        exact hlater h

/-- **Soundness**: the parse answers the segments of a decomposition. -/
theorem pattern2ParseLoop_some : ∀ (p l : List Nat) (parsed : List (List Nat)),
    NoAdjacent p → pattern2ParseLoop p l parsed = .ok (some r) →
      ∃ ws, r = parsed.reverse ++ ws ∧ Decomposes2 p l ws
  | [], [], parsed, _, h => by
      cases h
      exact ⟨[], (append_nil _).symm, .nil⟩
  | [], _ :: _, parsed, _, h => by cases h
  | [c], [], parsed, _, h => by
      rw [pattern2ParseLoop] at h
      split at h <;> cases h
  | _ :: _ :: _, [], parsed, _, h => by cases h
  | [c], x :: t, parsed, _, h => by
      rw [pattern2ParseLoop] at h
      by_cases hw : Wild x
      · rw [if_pos hw] at h
        cases h
      rw [if_neg hw] at h
      by_cases hstar : c = star
      · rw [if_pos hstar] at h
        cases h
        refine ⟨[x :: t], reverse_cons, ?_⟩
        have hlast := Decomposes2.star (cons_ne_nil x t) .nil
        rw [append_nil] at hlast
        exact hstar ▸ hlast
      rw [if_neg hstar] at h
      by_cases hquest : c = quest
      · rw [if_pos hquest] at h
        cases h
      rw [if_neg hquest] at h
      by_cases hc : c = x
      · rw [if_pos hc] at h
        obtain ⟨ws, hr, hws⟩ := pattern2ParseLoop_some [] t parsed .nil h
        exact ⟨ws, hr, hc ▸ .char (not_or.mpr ⟨hstar, hquest⟩) hws⟩
      · rw [if_neg hc] at h
        cases h
  | c :: c1 :: p, x :: t, parsed, hp, h => by
      obtain ⟨hadjacent, hp1⟩ := isChain_cons_cons.mp hp
      rw [pattern2ParseLoop] at h
      by_cases hw : Wild x
      · rw [if_pos hw] at h
        cases h
      rw [if_neg hw, if_neg hadjacent] at h
      have hp2 : NoAdjacent p := (isChain_cons.mp hp1).2
      by_cases hquest : c = quest
      · rw [if_pos hquest] at h
        have hc1 : ¬ Wild c1 := fun hc1 => hadjacent ⟨.inr hquest, hc1⟩
        by_cases hx : c1 = x
        · rw [if_pos hx] at h
          cases h
        rw [if_neg hx] at h
        obtain ⟨s, t', rfl, hs, hparse⟩ := pattern2ParsePattern0_some h
        obtain ⟨ws, hr, hws⟩ := pattern2ParseLoop_some p t' _ hp2 hparse
        refine ⟨(x :: s) :: ws, ?_, hquest ▸ .quest (cons_ne_nil x s)
          (not_mem_cons_of_ne_of_not_mem hx hs) hc1 hws⟩
        rw [hr, reverse_cons, append_assoc]
        rfl
      rw [if_neg hquest] at h
      by_cases hstar : c = star
      · rw [if_pos hstar] at h
        have hc1 : ¬ Wild c1 := fun hc1 => hadjacent ⟨.inl hstar, hc1⟩
        obtain ⟨s, t', rfl, hparse⟩ := pattern2ParsePattern1_some h
        obtain ⟨ws, hr, hws⟩ := pattern2ParseLoop_some p t' _ hp2 hparse
        refine ⟨(x :: s) :: ws, ?_, hstar ▸ .star (cons_ne_nil x s) (.char hc1 hws)⟩
        rw [hr, reverse_cons, append_assoc]
        rfl
      rw [if_neg hstar] at h
      by_cases hc : c = x
      · rw [if_pos hc] at h
        obtain ⟨ws, hr, hws⟩ := pattern2ParseLoop_some (c1 :: p) t parsed hp1 h
        exact ⟨ws, hr, hc ▸ .char (not_or.mpr ⟨hstar, hquest⟩) hws⟩
      · rw [if_neg hc] at h
        cases h

/-! ## filling -/

/-- The segments put into the pattern give the string. -/
theorem pattern2Fill_of_decomposes (h : Decomposes2 p l ws) : pattern2Fill p ws = .ok l := by
  have hinsert : ∀ nameOut, fillInsert Wild p nameOut ws true = .ok (nameOut.reverse ++ l) := by
    induction h with
    | nil =>
      intro nameOut
      rw [fillInsert, append_nil]
    | char hc h ih =>
      intro nameOut
      rw [fillInsert_char Wild hc, ih, reverse_cons, append_assoc]
      rfl
    | star hs h ih =>
      intro nameOut
      rw [fillInsert_wild Wild (.inl rfl), ih, reverse_append, reverse_reverse,
        append_assoc]
    | quest hs hc hw h ih =>
      intro nameOut
      rw [fillInsert_wild Wild (.inr rfl), fillInsert_char Wild hw, ih, reverse_cons,
        reverse_append, reverse_reverse, append_assoc, append_assoc]
      rfl
  exact hinsert []

/-! ## the parse of a pattern -/

/-- **A parse decomposes the string**: it succeeds exactly when the string decomposes along the
pattern, with the segments of a decomposition, which fill the pattern to the string;
and it exits only for a pattern that ends with `?`. -/
structure ParsesPattern2 (p l : List Nat) : Prop where
  succeeds_iff : (∃ ws, pattern2Parse p l = .ok (some ws)) ↔ ∃ ws, Decomposes2 p l ws
  decomposes : ∀ ws, pattern2Parse p l = .ok (some ws) → Decomposes2 p l ws
  fills : ∀ ws, pattern2Parse p l = .ok (some ws) → pattern2Fill p ws = .ok l
  answers : p.getLast? ≠ some quest → ∃ o, pattern2Parse p l = .ok o

/-- **Two-wildcard pattern parse**, for every pattern without adjacent wildcards and
every string without wildcards. -/
theorem parsesPattern2 {p l : List Nat} (hp : NoAdjacent p) (hl : Free l) : ParsesPattern2 p l := by
  have hsound : ∀ ws, pattern2Parse p l = .ok (some ws) → Decomposes2 p l ws := by
    intro ws h
    obtain ⟨ws', hws, hdecomposes⟩ := pattern2ParseLoop_some p l [] hp h
    rw [hws]
    exact hdecomposes
  constructor
  case succeeds_iff =>
      refine ⟨fun ⟨ws, h⟩ => ⟨ws, hsound ws h⟩, fun ⟨ws, h⟩ => ?_⟩
      obtain ⟨o, hparse, ho⟩ := pattern2Parse_spec ⟨hp, getLast?_of_decomposes2 h⟩ hl
      obtain ⟨segments, rfl⟩ := Option.isSome_iff_exists.mp (ho.mpr h.matches)
      exact ⟨segments, hparse⟩
  case decomposes => exact hsound
  case fills => exact fun ws h => pattern2Fill_of_decomposes (hsound ws h)
  case answers =>
      intro hlast
      obtain ⟨o, hparse, -⟩ := pattern2Parse_spec ⟨hp, hlast⟩ hl
      exact ⟨o, hparse⟩

/-- "*a?b" and the string "xaayb". -/
theorem parsesPattern2_both : ParsesPattern2 [42, 97, 63, 98] [120, 97, 97, 121, 98] :=
  parsesPattern2 (by decide) (by decide)

end CloudI.Trie
