import CloudI.Trie.MatchSpec
import CloudI.Trie.Pattern
import Mathlib.Data.List.Chain

/-!
# Trie.PatternSpec

What `pattern_parse/3` answers.  A string decomposes along a pattern when every
wildcard stands for a nonempty segment.  The parse finds the decomposition whose
segments are the shortest possible, one after the other, and each option shows it
in its own way.
-/

namespace CloudI.Trie

open List

/-- **A string decomposes along a pattern**, with the segments of its wildcards. -/
inductive Decomposes : List Nat → List Nat → List (List Nat) → Prop
  | nil : Decomposes [] [] []
  | char (hc : c ≠ star) (h : Decomposes p l ws) : Decomposes (c :: p) (c :: l) ws
  | wild (hs : s ≠ []) (h : Decomposes p l ws) : Decomposes (star :: p) (s ++ l) (s :: ws)

/-- The decomposition whose segments are the shortest possible, each one given the
earlier ones. -/
def Shortest (p l : List Nat) (ws : List (List Nat)) : Prop :=
  Decomposes p l ws ∧ ∀ us, Decomposes p l us → ∀ i s u, us.take i = ws.take i →
    ws[i]? = some s → us[i]? = some u → s.length ≤ u.length

/-! ## decompositions -/

@[simp] theorem decomposes_nil : Decomposes [] l ws ↔ l = [] ∧ ws = [] := by
  constructor
  · intro h
    cases h
    exact ⟨rfl, rfl⟩
  · rintro ⟨rfl, rfl⟩
    exact .nil

theorem decomposes_char (hc : c ≠ star) :
    Decomposes (c :: p) l ws ↔ ∃ l', l = c :: l' ∧ Decomposes p l' ws := by
  constructor
  · intro h
    cases h with
    | char _ h => exact ⟨_, rfl, h⟩
    | wild => exact absurd rfl hc
  · rintro ⟨l', rfl, h⟩
    exact .char hc h

theorem decomposes_wild : Decomposes (star :: p) l ws ↔
    ∃ s l' us, s ≠ [] ∧ l = s ++ l' ∧ ws = s :: us ∧ Decomposes p l' us := by
  constructor
  · intro h
    generalize hp : star :: p = p' at h
    cases h with
    | nil => cases hp
    | char hc =>
      cases hp
      exact absurd rfl hc
    | wild hs h =>
      cases hp
      exact ⟨_, _, _, hs, rfl, rfl, h⟩
  · rintro ⟨s, l', us, hs, rfl, rfl, h⟩
    exact .wild hs h

theorem not_decomposes_empty (c : Nat) (p : List Nat) (ws : List (List Nat)) :
    ¬ Decomposes (c :: p) [] ws := by
  intro h
  by_cases hc : c = star
  · subst hc
    obtain ⟨s, l', us, hs, hl, -⟩ := decomposes_wild.mp h
    exact hs (append_eq_nil_iff.mp hl.symm).1
  · obtain ⟨l', hl, -⟩ := (decomposes_char hc).mp h
    cases hl

/-- The rest of a string behind a wildcard and the character `c1`. -/
theorem decomposes_wild_char (hc1 : c1 ≠ star) : Decomposes (star :: c1 :: p) (h :: t) ws ↔
      ∃ s r us, t = s ++ c1 :: r ∧ ws = (h :: s) :: us ∧ Decomposes p r us := by
  rw [decomposes_wild]
  constructor
  · rintro ⟨s, l', us, hs, hl, rfl, hrest⟩
    obtain ⟨r, rfl, hr⟩ := (decomposes_char hc1).mp hrest
    cases s with
    | nil => exact absurd rfl hs
    | cons x s =>
      cases hl
      exact ⟨s, r, us, rfl, rfl, hr⟩
  · rintro ⟨s, r, us, rfl, rfl, hr⟩
    exact ⟨h :: s, c1 :: r, us, cons_ne_nil h s, rfl, rfl, .char hc1 hr⟩

theorem shortest_nil : Shortest [] [] [] := by
  refine ⟨.nil, ?_⟩
  rintro us - i s u - hs
  cases hs

theorem Shortest.char (h : Shortest p l ws) (hc : c ≠ star) : Shortest (c :: p) (c :: l) ws := by
  refine ⟨.char hc h.1, fun us hus => ?_⟩
  obtain ⟨l', hl, hus⟩ := (decomposes_char hc).mp hus
  cases hl
  exact h.2 us hus

theorem shortest_last (h : Nat) (t : List Nat) : Shortest [star] (h :: t) [h :: t] := by
  have hall : ∀ us, Decomposes [star] (h :: t) us → us = [h :: t] := by
    intro us hus
    obtain ⟨s, l', us, -, hl, rfl, hrest⟩ := decomposes_wild.mp hus
    obtain ⟨rfl, rfl⟩ := decomposes_nil.mp hrest
    rw [hl, append_nil]
  refine ⟨decomposes_wild.mpr ⟨h :: t, [], [], cons_ne_nil h t, by simp, rfl, .nil⟩, ?_⟩
  rintro us hus i s u - hs hu
  rw [hall us hus, hs] at hu
  cases hu
  exact Nat.le_refl _

/-- The first place of the character behind a wildcard from which the rest
decomposes gives the shortest segment. -/
theorem shortest_wild (hc1 : c1 ≠ star) (hrest : Shortest p r ws)
    (hfirst : ∀ s' r', s ++ c1 :: r = s' ++ c1 :: r' → s'.length < s.length →
      ¬ ∃ us, Decomposes p r' us) :
    Shortest (star :: c1 :: p) (h :: (s ++ c1 :: r)) ((h :: s) :: ws) := by
  refine ⟨(decomposes_wild_char hc1).mpr ⟨s, r, ws, rfl, rfl, hrest.1⟩, fun us hus => ?_⟩
  obtain ⟨s', r', us', hl, rfl, hus'⟩ := (decomposes_wild_char hc1).mp hus
  intro i x u htake hx hu
  cases i with
  | zero =>
    cases hx
    cases hu
    rw [length_cons, length_cons]
    have hlt := mt (hfirst s' r' hl) (not_not.mpr ⟨us', hus'⟩)
    omega
  | succ i =>
    rw [take_succ_cons, take_succ_cons] at htake
    obtain ⟨hs, htake'⟩ := cons_eq_cons.mp htake
    cases hs
    cases append_cancel_left hl
    exact hrest.2 us' hus' i x u htake' hx hu

/-! ## the parse -/

/-- What `pattern_parse/5` answers for the segments `ws` of the pattern. -/
def parsedFrom (option : ParseOption) :
    List Nat → List (List Nat) → List Piece → List Nat → Parsed
  | [], _, parsed, suffix => patternParseResult option parsed suffix
  | c :: p, ws, parsed, suffix =>
      if c = star then
        match ws with
        | [] => patternParseResult option parsed suffix
        | s :: ws => parsedFrom option p ws (.segment s :: newParsed option parsed suffix) []
      else parsedFrom option p ws parsed (c :: suffix)

theorem parsedFrom_star (option : ParseOption) (p s : List Nat) (ws : List (List Nat))
    (parsed : List Piece) (suffix : List Nat) :
    parsedFrom option (star :: p) (s :: ws) parsed suffix =
      parsedFrom option p ws (.segment s :: newParsed option parsed suffix) [] := if_pos rfl

theorem parsedFrom_char (option : ParseOption) (hc : c ≠ star) (p : List Nat)
    (ws : List (List Nat)) (parsed : List Piece) (suffix : List Nat) :
    parsedFrom option (c :: p) ws parsed suffix =
      parsedFrom option p ws parsed (c :: suffix) := if_neg hc

/-- The parse of `l` by `p`: there is no decomposition and it answers `error`, or it
answers the shortest one, in every option and behind everything parsed before. -/
def ParsesShortest (p l : List Nat) : Prop :=
  ((¬ ∃ ws, Decomposes p l ws) ∧
    ∀ option parsed suffix, patternParseLoop option p l parsed suffix = .ok none) ∨
  ∃ ws, Shortest p l ws ∧ ∀ option parsed suffix,
    patternParseLoop option p l parsed suffix = .ok (some (parsedFrom option p ws parsed suffix))

/-- The loop of a wildcard over the places of the character `c` behind it. -/
abbrev loopAt (option : ParseOption) (p : List Nat) (c : Nat) (parsed : List Piece)
    (l segment : List Nat) : Except Exit (Option Parsed) :=
  patternParsePattern (fun l segment => patternParseLoop option p l (.segment segment :: parsed)
    [c]) c l segment

/-- What the loop answers: no place of the character lets the rest decompose, or the
first one that does ends the segment. -/
def FindsPlace (p : List Nat) (c : Nat) (l : List Nat) : Prop :=
  ((∀ s r, l = s ++ c :: r → ¬ ∃ ws, Decomposes p r ws) ∧
    ∀ option parsed segment, loopAt option p c parsed l segment = .ok none) ∨
  ∃ s r ws, l = s ++ c :: r ∧ Shortest p r ws ∧
    (∀ s' r', l = s' ++ c :: r' → s'.length < s.length → ¬ ∃ us, Decomposes p r' us) ∧
    ∀ option parsed segment, loopAt option p c parsed l segment =
      .ok (some (parsedFrom option p ws (.segment (segment.reverse ++ s) :: parsed) [c]))

/-- **Step lemma**: the loop goes on behind a character where the segment cannot end. -/
theorem FindsPlace.cons (h : FindsPlace p c l) (hfirst : x = c → ¬ ∃ ws, Decomposes p l ws)
    (hstep : ∀ option parsed segment, loopAt option p c parsed (x :: l) segment =
      loopAt option p c parsed l (x :: segment)) : FindsPlace p c (x :: l) := by
  have hhere : ∀ r, x :: l = c :: r → ¬ ∃ ws, Decomposes p r ws := by
    intro r hl
    cases hl
    exact hfirst rfl
  rcases h with ⟨hnone, hloop⟩ | ⟨s, r, ws, rfl, hshort, hplace, hloop⟩
  · refine .inl ⟨fun s r hl => ?_, fun option parsed segment => ?_⟩
    · cases s with
      | nil => exact hhere r hl
      | cons y s =>
        cases hl
        exact hnone s r rfl
    · rw [hstep, hloop]
  · refine .inr ⟨x :: s, r, ws, rfl, hshort, fun s' r' hl hlt => ?_,
      fun option parsed segment => ?_⟩
    · cases s' with
      | nil => exact hhere r' hl
      | cons y s' =>
        rw [cons_append, cons_eq_cons] at hl
        exact hplace s' r' hl.2 (Nat.lt_of_succ_lt_succ hlt)
    · rw [hstep, hloop, reverse_cons, append_assoc, singleton_append]

theorem findsPlace (hp : ∀ l, star ∉ l → ParsesShortest p l) (hl : star ∉ l) :
    FindsPlace p c l := by
  induction l with
  | nil => exact .inl ⟨fun s r hl => by simp at hl, fun _ _ _ => rfl⟩
  | cons x l ih =>
    obtain ⟨hx, hl⟩ := ne_and_not_mem_of_not_mem_cons hl
    by_cases hxc : x = c
    · subst hxc
      rcases hp l hl with ⟨hnone, hparse⟩ | ⟨ws, hshort, hparse⟩
      · refine (ih hl).cons (fun _ => hnone) fun option parsed segment => ?_
        rw [loopAt, patternParsePattern, if_pos rfl, hparse]
        rfl
      · refine .inr ⟨[], l, ws, rfl, hshort, fun s' r' _ hlt => absurd hlt (Nat.not_lt_zero _),
          fun option parsed segment => ?_⟩
        rw [loopAt, patternParsePattern, if_pos rfl, hparse, append_nil]
        rfl
    · refine (ih hl).cons (fun h => absurd h hxc) fun option parsed segment => ?_
      rw [loopAt, patternParsePattern, if_neg hxc, if_neg (Ne.symm hx)]

/-- **The parse**: by recursion over the pattern. -/
theorem parsesShortest : ∀ p l : List Nat, WellFormed p → star ∉ l → ParsesShortest p l
  | [], [], _, _ => .inr ⟨[], shortest_nil, fun _ _ _ => by rw [patternParseLoop, parsedFrom]⟩
  | [], h :: t, _, _ => .inl ⟨by simp, fun _ _ _ => by rw [patternParseLoop]⟩
  | c :: p, [], _, _ => by
      refine .inl ⟨?_, fun _ _ _ => by rw [patternParseLoop]⟩
      rintro ⟨ws, hws⟩
      exact not_decomposes_empty c p ws hws
  | c :: p, h :: t, hp, hl => by
      obtain ⟨hh, ht⟩ := ne_and_not_mem_of_not_mem_cons hl
      by_cases hc : c = star
      · subst hc
        match p with
        | [] =>
          refine .inr ⟨[h :: t], shortest_last h t, fun option parsed suffix => ?_⟩
          rw [patternParseLoop, if_neg (Ne.symm hh), if_pos rfl, parsedFrom_star, parsedFrom]
        | c1 :: p =>
          have hc1 := hp.ne_star
          have hloop : ∀ option parsed suffix,
              patternParseLoop option (star :: c1 :: p) (h :: t) parsed suffix =
                loopAt option p c1 (newParsed option parsed suffix) t [h] := by
            intro option parsed suffix
            rw [patternParseLoop, if_neg (Ne.symm hh), if_pos rfl, if_neg hc1]
          rcases findsPlace (c := c1) (fun l hl => parsesShortest p l hp.tail.tail hl) ht with
            ⟨hnone, hplace⟩ | ⟨s, r, ws, rfl, hshort, hfirst, hplace⟩
          · refine .inl ⟨?_, fun option parsed suffix => (hloop _ _ _).trans (hplace _ _ _)⟩
            rintro ⟨ws, hws⟩
            obtain ⟨s, r, us, hs, -, hr⟩ := (decomposes_wild_char hc1).mp hws
            exact hnone s r hs ⟨us, hr⟩
          · refine .inr ⟨(h :: s) :: ws, shortest_wild hc1 hshort hfirst,
              fun option parsed suffix => ?_⟩
            rw [hloop, hplace, parsedFrom_star, parsedFrom_char option hc1]
            rfl
      · have hchar : ∀ option parsed suffix,
            patternParseLoop option (c :: p) (h :: t) parsed suffix =
              if c = h then patternParseLoop option p t parsed (c :: suffix) else .ok none := by
          intro option parsed suffix
          cases p <;> rw [patternParseLoop, if_neg (Ne.symm hh), if_neg hc]
        by_cases hch : c = h
        · subst hch
          rcases parsesShortest p t hp.tail ht with ⟨hnone, hparse⟩ | ⟨ws, hshort, hparse⟩
          · refine .inl ⟨?_, fun option parsed suffix => ?_⟩
            · rintro ⟨ws, hws⟩
              obtain ⟨l', hl', hws⟩ := (decomposes_char hc).mp hws
              cases hl'
              exact hnone ⟨ws, hws⟩
            · rw [hchar, if_pos rfl, hparse]
          · refine .inr ⟨ws, hshort.char hc, fun option parsed suffix => ?_⟩
            rw [hchar, if_pos rfl, hparse, parsedFrom_char option hc]
        · refine .inl ⟨?_, fun option parsed suffix => by rw [hchar, if_neg hch]⟩
          rintro ⟨ws, hws⟩
          obtain ⟨l', hl', -⟩ := (decomposes_char hc).mp hws
          cases hl'
          exact hch rfl

/-! ## the options -/

theorem parsedFrom_default (h : Decomposes p l ws) (parsed : List Piece) (suffix : List Nat) :
    parsedFrom .default p ws parsed suffix = .list (parsed.reverse ++ ws.map .segment) := by
  induction h generalizing parsed suffix with
  | nil => rw [parsedFrom, patternParseResult, map_nil, append_nil]
  | char hc h ih => rw [parsedFrom_char _ hc, ih]
  | wild hs h ih =>
    rw [parsedFrom_star, ih, map_cons]
    simp [newParsed]

/-- The suffix `r` is what is left of the string behind its last segment. -/
def RestBehind (p l : List Nat) (ws : List (List Nat)) (r : List Nat) : Prop :=
  ∃ p1 l1, p = p1 ++ r ∧ l = l1 ++ r ∧ Decomposes p1 l1 ws ∧ star ∉ r ∧
    (p1 = [] ∨ p1.getLast? = some star)

theorem parsedFrom_withSuffix (h : Decomposes p l ws) (parsed : List Piece) (suffix : List Nat) :
    ∃ p1 l1 r, parsedFrom .withSuffix p ws parsed suffix =
        .withSuffix (parsed.reverse ++ ws.map .segment)
          (if p1 = [] then suffix.reverse ++ r else r) ∧
      p = p1 ++ r ∧ l = l1 ++ r ∧ Decomposes p1 l1 ws ∧ star ∉ r ∧
      (p1 = [] ∨ p1.getLast? = some star) := by
  induction h generalizing parsed suffix with
  | nil =>
    refine ⟨[], [], [], ?_, rfl, rfl, .nil, not_mem_nil, .inl rfl⟩
    rw [parsedFrom, patternParseResult, map_nil, append_nil, if_pos rfl, append_nil]
  | @char c p l ws hc h ih =>
    obtain ⟨p1, l1, r, hparse, rfl, rfl, h1, hr, hlast⟩ := ih parsed (c :: suffix)
    rw [parsedFrom_char _ hc, hparse]
    rcases hlast with rfl | hlast
    · obtain ⟨rfl, rfl⟩ := decomposes_nil.mp h1
      refine ⟨[], [], c :: r, ?_, rfl, rfl, .nil, ?_, .inl rfl⟩
      · rw [if_pos rfl, if_pos rfl, reverse_cons, append_assoc, singleton_append]
      · exact not_mem_cons_of_ne_of_not_mem (Ne.symm hc) hr
    · have hne : p1 ≠ [] := by
        rintro rfl
        cases hlast
      refine ⟨c :: p1, c :: l1, r, ?_, rfl, rfl, .char hc h1, hr, .inr ?_⟩
      · rw [if_neg hne, if_neg (cons_ne_nil c p1)]
      · rw [getLast?_cons_of_ne_nil hne, hlast]
  | @wild s p l ws hs h ih =>
    obtain ⟨p1, l1, r, hparse, rfl, rfl, h1, hr, hlast⟩ := ih
      (.segment s :: newParsed .withSuffix parsed suffix) []
    rw [parsedFrom_star, hparse]
    refine ⟨star :: p1, s ++ l1, r, ?_, rfl, (append_assoc _ _ _).symm, .wild hs h1, hr,
      .inr ?_⟩
    · rw [if_neg (cons_ne_nil star p1)]
      simp [newParsed]
    · rcases hlast with rfl | hlast
      · rfl
      · rw [getLast?_cons, hlast]
        rfl

/-- The text of a piece in the string. -/
def Piece.text : Piece → List Nat
  | .segment s => s
  | .exact s => s

/-- The text of a piece in the pattern. -/
def Piece.pattern : Piece → List Nat
  | .segment _ => [star]
  | .exact s => s

def Piece.isExact : Piece → Bool
  | .segment _ => false
  | .exact _ => true

def Piece.segment? : Piece → Option (List Nat)
  | .segment s => some s
  | .exact _ => none

/-- **The pieces of the string**: literal parts and segments by turns, which make up
the string, and the pattern with its wildcards for the segments. -/
structure Expands (p l : List Nat) (ws : List (List Nat)) (pieces : List Piece) : Prop where
  text : (pieces.map Piece.text).flatten = l
  pattern : (pieces.map Piece.pattern).flatten = p
  segments : pieces.filterMap Piece.segment? = ws
  alternate : pieces.IsChain fun a b => a.isExact ≠ b.isExact
  nonempty : ∀ a ∈ pieces, a.text ≠ []

/-- The pieces behind the literal characters `suffix`. -/
def piecesOf : List Nat → List Nat → List (List Nat) → List Piece
  | suffix, [], _ => (withExact [] suffix).reverse
  | suffix, c :: p, ws =>
      if c = star then
        match ws with
        | [] => (withExact [] suffix).reverse
        | s :: ws => withExact [] suffix ++ .segment s :: piecesOf [] p ws
      else piecesOf (c :: suffix) p ws

theorem withExact_eq (parsed : List Piece) (suffix : List Nat) :
    withExact parsed suffix = withExact [] suffix ++ parsed := by
  rw [withExact, withExact]
  split <;> rfl

theorem withExact_reverse (suffix : List Nat) :
    (withExact [] suffix).reverse = withExact [] suffix := by
  rw [withExact]
  split <;> rfl

theorem piecesOf_star (suffix p s : List Nat) (ws : List (List Nat)) :
    piecesOf suffix (star :: p) (s :: ws) =
      withExact [] suffix ++ .segment s :: piecesOf [] p ws := if_pos rfl

theorem piecesOf_char (hc : c ≠ star) (suffix p : List Nat) (ws : List (List Nat)) :
    piecesOf suffix (c :: p) ws = piecesOf (c :: suffix) p ws := if_neg hc

theorem parsedFrom_expanded (h : Decomposes p l ws) (parsed : List Piece) (suffix : List Nat) :
    parsedFrom .expanded p ws parsed suffix = .list (parsed.reverse ++ piecesOf suffix p ws) := by
  induction h generalizing parsed suffix with
  | nil =>
    rw [parsedFrom, patternParseResult, withExact_eq, reverse_append, piecesOf]
  | char hc h ih => rw [parsedFrom_char _ hc, ih, piecesOf_char hc]
  | wild hs h ih =>
    rw [parsedFrom_star, ih, piecesOf_star, newParsed, if_pos rfl, withExact_eq,
      reverse_cons, reverse_append, withExact_reverse]
    simp

theorem text_withExact (suffix : List Nat) :
    ((withExact [] suffix).map Piece.text).flatten = suffix.reverse := by
  cases suffix <;> simp [withExact, Piece.text]

theorem pattern_withExact (suffix : List Nat) :
    ((withExact [] suffix).map Piece.pattern).flatten = suffix.reverse := by
  cases suffix <;> simp [withExact, Piece.pattern]

theorem segments_withExact (suffix : List Nat) :
    (withExact [] suffix).filterMap Piece.segment? = [] := by
  cases suffix <;> rfl

/-- The first piece is literal unless the pattern starts with a wildcard. -/
theorem head_piecesOf (h : Decomposes p l ws) (suffix : List Nat)
    (ha : (piecesOf suffix p ws).head? = some a) :
    a.isExact = true ↔ suffix ≠ [] ∨ p.head? ≠ some star := by
  induction h generalizing suffix with
  | nil =>
    cases suffix with
    | nil => cases ha
    | cons c suffix =>
      cases ha
      simp [Piece.isExact]
  | @char c p l ws hc h ih =>
    rw [piecesOf_char hc] at ha
    rw [ih (c :: suffix) ha]
    simp [hc]
  | @wild s p l ws hs h ih =>
    rw [piecesOf_star] at ha
    cases suffix with
    | _ =>
      cases ha
      simp [Piece.isExact]

/-- The pieces have the string, the pattern and the segments. -/
theorem parts_piecesOf (h : Decomposes p l ws) (suffix : List Nat) :
    ((piecesOf suffix p ws).map Piece.text).flatten = suffix.reverse ++ l ∧
      ((piecesOf suffix p ws).map Piece.pattern).flatten = suffix.reverse ++ p ∧
      (piecesOf suffix p ws).filterMap Piece.segment? = ws := by
  induction h generalizing suffix with
  | nil =>
    rw [piecesOf, withExact_reverse]
    simp [text_withExact, pattern_withExact, segments_withExact]
  | char hc h ih => simpa [piecesOf_char hc] using ih (_ :: suffix)
  | wild hs h ih =>
    rw [piecesOf_star]
    simp [text_withExact, pattern_withExact, segments_withExact, ih [], Piece.text, Piece.pattern,
      Piece.segment?]

theorem isChain_withExact
    (h : (Piece.segment s :: pieces).IsChain fun a b => a.isExact ≠ b.isExact) :
    (withExact [] suffix ++ .segment s :: pieces).IsChain fun a b => a.isExact ≠ b.isExact := by
  cases suffix with
  | nil => exact h
  | cons c suffix => exact isChain_cons_cons.mpr ⟨Bool.false_ne_true.symm, h⟩

theorem alternate_piecesOf (h : Decomposes p l ws) (hp : WellFormed p) (suffix : List Nat) :
    (piecesOf suffix p ws).IsChain fun a b => a.isExact ≠ b.isExact := by
  induction h generalizing suffix with
  | nil =>
    rw [piecesOf, withExact_reverse]
    cases suffix with
    | nil => exact .nil
    | cons c suffix => exact .singleton _
  | char hc h ih =>
    rw [piecesOf_char hc]
    exact ih hp.tail _
  | @wild s p l ws hs h ih =>
    rw [piecesOf_star]
    refine isChain_withExact (isChain_cons.mpr ⟨fun b hb => ?_, ih hp.tail []⟩)
    -- no wildcard follows, so the next piece is literal
    have hexact : b.isExact = true := by
      refine (head_piecesOf h [] hb).mpr (.inr fun hstar => ?_)
      cases p with
      | nil => cases hstar
      | cons c p =>
        cases hstar
        exact hp.ne_star rfl
    rw [hexact]
    exact Bool.false_ne_true

theorem nonempty_piecesOf (h : Decomposes p l ws) (suffix : List Nat) :
    ∀ a ∈ piecesOf suffix p ws, a.text ≠ [] := by
  have hexact : ∀ suffix, ∀ a ∈ withExact [] suffix, a.text ≠ [] := by
    intro suffix a ha
    cases suffix with
    | nil => cases ha
    | cons c suffix =>
      rw [withExact, if_pos (cons_ne_nil c suffix), mem_singleton] at ha
      rw [ha, Piece.text]
      simp
  induction h generalizing suffix with
  | nil =>
    rw [piecesOf, withExact_reverse]
    exact hexact suffix
  | char hc h ih =>
    rw [piecesOf_char hc]
    exact ih _
  | wild hs h ih =>
    rw [piecesOf_star]
    intro a ha
    rcases mem_append.mp ha with ha | ha
    · exact hexact suffix a ha
    · rcases mem_cons.mp ha with rfl | ha
      · exact hs
      · exact ih [] a ha

theorem expands (h : Decomposes p l ws) (hp : WellFormed p) :
    Expands p l ws (piecesOf [] p ws) where
  text := (parts_piecesOf h []).1
  pattern := (parts_piecesOf h []).2.1
  segments := (parts_piecesOf h []).2.2
  alternate := alternate_piecesOf h hp []
  nonempty := nonempty_piecesOf h []

/-! ## filling -/

section Fill

variable (wild : Nat → Prop) [DecidablePred wild]

theorem fillInsert_wild (hc : wild c) (p nameOut s : List Nat) (ws : List (List Nat))
    (strict : Bool) : fillInsert wild (c :: p) nameOut (s :: ws) strict =
      fillInsert wild p (s.reverse ++ nameOut) ws strict := if_pos hc

theorem fillInsert_char (hc : ¬ wild c) (p nameOut : List Nat) (ws : List (List Nat))
    (strict : Bool) : fillInsert wild (c :: p) nameOut ws strict =
      fillInsert wild p (c :: nameOut) ws strict := by
  cases ws <;> exact if_neg hc

end Fill

/-- The segments put into the pattern give the string. -/
theorem patternFill_of_decomposes (h : Decomposes p l ws) : patternFill p ws = .ok l := by
  have hinsert : ∀ nameOut, fillInsert (· = star) p nameOut ws true =
      .ok (nameOut.reverse ++ l) := by
    induction h with
    | nil =>
      intro nameOut
      rw [fillInsert, append_nil]
    | char hc h ih =>
      intro nameOut
      rw [fillInsert_char (· = star) hc, ih, reverse_cons, append_assoc]
      rfl
    | wild hs h ih =>
      intro nameOut
      rw [fillInsert_wild (· = star) rfl, ih, reverse_append, reverse_reverse,
        append_assoc]
  exact hinsert []

/-! ## the parse of a pattern -/

/-- **A parse finds a shortest decomposition**: every option answers `error` exactly when the string
does not decompose along the pattern; otherwise they answer the shortest
decomposition, which fills the pattern to the string, with the rest behind it, and
with the literal parts in between. -/
structure ParsesPattern (p l : List Nat) : Prop where
  error_iff : ∀ option, patternParseOption p l option = .ok none ↔ ¬ ∃ ws, Decomposes p l ws
  parameters : (∃ ws, Decomposes p l ws) → ∃ ws, Shortest p l ws ∧
    patternParse p l = .ok (some (.list (ws.map .segment))) ∧ patternFill p ws = .ok l ∧
    (∃ r, patternParseOption p l .withSuffix = .ok (some (.withSuffix (ws.map .segment) r)) ∧
      RestBehind p l ws r) ∧
    ∃ pieces, patternParseOption p l .expanded = .ok (some (.list pieces)) ∧
      Expands p l ws pieces

/-- **Pattern parse**, for every pattern without adjacent wildcards and every string
without wildcards. -/
theorem parsesPattern {p l : List Nat} (hp : WellFormed p) (hl : star ∉ l) : ParsesPattern p l := by
  rcases parsesShortest p l hp hl with ⟨hnone, hparse⟩ | ⟨ws, hshort, hparse⟩
  · exact ⟨fun option => iff_of_true (hparse _ _ _) hnone, fun h => absurd h hnone⟩
  have hws := hshort.1
  refine ⟨fun option => iff_of_false (fun h => ?_) (not_not.mpr ⟨ws, hws⟩), fun _ => ?_⟩
  · rw [patternParseOption, hparse] at h
    cases h
  obtain ⟨p1, l1, r, hsuffix, hrest⟩ := parsedFrom_withSuffix hws [] []
  refine ⟨ws, hshort, ?_, patternFill_of_decomposes hws, ⟨r, ?_, p1, l1, hrest⟩,
    piecesOf [] p ws, ?_, expands hws hp⟩
  · rw [patternParse, patternParseOption, hparse, parsedFrom_default hws]
    rfl
  · rw [patternParseOption, hparse, hsuffix, reverse_nil, nil_append,
      reverse_nil, nil_append, ite_self]
  · rw [patternParseOption, hparse, parsedFrom_expanded hws]
    rfl

/-- "a*b*" and the string "axbbyb". -/
theorem parsesPattern_backtracking : ParsesPattern [97, 42, 98, 42] [97, 120, 98, 98, 121, 98] :=
  parsesPattern (by decide) (by decide)

/-! ## the matcher -/

theorem matches_iff_decomposes : Matches p l ↔ ∃ ws, Decomposes p l ws := by
  constructor
  · intro h
    induction h with
    | nil => exact ⟨[], .nil⟩
    | char hc h ih => exact ih.imp fun ws hws => .char hc hws
    | wild hs h ih =>
      obtain ⟨ws, hws⟩ := ih
      exact ⟨_, .wild hs hws⟩
  · rintro ⟨ws, hws⟩
    induction hws with
    | nil => exact .nil
    | char hc h ih => exact .char hc ih
    | wild hs h ih => exact .wild hs ih

/-- `pattern_parse/2` succeeds exactly for the strings that the pattern matches. -/
theorem patternParse_spec (hp : WellFormed p) (hl : star ∉ l) :
    ∃ o, patternParse p l = .ok o ∧ (o.isSome = true ↔ Matches p l) := by
  rw [matches_iff_decomposes]
  rcases parsesShortest p l hp hl with ⟨hnone, hparse⟩ | ⟨ws, hshort, hparse⟩
  · exact ⟨none, hparse _ _ _, iff_of_false Bool.false_ne_true hnone⟩
  · exact ⟨_, hparse _ _ _, iff_of_true rfl ⟨ws, hshort.1⟩⟩

/-- **The matcher agrees with the parse**: `wildcard_match_lists/2` is `true` exactly where
`pattern_parse/2` is not `error`, for every pattern without adjacent wildcards and every string
without wildcards. -/
theorem wildcardMatchLists_agrees {p l : List Nat} (hp : WellFormed p) (hl : star ∉ l) :
    ∃ o, patternParse p l = .ok o ∧ wildcardMatchLists p l = .ok o.isSome := by
  obtain ⟨o, hparse, ho⟩ := patternParse_spec hp hl
  obtain ⟨b, hmatch, hb⟩ := wildcardMatchLists_spec p l hp hl
  refine ⟨o, hparse, hmatch.trans (congrArg _ ?_)⟩
  rw [Bool.eq_iff_iff, hb, ho]

/-- "a*b*" and the string "axbbyb", which ends in the last wildcard. -/
theorem wildcardMatchLists_agrees_backtracking :
    ∃ o, patternParse [97, 42, 98, 42] [97, 120, 98, 98, 121, 98] = .ok o ∧
      wildcardMatchLists [97, 42, 98, 42] [97, 120, 98, 98, 121, 98] = .ok o.isSome :=
  wildcardMatchLists_agrees (by decide) (by decide)

end CloudI.Trie
