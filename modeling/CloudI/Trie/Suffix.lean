import CloudI.Trie.Pattern2Spec

/-!
# Trie.Suffix

`pattern_suffix/2` and `pattern2_suffix/2`, which return what is behind the part of a string that
a pattern accepts.  They are recursions of their own, which stop where the pattern ends, and agree
with the parses of the beginnings of the string.
-/

namespace CloudI.Trie

open List

/-- What is behind a pattern; `none` is `error`. -/
abbrev Rest := Except Exit (Option (List Nat))

/-- `pattern_suffix_pattern/3` and `pattern2_suffix_pattern1/3`, with the scan of
`pattern_suffix_element/2` in the same recursion.  `suffix` is that of the pattern behind `c`. -/
def suffixPattern (wild : Nat → Prop) [DecidablePred wild] (suffix : List Nat → Rest) (c : Nat) :
    List Nat → Rest
  | [] => .ok none
  | x :: l =>
      if x = c then do
        match ← suffix l with
        | some success => return some success
        | none => suffixPattern wild suffix c l
      else if wild x then .error .badarg
      else suffixPattern wild suffix c l

def patternSuffix : List Nat → List Nat → Rest
  | [], l => .ok (some l)
  | _ :: _, [] => .ok none
  | [c], h :: t =>
      if h = star then .error .badarg
      else if c = star then .ok (some [])
      else if c = h then patternSuffix [] t
      else .ok none
  | c :: c1 :: pattern, h :: t =>
      if h = star then .error .badarg
      else if c = star then
        if c1 = star then .error .badarg
        else suffixPattern (· = star) (patternSuffix pattern) c1 t
      else if c = h then patternSuffix (c1 :: pattern) t
      else .ok none

def pattern2SuffixPattern0 (suffix : List Nat → Rest) (c : Nat) : List Nat → Rest
  | [] => .ok none
  | x :: l =>
      if x = c then suffix l
      else if Wild x then .error .badarg
      else pattern2SuffixPattern0 suffix c l

def pattern2Suffix : List Nat → List Nat → Rest
  | [], l => .ok (some l)
  | [c], [] => if c = quest then .error .badarg else .ok none
  | [c], h :: t =>
      if Wild h then .error .badarg
      else if c = star then .ok (some [])
      else if c = quest then .error .badarg
      else if c = h then pattern2Suffix [] t
      else .ok none
  | _ :: _ :: _, [] => .ok none
  | c0 :: c1 :: pattern, h :: t =>
      if Wild h then .error .badarg
      else if Wild c0 ∧ Wild c1 then .error .badarg
      else if c0 = quest then
        if c1 = h then .ok none
        else pattern2SuffixPattern0 (pattern2Suffix pattern) c1 t
      else if c0 = star then suffixPattern Wild (pattern2Suffix pattern) c1 t
      else if c0 = h then pattern2Suffix (c1 :: pattern) t
      else .ok none

/-! ## a split -/

/-- What is left is behind an accepted beginning of the string, or no beginning is accepted. -/
def Splits (r : Rest) (A : List Nat → Prop) (l : List Nat) : Prop :=
  (∃ m s, r = .ok (some s) ∧ l = m ++ s ∧ A m) ∨ r = .ok none ∧ ∀ m, m <+: l → ¬ A m

section Splits

variable {wild : Nat → Prop} [DecidablePred wild] {f : List Nat → Rest} {r : Rest}
  {A B : List Nat → Prop} {l p seen : List Nat} {x c : Nat}

theorem splits_nil (hnil : ¬ B []) : Splits (.ok none) B [] :=
  .inr ⟨rfl, fun _ hm => prefix_nil.mp hm ▸ hnil⟩

theorem splits_all (h : A l) : Splits (.ok (some [])) A l :=
  .inl ⟨l, [], rfl, (append_nil l).symm, h⟩

theorem Splits.cons (h : Splits r A l) (hnil : ¬ B [])
    (hcons : ∀ m, m <+: l → (B (x :: m) ↔ A m)) : Splits r B (x :: l) := by
  rcases h with ⟨m, s, hr, rfl, hm⟩ | ⟨hr, hnone⟩
  · exact .inl ⟨x :: m, s, hr, rfl, (hcons m (prefix_append m s)).mpr hm⟩
  · refine .inr ⟨hr, fun m hm hB => ?_⟩
    rcases prefix_cons_iff.mp hm with rfl | ⟨m', rfl, hm'⟩
    · exact hnil hB
    · exact hnone m' hm' ((hcons m' hm').mp hB)

theorem Splits.none (hnil : ¬ B []) (hcons : ∀ m, ¬ B (x :: m)) : Splits (.ok none) B (x :: l) :=
  Splits.cons (A := fun _ => False) (.inr ⟨rfl, fun _ _ => id⟩) hnil fun m _ =>
    iff_false_intro (hcons m)

/-- A literal character of the pattern. -/
theorem Splits.char (h : c = x → Splits r A l) (hnil : ¬ B [])
    (hchar : ∀ m, B (x :: m) ↔ c = x ∧ A m) :
    Splits (if c = x then r else .ok Option.none) B (x :: l) := by
  by_cases hcx : c = x
  · rw [if_pos hcx]
    exact (h hcx).cons hnil fun m _ => (hchar m).trans (and_iff_right hcx)
  · rw [if_neg hcx]
    exact .none hnil fun m hB => hcx ((hchar m).mp hB).1

/-- **The character behind a wildcard**: at a place from which nothing is split, no beginning that
ends its segment there is accepted. -/
theorem splits_pattern (hf : ∀ l, (∀ x ∈ l, ¬ wild x) → Splits (f l) A l) (hnil : ¬ B [])
    (hcons : ∀ x m, B (x :: m) ↔ (c = x ∧ A m) ∨ B m) (hl : ∀ x ∈ l, ¬ wild x) :
    Splits (suffixPattern wild f c l) B l := by
  induction l with
  | nil => exact splits_nil hnil
  | cons x l ih =>
    obtain ⟨hx, hl⟩ := forall_mem_cons.mp hl
    rw [suffixPattern]
    by_cases hxc : x = c
    · rw [if_pos hxc]
      rcases hf l hl with ⟨m, s, hr, rfl, hm⟩ | ⟨hr, hnone⟩
      · rw [hr]
        exact .inl ⟨x :: m, s, rfl, rfl, (hcons x m).mpr (.inl ⟨hxc.symm, hm⟩)⟩
      · rw [hr]
        exact (ih hl).cons hnil fun m hm =>
          (hcons x m).trans (or_iff_right fun h => hnone m hm h.2)
    · rw [if_neg hxc, if_neg hx]
      exact (ih hl).cons hnil fun m _ => (hcons x m).trans (or_iff_right fun h => hxc h.1.symm)

theorem splits_pattern0 (hf : ∀ l, Free l → Splits (f l) (Matches2 p) l) (hc : c ∉ seen)
    (hl : Free l) : Splits (pattern2SuffixPattern0 f c l) (Gap seen (c :: p)) l := by
  induction l generalizing seen with
  | nil => exact splits_nil not_gap_nil
  | cons x l ih =>
    rw [free_cons] at hl
    rw [pattern2SuffixPattern0]
    by_cases hx : x = c
    · subst hx
      rw [if_pos rfl]
      exact (hf l hl.2).cons not_gap_nil fun m _ => gap_here hc
    · rw [if_neg hx, if_neg hl.1]
      exact (ih (not_mem_cons_of_ne_of_not_mem (Ne.symm hx) hc) hl.2).cons not_gap_nil
        fun m _ => gap_behind hx

end Splits

/-! ## what is split -/

theorem patternSuffix_spec : ∀ p l : List Nat, WellFormed p → star ∉ l →
    Splits (patternSuffix p l) (Matches p) l
  | [], l, _, _ => by
      rw [patternSuffix]
      exact .inl ⟨[], l, rfl, rfl, .nil⟩
  | c :: p, [], _, _ => by
      rw [patternSuffix]
      exact splits_nil (by simp)
  | c :: p, x :: l, hp, hl => by
      obtain ⟨hx, hl⟩ := ne_and_not_mem_of_not_mem_cons hl
      by_cases hc : c = star
      · subst hc
        cases p with
        | nil =>
          rw [patternSuffix, if_neg (Ne.symm hx), if_pos rfl]
          exact splits_all (matches_star.mpr ⟨l, [], (append_nil l).symm, .nil⟩)
        | cons c1 p =>
          rw [patternSuffix, if_neg (Ne.symm hx), if_pos rfl, if_neg hp.ne_star]
          have hlater : Splits (suffixPattern (· = star) (patternSuffix p) c1 l) (Later (c1 :: p)) l :=
            splits_pattern (A := Matches p) (fun l hl => patternSuffix_spec p l hp.tail.tail
              fun hmem => hl star hmem rfl) (by simp [later_nil])
              (fun y m => by rw [later_cons, matches_char hp.ne_star]) fun y hy h => hl (h ▸ hy)
          exact hlater.cons (by simp) fun m _ => matches_star
      · have hchar : patternSuffix (c :: p) (x :: l) =
            if c = x then patternSuffix p l else .ok none := by
          cases p <;> simp only [patternSuffix, if_neg (Ne.symm hx), if_neg hc]
        rw [hchar]
        exact .char (fun _ => patternSuffix_spec p l hp.tail hl) (by simp) fun m => matches_char hc

theorem pattern2Suffix_spec : ∀ p l : List Nat, WellFormed2 p → Free l →
    Splits (pattern2Suffix p l) (Matches2 p) l
  | [], l, _, _ => by
      rw [pattern2Suffix]
      exact .inl ⟨[], l, rfl, rfl, .nil⟩
  | [c], [], hp, _ => by
      rw [pattern2Suffix, if_neg hp.ne_quest]
      exact splits_nil (by simp)
  | c :: c1 :: p, [], _, _ => splits_nil (by simp)
  | [c], x :: l, hp, hl => by
      rw [free_cons] at hl
      rw [pattern2Suffix, if_neg hl.1, if_neg hp.ne_quest]
      by_cases hstar : c = star
      · subst hstar
        rw [if_pos rfl]
        exact splits_all (matches2_star.mpr ⟨l, [], (append_nil l).symm, .nil⟩)
      · rw [if_neg hstar]
        exact .char (fun _ => pattern2Suffix_spec [] l hp.tail hl.2) (by simp) fun m =>
          matches2_char (not_or.mpr ⟨hstar, hp.ne_quest⟩)
  | c :: c1 :: p, x :: l, hp, hl => by
      rw [free_cons] at hl
      have hrest : ∀ l, Free l → Splits (pattern2Suffix p l) (Matches2 p) l :=
        fun l hl => pattern2Suffix_spec p l hp.tail.tail hl
      rw [pattern2Suffix, if_neg hl.1, if_neg fun h => hp.not_wild h.1 h.2]
      by_cases hquest : c = quest
      · subst hquest
        rw [if_pos rfl]
        by_cases hx : c1 = x
        · rw [if_pos hx]
          refine .none (by simp) fun m h => ?_
          obtain ⟨c', p', s, r, hpc, -, hseen, -⟩ := matches2_quest.mp h
          cases hpc
          exact hseen (hx ▸ mem_cons_self)
        · rw [if_neg hx]
          exact (splits_pattern0 hrest (by simpa using hx) hl.2).cons (by simp) fun m _ =>
            matches2_quest
      rw [if_neg hquest]
      by_cases hstar : c = star
      · subst hstar
        rw [if_pos rfl]
        refine (splits_pattern hrest (by simp [later2_nil]) (fun y m => ?_) hl.2).cons (by simp)
          fun m _ => matches2_star
        rw [later2_cons, matches2_char (hp.not_wild (.inl rfl))]
      · rw [if_neg hstar]
        exact .char (fun _ => pattern2Suffix_spec (c1 :: p) l hp.tail hl.2) (by simp) fun m =>
          matches2_char (not_or.mpr ⟨hstar, hquest⟩)

/-! ## the parses -/

/-- **A suffix agrees with a parse**: it is what is behind a beginning that is parsed, and it is
`error` only where no beginning is. -/
structure SplitsAsParsed {α : Type} (parse : List Nat → Except Exit (Option α)) (l : List Nat)
    (r : Rest) : Prop where
  answers : ∃ o, r = .ok o
  suffix : ∀ s, r = .ok (some s) → ∃ m, l = m ++ s ∧ ∃ parsed, parse m = .ok (some parsed)
  error : r = .ok none → ∀ m, m <+: l → parse m = .ok none

theorem Splits.asParsed {α : Type} {parse : List Nat → Except Exit (Option α)}
    (h : Splits r A l) (hparse : ∀ m, m <+: l → ∃ o, parse m = .ok o ∧ (o.isSome = true ↔ A m)) :
    SplitsAsParsed parse l r := by
  rcases h with ⟨m, s, rfl, rfl, hm⟩ | ⟨rfl, hnone⟩
  · refine ⟨⟨_, rfl⟩, ?_, nofun⟩
    rintro _ ⟨⟩
    obtain ⟨o, hparse, ho⟩ := hparse m (prefix_append m s)
    obtain ⟨parsed, rfl⟩ := Option.isSome_iff_exists.mp (ho.mpr hm)
    exact ⟨m, rfl, parsed, hparse⟩
  · refine ⟨⟨_, rfl⟩, nofun, fun _ m hm => ?_⟩
    obtain ⟨o, hparse, ho⟩ := hparse m hm
    rw [hparse, Option.not_isSome_iff_eq_none.mp (mt ho.mp (hnone m hm))]

/-- **A suffix is what a parse leaves**, with one wildcard and with two, for every well-formed
pattern and every string without wildcards. -/
theorem suffixes_agree (p l : List Nat) :
    (WellFormed p → star ∉ l → SplitsAsParsed (patternParse p) l (patternSuffix p l)) ∧
      (WellFormed2 p → Free l → SplitsAsParsed (pattern2Parse p) l (pattern2Suffix p l)) := by
  constructor
  · intro hp hl
    exact (patternSuffix_spec p l hp hl).asParsed fun m hm =>
      patternParse_spec hp fun hmem => hl (hm.subset hmem)
  · intro hp hl
    exact (pattern2Suffix_spec p l hp hl).asParsed fun m hm =>
      pattern2Parse_spec hp fun x hx => hl x (hm.subset hx)

/-- "a*b" and the string "axbyb". -/
theorem suffixes_agree_rest : SplitsAsParsed (patternParse [97, 42, 98]) [97, 120, 98, 121, 98]
        (patternSuffix [97, 42, 98] [97, 120, 98, 121, 98]) ∧
      SplitsAsParsed (pattern2Parse [97, 42, 98]) [97, 120, 98, 121, 98]
        (pattern2Suffix [97, 42, 98] [97, 120, 98, 121, 98]) :=
  ⟨(suffixes_agree _ _).1 (by decide) (by decide), (suffixes_agree _ _).2 (by decide) (by decide)⟩

end CloudI.Trie
