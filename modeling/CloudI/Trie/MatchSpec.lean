import CloudI.Trie.Match

/-!
# Trie.MatchSpec

What `find_match/2` finds.  `Matches` says when a pattern matches a string.  The
search answers a stored pattern that matches, if there is one, with one
exception: a pattern that ends with one character behind a wildcard is not
found when it is the beginning of another stored pattern (`Masked`), because
the search with no characters left answers `error` at a node.
-/

namespace CloudI.Trie

open List

variable {V : Type}

/-! ## patterns -/

/-- **A pattern matches a string**: every wildcard stands for a nonempty segment. -/
inductive Matches : List Nat → List Nat → Prop
  | nil : Matches [] []
  | char (hc : c ≠ star) (h : Matches p l) : Matches (c :: p) (c :: l)
  | wild (hs : s ≠ []) (h : Matches p l) : Matches (star :: p) (s ++ l)

/-- No two wildcards are adjacent. -/
def WellFormed (p : List Nat) : Prop := ¬ [star, star] <:+: p

instance (p : List Nat) : Decidable (WellFormed p) := inferInstanceAs (Decidable (¬ _))

theorem WellFormed.of_append (h : WellFormed (q ++ p)) : WellFormed p := fun hp =>
  h (hp.trans (suffix_append q p).isInfix)

theorem WellFormed.tail (h : WellFormed (c :: p)) : WellFormed p :=
  WellFormed.of_append (q := [c]) h

theorem WellFormed.ne_star (h : WellFormed (star :: c :: p)) : c ≠ star := by
  intro hc
  subst hc
  exact h (prefix_append [star, star] p).isInfix

@[simp] theorem matches_nil : Matches [] l ↔ l = [] := by
  constructor
  · intro h
    cases h
    rfl
  · intro h
    exact h ▸ .nil

@[simp] theorem matches_nil_right : Matches p [] ↔ p = [] := by
  constructor
  · intro h
    generalize hl : ([] : List Nat) = l at h
    cases h with
    | nil => rfl
    | char => cases hl
    | wild hs h => exact absurd (append_eq_nil_iff.mp hl.symm).1 hs
  · intro h
    exact h ▸ .nil

theorem matches_char (hc : c ≠ star) : Matches (c :: p) (x :: l) ↔ c = x ∧ Matches p l := by
  constructor
  · intro h
    generalize hl : x :: l = l' at h
    cases h with
    | char _ h =>
      cases hl
      exact ⟨rfl, h⟩
    | wild => exact absurd rfl hc
  · rintro ⟨rfl, h⟩
    exact .char hc h

/-- The pattern matches an end of the string. -/
def Later (p l : List Nat) : Prop := ∃ s r, l = s ++ r ∧ Matches p r

theorem matches_star : Matches (star :: p) (x :: l) ↔ Later p l := by
  constructor
  · intro h
    generalize hl : x :: l = l' at h
    cases h with
    | char hc => exact absurd rfl hc
    | @wild s _ r hs h =>
      cases s with
      | nil => exact absurd rfl hs
      | cons y s =>
        cases hl
        exact ⟨s, r, rfl, h⟩
  · rintro ⟨s, r, rfl, h⟩
    exact .wild (cons_ne_nil x s) h

theorem exists_rest_nil {M : List Nat → Prop} : (∃ s r, [] = s ++ r ∧ M r) ↔ M [] := by
  constructor
  · rintro ⟨s, r, hl, h⟩
    exact (append_eq_nil_iff.mp hl.symm).2 ▸ h
  · exact fun h => ⟨[], [], rfl, h⟩

/-- An end of a string is the string, or an end of what is behind its first character. -/
theorem exists_rest_cons {M : List Nat → Prop} :
    (∃ s r, x :: l = s ++ r ∧ M r) ↔ M (x :: l) ∨ ∃ s r, l = s ++ r ∧ M r := by
  constructor
  · rintro ⟨s, r, hl, h⟩
    cases s with
    | nil =>
      rw [nil_append] at hl
      exact .inl (hl ▸ h)
    | cons y s =>
      cases hl
      exact .inr ⟨s, r, rfl, h⟩
  · rintro (h | ⟨s, r, rfl, h⟩)
    · exact ⟨[], x :: l, rfl, h⟩
    · exact ⟨x :: s, r, rfl, h⟩

theorem later_nil : Later p [] ↔ p = [] := exists_rest_nil.trans matches_nil_right

theorem later_cons : Later p (x :: l) ↔ Matches p (x :: l) ∨ Later p l := exists_rest_cons

/-! ## wildcard_match_lists -/

/-- The answer is whether `P` holds. -/
def Decides (r : Except Exit Bool) (P : Prop) : Prop := ∃ b, r = .ok b ∧ (b = true ↔ P)

theorem decides_valid (hl : star ∉ l) (b : Bool) : wildcardMatchListsValid l b = .ok b := by
  induction l with
  | nil => rfl
  | cons x l ih =>
    rw [mem_cons, not_or] at hl
    rw [wildcardMatchListsValid, if_neg (Ne.symm hl.1), ih hl.2]

theorem decides_pattern (hc : c ≠ star) (hf : ∀ l, star ∉ l → Decides (f l) (Matches p l))
    (hl : star ∉ l) : Decides (wildcardMatchListsPattern f c l) (Later (c :: p) l) := by
  induction l with
  | nil => exact ⟨false, rfl, by simp [later_nil]⟩
  | cons x l ih =>
    rw [mem_cons, not_or] at hl
    obtain ⟨b', hrest, hb'⟩ := ih hl.2
    rw [wildcardMatchListsPattern, if_neg (Ne.symm hl.1), later_cons, matches_char hc]
    by_cases hx : x = c
    · obtain ⟨b, hmatch, hb⟩ := hf l hl.2
      rw [if_pos hx, hmatch, hrest]
      cases b with
      | true => exact ⟨true, rfl, by simp [hx, ← hb]⟩
      | false => exact ⟨b', rfl, by simp [hb', ← hb]⟩
    · rw [if_neg hx, hrest]
      exact ⟨b', rfl, by simp [hb', Ne.symm hx]⟩

/-- `wildcard_match_lists/2` decides whether a pattern matches. -/
theorem wildcardMatchLists_spec : ∀ (p l : List Nat), WellFormed p → star ∉ l →
    Decides (wildcardMatchLists p l) (Matches p l)
  | [], [], _, _ => ⟨true, rfl, by simp⟩
  | [], x :: l, _, hl => by
      rw [wildcardMatchLists, decides_valid hl]
      exact ⟨false, rfl, by simp⟩
  | c :: p, [], _, _ => by
      rw [wildcardMatchLists]
      exact ⟨false, rfl, by simp⟩
  | [c], x :: l, hp, hl => by
      rw [mem_cons, not_or] at hl
      rw [wildcardMatchLists, if_neg (Ne.symm hl.1)]
      by_cases hc : c = star
      · subst hc
        rw [if_pos rfl, decides_valid hl.2, matches_star]
        exact ⟨true, rfl, by simp [Later]⟩
      · rw [if_neg hc, matches_char hc]
        by_cases hx : c = x
        · rw [if_pos hx]
          obtain ⟨b, hb, hiff⟩ := wildcardMatchLists_spec [] l hp.tail hl.2
          exact ⟨b, hb, by rw [hiff]; simp [hx]⟩
        · rw [if_neg hx, decides_valid (by simp [hl.1, hl.2])]
          exact ⟨false, rfl, by simp [hx]⟩
  | c :: c1 :: p, x :: l, hp, hl => by
      rw [mem_cons, not_or] at hl
      rw [wildcardMatchLists, if_neg (Ne.symm hl.1)]
      by_cases hc : c = star
      · subst hc
        rw [if_pos rfl, if_neg hp.ne_star, matches_star]
        exact decides_pattern hp.ne_star
          (fun l hl => wildcardMatchLists_spec p l hp.tail.tail hl) hl.2
      · rw [if_neg hc, matches_char hc]
        by_cases hx : c = x
        · rw [if_pos hx]
          obtain ⟨b, hb, hiff⟩ := wildcardMatchLists_spec (c1 :: p) l hp.tail hl.2
          exact ⟨b, hb, by rw [hiff]; simp [hx]⟩
        · rw [if_neg hx, decides_valid (by simp [hl.1, hl.2])]
          exact ⟨false, rfl, by simp [hx]⟩

/-! ## what the search can reach -/

/-- **What a search answers**: a key and a value with `F`, or `error` when there are none. -/
def Answers (r : Found V) (F : List Nat → V → Prop) : Prop :=
  (∃ p v, r = .ok (some (p, v)) ∧ F p v) ∨ (r = .ok none ∧ ∀ p v, ¬ F p v)

variable {F G : List Nat → V → Prop} {w : Option V} {data : List (Element V)} {key s : List Nat}

theorem Answers.congr (h : Answers r F) (hFG : ∀ p v, F p v ↔ G p v) : Answers r G := by
  have heq : F = G := funext fun p => funext fun v => propext (hFG p v)
  exact heq ▸ h

theorem Answers.none (h : ∀ p v, ¬ F p v) : Answers (.ok none) F :=
  .inr ⟨rfl, h⟩

theorem Answers.some (h : F p v) : Answers (.ok (some (p, v))) F :=
  .inl ⟨p, v, rfl, h⟩

theorem Answers.orNext {next : Found V} (h1 : Answers r F) (h2 : Answers next G) :
    Answers (orNext next r) fun p v => F p v ∨ G p v := by
  rcases h1 with ⟨p, v, rfl, hF⟩ | ⟨rfl, hF⟩
  · exact .inl ⟨p, v, rfl, .inl hF⟩
  · rcases h2 with ⟨p, v, rfl, hG⟩ | ⟨rfl, hG⟩
    · exact .inl ⟨p, v, rfl, .inr hG⟩
    · exact .inr ⟨rfl, fun p v h => h.elim (hF p v) (hG p v)⟩

/-- The pattern ends with one character behind a wildcard. -/
def EndsBehindWildcard (p : List Nat) : Prop := ∃ q c, c ≠ star ∧ p = q ++ [star, c]

/-- **The patterns that are not found**: `p` ends with one character behind a
wildcard, and the stored keys `m` have a longer one that starts with it. -/
def Masked (m : List Nat → Option V) (p : List Nat) : Prop :=
  EndsBehindWildcard p ∧ ∃ k v, k ≠ [] ∧ m (p ++ k) = some v

/-- `Masked` for the rest `k` of a key in the element `e`, below the characters `key`. -/
def MaskedIn (key : List Nat) (e : Element V) (k : List Nat) : Prop :=
  EndsBehindWildcard (key.reverse ++ k) ∧ ∃ k' v, k' ≠ [] ∧ meaning (k ++ k') e = some v

/-- A key of the element that matches `l`. -/
def Reaches (key : List Nat) (e : Element V) (l : List Nat) (p : List Nat) (v : V) : Prop :=
  ∃ k, p = key.reverse ++ k ∧ meaning k e = some v ∧ Matches k l ∧ ¬ MaskedIn key e k

/-- A key of the element that matches an end of `l`. -/
def ReachesLater (key : List Nat) (e : Element V) (l : List Nat) (p : List Nat) (v : V) : Prop :=
  ∃ k, p = key.reverse ++ k ∧ meaning k e = some v ∧ Later k l ∧ ¬ MaskedIn key e k

/-- Every key below the characters `key` is a well-formed pattern. -/
def PatternsIn (key : List Nat) (e : Element V) : Prop :=
  ∀ k v, meaning k e = some v → WellFormed (key.reverse ++ k)

theorem not_maskedIn_str (key s : List Nat) (v : Option V) : ¬ MaskedIn key (.str s, v) s := by
  rintro ⟨-, k, x, hk, hx⟩
  rw [meaning_str] at hx
  split at hx
  next heq => exact hk (by simpa using heq)
  next => cases hx

theorem meaning_of_child (h : child c i0 i1 data = some e) (k : List Nat) (w : Option V) :
    meaning (c :: k) (.node i0 i1 data, w) = meaning k e := by
  rw [meaning_child, h, Option.bind_some]

theorem maskedIn_child (h : child c i0 i1 data = some e) (w : Option V) :
    MaskedIn key (.node i0 i1 data, w) (c :: k) ↔ MaskedIn (c :: key) e k := by
  rw [MaskedIn, MaskedIn]
  simp only [cons_append, meaning_of_child h]
  simp

theorem PatternsIn.child (h : PatternsIn key (.node i0 i1 data, w))
    (hchild : child c i0 i1 data = some e) : PatternsIn (c :: key) (e : Element V) := by
  intro k v hk
  have := h (c :: k) v (by rw [meaning_of_child hchild, hk])
  simpa using this

/-- **The keys of a node that match**: those below the first character, and
those below a wildcard. -/
theorem reaches_node (hh : h ≠ star) : Reaches key (.node i0 i1 data, w) (h :: t) p v ↔
      (∃ e, child h i0 i1 data = some e ∧ Reaches (h :: key) e t p v) ∨
      ∃ e, child star i0 i1 data = some e ∧ ReachesLater (star :: key) e t p v := by
  constructor
  · rintro ⟨k, hp, hk, hmatch, hmasked⟩
    cases k with
    | nil =>
      rw [matches_nil] at hmatch
      cases hmatch
    | cons c k =>
      rw [meaning_child] at hk
      obtain ⟨e, he, hke⟩ := Option.bind_eq_some_iff.mp hk
      rw [maskedIn_child he] at hmasked
      by_cases hc : c = star
      · subst hc
        exact .inr ⟨e, he, k, by simpa using hp, hke, matches_star.mp hmatch, hmasked⟩
      · obtain ⟨rfl, hrest⟩ := (matches_char hc).mp hmatch
        exact .inl ⟨e, he, k, by simpa using hp, hke, hrest, hmasked⟩
  · rintro (⟨e, he, k, hp, hk, hmatch, hmasked⟩ | ⟨e, he, k, hp, hk, hlater, hmasked⟩)
    · exact ⟨h :: k, by simpa using hp, by rw [meaning_of_child he, hk], .char hh hmatch,
        by rwa [maskedIn_child he]⟩
    · exact ⟨star :: k, by simpa using hp, by rw [meaning_of_child he, hk],
        matches_star.mpr hlater, by rwa [maskedIn_child he]⟩

/-- Behind a wildcard: the keys of a node that match here, or later. -/
theorem reachesLater_node (hh : h ≠ star) (hwf : PatternsIn (star :: key) (.node i0 i1 data, w)) :
    ReachesLater (star :: key) (.node i0 i1 data, w) (h :: t) p v ↔
      (∃ e, child h i0 i1 data = some e ∧ Reaches (h :: star :: key) e t p v) ∨
      ReachesLater (star :: key) (.node i0 i1 data, w) t p v := by
  constructor
  · rintro ⟨k, hp, hk, hlater, hmasked⟩
    rcases later_cons.mp hlater with hmatch | hlater
    · rcases (reaches_node hh).mp ⟨k, hp, hk, hmatch, hmasked⟩ with hreach | ⟨e, he, k', -, hk', -⟩
      · exact .inl hreach
      · -- no pattern has two wildcards in a row
        have hstar := hwf (star :: k') v (by rw [meaning_of_child he, hk'])
        have hends : WellFormed (star :: star :: k') :=
          WellFormed.of_append (q := key.reverse) (by simpa using hstar)
        exact absurd rfl hends.ne_star
    · exact .inr ⟨k, hp, hk, hlater, hmasked⟩
  · rintro (hreach | ⟨k, hp, hk, hlater, hmasked⟩)
    · obtain ⟨k, hp, hk, hmatch, hmasked⟩ := (reaches_node (w := w) hh).mpr (.inl hreach)
      exact ⟨k, hp, hk, later_cons.mpr (.inl hmatch), hmasked⟩
    · exact ⟨k, hp, hk, later_cons.mpr (.inr hlater), hmasked⟩

/-! ## the search -/

theorem Fits.child (h : Fits (.node i0 i1 data, v)) (hc : ¬ (c < i0 ∨ c > i1)) :
    ∃ e : Element V, data[c - i0]? = some e ∧ Trie.child c i0 i1 data = some e ∧ Fits e ∧
      e ∈ data := by
  obtain ⟨e, hget, hfits, -⟩ := h.getElem? hc
  exact ⟨e, hget, child_eq_some hc hget, hfits, mem_of_getElem? hget⟩

theorem exists_child {F : Element V → Prop} (h : child c i0 i1 data = some e) :
    F e ↔ ∃ e', child c i0 i1 data = some e' ∧ F e' := by
  rw [h]
  simp

theorem not_exists_child {F : Element V → Prop} (hc : c < i0 ∨ c > i1) :
    ¬ ∃ e, child c i0 i1 data = some e ∧ F e := by
  rintro ⟨e, he, -⟩
  rw [child_out hc] at he
  cases he

theorem answers_matchSuffix (hs : WellFormed s) (hl : star ∉ l) :
    Answers (matchSuffix key s v l) fun p v' => p = key.reverse ++ s ∧ v' = v ∧ Matches s l := by
  obtain ⟨b, hb, hiff⟩ := wildcardMatchLists_spec s l hs hl
  rw [matchSuffix, hb]
  cases b with
  | true => exact .some ⟨rfl, rfl, hiff.mp rfl⟩
  | false => exact .none fun p v' h => Bool.false_ne_true (hiff.mpr h.2.2)

theorem reaches_str_none : ¬ Reaches key ((.str s, none) : Element V) l p v := by
  rintro ⟨k, -, hk, -⟩
  rw [meaning_str, ite_self] at hk
  cases hk

theorem reaches_str :
    Reaches key (.str s, some v) l p x ↔ p = key.reverse ++ s ∧ x = v ∧ Matches s l := by
  constructor
  · rintro ⟨k, hp, hk, hmatch, -⟩
    rw [meaning_str] at hk
    split at hk
    next heq =>
        cases hk
        exact ⟨heq ▸ hp, rfl, heq ▸ hmatch⟩
    next => cases hk
  · rintro ⟨hp, rfl, hmatch⟩
    exact ⟨s, hp, by rw [meaning_str, if_pos rfl], hmatch, not_maskedIn_str key s _⟩

theorem reachesLater_str : ReachesLater (star :: key) (.str s, some v) l p x ↔
      p = key.reverse ++ star :: s ∧ x = v ∧ Later s l := by
  constructor
  · rintro ⟨k, hp, hk, hlater, -⟩
    rw [meaning_str] at hk
    split at hk
    next heq =>
        cases hk
        exact ⟨by simpa [heq] using hp, rfl, heq ▸ hlater⟩
    next => cases hk
  · rintro ⟨hp, rfl, hlater⟩
    exact ⟨s, by simpa using hp, by rw [meaning_str, if_pos rfl], hlater, not_maskedIn_str _ s _⟩

/-- What `find_match_node/3` answers for the string `l`. -/
def NodeSpec (V : Type) (l : List Nat) : Prop :=
  l ≠ [] → ∀ (key : List Nat) (i0 i1 : Nat) (data : List (Element V)) (w : Option V),
    Fits (.node i0 i1 data, w) → Full (.node i0 i1 data, w) →
    PatternsIn key (.node i0 i1 data, w) → key.head? ≠ some star →
    Answers (findMatchNode l key (.node i0 i1 data)) (Reaches key (.node i0 i1 data, w) l)

/-- What `find_match_pattern_N/4` answers for the string `l`. -/
def PatternSpec (V : Type) (l : List Nat) : Prop :=
  ∀ (key : List Nat) (i0 i1 : Nat) (data : List (Element V)) (w : Option V),
    Fits (.node i0 i1 data, w) → Full (.node i0 i1 data, w) →
    PatternsIn (star :: key) (.node i0 i1 data, w) →
    Answers (findMatchPatternN l (star :: key) w (.node i0 i1 data))
      (ReachesLater (star :: key) (.node i0 i1 data, w) l)

theorem wellFormed_suffix (hwf : PatternsIn key (.str s, some v)) :
    WellFormed (key.reverse ++ s) := hwf s v (by rw [meaning_str, if_pos rfl])

/-- `find_match_pattern_1/3` searches below the wildcard of a node. -/
theorem findMatchPattern1_spec (h : Fits (.node i0 i1 data, w)) (hfull : Full (.node i0 i1 data, w))
    (hwf : PatternsIn key (.node i0 i1 data, w)) (hl : star ∉ c :: t) (hN : PatternSpec V t) :
    Answers (findMatchPattern1 (findMatchPatternN t) (c :: t) key (.node i0 i1 data))
      fun p v => ∃ e, child star i0 i1 data = some e ∧ ReachesLater (star :: key) e t p v := by
  rw [findMatchPattern1]
  by_cases hrange : star < i0 ∨ star > i1
  · rw [if_neg (by omega)]
    exact .none fun p v => not_exists_child hrange
  · obtain ⟨e, hget, hchild, hfits, hmem⟩ := h.child hrange
    have hwf' : PatternsIn (star :: key) e := hwf.child hchild
    rw [if_pos (by omega), hget]
    refine Answers.congr ?_ fun p v => exists_child hchild
    match e with
    | (.node j0 j1 data', value) =>
      exact hN key j0 j1 data' value hfits (hfull.elements _ hmem) hwf'
    | (.str s, none) =>
      refine .none fun p v => ?_
      rintro ⟨k, -, hk, -⟩
      rw [meaning_str, ite_self] at hk
      cases hk
    | (.str s, some v) =>
      have hs : WellFormed (star :: s) :=
        WellFormed.of_append (q := key.reverse) (by simpa using wellFormed_suffix hwf')
      refine (answers_matchSuffix hs hl).congr fun p x => ?_
      rw [reachesLater_str, matches_star]

theorem findMatchPatternN_nil (n : Tree V) : Answers (findMatchPatternN [] (star :: key) w n)
      fun p v => p = (star :: key).reverse ∧ w = some v := by
  cases w with
  | none =>
    rw [findMatchPatternN]
    exact .none fun p v h => by cases h.2
  | some x =>
    rw [findMatchPatternN]
    exact .some ⟨rfl, rfl⟩

theorem not_endsBehindWildcard_star (key : List Nat) :
    ¬ EndsBehindWildcard ((star :: key).reverse) := by
  rintro ⟨q, c, hc, heq⟩
  rw [reverse_eq_iff] at heq
  simp at heq
  exact hc heq.1.symm

theorem not_endsBehindWildcard_char (h : key.head? ≠ some star) (c : Nat) :
    ¬ EndsBehindWildcard ((c :: key).reverse) := by
  rintro ⟨q, c', hc, heq⟩
  rw [reverse_eq_iff] at heq
  simp at heq
  rw [heq.2] at h
  exact h rfl

/-- The exact part of `find_match_node/3`. -/
theorem findMatchNode_exact (h : Fits (.node i0 i1 data, w)) (hfull : Full (.node i0 i1 data, w))
    (hwf : PatternsIn key (.node i0 i1 data, w)) (hkey : key.head? ≠ some star) (hl : star ∉ c :: t)
    (hA : NodeSpec V t) :
    Answers (exactPart findMatchNode matchSuffix c t key i0 i1 data)
      fun p v => ∃ e, child c i0 i1 data = some e ∧ Reaches (c :: key) e t p v := by
  unfold exactPart
  by_cases hrange : c < i0 ∨ c > i1
  · rw [if_pos hrange]
    exact .none fun p v => not_exists_child hrange
  · obtain ⟨e, hget, hchild, hfits, hmem⟩ := h.child hrange
    rw [mem_cons, not_or] at hl
    have hwf' : PatternsIn (c :: key) e := hwf.child hchild
    rw [if_neg hrange, hget]
    refine Answers.congr ?_ fun p v => exists_child hchild
    match t, e with
    | [], (.node j0 j1 data', some v) =>
      refine .some ⟨[], by simp, rfl, .nil, fun hmasked => ?_⟩
      exact not_endsBehindWildcard_char hkey c (by simpa using hmasked.1)
    | [], (.node j0 j1 data', none) =>
      refine .none fun p v => ?_
      rintro ⟨k, -, hk, hmatch, -⟩
      rw [matches_nil_right] at hmatch
      subst hmatch
      cases hk
    | [], (.str [], some v) =>
      exact .some (reaches_str.mpr ⟨by simp, rfl, .nil⟩)
    | [], (.str s, none) => cases s <;> exact .none fun p v => reaches_str_none
    | [], (.str (bh :: bt), some v) =>
      refine .none fun p x hreach => ?_
      obtain ⟨-, -, hmatch⟩ := reaches_str.mp hreach
      cases matches_nil_right.mp hmatch
    | h1 :: t1, (.node j0 j1 data', value) =>
      have hhead : (c :: key).head? ≠ some star := by simpa using Ne.symm hl.1
      exact hA (cons_ne_nil h1 t1) (c :: key) j0 j1 data' value hfits
        (hfull.elements _ hmem) hwf' hhead
    | h1 :: t1, (.str s, none) => exact .none fun p v => reaches_str_none
    | h1 :: t1, (.str s, some v) =>
      have hs : WellFormed s :=
        WellFormed.of_append (q := (c :: key).reverse) (wellFormed_suffix hwf')
      exact (answers_matchSuffix hs hl.2).congr fun p x => reaches_str.symm

/-- `find_match_pattern_N/4` at the element of the first character. -/
theorem findMatchPatternN_here {e : Element V} (h : Fits e) (hfull : Full e)
    (hwf : PatternsIn (c :: star :: key) e) (hl : star ∉ c :: t) (hA : NodeSpec V t) :
    Answers (match some e with
      | none => .error .badarg
      | some (.node j0 j1 data, _) => findMatchNode t (c :: star :: key) (.node j0 j1 data)
      | some (.str _, none) => .ok none
      | some (.str s, some v) => matchSuffix (c :: star :: key) s v t)
      (Reaches (c :: star :: key) e t) := by
  rw [mem_cons, not_or] at hl
  match t, e with
  | [], (.node j0 j1 data, value) =>
    -- the node has a longer key, so that a value here is masked
    show Answers (findMatchNode [] (c :: star :: key) (.node j0 j1 data)) _
    rw [findMatchNode]
    refine .none fun p v => ?_
    rintro ⟨k, -, hk, hmatch, hmasked⟩
    rw [matches_nil_right] at hmatch
    subst hmatch
    cases hfull with
    | node hkey hdata =>
      obtain ⟨c', k', x, hx⟩ := hkey
      have hends : EndsBehindWildcard ((c :: star :: key).reverse ++ []) :=
        ⟨key.reverse, c, Ne.symm hl.1, by simp⟩
      exact hmasked ⟨hends, c' :: k', x, cons_ne_nil c' k', hx⟩
  | h1 :: t1, (.node j0 j1 data, value) =>
    have hhead : (c :: star :: key).head? ≠ some star := by simpa using Ne.symm hl.1
    exact hA (cons_ne_nil h1 t1) _ j0 j1 data value h hfull hwf hhead
  | t, (.str s, none) => exact .none fun p v => reaches_str_none
  | t, (.str s, some v) =>
    have hs : WellFormed s :=
      WellFormed.of_append (q := (c :: star :: key).reverse) (wellFormed_suffix hwf)
    exact (answers_matchSuffix hs hl.2).congr fun p x => reaches_str.symm

/-- **Step lemma**, by induction on the string: the search at a node, and behind a wildcard. -/
theorem search_spec (l : List Nat) (hl : star ∉ l) : NodeSpec V l ∧ PatternSpec V l := by
  induction l with
  | nil =>
    refine ⟨fun hl => absurd rfl hl, fun key i0 i1 data w h hfull hwf => ?_⟩
    refine (findMatchPatternN_nil _).congr fun p v => ?_
    constructor
    · rintro ⟨hp, rfl⟩
      refine ⟨[], by simpa using hp, rfl, later_nil.mpr rfl, fun hmasked => ?_⟩
      exact not_endsBehindWildcard_star key (by simpa using hmasked.1)
    · rintro ⟨k, hp, hk, hlater, -⟩
      rw [later_nil] at hlater
      subst hlater
      exact ⟨by simpa using hp, hk⟩
  | cons h t ih =>
    obtain ⟨ihA, ihB⟩ := ih (fun ht => hl (mem_cons_of_mem h ht))
    have hh : h ≠ star := fun heq => hl (heq ▸ mem_cons_self)
    constructor
    · intro _ key i0 i1 data w hfits hfull hwf hkey
      rw [findMatchNode, if_neg hh]
      have hexact := findMatchNode_exact hfits hfull hwf hkey hl ihA
      have hwild := findMatchPattern1_spec hfits hfull hwf hl ihB
      exact (hexact.orNext hwild).congr fun p v => (reaches_node hh).symm
    · intro key i0 i1 data w hfits hfull hwf
      have hlater := ihB key i0 i1 data w hfits hfull hwf
      rw [findMatchPatternN, if_neg hh]
      by_cases hrange : h < i0 ∨ h > i1
      · rw [if_pos hrange]
        refine hlater.congr fun p v => ?_
        rw [reachesLater_node hh hwf, child_out hrange]
        simp
      · obtain ⟨e, hget, hchild, hfits', hmem⟩ := hfits.child hrange
        have hhere := findMatchPatternN_here hfits' (hfull.elements _ hmem)
          (hwf.child hchild) hl ihA
        rw [if_neg hrange, hget]
        refine (hhere.orNext hlater).congr fun p v => ?_
        rw [reachesLater_node hh hwf, hchild]
        simp

/-! ## find_match -/

/-- `find_match/2` answers a stored pattern that matches and is not masked. -/
theorem findMatch_spec (h : Built n m) (hwf : ∀ p v, m p = some v → WellFormed p) (hl : l ≠ [])
    (hfree : star ∉ l) :
    Answers (V := V) (findMatch l n) fun p v => m p = some v ∧ Matches p l ∧ ¬ Masked m p := by
  have hmap : ∀ k, meaning k (n, none) = m k := h.meaning_eq
  have hroot : ∀ p v, Reaches [] (n, none) l p v ↔ m p = some v ∧ Matches p l ∧ ¬ Masked m p := by
    intro p v
    simp only [Reaches, MaskedIn, Masked, reverse_nil, nil_append, hmap]
    constructor
    · rintro ⟨k, rfl, hk⟩
      exact hk
    · intro hp
      exact ⟨p, rfl, hp⟩
  match n with
  | .str [] =>
    refine .none fun p v hp => ?_
    rw [← hmap, meaning_str, ite_self] at hp
    cases hp.1
  | .str (bh :: bt) =>
    obtain ⟨x, hx⟩ := h.fits.suffix
    cases hx
  | .node i0 i1 data =>
    have hpatterns : PatternsIn [] (.node i0 i1 data, (none : Option V)) := by
      intro k v hk
      rw [hmap] at hk
      exact hwf k v hk
    obtain ⟨hnode, -⟩ := search_spec (V := V) l hfree
    exact (hnode hl [] i0 i1 data none h.fits h.full hpatterns (by simp)).congr hroot

theorem mem_of_stored {l : List ((Nat × List Nat) × V)} (h : stored l p = some v) :
    ∃ x ∈ l, p = x.1.1 :: x.1.2 := by
  have hrun : ∀ m : List Nat → Option V,
      l.foldl (fun m x => Function.update m (x.1.1 :: x.1.2) (some x.2)) m p = some v →
      m p = some v ∨ ∃ x ∈ l, p = x.1.1 :: x.1.2 := by
    clear h
    induction l with
    | nil => exact fun m hm => .inl hm
    | cons x l ih =>
      intro m hm
      rw [foldl_cons] at hm
      rcases ih _ hm with hm | ⟨y, hy, hp⟩
      · rw [Function.update_apply] at hm
        split at hm
        next heq => exact .inr ⟨x, mem_cons_self, heq⟩
        next => exact .inl hm
      · exact .inr ⟨y, mem_cons_of_mem x hy, hp⟩
  rcases hrun _ h with hnone | hmem
  · cases hnone
  · exact hmem

/-- **`find_match/2` is right** for the stored patterns and a string exactly
when a stored pattern that is not masked matches, or none matches at all. -/
theorem findMatch_right_iff (stores : List ((Nat × List Nat) × V))
    (hwf : ∀ x ∈ stores, WellFormed (x.1.1 :: x.1.2)) (l : List Nat) (hl : l ≠ [])
    (hfree : star ∉ l) :
    ∃ n, storeAll stores = some n ∧
      (Answers (findMatch l n) (fun p v => stored stores p = some v ∧ Matches p l) ↔
        ((∃ p v, stored stores p = some v ∧ Matches p l) →
          ∃ p v, stored stores p = some v ∧ Matches p l ∧ ¬ Masked (stored stores) p)) := by
  obtain ⟨n, hn, hbuilt⟩ := storeAll_built stores
  have hpatterns : ∀ p v, stored stores p = some v → WellFormed p := by
    intro p v hp
    obtain ⟨x, hx, rfl⟩ := mem_of_stored hp
    exact hwf x hx
  have hspec := findMatch_spec hbuilt hpatterns hl hfree
  refine ⟨n, hn, ?_⟩
  constructor
  · rintro (⟨p, v, hr, -⟩ | ⟨-, hnone⟩)
    · -- what was found is not masked
      rcases hspec with ⟨p', v', -, hfound⟩ | ⟨hr', -⟩
      · exact fun _ => ⟨p', v', hfound⟩
      · rw [hr] at hr'
        cases hr'
    · rintro ⟨p, v, hp⟩
      exact absurd hp (hnone p v)
  · intro hcond
    rcases hspec with ⟨p, v, hr, hp, hmatch, -⟩ | ⟨hr, hnone⟩
    · exact .inl ⟨p, v, hr, hp, hmatch⟩
    · refine .inr ⟨hr, fun p v hp => ?_⟩
      obtain ⟨p', v', hp'⟩ := hcond ⟨p, v, hp⟩
      exact hnone p' v' hp'

/-- The patterns "*" and "a*b". -/
theorem findMatch_right_iff_wildcards :
    ∃ n, storeAll [((42, []), 1), ((97, [42, 98]), 2)] = some n ∧
      (Answers (findMatch [97, 120, 98] n) (fun p v =>
        stored [((42, []), 1), ((97, [42, 98]), 2)] p = some v ∧ Matches p [97, 120, 98]) ↔
        ((∃ p v, stored [((42, []), 1), ((97, [42, 98]), 2)] p = some v ∧ Matches p [97, 120, 98]) →
          ∃ p v, stored [((42, []), 1), ((97, [42, 98]), 2)] p = some v ∧
            Matches p [97, 120, 98] ∧ ¬ Masked (stored [((42, []), 1), ((97, [42, 98]), 2)]) p)) :=
  findMatch_right_iff [((42, []), 1), ((97, [42, 98]), 2)] (by decide) [97, 120, 98] (by decide)
    (by decide)

/-- **A masked pattern is not found**: with "a*b" and "a*bc" stored, the answer
for "axb" is `error`. -/
theorem findMatch_masked : ∃ n, storeAll [((97, [42, 98]), 1), ((97, [42, 98, 99]), 2)] = some n ∧
      ¬ Answers (findMatch [97, 120, 98] n) (fun p v =>
        stored [((97, [42, 98]), 1), ((97, [42, 98, 99]), 2)] p = some v ∧
          Matches p [97, 120, 98]) := by
  refine ⟨_, rfl, ?_⟩
  rintro (⟨p, v, hr, -⟩ | ⟨-, hnone⟩)
  · have herror : ∀ n, storeAll [((97, [42, 98]), 1), ((97, [42, 98, 99]), 2)] = some n →
        findMatch [97, 120, 98] n = .ok none := by
      intro n hn
      cases hn
      rfl
    rw [herror _ rfl] at hr
    cases hr
  · refine hnone [97, 42, 98] 1 ⟨rfl, ?_⟩
    exact .char (by decide) (.wild (s := [120]) (by decide) (.char (by decide) .nil))

end CloudI.Trie
