import CloudI.Trie.Misled

/-!
# Trie.Found2

What `find_match2/2` finds, misled or not: a pattern that is stored, when the stored
patterns are well formed.  `badarg` is then its only exception.  A string that is stored
itself is found as itself.
-/

namespace CloudI.Trie

variable {V : Type}

/-! ## wildcard_match2_lists -/

/-- The only exception is `badarg`. -/
def OnlyBadarg (r : Except Exit α) : Prop := ∀ e, r = .error e → e = .badarg

theorem onlyBadarg_ok (x : α) : OnlyBadarg (.ok x) := fun _ h => nomatch h

theorem onlyBadarg_error : OnlyBadarg (.error .badarg : Except Exit α) := fun _ h =>
  (Except.error.inj h).symm

theorem onlyBadarg_valid (l : List Nat) (b : Bool) : OnlyBadarg (wildcardMatch2ListsValid l b) := by
  induction l with
  | nil => exact onlyBadarg_ok b
  | cons x l ih =>
    rw [wildcardMatch2ListsValid]
    split
    next => exact onlyBadarg_error
    next => exact ih

variable {f : List Nat → Except Exit Bool} {F : List Nat → V → Prop} {w : Option V}

theorem onlyBadarg_pattern0 (hf : ∀ l, OnlyBadarg (f l)) (c : Nat) (l : List Nat) :
    OnlyBadarg (wildcardMatch2ListsPattern0 f c l) := by
  induction l with
  | nil => exact onlyBadarg_ok false
  | cons x l ih =>
    rw [wildcardMatch2ListsPattern0]
    split
    next => exact onlyBadarg_error
    next =>
      split
      next => exact hf l
      next => exact ih

theorem onlyBadarg_pattern1 (hf : ∀ l, OnlyBadarg (f l)) (c : Nat) (l : List Nat) :
    OnlyBadarg (wildcardMatch2ListsPattern1 f c l) := by
  induction l with
  | nil => exact onlyBadarg_ok false
  | cons x l ih =>
    rw [wildcardMatch2ListsPattern1]
    split
    next => exact onlyBadarg_error
    next =>
      split
      next =>
        cases hr : f l with
        | error e =>
          cases hf l e hr
          exact onlyBadarg_error
        | ok b =>
          cases b with
          | true => exact onlyBadarg_ok true
          | false => exact ih
      next => exact ih

theorem onlyBadarg_wildcardMatch2Lists :
    ∀ p l : List Nat, WellFormed2 p → OnlyBadarg (wildcardMatch2Lists p l)
  | [], [], _ => onlyBadarg_ok true
  | [], x :: l, _ => onlyBadarg_valid (x :: l) false
  | _ :: _, [], _ => by
      rw [wildcardMatch2Lists]
      exact onlyBadarg_ok false
  | [c], x :: l, hp => by
      rw [wildcardMatch2Lists]
      by_cases hx : Wild x
      · rw [if_pos hx]
        exact onlyBadarg_error
      · rw [if_neg hx]
        by_cases hquest : c = quest
        · rw [if_pos hquest]
          exact onlyBadarg_error
        · rw [if_neg hquest]
          by_cases hstar : c = star
          · rw [if_pos hstar]
            exact onlyBadarg_valid l true
          · rw [if_neg hstar]
            by_cases hc : c = x
            · rw [if_pos hc]
              exact onlyBadarg_wildcardMatch2Lists [] l hp.tail
            · rw [if_neg hc]
              exact onlyBadarg_valid (x :: l) false
  | c :: c1 :: p, x :: l, hp => by
      have hrest : ∀ l, OnlyBadarg (wildcardMatch2Lists p l) := fun l =>
        onlyBadarg_wildcardMatch2Lists p l hp.tail.tail
      rw [wildcardMatch2Lists]
      by_cases hx : Wild x
      · rw [if_pos hx]
        exact onlyBadarg_error
      · rw [if_neg hx]
        by_cases hquest : c = quest
        · rw [if_pos hquest, if_neg (hp.not_wild (.inr hquest))]
          exact onlyBadarg_pattern0 hrest c1 l
        · rw [if_neg hquest]
          by_cases hstar : c = star
          · rw [if_pos hstar, if_neg (hp.not_wild (.inl hstar))]
            exact onlyBadarg_pattern1 hrest c1 l
          · rw [if_neg hstar]
            by_cases hc : c = x
            · rw [if_pos hc]
              exact onlyBadarg_wildcardMatch2Lists (c1 :: p) l hp.tail
            · rw [if_neg hc]
              exact onlyBadarg_valid (x :: l) false

/-! ## what is found -/

/-- What is found satisfies `F`, and `badarg` is the only exception. -/
def Finds (r : Found V) (F : List Nat → V → Prop) : Prop :=
  OnlyBadarg r ∧ ∀ p v, r = .ok (some (p, v)) → F p v

theorem finds_none : Finds (.ok none) F :=
  ⟨onlyBadarg_ok none, fun _ _ h => nomatch h⟩

theorem finds_badarg : Finds (.error .badarg) F :=
  ⟨onlyBadarg_error, fun _ _ h => nomatch h⟩

theorem finds_some (h : F p v) : Finds (.ok (some (p, v))) F := by
  refine ⟨onlyBadarg_ok _, fun p' v' heq => ?_⟩
  cases heq
  exact h

theorem Finds.mono {G : List Nat → V → Prop} (h : Finds r F) (hFG : ∀ p v, F p v → G p v) :
    Finds r G := ⟨h.1, fun p v hr => hFG p v (h.2 p v hr)⟩

theorem Finds.orNext {next : Found V} (h : Finds r F) (hnext : Finds next F) :
    Finds (Trie.orNext next r) F := by
  match r, h with
  | .error _, h => exact h
  | .ok none, _ => exact hnext
  | .ok (some _), h => exact h

/-- A key of the element, below the characters `key`. -/
def Below (key : List Nat) (e : Element V) (p : List Nat) (v : V) : Prop :=
  ∃ k, p = key.reverse ++ k ∧ meaning k e = some v

theorem Below.node (hchild : child c i0 i1 data = some e) (h : Below (c :: key) e p v) :
    Below key (.node i0 i1 data, w) p v := by
  obtain ⟨k, rfl, hk⟩ := h
  exact ⟨c :: k, by simp, by rw [meaning_of_child hchild, hk]⟩

theorem finds_matchSuffix2 (key s l : List Nat) (v : V) (hs : WellFormed2 s) :
    Finds (matchSuffix2 key s v l) fun p x => p = key.reverse ++ s ∧ x = v := by
  rw [matchSuffix2]
  cases hr : wildcardMatch2Lists s l with
  | error e =>
    cases onlyBadarg_wildcardMatch2Lists s l hs e hr
    exact finds_badarg
  | ok b =>
    cases b with
    | true => exact finds_some ⟨rfl, rfl⟩
    | false => exact finds_none

/-- What `find_match2_node/3` finds for the string `l`. -/
def NodeFinds (V : Type) (l : List Nat) : Prop :=
  ∀ (key : List Nat) (i0 i1 : Nat) (data : List (Element V)) (w : Option V),
    Formed (.node i0 i1 data, w) → PatternsIn2 key (.node i0 i1 data, w) →
    Finds (findMatch2Node l key (.node i0 i1 data)) (Below key (.node i0 i1 data, w))

/-- What `find_match2_pattern0_N/4` finds for the string `l`. -/
def QuestFinds (V : Type) (l : List Nat) : Prop :=
  ∀ (ignore : Option Nat) (key : List Nat) (i0 i1 : Nat) (data : List (Element V)) (w : Option V),
    Formed (.node i0 i1 data, w) → PatternsIn2 key (.node i0 i1 data, w) →
    Finds (findMatch2Pattern0N l ignore key (.node i0 i1 data)) (Below key (.node i0 i1 data, w))

/-- What `find_match2_pattern1_N/4` finds for the string `l`. -/
def StarFinds (V : Type) (l : List Nat) : Prop :=
  ∀ (key : List Nat) (i0 i1 : Nat) (data : List (Element V)) (w : Option V),
    Formed (.node i0 i1 data, w) → PatternsIn2 key (.node i0 i1 data, w) →
    Finds (findMatch2Pattern1N l key w (.node i0 i1 data)) (Below key (.node i0 i1 data, w))

theorem finds_suffix (hwf : PatternsIn2 key (.node i0 i1 data, w))
    (hchild : child c i0 i1 data = some (.str s, some v)) (l : List Nat) :
    Finds (matchSuffix2 (c :: key) s v l) (Below key (.node i0 i1 data, w)) := by
  have hs : WellFormed2 s := (hwf.child hchild).suffix.of_append
  refine (finds_matchSuffix2 (c :: key) s l v hs).mono fun p x => ?_
  rintro ⟨rfl, rfl⟩
  exact Below.node hchild ⟨s, rfl, by rw [meaning_str, if_pos rfl]⟩

theorem finds_wildSuffix (hwf : PatternsIn2 key (.node i0 i1 data, w))
    (hchild : child c i0 i1 data = some (.str s, some v)) (l : List Nat) :
    Finds (matchSuffix2 key (c :: s) v l) (Below key (.node i0 i1 data, w)) := by
  have hmeaning : meaning (c :: s) (.node i0 i1 data, w) = some v := by
    rw [meaning_of_child hchild, meaning_str, if_pos rfl]
  have hs : WellFormed2 (c :: s) := (hwf (c :: s) v hmeaning).of_append
  refine (finds_matchSuffix2 key (c :: s) l v hs).mono fun p x => ?_
  rintro ⟨rfl, rfl⟩
  exact ⟨c :: s, rfl, hmeaning⟩

theorem finds_exact (h : Formed (.node i0 i1 data, w)) (hwf : PatternsIn2 key (.node i0 i1 data, w))
    (hN : NodeFinds V t) :
    Finds (exactPart findMatch2Node matchSuffix2 c t key i0 i1 data)
      (Below key (.node i0 i1 data, w)) := by
  unfold exactPart
  by_cases hrange : c < i0 ∨ c > i1
  · rw [if_pos hrange]
    exact finds_none
  · obtain ⟨e, hget, hchild, hformed⟩ := h.child hrange
    have hwf' : PatternsIn2 (c :: key) e := hwf.child hchild
    rw [if_neg hrange, hget]
    match t, e with
    | [], (.node j0 j1 data', some v) => exact finds_some (Below.node hchild ⟨[], by simp, rfl⟩)
    | [], (.node j0 j1 data', none) => exact finds_none
    | [], (.str [], some v) => exact finds_some (Below.node hchild ⟨[], by simp, by simp⟩)
    | [], (.str s, none) => cases s <;> exact finds_none
    | [], (.str (bh :: bt), some v) => exact finds_none
    | h1 :: t1, (.node j0 j1 data', value) =>
      exact (hN (c :: key) j0 j1 data' value hformed hwf').mono fun p v => Below.node hchild
    | h1 :: t1, (.str s, none) => exact finds_none
    | h1 :: t1, (.str s, some v) => exact finds_suffix hwf hchild (h1 :: t1)

theorem finds_pattern01 (hform : Formed (.node i0 i1 data, w))
    (hwf : PatternsIn2 key (.node i0 i1 data, w)) (hQ : QuestFinds V t) (h : Nat) :
    Finds (findMatch2Pattern01 (findMatch2Pattern0N t) h key (.node i0 i1 data))
      (Below key (.node i0 i1 data, w)) := by
  rw [findMatch2Pattern01]
  split
  next => exact hQ none key i0 i1 data w hform hwf
  next hrange =>
    obtain ⟨⟨n, value⟩, hget, -, -⟩ := hform.child hrange
    rw [hget]
    cases value with
    | none => exact hQ none key i0 i1 data w hform hwf
    | some v => exact hQ (some h) key i0 i1 data w hform hwf

theorem finds_pattern00 (hform : Formed (.node i0 i1 data, w))
    (hwf : PatternsIn2 key (.node i0 i1 data, w)) (hQ : QuestFinds V t) (h : Nat) (l : List Nat) :
    Finds (findMatch2Pattern00 (findMatch2Pattern0N t) h l key (.node i0 i1 data))
      (Below key (.node i0 i1 data, w)) := by
  rw [findMatch2Pattern00]
  split
  next hrange =>
    obtain ⟨e, hget, hchild, hformed⟩ := hform.child (c := quest) (by omega)
    rw [hget]
    obtain ⟨n, value⟩ := e
    cases n with
    | node j0 j1 data' =>
      exact (finds_pattern01 hformed (hwf.child hchild) hQ h).mono fun p v => Below.node hchild
    | str s =>
      cases value with
      | none => exact finds_none
      | some v =>
        cases s with
        | nil => exact finds_none
        | cons bh bt => exact finds_wildSuffix hwf hchild l
  next => exact finds_none

theorem finds_pattern11 (hform : Formed (.node i0 i1 data, w))
    (hwf : PatternsIn2 key (.node i0 i1 data, w)) (hS : StarFinds V t) (l : List Nat) :
    Finds (findMatch2Pattern11 (findMatch2Pattern1N t) l key (.node i0 i1 data))
      (Below key (.node i0 i1 data, w)) := by
  rw [findMatch2Pattern11]
  split
  next hrange =>
    obtain ⟨e, hget, hchild, hformed⟩ := hform.child (c := star) (by omega)
    rw [hget]
    obtain ⟨n, value⟩ := e
    cases n with
    | node j0 j1 data' =>
      exact (hS (star :: key) j0 j1 data' value hformed (hwf.child hchild)).mono fun p v =>
        Below.node hchild
    | str s =>
      cases value with
      | none => exact finds_none
      | some v => exact finds_wildSuffix hwf hchild l
  next => exact finds_none

/-- **Step lemma**, by induction on the string: the search at a node, and behind each wildcard. -/
theorem search2_finds (l : List Nat) : NodeFinds V l ∧ QuestFinds V l ∧ StarFinds V l := by
  induction l with
  | nil =>
    refine ⟨fun key i0 i1 data w _ _ => ?_, fun ignore key i0 i1 data w _ _ => ?_,
      fun key i0 i1 data w _ _ => ?_⟩
    · rw [findMatch2Node]
      exact finds_none
    · rw [findMatch2Pattern0N]
      exact finds_none
    · cases w with
      | none =>
        rw [findMatch2Pattern1N]
        exact finds_none
      | some wildValue =>
        rw [findMatch2Pattern1N]
        exact finds_some ⟨[], by simp, rfl⟩
  | cons h t ih =>
    obtain ⟨ihN, ihQ, ihS⟩ := ih
    refine ⟨fun key i0 i1 data w hform hwf => ?_, fun ignore key i0 i1 data w hform hwf => ?_,
      fun key i0 i1 data w hform hwf => ?_⟩
    · rw [findMatch2Node]
      split
      next => exact finds_badarg
      next =>
        have hwild := (finds_pattern00 hform hwf ihQ h (h :: t)).orNext
          (finds_pattern11 hform hwf ihS (h :: t))
        exact (finds_exact hform hwf ihN).orNext hwild
    · rw [findMatch2Pattern0N]
      by_cases hquest : h = quest
      · rw [if_pos hquest]
        exact finds_badarg
      · rw [if_neg hquest]
        by_cases hignore : ignore = some h
        · rw [if_pos hignore]
          exact ihQ ignore key i0 i1 data w hform hwf
        · rw [if_neg hignore]
          by_cases hrange : h < i0 ∨ h > i1
          · show Finds (if h < i0 ∨ h > i1 then _ else _) _
            rw [if_pos hrange]
            exact ihQ ignore key i0 i1 data w hform hwf
          · obtain ⟨e, hget, hchild, hformed⟩ := hform.child hrange
            show Finds (if h < i0 ∨ h > i1 then _ else _) _
            rw [if_neg hrange, hget]
            obtain ⟨n, value⟩ := e
            cases n with
            | node j0 j1 data' =>
              exact (ihN (h :: key) j0 j1 data' value hformed (hwf.child hchild)).mono
                fun p v => Below.node hchild
            | str s =>
              cases value with
              | none => exact ihQ ignore key i0 i1 data w hform hwf
              | some v =>
                exact (finds_suffix hwf hchild t).orNext (ihQ ignore key i0 i1 data w hform hwf)
    · rw [findMatch2Pattern1N]
      by_cases hstar : h = star
      · rw [if_pos hstar]
        exact finds_badarg
      · rw [if_neg hstar]
        by_cases hrange : h < i0 ∨ h > i1
        · rw [if_pos hrange]
          exact ihS key i0 i1 data w hform hwf
        · obtain ⟨e, hget, hchild, hformed⟩ := hform.child hrange
          rw [if_neg hrange, hget]
          obtain ⟨n, value⟩ := e
          cases n with
          | node j0 j1 data' =>
            have hhere : Finds (findMatch2Node t (h :: key) (.node j0 j1 data'))
                (Below key (.node i0 i1 data, w)) :=
              (ihN (h :: key) j0 j1 data' value hformed (hwf.child hchild)).mono
                fun p v => Below.node hchild
            exact hhere.orNext (ihS key i0 i1 data w hform hwf)
          | str s =>
            cases value with
            | none => exact ihS key i0 i1 data w hform hwf
            | some v =>
              exact (finds_suffix hwf hchild t).orNext (ihS key i0 i1 data w hform hwf)

/-- **What `find_match2/2` finds is stored**, in a well-formed trie of well-formed patterns. -/
theorem findMatch2_finds {n : Tree V} (h : Rooted n)
    (hwf : ∀ p v, meaning p (n, none) = some v → WellFormed2 p) (l : List Nat) :
    Finds (findMatch2 l n) fun p v => meaning p (n, none) = some v := by
  match n with
  | .str s =>
    cases h.root s rfl
    exact finds_none
  | .node i0 i1 data =>
    refine ((search2_finds l).1 [] i0 i1 data none h.formed hwf).mono fun p v => ?_
    rintro ⟨k, rfl, hk⟩
    exact hk

/-! ## a stored string -/

/-- A string without wildcards matches itself. -/
theorem wildcardMatch2Lists_self : ∀ {l : List Nat}, Free l → wildcardMatch2Lists l l = .ok true
  | [], _ => rfl
  | [c], hl => by
      have hc : ¬ Wild c := (free_cons.mp hl).1
      rw [wildcardMatch2Lists, if_neg hc, if_neg fun h => hc (.inr h), if_neg fun h => hc (.inl h),
        if_pos rfl]
      rfl
  | c :: c1 :: l, hl => by
      obtain ⟨hc, hl⟩ := free_cons.mp hl
      rw [wildcardMatch2Lists, if_neg hc, if_neg fun h => hc (.inr h), if_neg fun h => hc (.inl h),
        if_pos rfl]
      exact wildcardMatch2Lists_self hl

/-- The search tries the exact path first, so nothing else is found on it. -/
theorem findMatch2Node_stored (hl : Free l) (hne : l ≠ []) (h : Formed (.node i0 i1 data, w))
    (hv : meaning l (.node i0 i1 data, w) = some v) (key : List Nat) :
    findMatch2Node l key (.node i0 i1 data) = .ok (some (key.reverse ++ l, v)) := by
  induction l generalizing key i0 i1 data w with
  | nil => exact absurd rfl hne
  | cons c t ih =>
    obtain ⟨hc, ht⟩ := free_cons.mp hl
    have hrange : ¬ (c < i0 ∨ c > i1) := by
      intro hout
      rw [meaning_out_of_range hout] at hv
      cases hv
    obtain ⟨e, hget, hchild, hformed⟩ := h.child hrange
    rw [meaning_of_child hchild] at hv
    rw [findMatch2Node, if_neg hc, if_neg hrange, hget]
    obtain ⟨n, value⟩ := e
    cases n with
    | str s =>
      rw [meaning_str] at hv
      by_cases hs : t = s
      · subst hs
        rw [if_pos rfl] at hv
        subst hv
        cases t with
        | nil => rfl
        | cons h1 t1 =>
          show orNext _ (matchSuffix2 (c :: key) (h1 :: t1) v (h1 :: t1)) = _
          rw [matchSuffix2, wildcardMatch2Lists_self ht, List.reverse_cons]
          show Except.ok (some (key.reverse ++ [c] ++ h1 :: t1, v)) = _
          rw [List.append_assoc]
          rfl
      · rw [if_neg hs] at hv
        cases hv
    | node j0 j1 data' =>
      cases t with
      | nil =>
        cases (show value = some v from hv)
        rfl
      | cons h1 t1 =>
        have hrest := ih ht (List.cons_ne_nil h1 t1) hformed hv (c :: key)
        rw [List.reverse_cons, List.append_assoc] at hrest
        show orNext _ (findMatch2Node (h1 :: t1) (c :: key) (.node j0 j1 data')) = _
        rw [hrest]
        rfl

/-- **A stored string without wildcards is found as itself**, whatever other patterns are stored. -/
theorem findMatch2_stored {n : Tree V} (h : Rooted n) (hl : Free l)
    (hv : meaning l (n, none) = some v) : findMatch2 l n = .ok (some (l, v)) := by
  match n with
  | .str s =>
    rw [meaning_str, ite_self] at hv
    cases hv
  | .node i0 i1 data =>
    have hne : l ≠ [] := by
      intro hnil
      subst hnil
      cases hv
    exact findMatch2Node_stored hl hne h.formed hv []

end CloudI.Trie
