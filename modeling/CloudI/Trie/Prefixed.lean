import CloudI.Trie.Reachable

/-!
# Trie.Prefixed

The tests `is_prefixed/2` and `is_prefixed/3`: whether a stored key begins a
string, and whether one with a character outside of a list of excluded characters
does.
-/

namespace CloudI.Trie

open List

variable {V : Type}

def isPrefixed : List Nat → Tree V → Option Bool
  | h :: t, .node i0 i1 data =>
      if h < i0 ∨ h > i1 then some false
      else match t with
        | [] =>
            match data[h - i0]? with
            | none => none
            | some (_, none) => some false
            | some (.node .., some _) => some true
            | some (.str [], some _) => some true
            | some (.str (_ :: _), some _) => some false
        | h1 :: t1 =>
            match data[h - i0]? with
            | none => none
            | some (.node j0 j1 below, none) => isPrefixed (h1 :: t1) (.node j0 j1 below)
            | some (.node .., some _) => some true
            | some (.str _, none) => some false
            | some (.str s, some _) =>
                if s = h1 :: t1 then some true else some (s.isPrefixOf (h1 :: t1))
  | _, .str [] => some false
  | _, _ => none

def isPrefixedMatchCheck (exclude : List Nat) : List Nat → List Nat → Bool → Bool
  | [], _, matched => matched
  | h :: t1, h' :: t2, matched =>
      if h = h' then isPrefixedMatchCheck exclude t1 t2 (matched || !exclude.contains h) else false
  | _ :: _, [], _ => false

def isPrefixedMatch (exclude : List Nat) : List Nat → Bool → Tree V → Option Bool
  | h :: t, matched, .node i0 i1 data =>
      if h < i0 ∨ h > i1 then some false
      else match t with
        | [] =>
            match data[h - i0]? with
            | none => none
            | some (_, none) => some false
            | some (.node .., some _) => some (matched || !exclude.contains h)
            | some (.str [], some _) => some (matched || !exclude.contains h)
            | some (.str (_ :: _), some _) => some false
        | h1 :: t1 =>
            match data[h - i0]? with
            | none => none
            | some (.node j0 j1 below, none) =>
                isPrefixedMatch exclude (h1 :: t1) (matched || !exclude.contains h)
                  (.node j0 j1 below)
            | some (.node j0 j1 below, some _) =>
                if matched || !exclude.contains h then some true
                else isPrefixedMatch exclude (h1 :: t1) false (.node j0 j1 below)
            | some (.str _, none) => some false
            | some (.str s, some _) =>
                some (isPrefixedMatchCheck exclude s (h1 :: t1) (matched || !exclude.contains h))
  | _, _, .str [] => some false
  | _, _, _ => none

/-- `is_prefixed/3`. -/
def isPrefixedExclude (key exclude : List Nat) (n : Tree V) : Option Bool :=
  isPrefixedMatch exclude key false n

/-! ## the state of the walk -/

/-- A key that begins `l` has a value in `m`; some character of the key is not
excluded, unless one above it already was not. -/
def Acceptable (exclude l : List Nat) (matched : Bool) (m : List Nat → Option V) : Prop :=
  ∃ k x, k <+: l ∧ m k = some x ∧ (matched = true ∨ ∃ a ∈ k, a ∉ exclude)

theorem matched_or (exclude : List Nat) (matched : Bool) (h : Nat) (k : List Nat) :
    ((matched || !exclude.contains h) = true ∨ ∃ a ∈ k, a ∉ exclude) ↔
      (matched = true ∨ ∃ a ∈ h :: k, a ∉ exclude) := by
  simp [or_assoc]

variable {s exclude t : List Nat} {matched : Bool} {i1 i0 c : Nat} {data : List (Element V)}
  {w : Option V} {n : Tree V}

theorem isPrefixedMatchCheck_eq_true : isPrefixedMatchCheck exclude s t matched = true ↔
      s <+: t ∧ (matched = true ∨ ∃ a ∈ s, a ∉ exclude) := by
  induction s generalizing t matched with
  | nil => simp [isPrefixedMatchCheck]
  | cons h s ih =>
    cases t with
    | nil => simp [isPrefixedMatchCheck]
    | cons h' t =>
      rw [isPrefixedMatchCheck, cons_prefix_cons]
      by_cases hh : h = h'
      · rw [if_pos hh, ih, matched_or]
        simp only [hh, true_and]
      · simp [hh]

/-- The keys of a node that begin a string go on below its first character. -/
theorem acceptable_child {e : Element V}
    (hmeaning : ∀ k, meaning (c :: k) (.node i0 i1 data, none) = meaning k e) :
    Acceptable exclude (c :: t) matched (meaning · (.node i0 i1 data, none)) ↔
      Acceptable exclude t (matched || !exclude.contains c) (meaning · e) := by
  constructor
  · rintro ⟨k, x, hk, hx, hacc⟩
    cases k with
    | nil => cases hx
    | cons d k =>
      obtain ⟨rfl, hk'⟩ := cons_prefix_cons.mp hk
      exact ⟨k, x, hk', (hmeaning k).symm.trans hx, (matched_or exclude matched d k).mpr hacc⟩
  · rintro ⟨k, x, hk, hx, hacc⟩
    exact ⟨c :: k, x, cons_prefix_cons.mpr ⟨rfl, hk⟩, (hmeaning k).trans hx,
      (matched_or exclude matched c k).mp hacc⟩

theorem acceptable_out (hc : c < i0 ∨ c > i1) :
    ¬ Acceptable exclude (c :: t) matched (meaning · (.node i0 i1 data, (none : Option V))) := by
  rintro ⟨k, x, hk, hx, -⟩
  cases k with
  | nil => cases hx
  | cons d k =>
    obtain ⟨rfl, -⟩ := cons_prefix_cons.mp hk
    cases (meaning_out_of_range hc).symm.trans hx

theorem acceptable_str : Acceptable exclude t matched (meaning · (.str s, w)) ↔
      w.isSome ∧ s <+: t ∧ (matched = true ∨ ∃ a ∈ s, a ∉ exclude) := by
  constructor
  · rintro ⟨k, x, hk, hx, hacc⟩
    simp only [meaning_str] at hx
    split at hx
    next heq => exact ⟨by rw [hx]; rfl, heq ▸ hk, heq ▸ hacc⟩
    next => cases hx
  · rintro ⟨hw, hs, hacc⟩
    obtain ⟨x, rfl⟩ := Option.isSome_iff_exists.mp hw
    exact ⟨s, x, hs, by simp, hacc⟩

/-- A value of the node itself is a key that begins every string. -/
theorem acceptable_node : Acceptable exclude t matched (meaning · (.node i0 i1 data, w)) ↔
      (w.isSome ∧ matched = true) ∨
        Acceptable exclude t matched (meaning · (.node i0 i1 data, none)) := by
  constructor
  · rintro ⟨k, x, hk, hx, hacc⟩
    cases k with
    | nil =>
      have hw : w = some x := hx
      exact .inl ⟨by rw [hw]; rfl, by simpa using hacc⟩
    | cons d k => exact .inr ⟨d :: k, x, hk, hx, hacc⟩
  · rintro (⟨hw, hmatched⟩ | ⟨k, x, hk, hx, hacc⟩)
    · obtain ⟨x, rfl⟩ := Option.isSome_iff_exists.mp hw
      exact ⟨[], x, nil_prefix, rfl, .inl hmatched⟩
    · cases k with
      | nil => cases hx
      | cons d k => exact ⟨d :: k, x, hk, hx, hacc⟩

/-! ## the walk -/

/-- **Step lemma**: `is_prefixed_match/4` goes down with the string and answers
whether an acceptable key begins it. -/
theorem isPrefixedMatch_spec (h : Formed (.node i0 i1 data, w)) (exclude : List Nat) (c : Nat)
    (t : List Nat) (matched : Bool) :
    ∃ b, isPrefixedMatch exclude (c :: t) matched (.node i0 i1 data) = some b ∧
      (b = true ↔ Acceptable exclude (c :: t) matched (meaning · (.node i0 i1 data, none))) := by
  induction t generalizing c i0 i1 data w matched with
  | nil =>
    rw [isPrefixedMatch]
    by_cases hc : c < i0 ∨ c > i1
    · exact ⟨false, if_pos hc, by simp [acceptable_out hc]⟩
    obtain ⟨e, hget, hformed, hmeaning⟩ := (h.value none).getElem? hc
    rw [if_neg hc, acceptable_child hmeaning]
    simp only [hget]
    match e with
    | (.node j0 j1 below, none) =>
      -- the string ends above the keys of the child
      refine ⟨false, rfl, iff_of_false Bool.false_ne_true ?_⟩
      rintro ⟨k, x, hk, hx, -⟩
      rw [prefix_nil.mp hk] at hx
      cases hx
    | (.node j0 j1 below, some x) =>
      refine ⟨_, rfl, ?_⟩
      rw [acceptable_node]
      constructor
      · exact fun hmatched => .inl ⟨rfl, hmatched⟩
      · rintro (⟨-, hmatched⟩ | ⟨k, y, hk, hy, -⟩)
        · exact hmatched
        · rw [prefix_nil.mp hk] at hy
          cases hy
    | (.str s, none) =>
      refine ⟨false, rfl, ?_⟩
      rw [acceptable_str]
      simp
    | (.str [], some x) =>
      refine ⟨_, rfl, ?_⟩
      rw [acceptable_str]
      simp
    | (.str (bh :: bt), some x) =>
      refine ⟨false, rfl, ?_⟩
      rw [acceptable_str]
      simp
  | cons h1 t1 ih =>
    rw [isPrefixedMatch]
    by_cases hc : c < i0 ∨ c > i1
    · exact ⟨false, if_pos hc, by simp [acceptable_out hc]⟩
    obtain ⟨e, hget, hformed, hmeaning⟩ := (h.value none).getElem? hc
    rw [if_neg hc, acceptable_child hmeaning]
    simp only [hget]
    match e with
    | (.node j0 j1 below, none) => exact ih hformed h1 _
    | (.node j0 j1 below, some x) =>
      rw [acceptable_node]
      by_cases hmatched : (matched || !exclude.contains c) = true
      · refine ⟨true, if_pos hmatched, iff_of_true rfl (.inl ⟨rfl, hmatched⟩)⟩
      · rw [Bool.not_eq_true] at hmatched
        obtain ⟨b, hb, hiff⟩ := ih hformed h1 false
        refine ⟨b, ?_, ?_⟩
        · rw [← hb]
          simp only [hmatched, Bool.false_eq_true, if_false]
        · rw [hiff, hmatched]
          simp
    | (.str s, none) =>
      refine ⟨false, rfl, ?_⟩
      rw [acceptable_str]
      simp
    | (.str s, some x) =>
      refine ⟨_, rfl, ?_⟩
      rw [isPrefixedMatchCheck_eq_true, acceptable_str]
      simp

/-- Without excluded characters the two tests are one. -/
theorem isPrefixed_eq (l : List Nat) (n : Tree V) (hl : l ≠ []) (matched : Bool) :
    isPrefixed l n = isPrefixedMatch [] l matched n := by
  induction l generalizing n matched with
  | nil => exact absurd rfl hl
  | cons h t ih =>
    match n with
    | .str [] => rw [isPrefixed, isPrefixedMatch]
    | .str (bh :: bt) => rw [isPrefixed, isPrefixedMatch] <;> simp
    | .node i0 i1 data =>
      by_cases hc : h < i0 ∨ h > i1
      · cases t <;> simp only [isPrefixed, isPrefixedMatch, if_pos hc]
      cases t with
      | nil =>
        simp only [isPrefixed, isPrefixedMatch, if_neg hc]
        match data[h - i0]? with
        | none => rfl
        | some (_, none) => rfl
        | some (.node .., some _) => simp
        | some (.str [], some _) => simp
        | some (.str (_ :: _), some _) => rfl
      | cons h1 t1 =>
        simp only [isPrefixed, isPrefixedMatch, if_neg hc]
        match data[h - i0]? with
        | none => rfl
        | some (.node j0 j1 below, none) => exact ih _ (cons_ne_nil h1 t1) _
        | some (.node .., some _) => simp
        | some (.str _, none) => rfl
        | some (.str s, some _) =>
          have hcheck : isPrefixedMatchCheck [] s (h1 :: t1) true = s.isPrefixOf (h1 :: t1) := by
            rw [Bool.eq_iff_iff, isPrefixedMatchCheck_eq_true, isPrefixOf_iff_prefix]
            simp
          by_cases hs : s = h1 :: t1
          · simp [hs, isPrefixedMatchCheck_eq_true]
          · simp [hs, hcheck]

/-! ## the tests -/

/-- **The tests see the stored prefixes**: for every nonempty string, `is_prefixed/2` is true
exactly when a stored key begins it, and `is_prefixed/3` exactly when one does that
has a character outside of the excluded ones. -/
def TestsPrefixes (n : Tree V) : Prop :=
  ∀ c t,
    (∃ b, isPrefixed (c :: t) n = some b ∧
      (b = true ↔ ∃ d s x, find d s n = some (some x) ∧ d :: s <+: c :: t)) ∧
    ∀ exclude, ∃ b, isPrefixedExclude (c :: t) exclude n = some b ∧
      (b = true ↔ ∃ d s x, find d s n = some (some x) ∧ d :: s <+: c :: t ∧
        ∃ a ∈ d :: s, a ∉ exclude)

/-- The keys that the walk looks for are those of `find/2`. -/
theorem acceptable_iff_find (h : Rooted n) (exclude l : List Nat) :
    Acceptable exclude l false (meaning · (n, none)) ↔
      ∃ d s x, find d s n = some (some x) ∧ d :: s <+: l ∧ ∃ a ∈ d :: s, a ∉ exclude := by
  constructor
  · rintro ⟨k, x, hk, hx, hacc⟩
    cases k with
    | nil =>
      cases meaning_nil_root.symm.trans hx
    | cons d s =>
      have hx' : meaning (d :: s) (n, none) = some x := hx
      exact ⟨d, s, x, by rw [find_eq h, hx'], hk, hacc.resolve_left Bool.false_ne_true⟩
  · rintro ⟨d, s, x, hx, hk, hacc⟩
    rw [find_eq h, Option.some.injEq] at hx
    exact ⟨d :: s, x, hk, hx, .inr hacc⟩

theorem isPrefixedExclude_spec (h : Rooted n) (exclude : List Nat) (c : Nat) (t : List Nat) :
    ∃ b, isPrefixedExclude (c :: t) exclude n = some b ∧
      (b = true ↔ ∃ d s x, find d s n = some (some x) ∧ d :: s <+: c :: t ∧
        ∃ a ∈ d :: s, a ∉ exclude) := by
  match n with
  | .str [] => exact ⟨false, rfl, by simp [find]⟩
  | .str (bh :: bt) => exact absurd (h.root _ rfl) (cons_ne_nil bh bt)
  | .node i0 i1 data =>
    obtain ⟨b, hb, hiff⟩ := isPrefixedMatch_spec h.formed exclude c t false
    exact ⟨b, hb, hiff.trans (acceptable_iff_find h exclude _)⟩

/-- **Prefix tests**: whatever operations made the trie. -/
theorem testsPrefixes {n : Tree V} (h : Reachable n) : TestsPrefixes n := by
  intro c t
  refine ⟨?_, fun exclude => isPrefixedExclude_spec h.rooted exclude c t⟩
  obtain ⟨b, hb, hiff⟩ := isPrefixedExclude_spec h.rooted [] c t
  refine ⟨b, ?_, hiff.trans ?_⟩
  · rw [isPrefixed_eq _ _ (cons_ne_nil c t) false]
    exact hb
  · -- every key has a character, and none is excluded
    simp

theorem testsPrefixes_erasedTrie : TestsPrefixes erasedTrie := testsPrefixes reachable_erasedTrie

end CloudI.Trie
