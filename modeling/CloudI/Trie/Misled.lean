import CloudI.Trie.Match2Spec

/-!
# Trie.Misled

Where `find_match2/2` is misled.  A place of the search is an element with the rest of the string,
or a node behind a wildcard.  `Misled` says that the search comes to a place where it accepts a
pattern that does not match, or leaves one out that does; away from these places its answer is
right.
-/

namespace CloudI.Trie

open List Option

variable {V : Type}

/-! ## places -/

/-- A key of the element matches. -/
def Serves (e : Element V) (l : List Nat) : Prop := ∃ k v, meaning k e = some v ∧ Matches2 k l

/-- A key of the element matches behind the wildcard `c`. -/
def ServesBehind (c : Nat) (e : Element V) (l : List Nat) : Prop :=
  ∃ k v, meaning k e = some v ∧ Matches2 (c :: k) l

/-- A place of the search: an element, or a node behind a `?` (with the character that is passed
over and the segment so far) or behind a `*` (with the value of the key that ends there). -/
inductive Place (V : Type) where
  | element (e : Element V)
  | quest (ignore : Option Nat) (seen : List Nat) (i0 i1 : Nat) (data : List (Element V))
  | star (wildValue : Option V) (i0 i1 : Nat) (data : List (Element V))

/-- The character that is passed over behind a `?`: the first one of the segment, if its element
has a value. -/
def ignored (h i0 i1 : Nat) (data : List (Element V)) : Option Nat :=
  (child h i0 i1 data).bind fun e => e.2.map fun _ => h

/-- **The search is misled** at a place, or at one that it comes to from there. -/
inductive Misled : Place V → List Nat → Prop
  /-- a suffix is accepted that does not match -/
  | suffix (haccept : wildcardMatch2Lists s l = .ok true) (hnot : ¬ Matches2 s l) :
      Misled (.element (.str s, some v)) l
  | char (he : child h i0 i1 data = some e) (hm : Misled (.element e) t) :
      Misled (.element (.node i0 i1 data, w)) (h :: t)
  | questSuffix (hfirst : ∀ e, child h i0 i1 data = some e → ¬ Serves e t)
      (he : child quest i0 i1 data = some (.str s, some v))
      (hm : Misled (.element (.str (quest :: s), some v)) (h :: t)) :
      Misled (.element (.node i0 i1 data, w)) (h :: t)
  | quest (hfirst : ∀ e, child h i0 i1 data = some e → ¬ Serves e t)
      (he : child quest i0 i1 data = some (.node j0 j1 data', w'))
      (hm : Misled (.quest (ignored h j0 j1 data') [h] j0 j1 data') t) :
      Misled (.element (.node i0 i1 data, w)) (h :: t)
  | starSuffix (hfirst : ∀ e, child h i0 i1 data = some e → ¬ Serves e t)
      (hquest : ∀ e, child quest i0 i1 data = some e → ¬ ServesBehind quest e (h :: t))
      (he : child star i0 i1 data = some (.str s, some v))
      (hm : Misled (.element (.str (star :: s), some v)) (h :: t)) :
      Misled (.element (.node i0 i1 data, w)) (h :: t)
  | star (hfirst : ∀ e, child h i0 i1 data = some e → ¬ Serves e t)
      (hquest : ∀ e, child quest i0 i1 data = some e → ¬ ServesBehind quest e (h :: t))
      (he : child star i0 i1 data = some (.node j0 j1 data', w'))
      (hm : Misled (.star w' j0 j1 data') t) :
      Misled (.element (.node i0 i1 data, w)) (h :: t)
  /-- a character of the segment is taken for the one behind the `?` -/
  | questAgain (hx : x ∈ seen) (hignore : ignore ≠ some x) (he : child x i0 i1 data = some e)
      (hserves : Serves e l) : Misled (.quest ignore seen i0 i1 data) (x :: l)
  /-- a pattern that ends at a node is not looked at -/
  | questEnd (hx : x ∉ seen) (hignore : ignore ≠ some x)
      (he : child x i0 i1 data = some (.node j0 j1 data', some v)) :
      Misled (.quest ignore seen i0 i1 data) [x]
  /-- a node does not match, and what matches later is not tried -/
  | questCommit (hignore : ignore ≠ some x)
      (he : child x i0 i1 data = some (.node j0 j1 data', w'))
      (hnot : x ∈ seen ∨ ¬ Serves (.node j0 j1 data', w') l)
      (hk : meaning k (.node i0 i1 data, none) = some v) (hgap : Gap (x :: seen) k l) :
      Misled (.quest ignore seen i0 i1 data) (x :: l)
  | questHere (hignore : ignore ≠ some x) (he : child x i0 i1 data = some e)
      (hm : Misled (.element e) l) : Misled (.quest ignore seen i0 i1 data) (x :: l)
  | questLater (hpass : ignore = some x ∨ ∀ e, child x i0 i1 data = some e →
        (∃ s v, e = (.str s, v)) ∧ ¬ Serves e l)
      (hm : Misled (.quest ignore (x :: seen) i0 i1 data) l) :
      Misled (.quest ignore seen i0 i1 data) (x :: l)
  /-- a pattern that ends at a node is not looked at -/
  | starEnd (he : child x i0 i1 data = some (.node j0 j1 data', some v)) :
      Misled (.star none i0 i1 data) [x]
  | starHere (he : child x i0 i1 data = some e) (hm : Misled (.element e) l) :
      Misled (.star w i0 i1 data) (x :: l)
  | starLater (hpass : ∀ e, child x i0 i1 data = some e → ¬ Serves e l)
      (hm : Misled (.star w i0 i1 data) l) : Misled (.star w i0 i1 data) (x :: l)

/-! ## what the search should reach -/

/-- A key of the element that matches. -/
def Reaches2 (key : List Nat) (e : Element V) (l : List Nat) (p : List Nat) (v : V) : Prop :=
  ∃ k, p = key.reverse ++ k ∧ meaning k e = some v ∧ Matches2 k l

/-- A key of the element that matches behind the wildcard `c`. -/
def ReachesBehind (c : Nat) (key : List Nat) (e : Element V) (l : List Nat) (p : List Nat)
    (v : V) : Prop :=
  ∃ k, p = (c :: key).reverse ++ k ∧ meaning k e = some v ∧ Matches2 (c :: k) l

/-- A key of the element that matches behind a `?` and its segment so far. -/
def ReachesGap (key seen : List Nat) (e : Element V) (l : List Nat) (p : List Nat) (v : V) : Prop :=
  ∃ k, p = key.reverse ++ k ∧ meaning k e = some v ∧ Gap seen k l

/-- A key of the element that matches an end of `l`. -/
def ReachesLater2 (key : List Nat) (e : Element V) (l : List Nat) (p : List Nat) (v : V) : Prop :=
  ∃ k, p = key.reverse ++ k ∧ meaning k e = some v ∧ Later2 k l

/-- Every key below the characters `key` is a well-formed pattern. -/
def PatternsIn2 (key : List Nat) (e : Element V) : Prop :=
  ∀ k v, meaning k e = some v → WellFormed2 (key.reverse ++ k)

theorem PatternsIn2.child (h : PatternsIn2 key (.node i0 i1 data, w))
    (hchild : child c i0 i1 data = some e) : PatternsIn2 (c :: key) (e : Element V) := by
  intro k v hk
  have hwf := h (c :: k) v (by rw [meaning_of_child hchild, hk])
  simpa using hwf

variable {s key l : List Nat} {v : V} {e : Element V} {w : Option V} {data : List (Element V)}

theorem PatternsIn2.suffix (h : PatternsIn2 key (.str s, some v)) :
    WellFormed2 (key.reverse ++ s) := h s v (by rw [meaning_str, if_pos rfl])

theorem not_serves_of_none (key : List Nat) (h : ∀ p v, ¬ Reaches2 key e l p v) : ¬ Serves e l := by
  rintro ⟨k, v, hk, hmatch⟩
  exact h _ v ⟨k, rfl, hk, hmatch⟩

theorem Answers.orNext_of {F G : List Nat → V → Prop} (h1 : Answers r F) (next : Found V)
    (h2 : (∀ p v, ¬ F p v) → Answers next G) :
    Answers (Trie.orNext next r) fun p v => F p v ∨ G p v := by
  rcases h1 with ⟨p, v, rfl, hF⟩ | ⟨rfl, hF⟩
  · exact .inl ⟨p, v, rfl, .inl hF⟩
  · exact (h2 hF).congr fun p v => ⟨.inr, fun h => h.resolve_left (hF p v)⟩

theorem reaches2_str_none : ¬ Reaches2 key ((.str s, none) : Element V) l p v := by
  rintro ⟨k, -, hk, -⟩
  rw [meaning_str, ite_self] at hk
  cases hk

theorem reaches2_str :
    Reaches2 key (.str s, some v) l p x ↔ p = key.reverse ++ s ∧ x = v ∧ Matches2 s l := by
  constructor
  · rintro ⟨k, hp, hk, hmatch⟩
    rw [meaning_str] at hk
    split at hk
    next heq =>
        cases hk
        exact ⟨heq ▸ hp, rfl, heq ▸ hmatch⟩
    next => cases hk
  · rintro ⟨hp, rfl, hmatch⟩
    exact ⟨s, hp, by rw [meaning_str, if_pos rfl], hmatch⟩

theorem reachesBehind_str : ReachesBehind c key (.str s, some v) l p x ↔
      p = key.reverse ++ c :: s ∧ x = v ∧ Matches2 (c :: s) l := by
  constructor
  · rintro ⟨k, hp, hk, hmatch⟩
    rw [meaning_str] at hk
    split at hk
    next heq =>
        cases hk
        exact ⟨by simpa [heq] using hp, rfl, heq ▸ hmatch⟩
    next => cases hk
  · rintro ⟨hp, rfl, hmatch⟩
    exact ⟨s, by simpa using hp, by rw [meaning_str, if_pos rfl], hmatch⟩

/-- **The keys of a node that match**: those below the first character, and those below the two
wildcards. -/
theorem reaches2_node (hh : ¬ Wild h) : Reaches2 key (.node i0 i1 data, w) (h :: t) p v ↔
      (∃ e, child h i0 i1 data = some e ∧ Reaches2 (h :: key) e t p v) ∨
      (∃ e, child quest i0 i1 data = some e ∧ ReachesBehind quest key e (h :: t) p v) ∨
      ∃ e, child star i0 i1 data = some e ∧ ReachesBehind star key e (h :: t) p v := by
  constructor
  · rintro ⟨k, hp, hk, hmatch⟩
    cases k with
    | nil =>
      rw [matches2_nil] at hmatch
      cases hmatch
    | cons c k =>
      rw [meaning_child] at hk
      obtain ⟨e, he, hke⟩ := bind_eq_some_iff.mp hk
      by_cases hstar : c = star
      · subst hstar
        exact .inr (.inr ⟨e, he, k, by simpa using hp, hke, hmatch⟩)
      · by_cases hquest : c = quest
        · subst hquest
          exact .inr (.inl ⟨e, he, k, by simpa using hp, hke, hmatch⟩)
        · obtain ⟨rfl, hrest⟩ := (matches2_char (not_or.mpr ⟨hstar, hquest⟩)).mp hmatch
          exact .inl ⟨e, he, k, by simpa using hp, hke, hrest⟩
  · rintro (⟨e, he, k, hp, hk, hmatch⟩ | ⟨e, he, k, hp, hk, hmatch⟩ | ⟨e, he, k, hp, hk, hmatch⟩)
    · exact ⟨h :: k, by simpa using hp, by rw [meaning_of_child he, hk], .char hh hmatch⟩
    · exact ⟨quest :: k, by simpa using hp, by rw [meaning_of_child he, hk], hmatch⟩
    · exact ⟨star :: k, by simpa using hp, by rw [meaning_of_child he, hk], hmatch⟩

/-- Behind a `?`: a key that goes on with the character here, or later. -/
theorem reachesGap_cons : ReachesGap key seen (.node i0 i1 data, w) (x :: l) p v ↔
      (x ∉ seen ∧ ∃ e, child x i0 i1 data = some e ∧ Reaches2 (x :: key) e l p v) ∨
      ReachesGap key (x :: seen) (.node i0 i1 data, w) l p v := by
  constructor
  · rintro ⟨k, hp, hk, hgap⟩
    rcases gap_cons.mp hgap with ⟨k', rfl, hseen, hmatch⟩ | hgap
    · rw [meaning_child] at hk
      obtain ⟨e, he, hke⟩ := bind_eq_some_iff.mp hk
      exact .inl ⟨hseen, e, he, k', by simpa using hp, hke, hmatch⟩
    · exact .inr ⟨k, hp, hk, hgap⟩
  · rintro (⟨hseen, e, he, k, hp, hk, hmatch⟩ | ⟨k, hp, hk, hgap⟩)
    · refine ⟨x :: k, by simpa using hp, by rw [meaning_of_child he, hk], gap_cons.mpr ?_⟩
      exact .inl ⟨k, rfl, hseen, hmatch⟩
    · exact ⟨k, hp, hk, gap_cons.mpr (.inr hgap)⟩

/-- Behind a `*`: the keys of a node that match here, or later. -/
theorem reachesLater2_cons (hx : ¬ Wild x) (hwf : PatternsIn2 (star :: key) (.node i0 i1 data, w)) :
    ReachesLater2 (star :: key) (.node i0 i1 data, w) (x :: l) p v ↔
      (∃ e, child x i0 i1 data = some e ∧ Reaches2 (x :: star :: key) e l p v) ∨
      ReachesLater2 (star :: key) (.node i0 i1 data, w) l p v := by
  constructor
  · rintro ⟨k, hp, hk, hlater⟩
    rcases later2_cons.mp hlater with hmatch | hlater
    · cases k with
      | nil =>
        rw [matches2_nil] at hmatch
        cases hmatch
      | cons c k =>
        have hpattern := hwf (c :: k) v hk
        rw [reverse_cons, append_assoc] at hpattern
        have hc : ¬ Wild c := hpattern.of_append.not_wild (.inl rfl)
        obtain ⟨rfl, hrest⟩ := (matches2_char hc).mp hmatch
        rw [meaning_child] at hk
        obtain ⟨e, he, hke⟩ := bind_eq_some_iff.mp hk
        exact .inl ⟨e, he, k, by simpa using hp, hke, hrest⟩
    · exact .inr ⟨k, hp, hk, hlater⟩
  · rintro (⟨e, he, k, hp, hk, hmatch⟩ | ⟨k, hp, hk, hlater⟩)
    · refine ⟨x :: k, by simpa using hp, by rw [meaning_of_child he, hk], later2_cons.mpr ?_⟩
      exact .inl (.char hx hmatch)
    · exact ⟨k, hp, hk, later2_cons.mpr (.inr hlater)⟩

/-! ## the search -/

theorem Formed.child (h : Formed (.node i0 i1 data, w)) (hc : ¬ (c < i0 ∨ c > i1)) :
    ∃ e : Element V, data[c - i0]? = some e ∧ Trie.child c i0 i1 data = some e ∧ Formed e := by
  obtain ⟨e, hget, hformed, -⟩ := h.getElem? hc
  exact ⟨e, hget, child_eq_some hc hget, hformed⟩

theorem answers_matchSuffix2 (key : List Nat) (hs : WellFormed2 s) (hl : Free l)
    (hm : ¬ Misled (.element (.str s, some v)) l) :
    Answers (matchSuffix2 key s v l) fun p x => p = key.reverse ++ s ∧ x = v ∧ Matches2 s l := by
  obtain ⟨b, hb, hcover⟩ := wildcardMatch2Lists_spec s l hs hl
  rw [matchSuffix2, hb]
  cases b with
  | true =>
    have hmatch : Matches2 s l := by
      by_contra hnot
      exact hm (.suffix hb hnot)
    exact .some ⟨rfl, rfl, hmatch⟩
  | false => exact .none fun p x h => Bool.false_ne_true (hcover h.2.2)

/-- What `find_match2_node/3` answers for the string `l`. -/
def NodeSpec2 (V : Type) (l : List Nat) : Prop :=
  l ≠ [] → ∀ (key : List Nat) (i0 i1 : Nat) (data : List (Element V)) (w : Option V),
    Formed (.node i0 i1 data, w) → PatternsIn2 key (.node i0 i1 data, w) →
    ¬ Misled (.element (.node i0 i1 data, w)) l →
    Answers (findMatch2Node l key (.node i0 i1 data)) (Reaches2 key (.node i0 i1 data, w) l)

/-- What `find_match2_pattern0_N/4` answers for the string `l`. -/
def QuestSpec (V : Type) (l : List Nat) : Prop :=
  ∀ (ignore : Option Nat) (seen key : List Nat) (i0 i1 : Nat) (data : List (Element V))
    (w : Option V), Formed (.node i0 i1 data, w) → PatternsIn2 (quest :: key) (.node i0 i1 data, w) →
    (∀ x, ignore = some x → x ∈ seen) → ¬ Misled (.quest ignore seen i0 i1 data) l →
    Answers (findMatch2Pattern0N l ignore (quest :: key) (.node i0 i1 data))
      (ReachesGap (quest :: key) seen (.node i0 i1 data, w) l)

/-- What `find_match2_pattern1_N/4` answers for the string `l`. -/
def StarSpec (V : Type) (l : List Nat) : Prop :=
  ∀ (key : List Nat) (i0 i1 : Nat) (data : List (Element V)) (w : Option V),
    Formed (.node i0 i1 data, w) → PatternsIn2 (star :: key) (.node i0 i1 data, w) →
    ¬ Misled (.star w i0 i1 data) l →
    Answers (findMatch2Pattern1N l (star :: key) w (.node i0 i1 data))
      (ReachesLater2 (star :: key) (.node i0 i1 data, w) l)

/-- The exact part of `find_match2_node/3`. -/
theorem findMatch2Node_exact (h : Formed (.node i0 i1 data, w))
    (hwf : PatternsIn2 key (.node i0 i1 data, w)) (hl : Free (c :: t))
    (hm : ¬ Misled (.element (.node i0 i1 data, w)) (c :: t)) (hN : NodeSpec2 V t) :
    Answers (exactPart findMatch2Node matchSuffix2 c t key i0 i1 data)
      fun p v => ∃ e, child c i0 i1 data = some e ∧ Reaches2 (c :: key) e t p v := by
  unfold exactPart
  by_cases hrange : c < i0 ∨ c > i1
  · rw [if_pos hrange]
    exact .none fun p v => not_exists_child hrange
  · obtain ⟨e, hget, hchild, hformed⟩ := h.child hrange
    rw [free_cons] at hl
    have hwf' : PatternsIn2 (c :: key) e := hwf.child hchild
    have hm' : ¬ Misled (.element e) t := fun h => hm (.char hchild h)
    rw [if_neg hrange, hget]
    refine Answers.congr ?_ fun p v => exists_child hchild
    match t, e with
    | [], (.node j0 j1 data', some v) => exact .some ⟨[], by simp, rfl, .nil⟩
    | [], (.node j0 j1 data', none) =>
      refine .none fun p v => ?_
      rintro ⟨k, -, hk, hmatch⟩
      rw [matches2_nil_right] at hmatch
      subst hmatch
      cases hk
    | [], (.str [], some v) => exact .some (reaches2_str.mpr ⟨by simp, rfl, .nil⟩)
    | [], (.str s, none) => cases s <;> exact .none fun p v => reaches2_str_none
    | [], (.str (bh :: bt), some v) =>
      refine .none fun p x hreach => ?_
      obtain ⟨-, -, hmatch⟩ := reaches2_str.mp hreach
      cases matches2_nil_right.mp hmatch
    | h1 :: t1, (.node j0 j1 data', value) =>
      exact hN (cons_ne_nil h1 t1) (c :: key) j0 j1 data' value hformed hwf' hm'
    | h1 :: t1, (.str s, none) => exact .none fun p v => reaches2_str_none
    | h1 :: t1, (.str s, some v) =>
      have hs : WellFormed2 s := (hwf'.suffix).of_append
      exact (answers_matchSuffix2 (c :: key) hs hl.2 hm').congr fun p x => reaches2_str.symm

theorem answers_wildSuffix (hwf : PatternsIn2 (c :: key) (.str s, some v)) (hl : Free l)
    (hm : ¬ Misled (.element (.str (c :: s), some v)) l) :
    Answers (matchSuffix2 key (c :: s) v l) (ReachesBehind c key (.str s, some v) l) := by
  have hs : WellFormed2 (c :: s) := by
    have hpattern := hwf.suffix
    rw [reverse_cons, append_assoc] at hpattern
    exact hpattern.of_append
  exact (answers_matchSuffix2 key hs hl hm).congr fun p x => reachesBehind_str.symm

/-- `find_match2_pattern0_0/3` searches below the `?` of a node. -/
theorem findMatch2Pattern00_spec (h : Formed (.node i0 i1 data, w))
    (hwf : PatternsIn2 key (.node i0 i1 data, w)) (hl : Free (c :: t))
    (hm : ¬ Misled (.element (.node i0 i1 data, w)) (c :: t))
    (hfirst : ∀ e, child c i0 i1 data = some e → ¬ Serves e t) (hQ : QuestSpec V t) :
    Answers (findMatch2Pattern00 (findMatch2Pattern0N t) c (c :: t) key (.node i0 i1 data))
      fun p v => ∃ e, child quest i0 i1 data = some e ∧ ReachesBehind quest key e (c :: t) p v := by
  rw [findMatch2Pattern00]
  by_cases hrange : quest < i0 ∨ quest > i1
  · rw [if_neg (by omega)]
    exact .none fun p v => not_exists_child hrange
  · obtain ⟨e, hget, hchild, hformed⟩ := h.child hrange
    have hwf' : PatternsIn2 (quest :: key) e := hwf.child hchild
    rw [if_pos (by omega), hget]
    refine Answers.congr ?_ fun p v => exists_child hchild
    match e with
    | (.node j0 j1 data', value) =>
      have hm' : ¬ Misled (.quest (ignored c j0 j1 data') [c] j0 j1 data') t :=
        fun h => hm (.quest hfirst hchild h)
      have hseen : ∀ x, ignored c j0 j1 data' = some x → x ∈ [c] := by
        intro x hx
        obtain ⟨e, -, he⟩ := bind_eq_some_iff.mp hx
        obtain ⟨v, -, rfl⟩ := map_eq_some_iff.mp he
        exact mem_cons_self
      have hspec := hQ (ignored c j0 j1 data') [c] key j0 j1 data' value hformed hwf' hseen hm'
      have hgap : ∀ p v, ReachesGap (quest :: key) [c] (.node j0 j1 data', value) t p v ↔
          ReachesBehind quest key (.node j0 j1 data', value) (c :: t) p v := by
        intro p v
        simp only [ReachesGap, ReachesBehind, matches2_quest]
      have hignored : findMatch2Pattern01 (findMatch2Pattern0N t) c (quest :: key)
          (.node j0 j1 data') = findMatch2Pattern0N t (ignored c j0 j1 data') (quest :: key)
            (.node j0 j1 data') := by
        rw [findMatch2Pattern01, ignored]
        by_cases hrange' : c < j0 ∨ c > j1
        · rw [if_pos hrange', child_out hrange']
          rfl
        · obtain ⟨e, hget', hchild', -⟩ := hformed.child hrange'
          rw [if_neg hrange', hchild', hget']
          obtain ⟨n, value'⟩ := e
          cases value' <;> rfl
      show Answers (findMatch2Pattern01 _ c (quest :: key) (.node j0 j1 data')) _
      rw [hignored]
      exact hspec.congr hgap
    | (.str s, none) =>
      have hnone : Answers (.ok none)
          (ReachesBehind quest key ((.str s, none) : Element V) (c :: t)) := by
        refine .none fun p v => ?_
        rintro ⟨k, -, hk, -⟩
        rw [meaning_str, ite_self] at hk
        cases hk
      cases s <;> exact hnone
    | (.str [], some v) =>
      -- a `?` is not the last character
      have hlast := hwf'.suffix
      rw [append_nil, reverse_cons] at hlast
      exact absurd (getLast?_concat) hlast.2
    | (.str (bh :: bt), some v) =>
      exact answers_wildSuffix hwf' hl fun h => hm (.questSuffix hfirst hchild h)

/-- `find_match2_pattern1_1/3` searches below the `*` of a node. -/
theorem findMatch2Pattern11_spec (h : Formed (.node i0 i1 data, w))
    (hwf : PatternsIn2 key (.node i0 i1 data, w)) (hl : Free (c :: t))
    (hm : ¬ Misled (.element (.node i0 i1 data, w)) (c :: t))
    (hfirst : ∀ e, child c i0 i1 data = some e → ¬ Serves e t)
    (hquest : ∀ e, child quest i0 i1 data = some e → ¬ ServesBehind quest e (c :: t))
    (hS : StarSpec V t) :
    Answers (findMatch2Pattern11 (findMatch2Pattern1N t) (c :: t) key (.node i0 i1 data))
      fun p v => ∃ e, child star i0 i1 data = some e ∧ ReachesBehind star key e (c :: t) p v := by
  rw [findMatch2Pattern11]
  by_cases hrange : star < i0 ∨ star > i1
  · rw [if_neg (by omega)]
    exact .none fun p v => not_exists_child hrange
  · obtain ⟨e, hget, hchild, hformed⟩ := h.child hrange
    have hwf' : PatternsIn2 (star :: key) e := hwf.child hchild
    rw [if_pos (by omega), hget]
    refine Answers.congr ?_ fun p v => exists_child hchild
    match e with
    | (.node j0 j1 data', value) =>
      have hm' : ¬ Misled (.star value j0 j1 data') t :=
        fun h => hm (.star hfirst hquest hchild h)
      refine (hS key j0 j1 data' value hformed hwf' hm').congr fun p v => ?_
      simp only [ReachesLater2, ReachesBehind, matches2_star]
    | (.str s, none) =>
      refine .none fun p v => ?_
      rintro ⟨k, -, hk, -⟩
      rw [meaning_str, ite_self] at hk
      cases hk
    | (.str s, some v) =>
      exact answers_wildSuffix hwf' hl fun h => hm (.starSuffix hfirst hquest hchild h)

/-- `find_match2_pattern0_N/4` at a character that is not passed over. -/
theorem findMatch2Pattern0N_here (hchild : child x i0 i1 data = some e) (hformed : Formed e)
    (hwf : PatternsIn2 (x :: quest :: key) e) (hl : Free l) (hignore : ignore ≠ some x)
    (hm : ¬ Misled (.quest ignore seen i0 i1 data) (x :: l)) (hN : NodeSpec2 V l)
    (hlater : ¬ Misled (.quest ignore (x :: seen) i0 i1 data) l →
      Answers (findMatch2Pattern0N l ignore (quest :: key) (.node i0 i1 data))
        (ReachesGap (quest :: key) (x :: seen) (.node i0 i1 data, w) l)) :
    Answers (match some e with
      | none => .error .badarg
      | some (.node j0 j1 data, _) => findMatch2Node l (x :: quest :: key) (.node j0 j1 data)
      | some (.str _, none) => findMatch2Pattern0N l ignore (quest :: key) (.node i0 i1 data)
      | some (.str s, some v) =>
        orNext (findMatch2Pattern0N l ignore (quest :: key) (.node i0 i1 data))
          (matchSuffix2 (x :: quest :: key) s v l))
      fun p v => (x ∉ seen ∧ Reaches2 (x :: quest :: key) e l p v) ∨
        ReachesGap (quest :: key) (x :: seen) (.node i0 i1 data, w) l p v := by
  -- a character of the segment finds nothing
  have hagain : ∀ p v, Reaches2 (x :: quest :: key) e l p v → x ∉ seen := by
    rintro p v ⟨k, -, hk, hmatch⟩ hx
    exact hm (.questAgain hx hignore hchild ⟨k, v, hk, hmatch⟩)
  have hhere : ¬ Misled (.element e) l := fun h => hm (.questHere hignore hchild h)
  match e with
  | (.node j0 j1 data', value) =>
    have hcommit : (x ∈ seen ∨ ¬ Serves (.node j0 j1 data', value) l) →
        ∀ p v, ¬ ReachesGap (quest :: key) (x :: seen) (.node i0 i1 data, w) l p v := by
      rintro hnot p v ⟨k, -, hk, hgap⟩
      cases k with
      | nil => obtain ⟨_, _, _, _, hp, -⟩ := hgap; cases hp
      | cons c k => exact hm (.questCommit hignore hchild hnot hk hgap)
    cases l with
    | nil =>
      show Answers (findMatch2Node [] (x :: quest :: key) (.node j0 j1 data')) _
      rw [findMatch2Node]
      refine .none fun p v => ?_
      rintro (⟨hx, k, -, hk, hmatch⟩ | ⟨k, -, -, hgap⟩)
      · rw [matches2_nil_right] at hmatch
        subst hmatch
        cases (show value = some v from hk)
        exact hm (.questEnd hx hignore hchild)
      · exact not_gap_nil hgap
    | cons y l =>
      have hsub := hN (cons_ne_nil y l) (x :: quest :: key) j0 j1 data' value hformed hwf hhere
      rcases hsub with ⟨p, v, hr, hreach⟩ | ⟨hr, hnone⟩
      · exact .inl ⟨p, v, hr, .inl ⟨hagain p v hreach, hreach⟩⟩
      · refine .inr ⟨hr, fun p v => ?_⟩
        rintro (⟨-, hreach⟩ | hgap)
        · exact hnone p v hreach
        · exact hcommit (.inr (not_serves_of_none _ hnone)) p v hgap
  | (.str s, none) =>
    have hm' : ¬ Misled (.quest ignore (x :: seen) i0 i1 data) l := by
      refine fun h => hm (.questLater (.inr fun e he => ?_) h)
      rw [hchild] at he
      cases he
      exact ⟨⟨s, none, rfl⟩, not_serves_of_none [] fun p v => reaches2_str_none⟩
    refine (hlater hm').congr fun p v => ⟨.inr, ?_⟩
    rintro (⟨-, hreach⟩ | hgap)
    · exact absurd hreach reaches2_str_none
    · exact hgap
  | (.str s, some v) =>
    have hs : WellFormed2 s := hwf.suffix.of_append
    have hsuffix := (answers_matchSuffix2 (x :: quest :: key) hs hl hhere).congr
      fun p x => reaches2_str.symm
    refine (hsuffix.orNext_of _ fun hnone => hlater fun h => ?_).congr fun p v =>
      or_congr_left ⟨fun h => ⟨hagain p v h, h⟩, fun h => h.2⟩
    refine hm (.questLater (.inr fun e he => ?_) h)
    rw [hchild] at he
    cases he
    exact ⟨⟨s, some v, rfl⟩, not_serves_of_none _ hnone⟩

/-- `find_match2_pattern1_N/4` at an element. -/
theorem findMatch2Pattern1N_here (hchild : child x i0 i1 data = some e) (hformed : Formed e)
    (hwf : PatternsIn2 (x :: star :: key) e) (hl : Free l)
    (hm : ¬ Misled (.star w i0 i1 data) (x :: l)) (hN : NodeSpec2 V l)
    (hlater : ¬ Misled (.star w i0 i1 data) l →
      Answers (findMatch2Pattern1N l (star :: key) w (.node i0 i1 data))
        (ReachesLater2 (star :: key) (.node i0 i1 data, w) l)) :
    Answers (match some e with
      | none => .error .badarg
      | some (.node j0 j1 data', _) =>
        orNext (findMatch2Pattern1N l (star :: key) w (.node i0 i1 data))
          (findMatch2Node l (x :: star :: key) (.node j0 j1 data'))
      | some (.str _, none) => findMatch2Pattern1N l (star :: key) w (.node i0 i1 data)
      | some (.str s, some v) =>
        orNext (findMatch2Pattern1N l (star :: key) w (.node i0 i1 data))
          (matchSuffix2 (x :: star :: key) s v l))
      fun p v => Reaches2 (x :: star :: key) e l p v ∨
        ReachesLater2 (star :: key) (.node i0 i1 data, w) l p v := by
  have hhere : ¬ Misled (.element e) l := fun h => hm (.starHere hchild h)
  have hnext : (∀ p v, ¬ Reaches2 (x :: star :: key) e l p v) →
      Answers (findMatch2Pattern1N l (star :: key) w (.node i0 i1 data))
        (ReachesLater2 (star :: key) (.node i0 i1 data, w) l) := by
    refine fun hnone => hlater fun h => hm (.starLater (fun e' he => ?_) h)
    rw [hchild] at he
    cases he
    exact not_serves_of_none (x :: star :: key) hnone
  match e with
  | (.node j0 j1 data', value) =>
    cases l with
    | nil =>
      show Answers (orNext (findMatch2Pattern1N [] (star :: key) w (.node i0 i1 data))
        (findMatch2Node [] (x :: star :: key) (.node j0 j1 data'))) _
      rw [findMatch2Node]
      cases w with
      | some wildValue =>
        -- the `*` alone matches
        rw [orNext, findMatch2Pattern1N]
        exact .some (.inr ⟨[], by simp, rfl, later2_nil.mpr rfl⟩)
      | none =>
        refine .none fun p v => ?_
        rintro (⟨k, -, hk, hmatch⟩ | ⟨k, -, hk, hlater'⟩)
        · rw [matches2_nil_right] at hmatch
          subst hmatch
          cases (show value = some v from hk)
          exact hm (.starEnd hchild)
        · rw [later2_nil] at hlater'
          subst hlater'
          cases hk
    | cons y l =>
      have hsub := hN (cons_ne_nil y l) (x :: star :: key) j0 j1 data' value hformed hwf hhere
      exact hsub.orNext_of _ hnext
  | (.str s, none) =>
    refine (hnext fun p v => reaches2_str_none).congr fun p v => ⟨.inr, ?_⟩
    rintro (hreach | hgap)
    · exact absurd hreach reaches2_str_none
    · exact hgap
  | (.str s, some v) =>
    have hs : WellFormed2 s := hwf.suffix.of_append
    have hsuffix := (answers_matchSuffix2 (x :: star :: key) hs hl hhere).congr
      fun p x => reaches2_str.symm
    exact hsuffix.orNext_of _ hnext

/-- **Step lemma**, by induction on the string: the search at a node, and behind each wildcard. -/
theorem search2_spec (l : List Nat) (hl : Free l) :
    NodeSpec2 V l ∧ QuestSpec V l ∧ StarSpec V l := by
  induction l with
  | nil =>
    refine ⟨fun hl => absurd rfl hl, ?_, ?_⟩
    · intro ignore seen key i0 i1 data w _ _ _ _
      rw [findMatch2Pattern0N]
      refine .none fun p v => ?_
      rintro ⟨k, -, -, hgap⟩
      exact not_gap_nil hgap
    · intro key i0 i1 data w _ _ _
      cases w with
      | none =>
        rw [findMatch2Pattern1N]
        refine .none fun p v => ?_
        rintro ⟨k, -, hk, hlater⟩
        rw [later2_nil] at hlater
        subst hlater
        cases hk
      | some wildValue =>
        rw [findMatch2Pattern1N]
        exact .some ⟨[], by simp, rfl, later2_nil.mpr rfl⟩
  | cons h t ih =>
    have hfree := free_cons.mp hl
    obtain ⟨ihN, ihQ, ihS⟩ := ih hfree.2
    refine ⟨?_, ?_, ?_⟩
    · intro _ key i0 i1 data w hformed hwf hm
      rw [findMatch2Node, if_neg hfree.1]
      have hexact := findMatch2Node_exact hformed hwf hl hm ihN
      refine (hexact.orNext_of _ fun hnone => ?_).congr fun p v => (reaches2_node hfree.1).symm
      have hfirst : ∀ e, child h i0 i1 data = some e → ¬ Serves e t := fun e he =>
        not_serves_of_none (h :: key) fun p v hreach => hnone p v ⟨e, he, hreach⟩
      refine (findMatch2Pattern00_spec hformed hwf hl hm hfirst ihQ).orNext_of _ fun hnone => ?_
      have hquest : ∀ e, child quest i0 i1 data = some e → ¬ ServesBehind quest e (h :: t) := by
        rintro e he ⟨k, v, hk, hmatch⟩
        exact hnone _ v ⟨e, he, k, rfl, hk, hmatch⟩
      exact findMatch2Pattern11_spec hformed hwf hl hm hfirst hquest ihS
    · intro ignore seen key i0 i1 data w hformed hwf hignored hm
      have hlater : ∀ ignore seen, (∀ x, ignore = some x → x ∈ seen) →
          ¬ Misled (.quest ignore seen i0 i1 data) t →
          Answers (findMatch2Pattern0N t ignore (quest :: key) (.node i0 i1 data))
            (ReachesGap (quest :: key) seen (.node i0 i1 data, w) t) :=
        fun ignore seen hignored hm => ihQ ignore seen key i0 i1 data w hformed hwf hignored hm
      have hignored' : ∀ x, ignore = some x → x ∈ h :: seen := fun x hx =>
        mem_cons_of_mem h (hignored x hx)
      rw [findMatch2Pattern0N, if_neg fun hq => hfree.1 (.inr hq)]
      by_cases hignore : ignore = some h
      · rw [if_pos hignore]
        have hm' : ¬ Misled (.quest ignore (h :: seen) i0 i1 data) t := fun h =>
          hm (.questLater (.inl hignore) h)
        refine (hlater ignore (h :: seen) hignored' hm').congr fun p v => ?_
        rw [reachesGap_cons]
        exact ⟨.inr, fun hgap => hgap.resolve_left fun hx => hx.1 (hignored h hignore)⟩
      · rw [if_neg hignore]
        by_cases hrange : h < i0 ∨ h > i1
        · have hm' : ¬ Misled (.quest ignore (h :: seen) i0 i1 data) t := by
            refine fun hmis => hm (.questLater (.inr fun e he => ?_) hmis)
            rw [child_out hrange] at he
            cases he
          show Answers (if h < i0 ∨ h > i1 then _ else _) _
          rw [if_pos hrange]
          refine (hlater ignore (h :: seen) hignored' hm').congr fun p v => ?_
          rw [reachesGap_cons, child_out hrange]
          simp
        · obtain ⟨e, hget, hchild, hformed'⟩ := hformed.child hrange
          have hhere := findMatch2Pattern0N_here hchild hformed' (hwf.child hchild) hfree.2
            hignore hm ihN (hlater ignore (h :: seen) hignored')
          show Answers (if h < i0 ∨ h > i1 then _ else _) _
          rw [if_neg hrange, hget]
          refine hhere.congr fun p v => ?_
          rw [reachesGap_cons, hchild]
          simp
    · intro key i0 i1 data w hformed hwf hm
      have hlater : ¬ Misled (.star w i0 i1 data) t →
          Answers (findMatch2Pattern1N t (star :: key) w (.node i0 i1 data))
            (ReachesLater2 (star :: key) (.node i0 i1 data, w) t) :=
        ihS key i0 i1 data w hformed hwf
      rw [findMatch2Pattern1N, if_neg fun hs => hfree.1 (.inl hs)]
      by_cases hrange : h < i0 ∨ h > i1
      · have hm' : ¬ Misled (.star w i0 i1 data) t := by
          refine fun hmis => hm (.starLater (fun e he => ?_) hmis)
          rw [child_out hrange] at he
          cases he
        rw [if_pos hrange]
        refine (hlater hm').congr fun p v => ?_
        rw [reachesLater2_cons hfree.1 hwf, child_out hrange]
        simp
      · obtain ⟨e, hget, hchild, hformed'⟩ := hformed.child hrange
        have hhere := findMatch2Pattern1N_here hchild hformed' (hwf.child hchild) hfree.2 hm ihN
          hlater
        rw [if_neg hrange, hget]
        refine hhere.congr fun p v => ?_
        rw [reachesLater2_cons hfree.1 hwf, hchild]
        simp

/-! ## find_match2 -/

/-- The search of a well-formed trie of well-formed patterns, where it is not misled. -/
theorem findMatch2_spec {n : Tree V} (h : Rooted n)
    (hwf : ∀ p v, meaning p (n, none) = some v → WellFormed2 p) (hfree : Free l)
    (hm : ¬ Misled (.element (n, none)) l) :
    Answers (findMatch2 l n) fun p v => meaning p (n, none) = some v ∧ Matches2 p l := by
  match n with
  | .str s =>
    cases h.root s rfl
    refine .none fun p v => ?_
    rintro ⟨hp, -⟩
    rw [meaning_str, ite_self] at hp
    cases hp
  | .node i0 i1 data =>
    cases l with
    | nil =>
      show Answers (findMatch2Node [] [] (.node i0 i1 data)) _
      rw [findMatch2Node]
      refine .none fun p v => ?_
      rintro ⟨hp, hmatch⟩
      rw [matches2_nil_right] at hmatch
      subst hmatch
      cases hp
    | cons c t =>
      have hspec := (search2_spec (c :: t) hfree).1 (cons_ne_nil c t) [] i0 i1 data none
        h.formed hwf hm
      refine hspec.congr fun p v => ?_
      constructor
      · rintro ⟨k, rfl, hk⟩
        exact hk
      · exact fun hp => ⟨p, rfl, hp⟩

/-- **`find_match2/2` is right where it is not misled**: it answers a stored pattern that
`pattern2_parse/2` accepts the string with, or `error` when there is none. -/
theorem findMatch2_right (stores : List ((Nat × List Nat) × V))
    (hwf : ∀ x ∈ stores, WellFormed2 (x.1.1 :: x.1.2)) (l : List Nat) (hfree : Free l) :
    ∃ n, storeAll stores = some n ∧ (¬ Misled (.element (n, none)) l →
      Answers (findMatch2 l n) fun p v => stored stores p = some v ∧
        ∃ segments, pattern2Parse p l = .ok (some segments)) := by
  obtain ⟨n, hn, hbuilt⟩ := storeAll_built stores
  refine ⟨n, hn, fun hm => ?_⟩
  have hpatterns : ∀ p v, meaning p (n, none) = some v → WellFormed2 p := by
    intro p v hp
    rw [hbuilt.meaning_eq] at hp
    obtain ⟨x, hx, rfl⟩ := mem_of_stored hp
    exact hwf x hx
  refine (findMatch2_spec hbuilt.fits.rooted hpatterns hfree hm).congr fun p v => ?_
  rw [← hbuilt.meaning_eq]
  refine and_congr_right fun hp => ?_
  obtain ⟨o, ho, hiff⟩ := pattern2Parse_spec (hpatterns p v hp) hfree
  rw [← hiff, ho]
  cases o <;> simp

/-- The pattern "?ab" and the string "xab". -/
theorem findMatch2_right_question : ∃ n, storeAll [((63, [97, 98]), 1)] = some n ∧
      Answers (findMatch2 [120, 97, 98] n) fun p v =>
        stored [((63, [97, 98]), 1)] p = some v ∧
          ∃ segments, pattern2Parse p [120, 97, 98] = .ok (some segments) := by
  obtain ⟨n, hn, hright⟩ := findMatch2_right [((63, [97, 98]), 1)] (by decide) [120, 97, 98]
    (by decide)
  refine ⟨n, hn, hright ?_⟩
  have hmatch : Matches2 [63, 97, 98] [120, 97, 98] :=
    .quest (s := [120]) (by decide) (by decide) (.char (by decide) .nil)
  cases hn
  intro hm
  cases hm with
  | char he => cases he
  | questSuffix _ he hm =>
    cases he
    cases hm with
    | suffix _ hnot => exact hnot hmatch
  | quest _ he => cases he
  | starSuffix _ _ he => cases he
  | star _ _ he => cases he

/-- **A string is accepted that the pattern does not match**: "aab" with "?ab" stored, although the
segment of the `?` is not to contain "a". -/
theorem findMatch2_accepts_too_much : ∃ n, storeAll [((63, [97, 98]), 1)] = some n ∧
      ¬ Answers (findMatch2 [97, 97, 98] n) fun p v =>
        stored [((63, [97, 98]), 1)] p = some v ∧
          ∃ segments, pattern2Parse p [97, 97, 98] = .ok (some segments) := by
  refine ⟨_, rfl, ?_⟩
  rintro (⟨p, v, hr, -, segments, hparse⟩ | ⟨hr, -⟩)
  · cases hr
    cases hparse
  · cases hr

end CloudI.Trie
