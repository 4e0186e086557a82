import CloudI.Trie.FoldMatch
import CloudI.Trie.Prefix

/-!
# Trie.FoldMatchSpec

Which keys `fold_match/4` visits.  `Visits` follows a key down the trie as the
search does; a stored key that matches the pattern and is not visited is
`Overlooked`, at an inner node inside of a wildcard: either the key goes on with
a character above the one behind the wildcard, which the node has an element for,
or it goes on with that character and its rest does not match.
-/

namespace CloudI.Trie

open List Option

variable {V A : Type}

/-! ## the entries below an element -/

/-- An entry below some characters. -/
def below (key : List Nat) (x : List Nat × V) : List Nat × V := (key ++ x.1, x.2)

theorem entriesOne_singleton (c : Nat) (e : Element V) :
    entriesOne [c] e = (entriesOne [] e).map (below [c]) := entriesOne_key [c] [] e

/-- A fold over entries below the characters `key`. -/
def foldFrom (f : List Nat → V → A → A) (key : List Nat) (a : A) (l : List (List Nat × V)) : A :=
  l.foldl (fun a x => f (key ++ x.1) x.2 a) a

theorem foldFrom_append (f : List Nat → V → A → A) (key : List Nat) (a : A)
    (l l' : List (List Nat × V)) :
    foldFrom f key a (l ++ l') = foldFrom f key (foldFrom f key a l) l' := foldl_append

theorem foldFrom_below (f : List Nat → V → A → A) (key : List Nat) (c : Nat) (a : A)
    (l : List (List Nat × V)) :
    foldFrom f key a (l.map (below [c])) = foldFrom f (key ++ [c]) a l := by
  rw [foldFrom, foldl_map]
  simp only [below, ← append_assoc]
  rfl

open Classical in
/-- The entries whose keys meet a condition. -/
noncomputable def keeping (P : List Nat → Prop) (l : List (List Nat × V)) : List (List Nat × V) :=
  l.filter fun x => P x.1

theorem keeping_append (P : List Nat → Prop) (l l' : List (List Nat × V)) :
    keeping P (l ++ l') = keeping P l ++ keeping P l' := filter_append ..

variable {P : List Nat → Prop} {w : Option V} {e : Element V}

theorem keeping_congr {Q : List Nat → Prop} {l : List (List Nat × V)} (h : ∀ x ∈ l, P x.1 ↔ Q x.1) :
    keeping P l = keeping Q l := by
  exact filter_congr fun x hx => decide_eq_decide.mpr (h x hx)

theorem keeping_eq_nil {l : List (List Nat × V)} (h : ∀ x ∈ l, ¬ P x.1) :
    keeping P l = [] := filter_eq_nil_iff.mpr fun x hx => by simp [h x hx]

theorem keeping_below (P : List Nat → Prop) (c : Nat) (l : List (List Nat × V)) :
    keeping P (l.map (below [c])) = (keeping (fun k => P (c :: k)) l).map (below [c]) := by
  rw [keeping, List.filter_map]
  rfl

theorem mem_keeping : x ∈ keeping P l ↔ x ∈ l ∧ P x.1 := by simp [keeping]

theorem foldFrom_keeping_child (f : List Nat → V → A → A) (key : List Nat) (a : A)
    (P : List Nat → Prop) (c : Nat) (e : Element V) :
    foldFrom f key a (keeping P (entriesOne [c] e)) =
      foldFrom f (key ++ [c]) a (keeping (fun k => P (c :: k)) (entriesOne [] e)) := by
  rw [entriesOne_singleton, keeping_below, foldFrom_below]

/-! ## what is visited -/

mutual

/-- The search visits the key `k` below the element, outside of a wildcard. -/
def Visits : List Nat → List Nat → Element V → Prop
  | p, k, (.str _, _) => Matches p k
  | [], k, (.node .., _) => k = []
  | _ :: _, [], (.node .., _) => False
  | c :: p, x :: k, (.node i0 i1 data, _) =>
      match child x i0 i1 data with
      | none => False
      | some e => if c = star then VisitsIn p k e else c = x ∧ Visits p k e

/-- The same inside of a wildcard, with `p` behind it. -/
def VisitsIn : List Nat → List Nat → Element V → Prop
  | p, k, (.str _, _) => Later p k
  | [], _, (.node .., _) => True
  | _ :: _, [], (.node .., _) => False
  | c :: p, x :: k, (.node i0 i1 data, _) =>
      match child x i0 i1 data with
      | none => False
      | some e =>
          if x = c then Visits p k e else ¬ (i0 ≤ c ∧ c < x) ∧ VisitsIn (c :: p) k e

end

mutual

/-- **A matching key that is overlooked.** -/
def Overlooked : List Nat → List Nat → Element V → Prop
  | c :: p, x :: k, (.node i0 i1 data, _) =>
      match child x i0 i1 data with
      | none => False
      | some e => if c = star then OverlookedIn p k e else Overlooked p k e
  | _, _, _ => False

/-- The same inside of a wildcard, with `c` behind it: at an inner node that has an
element for `c`, a greater character is not looked at; and at `c` the wildcard ends. -/
def OverlookedIn : List Nat → List Nat → Element V → Prop
  | c :: p, x :: k, (.node i0 i1 data, _) =>
      match child x i0 i1 data with
      | none => False
      | some e =>
          if x = c then ¬ Matches p k ∨ Overlooked p k e
          else (i0 ≤ c ∧ c < x) ∨ OverlookedIn (c :: p) k e
  | _, _, _ => False

end

theorem visits_str : Visits p k ((.str s, w) : Element V) ↔ Matches p k := by
  cases p <;> cases k <;> exact Iff.rfl

theorem visitsIn_str : VisitsIn p k ((.str s, w) : Element V) ↔ Later p k := by
  cases p <;> cases k <;> exact Iff.rfl

theorem not_overlooked_str :
    ¬ Overlooked p k ((.str s, w) : Element V) ∧ ¬ OverlookedIn p k ((.str s, w) : Element V) := by
  cases p <;> cases k <;> exact ⟨id, id⟩

theorem later_of_cons (h : Later p l) : Later p (x :: l) := later_cons.mpr (.inr h)

theorem later_cons_of_ne (hc : c ≠ star) (hx : x ≠ c) :
    Later (c :: p) (x :: l) ↔ Later (c :: p) l := by
  rw [later_cons, matches_char hc]
  simp [Ne.symm hx]

theorem later_append (hc : c ≠ star) (hl : c ∉ l) : Later (c :: p) (l ++ s) ↔ Later (c :: p) s := by
  induction l with
  | nil => rfl
  | cons x l ih =>
    rw [mem_cons, not_or] at hl
    rw [cons_append, later_cons_of_ne hc (Ne.symm hl.1), ih hl.2]

theorem visits_matches (k : List Nat) : ∀ (p : List Nat) (e : Element V), WellFormed p →
    (Visits p k e → Matches p k) ∧ (WellFormed (star :: p) → VisitsIn p k e → Later p k) := by
  induction k with
  | nil =>
    intro p e hp
    match p, e with
    | p, (.str s, v) => exact ⟨fun h => h, fun _ h => h⟩
    | [], (.node .., v) => exact ⟨fun _ => .nil, fun _ _ => later_nil.mpr rfl⟩
    | c :: p, (.node .., v) => exact ⟨False.elim, fun _ => False.elim⟩
  | cons x k ih =>
    intro p e hp
    match p, e with
    | p, (.str s, v) => exact ⟨fun h => h, fun _ h => h⟩
    | [], (.node .., v) => exact ⟨(fun h => nomatch h), fun _ _ => ⟨x :: k, [], by simp, .nil⟩⟩
    | c :: p, (.node i0 i1 data, v) =>
      rw [Visits, VisitsIn]
      cases child x i0 i1 data with
      | none => exact ⟨False.elim, fun _ => False.elim⟩
      | some e =>
        obtain ⟨hout, hin⟩ := ih p e hp.tail
        constructor
        · by_cases hc : c = star
          · subst hc
            simp only [if_pos]
            exact fun h => matches_star.mpr (hin hp h)
          · simp only [if_neg hc]
            rintro ⟨rfl, h⟩
            exact .char hc (hout h)
        · intro hstar
          by_cases hx : x = c
          · subst hx
            simp only [if_pos]
            exact fun h => later_cons.mpr (.inl (.char hstar.ne_star (hout h)))
          · simp only [if_neg hx]
            exact fun h => later_of_cons ((ih (c :: p) e hp).2 hstar h.2)

theorem visits_iff (k : List Nat) : ∀ (p : List Nat) (e : Element V) (v : V), WellFormed p →
    meaning k e = some v →
    (Matches p k → (Visits p k e ↔ ¬ Overlooked p k e)) ∧
    (WellFormed (star :: p) → Later p k → (VisitsIn p k e ↔ ¬ OverlookedIn p k e)) := by
  induction k with
  | nil =>
    intro p e v hp hk
    match p, e with
    | p, (.str s, w) =>
      exact ⟨fun h => iff_of_true h not_overlooked_str.1,
        fun _ h => iff_of_true h not_overlooked_str.2⟩
    | [], (.node .., w) => exact ⟨fun h => iff_of_true rfl id, fun _ _ => iff_of_true trivial id⟩
    | c :: p, (.node .., w) =>
      exact ⟨fun h => by simp at h, fun _ h => by simp [later_nil] at h⟩
  | cons x k ih =>
    intro p e v hp hk
    match p, e with
    | p, (.str s, w) =>
      exact ⟨fun h => iff_of_true h not_overlooked_str.1,
        fun _ h => iff_of_true h not_overlooked_str.2⟩
    | [], (.node .., w) =>
      exact ⟨fun h => by simp at h, fun _ _ => iff_of_true trivial id⟩
    | c :: p, (.node i0 i1 data, w) =>
      rw [meaning_child] at hk
      obtain ⟨e, he, hke⟩ := bind_eq_some_iff.mp hk
      obtain ⟨hout, hin⟩ := ih p e v hp.tail hke
      rw [Visits, Overlooked, VisitsIn, OverlookedIn, he]
      constructor
      · intro hmatch
        by_cases hc : c = star
        · subst hc
          simp only [if_pos]
          exact hin hp (matches_star.mp hmatch)
        · obtain ⟨rfl, hrest⟩ := (matches_char hc).mp hmatch
          simp only [if_neg hc, hout hrest, true_and]
      · intro hstar hlater
        by_cases hx : x = c
        · -- the wildcard ends here
          subst hx
          simp only [if_pos, not_or, not_not]
          constructor
          · intro hvisit
            have hmatch := (visits_matches k p e hp.tail).1 hvisit
            exact ⟨hmatch, (hout hmatch).mp hvisit⟩
          · rintro ⟨hmatch, hnot⟩
            exact (hout hmatch).mpr hnot
        · have hrest := (later_cons_of_ne hstar.ne_star hx).mp hlater
          simp only [if_neg hx, not_or, (ih (c :: p) e v hp hke).2 hstar hrest]

/-! ## the tries that are searched -/

/-- Well formed, every node with a key below it, and no key with a wildcard character. -/
structure Clean (e : Element V) : Prop where
  fits : Fits e
  full : Full e
  free : ∀ k x, meaning k e = some x → star ∉ k

theorem Clean.child (h : Clean (.node i0 i1 data, w)) (hi : data[i]? = some e) :
    Clean (e : Element V) ∧ ∀ k, meaning ((i0 + i) :: k) (.node i0 i1 data, w) = meaning k e := by
  have hlt := (List.getElem?_eq_some_iff.mp hi).choose
  have hlen := h.fits.length
  have hle := h.fits.le
  have hmeaning : ∀ k, meaning ((i0 + i) :: k) (.node i0 i1 data, w) = meaning k e := by
    intro k
    rw [meaning_child, Trie.child, if_neg (by omega), Nat.add_sub_cancel_left, hi, bind_some]
  have hmem := mem_of_getElem? hi
  refine ⟨⟨h.fits.elements e hmem, h.full.elements e hmem, fun k x hk hstar => ?_⟩, hmeaning⟩
  exact h.free _ x ((hmeaning k).trans hk) (mem_cons_of_mem _ hstar)

/-- The element of the wildcard character is a hole. -/
theorem Clean.hole_of_star (h : Clean (.node i0 i1 data, w)) (hi : data[i]? = some e)
    (hstar : i0 + i = star) : (e : Element V) = hole := by
  obtain ⟨hclean, hmeaning⟩ := h.child hi
  have hnone : ∀ k, meaning k e = none := by
    intro k
    rw [← hmeaning]
    refine eq_none_iff_forall_ne_some.mpr fun x hx => ?_
    exact h.free _ x hx (by rw [hstar]; exact mem_cons_self)
  match e with
  | (.str [], none) => rfl
  | (.str (b :: s), none) =>
    obtain ⟨x, hx⟩ := hclean.fits.suffix
    cases hx
  | (.str s, some x) => simpa using hnone s
  | (.node j0 j1 below, v) =>
    cases hclean.full with
    | node hkey hdata =>
      obtain ⟨c, k, x, hx⟩ := hkey
      rw [hnone] at hx
      cases hx

theorem Clean.free_suffix (h : Clean (.str s, some v)) : star ∉ s := h.free s v (by simp)

/-! ## the search -/

/-- A suffix is visited when the matcher accepts it. -/
theorem foldSuffix_eq (hp : WellFormed p) (hl : v.isSome → star ∉ l) (hR : R s ↔ Matches p l)
    (key : List Nat) (a : A) : foldSuffix f a (key ++ s) v p l =
      .ok (foldFrom f key a (keeping R (entriesOne [] (.str s, v)))) := by
  cases v with
  | none => rfl
  | some v =>
    obtain ⟨b, hb, hiff⟩ := wildcardMatchLists_spec p l hp (hl rfl)
    rw [foldSuffix, hb, entriesOne, keeping, filter_cons]
    cases b with
    | true =>
      have hs : R s := hR.mpr (hiff.mp rfl)
      simp [hs, Except.map, foldFrom]
    | false =>
      have hs : ¬ R s := fun h => Bool.false_ne_true (hiff.mpr (hR.mp h))
      simp [hs, Except.map, foldFrom]

theorem mem_entriesElement_nil {x : List Nat × V} (hx : x ∈ entriesElement [] c data) :
    ∃ i e y, data[i]? = some e ∧ y ∈ entriesOne [] e ∧ x = below [c + i] y := by
  obtain ⟨i, e, hi, hx⟩ := mem_entriesElement.mp hx
  rw [nil_append, entriesOne_singleton] at hx
  obtain ⟨y, hy, rfl⟩ := List.mem_map.mp hx
  exact ⟨i, e, y, hi, hy, rfl⟩

theorem keeping_entriesElement_nil (P : List Nat → Prop) (c : Nat) (data : List (Element V))
    (hP : ∀ x k, ¬ P (x :: k)) : keeping P (entriesElement [] c data) = [] := by
  refine keeping_eq_nil fun x hx => ?_
  obtain ⟨i, e, y, -, -, rfl⟩ := mem_entriesElement_nil hx
  exact hP _ _

/-- What `fold_match_node_1/5` does with the pattern `p`. -/
def VisitsNodes (f : List Nat → V → A → A) (p : List Nat) : Prop :=
  ∀ a pre i0 i1 data w, Clean (.node i0 i1 data, w) →
    foldMatchNode1 f p a pre (.node i0 i1 data) = .ok (foldFrom f pre.reverse a
      (keeping (fun k => Visits p k (.node i0 i1 data, w)) (entriesElement [] i0 data)))

theorem keeping_entriesOne_node (hP : ¬ P []) (i0 i1 : Nat) (data : List (Element V)) (w : Option V)
    : keeping P (entriesOne [] (.node i0 i1 data, w)) = keeping P (entriesElement [] i0 data) := by
  rw [entriesOne_node, keeping_append]
  cases w with
  | none => rfl
  | some v =>
    rw [keeping_eq_nil, nil_append]
    intro x hx
    simp only [map_some, toList_some, mem_singleton] at hx
    rw [hx]
    exact hP

/-- Where the wildcard ends. -/
theorem foldMatchLeave_eq (hp : WellFormed p) (hnode : p ≠ [] → VisitsNodes f p) (he : Clean e)
    (a : A) (pre : List Nat) :
    foldMatchLeave (fun a newPre n => foldMatchNode1 f p a newPre n) p f a pre e =
      .ok (foldFrom f pre.reverse a (keeping (fun k => Visits p k e) (entriesOne [] e))) := by
  match p, e with
  | c :: p, (.node i0 i1 data, value) =>
    rw [keeping_entriesOne_node id]
    exact hnode (cons_ne_nil c p) a pre i0 i1 data value he
  | [], (.node i0 i1 data, value) =>
    have hnil : keeping (fun k => Visits [] k (.node i0 i1 data, value))
        (entriesElement [] i0 data) = [] :=
      keeping_entriesElement_nil _ i0 data fun x k h => nomatch h
    rw [entriesOne_node, keeping_append, hnil, append_nil]
    cases value with
    | none => rfl
    | some v => simp [foldMatchLeave, keeping, foldFrom, Visits]
  | c :: p, (.str s, value) =>
    refine foldSuffix_eq (R := fun k => Visits (c :: p) k (.str s, value)) hp (fun hv => ?_)
      (by rw [visits_str]) pre.reverse a
    obtain ⟨x, rfl⟩ := isSome_iff_exists.mp hv
    exact he.free_suffix
  | [], (.str [], value) =>
    cases value with
    | none => rfl
    | some v => simp [foldMatchLeave, keeping, foldFrom, Visits, entriesOne]
  | [], (.str (b :: s), value) =>
    cases value with
    | none => rfl
    | some v => simp [foldMatchLeave, keeping, foldFrom, Visits, entriesOne]

/-- The characters `mid` inside of the wildcard, backwards: behind the first one
none is the character that ends it. -/
structure Inside (t mid : List Nat) : Prop where
  behind_first : ∃ m ms, mid.reverse = m :: ms ∧ ∀ c, t.head? = some c → c ∉ ms
  free : star ∉ mid

theorem Inside.singleton (hc : c ≠ star) : Inside t [c] :=
  ⟨⟨c, [], rfl, fun _ _ => not_mem_nil⟩, by simp [Ne.symm hc]⟩

theorem Inside.cons (h : Inside t mid) (hc : c ≠ star) (hhead : t.head? ≠ some c) :
    Inside t (c :: mid) := by
  obtain ⟨m, ms, hrev, hms⟩ := h.behind_first
  refine ⟨⟨m, ms ++ [c], by rw [reverse_cons, hrev, cons_append], ?_⟩, ?_⟩
  · intro d hd hmem
    rcases mem_append.mp hmem with hmem | hmem
    · exact hms d hd hmem
    · rw [mem_singleton] at hmem
      exact hhead (hmem ▸ hd)
  · simp [Ne.symm hc, h.free]

theorem Inside.matches_iff (h : Inside t mid) (ht : WellFormed (star :: t)) (s : List Nat) :
    Matches (star :: t) (mid.reverse ++ s) ↔ Later t s := by
  obtain ⟨m, ms, hrev, hms⟩ := h.behind_first
  rw [hrev, cons_append, matches_star]
  match t with
  | [] => exact iff_of_true ⟨ms ++ s, [], by simp, .nil⟩ ⟨s, [], by simp, .nil⟩
  | c :: t => exact later_append ht.ne_star (hms c rfl)

/-- What is visited from the character `c` of a node on, below the character `x`. -/
def VisitsFrom (t : List Nat) (c x : Nat) (k : List Nat) (e : Element V) : Prop :=
  match t with
  | [] => VisitsIn [] k e
  | d :: p => if x = d then Visits p k e else ¬ (c ≤ d ∧ d < x) ∧ VisitsIn (d :: p) k e

theorem visitsFrom_succ (hhead : t.head? ≠ some c) (x : Nat) (k : List Nat) (e : Element V) :
    VisitsFrom t c x k e ↔ VisitsFrom t (c + 1) x k e := by
  match t with
  | [] => exact Iff.rfl
  | d :: p =>
    have hne : d ≠ c := fun h => hhead (by rw [h]; rfl)
    have hle : c ≤ d ↔ c + 1 ≤ d := by omega
    simp only [VisitsFrom, hle]

section Wildcard

variable {t : List Nat} {leave : A → List Nat → Element V → Except Exit A}
  {f : List Nat → V → A → A} {pre : List Nat}

mutual

/-- **Step lemma**: the search inside of a wildcard, from the character `c` of a
node on.  At the character that ends the wildcard the rest of the node is left out. -/
theorem foldMatchElementN_eq (ht : WellFormed (star :: t))
    (hleave : ∀ d p, t = d :: p → ∀ a newPre e, Clean e → leave a newPre e =
      .ok (foldFrom f newPre.reverse a (keeping (fun k => Visits p k e) (entriesOne [] e))))
    (data : List (Element V)) (mid : List Nat) (hin : Inside t mid) (c : Nat) (a : A)
    (P : List Nat → Prop) (hclean : ∀ (i : Nat) (e : Element V), data[i]? = some e → Clean e)
    (hhole : ∀ (i : Nat) (e : Element V), data[i]? = some e → c + i = star → e = hole)
    (hP : ∀ (i : Nat) (e : Element V), data[i]? = some e →
      ∀ k, P ((c + i) :: k) ↔ VisitsFrom t c (c + i) k e) :
    foldMatchElementN t leave f pre mid c a data =
      .ok (foldFrom f (mid ++ pre).reverse a (keeping P (entriesElement [] c data))) := by
  match data with
  | [] => rfl
  | e :: data =>
    have hself : ∀ k, P (c :: k) ↔ VisitsFrom t c c k e := hP 0 e rfl
    have hnext : ∀ i : Nat, c + 1 + i = c + (i + 1) := by omega
    have hrest : t.head? ≠ some c → ∀ a, foldMatchElementN t leave f pre mid (c + 1) a data =
        .ok (foldFrom f (mid ++ pre).reverse a (keeping P (entriesElement [] (c + 1) data))) :=
      fun hhead a => foldMatchElementN_eq ht hleave data mid hin (c + 1) a P
        (fun i x hi => hclean (i + 1) x hi)
        (fun i x hi hx => hhole (i + 1) x hi (by rw [← hnext, hx]))
        fun i x hi k => by
          rw [← visitsFrom_succ hhead, hnext]
          exact hP (i + 1) x hi k
    rw [foldMatchElementN, entriesElement, nil_append, keeping_append, foldFrom_append,
      foldFrom_keeping_child]
    by_cases hstar : c = star
    · -- there is only a hole for the wildcard character
      have he : e = hole := hhole 0 e rfl hstar
      have hhead : t.head? ≠ some c := by
        intro hhead
        match t with
        | d :: p =>
          cases hhead
          exact ht.ne_star hstar
      have hfound : isHole (hole : Element V) = true := rfl
      rw [if_pos hstar, he, if_pos hfound]
      exact hrest hhead a
    rw [if_neg hstar]
    by_cases hhead : t.head? = some c
    · -- the wildcard ends, and no entry behind is kept
      rw [if_pos hhead]
      match t with
      | d :: p =>
        cases hhead
        have hnone : keeping P (entriesElement [] (c + 1) data) = [] := by
          refine keeping_eq_nil fun x hx => ?_
          obtain ⟨i, e', y, hi, -, rfl⟩ := mem_entriesElement_nil hx
          show ¬ P ((c + 1 + i) :: y.1)
          rw [hnext, hP (i + 1) e' hi, VisitsFrom, if_neg (by omega)]
          exact fun h => h.1 (by omega)
        have hkeep : keeping (fun k => P (c :: k)) (entriesOne [] e) =
            keeping (fun k => Visits p k e) (entriesOne [] e) :=
          keeping_congr fun x _ => by
            rw [hself, VisitsFrom, if_pos rfl]
        rw [hnone, hleave c p rfl a _ e (hclean 0 e rfl), hkeep]
        simp [foldFrom]
    · have hkeep : keeping (fun k => P (c :: k)) (entriesOne [] e) =
          keeping (fun k => VisitsIn t k e) (entriesOne [] e) :=
        keeping_congr fun x _ => by
          rw [hself]
          match t with
          | [] => exact Iff.rfl
          | d :: p =>
            have hne : c ≠ d := fun h => hhead (by rw [h]; rfl)
            rw [VisitsFrom, if_neg hne]
            exact and_iff_right (by omega)
      have hpre : (mid ++ pre).reverse ++ [c] = (c :: mid ++ pre).reverse := by simp
      rw [if_neg hhead, foldMatchOneN_eq ht hleave e (c :: mid) (hin.cons hstar hhead) a
        (hclean 0 e rfl), hkeep, hpre]
      exact hrest hhead _

theorem foldMatchOneN_eq (ht : WellFormed (star :: t))
    (hleave : ∀ d p, t = d :: p → ∀ a newPre e, Clean e → leave a newPre e =
      .ok (foldFrom f newPre.reverse a (keeping (fun k => Visits p k e) (entriesOne [] e))))
    (e : Element V) (newMid : List Nat) (hin : Inside t newMid) (a : A) (he : Clean e) :
    foldMatchOneN t leave f pre newMid a e = .ok (foldFrom f (newMid ++ pre).reverse a
        (keeping (fun k => VisitsIn t k e) (entriesOne [] e))) := by
  match e with
  | (.node i0 i1 data, value) =>
    have hvalue : foldFrom f (newMid ++ pre).reverse a
        (keeping (fun k => VisitsIn t k (.node i0 i1 data, value))
          (value.map fun v => ([], v)).toList) = foldWildValue t f pre a newMid value := by
      match t, value with
      | [], none => rfl
      | [], some v => simp [keeping, VisitsIn, foldFrom, foldWildValue]
      | d :: p, none => rfl
      | d :: p, some v =>
        have hnil : ¬ VisitsIn (d :: p) [] (.node i0 i1 data, some v) := id
        simp [keeping, hnil, foldFrom, foldWildValue]
    rw [foldMatchOneN, foldMatchNodeN, entriesOne_node, keeping_append, foldFrom_append, hvalue]
    refine foldMatchElementN_eq ht hleave data newMid hin i0 _ _
      (fun i x hi => (he.child hi).1) (fun i x hi hx => he.hole_of_star hi hx) ?_
    intro i x hi k
    have hlt := (List.getElem?_eq_some_iff.mp hi).choose
    have hlen := he.fits.length
    have hle := he.fits.le
    have hchild : child (i0 + i) i0 i1 data = some x := by
      rw [child, if_neg (by omega), Nat.add_sub_cancel_left, hi]
    match t with
    | [] =>
      refine iff_of_true trivial ?_
      match x with
      | (.str s, v) => exact visitsIn_str.mpr ⟨k, [], by simp, .nil⟩
      | (.node .., v) => cases k <;> trivial
    | d :: p => rw [VisitsIn, hchild, VisitsFrom]
  | (.str s, value) =>
    match t, value with
    | [], none => rfl
    | [], some v =>
      have hlater : Later [] s := ⟨s, [], by simp, .nil⟩
      simp [foldMatchOneN, entriesOne, keeping, visitsIn_str, hlater, foldFrom]
    | d :: p, value =>
      have hkey : pre.reverse ++ (newMid.reverse ++ s) = (newMid ++ pre).reverse ++ s := by simp
      have hfree : value.isSome → star ∉ newMid.reverse ++ s := by
        intro hv
        obtain ⟨x, rfl⟩ := isSome_iff_exists.mp hv
        simp [hin.free, he.free_suffix]
      rw [foldMatchOneN, hkey]
      exact foldSuffix_eq (R := fun k => VisitsIn (d :: p) k (.str s, value)) ht hfree
        (by rw [visitsIn_str, hin.matches_iff ht]) _ a

end

/-- **Step lemma**: the search at the first character of a wildcard goes through all
elements of a node. -/
theorem foldMatchElement1_eq (ht : WellFormed (star :: t))
    (hleave : ∀ d p, t = d :: p → ∀ a newPre e, Clean e → leave a newPre e =
      .ok (foldFrom f newPre.reverse a (keeping (fun k => Visits p k e) (entriesOne [] e))))
    (data : List (Element V)) (c : Nat) (a : A) (P : List Nat → Prop)
    (hclean : ∀ (i : Nat) (e : Element V), data[i]? = some e → Clean e)
    (hhole : ∀ (i : Nat) (e : Element V), data[i]? = some e → c + i = star → e = hole)
    (hP : ∀ (i : Nat) (e : Element V), data[i]? = some e → ∀ k, P ((c + i) :: k) ↔ VisitsIn t k e) :
    foldMatchElement1 t leave f pre c a data =
      .ok (foldFrom f pre.reverse a (keeping P (entriesElement [] c data))) := by
  induction data generalizing c a with
  | nil => rfl
  | cons e data ih =>
    have hself : ∀ k, P (c :: k) ↔ VisitsIn t k e := hP 0 e rfl
    have hnext : ∀ i : Nat, c + 1 + i = c + (i + 1) := by omega
    have hrest : ∀ a, foldMatchElement1 t leave f pre (c + 1) a data =
        .ok (foldFrom f pre.reverse a (keeping P (entriesElement [] (c + 1) data))) :=
      fun a => ih (c + 1) a (fun i x hi => hclean (i + 1) x hi)
        (fun i x hi hx => hhole (i + 1) x hi (by rw [← hnext, hx]))
        fun i x hi k => by
          rw [hnext]
          exact hP (i + 1) x hi k
    rw [foldMatchElement1, entriesElement, nil_append, keeping_append, foldFrom_append,
      foldFrom_keeping_child]
    by_cases hstar : c = star
    · have he : e = hole := hhole 0 e rfl hstar
      have hfound : isHole (hole : Element V) = true := rfl
      rw [if_pos hstar, he, if_pos hfound]
      exact hrest a
    have hin : Inside t [c] := Inside.singleton hstar
    have hkeep : keeping (fun k => P (c :: k)) (entriesOne [] e) =
        keeping (fun k => VisitsIn t k e) (entriesOne [] e) :=
      keeping_congr fun x _ => hself x.1
    have hkey : pre.reverse ++ [c] = ([c] ++ pre).reverse := by simp
    let goOn (r : Except Exit A) := r.bind fun a => foldMatchElement1 t leave f pre (c + 1) a data
    rw [if_neg hstar, hkeep]
    match e with
    | (.node i0 i1 children, value) =>
      have hone : foldMatchOneN t leave f pre [c] a (.node i0 i1 children, value) = _ :=
        foldMatchOneN_eq ht hleave (.node i0 i1 children, value) [c] hin a (hclean 0 _ rfl)
      rw [foldMatchOneN, ← hkey] at hone
      exact (congrArg goOn hone).trans (hrest _)
    | (.str s, value) =>
      have hfree : value.isSome → star ∉ [c].reverse ++ s := by
        intro hv
        obtain ⟨x, rfl⟩ := isSome_iff_exists.mp hv
        have he := (hclean 0 _ rfl).free_suffix
        simp [Ne.symm hstar, he]
      have hsuffix := foldSuffix_eq (f := f) (R := fun k => VisitsIn t k (.str s, value)) ht
        hfree (by rw [visitsIn_str, hin.matches_iff ht]) (pre.reverse ++ [c]) a
      rw [append_assoc] at hsuffix
      have hreverse : [c].reverse = [c] := rfl
      rw [hreverse]
      exact (congrArg goOn hsuffix).trans (hrest _)

end Wildcard

/-- Where all that is visited begins with one character. -/
theorem foldFrom_keeping_node (h : Formed (.node i0 i1 data, w)) (hP : ∀ d k, d ≠ c → ¬ P (d :: k))
    (f : List Nat → V → A → A) (key : List Nat) (a : A) :
    foldFrom f key a (keeping P (entriesElement [] i0 data)) = (child c i0 i1 data).elim a fun e =>
        foldFrom f (key ++ [c]) a (keeping (fun k => P (c :: k)) (entriesOne [] e)) := by
  classical
  have hchild := filter_entriesElement_child [] (fun x => decide (P x.1)) h
    fun d k x (hd : d ≠ c) => decide_eq_false (hP d k hd)
  have hkeeping : ∀ l : List (List Nat × V), keeping P l = l.filter fun x => decide (P x.1) := by
    intro l
    exact filter_congr fun x _ => decide_eq_decide.mpr Iff.rfl
  rw [hkeeping, hchild]
  cases child c i0 i1 data with
  | none => rfl
  | some e =>
    rw [elim_some, elim_some, ← foldFrom_keeping_child, hkeeping]
    rfl

/-- The pattern goes on with the character `c`. -/
theorem foldFrom_visits_char (h : Formed (.node i0 i1 data, w)) (hc : c ≠ star)
    (p : List Nat) (f : List Nat → V → A → A) (key : List Nat) (a : A) :
    foldFrom f key a (keeping (fun k => Visits (c :: p) k (.node i0 i1 data, w))
        (entriesElement [] i0 data)) =
      (child c i0 i1 data).elim a fun e =>
        foldFrom f (key ++ [c]) a (keeping (fun k => Visits p k e) (entriesOne [] e)) := by
  rw [foldFrom_keeping_node h]
  · cases hchild : child c i0 i1 data with
    | none => rfl
    | some e =>
      have hvisits : ∀ k, Visits (c :: p) (c :: k) (.node i0 i1 data, w) ↔ Visits p k e := by
        intro k
        rw [Visits, hchild]
        simp [hc]
      have hkeep : keeping (fun k => Visits (c :: p) (c :: k) (.node i0 i1 data, w))
          (entriesOne [] e) = keeping (fun k => Visits p k e) (entriesOne [] e) :=
        keeping_congr fun x _ => hvisits x.1
      rw [elim_some, elim_some, hkeep]
  · intro d k hd hvisit
    rw [Visits] at hvisit
    cases hchild : child d i0 i1 data with
    | none =>
      rw [hchild] at hvisit
      exact hvisit
    | some e =>
      rw [hchild] at hvisit
      simp only [if_neg hc] at hvisit
      exact hd hvisit.1.symm

theorem visits_star (h : Clean (.node i0 i1 data, w)) (hi : data[i]? = some e) (k : List Nat) :
    Visits (star :: t) ((i0 + i) :: k) (.node i0 i1 data, w) ↔ VisitsIn t k e := by
  have hlt := (List.getElem?_eq_some_iff.mp hi).choose
  have hlen := h.fits.length
  have hle := h.fits.le
  have hchild : child (i0 + i) i0 i1 data = some e := by
    rw [child, if_neg (by omega), Nat.add_sub_cancel_left, hi]
  rw [Visits, hchild]
  simp

/-- **Run lemma**: `fold_match_node_1/5` applies the function to the visited
entries, in order. -/
theorem visitsNodes (f : List Nat → V → A → A) (p : List Nat) (hp : WellFormed p) (hne : p ≠ []) :
    VisitsNodes f p := by
  intro a pre i0 i1 data w hclean
  have hall : ∀ (i : Nat) (e : Element V), data[i]? = some e → Clean e :=
    fun i e hi => (hclean.child hi).1
  have hholes : ∀ (i : Nat) (e : Element V), data[i]? = some e → i0 + i = star → e = hole :=
    fun i e hi hx => hclean.hole_of_star hi hx
  have hformed := hclean.fits.formed
  match p with
  | [h] =>
    rw [foldMatchNode1]
    by_cases hstar : h = star
    · subst hstar
      rw [if_pos rfl]
      exact foldMatchElement1_eq hp (fun d p hd => nomatch hd) data i0 a _ hall hholes
        fun i e hi k => visits_star hclean hi k
    rw [if_neg hstar, foldFrom_visits_char hformed hstar]
    by_cases hc : h < i0 ∨ h > i1
    · rw [if_pos hc, child_out hc]
      rfl
    obtain ⟨e, hget, -, -⟩ := hformed.getElem? hc
    rw [if_neg hc, hget, child, if_neg hc, hget, elim_some, ← reverse_cons]
    -- there is nothing behind the last character
    have hleave := foldMatchLeave_eq (p := []) (f := f) (by decide) (absurd rfl ·)
      (hall _ e hget) a (h :: pre)
    rw [← hleave]
    match e with
    | (.node .., some v) => rfl
    | (.node .., none) => rfl
    | (.str [], some v) => rfl
    | (.str [], none) => rfl
    | (.str (b :: s), some v) => rfl
    | (.str (b :: s), none) => rfl
  | h :: h1 :: t1 =>
    rw [foldMatchNode1]
    by_cases hstar : h = star
    · subst hstar
      rw [if_pos rfl, if_neg hp.ne_star]
      refine foldMatchElement1_eq hp ?_ data i0 a _ hall hholes
        fun i e hi k => visits_star hclean hi k
      intro d p hd a newPre e he
      cases hd
      exact foldMatchLeave_eq hp.tail.tail (visitsNodes f _ hp.tail.tail) he a newPre
    rw [if_neg hstar, foldFrom_visits_char hformed hstar]
    by_cases hc : h < i0 ∨ h > i1
    · rw [if_pos hc, child_out hc]
      rfl
    obtain ⟨e, hget, -, -⟩ := hformed.getElem? hc
    rw [if_neg hc, hget, child, if_neg hc, hget, elim_some, ← reverse_cons]
    have he := hall _ e hget
    match e with
    | (.node j0 j1 children, value) =>
      rw [keeping_entriesOne_node id]
      exact visitsNodes f (h1 :: t1) hp.tail (cons_ne_nil h1 t1) a (h :: pre) j0 j1
        children value he
    | (.str s, value) =>
      refine foldSuffix_eq (R := fun k => Visits (h1 :: t1) k (.str s, value)) hp.tail
        (fun hv => ?_) (by rw [visits_str]) _ a
      obtain ⟨x, rfl⟩ := isSome_iff_exists.mp hv
      exact he.free_suffix
termination_by p.length

/-! ## fold_match -/

/-- **Run lemma**: `fold_match/4` folds the visited entries of the trie. -/
theorem foldMatch_eq (h : Clean (n, none)) (hp : WellFormed p) (hne : p ≠ [])
    (f : List Nat → V → A → A) (a : A) :
    foldMatch p f a n = .ok ((keeping (fun k => Visits p k (n, none)) (entries n)).foldl
      (fun a x => f x.1 x.2 a) a) := by
  match n with
  | .str [] => rfl
  | .str (b :: s) =>
    obtain ⟨x, hx⟩ := h.fits.suffix
    cases hx
  | .node i0 i1 data => exact visitsNodes f p hp hne a [] i0 i1 data none h

/-- **The fold over the matches**: the function is applied to the stored keys that match
the pattern, to each once and in ascending order. -/
def FoldsMatches (m : List Nat → Option V) (p : List Nat) (n : Tree V) : Prop :=
  ∃ l : List (List Nat × V), (l.map Prod.fst).Pairwise (· < ·) ∧
    (∀ k x, (k, x) ∈ l ↔ m k = some x ∧ Matches p k) ∧
    ∀ (A : Type) (f : List Nat → V → A → A) (a : A),
      foldMatch p f a n = .ok (l.foldl (fun a x => f x.1 x.2 a) a)

theorem foldl_cons_entries (l a : List (List Nat × V)) :
    l.foldl (fun a x => (x.1, x.2) :: a) a = l.reverse ++ a := by
  induction l generalizing a with
  | nil => rfl
  | cons x l ih =>
    rw [foldl_cons, ih, reverse_cons, append_assoc]
    rfl

/-- **`fold_match/4` is right** for the stored keys and a pattern exactly when no
stored key that matches the pattern is overlooked. -/
theorem foldsMatches_iff {V : Type} (stores : List ((Nat × List Nat) × V))
    (hfree : ∀ x ∈ stores, star ∉ x.1.1 :: x.1.2) (p : List Nat) (hp : WellFormed p)
    (hne : p ≠ []) :
    ∃ n, storeAll stores = some n ∧ (FoldsMatches (stored stores) p n ↔
        ∀ k x, stored stores k = some x → Matches p k → ¬ Overlooked p k (n, none)) := by
  obtain ⟨n, hn, hbuilt⟩ := storeAll_built stores
  have hclean : Clean (n, none) := by
    refine ⟨hbuilt.fits, hbuilt.full, fun k x hk => ?_⟩
    rw [hbuilt.meaning_eq] at hk
    obtain ⟨y, hy, rfl⟩ := mem_of_stored hk
    exact hfree y hy
  have hmem : ∀ k x, (k, x) ∈ entries n ↔ stored stores k = some x := by
    intro k x
    rw [mem_entries hbuilt.fits.rooted, hbuilt.meaning_eq]
  have hvisits : ∀ k x, stored stores k = some x → Matches p k →
      (Visits p k (n, none) ↔ ¬ Overlooked p k (n, none)) := by
    intro k x hk hmatch
    exact (visits_iff k p (n, none) x hp (by rw [hbuilt.meaning_eq, hk])).1 hmatch
  refine ⟨n, hn, ?_⟩
  constructor
  · rintro ⟨l, -, hl, hfold⟩ k x hk hmatch
    -- the fold that gathers the entries
    have hgather := hfold (List (List Nat × V)) (fun k x a => (k, x) :: a) []
    rw [foldMatch_eq hclean hp hne] at hgather
    injection hgather with hgather
    rw [foldl_cons_entries, foldl_cons_entries, append_nil, append_nil] at hgather
    rw [← hvisits k x hk hmatch]
    have hlisted : (k, x) ∈ l.reverse := mem_reverse.mpr ((hl k x).mpr ⟨hk, hmatch⟩)
    rw [← hgather, mem_reverse] at hlisted
    exact (mem_keeping.mp hlisted).2
  · intro hnone
    refine ⟨keeping (fun k => Visits p k (n, none)) (entries n), ?_, ?_, ?_⟩
    · exact (sorted_entriesOne hbuilt.fits.formed []).sublist
        (List.Sublist.map Prod.fst filter_sublist)
    · intro k x
      rw [mem_keeping, hmem]
      constructor
      · rintro ⟨hk, hvisit⟩
        exact ⟨hk, (visits_matches k p (n, none) hp).1 hvisit⟩
      · rintro ⟨hk, hmatch⟩
        exact ⟨hk, (hvisits k x hk hmatch).mpr (hnone k x hk hmatch)⟩
    · exact fun A f a => foldMatch_eq hclean hp hne f a

/-- The keys "ab" and "acb", and the pattern "a*". -/
theorem foldsMatches_iff_wildcard : ∃ n, storeAll [((97, [98]), 1), ((97, [99, 98]), 2)] = some n ∧
      (FoldsMatches (stored [((97, [98]), 1), ((97, [99, 98]), 2)]) [97, 42] n ↔
        ∀ k x, stored [((97, [98]), 1), ((97, [99, 98]), 2)] k = some x →
          Matches [97, 42] k → ¬ Overlooked [97, 42] k (n, none)) :=
  foldsMatches_iff [((97, [98]), 1), ((97, [99, 98]), 2)] (by decide) [97, 42] (by decide)
    (by decide)

/-- **A key is overlooked**: of the stored keys "ab" and "acb", the pattern "*b"
visits "ab" only. -/
theorem foldMatch_overlooks : ∃ n, storeAll [((97, [98]), 1), ((97, [99, 98]), 2)] = some n ∧
      ¬ FoldsMatches (stored [((97, [98]), 1), ((97, [99, 98]), 2)]) [42, 98] n := by
  refine ⟨_, rfl, ?_⟩
  rintro ⟨l, -, hl, hfold⟩
  have hgather := hfold (List (List Nat × Nat)) (fun k x a => (k, x) :: a) []
  have hvisited : ∀ n, storeAll [((97, [98]), 1), ((97, [99, 98]), 2)] = some n →
      foldMatch [42, 98] (fun k x a => (k, x) :: a) [] n = .ok [([97, 98], 1)] := by
    intro n hn
    cases hn
    rfl
  rw [hvisited _ rfl] at hgather
  injection hgather with hgather
  rw [foldl_cons_entries, append_nil] at hgather
  have hmatch : Matches [42, 98] [97, 99, 98] :=
    .wild (s := [97, 99]) (by decide) (.char (by decide) .nil)
  have hlisted := mem_reverse.mpr ((hl [97, 99, 98] 2).mpr ⟨rfl, hmatch⟩)
  rw [← hgather] at hlisted
  revert hlisted
  decide

end CloudI.Trie
