import CloudI.Trie.Meaning

/-!
# Trie.Put

What `store/3` and `update/4` do to the meaning of a trie: one key gets a new
value, and every other key keeps its own.
-/

namespace CloudI.Trie

open List Option

variable {V : Type}

/-- `r` is `e` with the value that `g` gives to `key`, or an exception when `g`
raises one. -/
def Puts (g : Option V → Option V) (key : List Nat) (e : Element V) (r : Option (Element V)) :
    Prop :=
  (g (meaning key e) = none ∧ r = none) ∨
  ∃ v e', g (meaning key e) = some v ∧ r = some e' ∧ Fits e' ∧
    ∀ k, meaning k e' = if k = key then some v else meaning k e

/-- A replacement by one element, whatever `g` answers. -/
theorem puts_map (hg : g (meaning key e) = a) (hfits : ∀ v, Fits (r v))
    (h : ∀ v k, meaning k (r v) = if k = key then some v else meaning k e) :
    Puts g key e (a.map r) := by
  cases a with
  | none => exact .inl ⟨hg, rfl⟩
  | some v => exact .inr ⟨v, r v, hg, rfl, hfits v, h v⟩

/-! ## the elements of a widened node -/

/-- The element of a character. -/
def child (c i0 i1 : Nat) (data : List (Element V)) : Option (Element V) :=
  if c < i0 ∨ c > i1 then none else data[c - i0]?

theorem meaning_child (h : Nat) (k : List Nat) (i0 i1 : Nat) (data : List (Element V))
    (v : Option V) :
    meaning (h :: k) (.node i0 i1 data, v) = (child h i0 i1 data).bind (meaning k) := by
  rw [meaning_cons_node, child]
  split <;> rfl

theorem child_out (hc : c < i0 ∨ c > i1) (data : List (Element V)) :
    child c i0 i1 data = none := if_pos hc

theorem child_eq_some (hc : ¬ (c < i0 ∨ c > i1)) (hget : data[c - i0]? = some e) :
    child c i0 i1 data = some e := (if_neg hc).trans hget

theorem child_low (hlt : h < i0) (hle : i0 ≤ i1) (e : Element V) (data : List (Element V)) :
    child c h i1 (e :: (List.replicate (i0 - h - 1) hole ++ data)) =
      if c = h then some e else if h < c ∧ c < i0 then some hole else child c i0 i1 data := by
  rw [child]
  by_cases hc : c = h
  · subst hc
    rw [if_neg (by omega), if_pos rfl, Nat.sub_self]
    rfl
  · rw [if_neg hc]
    by_cases hgap : h < c ∧ c < i0
    · have hidx : c - h = (c - h - 1) + 1 := by omega
      rw [if_neg (by omega), if_pos hgap, hidx, getElem?_cons_succ,
        getElem?_append_left (by simp; omega), getElem?_replicate, if_pos (by omega)]
    · rw [if_neg hgap, child]
      by_cases hr : c < i0 ∨ c > i1
      · rw [if_pos (by omega), if_pos hr]
      · have hidx : c - h = (c - h - 1) + 1 := by omega
        rw [if_neg (by omega), if_neg hr, hidx, getElem?_cons_succ,
          getElem?_append_right (by simp; omega), length_replicate]
        congr 1
        omega

theorem child_high (hlt : h > i1) (hle : i0 ≤ i1) (e : Element V)
    (hlen : data.length = i1 + 1 - i0) :
    child c i0 h (data ++ (List.replicate (h - i1 - 1) hole ++ [e])) =
      if c = h then some e else if i1 < c ∧ c < h then some hole else child c i0 i1 data := by
  rw [child]
  by_cases hc : c = h
  · subst hc
    have hidx : c - i0 - data.length - (c - i1 - 1) = 0 := by omega
    rw [if_neg (by omega), if_pos rfl, getElem?_append_right (by omega),
      getElem?_append_right (by simp; omega), length_replicate, hidx]
    rfl
  · rw [if_neg hc]
    by_cases hgap : i1 < c ∧ c < h
    · rw [if_neg (by omega), if_pos hgap, getElem?_append_right (by omega),
        getElem?_append_left (by simp; omega), getElem?_replicate, if_pos (by omega)]
    · rw [if_neg hgap, child]
      by_cases hr : c < i0 ∨ c > i1
      · rw [if_pos (by omega), if_pos hr]
      · rw [if_neg (by omega), if_neg hr, getElem?_append_left (by omega)]

theorem child_set (hlen : data.length = i1 + 1 - i0) (hr : ¬ (h < i0 ∨ h > i1)) (e : Element V) :
    child c i0 i1 (data.set (h - i0) e) = if c = h then some e else child c i0 i1 data := by
  rw [child]
  by_cases hc : c = h
  · subst hc
    rw [if_neg hr, if_pos rfl, getElem?_set_self (by omega)]
  · rw [if_neg hc, child]
    by_cases hcr : c < i0 ∨ c > i1
    · rw [if_pos hcr, if_pos hcr]
    · rw [if_neg hcr, if_neg hcr, getElem?_set_ne (by omega)]


/-- A node with a new element for `h` that changes a value changes it too. -/
theorem meaning_put_child (hchild : ∀ c k, (child c j0 j1 data').bind (meaning k) =
      if c = h then meaning k e else (child c i0 i1 data).bind (meaning k))
    (he : ∀ k, meaning k e = if k = t then x else (child h i0 i1 data).bind (meaning k))
    (k : List Nat) : meaning k (.node j0 j1 data', w) =
      if k = h :: t then x else meaning k (.node i0 i1 data, w) := by
  cases k with
  | nil => rfl
  | cons c k =>
    rw [meaning_child, meaning_child, hchild]
    by_cases hc : c = h
    · rw [if_pos hc, he, hc]
      simp
    · rw [if_neg hc, if_neg (by simp [hc])]

theorem bind_hole (k : List Nat) : (some (hole : Element V)).bind (meaning k) = none :=
  meaning_hole k

/-! ## store_node and update_node -/

/-- A put below one character is a put into the node. -/
theorem putAt_spec (h : Fits (.node i0 i1 data, w)) {put : Element V → Option (Element V)}
    (hput : ∀ e ∈ data, Fits e → Puts g t e (put e)) :
    Puts g (c :: t) (.node i0 i1 data, w)
      ((putAt c t (g none) put i0 i1 data).map fun n => (n, w)) := by
  obtain ⟨hlen, hle, hdata⟩ : data.length = i1 + 1 - i0 ∧ i0 ≤ i1 ∧ ∀ e ∈ data, Fits e := by
    cases h with
    | node hlen hle hdata => exact ⟨hlen, hle, hdata⟩
  have hholes : ∀ (n : Nat), ∀ e ∈ List.replicate n (hole : Element V), Fits e :=
    fun n e he => eq_of_mem_replicate he ▸ fits_hole
  rw [putAt]
  by_cases hlow : c < i0
  · -- holes and the new element in front
    rw [if_pos hlow, Option.map_map]
    refine puts_map (by rw [meaning_out_of_range (.inl hlow)]) (fun v => ?_) fun v => ?_
    · refine .node (by simp; omega) (by omega) ?_
      simp only [mem_cons, mem_append]
      rintro e (rfl | he | he)
      · exact fits_suffix t v
      · exact hholes _ e he
      · exact hdata e he
    · refine meaning_put_child (e := (.str t, some v)) (fun a k => ?_) fun k => ?_
      · rw [child_low hlow hle]
        by_cases ha : a = c
        · rw [if_pos ha, if_pos ha, bind_some]
        · rw [if_neg ha, if_neg ha]
          by_cases hgap : c < a ∧ a < i0
          · rw [if_pos hgap, bind_hole, child_out (.inl hgap.2), bind_none]
          · rw [if_neg hgap]
      · rw [meaning_str, child_out (.inl hlow), bind_none]
  rw [if_neg hlow]
  by_cases hhigh : c > i1
  · -- holes and the new element behind
    rw [if_pos hhigh, Option.map_map]
    refine puts_map (by rw [meaning_out_of_range (.inr hhigh)]) (fun v => ?_) fun v => ?_
    · refine .node (by simp; omega) (by omega) ?_
      simp only [mem_append, mem_singleton]
      rintro e (he | he | rfl)
      · exact hdata e he
      · exact hholes _ e he
      · exact fits_suffix t v
    · refine meaning_put_child (e := (.str t, some v)) (fun a k => ?_) fun k => ?_
      · rw [child_high hhigh hle _ hlen]
        by_cases ha : a = c
        · rw [if_pos ha, if_pos ha, bind_some]
        · rw [if_neg ha, if_neg ha]
          by_cases hgap : i1 < a ∧ a < c
          · rw [if_pos hgap, bind_hole, child_out (.inr hgap.1), bind_none]
          · rw [if_neg hgap]
      · rw [meaning_str, child_out (.inr hhigh), bind_none]
  · -- the element of the character puts the value
    rw [if_neg hhigh]
    have hrange : ¬ (c < i0 ∨ c > i1) := by omega
    obtain ⟨e, hget, hfits, hmeaning⟩ := h.getElem? hrange
    have hchild := child_eq_some hrange hget
    have hmem : e ∈ data := mem_of_getElem? hget
    rw [hget]
    rcases hput e hmem hfits with ⟨hg, hr⟩ | ⟨v, e', hg, hr, hfits', he'⟩
    · exact .inl ⟨by rw [hmeaning, hg], by simp [hr]⟩
    · refine .inr ⟨v, (.node i0 i1 (data.set (c - i0) e'), w), by rw [hmeaning, hg],
        by simp [hr], ?_, ?_⟩
      · refine .node (by rw [length_set, hlen]) hle fun x hx => ?_
        rcases mem_or_eq_of_mem_set hx with hx | rfl
        · exact hdata x hx
        · exact hfits'
      · refine meaning_put_child (e := e') (fun a k => ?_) fun k => ?_
        · rw [child_set hlen hrange]
          by_cases ha : a = c
          · rw [if_pos ha, if_pos ha, bind_some]
          · rw [if_neg ha, if_neg ha]
        · rw [he', hchild, bind_some]

theorem fits_split (bh : Nat) (bt : List Nat) (x : V) :
    Fits ((.node bh bh [(.str bt, some x)], w) : Element V) :=
  .node (by simp) (Nat.le_refl bh) (by simp [fits_suffix])

theorem meaning_split (bh : Nat) (bt : List Nat) (x : V) (w : Option V) (k : List Nat) :
    meaning k (.node bh bh [(.str bt, some x)], w) =
      if k = bh :: bt then some x else if k = [] then w else none := by
  cases k with
  | nil => rfl
  | cons c k =>
    rw [meaning_child, child]
    by_cases hc : c = bh
    · subst hc
      simp
    · rw [if_pos (by omega)]
      simp [hc]

/-- **Step lemma**: `store_node/4` and `update_node/5` put one value. -/
theorem putNode_spec (g : Option V → Option V) (onError : Option V)
    (h : Fits (.node i0 i1 data, w)) :
    Puts g (c :: t) (.node i0 i1 data, w)
      ((putNode g onError t c (.node i0 i1 data)).map fun n => (n, w)) := by
  induction t generalizing c i0 i1 data w with
  | nil =>
    rw [putNode]
    refine putAt_spec h fun e _ he => ?_
    match e with
    | (.node j0 j1 data, value) =>
      refine puts_map rfl (fun v => he.value _) fun v k => ?_
      cases k with
      | nil => rfl
      | cons b k => simp [meaning_child]
    | (.str [], value) =>
      refine puts_map (by simp) (fun v => fits_suffix [] v) fun v k => ?_
      simp only [meaning_str]
      split <;> rfl
    | (.str (bh :: bt), value) =>
      obtain ⟨x, rfl⟩ := he.suffix
      refine puts_map (by simp) (fun v => fits_split bh bt x) fun v k => ?_
      rw [meaning_split, meaning_str]
      by_cases hk : k = []
      · subst hk
        simp
      · rw [if_neg hk, if_neg hk]
  | cons h1 t1 ih =>
    rw [putNode]
    refine putAt_spec h fun e _ he => ?_
    match e with
    | (.node j0 j1 data, value) =>
      exact ih he
    | (.str s, value) =>
      by_cases hs : s = h1 :: t1
      · -- the suffix is the key
        have hvalue : (value.elim onError fun v => g (some v)) = g value := by
          subst hs
          obtain ⟨x, rfl⟩ := he.suffix
          rfl
        simp only [if_pos hs, hvalue]
        refine puts_map (by simp [hs]) (fun v => fits_suffix s v) fun v k => ?_
        simp only [meaning_str, hs]
        split <;> rfl
      simp only [if_neg hs]
      match s, value with
      | [], none =>
        refine puts_map (by simp) (fun v => fits_suffix (h1 :: t1) v) fun v k => ?_
        simp only [meaning_str]
        split <;> simp
      | [], some v0 =>
        refine puts_map (by simp) (fun v => fits_split h1 t1 v) fun v k => ?_
        rw [meaning_split, meaning_str]
      | bh :: bt, value =>
        -- the suffix becomes a node, and the key goes into it
        obtain ⟨x, rfl⟩ := he.suffix
        have hsplit : ∀ k, meaning k ((.node bh bh [(.str bt, some x)], none) : Element V) =
            meaning k (.str (bh :: bt), some x) := by
          intro k
          rw [meaning_split, meaning_str]
          split <;> simp
        have hput : Puts g (h1 :: t1) (.node bh bh [(.str bt, some x)], none) _ :=
          ih (fits_split bh bt x)
        simpa only [Puts, hsplit] using hput

/-! ## store and update -/

/-- `store/3` stores the value. -/
theorem store_spec (h : Fits (n, none)) (c : Nat) (t : List Nat) (newValue : V) :
    ∃ n', store c t newValue n = some n' ∧ Fits (n', none) ∧ ∀ k, meaning k (n', none) =
      if k = c :: t then some newValue else meaning k (n, none) := by
  match n with
  | .str [] =>
    refine ⟨_, rfl, fits_split c t newValue, fun k => ?_⟩
    rw [meaning_split, meaning_str]
  | .str (bh :: bt) =>
    obtain ⟨x, hx⟩ := h.suffix
    cases hx
  | .node i0 i1 data =>
    rcases putNode_spec (c := c) (t := t) (fun _ => some newValue) (some newValue) h with
      ⟨hg, -⟩ | ⟨v, e', hg, hr, hfits, hmeaning⟩
    · cases hg
    · obtain ⟨n', hn', rfl⟩ := map_eq_some_iff.mp hr
      cases hg
      exact ⟨n', hn', hfits, hmeaning⟩

/-- `update/4` replaces the value, or stores the initial one; it raises an
exception when the function does. -/
theorem update_spec (h : Fits (n, none)) (c : Nat) (t : List Nat) (f : Option V → Option V)
    (initial : V) : ((meaning (c :: t) (n, none)).elim (some initial) (fun v => f (some v)) = none ∧
      update c t f initial n = none) ∨
    ∃ v n', (meaning (c :: t) (n, none)).elim (some initial) (fun v => f (some v)) = some v ∧
      update c t f initial n = some n' ∧ Fits (n', none) ∧
      ∀ k, meaning k (n', none) = if k = c :: t then some v else meaning k (n, none) := by
  cases n with
  | str s =>
    cases s with
    | nil =>
      obtain ⟨n', hstore, hfits, hmeaning⟩ := store_spec h c t initial
      exact .inr ⟨initial, n', by simp, hstore, hfits, hmeaning⟩
    | cons bh bt =>
      obtain ⟨x, hx⟩ := h.suffix
      cases hx
  | node i0 i1 data =>
    have hupdate : update c t f initial (.node i0 i1 data) =
        putNode (fun a => a.elim (some initial) fun v => f (some v)) (f none) t c
          (.node i0 i1 data) := by
      rw [update, updateNode]
      · congr 1
        funext a
        cases a <;> rfl
      · exact fun hn => by cases hn
    rw [hupdate]
    rcases putNode_spec (c := c) (t := t)
        (fun a => a.elim (some initial) fun v => f (some v)) (f none) h with
      ⟨hnone, hr⟩ | ⟨v, e', hsome, hr, hfits, hmeaning⟩
    · exact .inl ⟨hnone, map_eq_none_iff.mp hr⟩
    · obtain ⟨n', hn', rfl⟩ := map_eq_some_iff.mp hr
      exact .inr ⟨v, n', hsome, hn', hfits, hmeaning⟩

end CloudI.Trie
