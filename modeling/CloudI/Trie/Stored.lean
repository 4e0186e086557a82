import CloudI.Trie.Put
import Mathlib.Logic.Function.Basic

/-!
# Trie.Stored

The tries that a sequence of stores makes.  They are well formed, stand for the
map of the stored keys, and have no node without a key below it.
-/

namespace CloudI.Trie

open List Option

variable {V : Type}

/-! ## nodes with a key below them -/

/-- Every node in the element has a key below it. -/
inductive Full : Element V → Prop
  | str : Full (.str s, v)
  | node (hkey : ∃ c k x, meaning (c :: k) (.node i0 i1 data, v) = some x)
      (hdata : ∀ e ∈ data, Full e) : Full (.node i0 i1 data, v)

theorem Full.value (h : Full (.node i0 i1 data, v)) (w : Option V) :
    Full (.node i0 i1 data, w) := by
  cases h with
  | node hkey hdata =>
    obtain ⟨c, k, x, hx⟩ := hkey
    exact .node ⟨c, k, x, by rwa [meaning_child] at hx ⊢⟩ hdata

theorem Full.elements (h : Full (.node i0 i1 data, v)) : ∀ e ∈ data, Full e := by
  cases h with
  | node hkey hdata => exact hdata

theorem full_split (bh : Nat) (bt : List Nat) (x : V) (w : Option V) :
    Full (.node bh bh [(.str bt, some x)], w) := by
  have hkey : meaning (bh :: bt) (.node bh bh [(.str bt, some x)], w) = some x := by
    rw [meaning_split, if_pos rfl]
  have hdata : ∀ e ∈ [((.str bt, some x) : Element V)], Full e := by
    intro e he
    rw [mem_singleton] at he
    exact he ▸ .str
  exact .node ⟨bh, bt, x, hkey⟩ hdata

/-- The elements of the new node are old ones, holes, the new suffix or what
`put` makes; there is one for each character of the range. -/
theorem putAt_elements {P : Element V → Prop} {put : Element V → Option (Element V)}
    (hhole : P hole) (hsuffix : ∀ v, P (.str t, some v)) (hdata : ∀ e ∈ data, P e)
    (hput : ∀ e ∈ data, ∀ r, put e = some r → P r) (hlen : data.length = i1 + 1 - i0)
    (hle : i0 ≤ i1) (h : putAt c t a put i0 i1 data = some n) :
    ∃ j0 j1 data', n = .node j0 j1 data' ∧ (∀ e ∈ data', P e) ∧
      data'.length = j1 + 1 - j0 ∧ j0 ≤ j1 := by
  have hholes : ∀ (m : Nat), ∀ e ∈ List.replicate m (hole : Element V), P e :=
    fun m e he => eq_of_mem_replicate he ▸ hhole
  rw [putAt] at h
  by_cases hlow : c < i0
  · rw [if_pos hlow] at h
    obtain ⟨v, -, rfl⟩ := map_eq_some_iff.mp h
    refine ⟨_, _, _, rfl, fun e he => ?_, by simp; omega, by omega⟩
    simp only [mem_cons, mem_append] at he
    rcases he with rfl | he | he
    · exact hsuffix v
    · exact hholes _ e he
    · exact hdata e he
  rw [if_neg hlow] at h
  by_cases hhigh : c > i1
  · rw [if_pos hhigh] at h
    obtain ⟨v, -, rfl⟩ := map_eq_some_iff.mp h
    refine ⟨_, _, _, rfl, fun e he => ?_, by simp; omega, by omega⟩
    simp only [mem_append, mem_singleton] at he
    rcases he with he | he | rfl
    · exact hdata e he
    · exact hholes _ e he
    · exact hsuffix v
  · rw [if_neg hhigh] at h
    cases hget : data[c - i0]? with
    | none => rw [hget] at h; cases h
    | some e =>
      rw [hget] at h
      obtain ⟨r, hr, rfl⟩ := map_eq_some_iff.mp h
      refine ⟨_, _, _, rfl, fun x hx => ?_, by rw [length_set, hlen], hle⟩
      rcases mem_or_eq_of_mem_set hx with hx | rfl
      · exact hdata x hx
      · exact hput e (mem_of_getElem? hget) x hr

/-- A node made by `putNode` has the key that was put below it. -/
theorem full_of_putNode {g : Option V → Option V} (h : Fits (.node i0 i1 data, w))
    (hn : putNode g onError t c (.node i0 i1 data) = some n)
    (helements : ∃ j0 j1 data', n = .node j0 j1 data' ∧ (∀ e ∈ data', Full e) ∧
      data'.length = j1 + 1 - j0 ∧ j0 ≤ j1) : Full (n, w) := by
  obtain ⟨j0, j1, data', rfl, hdata, -⟩ := helements
  rcases putNode_spec (c := c) (t := t) g onError h with ⟨-, hr⟩ | ⟨v, e, -, hr, -, hmeaning⟩
  · rw [hn] at hr
    cases hr
  · rw [hn] at hr
    cases hr
    have hkey : meaning (c :: t) (.node j0 j1 data', w) = some v := by rw [hmeaning, if_pos rfl]
    exact .node ⟨c, t, v, hkey⟩ hdata

theorem putNode_full (g : Option V → Option V) (onError : Option V)
    (h : Fits (.node i0 i1 data, w)) (hfull : Full (.node i0 i1 data, w))
    (hn : putNode g onError t c (.node i0 i1 data) = some n) : Full (n, w) := by
  induction t generalizing c i0 i1 data w n with
  | nil =>
    have hput := hn
    rw [putNode] at hput
    refine full_of_putNode h hn (putAt_elements (P := Full) .str (fun _ => .str)
      hfull.elements (fun e he r hr => ?_) h.length h.le hput)
    obtain ⟨n, value⟩ := e
    cases n with
    | node j0 j1 data =>
      obtain ⟨v, -, rfl⟩ := map_eq_some_iff.mp hr
      exact (hfull.elements _ he).value _
    | str s =>
      cases s with
      | nil =>
        obtain ⟨v, -, rfl⟩ := map_eq_some_iff.mp hr
        exact .str
      | cons bh bt =>
        obtain ⟨v, -, rfl⟩ := map_eq_some_iff.mp hr
        obtain ⟨x, rfl⟩ := (h.elements _ he).suffix
        exact full_split bh bt x _
  | cons h1 t1 ih =>
    have hput := hn
    rw [putNode] at hput
    refine full_of_putNode h hn (putAt_elements (P := Full) .str (fun _ => .str)
      hfull.elements (fun e he r hr => ?_) h.length h.le hput)
    obtain ⟨n, value⟩ := e
    cases n with
    | node j0 j1 data =>
      obtain ⟨n, hn, rfl⟩ := map_eq_some_iff.mp hr
      exact ih (h.elements _ he) (hfull.elements _ he) hn
    | str s =>
      by_cases hs : s = h1 :: t1
      · simp only [if_pos hs] at hr
        obtain ⟨v, -, rfl⟩ := map_eq_some_iff.mp hr
        exact .str
      simp only [if_neg hs] at hr
      cases s with
      | nil =>
        cases value with
        | none =>
          obtain ⟨v, -, rfl⟩ := map_eq_some_iff.mp hr
          exact .str
        | some v0 =>
          obtain ⟨v, -, rfl⟩ := map_eq_some_iff.mp hr
          exact full_split h1 t1 v _
      | cons bh bt =>
        obtain ⟨x, rfl⟩ := (h.elements _ he).suffix
        obtain ⟨n, hn, rfl⟩ := map_eq_some_iff.mp hr
        exact ih (fits_split bh bt x) (full_split bh bt x none) hn

/-! ## a sequence of stores -/

variable (l : List ((Nat × List Nat) × V))

/-- The stores of a list of keys and values, in order. -/
def storeAll : Option (Tree V) :=
  l.foldlM (fun n x => store x.1.1 x.1.2 x.2 n) new

/-- The value stored last for each key. -/
def stored : List Nat → Option V :=
  l.foldl (fun m x => Function.update m (x.1.1 :: x.1.2) (some x.2)) fun _ => none

/-- A trie made by stores stands for the map of the stored keys. -/
structure Built (n : Tree V) (m : List Nat → Option V) : Prop where
  fits : Fits (n, none)
  full : Full (n, none)
  meaning_eq : ∀ k, meaning k (n, none) = m k

theorem built_new : Built (new : Tree V) fun _ => none :=
  ⟨.str (absurd rfl ·), .str, fun k => by simp [new]⟩

theorem Built.store (h : Built n m) (c : Nat) (t : List Nat) (v : V) :
    ∃ n', Trie.store c t v n = some n' ∧ Built n' (Function.update m (c :: t) (some v)) := by
  obtain ⟨n', hn', hfits, hmeaning⟩ := store_spec h.fits c t v
  have hfull : Full (n', none) := by
    match n with
    | .str [] =>
      cases hn'
      exact full_split c t v none
    | .str (bh :: bt) =>
      obtain ⟨x, hx⟩ := h.fits.suffix
      cases hx
    | .node i0 i1 data => exact putNode_full _ _ h.fits h.full hn'
  have hmap : ∀ k, meaning k (n', none) = Function.update m (c :: t) (some v) k := by
    intro k
    rw [hmeaning, Function.update_apply, h.meaning_eq]
  exact ⟨n', hn', hfits, hfull, hmap⟩

/-- **Run lemma**: the stores make a trie, and it stands for the stored keys. -/
theorem storeAll_built : ∃ n, storeAll l = some n ∧ Built n (stored l) := by
  have hrun : ∀ (n : Tree V) (m : List Nat → Option V), Built n m →
      ∃ n', l.foldlM (fun n x => Trie.store x.1.1 x.1.2 x.2 n) n = some n' ∧
        Built n' (l.foldl (fun m x => Function.update m (x.1.1 :: x.1.2) (some x.2)) m) := by
    induction l with
    | nil => exact fun n m h => ⟨n, rfl, h⟩
    | cons x l ih =>
      intro n m h
      obtain ⟨n', hn', h'⟩ := h.store x.1.1 x.1.2 x.2
      rw [foldlM_cons, hn', foldl_cons]
      exact ih n' _ h'
  exact hrun new _ built_new

end CloudI.Trie
