import CloudI.Trie.Iter

/-!
# Trie.IterSpec

How far the iterations go when a callback stops them.  `itera/3` makes the calls
up to the stop, and no further ones exactly when nothing follows, at any level,
the child nodes on the path of the key; then `iter/2` makes no further ones either.
-/

namespace CloudI.Trie

open List

variable {V S : Type} {step : List Nat → V → S → Bool × S}

/-! ## runs of itera -/

/-- What `itera/4` does with entries: all calls without a stop; with a stop at a
key `k` the calls up to it, with others behind them unless `after k`. -/
def Runs (step : List Nat → V → S → Bool × S) (s : S) (calls es : List (List Nat × V))
    (r : S × List (List Nat × V)) (after : List Nat → Prop) : Prop :=
  match stopsAt step s es with
  | none => r = ((untilStop step s es).1, calls ++ es)
  | some k => ∃ s' extra, r = (s', calls ++ (untilStop step s es).2 ++ extra) ∧
      (extra = [] ↔ after k) ∧ (extra = [] → s' = (untilStop step s es).1)

variable {after after' after2 after1 : List Nat → Prop} {s : S}
  {es calls es2 es1 : List (List Nat × V)} {x : List Nat × V} {i1 c : Nat} {key k : List Nat}
  {data : List (Element V)} {r : IterAnswer × S × List (List Nat × V)} {n : Tree V}

theorem Runs.congr {r : S × List (List Nat × V)} (h : Runs step s calls es r after)
    (hafter : ∀ k x, (k, x) ∈ es → (after k ↔ after' k)) : Runs step s calls es r after' := by
  unfold Runs at h ⊢
  cases hk : stopsAt step s es with
  | none => rwa [hk] at h
  | some k =>
    rw [hk] at h
    obtain ⟨s', extra, hr, hextra, hs'⟩ := h
    obtain ⟨x, hx⟩ := stopsAt_mem step hk
    exact ⟨s', extra, hr, hextra.trans (hafter k x hx), hs'⟩

theorem runs_nil (s : S) (calls : List (List Nat × V)) (after : List Nat → Prop) :
    Runs step s calls [] (s, calls) after := by
  show (s, calls) = (s, calls ++ [])
  rw [append_nil]

theorem runs_stop (hx : (step x.1 x.2 s).1 = true) (calls es : List (List Nat × V))
    (hafter : after x.1) :
    Runs step s calls (x :: es) ((step x.1 x.2 s).2, calls ++ [x]) after := by
  rw [Runs, stopsAt_of_stop step hx, untilStop_of_stop step hx]
  exact ⟨_, [], by rw [append_nil], iff_of_true rfl hafter, fun _ => rfl⟩

theorem Runs.cons {r : S × List (List Nat × V)}
    (h : Runs step (step x.1 x.2 s).2 (calls ++ [x]) es r after) (hx : (step x.1 x.2 s).1 = false) :
    Runs step s calls (x :: es) r after := by
  rw [Runs] at h ⊢
  rw [stopsAt_of_not_stop step hx, untilStop_of_not_stop step hx]
  simpa only [append_assoc, singleton_append] using h

/-- **Composition**: the entries `es2` are visited even if a call for one of `es1`
stopped. -/
theorem Runs.append {r1 r : S × List (List Nat × V)} (h1 : Runs step s calls es1 r1 after1)
    (h2 : Runs step r1.1 r1.2 es2 r after2)
    (hafter1 : ∀ k x, (k, x) ∈ es1 → (after k ↔ es2 = [] ∧ after1 k))
    (hafter2 : ∀ k x, (k, x) ∈ es2 → (after k ↔ after2 k)) :
    Runs step s calls (es1 ++ es2) r after := by
  rw [Runs] at h1
  cases hk : stopsAt step s es1 with
  | none =>
    rw [hk] at h1
    subst h1
    obtain ⟨hstop, hcalls⟩ := append_of_stopsAt_none step hk es2
    have h : Runs step (untilStop step s es1).1 (calls ++ es1) es2 r after :=
      h2.congr fun k x hx => (hafter2 k x hx).symm
    rw [Runs] at h ⊢
    rw [hstop, hcalls]
    simpa only [append_assoc] using h
  | some k =>
    rw [hk] at h1
    obtain ⟨s', extra, rfl, hextra, hs'⟩ := h1
    obtain ⟨x, hx⟩ := stopsAt_mem step hk
    obtain ⟨hstop, hcalls⟩ := append_of_stopsAt_some step hk es2
    rw [Runs, hstop, hcalls]
    by_cases hnil : es2 = []
    · subst hnil
      have hr : r = (s', calls ++ (untilStop step s es1).2 ++ extra) := by
        have h2' : r = (s', calls ++ (untilStop step s es1).2 ++ extra ++ []) := h2
        rwa [append_nil] at h2'
      exact ⟨s', extra, hr, hextra.trans (by rw [hafter1 k x hx]; simp), hs'⟩
    · -- at least one call follows the one that stopped
      have hmore : ∃ s'' more, more ≠ [] ∧
          r = (s'', calls ++ (untilStop step s es1).2 ++ extra ++ more) := by
        rw [Runs] at h2
        cases hk2 : stopsAt step s' es2 with
        | none =>
          rw [hk2] at h2
          exact ⟨_, es2, hnil, h2⟩
        | some k2 =>
          rw [hk2] at h2
          obtain ⟨s'', extra2, hr, -, -⟩ := h2
          refine ⟨s'', (untilStop step s' es2).2 ++ extra2, ?_, by
            rw [hr, append_assoc _ (untilStop step s' es2).2]⟩
          exact append_ne_nil_of_left_ne_nil (untilStop_ne_nil step hnil) extra2
      obtain ⟨s'', more, hmore, hr⟩ := hmore
      have hne : extra ++ more ≠ [] := append_ne_nil_of_right_ne_nil extra hmore
      refine ⟨s'', extra ++ more, by rw [hr, append_assoc _ extra], ?_, fun h => absurd h hne⟩
      exact iff_of_false hne fun h => hnil ((hafter1 k x hx).mp h).1

/-! ## the path of a key -/

theorem nothingAfter_single (h : Nat) (n : Tree V) : NothingAfter [h] n := by
  cases n <;> trivial

theorem nothingAfter_head_str (h : Nat) (r s : List Nat) (w : Option V) (i1 : Nat)
    (data : List (Element V)) : NothingAfter (h :: r) (.node h i1 ((.str s, w) :: data)) := by
  cases r with
  | nil => exact nothingAfter_single _ _
  | cons h1 t => rw [NothingAfter, Nat.sub_self, getElem?_cons_zero]; trivial

theorem nothingAfter_head_node (h h1 : Nat) (t : List Nat) (j0 j1 : Nat)
    (below : List (Element V)) (w : Option V) (i1 : Nat) (data : List (Element V)) :
    NothingAfter (h :: h1 :: t) (.node h i1 ((.node j0 j1 below, w) :: data)) ↔
      (∀ e ∈ data, entriesOne [] e = []) ∧ NothingAfter (h1 :: t) (.node j0 j1 below) := by
  rw [NothingAfter, Nat.sub_self]
  rfl

theorem nothingAfter_tail (c h : Nat) (r : List Nat) (hlt : c < h) (e : Element V) (i1 : Nat)
    (data : List (Element V)) :
    NothingAfter (h :: r) (.node c i1 (e :: data)) ↔
      NothingAfter (h :: r) (.node (c + 1) i1 data) := by
  cases r with
  | nil => exact iff_of_true (nothingAfter_single _ _) (nothingAfter_single _ _)
  | cons h1 t =>
    have hidx : h - c = h - (c + 1) + 1 := by omega
    rw [NothingAfter, NothingAfter, hidx, getElem?_cons_succ, drop_succ_cons]

theorem after_tail {e : Element V} {x : V} (hx : (k, x) ∈ entriesElement key (c + 1) data) :
    (∀ q, k = key ++ q → NothingAfter q (.node c i1 (e :: data))) ↔
      ∀ q, k = key ++ q → NothingAfter q (.node (c + 1) i1 data) := by
  obtain ⟨i, e', -, hx⟩ := mem_entriesElement.mp hx
  have hkey := entriesOne_key (key ++ [c + 1 + i]) [] e'
  rw [append_nil] at hkey
  rw [hkey] at hx
  obtain ⟨y, -, hy⟩ := mem_map.mp hx
  obtain ⟨rfl, -⟩ := Prod.mk.inj hy
  simp only [append_assoc, singleton_append, append_cancel_left_eq, forall_eq']
  exact nothingAfter_tail c _ _ (by omega) e i1 data

theorem after_head {j0 j1 : Nat} {below : List (Element V)} {w : Option V} {x : V}
    (hx : (k, x) ∈ entriesNode (key ++ [c]) (.node j0 j1 below)) :
    (∀ q, k = key ++ q → NothingAfter q (.node c i1 ((.node j0 j1 below, w) :: data))) ↔
      entriesElement key (c + 1) data = [] ∧
        ∀ q, k = key ++ [c] ++ q → NothingAfter q (.node j0 j1 below) := by
  rw [entriesNode] at hx
  obtain ⟨i, e', -, hx⟩ := mem_entriesElement.mp hx
  have hkey := entriesOne_key (key ++ [c] ++ [j0 + i]) [] e'
  rw [append_nil] at hkey
  rw [hkey] at hx
  obtain ⟨y, -, hy⟩ := mem_map.mp hx
  obtain ⟨rfl, -⟩ := Prod.mk.inj hy
  simp only [append_assoc, cons_append, nil_append, append_cancel_left_eq,
    List.cons.injEq, true_and, forall_eq']
  rw [nothingAfter_head_node, entriesElement_eq_nil_iff]

/-! ## itera -/

variable (key : List Nat)

theorem stopItera_run (value : V) (a : S)
    (next : S → StateM (List (List Nat × V)) (IteraAnswer S)) (calls : List (List Nat × V)) :
    (stopItera step key value a next).run calls =
      if (step key value a).1 then (.result (step key value a).2, calls ++ [(key, value)])
      else (next (step key value a).2).run (calls ++ [(key, value)]) := by
  unfold stopItera
  obtain ⟨stop, a'⟩ := step key value a
  cases stop <;> rfl

theorem iteraElement_node_some (c : Nat) (s : S) (j0 j1 : Nat)
    (below : List (Element V)) (v : V) (data : List (Element V)) (calls : List (List Nat × V)) :
    (iteraElement (stopItera step) key c s ((.node j0 j1 below, some v) :: data)).run calls =
      if (step (key ++ [c]) v s).1 then
        ((step (key ++ [c]) v s).2, calls ++ [(key ++ [c], v)])
      else
        let r := (iteraNode (stopItera step) (key ++ [c]) (step (key ++ [c]) v s).2
          (.node j0 j1 below)).run (calls ++ [(key ++ [c], v)])
        (iteraElement (stopItera step) key (c + 1) r.1 data).run r.2 := by
  rw [iteraElement]
  simp only [StateT.run_bind, stopItera_run]
  cases (step (key ++ [c]) v s).1 <;> rfl

theorem iteraElement_str_some (c : Nat) (s : S) (t : List Nat) (v : V)
    (data : List (Element V)) (calls : List (List Nat × V)) :
    (iteraElement (stopItera step) key c s ((.str t, some v) :: data)).run calls =
      if (step (key ++ [c] ++ t) v s).1 then
        ((step (key ++ [c] ++ t) v s).2, calls ++ [(key ++ [c] ++ t, v)])
      else (iteraElement (stopItera step) key (c + 1) (step (key ++ [c] ++ t) v s).2 data).run
        (calls ++ [(key ++ [c] ++ t, v)]) := by
  rw [iteraElement]
  simp only [StateT.run_bind, stopItera_run]
  cases (step (key ++ [c] ++ t) v s).1 <;> rfl

mutual

theorem iteraNode_runs (step : List Nat → V → S → Bool × S) (key : List Nat) (s : S)
    (calls : List (List Nat × V)) (n : Tree V) :
    Runs step s calls (entriesNode key n) ((iteraNode (stopItera step) key s n).run calls)
      fun k => ∀ q, k = key ++ q → NothingAfter q n := by
  match n with
  | .str t =>
    rw [iteraNode, entriesNode]
    exact runs_nil s calls _
  | .node i0 i1 data =>
    rw [iteraNode, entriesNode]
    exact iteraElement_runs step key i0 i1 s calls data

theorem iteraElement_runs (step : List Nat → V → S → Bool × S) (key : List Nat) (c i1 : Nat)
    (s : S) (calls : List (List Nat × V)) (data : List (Element V)) :
    Runs step s calls (entriesElement key c data)
      ((iteraElement (stopItera step) key c s data).run calls)
      fun k => ∀ q, k = key ++ q → NothingAfter q (.node c i1 data) := by
  match data with
  | [] =>
    rw [iteraElement, entriesElement]
    exact runs_nil s calls _
  | (.node j0 j1 below, none) :: data =>
    have hbelow := iteraNode_runs step (key ++ [c]) s calls (.node j0 j1 below)
    rw [iteraElement, entriesElement, entriesOne]
    exact hbelow.append (iteraElement_runs step key (c + 1) i1 _ _ data)
      (fun k x hx => after_head hx) fun k x hx => after_tail hx
  | (.node j0 j1 below, some v) :: data =>
    rw [iteraElement_node_some, entriesElement, entriesOne, cons_append]
    cases hstop : (step (key ++ [c]) v s).1 with
    | true =>
      refine runs_stop (x := (key ++ [c], v)) hstop calls _ fun q hq => ?_
      exact append_cancel_left hq ▸ nothingAfter_single _ _
    | false =>
      have hbelow := iteraNode_runs step (key ++ [c]) (step (key ++ [c]) v s).2
        (calls ++ [(key ++ [c], v)]) (.node j0 j1 below)
      refine Runs.cons (x := (key ++ [c], v)) ?_ hstop
      exact hbelow.append (iteraElement_runs step key (c + 1) i1 _ _ data)
        (fun k x hx => after_head hx) fun k x hx => after_tail hx
  | (.str t, none) :: data =>
    rw [iteraElement, entriesElement, entriesOne, nil_append]
    exact (iteraElement_runs step key (c + 1) i1 s calls data).congr fun k x hx =>
      (after_tail hx).symm
  | (.str t, some v) :: data =>
    rw [iteraElement_str_some, entriesElement, entriesOne, singleton_append]
    cases hstop : (step (key ++ [c] ++ t) v s).1 with
    | true =>
      refine runs_stop (x := (key ++ [c] ++ t, v)) hstop calls _ fun q hq => ?_
      rw [append_assoc] at hq
      exact append_cancel_left hq ▸ nothingAfter_head_str c t t (some v) i1 data
    | false =>
      refine Runs.cons (x := (key ++ [c] ++ t, v)) ?_ hstop
      exact (iteraElement_runs step key (c + 1) i1 _ _ data).congr fun k x hx =>
        (after_tail hx).symm

end

/-! ## iter -/

/-- What `iter/3` does with entries: all calls without a stop, and the calls up to
a stop at a key `k` that `after` holds of. -/
def RunsIter (step : List Nat → V → S → Bool × S) (s : S) (calls es : List (List Nat × V))
    (r : IterAnswer × S × List (List Nat × V)) (after : List Nat → Prop) : Prop :=
  match stopsAt step s es with
  | none => r = (.done, (untilStop step s es).1, calls ++ es)
  | some k => after k → r.2 = ((untilStop step s es).1, calls ++ (untilStop step s es).2)

theorem RunsIter.congr (h : RunsIter step s calls es r after)
    (hafter : ∀ k x, (k, x) ∈ es → (after' k → after k)) : RunsIter step s calls es r after' := by
  unfold RunsIter at h ⊢
  cases hk : stopsAt step s es with
  | none => rwa [hk] at h
  | some k =>
    rw [hk] at h
    obtain ⟨x, hx⟩ := stopsAt_mem step hk
    exact fun hk' => h (hafter k x hx hk')

theorem runsIter_nil (s : S) (calls : List (List Nat × V)) (after : List Nat → Prop) :
    RunsIter step s calls [] (.done, s, calls) after := by
  show (IterAnswer.done, s, calls) = (.done, s, calls ++ [])
  rw [append_nil]

theorem runsIter_stop (hx : (step x.1 x.2 s).1 = true) (calls es : List (List Nat × V))
    (after : List Nat → Prop) (answer : IterAnswer) :
    RunsIter step s calls (x :: es) (answer, (step x.1 x.2 s).2, calls ++ [x]) after := by
  rw [RunsIter, stopsAt_of_stop step hx, untilStop_of_stop step hx]
  exact fun _ => rfl

theorem RunsIter.cons (h : RunsIter step (step x.1 x.2 s).2 (calls ++ [x]) es r after)
    (hx : (step x.1 x.2 s).1 = false) : RunsIter step s calls (x :: es) r after := by
  rw [RunsIter] at h ⊢
  rw [stopsAt_of_not_stop step hx, untilStop_of_not_stop step hx]
  simpa only [append_assoc, singleton_append] using h

/-- **Composition**: behind a stop in `es1` nothing is left, and without one the
second iteration runs. -/
theorem RunsIter.append {r1 r2 : IterAnswer × S × List (List Nat × V)}
    (h1 : RunsIter step s calls es1 r1 after1) (h2 : RunsIter step r1.2.1 r1.2.2 es2 r2 after2)
    (hr : r = r2 ∨ r1.1 = .other ∧ r.2 = r1.2)
    (hafter1 : ∀ k x, (k, x) ∈ es1 → (after k → es2 = [] ∧ after1 k))
    (hafter2 : ∀ k x, (k, x) ∈ es2 → (after k → after2 k)) :
    RunsIter step s calls (es1 ++ es2) r after := by
  rw [RunsIter] at h1
  cases hk : stopsAt step s es1 with
  | none =>
    rw [hk] at h1
    subst h1
    obtain rfl := hr.resolve_right fun h => nomatch h.1
    obtain ⟨hstop, hcalls⟩ := append_of_stopsAt_none step hk es2
    have h : RunsIter step (untilStop step s es1).1 (calls ++ es1) es2 r after :=
      h2.congr hafter2
    rw [RunsIter] at h ⊢
    rw [hstop, hcalls]
    simpa only [append_assoc] using h
  | some k =>
    rw [hk] at h1
    obtain ⟨x, hx⟩ := stopsAt_mem step hk
    obtain ⟨hstop, hcalls⟩ := append_of_stopsAt_some step hk es2
    rw [RunsIter, hstop, hcalls]
    intro hafter
    obtain ⟨rfl, hk1⟩ := hafter1 k x hx hafter
    rw [← h1 hk1]
    rcases hr with rfl | ⟨-, hr⟩
    · have h2' : r = (.done, r1.2.1, r1.2.2 ++ []) := h2
      rw [h2', append_nil]
    · exact hr

theorem stopIter_run (value : V) (s : S)
    (next : StateM (S × List (List Nat × V)) IterAnswer) (calls : List (List Nat × V)) :
    (stopIter step key value next).run (s, calls) =
      if (step key value s).1 then (.other, (step key value s).2, calls ++ [(key, value)])
      else next.run ((step key value s).2, calls ++ [(key, value)]) := by
  rw [stopIter]
  cases hstep : step key value s with
  | mk stop s' =>
    cases stop with
    | false => simp [hstep]
    | true =>
      simp [hstep]
      rfl

/-- A child node with a value, after a call that stops or not; an answer of the
child node other than `trie_iter_done` ends the node above it too. -/
theorem iterElement_node_some (c : Nat) (s : S) (j0 j1 : Nat)
    (below : List (Element V)) (v : V) (data : List (Element V)) (calls : List (List Nat × V)) :
    (iterElement (stopIter step) key c ((.node j0 j1 below, some v) :: data)).run (s, calls) =
      if (step (key ++ [c]) v s).1 then
        (.other, (step (key ++ [c]) v s).2, calls ++ [(key ++ [c], v)])
      else
        let r := (iterNode (stopIter step) (key ++ [c]) (.node j0 j1 below)).run
          ((step (key ++ [c]) v s).2, calls ++ [(key ++ [c], v)])
        match r.1 with
        | .done => (iterElement (stopIter step) key (c + 1) data).run r.2
        | .other => (.other, r.2) := by
  rw [iterElement]
  simp only [StateT.run_bind, stopIter_run]
  cases (step (key ++ [c]) v s).1 with
  | true => rfl
  | false =>
    obtain ⟨answer, r⟩ := (iterNode (stopIter step) (key ++ [c]) (.node j0 j1 below)).run
      ((step (key ++ [c]) v s).2, calls ++ [(key ++ [c], v)])
    cases answer <;> rfl

mutual

theorem iterNode_runs (step : List Nat → V → S → Bool × S) (key : List Nat) (s : S)
    (calls : List (List Nat × V)) (n : Tree V) :
    RunsIter step s calls (entriesNode key n) ((iterNode (stopIter step) key n).run (s, calls))
      fun k => ∀ q, k = key ++ q → NothingAfter q n := by
  match n with
  | .str t =>
    rw [iterNode, entriesNode]
    exact runsIter_nil s calls _
  | .node i0 i1 data =>
    rw [iterNode, entriesNode]
    exact iterElement_runs step key i0 i1 s calls data

theorem iterElement_runs (step : List Nat → V → S → Bool × S) (key : List Nat) (c i1 : Nat)
    (s : S) (calls : List (List Nat × V)) (data : List (Element V)) :
    RunsIter step s calls (entriesElement key c data)
      ((iterElement (stopIter step) key c data).run (s, calls))
      fun k => ∀ q, k = key ++ q → NothingAfter q (.node c i1 data) := by
  match data with
  | [] =>
    rw [iterElement, entriesElement]
    exact runsIter_nil s calls _
  | (.node j0 j1 below, none) :: data =>
    have hbelow := iterNode_runs step (key ++ [c]) s calls (.node j0 j1 below)
    rw [iterElement, entriesElement, entriesOne]
    exact hbelow.append (iterElement_runs step key (c + 1) i1 _ _ data) (.inl rfl)
      (fun k x hx => (after_head hx).mp) fun k x hx => (after_tail hx).mp
  | (.node j0 j1 below, some v) :: data =>
    rw [iterElement_node_some, entriesElement, entriesOne, cons_append]
    cases hstop : (step (key ++ [c]) v s).1 with
    | true => exact runsIter_stop (x := (key ++ [c], v)) hstop calls _ _ .other
    | false =>
      have hbelow := iterNode_runs step (key ++ [c]) (step (key ++ [c]) v s).2
        (calls ++ [(key ++ [c], v)]) (.node j0 j1 below)
      refine RunsIter.cons (x := (key ++ [c], v)) ?_ hstop
      refine hbelow.append (iterElement_runs step key (c + 1) i1 _ _ data) ?_
        (fun k x hx => (after_head hx).mp) fun k x hx => (after_tail hx).mp
      obtain ⟨answer, r⟩ := (iterNode (stopIter step) (key ++ [c]) (.node j0 j1 below)).run
        ((step (key ++ [c]) v s).2, calls ++ [(key ++ [c], v)])
      cases answer with
      | done => exact .inl rfl
      | other => exact .inr ⟨rfl, rfl⟩
  | (.str t, none) :: data =>
    rw [iterElement, entriesElement, entriesOne, nil_append]
    exact (iterElement_runs step key (c + 1) i1 s calls data).congr fun k x hx =>
      (after_tail hx).mp
  | (.str t, some v) :: data =>
    rw [iterElement, entriesElement, entriesOne, singleton_append, stopIter_run]
    cases hstop : (step (key ++ [c] ++ t) v s).1 with
    | true => exact runsIter_stop (x := (key ++ [c] ++ t, v)) hstop calls _ _ .other
    | false =>
      refine RunsIter.cons (x := (key ++ [c] ++ t, v)) ?_ hstop
      exact (iterElement_runs step key (c + 1) i1 _ _ data).congr fun k x hx =>
        (after_tail hx).mp

end

/-! ## a whole trie -/

/-- **The iterations stop as asked**: `iter/2` and `itera/3` call the
callback for the keys of `foldl/3` up to the one at which it asks to stop, and end
with its state then. -/
def StopsAsAsked (step : List Nat → V → S → Bool × S) (s : S) (n : Tree V) : Prop :=
  let keys := fold (fun k v l => l ++ [(k, v)]) [] n
  ((iter (stopIter step) n).run (s, [])).2 = untilStop step s keys ∧
    (itera (stopItera step) s n).run [] = untilStop step s keys

theorem fold_keys (h : Rooted n) : fold (fun k v l => l ++ [(k, v)]) [] n = entries n := by
  have happend : ∀ l l' : List (List Nat × V),
      l'.foldl (fun l x => l ++ [(x.1, x.2)]) l = l ++ l' := by
    intro l l'
    induction l' generalizing l with
    | nil => exact (append_nil l).symm
    | cons x l' ih => rw [foldl_cons, ih, append_assoc, singleton_append]
  rw [fold_entries h, happend, nil_append]

theorem iter_runs (step : List Nat → V → S → Bool × S) (s : S) (h : Rooted n) :
    ∃ answer, RunsIter step s [] (entries n)
      (answer, ((iter (stopIter step) n).run (s, [])).2) fun k => NothingAfter k n := by
  match n with
  | .str t =>
    rw [h.root t rfl]
    exact ⟨.done, runsIter_nil s [] _⟩
  | .node i0 i1 data =>
    refine ⟨((iterNode (stopIter step) [] (.node i0 i1 data)).run (s, [])).1, ?_⟩
    exact (iterNode_runs step [] s [] (.node i0 i1 data)).congr
      fun k x _ hk q hq => (show k = q from hq) ▸ hk

theorem itera_runs (step : List Nat → V → S → Bool × S) (s : S) (h : Rooted n) :
    Runs step s [] (entries n) ((itera (stopItera step) s n).run []) fun k => NothingAfter k n := by
  match n with
  | .str t =>
    rw [h.root t rfl]
    exact runs_nil s [] _
  | .node i0 i1 data =>
    refine (iteraNode_runs step [] s [] (.node i0 i1 data)).congr fun k x _ => ?_
    exact ⟨fun hk => hk k rfl, fun hk q hq => (show k = q from hq) ▸ hk⟩

/-- **Stoppable iteration** is exact when no key follows, at any level, a child node
on the path of the key at which the callback stops. -/
theorem stopsAsAsked_iff {n : Tree V} (h : Reachable n) (step : List Nat → V → S → Bool × S)
    (s : S) : StopsAsAsked step s n ↔
      ∀ k, stopsAt step s (entries n) = some k → NothingAfter k n := by
  have hroot := h.rooted
  obtain ⟨answer, hiter⟩ := iter_runs step s hroot
  have hitera := itera_runs step s hroot
  rw [StopsAsAsked, fold_keys hroot]
  rw [RunsIter] at hiter
  rw [Runs] at hitera
  cases hk : stopsAt step s (entries n) with
  | none =>
    rw [hk] at hiter hitera
    have hall : untilStop step s (entries n) =
        ((untilStop step s (entries n)).1, [] ++ entries n) := Prod.ext rfl (untilStop_all step hk)
    refine iff_of_true ⟨?_, ?_⟩ fun k hnone => nomatch hnone
    · rw [hall]
      exact (Prod.mk.inj hiter).2
    · rw [hall]
      exact hitera
  | some k =>
    rw [hk] at hiter hitera
    obtain ⟨s', extra, hr, hextra, hs'⟩ := hitera
    constructor
    · rintro ⟨-, hcalls⟩ k' hk'
      cases hk'
      rw [hr] at hcalls
      have hlist : (untilStop step s (entries n)).2 ++ extra = (untilStop step s (entries n)).2 :=
        congrArg Prod.snd hcalls
      exact hextra.mp (append_right_eq_self.mp hlist)
    · intro hafter
      obtain rfl := hextra.mpr (hafter k rfl)
      refine ⟨hiter (hafter k rfl), ?_⟩
      rw [hr, hs' rfl, append_nil]
      rfl

/-- Stop at every key. -/
def stopAtOnce (_ : List Nat) (_ : V) (calls : Nat) : Bool × Nat := (true, calls + 1)

theorem stopsAsAsked_iff_erasedTrie : StopsAsAsked stopAtOnce 0 erasedTrie ↔
      ∀ k, stopsAt stopAtOnce 0 (entries erasedTrie) = some k → NothingAfter k erasedTrie :=
  stopsAsAsked_iff reachable_erasedTrie stopAtOnce 0

/-- "aab", "aac" and "b" stored. -/
def siblingTrie : Tree Nat :=
  .node 97 98 [(.node 97 97 [(.node 98 99 [(.str [], some 1), (.str [], some 2)], none)], none),
    (.str [], some 3)]

/-- **The stop is forgotten**: with "aab", "aac" and "b" stored a callback that
stops at "aab" is called with "b" too. -/
theorem iteration_resumes : Reachable siblingTrie ∧ ¬ StopsAsAsked stopAtOnce 0 siblingTrie := by
  have hab : Reachable (.node 97 97 [(.str [97, 98], some 1)] : Tree Nat) := .store .new rfl
  have hac := Reachable.store hab (show store 97 [97, 99] 2 _ = some _ from rfl)
  refine ⟨.store hac (show store 98 [] 3 _ = some siblingTrie from rfl), fun h => ?_⟩
  have hcalls := congrArg (fun r => r.2.length) h.1
  cases hcalls

end CloudI.Trie
