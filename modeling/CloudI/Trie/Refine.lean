import CloudI.Trie.Traverse

/-!
# Trie.Refine

A trie against a finite map.  `Prog` is a term of the operations that make
tries; `evalTrie` executes it on tries and `evalMap` on maps of keys.  The
answers agree as long as every `filter` meets `FilterSafe`, and no further: a
`filter` that does not meet it answers otherwise than the map.
-/

namespace CloudI.Trie

variable {V : Type}

/-- A term of the operations over nonempty keys. -/
inductive Prog (V : Type) where
  | new
  | fromList (l : List (Entry V))
  | store (h : Nat) (t : List Nat) (value : V) (p : Prog V)
  | storeKey (h : Nat) (t : List Nat) (p : Prog V)
  | update (h : Nat) (t : List Nat) (f : Option V → Option V) (initial : V) (p : Prog V)
  | append (h : Nat) (t : List Nat) (value : V) (p : Prog V)
  | appendList (h : Nat) (t : List Nat) (valueList : V) (p : Prog V)
  | prefixValue (h : Nat) (t : List Nat) (value : V) (p : Prog V)
  | merge (f : List Nat → V → Option V → V) (p1 p2 : Prog V)
  | map (f : List Nat → V → V) (p : Prog V)
  | filter (f : List Nat → V → Bool) (p : Prog V)

/-- The operations on tries; `none` is an exception. -/
def evalTrie [ListValue V] : Prog V → Option (Tree V)
  | .new => some new
  | .fromList l => fromList l
  | .store h t value p => (evalTrie p).bind (store h t value)
  | .storeKey h t p => (evalTrie p).bind (storeKey h t)
  | .update h t f initial p => (evalTrie p).bind (update h t f initial)
  | .append h t value p => (evalTrie p).bind (append h t value)
  | .appendList h t valueList p => (evalTrie p).bind (appendList h t valueList)
  | .prefixValue h t value p => (evalTrie p).bind (prefixValue h t value)
  | .merge f p1 p2 => (evalTrie p1).bind fun n1 => (evalTrie p2).bind (merge f n1)
  | .map f p => (evalTrie p).map (map f)
  | .filter f p => (evalTrie p).map (filter f)

/-! ## the finite map -/

/-- A map of keys. -/
abbrev KeyMap (V : Type) := List Nat → Option V

/-- The map with one value replaced, or the initial one stored. -/
def updateMap (h : Nat) (t : List Nat) (f : V → Option V) (initial : V) (m : KeyMap V) :
    Option (KeyMap V) :=
  ((m (h :: t)).elim (some initial) f).map fun v => Function.update m (h :: t) (some v)

/-- The key and the value of an element of a list given to `new/1`. -/
def Entry.stored [ListValue V] : Entry V → List Nat × V
  | .pair h t value => (h :: t, value)
  | .tuple first second whole => ((first.getD second).1 :: (first.getD second).2, whole)
  | .key h t => (h :: t, ListValue.empty)

/-- **The operations on maps**: what each one means. -/
def evalMap [ListValue V] : Prog V → Option (KeyMap V)
  | .new => some fun _ => none
  | .fromList l => some (l.foldl (fun m x => Function.update m x.stored.1 (some x.stored.2))
      fun _ => none)
  | .store h t value p => (evalMap p).map fun m => Function.update m (h :: t) (some value)
  | .storeKey h t p => (evalMap p).map fun m => Function.update m (h :: t) (some ListValue.empty)
  | .update h t f initial p => (evalMap p).bind (updateMap h t (fun v => f (some v)) initial)
  | .append h t value p => (evalMap p).bind
      (updateMap h t (ListValue.append · (ListValue.cons value ListValue.nil))
        (ListValue.cons value ListValue.nil))
  | .appendList h t valueList p => (evalMap p).bind
      (updateMap h t (ListValue.append · valueList) valueList)
  | .prefixValue h t value p => (evalMap p).bind
      (updateMap h t (fun v => some (ListValue.cons value v)) (ListValue.cons value ListValue.nil))
  | .merge f p1 p2 => (evalMap p1).bind fun m1 =>
      (evalMap p2).map fun m2 => mergeMap (fun k v1 v2 => f k v1 (some v2)) m1 m2
  | .map f p => (evalMap p).map fun m k => (m k).map (f k)
  | .filter f p => (evalMap p).map fun m k => (m k).filter (f k)

/-! ## the refinement -/

/-- The trie is well formed and stands for the map. -/
def Stands (n : Tree V) (m : KeyMap V) : Prop :=
  Fits (n, none) ∧ ∀ k, meaning k (n, none) = m k

/-- Both raise an exception, or the trie stands for the map. -/
def Refines (n : Option (Tree V)) (m : Option (KeyMap V)) : Prop :=
  (n = none ∧ m = none) ∨ ∃ n' m', n = some n' ∧ m = some m' ∧ Stands n' m'

theorem Refines.bind (h : Refines n m) (hfg : ∀ n m, Stands n m → Refines (f n) (g m)) :
    Refines (n.bind f) (m.bind g) := by
  rcases h with ⟨rfl, rfl⟩ | ⟨n', m', rfl, rfl, hs⟩
  · exact .inl ⟨rfl, rfl⟩
  · exact hfg n' m' hs

theorem Refines.bindMap (h : Refines n m)
    (hfg : ∀ n m, Stands n m → ∃ n', f n = some n' ∧ Stands n' (g m)) :
    Refines (n.bind f) (m.map g) := by
  rcases h with ⟨rfl, rfl⟩ | ⟨n', m', rfl, rfl, hs⟩
  · exact .inl ⟨rfl, rfl⟩
  · obtain ⟨n'', hn'', hs'⟩ := hfg n' m' hs
    exact .inr ⟨n'', g m', hn'', rfl, hs'⟩

theorem Refines.map (h : Refines n m) (hfg : ∀ n' m', n = some n' → m = some m' → Stands n' m' →
      Stands (f n') (g m')) : Refines (n.map f) (m.map g) := by
  rcases h with ⟨rfl, rfl⟩ | ⟨n', m', rfl, rfl, hs⟩
  · exact .inl ⟨rfl, rfl⟩
  · exact .inr ⟨f n', g m', rfl, rfl, hfg n' m' rfl rfl hs⟩

theorem Refines.some (h : Stands n m) : Refines (V := V) (some n) (some m) :=
  .inr ⟨n, m, rfl, rfl, h⟩

theorem stands_new : Stands (new : Tree V) fun _ => none :=
  ⟨.str (absurd rfl ·), fun k => by simp [new]⟩

theorem Stands.store (h : Stands n m) (c : Nat) (t : List Nat) (value : V) :
    ∃ n', Trie.store c t value n = Option.some n' ∧
      Stands n' (Function.update m (c :: t) (Option.some value)) := by
  obtain ⟨n', hn', hfits, hmeaning⟩ := store_spec h.1 c t value
  refine ⟨n', hn', hfits, fun k => ?_⟩
  rw [hmeaning, Function.update_apply, h.2]

theorem Stands.update (h : Stands n m) (c : Nat) (t : List Nat) (f : Option V → Option V)
    (initial : V) : Refines (Trie.update c t f initial n)
      (updateMap c t (fun v => f (some v)) initial m) := by
  rw [updateMap, ← h.2]
  rcases update_spec h.1 c t f initial with ⟨hnone, hr⟩ | ⟨v, n', hv, hn', hfits, hmeaning⟩
  · exact .inl ⟨hr, by rw [hnone]; rfl⟩
  · refine .inr ⟨n', _, hn', by rw [hv]; rfl, hfits, fun k => ?_⟩
    simp only [hmeaning, Function.update_apply, h.2]

theorem Stands.newInstance [ListValue V] (l : List (Entry V)) (h : Stands n m) :
    Refines (Trie.newInstance l n)
      (Option.some (l.foldl (fun m x => Function.update m x.stored.1 (Option.some x.stored.2)) m)) := by
  induction l generalizing n m with
  | nil => exact .some h
  | cons x l ih =>
    cases x with
    | pair c t value =>
      obtain ⟨n', hn', h'⟩ := h.store c t value
      rw [Trie.newInstance, hn', List.foldl_cons]
      exact ih h'
    | tuple first second whole =>
      obtain ⟨n', hn', h'⟩ := h.store (first.getD second).1 (first.getD second).2 whole
      rw [List.foldl_cons]
      show Refines ((Trie.store (first.getD second).1 (first.getD second).2 whole n).bind
        (Trie.newInstance l)) _
      rw [hn']
      exact ih h'
    | key c t =>
      obtain ⟨n', hn', h'⟩ := h.store c t ListValue.empty
      rw [Trie.newInstance, storeKey, hn', List.foldl_cons]
      exact ih h'

theorem Stands.merge (h1 : Stands n1 m1) (h2 : Stands n2 m2)
    (f : List Nat → V → Option V → V) : ∃ n', Trie.merge f n1 n2 = Option.some n' ∧
      Stands n' (mergeMap (fun k v1 v2 => f k v1 (some v2)) m1 m2) := by
  obtain ⟨n', hn', hfits, hmeaning⟩ := merge_spec h1.1 h2.1 f
  refine ⟨n', hn', hfits, fun k => ?_⟩
  rw [hmeaning, mergeMap, mergeMap, h1.2, h2.2]

theorem Stands.map (h : Stands n m) (f : List Nat → V → V) :
    Stands (Trie.map f n) fun k => (m k).map (f k) := by
  obtain ⟨hfits, hmeaning⟩ := map_spec h.1 f
  exact ⟨hfits, fun k => by rw [hmeaning, h.2]⟩

/-- **The predicate of a filter**: with a stored key it accepts every stored key
that starts with it. -/
def FilterSafe (f : List Nat → V → Bool) (m : KeyMap V) : Prop :=
  ∀ k k' v v', m k = some v → m k' = some v' → k <+: k' → f k v = true → f k' v' = true

open Classical in
/-- **Step lemma** for `filter/2`: it filters the map when, and only when, the
predicate is safe. -/
theorem Stands.filter_iff (h : Stands n m) (f : List Nat → V → Bool) :
    (∀ k, meaning k (Trie.filter f n, none) = (m k).filter (f k)) ↔ FilterSafe f m := by
  have hmeaning : ∀ k, meaning k (Trie.filter f n, none) = if KeptBy f [] m k then m k else none := by
    intro k
    obtain ⟨-, hk⟩ := filter_spec h.1 f
    have hm : (meaning · (n, none)) = m := funext h.2
    rw [hk, h.2, hm]
  constructor
  · intro hall k k' v v' hv hv' hpre hf
    have hkept : KeptBy f [] m k' := ⟨k, hpre, v, hv, hf⟩
    have := hall k'
    rw [hmeaning, if_pos hkept, hv', eq_comm, Option.filter_eq_some_iff] at this
    exact this.2
  · intro hsafe k
    rw [hmeaning]
    cases hk : m k with
    | none => simp
    | some v =>
      by_cases hf : f k v = true
      · rw [if_pos ⟨k, List.prefix_rfl, v, hk, hf⟩]
        simp [Option.filter, hf]
      · rw [if_neg]
        · simp [Option.filter, hf]
        · rintro ⟨k', hpre, v', hv', hf'⟩
          exact hf (hsafe k' k v' v hv' hk hpre hf')

/-- Every filter of the term has a safe predicate. -/
def FiltersSafe [ListValue V] : Prog V → Prop
  | .new | .fromList _ => True
  | .store _ _ _ p | .storeKey _ _ p | .update _ _ _ _ p | .append _ _ _ p | .appendList _ _ _ p
  | .prefixValue _ _ _ p | .map _ p => FiltersSafe p
  | .merge _ p1 p2 => FiltersSafe p1 ∧ FiltersSafe p2
  | .filter f p => FiltersSafe p ∧ ∀ m, evalMap p = some m → FilterSafe f m

/-- **Run lemma**, by induction on the term: every operation keeps the trie standing for the map. -/
theorem evalTrie_refines [ListValue V] (p : Prog V) (hp : FiltersSafe p) :
    Refines (evalTrie p) (evalMap p) := by
  induction p with
  | new => exact .some stands_new
  | fromList l => exact stands_new.newInstance l
  | store c t value p ih => exact (ih hp).bindMap fun n m h => h.store c t value
  | storeKey c t p ih => exact (ih hp).bindMap fun n m h => h.store c t ListValue.empty
  | update c t f initial p ih => exact (ih hp).bind fun n m h => h.update c t f initial
  | append c t value p ih => exact (ih hp).bind fun n m h => h.update c t _ _
  | appendList c t valueList p ih => exact (ih hp).bind fun n m h => h.update c t _ _
  | prefixValue c t value p ih => exact (ih hp).bind fun n m h => h.update c t _ _
  | merge f p1 p2 ih1 ih2 =>
    refine (ih1 hp.1).bind fun n1 m1 h1 => ?_
    exact (ih2 hp.2).bindMap fun n2 m2 h2 => h1.merge h2 f
  | map f p ih => exact (ih hp).map fun n m _ _ h => h.map f
  | filter f p ih =>
    refine (ih hp.1).map fun n m _ hm h => ⟨(filter_spec h.1 f).1, ?_⟩
    exact (h.filter_iff f).mpr (hp.2 m hm)

/-! ## the answers -/

/-- `find`, `fetch` and `is_key` answer as the map does for every nonempty key;
where the map has no result, there is an exception. -/
def Agrees : Option (Tree V) → Option (KeyMap V) → Prop
  | none, none => True
  | some n, some m => ∀ c t, find c t n = some (m (c :: t)) ∧ fetch c t n = m (c :: t) ∧
      isKey c t n = some (m (c :: t)).isSome
  | _, _ => False

theorem agrees_iff (h : Fits (n, none)) (hnil : m [] = none) :
    Agrees (some n) (some m) ↔ ∀ k, meaning k (n, none) = m k := by
  constructor
  · intro hagrees k
    cases k with
    | nil => rw [meaning_nil_root, hnil]
    | cons c t =>
      obtain ⟨-, hfetch, -⟩ := hagrees c t
      rw [← hfetch, fetch_eq h.rooted]
  · intro hmeaning c t
    rw [find_eq h.rooted, fetch_eq h.rooted, isKey_eq h.rooted, hmeaning]
    exact ⟨rfl, rfl, rfl⟩

theorem Stands.nil (h : Stands n m) : (m : KeyMap V) [] = none := by
  rw [← h.2, meaning_nil_root]

/-- **A trie answers as the finite map** made by the same operations, over every
term whose filters are safe; one more `filter` keeps it so exactly when its
predicate is safe. -/
theorem trie_refines_map [ListValue V] (p : Prog V) (hp : FiltersSafe p) :
    Agrees (evalTrie p) (evalMap p) ∧
    ∀ f, Agrees (evalTrie (.filter f p)) (evalMap (.filter f p)) ↔
      ∀ m, evalMap p = some m → FilterSafe f m := by
  rcases evalTrie_refines p hp with ⟨hn, hm⟩ | ⟨n, m, hn, hm, h⟩
  · rw [hn, hm]
    refine ⟨trivial, fun f => ?_⟩
    rw [evalTrie, evalMap, hn, hm]
    exact ⟨fun _ m hm => (by cases hm), fun _ => trivial⟩
  · rw [hn, hm]
    refine ⟨(agrees_iff h.1 h.nil).mpr h.2, fun f => ?_⟩
    rw [evalTrie, evalMap, hn, hm, Option.map_some, Option.map_some,
      agrees_iff (filter_spec h.1 f).1 (by rw [h.nil]; rfl), h.filter_iff f]
    exact ⟨fun hsafe m' hm' => (by cases hm'; exact hsafe), fun hall => hall m rfl⟩

/-- Some Erlang terms: the lists, also those that end in the atom `error`, and the
atom `empty`. -/
inductive Term where
  | empty
  | int (n : Nat)
  | nil
  | cons (head tail : Term)
  | consError (head : Term)
  deriving DecidableEq

/-- The `++` operator. -/
def Term.append : Term → Term → Option Term
  | .nil, y => some y
  | .cons head tail, y => (Term.append tail y).map (.cons head)
  | .empty, _ | .int _, _ | .consError _, _ => none

instance : ListValue Term where
  empty := .empty
  nil := .nil
  cons := .cons
  consError := .consError
  append := Term.append

/-- The keys "a" and "ab", appended to. -/
def twoKeys : Prog Term :=
  .append 97 [] (.int 2) (.append 97 [98] (.int 1) (.storeKey 98 [97] .new))

/-- The keys that start with 'a', of the two keys merged with themselves. -/
def filteredKeys : Prog Term :=
  .filter (fun k _ => k.head? = some 97) (.merge (fun _ v1 _ => v1) twoKeys twoKeys)

theorem trie_refines_map_filteredKeys : Agrees (evalTrie filteredKeys) (evalMap filteredKeys) := by
  have hsafe : ∀ m : KeyMap Term, m [] = none → FilterSafe (fun k _ => k.head? = some 97) m := by
    intro m hm k k' v v' hv hv' hpre hf
    cases k with
    | nil => rw [hm] at hv; cases hv
    | cons c k =>
      obtain ⟨l, rfl⟩ := hpre
      exact hf
  have hfilters : FiltersSafe filteredKeys := by
    refine ⟨⟨trivial, trivial⟩, fun m hm => hsafe m ?_⟩
    cases hm
    rfl
  exact (trie_refines_map filteredKeys hfilters).1

/-- **A rejected key stays**: with "a" accepted and "ab" rejected, `find` still
answers the value of "ab". -/
theorem filter_keeps_rejected : ¬ Agrees (evalTrie (.filter (fun k _ => k = [97]) twoKeys))
      (evalMap (.filter (fun k _ => k = [97]) twoKeys)) := by
  intro h
  have hfind : (some (some (Term.cons (.int 1) .nil)) : Option (Option Term)) = some none :=
    (h 97 [98]).1
  cases hfind

end CloudI.Trie
