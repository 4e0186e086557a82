import CloudI.Btrie.Basic
import CloudI.Trie.Refine

/-!
# Btrie.Agree

`btrie` against `trie`: every operation over binaries is the operation over the
lists of their bytes.  `toTrie` turns each suffix into its bytes, and the
functions that are given a key get it as a binary.
-/

namespace CloudI.Btrie

open CloudI.Tuple List Option
open Trie (ListValue PrefixAnswer Fits Formed)

variable {V W A : Type}

/-- The list of the bytes of a binary. -/
def bytes (b : Binary) : List Nat := b.map Fin.val

/-- `list_to_binary/1`. -/
def binary (l : List Nat) : Binary := l.map (Fin.ofNat 256)

@[simp] theorem bytes_nil : bytes [] = [] := rfl

@[simp] theorem bytes_cons (h : Byte) (t : Binary) : bytes (h :: t) = h.val :: bytes t := rfl

@[simp] theorem bytes_append (a b : Binary) : bytes (a ++ b) = bytes a ++ bytes b := map_append

@[simp] theorem binary_append (a b : List Nat) : binary (a ++ b) = binary a ++ binary b :=
  map_append

theorem ofNat_val (h : Byte) : Fin.ofNat 256 h.val = h := Fin.ext (Nat.mod_eq_of_lt h.isLt)

@[simp] theorem binary_bytes (b : Binary) : binary (bytes b) = b := by
  induction b with
  | nil => rfl
  | cons h t ih =>
    show Fin.ofNat 256 h.val :: binary (bytes t) = h :: t
    rw [ih, ofNat_val]

theorem bytes_inj : bytes a = bytes b ↔ a = b :=
  ⟨fun h => by rw [← binary_bytes a, h, binary_bytes], fun h => h ▸ rfl⟩

theorem bytes_binary (h : ∀ c ∈ l, c < 256) : bytes (binary l) = l := by
  induction l with
  | nil => rfl
  | cons c l ih =>
    show (Fin.ofNat 256 c).val :: bytes (binary l) = c :: l
    rw [ih fun d hd => h d (mem_cons_of_mem c hd), Fin.val_ofNat,
      Nat.mod_eq_of_lt (h c mem_cons_self)]

theorem keyCharacter_binary (key : List Nat) (c : Nat) :
    keyCharacter (binary key) c = binary (key ++ [c]) := (binary_append key [c]).symm

mutual

/-- The trie over the lists of bytes. -/
def toTrie : Tree V → Trie.Tree V
  | .str s => .str (bytes s)
  | .node i0 i1 data => .node i0 i1 (toTries data)

def toTries : List (Element V) → List (Trie.Element V)
  | [] => []
  | (n, value) :: data => (toTrie n, value) :: toTries data

end

/-- The element over the lists of bytes. -/
def toElement (e : Element V) : Trie.Element V := (toTrie e.1, e.2)

theorem toTries_eq (data : List (Element V)) : toTries data = data.map toElement := by
  induction data with
  | nil => rfl
  | cons e data ih =>
    obtain ⟨n, value⟩ := e
    rw [toTries, ih]
    rfl

@[simp] theorem toTrie_str (s : Binary) : toTrie (.str s : Tree V) = .str (bytes s) := rfl

@[simp] theorem toTrie_node (i0 i1 : Nat) (data : List (Element V)) :
    toTrie (.node i0 i1 data) = .node i0 i1 (data.map toElement) := by
  rw [toTrie, toTries_eq]

@[simp] theorem toElement_str (s : Binary) (value : Option V) :
    toElement (.str s, value) = (.str (bytes s), value) := rfl

@[simp] theorem toElement_node (i0 i1 : Nat) (data : List (Element V)) (value : Option V) :
    toElement (.node i0 i1 data, value) = (.node i0 i1 (data.map toElement), value) := by
  rw [toElement, toTrie_node]

@[simp] theorem toElement_hole : toElement (hole : Element V) = Trie.hole := rfl

/-! ## the private functions -/

/-- The loop of `tuple_move/4`: what is moved already, and what is left. -/
theorem tupleMoveI_eq (front done left rest : List (Element V)) (h : left.length ≤ rest.length) :
    tupleMoveI left.length (front.length + done.length + 1) (done.length + 1)
      (front ++ done ++ rest) (done ++ left) =
        some (front ++ done ++ left ++ rest.drop left.length) := by
  induction left generalizing done rest with
  | nil => simp [tupleMoveI]
  | cons x left ih =>
    cases rest with
    | nil => simp at h
    | cons y rest =>
      have hlen : (front ++ done).length = front.length + done.length := length_append
      have helement : element (done.length + 1) (done ++ x :: left) = some x := by simp
      have hset : setElement (front.length + done.length + 1) (front ++ done ++ y :: rest) x =
          some (front ++ (done ++ [x]) ++ rest) := by
        rw [setElement_add_one (by simp), ← hlen, set_append_right _ _ (Nat.le_refl _)]
        simp
      have hdone : (done ++ [x]).length = done.length + 1 := by simp
      have hrest := ih (done ++ [x]) rest (by simpa using h)
      rw [hdone, append_assoc done, singleton_append] at hrest
      rw [length_cons, tupleMoveI, helement, bind_eq_bind, bind_some, hset,
        bind_eq_bind, bind_some]
      refine hrest.trans ?_
      simp

/-- `tuple_move/4` puts the tuple between copies of the default. -/
theorem tupleMove_eq (i n : Nat) (t : List (Element V)) (d : Element V)
    (h : i + t.length ≤ n) : tupleMove (i + 1) n t d =
      some (List.replicate i d ++ t ++ List.replicate (n - i - t.length) d) := by
  have hsplit : makeTuple n d = List.replicate i d ++ [] ++ List.replicate (n - i) d := by
    rw [makeTuple, append_nil, replicate_append_replicate]
    congr 1
    omega
  have hmove := tupleMoveI_eq (List.replicate i d) [] t (List.replicate (n - i) d)
    (by rw [length_replicate]; omega)
  rw [length_replicate, nil_append, append_nil, drop_replicate] at hmove
  rw [tupleMove, if_pos (by omega), hsplit, append_nil]
  exact hmove

theorem isPrefixOf_bytes (a b : Binary) : (bytes a).isPrefixOf (bytes b) = a.isPrefixOf b := by
  induction a generalizing b with
  | nil => simp
  | cons x a ih =>
    cases b with
    | nil => rfl
    | cons y b =>
      have hchar : (x.val == y.val) = (x == y) := by
        rw [Bool.eq_iff_iff, beq_iff_eq, beq_iff_eq, Fin.val_inj]
      rw [bytes_cons, bytes_cons, isPrefixOf_cons_cons, isPrefixOf_cons_cons, ih, hchar]

/-- `binary_prefix/2` is `lists:prefix/2` of the bytes. -/
theorem binaryPrefix_eq (a b : Binary) : binaryPrefix a b = (bytes a).isPrefixOf (bytes b) := by
  rw [isPrefixOf_bytes]
  cases a with
  | nil => simp [binaryPrefix]
  | cons x a =>
    cases b with
    | nil => rfl
    | cons y b =>
      rw [binaryPrefix, binaryMatch]
      cases hp : (x :: a).isPrefixOf (y :: b) with
      | true => rfl
      | false => cases binaryMatch b (x :: a) <;> rfl

/-! ## find, is_key, store and update -/

theorem getElem?_toElement (data : List (Element V)) (i : Nat) :
    (data.map toElement)[i]? = (data[i]?).map toElement := getElem?_map

theorem findNode_agrees (h : Byte) (t : Binary) (n : Tree V) :
    Trie.findNode (bytes t) h (toTrie n) = findNode t h n := by
  fun_induction findNode t h n with
  | case9 _ _ _ _ _ _ hc _ _ _ _ hget ih =>
    rw [toTrie_node] at ih
    simp [Trie.findNode, hc, hget, ih]
  | case11 _ _ _ _ _ _ hc _ _ hget hs =>
    rw [← bytes_inj, bytes_cons] at hs
    simp [Trie.findNode, hc, hget, hs]
  | _ => simp [Trie.findNode, *]

theorem find_agrees (h : Byte) (t : Binary) (n : Tree V) :
    Trie.find h (bytes t) (toTrie n) = find h t n := by
  match n with
  | .str [] => rfl
  | .str (b :: s) => exact findNode_agrees h t (.str (b :: s))
  | .node i0 i1 data =>
    have hnode := findNode_agrees h t (.node i0 i1 data)
    rw [toTrie_node] at hnode ⊢
    exact hnode

theorem isKeyNode_eq_map (t : Binary) (h : Byte) (n : Tree V) :
    isKeyNode t h n = (findNode t h n).map Option.isSome := by
  fun_induction findNode t h n <;> grind [isKeyNode]

theorem isKeyNode_agrees (h : Byte) (t : Binary) (n : Tree V) :
    Trie.isKeyNode (bytes t) h (toTrie n) = isKeyNode t h n := by
  rw [Trie.isKeyNode_eq_map, findNode_agrees, isKeyNode_eq_map]

theorem isKey_agrees (h : Byte) (t : Binary) (n : Tree V) :
    Trie.isKey h (bytes t) (toTrie n) = isKey h t n := by
  match n with
  | .str [] => rfl
  | .str (b :: s) => exact isKeyNode_agrees h t (.str (b :: s))
  | .node i0 i1 data =>
    have hnode := isKeyNode_agrees h t (.node i0 i1 data)
    rw [toTrie_node] at hnode ⊢
    exact hnode

variable {data : List (Element V)}

theorem putAt_agrees (hformed : Formed (toElement (.node i0 i1 data, w)))
    (hput : ∀ e ∈ data, put' (toElement e) = (put e).map toElement) (h : Byte) (t : Binary)
    (initial : Option V) : Trie.putAt h (bytes t) initial put' i0 i1 (data.map toElement) =
      (putAt h t initial put i0 i1 data).map toTrie := by
  rw [toElement_node] at hformed
  have hlen : data.length = i1 + 1 - i0 := by
    rw [← hformed.length, length_map]
  have hle : i0 ≤ i1 := hformed.le
  rw [Trie.putAt, putAt]
  cases initial with
  | none =>
    by_cases hlow : h.val < i0
    · simp [hlow]
    by_cases hhigh : h.val > i1
    · simp [hlow, hhigh]
    simp only [if_neg hlow, if_neg hhigh, getElem?_toElement]
    match hget : data[h - i0]? with
    | none => rfl
    | some e =>
      simp only [map_some, hput e (mem_of_getElem? hget)]
      cases put e <;> simp [map_set]
  | some v =>
    by_cases hlow : h.val < i0
    · -- the old elements behind holes
      have hmove := tupleMove_eq (i0 - h) (i1 - h + 1) data (hole : Element V) (by omega)
      have hsize : i1 - h + 1 - (i0 - h) - data.length = 0 := by omega
      have hfront : i0 - h.val = (i0 - h - 1) + 1 := by omega
      rw [hsize, replicate_zero, append_nil, hfront, replicate_succ,
        ← hfront] at hmove
      simp [hlow, hmove, setElement_one]
    by_cases hhigh : h.val > i1
    · -- the old elements in front of holes
      have hmove := tupleMove_eq 0 (h - i0 + 1) data (hole : Element V) (by omega)
      have hsize : h.val - i0 + 1 - 0 - data.length = (h - i1 - 1) + 1 := by omega
      rw [hsize, replicate_succ', replicate_zero, nil_append,
        ← append_assoc] at hmove
      have hlast : h.val - i0 + 1 = (data ++ List.replicate (h - i1 - 1) hole).length + 1 := by
        simp
        omega
      have hset := setElement_last (data ++ List.replicate (h - i1 - 1) hole) (.str t, some v) hole
      rw [← hlast, append_assoc] at hset
      simp [hlow, hhigh, hmove, hset]
    simp only [if_neg hlow, if_neg hhigh, getElem?_toElement]
    match hget : data[h - i0]? with
    | none => rfl
    | some e =>
      simp only [map_some, hput e (mem_of_getElem? hget)]
      cases put e <;> simp [map_set]

/-- **Step lemma**: `store_node/4` and `update_node/5` put the same element. -/
theorem putNode_agrees (g : Option V → Option V) (onError : Option V) (h : Byte) (t : Binary)
    (hformed : Formed (toElement (.node i0 i1 data, w))) :
    Trie.putNode g onError (bytes t) h (toTrie (.node i0 i1 data)) =
      (putNode g onError t h (.node i0 i1 data)).map toTrie := by
  have helements : ∀ {i0 i1 : Nat} {data : List (Element V)} {w : Option V},
      Formed (toElement (.node i0 i1 data, w)) → ∀ e ∈ data, Formed (toElement e) := by
    intro i0 i1 data w hformed e he
    rw [toElement_node] at hformed
    exact hformed.elements _ (List.mem_map_of_mem he)
  induction t generalizing h i0 i1 data w with
  | nil =>
    rw [toTrie_node, bytes_nil, Trie.putNode, putNode, ← bytes_nil]
    refine putAt_agrees hformed (fun e he => ?_) h [] (g none)
    obtain ⟨n, value⟩ := e
    cases n with
    | node j0 j1 below => cases hg : g value <;> simp [hg]
    | str s =>
      cases s with
      | nil => cases hg : g value <;> simp [hg]
      | cons bh bt => cases g none <;> simp
  | cons h1 t1 ih =>
    rw [toTrie_node, bytes_cons, Trie.putNode, putNode, ← bytes_cons]
    refine putAt_agrees hformed (fun e he => ?_) h (h1 :: t1) (g none)
    obtain ⟨n, value⟩ := e
    cases n with
    | node j0 j1 below =>
      have hbelow := ih h1 (helements hformed _ he)
      rw [toTrie_node] at hbelow
      simp only [toElement_node, hbelow, Option.map_map]
      rfl
    | str s =>
      simp only [toElement_str, bytes_inj]
      by_cases hs : s = h1 :: t1
      · simp only [if_pos hs, Option.map_map]
        rfl
      simp only [if_neg hs]
      cases s with
      | nil =>
        cases value with
        | none => simp only [bytes_nil, Option.map_map]; rfl
        | some v0 => cases g none <;> simp
      | cons bh bt =>
        have hsplit : Formed (toElement ((.node bh bh [(.str bt, value)], none) : Element V)) := by
          rw [toElement_node]
          exact Trie.formed_split bh (bytes bt) value none
        have hbelow := ih h1 hsplit
        rw [toTrie_node] at hbelow
        simp only [bytes_cons, Option.map_map]
        refine (congrArg (Option.map fun n => (n, none)) hbelow).trans ?_
        rw [Option.map_map]
        rfl

theorem putNode_node_agrees (g : Option V → Option V) (onError : Option V) (h : Byte) (t : Binary)
    (hfits : Fits (toTrie (.node i0 i1 data), none)) :
    Trie.putNode g onError (bytes t) h (toTrie (.node i0 i1 data)) =
      (putNode g onError t h (.node i0 i1 data)).map toTrie :=
  putNode_agrees g onError h t hfits.formed

theorem store_agrees (h : Byte) (t : Binary) (newValue : V) (hfits : Fits (toTrie n, none)) :
    Trie.store h (bytes t) newValue (toTrie n) = (store h t newValue n).map toTrie := by
  match n with
  | .str [] => simp [Trie.store, store]
  | .str (b :: s) => exact absurd (hfits.rooted.root _ rfl) (cons_ne_nil _ _)
  | .node i0 i1 data =>
    have hput := putNode_node_agrees (fun _ => some newValue) (some newValue) h t hfits
    rw [toTrie_node] at hput ⊢
    exact hput

theorem update_agrees (h : Byte) (t : Binary) (f : Option V → Option V) (initial : V)
    (hfits : Fits (toTrie n, none)) :
    Trie.update h (bytes t) f initial (toTrie n) = (update h t f initial n).map toTrie := by
  cases n with
  | str s =>
    cases s with
    | nil => exact store_agrees h t initial hfits
    | cons b s => exact absurd (hfits.rooted.root _ rfl) (cons_ne_nil _ _)
  | node i0 i1 data =>
    refine Eq.trans ?_ (putNode_node_agrees _ (f none) h t hfits)
    rw [toTrie_node]
    rfl

/-! ## map, filter and the folds -/

mutual

theorem mapNode_agrees (f : Binary → V → W) (key : List Nat) (n : Tree V) :
    Trie.mapNode (fun k => f (binary k)) key (toTrie n) = toTrie (mapNode f (binary key) n) := by
  match n with
  | .str s => rfl
  | .node i0 i1 data =>
    rw [mapNode, toTrie, toTrie, Trie.mapNode, mapElement_agrees f key i0 data]

theorem mapElement_agrees (f : Binary → V → W) (key : List Nat) (c : Nat)
    (data : List (Element V)) : Trie.mapElement (fun k => f (binary k)) key c (toTries data) =
      toTries (mapElement f (binary key) c data) := by
  match data with
  | [] => rfl
  | e :: data =>
    rw [mapElement, keyCharacter_binary]
    have hone := mapOne_agrees f (key ++ [c]) e
    have hrest := mapElement_agrees f key (c + 1) data
    rw [toTries_eq] at hrest ⊢
    rw [map_cons, Trie.mapElement, hone, hrest, toTries_eq, toTries_eq, map_cons]

theorem mapOne_agrees (f : Binary → V → W) (key : List Nat) (e : Element V) :
    Trie.mapOne (fun k => f (binary k)) key (toElement e) =
      toElement (mapOne f (binary key) e) := by
  match e with
  | (.str [], none) => rfl
  | (.str [], some v) => rfl
  | (.str (bh :: bt), none) => rfl
  | (.str (bh :: bt), some v) =>
    show (_, some (f (binary (key ++ bytes (bh :: bt))) v)) = _
    rw [binary_append, binary_bytes]
    rfl
  | (.node i0 i1 data, value) =>
    have hnode := mapNode_agrees f key (.node i0 i1 data)
    cases value with
    | _ => exact Prod.ext hnode rfl

end

theorem map_agrees (f : Binary → V → W) (n : Tree V) :
    Trie.map (fun k => f (binary k)) (toTrie n) = toTrie (map f n) := by
  match n with
  | .str [] => rfl
  | .str (b :: s) => rfl
  | .node i0 i1 data => exact mapNode_agrees f [] (.node i0 i1 data)

mutual

theorem filterNode_agrees (f : Binary → V → Bool) (key : List Nat) (n : Tree V) :
    Trie.filterNode (fun k => f (binary k)) key (toTrie n) =
      toTrie (filterNode f (binary key) n) := by
  match n with
  | .str s => rfl
  | .node i0 i1 data =>
    rw [filterNode, toTrie, toTrie, Trie.filterNode, filterElement_agrees f key i0 data]

theorem filterElement_agrees (f : Binary → V → Bool) (key : List Nat) (c : Nat)
    (data : List (Element V)) :
    Trie.filterElement (fun k => f (binary k)) key c (toTries data) =
      toTries (filterElement f (binary key) c data) := by
  match data with
  | [] => rfl
  | e :: data =>
    rw [filterElement, keyCharacter_binary]
    have hone := filterOne_agrees f (key ++ [c]) e
    have hrest := filterElement_agrees f key (c + 1) data
    rw [toTries_eq] at hrest ⊢
    rw [map_cons, Trie.filterElement, hone, hrest, toTries_eq, toTries_eq, map_cons]

theorem filterOne_agrees (f : Binary → V → Bool) (key : List Nat) (e : Element V) :
    Trie.filterOne (fun k => f (binary k)) key (toElement e) =
      toElement (filterOne f (binary key) e) := by
  match e with
  | (.str [], none) => rfl
  | (.str [], some v) =>
    rw [toElement_str, bytes_nil, Trie.filterOne, filterOne]
    split <;> rfl
  | (.str (bh :: bt), none) => rfl
  | (.str (bh :: bt), some v) =>
    have hkey : binary (key ++ bytes (bh :: bt)) = binary key ++ (bh :: bt) := by
      rw [binary_append, binary_bytes]
    show (if f (binary (key ++ bytes (bh :: bt))) v then _ else _) = _
    rw [hkey, filterOne]
    · split <;> rfl
    · exact cons_ne_nil bh bt
  | (.node i0 i1 data, value) =>
    have hnode := filterNode_agrees f key (.node i0 i1 data)
    cases value with
    | none => exact Prod.ext hnode rfl
    | some v =>
      show (if f (binary key) v then _ else _) = _
      rw [filterOne]
      split
      · rfl
      · exact Prod.ext hnode rfl

end

theorem filter_agrees (f : Binary → V → Bool) (n : Tree V) :
    Trie.filter (fun k => f (binary k)) (toTrie n) = toTrie (filter f n) := by
  match n with
  | .str [] => rfl
  | .str (b :: s) => rfl
  | .node i0 i1 data => exact filterNode_agrees f [] (.node i0 i1 data)

mutual

theorem foldlNode_agrees (f : Binary → V → A → A) (key : List Nat) (a : A) (n : Tree V) :
    Trie.foldlNode (fun k => f (binary k)) key a (toTrie n) = foldlNode f (binary key) a n := by
  match n with
  | .str s => rfl
  | .node i0 i1 data =>
    rw [foldlNode, toTrie, Trie.foldlNode, foldlElement_agrees f key i0 a data]

theorem foldlElement_agrees (f : Binary → V → A → A) (key : List Nat) (c : Nat) (a : A)
    (data : List (Element V)) :
    Trie.foldlElement (fun k => f (binary k)) key c a (toTries data) =
      foldlElement f (binary key) c a data := by
  match data with
  | [] => rfl
  | e :: data =>
    have hone := foldlOne_agrees f (key ++ [c]) a e
    have hrest := foldlElement_agrees f key (c + 1) (foldlOne f (binary (key ++ [c])) a e) data
    rw [toTries_eq] at hrest ⊢
    rw [map_cons, Trie.foldlElement, hone, hrest, foldlElement, keyCharacter_binary]

theorem foldlOne_agrees (f : Binary → V → A → A) (key : List Nat) (a : A) (e : Element V) :
    Trie.foldlOne (fun k => f (binary k)) key a (toElement e) = foldlOne f (binary key) a e := by
  match e with
  | (.str s, none) => rfl
  | (.str s, some v) =>
    show f (binary (key ++ bytes s)) v a = _
    rw [binary_append, binary_bytes]
    rfl
  | (.node i0 i1 data, none) => exact foldlNode_agrees f key a (.node i0 i1 data)
  | (.node i0 i1 data, some v) =>
    exact foldlNode_agrees f key (f (binary key) v a) (.node i0 i1 data)

end

theorem foldl_agrees (f : Binary → V → A → A) (a : A) (n : Tree V) :
    Trie.fold (fun k => f (binary k)) a (toTrie n) = foldl f a n := by
  match n with
  | .str [] => rfl
  | .str (b :: s) => rfl
  | .node i0 i1 data => exact foldlNode_agrees f [] a (.node i0 i1 data)

mutual

theorem foldrNode_agrees (f : Binary → V → A → A) (key : List Nat) (a : A) (n : Tree V) :
    Trie.foldrNode (fun k => f (binary k)) key a (toTrie n) = foldrNode f (binary key) a n := by
  match n with
  | .str s => rfl
  | .node i0 i1 data =>
    rw [foldrNode, toTrie, Trie.foldrNode, foldrElement_agrees f key i0 a data]

theorem foldrElement_agrees (f : Binary → V → A → A) (key : List Nat) (c : Nat) (a : A)
    (data : List (Element V)) :
    Trie.foldrElement (fun k => f (binary k)) key c a (toTries data) =
      foldrElement f (binary key) c a data := by
  match data with
  | [] => rfl
  | e :: data =>
    have hrest := foldrElement_agrees f key (c + 1) a data
    have hone := foldrOne_agrees f (key ++ [c]) (foldrElement f (binary key) (c + 1) a data) e
    rw [toTries_eq] at hrest ⊢
    rw [map_cons, Trie.foldrElement, hrest, hone, foldrElement, keyCharacter_binary]

theorem foldrOne_agrees (f : Binary → V → A → A) (key : List Nat) (a : A) (e : Element V) :
    Trie.foldrOne (fun k => f (binary k)) key a (toElement e) = foldrOne f (binary key) a e := by
  match e with
  | (.str s, none) => rfl
  | (.str s, some v) =>
    show f (binary (key ++ bytes s)) v a = _
    rw [binary_append, binary_bytes]
    rfl
  | (.node i0 i1 data, none) => exact foldrNode_agrees f key a (.node i0 i1 data)
  | (.node i0 i1 data, some v) =>
    exact congrArg (f (binary key) v) (foldrNode_agrees f key a (.node i0 i1 data))

end

theorem foldr_agrees (f : Binary → V → A → A) (a : A) (n : Tree V) :
    Trie.foldr (fun k => f (binary k)) a (toTrie n) = foldr f a n := by
  match n with
  | .str [] => rfl
  | .str (b :: s) => rfl
  | .node i0 i1 data => exact foldrNode_agrees f [] a (.node i0 i1 data)

/-- The key of an entry as a binary. -/
def binaryEntry (x : List Nat × V) : Binary × V := (binary x.1, x.2)

theorem toList_agrees (n : Tree V) (hrooted : Trie.Rooted (toTrie n)) :
    toList n = (Trie.toList (toTrie n)).map binaryEntry := by
  rw [toList, ← foldr_agrees, Trie.foldr_entries hrooted, Trie.toList_entries hrooted]
  exact (foldr_map (f := binaryEntry)).symm.trans foldr_cons_nil

/-! ## merge -/

/-- Every key of the trie consists of bytes. -/
def ByteKeys (n : Trie.Tree V) : Prop :=
  ∀ k x, Trie.meaning k (n, none) = some x → ∀ c ∈ k, c < 256

/-- The trie over bytes that a btrie stands for. -/
structure Stands (n : Tree V) (m : Trie.Tree V) : Prop where
  toTrie_eq : toTrie n = m
  fits : Fits (m, none)
  byteKeys : ByteKeys m

theorem stands_new : Stands (new : Tree V) Trie.new :=
  ⟨rfl, .str (absurd rfl ·), fun k x hx => by simp [Trie.new] at hx⟩

theorem byteKeys_put (h : ByteKeys m) (hk : ∀ c ∈ k, c < 256)
    (hmeaning : ∀ j, Trie.meaning j (m', none) =
      if j = k then some v else Trie.meaning j (m, none)) : ByteKeys m' := by
  intro j x hx
  rw [hmeaning] at hx
  split at hx
  next hj => exact hj ▸ hk
  next => exact h j x hx

theorem lt_of_mem_bytes (hc : c ∈ bytes b) : c < 256 := by
  obtain ⟨x, -, rfl⟩ := List.mem_map.mp hc
  exact x.isLt

/-- What an operation of both modules answers. -/
def StandsBoth (n : Option (Tree V)) (m : Option (Trie.Tree V)) : Prop :=
  (n = none ∧ m = none) ∨ ∃ n' m', n = some n' ∧ m = some m' ∧ Stands n' m'

theorem StandsBoth.bind (h : StandsBoth n m) (hfg : ∀ n m, Stands n m → StandsBoth (f n) (g m)) :
    StandsBoth (n.bind f) (m.bind g) := by
  rcases h with ⟨rfl, rfl⟩ | ⟨n', m', rfl, rfl, hs⟩
  · exact .inl ⟨rfl, rfl⟩
  · exact hfg n' m' hs

theorem Stands.store (hs : Stands n m) (h : Byte) (t : Binary) (value : V) :
    StandsBoth (Btrie.store h t value n) (Trie.store h (bytes t) value m) := by
  obtain ⟨rfl, hfits, hkeys⟩ := hs
  have hagrees := store_agrees h t value hfits
  obtain ⟨m', hm', hfits', hmeaning⟩ := Trie.store_spec hfits h (bytes t) value
  rw [hm'] at hagrees
  obtain ⟨n', hn', rfl⟩ := map_eq_some_iff.mp hagrees.symm
  refine .inr ⟨n', toTrie n', hn', hm', rfl, hfits', byteKeys_put hkeys ?_ hmeaning⟩
  exact fun c hc => lt_of_mem_bytes (b := h :: t) hc

theorem Stands.update (hs : Stands n m) (h : Byte) (t : Binary) (f : Option V → Option V)
    (initial : V) :
    StandsBoth (Btrie.update h t f initial n) (Trie.update h (bytes t) f initial m) := by
  obtain ⟨rfl, hfits, hkeys⟩ := hs
  have hagrees := update_agrees h t f initial hfits
  rcases Trie.update_spec hfits h (bytes t) f initial with
    ⟨-, hnone⟩ | ⟨v, m', -, hm', hfits', hmeaning⟩
  · rw [hnone] at hagrees
    exact .inl ⟨map_eq_none_iff.mp hagrees.symm, hnone⟩
  · rw [hm'] at hagrees
    obtain ⟨n', hn', rfl⟩ := map_eq_some_iff.mp hagrees.symm
    refine .inr ⟨n', toTrie n', hn', hm', rfl, hfits', byteKeys_put hkeys ?_ hmeaning⟩
    exact fun c hc => lt_of_mem_bytes (b := h :: t) hc

theorem Stands.map (hs : Stands n m) (f : Binary → V → V) :
    Stands (Btrie.map f n) (Trie.map (fun k => f (binary k)) m) := by
  obtain ⟨rfl, hfits, hkeys⟩ := hs
  obtain ⟨hfits', hmeaning⟩ := Trie.map_spec hfits fun k => f (binary k)
  refine ⟨(map_agrees f n).symm, hfits', fun k x hx => ?_⟩
  rw [hmeaning] at hx
  obtain ⟨y, hy, -⟩ := map_eq_some_iff.mp hx
  exact hkeys k y hy

open Classical in
theorem Stands.filter (hs : Stands n m) (f : Binary → V → Bool) :
    Stands (Btrie.filter f n) (Trie.filter (fun k => f (binary k)) m) := by
  obtain ⟨rfl, hfits, hkeys⟩ := hs
  obtain ⟨hfits', hmeaning⟩ := Trie.filter_spec hfits fun k => f (binary k)
  refine ⟨(filter_agrees f n).symm, hfits', fun k x hx => ?_⟩
  rw [hmeaning] at hx
  split at hx
  next => exact hkeys k x hx
  next => cases hx

/-- The function that `merge/3` folds over the first trie. -/
def mergeEntry (f : Binary → V → Option V → V) (key : Binary) (v1 : V)
    (acc : Option (Tree V)) : Option (Tree V) :=
  acc.bind fun n =>
    match key with
    | [] => none
    | h :: t => update h t (fun v2 => some (f key v1 v2)) v1 n

/-- **Run lemma** of the fold of `merge/3`, by induction on the entries that are left. -/
theorem foldl_mergeEntry_agrees (f : Binary → V → Option V → V) (l : List (List Nat × V))
    (hl : ∀ x ∈ l, ∀ c ∈ x.1, c < 256) (h : StandsBoth n m) :
    StandsBoth (l.foldl (fun acc x => mergeEntry f (binary x.1) x.2 acc) n)
      (l.foldl (fun acc x => Trie.mergeEntry (fun k => f (binary k)) x.1 x.2 acc) m) := by
  induction l generalizing n m with
  | nil => exact h
  | cons x l ih =>
    refine ih (fun y hy => hl y (mem_cons_of_mem x hy)) (h.bind fun n m hs => ?_)
    obtain ⟨key, v1⟩ := x
    have hkey : bytes (binary key) = key := bytes_binary (hl _ mem_cons_self)
    match key with
    | [] => exact .inl ⟨rfl, rfl⟩
    | c :: t =>
      have hput := hs.update (Fin.ofNat 256 c) (binary t)
        (fun v2 => some (f (binary (c :: t)) v1 v2)) v1
      have hbytes : (Fin.ofNat 256 c).val = c ∧ bytes (binary t) = t := List.cons.inj hkey
      rw [hbytes.1, hbytes.2] at hput
      exact hput

theorem Stands.merge (h1 : Stands n1 m1) (h2 : Stands n2 m2) (f : Binary → V → Option V → V) :
    StandsBoth (Btrie.merge f n1 n2) (Trie.merge (fun k => f (binary k)) m1 m2) := by
  have hroot1 := h1.fits.rooted.root
  have hroot2 := h2.fits.rooted.root
  have hbytes := h1.byteKeys
  have hrooted := h1.fits.rooted
  obtain ⟨rfl, -, -⟩ := id h1
  obtain ⟨rfl, -, -⟩ := id h2
  match n1, n2 with
  | n1, .str [] =>
    rw [Btrie.merge, toTrie_str, bytes_nil, Trie.merge]
    exact .inr ⟨_, _, rfl, rfl, h1⟩
  | n1, .str (b :: s) => exact absurd (hroot2 _ rfl) (cons_ne_nil _ _)
  | .str (b :: s), n2 => exact absurd (hroot1 _ rfl) (cons_ne_nil _ _)
  | .str [], .node i0 i1 data =>
    rw [toTrie_node] at h2 ⊢
    exact .inr ⟨_, _, rfl, rfl, h2⟩
  | .node j0 j1 data1, .node i0 i1 data =>
    have hl : ∀ x ∈ Trie.entries (toTrie (.node j0 j1 data1)), ∀ c ∈ x.1, c < 256 :=
      fun x hx => hbytes x.1 x.2 ((Trie.mem_entries hrooted x.1 x.2).mp hx)
    have hfold := foldl_mergeEntry_agrees f _ hl (.inr ⟨_, _, rfl, rfl, h2⟩)
    have hleft : Btrie.merge f (.node j0 j1 data1) (.node i0 i1 data) =
        foldl (mergeEntry f) (some (.node i0 i1 data)) (.node j0 j1 data1) := rfl
    have hright : Trie.merge (fun k => f (binary k)) (toTrie (.node j0 j1 data1))
        (toTrie (.node i0 i1 data)) = Trie.fold (Trie.mergeEntry fun k => f (binary k))
          (some (toTrie (.node i0 i1 data))) (toTrie (.node j0 j1 data1)) := by
      rw [toTrie_node, toTrie_node]
      rfl
    rw [hleft, hright, ← foldl_agrees, Trie.fold_entries hrooted, Trie.fold_entries hrooted]
    exact hfold

/-! ## find_prefix, find_prefix_longest and find_prefixes -/

theorem findPrefix_agrees (l : Binary) (n : Tree V) :
    Trie.findPrefix (bytes l) (toTrie n) = findPrefix l n := by
  fun_induction findPrefix l n with
  | case13 _ _ _ _ _ _ hc _ _ _ _ hget ih =>
    rw [toTrie_node, bytes_cons] at ih
    simp [Trie.findPrefix, hc, hget, ih]
  | case16 _ _ _ _ _ _ _ _ _ _ hs hprefix | case17 _ _ _ _ _ _ _ _ _ _ hs hprefix =>
    rw [binaryPrefix_eq, bytes_cons] at hprefix
    rw [← bytes_inj, bytes_cons] at hs
    simp_all [Trie.findPrefix]
  | _ => simp [Trie.findPrefix, *]

theorem binaryEntry_reverse (key : Binary) (s : Binary) (v : V) :
    binaryEntry ((bytes key).reverse.reverse ++ bytes s, v) = (key ++ s, v) := by
  rw [binaryEntry, reverse_reverse, binary_append, binary_bytes, binary_bytes]

theorem reverse_bytes_append (key : Binary) (h : Byte) :
    h.val :: (bytes key).reverse = (bytes (key ++ [h])).reverse := by simp

theorem findPrefixesNode_agrees (l key : Binary) (acc : List (List Nat × V)) (n : Tree V) :
    (Trie.findPrefixesNode (bytes l) (bytes key).reverse acc (toTrie n)).map
      (List.map binaryEntry) = findPrefixesNode l key (acc.map binaryEntry) n := by
  induction l generalizing key acc n with
  | nil => cases n <;> simp [Trie.findPrefixesNode, findPrefixesNode]
  | cons h t ih =>
    cases n with
    | str s => simp [Trie.findPrefixesNode, findPrefixesNode]
    | node i0 i1 data =>
      rw [toTrie_node, bytes_cons, Trie.findPrefixesNode, findPrefixesNode,
        getElem?_toElement, reverse_bytes_append]
      by_cases hout : h.val < i0 ∨ h.val > i1
      · rw [if_pos hout, if_pos hout, map_some, map_reverse]
      rw [if_neg hout, if_neg hout]
      cases data[h - i0]? with
      | none => rfl
      | some e =>
        obtain ⟨n, value⟩ := e
        cases n with
        | node j0 j1 below =>
          have hself : ∀ v : V, binaryEntry ((bytes (key ++ [h])).reverse.reverse, v) =
              (key ++ [h], v) := fun v => by
            rw [binaryEntry, reverse_reverse, binary_bytes]
          have hacc : (value.elim acc fun v =>
                ((bytes (key ++ [h])).reverse.reverse, v) :: acc).map binaryEntry =
              value.elim (acc.map binaryEntry) fun v =>
                (key ++ [h], v) :: acc.map binaryEntry := by
            cases value with
            | none => rfl
            | some v =>
              show binaryEntry _ :: acc.map binaryEntry = _
              rw [hself v]
              rfl
          have hbelow := ih (key ++ [h]) (value.elim acc fun v =>
            ((bytes (key ++ [h])).reverse.reverse, v) :: acc) (.node j0 j1 below)
          rw [toTrie_node, hacc] at hbelow
          simp only [map_some, toElement_node]
          exact hbelow
        | str s =>
          simp only [map_some, toElement_str, ← binaryPrefix_eq]
          cases binaryPrefix s t with
          | false => simp only [map_some, map_reverse]
          | true =>
            cases value with
            | none => simp only [map_some, map_reverse]
            | some v =>
              simp only [map_some, map_reverse, map_cons, binaryEntry_reverse]

theorem findPrefixes_agrees (l : Binary) (n : Tree V) :
    findPrefixes l n = (Trie.findPrefixes (bytes l) (toTrie n)).map (List.map binaryEntry) := by
  match n with
  | .str [] => rfl
  | .str (b :: s) => rfl
  | .node i0 i1 data =>
    have hnode := findPrefixesNode_agrees l [] [] (.node i0 i1 data)
    rw [toTrie_node] at hnode ⊢
    exact hnode.symm

/-- `find_prefix_longest/4` keeps the last one of what `find_prefixes/4` gathers. -/
theorem findPrefixLongestNode_eq (hlast : lastMatch = acc.head?) :
    findPrefixLongestNode l key lastMatch n = (findPrefixesNode l key acc n).map List.getLast? := by
  fun_induction findPrefixLongestNode l key lastMatch n generalizing acc with
  | case1 | case6 => simp [findPrefixesNode, *]
  | case2 _ _ _ _ _ _ _ hc hget => simp [findPrefixesNode, hc, hget]
  | case3 _ _ _ _ _ _ _ hc _ _ _ value hget ih =>
    rw [findPrefixesNode, if_neg hc, hget]
    refine ih ?_
    cases value with
    | none => exact hlast
    | some v => rfl
  | case4 _ _ _ _ _ _ _ hc _ _ hs hget => simp [findPrefixesNode, hc, hget, hs]
  | case5 _ _ _ _ _ _ _ hc _ _ hget hs => simp [findPrefixesNode, hc, hget, hlast]

theorem findPrefixLongest_eq (l : Binary) (n : Tree V) :
    findPrefixLongest l n = (findPrefixes l n).map List.getLast? := by
  match n with
  | .str [] => rfl
  | .str (b :: s) => rfl
  | .node i0 i1 data => exact findPrefixLongestNode_eq rfl

theorem trie_findPrefixLongest_eq (l : List Nat) (n : Trie.Tree V) :
    Trie.findPrefixLongest l n = (Trie.findPrefixes l n).map List.getLast? := by
  match n with
  | .str [] => rfl
  | .str (b :: s) => rfl
  | .node i0 i1 data => exact Trie.findPrefixLongestNode_eq rfl

theorem findPrefixLongest_agrees (l : Binary) (n : Tree V) : findPrefixLongest l n =
      (Trie.findPrefixLongest (bytes l) (toTrie n)).map (Option.map binaryEntry) := by
  rw [findPrefixLongest_eq, findPrefixes_agrees, trie_findPrefixLongest_eq, Option.map_map,
    Option.map_map]
  congr 1
  funext l
  exact getLast?_map

/-! ## the same operations on both -/

/-- A term of the operations over nonempty binary keys. -/
inductive Prog (V : Type) where
  | new
  | store (h : Byte) (t : Binary) (value : V) (p : Prog V)
  | update (h : Byte) (t : Binary) (f : Option V → Option V) (initial : V) (p : Prog V)
  | append (h : Byte) (t : Binary) (value : V) (p : Prog V)
  | merge (f : Binary → V → Option V → V) (p1 p2 : Prog V)
  | map (f : Binary → V → V) (p : Prog V)
  | filter (f : Binary → V → Bool) (p : Prog V)

/-- The operations on a btrie; `none` is an exception. -/
def evalBtrie [ListValue V] : Prog V → Option (Tree V)
  | .new => some new
  | .store h t value p => (evalBtrie p).bind (store h t value)
  | .update h t f initial p => (evalBtrie p).bind (update h t f initial)
  | .append h t value p => (evalBtrie p).bind (append h t value)
  | .merge f p1 p2 => (evalBtrie p1).bind fun n1 => (evalBtrie p2).bind (merge f n1)
  | .map f p => (evalBtrie p).map (map f)
  | .filter f p => (evalBtrie p).map (filter f)

/-- The same operations over the lists of bytes; the functions get binaries. -/
def Prog.toTrie : Prog V → Trie.Prog V
  | .new => .new
  | .store h t value p => .store h (bytes t) value p.toTrie
  | .update h t f initial p => .update h (bytes t) f initial p.toTrie
  | .append h t value p => .append h (bytes t) value p.toTrie
  | .merge f p1 p2 => .merge (fun k => f (binary k)) p1.toTrie p2.toTrie
  | .map f p => .map (fun k => f (binary k)) p.toTrie
  | .filter f p => .filter (fun k => f (binary k)) p.toTrie

theorem StandsBoth.map (h : StandsBoth n m) (hfg : ∀ n m, Stands n m → Stands (f n) (g m)) :
    StandsBoth (n.map f) (m.map g) := by
  rcases h with ⟨rfl, rfl⟩ | ⟨n', m', rfl, rfl, hs⟩
  · exact .inl ⟨rfl, rfl⟩
  · exact .inr ⟨f n', g m', rfl, rfl, hfg n' m' hs⟩

/-- **Run lemma**, by induction on the term. -/
theorem evalBtrie_stands [ListValue V] (p : Prog V) :
    StandsBoth (evalBtrie p) (Trie.evalTrie p.toTrie) := by
  induction p with
  | new => exact .inr ⟨_, _, rfl, rfl, stands_new⟩
  | store h t value p ih => exact ih.bind fun n m hs => hs.store h t value
  | update h t f initial p ih => exact ih.bind fun n m hs => hs.update h t f initial
  | append h t value p ih =>
    exact ih.bind fun n m hs => hs.update h t
      (fun oldValue => oldValue.bind (ListValue.append · (ListValue.cons value ListValue.nil)))
      (ListValue.cons value ListValue.nil)
  | merge f p1 p2 ih1 ih2 =>
    exact ih1.bind fun n1 m1 h1 => ih2.bind fun n2 m2 h2 => h1.merge h2 f
  | map f p ih => exact ih.map fun n m hs => hs.map f
  | filter f p ih => exact ih.map fun n m hs => hs.filter f

/-- Every operation on the btrie answers as on the trie; the keys in an answer and
those given to a function are converted back to binaries. -/
structure Agrees (n : Tree V) (m : Trie.Tree V) : Prop where
  toTrie_eq : toTrie n = m
  find_eq : ∀ h t, find h t n = Trie.find h.val (bytes t) m
  isKey_eq : ∀ h t, isKey h t n = Trie.isKey h.val (bytes t) m
  findPrefix_eq : ∀ h t, findPrefix (h :: t) n = Trie.findPrefix (bytes (h :: t)) m
  findPrefixLongest_eq : ∀ h t, findPrefixLongest (h :: t) n =
    (Trie.findPrefixLongest (bytes (h :: t)) m).map (Option.map binaryEntry)
  findPrefixes_eq : ∀ h t, findPrefixes (h :: t) n =
    (Trie.findPrefixes (bytes (h :: t)) m).map (List.map binaryEntry)
  foldl_eq : ∀ (A : Type) (f : Binary → V → A → A) (a : A),
    foldl f a n = Trie.fold (fun k => f (binary k)) a m
  foldr_eq : ∀ (A : Type) (f : Binary → V → A → A) (a : A),
    foldr f a n = Trie.foldr (fun k => f (binary k)) a m
  toList_eq : toList n = (Trie.toList m).map binaryEntry

theorem Stands.agrees (h : Stands n m) : Agrees (n : Tree V) m := by
  obtain ⟨rfl, hfits, -⟩ := h
  constructor
  case toTrie_eq => rfl
  case find_eq => exact fun h t => (find_agrees h t n).symm
  case isKey_eq => exact fun h t => (isKey_agrees h t n).symm
  case findPrefix_eq => exact fun h t => (findPrefix_agrees (h :: t) n).symm
  case findPrefixLongest_eq => exact fun h t => findPrefixLongest_agrees (h :: t) n
  case findPrefixes_eq => exact fun h t => findPrefixes_agrees (h :: t) n
  case foldl_eq => exact fun A f a => (foldl_agrees f a n).symm
  case foldr_eq => exact fun A f a => (foldr_agrees f a n).symm
  case toList_eq => exact toList_agrees n hfits.rooted

/-- **btrie agrees with trie** after every sequence of operations: both raise an
exception, or every operation on the two answers the same. -/
theorem btrie_agrees [ListValue V] (p : Prog V) : match evalBtrie p, Trie.evalTrie p.toTrie with
    | none, none => True
    | some n, some m => Agrees n m
    | _, _ => False := by
  rcases evalBtrie_stands p with ⟨hn, hm⟩ | ⟨n, m, hn, hm, hs⟩
  · rw [hn, hm]
    trivial
  · rw [hn, hm]
    exact hs.agrees

/-! ## prefix search on both -/

/-- The stores of a list of keys and values, in order. -/
def storeAll (l : List ((Byte × Binary) × V)) : Option (Tree V) :=
  l.foldlM (fun n x => store x.1.1 x.1.2 x.2 n) new

/-- `Trie.FindsPrefixes` for binary keys. -/
def FindsPrefixes (n : Tree V) : Prop :=
  ∀ h t, findPrefixes (h :: t) n =
      some ((toList n).filter fun x => x.1.isPrefixOf (h :: t)) ∧
    findPrefixLongest (h :: t) n =
      some ((toList n).filter fun x => x.1.isPrefixOf (h :: t)).getLast?

theorem Stands.findsPrefixes (hs : Stands n m) : FindsPrefixes (n : Tree V) := by
  obtain ⟨rfl, hfits, hkeys⟩ := hs
  intro h t
  have hall : findPrefixes (h :: t) n =
      some ((toList n).filter fun x => x.1.isPrefixOf (h :: t)) := by
    have hfound := (Trie.findsPrefixes hfits.rooted h (bytes t)).1
    rw [findPrefixes_agrees, bytes_cons, hfound, toList_agrees n hfits.rooted, List.filter_map,
      map_some]
    congr 2
    refine filter_congr fun x hx => ?_
    -- a stored key consists of bytes
    have hkey : bytes (binary x.1) = x.1 := by
      rw [Trie.toList_entries hfits.rooted] at hx
      exact bytes_binary (hkeys x.1 x.2 ((Trie.mem_entries hfits.rooted x.1 x.2).mp hx))
    show x.1.isPrefixOf (bytes (h :: t)) = (binary x.1).isPrefixOf (h :: t)
    rw [← isPrefixOf_bytes, hkey]
  exact ⟨hall, by rw [findPrefixLongest_eq, hall, map_some]⟩

theorem storeAll_stands (l : List ((Byte × Binary) × V)) :
    ∃ n m, storeAll l = some n ∧ Stands n m := by
  have hrun : ∀ (n : Tree V) (m : Trie.Tree V), Stands n m →
      ∃ n' m', l.foldlM (fun n x => store x.1.1 x.1.2 x.2 n) n = some n' ∧ Stands n' m' := by
    induction l with
    | nil => exact fun n m hs => ⟨n, m, rfl, hs⟩
    | cons x l ih =>
      intro n m hs
      rcases hs.store x.1.1 x.1.2 x.2 with ⟨-, hnone⟩ | ⟨n', m', hn', -, hs'⟩
      · obtain ⟨m', hm', -⟩ := Trie.store_spec hs.fits x.1.1 (bytes x.1.2) x.2
        rw [hm'] at hnone
        cases hnone
      · rw [foldlM_cons, hn']
        exact ih n' m' hs'
  exact hrun new Trie.new stands_new

/-- **Prefix search**: in every trie made by stores, over lists and over binaries,
`find_prefixes/2` answers the entries of `to_list/1` whose keys begin the string,
and `find_prefix_longest/2` the last of them. -/
theorem stored_findsPrefixes :
    (∀ l : List ((Nat × List Nat) × V), ∃ n, Trie.storeAll l = some n ∧ Trie.FindsPrefixes n) ∧
    ∀ l : List ((Byte × Binary) × V), ∃ n, storeAll l = some n ∧ FindsPrefixes n := by
  constructor
  · intro l
    obtain ⟨n, hn, hbuilt⟩ := Trie.storeAll_built l
    exact ⟨n, hn, Trie.findsPrefixes hbuilt.fits.rooted⟩
  · intro l
    obtain ⟨n, m, hn, hs⟩ := storeAll_stands l
    exact ⟨n, hn, hs.findsPrefixes⟩

end CloudI.Btrie
