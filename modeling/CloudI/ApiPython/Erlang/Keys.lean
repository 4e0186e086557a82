import CloudI.ApiPython.Erlang.Terms
import Mathlib.Data.List.Lex
import Mathlib.Data.List.Sort

/-!
# ApiPython.Erlang.Keys

Python values as keys of a dict: what is hashed of them, `==`, and the assignment, which compares
keys that have the same hash value.
-/

namespace CloudI.ApiPython.Erlang

open List

variable {φ : Type} (py : Python φ)

/-! ## keys -/

mutual

/-- `frozendict`, of the entries of a dict. -/
def freeze : List (Term φ × Term φ) → List (Term φ × Term φ)
  | [] => []
  | (key, value) :: l => (key, freezeValue value) :: freeze l

/-- What `frozendict` makes of a value. -/
def freezeValue : Term φ → Term φ
  | .dict entries => .frozendict (freeze entries)
  | .list value => .tuple (freezeElements value)
  | value => value

/-- What `frozendict` makes of the elements of a list. -/
def freezeElements : List (Term φ) → List (Term φ)
  | [] => []
  | .dict entries :: l => .frozendict (freeze entries) :: freezeElements l
  | element :: l => element :: freezeElements l

end

/-- The key of a dict for a key of a map. -/
def keyOf : Term φ → Term φ
  | .dict entries => .frozendict (freeze entries)
  | .list value => .erlangList value false
  | key => key

/-! ## hash values -/

/-- Contents one after the other, each with its length in front. -/
def joined (contents : List (List Nat)) : List Nat := contents.flatMap fun c => c.length :: c

/-- What is hashed of a number. -/
def numberContent (i : Int) : List Nat := [0, i.toNat, (-i).toNat]

mutual

/-- What is hashed of a value.  It is the bytes of an object of the module, as of a bytes object,
and the items of a frozendict in no order; lists and dicts have no hash value. -/
def content : Term φ → List Nat
  | .bytes value => 1 :: value.map Fin.val
  | .str value => 2 :: (Utf8.encode value).map Fin.val
  | .int value => numberContent value
  | .bool value => numberContent (if value then 1 else 0)
  | .float value => py.content value
  | .none => [3]
  | .list _ => []
  | .tuple value => 4 :: joined (contentTerms value)
  | .dict _ => []
  | .frozendict entries => 5 :: joined ((contentEntries entries).insertionSort (· ≤ ·))
  | object =>
      match termBinary py object with
      | .ok b => 1 :: b.map Fin.val
      | .error _ => []

/-- What is hashed of the elements of a tuple. -/
def contentTerms : List (Term φ) → List (List Nat)
  | [] => []
  | element :: l => content element :: contentTerms l

/-- What is hashed of the items of a frozendict, which are tuples of a key and its value. -/
def contentEntries : List (Term φ × Term φ) → List (List Nat)
  | [] => []
  | (key, value) :: l => (4 :: joined [content key, content value]) :: contentEntries l

end

/-- Two values that can be hashed have the same hash value. -/
def sameHash (x y : Term φ) : Bool := py.hashValue (content py x) = py.hashValue (content py y)

/-! ## equality -/

/-- An object of the module, which has the method `binary`. -/
def isObject : Term φ → Bool
  | .atom _ => true
  | .binary _ _ => true
  | .function _ _ => true
  | .erlangList _ _ => true
  | .pid _ _ _ _ => true
  | .port _ _ _ => true
  | .reference _ _ _ => true
  | _ => false

/-- `__eq__` of an object, which asks the other value for its bytes. -/
def objectEquals (object other : Term φ) : Except Exception Bool := do
  let b ← termBinary py object
  if isObject other then do
    let b' ← termBinary py other
    pure (decide (b = b'))
  else .error .attributeError

/-- The number that an integer or a boolean is. -/
def integer? : Term φ → Option Int
  | .int value => some value
  | .bool value => some (if value then 1 else 0)
  | _ => none

/-- `==` of numbers; values of other types are different. -/
def numberEquals : Term φ → Term φ → Bool
  | .float x, .float y => py.equal x y
  | .float x, y => (integer? y).any (py.equalInt x)
  | x, .float y => (integer? x).any (py.equalInt y)
  | x, y => (integer? x).any fun i => integer? y = some i

/-- `==` where no parts are compared.  An object is asked first, on either side. -/
def leafEquals (x y : Term φ) : Except Exception Bool :=
  if isObject x then objectEquals py x y
  else if isObject y then objectEquals py y x
  else
    match x, y with
    | .bytes b, .bytes b' => .ok (decide (b = b'))
    | .str s, .str s' => .ok (decide (s = s'))
    | .none, .none => .ok true
    | x, y => .ok (numberEquals py x y)

/-- A dict is asked for a key: those of its keys that may be the same are compared, and the value
of the first one that is. -/
def lookup (same : Term φ → Bool) (equalsKey equalsValue : Term φ → Except Exception Bool) :
    List (Term φ × Term φ) → Except Exception Bool
  | [] => .ok false
  | (key, value) :: l =>
      if same key then do
        if ← equalsKey key then equalsValue value else lookup same equalsKey equalsValue l
      else lookup same equalsKey equalsValue l

mutual

/-- `x == y`, or `y == x` when it is turned, of values that can be hashed.  Tuples are compared up
to the first difference.  Each item of the frozendict on the left is looked up in the one on the
right, whose keys and values are then on the left. -/
def equals (turned : Bool) : Term φ → Term φ → Except Exception Bool
  | .tuple value, .tuple value' => equalsTerms turned value value'
  | .frozendict entries, .frozendict entries' =>
      if entries.length ≠ entries'.length then .ok false
      else if turned then entries'.allM fun item => hasItem item entries
      else itemsIn entries' entries
  | x, y => if turned then leafEquals py y x else leafEquals py x y
termination_by structural x => x

/-- The elements of tuples, and then their lengths. -/
def equalsTerms (turned : Bool) : List (Term φ) → List (Term φ) → Except Exception Bool
  | [], l' => .ok l'.isEmpty
  | _ :: _, [] => .ok false
  | x :: l, y :: l' => do
      if ← equals turned x y then equalsTerms turned l l' else pure false

/-- The items are all in a dict. -/
def itemsIn (entries : List (Term φ × Term φ)) :
    List (Term φ × Term φ) → Except Exception Bool
  | [] => .ok true
  | (key, value) :: l => do
      if ← lookup (sameHash py key) (equals true key) (equals true value) entries
      then itemsIn entries l
      else pure false

/-- An item is in a dict. -/
def hasItem (item : Term φ × Term φ) : List (Term φ × Term φ) → Except Exception Bool
  | [] => .ok false
  | (key, value) :: l =>
      if sameHash py key item.1 then do
        if ← equals false key item.1 then equals false value item.2 else hasItem item l
      else hasItem item l

end

/-- A key of a dict is the one that is asked for: keys are compared when their hash values are the
same. -/
def sameKey (x key : Term φ) : Except Exception Bool :=
  if sameHash py x key then equals py false x key else .ok false

/-! ## assignments -/

/-- The assignment to a dict, behind `hash`.  A key that is there stays as it is. -/
def setEntry (key value : Term φ) :
    List (Term φ × Term φ) → Except Exception (List (Term φ × Term φ))
  | [] => .ok [(key, value)]
  | x :: l => do
      if ← sameKey py x.1 key then pure ((x.1, value) :: l)
      else do
        let l ← setEntry key value l
        pure (x :: l)

mutual

/-- `hash`, up to its value.  The items of a frozendict are put into a frozenset, one by one. -/
def hash : Term φ → Except Exception Unit
  | .bytes _ => .ok ()
  | .str _ => .ok ()
  | .int _ => .ok ()
  | .bool _ => .ok ()
  | .float _ => .ok ()
  | .none => .ok ()
  | .list _ => .error .typeError
  | .tuple value => hashTerms value
  | .dict _ => .error .typeError
  | .frozendict entries => hashEntries [] entries
  | object => (termBinary py object).map fun _ => ()

/-- `hash` of the elements of a tuple. -/
def hashTerms : List (Term φ) → Except Exception Unit
  | [] => .ok ()
  | element :: l => do
      hash element
      hashTerms l

/-- The items of a frozendict, from those that are in the frozenset. -/
def hashEntries (items : List (Term φ × Term φ)) :
    List (Term φ × Term φ) → Except Exception Unit
  | [] => .ok ()
  | (key, value) :: l => do
      hash key
      hash value
      let items ← setEntry py (.tuple [key, value]) .none items
      hashEntries items l

end

variable (pairs : List (Term φ × Term φ))

/-- `pairs[key] = value`. -/
def setItem (key value : Term φ) :
    Except Exception (List (Term φ × Term φ)) := do
  hash py key
  setEntry py key value pairs

/-- A key of a dict that is not the one that is assigned. -/
def Apart (x key : Term φ) : Prop := sameKey py x key = .ok false

/-- What comes of the first key that is not apart. -/
def FirstKey (key : Term φ) (r : Except Exception Bool) : Prop :=
  ∃ before x after, pairs = before ++ x :: after ∧ (∀ y ∈ before, Apart py y.1 key) ∧
    sameKey py x.1 key = r

/-- **A key cannot be assigned**: it has no hash value, or cannot be compared with a key that has
the same one. -/
def KeyFails (key : Term φ) (e : Exception) : Prop :=
  hash py key = .error e ∨ hash py key = .ok () ∧ FirstKey py pairs key (.error e)

variable {py} {pairs : List (Term φ × Term φ)} {key value : Term φ}

/-- All keys are apart, or the first that is not is the key or cannot be compared with it. -/
theorem apart_or_firstKey (py : Python φ) (pairs : List (Term φ × Term φ)) (key : Term φ) :
    (∀ x ∈ pairs, Apart py x.1 key) ∨ FirstKey py pairs key (.ok true) ∨
      ∃ e, FirstKey py pairs key (.error e) := by
  induction pairs with
  | nil => exact .inl (forall_mem_nil _)
  | cons x l ih =>
    have hlater : Apart py x.1 key → ∀ r, FirstKey py l key r → FirstKey py (x :: l) key r := by
      rintro hx r ⟨before, y, after, rfl, hbefore, hy⟩
      exact ⟨x :: before, y, after, rfl, forall_mem_cons.mpr ⟨hx, hbefore⟩, hy⟩
    cases hx : sameKey py x.1 key with
    | error e => exact .inr (.inr ⟨e, [], x, l, rfl, forall_mem_nil _, hx⟩)
    | ok same =>
      cases same with
      | true => exact .inr (.inl ⟨[], x, l, rfl, forall_mem_nil _, hx⟩)
      | false =>
        rcases ih with hall | hfirst | ⟨e, hfirst⟩
        · exact .inl (forall_mem_cons.mpr ⟨hx, hall⟩)
        · exact .inr (.inl (hlater hx _ hfirst))
        · exact .inr (.inr ⟨e, hlater hx _ hfirst⟩)

/-- The keys that are apart are passed over. -/
theorem setEntry_skip {before : List (Term φ × Term φ)} (h : ∀ x ∈ before, Apart py x.1 key)
    (l : List (Term φ × Term φ)) :
    setEntry py key value (before ++ l) = (setEntry py key value l).map (before ++ ·) := by
  induction before with
  | nil =>
    show setEntry py key value l = (setEntry py key value l).map id
    cases setEntry py key value l <;> rfl
  | cons x before ih =>
    obtain ⟨hx, hbefore⟩ := forall_mem_cons.mp h
    have hsame : sameKey py x.1 key = .ok false := hx
    rw [cons_append, setEntry, hsame]
    show (setEntry py key value (before ++ l) >>= fun l => _) = _
    rw [ih hbefore]
    cases setEntry py key value l <;> rfl

/-- **A new key** is put behind the others. -/
theorem setItem_of_apart (hhash : hash py key = .ok ()) (h : ∀ x ∈ pairs, Apart py x.1 key) :
    setItem py pairs key value = .ok (pairs ++ [(key, value)]) := by
  have hset : setEntry py key value (pairs ++ []) = _ := setEntry_skip h []
  rw [append_nil] at hset
  rw [setItem, hhash]
  exact hset

/-- The value of a key that is there is replaced. -/
theorem setItem_of_same {before after : List (Term φ × Term φ)} (hhash : hash py key = .ok ())
    (h : ∀ y ∈ before, Apart py y.1 key) (hx : sameKey py x.1 key = .ok true) :
    setItem py (before ++ x :: after) key value = .ok (before ++ (x.1, value) :: after) := by
  rw [setItem, hhash]
  show setEntry py key value (before ++ x :: after) = _
  rw [setEntry_skip h, setEntry, hx]
  rfl

theorem setItem_of_keyFails {e : Exception} (h : KeyFails py pairs key e) :
    setItem py pairs key value = .error e := by
  rcases h with hhash | ⟨hhash, before, x, after, rfl, hbefore, hx⟩
  · rw [setItem, hhash]
    rfl
  · rw [setItem, hhash]
    show setEntry py key value (before ++ x :: after) = _
    rw [setEntry_skip hbefore, setEntry, hx]
    rfl

theorem not_keyFails {pairs' : List (Term φ × Term φ)}
    (h : setItem py pairs key value = .ok pairs') (e : Exception) : ¬ KeyFails py pairs key e := by
  intro hfails
  cases (setItem_of_keyFails hfails).symm.trans h

/-- **What an assignment comes to**: an error of the key, a value that is replaced, or a new
entry. -/
theorem setItem_cases (py : Python φ) (pairs : List (Term φ × Term φ)) (key : Term φ) :
    (∃ e, KeyFails py pairs key e) ∨
      hash py key = .ok () ∧
        (FirstKey py pairs key (.ok true) ∨ ∀ x ∈ pairs, Apart py x.1 key) := by
  cases hhash : hash py key with
  | error e => exact .inl ⟨e, .inl hhash⟩
  | ok u =>
    rcases apart_or_firstKey py pairs key with hall | hfirst | ⟨e, hfirst⟩
    · exact .inr ⟨rfl, .inr hall⟩
    · exact .inr ⟨rfl, .inl hfirst⟩
    · exact .inl ⟨e, .inr ⟨hhash, hfirst⟩⟩

theorem exists_setItem (h : ∀ e, ¬ KeyFails py pairs key e) (value : Term φ) :
    ∃ pairs', setItem py pairs key value = .ok pairs' := by
  rcases setItem_cases py pairs key with ⟨e, hfails⟩ | ⟨hhash, hfirst | hall⟩
  · exact absurd hfails (h e)
  · obtain ⟨before, x, after, rfl, hbefore, hx⟩ := hfirst
    exact ⟨_, setItem_of_same hhash hbefore hx⟩
  · exact ⟨_, setItem_of_apart hhash hall⟩

/-- **An assignment fails** exactly when the key cannot be assigned. -/
theorem setItem_eq_error {e : Exception} :
    setItem py pairs key value = .error e ↔ KeyFails py pairs key e := by
  refine ⟨fun h => ?_, setItem_of_keyFails⟩
  rcases setItem_cases py pairs key with ⟨e', hfails⟩ | ⟨hhash, hfirst | hall⟩
  · cases (setItem_of_keyFails hfails).symm.trans h
    exact hfails
  · obtain ⟨before, x, after, rfl, hbefore, hx⟩ := hfirst
    cases (setItem_of_same hhash hbefore hx).symm.trans h
  · cases (setItem_of_apart hhash hall).symm.trans h

end CloudI.ApiPython.Erlang
