import CloudI.Pqueue3.Basic

/-!
# Pqueue3.Layers

The tuples of tuples as a map from priority indexes to queues.  The indexes of a queue are
the bit fields of its priority index, each counted from 1: within the sizes of the tuples,
and different for different priority indexes.
-/

namespace CloudI.Pqueue3

open List Option

variable {α : Type}

/-! ## the shape of the tuples -/

/-- Tuples of the sizes that `create/1` is given. -/
inductive Shaped : List Nat → Bins α → Prop
  | queue : Shaped [] (.queue q)
  | tuple {n : Nat} {ns : List Nat} {bins : List (Bins α)} (hlen : bins.length = n + 1)
      (hbins : ∀ b ∈ bins, Shaped ns b) : Shaped (n :: ns) (.tuple bins)

/-- Indexes within the sizes of the tuples. -/
def Within (is ns : List Nat) : Prop := List.Forall₂ (fun i n => 1 ≤ i ∧ i ≤ n + 1) is ns

theorem shaped_create (ns : List Nat) : Shaped ns (create ns : Bins α) := by
  induction ns with
  | nil => exact .queue
  | cons n ns ih =>
    refine .tuple (length_replicate ..) fun b hb => ?_
    rw [eq_of_mem_replicate hb]
    exact ih

/-! ## the queue at a place -/

/-- The queue at a list of indexes. -/
def getAt : List Nat → Bins α → Option (ErlQueue α)
  | [], .queue q => some q
  | i :: is, .tuple bins => (Tuple.element i bins).bind (getAt is)
  | _, _ => none

/-- The tuples with another queue at a list of indexes. -/
def setAt : List Nat → ErlQueue α → Bins α → Option (Bins α)
  | [], v, .queue _ => some (.queue v)
  | i :: is, v, .tuple bins => do
      let next ← setAt is v (← Tuple.element i bins)
      return .tuple (← Tuple.setElement i bins next)
  | _, _, _ => none

theorem element_within (hi : 1 ≤ i ∧ i ≤ bins.length) :
    ∃ b, Tuple.element i bins = some b ∧ b ∈ bins := by
  have hlt : i - 1 < bins.length := by omega
  refine ⟨bins[i - 1], ?_, getElem_mem hlt⟩
  rw [Tuple.element, if_neg (by omega), getElem?_eq_getElem hlt]

theorem getAt_within (h : Shaped ns b) (hin : Within is ns) : ∃ q, getAt is b = some q := by
  induction h generalizing is with
  | queue =>
    cases hin
    exact ⟨_, rfl⟩
  | @tuple n ns bins hlen hbins ih =>
    cases hin with
    | @cons i _ is _ hi his =>
      obtain ⟨b, hb, hmem⟩ := element_within (show 1 ≤ i ∧ i ≤ bins.length by omega)
      obtain ⟨q, hq⟩ := ih b hmem his
      exact ⟨q, by rw [getAt, hb]; exact hq⟩

/-- **A queue is set**: the other queues are as they were. -/
theorem setAt_spec (h : Shaped ns b) (hin : Within is ns) (v : ErlQueue α) :
    ∃ b', setAt is v b = some b' ∧ Shaped ns b' ∧
      ∀ js, Within js ns → getAt js b' = if js = is then some v else getAt js b := by
  induction h generalizing is with
  | queue =>
    cases hin
    refine ⟨_, rfl, .queue, fun js hjs => ?_⟩
    cases hjs
    rfl
  | @tuple n ns bins hlen hbins ih =>
    cases hin with
    | @cons i _ is _ hi his =>
      obtain ⟨b, hb, hmem⟩ := element_within (show 1 ≤ i ∧ i ≤ bins.length by omega)
      obtain ⟨b', hb', hshaped, hget⟩ := ih b hmem his
      have hset : Tuple.setElement i bins b' = some (bins.set (i - 1) b') :=
        if_pos (by omega)
      refine ⟨.tuple (bins.set (i - 1) b'), ?_, ?_, ?_⟩
      · rw [setAt, hb]
        simp only [bind_eq_bind, bind_some, hb', hset]
        rfl
      · refine .tuple (by rw [length_set, hlen]) fun x hx => ?_
        rcases mem_or_eq_of_mem_set hx with hx | rfl
        · exact hbins x hx
        · exact hshaped
      · intro js hjs
        cases hjs with
        | @cons j _ js _ hj hjs =>
          rw [getAt, getAt]
          by_cases hji : j = i
          · -- the same tuple
            subst hji
            have hnew : Tuple.element j (bins.set (j - 1) b') = some b' := by
              rw [Tuple.element, if_neg (by omega), getElem?_set_self (by omega)]
            rw [hnew, hb, bind_some, bind_some, hget js hjs]
            simp only [List.cons.injEq, true_and]
          · have hold : Tuple.element j (bins.set (i - 1) b') = Tuple.element j bins := by
              rw [Tuple.element, Tuple.element, getElem?_set_ne (by omega)]
            rw [hold, if_neg fun heq => hji (List.cons.inj heq).1]

/-- `in_queue/3` sets the queue with the value. -/
theorem inQueue_eq (hget : getAt is b = some q) (value : α) :
    inQueue is value b = setAt is (q.enter value) b := by
  induction is generalizing b with
  | nil =>
    match b with
    | .queue q' =>
      cases hget
      rfl
  | cons i is ih =>
    match b with
    | .tuple bins =>
      obtain ⟨next, hnext, hget⟩ := bind_eq_some_iff.mp hget
      rw [inQueue, setAt, hnext]
      simp only [bind_eq_bind, bind_some, ih hget]

/-- `out_queue/2` sets the queue without its oldest value. -/
theorem outQueue_eq (hget : getAt is b = some q) :
    outQueue is b = (setAt is q.out.2 b).map fun b' => (q.out.1, b') := by
  induction is generalizing b with
  | nil =>
    match b with
    | .queue q' =>
      cases hget
      rfl
  | cons i is ih =>
    match b with
    | .tuple bins =>
      obtain ⟨next, hnext, hget⟩ := bind_eq_some_iff.mp hget
      rw [outQueue, setAt, hnext]
      simp only [bind_eq_bind, bind_some, ih hget]
      cases setAt is q.out.2 next with
      | none => rfl
      | some next' =>
        simp only [map_some, bind_some]
        cases Tuple.setElement i bins next' <;> rfl

/-! ## the indexes of a priority -/

/-- The widths of the bit fields. -/
def layerWidths (size : Int) : Option (List Nat) :=
  if size ≤ 127 then some [7]
  else if size ≤ 255 then some [4, 4]
  else if size ≤ 511 then some [4, 5]
  else if size ≤ 1023 then some [3, 3, 4]
  else if size ≤ 2047 then some [3, 4, 4]
  else if size ≤ 4095 then some [4, 4, 4]
  else if size ≤ 8191 then some [4, 4, 5]
  else if size ≤ 16383 then some [4, 5, 5]
  else if size ≤ 32767 then some [3, 4, 4, 4]
  else if size ≤ 65535 then some [4, 4, 4, 4]
  else none

theorem layerSizes_eq (size : Int) :
    layerSizes size = (layerWidths size).map fun ws => ws.map fun w => 2 ^ w - 1 := by
  unfold layerSizes layerWidths
  simp only [apply_ite (Option.map _), map_some, map_none]
  rfl

theorem lt_of_layerWidths (h : layerWidths size = some ws) : size < 2 ^ ws.sum := by
  unfold layerWidths at h
  iterate 10
    rcases ite_eq_iff.mp h with ⟨hle, hws⟩ | ⟨-, h⟩
    · cases hws
      exact Int.lt_add_one_of_le hle
  cases h

theorem layerIndexes_of_gt (h : ¬ size ≤ 127) (k : Nat) :
    layerIndexes size k = (layerWidths size).map fun ws => (bitFields ws k).map (· + 1) := by
  unfold layerIndexes layerWidths
  rw [if_neg h, if_neg h]
  simp only [apply_ite (Option.map _), map_some, map_none]

theorem layerIndexes_eq {k : Nat} (h : layerWidths size = some ws) (hindex : (k : Int) ≤ size) :
    layerIndexes size k = some ((bitFields ws k).map (· + 1)) := by
  by_cases h127 : size ≤ 127
  · -- the only field is the priority index
    have hfield : bitFields [7] k = [k] := by
      rw [bitFields, bitFields, sum_nil, pow_zero, Nat.div_one, Nat.mod_eq_of_lt (by omega)]
    rw [layerWidths, if_pos h127, Option.some.injEq] at h
    rw [layerIndexes, if_pos h127, ← h, hfield]
    rfl
  · rw [layerIndexes_of_gt h127, h, map_some]

theorem within_bitFields (ws : List Nat) (k : Nat) :
    Within ((bitFields ws k).map (· + 1)) (ws.map fun w => 2 ^ w - 1) := by
  refine forall₂_map_left_iff.mpr (forall₂_map_right_iff.mpr ?_)
  refine (bitFields_lt ws k).imp fun i w hi => ?_
  omega

/-- **The place of a priority index**: within the tuples, and its own. -/
theorem layerIndexes_spec {k : Nat} (h : layerSizes size = some ns) (hk : (k : Int) ≤ size) :
    ∃ is, layerIndexes size k = some is ∧ Within is ns ∧
      ∀ j : Nat, (j : Int) ≤ size → layerIndexes size j = some is → j = k := by
  rw [layerSizes_eq] at h
  obtain ⟨ws, hws, rfl⟩ := map_eq_some_iff.mp h
  have hsize := lt_of_layerWidths hws
  refine ⟨_, layerIndexes_eq hws hk, within_bitFields ws k, fun j hj heq => ?_⟩
  rw [layerIndexes_eq hws hj, Option.some.injEq] at heq
  have hfields := map_injective_iff.mpr (fun _ _ h => Nat.succ.inj h) heq
  have hbound : ∀ l : Nat, (l : Int) ≤ size → l < 2 ^ ws.sum := by
    intro l hl
    have hlt := Int.lt_of_le_of_lt hl hsize
    exact_mod_cast hlt
  exact (bitFields_inj (hbound j hj) (hbound k hk)).mp hfields

end CloudI.Pqueue3
