import CloudI.Erlang.BitFields
import CloudI.Erlang.Queue
import CloudI.Erlang.Tuple

/-!
# Pqueue3.Basic

The `pqueue3` module: a priority queue for a number of priorities that is given to
`new/1`, with one FIFO queue for each priority in tuples of tuples, and a cached current
priority.

The source expands `in_queue/3` and `out_queue/2` into one clause per depth of the tuples;
here they follow the list of the indexes.  `none` is an exit, an error of a built-in
function, or no fuel left where a recursion goes on until it finds something.
-/

namespace CloudI.Pqueue3

/-- The tuples of tuples of queues. -/
inductive Bins (α : Type) where
  | queue (q : ErlQueue α)
  | tuple (bins : List (Bins α))

/-- The queue `{Size, Offset, empty | I, Bins}`. -/
structure PQueue (α : Type) where
  size : Int
  offset : Int
  current : Option Nat
  bins : Bins α

variable {α : Type}

/-! ## layers -/

def layerIndexes (size : Int) (priorityIndex : Nat) : Option (List Nat) :=
  if size ≤ 127 then some [priorityIndex + 1]
  else if size ≤ 255 then some ((bitFields [4, 4] priorityIndex).map (· + 1))
  else if size ≤ 511 then some ((bitFields [4, 5] priorityIndex).map (· + 1))
  else if size ≤ 1023 then some ((bitFields [3, 3, 4] priorityIndex).map (· + 1))
  else if size ≤ 2047 then some ((bitFields [3, 4, 4] priorityIndex).map (· + 1))
  else if size ≤ 4095 then some ((bitFields [4, 4, 4] priorityIndex).map (· + 1))
  else if size ≤ 8191 then some ((bitFields [4, 4, 5] priorityIndex).map (· + 1))
  else if size ≤ 16383 then some ((bitFields [4, 5, 5] priorityIndex).map (· + 1))
  else if size ≤ 32767 then some ((bitFields [3, 4, 4, 4] priorityIndex).map (· + 1))
  else if size ≤ 65535 then some ((bitFields [4, 4, 4, 4] priorityIndex).map (· + 1))
  else none

def layerSizes (size : Int) : Option (List Nat) :=
  if size ≤ 127 then some (bitFields [7] 127)
  else if size ≤ 255 then some (bitFields [4, 4] 255)
  else if size ≤ 511 then some (bitFields [4, 5] 511)
  else if size ≤ 1023 then some (bitFields [3, 3, 4] 1023)
  else if size ≤ 2047 then some (bitFields [3, 4, 4] 2047)
  else if size ≤ 4095 then some (bitFields [4, 4, 4] 4095)
  else if size ≤ 8191 then some (bitFields [4, 4, 5] 8191)
  else if size ≤ 16383 then some (bitFields [4, 5, 5] 16383)
  else if size ≤ 32767 then some (bitFields [3, 4, 4, 4] 32767)
  else if size ≤ 65535 then some (bitFields [4, 4, 4, 4] 65535)
  else none

def create : List Nat → Bins α
  | [] => .queue ErlQueue.new
  | i :: is => .tuple (Tuple.makeTuple (i + 1) (create is))

def inQueue : List Nat → α → Bins α → Option (Bins α)
  | [], value, .queue q => some (.queue (q.enter value))
  | i :: is, value, .tuple bins => do
      let next ← inQueue is value (← Tuple.element i bins)
      return .tuple (← Tuple.setElement i bins next)
  | _, _, _ => none

def outQueue : List Nat → Bins α → Option (Option α × Bins α)
  | [], .queue q => some (q.out.1, .queue q.out.2)
  | i :: is, .tuple bins => do
      let (result, next) ← outQueue is (← Tuple.element i bins)
      return (result, .tuple (← Tuple.setElement i bins next))
  | _, _ => none

/-! ## new and in -/

/-- `erlang:round(N / 2)`, away from zero between two numbers. -/
def roundHalf (n : Int) : Int := if 0 ≤ n then (n + 1) / 2 else -((1 - n) / 2)

/-- `new/1` with the options `priorities` and `middle_priority_zero`. -/
def new (size : Int) (middleZero : Bool) : Option (PQueue α) :=
  (layerSizes size).map fun sizes =>
    { size
      offset := if middleZero then roundHalf (size + 1) - 1 else 0
      current := none
      bins := create sizes }

/-- `in/3`. -/
def enterAt (value : α) (p : Int) (q : PQueue α) : Option (PQueue α) :=
  if p + q.offset < 0 ∨ p + q.offset > q.size then none
  else do
    let priorityIndex := (p + q.offset).toNat
    let bins ← inQueue (← layerIndexes q.size priorityIndex) value q.bins
    match q.current with
    | none => return { q with current := some priorityIndex, bins }
    | some i =>
        if p + q.offset < i then return { q with current := some priorityIndex, bins }
        else return { q with bins }

/-- `in/2`. -/
def enter (value : α) (q : PQueue α) : Option (PQueue α) := enterAt value 0 q

/-! ## out -/

def outCheck : Nat → Nat → Int → Option α × Bins α → Option (Option α × Option Nat × Bins α)
  | 0, _, _, _ => none
  | _ + 1, i, _, (some value, bins) => some (some value, some i, bins)
  | fuel + 1, i, size, (none, bins) =>
      if i = size then some (none, none, bins)
      else do outCheck fuel (i + 1) size (← outQueue (← layerIndexes size (i + 1)) bins)

variable (fuel : Nat) (q : PQueue α)

def out : Option (Option α × PQueue α) :=
  match q.current with
  | none => some (none, q)
  | some i => do
      let (result, newI, bins) ←
        outCheck fuel i q.size (← outQueue (← layerIndexes q.size i) q.bins)
      return (result, { q with current := newI, bins })

/-- `out/2`. -/
def outAt (p : Int) (q : PQueue α) : Option (Option α × PQueue α) :=
  if p + q.offset < 0 ∨ p + q.offset > q.size then none
  else match q.current with
    | none => some (none, q)
    | some _ => do
        let (result, bins) ← outQueue (← layerIndexes q.size (p + q.offset).toNat) q.bins
        return (result, { q with bins })

def poutCheck : Nat → Nat → Int → Int → Option α × Bins α →
    Option (Option (α × Int) × Option Nat × Bins α)
  | 0, _, _, _, _ => none
  | _ + 1, i, _, offset, (some value, bins) => some (some (value, i - offset), some i, bins)
  | fuel + 1, i, size, offset, (none, bins) =>
      if i = size then some (none, none, bins)
      else do poutCheck fuel (i + 1) size offset (← outQueue (← layerIndexes size (i + 1)) bins)

def pout : Option (Option (α × Int) × PQueue α) :=
  match q.current with
  | none => some (none, q)
  | some i => do
      let (result, newI, bins) ←
        poutCheck fuel i q.size q.offset (← outQueue (← layerIndexes q.size i) q.bins)
      return (result, { q with current := newI, bins })

/-! ## is_empty, len and to_list -/

def isEmpty : Option Bool :=
  match q.current with
  | none => some true
  | some _ => do
      let (result, _) ← out fuel q
      return result.isNone

/-- `len/2`. -/
def lenLoop (fuel : Nat) : Nat → Nat → Option α × PQueue α → Option Nat
  | 0, _, _ => none
  | _ + 1, i, (none, _) => some i
  | n + 1, i, (some _, q) => do lenLoop fuel n (i + 1) (← out fuel q)

def len : Option Nat := do lenLoop fuel fuel 0 (← out fuel q)

/-- `to_list/2`. -/
def toListLoop (fuel : Nat) : Nat → List α → Option α × PQueue α → Option (List α)
  | 0, _, _ => none
  | _ + 1, l, (none, _) => some l.reverse
  | n + 1, l, (some value, q) => do toListLoop fuel n (value :: l) (← out fuel q)

def toList : Option (List α) := do
  toListLoop fuel fuel [] (← out fuel q)

end CloudI.Pqueue3
