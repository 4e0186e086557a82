import Mathlib.Data.List.Basic

/-!
# Library.Unpack

Reading a list by slices: the rest of a list from an index on, and formats, which read
the front of a slice.  A format that reads what was written reads it in front of
anything; a sequence of formats reads a sequence of written parts.
-/

namespace CloudI.Unpack

open List

variable {β α γ : Type}

/-! ## slices -/

/-- What a list has from an index on. -/
structure At (data : List β) (index : Nat) (rest : List β) : Prop where
  length : index + rest.length = data.length
  drop : data.drop index = rest

theorem at_zero (data : List β) : At data 0 data := ⟨Nat.zero_add _, rfl⟩

theorem At.append (h : At data index (part ++ rest)) : At data (index + part.length) rest where
  length := by
    rw [← h.length, length_append, Nat.add_assoc]
  drop := by
    rw [← drop_drop, h.drop, drop_left]

/-- The elements from an index up to another. -/
def slice (data : List β) (i j : Nat) : List β := (data.drop i).take (j - i)

theorem At.slice_eq (h : At data i (part ++ rest)) (hj : j = i + part.length) :
    slice data i j = part := by
  subst hj
  rw [slice, h.drop, Nat.add_sub_cancel_left, take_left]

/-! ## formats -/

/-- A format: what is read from the front of a list, and the rest. -/
abbrev Format (β α : Type) := StateT (List β) Option α

/-- So many elements. -/
def elements (n : Nat) : Format β (List β) := fun data =>
  if n ≤ data.length then some (data.take n, data.drop n) else none

/-- A format so many times. -/
def repeats (format : Format β α) : Nat → Format β (List α)
  | 0 => pure []
  | n + 1 => do
      let x ← format
      let xs ← repeats format n
      pure (x :: xs)

/-- A format reads the whole of a list. -/
def unpack (format : Format β α) (data : List β) : Option α :=
  match format data with
  | some (x, []) => some x
  | _ => none

/-- A format reads a part in front of anything. -/
def Reads (format : Format β α) (part : List β) (x : α) : Prop :=
  ∀ rest, format (part ++ rest) = some (x, rest)

variable {format : Format β α}

theorem Reads.unpack_eq (h : Reads format part x) : unpack format part = some x := by
  have hread := h []
  rw [append_nil] at hread
  rw [unpack, hread]

theorem Reads.pure (x : α) : Reads (pure x : Format β α) [] x := fun _ => rfl

theorem Reads.bind {next : α → Format β γ} (h : Reads format part x)
    (hnext : Reads (next x) part' y) :
    Reads (format >>= next) (part ++ part') y := by
  intro rest
  show (format (part ++ part' ++ rest)).bind (fun z => next z.1 z.2) = _
  rw [append_assoc, h, Option.bind_some]
  exact hnext rest

/-- The last format of a sequence. -/
theorem Reads.map {f : α → γ} (h : Reads format part x) :
    Reads (format >>= fun y => Pure.pure (f y)) part (f x) := by
  intro rest
  show (format (part ++ rest)).bind (fun z => some (f z.1, z.2)) = _
  rw [h, Option.bind_some]

theorem reads_elements (h : part.length = n) : Reads (elements n) part part := by
  intro rest
  have hle : n ≤ (part ++ rest).length := by
    rw [length_append]
    omega
  rw [elements, if_pos hle, take_left' h, drop_left' h]

theorem reads_repeats {parts : List (List β)} {f : List β → α}
    (h : ∀ part ∈ parts, Reads format part (f part)) :
    Reads (repeats format parts.length) parts.flatten (parts.map f) := by
  induction parts with
  | nil => exact Reads.pure _
  | cons part parts ih =>
    have hrest := ih fun x hx => h x (mem_cons_of_mem part hx)
    exact (h part mem_cons_self).bind hrest.map

end CloudI.Unpack
