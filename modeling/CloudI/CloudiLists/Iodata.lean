import CloudI.Erlang.Binary

/-!
# CloudiLists.Iodata

`cloudi_lists:iodata_to_list/1`, which flattens iodata.  It has no clause for a binary as the tail
of a list, which iodata may have: it fails on the data with such a list, and flattens all other.
-/

namespace CloudI.CloudiLists

open List

/-- The terms that iodata is made of. -/
inductive Term where
  | byte (byte : Byte)
  | binary (binary : Binary)
  | nil
  | cons (head tail : Term)
  deriving DecidableEq

namespace Term

/-- `iodata()`: a byte is the head of a list, a binary is anywhere. -/
def IsIodata : Term → Prop
  | byte _ => False
  | binary _ => True
  | nil => True
  | cons head tail => ((∃ n, head = byte n) ∨ head.IsIodata) ∧ tail.IsIodata

/-- The bytes from left to right. -/
def bytes : Term → Binary
  | byte n => [n]
  | binary b => b
  | nil => []
  | cons head tail => head.bytes ++ tail.bytes

/-- No list ends in a binary. -/
def Proper : Term → Prop
  | cons head tail => head.Proper ∧ (∀ b, tail ≠ binary b) ∧ tail.Proper
  | _ => True

end Term

/-- `iodata_to_list/3`: `none` where no clause matches. -/
def iodataToListLoop (listOut : Binary) : Term → Nat → Option (Nat × Binary)
  | .cons (.binary b) iodataIn, size =>
      iodataToListLoop (b.reverse ++ listOut) iodataIn (size + b.length)
  | .cons (.byte n) iodata, size => iodataToListLoop (n :: listOut) iodata (size + 1)
  | .cons list iodataIn, size =>
      (iodataToListLoop listOut list size).bind fun (sizeN, listOutN) =>
        iodataToListLoop listOutN.reverse iodataIn sizeN
  | .nil, size => some (size, listOut.reverse)
  | .byte n, size => some (size + 1, (n :: listOut).reverse)
  | .binary _, _ => none

def iodataToList : Term → Option (Nat × Binary)
  | .binary b => some (b.length, b)
  | .byte _ => none
  | list => iodataToListLoop [] list 0

/-! ## one list -/

namespace Term

/-- A list, `nil` or `cons`. -/
def IsList : Term → Prop
  | nil => True
  | cons _ _ => True
  | _ => False

theorem IsIodata.isList_or_binary (h : IsIodata d) : d.IsList ∨ ∃ b, d = binary b := by
  cases d with
  | byte n => exact h.elim
  | binary b => exact .inr ⟨b, rfl⟩
  | _ => exact .inl trivial

end Term

theorem iodataToListLoop_list (hlist : list.IsList) (listOut : Binary) (iodataIn : Term)
    (size : Nat) :
    iodataToListLoop listOut (.cons list iodataIn) size =
      (iodataToListLoop listOut list size).bind fun (sizeN, listOutN) =>
        iodataToListLoop listOutN.reverse iodataIn sizeN := by
  cases list with
  | byte n => exact hlist.elim
  | binary b => exact hlist.elim
  | nil => rfl
  | cons head tail => rfl

theorem iodataToListLoop_tail {tail : Term} (htail : tail.IsIodata)
    (ih : tail.IsList → ∀ listOut size result, iodataToListLoop listOut tail size = some result ↔
      tail.Proper ∧ result = (size + tail.bytes.length, listOut.reverse ++ tail.bytes))
    (listOut : Binary) (size : Nat) (result : Nat × Binary) :
    iodataToListLoop listOut tail size = some result ↔ ((∀ b, tail ≠ .binary b) ∧ tail.Proper) ∧
        result = (size + tail.bytes.length, listOut.reverse ++ tail.bytes) := by
  rcases htail.isList_or_binary with hlist | ⟨b, rfl⟩
  · have hnot : ∀ b, tail ≠ .binary b := by
      rintro b rfl
      exact hlist
    rw [ih hlist, and_iff_right hnot]
  · exact ⟨nofun, fun h => absurd rfl (h.1.1 b)⟩

/-- What is read of a list is put behind what was read before it. -/
theorem iodataToListLoop_eq_some {d : Term} (h : d.IsIodata) (hlist : d.IsList)
    (listOut : Binary) (size : Nat) (result : Nat × Binary) :
    iodataToListLoop listOut d size = some result ↔
      d.Proper ∧ result = (size + d.bytes.length, listOut.reverse ++ d.bytes) := by
  induction d generalizing listOut size result with
  | byte n => exact hlist.elim
  | binary b => exact hlist.elim
  | nil =>
    rw [iodataToListLoop, Option.some_inj, Term.bytes, append_nil]
    exact ⟨fun hr => ⟨trivial, hr.symm⟩, fun hr => hr.2.symm⟩
  | cons head tail ihead itail =>
    have htail := iodataToListLoop_tail h.2 (itail h.2)
    rw [Term.bytes, Term.Proper, length_append, ← Nat.add_assoc, ← append_assoc]
    rcases h.1 with ⟨n, rfl⟩ | hhead
    · rw [iodataToListLoop, htail, reverse_cons]
      exact and_congr_left' (iff_of_eq (true_and _)).symm
    · rcases hhead.isList_or_binary with hheadlist | ⟨b, rfl⟩
      · rw [iodataToListLoop_list hheadlist, Option.bind_eq_some_iff]
        constructor
        · rintro ⟨_, hread, hrest⟩
          obtain ⟨hproper, rfl⟩ := (ihead hhead hheadlist listOut size _).mp hread
          rw [htail, reverse_reverse] at hrest
          exact ⟨⟨hproper, hrest.1⟩, hrest.2⟩
        · rintro ⟨⟨hproper, hrest⟩, hresult⟩
          refine ⟨_, (ihead hhead hheadlist listOut size _).mpr ⟨hproper, rfl⟩, ?_⟩
          rw [htail, reverse_reverse]
          exact ⟨hrest, hresult⟩
      · rw [iodataToListLoop, htail, reverse_append, reverse_reverse]
        exact and_congr_left' (iff_of_eq (true_and _)).symm

/-- The data that is flattened is that without a binary at the end of a list. -/
theorem iodataToList_iff {d : Term} (h : d.IsIodata) :
    iodataToList d = some (d.bytes.length, d.bytes) ↔ d.Proper := by
  rcases h.isList_or_binary with hlist | ⟨b, rfl⟩
  · have hloop : iodataToList d = iodataToListLoop [] d 0 := by
      cases d with
      | nil => rfl
      | cons head tail => rfl
      | _ => exact hlist.elim
    rw [hloop, iodataToListLoop_eq_some h hlist, Nat.zero_add]
    exact and_iff_left rfl
  · exact iff_of_true rfl trivial

/-- `iodata_to_list([<<"a">>, "b", $c])`. -/
theorem iodataToList_iff_nested :
    iodataToList (.cons (.binary [97]) (.cons (.cons (.byte 98) .nil) (.cons (.byte 99) .nil))) =
      some (3, [97, 98, 99]) := by
  refine (iodataToList_iff ?_).mpr ?_
  · simp [Term.IsIodata]
  · simp [Term.Proper]

/-- `iodata_to_list([$a | <<"b">>])` fails. -/
theorem iodataToList_binary_tail :
    ¬ ∀ d : Term, d.IsIodata → iodataToList d = some (d.bytes.length, d.bytes) := by
  intro h
  have hfails := h (.cons (.byte 97) (.binary [98])) ⟨.inl ⟨97, rfl⟩, trivial⟩
  cases hfails

end CloudI.CloudiLists
