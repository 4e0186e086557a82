import Mathlib.Order.Fin.Basic

/-!
# Library.Utf8

Texts as lists of bytes: the UTF-8 of a text, and the text that bytes are the UTF-8 of.
-/

namespace CloudI.Utf8

/-- The UTF-8 of a text. -/
def encode (text : String) : List (Fin 256) := text.toByteArray.data.toList.map UInt8.toFin

/-- The text of bytes, when they are UTF-8. -/
def decode (b : List (Fin 256)) : Option String :=
  String.fromUTF8? ⟨(b.map UInt8.ofFin).toArray⟩

theorem decode_encode (text : String) : decode (encode text) = some text := by
  have hbytes : (⟨((encode text).map UInt8.ofFin).toArray⟩ : ByteArray) = text.toByteArray := by
    have hid : (UInt8.ofFin ∘ UInt8.toFin) = id := rfl
    rw [encode, List.map_map, hid, List.map_id, Array.toArray_toList]
  rw [decode, hbytes]
  unfold String.fromUTF8?
  rw [dif_pos text.isValidUTF8]
  rfl

/-- Bytes that are the UTF-8 of a text. -/
theorem encode_of_decode {b : List (Fin 256)} (h : decode b = some text) : encode text = b := by
  rw [decode] at h
  unfold String.fromUTF8? at h
  split at h
  · rw [Option.some.injEq] at h
    have hid : (UInt8.toFin ∘ UInt8.ofFin) = id := rfl
    rw [encode, ← h]
    show (List.map UInt8.ofFin b).toArray.toList.map UInt8.toFin = b
    rw [List.toList_toArray, List.map_map, hid, List.map_id]
  · cases h

end CloudI.Utf8
