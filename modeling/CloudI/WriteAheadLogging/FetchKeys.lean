import CloudI.Uuid.V1
import CloudI.WriteAheadLogging.Basic
import Mathlib.Data.List.Sort

/-!
# WriteAheadLogging.FetchKeys

The order of `fetch_keys/1` for requests that are stored under version 1 UUIDs.  The keys are
sorted as bytes, and the first bytes of such a UUID are the lowest bits of its time: the keys are
from the oldest to the newest one where no carry comes between them.
-/

namespace CloudI.WriteAheadLogging

open Uuid List

/-! ## the order of binaries -/

/-- Binaries of one length are in the order of their numbers. -/
theorem lt_iff_value_lt {a b : Binary} (h : a.length = b.length) : a < b ↔ a.value < b.value := by
  induction a generalizing b with
  | nil =>
    rw [length_eq_zero_iff.mp h.symm]
    exact iff_of_false (lt_irrefl _) (lt_irrefl _)
  | cons x a ih =>
    cases b with
    | nil => cases h
    | cons y b =>
      have hlen : a.length = b.length := Nat.succ.inj h
      have ha := Binary.value_lt a
      have hb := Binary.value_lt b
      rw [cons_lt_cons_iff, ih hlen, Binary.value_cons, Binary.value_cons, hlen]
      rw [hlen] at ha
      constructor
      · rintro (hlt | ⟨rfl, hlt⟩)
        · have hmul : (x.val + 1) * 256 ^ b.length ≤ y.val * 256 ^ b.length :=
            Nat.mul_le_mul_right _ hlt
          rw [Nat.succ_mul] at hmul
          omega
        · exact Nat.add_lt_add_left hlt _
      · intro hlt
        rcases lt_trichotomy x y with hxy | rfl | hyx
        · exact .inl hxy
        · exact .inr ⟨rfl, Nat.lt_of_add_lt_add_left hlt⟩
        · have hmul : (y.val + 1) * 256 ^ b.length ≤ x.val * 256 ^ b.length :=
            Nat.mul_le_mul_right _ hyx
          rw [Nat.succ_mul] at hmul
          omega

/-! ## the keys -/

variable {ρ : Type}

theorem fetchKeys_pairwise (s : State Binary ρ) : (fetchKeys s).Pairwise (· < ·) :=
  pairwise_map.mpr (Maps.keys_increase s.chunks)

theorem mem_fetchKeys (s : State Binary ρ) (key : Binary) :
    key ∈ fetchKeys s ↔ (Maps.find key s.chunks).isSome := by
  rw [fetchKeys, mem_map, Option.isSome_iff_exists]
  constructor
  · rintro ⟨⟨_, chunk⟩, hmem, rfl⟩
    exact ⟨chunk, Maps.mem_toList.mp hmem⟩
  · rintro ⟨chunk, hfind⟩
    exact ⟨(key, chunk), Maps.mem_toList.mpr hfind, rfl⟩

theorem fetchKeys_eq_iff_pairwise {s : State Binary ρ} {keys : List Binary}
    (h : ∀ key, (Maps.find key s.chunks).isSome ↔ key ∈ keys) :
    fetchKeys s = keys ↔ keys.Pairwise (· < ·) := by
  constructor
  · rintro rfl
    exact fetchKeys_pairwise s
  · intro hkeys
    exact (fetchKeys_pairwise s).eq_of_mem_iff hkeys fun key => (mem_fetchKeys s key).trans (h key)

/-! ## the times -/

/-- The fields of a time as they are in an id: the lowest 32 bits are compared first. -/
def FieldsBelow (t t' : Int) : Prop :=
  time60 t % 2 ^ 32 < time60 t' % 2 ^ 32 ∨
    time60 t % 2 ^ 32 = time60 t' % 2 ^ 32 ∧
      (time60 t / 2 ^ 32 % 2 ^ 16 < time60 t' / 2 ^ 32 % 2 ^ 16 ∨
        time60 t / 2 ^ 32 % 2 ^ 16 = time60 t' / 2 ^ 32 % 2 ^ 16 ∧
          time60 t / 2 ^ 48 < time60 t' / 2 ^ 48)

instance (t t' : Int) : Decidable (FieldsBelow t t') := inferInstanceAs (Decidable (_ ∨ _))

theorem fields_lt_iff (hb : b < 2 ^ 16) (hb' : b' < 2 ^ 16) (hc : c < 2 ^ 12) (hc' : c' < 2 ^ 12) :
    a * 2 ^ 96 + (b * 2 ^ 80 + (1 % 2 ^ 4 * 2 ^ 76 + (c * 2 ^ 64 + r))) <
      a' * 2 ^ 96 + (b' * 2 ^ 80 + (1 % 2 ^ 4 * 2 ^ 76 + (c' * 2 ^ 64 + r))) ↔
    a < a' ∨ a = a' ∧ (b < b' ∨ b = b' ∧ c < c') := by
  omega

theorem idAt_lt_iff (state : Uuid.State) (t t' : Int) :
    (idAt state t).binary < (idAt state t').binary ↔ FieldsBelow t t' := by
  have hlen : (idAt state t).binary.length = (idAt state t').binary.length := by
    rw [Id.binary, Id.binary, Binary.ofFields, Binary.ofFields, Binary.length_bigEndian,
      Binary.length_bigEndian]
  rw [lt_iff_value_lt hlen, Id.binary, Id.binary, Binary.value_ofFields (by decide),
    Binary.value_ofFields (by decide)]
  have hhigh : ∀ x, time60 x / 2 ^ 48 < 2 ^ 12 := fun x => Nat.div_lt_of_lt_mul (time60_lt x)
  have hmid : ∀ x, time60 x / 2 ^ 32 % 2 ^ 16 < 2 ^ 16 := fun x => Nat.mod_lt _ (by decide)
  have hlow : ∀ x, time60 x % 2 ^ 32 < 2 ^ 32 := fun x => Nat.mod_lt _ (by decide)
  simp only [idAt, v1Widths, ofBitFields, sum_cons, sum_nil, Nat.mod_mod,
    Nat.mod_eq_of_lt (hhigh _)]
  exact fields_lt_iff (hmid t) (hmid t') (hhigh t) (hhigh t')

/-- The keys are from the oldest to the newest id where the fields of the times increase as they
are compared. -/
theorem fetchKeys_eq_iff (state : Uuid.State) (clocks : List Int)
    (stored : List (Binary × Uuid.State)) (hstored : stored.Sublist (getV1Run state clocks))
    (s : State Binary ρ)
    (hkeys : ∀ key, (Maps.find key s.chunks).isSome ↔ key ∈ stored.map Prod.fst) :
    fetchKeys s = stored.map Prod.fst ↔ (stored.map used).Pairwise FieldsBelow := by
  rw [fetchKeys_eq_iff_pairwise hkeys, pairwise_map, pairwise_map]
  have hid : ∀ x ∈ stored, x.1 = (idAt state (used x)).binary := by
    intro x hx
    have hissued := hstored.subset hx
    rw [getV1Run_eq] at hissued
    obtain ⟨t, -, rfl⟩ := mem_map.mp hissued
    rfl
  refine ⟨fun h => h.imp_of_mem fun hx hy hlt => ?_, fun h => h.imp_of_mem fun hx hy hbelow => ?_⟩
  · rw [hid _ hx, hid _ hy] at hlt
    exact (idAt_lt_iff state _ _).mp hlt
  · rw [hid _ hx, hid _ hy]
    exact (idAt_lt_iff state _ _).mpr hbelow

/-! ## ids of two microseconds -/

/-- The state of the requests of the ids. -/
def storing (issued : List (Binary × Uuid.State)) : State Binary Unit where
  chunks := issued.foldr (fun x chunks => Maps.put x.1 ⟨0, 0, (), 0⟩ chunks) ∅

theorem find_storing (issued : List (Binary × Uuid.State)) (key : Binary) :
    (Maps.find key (storing issued).chunks).isSome ↔ key ∈ issued.map Prod.fst := by
  induction issued with
  | nil => exact iff_of_false (by rw [storing, foldr_nil, Maps.find_empty]; nofun) nofun
  | cons x issued ih =>
    rw [storing, foldr_cons, Maps.find_put, map_cons, mem_cons, ← ih]
    by_cases hkey : x.1 = key
    · rw [if_pos hkey]
      exact iff_of_true rfl (.inl hkey.symm)
    · rw [if_neg hkey]
      exact (or_iff_right (Ne.symm hkey)).symm

/-- Two ids with no carry between them. -/
theorem fetchKeys_eq_iff_block :
    fetchKeys (storing (getV1Run ⟨1, 2, 3⟩ [1704067326166629, 1704067326166630])) =
      (getV1Run ⟨1, 2, 3⟩ [1704067326166629, 1704067326166630]).map Prod.fst := by
  refine (fetchKeys_eq_iff _ _ _ (List.Sublist.refl _) _ (find_storing _)).mpr ?_
  rw [map_used_getV1Run]
  decide

/-- Two ids with a carry of the lowest 32 bits between them are the newer one first. -/
theorem fetchKeys_carry :
    ¬ ∀ (state : Uuid.State) (clocks : List Int) (stored : List (Binary × Uuid.State)),
      stored.Sublist (getV1Run state clocks) → ∀ s : State Binary Unit,
      (∀ key, (Maps.find key s.chunks).isSome ↔ key ∈ stored.map Prod.fst) →
      fetchKeys s = stored.map Prod.fst := by
  intro h
  have hkeys := h ⟨1, 2, 3⟩ [1704067326166630, 1704067326166631] _ (List.Sublist.refl _) _
    (find_storing _)
  have hsorted := (fetchKeys_eq_iff_pairwise (find_storing _)).mp hkeys
  rw [getV1Run_eq] at hsorted
  revert hsorted
  decide

end CloudI.WriteAheadLogging
