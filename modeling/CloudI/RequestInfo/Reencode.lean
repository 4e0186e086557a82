import CloudI.RequestInfo.RoundTrip

/-!
# RequestInfo.Reencode

A parsed map passed on as the pairs of a new request.  The list of values of a
key that occurs several times is an iolist to the encoder, one value.
-/

namespace CloudI.RequestInfo

/-- A parsed value as a term. -/
def Parsed.toValue : Parsed → Value
  | .one v => .binary v
  | .many vs => .list (vs.map .binary)

/-- The pairs of a parsed map, `cloudi_key_value:to_list/1`. -/
def toList (m : ErlMap Binary Parsed) : List (Key × Value) :=
  (Maps.toList m).map fun x => (.binary x.1, x.2.toValue)

/-- The bytes of a parsed value; those of several values are joined. -/
def Parsed.joined : Parsed → Binary
  | .one v => v
  | .many vs => vs.flatten

/-- **A well-formed binary**: pairs in one of the two formats. -/
def WellFormed (b : Binary) : Prop :=
  ∃ format l, (∀ p ∈ l, Encodable format p) ∧ b = encode format l

/-- A format that can hold the data of a parsed map. -/
def Holds (format : Format) (m : ErlMap Binary Parsed) : Prop :=
  ∀ k v, Maps.find k m = some v → Encodable format (k, v.joined)

theorem iolistToBinary_binaries (vs : List Binary) :
    iolistToBinary (vs.map .binary) = vs.flatten := by
  induction vs with
  | nil => rfl
  | cons v vs ih =>
    rw [List.map_cons, iolistToBinary, ih, Iodata.toBinary]
    rfl

theorem valueToBinary_toValue (v : Parsed) : valueToBinary v.toValue = v.joined := by
  cases v with
  | one v => rfl
  | many vs => exact iolistToBinary_binaries vs

theorem bytesOf_toList (m : ErlMap Binary Parsed) :
    bytesOf (toList m) = (Maps.toList m).map fun x => (x.1, x.2.joined) := by
  rw [bytesOf, toList, List.map_map]
  refine List.map_congr_left fun x _ => ?_
  show (x.1, valueToBinary x.2.toValue) = (x.1, x.2.joined)
  rw [valueToBinary_toValue]

/-- In a list with distinct keys each key has at most one value. -/
theorem valuesOf_of_distinct {l : List (Binary × Parsed)} (h : l.Pairwise fun x y => x.1 ≠ y.1)
    (hx : (k, v) ∈ l) : valuesOf k (l.map fun x => (x.1, x.2.joined)) = [v.joined] := by
  induction l with
  | nil => cases hx
  | cons x l ih =>
    rw [List.pairwise_cons] at h
    have htail : ∀ k, (∀ y ∈ l, k ≠ y.1) → valuesOf k (l.map fun x => (x.1, x.2.joined)) = [] := by
      intro k hk
      simp only [valuesOf, List.map_eq_nil_iff, List.filter_eq_nil_iff, List.mem_map]
      rintro _ ⟨y, hy, rfl⟩
      simpa using Ne.symm (hk y hy)
    rcases List.mem_cons.mp hx with rfl | hx
    · have hnone := htail k h.1
      simp only [valuesOf] at hnone
      simp [valuesOf, hnone]
    · have hne : x.1 ≠ k := h.1 (k, v) hx
      have ih' := ih h.2 hx
      simp only [valuesOf] at ih'
      simp [valuesOf, hne, ih']

theorem isMapOf_joined (m m' : ErlMap Binary Parsed)
    (h : IsMapOf ((Maps.toList m).map fun x => (x.1, x.2.joined)) m') (k : Binary) :
    Maps.find k m' = (Maps.find k m).map fun v => .one v.joined := by
  rw [h k]
  cases hk : Maps.find k m with
  | some v =>
    rw [valuesOf_of_distinct (Maps.keys_distinct m) (Maps.mem_toList.mpr hk)]
    rfl
  | none =>
    have hnone : valuesOf k ((Maps.toList m).map fun x => (x.1, x.2.joined)) = [] := by
      simp only [valuesOf, List.map_eq_nil_iff, List.filter_eq_nil_iff, List.mem_map]
      rintro _ ⟨x, hx, rfl⟩
      have hfind : Maps.find x.1 m = some x.2 := Maps.mem_toList.mp hx
      simp only [decide_eq_true_eq]
      rintro rfl
      rw [hk] at hfind
      cases hfind
    rw [hnone]
    rfl

/-- **Re-encoding**: a parsed map that is encoded and parsed again has the joined
values of each key; it is the same map when no key has several values. -/
theorem keyValue_reencode {b : Binary} (hb : WellFormed b) (format : Format) :
    ∃ m, keyValueParse b = some m ∧ (Holds format m →
      ∃ b' m', keyValueNew (toList m) format = some b' ∧ keyValueParse b' = some m' ∧
        (∀ k, Maps.find k m' = (Maps.find k m).map fun v => .one v.joined) ∧
        (m' = m ↔ ∀ k vs, Maps.find k m ≠ some (.many vs))) := by
  obtain ⟨format0, l, hl, rfl⟩ := hb
  refine ⟨_, keyValueParse_encode hl, fun hholds => ?_⟩
  generalize parsedMap l ∅ = m at hholds ⊢
  have hencodable : ∀ p ∈ bytesOf (toList m), Encodable format p := by
    intro p hp
    rw [bytesOf_toList] at hp
    obtain ⟨x, hx, rfl⟩ := List.mem_map.mp hp
    exact hholds x.1 x.2 (Maps.mem_toList.mp hx)
  have hmap : IsMapOf (bytesOf (toList m)) (parsedMap (bytesOf (toList m)) ∅) :=
    isMapOf_parsedMap isMapOf_nil
  have hjoined : ∀ k, Maps.find k (parsedMap (bytesOf (toList m)) ∅) =
      (Maps.find k m).map fun v => .one v.joined := by
    intro k
    rw [bytesOf_toList] at hmap ⊢
    exact isMapOf_joined m _ hmap k
  refine ⟨_, _, keyValueNew_eq hencodable, keyValueParse_encode hencodable, hjoined, ?_⟩
  constructor
  · intro heq k vs hk
    have hone := hjoined k
    rw [heq, hk] at hone
    cases hone
  · intro hnone
    refine Maps.ext fun k => ?_
    rw [hjoined k]
    cases hk : Maps.find k m with
    | none => rfl
    | some v =>
      cases v with
      | one v => rfl
      | many vs => exact absurd hk (hnone k vs)

/-- A key of the map is one of a pair, and its bytes are those of its values. -/
theorem IsMapOf.find_eq_some (h : IsMapOf l m) (hk : Maps.find k m = some v) :
    (∃ p ∈ l, p.1 = k) ∧ v.joined = (valuesOf k l).flatten := by
  rw [h k] at hk
  match hvalues : valuesOf k l with
  | [] =>
    rw [hvalues] at hk
    cases hk
  | w :: ws =>
    have hmem : w ∈ valuesOf k l := hvalues ▸ List.mem_cons_self
    obtain ⟨p, hp, -⟩ := List.mem_map.mp hmem
    obtain ⟨hp, hpk⟩ := List.mem_filter.mp hp
    refine ⟨⟨p, hp, by simpa using hpk⟩, ?_⟩
    rw [hvalues] at hk
    match ws with
    | [] =>
      cases hk
      simp [Parsed.joined]
    | w' :: ws =>
      cases hk
      rfl

theorem holds_of_isMapOf (h : IsMapOf l m)
    (hl : ∀ p ∈ l, Encodable format (p.1, (valuesOf p.1 l).flatten)) : Holds format m := by
  intro k v hk
  obtain ⟨⟨p, hp, rfl⟩, hv⟩ := h.find_eq_some hk
  rw [hv]
  exact hl p hp

/-- Distinct keys in the text format, encoded in the binary format. -/
theorem keyValue_reencode_distinct :
    ∃ m, keyValueParse (encode .textPairs [([1], [2]), ([3], [])]) = some m ∧
      ∃ b' m', keyValueNew (toList m) .binaryPairs = some b' ∧ keyValueParse b' = some m' ∧
        Maps.find [1] m' = Maps.find [1] m := by
  have hl : ∀ p ∈ [(([1] : Binary), ([2] : Binary)), ([3], [])], Encodable .textPairs p := by
    simp [Encodable]
  obtain ⟨m, hparse, h⟩ := keyValue_reencode ⟨.textPairs, _, hl, rfl⟩ .binaryPairs
  have hm : m = parsedMap [([1], [2]), ([3], [])] ∅ :=
    Option.some.inj (hparse.symm.trans (keyValueParse_encode hl))
  have hmap : IsMapOf [([1], [2]), ([3], [])] m := hm ▸ isMapOf_parsedMap isMapOf_nil
  obtain ⟨b', m', hnew, hparse', hjoined, -⟩ :=
    h (holds_of_isMapOf hmap (by simp [Encodable, valuesOf]))
  refine ⟨m, hparse, b', m', hnew, hparse', ?_⟩
  rw [hjoined, hmap]
  rfl

/-- **A repeated key is joined**: the values 2 and 3 of the key become the value `[2, 3]`. -/
theorem reencode_joins_values :
    ∃ b m b' m', WellFormed b ∧ keyValueParse b = some m ∧ Holds .textPairs m ∧
      keyValueNew (toList m) .textPairs = some b' ∧ keyValueParse b' = some m' ∧
      Maps.find [1] m = some (.many [[2], [3]]) ∧ Maps.find [1] m' = some (.one [2, 3]) ∧
      m' ≠ m := by
  have hl : ∀ p ∈ [(([1] : Binary), ([2] : Binary)), ([1], [3])], Encodable .textPairs p := by
    simp [Encodable]
  have hmap : IsMapOf [([1], [2]), ([1], [3])] (parsedMap [([1], [2]), ([1], [3])] ∅) :=
    isMapOf_parsedMap isMapOf_nil
  refine ⟨_, _, _, _, ⟨.textPairs, _, hl, rfl⟩, keyValueParse_encode hl,
    holds_of_isMapOf hmap (by simp [Encodable, valuesOf]), rfl, rfl, hmap [1], rfl, fun h => ?_⟩
  have hone := congrArg (Maps.find [1]) h
  rw [hmap [1]] at hone
  exact absurd hone (by decide)

end CloudI.RequestInfo
