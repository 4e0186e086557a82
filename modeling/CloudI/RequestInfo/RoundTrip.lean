import CloudI.RequestInfo.Basic

/-!
# RequestInfo.RoundTrip

What the parser makes of encoded pairs: a map with the values of each key in
their order.  Both formats are concatenations, `encode`, and the parser reads
them pair by pair into `parsedMap`.
-/

namespace CloudI.RequestInfo

open List (append_assoc mem_cons_of_mem mem_cons_self)

/-! ## the meaning of pairs -/

/-- The values of a key, in order. -/
def valuesOf (k : Binary) (l : List (Binary × Binary)) : List Binary :=
  (l.filter (·.1 = k)).map Prod.snd

/-- A map's entry for the values of a key: nothing, the only value, or the list. -/
def parsedOf : List Binary → Option Parsed
  | [] => none
  | [v] => some (.one v)
  | vs => some (.many vs)

/-- **The map of a list of pairs**: each key has its only value or the list of its values. -/
def IsMapOf (l : List (Binary × Binary)) (m : ErlMap Binary Parsed) : Prop :=
  ∀ k, Maps.find k m = parsedOf (valuesOf k l)

/-- The pairs that a format can hold. -/
def Encodable : Format → Binary × Binary → Prop
  | .textPairs, (k, v) => k ≠ [] ∧ 0 ∉ k ∧ 0 ∉ v
  | .binaryPairs, (k, v) => k ≠ [] ∧ k.length < 2 ^ 32 ∧ v.length < 2 ^ 32

/-- The bytes of the pairs. -/
def encode : Format → List (Binary × Binary) → Binary
  | .textPairs, l => l.flatMap fun p => p.1 ++ [0] ++ p.2 ++ [0]
  | .binaryPairs, l =>
      0 :: l.flatMap fun p => uint32 p.1.length ++ p.1 ++ uint32 p.2.length ++ p.2

/-- The bytes of terms. -/
def bytesOf (l : List (Key × Value)) : List (Binary × Binary) :=
  l.map fun p => (keyToBinary p.1, valueToBinary p.2)

/-- The pairs stored one after the other. -/
def parsedMap (l : List (Binary × Binary)) (m : ErlMap Binary Parsed) : ErlMap Binary Parsed :=
  l.foldl (fun m p => storeValue p.1 p.2 m) m

theorem valuesOf_append (k : Binary) (l1 l2 : List (Binary × Binary)) :
    valuesOf k (l1 ++ l2) = valuesOf k l1 ++ valuesOf k l2 := by
  simp [valuesOf]

theorem isMapOf_nil : IsMapOf [] ∅ := fun k => Maps.find_empty k

variable {m : ErlMap Binary Parsed} {l1 l : List (Binary × Binary)}

/-- Storing a value adds it at the end of the values of its key. -/
theorem isMapOf_storeValue (h : IsMapOf l m) (k v : Binary) :
    IsMapOf (l ++ [(k, v)]) (storeValue k v m) := by
  intro j
  have hone : valuesOf j [(k, v)] = if k = j then [v] else [] := by
    by_cases hj : k = j <;> simp [valuesOf, hj]
  rw [valuesOf_append, hone]
  by_cases hj : k = j
  · subst hj
    rw [if_pos rfl, storeValue, h k]
    match valuesOf k l with
    | [] => simp [parsedOf]
    | [w] => simp [parsedOf]
    | w1 :: w2 :: ws => simp [parsedOf]
  · have hother : Maps.find j (storeValue k v m) = Maps.find j m := by
      rw [storeValue]
      match Maps.find k m with
      | none => simp [hj]
      | some (.one w) => simp [hj]
      | some (.many ws) => simp [hj]
    rw [if_neg hj, List.append_nil, hother]
    exact h j

theorem isMapOf_parsedMap (h : IsMapOf l1 m) : IsMapOf (l1 ++ l2) (parsedMap l2 m) := by
  induction l2 generalizing l1 m with
  | nil => simpa [parsedMap] using h
  | cons p l2 ih =>
    have hstep := ih (isMapOf_storeValue h p.1 p.2)
    rw [append_assoc] at hstep
    exact hstep

/-! ## text pairs -/

theorem splitOn_cons (hk : 0 ∉ k) (rest : Binary) :
    (k ++ 0 :: rest).splitOn 0 = k :: rest.splitOn 0 := by
  refine List.splitOnP_append_cons_of_forall_mem (fun x hx => ?_) 0 (by simp) rest
  have hne : x ≠ 0 := fun h => hk (h ▸ hx)
  simpa using hne

theorem parse_textPairs (h : ∀ p ∈ l, Encodable .textPairs p) (m : ErlMap Binary Parsed) :
    textPairsBinaryToMapElement ((encode .textPairs l).splitOn 0) m = some (parsedMap l m) := by
  induction l generalizing m with
  | nil => rfl
  | cons p l ih =>
    obtain ⟨k, v⟩ := p
    obtain ⟨-, hk, hv⟩ := h (k, v) mem_cons_self
    have hbytes : encode .textPairs ((k, v) :: l) = k ++ 0 :: (v ++ 0 :: encode .textPairs l) := by
      simp [encode]
    rw [hbytes, splitOn_cons hk, splitOn_cons hv, textPairsBinaryToMapElement]
    exact ih (fun q hq => h q (mem_cons_of_mem _ hq)) _

theorem textPairsListToBinary_eq {l : List (Key × Value)}
    (h : ∀ p ∈ bytesOf l, Encodable .textPairs p) :
    textPairsListToBinary l = some (encode .textPairs (bytesOf l)) := by
  induction l with
  | nil => rfl
  | cons p l ih =>
    obtain ⟨k, v⟩ := p
    obtain ⟨hne, hk, -⟩ := h (keyToBinary k, valueToBinary v) mem_cons_self
    rw [textPairsListToBinary, ih fun q hq => h q (mem_cons_of_mem _ hq)]
    cases hbytes : keyToBinary k with
    | nil => exact absurd hbytes hne
    | cons b binaryK =>
      have hb : b ≠ 0 := by
        rintro rfl
        rw [hbytes] at hk
        exact hk mem_cons_self
      simp [hb, encode, bytesOf, hbytes]

/-! ## binary pairs -/

theorem readSized_uint32 (h : x.length < 2 ^ 32) (rest : Binary) :
    readSized (uint32 x.length ++ (x ++ rest)) = some (x, rest) := by
  rw [readSized, uint32, Binary.readBigEndian_bigEndian h]
  simp

theorem parse_binaryPairs (h : ∀ p ∈ l, Encodable .binaryPairs p) (m : ErlMap Binary Parsed) :
    binaryPairsBinaryToMapElement
      (l.flatMap fun p => uint32 p.1.length ++ p.1 ++ uint32 p.2.length ++ p.2) m =
      some (parsedMap l m) := by
  induction l generalizing m with
  | nil => rw [List.flatMap_nil, binaryPairsBinaryToMapElement, if_pos rfl]; rfl
  | cons p l ih =>
    obtain ⟨k, v⟩ := p
    obtain ⟨-, hk, hv⟩ := h (k, v) mem_cons_self
    have ih' := ih (fun q hq => h q (mem_cons_of_mem _ hq)) (storeValue k v m)
    have hne : ∀ rest : Binary, uint32 k.length ++ rest ≠ [] := by
      intro rest hnil
      simpa [uint32] using congrArg List.length hnil
    rw [List.flatMap_cons, append_assoc, append_assoc, append_assoc,
      binaryPairsBinaryToMapElement, if_neg (hne _)]
    split
    next hread =>
      rw [readSized_uint32 hk] at hread
      cases hread
    next k' b2 hread =>
      rw [readSized_uint32 hk] at hread
      cases hread
      split
      next hread' =>
        rw [readSized_uint32 hv] at hread'
        cases hread'
      next v' bN hread' =>
        rw [readSized_uint32 hv] at hread'
        cases hread'
        exact ih'

theorem binaryPairsListToBinary_eq {l : List (Key × Value)}
    (h : ∀ p ∈ bytesOf l, Encodable .binaryPairs p) :
    binaryPairsListToBinary l = some (encode .binaryPairs (bytesOf l)) := by
  rw [binaryPairsListToBinary, encode]
  suffices helement : binaryPairsListToBinaryElement l = some ((bytesOf l).flatMap fun p =>
      uint32 p.1.length ++ p.1 ++ uint32 p.2.length ++ p.2) by rw [helement]; rfl
  induction l with
  | nil => rfl
  | cons p l ih =>
    obtain ⟨k, v⟩ := p
    obtain ⟨hne, -, -⟩ := h (keyToBinary k, valueToBinary v) mem_cons_self
    have hlen : (keyToBinary k).length > 0 := List.length_pos_iff.mpr hne
    rw [binaryPairsListToBinaryElement, if_pos hlen,
      ih fun q hq => h q (mem_cons_of_mem _ hq)]
    simp [bytesOf]

/-! ## both formats -/

theorem keyValueNew_eq {l : List (Key × Value)} (h : ∀ p ∈ bytesOf l, Encodable format p) :
    keyValueNew l format = some (encode format (bytesOf l)) := by
  cases format with
  | textPairs => exact textPairsListToBinary_eq h
  | binaryPairs => exact binaryPairsListToBinary_eq h

/-- **The parser reads the pairs**, in either format. -/
theorem keyValueParse_encode (h : ∀ p ∈ l, Encodable format p) :
    keyValueParse (encode format l) = some (parsedMap l ∅) := by
  cases format with
  | binaryPairs => exact parse_binaryPairs h ∅
  | textPairs =>
    have hparse := parse_textPairs h ∅
    cases l with
    | nil => exact hparse
    | cons p l =>
      obtain ⟨k, v⟩ := p
      obtain ⟨hne, hk, -⟩ := h (k, v) mem_cons_self
      cases k with
      | nil => exact absurd rfl hne
      | cons b k =>
        have hb : b ≠ 0 := by
          rintro rfl
          exact hk mem_cons_self
        show (if b = 0 then _ else textPairsBinaryToMap _) = _
        rw [if_neg hb]
        exact hparse

theorem keyValueAppend_encode (h1 : ∀ p ∈ l1, Encodable format p) {l2 : List (Key × Value)}
    (h2 : ∀ p ∈ bytesOf l2, Encodable format p) :
    keyValueAppend l2 (encode format l1) = some (encode format (l1 ++ bytesOf l2)) := by
  have hnew := keyValueNew_eq h2
  cases format with
  | binaryPairs =>
    rw [encode, keyValueAppend, if_pos rfl, hnew]
    simp [encode]
  | textPairs =>
    cases l1 with
    | nil => exact hnew
    | cons p l1 =>
      obtain ⟨k, v⟩ := p
      obtain ⟨hne, hk, -⟩ := h1 (k, v) mem_cons_self
      cases k with
      | nil => exact absurd rfl hne
      | cons b k =>
        have hb : b ≠ 0 := by
          rintro rfl
          exact hk mem_cons_self
        show (if b = 0 then _ else (keyValueNew l2 .textPairs).map _) = _
        rw [if_neg hb, hnew]
        simp [encode, List.flatMap_def]

/-! ## the round trip -/

/-- Pairs of binaries as terms. -/
def binaries (l : List (Binary × Binary)) : List (Key × Value) :=
  l.map fun p => (.binary p.1, .binary p.2)

@[simp] theorem bytesOf_binaries (l : List (Binary × Binary)) : bytesOf (binaries l) = l := by
  rw [bytesOf, binaries, List.map_map]
  exact List.map_id l

theorem keyValueNew_binaries (h : ∀ p ∈ l, Encodable format p) :
    keyValueNew (binaries l) format = some (encode format l) := by
  have hbytes : ∀ p ∈ bytesOf (binaries l), Encodable format p := by simpa using h
  have hnew := keyValueNew_eq hbytes
  rwa [bytesOf_binaries] at hnew

/-- **Round trip**: encoded pairs are parsed to their map, to the same one in both
formats, and so are appended pairs. -/
theorem keyValue_roundTrip (format : Format) (l1 l2 : List (Binary × Binary))
    (h1 : ∀ p ∈ l1, Encodable format p) (h2 : ∀ p ∈ l2, Encodable format p) :
    ∃ b m, keyValueNew (binaries l1) format = some b ∧ keyValueParse b = some m ∧ IsMapOf l1 m ∧
      (∀ format', (∀ p ∈ l1, Encodable format' p) → ∃ b',
        keyValueNew (binaries l1) format' = some b' ∧ keyValueParse b' = some m) ∧
      ∃ b' m', keyValueAppend (binaries l2) b = some b' ∧ keyValueParse b' = some m' ∧
        IsMapOf (l1 ++ l2) m' ∧ ∃ b'', keyValueNew (binaries (l1 ++ l2)) format = some b'' ∧
          keyValueParse b'' = some m' := by
  have hboth : ∀ p ∈ l1 ++ l2, Encodable format p := by
    intro p hp
    rcases List.mem_append.mp hp with hp | hp
    · exact h1 p hp
    · exact h2 p hp
  have hbytes : ∀ p ∈ bytesOf (binaries l2), Encodable format p := by simpa using h2
  have happend := keyValueAppend_encode h1 hbytes
  rw [bytesOf_binaries] at happend
  have hmap : ∀ l, IsMapOf l (parsedMap l ∅) := fun l => isMapOf_parsedMap isMapOf_nil
  have hother : ∀ format', (∀ p ∈ l1, Encodable format' p) → ∃ b',
      keyValueNew (binaries l1) format' = some b' ∧ keyValueParse b' = some (parsedMap l1 ∅) :=
    fun format' h => ⟨_, keyValueNew_binaries h, keyValueParse_encode h⟩
  exact ⟨_, _, keyValueNew_binaries h1, keyValueParse_encode h1, hmap l1, hother,
    _, _, happend, keyValueParse_encode hboth, hmap (l1 ++ l2),
    _, keyValueNew_binaries hboth, keyValueParse_encode hboth⟩

/-- A key that occurs twice, and another one appended. -/
theorem keyValue_roundTrip_repeated :
    ∃ b b' m, keyValueNew (binaries [([1], [2]), ([1], [])]) .binaryPairs = some b ∧
      keyValueAppend (binaries [([3], [4])]) b = some b' ∧ keyValueParse b' = some m ∧
      Maps.find [1] m = some (.many [[2], []]) ∧ Maps.find [3] m = some (.one [4]) := by
  obtain ⟨b, -, hnew, -, -, -, b', m, happend, hparse, hmap, -⟩ :=
    keyValue_roundTrip .binaryPairs [([1], [2]), ([1], [])] [([3], [4])]
      (by simp [Encodable]) (by simp [Encodable])
  exact ⟨b, b', m, hnew, happend, hparse, hmap [1], hmap [3]⟩

end CloudI.RequestInfo
