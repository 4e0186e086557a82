import CloudI.Uuid.V1

/-!
# Uuid.Increment

`uuid:increment/1`.  The random bits of a UUID of version 3, 4 or 5 are put together as a binary of
122 bits and 6 zero bits, which is incremented as a little-endian number: its highest byte is the
last one, of which only the two highest bits are random.  The carry of the 15 bytes below goes to
the zero bits, so that it fails when these bytes are all 255, and never reaches the random bits of
the last byte.
-/

namespace CloudI.Uuid

open List
open Binary (fields_ofFields length_littleEndian value_lt)

/-- The segments of the other UUIDs. -/
def randomWidths : List Nat := [48, 4, 12, 2, 62]

/-- The random bits, filled with zero bits. -/
def gatheredWidths : List Nat := [48, 12, 62, 6]

/-- The `NewClockSeq` of a `ClockSeq`. -/
def nextClockSeq (clockSeq : Nat) : Nat := if clockSeq + 1 = 16384 then 0 else clockSeq + 1

/-- The first clause of `increment/1`: `none` where it does not match. -/
def incrementV1 (uuid : Binary) : Option Binary :=
  match uuid.fields v1Widths with
  | some [timeLow, timeMid, version, timeHigh, variant, clockSeq, nodeId] =>
      if version = 1 ∧ variant = 2 then
        some (.ofFields v1Widths
          [timeLow, timeMid, version, timeHigh, variant, nextClockSeq clockSeq, nodeId])
      else none
  | _ => none

/-- The `NewValue` of a `Value`. -/
def nextValue (value : Nat) : Nat :=
  if value + 1 = 5316911983139663491615228241121378304 then 1 else value + 1

/-- The body of the second clause of `increment/1`: `none` where the match of the new random bits
fails. -/
def incrementRandom (rand1 version rand2 rand3 : Nat) : Option Binary :=
  let value := Binary.littleValue (.ofFields gatheredWidths [rand1, rand2, rand3, 0])
  match (Binary.littleEndian 16 (nextValue value)).fields gatheredWidths with
  | some [newRand1, newRand2, newRand3, pad] =>
      if pad = 0 then some (.ofFields randomWidths [newRand1, version, newRand2, 2, newRand3])
      else none
  | _ => none

/-- `increment/1` of a UUID: `none` where it fails. -/
def increment (uuid : Binary) : Option Binary :=
  (incrementV1 uuid).orElse fun _ =>
    match uuid.fields randomWidths with
    | some [rand1, version, rand2, variant, rand3] =>
        if variant = 2 ∧ (version = 4 ∨ version = 5 ∨ version = 3) then
          incrementRandom rand1 version rand2 rand3
        else none
    | _ => none

/-! ## the number that is incremented -/

/-- A UUID of the version, with the variant of RFC 4122. -/
def HasVersion (version : Nat) (uuid : Binary) : Prop :=
  ∃ rand1 rand2 rand3, uuid.fields randomWidths = some [rand1, version, rand2, 2, rand3]

/-- The random bits of a UUID are the lower 15 bytes of a number and its highest byte. -/
def Counts (version : Nat) (last : Byte) (n : Nat) (uuid : Binary) : Prop :=
  n < 256 ^ 15 ∧ ∃ rand1 rand2 rand3,
    uuid.fields randomWidths = some [rand1, version, rand2, 2, rand3] ∧
    .ofFields gatheredWidths [rand1, rand2, rand3, 0] = Binary.littleEndian 15 n ++ [last]

variable {version n : Nat} {last : Byte} {uuid uuid' : Binary}

theorem Counts.hasVersion (h : Counts version last n uuid) : HasVersion version uuid := by
  obtain ⟨-, rand1, rand2, rand3, hfields, -⟩ := h
  exact ⟨rand1, rand2, rand3, hfields⟩

theorem exists_gathered {front : Binary} (hfront : front.length = 15) (last : Byte) :
    ∃ rand1 rand2 rand3, Binary.fields gatheredWidths (front ++ [last]) =
      some [rand1, rand2, rand3, last.val % 64] := by
  have hlen : 8 * (front ++ [last]).length = gatheredWidths.sum := by
    rw [length_append, hfront]
    rfl
  have hpad : Binary.value (front ++ [last]) / 2 ^ 0 % 2 ^ 6 = last.val % 64 := by
    rw [Binary.value, foldl_append, foldl_cons, foldl_nil]
    omega
  rw [Binary.fields, if_pos hlen, ← hpad]
  exact ⟨_, _, _, rfl⟩

/-- The random bits fit in their segments. -/
theorem fit_of_fields {rand1 rand2 rand3 variant : Nat}
    (h : uuid.fields randomWidths = some [rand1, version, rand2, variant, rand3]) :
    List.Forall₂ (fun i w => i < 2 ^ w) [rand1, rand2, rand3, 0] gatheredWidths := by
  obtain ⟨-, -, hfit⟩ := Binary.ofFields_of_fields h
  cases hfit with
  | cons hrand1 hfit =>
    cases hfit with
    | cons hversion hfit =>
      cases hfit with
      | cons hrand2 hfit =>
        cases hfit with
        | cons hvariant hfit =>
          cases hfit with
          | cons hrand3 hfit =>
            exact .cons hrand1 (.cons hrand2 (.cons hrand3 (.cons (Nat.two_pow_pos 6) .nil)))

/-- Every UUID of the version has a number. -/
theorem HasVersion.exists_counts (h : HasVersion version uuid) :
    ∃ last n, Counts version last n uuid := by
  obtain ⟨rand1, rand2, rand3, hfields⟩ := h
  obtain ⟨front, last, hconcat⟩ :=
    (eq_nil_or_concat' (Binary.ofFields gatheredWidths [rand1, rand2, rand3, 0])).resolve_left
      (cons_ne_nil _ _)
  have hlen : front.length = 15 := by
    have hsize := congrArg List.length hconcat
    rw [length_append, Binary.ofFields, Binary.length_bigEndian] at hsize
    have hsixteen : 15 + 1 = front.length + 1 := hsize
    exact (Nat.succ.inj hsixteen).symm
  have hfront : Binary.littleEndian 15 (Binary.littleValue front) = front :=
    hlen ▸ Binary.littleEndian_littleValue front
  refine ⟨last, Binary.littleValue front, ?_, rand1, rand2, rand3, hfields, ?_⟩
  · have hlt := value_lt front.reverse
    rwa [length_reverse, hlen] at hlt
  · rw [hfront, hconcat]

theorem Counts.last_mod (h : Counts version last n uuid) : last.val % 64 = 0 := by
  obtain ⟨-, rand1, rand2, rand3, hfields, hgathered⟩ := h
  have hread := fields_ofFields (by decide) (fit_of_fields hfields)
  obtain ⟨a, b, c, hconcat⟩ := exists_gathered (length_littleEndian 15 n) last
  rw [hgathered, hconcat, Option.some_inj] at hread
  simp only [List.cons.injEq] at hread
  exact hread.2.2.2.1

theorem Counts.unique (h : Counts version last n uuid) (h' : Counts version last' n' uuid) :
    last = last' ∧ n = n' := by
  obtain ⟨hn, rand1, rand2, rand3, hfields, hgathered⟩ := h
  obtain ⟨hn', rand1', rand2', rand3', hfields', hgathered'⟩ := h'
  cases hfields.symm.trans hfields'
  obtain ⟨hfront, hlast⟩ := append_inj (hgathered.symm.trans hgathered')
    ((length_littleEndian 15 n).trans (length_littleEndian 15 n').symm)
  refine ⟨singleton_inj.mp hlast, ?_⟩
  rw [← Binary.littleValue_littleEndian hn, hfront, Binary.littleValue_littleEndian hn']

theorem Counts.inj (h : Counts version last n uuid) (h' : Counts version last n uuid') :
    uuid = uuid' := by
  obtain ⟨-, rand1, rand2, rand3, hfields, hgathered⟩ := h
  obtain ⟨-, rand1', rand2', rand3', hfields', hgathered'⟩ := h'
  have hread := fields_ofFields (by decide) (fit_of_fields hfields)
  have hread' := fields_ofFields (by decide) (fit_of_fields hfields')
  rw [hgathered] at hread
  rw [hgathered'] at hread'
  cases hread.symm.trans hread'
  exact Binary.fields_inj hfields hfields'

theorem counts_ofFields (hversion : version < 2 ^ 4) (hn : n < 256 ^ 15)
    (h : Binary.fields gatheredWidths (Binary.littleEndian 15 n ++ [last]) =
      some [rand1, rand2, rand3, 0]) :
    Counts version last n (.ofFields randomWidths [rand1, version, rand2, 2, rand3]) := by
  obtain ⟨hgathered, -, hfit⟩ := Binary.ofFields_of_fields h
  refine ⟨hn, rand1, rand2, rand3, fields_ofFields (by decide) ?_, hgathered⟩
  cases hfit with
  | cons hrand1 hfit =>
    cases hfit with
    | cons hrand2 hfit =>
      cases hfit with
      | cons hrand3 hfit =>
        exact .cons hrand1 (.cons hversion (.cons hrand2 (.cons (by decide) (.cons hrand3 .nil))))

theorem exists_of_counts (hversion : version < 2 ^ 4) (hn : n < 256 ^ 15)
    (hlast : last.val % 64 = 0) : ∃ uuid, Counts version last n uuid := by
  obtain ⟨rand1, rand2, rand3, hread⟩ := exists_gathered (length_littleEndian 15 n) last
  rw [hlast] at hread
  exact ⟨_, counts_ofFields hversion hn hread⟩

/-! ## an increment -/

theorem nextValue_eq (hn : n < 256 ^ 15) (hlast : last.val % 64 = 0) :
    nextValue (last * 256 ^ 15 + n) = last * 256 ^ 15 + n + 1 := by
  refine if_neg fun htop => ?_
  have htop' : last.val * 256 ^ 15 + n + 1 = 4 * 256 ^ 15 := htop
  omega

/-- The second clause goes to the next number, and fails where the lower bytes are all 255. -/
theorem incrementRandom_eq (hversion : version < 2 ^ 4) (h : Counts version last n uuid)
    (hfields : uuid.fields randomWidths = some [rand1, version, rand2, 2, rand3]) :
    if n + 1 < 256 ^ 15 then ∃ uuid', incrementRandom rand1 version rand2 rand3 = some uuid' ∧
        Counts version last (n + 1) uuid'
    else incrementRandom rand1 version rand2 rand3 = none := by
  have hlast := h.last_mod
  obtain ⟨hn, rand1', rand2', rand3', hfields', hgathered⟩ := h
  cases hfields.symm.trans hfields'
  have hnext : Binary.littleEndian 16 (nextValue (last * 256 ^ 15 + n)) =
      Binary.littleEndian 15 (n + 1) ++ [Fin.ofNat 256 (last + (n + 1) / 256 ^ 15)] := by
    rw [nextValue_eq hn hlast, Nat.add_assoc, Binary.littleEndian_succ]
  obtain ⟨a, b, c, hread⟩ := exists_gathered (length_littleEndian 15 (n + 1))
    (Fin.ofNat 256 (last + (n + 1) / 256 ^ 15))
  have hresult : incrementRandom rand1 version rand2 rand3 =
      if (Fin.ofNat 256 (last + (n + 1) / 256 ^ 15)).val % 64 = 0
      then some (.ofFields randomWidths [a, version, b, 2, c]) else none := by
    rw [incrementRandom, hgathered, Binary.littleValue_concat hn, hnext, hread]
  rw [hresult]
  by_cases hcarry : n + 1 < 256 ^ 15
  · have hkept : Fin.ofNat 256 (last + (n + 1) / 256 ^ 15) = last := by
      rw [Nat.div_eq_of_lt hcarry, Nat.add_zero, Fin.ofNat_val_eq_self]
    rw [hkept] at hread ⊢
    rw [if_pos hcarry, if_pos hlast]
    rw [hlast] at hread
    exact ⟨_, rfl, counts_ofFields hversion hcarry hread⟩
  · have hover : (Fin.ofNat 256 (last + (n + 1) / 256 ^ 15)).val % 64 ≠ 0 := by
      have hone : (n + 1) / 256 ^ 15 = 1 := by omega
      rw [hone, Fin.val_ofNat]
      omega
    rw [if_neg hcarry, if_neg hover]

/-- The versions of the second clause. -/
def Random (version : Nat) : Prop := version = 4 ∨ version = 5 ∨ version = 3

theorem incrementV1_eq_none (hversion : version ≠ 1)
    (hfields : uuid.fields randomWidths = some [rand1, version, rand2, variant, rand3]) :
    incrementV1 uuid = none := by
  obtain ⟨-, hsize, -⟩ := Binary.ofFields_of_fields hfields
  rw [Binary.fields, if_pos hsize, Option.some_inj] at hfields
  -- the version is at the same place in both layouts
  have hplace : Binary.value uuid / 2 ^ 76 % 2 ^ 4 = version := by
    simp only [bitFields, randomWidths, List.cons.injEq] at hfields
    exact hfields.2.1
  have hsizeV1 : 8 * uuid.length = v1Widths.sum := hsize
  rw [incrementV1, Binary.fields, if_pos hsizeV1]
  refine if_neg fun hmatch => hversion ?_
  exact hplace.symm.trans hmatch.1

section

variable (hversion : Random version) (h : Counts version last n uuid)

include hversion h

/-- An increment goes to the next number. -/
theorem increment_eq : if n + 1 < 256 ^ 15 then ∃ uuid', increment uuid = some uuid' ∧
        Counts version last (n + 1) uuid'
    else increment uuid = none := by
  obtain ⟨rand1, rand2, rand3, hfields⟩ := h.hasVersion
  have hone : version ≠ 1 := by
    rcases hversion with rfl | rfl | rfl <;> decide
  have hlt : version < 2 ^ 4 := by
    rcases hversion with rfl | rfl | rfl <;> decide
  have hclause : increment uuid = incrementRandom rand1 version rand2 rand3 := by
    rw [increment, incrementV1_eq_none hone hfields, hfields]
    exact if_pos ⟨rfl, hversion⟩
  rw [hclause]
  exact incrementRandom_eq hlt h hfields

/-- What is said of an increment of a UUID: another one of its version, and of no other UUID. -/
def Increments (version : Nat) (uuid : Binary) : Prop :=
  ∃ uuid', increment uuid = some uuid' ∧ HasVersion version uuid' ∧ uuid' ≠ uuid ∧
    ∀ uuid₂, HasVersion version uuid₂ → increment uuid₂ = some uuid' → uuid₂ = uuid

/-- Repeated increments: `none` where one of them fails. -/
def incrementRepeat : Nat → Binary → Option Binary
  | 0, uuid => some uuid
  | n + 1, uuid => (increment uuid).bind (incrementRepeat n)

/-- Repeated increments get to each UUID of the version. -/
def VisitsAll (version : Nat) (uuid : Binary) : Prop :=
  ∀ uuid', HasVersion version uuid' → ∃ n, incrementRepeat n uuid = some uuid'

/-- An increment succeeds where the number has a next one. -/
theorem increments_iff : Increments version uuid ↔ n + 1 < 256 ^ 15 := by
  have hnext := increment_eq hversion h
  by_cases hn : n + 1 < 256 ^ 15
  · rw [if_pos hn] at hnext
    obtain ⟨uuid', hincrement, hcounts⟩ := hnext
    refine iff_of_true ⟨uuid', hincrement, hcounts.hasVersion, ?_, ?_⟩ hn
    · rintro rfl
      have hsame := (hcounts.unique h).2
      omega
    · intro uuid₂ hversion₂ hincrement₂
      obtain ⟨last₂, n₂, h₂⟩ := hversion₂.exists_counts
      have hnext₂ := increment_eq hversion h₂
      split at hnext₂
      · obtain ⟨uuid₃, hincrement₃, hcounts₃⟩ := hnext₂
        cases hincrement₃.symm.trans hincrement₂
        obtain ⟨rfl, hsucc⟩ := hcounts₃.unique hcounts
        cases hsucc
        exact h₂.inj h
      · cases hnext₂.symm.trans hincrement₂
  · rw [if_neg hn] at hnext
    refine iff_of_false ?_ hn
    rintro ⟨uuid', hincrement, -⟩
    cases hnext.symm.trans hincrement

/-- Repeated increments count up, as long as the lower 15 bytes have the number. -/
theorem incrementRepeat_iff (k : Nat) (uuid' : Binary) :
    incrementRepeat k uuid = some uuid' ↔ Counts version last (n + k) uuid' := by
  induction k generalizing n uuid with
  | zero =>
    rw [incrementRepeat, Option.some_inj]
    exact ⟨fun heq => heq ▸ h, fun h' => h.inj h'⟩
  | succ k ih =>
    have hnext := increment_eq hversion h
    rw [incrementRepeat, Nat.add_comm k, ← Nat.add_assoc]
    split at hnext
    · obtain ⟨uuid₂, hincrement, hcounts⟩ := hnext
      rw [hincrement]
      exact ih hcounts
    · rename_i hn
      rw [hnext]
      exact iff_of_false nofun fun h' => hn (Nat.lt_of_le_of_lt (Nat.le_add_right _ k) h'.1)

theorem not_visitsAll : ¬ VisitsAll version uuid := by
  intro hall
  have hlt : version < 2 ^ 4 := by
    rcases hversion with rfl | rfl | rfl <;> decide
  obtain ⟨other, hother, hne⟩ : ∃ other : Byte, other.val % 64 = 0 ∧ other ≠ last := by
    by_cases hzero : last = 0
    · exact ⟨64, rfl, by rw [hzero]; decide⟩
    · exact ⟨0, rfl, Ne.symm hzero⟩
  obtain ⟨uuid', hcounts⟩ := exists_of_counts (n := 0) hlt (by decide) hother
  obtain ⟨k, hrepeat⟩ := hall uuid' hcounts.hasVersion
  exact hne (hcounts.unique ((incrementRepeat_iff hversion h k uuid').mp hrepeat)).1

end

/-! ## the UUIDs without a next one -/

theorem value_add_one_eq_iff (b : Binary) :
    Binary.value b + 1 = 256 ^ b.length ↔ ∀ byte ∈ b, byte.val = 255 := by
  induction b with
  | nil => exact iff_of_true rfl nofun
  | cons x b ih =>
    have hlt := value_lt b
    have hx := x.isLt
    rw [forall_mem_cons, ← ih, Binary.value_cons, length_cons, Nat.pow_succ]
    constructor
    · intro h
      have htop : 255 ≤ x.val := by
        by_contra hlow
        have hmul : x.val * 256 ^ b.length ≤ 254 * 256 ^ b.length :=
          Nat.mul_le_mul_right _ (by omega)
        omega
      have hx255 : x.val = 255 := by omega
      rw [hx255] at h
      exact ⟨hx255, by omega⟩
    · rintro ⟨hx255, hb⟩
      rw [hx255]
      omega

theorem value_reverse_add_one_eq_iff (b : Binary) :
    Binary.littleValue b + 1 = 256 ^ b.length ↔ Binary.value b + 1 = 256 ^ b.length := by
  have hreverse := value_add_one_eq_iff b.reverse
  rw [length_reverse] at hreverse
  rw [Binary.littleValue, hreverse, value_add_one_eq_iff]
  exact forall_congr' fun byte => imp_congr mem_reverse Iff.rfl

/-- The random bits of the lower 15 bytes are all ones. -/
def AllOnes (rand1 rand2 rand3 : Nat) : Prop :=
  rand1 = 2 ^ 48 - 1 ∧ rand2 = 2 ^ 12 - 1 ∧ rand3 / 4 = 2 ^ 60 - 1

theorem Counts.allOnes_iff (h : Counts version last n uuid)
    (hfields : uuid.fields randomWidths = some [rand1, version, rand2, 2, rand3]) :
    AllOnes rand1 rand2 rand3 ↔ ¬ n + 1 < 256 ^ 15 := by
  obtain ⟨hn, rand1', rand2', rand3', hfields', hgathered⟩ := h
  cases hfields.symm.trans hfields'
  have hvalue : ofBitFields gatheredWidths [rand1, rand2, rand3, 0] =
      Binary.value (Binary.littleEndian 15 n) * 256 + last.val := by
    rw [← Binary.value_ofFields (by decide), hgathered, Binary.value, foldl_append]
    rfl
  have hreverse := value_reverse_add_one_eq_iff (Binary.littleEndian 15 n)
  rw [length_littleEndian, Binary.littleValue_littleEndian hn] at hreverse
  have hlt := value_lt (Binary.littleEndian 15 n)
  rw [length_littleEndian] at hlt
  have hlast := last.isLt
  cases fit_of_fields hfields with
  | cons hrand1 hfit =>
    cases hfit with
    | cons hrand2 hfit =>
      cases hfit with
      | cons hrand3 hfit =>
        simp only [gatheredWidths, ofBitFields, sum_cons, sum_nil,
          Nat.mod_eq_of_lt hrand1, Nat.mod_eq_of_lt hrand2, Nat.mod_eq_of_lt hrand3] at hvalue
        have hfull : ¬ n + 1 < 256 ^ 15 ↔ n + 1 = 256 ^ 15 := by omega
        rw [hfull, hreverse, AllOnes]
        omega

/-- An increment does what is said unless the random bits of the lower 15 bytes are all ones, and
its repetition never gets to all UUIDs of the version. -/
theorem increments_iff_not_allOnes (hversion : Random version)
    (hfields : uuid.fields randomWidths = some [rand1, version, rand2, 2, rand3]) :
    (Increments version uuid ↔ ¬ AllOnes rand1 rand2 rand3) ∧ ¬ VisitsAll version uuid := by
  obtain ⟨last, n, hcounts⟩ := HasVersion.exists_counts ⟨rand1, rand2, rand3, hfields⟩
  refine ⟨?_, not_visitsAll hversion hcounts⟩
  rw [increments_iff hversion hcounts, hcounts.allOnes_iff hfields, not_not]

/-- `ffffffff-ffff-4fff-bfff-ffffffffffff`. -/
def lastV4 : Binary :=
  [255, 255, 255, 255, 255, 255, 79, 255, 191, 255, 255, 255, 255, 255, 255, 255]

/-- `00000000-0000-4000-8000-000000000000`. -/
theorem increments_iff_not_allOnes_zero :
    (Increments 4 [0, 0, 0, 0, 0, 0, 64, 0, 128, 0, 0, 0, 0, 0, 0, 0] ↔ ¬ AllOnes 0 0 0) ∧
      ¬ VisitsAll 4 [0, 0, 0, 0, 0, 0, 64, 0, 128, 0, 0, 0, 0, 0, 0, 0] :=
  increments_iff_not_allOnes (.inl rfl) (by decide)

theorem not_increments_lastV4 : ¬ ∀ version uuid, Random version → HasVersion version uuid →
      Increments version uuid ∧ VisitsAll version uuid := by
  intro h
  have hlast : HasVersion 4 lastV4 := ⟨2 ^ 48 - 1, 2 ^ 12 - 1, 2 ^ 62 - 1, by decide⟩
  obtain ⟨⟨uuid', hincrement, -⟩, -⟩ := h 4 lastV4 (.inl rfl) hlast
  have hfails : increment lastV4 = none := by decide
  cases hfails.symm.trans hincrement

end CloudI.Uuid
