import CloudI.Erlang.Binary
import Mathlib.Data.List.Induction

/-!
# Uuid.Text

UUIDs as text: `uuid_to_string/2` and `string_to_uuid/1` of the `uuid` library.  The layouts are
written as they are in the source, one digit after the other.
-/

namespace CloudI.Uuid

open Fin (val_ofNat)

/-- `standard | nodash | list_standard | list_nodash | binary_standard | binary_nodash`. -/
inductive Format where
  | standard
  | nodash
  | listStandard
  | listNodash
  | binaryStandard
  | binaryNodash
  deriving DecidableEq

/-- A string, as a list of characters or as a binary. -/
inductive Text where
  | list (chars : List Nat)
  | binary (binary : Binary)
  deriving DecidableEq

/-! ## digits -/

def intToHex (i : Fin 16) : Nat := if i.val ≤ 9 then i + 48 else i - 10 + 97

def intToListPad (l : List Nat) : Nat → List Nat
  | 0 => l
  | count + 1 => intToListPad (48 :: l) count

/-- `int_to_hex_list/4`: `none` where it does not return, as there are more than `n` digits. -/
def intToHexListLoop (l : List Nat) (i count n : Nat) : Option (List Nat) :=
  if h : i < 16 then
    if count ≤ n then some (intToListPad (intToHex ⟨i, h⟩ :: l) (n - count)) else none
  else intToHexListLoop (intToHex (Fin.ofNat 16 i) :: l) (i / 16) (count + 1) n
termination_by i
decreasing_by omega

def intToHexList (i n : Nat) : Option (List Nat) := intToHexListLoop [] i 1 n

/-- `hex_to_int/1`: `none` where no clause matches. -/
def hexToInt (c : Nat) : Option Nat :=
  if 48 ≤ c ∧ c ≤ 57 then some (c - 48)
  else if 65 ≤ c ∧ c ≤ 70 then some (c - 65 + 10)
  else if 97 ≤ c ∧ c ≤ 102 then some (c - 97 + 10)
  else none

/-- `hex_to_int/2`. -/
def hexToInt2 (c1 c2 : Nat) : Option Nat :=
  (hexToInt c1).bind fun high => (hexToInt c2).map fun low => high * 16 + low

/-! ## layouts -/

/-- The digits with `$-` between their groups. -/
def standardString : List Nat → Option (List Nat)
  | n01 :: n02 :: n03 :: n04 :: n05 :: n06 :: n07 :: n08 ::
    n09 :: n10 :: n11 :: n12 ::
    n13 :: n14 :: n15 :: n16 ::
    n17 :: n18 :: n19 :: n20 ::
    n21 :: n22 :: n23 :: n24 :: n25 :: n26 :: n27 :: n28 :: n29 :: n30 :: n31 :: n32 :: [] =>
      some (n01 :: n02 :: n03 :: n04 :: n05 :: n06 :: n07 :: n08 :: 45 ::
        n09 :: n10 :: n11 :: n12 :: 45 ::
        n13 :: n14 :: n15 :: n16 :: 45 ::
        n17 :: n18 :: n19 :: n20 :: 45 ::
        n21 :: n22 :: n23 :: n24 :: n25 :: n26 :: n27 :: n28 :: n29 :: n30 :: n31 :: n32 :: [])
  | _ => none

/-- The digits without the `$-`. -/
def nodashString : List Nat → Option (List Nat)
  | n01 :: n02 :: n03 :: n04 :: n05 :: n06 :: n07 :: n08 ::
    n09 :: n10 :: n11 :: n12 ::
    n13 :: n14 :: n15 :: n16 ::
    n17 :: n18 :: n19 :: n20 ::
    n21 :: n22 :: n23 :: n24 :: n25 :: n26 :: n27 :: n28 :: n29 :: n30 :: n31 :: n32 :: [] =>
      some (n01 :: n02 :: n03 :: n04 :: n05 :: n06 :: n07 :: n08 ::
        n09 :: n10 :: n11 :: n12 ::
        n13 :: n14 :: n15 :: n16 ::
        n17 :: n18 :: n19 :: n20 ::
        n21 :: n22 :: n23 :: n24 :: n25 :: n26 :: n27 :: n28 :: n29 :: n30 :: n31 :: n32 :: [])
  | _ => none

/-- The digits of the first pattern of `string_to_uuid/1`, and of the third one. -/
def standardDigits : List Nat → Option (List Nat)
  | n01 :: n02 :: n03 :: n04 :: n05 :: n06 :: n07 :: n08 :: d1 ::
    n09 :: n10 :: n11 :: n12 :: d2 ::
    n13 :: n14 :: n15 :: n16 :: d3 ::
    n17 :: n18 :: n19 :: n20 :: d4 ::
    n21 :: n22 :: n23 :: n24 :: n25 :: n26 :: n27 :: n28 :: n29 :: n30 :: n31 :: n32 :: [] =>
      if d1 = 45 ∧ d2 = 45 ∧ d3 = 45 ∧ d4 = 45 then
        some (n01 :: n02 :: n03 :: n04 :: n05 :: n06 :: n07 :: n08 ::
          n09 :: n10 :: n11 :: n12 ::
          n13 :: n14 :: n15 :: n16 ::
          n17 :: n18 :: n19 :: n20 ::
          n21 :: n22 :: n23 :: n24 :: n25 :: n26 :: n27 :: n28 :: n29 :: n30 :: n31 :: n32 :: [])
      else none
  | _ => none

/-- `uuid_to_string/2`: `none` where it fails. -/
def uuidToString (uuid : Binary) (format : Format) : Option Text :=
  if uuid.length = 16 then
    (intToHexList uuid.value 32).bind fun digits =>
      match format with
      | .standard => (standardString digits).map .list
      | .nodash => some (.list digits)
      | .listStandard => (standardString digits).map .list
      | .listNodash => some (.list digits)
      | .binaryStandard => (standardString digits).map fun s => .binary (s.map (Fin.ofNat 256))
      | .binaryNodash => (nodashString digits).map fun s => .binary (s.map (Fin.ofNat 256))
  else none

/-- `string_to_uuid/32`, with the digits in a list: each byte of two of them. -/
def uuidOfDigits : List Nat → Option Binary
  | [] => some []
  | c1 :: c2 :: digits =>
      (hexToInt2 c1 c2).bind fun b => (uuidOfDigits digits).map fun bs => Fin.ofNat 256 b :: bs
  | _ => none

/-- The clauses of `string_to_uuid/1` for lists, or for binaries. -/
def charsToUuid (chars : List Nat) : Option Binary :=
  ((standardDigits chars).orElse fun _ => nodashString chars).bind uuidOfDigits

/-- `string_to_uuid/1`: `none` where it fails. -/
def stringToUuid : Text → Option Binary
  | .list chars => charsToUuid chars
  | .binary b => charsToUuid (b.map Fin.val)

/-! ## digits of bytes -/

/-- The hexadecimal digits of bytes. -/
def hexOf (b : Binary) : List Nat :=
  b.flatMap fun x => [intToHex (Fin.ofNat 16 (x.val / 16)), intToHex (Fin.ofNat 16 x.val)]

/-- A hexadecimal digit, of either case. -/
def IsHex (c : Nat) : Prop := (48 ≤ c ∧ c ≤ 57) ∨ (65 ≤ c ∧ c ≤ 70) ∨ (97 ≤ c ∧ c ≤ 102)

instance (c : Nat) : Decidable (IsHex c) := inferInstanceAs (Decidable (_ ∨ _))

/-- The lowercase form of a character. -/
def lowercase (c : Nat) : Nat := if 65 ≤ c ∧ c ≤ 90 then c + 32 else c

theorem hexToInt_intToHex (i : Fin 16) : hexToInt (intToHex i) = some i.val := by
  decide +revert

/-- What is read is a digit, and what is written of its value is its lowercase form. -/
theorem hexToInt_eq_some (h : hexToInt c = some i) :
    IsHex c ∧ i < 16 ∧ intToHex (Fin.ofNat 16 i) = lowercase c := by
  rw [hexToInt] at h
  split at h
  · rename_i hdigit
    cases h
    refine ⟨.inl hdigit, by omega, ?_⟩
    rw [intToHex, val_ofNat, if_pos (by omega), lowercase, if_neg (by omega)]
    omega
  · split at h
    · rename_i hupper
      cases h
      refine ⟨.inr (.inl hupper), by omega, ?_⟩
      rw [intToHex, val_ofNat, if_neg (by omega), lowercase, if_pos (by omega)]
      omega
    · split at h
      · rename_i hlower
        cases h
        refine ⟨.inr (.inr hlower), by omega, ?_⟩
        rw [intToHex, val_ofNat, if_neg (by omega), lowercase, if_neg (by omega)]
        omega
      · cases h

theorem isSome_hexToInt (h : IsHex c) : (hexToInt c).isSome := by
  rw [hexToInt]
  split
  · rfl
  · split
    · rfl
    · split
      · rfl
      · rw [IsHex] at h
        omega

theorem byte_halves (x : Byte) :
    Fin.ofNat 256 ((Fin.ofNat 16 (x.val / 16)).val * 16 + (Fin.ofNat 16 x.val).val) = x := by
  have hx := x.isLt
  refine Fin.ext ?_
  rw [val_ofNat, val_ofNat, val_ofNat]
  omega

theorem uuidOfDigits_hexOf (b : Binary) : uuidOfDigits (hexOf b) = some b := by
  induction b with
  | nil => rfl
  | cons x b ih =>
    rw [hexOf, List.flatMap_cons, ← hexOf, List.cons_append, List.singleton_append,
      uuidOfDigits, hexToInt2, hexToInt_intToHex, hexToInt_intToHex, ih]
    exact congrArg (fun y => some (y :: b)) (byte_halves x)

/-- The digits of the bytes that are read are the lowercase form of what was read. -/
theorem hexOf_of_uuidOfDigits (h : uuidOfDigits digits = some b) :
    hexOf b = digits.map lowercase ∧ digits.length = 2 * b.length ∧ ∀ c ∈ digits, IsHex c := by
  induction digits using uuidOfDigits.induct generalizing b with
  | case1 =>
    cases h
    exact ⟨rfl, rfl, nofun⟩
  | case2 c1 c2 digits ih =>
    rw [uuidOfDigits, hexToInt2] at h
    obtain ⟨byte, hbyte, hrest⟩ := Option.bind_eq_some_iff.mp h
    obtain ⟨high, hhigh, hmap⟩ := Option.bind_eq_some_iff.mp hbyte
    obtain ⟨low, hlow, rfl⟩ := Option.map_eq_some_iff.mp hmap
    obtain ⟨bs, hbs, rfl⟩ := Option.map_eq_some_iff.mp hrest
    obtain ⟨hhex1, hlt1, hwrite1⟩ := hexToInt_eq_some hhigh
    obtain ⟨hhex2, hlt2, hwrite2⟩ := hexToInt_eq_some hlow
    obtain ⟨hdigits, hlen, hhex⟩ := ih hbs
    refine ⟨?_, ?_, ?_⟩
    · have h1 : Fin.ofNat 16 ((Fin.ofNat 256 (high * 16 + low)).val / 16) = Fin.ofNat 16 high :=
        Fin.ext (by rw [val_ofNat, val_ofNat, val_ofNat]; omega)
      have h2 : Fin.ofNat 16 (Fin.ofNat 256 (high * 16 + low)).val = Fin.ofNat 16 low :=
        Fin.ext (by rw [val_ofNat, val_ofNat, val_ofNat]; omega)
      rw [hexOf, List.flatMap_cons, ← hexOf, hdigits, h1, h2, hwrite1, hwrite2]
      rfl
    · rw [List.length_cons, List.length_cons, List.length_cons, hlen]
      omega
    · exact List.forall_mem_cons.mpr ⟨hhex1, List.forall_mem_cons.mpr ⟨hhex2, hhex⟩⟩
  | case3 digits hne hcons =>
    rw [uuidOfDigits] at h
    · cases h
    · exact hne
    · exact hcons

theorem isSome_uuidOfDigits (h : ∀ c ∈ digits, IsHex c) (heven : 2 ∣ digits.length) :
    (uuidOfDigits digits).isSome := by
  induction digits using uuidOfDigits.induct with
  | case1 => rfl
  | case2 c1 c2 digits ih =>
    obtain ⟨h1, hrest⟩ := List.forall_mem_cons.mp h
    obtain ⟨h2, hrest⟩ := List.forall_mem_cons.mp hrest
    obtain ⟨high, hhigh⟩ := Option.isSome_iff_exists.mp (isSome_hexToInt h1)
    obtain ⟨low, hlow⟩ := Option.isSome_iff_exists.mp (isSome_hexToInt h2)
    have hlen : 2 ∣ digits.length := by
      rw [List.length_cons, List.length_cons] at heven
      omega
    rw [uuidOfDigits, hexToInt2, hhigh, hlow]
    exact Option.isSome_map.trans (ih hrest hlen)
  | case3 digits hne hcons =>
    cases digits with
    | nil => exact absurd rfl hne
    | cons c digits =>
      cases digits with
      | nil =>
        rw [List.length_singleton] at heven
        omega
      | cons c2 digits => exact absurd rfl (hcons c c2 digits)

/-! ## digits of a number -/

/-- The lowest `n` digits of a number. -/
def hexDigits : Nat → Nat → List Nat
  | 0, _ => []
  | n + 1, i => hexDigits n (i / 16) ++ [intToHex (Fin.ofNat 16 i)]

theorem hexDigits_zero (n : Nat) : hexDigits n 0 = List.replicate n 48 := by
  induction n with
  | zero => rfl
  | succ n ih =>
    rw [hexDigits, Nat.zero_div, ih, List.replicate_succ']
    rfl

theorem intToListPad_eq (l : List Nat) (count : Nat) :
    intToListPad l count = List.replicate count 48 ++ l := by
  induction count generalizing l with
  | zero => rfl
  | succ count ih =>
    rw [intToListPad, ih, List.replicate_succ', List.append_assoc, List.singleton_append]

/-- The digits are put in front, the lowest ones first, and filled with zeros. -/
theorem intToHexListLoop_eq (hi : i < 16 ^ (m + 1)) (hcount : count + m = n) (l : List Nat) :
    intToHexListLoop l i count n = some (hexDigits (m + 1) i ++ l) := by
  induction m generalizing i count l with
  | zero =>
    have hsmall : i < 16 := hi
    have hpad : n - count = 0 := by omega
    have hdigit : (⟨i, hsmall⟩ : Fin 16) = Fin.ofNat 16 i :=
      Fin.ext (Nat.mod_eq_of_lt hsmall).symm
    rw [intToHexListLoop, dif_pos hsmall, if_pos (by omega), hpad, hdigit]
    rfl
  | succ m ih =>
    rw [intToHexListLoop]
    by_cases hsmall : i < 16
    · have hpad : n - count = m + 1 := by omega
      have hdigit : (⟨i, hsmall⟩ : Fin 16) = Fin.ofNat 16 i :=
        Fin.ext (Nat.mod_eq_of_lt hsmall).symm
      rw [dif_pos hsmall, if_pos (by omega), hpad, hdigit, intToListPad_eq, hexDigits,
        Nat.div_eq_of_lt hsmall, hexDigits_zero, List.append_assoc, List.singleton_append]
    · have hdiv : i / 16 < 16 ^ (m + 1) :=
        Nat.div_lt_of_lt_mul (by rwa [Nat.pow_succ, Nat.mul_comm] at hi)
      have hstep : hexDigits (m + 1 + 1) i =
          hexDigits (m + 1) (i / 16) ++ [intToHex (Fin.ofNat 16 i)] := rfl
      rw [dif_neg hsmall, ih hdiv (by omega), hstep, List.append_assoc, List.singleton_append]

/-- The digits of the number of bytes are those of the bytes. -/
theorem hexDigits_value (b : Binary) : hexDigits (2 * b.length) b.value = hexOf b := by
  induction b using List.reverseRecOn with
  | nil => rfl
  | append_singleton b x ih =>
    have hvalue : Binary.value (b ++ [x]) = Binary.value b * 256 + x.val := by
      rw [Binary.value, List.foldl_append]
      rfl
    have hx := x.isLt
    have hhigh : Fin.ofNat 16 ((Binary.value b * 256 + x.val) / 16) = Fin.ofNat 16 (x.val / 16) :=
      Fin.ext (by rw [val_ofNat, val_ofNat]; omega)
    have hlow : Fin.ofNat 16 (Binary.value b * 256 + x.val) = Fin.ofNat 16 x.val :=
      Fin.ext (by rw [val_ofNat, val_ofNat]; omega)
    have hrest : (Binary.value b * 256 + x.val) / 16 / 16 = Binary.value b := by omega
    rw [List.length_append, List.length_singleton, Nat.mul_add, hvalue]
    rw [hexDigits, hexDigits, hrest, ih, hhigh, hlow, hexOf, hexOf, List.flatMap_append,
      List.append_assoc]
    rfl

theorem intToHexList_value (h : uuid.length = 16) :
    intToHexList uuid.value 32 = some (hexOf uuid) := by
  have hlt := Binary.value_lt uuid
  rw [h] at hlt
  have hdigits := hexDigits_value uuid
  rw [h] at hdigits
  rw [intToHexList, intToHexListLoop_eq (m := 31) (hlt.trans_eq (by decide)) rfl, List.append_nil]
  exact congrArg some hdigits

/-! ## layouts and digits -/

/-- Five groups of digits with `$-` between them. -/
def Groups (s ds : List Nat) : Prop :=
  ∃ a b c d e, s = a ++ 45 :: b ++ 45 :: c ++ 45 :: d ++ 45 :: e ∧ ds = a ++ b ++ c ++ d ++ e ∧
    a.length = 8 ∧ b.length = 4 ∧ c.length = 4 ∧ d.length = 4 ∧ e.length = 12

theorem standardDigits_iff : standardDigits s = some ds ↔ Groups s ds := by
  constructor
  · intro h
    -- a list of another length is a contradiction
    iterate 36 (rcases s with _ | ⟨_, s⟩; · cases h)
    rcases s with _ | ⟨_, s⟩
    · obtain ⟨⟨rfl, rfl, rfl, rfl⟩, h⟩ := Option.ite_none_right_eq_some.mp h
      cases h
      exact ⟨[_, _, _, _, _, _, _, _], [_, _, _, _], [_, _, _, _], [_, _, _, _],
        [_, _, _, _, _, _, _, _, _, _, _, _], rfl, rfl, rfl, rfl, rfl, rfl, rfl⟩
    · cases h
  · rintro ⟨a, b, c, d, e, rfl, rfl, ha, hb, hc, hd, he⟩
    match a, ha, b, hb, c, hc, d, hd, e, he with
    | [_, _, _, _, _, _, _, _], _, [_, _, _, _], _, [_, _, _, _], _, [_, _, _, _], _,
        [_, _, _, _, _, _, _, _, _, _, _, _], _ => rfl

theorem Groups.standardString (h : Groups s ds) : standardString ds = some s := by
  obtain ⟨a, b, c, d, e, rfl, rfl, ha, hb, hc, hd, he⟩ := h
  match a, ha, b, hb, c, hc, d, hd, e, he with
  | [_, _, _, _, _, _, _, _], _, [_, _, _, _], _, [_, _, _, _], _, [_, _, _, _], _,
      [_, _, _, _, _, _, _, _, _, _, _, _], _ => rfl

theorem nodashString_eq : nodashString s = if s.length = 32 then some s else none := by
  iterate 32 (rcases s with _ | ⟨_, s⟩; · rfl)
  rcases s with _ | ⟨_, s⟩
  · rfl
  · rw [if_neg (by simp)]
    rfl

theorem nodashString_of_length (s : List Nat) (h : s.length = 32) : nodashString s = some s := by
  rw [nodashString_eq, if_pos h]

theorem nodashString_eq_some : nodashString s = some ds ↔ s.length = 32 ∧ ds = s := by
  rw [nodashString_eq, Option.ite_none_right_eq_some, Option.some_inj, eq_comm (a := s)]

theorem Groups.length (h : Groups s ds) : s.length = 36 ∧ ds.length = 32 := by
  obtain ⟨a, b, c, d, e, rfl, rfl, ha, hb, hc, hd, he⟩ := h
  simp only [List.length_append, List.length_cons, ha, hb, hc, hd, he, and_self]

theorem Groups.mem_iff (h : Groups s ds) : x ∈ s ↔ x ∈ ds ∨ x = 45 := by
  obtain ⟨a, b, c, d, e, rfl, rfl, -⟩ := h
  simp only [List.mem_append, List.mem_cons]
  tauto

theorem Groups.map (h : Groups s ds) (f : Nat → Nat) (hf : f 45 = 45) :
    Groups (s.map f) (ds.map f) := by
  obtain ⟨a, b, c, d, e, rfl, rfl, ha, hb, hc, hd, he⟩ := h
  refine ⟨a.map f, b.map f, c.map f, d.map f, e.map f, ?_, ?_, ?_⟩
  · simp only [List.map_append, List.map_cons, hf]
  · simp only [List.map_append]
  · simp only [List.length_map, ha, hb, hc, hd, he, and_self]

theorem exists_groups (h : ds.length = 32) : ∃ s, Groups s ds := by
  have hsplit : ds.take 8 ++ (ds.drop 8).take 4 ++ (ds.drop 12).take 4 ++ (ds.drop 16).take 4 ++
      ds.drop 20 = ds := by
    rw [← List.take_add, ← List.take_add, ← List.take_add, List.take_append_drop]
  refine ⟨_, ds.take 8, (ds.drop 8).take 4, (ds.drop 12).take 4, (ds.drop 16).take 4, ds.drop 20,
    rfl, hsplit.symm, ?_⟩
  simp only [List.length_take, List.length_drop, h]
  decide

theorem charsToUuid_eq_some : charsToUuid s = some uuid ↔
    ∃ ds, (Groups s ds ∨ s.length = 32 ∧ ds = s) ∧ uuidOfDigits ds = some uuid := by
  rw [charsToUuid, Option.bind_eq_some_iff]
  refine exists_congr fun ds => and_congr_left fun _ => ?_
  rw [← standardDigits_iff, ← nodashString_eq_some]
  cases hstandard : standardDigits s with
  | some ds' =>
    have hnot : ¬ nodashString s = some ds := fun h => by
      have hlen := (standardDigits_iff.mp hstandard).length.1
      rw [(nodashString_eq_some.mp h).1] at hlen
      cases hlen
    exact (or_iff_left hnot).symm
  | none => exact (or_iff_right nofun).symm

/-! ## texts -/

/-- The lowercase form of a string. -/
def Text.lowercase : Text → Text
  | .list chars => .list (chars.map Uuid.lowercase)
  | .binary b => .binary (b.map fun x => Fin.ofNat 256 (Uuid.lowercase x.val))

/-- The characters of a string. -/
def Text.chars : Text → List Nat
  | .list chars => chars
  | .binary b => b.map Fin.val

/-- The format of a string: whether it has a `$-`. -/
def Text.format (text : Text) : Format :=
  match text with
  | .list _ => if 45 ∈ text.chars then .standard else .nodash
  | .binary _ => if 45 ∈ text.chars then .binaryStandard else .binaryNodash

/-- 32 hexadecimal digits, or groups of 8, 4, 4, 4 and 12 of them with `$-` between. -/
def WellFormed (s : List Nat) : Prop :=
  ∃ ds, (Groups s ds ∨ s.length = 32 ∧ ds = s) ∧ ∀ c ∈ ds, IsHex c

theorem stringToUuid_eq (text : Text) : stringToUuid text = charsToUuid text.chars := by
  cases text with
  | list chars => rfl
  | binary b => rfl

theorem uuidToString_eq (h : uuid.length = 16) (format : Format) :
    uuidToString uuid format = match format with
      | .standard => (standardString (hexOf uuid)).map .list
      | .nodash => some (.list (hexOf uuid))
      | .listStandard => (standardString (hexOf uuid)).map .list
      | .listNodash => some (.list (hexOf uuid))
      | .binaryStandard => (standardString (hexOf uuid)).map fun s =>
        .binary (s.map (Fin.ofNat 256))
      | .binaryNodash => (nodashString (hexOf uuid)).map fun s =>
        .binary (s.map (Fin.ofNat 256)) := by
  rw [uuidToString, if_pos h, intToHexList_value h]
  rfl

theorem map_val_ofNat {s : List Nat} (h : ∀ c ∈ s, c < 256) :
    (s.map (Fin.ofNat 256)).map Fin.val = s := by
  rw [List.map_map]
  exact (List.map_congr_left fun c hc => Nat.mod_eq_of_lt (h c hc)).trans (List.map_id s)

theorem binary_lowercase (b : Binary) :
    .binary (((Text.binary b).chars.map lowercase).map (Fin.ofNat 256)) =
      (Text.binary b).lowercase := by
  rw [Text.chars, List.map_map, List.map_map]
  rfl

theorem IsHex.lt (h : IsHex c) : c < 256 ∧ c ≠ 45 := by
  rw [IsHex] at h
  omega

/-- What is written of a UUID is read back. -/
theorem stringToUuid_uuidToString {uuid : Binary} (h : uuid.length = 16) (format : Format) :
    ∃ text, uuidToString uuid format = some text ∧ stringToUuid text = some uuid := by
  have hread := uuidOfDigits_hexOf uuid
  obtain ⟨-, hlen, hhex⟩ := hexOf_of_uuidOfDigits hread
  rw [h] at hlen
  obtain ⟨s, hgroups⟩ := exists_groups hlen
  have hwrite := hgroups.standardString
  have hnodash := nodashString_of_length _ hlen
  have hstandard : charsToUuid s = some uuid :=
    charsToUuid_eq_some.mpr ⟨_, .inl hgroups, hread⟩
  have hplain : charsToUuid (hexOf uuid) = some uuid :=
    charsToUuid_eq_some.mpr ⟨_, .inr ⟨hlen, rfl⟩, hread⟩
  have hbytes : (s.map (Fin.ofNat 256)).map Fin.val = s := map_val_ofNat fun c hc => by
    rcases hgroups.mem_iff.mp hc with hc | rfl
    · exact (hhex c hc).lt.1
    · decide
  have hplainBytes : ((hexOf uuid).map (Fin.ofNat 256)).map Fin.val = hexOf uuid :=
    map_val_ofNat fun c hc => (hhex c hc).lt.1
  rw [uuidToString_eq h, hwrite, hnodash]
  cases format with
  | nodash => exact ⟨_, rfl, hplain⟩
  | listNodash => exact ⟨_, rfl, hplain⟩
  | binaryStandard => exact ⟨_, rfl, (congrArg charsToUuid hbytes).trans hstandard⟩
  | binaryNodash => exact ⟨_, rfl, (congrArg charsToUuid hplainBytes).trans hplain⟩
  | _ => exact ⟨_, rfl, hstandard⟩

/-- What is written of a UUID that was read is the lowercase form of what was read. -/
theorem uuidToString_stringToUuid (h : stringToUuid text = some uuid) :
    uuidToString uuid text.format = some text.lowercase := by
  rw [stringToUuid_eq] at h
  obtain ⟨ds, hlayout, hread⟩ := charsToUuid_eq_some.mp h
  obtain ⟨hwrite, hlen, hhex⟩ := hexOf_of_uuidOfDigits hread
  have hdigits : ds.length = 32 := by
    rcases hlayout with hgroups | ⟨hs, rfl⟩
    · exact hgroups.length.2
    · exact hs
  have hsixteen : uuid.length = 16 := by omega
  rw [uuidToString_eq hsixteen, hwrite]
  rcases hlayout with hgroups | ⟨-, rfl⟩
  · have hstandard : standardString (ds.map lowercase) = some (text.chars.map lowercase) :=
      (hgroups.map lowercase rfl).standardString
    have hdash : 45 ∈ text.chars := hgroups.mem_iff.mpr (.inr rfl)
    rw [hstandard]
    cases text with
    | list chars =>
      rw [Text.format, if_pos hdash]
      rfl
    | binary b =>
      rw [Text.format, if_pos hdash]
      exact congrArg some (binary_lowercase b)
  · have hnot : 45 ∉ text.chars := fun hmem => (hhex 45 hmem).lt.2 rfl
    rw [nodashString_of_length _ (by rw [List.length_map, hdigits])]
    cases text with
    | list chars =>
      rw [Text.format, if_neg hnot]
      rfl
    | binary b =>
      rw [Text.format, if_neg hnot]
      exact congrArg some (binary_lowercase b)

theorem isSome_stringToUuid_iff (text : Text) :
    (stringToUuid text).isSome ↔ WellFormed text.chars := by
  rw [stringToUuid_eq, Option.isSome_iff_exists]
  constructor
  · rintro ⟨uuid, h⟩
    obtain ⟨ds, hlayout, hread⟩ := charsToUuid_eq_some.mp h
    exact ⟨ds, hlayout, (hexOf_of_uuidOfDigits hread).2.2⟩
  · rintro ⟨ds, hlayout, hhex⟩
    have hdigits : ds.length = 32 := by
      rcases hlayout with hgroups | ⟨hs, rfl⟩
      · exact hgroups.length.2
      · exact hs
    obtain ⟨uuid, hread⟩ := Option.isSome_iff_exists.mp
      (isSome_uuidOfDigits hhex (hdigits ▸ by decide))
    exact ⟨uuid, charsToUuid_eq_some.mpr ⟨ds, hlayout, hread⟩⟩

/-- Texts of UUIDs: what is written is read back, what is read is written again in lowercase, and
what is read is well formed. -/
theorem text_round_trip : (∀ uuid : Binary, uuid.length = 16 → ∀ format,
      ∃ text, uuidToString uuid format = some text ∧ stringToUuid text = some uuid) ∧
    (∀ text uuid, stringToUuid text = some uuid →
      uuidToString uuid text.format = some text.lowercase) ∧
    ∀ text, stringToUuid text = none ↔ ¬ WellFormed text.chars := by
  refine ⟨fun uuid h format => stringToUuid_uuidToString h format,
    fun text uuid h => uuidToString_stringToUuid h, fun text => ?_⟩
  rw [← isSome_stringToUuid_iff, Option.not_isSome_iff_eq_none]

/-- `baadbeef-0123-4567-89ab-cdefdec00ffe`. -/
def letters : Binary := [186, 173, 190, 239, 1, 35, 69, 103, 137, 171, 205, 239, 222, 192, 15, 254]

/-- A text of the UUID with letters of both cases. -/
def mixedCase : Text :=
  .list ("BAADbeef-0123-4567-89ab-CDEFdec00ffe".toList.map Char.toNat)

theorem text_round_trip_letters :
    (∃ text, uuidToString letters .binaryStandard = some text ∧
      stringToUuid text = some letters) ∧
    stringToUuid mixedCase = some letters ∧
      uuidToString letters mixedCase.format = some mixedCase.lowercase := by
  have hread : stringToUuid mixedCase = some letters := by decide +kernel
  exact ⟨text_round_trip.1 letters rfl .binaryStandard, hread,
    text_round_trip.2.1 mixedCase letters hread⟩

end CloudI.Uuid
