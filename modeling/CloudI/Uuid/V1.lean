import CloudI.Erlang.BitFields
import Mathlib.Data.Int.ModEq
import Mathlib.Tactic.Positivity

/-!
# Uuid.V1

Version 1 UUIDs of the `uuid` library: the time in microseconds, which the generator keeps
increasing, and the segments it is spread over.  The time has 60 bits, in units of a tenth of a
microsecond, so that the ids of one generator repeat when its times differ by `2 ^ 59`.
-/

namespace CloudI.Uuid

open List

/-- `#uuid_state{}` with the timestamp type `erlang_timestamp`. -/
structure State where
  nodeId : Nat
  clockSeq : Nat
  timestampLast : Int
  deriving DecidableEq

/-- The bit string of an id, as the values of its segments. -/
structure Id where
  timeLow : Nat
  timeMid : Nat
  version : Nat
  timeHigh : Nat
  variant : Nat
  clockSeq : Nat
  nodeId : Nat
  deriving DecidableEq

/-- `timestamp/2` with the reading of the clock. -/
def timestamp (timestampNext timestampLast : Int) : Int :=
  if timestampNext > timestampLast then timestampNext else timestampLast + 1

/-- The tenths of a microsecond between the two epochs. -/
def epochOffset : Int := 0x01b21dd213814000

/-- `Time` in 60 bits. -/
def time60 (microSeconds : Int) : Nat := ((microSeconds * 10 + epochOffset) % 2 ^ 60).toNat

variable (state : State)

/-- The id in `get_v1/1`. -/
def idAt (microSeconds : Int) : Id where
  timeLow := time60 microSeconds % 2 ^ 32
  timeMid := time60 microSeconds / 2 ^ 32 % 2 ^ 16
  version := 1
  timeHigh := time60 microSeconds / 2 ^ 48
  variant := 2
  clockSeq := state.clockSeq
  nodeId := state.nodeId

/-- `get_v1/1` with the reading of the clock. -/
def getV1 (clock : Int) (state : State) : Id × State :=
  let microSeconds := timestamp clock state.timestampLast
  (idAt state microSeconds, { state with timestampLast := microSeconds })

/-- The segments of a version 1 UUID. -/
def v1Widths : List Nat := [32, 16, 4, 12, 2, 14, 48]

/-- The binary of an id. -/
def Id.binary (i : Id) : Binary :=
  .ofFields v1Widths
    [i.timeLow, i.timeMid, i.version, i.timeHigh, i.variant, i.clockSeq, i.nodeId]

/-- `get_v1_time/1` of a UUID: `none` where it fails. -/
def getV1Time (value : Binary) : Option Int :=
  match value.fields v1Widths with
  | some [timeLow, timeMid, version, timeHigh, variant, _, _] =>
      if version = 1 ∧ variant = 2 then
        some (((ofBitFields [12, 16, 32] [timeHigh, timeMid, timeLow] : Nat) - epochOffset).tdiv 10)
      else none
  | _ => none

/-! ## ids and times -/

/-- What of a time an id has. -/
def tick (microSeconds : Int) : Int := microSeconds % 2 ^ 59

theorem time60_eq_iff {a b : Int} : time60 a = time60 b ↔ tick a = tick b := by
  have hpos : ∀ x : Int, 0 ≤ (x * 10 + epochOffset) % 2 ^ 60 := fun x =>
    Int.emod_nonneg _ (by positivity)
  have hcoprime : Int.gcd (2 ^ 59) 5 = 1 := by decide
  have hdiff : b * 10 + epochOffset - (a * 10 + epochOffset) = 2 * (5 * (b - a)) := by ring
  calc time60 a = time60 b ↔ (a * 10 + epochOffset) % 2 ^ 60 = (b * 10 + epochOffset) % 2 ^ 60 := by
        rw [time60, time60, ← Int.ofNat_inj, Int.toNat_of_nonneg (hpos a),
          Int.toNat_of_nonneg (hpos b)]
    _ ↔ (2 : Int) * 2 ^ 59 ∣ 2 * (5 * (b - a)) := by
        rw [← hdiff]
        exact Int.modEq_iff_dvd
    _ ↔ (2 : Int) ^ 59 ∣ 5 * (b - a) := Int.mul_dvd_mul_iff_left (by decide)
    _ ↔ (2 : Int) ^ 59 ∣ b - a :=
        ⟨fun h => Int.dvd_of_dvd_mul_right_of_gcd_one h hcoprime, fun h => h.mul_left 5⟩
    _ ↔ tick a = tick b := Int.modEq_iff_dvd.symm

theorem segments_eq (n : Nat) :
    n = (n / 2 ^ 48 * 2 ^ 16 + n / 2 ^ 32 % 2 ^ 16) * 2 ^ 32 + n % 2 ^ 32 := by
  have hhigh : n / 2 ^ 48 = n / 2 ^ 32 / 2 ^ 16 := by rw [Nat.div_div_eq_div_mul, ← Nat.pow_add]
  rw [hhigh, Nat.div_add_mod', Nat.div_add_mod']

theorem idAt_eq_iff {state : State} {a b : Int} :
    idAt state a = idAt state b ↔ tick a = tick b := by
  rw [← time60_eq_iff]
  constructor
  · intro h
    have hlow : time60 a % 2 ^ 32 = time60 b % 2 ^ 32 := congrArg Id.timeLow h
    have hmid : time60 a / 2 ^ 32 % 2 ^ 16 = time60 b / 2 ^ 32 % 2 ^ 16 := congrArg Id.timeMid h
    have hhigh : time60 a / 2 ^ 48 = time60 b / 2 ^ 48 := congrArg Id.timeHigh h
    rw [segments_eq (time60 a), segments_eq (time60 b), hlow, hmid, hhigh]
  · intro h
    rw [idAt, h, idAt]

theorem lt_timestamp (clock last : Int) : last < timestamp clock last := by
  unfold timestamp
  split <;> omega

/-! ## one id after the other -/

/-- The times of ids that are made one after the other, with the readings of the clock. -/
def timestamps (last : Int) : List Int → List Int
  | [] => []
  | clock :: clocks => timestamp clock last :: timestamps (timestamp clock last) clocks

theorem timestamps_increase (last : Int) (clocks : List Int) :
    (∀ t ∈ timestamps last clocks, last < t) ∧ (timestamps last clocks).Pairwise (· < ·) := by
  induction clocks generalizing last with
  | nil => exact ⟨nofun, .nil⟩
  | cons clock clocks ih =>
    have hlt := lt_timestamp clock last
    obtain ⟨habove, hincrease⟩ := ih (timestamp clock last)
    refine ⟨fun t ht => ?_, .cons habove hincrease⟩
    rcases mem_cons.mp ht with rfl | ht
    · exact hlt
    · exact hlt.trans (habove t ht)

/-- The ids of a list of calls with the readings of the clock, each with the state after it. -/
def getV1Run (state : State) : List Int → List (Binary × State)
  | [] => []
  | clock :: clocks =>
      ((getV1 clock state).1.binary, (getV1 clock state).2) :: getV1Run (getV1 clock state).2 clocks

/-- The time that was used for an id. -/
def used (issued : Binary × State) : Int := issued.2.timestampLast

theorem getV1Run_eq (clocks : List Int) :
    getV1Run state clocks = (timestamps state.timestampLast clocks).map fun t =>
      ((idAt state t).binary, { state with timestampLast := t }) := by
  induction clocks generalizing state with
  | nil => rfl
  | cons clock clocks ih =>
    rw [getV1Run, ih, timestamps, map_cons]
    rfl

theorem map_used_getV1Run (clocks : List Int) :
    (getV1Run state clocks).map used = timestamps state.timestampLast clocks := by
  rw [getV1Run_eq, map_map]
  exact map_id _

/-! ## what is read of an id -/

theorem time60_lt (t : Int) : time60 t < 2 ^ 60 := by
  have hlt : (t * 10 + epochOffset) % 2 ^ 60 < 2 ^ 60 := Int.emod_lt_of_pos _ (by decide)
  rw [time60]
  omega

theorem fields_idAt (t : Int) :
    (idAt state t).binary.fields v1Widths = some [time60 t % 2 ^ 32, time60 t / 2 ^ 32 % 2 ^ 16, 1,
      time60 t / 2 ^ 48, 2, state.clockSeq % 2 ^ 14, state.nodeId % 2 ^ 48] := by
  have hcut : (idAt state t).binary = .ofFields v1Widths [time60 t % 2 ^ 32,
      time60 t / 2 ^ 32 % 2 ^ 16, 1, time60 t / 2 ^ 48, 2, state.clockSeq % 2 ^ 14,
      state.nodeId % 2 ^ 48] := by
    simp only [Id.binary, idAt, Binary.ofFields, v1Widths, ofBitFields, Nat.mod_mod]
  have hhigh : time60 t / 2 ^ 48 < 2 ^ 12 := Nat.div_lt_of_lt_mul (time60_lt t)
  rw [hcut]
  refine Binary.fields_ofFields (by decide) ?_
  exact .cons (Nat.mod_lt _ (by decide)) (.cons (Nat.mod_lt _ (by decide)) (.cons (by decide)
    (.cons hhigh (.cons (by decide) (.cons (Nat.mod_lt _ (by decide))
      (.cons (Nat.mod_lt _ (by decide)) .nil))))))

/-- The three fields of the time are put together again. -/
theorem getV1Time_idAt (t : Int) :
    getV1Time (idAt state t).binary = some ((time60 t - epochOffset).tdiv 10) := by
  have hhigh : time60 t / 2 ^ 48 % 2 ^ 12 = time60 t / 2 ^ 48 :=
    Nat.mod_eq_of_lt (Nat.div_lt_of_lt_mul (time60_lt t))
  have hfields : bitFields [12, 16, 32] (time60 t) =
      [time60 t / 2 ^ 48, time60 t / 2 ^ 32 % 2 ^ 16, time60 t % 2 ^ 32] := by
    simp only [bitFields, sum_cons, sum_nil, Nat.reduceAdd, Nat.pow_zero, Nat.div_one,
      hhigh]
  have hjoin : ofBitFields [12, 16, 32]
      [time60 t / 2 ^ 48, time60 t / 2 ^ 32 % 2 ^ 16, time60 t % 2 ^ 32] = time60 t :=
    hfields ▸ ofBitFields_bitFields (time60_lt t)
  rw [getV1Time, fields_idAt]
  exact (if_pos ⟨rfl, rfl⟩).trans
    (congrArg (fun n : Nat => some (((n : Int) - epochOffset).tdiv 10)) hjoin)

/-- A version 1 UUID, with the variant of RFC 4122. -/
def IsV1 (uuid : Binary) : Prop :=
  ∃ timeLow timeMid timeHigh clockSeq nodeId,
    uuid.fields v1Widths = some [timeLow, timeMid, 1, timeHigh, 2, clockSeq, nodeId]

/-- The 60 bits of an id have the whole time. -/
def InRange (t : Int) : Prop := 0 ≤ t * 10 + epochOffset ∧ t * 10 + epochOffset < 2 ^ 60

instance (t : Int) : Decidable (InRange t) := inferInstanceAs (Decidable (_ ∧ _))

theorem getV1Time_of_inRange (h : InRange t) (state : State) :
    getV1Time (idAt state t).binary = some t := by
  have hwhole : (time60 t : Int) = t * 10 + epochOffset := by
    rw [time60, Int.emod_eq_of_lt h.1 h.2, Int.toNat_of_nonneg h.1]
  rw [getV1Time_idAt, hwhole, Int.add_sub_cancel, Int.mul_tdiv_cancel t (by decide)]

/-- Ids that are made one after the other differ, and have the times that were used for them. -/
theorem getV1Run_unique (clocks : List Int)
    (h : ∀ issued ∈ getV1Run state clocks, InRange (used issued)) :
    ((getV1Run state clocks).map Prod.fst).Nodup ∧
    (∀ issued ∈ getV1Run state clocks, IsV1 issued.1 ∧ getV1Time issued.1 = some (used issued)) ∧
    ((getV1Run state clocks).map used).Pairwise (· < ·) := by
  have htime : ∀ issued ∈ getV1Run state clocks,
      IsV1 issued.1 ∧ getV1Time issued.1 = some (used issued) := by
    intro issued hissued
    have hrange := h issued hissued
    rw [getV1Run_eq] at hissued
    obtain ⟨t, -, rfl⟩ := mem_map.mp hissued
    exact ⟨⟨_, _, _, _, _, fields_idAt state t⟩, getV1Time_of_inRange hrange state⟩
  have hincrease := (timestamps_increase state.timestampLast clocks).2
  rw [← map_used_getV1Run] at hincrease
  refine ⟨?_, htime, hincrease⟩
  -- the times are read of the ids, so that different times have different ids
  refine pairwise_map.mpr ((pairwise_map.mp hincrease).imp_of_mem ?_)
  intro a b ha hb hlt hsame
  have hread := (htime a ha).2.symm.trans (hsame ▸ (htime b hb).2)
  exact Int.lt_irrefl _ ((Option.some.inj hread) ▸ hlt)

/-- Three ids of a clock that stands still, and of one that goes back. -/
theorem getV1Run_unique_still : ((getV1Run ⟨1, 2, 3⟩ [1000, 1000, 999]).map Prod.fst).Nodup :=
  (getV1Run_unique ⟨1, 2, 3⟩ [1000, 1000, 999] (by
    rw [getV1Run_eq]
    decide)).1

end CloudI.Uuid
