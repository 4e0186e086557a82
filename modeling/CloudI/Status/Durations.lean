import CloudI.Erlang.Maps
import CloudI.Library.Run
import Mathlib.Algebra.Order.BigOperators.Group.List
import Mathlib.Algebra.Order.Ring.Int

/-!
# Status.Durations

The durations of `cloudi_core_i_status`: for each key the times during which it was down, newest
first, of a year at most and of a limited number.  The sum of what they cover after a time is exact
unless it is flagged, because everything that was dropped ended before it.
-/

namespace CloudI.Status

open List

/-! ## time units -/

/-- `erlang:convert_time_unit/3` with the parts of a second of both units. -/
def convert (time fromUnit toUnit : Int) : Int :=
  if time < 0 then (toUnit * time - (fromUnit - 1)).tdiv fromUnit
  else (toUnit * time).tdiv fromUnit

/-- `?NANOSECONDS_IN_SECOND`. -/
def nanosecondsInSecond : Int := 1000000000
/-- `?NANOSECONDS_IN_YEAR`, of 365.25 days. -/
def nanosecondsInYear : Int := 31557600000000000

/-- `?NATIVE_TIME_IN_YEAR`, with the parts of a second of the native unit. -/
def nativeTimeInYear (timeUnit : Nat) : Int :=
  convert nanosecondsInYear nanosecondsInSecond timeUnit

/-- `?STATUS_DURATIONS_YEAR_MAX`. -/
def statusDurationsYearMax : Int := 366

theorem convert_le_convert (ha : 0 ≤ a) (h : a ≤ b) (timeUnit : Nat) :
    convert a timeUnit nanosecondsInSecond ≤ convert b timeUnit nanosecondsInSecond := by
  unfold convert
  have hpos : (0 : Int) ≤ nanosecondsInSecond := by decide
  rw [if_neg (by omega), if_neg (by omega), Int.tdiv_eq_ediv_of_nonneg (Int.mul_nonneg hpos ha),
    Int.tdiv_eq_ediv_of_nonneg (Int.mul_nonneg hpos (ha.trans h))]
  have hmul := Int.mul_le_mul_of_nonneg_left h hpos
  rcases Nat.eq_zero_or_pos timeUnit with rfl | hunit
  · simp
  · exact Int.ediv_le_ediv (by exact_mod_cast hunit) hmul

/-! ## the durations -/

/-- A duration `{T0, T1}` in native time. -/
structure Duration where
  t0 : Int
  t1 : Int
  deriving DecidableEq, Repr

/-- `durations_state()`: the count, and the durations newest first. -/
structure DurationsState where
  count : Int
  list : List Duration
  deriving DecidableEq, Repr

variable {κ : Type} [LinearOrder κ]

def durationsState (key : κ) (lookup : ErlMap κ DurationsState) : DurationsState :=
  (Maps.find key lookup).getD ⟨0, []⟩

/-- `duration_clear/3`, with the oldest duration first. -/
def durationClear : List Duration → Int → Int → DurationsState
  | [], count, _ => ⟨count, []⟩
  | duration :: durations, count, t =>
      if duration.t1 < t then durationClear durations (count - 1) t
      else if statusDurationsYearMax ≤ count then durationClear durations (count - 1) t
      else ⟨count, (duration :: durations).reverse⟩

/-- The state of a key after it is stored once, in `duration_store/4`. -/
def storeState (t : Int) (duration : Duration) (state : DurationsState) : DurationsState :=
  let cleared := durationClear state.list.reverse state.count t
  ⟨cleared.count + 1, duration :: cleared.list⟩

def durationStore (keys : List κ) (t : Int) (duration : Duration)
    (lookup : ErlMap κ DurationsState) : ErlMap κ DurationsState :=
  match keys with
  | [] => lookup
  | key :: keys =>
      durationStore keys t duration
        (Maps.put key (storeState t duration (durationsState key lookup)) lookup)

/-- `durations_store/3`; no clause takes an empty list of keys. -/
def durationsStore (timeUnit : Nat) (keys : List κ) (duration : Duration)
    (lookup : ErlMap κ DurationsState) : Option (ErlMap κ DurationsState) :=
  match keys with
  | [] => none
  | _ :: _ => some (durationStore keys (duration.t1 - nativeTimeInYear timeUnit) duration lookup)

/-- `durations_sum/4`. -/
def durationsSumLoop (timeUnit : Nat) (durations : List Duration) (downtime : Int)
    (approximate : Bool) (t : Int) : Bool × Int :=
  match durations with
  | [] => (approximate, convert downtime timeUnit nanosecondsInSecond)
  | duration :: durations =>
      if t ≤ duration.t0 then
        durationsSumLoop timeUnit durations (downtime + (duration.t1 - duration.t0)) approximate t
      else if t < duration.t1 then
        durationsSumLoop timeUnit durations (downtime + (duration.t1 - t)) approximate t
      else (false, convert downtime timeUnit nanosecondsInSecond)

def durationsSum (timeUnit : Nat) (state : DurationsState) (t : Int) : Bool × Int :=
  durationsSumLoop timeUnit state.list 0 (state.count == statusDurationsYearMax) t

/-! ## what the durations cover -/

/-- How long a duration lasts after a time. -/
def Duration.after (t : Int) (duration : Duration) : Int := max 0 (duration.t1 - max duration.t0 t)

/-- How long the durations last after a time, together. -/
def total (t : Int) (durations : List Duration) : Int := (durations.map (Duration.after t)).sum

/-- A duration does not end before it begins. -/
def Duration.Proper (duration : Duration) : Prop := duration.t0 ≤ duration.t1

/-- Durations that end one after the other, newest first. -/
def Newest (durations : List Duration) : Prop :=
  durations.Pairwise fun newer older => older.t1 ≤ newer.t1

variable {t : Int} {duration : Duration} {durations dropped : List Duration}

@[simp] theorem total_nil : total t [] = 0 := rfl

@[simp] theorem total_cons :
    total t (duration :: durations) = duration.after t + total t durations := by
  simp [total]

@[simp] theorem total_append :
    total t (durations ++ dropped) = total t durations + total t dropped := by
  simp [total]

theorem total_reverse : total t durations.reverse = total t durations := by
  simp [total]

theorem total_nonneg (t : Int) (durations : List Duration) : 0 ≤ total t durations := by
  refine sum_nonneg fun x hx => ?_
  obtain ⟨duration, -, rfl⟩ := mem_map.mp hx
  exact le_max_left _ _

theorem after_eq_zero (h : duration.t1 ≤ t) : duration.after t = 0 := by
  unfold Duration.after
  omega

theorem total_eq_zero (h : ∀ duration ∈ durations, duration.t1 ≤ t) : total t durations = 0 := by
  induction durations with
  | nil => rfl
  | cons duration durations ih =>
    rw [total_cons, after_eq_zero (h duration mem_cons_self),
      ih fun d hd => h d (mem_cons_of_mem _ hd)]
    rfl

/-- The sum of a list is what it covers.  It loses the flag only at a duration that ended by the
time, behind which everything is older. -/
theorem durationsSumLoop_spec (timeUnit : Nat) (downtime : Int) (approximate : Bool) (t : Int)
    (hproper : ∀ duration ∈ durations, duration.Proper) (hnewest : Newest durations) :
    ∃ flag, durationsSumLoop timeUnit durations downtime approximate t =
        (flag, convert (downtime + total t durations) timeUnit nanosecondsInSecond) ∧
      (flag = false → approximate = false ∨ ∃ duration ∈ durations, duration.t1 ≤ t) := by
  induction durations generalizing downtime with
  | nil => exact ⟨approximate, by simp [durationsSumLoop], .inl⟩
  | cons duration durations ih =>
    have hle : duration.t0 ≤ duration.t1 := hproper duration mem_cons_self
    obtain ⟨holder, hrest⟩ := pairwise_cons.mp hnewest
    have ih' := fun downtime =>
      ih downtime (fun d hd => hproper d (mem_cons_of_mem _ hd)) hrest
    rw [durationsSumLoop, total_cons]
    split
    · next hafter =>
        obtain ⟨flag, hsum, hflag⟩ := ih' (downtime + (duration.t1 - duration.t0))
        have hlasts : duration.after t = duration.t1 - duration.t0 := by
          unfold Duration.after
          omega
        refine ⟨flag, by rw [hsum, hlasts, Int.add_assoc], fun h => ?_⟩
        exact (hflag h).imp_right fun ⟨d, hd, hend⟩ => ⟨d, mem_cons_of_mem _ hd, hend⟩
    · split
      · next hbefore hend =>
          obtain ⟨flag, hsum, hflag⟩ := ih' (downtime + (duration.t1 - t))
          have hlasts : duration.after t = duration.t1 - t := by
            unfold Duration.after
            omega
          refine ⟨flag, by rw [hsum, hlasts, Int.add_assoc], fun h => ?_⟩
          exact (hflag h).imp_right fun ⟨d, hd, hend⟩ => ⟨d, mem_cons_of_mem _ hd, hend⟩
      · next hbefore hend =>
          have hend : duration.t1 ≤ t := by omega
          refine ⟨false, ?_, fun _ => .inr ⟨duration, mem_cons_self, hend⟩⟩
          rw [after_eq_zero hend, total_eq_zero fun d hd => (holder d hd).trans hend]
          simp

/-! ## what is kept -/

/-- What is kept is the newest of what was stored, its count is known and limited, and while there
is room for more the rest is older than a year. -/
structure Kept (year : Int) (stored : List Duration) (state : DurationsState) : Prop where
  count : state.count = state.list.length
  count_le : state.count ≤ statusDurationsYearMax
  split : ∃ dropped, stored = state.list ++ dropped ∧
    (state.count < statusDurationsYearMax →
      ∀ last ∈ stored.head?, ∀ duration ∈ dropped, duration.t1 < last.t1 - year)

theorem kept_nil (year : Int) : Kept year [] ⟨0, []⟩ where
  count := rfl
  count_le := by decide
  split := ⟨[], rfl, fun _ last hlast => nomatch hlast⟩

/-- What is cleared, oldest first: there is room for one more then, and for a second one only when
all that was dropped ended before the time. -/
theorem durationClear_spec (holdest : durations.Pairwise fun older newer => older.t1 ≤ newer.t1)
    (hlen : (durations.length : Int) ≤ statusDurationsYearMax) :
    ∃ dropped kept, durations = dropped ++ kept ∧
      durationClear durations durations.length t = ⟨kept.length, kept.reverse⟩ ∧
      (kept.length : Int) < statusDurationsYearMax ∧
      ((kept.length : Int) + 1 < statusDurationsYearMax → ∀ d ∈ dropped, d.t1 < t) := by
  induction durations with
  | nil => exact ⟨[], [], rfl, rfl, by decide, fun _ d hd => nomatch hd⟩
  | cons duration durations ih =>
    obtain ⟨hnewer, hrest⟩ := pairwise_cons.mp holdest
    have hcast : ((duration :: durations).length : Int) = durations.length + 1 := by simp
    have hpred : (durations.length : Int) + 1 - 1 = durations.length := by omega
    rw [hcast] at hlen ⊢
    rw [durationClear, hpred]
    split
    · next hold =>
        obtain ⟨dropped, kept, hsplit, hclear, hroom, hdropped⟩ := ih hrest (by omega)
        refine ⟨duration :: dropped, kept, by rw [hsplit, cons_append], hclear, hroom, ?_⟩
        intro hmore d hd
        rcases mem_cons.mp hd with rfl | hd
        · exact hold
        · exact hdropped hmore d hd
    · next hyoung =>
        split
        · next hfull =>
            -- the others are not older, so that clearing stops with the next one
            have hstops : durationClear durations durations.length t =
                ⟨durations.length, durations.reverse⟩ := by
              cases durations with
              | nil => rfl
              | cons next durations =>
                have hnext := hnewer next mem_cons_self
                rw [durationClear, if_neg (by omega), if_neg (by omega)]
            exact ⟨[duration], durations, rfl, hstops, by omega, fun hmore => absurd hmore (by omega)⟩
        · next hroom =>
            refine ⟨[], duration :: durations, rfl, ?_, by rw [hcast]; omega,
              fun _ d hd => nomatch hd⟩
            rw [hcast]

variable {year : Int} {stored : List Duration} {key : κ} {lookup : ErlMap κ DurationsState}

/-- Storing a duration that ends last keeps what is kept. -/
theorem Kept.store (h : Kept year stored state) (hnewest : Newest (duration :: stored)) :
    Kept year (duration :: stored) (storeState (duration.t1 - year) duration state) := by
  obtain ⟨hlast, hstored⟩ := pairwise_cons.mp hnewest
  obtain ⟨olds, hsplit, holds⟩ := h.split
  have hlist : Newest state.list := by
    rw [hsplit] at hstored
    exact (pairwise_append.mp hstored).1
  have hlen : (state.list.reverse.length : Int) = state.count := by
    rw [length_reverse, h.count]
  obtain ⟨dropped, kept, hreverse, hclear, hroom, hdropped⟩ :=
    durationClear_spec (t := duration.t1 - year) (pairwise_reverse.mpr hlist)
      (hlen.trans_le h.count_le)
  rw [hlen] at hclear
  have hkept : state.list = kept.reverse ++ dropped.reverse := by
    rw [← reverse_append, ← hreverse, reverse_reverse]
  have hstate : storeState (duration.t1 - year) duration state =
      ⟨kept.length + 1, duration :: kept.reverse⟩ := by
    rw [storeState, hclear]
  rw [hstate]
  refine ⟨by simp, hroom, dropped.reverse ++ olds, ?_, ?_⟩
  · rw [hsplit, hkept]
    simp
  · intro hmore last hhead d hd
    cases hhead
    rcases mem_append.mp hd with hd | hd
    · exact hdropped hmore d (mem_reverse.mp hd)
    · -- there was room before too, or the newest that is dropped now is no older
      by_cases hbefore : state.count < statusDurationsYearMax
      · cases hhead' : stored.head? with
        | none =>
          rw [head?_eq_none_iff] at hhead'
          rw [hhead'] at hsplit
          simp [(append_eq_nil_iff.mp hsplit.symm).2] at hd
        | some newest =>
          have hle := hlast newest (mem_of_head? hhead')
          have hlt := holds hbefore newest hhead' d hd
          omega
      · have hnonempty : dropped ≠ [] := by
          rintro rfl
          rw [nil_append] at hreverse
          rw [hreverse] at hlen
          have := h.count_le
          omega
        obtain ⟨e, he⟩ := exists_mem_of_ne_nil dropped hnonempty
        have helist : e ∈ state.list := by
          rw [hkept]
          exact mem_append_right _ (mem_reverse.mpr he)
        have hle : d.t1 ≤ e.t1 := by
          rw [hsplit] at hstored
          exact (pairwise_append.mp hstored).2.2 e helist d hd
        have hlt := hdropped hmore e he
        omega

/-! ## runs -/

/-- One call of `durations_store/3`. -/
structure Call (κ : Type) where
  keys : List κ
  duration : Duration

/-- The state after a call. -/
def step (timeUnit : Nat) (lookup : ErlMap κ DurationsState) (call : Call κ) :
    Option (ErlMap κ DurationsState) :=
  durationsStore timeUnit call.keys call.duration lookup

/-- Every duration that the calls stored for a key, in the order of the calls; a key that is given
twice is stored twice. -/
def storedFor (key : κ) (calls : List (Call κ)) : List Duration :=
  calls.flatMap fun call => List.replicate (call.keys.count key) call.duration

/-- What a call does to a key. -/
theorem durationStore_kept {keys : List κ} (h : Kept year stored (durationsState key lookup))
    (hnewest : Newest (List.replicate (keys.count key) duration ++ stored)) :
    Kept year (List.replicate (keys.count key) duration ++ stored)
      (durationsState key (durationStore keys (duration.t1 - year) duration lookup)) := by
  induction keys generalizing lookup stored with
  | nil => simpa [durationStore] using h
  | cons head keys ih =>
    rw [durationStore]
    by_cases hkey : head = key
    · subst hkey
      rw [count_cons_self, replicate_succ', append_assoc] at hnewest ⊢
      refine ih ?_ hnewest
      rw [durationsState, Maps.find_put, if_pos rfl]
      exact h.store (pairwise_append.mp hnewest).2.1
    · rw [count_cons_of_ne hkey] at hnewest ⊢
      refine ih ?_ hnewest
      rw [durationsState, Maps.find_put, if_neg hkey]
      exact h

theorem kept_of_run (h : Kept (nativeTimeInYear timeUnit) stored (durationsState key lookup))
    (hrun : Run.run (step timeUnit) lookup calls = some lookup')
    (hnewest : Newest ((storedFor key calls).reverse ++ stored)) :
    Kept (nativeTimeInYear timeUnit) ((storedFor key calls).reverse ++ stored)
      (durationsState key lookup') := by
  induction calls generalizing lookup stored with
  | nil =>
    cases hrun
    exact h
  | cons call calls ih =>
    rw [Run.run, Option.bind_eq_some_iff] at hrun
    obtain ⟨lookup₁, hstep, hrun⟩ := hrun
    have hreverse : (storedFor key (call :: calls)).reverse ++ stored =
        (storedFor key calls).reverse ++
          (List.replicate (call.keys.count key) call.duration ++ stored) := by
      simp [storedFor]
    rw [hreverse] at hnewest ⊢
    refine ih ?_ hrun hnewest
    obtain ⟨keys, duration⟩ := call
    cases keys with
    | nil => cases hstep
    | cons head keys =>
      cases hstep
      exact durationStore_kept h (pairwise_append.mp hnewest).2.1

/-- The sum after a time is what the durations cover when it is not flagged, and no more when it
is.  The count is that of the list, and limited. -/
structure Accounted (timeUnit : Nat) (t : Int) (stored : List Duration) (state : DurationsState) :
    Prop where
  exact_sum : (durationsSum timeUnit state t).1 = false →
    (durationsSum timeUnit state t).2 = convert (total t stored) timeUnit nanosecondsInSecond
  approximate_sum : (durationsSum timeUnit state t).1 = true →
    (durationsSum timeUnit state t).2 ≤ convert (total t stored) timeUnit nanosecondsInSecond
  count : state.count = state.list.length
  count_le : state.count ≤ statusDurationsYearMax

/-- **Downtime accounting**: after any calls that store durations for a key, each ending no earlier
than the one before, the key is accounted for at every time of the last year. -/
theorem durationsSum_accounted {timeUnit : Nat} {calls : List (Call κ)}
    {lookup : ErlMap κ DurationsState}
    (hrun : Run.run (step timeUnit) ∅ calls = some lookup) (key : κ)
    (hproper : ∀ duration ∈ storedFor key calls, duration.Proper)
    (hordered : (storedFor key calls).Pairwise fun older newer => older.t1 ≤ newer.t1) {t : Int}
    (ht : ∀ last ∈ (storedFor key calls).getLast?, last.t1 - nativeTimeInYear timeUnit ≤ t) :
    Accounted timeUnit t (storedFor key calls) (durationsState key lookup) := by
  have hnewest : Newest ((storedFor key calls).reverse ++ []) := by
    rw [append_nil]
    exact pairwise_reverse.mpr hordered
  have hstart : Kept (nativeTimeInYear timeUnit) [] (durationsState key (∅ : ErlMap κ _)) := by
    simpa [durationsState] using kept_nil _
  have hkept := kept_of_run hstart hrun hnewest
  rw [append_nil] at hkept hnewest
  obtain ⟨dropped, hsplit, hdropped⟩ := hkept.split
  rw [hsplit] at hnewest
  obtain ⟨hlist, -, holder⟩ := pairwise_append.mp hnewest
  obtain ⟨flag, hsum, hflag⟩ := durationsSumLoop_spec timeUnit 0
    ((durationsState key lookup).count == statusDurationsYearMax) t
    (fun d hd => hproper d (mem_reverse.mp (hsplit ▸ mem_append_left _ hd))) hlist
  rw [Int.zero_add] at hsum
  have htotal : total t (storedFor key calls) =
      total t (durationsState key lookup).list + total t dropped := by
    rw [← total_reverse, hsplit, total_append]
  have hsum' : durationsSum timeUnit (durationsState key lookup) t = _ := hsum
  refine ⟨fun hexact => ?_, fun _ => ?_, hkept.count, hkept.count_le⟩
  · rw [hsum'] at hexact ⊢
    rw [htotal]
    -- nothing that was dropped lasts after the time
    have hzero : total t dropped = 0 := by
      refine total_eq_zero fun d hd => ?_
      rcases hflag hexact with happroximate | ⟨e, he, hend⟩
      · have hne : (durationsState key lookup).count ≠ statusDurationsYearMax := by
          simpa using happroximate
        have hlt := lt_of_le_of_ne hkept.count_le hne
        have hmem : d ∈ storedFor key calls :=
          mem_reverse.mp (hsplit ▸ mem_append_right _ hd)
        obtain ⟨last, hlast⟩ := getLast?_isSome.mpr (ne_nil_of_mem hmem) |>
          Option.isSome_iff_exists.mp
        have hold := hdropped hlt last (by rw [head?_reverse, hlast]; rfl) d hd
        have hyear := ht last hlast
        omega
      · exact (holder e he d hd).trans hend
    rw [hzero, Int.add_zero]
  · rw [hsum', htotal]
    have hdroppedNonneg := total_nonneg t dropped
    exact convert_le_convert (total_nonneg t _) (by omega) timeUnit

/-- A key that is stored three times, once of them with another one and once twice. -/
theorem durationsSum_accounted_threeStores :
    Accounted 1000000000 4 [⟨0, 3⟩, ⟨2, 7⟩, ⟨2, 7⟩] (durationsState 1
      (durationStore [1, 1] (7 - nativeTimeInYear 1000000000) ⟨2, 7⟩
        (durationStore [2, 1] (3 - nativeTimeInYear 1000000000) ⟨0, 3⟩ ∅))) :=
  durationsSum_accounted
    (show Run.run (step 1000000000) ∅ [⟨[2, 1], ⟨0, 3⟩⟩, ⟨[1, 1], ⟨2, 7⟩⟩] = some _ from rfl)
    1 (by unfold Duration.Proper; decide) (by decide) (by decide)

end CloudI.Status
