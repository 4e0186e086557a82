import CloudI.Library.Run
import CloudI.Library.Window
import CloudI.ServicesMonitor.Restart

/-!
# ServicesMonitor.Intensity

The restart intensity of a service.  A process that fails is started again under a
record that keeps the count and the times of its restarts; the record goes through
`restart_stage2` and `restart_stage3`, at once or by a message, until the processes are
started or the service has failed.  `Lineage` is such a record with all the attempts
that were ever made.

The times are thrown away only when they are too old to count (`Recorded`), so the
limit on the list is a limit on the attempts.
-/

namespace CloudI.ServicesMonitor

open Window List Option

variable {Pid α : Type}

/-! ## the filter of the times -/

theorem secondsFilterMonotonicLoop_eq (secondsNow : Int) (maxPeriod : Nat)
    (l output : List Int) (count : Nat) :
    secondsFilterMonotonicLoop secondsNow maxPeriod l output count =
      (count + (recent maxPeriod secondsNow l).length,
        (recent maxPeriod secondsNow l).reverse ++ output) := by
  induction l generalizing output count with
  | nil => rfl
  | cons seconds l ih =>
    unfold secondsFilterMonotonicLoop
    by_cases hold : secondsNow - seconds > maxPeriod
    · rw [if_pos hold, ih, recent, recent,
        filter_cons_of_neg (by simp only [decide_eq_true_eq]; omega)]
    · rw [if_neg hold, ih, recent, recent,
        filter_cons_of_pos (by simp only [decide_eq_true_eq]; omega)]
      simp only [length_cons, reverse_cons, append_assoc, singleton_append,
        Prod.mk.injEq, and_true]
      omega

theorem secondsFilterMonotonic_eq (l : List Int) (secondsNow : Int) (maxPeriod : Nat) :
    secondsFilterMonotonic l secondsNow maxPeriod =
      ((recent maxPeriod secondsNow l).length, (recent maxPeriod secondsNow l).reverse) := by
  rw [secondsFilterMonotonic, secondsFilterMonotonicLoop_eq]
  simp

/-- The times that `restart_delay_value` leaves. -/
theorem restartDelayValue_eq (h : restartDelayValue restartTimes maxT secondsNow restartDelay =
      some (restartCount, restartTimesNew, delay)) :
    restartCount = (recent maxT secondsNow restartTimes).length ∧
      restartTimesNew = (recent maxT secondsNow restartTimes).reverse := by
  cases restartDelay with
  | none => cases h
  | some state =>
    rw [restartDelayValue, secondsFilterMonotonic_eq, Option.some.injEq] at h
    cases h
    exact ⟨rfl, rfl⟩

/-! ## lineages -/

/-- Where the record of a service is: with its running processes, in a message of a stage, or
nowhere since the service has failed. -/
inductive Phase where
  | running
  | stage2
  | stage3
  | failed
  deriving DecidableEq

/-- The record of a service through its restarts: the clock, and the attempts so far, the
newest first. -/
structure Lineage (Pid α : Type) where
  service : Service Pid α
  phase : Phase := .running
  clock : Int
  attempts : List Int := []

/-- What happens to a record: a running process fails, a message of a stage is handled, or the
fields that restarts do not use change. -/
inductive LineageEvent (Pid α : Type) where
  | down (readings : Readings) (started : Started Pid)
  | stage2 (readings : Readings) (started : Started Pid)
  | stage3 (readings : Readings) (started : Started Pid)
  | changed (arguments : α) (countProcess : Int) (timeTerminate : Option Int)

/-- The clock while an event is handled. -/
def LineageEvent.readings? : LineageEvent Pid α → Option Readings
  | .down readings _ | .stage2 readings _ | .stage3 readings _ => some readings
  | .changed _ _ _ => none

/-- The clock does not go backwards. -/
def Readings.Since (clock : Int) (readings : Readings) : Prop :=
  clock ≤ readings.delay ∧ readings.delay ≤ readings.filter ∧ readings.filter ≤ readings.start

instance (clock : Int) (readings : Readings) : Decidable (readings.Since clock) :=
  inferInstanceAs (Decidable (_ ∧ _ ∧ _))

/-- A record after a stage. -/
def Lineage.restarted (w : Lineage Pid α) (clock : Int) :
    Restarted Pid α → Lineage Pid α
  | .failed service => { w with service, phase := .failed, clock }
  | .delayed _ service => { w with service, phase := .stage3, clock }
  | .started service => { service, phase := .running, clock, attempts := clock :: w.attempts }
  | .again service => { service, phase := .stage2, clock, attempts := clock :: w.attempts }

/-- A step of a record: `handle_info` of a `DOWN` message, by way of `restart_stage1`, and of
the messages of the stages. -/
def Lineage.next (w : Lineage Pid α) :
    LineageEvent Pid α → Option (Lineage Pid α)
  | .down readings started =>
      if w.phase = .running ∧ readings.Since w.clock then
        (restartStage2 readings started { w.service with pids := [], timeTerminate := none }).map
          (w.restarted readings.start)
      else none
  | .stage2 readings started =>
      if w.phase = .stage2 ∧ readings.Since w.clock then
        (restartStage2 readings started w.service).map (w.restarted readings.start)
      else none
  | .stage3 readings started =>
      if w.phase = .stage3 ∧ readings.Since w.clock then
        (restartStage3 readings started w.service).map (w.restarted readings.start)
      else none
  | .changed arguments countProcess timeTerminate =>
      if w.phase = .running then
        some { w with service := { w.service with arguments, countProcess, timeTerminate } }
      else none

/-! ## what a record knows of its attempts -/

variable {maxR maxT : Nat} {clock : Int} {attempts : List Int} {service : Service Pid α}

/-- **The times of a record are recorded**: the attempts that still count at `clock` are those
in the list, and the list is within its limit. -/
structure Recorded (maxR maxT : Nat) (clock : Int) (attempts : List Int)
    (service : Service Pid α) : Prop where
  maxR_eq : service.maxR = maxR
  maxT_eq : service.maxT = maxT
  count : service.restartCount = service.restartTimes.length
  le : service.restartTimes.length ≤ maxR
  recent_perm : (recent maxT clock service.restartTimes).Perm (recent maxT clock attempts)
  sorted : attempts.Pairwise (· ≥ ·)
  le_clock : ∀ t ∈ attempts, t ≤ clock
  spread : Spread maxR maxT attempts

/-- As many attempts as the limit allows lie within the time of the limit. -/
def LimitReached (maxR maxT : Nat) (now : Int) (attempts : List Int) : Prop :=
  maxR ≤ (recent maxT now attempts).length

section

variable (h : Recorded maxR maxT clock attempts service)

include h

theorem Recorded.later (hle : clock ≤ clock') : Recorded maxR maxT clock' attempts service := by
  refine { h with recent_perm := ?_, le_clock := fun t ht => Int.le_trans (h.le_clock t ht) hle }
  have hperm := h.recent_perm.filter fun t => decide (clock' - t ≤ maxT)
  rwa [← recent, ← recent, recent_recent hle, recent_recent hle] at hperm

theorem Recorded.filtered : Recorded maxR maxT clock attempts { service with
        restartCount := (recent maxT clock service.restartTimes).length
        restartTimes := (recent maxT clock service.restartTimes).reverse } where
  maxR_eq := h.maxR_eq
  maxT_eq := h.maxT_eq
  count := by simp
  le := by
    have hle : (recent maxT clock service.restartTimes).length ≤ service.restartTimes.length :=
      length_filter_le _ _
    have := h.le
    simp only [length_reverse]
    omega
  recent_perm := by
    show (recent maxT clock (recent maxT clock service.restartTimes).reverse).Perm _
    rw [recent, filter_reverse, ← recent, recent_recent (Int.le_refl _)]
    exact (reverse_perm _).trans h.recent_perm
  sorted := h.sorted
  le_clock := h.le_clock
  spread := h.spread

theorem Recorded.not_limitReached (hlt : service.restartTimes.length < maxR)
    : ¬ LimitReached maxR maxT clock attempts := by
  have hlen := h.recent_perm.length_eq
  have hle : (recent maxT clock service.restartTimes).length ≤ service.restartTimes.length :=
    length_filter_le _ _
  rw [LimitReached]
  omega

/-- One more attempt. -/
theorem Recorded.attempt (hlt : service.restartTimes.length < maxR)
    : Recorded maxR maxT clock (clock :: attempts)
      { service with
        pids
        restartCountTotal := total
        restartCount := service.restartTimes.length + 1
        restartTimes := clock :: service.restartTimes } where
  maxR_eq := h.maxR_eq
  maxT_eq := h.maxT_eq
  count := rfl
  le := hlt
  recent_perm := by
    show (recent maxT clock (clock :: service.restartTimes)).Perm _
    rw [recent, recent, filter_cons_of_pos (by simp), filter_cons_of_pos (by simp)]
    exact h.recent_perm.cons clock
  sorted := pairwise_cons.mpr ⟨fun t ht => h.le_clock t ht, h.sorted⟩
  le_clock := by
    intro t ht
    rcases mem_cons.mp ht with rfl | ht
    · exact Int.le_refl _
    · exact h.le_clock t ht
  spread := by
    have hfew := h.not_limitReached hlt
    rw [LimitReached, Nat.not_le] at hfew
    exact spread_cons h.sorted hfew h.spread

end

/-! ## the stages -/

/-- What a stage may come to: the service fails exactly when the limit is reached. -/
inductive Stage (maxR maxT : Nat) (readings : Readings) (attempts : List Int) :
    Restarted Pid α → Prop
  | failed {service : Service Pid α}
      (hlimit : LimitReached maxR maxT readings.filter attempts)
      (hservice : Recorded maxR maxT readings.start attempts service) :
      Stage maxR maxT readings attempts (.failed service)
  | delayed {delay : Nat} {service : Service Pid α} (hmaxR : maxR ≠ 0)
      (hservice : Recorded maxR maxT readings.start attempts service) :
      Stage maxR maxT readings attempts (.delayed delay service)
  | started {service : Service Pid α}
      (hlimit : ¬ LimitReached maxR maxT readings.filter attempts)
      (hservice : Recorded maxR maxT readings.start (readings.start :: attempts) service) :
      Stage maxR maxT readings attempts (.started service)
  | again {service : Service Pid α}
      (hlimit : ¬ LimitReached maxR maxT readings.filter attempts)
      (hservice : Recorded maxR maxT readings.start (readings.start :: attempts) service) :
      Stage maxR maxT readings attempts (.again service)

variable {readings : Readings} {started : Started Pid} {r : Restarted Pid α}

theorem restartStart_stage (h : Recorded maxR maxT readings.start attempts service)
    (hlt : service.restartTimes.length < maxR)
    (hlimit : ¬ LimitReached maxR maxT readings.filter attempts)
    (hr : restartStart readings started service = some r) :
    Stage maxR maxT readings attempts r := by
  have hr : some (service.attempt (service.restartTimes.length + 1)
      (readings.start :: service.restartTimes) started) = some r := by
    rw [← hr, restartStart]
    by_cases hfirst : service.restartTimes = []
    · rw [if_pos ⟨by rw [h.count, hfirst]; rfl, hfirst⟩, hfirst]
      rfl
    · rw [if_neg (fun hand => hfirst hand.2), if_neg hfirst, h.count]
  rw [Option.some.injEq] at hr
  subst hr
  cases started with
  | none => exact .again hlimit (h.attempt hlt)
  | some pids => exact .started hlimit (h.attempt hlt)

theorem restartStage3_stage (h : Recorded maxR maxT clock attempts service) (hmaxR : maxR ≠ 0)
    (hsince : readings.Since clock) (hr : restartStage3 readings started service = some r) :
    Stage maxR maxT readings attempts r := by
  obtain rfl := h.maxT_eq
  obtain ⟨hdelay, hfilter, hstart⟩ := hsince
  have hatFilter := h.later (show clock ≤ readings.filter by omega)
  have hatStart := hatFilter.later hstart
  unfold restartStage3 at hr
  by_cases hfirst : service.restartCount = 0 ∧ service.restartTimes = []
  · rw [if_pos hfirst] at hr
    have hlt : service.restartTimes.length < maxR := by
      rw [hfirst.2]
      exact Nat.pos_of_ne_zero hmaxR
    exact restartStart_stage hatStart hlt (hatFilter.not_limitReached hlt) hr
  rw [if_neg hfirst] at hr
  by_cases hlast : service.maxR = service.restartCount
  · -- the last restart, unless the filter drops a time
    rw [if_pos hlast, secondsFilterMonotonic_eq] at hr
    dsimp only at hr
    have hcount : service.restartCount = maxR := by rw [← hlast, h.maxR_eq]
    by_cases hfewer : (recent service.maxT readings.filter service.restartTimes).length <
        service.restartCount
    · rw [if_pos hfewer] at hr
      have hlt :
          (recent service.maxT readings.filter service.restartTimes).reverse.length < maxR := by
        rw [length_reverse, ← hcount]
        exact hfewer
      exact restartStart_stage (hatFilter.filtered.later hstart) hlt
        (hatFilter.filtered.not_limitReached hlt) hr
    · rw [if_neg hfewer, Option.some.injEq] at hr
      subst hr
      have hlimit : LimitReached maxR service.maxT readings.filter attempts := by
        have hlen := hatFilter.recent_perm.length_eq
        rw [LimitReached]
        omega
      exact .failed hlimit hatStart
  · rw [if_neg hlast] at hr
    have hlt : service.restartTimes.length < maxR := by
      have hle := h.le
      have hne : service.restartTimes.length ≠ maxR := by
        rw [← h.count, ← h.maxR_eq]
        exact fun heq => hlast heq.symm
      omega
    exact restartStart_stage hatStart hlt (hatFilter.not_limitReached hlt) hr

theorem restartStage2_stage (h : Recorded maxR maxT clock attempts service)
    (hsince : readings.Since clock) (hr : restartStage2 readings started service = some r) :
    Stage maxR maxT readings attempts r := by
  obtain rfl := h.maxT_eq
  have hclock : clock ≤ readings.start := by
    obtain ⟨hdelay, hfilter, hstart⟩ := hsince
    omega
  unfold restartStage2 at hr
  by_cases hnever : service.restartCount = 0 ∧ service.maxR = 0
  · rw [if_pos hnever, Option.some.injEq] at hr
    subst hr
    have hlimit : LimitReached maxR service.maxT readings.filter attempts := by
      rw [LimitReached, ← h.maxR_eq, hnever.2]
      exact Nat.zero_le _
    exact .failed hlimit (h.later hclock)
  rw [if_neg hnever] at hr
  have hmaxR : maxR ≠ 0 := by
    intro hzero
    have hcount := h.count
    have hle := h.le
    exact hnever ⟨by omega, by rw [h.maxR_eq, hzero]⟩
  cases hvalue : restartDelayValue service.restartTimes service.maxT readings.delay
      service.restartDelay with
  | none =>
    rw [hvalue] at hr
    exact restartStage3_stage h hmaxR hsince hr
  | some value =>
    obtain ⟨restartCount, restartTimes, delay⟩ := value
    obtain ⟨rfl, rfl⟩ := restartDelayValue_eq hvalue
    rw [hvalue] at hr
    dsimp only at hr
    have hfiltered := (h.later hsince.1).filtered
    by_cases hnow : delay = 0
    · rw [if_pos hnow] at hr
      have hsinceDelay : readings.Since readings.delay := ⟨Int.le_refl _, hsince.2⟩
      exact restartStage3_stage hfiltered hmaxR hsinceDelay hr
    · rw [if_neg hnow] at hr
      by_cases htimeout : delay ≤ timeoutMaxErlang
      · rw [if_pos htimeout, Option.some.injEq] at hr
        subst hr
        have hlater : readings.delay ≤ readings.start := Int.le_trans hsince.2.1 hsince.2.2
        exact .delayed hmaxR (hfiltered.later hlater)
      · rw [if_neg htimeout] at hr
        cases hr

/-! ## runs -/

variable {w w' : Lineage Pid α}

/-- The invariant of a lineage: where no restart is allowed, none is delayed. -/
structure Lineage.Sound (maxR maxT : Nat) (w : Lineage Pid α) : Prop where
  recorded : Recorded maxR maxT w.clock w.attempts w.service
  maxR_ne : w.phase = .stage3 → maxR ≠ 0

theorem Recorded.of_eq {service' : Service Pid α}
    (h : Recorded maxR maxT clock attempts service) (hmaxR : service'.maxR = service.maxR)
    (hmaxT : service'.maxT = service.maxT) (hcount : service'.restartCount = service.restartCount)
    (htimes : service'.restartTimes = service.restartTimes) :
    Recorded maxR maxT clock attempts service' where
  maxR_eq := hmaxR.trans h.maxR_eq
  maxT_eq := hmaxT.trans h.maxT_eq
  count := by rw [hcount, htimes, h.count]
  le := htimes ▸ h.le
  recent_perm := htimes ▸ h.recent_perm
  sorted := h.sorted
  le_clock := h.le_clock
  spread := h.spread

theorem Lineage.Sound.stage {event : LineageEvent Pid α} {readings : Readings}
    (h : w.Sound maxR maxT) (hreadings : event.readings? = some readings)
    (hw' : w.next event = some w') :
    ∃ r, Stage maxR maxT readings w.attempts r ∧ w' = w.restarted readings.start r := by
  cases event with
  | down readings started =>
    cases hreadings
    rw [Lineage.next, ite_none_right_eq_some, map_eq_some_iff] at hw'
    obtain ⟨⟨_, hsince⟩, r, hr, rfl⟩ := hw'
    have hdown : Recorded maxR maxT w.clock w.attempts
        { w.service with pids := [], timeTerminate := none } := h.recorded.of_eq rfl rfl rfl rfl
    exact ⟨r, restartStage2_stage hdown hsince hr, rfl⟩
  | stage2 readings started =>
    cases hreadings
    rw [Lineage.next, ite_none_right_eq_some, map_eq_some_iff] at hw'
    obtain ⟨⟨_, hsince⟩, r, hr, rfl⟩ := hw'
    exact ⟨r, restartStage2_stage h.recorded hsince hr, rfl⟩
  | stage3 readings started =>
    cases hreadings
    rw [Lineage.next, ite_none_right_eq_some, map_eq_some_iff] at hw'
    obtain ⟨⟨hphase, hsince⟩, r, hr, rfl⟩ := hw'
    exact ⟨r, restartStage3_stage h.recorded (h.maxR_ne hphase) hsince hr, rfl⟩
  | changed arguments countProcess timeTerminate => cases hreadings

/-- **Step lemma**. -/
theorem Lineage.Sound.next {event : LineageEvent Pid α} (h : w.Sound maxR maxT)
    (hw' : w.next event = some w') : w'.Sound maxR maxT := by
  cases hreadings : event.readings? with
  | some readings =>
    obtain ⟨r, hstage, rfl⟩ := h.stage hreadings hw'
    cases hstage with
    | failed _ hservice => exact ⟨hservice, nofun⟩
    | delayed hmaxR hservice => exact ⟨hservice, fun _ => hmaxR⟩
    | started _ hservice => exact ⟨hservice, nofun⟩
    | again _ hservice => exact ⟨hservice, nofun⟩
  | none =>
    cases event with
    | changed arguments countProcess timeTerminate =>
      rw [Lineage.next, ite_none_right_eq_some, Option.some.injEq] at hw'
      obtain ⟨hphase, rfl⟩ := hw'
      exact ⟨h.recorded.of_eq rfl rfl rfl rfl, h.maxR_ne⟩
    | _ => cases hreadings

/-- A record that was not restarted yet. -/
def Service.New (service : Service Pid α) : Prop :=
  service.restartCount = 0 ∧ service.restartTimes = []

theorem Lineage.sound_new (hnew : service.New) (clock : Int) :
    Lineage.Sound service.maxR service.maxT { service, clock } where
  recorded := {
    maxR_eq := rfl
    maxT_eq := rfl
    count := by rw [hnew.1, hnew.2]; rfl
    le := by rw [hnew.2]; exact Nat.zero_le _
    recent_perm := by rw [hnew.2]
    sorted := List.Pairwise.nil
    le_clock := nofun
    spread := spread_nil _ _ }
  maxR_ne := nofun

/-- **Restart intensity**: in every run of failures and restarts the count of a record is the
length of its times, nothing is attempted when no restart is allowed, any `maxR + 1` successive
attempts span more than `maxT` seconds, and a restart that is not put off fails the service
exactly when the limit is reached. -/
theorem restart_intensity {events : List (LineageEvent Pid α)} (hnew : service.New)
    (hrun : Run.run Lineage.next { service, clock } events = some w) :
    w.service.restartCount = w.service.restartTimes.length ∧ (service.maxR = 0 → w.attempts = []) ∧
      Spread service.maxR service.maxT w.attempts ∧
      ∀ event readings w', event.readings? = some readings → w.next event = some w' →
        w'.phase ≠ .stage3 →
        (w'.phase = .failed ↔
          LimitReached service.maxR service.maxT readings.filter w.attempts) := by
  have hsound : w.Sound service.maxR service.maxT :=
    (Run.steps_of_run hrun).invariant (fun _ _ _ h _ => h.next) (Lineage.sound_new hnew clock)
  refine ⟨hsound.recorded.count, fun hzero => ?_, hsound.recorded.spread, ?_⟩
  · cases hattempts : w.attempts with
    | nil => rfl
    | cons t attempts =>
      have hspread := hsound.recorded.spread 0 t t
      rw [hattempts, hzero] at hspread
      have := hspread rfl rfl
      omega
  · intro event readings w' hreadings hw' hphase
    obtain ⟨r, hstage, rfl⟩ := hsound.stage hreadings hw'
    cases hstage with
    | failed hlimit _ => exact iff_of_true rfl hlimit
    | delayed _ _ => exact absurd rfl hphase
    | started hlimit _ => exact iff_of_false nofun hlimit
    | again hlimit _ => exact iff_of_false nofun hlimit

/-- One restart in five seconds: the second one fails to start at second 7, and the third
failure, at second 9, is one too many. -/
def oneRestart : Service Nat Unit where
  arguments := ()
  processIndex := 0
  countProcess := 1
  countThread := 1
  countThread_pos := Nat.one_pos
  pids := [10]
  restartDelay := some (.absolute 20)
  maxR := 1
  maxT := 5

theorem restart_intensity_oneRestart :
    ∃ w : Lineage Nat Unit, w.attempts = [7, 0] ∧ w.phase = .failed ∧ Spread 1 5 w.attempts := by
  have hrun : (Run.run Lineage.next { service := oneRestart, clock := 0 }
      [.down ⟨0, 0, 0⟩ none, .stage3 ⟨0, 0, 0⟩ (some [11]), .down ⟨6, 6, 6⟩ none,
        .stage3 ⟨7, 7, 7⟩ none, .stage2 ⟨8, 8, 8⟩ none, .stage3 ⟨9, 9, 9⟩ none]).isSome := by
    decide
  obtain ⟨w, hw⟩ := isSome_iff_exists.mp hrun
  have hspread := (restart_intensity ⟨rfl, rfl⟩ hw).2.2.1
  have hresult := Option.some.inj (hw.symm.trans rfl)
  subst hresult
  exact ⟨_, rfl, rfl, hspread⟩

end CloudI.ServicesMonitor
