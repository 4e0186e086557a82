import CloudI.ServicesMonitor.Consistent
import CloudI.ServicesMonitor.Update

/-!
# ServicesMonitor.AllOrNothing

What an update leaves behind.  `View` is what the services monitor learned of a process;
with the phase of the process it says which messages are on their way (`View.Ok`).  The
stage of the services monitor follows from the views (`StageOk`), and at the end the views
say what every process did.

The result is `allOrNothing_iff`: an update is all or nothing unless the processes are told
to go on and then something fails.  Nothing takes back the step of a process that did it.
-/

namespace CloudI.ServicesMonitor

open Run List Option
open Function (update_self update_of_ne)
open ServicesInternal.Receive (ConfigServiceUpdate Reason Request Answer Process ProcessEvent
  UpdatePhase ServiceType update updateResult)

variable {σ Pid α ι κ Info Module CodePath Term : Type} [LinearOrder ι]

/-! ## what the services monitor learned -/

/-- What the services monitor learned of a process. -/
inductive View where
  | asking
  | refused
  | ready
  | told (updateStart : Bool)
  | got (updateStart : Bool)
  | lost (updateStart : Bool)
  deriving DecidableEq

/-- The message that a process died. -/
def downs (alive : Bool) : List (UpdateMessage Term) := if alive then [] else [.down]

variable (plan : ConfigServiceUpdate σ Pid α Module CodePath Term)

/-- The phases of a process that go with a view, and the messages of the process that the
services monitor did not receive yet. -/
def View.Ok (pid : Pid) (options : ServicesInternal.Receive.Options) (phase : UpdatePhase) (alive : Bool)
    (mail : List (UpdateMessage Term)) : View → Prop
  | asking => (phase = .asked ∨ phase = .pending ∨ phase = .ready) ∧
      mail = (phase.sent plan pid options).map .answer ++ downs alive
  | refused => alive = false ∧ (phase = .asked ∨ phase = .pending)
  | ready => phase = .ready ∧ mail = downs alive
  | told updateStart =>
      (phase = .told updateStart ∨ phase = .waiting updateStart ∨ phase = .finished updateStart) ∧
        mail = (phase.sent plan pid options).tail.map .answer ++ downs alive
  | got updateStart => phase = .finished updateStart
  | lost updateStart => alive = false ∧ (phase = .told updateStart ∨ phase = .waiting updateStart)

section View

variable {plan} {pid : Pid} {options : ServicesInternal.Receive.Options} {phase phase' : UpdatePhase}
  {alive : Bool} {mail rest : List (UpdateMessage Term)} {view : View} {m : UpdateMessage Term}

/-- A step of the process. -/
theorem View.Ok.next (h : view.Ok plan pid options phase true mail) (hnext : phase.Next phase')
    (hsent : phase'.sent plan pid options = phase.sent plan pid options ++ sent) :
    view.Ok plan pid options phase' true (mail ++ sent.map .answer) := by
  cases view with
  | asking =>
    obtain ⟨hphase, rfl⟩ := h
    refine ⟨?_, ?_⟩
    · rcases hphase with rfl | rfl | rfl <;> cases hnext <;> simp
    · rw [hsent, map_append]
      simp [downs]
  | ready =>
    obtain ⟨rfl, rfl⟩ := h
    cases hnext
    rw [self_eq_append_right] at hsent
    subst hsent
    exact ⟨rfl, rfl⟩
  | told updateStart =>
    obtain ⟨hphase, rfl⟩ := h
    refine ⟨?_, ?_⟩
    · rcases hphase with rfl | rfl | rfl <;> cases hnext <;> simp
    · have hnil : phase.sent plan pid options ≠ [] := by
        rcases hphase with rfl | rfl | rfl <;> nofun
      rw [hsent, tail_append_of_ne_nil hnil, map_append]
      simp [downs]
  | got updateStart =>
    have hphase : phase = .finished updateStart := h
    subst hphase
    cases hnext
    rfl
  | _ => cases h.1

theorem View.Ok.dies (h : view.Ok plan pid options phase true mail) :
    view.Ok plan pid options phase false (mail ++ [.down]) := by
  cases view with
  | refused => cases h.1
  | ready => exact ⟨h.1, by rw [h.2]; rfl⟩
  | got updateStart => exact h
  | lost updateStart => cases h.1
  | _ => exact ⟨h.1, by rw [h.2]; simp [downs]⟩

theorem mem_downs (h : m ∈ (downs alive : List (UpdateMessage Term))) : m = .down := by
  cases alive with
  | true => cases h
  | false => exact mem_singleton.mp h

theorem View.Ok.start_accepts (h : asking.Ok plan pid options phase alive mail) :
    ∀ x ∈ mail, isStartAnswer x = true := by
  obtain ⟨hphase, rfl⟩ := h
  intro x hx
  rcases mem_append.mp hx with hx | hx
  · rcases hphase with rfl | rfl | rfl <;> simp [UpdatePhase.sent] at hx
    rw [hx, isStartAnswer]
  · rw [mem_downs hx, isStartAnswer]

/-- What the services monitor receives from a process that it asks. -/
theorem View.Ok.start_received (h : asking.Ok plan pid options phase alive (m :: rest)) :
    (m = .down ∧ ∀ mail, refused.Ok plan pid options phase alive mail) ∨
      (m = .answer .update ∧ ready.Ok plan pid options phase alive rest) := by
  obtain ⟨hphase, hmail⟩ := h
  have hdead (hsent : phase.sent plan pid options = []) : m = .down ∧ alive = false := by
    rw [hsent] at hmail
    cases alive with
    | true => cases hmail
    | false =>
      cases hmail
      exact ⟨rfl, rfl⟩
  rcases hphase with rfl | rfl | rfl
  · exact .inl ⟨(hdead rfl).1, fun _ => ⟨(hdead rfl).2, .inl rfl⟩⟩
  · exact .inl ⟨(hdead rfl).1, fun _ => ⟨(hdead rfl).2, .inr rfl⟩⟩
  · cases hmail
    exact .inr ⟨rfl, rfl, rfl⟩

theorem View.Ok.now_accepts (h : (told updateStart).Ok plan pid options phase alive mail) :
    ∀ x ∈ mail, isNowAnswer x = true := by
  obtain ⟨hphase, rfl⟩ := h
  intro x hx
  rcases mem_append.mp hx with hx | hx
  · rcases hphase with rfl | rfl | rfl <;> simp [UpdatePhase.sent] at hx
    rw [hx, isNowAnswer]
  · rw [mem_downs hx, isNowAnswer]

/-- What the services monitor receives from a process that it told to go on. -/
theorem View.Ok.now_received (h : (told updateStart).Ok plan pid options phase alive (m :: rest)) :
    (m = .down ∧ ∀ mail, (lost updateStart).Ok plan pid options phase alive mail) ∨
      (m = .answer (.updateNow (updateResult plan pid updateStart options)) ∧
        ∀ mail, (got updateStart).Ok plan pid options phase alive mail) := by
  obtain ⟨hphase, hmail⟩ := h
  have hdead (hsent : (phase.sent plan pid options).tail = []) : m = .down ∧ alive = false := by
    rw [hsent] at hmail
    cases alive with
    | true => cases hmail
    | false =>
      cases hmail
      exact ⟨rfl, rfl⟩
  rcases hphase with rfl | rfl | rfl
  · exact .inl ⟨(hdead rfl).1, fun _ => ⟨(hdead rfl).2, .inl rfl⟩⟩
  · exact .inl ⟨(hdead rfl).1, fun _ => ⟨(hdead rfl).2, .inr rfl⟩⟩
  · cases hmail
    exact .inr ⟨rfl, fun _ => rfl⟩

end View

/-! ## the invariant -/

variable (code : CodeServer Module CodePath Term) (monitor : Pid)
  (before : Pid → Process ι Pid κ Info Term) (pids : List Pid)

/-- The options of a process before the update. -/
abbrev optionsBefore (pid : Pid) : ServicesInternal.Receive.Options := (before pid).state.options

/-- The process is in a phase that goes with the view. -/
def Local (view : View) (pid : Pid) (process : Process ι Pid κ Info Term)
    (alive : Bool) (mail : List (UpdateMessage Term)) : Prop :=
  ∃ phase, process.At plan pid monitor (optionsBefore before pid) phase ∧
    view.Ok plan pid (optionsBefore before pid) phase alive mail

/-- The processes that are told to go on. -/
def listed (view : Pid → View) (pid : Pid) : Option Pid :=
  if view pid = .refused then none else some pid

/-- What a process answered when it could go on. -/
abbrev resultOf (pid : Pid) : UpdateResult Term :=
  updateResult plan pid true (optionsBefore before pid)

/-- The services monitor is done with all processes. -/
structure Ended (view : Pid → View) (updateStart : Bool) : Prop where
  settled : ∀ p ∈ pids, view p = .got updateStart ∨ view p = .lost updateStart ∨ view p = .refused
  refused : updateStart = true ↔ ∀ p ∈ pids, view p ≠ .refused

/-- The modules were loaded, and all processes of a list took their own step. -/
def Succeeded (view : Pid → View) (done : List Pid) : Prop :=
  updateLoadModule code plan.codePathsAdd plan.modulesLoad = .ok () ∧
    ∀ p ∈ done, view p = .got true ∧ resultOf plan before p = .ok ()

/-- **The stage of the services monitor follows from the views.** -/
def StageOk (view : Pid → View) : UpdateStage Pid Term → Prop
  | .startRecv todo pidListNew results => ∃ done,
      pids = done ++ todo ∧ pidListNew = (done.map (listed view)).reverse ∧
        (∀ p ∈ todo, view p = .asking) ∧ (∀ p ∈ done, view p = .ready ∨ view p = .refused) ∧
        (results = [] ↔ ∀ p ∈ done, view p ≠ .refused)
  | .nowRecv updateStart pidList results => ∃ done todo,
      pids = done ++ todo ∧ pidList = todo.map (listed view) ∧
        (∀ p ∈ todo, view p = .told updateStart ∨ view p = .refused) ∧
        (∀ p ∈ done, view p = .got updateStart ∨ view p = .lost updateStart ∨ view p = .refused) ∧
        (updateStart = true ↔ ∀ p ∈ pids, view p ≠ .refused) ∧
        (updateStart = true →
          ((∀ r ∈ results, r = .ok ()) ↔ Succeeded plan code before view done))
  | .replied reply => ∃ updateStart, Ended pids view updateStart ∧
      (updateStart = true → plan.codePathsRemove.length ≤ 1) ∧
        (reply = .ok () ↔ updateStart = true ∧ Succeeded plan code before view pids)
  | .crashed => Ended pids view true ∧ 1 < plan.codePathsRemove.length

variable [LinearOrder σ] [LinearOrder Pid]

/-- **The invariant of an update.** -/
structure UpdateInv (services : Services σ Pid α)
    (w : UpdateWorld σ Pid α ι κ Info Term) : Prop where
  views : ∃ view : Pid → View, StageOk plan code before pids view w.stage ∧
    ∀ p ∈ pids, Local plan monitor before (view p) p (w.processes p) (w.alive p)
      (Flight.mail p w.mailbox)
  services : w.stage ≠ .replied (.ok ()) → w.services = services

section steps

variable {plan code monitor before pids} {services : Services σ Pid α}
  {w w' : UpdateWorld σ Pid α ι κ Info Term} {view : Pid → View}
  {pid : Pid} {todo : List Pid} {pidList : List (Option Pid)} {results : List (UpdateResult Term)}
  {e : ProcessEvent ι Pid κ Info} {processNew : Process ι Pid κ Info Term}
  {sent : List (Answer Term)} {mail : List (UpdateMessage Term)} {alive : Bool}

/-! ## the processes -/

variable {v : View} {l : List Pid} {pidListNew : List (Option Pid)}

omit [LinearOrder σ] [LinearOrder Pid] in
theorem Local.step (h : Local plan monitor before v pid p true mail)
    (hstep : p.step plan pid monitor e = some (processNew, sent)) :
    Local plan monitor before v pid processNew true (mail ++ sent.map .answer) := by
  obtain ⟨phase, hat, hok⟩ := h
  obtain ⟨phase', hat', hnext, hsent⟩ := ServicesInternal.Receive.Process.step_spec hat hstep
  exact ⟨phase', hat', hok.next hnext hsent⟩

omit [LinearOrder σ] [LinearOrder Pid] in
theorem Local.dies (h : Local plan monitor before v pid processNew true mail) :
    Local plan monitor before v pid processNew false (mail ++ [.down]) := by
  obtain ⟨phase, hat, hok⟩ := h
  exact ⟨phase, hat, hok.dies⟩

theorem UpdateInv.process (h : UpdateInv plan code monitor before pids services w)
    (halive : w.alive pid = true)
    (hstep : (w.processes pid).step plan pid monitor e = some (processNew, sent)) :
    UpdateInv plan code monitor before pids services { w with
        processes := Function.update w.processes pid processNew
        mailbox := w.mailbox ++ sent.map fun answer => (pid, .answer answer) } := by
  obtain ⟨⟨view, hstage, hlocal⟩, hservices⟩ := h
  refine ⟨⟨view, hstage, fun p hp => ?_⟩, hservices⟩
  have hsent : sent.map (fun answer => (pid, UpdateMessage.answer answer)) =
      (sent.map UpdateMessage.answer).map fun m => (pid, m) := by
    rw [List.map_map]
    rfl
  dsimp only
  rw [hsent, Flight.mail_append]
  by_cases hpid : p = pid
  · subst hpid
    have hbefore := hlocal p hp
    rw [halive] at hbefore ⊢
    rw [update_self, Flight.mail_map_self]
    exact hbefore.step hstep
  · rw [update_of_ne hpid, Flight.mail_map_of_ne (Ne.symm hpid), append_nil]
    exact hlocal p hp

/-- The death of a process. -/
theorem UpdateInv.dies (h : UpdateInv plan code monitor before pids services w)
    (halive : w.alive pid = true) :
    UpdateInv plan code monitor before pids services { w with
        alive := Function.update w.alive pid false
        mailbox := w.mailbox ++ [(pid, .down)] } := by
  obtain ⟨⟨view, hstage, hlocal⟩, hservices⟩ := h
  refine ⟨⟨view, hstage, fun p hp => ?_⟩, hservices⟩
  dsimp only
  by_cases hpid : p = pid
  · subst hpid
    have hbefore := hlocal p hp
    rw [halive] at hbefore
    rw [update_self, Flight.mail_append, Flight.mail_cons_self]
    exact hbefore.dies
  · rw [update_of_ne hpid, Flight.mail_concat_of_ne (Ne.symm hpid)]
    exact hlocal p hp

/-! ## the services monitor -/

omit [LinearOrder Pid] in
theorem ne_of_nodup (h : (done ++ pid :: todo).Nodup) :
    (∀ q ∈ done, q ≠ pid) ∧ ∀ q ∈ todo, q ≠ pid := by
  obtain ⟨-, hcons, hdisjoint⟩ := nodup_append.mp h
  refine ⟨fun q hq => hdisjoint q hq pid mem_cons_self, fun q hq heq => ?_⟩
  rw [heq] at hq
  exact (nodup_cons.mp hcons).1 hq

theorem map_listed_update (h : ∀ q ∈ l, q ≠ pid) (v : View) :
    l.map (listed (Function.update view pid v)) = l.map (listed view) := by
  refine map_congr_left fun q hq => ?_
  rw [listed, listed, update_of_ne (h q hq)]

omit [LinearOrder Pid] in
theorem some_mem_listed : some pid ∈ l.map (listed view) ↔ pid ∈ l ∧ view pid ≠ .refused := by
  rw [List.mem_map]
  constructor
  · rintro ⟨q, hq, heq⟩
    rw [listed] at heq
    split at heq
    · cases heq
    · cases heq
      exact ⟨hq, ‹_›⟩
  · rintro ⟨hmem, hview⟩
    exact ⟨pid, hmem, if_neg hview⟩

omit [LinearOrder σ] in
/-- A process answers `update_start`, or does not. -/
theorem StageOk.start_received (hnodup : pids.Nodup)
    (h : StageOk plan code before pids view (.startRecv (pid :: todo) pidListNew results))
    (v : View) (hv : v = .ready ∨ v = .refused) (resultsNew : List (UpdateResult Term))
    (hresults : resultsNew = [] ↔ results = [] ∧ v ≠ .refused) :
    StageOk plan code before pids (Function.update view pid v)
      (.startRecv todo (listed (Function.update view pid v) pid :: pidListNew) resultsNew) := by
  obtain ⟨done, hpids, hnew, htodo, hdone, hready⟩ := h
  rw [hpids] at hnodup
  obtain ⟨hnedone, hnetodo⟩ := ne_of_nodup hnodup
  refine ⟨done ++ [pid], by rw [hpids, append_assoc]; rfl, ?_, fun q hq => ?_, fun q hq => ?_, ?_⟩
  · rw [map_append, map_listed_update hnedone, hnew, reverse_append]
    rfl
  · rw [update_of_ne (hnetodo q hq)]
    exact htodo q (mem_cons_of_mem pid hq)
  · rcases mem_append.mp hq with hq | hq
    · rw [update_of_ne (hnedone q hq)]
      exact hdone q hq
    · rw [mem_singleton.mp hq, update_self]
      exact hv
  · rw [hresults, hready, forall_mem_append, forall_mem_singleton, update_self]
    refine and_congr_left fun _ => forall₂_congr fun q hq => ?_
    rw [update_of_ne (hnedone q hq)]

omit [LinearOrder σ] in
/-- A process answers `update_now`, or does not. -/
theorem StageOk.now_received (hnodup : pids.Nodup)
    (h : StageOk plan code before pids view (.nowRecv updateStart (some pid :: pidList) results))
    (v : View) (hv : v = .got updateStart ∨ v = .lost updateStart) (result : UpdateResult Term)
    (hresult : updateStart = true →
      (result = .ok () ↔ v = .got true ∧ resultOf plan before pid = .ok ())) :
    StageOk plan code before pids (Function.update view pid v)
      (.nowRecv updateStart pidList (result :: results)) := by
  obtain ⟨done, todo, hpids, hlist, htodo, hdone, hstart, hresults⟩ := h
  cases todo with
  | nil => cases hlist
  | cons q todo =>
    rw [map_cons, List.cons.injEq] at hlist
    obtain ⟨hq, hlist⟩ := hlist
    have hheard : view q ≠ .refused ∧ pid = q := by
      rw [listed] at hq
      split at hq
      · cases hq
      · exact ⟨‹_›, Option.some.inj hq⟩
    obtain ⟨hrefused, rfl⟩ := hheard
    have hvrefused : v ≠ .refused := by
      rcases hv with rfl | rfl <;> nofun
    have hnodup' := hnodup
    rw [hpids] at hnodup'
    obtain ⟨hnedone, hnetodo⟩ := ne_of_nodup hnodup'
    have hsame : ∀ q, Function.update view pid v q = .refused ↔ view q = .refused := by
      intro q
      by_cases hqpid : q = pid
      · subst hqpid
        rw [update_self]
        exact iff_of_false hvrefused hrefused
      · rw [update_of_ne hqpid]
    refine ⟨done ++ [pid], todo, by rw [hpids, append_assoc]; rfl, ?_, fun q hq => ?_,
      fun q hq => ?_, ?_, fun htrue => ?_⟩
    · rw [map_listed_update hnetodo, hlist]
    · rw [update_of_ne (hnetodo q hq)]
      exact htodo q (mem_cons_of_mem pid hq)
    · rcases mem_append.mp hq with hq | hq
      · rw [update_of_ne (hnedone q hq)]
        exact hdone q hq
      · rw [mem_singleton.mp hq, update_self]
        exact hv.imp_right .inl
    · rw [hstart]
      exact forall₂_congr fun q _ => not_congr (hsame q).symm
    · rw [forall_mem_cons, hresult htrue, hresults htrue, Succeeded, Succeeded,
        forall_mem_append, forall_mem_singleton, update_self]
      have hothers : (∀ q ∈ done, Function.update view pid v q = .got true ∧
          resultOf plan before q = .ok ()) ↔
            ∀ q ∈ done, view q = .got true ∧ resultOf plan before q = .ok () := by
        refine forall₂_congr fun q hq => ?_
        rw [update_of_ne (hnedone q hq)]
      rw [hothers]
      exact and_comm.trans and_assoc

omit [LinearOrder σ] [LinearOrder Pid] in
/-- The process that `update_now_recv` waits for was told to go on. -/
theorem StageOk.told
    (h : StageOk plan code before pids view (.nowRecv updateStart (some pid :: pidList) results)) :
    pid ∈ pids ∧ view pid = .told updateStart := by
  obtain ⟨done, todo, hpids, hlist, htodo, -⟩ := h
  have hmem : some pid ∈ todo.map (listed view) := by
    rw [← hlist]
    exact mem_cons_self
  rw [some_mem_listed] at hmem
  rw [hpids]
  exact ⟨mem_append_right _ hmem.1, (htodo pid hmem.1).resolve_right hmem.2⟩

omit [LinearOrder σ] [LinearOrder Pid] in
/-- A process that is not told to go on is left out. -/
theorem StageOk.skipped
    (h : StageOk plan code before pids view (.nowRecv updateStart (none :: pidList) results)) :
    StageOk plan code before pids view (.nowRecv updateStart pidList results) := by
  obtain ⟨done, todo, hpids, hlist, htodo, hdone, hstart, hresults⟩ := h
  cases todo with
  | nil => cases hlist
  | cons q todo =>
    rw [map_cons, List.cons.injEq] at hlist
    have hq : view q = .refused := by
      by_contra hne
      rw [listed, if_neg hne] at hlist
      cases hlist.1
    refine ⟨done ++ [q], todo, by rw [hpids, append_assoc]; rfl, hlist.2,
      fun p hp => htodo p (mem_cons_of_mem q hp), fun p hp => ?_, hstart, fun htrue => ?_⟩
    · rcases mem_append.mp hp with hp | hp
      · exact hdone p hp
      · rw [mem_singleton.mp hp]
        exact .inr (.inr hq)
    · have hmem : q ∈ pids := by
        rw [hpids]
        exact mem_append_right _ mem_cons_self
      exact absurd hq (hstart.mp htrue q hmem)

/-- The views of the other processes stay when a message is received. -/
theorem locals_received (w : UpdateWorld σ Pid α ι κ Info Term)
    (hlocal : ∀ p ∈ pids, Local plan monitor before (view p) p (w.processes p) (w.alive p)
      (Flight.mail p w.mailbox))
    (hothers : ∀ q, q ≠ pid → Flight.mail q rest = Flight.mail q w.mailbox)
    (hself : Local plan monitor before v pid (w.processes pid) (w.alive pid)
      (Flight.mail pid rest)) :
    ∀ p ∈ pids, Local plan monitor before (Function.update view pid v p) p (w.processes p)
      (w.alive p) (Flight.mail p rest) := by
  intro p hp
  by_cases hpid : p = pid
  · subst hpid
    rw [update_self]
    exact hself
  · rw [update_of_ne hpid, hothers p hpid]
    exact hlocal p hp

/-! ## a step of the services monitor -/

omit [LinearOrder Pid] in
theorem nodup_listed (h : l.Nodup) : (l.map (listed view)).reduceOption.Nodup := by
  induction l with
  | nil => exact nodup_nil
  | cons p l ih =>
    rw [nodup_cons] at h
    rw [map_cons]
    by_cases hview : view p = .refused
    · rw [listed, if_pos hview, reduceOption_cons_of_none]
      exact ih h.2
    · rw [listed, if_neg hview, reduceOption_cons_of_some, nodup_cons,
        reduceOption_mem_iff, some_mem_listed]
      exact ⟨fun hmem => h.1 hmem.1, ih h.2⟩

/-- The services monitor tells the processes to go on. -/
theorem UpdateInv.startReturned (hnodup : pids.Nodup)
    (h : UpdateInv plan code monitor before pids services w)
    (hw : w.stage = .startRecv [] pidListNew results) :
    UpdateInv plan code monitor before pids services
      (startReturned plan code pidListNew.reverse results w) := by
  obtain ⟨⟨view, hstage, hlocal⟩, hservices⟩ := h
  rw [hw] at hstage
  obtain ⟨done, hpids, hnew, -, hdone, hready⟩ := hstage
  rw [append_nil] at hpids
  subst hpids
  rw [hnew, reverse_reverse]
  let viewNew : Pid → View := fun p => if view p = .ready then .told results.isEmpty else view p
  have hrefused : ∀ p, viewNew p = .refused ↔ view p = .refused := by
    intro p
    show (if view p = .ready then View.told results.isEmpty else view p) = .refused ↔ _
    by_cases hp : view p = .ready
    · rw [if_pos hp, hp]
      exact iff_of_false nofun nofun
    · rw [if_neg hp]
  have hlisted : pids.map (listed view) = pids.map (listed viewNew) := by
    exact map_congr_left fun p _ => if_congr (hrefused p).symm rfl rfl
  have hviewNew : ∀ p ∈ pids, viewNew p = .told results.isEmpty ∨ viewNew p = .refused := by
    intro p hp
    rcases hdone p hp with hview | hview
    · exact .inl (if_pos hview)
    · exact .inr ((hrefused p).mpr hview)
  refine ⟨⟨viewNew, ⟨[], pids, rfl, hlisted, hviewNew, nofun, ?_, fun htrue => ?_⟩,
    fun p hp => ?_⟩, fun _ => hservices (by rw [hw]; nofun)⟩
  · rw [List.isEmpty_iff, hready]
    exact forall₂_congr fun p _ => not_congr (hrefused p).symm
  · rw [if_pos htrue, updateBefore, forall_mem_singleton, Succeeded]
    exact (and_iff_left nofun).symm
  · have hbefore := hlocal p hp
    show Local plan monitor before (viewNew p) p
      (sendRequests (.updateNow results.isEmpty) (pids.map (listed view)) w.processes p) (w.alive p)
      (Flight.mail p w.mailbox)
    rw [sendRequests_apply (nodup_listed hnodup)]
    rcases hdone p hp with hview | hview
    · rw [if_pos (some_mem_listed.mpr ⟨hp, by rw [hview]; nofun⟩)]
      rw [hview] at hbefore
      obtain ⟨phase, hat, rfl, hmail⟩ := hbefore
      refine ⟨.told results.isEmpty, hat.told _, ?_⟩
      rw [show viewNew p = .told results.isEmpty from if_pos hview]
      exact ⟨.inl rfl, hmail⟩
    · rw [if_neg fun hmem => (some_mem_listed.mp hmem).2 hview, (hrefused p).mpr hview]
      rw [hview] at hbefore
      exact hbefore

/-- The processes are asked. -/
theorem updateInv_handleUpdate (hnodup : pids.Nodup)
    (hpids : serviceIdsPids plan.uuids services = .ok (some pids))
    (hidle : ∀ p ∈ pids, (before p).Idle) (hstart : handleUpdate plan services before = .ok w) :
    UpdateInv plan code monitor before pids services w := by
  rw [handleUpdate, hpids] at hstart
  cases hstart
  have hlisted : pids.map some = pids.map (listed fun _ => .asking) :=
    map_congr_left fun p _ => (if_neg nofun).symm
  refine ⟨⟨fun _ => .asking, ⟨[], rfl, rfl, fun _ _ => rfl, nofun, iff_of_true rfl nofun⟩,
    fun p hp => ⟨.asked, ?_, .inl rfl, rfl⟩⟩, fun _ => rfl⟩
  show (sendRequests .update (pids.map some) before p).At plan p monitor _ .asked
  rw [hlisted, sendRequests_apply (nodup_listed hnodup),
    if_pos (some_mem_listed.mpr ⟨hp, show View.asking ≠ .refused from nofun⟩)]
  exact (hidle p hp).asked

variable [LinearOrder Term]

theorem UpdateInv.nowReturned (hplan : PlanOk plan services)
    (h : UpdateInv plan code monitor before pids services w)
    (hw : w.stage = .nowRecv updateStart [] results) :
    UpdateInv plan code monitor before pids services
      (nowReturned plan updateStart results.reverse w) := by
  obtain ⟨⟨view, hstage, hlocal⟩, hservices⟩ := h
  have hsame : w.services = services := hservices (by rw [hw]; nofun)
  rw [hw] at hstage
  obtain ⟨done, todo, hpids, hlist, -, hdone, hstart, hresults⟩ := hstage
  have hnil : todo = [] := map_eq_nil_iff.mp hlist.symm
  rw [hnil, append_nil] at hpids
  subst hpids
  have hended : Ended pids view updateStart := ⟨hdone, hstart⟩
  rw [ServicesMonitor.nowReturned]
  cases updateStart with
  | false =>
    exact ⟨⟨view, ⟨false, hended, nofun, iff_of_false nofun nofun⟩, hlocal⟩, fun _ => hsame⟩
  | true =>
    have hsuccess : updateResults results.reverse = [] ↔ Succeeded plan code before view pids := by
      rw [updateResults_eq_nil, ← hresults rfl]
      simp only [mem_reverse]
    obtain ⟨servicesNew, hafter⟩ :=
      updateAfter_spec hplan (updateResults results.reverse).isEmpty
    rw [if_pos rfl]
    dsimp only
    rw [hsame, hafter]
    by_cases hlen : plan.codePathsRemove.length ≤ 1
    · rw [if_pos hlen]
      dsimp only
      by_cases hempty : updateResults results.reverse = []
      · rw [if_pos (List.isEmpty_iff.mpr hempty)]
        exact ⟨⟨view, ⟨true, hended, fun _ => hlen,
          iff_of_true rfl ⟨rfl, hsuccess.mp hempty⟩⟩, hlocal⟩, fun hreply => absurd rfl hreply⟩
      · rw [if_neg (mt List.isEmpty_iff.mp hempty)]
        exact ⟨⟨view, ⟨true, hended, fun _ => hlen,
          iff_of_false nofun fun hand => hempty (hsuccess.mpr hand.2)⟩, hlocal⟩, fun _ => rfl⟩
    · rw [if_neg hlen]
      exact ⟨⟨view, ⟨hended, not_le.mp hlen⟩, hlocal⟩, fun _ => rfl⟩

/-- **A step of the services monitor.** -/
theorem UpdateInv.monitorStep (hnodup : pids.Nodup) (hplan : PlanOk plan services)
    (h : UpdateInv plan code monitor before pids services w)
    (hstep : monitorStep plan code w = some w') :
    UpdateInv plan code monitor before pids services w' := by
  rw [ServicesMonitor.monitorStep] at hstep
  cases hw : w.stage with
  | startRecv todo pidListNew results =>
    rw [hw] at hstep
    cases todo with
    | nil =>
      cases hstep
      exact h.startReturned hnodup hw
    | cons pid todo =>
      obtain ⟨⟨m, rest⟩, hreceive, heq⟩ := map_eq_some_iff.mp hstep
      obtain ⟨⟨view, hstage, hlocal⟩, hservices⟩ := h
      have hsame : w.services = services := hservices (by rw [hw]; nofun)
      rw [hw] at hstage
      have hpid : pid ∈ pids ∧ view pid = .asking := by
        obtain ⟨done, hpids, -, htodo, -⟩ := hstage
        rw [hpids]
        exact ⟨mem_append_right _ mem_cons_self, htodo pid mem_cons_self⟩
      have hself := hlocal pid hpid.1
      rw [hpid.2] at hself
      obtain ⟨phase, hat, hok⟩ := hself
      obtain ⟨hfrom, hmail, hothers⟩ := Flight.mail_takeFirst hreceive hok.start_accepts
      rw [hmail] at hok
      obtain ⟨p, m⟩ := m
      dsimp only at hfrom heq hok
      subst hfrom
      rcases hok.start_received with ⟨rfl, hrefused⟩ | ⟨rfl, hready⟩
      · cases heq
        have hstage' := hstage.start_received hnodup .refused (.inr rfl)
          (.error .pidDied :: results) (iff_of_false nofun fun hand => hand.2 rfl)
        rw [listed, update_self, if_pos rfl] at hstage'
        refine ⟨⟨_, hstage', locals_received w hlocal (fun q hq => ?_) ⟨phase, hat, hrefused _⟩⟩,
          fun _ => hsame⟩
        exact (Flight.mail_concat_of_ne (Ne.symm hq)).trans (hothers q hq)
      · cases heq
        have hstage' := hstage.start_received hnodup .ready (.inl rfl) results
          (and_iff_left nofun).symm
        rw [listed, update_self, if_neg nofun] at hstage'
        exact ⟨⟨_, hstage', locals_received w hlocal hothers ⟨phase, hat, hready⟩⟩, fun _ => hsame⟩
  | nowRecv updateStart pidList results =>
    rw [hw] at hstep
    cases pidList with
    | nil =>
      cases hstep
      exact h.nowReturned hplan hw
    | cons pid? pidList =>
      obtain ⟨⟨view, hstage, hlocal⟩, hservices⟩ := h
      have hsame : w.services = services := hservices (by rw [hw]; nofun)
      rw [hw] at hstage
      cases pid? with
      | none =>
        cases hstep
        exact ⟨⟨view, hstage.skipped, hlocal⟩, fun _ => hsame⟩
      | some pid =>
        obtain ⟨⟨m, rest⟩, hreceive, heq⟩ := map_eq_some_iff.mp hstep
        obtain ⟨hpid, hview⟩ := hstage.told
        have hself := hlocal pid hpid
        rw [hview] at hself
        obtain ⟨phase, hat, hok⟩ := hself
        obtain ⟨hfrom, hmail, hothers⟩ := Flight.mail_takeFirst hreceive hok.now_accepts
        rw [hmail] at hok
        obtain ⟨p, m⟩ := m
        dsimp only at hfrom heq hok
        subst hfrom
        rcases hok.now_received with ⟨rfl, hlost⟩ | ⟨rfl, hgot⟩
        · cases heq
          have hstage' := hstage.now_received hnodup (.lost updateStart) (.inr rfl)
            (.error .pidDied) fun _ => iff_of_false nofun nofun
          refine ⟨⟨_, hstage', locals_received w hlocal (fun q hq => ?_) ⟨phase, hat, hlost _⟩⟩,
            fun _ => hsame⟩
          exact (Flight.mail_concat_of_ne (Ne.symm hq)).trans (hothers q hq)
        · cases heq
          have hstage' := hstage.now_received hnodup (.got updateStart) (.inl rfl)
            (updateResult plan p updateStart (optionsBefore before p)) fun htrue => by
              rw [htrue]
              exact (and_iff_right rfl).symm
          exact ⟨⟨_, hstage', locals_received w hlocal hothers ⟨phase, hat, hgot _⟩⟩,
            fun _ => hsame⟩
  | _ =>
    rw [hw] at hstep
    cases hstep

/-! ## runs -/

theorem UpdateInv.next {e : UpdateEvent Pid ι κ Info} (hnodup : pids.Nodup)
    (hplan : PlanOk plan services) (h : UpdateInv plan code monitor before pids services w)
    (hnext : updateNext plan code monitor w e = some w') :
    UpdateInv plan code monitor before pids services w' := by
  cases e with
  | monitor => exact h.monitorStep hnodup hplan hnext
  | process pid e =>
    rw [updateNext, ite_none_right_eq_some] at hnext
    obtain ⟨halive, hmap⟩ := hnext
    obtain ⟨⟨processNew, sent⟩, hstep, rfl⟩ := map_eq_some_iff.mp hmap
    exact h.process halive hstep
  | dies pid =>
    rw [updateNext, ite_none_right_eq_some] at hnext
    obtain ⟨halive, heq⟩ := hnext
    cases heq
    exact h.dies halive

/-- **Run lemma**: the invariant holds while the update is handled. -/
theorem updateInv_of_steps {events : List (UpdateEvent Pid ι κ Info)}
    {w₀ : UpdateWorld σ Pid α ι κ Info Term} (hnodup : pids.Nodup)
    (hplan : PlanOk plan services) (h : UpdateInv plan code monitor before pids services w₀)
    (hsteps : Steps (updateNext plan code monitor) (fun _ _ => True) w₀ events w) :
    UpdateInv plan code monitor before pids services w :=
  hsteps.invariant (fun _ _ _ h _ hnext => h.next hnodup hplan hnext) h

end steps

/-! ## all or nothing -/

section outcome

variable (services : Services σ Pid α)
  (w : UpdateWorld σ Pid α ι κ Info Term)

/-- The process did its own step, with success. -/
def Applied (pid : Pid) : Prop := (w.processes pid).result = some (.ok ())

/-- The process died before it answered that it is ready. -/
def DiedUnready (pid : Pid) : Prop :=
  w.alive pid = false ∧ (w.processes pid).answered = false

/-- The process died before its own step. -/
def DiedUndone (pid : Pid) : Prop := w.alive pid = false ∧ (w.processes pid).result = none

/-- **All or nothing**: the reply is `ok` exactly when every process applied the update;
after an error no process that is left applied it, and the services are as before. -/
def AllOrNothing : Prop :=
  ∃ reply, w.stage = .replied reply ∧ (reply = .ok () ↔ ∀ p ∈ pids, Applied w p) ∧
    (reply ≠ .ok () →
      (∀ p ∈ pids, w.alive p = true →
        ¬ Applied w p ∧ (w.processes p).state.options = optionsBefore before p) ∧
      w.services = services)

/-- Everything goes well: the modules are loaded, every process lives until its own step, and
its `update/3` succeeds. -/
def AllSucceed : Prop :=
  updateLoadModule code plan.codePathsAdd plan.modulesLoad = .ok () ∧
    ∀ p ∈ pids, ¬ DiedUndone w p ∧ resultOf plan before p = .ok ()

/-- Some process does not succeed, and every process whose `update/3` succeeds dies. -/
def NoneSucceeds : Prop :=
  (∃ p ∈ pids, DiedUndone w p ∨ resultOf plan before p ≠ .ok ()) ∧
    ∀ p ∈ pids, resultOf plan before p = .ok () → w.alive p = false

end outcome

section iff

variable {plan code monitor before pids} {services : Services σ Pid α}
  {w : UpdateWorld σ Pid α ι κ Info Term} {view : Pid → View} {p : Pid}
  {process : Process ι Pid κ Info Term} {alive updateStart : Bool}
  {mail : List (UpdateMessage Term)}

section
omit [LinearOrder σ] [LinearOrder Pid]

theorem Local.of_refused (h : Local plan monitor before .refused p process alive mail) :
    alive = false ∧ process.answered = false ∧ process.result = none := by
  obtain ⟨phase, hat, halive, rfl | rfl⟩ := h
  · exact ⟨halive, hat.answered, hat.result⟩
  · exact ⟨halive, hat.answered, hat.result⟩

theorem Local.of_lost (h : Local plan monitor before (.lost updateStart) p process alive mail) :
    alive = false ∧ process.answered = true ∧ process.result = none := by
  obtain ⟨phase, hat, halive, rfl | rfl⟩ := h
  · exact ⟨halive, hat.answered, hat.result⟩
  · exact ⟨halive, hat.answered, hat.result⟩

theorem Local.of_got (h : Local plan monitor before (.got updateStart) p process alive mail) :
    process.answered = true ∧
      process.result = some (updateResult plan p updateStart (optionsBefore before p)) ∧
      process.state.options =
        (update plan p updateStart (optionsBefore before p)).toOption.getD (optionsBefore before p) := by
  obtain ⟨phase, hat, rfl⟩ := h
  exact ⟨hat.answered, hat.result, hat.options⟩

theorem updateResult_false_ne (pid : Pid) (options : ServicesInternal.Receive.Options) :
    updateResult plan pid false options ≠ .ok () := by
  rw [updateResult, update]
  split
  · nofun
  · rw [if_pos rfl]
    nofun

theorem options_of_error (h : updateResult plan p updateStart (optionsBefore before p) ≠ .ok ()) :
    (update plan p updateStart (optionsBefore before p)).toOption.getD (optionsBefore before p) =
      optionsBefore before p := by
  rw [updateResult] at h
  cases hupdate : update plan p updateStart (optionsBefore before p) with
  | error reason => rfl
  | ok options =>
    rw [hupdate] at h
    exact absurd rfl h

end

variable (hlocal : ∀ p ∈ pids, Local plan monitor before (view p) p (w.processes p) (w.alive p)
  (Flight.mail p w.mailbox))
include hlocal

/-- A process did not apply an update that some process could not start. -/
theorem not_applied_of_refused (hended : Ended pids view false) (hp : p ∈ pids) :
    ¬ Applied w p := by
  have h := hlocal p hp
  rw [Applied]
  rcases hended.settled p hp with hview | hview | hview
  · rw [hview] at h
    rw [h.of_got.2.1, Option.some.injEq]
    exact updateResult_false_ne p _
  · rw [hview] at h
    rw [h.of_lost.2.2]
    nofun
  · rw [hview] at h
    rw [h.of_refused.2.2]
    nofun

/-- After an update that all processes could start. -/
theorem applied_iff (hended : Ended pids view true) (hp : p ∈ pids) :
    (Applied w p ↔ view p = .got true ∧ resultOf plan before p = .ok ()) ∧
      (DiedUndone w p ↔ view p ≠ .got true) ∧ ¬ DiedUnready w p := by
  have h := hlocal p hp
  rcases hended.settled p hp with hview | hview | hview
  · rw [hview] at h ⊢
    obtain ⟨hanswered, hresult, -⟩ := h.of_got
    rw [Applied, DiedUndone, DiedUnready, hresult, hanswered, Option.some.injEq]
    exact ⟨(and_iff_right rfl).symm, iff_of_false nofun fun hne => hne rfl, nofun⟩
  · rw [hview] at h ⊢
    obtain ⟨halive, hanswered, hresult⟩ := h.of_lost
    rw [Applied, DiedUndone, DiedUnready, hresult, hanswered]
    exact ⟨iff_of_false nofun nofun, iff_of_true ⟨halive, rfl⟩ nofun, nofun⟩
  · exact absurd hview (hended.refused.mp rfl p hp)

theorem options_of_not_applied (hended : Ended pids view updateStart) (hp : p ∈ pids)
    (halive : w.alive p = true) (hnot : ¬ Applied w p) :
    (w.processes p).state.options = optionsBefore before p := by
  have h := hlocal p hp
  rcases hended.settled p hp with hview | hview | hview
  · rw [hview] at h
    obtain ⟨-, hresult, hoptions⟩ := h.of_got
    rw [hoptions, options_of_error]
    intro hok
    rw [hok] at hresult
    exact hnot hresult
  · rw [hview] at h
    rw [h.of_lost.1] at halive
    cases halive
  · rw [hview] at h
    rw [h.of_refused.1] at halive
    cases halive

theorem succeeded_iff (hended : Ended pids view true) :
    Succeeded plan code before view pids ↔ AllSucceed plan code before pids w := by
  refine and_congr_right fun _ => forall₂_congr fun p hp => and_congr_left fun _ => ?_
  rw [(applied_iff hlocal hended hp).2.1, not_not]

/-- No process is left that applied the update, and not every process applied it. -/
theorem noneSucceeds_iff (hended : Ended pids view true) : NoneSucceeds plan before pids w ↔
      (¬ ∀ p ∈ pids, Applied w p) ∧ ∀ p ∈ pids, w.alive p = true → ¬ Applied w p := by
  have hsome : (∃ p ∈ pids, DiedUndone w p ∨ resultOf plan before p ≠ .ok ()) ↔
      ¬ ∀ p ∈ pids, Applied w p := by
    push Not
    refine exists_congr fun p => and_congr_right fun hp => ?_
    obtain ⟨happlied, hundone, -⟩ := applied_iff hlocal hended hp
    rw [happlied, hundone, not_and_or]
  refine and_congr hsome (forall₂_congr fun p hp => ?_)
  have happlied := (applied_iff hlocal hended hp).1
  have hgot (halive : w.alive p = true) : view p = .got true := by
    have h := hlocal p hp
    rcases hended.settled p hp with hview | hview | hview
    · exact hview
    · rw [hview] at h
      rw [h.of_lost.1] at halive
      cases halive
    · exact absurd hview (hended.refused.mp rfl p hp)
  rw [happlied]
  constructor
  · intro h halive hand
    rw [h hand.2] at halive
    cases halive
  · intro h hok
    by_contra halive
    rw [Bool.not_eq_false] at halive
    exact h halive ⟨hgot halive, hok⟩

variable [LinearOrder Term]

omit hlocal in
/-- **When an update is all or nothing**, at the end of every run. -/
theorem UpdateInv.allOrNothing_iff (h : UpdateInv plan code monitor before pids services w)
    (hdone : w.stage.isDone = true) :
    AllOrNothing before pids services w ↔
      (∃ p ∈ pids, DiedUnready w p) ∨ plan.codePathsRemove.length ≤ 1 ∧
        (AllSucceed plan code before pids w ∨ NoneSucceeds plan before pids w) := by
  obtain ⟨⟨view, hstage, hlocal⟩, hservices⟩ := h
  cases hw : w.stage with
  | crashed =>
    rw [hw] at hstage
    obtain ⟨hended, hlen⟩ := hstage
    refine iff_of_false ?_ ?_
    · rintro ⟨reply, hreply, -⟩
      rw [hw] at hreply
      cases hreply
    · rintro (⟨p, hp, hdied⟩ | ⟨hle, -⟩)
      · exact (applied_iff hlocal hended hp).2.2 hdied
      · omega
  | replied reply =>
    rw [hw] at hstage
    obtain ⟨updateStart, hended, hlen, hreply⟩ := hstage
    have herror : reply ≠ .ok () → w.services = services := fun hne =>
      hservices (by rw [hw]; exact fun heq => hne (UpdateStage.replied.inj heq))
    cases updateStart with
    | false =>
      -- nothing was applied, and a process died before it was ready
      obtain ⟨p, hp, hrefused⟩ : ∃ p ∈ pids, view p = .refused := by
        have hnot := mt hended.refused.mpr nofun
        push Not at hnot
        exact hnot
      have hself := hlocal p hp
      rw [hrefused] at hself
      have hne : reply ≠ .ok () := fun heq => absurd (hreply.mp heq).1 nofun
      refine iff_of_true ⟨reply, hw, iff_of_false hne fun hall => ?_, fun _ =>
        ⟨fun q hq halive => ?_, herror hne⟩⟩ (.inl ⟨p, hp, hself.of_refused.1, hself.of_refused.2.1⟩)
      · exact not_applied_of_refused hlocal hended hp (hall p hp)
      · have hnot := not_applied_of_refused hlocal hended hq
        exact ⟨hnot, options_of_not_applied hlocal hended hq halive hnot⟩
    | true =>
      have hsucceed : reply = .ok () ↔ AllSucceed plan code before pids w := by
        rw [hreply, ← succeeded_iff hlocal hended]
        exact and_iff_right rfl
      have hall (hsucceeds : AllSucceed plan code before pids w) : ∀ p ∈ pids, Applied w p := by
        intro p hp
        rw [(applied_iff hlocal hended hp).1]
        exact ((succeeded_iff hlocal hended).mpr hsucceeds).2 p hp
      rw [noneSucceeds_iff hlocal hended]
      constructor
      · rintro ⟨reply', hreply', hok, hne⟩
        rw [hw] at hreply'
        cases hreply'
        refine .inr ⟨hlen rfl, ?_⟩
        by_cases hreplyOk : reply = .ok ()
        · exact .inl (hsucceed.mp hreplyOk)
        · exact .inr ⟨mt hok.mpr hreplyOk, fun p hp halive => ((hne hreplyOk).1 p hp halive).1⟩
      · rintro (⟨p, hp, hdied⟩ | ⟨-, hsucceeds | ⟨hnot, hnone⟩⟩)
        · exact absurd hdied (applied_iff hlocal hended hp).2.2
        · exact ⟨reply, hw, iff_of_true (hsucceed.mpr hsucceeds) (hall hsucceeds),
            fun hne => absurd (hsucceed.mpr hsucceeds) hne⟩
        · have hne : reply ≠ .ok () := fun heq => hnot (hall (hsucceed.mp heq))
          refine ⟨reply, hw, iff_of_false hne hnot, fun _ => ⟨fun p hp halive => ?_, herror hne⟩⟩
          exact ⟨hnone p hp halive,
            options_of_not_applied hlocal hended hp halive (hnone p hp halive)⟩
  | _ =>
    rw [hw] at hdone
    cases hdone

omit hlocal in
/-- **When an update is all or nothing**, at the end of every run of it.

Either a process died before it was ready, and nothing is applied.  Or the processes are told
to go on; `update_unload_module` gets through; and everything goes well, or something goes
wrong and every process whose `update/3` succeeds dies. -/
theorem update_all_or_nothing_iff
    {w₀ : UpdateWorld σ Pid α ι κ Info Term} {events : List (UpdateEvent Pid ι κ Info)}
    (hgrouped : Grouped services) (huuids : plan.uuids.Nodup)
    (htype : plan.type = .external → plan.uuids.length = 1)
    (hpids : serviceIdsPids plan.uuids services = .ok (some pids))
    (hidle : ∀ p ∈ pids, (before p).Idle) (hstart : handleUpdate plan services before = .ok w₀)
    (hsteps : Steps (updateNext plan code monitor) (fun _ _ => True) w₀ events w)
    (hdone : w.stage.isDone = true) :
    AllOrNothing before pids services w ↔
      (∃ p ∈ pids, DiedUnready w p) ∨ plan.codePathsRemove.length ≤ 1 ∧
        (AllSucceed plan code before pids w ∨ NoneSucceeds plan before pids w) := by
  obtain ⟨hnodup, hfound⟩ := serviceIdsPids_spec hgrouped huuids hpids
  have hplan : PlanOk plan services := ⟨hgrouped.owned.linked, hfound, htype⟩
  have hasked : UpdateInv plan code monitor before pids services w₀ :=
    updateInv_handleUpdate hnodup hpids hidle hstart
  have hinv := updateInv_of_steps hnodup hplan hasked hsteps
  exact hinv.allOrNothing_iff hdone

end iff

/-! ## sample runs -/

/-- Two processes of one service are started. -/
def startedRun : List (Event Nat Nat Unit) :=
  [.message (.monitor 0 (sampleService 0 0) (some [1])),
    .message (.monitor 0 (sampleService 1 0) (some [2]))]

/-- The services of two processes. -/
def startedServices : Services Nat Nat Unit := (worldAfter startedRun).state.services

theorem grouped_startedServices : Grouped startedServices := by
  have hsteps : Steps ServicesMonitor.next Enabled {} startedRun (worldAfter startedRun) :=
    steps_getD_of_checked (by decide +kernel)
  exact (consistent_of_steps hsteps).grouped

/-- A process that waits for requests. -/
def idleProcess : Process Nat Nat Unit Unit Nat where
  state := {
    options := { queueLimit := none, queueSize := none, responseTimeoutImmediateMax := 0 }
    queueRequests := false }
  mode := .dispatcher

variable (result : ServicesInternal.Receive.ModuleStateResult Nat)

/-- An update of the queue limit; the process 2 does what is given. -/
def samplePlan :
    ConfigServiceUpdate Nat Nat Unit Unit Unit Nat where
  moduleState := some fun pid => if pid = 2 then result else .ok
  options := fun options => { options with queueLimit := some 5 }
  arguments := id
  uuids := [0]

/-- Every module is loaded. -/
def sampleCode : CodeServer Unit Unit Nat where
  addPatha := fun _ => .ok ()
  moduleReload := fun _ => .ok ()

/-- The processes answer, and answer again when they are told to go on. -/
def answeredRun : List (UpdateEvent Nat Nat Unit Unit) :=
  [.process 1 (.request () fun _ => none), .process 2 (.request () fun _ => none),
    .monitor, .monitor, .monitor,
    .process 1 (.request () fun _ => none), .process 2 (.request () fun _ => none),
    .monitor, .monitor, .monitor]

/-- The world before the first event. -/
def askedWorld : UpdateWorld Nat Nat Unit Nat Unit Unit Nat :=
  ((handleUpdate (samplePlan result) startedServices fun _ => idleProcess).toOption).getD
    { stage := .crashed, services := {}, processes := fun _ => idleProcess }

/-- The world after the last event. -/
def answeredWorld : UpdateWorld Nat Nat Unit Nat Unit Unit Nat :=
  (run (updateNext (samplePlan result) sampleCode 0) (askedWorld result) answeredRun).getD
    (askedWorld result)

theorem handleUpdate_askedWorld :
    handleUpdate (samplePlan result) startedServices (fun _ => idleProcess) =
      .ok (askedWorld result) := by
  have hpids : serviceIdsPids (samplePlan result).uuids startedServices = .ok (some [1, 2]) := by
    show serviceIdsPids [0] startedServices = _
    decide +kernel
  rw [askedWorld, handleUpdate, hpids]
  rfl

/-- Every process applies the update. -/
theorem update_all_or_nothing_iff_answeredRun :
    AllOrNothing (fun _ => idleProcess) [1, 2] startedServices (answeredWorld .ok) := by
  have hsteps : Steps (updateNext (samplePlan .ok) sampleCode 0) (fun _ _ => True)
      (askedWorld .ok) answeredRun (answeredWorld .ok) := steps_getD_of_checked (by decide +kernel)
  refine (update_all_or_nothing_iff grouped_startedServices (by decide)
    (fun htype => absurd htype (by decide)) (by decide +kernel) (fun _ _ => ⟨rfl, rfl, rfl, rfl⟩)
    (handleUpdate_askedWorld .ok) hsteps (by decide +kernel)).mpr (.inr ⟨by decide, .inl ⟨rfl, ?_⟩⟩)
  refine forall_mem_cons.mpr ⟨⟨fun hdied => ?_, rfl⟩, forall_mem_singleton.mpr
    ⟨fun hdied => ?_, rfl⟩⟩
  · exact absurd hdied.1 (by decide +kernel)
  · exact absurd hdied.1 (by decide +kernel)

/-- **A process applies the update and the other one refuses it.** -/
theorem update_applied_in_part :
    ∃ (plan : ConfigServiceUpdate Nat Nat Unit Unit Unit Nat) (code : CodeServer Unit Unit Nat)
      (monitor : Nat) (before : Nat → Process Nat Nat Unit Unit Nat) (pids : List Nat)
      (services : Services Nat Nat Unit) (w₀ w : UpdateWorld Nat Nat Unit Nat Unit Unit Nat)
      (events : List (UpdateEvent Nat Nat Unit Unit)),
      Grouped services ∧ plan.uuids.Nodup ∧ plan.type = .internal ∧
        serviceIdsPids plan.uuids services = .ok (some pids) ∧ (∀ p ∈ pids, (before p).Idle) ∧
        handleUpdate plan services before = .ok w₀ ∧
        Steps (updateNext plan code monitor) (fun _ _ => True) w₀ events w ∧
        w.stage.isDone = true ∧ ¬ AllOrNothing before pids services w := by
  have hsteps : Steps (updateNext (samplePlan (.error 7)) sampleCode 0) (fun _ _ => True)
      (askedWorld (.error 7)) answeredRun (answeredWorld (.error 7)) :=
    steps_getD_of_checked (by decide +kernel)
  refine ⟨samplePlan (.error 7), sampleCode, 0, fun _ => idleProcess, [1, 2], startedServices,
    askedWorld (.error 7), answeredWorld (.error 7), answeredRun, grouped_startedServices,
    by decide, rfl, by decide +kernel, fun _ _ => ⟨rfl, rfl, rfl, rfl⟩,
    handleUpdate_askedWorld (.error 7), hsteps, by decide +kernel, ?_⟩
  rintro ⟨reply, hreply, hall, hnone⟩
  have happlied : Applied (answeredWorld (.error 7)) 1 := by
    rw [Applied]
    decide +kernel
  have hnot : ¬ Applied (answeredWorld (.error 7)) 2 := by
    rw [Applied]
    decide +kernel
  have hne : reply ≠ .ok () := fun heq => hnot (hall.mp heq 2 (by decide))
  exact ((hnone hne).1 1 (by decide) (by decide +kernel)).1 happlied

end CloudI.ServicesMonitor
