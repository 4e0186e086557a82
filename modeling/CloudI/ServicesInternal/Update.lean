import CloudI.ServicesInternal.Receive
import Mathlib.Order.WithBot
import Mathlib.Data.Prod.Lex

/-!
# ServicesInternal.Update

The update of a service, as one of its processes takes part in it: the process answers
`cloudi_service_update`, at once or (with `sync`) when its request is done, waits for
`cloudi_service_update_now`, and then takes its own step, `update/3`.

`UpdatePhase` says how far a process is.  A step of the process leaves the phase or goes to the
next one, and sends what belongs to it (`Process.step_spec`).
-/

namespace CloudI.ServicesInternal.Receive

open Option

variable {σ ι Pid κ Info α Module CodePath Term : Type}
  [LinearOrder ι]

/-! ## the plan -/

/-- The type of a service. -/
inductive ServiceType where
  | internal
  | external
  deriving DecidableEq

/-- What a `module_state` function comes to. -/
inductive ModuleStateResult (Term : Type) where
  | ok
  | error (term : Term)
  | invalid (term : Term)
  | exception (term : Term)

/-- Why an update fails; `load` is a reason of the code server. -/
inductive Reason (Term : Type) where
  | notFound
  | pidDied
  | type
  | updateStartFailed
  | load (term : Term)
  | moduleState (term : Term)
  | result (term : Term)
  | exception (term : Term)
  deriving DecidableEq

/-- A reason as a number and its term. -/
def Reason.key : Reason Term → Nat ×ₗ WithBot Term
  | .notFound => toLex (0, ⊥)
  | .pidDied => toLex (1, ⊥)
  | .type => toLex (2, ⊥)
  | .updateStartFailed => toLex (3, ⊥)
  | .load term => toLex (4, term)
  | .moduleState term => toLex (5, term)
  | .result term => toLex (6, term)
  | .exception term => toLex (7, term)

theorem Reason.key_injective : Function.Injective (Reason.key : Reason Term → Nat ×ₗ WithBot Term) := by
  intro x y h
  cases x <;> cases y <;> simp_all [Reason.key]

/-- The order of the reasons. -/
instance [LinearOrder Term] : LinearOrder (Reason Term) :=
  LinearOrder.lift' Reason.key Reason.key_injective

/-- `#config_service_update{}`.  `moduleState` is what the function comes to in each process;
`options` and `arguments` are the changes of the options of a process (`update_state`) and of
the arguments that start a process (`update_internal_f`, `update_external_f`). -/
structure ConfigServiceUpdate (σ Pid α Module CodePath Term : Type) where
  type : ServiceType := .internal
  moduleState : Option (Pid → ModuleStateResult Term) := none
  sync : Bool := true
  modulesLoad : List Module := []
  modulesUnload : List Module := []
  codePathsAdd : List CodePath := []
  codePathsRemove : List CodePath := []
  options : Options → Options
  arguments : α → α
  uuids : List σ

variable {plan : ConfigServiceUpdate σ Pid α Module CodePath Term}

/-- `update/3`: the new options, or the reason why there are none. -/
def update (plan : ConfigServiceUpdate σ Pid α Module CodePath Term) (pid : Pid)
    (updateStart : Bool) (options : Options) : Except (Reason Term) Options :=
  if plan.type ≠ .internal then .error .type
  else if updateStart = false then .error .updateStartFailed
  else
    match plan.moduleState with
    | none => .ok (plan.options options)
    | some moduleState =>
        match moduleState pid with
        | .ok => .ok (plan.options options)
        | .error term => .error (.moduleState term)
        | .invalid term => .error (.result term)
        | .exception term => .error (.exception term)

/-- What a process answers to `cloudi_service_update_now`. -/
def updateResult (plan : ConfigServiceUpdate σ Pid α Module CodePath Term)
    (pid : Pid) (updateStart : Bool) (options : Options) : Except (Reason Term) Unit :=
  (update plan pid updateStart options).map fun _ => ()

/-! ## the process -/

/-- What the services monitor sends to a process. -/
inductive Request where
  | update
  | updateNow (updateStart : Bool)
  deriving DecidableEq

/-- What a process sends to the services monitor. -/
inductive Answer (Term : Type) where
  | update
  | updateNow (result : Except (Reason Term) Unit)

/-- What happens at a process: the first message of the services monitor is handled, or
something else is. -/
inductive ProcessEvent (ι Pid κ Info : Type) where
  | request (i : Info) (cancel : TimerRef → Option Nat)
  | done (job : Job ι) (cancel : TimerRef → Option Nat)
  | send (r : ServiceRequest ι Pid κ) (byteSize : Nat) (rateRequestOk : Bool)
  | recvTimeout (priority : Int) (transId : ι) (size : Nat)
  | info (i : Info)

/-- A process, the messages of the services monitor that wait for it, and what it did: the
answer to `cloudi_service_update`, and the result of its own step. -/
structure Process (ι Pid κ Info Term : Type) [LinearOrder ι] where
  state : State ι Pid κ Info
  mode : Mode
  inbox : List Request := []
  answered : Bool := false
  result : Option (Except (Reason Term) Unit) := none

/-- What the surroundings answer while the queues are processed. -/
def answers (plan : ConfigServiceUpdate σ Pid α Module CodePath Term) (pid : Pid)
    (updateStart : Bool) (cancel : TimerRef → Option Nat) (s : State ι Pid κ Info) :
    Answers Info where
  cancel
  updated := (update plan pid updateStart s.options).toOption
  infoOk := fun _ => true

/-- The flag `update_start` of the plan that a process has. -/
def State.updateStart (s : State ι Pid κ Info) : Bool :=
  match s.updatePlan with
  | some plan => plan.updateStart
  | none => true

/-- The answers to the services monitor among the outputs. -/
def Output.answer? (result : Except (Reason Term) Unit) :
    Output ι Pid κ Info → Option (Answer Term)
  | .update _ => some .update
  | .updateNow _ _ => some (.updateNow result)
  | _ => none

/-- The event of the process, what is left of its messages, and the flag of the update. -/
def Process.event? (plan : ConfigServiceUpdate σ Pid α Module CodePath Term)
    (pid monitor : Pid) (p : Process ι Pid κ Info Term) :
    ProcessEvent ι Pid κ Info →
      Option (Event ι Pid κ Info × List Request × Bool)
  | .request i cancel =>
      match p.inbox with
      | [] => none
      | .update :: inbox => some (.update monitor plan.sync i fun _ => true, inbox, true)
      | .updateNow updateStart :: inbox =>
          some (.updateNow monitor updateStart (answers plan pid updateStart cancel p.state), inbox,
            updateStart)
  | .done job cancel =>
      some (.done job (answers plan pid p.state.updateStart cancel p.state), p.inbox,
        p.state.updateStart)
  | .send r byteSize rateRequestOk => some (.send r byteSize rateRequestOk, p.inbox, true)
  | .recvTimeout priority transId size => some (.recvTimeout priority transId size, p.inbox, true)
  | .info i => some (.info i fun _ => true, p.inbox, true)

/-- The process after a step that sent something to the services monitor. -/
def Process.after (p : Process ι Pid κ Info Term) (state : State ι Pid κ Info)
    (inbox : List Request) (result : Except (Reason Term) Unit) (sent : List (Answer Term)) :
    Process ι Pid κ Info Term :=
  { p with
    state
    inbox
    answered := p.answered || sent.any fun answer => answer matches .update
    result :=
      if sent.any fun answer => answer matches .updateNow _ then some result else p.result }

/-- **A step of a process**, and what it sends to the services monitor. -/
def Process.step (plan : ConfigServiceUpdate σ Pid α Module CodePath Term)
    (pid monitor : Pid) (p : Process ι Pid κ Info Term) (e : ProcessEvent ι Pid κ Info) :
    Option (Process ι Pid κ Info Term × List (Answer Term)) :=
  (p.event? plan pid monitor e).bind fun (event, inbox, updateStart) =>
    (handle p.mode p.state event).map fun (_, state, outs) =>
      let result := updateResult plan pid updateStart p.state.options
      let sent := outs.filterMap (Output.answer? result)
      (p.after state inbox result sent, sent)

/-! ## what leaves the update alone -/

/-- The update plan and the options stay, and nothing is sent to the services monitor. -/
structure Quiet (Term : Type) (s : State ι Pid κ Info)
    (r : Result ι Pid κ Info) : Prop where
  plan : r.1.updatePlan = s.updatePlan
  options : r.1.options = s.options
  outs : ∀ result : Except (Reason Term) Unit, r.2.filterMap (Output.answer? result) = []

variable {s s' : State ι Pid κ Info} {r : Result ι Pid κ Info}
  {q : ServiceRequest ι Pid κ}

theorem Quiet.withOutputs {outs : List (Output ι Pid κ Info)} (h : Quiet Term s r)
    (houts : ∀ result : Except (Reason Term) Unit, outs.filterMap (Output.answer? result) = []) :
    Quiet Term s (withOutputs outs r) := by
  refine ⟨h.plan, h.options, fun result => ?_⟩
  rw [Receive.withOutputs, List.filterMap_append, houts, h.outs]
  rfl

variable {size : Nat} {infoOk : Info → Bool} {mode : Mode} {cancel : TimerRef → Option Nat}

theorem quiet_timeoutStart (h : timeoutStart size q s = some r) : Quiet Term s r := by
  rw [timeoutStart] at h
  split at h
  · cases h
  · cases h
    exact ⟨rfl, rfl, fun _ => rfl⟩

theorem quiet_returnNull : Quiet Term s (s, returnNull q s.options) := by
  refine ⟨rfl, rfl, fun result => ?_⟩
  rw [returnNull]
  split
  · rfl
  · rfl

theorem quiet_handleSendWith (hstart : ∀ size s r, start size q s = some r → Quiet Term s r)
    (h : handleSendWith start q byteSize rateRequestOk s = some r) : Quiet Term s r := by
  unfold handleSendWith at h
  split at h
  · split at h
    · cases h
      exact ⟨rfl, rfl, fun _ => rfl⟩
    · cases h
      exact quiet_returnNull
  · split at h
    · cases h
      exact quiet_returnNull
    · dsimp only at h
      split at h
      · exact hstart _ s r h
      · cases h
        exact quiet_returnNull

theorem quiet_handleRecvTimeout
    (h : handleRecvTimeout priority transId size s = some (removed, s')) :
    Quiet Term s (s', []) := by
  unfold handleRecvTimeout at h
  dsimp only at h
  split at h
  · split at h
    · cases h
    · cases h
      exact ⟨rfl, rfl, fun _ => rfl⟩
  · cases h
    exact ⟨rfl, rfl, fun _ => rfl⟩

theorem quiet_infoMessage (h : infoMessage mode infoOk i s = some r) : Quiet Term s r := by
  cases mode with
  | dispatcher =>
    cases h
    unfold handleInfoMessage
    split
    · exact ⟨rfl, rfl, fun _ => rfl⟩
    · exact ⟨rfl, rfl, fun _ => rfl⟩
  | duo =>
    unfold infoMessage duoHandleInfoMessage at h
    dsimp only at h
    split at h
    · cases h
      exact ⟨rfl, rfl, fun _ => rfl⟩
    · split at h
      · cases h
        exact ⟨rfl, rfl, fun _ => rfl⟩
      · cases h

theorem quiet_processQueue (h : processQueue cancel s = some r) : Quiet Term s r := by
  unfold processQueue at h
  split at h
  · split at h
    · cases h
      exact ⟨rfl, rfl, fun _ => rfl⟩
    · split at h
      · cases h
      · cases h
        exact ⟨rfl, rfl, fun _ => rfl⟩
  · cases h

theorem quiet_duoProcessQueueInfoLoop {l : List Info}
    (h : duoProcessQueueInfoLoop infoOk s l = some r) : Quiet Term s r := by
  induction l generalizing r with
  | nil =>
    cases h
    exact ⟨rfl, rfl, fun _ => rfl⟩
  | cons i l ih =>
    unfold duoProcessQueueInfoLoop at h
    split at h
    · obtain ⟨r', hr', rfl⟩ := map_eq_some_iff.mp h
      exact (ih hr').withOutputs fun _ => rfl
    · cases h

theorem quiet_queueInfo (h : queueInfo mode infoOk s = some r) : Quiet Term s r := by
  cases mode with
  | dispatcher =>
    unfold queueInfo processQueueInfo at h
    dsimp only at h
    split at h
    · split at h
      · cases h
        exact ⟨rfl, rfl, fun _ => rfl⟩
      · cases h
        exact ⟨rfl, rfl, fun _ => rfl⟩
    · cases h
  | duo =>
    unfold queueInfo duoProcessQueueInfo at h
    dsimp only at h
    split at h
    · exact quiet_duoProcessQueueInfoLoop h
    · cases h

theorem quiet_processQueuesIdle (h : processQueuesIdle (queueInfo mode infoOk) cancel s = some r) :
    Quiet Term s r := by
  rw [processQueuesIdle, bind_eq_some_iff] at h
  obtain ⟨⟨s₁, outs₁⟩, hinfo, h⟩ := h
  have hquiet : Quiet Term s (s₁, outs₁) := quiet_queueInfo hinfo
  dsimp only at h
  split at h
  · obtain ⟨r₂, hqueue, rfl⟩ := map_eq_some_iff.mp h
    have hquiet₂ : Quiet Term { s₁ with queueRequests := true } r₂ := quiet_processQueue hqueue
    refine ⟨hquiet₂.plan.trans hquiet.plan, hquiet₂.options.trans hquiet.options, fun result => ?_⟩
    rw [Receive.withOutputs, List.filterMap_append, hquiet.outs, hquiet₂.outs]
    rfl
  · cases h
    exact hquiet

/-! ## what takes part in the update -/

theorem processUpdate_spec (hplan : s.updatePlan = some u) (hnow : u.updateNow = some updateNow)
    (hqueue : u.queueRequests = some false)
    (h : processUpdate (queueInfo mode infoOk) cancel updated s = some r) :
    r.1.updatePlan = none ∧ r.1.options = updated.getD s.options ∧
      ∀ result : Except (Reason Term) Unit,
        r.2.filterMap (Output.answer? result) = [.updateNow result] := by
  obtain ⟨sync, updatePending, updateNow', updateStart, queueRequests⟩ := u
  dsimp only at hnow hqueue
  subst hnow hqueue
  rw [processUpdate, hplan] at h
  obtain ⟨r', hr', rfl⟩ := map_eq_some_iff.mp h
  have hquiet : Quiet Term { s with options := updated.getD s.options, updatePlan := none } r' :=
    quiet_processQueuesIdle hr'
  refine ⟨hquiet.plan, hquiet.options, fun result => ?_⟩
  rw [Receive.withOutputs, List.filterMap_append, hquiet.outs]
  rfl

/-- How far a process is with an update. -/
inductive UpdatePhase where
  | asked
  | pending
  | ready
  | told (updateStart : Bool)
  | waiting (updateStart : Bool)
  | finished (updateStart : Bool)

namespace UpdatePhase

/-- The messages of the services monitor that wait. -/
def inbox : UpdatePhase → List Request
  | asked => [.update]
  | told updateStart => [.updateNow updateStart]
  | pending | ready | waiting _ | finished _ => []

/-- The process answered `cloudi_service_update`. -/
def answered : UpdatePhase → Bool
  | asked | pending => false
  | ready | told _ | waiting _ | finished _ => true

variable (plan : ConfigServiceUpdate σ Pid α Module CodePath Term)

/-- The result of the own step of the process. -/
def result (pid : Pid) (options : Options) : UpdatePhase → Option (Except (Reason Term) Unit)
  | finished updateStart => some (updateResult plan pid updateStart options)
  | asked | pending | ready | told _ | waiting _ => none

/-- The options of the process. -/
def optionsNow
    (pid : Pid) (options : Options) : UpdatePhase → Options
  | finished updateStart => (update plan pid updateStart options).toOption.getD options
  | asked | pending | ready | told _ | waiting _ => options

/-- The plan that the process holds. -/
def Holds (monitor : Pid) (held : Option (UpdatePlan Pid)) : UpdatePhase → Prop
  | asked | finished _ => held = none
  | pending => ∃ u, held = some u ∧ u.updatePending = some monitor ∧ u.updateNow = none ∧
      u.queueRequests = some true
  | ready | told _ => ∃ u, held = some u ∧ u.updatePending = none ∧ u.updateNow = none ∧
      u.queueRequests ≠ none
  | waiting updateStart => ∃ u, held = some u ∧ u.updatePending = none ∧
      u.updateNow = some monitor ∧ u.updateStart = updateStart ∧ u.queueRequests = some true

/-- What the process sent to the services monitor. -/
def sent (pid : Pid) (options : Options) : UpdatePhase → List (Answer Term)
  | asked | pending => []
  | ready | told _ | waiting _ => [.update]
  | finished updateStart => [.update, .updateNow (updateResult plan pid updateStart options)]

/-- The phase stays, or the next one is reached. -/
inductive Next : UpdatePhase → UpdatePhase → Prop
  | stay (phase : UpdatePhase) : Next phase phase
  | pending : Next asked pending
  | answer : Next asked ready
  | ready : Next pending ready
  | waiting (updateStart : Bool) : Next (told updateStart) (waiting updateStart)
  | finish (updateStart : Bool) : Next (told updateStart) (finished updateStart)
  | finished (updateStart : Bool) : Next (waiting updateStart) (finished updateStart)

end UpdatePhase

/-- **The process is in the phase**; `options` are those from before the update. -/
structure Process.At (plan : ConfigServiceUpdate σ Pid α Module CodePath Term)
    (pid monitor : Pid) (options : Options) (p : Process ι Pid κ Info Term)
    (phase : UpdatePhase) : Prop where
  inbox : p.inbox = phase.inbox
  held : phase.Holds monitor p.state.updatePlan
  answered : p.answered = phase.answered
  result : p.result = phase.result plan pid options
  options : p.state.options = phase.optionsNow plan pid options

variable {pid monitor : Pid} {options : Options} {p p' : Process ι Pid κ Info Term}
  {e : ProcessEvent ι Pid κ Info} {phase : UpdatePhase} {sent : List (Answer Term)}

/-- The process takes no part in an update. -/
structure Process.Idle (p : Process ι Pid κ Info Term) : Prop where
  inbox : p.inbox = []
  held : p.state.updatePlan = none
  answered : p.answered = false
  result : p.result = none

theorem Process.Idle.asked (h : p.Idle) :
    ({ p with inbox := p.inbox ++ [Request.update] }).At plan pid monitor p.state.options .asked where
  inbox := by rw [h.inbox]; rfl
  held := h.held
  answered := h.answered
  result := h.result
  options := rfl

theorem Process.At.told (h : p.At plan pid monitor options .ready) (updateStart : Bool) :
    ({ p with inbox := p.inbox ++ [Request.updateNow updateStart] }).At plan pid monitor options
      (.told updateStart) where
  inbox := by rw [h.inbox]; rfl
  held := h.held
  answered := h.answered
  result := h.result
  options := h.options

variable {result : Except (Reason Term) Unit} {state : State ι Pid κ Info}
  {updateStart : Bool}

section

variable (h : p.At plan pid monitor options phase)

include h

theorem Process.At.silent (phase' : UpdatePhase) (hheld : phase'.Holds monitor state.updatePlan)
    (hoptions : state.options = p.state.options) (hsame : phase'.answered = phase.answered ∧
      phase'.result plan pid options = phase.result plan pid options ∧
      phase'.optionsNow plan pid options = phase.optionsNow plan pid options) :
    (p.after state phase'.inbox result []).At plan pid monitor options phase' where
  inbox := rfl
  held := hheld
  answered := by
    show (p.answered || false) = _
    rw [Bool.or_false, h.answered, hsame.1]
  result := h.result.trans hsame.2.1.symm
  options := by rw [hsame.2.2, ← h.options, ← hoptions, Process.after]

/-- A process after it answered `cloudi_service_update`. -/
theorem Process.At.answers (hheld : UpdatePhase.ready.Holds monitor state.updatePlan)
    (hoptions : state.options = p.state.options)
    (hsame : phase.result plan pid options = none ∧ phase.optionsNow plan pid options = options) :
    (p.after state [] result [.update]).At plan pid monitor options .ready where
  inbox := rfl
  held := hheld
  answered := by
    show (p.answered || true) = true
    rw [Bool.or_true]
  result := h.result.trans hsame.1
  options := hoptions.trans (h.options.trans hsame.2)

theorem Process.At.finishes (hheld : state.updatePlan = none) (hoptions : state.options =
      (update plan pid updateStart p.state.options).toOption.getD p.state.options)
    (hsame : phase.answered = true ∧ phase.optionsNow plan pid options = options) :
    (p.after state [] (updateResult plan pid updateStart p.state.options)
      [.updateNow (updateResult plan pid updateStart p.state.options)]).At plan pid monitor options
        (.finished updateStart) := by
  have hbefore : p.state.options = options := h.options.trans hsame.2
  rw [hbefore] at hoptions ⊢
  refine ⟨rfl, hheld, ?_, rfl, hoptions⟩
  show (p.answered || false) = true
  rw [Bool.or_false, h.answered, hsame.1]

/-- **A process goes on** with this state, these messages and these outputs: it stays in the phase
or goes to the next one, and sends what belongs to it. -/
def Process.GoesOn (plan : ConfigServiceUpdate σ Pid α Module CodePath Term)
    (pid monitor : Pid) (options : Options) (phase : UpdatePhase)
    (p : Process ι Pid κ Info Term) (inbox : List Request) (updateStart : Bool)
    (r : Result ι Pid κ Info) : Prop :=
  let result := updateResult plan pid updateStart p.state.options
  ∃ phase', (p.after r.1 inbox result (r.2.filterMap (Output.answer? result))).At plan pid monitor
      options phase' ∧
    phase.Next phase' ∧ phase'.sent plan pid options =
      phase.sent plan pid options ++ r.2.filterMap (Output.answer? result)

theorem Process.At.goesOn_quiet (updateStart : Bool) (hquiet : Quiet Term p.state r) :
    p.GoesOn plan pid monitor options phase p.inbox updateStart r := by
  rw [Process.GoesOn, hquiet.outs, h.inbox, List.append_nil]
  refine ⟨phase, h.silent phase ?_ hquiet.options ⟨rfl, rfl, rfl⟩, .stay phase, rfl⟩
  rw [hquiet.plan]
  exact h.held

/-- The end of a request: a pending process answers, and one that waits takes its own step. -/
theorem Process.At.goesOn_done (hr : processQueuesWith (queueInfo mode infoOk) cancel
      (update plan pid p.state.updateStart p.state.options).toOption p.state = some r) :
    p.GoesOn plan pid monitor options phase p.inbox p.state.updateStart r := by
  have hheld := h.held
  rw [processQueuesWith] at hr
  cases phase with
  | pending =>
    obtain ⟨u, hu, hpending, hnow, _⟩ := hheld
    rw [hu] at hr
    dsimp only at hr
    rw [hnow, hpending] at hr
    cases hr
    rw [h.inbox]
    exact ⟨.ready, h.answers ⟨_, rfl, rfl, rfl, nofun⟩ rfl ⟨rfl, rfl⟩, .ready, rfl⟩
  | ready =>
    obtain ⟨u, hu, hpending, hnow, _⟩ := hheld
    rw [hu] at hr
    dsimp only at hr
    rw [hnow, hpending] at hr
    cases hr
    rw [h.inbox]
    exact ⟨.ready, h.silent .ready ⟨_, rfl, rfl, rfl, nofun⟩ rfl ⟨rfl, rfl, rfl⟩, .stay _, rfl⟩
  | told updateStart =>
    obtain ⟨u, hu, hpending, hnow, _⟩ := hheld
    rw [hu] at hr
    dsimp only at hr
    rw [hnow, hpending] at hr
    cases hr
    rw [h.inbox]
    exact ⟨.told updateStart, h.silent (.told updateStart) ⟨_, rfl, rfl, rfl, nofun⟩ rfl
      ⟨rfl, rfl, rfl⟩, .stay _, rfl⟩
  | waiting updateStart =>
    obtain ⟨u, hu, hpending, hnow, hstart, _⟩ := hheld
    rw [hu] at hr
    dsimp only at hr
    rw [hnow, hpending] at hr
    obtain ⟨r', hr', heq⟩ := map_eq_some_iff.mp hr
    cases heq
    obtain ⟨hnone, hoptions, houts⟩ := processUpdate_spec rfl rfl rfl hr'
    have hflag : p.state.updateStart = updateStart := by
      rw [State.updateStart, hu]
      exact hstart
    have hsent : (List.map Output.update none.toList ++ r'.2).filterMap (Output.answer?
        (updateResult plan pid p.state.updateStart p.state.options)) =
          [.updateNow (updateResult plan pid p.state.updateStart p.state.options)] :=
      houts _
    rw [Process.GoesOn, h.inbox, Receive.withOutputs, hsent, hflag]
    refine ⟨.finished updateStart, h.finishes hnone ?_ ⟨rfl, rfl⟩, .finished updateStart, ?_⟩
    · rw [hoptions, ← hflag]
    · rw [h.options]
      rfl
  | _ =>
    have hnone : p.state.updatePlan = none := hheld
    rw [hnone] at hr
    exact h.goesOn_quiet _ (quiet_processQueuesIdle hr)

end

/-- `cloudi_service_update`: the process is ready, or pending with a request. -/
theorem Process.At.goesOn_update (h : p.At plan pid monitor options .asked)
    (hr : handleUpdate monitor { sync := plan.sync } p.state = some r) (updateStart : Bool) :
    p.GoesOn plan pid monitor options .asked [] updateStart r := by
  have hnone : p.state.updatePlan = none := h.held
  rw [handleUpdate, hnone] at hr
  dsimp only at hr
  by_cases hsync : plan.sync = true ∧ p.state.queueRequests = true
  · rw [if_pos hsync] at hr
    cases hr
    refine ⟨.pending, h.silent .pending ⟨_, rfl, rfl, rfl, ?_⟩ rfl ⟨rfl, rfl, rfl⟩, .pending, rfl⟩
    dsimp only
    rw [hsync.2]
  · rw [if_neg hsync] at hr
    cases hr
    exact ⟨.ready, h.answers ⟨_, rfl, rfl, rfl, nofun⟩ rfl ⟨rfl, rfl⟩, .answer, rfl⟩

/-- `cloudi_service_update_now`: the process takes its own step, or waits with a request. -/
theorem Process.At.goesOn_updateNow (h : p.At plan pid monitor options (.told updateStart))
    (hr : handleUpdateNow (queueInfo mode infoOk) cancel
      (update plan pid updateStart p.state.options).toOption monitor updateStart p.state = some r) :
    p.GoesOn plan pid monitor options (.told updateStart) [] updateStart r := by
  obtain ⟨u, hu, hpending, hnow, hqueue⟩ := h.held
  rw [handleUpdateNow, hu] at hr
  dsimp only at hr
  cases hflag : u.queueRequests with
  | none => exact absurd hflag hqueue
  | some flag =>
    rw [hflag] at hr
    cases flag with
    | true =>
      cases hr
      exact ⟨.waiting updateStart, h.silent (.waiting updateStart)
        ⟨_, rfl, hpending, rfl, rfl, rfl⟩ rfl ⟨rfl, rfl, rfl⟩, .waiting updateStart, rfl⟩
    | false =>
      obtain ⟨hnone, hoptions, houts⟩ := processUpdate_spec rfl rfl rfl hr
      rw [Process.GoesOn, houts]
      refine ⟨.finished updateStart, h.finishes hnone hoptions ⟨rfl, rfl⟩, .finish updateStart, ?_⟩
      rw [h.options]
      rfl

/-- **A step of a process** stays in the phase or goes to the next one. -/
theorem Process.step_spec (h : p.At plan pid monitor options phase)
    (hstep : p.step plan pid monitor e = some (p', sent)) :
    ∃ phase', p'.At plan pid monitor options phase' ∧ phase.Next phase' ∧
      phase'.sent plan pid options = phase.sent plan pid options ++ sent := by
  rw [Process.step, bind_eq_some_iff] at hstep
  obtain ⟨⟨event, inbox, updateStart⟩, hevent, hstep⟩ := hstep
  obtain ⟨⟨removed, state, outs⟩, hhandle, hstep⟩ := map_eq_some_iff.mp hstep
  cases hstep
  show p.GoesOn plan pid monitor options phase inbox updateStart (state, outs)
  cases e with
  | send q byteSize rateRequestOk =>
    cases hevent
    refine h.goesOn_quiet _ ?_
    cases hmode : p.mode with
    | _ =>
      rw [hmode] at hhandle
      obtain ⟨r, hr, heq⟩ := map_eq_some_iff.mp hhandle
      cases heq
      exact quiet_handleSendWith (fun size s r => quiet_timeoutStart) hr
  | recvTimeout priority transId size =>
    cases hevent
    obtain ⟨⟨removed', s'⟩, hr, heq⟩ := map_eq_some_iff.mp hhandle
    cases heq
    exact h.goesOn_quiet _ (quiet_handleRecvTimeout hr)
  | info i =>
    cases hevent
    obtain ⟨r, hr, heq⟩ := map_eq_some_iff.mp hhandle
    cases heq
    exact h.goesOn_quiet _ (quiet_infoMessage hr)
  | done job cancel =>
    cases hevent
    obtain ⟨r, hr, heq⟩ := map_eq_some_iff.mp hhandle
    cases heq
    exact h.goesOn_done hr
  | request i cancel =>
    cases phase with
    | asked =>
      have hnone : p.state.updatePlan = none := h.held
      rw [Process.event?, h.inbox] at hevent
      cases hevent
      rw [handle, if_pos (by rw [hnone]; rfl)] at hhandle
      obtain ⟨r, hr, heq⟩ := map_eq_some_iff.mp hhandle
      cases heq
      exact h.goesOn_update hr true
    | told updateStart =>
      rw [Process.event?, h.inbox] at hevent
      cases hevent
      obtain ⟨r, hr, heq⟩ := map_eq_some_iff.mp hhandle
      cases heq
      exact h.goesOn_updateNow hr
    | _ =>
      rw [Process.event?, h.inbox] at hevent
      cases hevent

end CloudI.ServicesInternal.Receive
