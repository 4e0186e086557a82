import CloudI.ApiC.Decode
import CloudI.Library.Run

/-!
# ApiC.Calls

The calls of the C API on one instance: a call writes its request and then runs
`poll_request`, which may run a callback, which may make calls of its own.  The
results of `poll(2)`, `read` and `write` and the messages that are read are those of
the environment.
-/

namespace CloudI.ApiC

open Binary CloudI.Except Run Unpack Wire List

variable {e : Endianness}

/-! ## what the received bytes can come to -/

/-- The answers from one to another are written. -/
def Written (keepalives : Nat → Code) (sent sent' : Nat) : Prop :=
  ∀ i, sent ≤ i → i < sent' → keepalives i = .success

/-- A code that is not `cloudi_success`. -/
def Fails (outcome : Outcome) : Prop := ∃ code, code ≠ .success ∧ outcome = .returns code

theorem written_self (keepalives : Nat → Code) (sent : Nat) : Written keepalives sent sent :=
  fun _ hle hlt => absurd hlt (Nat.not_lt.mpr hle)

theorem Written.trans {keepalives : Nat → Code} (h : Written keepalives sent sent₁)
    (h' : Written keepalives sent₁ sent₂) : Written keepalives sent sent₂ := by
  intro i hle hlt
  by_cases hi : i < sent₁
  · exact h i hle hi
  · exact h' i (Nat.not_lt.mp hi) hlt

theorem written_succ {keepalives : Nat → Code} (h : keepalives sent = .success) :
    Written keepalives sent (sent + 1) := by
  intro i hle hlt
  obtain rfl : i = sent := by omega
  exact h

/-- The loop of the events stops with an error when an answer is not written; in a blocking
call it stops with no other code. -/
theorem handleEventsLoop_outcome {keepalives : Nat → Code} {p p' : Instance} {r : Option Code}
    (h : handleEventsLoop e external keepalives fuel p sent index command = .ok (p', sent', r)) :
    (Written keepalives sent sent' ∨ ∃ code, code ≠ .success ∧ r = some code) ∧
      (external = false → ∀ code, r = some code → code ≠ .success) := by
  induction fuel generalizing p sent index command with
  | zero => cases h
  | succ fuel ih =>
    rw [handleEventsLoop] at h
    obtain ⟨⟨p₁, sent₁, next⟩, hevent, h⟩ := ok_of_bind h
    have hnext : (∃ index', next = .inl index' ∧ Written keepalives sent sent₁) ∨
        ∃ code, next = .inr code ∧ (code ≠ .success ∨ Written keepalives sent sent₁) ∧
          (external = false → code ≠ .success) := by
      unfold handleEvent at hevent
      split at hevent
      case h_1 =>
        cases hevent
        refine .inr ⟨_, rfl, .inr (written_self _ _), ?_⟩
        rintro rfl
        decide
      case h_2 =>
        cases hstore : storeReinit e p index with
        | error failure =>
          rw [hstore] at hevent
          cases hevent
        | ok x =>
          rw [hstore] at hevent
          cases hevent
          exact .inl ⟨_, rfl, written_self _ _⟩
      case h_3 =>
        by_cases hok : keepalives sent = .success
        · rw [if_pos hok] at hevent
          cases hevent
          exact .inl ⟨_, rfl, written_succ hok⟩
        · rw [if_neg hok] at hevent
          cases hevent
          exact .inr ⟨_, rfl, .inl hok, fun _ => hok⟩
      case h_4 =>
        cases hevent
        exact .inr ⟨_, rfl, .inl (by decide), fun _ => by decide⟩
    rcases hnext with ⟨index', rfl, hwritten⟩ | ⟨code, rfl, hwritten, hblocking⟩
    · simp only at h
      by_cases hbehind : index' > p₁.bufferRecvIndex
      · rw [if_pos hbehind] at h
        cases h
        exact ⟨.inl hwritten, fun _ code hcode => by cases hcode; decide⟩
      · rw [if_neg hbehind] at h
        by_cases hend : index' = p₁.bufferRecvIndex
        · rw [if_pos hend] at h
          cases h
          exact ⟨.inl hwritten, fun _ code hcode => by cases hcode⟩
        · rw [if_neg hend] at h
          obtain ⟨⟨command', index''⟩, -, h⟩ := ok_of_bind h
          obtain ⟨hloop, hcode⟩ := ih h
          exact ⟨hloop.imp_left hwritten.trans, hcode⟩
    · cases h
      refine ⟨hwritten.symm.imp_right fun hcode => ⟨code, hcode, rfl⟩, ?_⟩
      intro hexternal code' hcode'
      cases hcode'
      exact hblocking hexternal

/-- The end of a message: its own outcome, or an error. -/
theorem finish_outcome {keepalives : Nat → Code} {x : Instance × Nat}
    (h : finish e external keepalives mode outcome sent x = .ok (p', sent', outcome')) :
    (Written keepalives sent sent' ∨ Fails outcome') ∧
      (external = false → outcome' = outcome ∨ Fails outcome') := by
  rw [finish] at h
  by_cases hmore : x.2 ≠ x.1.bufferRecvIndex
  · rw [if_pos hmore] at h
    by_cases hmode : external ≠ mode
    · rw [if_pos hmode] at h
      cases h
    · rw [if_neg hmode] at h
      obtain ⟨⟨p₁, sent₁, r⟩, hevents, h⟩ := ok_of_bind h
      rw [handleEvents] at hevents
      by_cases hbehind : x.2 > x.1.bufferRecvIndex
      · rw [if_pos hbehind] at hevents
        cases hevents
        cases h
        exact ⟨.inl (written_self _ _), fun _ => .inr ⟨_, by decide, rfl⟩⟩
      · rw [if_neg hbehind] at hevents
        obtain ⟨⟨command, index⟩, -, hevents⟩ := ok_of_bind hevents
        obtain ⟨hwritten, hcode⟩ := handleEventsLoop_outcome hevents
        cases r with
        | none =>
          cases h
          refine ⟨.inl (hwritten.resolve_right ?_), fun _ => .inl rfl⟩
          rintro ⟨code, -, hnone⟩
          cases hnone
        | some code =>
          cases h
          refine ⟨hwritten.imp_right ?_, fun hexternal => .inr ⟨code, hcode hexternal _ rfl, rfl⟩⟩
          rintro ⟨code', hcode', heq⟩
          cases heq
          exact ⟨code, hcode', rfl⟩
  · rw [if_neg hmore] at h
    cases h
    exact ⟨.inl (written_self _ _), fun _ => .inl rfl⟩

/-- What a message that is not an event can come to. -/
structure MessageOutcome (external : Bool) (keepalives : Nat → Code) (m : Message)
    (sent sent' : Nat) (outcome : Outcome) : Prop where
  written : Written keepalives sent sent' ∨ Fails outcome
  success : external = false → outcome = .returns .success → m.isReply = true ∨ ∃ x, m = .init x

/-- The end of a stored message. -/
theorem messageOutcome_of_finish {keepalives : Nat → Code} {m : Message} {next : Nat ⊕ Outcome}
    (h : (finish e external keepalives mode own sent x).map handleMessage.stop =
      .ok (p', sent', next))
    (hown : own = .returns .success → m.isReply = true ∨ ∃ x, m = .init x) :
    ∃ outcome, next = .inr outcome ∧ MessageOutcome external keepalives m sent sent' outcome := by
  cases hfinish : finish e external keepalives mode own sent x with
  | error failure =>
    rw [hfinish] at h
    cases h
  | ok y =>
    rw [hfinish] at h
    cases h
    have houtcome : (_ ∨ Fails y.2.2) ∧ _ := finish_outcome hfinish
    obtain ⟨hwritten, hsuccess⟩ := houtcome
    refine ⟨_, rfl, hwritten, fun hexternal heq => ?_⟩
    rcases hsuccess hexternal with hsame | ⟨code, hcode, hreturns⟩
    · exact hown (hsame.symm.trans heq)
    · rw [heq] at hreturns
      cases hreturns
      exact absurd rfl hcode

theorem handleMessage_outcome {keepalives : Nat → Code} {m : Message} {next : Nat ⊕ Outcome}
    (hevent : m.events = [])
    (h : handleMessage e external keepalives p sent index m.number = .ok (p', sent', next)) :
    ∃ outcome, next = .inr outcome ∧ MessageOutcome external keepalives m sent sent' outcome := by
  cases m with
  | event x => cases hevent
  | init x =>
    obtain ⟨x, -, h⟩ := ok_of_bind h
    exact messageOutcome_of_finish h fun _ => .inr ⟨_, rfl⟩
  | sendAsync x =>
    obtain ⟨x, -, h⟩ := ok_of_bind h
    exact messageOutcome_of_finish h nofun
  | sendSync x =>
    obtain ⟨x, -, h⟩ := ok_of_bind h
    exact messageOutcome_of_finish h nofun
  | term =>
    obtain ⟨⟨p₁, sent₁, r⟩, hloop, h⟩ := ok_of_bind h
    cases r with
    | none => cases h
    | some code =>
      cases h
      obtain ⟨hwritten, hcode⟩ := handleEventsLoop_outcome hloop
      refine ⟨_, rfl, hwritten.imp_right ?_, fun hexternal heq => ?_⟩
      · rintro ⟨code', hcode', heq⟩
        cases heq
        exact ⟨code, hcode', rfl⟩
      · exact absurd (Outcome.returns.inj heq) (hcode hexternal code rfl)
  | _ =>
    obtain ⟨x, -, h⟩ := ok_of_bind h
    exact messageOutcome_of_finish h fun _ => .inl rfl

/-- What the received messages can come to, when the answers to the keepalive messages in
front are written. -/
structure ReceivedOutcome (external : Bool) (keepalives : Nat → Code) (messages : List Message)
    (sent sent' : Nat) (outcome : Outcome) : Prop where
  written : Written keepalives sent sent' ∨ Fails outcome
  success : external = false → outcome = .returns .success →
    ∃ m, firstOther messages = some m ∧ (m.isReply = true ∨ ∃ x, m = .init x)

theorem handleMessages_outcome {keepalives : Nat → Code} {messages : List Message}
    (hadmitted : ∀ m ∈ messages, m.Admitted) (hout : messagesOut e messages = some b)
    (hnil : messages ≠ []) {p : Instance} (hbuffer : p.bufferRecv.length < 2 ^ 32)
    (hend : p.bufferRecvIndex = p.bufferRecv.length) (hat : At p.bufferRecv index b)
    (hanswered : Answered keepalives sent (leadingEvents messages))
    (h : handleMessages e external keepalives fuel p sent index = .ok (p', sent', outcome)) :
    ReceivedOutcome external keepalives messages sent sent' outcome := by
  induction messages generalizing p index sent fuel b with
  | nil => exact absurd rfl hnil
  | cons m messages ih =>
    obtain ⟨b₁, b₂, h₁, h₂, rfl⟩ := messagesOut_cons_eq_some hout
    cases fuel with
    | zero => cases h
    | succ fuel =>
    by_cases hevent : m.events = []
    · obtain ⟨body, rfl⟩ := out_eq_some h₁
      rw [append_assoc] at hat
      have hread := (storeIncomingUint32_at hat hbuffer (number_lt m)).1
      simp only [handleMessages, hread, ok_bind] at h
      obtain ⟨⟨p₁, sent₁, next⟩, hmessage, h⟩ := ok_of_bind h
      obtain ⟨outcome', rfl, hwritten, hsuccess⟩ := handleMessage_outcome hevent hmessage
      cases h
      exact ⟨hwritten, fun hexternal heq =>
        ⟨m, firstOther_cons hevent messages, hsuccess hexternal heq⟩⟩
    · obtain ⟨x, rfl⟩ : ∃ x, m = .event x := by
        cases m with
        | event x => exact ⟨x, rfl⟩
        | _ => exact absurd rfl hevent
      obtain ⟨hx, hrest⟩ := answered_cons.mp hanswered
      obtain ⟨i₁, i₂, hread, a₂, -, hok, -⟩ := event_eq (hadmitted _ mem_cons_self) h₁
        hbuffer hat external keepalives sent
      simp only [handleMessages, hread, (hok hx).2, ok_bind] at h
      have hfirst : Written keepalives sent (sent + x.answers) := by
        cases x with
        | reinit x => exact written_self _ _
        | keepalive => exact written_succ (hx rfl)
      by_cases hlast : i₂ = p.bufferRecvIndex
      · rw [if_pos hlast] at h
        cases h
        exact ⟨.inl hfirst, fun _ heq => by cases heq⟩
      · rw [if_neg hlast] at h
        have hnil' : messages ≠ [] := by
          rintro rfl
          cases h₂
          have hlen := a₂.length
          simp only [length_nil] at hlen
          omega
        by_cases hmore : i₂ < p.bufferRecvIndex
        · rw [if_pos hmore] at h
          obtain ⟨hwritten, hsuccess⟩ := ih (fun y hy => hadmitted y (mem_cons_of_mem _ hy))
            h₂ hnil' (p := { p with settings := p.settings.after x }) hbuffer hend a₂ hrest h
          exact ⟨hwritten.imp_left hfirst.trans, hsuccess⟩
        · have hlen := a₂.length
          omega

/-- The messages that one `read_all` gets. -/
theorem received_outcome {keepalives : Nat → Code} {messages : List Message}
    (hadmitted : ∀ m ∈ messages, m.Admitted) (hout : messagesOut e messages = some b)
    (hsize : b.length < 2 ^ 32) (hanswered : Answered keepalives 0 (leadingEvents messages))
    (h : received e external keepalives p b = .ok (p', sent, outcome)) :
    ReceivedOutcome external keepalives messages 0 sent outcome := by
  cases messages with
  | nil =>
    cases hout
    cases h
    exact ⟨.inl (written_self _ _), fun _ heq => by cases heq⟩
  | cons m messages =>
    have hpos : b.length ≠ 0 := by
      obtain ⟨b₁, b₂, h₁, -, rfl⟩ := messagesOut_cons_eq_some hout
      have hfirst := length_out_pos h₁
      rw [length_append]
      omega
    have hreceived : received e external keepalives p b =
        handleMessages e external keepalives (b.length + 1)
          { p with bufferRecv := b, bufferRecvIndex := b.length } 0 0 := if_neg hpos
    rw [hreceived] at h
    exact handleMessages_outcome hadmitted hout (cons_ne_nil _ _) hsize rfl
      ⟨Nat.zero_add _, rfl⟩ hanswered h

/-! ## the calls -/

/-- The calls that wait for a reply. -/
inductive BlockingCall where
  | sendAsync | sendSync | mcastAsync | recvAsync | subscribeCount
deriving DecidableEq

/-- A call of the API; `command` is one that only writes. -/
inductive Call where
  | initialization
  | blocking (call : BlockingCall)
  | poll
  | command
deriving DecidableEq

/-- What encoding and writing a message comes to. -/
inductive WriteResult where
  | ok
  | encode
  | overflow
  | error (errno : Errno)
  | null
deriving DecidableEq

/-- The code of it; the last two are those of `write_exact`. -/
def WriteResult.code : WriteResult → Code
  | .ok => .success
  | .encode => .eiEncode
  | .overflow => .writeOverflow
  | .error errno => .write errno
  | .null => .writeNull

/-- Why `read_all` fails. -/
inductive ReadFailure where
  | memory
  | error (errno : Errno)
  | null
  | poll (errno : Errno)
deriving DecidableEq

/-- What `read_all` returns. -/
def ReadFailure.code : ReadFailure → Code
  | .memory => .outOfMemory
  | .error errno => .read errno
  | .null => .readNull
  | .poll errno => .poll errno

/-- A function that has not returned: `poll_request` of a call, or a callback.  Whether a reply
was decoded in the call and whether a read, write or poll of it failed is recorded; the
code does not look at it. -/
inductive Frame where
  | poll (call : Call) (replied failed : Bool)
  | callback
deriving DecidableEq

/-- A call that returned. -/
structure Return where
  call : Call
  code : Code
  replied : Bool
  failed : Bool
deriving DecidableEq

/-- The instance, the functions that have not returned, the innermost first, and the calls
that have. -/
structure Client where
  p : Instance := {}
  stack : List Frame := []
  returned : List Return := []

/-- A step: a call of the program or of a callback, a callback that returns by an exception of
`cloudi_return` or `cloudi_forward`, ends (also with the exception of a failed assertion, which
`callback` catches) or lets an exception out that `callback` does not answer, and what `poll(2)`
and `read_all` of the innermost `poll_request` come to. -/
inductive Label where
  | call (call : Call) (written : WriteResult)
  | callbackReturns (written : WriteResult)
  | callbackEnds (written : WriteResult)
  | callbackThrows
  | timedOut
  | pollFails (errno : Errno)
  | readFails (failure : ReadFailure)
  | reads (messages : List Message) (keepalives : Nat → WriteResult)

/-- A call returns. -/
def Client.return_ (s : Client) (stack : List Frame) (call : Call) (code : Code)
    (replied failed : Bool) : Client :=
  { s with stack, returned := ⟨call, code, replied, failed⟩ :: s.returned }

/-- Whether the program or a callback runs. -/
def Client.runs (s : Client) : Bool :=
  match s.stack with
  | .poll _ _ _ :: _ => false
  | _ => true

/-- `poll_request` of a call begins. -/
def Client.enter (s : Client) (call : Call) : Client :=
  if s.p.terminate then s.return_ s.stack call .success false false
  else { s with stack := .poll call false false :: s.stack }

/-- A call, with the result of its write. -/
def Client.makes (s : Client) (written : WriteResult) : Call → Client
  | .initialization =>
      if written = .ok then ({ s with p := {} } : Client).enter .initialization
      else ({ s with p := {} } : Client).return_ s.stack .initialization written.code false true
  | .blocking call =>
      if written = .ok then s.enter (.blocking call)
      else s.return_ s.stack (.blocking call) written.code false true
  | .poll =>
      -- `polling` is written in the first `cloudi_poll`
      if s.p.terminate ∨ s.p.initializationComplete then s.enter .poll
      else if written = .ok then
        ({ s with p := { s.p with initializationComplete := true } } : Client).enter .poll
      else s.return_ s.stack .poll written.code false true
  | .command => s.return_ s.stack .command written.code false (written ≠ .ok)

/-- Whether the first message that is not an event is a reply. -/
def repliesIn (messages : List Message) : Bool := (firstOther messages).any (·.isReply)

/-- Whether one of the first answers to keepalive messages is not written. -/
def writeFails (keepalives : Nat → WriteResult) (sent : Nat) : Bool :=
  (List.range sent).any fun i => keepalives i ≠ .ok

/-- `poll_request` goes on after `read_all`. -/
def Client.resumes (e : Endianness) (s : Client) (stack : List Frame) (call : Call)
    (replied failed : Bool) (messages : List Message) (keepalives : Nat → WriteResult)
    (bytes : Binary) : Option Client :=
  match received e (call = .poll) (fun i => (keepalives i).code) s.p bytes with
  | .error .outside => none
  -- the exception leaves the call: it is the caller's, a callback or the program, to catch
  | .error (.assertion p) => some { s with p, stack }
  | .ok (p, sent, outcome) =>
      let replied := replied || repliesIn messages
      let failed := failed || writeFails keepalives sent
      match outcome with
      | .returns code => some (({ s with p } : Client).return_ stack call code replied failed)
      | .waits => some { s with p, stack := .poll call replied failed :: stack }
      | .callback _ =>
          some { s with p, stack := .callback :: .poll call replied failed :: stack }

/-- A step; `none` is a step that cannot happen here. -/
def Client.step (e : Endianness) (s : Client) (l : Label) : Option Client :=
  match l, s.stack with
  | .call call written, _ => if s.runs then some (s.makes written call) else none
  | .callbackReturns written, .callback :: stack =>
      if written = .ok then some { s with stack }
      else some (s.return_ s.stack .command written.code false true)
  | .callbackEnds written, .callback :: stack =>
      -- the empty answer that is not written fails an assertion, which leaves `callback` and the
      -- `poll_request` that runs it
      if written = .ok then some { s with stack } else some { s with stack := stack.tail }
  | .callbackThrows, .callback :: stack => some { s with stack := stack.tail }
  | .timedOut, .poll call replied failed :: stack =>
      -- `cloudi_initialize` polls again
      if call = .initialization then some s
      else some (s.return_ stack call .timeout replied failed)
  | .pollFails errno, .poll call replied _ :: stack =>
      some (s.return_ stack call (.poll errno) replied true)
  | .readFails failure, .poll call replied _ :: stack =>
      some (s.return_ stack call failure.code replied true)
  | .reads messages keepalives, .poll call replied failed :: stack =>
      match messagesOut e messages with
      | none => none
      | some bytes =>
          if bytes.length < 2 ^ 32 ∧ ∀ m ∈ messages, m.Admitted then
            s.resumes e stack call replied failed messages keepalives bytes
          else none
  | _, _ => none

/-! ## the property -/

/-- **A call that returned as it should**: a blocking call that returned `cloudi_success`
decoded a reply, and a call in which something failed returned an error. -/
structure Return.Right (r : Return) : Prop where
  replied : (∃ call, r.call = .blocking call) → r.code = .success → r.replied = true
  failed : r.failed = true → r.code ≠ .success

/-- Every call that returned did so as it should. -/
def Client.Right (s : Client) : Prop := ∀ r ∈ s.returned, r.Right

/-- Whether the innermost `poll_request` is that of a blocking call. -/
def Client.blocks (s : Client) : Bool :=
  match s.stack with
  | .poll (.blocking _) _ _ :: _ => true
  | _ => false

/-- **The condition on a step**: no blocking call is made of a terminated instance; the answers
to the keepalive messages in front of the first other message are written; and that
message is no initialization in a blocking call. -/
def Fits (s : Client) : Label → Prop
  | .call (.blocking _) written => written = .ok → s.p.terminate = false
  | .reads messages keepalives =>
      Answered (fun i => (keepalives i).code) 0 (leadingEvents messages) ∧
        (s.blocks = true → (firstOther messages).any (·.isInit) = false)
  | _ => True

instance (s : Client) (l : Label) : Decidable (Fits s l) := by
  unfold Fits
  split <;> infer_instance

/-- The functions that have not returned had no failure. -/
def Frame.Sound : Frame → Prop
  | .poll _ _ failed => failed = false
  | .callback => True

/-- **The invariant**. -/
structure Client.Sound (s : Client) : Prop where
  returned : ∀ r ∈ s.returned, r.Right
  stack : ∀ frame ∈ s.stack, frame.Sound

theorem WriteResult.code_eq_success {written : WriteResult} :
    written.code = .success ↔ written = .ok := by
  cases written <;> simp [WriteResult.code]

theorem ReadFailure.code_ne_success (failure : ReadFailure) : failure.code ≠ .success := by
  cases failure <;> simp [ReadFailure.code]

theorem Client.Sound.return_ {s : Client} (hs : s.Sound) {call : Call} {stack : List Frame}
    (hstack : ∀ frame ∈ stack, frame ∈ s.stack)
    (hright : (⟨call, code, replied, failed⟩ : Return).Right) :
    (s.return_ stack call code replied failed).Sound where
  returned := by
    intro r hr
    rcases mem_cons.mp hr with rfl | hr
    · exact hright
    · exact hs.returned r hr
  stack := fun frame hframe => hs.stack frame (hstack frame hframe)

/-- The function that is left. -/
theorem Client.Sound.rest {s : Client} (hs : s.Sound) {frame : Frame} {stack : List Frame}
    (hstack : s.stack = frame :: stack) : ({ s with stack } : Client).Sound where
  returned := hs.returned
  stack := fun frame' hframe => hs.stack frame' (hstack ▸ mem_cons_of_mem _ hframe)

/-- An exception leaves the functions in front of the one that catches it. -/
theorem Client.Sound.throws {s : Client} (hs : s.Sound) (p : Instance) {stack : List Frame}
    (hstack : stack <:+ s.stack) : ({ s with p, stack } : Client).Sound where
  returned := hs.returned
  stack := fun frame hframe => hs.stack frame (hstack.subset hframe)

theorem right_of_error {call : Call} (hcode : code ≠ .success) (replied failed : Bool) :
    (⟨call, code, replied, failed⟩ : Return).Right :=
  ⟨fun _ heq => absurd heq hcode, fun _ => hcode⟩

/-- A call that is not blocking and had no failure. -/
theorem right_of_not_blocking {call : Call} (hcall : ∀ c, call ≠ .blocking c) (code : Code)
    (replied : Bool) : (⟨call, code, replied, false⟩ : Return).Right :=
  ⟨fun h => h.elim fun c hc => absurd hc (hcall c), nofun⟩

theorem Client.Sound.enter {s : Client} (hs : s.Sound) {call : Call}
    (hfits : ∀ c, call = .blocking c → s.p.terminate = false) : (s.enter call).Sound := by
  rw [Client.enter]
  by_cases hterminate : s.p.terminate = true
  · rw [if_pos hterminate]
    refine hs.return_ (fun _ h => h) (right_of_not_blocking ?_ .success false)
    intro c hc
    rw [hfits c hc] at hterminate
    cases hterminate
  · rw [if_neg hterminate]
    refine ⟨hs.returned, fun frame hframe => ?_⟩
    rcases mem_cons.mp hframe with rfl | hframe
    · rfl
    · exact hs.stack frame hframe

theorem Client.Sound.makes {s : Client} {call : Call} (hs : s.Sound)
    (hfits : Fits s (.call call written)) : (s.makes written call).Sound := by
  have hsame : ∀ p, ({ s with p } : Client).Sound := fun p => ⟨hs.returned, hs.stack⟩
  cases call with
  | command =>
    have hright : (⟨.command, written.code, false, written ≠ .ok⟩ : Return).Right := by
      refine ⟨fun h => ?_, fun hfailed => ?_⟩
      · obtain ⟨c, hc⟩ := h
        cases hc
      · exact fun hcode => of_decide_eq_true hfailed (WriteResult.code_eq_success.mp hcode)
    exact hs.return_ (fun _ h => h) hright
  | initialization =>
    rw [Client.makes]
    by_cases hok : written = .ok
    · rw [if_pos hok]
      exact (hsame {}).enter fun c hc => by cases hc
    · rw [if_neg hok]
      exact (hsame {}).return_ (fun _ h => h)
        (right_of_error (fun heq => hok (WriteResult.code_eq_success.mp heq)) _ _)
  | blocking c =>
    rw [Client.makes]
    by_cases hok : written = .ok
    · rw [if_pos hok]
      exact hs.enter fun c' hc => hfits hok
    · rw [if_neg hok]
      exact hs.return_ (fun _ h => h)
        (right_of_error (fun heq => hok (WriteResult.code_eq_success.mp heq)) _ _)
  | poll =>
    rw [Client.makes]
    by_cases hskip : s.p.terminate = true ∨ s.p.initializationComplete = true
    · rw [if_pos hskip]
      exact hs.enter fun c hc => by cases hc
    · rw [if_neg hskip]
      by_cases hok : written = .ok
      · rw [if_pos hok]
        exact (hsame _).enter fun c hc => by cases hc
      · rw [if_neg hok]
        exact hs.return_ (fun _ h => h)
          (right_of_error (fun heq => hok (WriteResult.code_eq_success.mp heq)) _ _)

/-- Failed writes among the first answers. -/
theorem not_written_of_writeFails {keepalives : Nat → WriteResult}
    (h : writeFails keepalives sent = true) : ¬ Written (fun i => (keepalives i).code) 0 sent := by
  obtain ⟨i, hi, hfails⟩ := any_eq_true.mp h
  intro hwritten
  have hcode := hwritten i (Nat.zero_le i) (mem_range.mp hi)
  exact of_decide_eq_true hfails (WriteResult.code_eq_success.mp hcode)

/-- `poll_request` goes on as it should. -/
theorem Client.Sound.resumes {s s' : Client} (hs : s.Sound) {call : Call} {stack : List Frame}
    (hstack : s.stack = .poll call replied failed :: stack)
    (hfits : Fits s (.reads messages keepalives)) (hout : messagesOut e messages = some bytes)
    (hsize : bytes.length < 2 ^ 32) (hadmitted : ∀ m ∈ messages, m.Admitted)
    (h : s.resumes e stack call replied failed messages keepalives bytes = some s') : s'.Sound := by
  have hall : ∀ frame ∈ Frame.poll call replied failed :: stack, frame.Sound := hstack ▸ hs.stack
  obtain ⟨hframe, hrest⟩ := forall_mem_cons.mp hall
  obtain rfl : failed = false := hframe
  rw [Client.resumes] at h
  cases hreceived : received e (call = .poll) (fun i => (keepalives i).code) s.p bytes with
  | error failure =>
    rw [hreceived] at h
    cases failure with
    | outside => cases h
    | assertion p =>
      cases h
      exact hs.throws p (hstack ▸ suffix_cons _ _)
  | ok x =>
    obtain ⟨p, sent, outcome⟩ := x
    obtain ⟨hwritten, hsuccess⟩ := received_outcome hadmitted hout hsize hfits.1 hreceived
    have hnot : ¬ Fails outcome → writeFails keepalives sent = false := by
      intro hok
      rw [Bool.eq_false_iff]
      exact fun hfails => not_written_of_writeFails hfails (hwritten.resolve_right hok)
    rw [hreceived] at h
    cases outcome with
    | returns code =>
      cases h
      refine ⟨fun r hr => ?_, fun frame hframe => hrest frame hframe⟩
      rcases mem_cons.mp hr with rfl | hr
      · refine ⟨?_, fun hfailed hcode => ?_⟩
        · rintro ⟨c, rfl⟩ rfl
          obtain ⟨m, hm, hreply⟩ := hsuccess rfl rfl
          have hreply' : m.isReply = true := by
            refine hreply.resolve_right ?_
            rintro ⟨x, rfl⟩
            have hblocks : s.blocks = true := by rw [Client.blocks, hstack]
            have hinit := hfits.2 hblocks
            rw [hm] at hinit
            cases hinit
          have hreplies : repliesIn messages = true := by
            rw [repliesIn, hm]
            exact hreply'
          show (replied || repliesIn messages) = true
          rw [hreplies, Bool.or_true]
        · have hcode' : code = .success := hcode
          subst hcode'
          have hok := hnot (by rintro ⟨code, hcode, heq⟩; cases heq; exact hcode rfl)
          have hfailed' : (false || writeFails keepalives sent) = true := hfailed
          rw [hok] at hfailed'
          cases hfailed'
      · exact hs.returned r hr
    | waits =>
      cases h
      refine ⟨hs.returned, fun frame hframe => ?_⟩
      rcases mem_cons.mp hframe with rfl | hframe
      · exact hnot (by rintro ⟨code, -, heq⟩; cases heq)
      · exact hrest frame hframe
    | callback args =>
      cases h
      refine ⟨hs.returned, fun frame hframe => ?_⟩
      rcases mem_cons.mp hframe with rfl | hframe
      · trivial
      · rcases mem_cons.mp hframe with rfl | hframe
        · exact hnot (by rintro ⟨code, -, heq⟩; cases heq)
        · exact hrest frame hframe

theorem Client.Sound.step {s s' : Client} {l : Label} (hs : s.Sound) (hfits : Fits s l)
    (h : s.step e l = some s') : s'.Sound := by
  unfold Client.step at h
  split at h
  case h_1 call written =>
    split at h
    case isTrue =>
      cases h
      exact hs.makes hfits
    case isFalse => cases h
  case h_2 written stack hstack =>
    split at h
    case isTrue =>
      cases h
      exact hs.rest hstack
    case isFalse hwritten =>
      cases h
      have hcode : written.code ≠ .success := mt WriteResult.code_eq_success.mp hwritten
      exact hs.return_ (fun _ h => h) (right_of_error hcode _ _)
  case h_3 written stack hstack =>
    split at h
    case isTrue =>
      cases h
      exact hs.rest hstack
    case isFalse =>
      cases h
      exact (hs.rest hstack).throws s.p (tail_suffix stack)
  case h_4 stack hstack =>
    cases h
    exact (hs.rest hstack).throws s.p (tail_suffix stack)
  case h_5 call replied failed stack hstack =>
    split at h
    case isTrue =>
      cases h
      exact hs
    case isFalse =>
      cases h
      have hcode : Code.timeout ≠ .success := nofun
      exact (hs.rest hstack).return_ (fun _ h => h) (right_of_error hcode _ _)
  case h_6 errno call replied failed stack hstack =>
    cases h
    have hcode : Code.poll errno ≠ .success := nofun
    exact (hs.rest hstack).return_ (fun _ h => h) (right_of_error hcode _ _)
  case h_7 failure call replied failed stack hstack =>
    cases h
    exact (hs.rest hstack).return_ (fun _ h => h) (right_of_error failure.code_ne_success _ _)
  case h_8 messages keepalives call replied failed stack hstack =>
    split at h
    case h_1 => cases h
    case h_2 bytes hout =>
      split at h
      case isTrue hadmitted => exact hs.resumes hstack hfits hout hadmitted.1 hadmitted.2 h
      case isFalse => cases h
  case h_9 => cases h

/-- **Success means a reply**: in every run of calls, messages and failures whose steps meet the
condition, every call that returned did so as it should. -/
theorem right_of_steps (h : Steps (Client.step e) Fits {} labels s) : s.Right := by
  have hsound : s.Sound :=
    h.invariant (fun _ _ _ hs hfits hstep => hs.step hfits hstep)
      ⟨fun _ h => absurd h not_mem_nil, fun _ h => absurd h not_mem_nil⟩
  exact hsound.returned

/-! ## runs -/

/-- An instance is initialized and polls. -/
def polling : List Label :=
  [.call .initialization .ok,
   .reads [.init ⟨0, 1, 1, 1, [47], 5000, 5000, 5000, 2000, 0⟩] fun _ => .ok,
   .call .poll .ok]

/-- A request with one byte. -/
def oneByte : Message :=
  .sendSync ⟨[47, 97], [47, 97], [], [1], 5000, 0, List.replicate 16 7, [131, 97, 1]⟩

/-- The callback of a request makes a blocking call, with a keepalive message in front of the
reply.  In a second one a request with an event behind it fails an assertion, and the callback
of the first request is answered all the same. -/
def nestedCall : List Label :=
  polling ++
  [.reads [oneByte] fun _ => .ok,
   .call (.blocking .sendSync) .ok,
   .reads [.event .keepalive, .returnSync ⟨[], [2], List.replicate 16 8⟩] fun _ => .ok,
   .call (.blocking .sendSync) .ok,
   .reads [oneByte, .event .keepalive] fun _ => .ok,
   .callbackEnds .ok,
   .timedOut]

theorem right_of_steps_nestedCall : ((run (Client.step .little) {} nestedCall).getD {}).Right :=
  right_of_steps (steps_getD_of_checked (by decide +kernel))

/-- A blocking call after the termination. -/
def terminated : List Label :=
  polling ++ [.reads [.term] fun _ => .ok, .call (.blocking .sendSync) .ok]

/-- Without the condition, `cloudi_success` is returned without a reply. -/
theorem success_without_reply :
    ¬ ∀ e labels s, Steps (Client.step e) (fun _ _ => True) {} labels s → s.Right := by
  intro h
  have hsome : (run (Client.step .little) {} terminated).isSome = true := by decide +kernel
  obtain ⟨s, hrun⟩ := Option.isSome_iff_exists.mp hsome
  have hright := h .little terminated s (steps_of_run hrun)
  have hfirst : ((run (Client.step .little) {} terminated).map (·.returned.head?)) =
      some (some ⟨.blocking .sendSync, .success, false, false⟩) := by decide +kernel
  rw [hrun] at hfirst
  have hmem := mem_of_head? (Option.some.inj hfirst)
  have hreplied := (hright _ hmem).replied ⟨_, rfl⟩ rfl
  cases hreplied

end CloudI.ApiC
