import CloudI.ApiC.PollRequest
import CloudI.Library.Unpack

/-!
# ApiC.Decode

The C API decodes what the encoders write: every message, followed by any number of
events, is read inside of the received bytes and to their end, and its fields are
stored or passed to the callback.

The one exception is an assertion: events behind a message are accepted behind a
request only in `cloudi_poll`, and behind any other message only in a blocking call.
-/

namespace CloudI.ApiC

open Binary CloudI.Except Unpack Wire List Option

variable {e : Endianness} {buffer rest : Binary}

/-! ## reading from the rest of a buffer -/

theorem holds_at (h : At buffer index (data ++ rest)) : Holds buffer index data :=
  holds_of_drop_eq h.drop

theorem uint32_at (h : At buffer index (data ++ rest)) (hbuffer : buffer.length < 2 ^ 32) :
    uint32 (index + data.length) = index + data.length := by
  have hle := h.append.length
  exact Nat.mod_eq_of_lt (by omega)

theorem storeIncomingUint32_at (h : At buffer index (native e 4 n ++ rest))
    (hbuffer : buffer.length < 2 ^ 32) (hn : n < 2 ^ 32) :
    storeIncomingUint32 e buffer index = .ok (n, index + 4) ∧ At buffer (index + 4) rest := by
  have hindex := uint32_at h hbuffer
  have hrest := h.append
  rw [length_native] at hindex hrest
  have hle : index + 4 ≤ buffer.length := by
    have hlen := hrest.length
    omega
  rw [storeIncomingUint32, if_pos hle, h.drop, take_left' (length_native e 4 n),
    nativeValue_native e hn, hindex]
  exact ⟨rfl, hrest⟩

theorem storeIncomingInt8_at (h : At buffer index (int8 n :: rest)) (hbuffer : buffer.length < 2 ^ 32)
    (hn : -128 ≤ n) (hn' : n ≤ 127) :
    storeIncomingInt8 buffer index = .ok (n, index + 1) ∧ At buffer (index + 1) rest := by
  have hcons : At buffer index ([Wire.int8 n] ++ rest) := h
  have hindex := uint32_at hcons hbuffer
  have hbyte : buffer[index]? = some (Wire.int8 n) := holds_at hcons 0 (Wire.int8 n) rfl
  rw [storeIncomingInt8, hbyte]
  refine ⟨?_, hcons.append⟩
  show Except.ok (int8Value (Wire.int8 n), ApiC.uint32 (index + 1)) = _
  rw [int8Value_int8 hn hn']
  exact congrArg (fun i => Except.ok (n, i)) hindex

theorem pointer_at (h : At buffer index (data ++ rest)) (hbuffer : buffer.length < 2 ^ 32)
    (hsize : size = data.length) :
    pointer buffer index size = .ok (index, index + size) ∧ At buffer (index + size) rest ∧
      Holds buffer index data := by
  subst hsize
  have hle : index ≤ buffer.length := by
    have hlen := h.length
    omega
  rw [ApiC.pointer, if_pos hle, uint32_at h hbuffer]
  exact ⟨rfl, h.append, holds_at h⟩

theorem storeIncomingBinary_at (h : At buffer index (native e 4 data.length ++ (data ++ rest)))
    (hbuffer : buffer.length < 2 ^ 32) (hsize : data.length < 2 ^ 32) :
    storeIncomingBinary e buffer index = .ok (data, index + 4 + data.length) ∧
      At buffer (index + 4 + data.length) rest := by
  obtain ⟨hread, hdata⟩ := storeIncomingUint32_at h hbuffer hsize
  have hle : index + 4 + data.length ≤ buffer.length := by
    have hlen := hdata.append.length
    omega
  have hindex := uint32_at hdata hbuffer
  simp only [storeIncomingBinary, hread, ok_bind]
  rw [if_pos hle, hdata.drop, take_left, hindex]
  exact ⟨rfl, hdata.append⟩

/-! ## the fields -/

/-- The settings of an initialization. -/
def Settings.ofInit (x : Init) : Settings where
  processIndex := x.processIndex
  processCount := x.processCount
  processCountMax := x.processCountMax
  processCountMin := x.processCountMin
  namePrefix := x.namePrefix ++ [0]
  timeoutInitialize := x.timeoutInit
  timeoutAsync := x.timeoutAsync
  timeoutSync := x.timeoutSync
  timeoutTerminate := timeoutTerminateExternal x.timeoutTerm
  priorityDefault := x.priorityDefault

/-- The settings after an event. -/
def Settings.after (s : Settings) : Event → Settings
  | .reinit x =>
      { s with processCount := x.processCount
               timeoutAsync := x.timeoutAsync
               timeoutSync := x.timeoutSync
               priorityDefault := x.priorityDefault }
  | .keepalive => s

/-- The settings of a message. -/
def Settings.afterMessage (s : Settings) : Message → Settings
  | .init x => .ofInit x
  | .event x => s.after x
  | _ => s

/-- The pointers of an instance are to the fields of a response. -/
structure Instance.Responds (p : Instance) (x : Response) : Prop where
  responseInfoSize : p.responseInfoSize = x.responseInfo.length
  responseInfo : Holds p.bufferRecv p.responseInfo (x.responseInfo ++ [0])
  responseSize : p.responseSize = x.response.length
  response : Holds p.bufferRecv p.response (x.response ++ [0])
  transIdCount : p.transIdCount = 1
  transId : Holds p.bufferRecv p.transId x.transId

/-- The arguments of a callback are the fields of a request; the strings are
null-terminated. -/
structure Callback.Passes (buffer : Binary) (args : Callback) (x : Request) : Prop where
  name : Holds buffer args.name (x.name ++ [0])
  pattern : Holds buffer args.pattern (x.pattern ++ [0])
  requestInfoSize : args.requestInfoSize = x.requestInfo.length
  requestInfo : Holds buffer args.requestInfo (x.requestInfo ++ [0])
  requestSize : args.requestSize = x.request.length
  request : Holds buffer args.request (x.request ++ [0])
  timeout : args.timeout = x.timeout
  priority : args.priority = x.priority
  transId : Holds buffer args.transId x.transId
  pidSize : args.pidSize = x.source.length
  pid : Holds buffer args.pid x.source

variable {p : Instance} {b : Binary} {events : List Event}

theorem storeReinit_eq (hx : x.Admitted) (hpriority : -128 ≤ x.priorityDefault)
    (hpriority' : x.priorityDefault ≤ 127) (hcount : x.processCount < 2 ^ 32)
    (hbuffer : p.bufferRecv.length < 2 ^ 32) (h : At p.bufferRecv index (reinitBody e x ++ rest)) :
    ∃ index', storeReinit e p index =
        .ok ({ p with settings := p.settings.after (.reinit x) }, index') ∧
      At p.bufferRecv index' rest := by
  simp only [reinitBody, append_assoc, cons_append, nil_append] at h
  obtain ⟨h₁, a₁⟩ := storeIncomingUint32_at h hbuffer hcount
  obtain ⟨h₂, a₂⟩ := storeIncomingUint32_at a₁ hbuffer hx.1
  obtain ⟨h₃, a₃⟩ := storeIncomingUint32_at a₂ hbuffer hx.2
  obtain ⟨h₄, a₄⟩ := storeIncomingInt8_at a₃ hbuffer hpriority hpriority'
  refine ⟨_, ?_, a₄⟩
  simp only [storeReinit, h₁, h₂, h₃, h₄, ok_bind]
  rfl

theorem length_nullTerminated_lt (h : At buffer index (nullTerminated e b ++ rest))
    (hbuffer : buffer.length < 2 ^ 32) : b.length + 1 < 2 ^ 32 := by
  have hlen := h.append.length
  simp only [nullTerminated, length_append, length_native, length_singleton] at hlen
  omega

theorem nullTerminated_at (h : At buffer index (nullTerminated e b ++ rest))
    (hbuffer : buffer.length < 2 ^ 32) :
    storeIncomingUint32 e buffer index = .ok (b.length + 1, index + 4) ∧
      At buffer (index + 4) ((b ++ [0]) ++ rest) := by
  have hlen := length_nullTerminated_lt h hbuffer
  rw [Wire.nullTerminated, append_assoc] at h
  exact storeIncomingUint32_at h hbuffer hlen

theorem sized_at (h : At buffer index (sized e b ++ rest)) (hbuffer : buffer.length < 2 ^ 32) :
    storeIncomingUint32 e buffer index = .ok (b.length, index + 4) ∧
      At buffer (index + 4) ((b ++ [0]) ++ rest) := by
  have hlen := h.append.length
  simp only [Wire.sized, length_append, length_native, length_singleton] at hlen
  rw [Wire.sized, append_assoc] at h
  exact storeIncomingUint32_at h hbuffer (by omega)

theorem storeInit_eq (hx : x.Admitted) (hout : initOut e x = some b)
    (hbuffer : p.bufferRecv.length < 2 ^ 32) (h : At p.bufferRecv index (b ++ rest)) :
    ∃ index₁ index₂, storeIncomingUint32 e p.bufferRecv index = .ok (1, index₁) ∧
      storeInit e p index₁ = .ok ({ p with settings := .ofInit x }, index₂) ∧
      At p.bufferRecv index₂ rest := by
  obtain ⟨hindex, hinit, hasync, hsync, hterm⟩ := hx
  rw [initOut, ite_none_right_eq_some] at hout
  obtain ⟨⟨-, hpriority, hpriority', hcount, hmax, hmin, -⟩, hout⟩ := hout
  cases hout
  simp only [append_assoc, cons_append, nil_append] at h
  have hterm' : timeoutTerminateExternal x.timeoutTerm < 2 ^ 32 := by
    rw [timeoutTerminateExternal]
    omega
  obtain ⟨h₀, a₀⟩ := storeIncomingUint32_at h hbuffer (by decide)
  obtain ⟨h₁, a₁⟩ := storeIncomingUint32_at a₀ hbuffer hindex
  obtain ⟨h₂, a₂⟩ := storeIncomingUint32_at a₁ hbuffer hcount
  obtain ⟨h₃, a₃⟩ := storeIncomingUint32_at a₂ hbuffer hmax
  obtain ⟨h₄, a₄⟩ := storeIncomingUint32_at a₃ hbuffer hmin
  have hname := length_nullTerminated_lt a₄ hbuffer
  have hlen : (x.namePrefix ++ [0]).length = x.namePrefix.length + 1 := by simp
  rw [nullTerminated, append_assoc, ← hlen] at a₄
  obtain ⟨h₅, a₅⟩ := storeIncomingBinary_at a₄ hbuffer (by rw [hlen]; exact hname)
  obtain ⟨h₆, a₆⟩ := storeIncomingUint32_at a₅ hbuffer hinit
  obtain ⟨h₇, a₇⟩ := storeIncomingUint32_at a₆ hbuffer hasync
  obtain ⟨h₈, a₈⟩ := storeIncomingUint32_at a₇ hbuffer hsync
  obtain ⟨h₉, a₉⟩ := storeIncomingUint32_at a₈ hbuffer hterm'
  obtain ⟨h₁₀, a₁₀⟩ := storeIncomingInt8_at a₉ hbuffer hpriority hpriority'
  refine ⟨_, _, h₀, ?_, a₁₀⟩
  simp only [storeInit, h₁, h₂, h₃, h₄, h₅, h₆, h₇, h₈, h₉, h₁₀, ok_bind]
  rfl

theorem storeRequest_eq (hx : x.Admitted) (hnumber : number < 2 ^ 32)
    (hout : sendOut e number x = some b) (hbuffer : buffer.length < 2 ^ 32)
    (h : At buffer index (b ++ rest)) : ∃ index₁ index₂, ∃ args : Callback,
      storeIncomingUint32 e buffer index = .ok (number, index₁) ∧
      storeRequest e buffer number index₁ = .ok (args, index₂) ∧ args.command = number ∧
      args.Passes buffer x ∧ At buffer index₂ rest := by
  obtain ⟨htimeout, hpriority, hpriority', htransId⟩ := hx
  rw [sendOut, ite_none_right_eq_some] at hout
  obtain ⟨⟨-, -, -, -, -, -, hsource⟩, hout⟩ := hout
  cases hout
  simp only [append_assoc, cons_append] at h
  obtain ⟨h₀, a₀⟩ := storeIncomingUint32_at h hbuffer hnumber
  obtain ⟨h₁, a₁⟩ := nullTerminated_at a₀ hbuffer
  obtain ⟨h₂, a₂, hname⟩ := pointer_at a₁ hbuffer (by simp : x.name.length + 1 = _)
  obtain ⟨h₃, a₃⟩ := nullTerminated_at a₂ hbuffer
  obtain ⟨h₄, a₄, hpattern⟩ := pointer_at a₃ hbuffer (by simp : x.pattern.length + 1 = _)
  obtain ⟨h₅, a₅⟩ := sized_at a₄ hbuffer
  obtain ⟨h₆, a₆, hinfo⟩ := pointer_at a₅ hbuffer (by simp : x.requestInfo.length + 1 = _)
  obtain ⟨h₇, a₇⟩ := sized_at a₆ hbuffer
  obtain ⟨h₈, a₈, hrequest⟩ := pointer_at a₇ hbuffer (by simp : x.request.length + 1 = _)
  obtain ⟨h₉, a₉⟩ := storeIncomingUint32_at a₈ hbuffer htimeout
  obtain ⟨h₁₀, a₁₀⟩ := storeIncomingInt8_at a₉ hbuffer hpriority hpriority'
  obtain ⟨h₁₁, a₁₁, htrans⟩ := pointer_at a₁₀ hbuffer htransId.symm
  obtain ⟨h₁₂, a₁₂⟩ := storeIncomingUint32_at a₁₁ hbuffer hsource
  obtain ⟨h₁₃, a₁₃, hpid⟩ := pointer_at a₁₂ hbuffer rfl
  refine ⟨_, _, ⟨number, _, _, _, _, _, _, _, _, _, _, _⟩, h₀, ?_, rfl,
    ⟨hname, hpattern, rfl, hinfo, rfl, hrequest, rfl, rfl, htrans, rfl, hpid⟩, a₁₃⟩
  simp only [storeRequest, h₁, h₂, h₃, h₄, h₅, h₆, h₇, h₈, h₉, h₁₀, h₁₁, h₁₂, h₁₃, ok_bind]
  rfl

theorem storeResponse_eq (htransId : x.transId.length = 16) (hnumber : number < 2 ^ 32)
    (hout : responseOut e number x = some b) (hbuffer : p.bufferRecv.length < 2 ^ 32)
    (h : At p.bufferRecv index (b ++ rest)) :
    ∃ index₁ p' index₂, storeIncomingUint32 e p.bufferRecv index = .ok (number, index₁) ∧
      storeResponse e p index₁ = .ok (p', index₂) ∧ p'.Responds x ∧
      p'.settings = p.settings ∧ p'.bufferRecv = p.bufferRecv ∧
      p'.bufferRecvIndex = p.bufferRecvIndex ∧ At p.bufferRecv index₂ rest := by
  rw [responseOut, ite_none_right_eq_some] at hout
  obtain ⟨-, hout⟩ := hout
  cases hout
  simp only [append_assoc] at h
  obtain ⟨h₀, a₀⟩ := storeIncomingUint32_at h hbuffer hnumber
  obtain ⟨h₁, a₁⟩ := sized_at a₀ hbuffer
  obtain ⟨h₂, a₂, hinfo⟩ := pointer_at a₁ hbuffer (by simp : x.responseInfo.length + 1 = _)
  obtain ⟨h₃, a₃⟩ := sized_at a₂ hbuffer
  obtain ⟨h₄, a₄, hresponse⟩ := pointer_at a₃ hbuffer (by simp : x.response.length + 1 = _)
  obtain ⟨h₅, a₅, htrans⟩ := pointer_at a₄ hbuffer htransId.symm
  refine ⟨_, { p with responseInfo := _, responseInfoSize := _, response := _, responseSize := _
                      transId := _, transIdCount := 1 }, _, h₀, ?_,
    ⟨rfl, hinfo, rfl, hresponse, rfl, htrans⟩, rfl, rfl, rfl, a₅⟩
  simp only [storeResponse, h₁, h₂, h₃, h₄, h₅, ok_bind]
  rfl

/-! ## events -/

/-- The answers to the keepalive messages are written, from the one after `sent` on. -/
def Answered (keepalives : Nat → Code) : Nat → List Event → Prop
  | _, [] => True
  | sent, .reinit _ :: events => Answered keepalives sent events
  | sent, .keepalive :: events => keepalives sent = .success ∧ Answered keepalives (sent + 1) events

instance (keepalives : Nat → Code) (events : List Event) (sent : Nat) :
    Decidable (Answered keepalives sent events) := by
  induction events generalizing sent with
  | nil => exact .isTrue trivial
  | cons x events ih =>
      cases x with
      | reinit x => exact ih sent
      | keepalive => exact @instDecidableAnd _ _ _ (ih (sent + 1))

theorem answered_cons : Answered keepalives sent (x :: events) ↔
      (x = .keepalive → keepalives sent = .success) ∧
        Answered keepalives (sent + x.answers) events := by
  cases x <;> simp [Answered, Event.answers]

/-- The two loops handle an event in the same way, but for the answer that is not written. -/
theorem event_eq (hx : x.Admitted) (hout : x.out e = some b)
    (hbuffer : p.bufferRecv.length < 2 ^ 32) (h : At p.bufferRecv index (b ++ rest))
    (external : Bool) (keepalives : Nat → Code) (sent : Nat) :
    ∃ index₁ index₂, storeIncomingUint32 e p.bufferRecv index = .ok (x.number, index₁) ∧
      At p.bufferRecv index₂ rest ∧ index + 4 ≤ index₂ ∧
      ((x = .keepalive → keepalives sent = .success) →
        handleEvent e external keepalives p sent index₁ x.number =
            .ok ({ p with settings := p.settings.after x }, sent + x.answers, .inl index₂) ∧
          handleMessage e external keepalives p sent index₁ x.number =
            .ok ({ p with settings := p.settings.after x }, sent + x.answers, .inl index₂)) ∧
      (¬ (x = .keepalive → keepalives sent = .success) →
        (∃ code, code ≠ .success ∧ handleEvent e external keepalives p sent index₁ x.number =
            .ok (p, sent + 1, .inr code)) ∧
          handleMessage e external keepalives p sent index₁ x.number =
            .ok (p, sent + 1, .inr (.returns .success))) := by
  cases x with
  | reinit x =>
    obtain ⟨rfl, hpriority, hpriority', hcount⟩ := reinitOut_eq_some hout
    rw [append_assoc] at h
    obtain ⟨h₁, a₁⟩ := storeIncomingUint32_at h hbuffer (by decide)
    obtain ⟨index₂, h₂, a₂⟩ := storeReinit_eq hx hpriority hpriority' hcount hbuffer a₁
    have hle : index + 4 ≤ index₂ := by
      have hlen₁ := a₁.length
      have hlen₂ := a₂.length
      rw [length_append] at hlen₁
      omega
    refine ⟨_, index₂, h₁, a₂, hle, fun _ => ⟨?_, ?_⟩, fun hnot => absurd nofun hnot⟩
    · simp only [Event.number, handleEvent, h₂]
      rfl
    · simp only [Event.number, handleMessage, h₂]
      rfl
  | keepalive =>
    cases hout
    obtain ⟨h₁, a₁⟩ := storeIncomingUint32_at h hbuffer (by decide)
    refine ⟨_, _, h₁, a₁, Nat.le_refl _, fun hok => ⟨?_, ?_⟩, fun hnot => ⟨⟨keepalives sent, ?_, ?_⟩,
      ?_⟩⟩
    · exact if_pos (hok rfl)
    · exact if_pos (hok rfl)
    · exact fun hok => hnot fun _ => hok
    · exact if_neg fun hok => hnot fun _ => hok
    · exact if_neg fun hok => hnot fun _ => hok

/-- The events of a buffer that `handle_events` reads, from the first on. -/
theorem handleEventsLoop_eq (hevents : ∀ y ∈ x :: events, y.Admitted)
    (hout : eventsOut e (x :: events) = some b) (hbuffer : p.bufferRecv.length < 2 ^ 32)
    (hend : p.bufferRecvIndex = p.bufferRecv.length) (h : At p.bufferRecv index b) (external : Bool)
    (keepalives : Nat → Code) (sent : Nat) (hfuel : events.length < fuel) :
    ∃ index₁, storeIncomingUint32 e p.bufferRecv index = .ok (x.number, index₁) ∧
      (Answered keepalives sent (x :: events) → ∃ sent',
        handleEventsLoop e external keepalives fuel p sent index₁ x.number =
          .ok ({ p with settings := (x :: events).foldl Settings.after p.settings }, sent', none)) ∧
      (¬ Answered keepalives sent (x :: events) → ∃ p' sent' code, code ≠ .success ∧
        handleEventsLoop e external keepalives fuel p sent index₁ x.number =
          .ok (p', sent', some code)) := by
  induction events generalizing x p index sent fuel b with
  | nil =>
    obtain ⟨b₁, b₂, h₁, h₂, rfl⟩ := eventsOut_cons_eq_some hout
    cases h₂
    obtain ⟨fuel, rfl⟩ : ∃ n, fuel = n + 1 := ⟨fuel - 1, by omega⟩
    obtain ⟨i₁, i₂, hread, a₂, -, hok, hfail⟩ := event_eq
      (hevents x mem_cons_self) h₁ hbuffer h external keepalives sent
    have hlast : i₂ = p.bufferRecvIndex := a₂.length.trans hend.symm
    refine ⟨i₁, hread, fun hanswered => ⟨sent + x.answers, ?_⟩, fun hnot => ?_⟩
    · obtain ⟨hevent, -⟩ := hok (answered_cons.mp hanswered).1
      rw [handleEventsLoop, hevent]
      simp only [ok_bind]
      rw [if_neg (by omega), if_pos hlast]
      rfl
    · obtain ⟨⟨code, hcode, hevent⟩, -⟩ := hfail fun hx => hnot (answered_cons.mpr ⟨hx, trivial⟩)
      refine ⟨p, sent + 1, code, hcode, ?_⟩
      rw [handleEventsLoop, hevent]
      rfl
  | cons y events ih =>
    obtain ⟨b₁, b₂, h₁, h₂, rfl⟩ := eventsOut_cons_eq_some hout
    obtain ⟨fuel, rfl⟩ : ∃ n, fuel = n + 1 := ⟨fuel - 1, by omega⟩
    obtain ⟨i₁, i₂, hread, a₂, -, hok, hfail⟩ := event_eq
      (hevents x mem_cons_self) h₁ hbuffer h external keepalives sent
    have hmore : i₂ < p.bufferRecvIndex := by
      have hlen := a₂.length
      have hle := length_eventsOut_le h₂
      rw [length_cons] at hle
      omega
    obtain ⟨i₃, hread', hok', hfail'⟩ := ih (p := { p with settings := p.settings.after x })
      (fun z hz => hevents z (mem_cons_of_mem x hz)) h₂ hbuffer hend a₂
      (sent + x.answers) (by rw [length_cons] at hfuel; omega : events.length < fuel)
    refine ⟨i₁, hread, fun hanswered => ?_, fun hnot => ?_⟩
    · obtain ⟨hx, hanswered'⟩ := answered_cons.mp hanswered
      obtain ⟨sent', hloop⟩ := hok' hanswered'
      refine ⟨sent', ?_⟩
      rw [handleEventsLoop, (hok hx).1]
      simp only [ok_bind]
      rw [if_neg (by omega), if_neg (by omega)]
      simp only [hread', ok_bind]
      exact hloop
    · by_cases hx : x = .keepalive → keepalives sent = .success
      · obtain ⟨p', sent', code, hcode, hloop⟩ := hfail' fun hanswered =>
          hnot (answered_cons.mpr ⟨hx, hanswered⟩)
        refine ⟨p', sent', code, hcode, ?_⟩
        rw [handleEventsLoop, (hok hx).1]
        simp only [ok_bind]
        rw [if_neg (by omega), if_neg (by omega)]
        simp only [hread', ok_bind]
        exact hloop
      · obtain ⟨⟨code, hcode, hevent⟩, -⟩ := hfail hx
        refine ⟨p, sent + 1, code, hcode, ?_⟩
        rw [handleEventsLoop, hevent]
        rfl

/-- The end of a message, with the events behind it. -/
theorem finish_eq (hevents : ∀ x ∈ events, x.Admitted) (hout : eventsOut e events = some b)
    (hbuffer : p.bufferRecv.length < 2 ^ 32) (hend : p.bufferRecvIndex = p.bufferRecv.length)
    (h : At p.bufferRecv index b) (external : Bool) (keepalives : Nat → Code) (mode : Bool)
    (outcome : Outcome) (sent : Nat) :
    ((events = [] ∨ external = mode) ∧ Answered keepalives sent events → ∃ sent',
      finish e external keepalives mode outcome sent (p, index) =
        .ok ({ p with settings := events.foldl Settings.after p.settings, bufferRecvIndex := 0 },
          sent', outcome)) ∧
    (¬ ((events = [] ∨ external = mode) ∧ Answered keepalives sent events) → ∀ p' sent' outcome',
      finish e external keepalives mode outcome sent (p, index) = .ok (p', sent', outcome') →
        ∃ code, code ≠ .success ∧ outcome' = .returns code) := by
  simp only [finish]
  cases events with
  | nil =>
    cases hout
    have hlast : index = p.bufferRecvIndex := h.length.trans hend.symm
    rw [if_neg (not_not.mpr hlast)]
    exact ⟨fun _ => ⟨sent, rfl⟩, fun hnot => absurd ⟨.inl rfl, trivial⟩ hnot⟩
  | cons x events =>
    have hle := length_eventsOut_le hout
    have hlen := h.length
    rw [length_cons] at hle
    rw [if_pos (by omega)]
    by_cases hmode : external = mode
    · rw [if_neg (not_not.mpr hmode)]
      obtain ⟨index₁, hread, hok, hfail⟩ := handleEventsLoop_eq hevents hout hbuffer hend h
        external keepalives sent (by omega : _ < p.bufferRecv.length + 1)
      rw [handleEvents, if_neg (by omega)]
      simp only [hread, ok_bind]
      constructor
      · rintro ⟨-, hanswered⟩
        obtain ⟨sent', hloop⟩ := hok hanswered
        rw [hloop]
        exact ⟨sent', rfl⟩
      · intro hnot p' sent' outcome' hfinish
        obtain ⟨_, _, code, hcode, hloop⟩ := hfail fun hanswered => hnot ⟨.inr hmode, hanswered⟩
        rw [hloop] at hfinish
        cases hfinish
        exact ⟨code, hcode, rfl⟩
    · rw [if_pos hmode]
      refine ⟨?_, fun _ p' sent' outcome' hfinish => by cases hfinish⟩
      rintro ⟨hnil | hmode', -⟩
      · cases hnil
      · exact absurd hmode' hmode

/-! ## messages -/

/-- **What is done with a message**: its fields are stored and the call returns, or they are
passed to the callback. -/
def Handles (p : Instance) (outcome : Outcome) : Message → Prop
  | .init _ => outcome = .returns .success
  | .sendAsync x => ∃ args : Callback, outcome = .callback args ∧ args.command = 2 ∧
      args.Passes p.bufferCall x
  | .sendSync x => ∃ args : Callback, outcome = .callback args ∧ args.command = 3 ∧
      args.Passes p.bufferCall x
  | .recvAsync x => outcome = .returns .success ∧ p.Responds x
  | .returnAsync transId => outcome = .returns .success ∧ p.transIdCount = 1 ∧
      Holds p.bufferRecv p.transId transId
  | .returnSync x => outcome = .returns .success ∧ p.Responds x
  | .returnsAsync transIds => outcome = .returns .success ∧ p.transIdCount = transIds.length ∧
      Holds p.bufferRecv p.transId transIds.flatten
  | .subscribeCount count => outcome = .returns .success ∧ p.subscribeCount = count
  | .event _ => outcome = .waits
  | .term => True

theorem Instance.Responds.settled (h : p.Responds x) (settings : Settings) (n : Nat) :
    ({ p with settings, bufferRecvIndex := n } : Instance).Responds x :=
  ⟨h.responseInfoSize, h.responseInfo, h.responseSize, h.response, h.transIdCount, h.transId⟩

theorem Handles.settled (h : Handles p outcome m) (settings : Settings) (n : Nat) :
    Handles { p with settings, bufferRecvIndex := n } outcome m := by
  cases m with
  | recvAsync x => exact ⟨h.1, h.2.settled settings n⟩
  | returnSync x => exact ⟨h.1, h.2.settled settings n⟩
  | _ => exact h

theorem Handles.not_returns (h : Handles p (.returns code) m) (hterm : m ≠ .term) :
    code = .success := by
  cases m with
  | term => exact absurd rfl hterm
  | init x => exact Outcome.returns.inj h
  | sendAsync x =>
    obtain ⟨args, hargs, -⟩ := h
    cases hargs
  | sendSync x =>
    obtain ⟨args, hargs, -⟩ := h
    cases hargs
  | event x => cases h
  | _ => exact Outcome.returns.inj h.1

/-- A message that is not an event is stored, and then `finish` is called. -/
theorem handleMessage_eq (hm : m.Admitted) (hterm : m ≠ .term) (hevent : m.events = [])
    (hout : m.out e = some b) (hbuffer : p.bufferRecv.length < 2 ^ 32)
    (h : At p.bufferRecv index (b ++ rest)) (external : Bool) (keepalives : Nat → Code)
    (sent : Nat) : ∃ number index₁ p' index₂ outcome,
      storeIncomingUint32 e p.bufferRecv index = .ok (number, index₁) ∧
      handleMessage e external keepalives p sent index₁ number =
        (finish e external keepalives m.isRequest outcome sent (p', index₂)).map
          handleMessage.stop ∧
      Handles p' outcome m ∧ p'.settings = p.settings.afterMessage m ∧
      p'.bufferRecv = p.bufferRecv ∧ p'.bufferRecvIndex = p.bufferRecvIndex ∧
      At p'.bufferRecv index₂ rest := by
  cases m with
  | term => exact absurd rfl hterm
  | event x => cases hevent
  | init x =>
    obtain ⟨i₁, i₂, hread, hstore, hrest⟩ := storeInit_eq hm hout hbuffer h
    refine ⟨1, i₁, { p with settings := .ofInit x }, i₂, _, hread, ?_, rfl, rfl, rfl, rfl, hrest⟩
    rw [handleMessage, hstore]
    rfl
  | sendAsync x =>
    obtain ⟨i₁, i₂, args, hread, hstore, hcommand, hpasses, hrest⟩ :=
      storeRequest_eq hm (by decide) hout hbuffer h
    refine ⟨2, i₁, { p with bufferCall := p.bufferRecv }, i₂, .callback args, hread, ?_,
      ⟨args, rfl, hcommand, hpasses⟩, rfl, rfl, rfl, hrest⟩
    rw [handleMessage, hstore]
    rfl
  | sendSync x =>
    obtain ⟨i₁, i₂, args, hread, hstore, hcommand, hpasses, hrest⟩ :=
      storeRequest_eq hm (by decide) hout hbuffer h
    refine ⟨3, i₁, { p with bufferCall := p.bufferRecv }, i₂, .callback args, hread, ?_,
      ⟨args, rfl, hcommand, hpasses⟩, rfl, rfl, rfl, hrest⟩
    rw [handleMessage, hstore]
    rfl
  | recvAsync x =>
    obtain ⟨i₁, p', i₂, hread, hstore, hresponds, hsettings, hrecv, hindex, hrest⟩ :=
      storeResponse_eq hm (by decide) hout hbuffer h
    refine ⟨4, i₁, p', i₂, _, hread, ?_, ⟨rfl, hresponds⟩, hsettings, hrecv, hindex, hrecv ▸ hrest⟩
    rw [handleMessage, hstore]
    rfl
  | returnSync x =>
    obtain ⟨i₁, p', i₂, hread, hstore, hresponds, hsettings, hrecv, hindex, hrest⟩ :=
      storeResponse_eq hm (by decide) hout hbuffer h
    refine ⟨6, i₁, p', i₂, _, hread, ?_, ⟨rfl, hresponds⟩, hsettings, hrecv, hindex, hrecv ▸ hrest⟩
    rw [handleMessage, hstore]
    rfl
  | returnAsync transId =>
    cases hout
    rw [append_assoc] at h
    obtain ⟨hread, a₁⟩ := storeIncomingUint32_at h hbuffer (by decide)
    obtain ⟨hpointer, a₂, htrans⟩ := pointer_at a₁ hbuffer hm.symm
    refine ⟨5, _, { p with transId := _, transIdCount := 1 }, _, _, hread, ?_,
      ⟨rfl, rfl, htrans⟩, rfl, rfl, rfl, a₂⟩
    simp only [handleMessage, storeTransId, hpointer, ok_bind]
    rfl
  | returnsAsync transIds =>
    simp only [Message.out, returnsAsyncOut, ite_none_right_eq_some] at hout
    obtain ⟨hcount, hout⟩ := hout
    cases hout
    simp only [append_assoc] at h
    have hlen : 16 * transIds.length = transIds.flatten.length := length_flatten_ids hm
    obtain ⟨hread, a₁⟩ := storeIncomingUint32_at h hbuffer (by decide)
    obtain ⟨hcount', a₂⟩ := storeIncomingUint32_at a₁ hbuffer hcount
    obtain ⟨hpointer, a₃, htrans⟩ := pointer_at a₂ hbuffer hlen
    refine ⟨7, _, { p with transId := _, transIdCount := transIds.length }, _, _, hread, ?_,
      ⟨rfl, rfl, htrans⟩, rfl, rfl, rfl, a₃⟩
    simp only [handleMessage, storeTransIds, hcount', hpointer, ok_bind]
    rfl
  | subscribeCount count =>
    simp only [Message.out, subscribeCountOut, ite_none_right_eq_some] at hout
    obtain ⟨hcount, hout⟩ := hout
    cases hout
    rw [append_assoc] at h
    obtain ⟨hread, a₁⟩ := storeIncomingUint32_at h hbuffer (by decide)
    obtain ⟨hcount', a₂⟩ := storeIncomingUint32_at a₁ hbuffer hcount
    refine ⟨10, _, { p with subscribeCount := count }, _, _, hread, ?_, ⟨rfl, rfl⟩, rfl, rfl,
      rfl, a₂⟩
    simp only [handleMessage, storeSubscribeCount, hcount', ok_bind]
    rfl

/-- The events at the front of a buffer, from the first on. -/
theorem handleMessages_eq (hevents : ∀ y ∈ x :: events, y.Admitted)
    (hout : eventsOut e (x :: events) = some b) (hbuffer : p.bufferRecv.length < 2 ^ 32)
    (hend : p.bufferRecvIndex = p.bufferRecv.length) (h : At p.bufferRecv index b) (external : Bool)
    (keepalives : Nat → Code) (sent : Nat) (hfuel : events.length < fuel) :
    (Answered keepalives sent (x :: events) → ∃ sent',
      handleMessages e external keepalives fuel p sent index =
        .ok ({ p with settings := (x :: events).foldl Settings.after p.settings
                      bufferRecvIndex := 0 }, sent', .waits)) ∧
    (¬ Answered keepalives sent (x :: events) → ∃ p' sent',
      handleMessages e external keepalives fuel p sent index =
        .ok (p', sent', .returns .success)) := by
  induction events generalizing x p index sent fuel b with
  | nil =>
    obtain ⟨b₁, b₂, h₁, h₂, rfl⟩ := eventsOut_cons_eq_some hout
    cases h₂
    obtain ⟨fuel, rfl⟩ : ∃ n, fuel = n + 1 := ⟨fuel - 1, by omega⟩
    obtain ⟨i₁, i₂, hread, a₂, -, hok, hfail⟩ := event_eq
      (hevents x mem_cons_self) h₁ hbuffer h external keepalives sent
    have hlast : i₂ = p.bufferRecvIndex := a₂.length.trans hend.symm
    refine ⟨fun hanswered => ⟨sent + x.answers, ?_⟩, fun hnot => ⟨p, sent + 1, ?_⟩⟩
    · obtain ⟨-, hevent⟩ := hok (answered_cons.mp hanswered).1
      simp only [handleMessages, hread, hevent, ok_bind]
      rw [if_pos hlast]
      rfl
    · obtain ⟨-, hevent⟩ := hfail fun hx => hnot (answered_cons.mpr ⟨hx, trivial⟩)
      simp only [handleMessages, hread, hevent, ok_bind]
      rfl
  | cons y events ih =>
    obtain ⟨b₁, b₂, h₁, h₂, rfl⟩ := eventsOut_cons_eq_some hout
    obtain ⟨fuel, rfl⟩ : ∃ n, fuel = n + 1 := ⟨fuel - 1, by omega⟩
    obtain ⟨i₁, i₂, hread, a₂, -, hok, hfail⟩ := event_eq
      (hevents x mem_cons_self) h₁ hbuffer h external keepalives sent
    have hmore : i₂ < p.bufferRecvIndex := by
      have hlen := a₂.length
      have hle := length_eventsOut_le h₂
      rw [length_cons] at hle
      omega
    obtain ⟨hok', hfail'⟩ := ih (p := { p with settings := p.settings.after x })
      (fun z hz => hevents z (mem_cons_of_mem x hz)) h₂ hbuffer hend a₂
      (sent + x.answers) (by rw [length_cons] at hfuel; omega : events.length < fuel)
    refine ⟨fun hanswered => ?_, fun hnot => ?_⟩
    · obtain ⟨hx, hanswered'⟩ := answered_cons.mp hanswered
      obtain ⟨sent', hloop⟩ := hok' hanswered'
      refine ⟨sent', ?_⟩
      simp only [handleMessages, hread, (hok hx).2, ok_bind]
      rw [if_neg (by omega), if_pos hmore]
      exact hloop
    · by_cases hx : x = .keepalive → keepalives sent = .success
      · obtain ⟨p', sent', hloop⟩ := hfail' fun hanswered =>
          hnot (answered_cons.mpr ⟨hx, hanswered⟩)
        refine ⟨p', sent', ?_⟩
        simp only [handleMessages, hread, (hok hx).2, ok_bind]
        rw [if_neg (by omega), if_pos hmore]
        exact hloop
      · refine ⟨p, sent + 1, ?_⟩
        simp only [handleMessages, hread, (hfail hx).2, ok_bind]
        rfl

/-! ## the agreement -/

/-- **What the received bytes are decoded to**: all reads are inside of them, they are
consumed, the settings are those of the message and then of the events, and the fields
of the message are stored or passed. -/
def Decodes (e : Endianness) (external : Bool) (keepalives : Nat → Code) (p : Instance)
    (m : Message) (events : List Event) (bytes : Binary) : Prop :=
  ∃ p' sent outcome, received e external keepalives p bytes = .ok (p', sent, outcome) ∧
    Handles p' outcome m ∧
    p'.settings = events.foldl Settings.after (p.settings.afterMessage m) ∧
    p'.bufferRecvIndex = 0

/-- **Wire protocol agreement**: a message with events behind it is decoded exactly when there
are no events, or it is an event itself, or it is a request in `cloudi_poll` or another
message in a blocking call; and when the answers to the keepalive messages are written. -/
theorem decodes_iff {m : Message} (hm : m.Admitted) (hterm : m ≠ .term) {events : List Event}
    (hevents : ∀ x ∈ events, x.Admitted) (hout : m.out e = some b)
    (heventsOut : eventsOut e events = some bs) (hsize : (b ++ bs).length < 2 ^ 32)
    (external : Bool) (keepalives : Nat → Code) (p : Instance) :
    Decodes e external keepalives p m events (b ++ bs) ↔
      (events = [] ∨ m.events ≠ [] ∨ external = m.isRequest) ∧
        Answered keepalives 0 (m.events ++ events) := by
  let q : Instance := { p with bufferRecv := b ++ bs, bufferRecvIndex := (b ++ bs).length }
  have hpos := length_out_pos hout
  have hreceived : received e external keepalives p (b ++ bs) =
      handleMessages e external keepalives ((b ++ bs).length + 1) q 0 0 := by
    refine if_neg ?_
    show (b ++ bs).length ≠ 0
    rw [length_append]
    omega
  have hstart : At q.bufferRecv 0 (b ++ bs) := ⟨Nat.zero_add _, rfl⟩
  rw [Decodes, hreceived]
  by_cases hevent : m.events = []
  · obtain ⟨number, i₁, p', i₂, outcome, hread, hmessage, hhandles, hsettings, hrecv, hindex,
      hrest⟩ := handleMessage_eq hm hterm hevent hout (p := q) hsize hstart external keepalives 0
    have hbuffer : p'.bufferRecv.length < 2 ^ 32 := by
      rw [hrecv]
      exact hsize
    have hend : p'.bufferRecvIndex = p'.bufferRecv.length := by rw [hindex, hrecv]
    obtain ⟨hok, hfail⟩ := finish_eq hevents heventsOut hbuffer hend hrest external keepalives
      m.isRequest outcome 0
    have hloop : handleMessages e external keepalives ((b ++ bs).length + 1) q 0 0 =
        finish e external keepalives m.isRequest outcome 0 (p', i₂) := by
      simp only [handleMessages, hread, hmessage, ok_bind]
      cases finish e external keepalives m.isRequest outcome 0 (p', i₂) <;> rfl
    rw [hloop, hevent, nil_append]
    have hcondition : (events = [] ∨ ([] : List Event) ≠ [] ∨ external = m.isRequest) ∧
        Answered keepalives 0 events ↔
          (events = [] ∨ external = m.isRequest) ∧ Answered keepalives 0 events := by simp
    rw [hcondition]
    constructor
    · rintro ⟨p'', sent, outcome', hfinish, hhandles', -, -⟩
      by_contra hnot
      obtain ⟨code, hcode, rfl⟩ := hfail hnot p'' sent outcome' hfinish
      exact hcode (hhandles'.not_returns hterm)
    · intro hcond
      obtain ⟨sent, hfinish⟩ := hok hcond
      refine ⟨_, sent, outcome, hfinish, hhandles.settled _ _, ?_, rfl⟩
      show events.foldl Settings.after p'.settings = _
      rw [hsettings]
  · obtain ⟨x, rfl⟩ : ∃ x, m = .event x := by
      cases m with
      | event x => exact ⟨x, rfl⟩
      | _ => exact absurd rfl hevent
    have hall : eventsOut e (x :: events) = some (b ++ bs) := by
      have hx : x.out e = some b := hout
      rw [eventsOut, hx, bind_some, heventsOut]
      rfl
    have hfuel : events.length < (b ++ bs).length + 1 := by
      have hle := length_eventsOut_le hall
      rw [length_cons] at hle
      omega
    have hadmitted : ∀ y ∈ x :: events, y.Admitted := by
      intro y hy
      rcases mem_cons.mp hy with rfl | hy
      · exact hm
      · exact hevents y hy
    obtain ⟨hok, hfail⟩ := handleMessages_eq hadmitted hall (p := q) hsize rfl hstart external
      keepalives 0 hfuel
    constructor
    · rintro ⟨p'', sent, outcome, hloop, hhandles, -, -⟩
      refine ⟨.inr (.inl hevent), ?_⟩
      by_contra hnot
      obtain ⟨_, _, hloop'⟩ := hfail hnot
      rw [hloop'] at hloop
      cases hloop
      cases hhandles
    · rintro ⟨-, hanswered⟩
      obtain ⟨sent, hloop⟩ := hok hanswered
      exact ⟨_, sent, _, hloop, rfl, rfl, rfl⟩

/-- A request with a one-letter name and no data. -/
def sampleRequest : Request where
  name := [97]
  pattern := [97]
  requestInfo := []
  request := []
  timeout := 5000
  priority := 0
  transId := List.replicate 16 1
  source := [131, 0]

theorem decodes_iff_requestAndEvents :
    Decodes .little true (fun _ => .success) {} (.sendSync sampleRequest)
      [.keepalive, .reinit ⟨2, 100, 200, -1⟩]
      ((sendSyncOut .little sampleRequest).getD [] ++
        (eventsOut .little [.keepalive, .reinit ⟨2, 100, 200, -1⟩]).getD []) :=
  (decodes_iff (m := .sendSync sampleRequest) (by unfold Message.Admitted Request.Admitted; decide)
    (by decide) (by simp [Event.Admitted, Reinit.Admitted]) rfl rfl (by decide) true
    (fun _ => .success) {}).mpr ⟨.inr (.inr rfl), rfl, trivial⟩

/-- **An event behind a request in a blocking call** is a failed assertion. -/
theorem request_with_event_fails : ∃ p, received .little false (fun _ => .success) {}
      ((sendAsyncOut .little sampleRequest).getD [] ++
        (eventsOut .little [.keepalive]).getD []) = .error (.assertion p) :=
  ⟨_, rfl⟩

end CloudI.ApiC
