import CloudI.ApiPython.PollRequest

/-!
# ApiPython.Decode

The Python API decodes what the encoders write.  The exceptions are an assertion, which
accepts events behind a request only in `poll` and behind any other message only in a
blocking call; and `__init__`, which takes the two timeouts of the returned tuple in the
other order, and takes the tuple after the events.
-/

namespace CloudI.ApiPython

open Binary CloudI.Except Unpack Wire
open Option (elim_some ite_none_right_eq_some)
open List (append_assoc length_cons mem_cons_self nil_append)

variable {Term : Type} {e : Endianness} {binaryToTerm : Binary → Option Term} {data rest : Binary}
  {external : Bool} {sends : Nat → Bool}

/-! ## formats -/

/-- The UTF-8 of a text. -/
def utf8 (text : String) : Binary := text.toByteArray.data.toList.map UInt8.toFin

theorem decodeUtf8_utf8 (text : String) : decodeUtf8 (utf8 text) = .ok text := by
  have hbytes : (⟨((utf8 text).map UInt8.ofFin).toArray⟩ : ByteArray) = text.toByteArray := by
    have hid : (UInt8.ofFin ∘ UInt8.toFin) = id := rfl
    rw [utf8, List.map_map, hid, List.map_id, Array.toArray_toList]
  have hdecode : String.fromUTF8? text.toByteArray = some text := by
    unfold String.fromUTF8?
    rw [dif_pos text.isValidUTF8]
    rfl
  rw [decodeUtf8, hbytes, hdecode]

theorem utf8_injective (h : utf8 text = utf8 text') : text = text' := by
  have hdecode := decodeUtf8_utf8 text
  rw [h, decodeUtf8_utf8] at hdecode
  exact (Except.ok.inj hdecode).symm

theorem reads_formatI (h : n < 2 ^ 32) : Reads (formatI e) (native e 4 n) n := by
  have hread : Reads (formatI e) (native e 4 n) (nativeValue e (native e 4 n)) :=
    (reads_elements (length_native e 4 n)).map
  rwa [nativeValue_native e h] at hread

theorem reads_formatB (h : -128 ≤ n) (h' : n ≤ 127) : Reads formatB [int8 n] n := by
  intro rest
  show some (int8Value (int8 n), rest) = _
  rw [int8Value_int8 h h']

theorem reads_formatSized (b : Binary) : Reads (formatSized b.length) (b ++ [0]) b :=
  (reads_elements rfl).bind (reads_elements (rfl : [(0 : Byte)].length = 1)).map

theorem reads_formatTerminated (b : Binary) :
    Reads (formatTerminated (b.length + 1)) (b ++ [0]) b :=
  reads_formatSized b

theorem reads_formatIIIb (h₁ : n₁ < 2 ^ 32) (h₂ : n₂ < 2 ^ 32) (h₃ : n₃ < 2 ^ 32)
    (h₄ : -128 ≤ n₄) (h₄' : n₄ ≤ 127) :
    Reads (formatIIIb e) (native e 4 n₁ ++ (native e 4 n₂ ++ (native e 4 n₃ ++ [int8 n₄])))
      (n₁, n₂, n₃, n₄) :=
  (reads_formatI h₁).bind ((reads_formatI h₂).bind ((reads_formatI h₃).bind
    (reads_formatB h₄ h₄').map))

theorem reads_formatIIIII (h₁ : n₁ < 2 ^ 32) (h₂ : n₂ < 2 ^ 32) (h₃ : n₃ < 2 ^ 32)
    (h₄ : n₄ < 2 ^ 32) (h₅ : n₅ < 2 ^ 32) :
    Reads (formatIIIII e) (native e 4 n₁ ++ (native e 4 n₂ ++ (native e 4 n₃ ++
      (native e 4 n₄ ++ (native e 4 n₅))))) (n₁, n₂, n₃, n₄, n₅) :=
  (reads_formatI h₁).bind ((reads_formatI h₂).bind ((reads_formatI h₃).bind
    ((reads_formatI h₄).bind (reads_formatI h₅).map)))

theorem reads_formatTerminatedIIIIb (b : Binary) (h₁ : n₁ < 2 ^ 32) (h₂ : n₂ < 2 ^ 32)
    (h₃ : n₃ < 2 ^ 32) (h₄ : n₄ < 2 ^ 32) (h₅ : -128 ≤ n₅) (h₅' : n₅ ≤ 127) :
    Reads (formatTerminatedIIIIb e (b.length + 1)) ((b ++ [0]) ++ (native e 4 n₁ ++
      (native e 4 n₂ ++ (native e 4 n₃ ++ (native e 4 n₄ ++ [int8 n₅])))))
      (b, n₁, n₂, n₃, n₄, n₅) :=
  (reads_formatTerminated b).bind ((reads_formatI h₁).bind ((reads_formatI h₂).bind
    ((reads_formatI h₃).bind ((reads_formatI h₄).bind (reads_formatB h₅ h₅').map))))

theorem reads_formatTerminatedI (b : Binary) (h : n < 2 ^ 32) :
    Reads (formatTerminatedI e (b.length + 1)) ((b ++ [0]) ++ (native e 4 n)) (b, n) :=
  (reads_formatTerminated b).bind (reads_formatI h).map

theorem reads_formatSizedI (b : Binary) (h : n < 2 ^ 32) :
    Reads (formatSizedI e b.length) ((b ++ [0]) ++ (native e 4 n)) (b, n) :=
  (reads_formatSized b).bind (reads_formatI h).map

theorem reads_formatSizedIb16sI (b : Binary) (h₁ : n₁ < 2 ^ 32) (h₂ : -128 ≤ n₂) (h₂' : n₂ ≤ 127)
    (hb : b'.length = 16) (h₃ : n₃ < 2 ^ 32) :
    Reads (formatSizedIb16sI e b.length) ((b ++ [0]) ++ (native e 4 n₁ ++ ([int8 n₂] ++
      (b' ++ (native e 4 n₃))))) (b, n₁, n₂, b', n₃) :=
  (reads_formatSized b).bind ((reads_formatI h₁).bind ((reads_formatB h₂ h₂').bind
    ((reads_elements hb).bind (reads_formatI h₃).map)))

theorem reads_formatSized16s (b : Binary) (hb : b'.length = 16) :
    Reads (formatSized16s b.length) ((b ++ [0]) ++ b') (b, b') :=
  (reads_formatSized b).bind (reads_elements hb).map

theorem unpack_at (hreads : Reads format part x) (h : At data i (part ++ rest))
    (hj : j = i + part.length) : unpack format (slice data i j) = .ok x ∧ At data j rest := by
  rw [unpack, h.slice_eq hj, hreads.unpack_eq, hj]
  exact ⟨rfl, h.append⟩

theorem unpack_number (hn : n < 2 ^ 32) (h : At data j (native e 4 n ++ rest)) :
    unpack (formatI e) (slice data j (j + 4)) = .ok n ∧ At data (j + 4) rest :=
  unpack_at (reads_formatI hn) h (by rw [length_native])

/-! ## the fields -/

/-- The settings of an initialization. -/
def Settings.ofInit (x : Init) (namePrefix : String) : Settings where
  processIndex := x.processIndex
  processCount := x.processCount
  processCountMax := x.processCountMax
  processCountMin := x.processCountMin
  namePrefix := namePrefix
  timeoutInitialize := x.timeoutInit
  timeoutAsync := x.timeoutAsync
  timeoutSync := x.timeoutSync
  timeoutTerminate := timeoutTerminateExternal x.timeoutTerm
  priorityDefault := x.priorityDefault

/-- The settings after an event. -/
def Settings.after (s : Settings) : Event → Settings
  | .reinit x =>
      { s with processCount := x.processCount
               timeoutAsync := x.timeoutAsync
               timeoutSync := x.timeoutSync
               priorityDefault := x.priorityDefault }
  | .keepalive => s

/-- The order in which the settings are returned. -/
def Settings.returned (s : Settings) : InitTuple :=
  (s.processIndex, s.processCount, s.processCountMax, s.processCountMin, s.namePrefix,
    s.timeoutInitialize, s.timeoutSync, s.timeoutAsync, s.timeoutTerminate, s.priorityDefault)

/-- The settings that `__init__` takes from them. -/
def Settings.exchanged (s : Settings) : Settings :=
  { s with timeoutAsync := s.timeoutSync, timeoutSync := s.timeoutAsync }

/-- The arguments of a callback are the fields of a request. -/
structure Callback.Passes (binaryToTerm : Binary → Option Term) (args : Callback Term)
    (x : Request) : Prop where
  name : utf8 args.name = x.name
  pattern : utf8 args.pattern = x.pattern
  requestInfo : args.requestInfo = x.requestInfo
  request : args.request = x.request
  timeout : args.timeout = x.timeout
  priority : args.priority = x.priority
  transId : args.transId = x.transId
  pid : binaryToTerm x.source = some args.pid

/-- **What is done with a message**: its fields are returned, or passed to the callback. -/
def Handles (binaryToTerm : Binary → Option Term) (result : Result Term) : Message → Prop
  | .init x => ∃ text, utf8 text = x.namePrefix ∧ result = .init (Settings.ofInit x text).returned
  | .sendAsync x => ∃ args : Callback Term, result = .callback args ∧ args.command = 2 ∧
      args.Passes binaryToTerm x
  | .sendSync x => ∃ args : Callback Term, result = .callback args ∧ args.command = 3 ∧
      args.Passes binaryToTerm x
  | .recvAsync x => result = .response x.responseInfo x.response x.transId
  | .returnAsync transId => result = .transId transId
  | .returnSync x => result = .response x.responseInfo x.response x.transId
  | .returnsAsync transIds => result = .transIds transIds
  | .subscribeCount count => result = .count count
  | .event _ => result = .waits
  | .term => True

/-- The names are in UTF-8, and the source is decoded. -/
def ValidRequest (binaryToTerm : Binary → Option Term) (x : Request) : Prop :=
  (∃ name, utf8 name = x.name) ∧ (∃ pattern, utf8 pattern = x.pattern) ∧
    ∃ pid, binaryToTerm x.source = some pid

/-- The texts of a message are in UTF-8, and the source of a request is decoded. -/
def Valid (binaryToTerm : Binary → Option Term) : Message → Prop
  | .init x => ∃ text, utf8 text = x.namePrefix
  | .sendAsync x => ValidRequest binaryToTerm x
  | .sendSync x => ValidRequest binaryToTerm x
  | _ => True

theorem readReinit_eq (hx : x.Admitted) (hpriority : -128 ≤ x.priorityDefault)
    (hpriority' : x.priorityDefault ≤ 127) (hcount : x.processCount < 2 ^ 32)
    (h : At data j (reinitBody e x ++ rest)) :
    ∃ j', readReinit e p data j = .ok ({ p with settings := p.settings.after (.reinit x) }, j') ∧
      At data j' rest := by
  have hj : j + 4 + 4 + 4 + 1 = j + (reinitBody e x).length := by simp [reinitBody]
  obtain ⟨hunpack, hrest⟩ :=
    unpack_at (reads_formatIIIb hcount hx.1 hx.2 hpriority hpriority') h hj
  refine ⟨_, ?_, hrest⟩
  simp only [readReinit, hunpack, ok_bind]
  rfl

theorem readInit_eq {x : Init} (hx : x.Admitted) (hout : initOut e x = some b)
    (h : At data j (b ++ rest)) :
    ∃ j', unpack (formatI e) (slice data j (j + 4)) = .ok 1 ∧
      readInit e data (j + 4) = .ok (⟨x.processIndex, x.processCount, x.processCountMax,
        x.processCountMin, x.namePrefix, x.timeoutInit, x.timeoutAsync, x.timeoutSync,
        timeoutTerminateExternal x.timeoutTerm, x.priorityDefault⟩, j') ∧
      At data j' rest := by
  obtain ⟨hindex, hinit, hasync, hsync, hterm⟩ := hx
  rw [initOut, ite_none_right_eq_some] at hout
  obtain ⟨⟨-, hpriority, hpriority', hcount, hmax, hmin, hprefix⟩, hout⟩ := hout
  cases hout
  have hterm' : timeoutTerminateExternal x.timeoutTerm < 2 ^ 32 := by
    rw [timeoutTerminateExternal]
    omega
  -- the parts of the two slices
  have hparts : At data j (native e 4 1 ++ ((native e 4 x.processIndex ++ (native e 4 x.processCount ++
      (native e 4 x.processCountMax ++ (native e 4 x.processCountMin ++
        (native e 4 (x.namePrefix.length + 1)))))) ++ (((x.namePrefix ++ [0]) ++
      (native e 4 x.timeoutInit ++ (native e 4 x.timeoutAsync ++ (native e 4 x.timeoutSync ++
        (native e 4 (timeoutTerminateExternal x.timeoutTerm) ++ [int8 x.priorityDefault]))))) ++
      rest))) := by
    simpa only [nullTerminated, append_assoc] using h
  obtain ⟨h₀, a₀⟩ := unpack_number (by decide) hparts
  obtain ⟨h₁, a₁⟩ := unpack_at (reads_formatIIIII hindex hcount hmax hmin hprefix) a₀
    (by simp : j + 4 + 4 + 4 + 4 + 4 + 4 = _)
  obtain ⟨h₂, a₂⟩ := unpack_at
    (reads_formatTerminatedIIIIb x.namePrefix hinit hasync hsync hterm' hpriority hpriority') a₁
    (by simp; omega : j + 4 + 4 + 4 + 4 + 4 + 4 + (x.namePrefix.length + 1) + 4 + 4 + 4 + 4 + 1 = _)
  refine ⟨_, h₀, ?_, a₂⟩
  simp only [readInit, h₁, h₂, ok_bind]
  rfl

theorem readRequest_eq {x : Request} (hx : x.Admitted) (hnumber : number < 2 ^ 32)
    (hout : sendOut e number x = some b) (h : At data j (b ++ rest)) :
    ∃ j', unpack (formatI e) (slice data j (j + 4)) = .ok number ∧
      readRequest e data (j + 4) = .ok (⟨x.name, x.pattern, x.requestInfo, x.request, x.timeout,
        x.priority, x.transId, x.source⟩, j') ∧
      At data j' rest := by
  obtain ⟨htimeout, hpriority, hpriority', htransId⟩ := hx
  rw [sendOut, ite_none_right_eq_some] at hout
  obtain ⟨⟨-, -, hname, hpattern, hinfo, hrequest, hsource⟩, hout⟩ := hout
  cases hout
  have hparts : At data j (native e 4 number ++ (native e 4 (x.name.length + 1) ++
      (((x.name ++ [0]) ++ (native e 4 (x.pattern.length + 1))) ++
      (((x.pattern ++ [0]) ++ (native e 4 x.requestInfo.length)) ++
      (((x.requestInfo ++ [0]) ++ (native e 4 x.request.length)) ++
      (((x.request ++ [0]) ++ (native e 4 x.timeout ++ ([int8 x.priority] ++ (x.transId ++
        (native e 4 x.source.length))))) ++ (x.source ++ rest))))))) := by
    simpa only [nullTerminated, sized, append_assoc, List.cons_append, nil_append] using h
  obtain ⟨h₀, a₀⟩ := unpack_number hnumber hparts
  obtain ⟨h₁, a₁⟩ := unpack_number hname a₀
  obtain ⟨h₂, a₂⟩ := unpack_at (reads_formatTerminatedI x.name hpattern) a₁
    (by simp; omega : j + 4 + 4 + (x.name.length + 1) + 4 = _)
  obtain ⟨h₃, a₃⟩ := unpack_at (reads_formatTerminatedI x.pattern hinfo) a₂
    (by simp; omega : j + 4 + 4 + (x.name.length + 1) + 4 + (x.pattern.length + 1) + 4 = _)
  obtain ⟨h₄, a₄⟩ := unpack_at (reads_formatSizedI x.requestInfo hrequest) a₃
    (by simp; omega : j + 4 + 4 + (x.name.length + 1) + 4 + (x.pattern.length + 1) + 4 +
      x.requestInfo.length + 1 + 4 = _)
  obtain ⟨h₅, a₅⟩ := unpack_at
    (reads_formatSizedIb16sI x.request htimeout hpriority hpriority' htransId hsource) a₄
    (by simp [htransId]; omega : j + 4 + 4 + (x.name.length + 1) + 4 + (x.pattern.length + 1) + 4 +
      x.requestInfo.length + 1 + 4 + x.request.length + 1 + 4 + 1 + 16 + 4 = _)
  have hpid := a₅.slice_eq rfl
  refine ⟨_, h₀, ?_, a₅.append⟩
  simp only [readRequest, h₁, h₂, h₃, h₄, h₅, hpid, ok_bind]
  rfl

theorem readResponse_eq {x : Response} (hx : x.transId.length = 16) (hnumber : number < 2 ^ 32)
    (hout : responseOut e number x = some b) (h : At data j (b ++ rest)) :
    ∃ j', unpack (formatI e) (slice data j (j + 4)) = .ok number ∧
      readResponse e data (j + 4) = .ok ((x.responseInfo, x.response, x.transId), j') ∧
      At data j' rest := by
  rw [responseOut, ite_none_right_eq_some] at hout
  obtain ⟨⟨hinfo, hresponse⟩, hout⟩ := hout
  cases hout
  have hparts : At data j (native e 4 number ++ (native e 4 x.responseInfo.length ++
      (((x.responseInfo ++ [0]) ++ (native e 4 x.response.length)) ++
      (((x.response ++ [0]) ++ x.transId) ++ rest)))) := by
    simpa only [sized, append_assoc, List.cons_append, nil_append] using h
  obtain ⟨h₀, a₀⟩ := unpack_number hnumber hparts
  obtain ⟨h₁, a₁⟩ := unpack_number hinfo a₀
  obtain ⟨h₂, a₂⟩ := unpack_at (reads_formatSizedI x.responseInfo hresponse) a₁
    (by simp; omega : j + 4 + 4 + x.responseInfo.length + 1 + 4 = _)
  obtain ⟨h₃, a₃⟩ := unpack_at (reads_formatSized16s x.response hx) a₂ (by simp [hx]; omega :
      j + 4 + 4 + x.responseInfo.length + 1 + 4 + x.response.length + 1 + 16 = _)
  refine ⟨_, h₀, ?_, a₃⟩
  simp only [readResponse, h₁, h₂, h₃, ok_bind]
  rfl

theorem readTransIds_eq (hids : ∀ x ∈ transIds, x.length = 16)
    (hout : returnsAsyncOut e transIds = some b) (h : At data j (b ++ rest)) :
    ∃ j', unpack (formatI e) (slice data j (j + 4)) = .ok 7 ∧
      readTransIds e data (j + 4) = .ok (transIds, j') ∧ At data j' rest := by
  rw [returnsAsyncOut, ite_none_right_eq_some] at hout
  obtain ⟨hcount, hout⟩ := hout
  cases hout
  simp only [append_assoc] at h
  obtain ⟨h₀, a₀⟩ := unpack_number (by decide) h
  obtain ⟨h₁, a₁⟩ := unpack_number hcount a₀
  have hreads : Reads (repeats (elements 16) transIds.length) transIds.flatten transIds := by
    have hmap := reads_repeats (f := id) fun x hx => reads_elements (hids x hx)
    rwa [List.map_id] at hmap
  obtain ⟨h₂, a₂⟩ := unpack_at hreads a₁
    (by rw [← length_flatten_ids hids] : j + 4 + 4 + 16 * transIds.length = _)
  refine ⟨_, h₀, ?_, a₂⟩
  simp only [readTransIds, h₁, h₂, ok_bind]
  rfl

/-! ## events -/

/-- The answers to the keepalive messages are sent, from the one after `sent` on. -/
def Answered (sends : Nat → Bool) : Nat → List Event → Prop
  | _, [] => True
  | sent, .reinit _ :: events => Answered sends sent events
  | sent, .keepalive :: events => sends sent = true ∧ Answered sends (sent + 1) events

variable {x : Event} {m : Message}

theorem answered_cons : Answered sends sent (x :: events) ↔
      (x = .keepalive → sends sent = true) ∧ Answered sends (sent + x.answers) events := by
  cases x <;> simp [Answered, Event.answers]

theorem handleEvent_eq (hx : x.Admitted) (hout : x.out e = some b) (h : At data j (b ++ rest))
    (external : Bool) (sends : Nat → Bool) (p : API) (sent : Nat) :
    ∃ j', unpack (formatI e) (slice data j (j + 4)) = .ok x.number ∧ At data j' rest ∧
      ((x = .keepalive → sends sent = true) →
        handleEvent e external sends data p sent (j + 4) x.number =
          .ok ({ p with settings := p.settings.after x }, sent + x.answers, some j')) ∧
      (¬ (x = .keepalive → sends sent = true) →
        handleEvent e external sends data p sent (j + 4) x.number = .error .send) := by
  cases x with
  | reinit x =>
    obtain ⟨rfl, hpriority, hpriority', hcount⟩ := reinitOut_eq_some hout
    rw [append_assoc] at h
    obtain ⟨hread, hbody⟩ := unpack_number (by decide) h
    obtain ⟨j', hreinit, hrest⟩ := readReinit_eq hx hpriority hpriority' hcount hbody
    refine ⟨j', hread, hrest, fun _ => ?_, fun hnot => absurd nofun hnot⟩
    show (readReinit e p data (j + 4)).map _ = _
    rw [hreinit]
    rfl
  | keepalive =>
    cases hout
    obtain ⟨hread, hrest⟩ := unpack_number (by decide) h
    refine ⟨j + 4, hread, hrest, fun hsent => if_pos (hsent rfl), fun hnot => ?_⟩
    exact if_neg fun hsent => hnot fun _ => hsent

/-- `__poll_request` handles an event as `__handle_events` does. -/
theorem handleMessage_event (x : Event) (p : API) (sent j : Nat) :
    handleMessage e binaryToTerm external sends p sent data j x.number =
      (handleEvent e external sends data p sent j x.number).map fun y =>
        (y.1, y.2.1, y.2.2.elim (.inr .closed) .inl) := by
  cases x with
  | reinit x =>
    show (readReinit e p data j).map _ = ((readReinit e p data j).map _).map _
    cases readReinit e p data j <;> rfl
  | keepalive =>
    show (if sends sent then _ else _) = (if sends sent then _ else _ : Except _ _).map _
    by_cases hsent : sends sent = true
    · rw [if_pos hsent, if_pos hsent]
      rfl
    · rw [if_neg hsent, if_neg hsent]
      rfl

/-- The events that `__handle_events` reads, from the first on. -/
theorem handleEventsLoop_eq (hevents : ∀ y ∈ x :: events, y.Admitted)
    (hout : eventsOut e (x :: events) = some b) (h : At data j b) (p : API) (sent : Nat)
    (hfuel : events.length < fuel) : unpack (formatI e) (slice data j (j + 4)) = .ok x.number ∧
      (Answered sends sent (x :: events) → ∃ sent',
        handleEventsLoop e external sends data fuel p sent (j + 4) x.number =
          .ok ({ p with settings := (x :: events).foldl Settings.after p.settings }, sent', true)) ∧
      (¬ Answered sends sent (x :: events) →
        handleEventsLoop e external sends data fuel p sent (j + 4) x.number = .error .send) := by
  induction events generalizing x p j sent fuel b with
  | nil =>
    obtain ⟨b₁, b₂, h₁, h₂, rfl⟩ := eventsOut_cons_eq_some hout
    cases h₂
    obtain ⟨fuel, rfl⟩ : ∃ n, fuel = n + 1 := ⟨fuel - 1, by omega⟩
    obtain ⟨j', hread, hrest, hok, hfail⟩ := handleEvent_eq
      (hevents x mem_cons_self) h₁ h external sends p sent
    have hlast : j' = data.length := hrest.length
    refine ⟨hread, fun hanswered => ⟨sent + x.answers, ?_⟩, fun hnot => ?_⟩
    · rw [handleEventsLoop, hok (answered_cons.mp hanswered).1]
      simp only [ok_bind]
      rw [if_neg (by omega), if_pos hlast]
      rfl
    · rw [handleEventsLoop, hfail fun hx => hnot (answered_cons.mpr ⟨hx, trivial⟩)]
      rfl
  | cons y events ih =>
    obtain ⟨b₁, b₂, h₁, h₂, rfl⟩ := eventsOut_cons_eq_some hout
    obtain ⟨fuel, rfl⟩ : ∃ n, fuel = n + 1 := ⟨fuel - 1, by omega⟩
    obtain ⟨j', hread, hrest, hok, hfail⟩ := handleEvent_eq
      (hevents x mem_cons_self) h₁ h external sends p sent
    have hmore : j' < data.length := by
      have hlen := hrest.length
      have hle := length_eventsOut_le h₂
      rw [length_cons] at hle
      omega
    obtain ⟨hread', hok', hfail'⟩ := ih (fun z hz => hevents z (List.mem_cons_of_mem x hz)) h₂
      hrest { p with settings := p.settings.after x } (sent + x.answers)
      (by rw [length_cons] at hfuel; omega : events.length < fuel)
    refine ⟨hread, fun hanswered => ?_, fun hnot => ?_⟩
    · obtain ⟨hx, hanswered'⟩ := answered_cons.mp hanswered
      obtain ⟨sent', hloop⟩ := hok' hanswered'
      refine ⟨sent', ?_⟩
      rw [handleEventsLoop, hok hx]
      simp only [ok_bind]
      rw [if_neg (by omega), if_neg (by omega)]
      simp only [hread', ok_bind]
      exact hloop
    · by_cases hx : x = .keepalive → sends sent = true
      · rw [handleEventsLoop, hok hx]
        simp only [ok_bind]
        rw [if_neg (by omega), if_neg (by omega)]
        simp only [hread', ok_bind]
        exact hfail' fun hanswered => hnot (answered_cons.mpr ⟨hx, hanswered⟩)
      · rw [handleEventsLoop, hfail hx]
        rfl

/-- The events behind a message. -/
theorem eventsBehind_eq (hevents : ∀ x ∈ events, x.Admitted) (hout : eventsOut e events = some b)
    (h : At data j b) (external : Bool) (sends : Nat → Bool) (mode : Bool) (p : API) (sent : Nat) :
    ((events = [] ∨ external = mode) ∧ Answered sends sent events → ∃ sent',
      eventsBehind e external sends mode p sent data j =
        .ok ({ p with settings := events.foldl Settings.after p.settings }, sent', true)) ∧
    (¬ ((events = [] ∨ external = mode) ∧ Answered sends sent events) → ∃ failure,
      eventsBehind e external sends mode p sent data j = .error failure) := by
  cases events with
  | nil =>
    cases hout
    have hlast : j = data.length := h.length
    rw [eventsBehind, if_neg (not_not.mpr hlast)]
    exact ⟨fun _ => ⟨sent, rfl⟩, fun hnot => absurd ⟨.inl rfl, trivial⟩ hnot⟩
  | cons x events =>
    have hmore : j < data.length := by
      have hlen := h.length
      have hle := length_eventsOut_le hout
      rw [length_cons] at hle
      omega
    rw [eventsBehind, if_pos (by omega)]
    by_cases hmode : external = mode
    · have hfuel : events.length < data.length + 1 := by
        have hlen := h.length
        have hle := length_eventsOut_le hout
        rw [length_cons] at hle
        omega
      obtain ⟨hread, hok, hfail⟩ := handleEventsLoop_eq hevents hout h p sent hfuel
      rw [if_neg (not_not.mpr hmode), handleEvents, if_neg (by omega)]
      simp only [hread, ok_bind]
      refine ⟨fun hcond => hok hcond.2, fun hnot => ⟨.send, hfail fun hanswered => ?_⟩⟩
      exact hnot ⟨.inr hmode, hanswered⟩
    · rw [if_pos hmode]
      refine ⟨fun hcond => ?_, fun _ => ⟨_, rfl⟩⟩
      rcases hcond.1 with hnil | hmode'
      · cases hnil
      · exact absurd hmode' hmode

/-! ## messages -/

theorem args_eq {x : Request} (hvalid : ValidRequest binaryToTerm x) (command : Nat) :
    ∃ args : Callback Term, RequestVariables.args binaryToTerm ⟨x.name, x.pattern, x.requestInfo,
        x.request, x.timeout, x.priority, x.transId, x.source⟩ command = .ok args ∧
      args.command = command ∧ args.Passes binaryToTerm x := by
  obtain ⟨⟨name, hname⟩, ⟨pattern, hpattern⟩, pid, hpid⟩ := hvalid
  refine ⟨⟨command, name, pattern, x.requestInfo, x.request, x.timeout, x.priority, x.transId,
    pid⟩, ?_, rfl, ⟨hname, hpattern, rfl, rfl, rfl, rfl, rfl, hpid⟩⟩
  simp only [RequestVariables.args, ← hname, ← hpattern, decodeUtf8_utf8, hpid, ok_bind]
  rfl

/-- What the handling of a message comes to, from what the events behind it come to. -/
structure Answers (x : Except Failure (API × Nat × (Nat ⊕ Result Term))) (result : Result Term)
    (behind : Except Failure (API × Nat × Bool)) : Prop where
  ok : ∀ p sent, behind = .ok (p, sent, true) → x = .ok (p, sent, .inr result)
  error : ∀ failure, behind = .error failure → x = .error failure

theorem answers_reply (result : Result Term) (p : API) (sent j : Nat) :
    Answers (handleMessage.reply e external sends p sent data result j) result
      (eventsBehind e external sends false p sent data j) where
  ok := by
    intro p' sent' h
    rw [handleMessage.reply, h]
    rfl
  error := by
    intro failure h
    rw [handleMessage.reply, h]
    rfl

theorem answers_request {x : RequestVariables} {args : Callback Term}
    (hread : readRequest e data j = .ok (x, j')) (hargs : x.args binaryToTerm command = .ok args)
    (p : API) (sent : Nat) :
    Answers (handleMessage.request e binaryToTerm external sends p sent data j command)
      (.callback args) (eventsBehind e external sends true p sent data j') where
  ok := by
    intro p' sent' h
    simp only [handleMessage.request, hread, h, hargs, ok_bind, if_true]
    rfl
  error := by
    intro failure h
    simp only [handleMessage.request, hread, h, ok_bind, error_bind]

theorem handleMessage_eq (hm : m.Admitted) (hvalid : Valid binaryToTerm m) (hterm : m ≠ .term)
    (hevent : m.events = []) (hout : m.out e = some b) (h : At data j (b ++ rest)) (external : Bool)
    (sends : Nat → Bool) (p : API) (sent : Nat) :
    ∃ j' result, unpack (formatI e) (slice data j (j + 4)) = .ok m.number ∧ At data j' rest ∧
      Handles binaryToTerm result m ∧
      Answers (handleMessage e binaryToTerm external sends p sent data (j + 4) m.number) result
        (eventsBehind e external sends m.isRequest p sent data j') := by
  cases m with
  | term => exact absurd rfl hterm
  | event x => cases hevent
  | init x =>
    obtain ⟨text, htext⟩ := hvalid
    obtain ⟨j', hread, hinit, hrest⟩ := readInit_eq hm hout h
    refine ⟨j', _, hread, hrest, ⟨text, htext, rfl⟩, fun p' sent' hbehind => ?_,
      fun failure hbehind => ?_⟩
    · simp only [Message.isRequest] at hbehind
      simp only [Message.number, handleMessage, hinit, hbehind, InitVariables.tuple, ← htext,
        decodeUtf8_utf8, ok_bind]
      rfl
    · simp only [Message.isRequest] at hbehind
      simp only [Message.number, handleMessage, hinit, hbehind, ok_bind, error_bind]
  | sendAsync x =>
    obtain ⟨j', hread, hrequest, hrest⟩ := readRequest_eq hm (by decide) hout h
    obtain ⟨args, hargs, hcommand, hpasses⟩ := args_eq hvalid 2
    exact ⟨j', _, hread, hrest, ⟨args, rfl, hcommand, hpasses⟩,
      answers_request hrequest hargs p sent⟩
  | sendSync x =>
    obtain ⟨j', hread, hrequest, hrest⟩ := readRequest_eq hm (by decide) hout h
    obtain ⟨args, hargs, hcommand, hpasses⟩ := args_eq hvalid 3
    exact ⟨j', _, hread, hrest, ⟨args, rfl, hcommand, hpasses⟩,
      answers_request hrequest hargs p sent⟩
  | returnAsync transId =>
    cases hout
    rw [append_assoc] at h
    obtain ⟨hread, htrans⟩ := unpack_number (by decide) h
    have hlen : j + 4 + 16 = j + 4 + transId.length := by rw [show transId.length = 16 from hm]
    have hslice := htrans.slice_eq hlen
    refine ⟨j + 4 + 16, _, hread, hlen ▸ htrans.append, rfl, ?_⟩
    rw [← hslice]
    exact answers_reply _ p sent (j + 4 + 16)
  | returnsAsync transIds =>
    obtain ⟨j', hread, hids, hrest⟩ := readTransIds_eq hm hout h
    refine ⟨j', _, hread, hrest, rfl, ?_⟩
    simp only [Message.number, handleMessage, hids, ok_bind]
    exact answers_reply _ p sent j'
  | subscribeCount count =>
    simp only [Message.out, subscribeCountOut, ite_none_right_eq_some] at hout
    obtain ⟨hcount, hout⟩ := hout
    cases hout
    rw [append_assoc] at h
    obtain ⟨hread, hrest⟩ := unpack_number (by decide) h
    obtain ⟨hunpack, hrest'⟩ := unpack_number hcount hrest
    refine ⟨j + 4 + 4, _, hread, hrest', rfl, ?_⟩
    simp only [Message.number, handleMessage, hunpack, ok_bind]
    exact answers_reply _ p sent (j + 4 + 4)
  | _ =>
    obtain ⟨j', hread, hresponse, hrest⟩ := readResponse_eq hm (by decide) hout h
    refine ⟨j', _, hread, hrest, rfl, ?_⟩
    simp only [Message.number, handleMessage, handleMessage.response, hresponse, ok_bind]
    exact answers_reply _ p sent j'

/-- The events at the front of the data, from the first on. -/
theorem handleMessages_eq (hevents : ∀ y ∈ x :: events, y.Admitted)
    (hout : eventsOut e (x :: events) = some b) (h : At data j b) (p : API) (sent : Nat)
    (hfuel : events.length < fuel) : (Answered sends sent (x :: events) → ∃ sent',
      handleMessages e binaryToTerm external sends data fuel p sent j =
        .ok ({ p with settings := (x :: events).foldl Settings.after p.settings }, sent', .waits)) ∧
    (¬ Answered sends sent (x :: events) →
      handleMessages e binaryToTerm external sends data fuel p sent j = .error .send) := by
  induction events generalizing x p j sent fuel b with
  | nil =>
    obtain ⟨b₁, b₂, h₁, h₂, rfl⟩ := eventsOut_cons_eq_some hout
    cases h₂
    obtain ⟨fuel, rfl⟩ : ∃ n, fuel = n + 1 := ⟨fuel - 1, by omega⟩
    obtain ⟨j', hread, hrest, hok, hfail⟩ := handleEvent_eq
      (hevents x mem_cons_self) h₁ h external sends p sent
    have hlast : j' = data.length := hrest.length
    refine ⟨fun hanswered => ⟨sent + x.answers, ?_⟩, fun hnot => ?_⟩
    · simp only [handleMessages, hread, handleMessage_event, ok_bind,
        hok (answered_cons.mp hanswered).1, Except.map, elim_some]
      rw [if_pos hlast]
      rfl
    · simp only [handleMessages, hread, handleMessage_event, ok_bind,
        hfail fun hx => hnot (answered_cons.mpr ⟨hx, trivial⟩)]
      rfl
  | cons y events ih =>
    obtain ⟨b₁, b₂, h₁, h₂, rfl⟩ := eventsOut_cons_eq_some hout
    obtain ⟨fuel, rfl⟩ : ∃ n, fuel = n + 1 := ⟨fuel - 1, by omega⟩
    obtain ⟨j', hread, hrest, hok, hfail⟩ := handleEvent_eq
      (hevents x mem_cons_self) h₁ h external sends p sent
    have hmore : j' < data.length := by
      have hlen := hrest.length
      have hle := length_eventsOut_le h₂
      rw [length_cons] at hle
      omega
    obtain ⟨hok', hfail'⟩ := ih (fun z hz => hevents z (List.mem_cons_of_mem x hz)) h₂
      hrest { p with settings := p.settings.after x } (sent + x.answers)
      (by rw [length_cons] at hfuel; omega : events.length < fuel)
    refine ⟨fun hanswered => ?_, fun hnot => ?_⟩
    · obtain ⟨hx, hanswered'⟩ := answered_cons.mp hanswered
      obtain ⟨sent', hloop⟩ := hok' hanswered'
      refine ⟨sent', ?_⟩
      simp only [handleMessages, hread, handleMessage_event, hok hx, ok_bind, Except.map,
        elim_some]
      rw [if_neg (by omega), if_pos hmore]
      exact hloop
    · by_cases hx : x = .keepalive → sends sent = true
      · simp only [handleMessages, hread, handleMessage_event, hok hx, ok_bind, Except.map,
          elim_some]
        rw [if_neg (by omega), if_pos hmore]
        exact hfail' fun hanswered => hnot (answered_cons.mpr ⟨hx, hanswered⟩)
      · simp only [handleMessages, hread, handleMessage_event, hfail hx, ok_bind]
        rfl

/-! ## the agreement -/

/-- The last settings of the events. -/
def lastReinit : List Event → Option Reinit
  | [] => none
  | .reinit x :: events => (lastReinit events).or (some x)
  | .keepalive :: events => lastReinit events

theorem foldl_after (events : List Event) (s : Settings) : events.foldl Settings.after s =
      (lastReinit events).elim s fun x => s.after (.reinit x) := by
  induction events generalizing s with
  | nil => rfl
  | cons x events ih =>
    rw [List.foldl_cons, ih]
    cases x with
    | keepalive => rfl
    | reinit x =>
      rw [lastReinit]
      cases lastReinit events <;> rfl

/-- The settings that `__init__` takes are those that were encoded last. -/
def InitFits (x : Init) (events : List Event) : Prop :=
  match lastReinit events with
  | none => x.timeoutAsync = x.timeoutSync
  | some r => r.processCount = x.processCount ∧ r.timeoutAsync = x.timeoutSync ∧
      r.timeoutSync = x.timeoutAsync ∧ r.priorityDefault = x.priorityDefault

theorem exchanged_eq_iff (x : Init) (text : String) (events : List Event) :
    (Settings.ofInit x text).exchanged = events.foldl Settings.after (.ofInit x text) ↔
      InitFits x events := by
  rw [foldl_after, InitFits]
  cases lastReinit events with
  | none =>
    simp only [Option.elim_none, Settings.exchanged, Settings.ofInit, Settings.mk.injEq,
      true_and, and_true]
    exact ⟨fun h => h.2, fun h => ⟨h.symm, h⟩⟩
  | some r =>
    simp only [elim_some, Settings.exchanged, Settings.ofInit, Settings.after,
      Settings.mk.injEq, true_and]
    constructor
    · rintro ⟨hcount, hasync, hsync, hpriority⟩
      exact ⟨hcount.symm, hasync.symm, hsync.symm, hpriority.symm⟩
    · rintro ⟨hcount, hasync, hsync, hpriority⟩
      exact ⟨hcount.symm, hasync.symm, hsync.symm, hpriority.symm⟩

/-- **What the received data is decoded to**: without an exception, with the fields of the
message, and with the settings that were encoded last.  An initialization is decoded in
`__init__`. -/
def Decodes (e : Endianness) (binaryToTerm : Binary → Option Term) (external : Bool)
    (sends : Nat → Bool) (p : API) (data : Binary) (events : List Event) : Message → Prop
  | .init x => ∃ p' sent text, p.init e binaryToTerm sends data = .ok (p', sent, true) ∧
      utf8 text = x.namePrefix ∧ p'.settings = events.foldl Settings.after (.ofInit x text)
  | m => ∃ p' sent result,
      received e binaryToTerm external sends p data = .ok (p', sent, result) ∧
        Handles binaryToTerm result m ∧
        p'.settings = (m.events ++ events).foldl Settings.after p.settings

/-- **The condition**: the settings of an initialization are those encoded last although
`__init__` exchanges two of them and takes them after the events; events are behind a
request only in `poll`, and behind another message only in a blocking call; and the
answers to the keepalive messages are sent. -/
def Fits (external : Bool) (sends : Nat → Bool) (events : List Event) : Message → Prop
  | .init x => InitFits x events ∧ Answered sends 0 events
  | .event x => Answered sends 0 (x :: events)
  | m => (events = [] ∨ external = m.isRequest) ∧ Answered sends 0 events

/-- The received data of a message that is not an event. -/
theorem received_eq (hm : m.Admitted) (hvalid : Valid binaryToTerm m) (hterm : m ≠ .term)
    (hevent : m.events = []) (hevents : ∀ x ∈ events, x.Admitted) (hout : m.out e = some b)
    (heventsOut : eventsOut e events = some bs) (external : Bool) (sends : Nat → Bool) (p : API) :
    ∃ result, Handles binaryToTerm result m ∧
      ((events = [] ∨ external = m.isRequest) ∧ Answered sends 0 events → ∃ sent,
        received e binaryToTerm external sends p (b ++ bs) =
          .ok ({ p with settings := events.foldl Settings.after p.settings }, sent, result)) ∧
      (¬ ((events = [] ∨ external = m.isRequest) ∧ Answered sends 0 events) → ∃ failure,
        received e binaryToTerm external sends p (b ++ bs) = .error failure) := by
  have hpos : (b ++ bs).length ≠ 0 := by
    have hfirst := length_out_pos hout
    rw [List.length_append]
    omega
  obtain ⟨j', result, hread, hrest, hhandles, hanswers⟩ := handleMessage_eq hm hvalid hterm hevent
    hout (at_zero (b ++ bs)) external sends p 0
  obtain ⟨hok, hfail⟩ := eventsBehind_eq hevents heventsOut hrest external sends m.isRequest p 0
  have hfirst : received e binaryToTerm external sends p (b ++ bs) =
      handleMessages e binaryToTerm external sends (b ++ bs) ((b ++ bs).length + 1) p 0 0 :=
    if_neg hpos
  refine ⟨result, hhandles, fun hcond => ?_, fun hnot => ?_⟩
  · obtain ⟨sent, hbehind⟩ := hok hcond
    refine ⟨sent, ?_⟩
    rw [hfirst, handleMessages]
    simp only [hread, hanswers.ok _ sent hbehind, ok_bind]
    rfl
  · obtain ⟨failure, hbehind⟩ := hfail hnot
    refine ⟨failure, ?_⟩
    rw [hfirst, handleMessages]
    simp only [hread, hanswers.error failure hbehind, ok_bind]
    rfl

/-- What `__init__` sets after an initialization. -/
theorem init_eq {x : Init} (hx : x.Admitted) (hvalid : ∃ text, utf8 text = x.namePrefix)
    {events : List Event} (hevents : ∀ y ∈ events, y.Admitted) (hout : initOut e x = some b)
    (heventsOut : eventsOut e events = some bs) (binaryToTerm : Binary → Option Term)
    (sends : Nat → Bool) (p : API) :
    ∃ text, utf8 text = x.namePrefix ∧
      (Answered sends 0 events → ∃ sent, p.init e binaryToTerm sends (b ++ bs) =
        .ok ({ p with settings := (Settings.ofInit x text).exchanged }, sent, true)) ∧
      (¬ Answered sends 0 events → ∃ failure,
        p.init e binaryToTerm sends (b ++ bs) = .error failure) := by
  have hmessage : Valid binaryToTerm (.init x) := hvalid
  obtain ⟨result, ⟨text, htext, rfl⟩, hok, hfail⟩ :=
    received_eq (m := .init x) hx hmessage nofun rfl hevents hout heventsOut false sends p
  refine ⟨text, htext, fun hanswered => ?_, fun hnot => ?_⟩
  · obtain ⟨sent, hreceived⟩ := hok ⟨.inr rfl, hanswered⟩
    refine ⟨sent, ?_⟩
    rw [API.init, hreceived]
    rfl
  · obtain ⟨failure, hreceived⟩ := hfail fun hcond => hnot hcond.2
    refine ⟨failure, ?_⟩
    rw [API.init, hreceived]
    rfl

/-- A message that is neither an initialization nor an event. -/
theorem decoded_other_iff (hm : m.Admitted) (hvalid : Valid binaryToTerm m) (hterm : m ≠ .term)
    (hevent : m.events = []) (hevents : ∀ x ∈ events, x.Admitted) (hout : m.out e = some b)
    (heventsOut : eventsOut e events = some bs) (external : Bool) (sends : Nat → Bool) (p : API) :
    (∃ p' sent result, received e binaryToTerm external sends p (b ++ bs) = .ok (p', sent, result) ∧
        Handles binaryToTerm result m ∧
        p'.settings = (m.events ++ events).foldl Settings.after p.settings) ↔
      (events = [] ∨ external = m.isRequest) ∧ Answered sends 0 events := by
  obtain ⟨result, hhandles, hok, hfail⟩ :=
    received_eq hm hvalid hterm hevent hevents hout heventsOut external sends p
  constructor
  · rintro ⟨p', sent, result', hreceived, -, -⟩
    by_contra hnot
    obtain ⟨failure, hfailure⟩ := hfail hnot
    rw [hfailure] at hreceived
    cases hreceived
  · intro hcond
    obtain ⟨sent, hreceived⟩ := hok hcond
    refine ⟨_, sent, result, hreceived, hhandles, ?_⟩
    rw [hevent, nil_append]

/-- **Wire protocol agreement**: what is received is decoded exactly under the condition. -/
theorem decoded_iff {m : Message} (hm : m.Admitted) (hvalid : Valid binaryToTerm m)
    (hterm : m ≠ .term) {events : List Event} (hevents : ∀ x ∈ events, x.Admitted)
    (hout : m.out e = some b) (heventsOut : eventsOut e events = some bs) (external : Bool)
    (sends : Nat → Bool) (p : API) :
    Decodes e binaryToTerm external sends p (b ++ bs) events m ↔ Fits external sends events m := by
  cases m with
  | init x =>
    obtain ⟨text, htext, hok, hfail⟩ :=
      init_eq hm hvalid hevents hout heventsOut binaryToTerm sends p
    constructor
    · rintro ⟨p', sent, text', hinit, htext', hsettings⟩
      have hanswered : Answered sends 0 events := by
        by_contra hnot
        obtain ⟨failure, hfailure⟩ := hfail hnot
        rw [hfailure] at hinit
        cases hinit
      obtain ⟨sent', hinit'⟩ := hok hanswered
      rw [hinit'] at hinit
      cases hinit
      refine ⟨(exchanged_eq_iff x text events).mp ?_, hanswered⟩
      have hsame : text = text' := utf8_injective (htext.trans htext'.symm)
      rw [hsame]
      exact hsame ▸ hsettings
    · rintro ⟨hfits, hanswered⟩
      obtain ⟨sent, hinit⟩ := hok hanswered
      exact ⟨_, sent, text, hinit, htext, (exchanged_eq_iff x text events).mpr hfits⟩
  | event x =>
    have hall : eventsOut e (x :: events) = some (b ++ bs) := by
      have hx : x.out e = some b := hout
      rw [eventsOut, hx, Option.bind_some, heventsOut]
      rfl
    have hlen := length_eventsOut_le hall
    rw [length_cons] at hlen
    have hadmitted : ∀ y ∈ x :: events, y.Admitted := List.forall_mem_cons.mpr ⟨hm, hevents⟩
    obtain ⟨hok, hfail⟩ := handleMessages_eq hadmitted hall (at_zero (b ++ bs)) p 0
      (by omega : events.length < (b ++ bs).length + 1)
    have hreceived : received e binaryToTerm external sends p (b ++ bs) =
        handleMessages e binaryToTerm external sends (b ++ bs) ((b ++ bs).length + 1) p 0 0 :=
      if_neg (by omega)
    constructor
    · rintro ⟨p', sent, result, hrun, -, -⟩
      by_contra hnot
      rw [hreceived, hfail hnot] at hrun
      cases hrun
    · intro hanswered
      obtain ⟨sent, hrun⟩ := hok hanswered
      exact ⟨_, sent, .waits, hreceived.trans hrun, rfl, rfl⟩
  | term => exact absurd rfl hterm
  | _ => exact decoded_other_iff hm hvalid hterm rfl hevents hout heventsOut external sends p

/-! ## a request with events, and an initialization -/

/-- The external term of the pid `<0.80.0>` of `nonode@nohost`. -/
def sourcePid : Binary :=
  [131, 88, 119, 13, 110, 111, 110, 111, 100, 101, 64, 110, 111, 104, 111, 115, 116,
    0, 0, 0, 80, 0, 0, 0, 0, 0, 0, 0, 0]

/-- A request. -/
def request : Request :=
  ⟨[47, 97], [47, 42], [], [1, 2], 5000, -3, List.replicate 16 7, sourcePid⟩

/-- Events behind it. -/
def events : List Event := [.keepalive, .reinit ⟨2, 5000, 4000, 1⟩]

/-- What is received. -/
def requestData : Binary :=
  ((Message.sendSync request).out .little).getD [] ++ (eventsOut .little events).getD []

theorem decoded_iff_requestAndEvents :
    Decodes .little some true (fun _ => true) {} requestData events (.sendSync request) := by
  have hvalid : ValidRequest some request :=
    ⟨⟨"/a", by decide +kernel⟩, ⟨"/*", by decide +kernel⟩, _, rfl⟩
  exact (decoded_iff (m := .sendSync request) (by decide) hvalid nofun (by decide) rfl rfl true
    _ {}).mpr ⟨.inr rfl, rfl, trivial⟩

/-- An initialization with different timeouts. -/
def initialization : Init := ⟨0, 1, 1, 1, [47], 5000, 5000, 6000, 2000, 0⟩

/-- Its timeouts are exchanged. -/
theorem init_exchanges_timeouts : ∃ data, Message.out .little (.init initialization) = some data ∧
      ¬ Decodes .little some false (fun _ => true) {} data [] (.init initialization) := by
  refine ⟨_, rfl, ?_⟩
  rintro ⟨p, sent, text, hinit, htext, hsettings⟩
  have hevents : ∀ x ∈ ([] : List Event), x.Admitted := nofun
  have hnone : eventsOut .little [] = some [] := rfl
  obtain ⟨text', htext', hok, -⟩ :=
    init_eq (by decide) ⟨text, htext⟩ hevents rfl hnone some (fun _ => true) {}
  obtain ⟨sent', hinit'⟩ := hok trivial
  rw [List.append_nil, hinit] at hinit'
  cases hinit'
  cases hsettings

end CloudI.ApiPython
