import CloudI.ServiceFilesystem.Multipart
import Mathlib.Data.List.Lex

/-!
# ServiceFilesystem.LosesNothing

The runs in which a multi-part append loses nothing: no step stores a record whose chunks are not
those of the record that appends read, and no last chunk is refused or overtaken by its timer.
-/

namespace CloudI.ServiceFilesystem

open CloudI.Lists Run List Option Function

variable {Id Req Notify MTime : Type} {config : Config}

/-! ## the records -/

section Records

variable {file : File Id Req Notify MTime} {files : Name → File Id Req Notify MTime} {name : Name}
  {w w' : World Id Req Notify MTime}

theorem post_mem_names (config : Config) : Name.post ∈ names config := by
  simp [names]

theorem get_mem_names (config : Config) : Name.get ∈ names config := by
  simp [names]

/-- Every name of the file has the same contents. -/
def SameContents (config : Config) (w : World Id Req Notify MTime) : Prop :=
  ∀ name ∈ names config, (w.files name).contents = (w.files .post).contents

theorem SameContents.store (h : SameContents config w)
    (hfiles : w'.files = store .post file w.files)
    (hcontents : file.contents = (w.files .post).contents) : SameContents config w' := by
  intro name hname
  rw [hfiles]
  unfold ServiceFilesystem.store
  by_cases hpost : name = .post
  · rw [if_pos hpost, if_pos rfl]
  · rw [if_neg hpost, if_pos rfl, h name hname, hcontents]

/-- A step that leaves the chunks, their timers and their messages as they are. -/
structure SameChunks (config : Config) (w w' : World Id Req Notify MTime) : Prop where
  appends : (w'.files .post).writeAppends = (w.files .post).writeAppends
  timers : w'.timers = w.timers
  messages : w'.messages = w.messages
  contents : SameContents config w → SameContents config w'

theorem SameChunks.refl (config : Config) (w : World Id Req Notify MTime) :
    SameChunks config w w := ⟨rfl, rfl, rfl, id⟩

theorem sameChunks_of_refresh (hfiles : w'.files = fileRefresh config file w.files)
    (happends : file.writeAppends = (w.files .post).writeAppends) (htimers : w'.timers = w.timers)
    (hmessages : w'.messages = w.messages) : SameChunks config w w' := by
  have hfile : ∀ name ∈ names config, w'.files name = file := fun name hname => by
    rw [hfiles, fileRefresh_of_mem hname]
  have hpost := hfile .post (post_mem_names config)
  exact {
    appends := by rw [hpost, happends]
    timers := htimers
    messages := hmessages
    contents := fun _ name hname => by rw [hfile name hname, hpost] }

/-- A request whose handling leaves the chunks alone. -/
theorem sameChunks_of_request (hhandle : name ∈ names config → (w.files name).redirect = none →
      handle = some (reply, w') → SameChunks config w w')
    (h : request config w name handle = some (reply, w')) : SameChunks config w w' := by
  unfold request at h
  by_cases hname : name ∈ names config
  · rw [if_pos hname] at h
    cases hredirect : (w.files name).redirect with
    | none =>
      rw [hredirect] at h
      exact hhandle hname hredirect h
    | some _ =>
      rw [hredirect] at h
      cases h
      exact .refl config w
  · rw [if_neg hname] at h
    cases h
    exact .refl config w

theorem sameChunks_of_notify (hkeeps : name ∈ names config →
      (w.files name).writeAppends = (w.files .post).writeAppends) (notify : List Notify)
    (h : (if name ∈ names config then
      some (Reply.ok, { w with files := fileRefresh config { w.files name with notify } w.files })
      else some (.status 404, w)) = some (reply, w')) : SameChunks config w w' := by
  by_cases hname : name ∈ names config
  · rw [if_pos hname] at h
    cases h
    exact sameChunks_of_refresh rfl (hkeeps hname) rfl rfl
  · rw [if_neg hname] at h
    cases h
    exact .refl config w

theorem SameChunks.markUnseen (h : SameChunks config w w') (toggle : Bool) (readAll : Bool) :
    SameChunks config w { w' with
      toggle
      files := if readAll then markUnseen toggle w'.files else w'.files } := by
  cases readAll with
  | _ => exact ⟨h.appends, h.timers, h.messages, h.contents⟩

/-- The contents are within the limit, and are written. -/
def Writes (config : Config) (w : World Id Req Notify MTime) (file : File Id Req Notify MTime)
    (contents : Binary) (written : Written MTime) : Prop :=
  filesSizeCheck (w.filesSize - file.size) contents config.filesSizeLimit ≠ none ∧
    written ≠ .error

/-- Contents are refused, or stored under every name with the chunks of the record. -/
theorem writeContents_cases [DecidableEq MTime]
    (h : writeContents config w file contents written = some (reply, w')) :
    (w' = w ∧ reply ≠ .ok ∧ ¬ Writes config w file contents written) ∨
      (reply = .ok ∧ Writes config w file contents written ∧
        ∃ file', file'.contents = contents ∧ file'.writeAppends = file.writeAppends ∧
          w'.files = fileRefresh config file' w.files ∧ w'.timers = w.timers ∧
          w'.messages = w.messages) := by
  unfold writeContents at h
  unfold Writes
  cases hcheck : filesSizeCheck (w.filesSize - file.size) contents config.filesSizeLimit with
  | none =>
    rw [hcheck] at h
    cases h
    exact .inl ⟨rfl, Reply.noConfusion, fun hw => hw.1 rfl⟩
  | some x =>
    obtain ⟨size, filesSize⟩ := x
    rw [hcheck] at h
    cases written with
    | error =>
      cases h
      exact .inl ⟨rfl, Reply.noConfusion, fun hw => hw.2 rfl⟩
    | noInfo => cases h
    | ok mtime =>
      cases h
      let file' := { file with contents, size, mtimeI := mtimeIUpdate file.mtimeI mtime }
      exact .inr ⟨rfl, ⟨some_ne_none _, nofun⟩, file', rfl, rfl, rfl, rfl, rfl⟩

end Records

/-! ## what loses a chunk -/

section Calm

variable (config : Config) (bytes : Req → Binary) (w : World Id Req Notify MTime)

/-- The record under a name has the chunks of the one that appends read. -/
def Keeps (name : Name) : Prop := (w.files name).writeAppends = (w.files .post).writeAppends

/-- The file is seen by a refresh, unmodified, unreadable or within the limit. -/
def Refreshes : Option (MTime × Option Binary) → Prop
  | none => False
  | some (mtime, contents) =>
      mtime = (w.files .get).mtimeI.1 ∨ ∀ c, contents = some c →
        filesSizeCheck (w.filesSize - (w.files .get).size) c config.filesSizeLimit ≠ none

variable [LinearOrder Id] [LinearOrder Req]

/-- The chunks are not refused for a range, the limit or the write. -/
def Accepts (rangeRequests : List (RangeRequest Req)) (written : Written MTime) : Prop :=
  match appendContents bytes rangeRequests (w.files .post).contents with
  | .contents contents => Writes config w (w.files .post) contents written
  | .outside => False
  | .raises => True

/-- **The steps that lose nothing**: a record that is stored under every name has the chunks of
the one that appends read, and while chunks wait, their last one is neither refused nor handled
between the end of their timer and its message. -/
def Calm : Event Id Req Notify MTime → Prop
  | .truncate range request written =>
      config.truncate = true → (w.files .put).redirect = none → range = false →
        Writes config w (w.files .put) (bytes request) written → Keeps w .put
  | .notify name _ => name ∈ names config → Keeps w name
  | .notifyClear name => name ∈ names config → Keeps w name
  | .refresh seen => Refreshes config w seen → Keeps w .get
  | .append (.chunk range id true index) request written =>
      (w.files .post).redirect = none → waiting id (w.files .post).writeAppends ≠ none →
        (.post, id) ∉ w.messages ∧
          Accepts config bytes w ((stored index ⟨range, request⟩ none
            (waiting id (w.files .post).writeAppends)).map (·.rangeRequest)) written
  | .append (.rejected id true _) _ _ =>
      (w.files .post).redirect = none → waiting id (w.files .post).writeAppends = none
  | _ => True

/-- What has arrived after an event. -/
def track (arrived : Arrived Id Req) : Event Id Req Notify MTime → Arrived Id Req
  | .append (.chunk range id last index) request _ =>
      if (w.files .post).redirect.isSome then arrived
      else update arrived id
        (if last then [] else (index, ⟨range, request⟩) :: arrived id)
  | .clear =>
      match w.messages with
      | [] => arrived
      | (_, id) :: _ => update arrived id []
  | _ => arrived

variable [DecidableEq MTime]

/-- A step, with what has arrived. -/
def observe (s : World Id Req Notify MTime × Arrived Id Req) (e : Event Id Req Notify MTime) :
    Option (World Id Req Notify MTime × Arrived Id Req) :=
  (step config bytes s.1 e).map fun x => (x.2, track s.1 s.2 e)

/-- The last chunk of an identifier. -/
def Event.last : Event Id Req Notify MTime → Option Id
  | .append (.chunk _ id true _) _ _ => some id
  | .append (.rejected id true _) _ _ => some id
  | _ => none

/-- **A multi-part append loses nothing**: with the last chunk, all chunks that have arrived are
applied in the order of their indexes, under every name; after it no chunk waits; and an
`append_clear` message does not fail. -/
structure LosesNothing (arrived : Arrived Id Req) (e : Event Id Req Notify MTime) : Prop where
  applied : ∀ range id index request written w',
    e = .append (.chunk range id true index) request written →
    step config bytes w e = some (.ok, w') → ∀ chunks : List (Int × RangeRequest Req),
      chunks.Perm ((index, ⟨range, request⟩) :: arrived id) →
      chunks.Pairwise (fun a b => a.1 < b.1) → ∃ contents,
        appendContents bytes (chunks.map (·.2)) (w.files .post).contents = .contents contents ∧
          ∀ name ∈ names config, (w'.files name).contents = contents
  gone : ∀ id reply w', e.last = some id → (w.files .post).redirect = none →
    step config bytes w e = some (reply, w') → waiting id (w'.files .post).writeAppends = none
  clears : e = .clear → step config bytes w e ≠ none

end Calm

/-! ## steps that leave the chunks alone -/

section Steps

variable [LinearOrder Id] [LinearOrder Req] [DecidableEq MTime] {bytes : Req → Binary}
  {w w' : World Id Req Notify MTime} {file : File Id Req Notify MTime} {contents : Binary}
  {written : Written MTime} {reply : Reply}

theorem sameChunks_of_truncate {range : Bool} {request : Req}
    (hcalm : Calm config bytes w (.truncate range request written))
    (h : step config bytes w (.truncate range request written) = some (reply, w')) :
    SameChunks config w w' := by
  refine sameChunks_of_request (fun hname hredirect hput => ?_) h
  have htruncate : config.truncate = true := by
    by_contra hnot
    simp [names, hnot] at hname
  unfold requestTruncate at hput
  cases range with
  | true =>
    cases hput
    exact .refl config w
  | false =>
    rcases writeContents_cases hput with
      ⟨rfl, -, -⟩ | ⟨-, hwrites, file', -, happends, hfiles, htimers, hmessages⟩
    · exact .refl config w'
    · have hkeeps : Keeps w .put := hcalm htruncate hredirect rfl hwrites
      exact sameChunks_of_refresh hfiles (happends.trans hkeeps) htimers hmessages

theorem sameChunks_of_readFilesRefresh (hcalm : Calm config bytes w (.refresh seen)) :
    SameChunks config w (readFilesRefresh config w seen) := by
  refine SameChunks.markUnseen ?_ (!w.toggle) config.readAll
  cases seen with
  | none => exact .refl config w
  | some x =>
    obtain ⟨mtime, contents⟩ := x
    have hkeeps : Refreshes config w (some (mtime, contents)) → Keeps w .get := hcalm
    show SameChunks config w (if mtime = (w.files .get).mtimeI.1 then _ else _)
    by_cases hmtime : mtime = (w.files .get).mtimeI.1
    · rw [if_pos hmtime]
      exact sameChunks_of_refresh rfl (hkeeps (.inl hmtime)) rfl rfl
    · rw [if_neg hmtime]
      cases contents with
      | none => exact sameChunks_of_refresh rfl (hkeeps (.inr fun c hc => nomatch hc)) rfl rfl
      | some c =>
        dsimp only
        cases hcheck : filesSizeCheck (w.filesSize - (w.files .get).size) c
            config.filesSizeLimit with
        | none => exact .refl config w
        | some x =>
          have hkept := hkeeps <| .inr fun c' hc' => by
            cases hc'
            rw [hcheck]
            exact some_ne_none x
          exact sameChunks_of_refresh rfl hkept rfl rfl

end Steps

/-! ## the invariant of a run -/

section Invariant

variable [LinearOrder Id] [LinearOrder Req] {bytes : Req → Binary}
  {w w' : World Id Req Notify MTime} {arrived : Arrived Id Req} {reply : Reply}

/-- **The invariant**: every name has the same contents, and the chunks that wait are the ones
that have arrived. -/
structure Invariant (config : Config) (s : World Id Req Notify MTime × Arrived Id Req) : Prop where
  contents : SameContents config s.1
  tracked : Tracked (s.1.files .post).writeAppends s.1.timers s.1.messages s.2

/-- The file as the service starts with it: one record under all names, and no chunk waits. -/
structure Fresh (config : Config) (w : World Id Req Notify MTime) : Prop where
  same : ∀ name ∈ names config, w.files name = w.files .post
  appends : (w.files .post).writeAppends = []
  timers : w.timers = []
  messages : w.messages = []

theorem Fresh.invariant (h : Fresh config w) : Invariant config (w, fun _ => []) where
  contents := fun name hname => congrArg File.contents (h.same name hname)
  tracked := by
    show Tracked (w.files .post).writeAppends w.timers w.messages _
    rw [h.appends, h.timers, h.messages]
    exact {
      nodup := nodup_nil
      sorted := fun id l hl => by cases hl
      gone := fun id _ => rfl
      perm := fun id l hl => by cases hl
      timer := fun t ht => by cases ht
      message := fun m hm => by cases hm
      once := nodup_nil }

theorem Invariant.of_sameChunks (h : Invariant config (w, arrived))
    (hsame : SameChunks config w w') : Invariant config (w', arrived) where
  contents := hsame.contents h.contents
  tracked := by
    show Tracked (w'.files .post).writeAppends w'.timers w'.messages arrived
    rw [hsame.appends, hsame.timers, hsame.messages]
    exact h.tracked

variable {id : Id} {request : Req} {range : Option Range} {index : Int}
  {e : Event Id Req Notify MTime}

theorem Invariant.refused (h : Invariant config (w, arrived))
    (hnone : waiting id (w.files .post).writeAppends = none) (htimers : timers.Sublist w.timers) :
    Invariant config ({ w with timers }, update arrived id []) where
  contents := h.contents
  tracked := by
    have hgone : update arrived id [] = arrived :=
      update_eq_self_iff.mpr (h.tracked.gone id hnone).symm
    rw [hgone]
    exact { h.tracked with
      timer := fun t ht => h.tracked.timer t (htimers.mem ht)
      once := ((htimers.map _).append (List.Sublist.refl _)).nodup h.tracked.once }

variable [DecidableEq MTime]

section

variable (h : Invariant config (w, arrived))

include h

theorem Invariant.chunk
    (hstep : requestAppend config bytes w (.chunk range id false index) request written =
      some (reply, w')) : Invariant config
      (w', update arrived id ((index, ⟨range, request⟩) :: arrived id)) := by
  cases hstep
  constructor
  case contents => exact h.contents.store rfl rfl
  case tracked =>
    have hstored := h.tracked.store id index ⟨range, request⟩ w.nextTref
    rw [waiting, isNone_map] at hstored
    exact hstored

/-- **The last chunk** is applied with those that wait, or refused when none waits. -/
theorem Invariant.last
    (hcalm : waiting id (w.files .post).writeAppends ≠ none → (.post, id) ∉ w.messages ∧
      Accepts config bytes w ((stored index ⟨range, request⟩ none
        (waiting id (w.files .post).writeAppends)).map (·.rangeRequest)) written)
    (hstep : requestAppend config bytes w (.chunk range id true index) request written =
      some (reply, w')) : Invariant config (w', update arrived id []) ∧
      waiting id (w'.files .post).writeAppends = none ∧
      (reply = .ok → ∃ contents, appendContents bytes ((stored index ⟨range, request⟩ none
          (waiting id (w.files .post).writeAppends)).map (·.rangeRequest))
          (w.files .post).contents = .contents contents ∧
        ∀ name ∈ names config, (w'.files name).contents = contents) := by
  obtain ⟨rest, htake, hnodup, hrest⟩ :=
    requestAppendTake_store id index ⟨range, request⟩ h.tracked.nodup
  have hwaiting : waiting id rest = none := by rw [hrest, if_pos rfl]
  have hcancelled := h.tracked.cancelled id
    (stored index ⟨range, request⟩ none (waiting id (w.files .post).writeAppends))
    fun l hl chunk hchunk => mem_stored hl hchunk index ⟨range, request⟩ none
  have hmessage : ∀ m ∈ w.messages, m.2 ≠ id := by
    intro m hm heq
    obtain ⟨hpost, hwait⟩ := h.tracked.message m hm
    rw [heq] at hwait
    have hm' : m = (.post, id) := Prod.ext hpost heq
    exact (hcalm hwait).1 (hm' ▸ hm)
  -- a chunk that is refused is the only one
  have hrefused : ¬ Accepts config bytes w ((stored index ⟨range, request⟩ none
        (waiting id (w.files .post).writeAppends)).map (·.rangeRequest)) written →
      waiting id (w.files .post).writeAppends = none := by
    intro hnot
    by_contra hne
    exact hnot (hcalm hne).2
  unfold requestAppend at hstep
  dsimp only at hstep htake
  rw [htake] at hstep
  unfold requestAppendFile at hstep
  unfold Accepts at hrefused
  cases happend : appendContents bytes ((stored index ⟨range, request⟩ none
      (waiting id (w.files .post).writeAppends)).map (·.rangeRequest)) (w.files .post).contents with
  | raises =>
    simp only [bind_eq_bind, bind_some, happend] at hstep
    cases hstep
  | outside =>
    rw [happend] at hrefused
    simp only [bind_eq_bind, bind_some, happend] at hstep
    cases hstep
    have hnone := hrefused not_false
    exact ⟨h.refused hnone filter_sublist, hnone, Reply.noConfusion⟩
  | contents contents =>
    rw [happend] at hrefused
    simp only [bind_eq_bind, bind_some, happend] at hstep
    rcases writeContents_cases hstep with
      ⟨rfl, hreply, hnot⟩ | ⟨-, -, file', hcontents, happends, hfiles, htimers, hmessages⟩
    · have hnone := hrefused hnot
      exact ⟨h.refused hnone filter_sublist, hnone, fun hok => absurd hok hreply⟩
    · have hfile : ∀ name ∈ names config, w'.files name = file' := fun name hname => by
        rw [hfiles, fileRefresh_of_mem hname]
      have hpost := hfile .post (post_mem_names config)
      have hrest' : (w'.files .post).writeAppends = rest := by rw [hpost, happends]
      refine ⟨⟨fun name hname => ?_, ?_⟩, by rw [hrest', hwaiting], fun _ => ⟨contents, rfl, ?_⟩⟩
      · show (w'.files name).contents = (w'.files .post).contents
        rw [hfile name hname, hpost]
      · show Tracked (w'.files .post).writeAppends w'.timers w'.messages _
        rw [hrest', htimers, hmessages]
        exact h.tracked.take hnodup hrest filter_sublist (List.Sublist.refl _) hcancelled
          hmessage
      · intro name hname
        rw [hfile name hname, hcontents]

/-- **An `append_clear` message** finds the chunks. -/
theorem Invariant.clear (bytes : Req → Binary) : ∃ w', step config bytes w .clear = some (.ok, w') ∧
      Invariant config (w', track w arrived .clear) := by
  unfold step track
  cases hmessages : w.messages with
  | nil => exact ⟨w, rfl, h⟩
  | cons m messages =>
    obtain ⟨name, id⟩ := m
    have hm : (name, id) ∈ w.messages := hmessages ▸ mem_cons_self
    obtain ⟨hpost, hwait⟩ := h.tracked.message (name, id) hm
    cases (show name = .post from hpost)
    obtain ⟨l, hl⟩ := ne_none_iff_exists'.mp hwait
    obtain ⟨rest, htake, hnodup, hrest⟩ := requestAppendTake_of_waiting hl h.tracked.nodup
    have honce := (nodup_append.mp h.tracked.once).2.1
    change (w.messages.map (·.2)).Nodup at honce
    rw [hmessages, map_cons, nodup_cons] at honce
    have hmessage : ∀ m ∈ messages, m.2 ≠ id := fun m hm heq =>
      honce.1 (List.mem_map.mpr ⟨m, hm, heq⟩)
    have hsub : messages.Sublist w.messages := by
      rw [hmessages]
      exact sublist_cons_self _ messages
    have hcancelled := h.tracked.cancelled id l fun l' hl' chunk hchunk => by
      rw [hl] at hl'
      cases hl'
      exact hchunk
    dsimp only
    rw [htake]
    refine ⟨_, rfl, h.contents.store rfl rfl, ?_⟩
    exact h.tracked.take hnodup hrest filter_sublist hsub hcancelled hmessage

theorem Invariant.fire (tref : Nat) (hstep : step config bytes w (.fire tref) = some (reply, w')) :
    Invariant config (w', arrived) := by
  unfold step at hstep
  dsimp only at hstep
  cases hfind : w.timers.find? (·.1 = tref) with
  | none =>
    rw [hfind] at hstep
    cases hstep
    exact h
  | some t =>
    rw [hfind] at hstep
    cases hstep
    have ht := mem_of_find?_eq_some hfind
    have htref : t.1 = tref := by simpa using find?_some hfind
    subst htref
    exact ⟨h.contents, h.tracked.fire ht⟩

end

theorem step_append (headers : AppendHeaders Id) (request : Req) (written : Written MTime) :
    step config bytes w (.append headers request written) =
      if (w.files .post).redirect.isSome then some (.status 301, w)
      else requestAppend config bytes w headers request written := by
  show ServiceFilesystem.request config w .post _ = _
  rw [ServiceFilesystem.request, if_pos (post_mem_names config)]

theorem Invariant.append {headers : AppendHeaders Id} {written : Written MTime}
    (h : Invariant config (w, arrived))
    (hcalm : Calm config bytes w (.append headers request written))
    (hstep : step config bytes w (.append headers request written) = some (reply, w')) :
    Invariant config (w', track w arrived (.append headers request written)) := by
  rw [step_append] at hstep
  unfold track
  cases hredirect : (w.files .post).redirect with
  | some location =>
    rw [hredirect] at hstep
    cases hstep
    cases headers with
    | _ => exact h
  | none =>
    rw [hredirect] at hstep
    cases headers with
    | rejected id last status =>
      cases hstep
      exact h
    | chunk range id last index =>
      cases last with
      | false =>
        have hchunk : requestAppend config bytes w (.chunk range id false index) request
          written = some (reply, w') := hstep
        exact h.chunk hchunk
      | true => exact (h.last (hcalm hredirect) hstep).1

/-- **One step** that loses nothing keeps the invariant. -/
theorem Invariant.step {s s' : World Id Req Notify MTime × Arrived Id Req} (h : Invariant config s)
    (hcalm : Calm config bytes s.1 e) (hobserve : observe config bytes s e = some s') :
    Invariant config s' := by
  obtain ⟨w, arrived⟩ := s
  obtain ⟨⟨reply, w'⟩, hstep, heq⟩ := map_eq_some_iff.mp hobserve
  cases heq
  cases e with
  | read name =>
    refine h.of_sameChunks (sameChunks_of_request (fun _ _ hread => ?_) hstep)
    cases hread
    exact .refl config w
  | truncate range request written => exact h.of_sameChunks (sameChunks_of_truncate hcalm hstep)
  | append headers request written => exact h.append hcalm hstep
  | refresh seen =>
    cases hstep
    exact h.of_sameChunks (sameChunks_of_readFilesRefresh hcalm)
  | others filesSize =>
    cases hstep
    exact h.of_sameChunks ⟨rfl, rfl, rfl, id⟩
  | fire tref => exact h.fire tref hstep
  | clear =>
    obtain ⟨w'', hclear, hinv⟩ := h.clear bytes
    rw [hclear] at hstep
    cases hstep
    exact hinv
  | _ => exact h.of_sameChunks (sameChunks_of_notify hcalm _ hstep)

/-- What the invariant says of the next event. -/
theorem Invariant.losesNothing (h : Invariant config (w, arrived)) (hcalm : Calm config bytes w e) :
    LosesNothing config bytes w arrived e where
  applied := by
    intro range id index request written w' heq hstep chunks hperm hsorted
    subst heq
    rw [step_append] at hstep
    cases hredirect : (w.files .post).redirect with
    | some location =>
      rw [hredirect] at hstep
      cases hstep
    | none =>
      rw [hredirect] at hstep
      obtain ⟨contents, happend, hcontents⟩ := (h.last (hcalm hredirect) hstep).2.2 rfl
      have hchunks := h.tracked.eq_stored hperm hsorted none
      refine ⟨contents, ?_, hcontents⟩
      rw [← hchunks, List.map_map]
      exact happend
  gone := by
    intro id reply w' hlast hredirect hstep
    unfold Event.last at hlast
    split at hlast
    case h_1 range id' index request written =>
      cases hlast
      rw [step_append, hredirect] at hstep
      exact (h.last (hcalm hredirect) hstep).2.1
    case h_2 id' status request written =>
      cases hlast
      rw [step_append, hredirect] at hstep
      cases hstep
      exact hcalm hredirect
    case h_3 => cases hlast
  clears := by
    intro heq hstep
    subst heq
    obtain ⟨w', hclear, -⟩ := h.clear bytes
    rw [hclear] at hstep
    cases hstep

/-- **No chunk is lost** in a run whose steps are calm. -/
theorem losesNothing_of_steps {s : World Id Req Notify MTime × Arrived Id Req}
    {events : List (Event Id Req Notify MTime)} {e : Event Id Req Notify MTime}
    (hfresh : Fresh config w) (h : Steps (observe config bytes) (fun s e => Calm config bytes s.1 e)
      (w, fun _ => []) events s)
    (hcalm : Calm config bytes s.1 e) :
    SameContents config s.1 ∧ LosesNothing config bytes s.1 s.2 e := by
  have hinv : Invariant config s :=
    h.invariant (fun _ _ _ hs hgood hstep => hs.step hgood hstep) hfresh.invariant
  exact ⟨hinv.contents, hinv.losesNothing hcalm⟩

end Invariant

/-! ## a file with two chunks -/

section Sample

/-- An empty file that may be truncated, without a limit. -/
def sampleConfig : Config := ⟨false, true, true, none⟩

/-- The world with the empty file. -/
def sampleWorld : World ℕ Binary Unit ℕ where
  files := fun _ => ⟨[], 0, (0, 0), false, [], [], none⟩
  filesSize := 0
  toggle := false
  timers := []
  messages := []
  nextTref := 0

theorem sampleWorld_fresh : Fresh sampleConfig sampleWorld := ⟨fun _ _ => rfl, rfl, rfl, rfl⟩

/-- The first chunk of the identifier 5. -/
def sampleFirst : Event ℕ Binary Unit ℕ := .append (.chunk none 5 false 0) [97] (.ok 1)

/-- Its last chunk. -/
def sampleLast : Event ℕ Binary Unit ℕ := .append (.chunk none 5 true 1) [98] (.ok 1)

/-- A refresh, the second chunk before the first one, and between them a process that is notified
of the file. -/
def sampleChunks : List (Event ℕ Binary Unit ℕ) :=
  [.refresh (some (0, none)), .append (.chunk none 5 false 1) [99] (.ok 1), .notify .post (),
    sampleFirst]

/-- The third chunk, which is the last one. -/
def sampleThird : Event ℕ Binary Unit ℕ := .append (.chunk none 5 true 2) [98] (.ok 1)

theorem losesNothing_of_steps_threeChunks :
    ∃ s, run (observe sampleConfig id) (sampleWorld, fun _ => []) sampleChunks = some s ∧
      (s.1.files .get).writeAppends ≠ [] ∧
      LosesNothing sampleConfig id s.1 s.2 sampleThird := by
  refine ⟨_, rfl, cons_ne_nil _ _, (losesNothing_of_steps (e := sampleThird) sampleWorld_fresh
    (show Steps (observe sampleConfig id) (fun s e => Calm sampleConfig id s.1 e) _ sampleChunks _
      from .cons (fun _ => rfl) rfl (.cons trivial rfl (.cons (fun _ => rfl) rfl
        (.cons trivial rfl (.nil _))))) fun _ _ => ⟨not_mem_nil, ?_⟩).2⟩
  exact ⟨some_ne_none _, nofun⟩

/-- **A refresh of the unmodified file loses the first chunk**: the last one is applied alone, and
the message of the timer fails. -/
theorem refresh_loses_chunk : (∃ s, run (observe sampleConfig id) (sampleWorld, fun _ => [])
        [sampleFirst, .refresh (some (0, none))] = some s ∧
      ¬ LosesNothing sampleConfig id s.1 s.2 sampleLast) ∧
    ∃ s, run (observe sampleConfig id) (sampleWorld, fun _ => [])
        [sampleFirst, .refresh (some (0, none)), .fire 0] = some s ∧
      ¬ LosesNothing sampleConfig id s.1 s.2 .clear := by
  refine ⟨⟨_, rfl, fun h => ?_⟩, _, rfl, fun h => h.clears rfl rfl⟩
  have hperm : [(0, ⟨none, [97]⟩), (1, ⟨none, [98]⟩)].Perm
      [((1 : Int), (⟨none, [98]⟩ : RangeRequest Binary)), (0, ⟨none, [97]⟩)] := List.Perm.swap _ _ _
  obtain ⟨contents, happend, hcontents⟩ :=
    h.applied none 5 1 [98] (.ok 1) _ rfl rfl _ hperm (by simp)
  have hget : [98] = contents := hcontents .get (get_mem_names sampleConfig)
  subst hget
  cases happend

end Sample

end CloudI.ServiceFilesystem
