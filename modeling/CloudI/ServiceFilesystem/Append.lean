import CloudI.Erlang.Lists
import CloudI.Library.Run
import CloudI.ServiceFilesystem.Ranges
import Mathlib.Data.Prod.Lex

/-!
# ServiceFilesystem.Append

One appendable file of `cloudi_service_filesystem`: the records under its service names, the
chunks of multi-part appends that wait in them, their timers, and the requests and messages that
change them.

The identifiers and the request data are any types with a linear order, the term order; `bytes`
is `erlang:iolist_to_binary/1`.
-/

namespace CloudI.ServiceFilesystem

open CloudI.Lists

/-! ## the records -/

/-- A service name of the file: with a method, or of its directory with one, when the file is an
index file. -/
inductive Name where
  | rootOptions
  | rootHead
  | rootGet
  | get
  | options
  | head
  | put
  | post
  deriving DecidableEq

/-- A range, or `undefined`, and the data for it. -/
structure RangeRequest (Req : Type) where
  range : Option Range
  request : Req

/-- `{Index, Tref, {Range, Request}}`: a chunk that waits; the first one has a timer. -/
structure Chunk (Req : Type) where
  index : Int
  tref : Option Nat
  rangeRequest : RangeRequest Req

/-- `write_appends`: the chunks that wait, for each identifier. -/
abbrev Appends (Id Req : Type) := List (Id × List (Chunk Req))

/-- `#file{}`, without its path, its headers and its writes. -/
structure File (Id Req Notify MTime : Type) where
  contents : Binary
  size : Nat
  mtimeI : MTime × Nat
  toggle : Bool
  writeAppends : Appends Id Req
  notify : List Notify
  redirect : Option Binary

/-- The service, the timers that run, and the messages of those that ran out. -/
structure World (Id Req Notify MTime : Type) where
  files : Name → File Id Req Notify MTime
  filesSize : Int
  toggle : Bool
  timers : List (Nat × Name × Id)
  messages : List (Name × Id)
  nextTref : Nat

/-- What does not change: whether the file is an index file, whether `truncate` is in its writes
(`append` is, so that it is never removed), whether the whole directory is read, and the limit of
`files_size`. -/
structure Config where
  isIndex : Bool
  truncate : Bool
  readAll : Bool
  filesSizeLimit : Option Nat

variable {Id Req Notify MTime : Type}

/-! ## names -/

/-- The service names of the file. -/
def names (config : Config) : List Name :=
  (if config.isIndex then [.rootOptions, .rootHead, .rootGet] else []) ++
    [.get, .options, .head] ++ (if config.truncate then [.put] else []) ++ [.post]

/-- `cloudi_x_trie:store/3`. -/
def store (name : Name) (file : File Id Req Notify MTime)
    (files : Name → File Id Req Notify MTime) : Name → File Id Req Notify MTime :=
  fun other => if other = name then file else files other

/-- `file_refresh`: a record is stored under every name. -/
def fileRefresh (config : Config) (file : File Id Req Notify MTime)
    (files : Name → File Id Req Notify MTime) : Name → File Id Req Notify MTime :=
  (names config).foldl (fun files name => store name file files) files

theorem foldl_store (l : List Name) (file : File Id Req Notify MTime)
    (files : Name → File Id Req Notify MTime) (name : Name) :
    l.foldl (fun files other => store other file files) files name =
      if name ∈ l then file else files name := by
  induction l generalizing files with
  | nil => rfl
  | cons other l ih =>
    rw [List.foldl_cons, ih]
    by_cases hmem : name ∈ l
    · rw [if_pos hmem, if_pos (List.mem_cons_of_mem other hmem)]
    · rw [if_neg hmem, store]
      by_cases heq : name = other
      · rw [if_pos heq, if_pos (heq ▸ List.mem_cons_self)]
      · rw [if_neg heq, if_neg fun h => (List.mem_cons.mp h).elim heq hmem]

theorem fileRefresh_of_mem (h : name ∈ names config) :
    fileRefresh config file files name = file := by
  unfold fileRefresh
  rw [foldl_store, if_pos h]

/-! ## sizes -/

def filesSizeCheck (filesSize : Int) (contents : Binary) (limit : Option Nat) :
    Option (Nat × Int) :=
  match limit with
  | none => some (0, filesSize)
  | some limit =>
      if filesSize + contents.length ≤ limit then
        some (contents.length, filesSize + contents.length)
      else none

def mtimeIUpdate [DecidableEq MTime] (old : MTime × Nat) (mtime : MTime) : MTime × Nat :=
  if mtime = old.1 then (mtime, old.2 + 1) else (mtime, 0)

/-! ## the chunks that wait -/

section Chunks

variable [LinearOrder Id] [LinearOrder Req]

/-- The order of the ranges: integers, `undefined`, and the tuples, in which an integer is before
`infinity`. -/
def rangeRank : Option Range → ℕ ×ₗ ℤ ×ₗ ℕ ×ₗ ℤ
  | some (.integer i) => toLex (0, toLex (i, toLex (0, 0)))
  | none => toLex (1, toLex (0, toLex (0, 0)))
  | some (.closed start stop) => toLex (2, toLex (start, toLex (0, stop)))
  | some (.open start) => toLex (2, toLex (start, toLex (1, 0)))

/-- The term order of the chunks; `undefined` is before every reference. -/
def Chunk.rank (chunk : Chunk Req) : ℤ ×ₗ ℕ ×ₗ (ℕ ×ₗ ℤ ×ₗ ℕ ×ₗ ℤ) ×ₗ Req :=
  toLex (chunk.index, toLex (chunk.tref.elim 0 (· + 1),
    toLex (rangeRank chunk.rangeRequest.range, chunk.rangeRequest.request)))

/-- `lists:keytake(Id, 1, Appends)`. -/
def keytake (id : Id) : Appends Id Req → Option (List (Chunk Req) × Appends Id Req)
  | [] => none
  | (id', l) :: appends =>
      if id' = id then some (l, appends)
      else (keytake id appends).map fun x => (x.1, (id', l) :: x.2)

/-- `request_append_take`: the chunks, their timers, and the chunks of the others. -/
def requestAppendTake (id : Id) (appends : Appends Id Req) :
    Option (List (RangeRequest Req) × List Nat × Appends Id Req) :=
  (keytake id appends).map fun x =>
    (x.1.map (·.rangeRequest), x.1.filterMap (·.tref), x.2)

/-- `request_append_store/5`, with a timer for the first chunk of an identifier in
`request_append_store/8`.  The identifier was taken, so it decides the order of the rest. -/
def requestAppendStore (id : Id) (index : Int) (rangeRequest : RangeRequest Req)
    (tref : Option Nat) (appends : Appends Id Req) : Appends Id Req :=
  match keytake id appends with
  | some (l, next) => uinsertBy (·.1) (id, uinsertBy Chunk.rank ⟨index, none, rangeRequest⟩ l) next
  | none => uinsertBy (·.1) (id, [⟨index, tref, rangeRequest⟩]) appends

end Chunks

/-! ## the contents of an append -/

/-- `Start` and `End` of a range in `request_append_file`; a range that is an integer is
negative. -/
def Range.appendBounds (contentLength size : Nat) : Range → Option (Int × Int)
  | .open i => some (byteStart contentLength i, byteStart contentLength i + size - 1)
  | .closed start stop => some (byteStart contentLength start, stop)
  | .integer i =>
      if i < 0 then some (contentLength + i, contentLength + i + size - 1) else none

/-- What comes of the data for a range. -/
inductive Appended where
  | contents (contents : Binary)
  | outside
  | raises

/-- A range of an append; it raises where the start is before the contents. -/
def appendRange (contents : Binary) (range : Range) (requestBin : Binary) : Appended :=
  match range.appendBounds contents.length requestBin.length with
  | none => .raises
  | some (start, stop) =>
      if start ≤ stop then
        if start < 0 then .raises
        else if stop < contents.length then
          .contents (contents.take start.toNat ++ requestBin ++ contents.drop (stop.toNat + 1))
        else if start < contents.length then .contents (contents.take start.toNat ++ requestBin)
        else
          .contents (contents ++ List.replicate (start.toNat - contents.length) 0 ++ requestBin)
      else .outside

/-- The data of the chunks in their order. -/
def appendContents (bytes : Req → Binary) : List (RangeRequest Req) → Binary → Appended
  | [], contents => .contents contents
  | ⟨none, request⟩ :: rangeRequests, contents =>
      appendContents bytes rangeRequests (contents ++ bytes request)
  | ⟨some range, request⟩ :: rangeRequests, contents =>
      match appendRange contents range (bytes request) with
      | .contents contents => appendContents bytes rangeRequests contents
      | .outside => .outside
      | .raises => .raises

/-! ## requests and messages -/

/-- What `contents_ranges_append` makes of the headers of an append: a range, an identifier,
whether the chunk is the last one, and its index; or a status for the chunk. -/
inductive AppendHeaders (Id : Type) where
  | chunk (range : Option Range) (id : Id) (last : Bool) (index : Int)
  | rejected (id : Id) (last : Bool) (status : Nat)

/-- What `file:write_file/3` and `read_file_info/1` after it return. -/
inductive Written (MTime : Type) where
  | ok (mtime : MTime)
  | noInfo
  | error

/-- A request for the file, a refresh of the directory, a timer that runs out, or the next
`append_clear` message; `others` is anything that happens to other files. -/
inductive Event (Id Req Notify MTime : Type) where
  | read (name : Name)
  | truncate (range : Bool) (request : Req) (written : Written MTime)
  | append (headers : AppendHeaders Id) (request : Req) (written : Written MTime)
  | notify (name : Name) (notify : Notify)
  | notifyClear (name : Name)
  | refresh (seen : Option (MTime × Option Binary))
  | others (filesSize : Int)
  | fire (tref : Nat)
  | clear

/-- The answer of a request. -/
inductive Reply where
  | ok
  | status (status : Nat)
  deriving DecidableEq

section Step

variable [LinearOrder Id] [LinearOrder Req] [DecidableEq MTime]
  (config : Config) (bytes : Req → Binary) (w : World Id Req Notify MTime)

/-- New contents are checked, written and stored under every name, in `request_truncate` and
`request_append_file`. -/
def writeContents (file : File Id Req Notify MTime) (contents : Binary)
    (written : Written MTime) : Option (Reply × World Id Req Notify MTime) :=
  match filesSizeCheck (w.filesSize - file.size) contents config.filesSizeLimit with
  | none => some (.status 400, w)
  | some (size, filesSize) =>
      match written with
      | .error => some (.status 500, w)
      | .noInfo => none
      | .ok mtime =>
          let file := { file with contents, size, mtimeI := mtimeIUpdate file.mtimeI mtime }
          some (.ok, { w with files := fileRefresh config file w.files, filesSize := filesSize })

def requestTruncate (range : Bool) (request : Req) (written : Written MTime) :
    Option (Reply × World Id Req Notify MTime) :=
  if range then some (.status 400, w)
  else writeContents config w (w.files .put) (bytes request) written

def requestAppendFile (rangeRequests : List (RangeRequest Req)) (file : File Id Req Notify MTime)
    (written : Written MTime) : Option (Reply × World Id Req Notify MTime) :=
  match appendContents bytes rangeRequests file.contents with
  | .raises => none
  | .outside => some (.status 416, w)
  | .contents contents => writeContents config w file contents written

/-- `request_append`: the timers of the chunks that are taken are cancelled. -/
def requestAppend (headers : AppendHeaders Id) (request : Req) (written : Written MTime) :
    Option (Reply × World Id Req Notify MTime) :=
  let file := w.files .post
  match headers with
  | .rejected _ _ status => some (.status status, w)
  | .chunk range id true index => do
      let (rangeRequests, trefs, writeAppends) ← requestAppendTake id
        (requestAppendStore id index ⟨range, request⟩ none file.writeAppends)
      requestAppendFile config bytes { w with timers := w.timers.filter (·.1 ∉ trefs) }
        rangeRequests { file with writeAppends } written
  | .chunk range id false index =>
      let first := (keytake id file.writeAppends).isNone
      let writeAppends :=
        requestAppendStore id index ⟨range, request⟩ (some w.nextTref) file.writeAppends
      some (.ok, { w with
        files := store .post { file with writeAppends } w.files
        timers := if first then (w.nextTref, .post, id) :: w.timers else w.timers
        nextTref := if first then w.nextTref + 1 else w.nextTref })

/-- The records that were not seen are marked, each by itself. -/
def markUnseen (toggle : Bool) (files : Name → File Id Req Notify MTime) :
    Name → File Id Req Notify MTime :=
  fun name => { files name with toggle }

/-- `read_files_refresh`, for the file: its modification time, and the contents if they could be
read. -/
def readFilesRefresh (seen : Option (MTime × Option Binary)) : World Id Req Notify MTime :=
  let toggle := !w.toggle
  let file := w.files .get
  let visited : World Id Req Notify MTime := match seen with
    | none => w
    | some (mtime, contents) =>
        if mtime = file.mtimeI.1 then
          { w with files := fileRefresh config { file with toggle } w.files }
        else match contents with
          | none => { w with files := fileRefresh config { file with toggle } w.files }
          | some contents =>
              match filesSizeCheck (w.filesSize - file.size) contents config.filesSizeLimit with
              | none => w
              | some (size, filesSize) =>
                  let mtimeI := mtimeIUpdate file.mtimeI mtime
                  { w with
                    files := fileRefresh config { file with contents, size, mtimeI, toggle } w.files
                    filesSize := filesSize }
  { visited with
    toggle
    files := if config.readAll then markUnseen toggle visited.files else visited.files }

/-- A request: `404` for a name that is not served, `301` for a file with a redirect. -/
def request (name : Name) (handle : Option (Reply × World Id Req Notify MTime)) :
    Option (Reply × World Id Req Notify MTime) :=
  if name ∈ names config then
    if (w.files name).redirect.isSome then some (.status 301, w) else handle
  else some (.status 404, w)

/-- **One event**; `none` is an exception, which stops the service. -/
def step : Event Id Req Notify MTime → Option (Reply × World Id Req Notify MTime)
  | .read name => request config w name (some (.ok, w))
  | .truncate range body written =>
      request config w .put (requestTruncate config bytes w range body written)
  | .append headers body written =>
      request config w .post (requestAppend config bytes w headers body written)
  | .notify name notify =>
      if name ∈ names config then
        let file := { w.files name with notify := notify :: (w.files name).notify }
        some (.ok, { w with files := fileRefresh config file w.files })
      else some (.status 404, w)
  | .notifyClear name =>
      if name ∈ names config then
        let file := { w.files name with notify := [] }
        some (.ok, { w with files := fileRefresh config file w.files })
      else some (.status 404, w)
  | .refresh seen => some (.ok, readFilesRefresh config w seen)
  | .others filesSize => some (.ok, { w with filesSize })
  | .fire tref =>
      some (.ok, match w.timers.find? (·.1 = tref) with
        | none => w
        | some (_, message) => { w with
            timers := w.timers.filter (·.1 ≠ tref), messages := w.messages ++ [message] })
  | .clear =>
      match w.messages with
      | [] => some (.ok, w)
      | (name, id) :: messages => do
          let (_, trefs, writeAppends) ← requestAppendTake id (w.files name).writeAppends
          let files := store name { w.files name with writeAppends } w.files
          let timers := w.timers.filter (·.1 ∉ trefs)
          return (.ok, { w with files, timers, messages })

end Step

end CloudI.ServiceFilesystem
