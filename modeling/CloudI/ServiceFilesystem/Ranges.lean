import CloudI.Erlang.Binary
import Mathlib.Data.List.Forall2

/-!
# ServiceFilesystem.Ranges

Byte ranges of `cloudi_service_filesystem`: the answer to a GET request, which reads the parts
(`content_range_read`), and the answer to a HEAD request, which only checks the ranges
(`content_range_list_check`).
-/

namespace CloudI.ServiceFilesystem

open Binary

/-! ## cow1_multipart -/

/-- The headers of an answer. -/
abbrev Headers := List (String × Binary)

variable (boundary : Binary)

/-- `cow1_multipart:part/2`: the head of a part. -/
def multipartPart (headers : Headers) : Binary :=
  ofText "\r\n--" ++ boundary ++ ofText "\r\n" ++
    (headers.flatMap fun x => ofText x.1 ++ ofText ": " ++ x.2 ++ ofText "\r\n") ++ ofText "\r\n"

/-- `cow1_multipart:close/1`. -/
def multipartClose : Binary := ofText "\r\n--" ++ boundary ++ ofText "--"

/-! ## ranges -/

/-- A range as the parser gives it: `{Start, End}`, `{Start, infinity}` or an integer, which is
negative for a suffix. -/
inductive Range where
  | closed (start stop : Int)
  | open (start : Int)
  | integer (i : Int)
  deriving DecidableEq

variable (contentLength : Nat)

/-- `ByteStart` of a first element of a range. -/
def byteStart (i : Int) : Int := if i < 0 then contentLength + i else i

/-- `ByteStart` and `ByteEnd`.  The integer `I` is the range `{I, infinity}`. -/
def Range.bounds : Range → Int × Int
  | .open i => (byteStart contentLength i, contentLength - 1)
  | .closed start stop => (byteStart contentLength start, stop)
  | .integer i => (byteStart contentLength i, contentLength - 1)

/-- The value of the content-range header of a part. -/
def contentRange (start stop : Int) (contentLength : Nat) : Binary :=
  ofText "bytes " ++ ofInteger start ++ ofText "-" ++ ofInteger stop ++ ofText "/" ++
    ofInteger contentLength

def contentsRangesHeaders (useHttpGetSuffix : Bool) : Headers :=
  if useHttpGetSuffix then [("accept-ranges", ofText "bytes")] else []

/-- `contents_ranges_header_length/1`, of the contents' length. -/
def contentsRangesHeaderLength : String × Binary :=
  ("content-range", ofText "bytes */" ++ ofInteger contentLength)

/-- The headers of an answer with the status 416. -/
def notSatisfiable : Headers :=
  ("status", ofText "416") :: contentsRangesHeaderLength contentLength ::
    contentsRangesHeaders true

/-! ## GET -/

/-- An element of the output: the headers and the part of a single range, or the data of a part
with its boundary. -/
inductive Entry where
  | single (headers : Headers) (part : Binary)
  | data (iolist : Binary)

def contentRangeReadPartGet (boundary : Option Binary) (byteStart byteEnd : Int)
    (contentLength : Nat) (part : Binary) : Entry :=
  let headers := [("content-range", contentRange byteStart byteEnd contentLength)]
  match boundary with
  | none => .single headers part
  | some boundary => .data (multipartPart boundary headers ++ part)

/-- `iolist_to_binary/1` of an output. -/
def Entry.iolist : Entry → Option Binary
  | .data iolist => some iolist
  | .single _ _ => none

/-- `Valid` of `content_range_read_part_check/8`. -/
def validPart (byteStart byteEnd : Int) (contentLength : Nat) : Bool :=
  let byteSize := byteEnd - byteStart + 1
  if byteStart ≤ byteEnd then byteSize ≤ contentLength - byteStart else false

/-- An answer: the status, the headers and the response. -/
structure Answer where
  status : Nat
  headers : Headers
  response : Binary
  deriving DecidableEq

/-- The clauses of `content_range_read/6` for the empty list. -/
def contentRangeReadEnd (boundary : Option Binary) (output : List Entry) : Option Answer :=
  match boundary, output with
  | none, [.single headers response] =>
      some {
        status := 206
        headers := ("status", ofText "206") ::
          ("content-type", ofText "application/octet-stream") :: headers
        response }
  | none, _ => none
  | some boundary, output =>
      ((Entry.data (multipartClose boundary) :: output).reverse.mapM Entry.iolist).map
        fun responseData => {
          status := 206
          headers := [("status", ofText "206"),
            ("content-type", ofText "multipart/byteranges; boundary=" ++ boundary)]
          response := responseData.flatten }

/-- `content_range_read/6`; `none` is an exception. -/
def contentRangeReadLoop (contents : Binary) (boundary : Option Binary) :
    List Range → List Entry → Option Answer
  | [], output => contentRangeReadEnd boundary output
  | range :: rangeList, output =>
      let (byteStart, byteEnd) := range.bounds contents.length
      -- content_range_read_part_check/8
      if validPart byteStart byteEnd contents.length then
        (partAt contents byteStart (byteEnd - byteStart + 1)).bind fun part =>
          let entry := contentRangeReadPartGet boundary byteStart byteEnd contents.length part
          contentRangeReadLoop contents boundary rangeList (entry :: output)
      else some { status := 416, headers := notSatisfiable contents.length, response := [] }

variable (rangeList : List Range)

/-- The boundary of an answer with more than one part, from the one that `cow1_multipart` makes. -/
def partsBoundary : Option Binary :=
  if rangeList.length = 1 then none else some boundary

def contentRangeRead (contents : Binary) : Option Answer :=
  match rangeList with
  | [] => none
  | _ :: _ => contentRangeReadLoop contents (partsBoundary boundary rangeList) rangeList []

/-! ## HEAD -/

/-- `content_range_list_check/4`. -/
def contentRangeListCheckLoop (contentLength : Nat) (boundary : Option Binary) :
    List Range → Nat × Headers
  | [] =>
      match boundary with
      | none =>
          (206, [("status", ofText "206"), ("content-type", ofText "application/octet-stream")])
      | some _ =>
          (206, [("status", ofText "206"), ("content-type", ofText "multipart/byteranges")])
  | range :: rangeList =>
      let (byteStart, byteEnd) := range.bounds contentLength
      if byteStart ≤ byteEnd then contentRangeListCheckLoop contentLength boundary rangeList
      else (416, notSatisfiable contentLength)

def contentRangeListCheck (contents : Binary) : Option (Nat × Headers) :=
  match rangeList with
  | [] => none
  | _ :: _ =>
      some (contentRangeListCheckLoop contents.length (partsBoundary boundary rangeList) rangeList)

/-! ## ranges within the contents -/

/-- A range whose bytes are in the contents. -/
def Range.Within (range : Range) : Prop :=
  0 ≤ (range.bounds contentLength).1 ∧
    (range.bounds contentLength).1 ≤ (range.bounds contentLength).2 ∧
    (range.bounds contentLength).2 < contentLength

/-- A range that starts after its end. -/
def Range.Inverted (range : Range) : Prop :=
  (range.bounds contentLength).2 < (range.bounds contentLength).1

instance (n : Nat) (range : Range) : Decidable (range.Within n) :=
  inferInstanceAs (Decidable (_ ∧ _ ∧ _))

instance (n : Nat) (range : Range) : Decidable (range.Inverted n) :=
  inferInstanceAs (Decidable (_ < _))

/-- A part of the contents, from its first to its last byte. -/
structure Part where
  start : Nat
  stop : Nat
  bytes : Binary

/-- The header of a part. -/
def Part.headers (part : Part) : Headers :=
  [("content-range", contentRange part.start part.stop contentLength)]

/-- **A part of a range** has exactly the bytes of the contents that its header names. -/
structure Names (contents : Binary) (range : Range) (part : Part) : Prop where
  bounds : range.bounds contents.length = (↑part.start, ↑part.stop)
  inside : part.start ≤ part.stop ∧ part.stop < contents.length
  bytes : part.bytes = (contents.drop part.start).take (part.stop - part.start + 1)

/-- The part of a range within the contents. -/
def partOf (contents : Binary) (range : Range) : Part :=
  let (start, stop) := range.bounds contents.length
  { start := start.toNat
    stop := stop.toNat
    bytes := (contents.drop start.toNat).take (stop.toNat - start.toNat + 1) }

theorem Range.Within.names {range : Range} (h : range.Within contents.length) :
    Names contents range (partOf contents range) := by
  obtain ⟨hstart, hle, hstop⟩ := h
  refine ⟨Prod.ext ?_ ?_, ⟨?_, ?_⟩, rfl⟩
  · exact (Int.toNat_of_nonneg hstart).symm
  · exact (Int.toNat_of_nonneg (Int.le_trans hstart hle)).symm
  · exact Int.toNat_le_toNat hle
  · show (range.bounds contents.length).2.toNat < contents.length
    omega

/-- The entry of a part. -/
def Part.entry (boundary : Option Binary) (contentLength : Nat) (part : Part) : Entry :=
  contentRangeReadPartGet boundary part.start part.stop contentLength part.bytes

/-! ## GET -/

theorem validPart_iff (start stop : Int) (n : Nat) :
    validPart start stop n = true ↔ start ≤ stop ∧ stop < n := by
  rw [validPart]
  by_cases hle : start ≤ stop
  · rw [if_pos hle, decide_eq_true_eq]
    omega
  · rw [if_neg hle]
    simp [hle]

theorem contentRangeReadLoop_cons (h : range.Within contents.length) (boundary : Option Binary)
    (rangeList : List Range) (output : List Entry) :
    contentRangeReadLoop contents boundary (range :: rangeList) output =
      contentRangeReadLoop contents boundary rangeList
        ((partOf contents range).entry boundary contents.length :: output) := by
  have hnames := h.names
  have hvalid := (validPart_iff _ _ contents.length).mpr ⟨h.2.1, h.2.2⟩
  rw [hnames.bounds] at hvalid
  rw [contentRangeReadLoop, hnames.bounds]
  simp only [hvalid, if_true]
  rw [partAt_eq_some hnames.inside.1 hnames.inside.2, ← hnames.bytes]
  rfl

theorem contentRangeReadLoop_append {l : List Range} (h : ∀ r ∈ l, r.Within contents.length)
    (boundary : Option Binary) (rangeList : List Range) (output : List Entry) :
    contentRangeReadLoop contents boundary (l ++ rangeList) output =
      contentRangeReadLoop contents boundary rangeList
        ((l.map fun r => (partOf contents r).entry boundary contents.length).reverse ++
          output) := by
  induction l generalizing output with
  | nil => rfl
  | cons range l ih =>
    rw [List.cons_append, contentRangeReadLoop_cons (h range List.mem_cons_self),
      ih fun r hr => h r (List.mem_cons_of_mem range hr)]
    simp

/-- **The first range that is not within the contents** ends the loop: with the status 416 when
it starts after its end or ends after the contents, and with an exception when it starts before
the contents. -/
theorem contentRangeReadLoop_not_within (h : ¬ range.Within contents.length)
    (boundary : Option Binary) (rangeList : List Range) (output : List Entry) :
    contentRangeReadLoop contents boundary (range :: rangeList) output =
      if range.Inverted contents.length ∨ contents.length ≤ (range.bounds contents.length).2
      then some { status := 416, headers := notSatisfiable contents.length, response := [] }
      else none := by
  rw [contentRangeReadLoop]
  simp only [validPart_iff]
  unfold Range.Within at h
  unfold Range.Inverted
  by_cases hvalid : (range.bounds contents.length).1 ≤ (range.bounds contents.length).2 ∧
      (range.bounds contents.length).2 < contents.length
  · have hstart : (range.bounds contents.length).1 < 0 := by omega
    rw [if_pos hvalid, if_neg (by omega), partAt, if_neg (by omega)]
    rfl
  · rw [if_neg hvalid, if_pos (by omega)]

theorem mapM_iolist (l : List Binary) : (l.map Entry.data).mapM Entry.iolist = some l := by
  induction l with
  | nil => rfl
  | cons b l ih =>
    rw [List.map_cons, List.mapM_cons, ih]
    rfl

/-! ## HEAD -/

theorem contentRangeListCheckLoop_status (n : Nat) (boundary : Option Binary) (l : List Range) :
    (contentRangeListCheckLoop n boundary l).1 = if ∃ r ∈ l, r.Inverted n then 416 else 206 := by
  induction l with
  | nil => cases boundary <;> rfl
  | cons range l ih =>
    rw [contentRangeListCheckLoop]
    by_cases hle : (range.bounds n).1 ≤ (range.bounds n).2
    · have hnot : ¬ range.Inverted n := Int.not_lt.mpr hle
      simp only [hle, if_true, ih, List.mem_cons, exists_eq_or_imp, hnot, false_or]
    · have hinverted : range.Inverted n := Int.not_le.mp hle
      simp [hle, hinverted]

/-! ## GET and HEAD -/

/-- The answer of a GET request with the status 206 has the parts of the ranges in their order:
one part as it is, or more than one with their headers. -/
def Carries (contents : Binary) (answer : Answer) : Prop :=
  ∃ parts : List Part, List.Forall₂ (Names contents) rangeList parts ∧
    match parts with
    | [part] =>
        answer.headers = ("status", ofText "206") ::
          ("content-type", ofText "application/octet-stream") :: part.headers contents.length ∧
        answer.response = part.bytes
    | parts =>
        answer.headers = [("status", ofText "206"),
          ("content-type", ofText "multipart/byteranges; boundary=" ++ boundary)] ∧
        answer.response = (parts.flatMap fun part =>
          multipartPart boundary (part.headers contents.length) ++ part.bytes) ++
            multipartClose boundary

/-- **GET and HEAD agree**: neither raises, the status is the same, and with the status 206 the
answer of GET has the bytes of the ranges. -/
def Agree (contents : Binary) : Prop :=
  ∃ answer head, contentRangeRead boundary rangeList contents = some answer ∧
    contentRangeListCheck boundary rangeList contents = some head ∧ answer.status = head.1 ∧
    (answer.status = 206 → Carries boundary rangeList contents answer)

/-- The first range that is not within the contents, if there is one, does not start before them
with its end in them, and a range of the list starts after its end. -/
def Alike : Prop :=
  ∀ range, rangeList.find? (fun r => ¬ r.Within contentLength) = some range →
    (range.Inverted contentLength ∨ contentLength ≤ (range.bounds contentLength).2) ∧
    ∃ r ∈ rangeList, r.Inverted contentLength

theorem contentRangeRead_within {range : Range} {rangeList : List Range}
    (h : ∀ r ∈ range :: rangeList, r.Within contents.length) (boundary : Binary) :
    ∃ answer, contentRangeRead boundary (range :: rangeList) contents = some answer ∧
      answer.status = 206 ∧ Carries boundary (range :: rangeList) contents answer := by
  have hread := contentRangeReadLoop_append h (partsBoundary boundary (range :: rangeList)) [] []
  rw [List.append_nil, List.append_nil] at hread
  have hparts : List.Forall₂ (Names contents) (range :: rangeList)
      ((range :: rangeList).map (partOf contents)) := by
    rw [List.forall₂_map_right_iff, List.forall₂_same]
    exact fun r hr => (h r hr).names
  rw [contentRangeRead, hread]
  cases rangeList with
  | nil => exact ⟨_, rfl, rfl, _, hparts, rfl, rfl⟩
  | cons range' rangeList =>
    have hboundary : partsBoundary boundary (range :: range' :: rangeList) = some boundary := by
      rw [partsBoundary, if_neg (by simp)]
    let data := (range :: range' :: rangeList).map fun r =>
      multipartPart boundary ((partOf contents r).headers contents.length) ++
        (partOf contents r).bytes
    have hmap : ((range :: range' :: rangeList).map fun r =>
        (partOf contents r).entry (some boundary) contents.length) = data.map Entry.data := by
      rw [List.map_map]
      rfl
    have hiolist : (Entry.data (multipartClose boundary) :: (data.map Entry.data).reverse).reverse
        = (data ++ [multipartClose boundary]).map Entry.data := by
      rw [List.reverse_cons, List.reverse_reverse, List.map_append]
      rfl
    rw [hboundary, hmap, contentRangeReadLoop, contentRangeReadEnd, hiolist, mapM_iolist]
    refine ⟨_, rfl, rfl, _, hparts, rfl, ?_⟩
    show (data ++ [multipartClose boundary]).flatten = _
    rw [List.flatten_append, ← List.map_cons, List.flatMap_map]
    simp [data, List.flatMap]

/-- **GET and HEAD agree exactly when** the first range that is not within the contents is none
that only one of them rejects. -/
theorem agree_iff (range : Range) (rangeList : List Range) (contents : Binary) :
    Agree boundary (range :: rangeList) contents ↔ Alike contents.length (range :: rangeList) := by
  have hstatus := contentRangeListCheckLoop_status contents.length
    (partsBoundary boundary (range :: rangeList)) (range :: rangeList)
  cases hfind : (range :: rangeList).find? (fun r => ¬ r.Within contents.length) with
  | none =>
    have hwithin : ∀ r ∈ range :: rangeList, r.Within contents.length := by
      simpa using List.find?_eq_none.mp hfind
    have hnot : ¬ ∃ r ∈ range :: rangeList, r.Inverted contents.length := by
      rintro ⟨r, hr, hinverted⟩
      exact Int.not_lt.mpr (hwithin r hr).2.1 hinverted
    rw [if_neg hnot] at hstatus
    obtain ⟨answer, hread, h206, hcarries⟩ := contentRangeRead_within hwithin boundary
    refine iff_of_true ⟨answer, _, hread, rfl, h206.trans hstatus.symm, fun _ => hcarries⟩ ?_
    intro r hr
    rw [hfind] at hr
    cases hr
  | some first =>
    obtain ⟨hfirst, before, after, hlist, hbefore⟩ := List.find?_eq_some_iff_append.mp hfind
    have hfirst' : ¬ first.Within contents.length := of_decide_eq_true hfirst
    have hwithin : ∀ r ∈ before, r.Within contents.length := by
      simpa using hbefore
    have hread : contentRangeRead boundary (range :: rangeList) contents =
        if first.Inverted contents.length ∨ contents.length ≤ (first.bounds contents.length).2
        then some { status := 416, headers := notSatisfiable contents.length, response := [] }
        else none := by
      rw [contentRangeRead, hlist, contentRangeReadLoop_append hwithin,
        contentRangeReadLoop_not_within hfirst']
    constructor
    · rintro ⟨answer, head, hanswer, hhead, hsame, -⟩ r hr
      cases hfind.symm.trans hr
      rw [hread] at hanswer
      by_cases hrejected : first.Inverted contents.length ∨
          contents.length ≤ (first.bounds contents.length).2
      · refine ⟨hrejected, ?_⟩
        rw [if_pos hrejected, Option.some.injEq] at hanswer
        cases hhead
        rw [← hanswer, hstatus] at hsame
        by_contra hnot
        rw [if_neg hnot] at hsame
        cases hsame
      · rw [if_neg hrejected] at hanswer
        cases hanswer
    · intro halike
      obtain ⟨hrejected, hinverted⟩ := halike first hfind
      rw [if_pos hrejected] at hread
      rw [if_pos hinverted] at hstatus
      exact ⟨_, _, hread, rfl, hstatus.symm, nofun⟩

/-- **Ranges that only GET rejects**: a suffix longer than the contents, for which it raises an
exception, and a range that ends after them, for which its status is 416. -/
theorem not_agree_of_outside :
    ¬ Agree [] [.integer (-5)] [1, 2, 3] ∧ ¬ Agree [] [.closed 0 9] [1, 2, 3] := by
  constructor
  · rintro ⟨answer, head, hanswer, -⟩
    have hread : contentRangeRead [] [.integer (-5)] [1, 2, 3] = none := by decide
    rw [hread] at hanswer
    cases hanswer
  · rintro ⟨answer, head, hanswer, hhead, hsame, -⟩
    have hread : (contentRangeRead [] [.closed 0 9] [1, 2, 3]).map (·.status) = some 416 := by
      decide
    have hcheck : (contentRangeListCheck [] [.closed 0 9] [1, 2, 3]).map (·.1) = some 206 := by
      decide
    rw [hanswer, Option.map_some, Option.some.injEq] at hread
    rw [hhead, Option.map_some, Option.some.injEq] at hcheck
    rw [hread, hcheck] at hsame
    cases hsame

/-- Two closed ranges and a suffix within the contents. -/
example : Alike 10 [.closed 0 2, .integer (-3), .closed 9 9] := by
  unfold Alike
  decide

end CloudI.ServiceFilesystem
