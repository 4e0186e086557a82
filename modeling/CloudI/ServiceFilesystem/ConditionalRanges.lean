import CloudI.Erlang.Maps
import CloudI.ServiceFilesystem.Ranges
import Mathlib.Data.List.Lex

/-!
# ServiceFilesystem.ConditionalRanges

The ranges of a request for reads (`contents_ranges_read`) and for appends
(`contents_ranges_append`), from the headers `range` and `if-range`; appends also have the headers
of multi-part appends.  An append takes the date of the modification time for the tuple of the time
and its count: an `if-range` header with the right time is refused.

The parsers of `cloudi_service_filesystem_parse` are parameters.
-/

namespace CloudI.ServiceFilesystem

variable {Date Time : Type} [DecidableEq Date] [DecidableEq Time]

/-- `range/1` and `datetime/1`: `none` for `{error, badarg}`. -/
structure Parsers (Date Time : Type) where
  range : Binary → Option (Binary × List Range)
  datetime : Binary → Option (Date × Time)

/-- The first element of a tuple: of `{MTime, Count}` or of `MTime`, which is `{Date, Time}`. -/
inductive MTimeTerm (Date Time : Type) where
  | datetime (datetime : Date × Time)
  | date (date : Date)
  deriving DecidableEq

/-- A result: `{200, _}`, `{206, _}`, or a status with `undefined`. -/
inductive Granted (α β : Type) where
  | whole (value : α)
  | ranges (value : β)
  | refused (status : Nat)
  deriving DecidableEq

/-- The parsed request information. -/
abbrev KeyValues := ErlMap Binary Binary

/-- `cloudi_key_value:find/2`. -/
def findKey (key : String) (keyValues : KeyValues) : Option Binary :=
  Maps.find (Binary.ofText key) keyValues

/-! ## reads -/

section Read

variable (parsers : Parsers Date Time) (etag : Binary) (keyValues : KeyValues)
  (mtime : MTimeTerm Date Time)

/-- `contents_ranges_read_1/4`. -/
def contentsRangesRead1 (rangeList : List Range) : Granted Unit (List Range) :=
  match findKey "if-range" keyValues with
  | some ifRangeData =>
      if ifRangeData = etag then .ranges rangeList
      else match parsers.datetime ifRangeData with
        | none => .refused 410
        | some datetime => if .datetime datetime = mtime then .ranges rangeList else .refused 410
  | none => .ranges rangeList

/-- `contents_ranges_read/3`, with the first element of its tuple. -/
def contentsRangesRead : Granted Unit (List Range) :=
  match findKey "range" keyValues with
  | some rangeData =>
      match parsers.range rangeData with
      | none => .refused 400
      | some (unit, rangeList) =>
          if unit = Binary.ofText "bytes" then
            contentsRangesRead1 parsers etag keyValues mtime rangeList
          else .refused 416
  | none => .whole ()

end Read

/-! ## appends -/

/-- A range or `undefined`, the identifier of the append, whether it is the last one, and its
index. -/
structure AppendRange where
  range : Option Range
  id : Option Binary
  last : Bool
  index : Int
  deriving DecidableEq

/-- `Last`: `none` where no clause matches. -/
def multipartLast (keyValues : KeyValues) : Option Bool :=
  match findKey "x-multipart-last" keyValues with
  | some value => if value = Binary.ofText "true" then some true else none
  | none => some false

/-- `Index`: `none` where the value is not an integer. -/
def multipartIndex (keyValues : KeyValues) : Option Int :=
  match findKey "x-multipart-index" keyValues with
  | some indexBin => indexBin.toInteger
  | none => some 0

/-- `lists:nth(Index + 1, L)`: `none` where it fails. -/
def nthIndex (index : Int) (l : List α) : Option α := if 0 ≤ index then l[index.toNat]? else none

section Append

variable (parsers : Parsers Date Time) (etag : Binary) (keyValues : KeyValues)
  (mtimeI : (Date × Time) × Nat)

/-- `contents_ranges_append/3`: `none` where it fails. -/
def contentsRangesAppend : Option (Granted AppendRange AppendRange) :=
  let id := findKey "x-multipart-id" keyValues
  (multipartLast keyValues).bind fun last =>
    (multipartIndex keyValues).bind fun index =>
      let newLast := last || id.isNone
      -- the tuple is MTime
      match contentsRangesRead parsers etag keyValues (.date mtimeI.1.1) with
      | .whole () => some (.whole ⟨none, id, newLast, index⟩)
      | .ranges [] => none
      | .ranges [range] => some (.ranges ⟨some range, id, newLast, index⟩)
      | .ranges rangeList =>
          match nthIndex index rangeList with
          | some range => some (.ranges ⟨some range, id, last, index⟩)
          | none => some (.refused 400)
      | .refused status => some (.refused status)

/-! ## what is said -/

/-- An append gives an answer: the refusal of a read, or of the ranges that a read grants the one
at the index or the only one; it refuses them where the index is not a position. -/
def MeansTheSame : Prop :=
  ∃ answer, contentsRangesAppend parsers etag keyValues mtimeI = some answer ∧
    match contentsRangesRead parsers etag keyValues (.datetime mtimeI.1) with
    | .whole () => True
    | .refused status => answer = .refused status
    | .ranges rangeList => ∃ index, multipartIndex keyValues = some index ∧
        ((∃ append range, answer = .ranges append ∧ append.range = some range ∧
            (rangeList = [range] ∨ nthIndex index rangeList = some range)) ∨
          answer = .refused 400 ∧ nthIndex index rangeList = none)

/-- The `if-range` header has the modification time, and not the etag. -/
def ByTime : Prop :=
  ∃ ifRangeData, findKey "if-range" keyValues = some ifRangeData ∧ ifRangeData ≠ etag ∧
    parsers.datetime ifRangeData = some mtimeI.1

/-- The ranges of a `range` header in bytes. -/
def BytesRanges (rangeList : List Range) : Prop :=
  ∃ rangeData, findKey "range" keyValues = some rangeData ∧
    parsers.range rangeData = some (Binary.ofText "bytes", rangeList)

/-- A read of ranges is granted by the etag, or as there is no condition. -/
def Unconditional : Prop :=
  ∀ ifRangeData, findKey "if-range" keyValues = some ifRangeData → ifRangeData = etag

end Append

/-! ## when it does -/

variable {parsers : Parsers Date Time} {etag : Binary} {keyValues : KeyValues}
  {mtimeI : (Date × Time) × Nat} {last : Bool} {index : Int}

variable (etag) in
theorem contentsRangesRead_of_bytes {rangeList : List Range}
    (h : BytesRanges parsers keyValues rangeList) (mtime : MTimeTerm Date Time) :
    contentsRangesRead parsers etag keyValues mtime =
      contentsRangesRead1 parsers etag keyValues mtime rangeList := by
  obtain ⟨rangeData, hrange, hparse⟩ := h
  simp only [contentsRangesRead, hrange, hparse, if_true]

variable (etag) in
/-- Without ranges in bytes nothing depends on the time. -/
theorem contentsRangesRead_of_not_bytes
    (h : ∀ rangeList, ¬ BytesRanges parsers keyValues rangeList) (mtime mtime' : MTimeTerm Date Time) :
    contentsRangesRead parsers etag keyValues mtime =
      contentsRangesRead parsers etag keyValues mtime' ∧
    ∀ rangeList, contentsRangesRead parsers etag keyValues mtime ≠ .ranges rangeList := by
  rw [contentsRangesRead, contentsRangesRead]
  cases hrange : findKey "range" keyValues with
  | none => exact ⟨rfl, nofun⟩
  | some rangeData =>
    cases hparse : parsers.range rangeData with
    | none =>
      simp only [hparse]
      exact ⟨trivial, nofun⟩
    | some parsed =>
      obtain ⟨unit, rangeList⟩ := parsed
      have hunit : unit ≠ Binary.ofText "bytes" := by
        rintro rfl
        exact h rangeList ⟨rangeData, hrange, hparse⟩
      simp only [hparse, if_neg hunit]
      exact ⟨trivial, nofun⟩

theorem contentsRangesRead1_of_unconditional (h : Unconditional etag keyValues)
    (mtime : MTimeTerm Date Time) (rangeList : List Range) :
    contentsRangesRead1 parsers etag keyValues mtime rangeList = .ranges rangeList := by
  rw [contentsRangesRead1]
  cases hcondition : findKey "if-range" keyValues with
  | none => rfl
  | some ifRangeData => exact if_pos (h ifRangeData hcondition)

variable (parsers mtimeI) in
theorem contentsRangesRead1_of_not_unconditional (h : ¬ Unconditional etag keyValues)
    (rangeList : List Range) :
    contentsRangesRead1 parsers etag keyValues (.date mtimeI.1.1) rangeList = .refused 410 ∧
    (ByTime parsers etag keyValues mtimeI ∧
        contentsRangesRead1 parsers etag keyValues (.datetime mtimeI.1) rangeList =
          .ranges rangeList ∨
      ¬ ByTime parsers etag keyValues mtimeI ∧
        contentsRangesRead1 parsers etag keyValues (.datetime mtimeI.1) rangeList =
          .refused 410) := by
  simp only [Unconditional, not_forall] at h
  obtain ⟨ifRangeData, hcondition, hetag⟩ := h
  have htime : ByTime parsers etag keyValues mtimeI ↔
      parsers.datetime ifRangeData = some mtimeI.1 := by
    refine ⟨?_, fun h => ⟨ifRangeData, hcondition, hetag, h⟩⟩
    rintro ⟨data, hdata, -, h⟩
    cases hcondition.symm.trans hdata
    exact h
  rw [htime]
  simp only [contentsRangesRead1, hcondition, if_neg hetag]
  cases hparse : parsers.datetime ifRangeData with
  | none => exact ⟨rfl, .inr ⟨nofun, rfl⟩⟩
  | some datetime =>
    refine ⟨if_neg nofun, ?_⟩
    by_cases heq : datetime = mtimeI.1
    · exact .inl ⟨congrArg some heq, if_pos (congrArg _ heq)⟩
    · exact .inr ⟨fun h => heq (Option.some.inj h), if_neg fun h => heq (MTimeTerm.datetime.inj h)⟩

/-- Ranges that both grant: an append takes one of them. -/
theorem meansTheSame_of_granted (hlast : multipartLast keyValues = some last)
    (hindex : multipartIndex keyValues = some index) {rangeList : List Range}
    (hread : ∀ mtime, contentsRangesRead parsers etag keyValues mtime = .ranges rangeList) :
    MeansTheSame parsers etag keyValues mtimeI ↔ rangeList ≠ [] := by
  simp only [MeansTheSame, contentsRangesAppend, hlast, hindex, hread, Option.bind_some]
  cases rangeList with
  | nil => exact iff_of_false (fun ⟨_, h, _⟩ => nomatch h) (fun h => h rfl)
  | cons range ranges =>
    refine iff_of_true ?_ (List.cons_ne_nil _ _)
    cases ranges with
    | nil => exact ⟨_, rfl, index, rfl, .inl ⟨_, range, rfl, rfl, .inl rfl⟩⟩
    | cons range' ranges =>
      cases hnth : nthIndex index (range :: range' :: ranges) with
      | none => exact ⟨.refused 400, by simp only [hnth], index, rfl, .inr ⟨rfl, hnth⟩⟩
      | some found =>
        exact ⟨.ranges ⟨some found, findKey "x-multipart-id" keyValues, last, index⟩,
          by simp only [hnth], index, rfl, .inl ⟨_, found, rfl, rfl, .inr hnth⟩⟩

/-- Conditional ranges mean the same where the headers of multi-part appends are well formed, and
ranges in bytes are not granted by the time and not none. -/
theorem meansTheSame_iff (parsers : Parsers Date Time) (etag : Binary) (keyValues : KeyValues)
    (mtimeI : (Date × Time) × Nat) :
    MeansTheSame parsers etag keyValues mtimeI ↔
      (multipartLast keyValues).isSome ∧ (multipartIndex keyValues).isSome ∧
      ∀ rangeList, BytesRanges parsers keyValues rangeList →
        ¬ ByTime parsers etag keyValues mtimeI ∧ (Unconditional etag keyValues → rangeList ≠ []) := by
  cases hlast : multipartLast keyValues with
  | none =>
    refine iff_of_false ?_ fun h => nomatch h.1
    rintro ⟨answer, h, -⟩
    rw [contentsRangesAppend, hlast] at h
    cases h
  | some last =>
    cases hindex : multipartIndex keyValues with
    | none =>
      refine iff_of_false ?_ fun h => nomatch h.2.1
      rintro ⟨answer, h, -⟩
      rw [contentsRangesAppend, hlast, hindex] at h
      cases h
    | some index =>
      simp only [Option.isSome_some, true_and]
      by_cases hbytes : ∃ rangeList, BytesRanges parsers keyValues rangeList
      · obtain ⟨rangeList, hbytes⟩ := hbytes
        have hread := contentsRangesRead_of_bytes etag hbytes
        have hunique : ∀ rangeList', BytesRanges parsers keyValues rangeList' →
            rangeList' = rangeList := by
          obtain ⟨rangeData, hrange, hparse⟩ := hbytes
          rintro rangeList' ⟨rangeData', hrange', hparse'⟩
          cases hrange.symm.trans hrange'
          cases hparse.symm.trans hparse'
          rfl
        by_cases hun : Unconditional etag keyValues
        · have hnot : ¬ ByTime parsers etag keyValues mtimeI :=
            fun ⟨data, hdata, hetag, _⟩ => hetag (hun data hdata)
          rw [meansTheSame_of_granted hlast hindex fun mtime =>
            (hread mtime).trans (contentsRangesRead1_of_unconditional hun mtime rangeList)]
          exact ⟨fun h _ hb => ⟨hnot, fun _ => hunique _ hb ▸ h⟩,
            fun h => (h rangeList hbytes).2 hun⟩
        · obtain ⟨happend, htime⟩ :=
            contentsRangesRead1_of_not_unconditional parsers mtimeI hun rangeList
          simp only [MeansTheSame, contentsRangesAppend, hlast, hindex, hread, happend,
            Option.bind_some]
          rcases htime with ⟨hby, hgranted⟩ | ⟨hnot, hrefused⟩
          · refine iff_of_false ?_ fun h => (h rangeList hbytes).1 hby
            rw [hgranted]
            rintro ⟨answer, hanswer, index', -, ⟨append, range, rfl, -⟩ | ⟨rfl, -⟩⟩
            · cases hanswer
            · cases hanswer
          · rw [hrefused]
            exact iff_of_true ⟨_, rfl, rfl⟩ fun _ _ => ⟨hnot, fun h => absurd h hun⟩
      · have hnone := not_exists.mp hbytes
        refine iff_of_true ?_ fun rangeList h => absurd h (hnone rangeList)
        obtain ⟨hsame, hnot⟩ := contentsRangesRead_of_not_bytes etag hnone
          (.date mtimeI.1.1) (.datetime mtimeI.1)
        simp only [MeansTheSame, contentsRangesAppend, hlast, hindex, hsame, Option.bind_some]
        cases hread : contentsRangesRead parsers etag keyValues (.datetime mtimeI.1) with
        | whole value => exact ⟨_, rfl, trivial⟩
        | ranges rangeList => exact absurd (hsame.trans hread) (hnot rangeList)
        | refused status => exact ⟨_, rfl, rfl⟩

/-- What the parsers return for a range and for a date. -/
def parseOne : Parsers (Nat × Nat × Nat) (Nat × Nat × Nat) where
  range := fun text =>
    if text = Binary.ofText "bytes=0-1" then some (Binary.ofText "bytes", [.closed 0 1]) else none
  datetime := fun text =>
    if text = Binary.ofText "Sat, 29 Oct 1994 19:43:31 GMT" then
      some ((1994, 10, 29), (19, 43, 31))
    else none

/-- The headers of a range with a condition. -/
def conditional : KeyValues :=
  Maps.put (Binary.ofText "range") (Binary.ofText "bytes=0-1")
    (Maps.put (Binary.ofText "if-range") (Binary.ofText "Sat, 29 Oct 1994 19:43:31 GMT") ∅)

theorem findKey_conditional (key : String) : findKey key conditional =
      if Binary.ofText "range" = Binary.ofText key then some (Binary.ofText "bytes=0-1")
      else if Binary.ofText "if-range" = Binary.ofText key then
        some (Binary.ofText "Sat, 29 Oct 1994 19:43:31 GMT")
      else none := by
  rw [findKey, conditional, Maps.find_put, Maps.find_put, Maps.find_empty]
  split_ifs <;> rfl

/-- An append refuses a range with a condition that has the modification time. -/
theorem not_meansTheSame_time :
    ¬ ∀ (parsers : Parsers (Nat × Nat × Nat) (Nat × Nat × Nat)) (etag : Binary)
      (keyValues : KeyValues) mtimeI, MeansTheSame parsers etag keyValues mtimeI := by
  intro h
  obtain ⟨answer, hanswer, hmeans⟩ := h parseOne [1] conditional (((1994, 10, 29), 19, 43, 31), 0)
  have happend : contentsRangesAppend parseOne [1] conditional (((1994, 10, 29), 19, 43, 31), 0) =
      some (.refused 410) := by
    simp only [contentsRangesAppend, multipartLast, multipartIndex, contentsRangesRead,
      contentsRangesRead1, findKey_conditional]
    decide
  have hread : contentsRangesRead parseOne [1] conditional
      (.datetime ((1994, 10, 29), 19, 43, 31)) = .ranges [.closed 0 1] := by
    simp only [contentsRangesRead, contentsRangesRead1, findKey_conditional]
    decide
  rw [hread] at hmeans
  cases happend.symm.trans hanswer
  obtain ⟨index, -, ⟨append, range, hgranted, -⟩ | ⟨hrefused, -⟩⟩ := hmeans
  · cases hgranted
  · cases hrefused

end CloudI.ServiceFilesystem
