import CloudI.ServiceFilesystem.Append

/-!
# ServiceFilesystem.RangeAppend

What `request_append_file` writes.  Each entry is appended or replaces the bytes of its range; a
range that ends in front of its start is refused.  A range that starts in front of the contents, as
a suffix that is longer than they are, is neither: the match of the contents fails.
-/

namespace CloudI.ServiceFilesystem

variable {Id Req Notify MTime : Type}

/-! ## what is said -/

/-- A range of an entry: an integer is a suffix. -/
def RangeRequest.Allowed (entry : RangeRequest Req) : Prop :=
  ∀ i, entry.range = some (.integer i) → i < 0

/-- The bytes from a start to a stop replaced, with zeros in a gap in front of the start. -/
def replaceBytes (contents : Binary) (start stop : Nat) (body : Binary) : Binary :=
  contents.take start ++ List.replicate (start - contents.length) 0 ++ body ++
    contents.drop (stop + 1)

/-- The contents after the entries, in their order. -/
def Replaced (bytes : Req → Binary) : List (RangeRequest Req) → Binary → Binary → Prop
  | [], contents, contents' => contents' = contents
  | ⟨none, request⟩ :: entries, contents, contents' =>
      Replaced bytes entries (contents ++ bytes request) contents'
  | ⟨some range, request⟩ :: entries, contents, contents' =>
      ∃ start stop : Nat,
        range.appendBounds contents.length (bytes request).length = some (↑start, ↑stop) ∧
        start ≤ stop ∧
        Replaced bytes entries (replaceBytes contents start stop (bytes request)) contents'

/-- Each range starts in the contents or behind them, up to the first one that is refused. -/
def StartsInside (bytes : Req → Binary) : List (RangeRequest Req) → Binary → Prop
  | [], _ => True
  | ⟨none, request⟩ :: entries, contents => StartsInside bytes entries (contents ++ bytes request)
  | ⟨some range, request⟩ :: entries, contents =>
      ∀ start stop, range.appendBounds contents.length (bytes request).length = some (start, stop) →
        start ≤ stop → 0 ≤ start ∧
          StartsInside bytes entries
            (replaceBytes contents start.toNat stop.toNat (bytes request))

/-! ## one range -/

theorem exists_appendBounds {range : Range} (h : ∀ i, range = .integer i → i < 0)
    (contentLength size : Nat) :
    ∃ start stop, range.appendBounds contentLength size = some (start, stop) := by
  cases range with
  | integer i => exact ⟨_, _, if_pos (h i rfl)⟩
  | _ => exact ⟨_, _, rfl⟩

/-- The four cases are one: what is in front of the range, the data, and what is behind it. -/
theorem appendRange_eq (h : range.appendBounds contents.length body.length = some (start, stop)) :
    appendRange contents range body = if start ≤ stop then
        if start < 0 then .raises
        else .contents (replaceBytes contents start.toNat stop.toNat body)
      else .outside := by
  simp only [appendRange, h]
  by_cases hle : start ≤ stop
  · rw [if_pos hle, if_pos hle]
    by_cases hneg : start < 0
    · rw [if_pos hneg, if_pos hneg]
    · rw [if_neg hneg, if_neg hneg, replaceBytes]
      by_cases hstop : stop < contents.length
      · have hgap : start.toNat - contents.length = 0 := by omega
        rw [if_pos hstop, hgap, List.replicate_zero, List.append_nil]
      · have hrest : contents.drop (stop.toNat + 1) = [] := List.drop_eq_nil_of_le (by omega)
        rw [if_neg hstop, hrest, List.append_nil]
        by_cases hstart : start < contents.length
        · have hgap : start.toNat - contents.length = 0 := by omega
          rw [if_pos hstart, hgap, List.replicate_zero, List.append_nil]
        · rw [if_neg hstart, List.take_of_length_le (by omega)]
  · rw [if_neg hle, if_neg hle]

/-! ## all entries -/

/-- What comes of the entries: they are written, or one is refused, or one starts in front of the
contents. -/
theorem appendContents_cases (bytes : Req → Binary) {entries : List (RangeRequest Req)}
    (h : ∀ entry ∈ entries, entry.Allowed) (contents : Binary) :
    (StartsInside bytes entries contents ∧
      ((∃ contents', appendContents bytes entries contents = .contents contents' ∧
          Replaced bytes entries contents contents') ∨
        appendContents bytes entries contents = .outside)) ∨
    (¬ StartsInside bytes entries contents ∧ appendContents bytes entries contents = .raises) := by
  induction entries generalizing contents with
  | nil => exact .inl ⟨trivial, .inl ⟨contents, rfl, rfl⟩⟩
  | cons entry entries ih =>
    obtain ⟨hentry, hentries⟩ := List.forall_mem_cons.mp h
    obtain ⟨range, request⟩ := entry
    cases range with
    | none => exact ih hentries (contents ++ bytes request)
    | some range =>
      obtain ⟨start, stop, hbounds⟩ := exists_appendBounds (fun i hi => hentry i (congrArg some hi))
        contents.length (bytes request).length
      have hinside : StartsInside bytes (⟨some range, request⟩ :: entries) contents ↔
          (start ≤ stop → 0 ≤ start ∧ StartsInside bytes entries
            (replaceBytes contents start.toNat stop.toNat (bytes request))) := by
        refine ⟨fun h => h start stop hbounds, fun h start' stop' hbounds' => ?_⟩
        cases hbounds.symm.trans hbounds'
        exact h
      rw [hinside, appendContents, appendRange_eq hbounds]
      by_cases hle : start ≤ stop
      · rw [if_pos hle]
        by_cases hneg : start < 0
        · rw [if_pos hneg]
          exact .inr ⟨fun h => absurd (h hle).1 (by omega), rfl⟩
        · rw [if_neg hneg]
          rcases ih hentries (replaceBytes contents start.toNat stop.toNat (bytes request)) with
            ⟨hin, hwritten | houtside⟩ | ⟨hnot, hraises⟩
          · obtain ⟨contents', happend, hreplaced⟩ := hwritten
            refine .inl ⟨fun _ => ⟨by omega, hin⟩, .inl ⟨contents', happend, start.toNat,
              stop.toNat, ?_, by omega, hreplaced⟩⟩
            rw [hbounds, Int.toNat_of_nonneg (by omega), Int.toNat_of_nonneg (by omega)]
          · exact .inl ⟨fun _ => ⟨by omega, hin⟩, .inr houtside⟩
          · exact .inr ⟨fun h => hnot (h hle).2, hraises⟩
      · rw [if_neg hle]
        exact .inl ⟨fun h => absurd h hle, .inr rfl⟩

/-! ## the file -/

section File

variable [DecidableEq MTime] (config : Config)
  (bytes : Req → Binary) (w : World Id Req Notify MTime) (entries : List (RangeRequest Req))
  (file : File Id Req Notify MTime) (mtime : MTime)

/-- An error status with nothing changed, or the contents after the entries under every name. -/
def AppendsAsSaid : Prop :=
  (∃ status,
    requestAppendFile config bytes w entries file (.ok mtime) = some (.status status, w)) ∨
  ∃ contents w', Replaced bytes entries file.contents contents ∧
    requestAppendFile config bytes w entries file (.ok mtime) = some (.ok, w') ∧
    ∀ name ∈ names config, (w'.files name).contents = contents

/-- An append writes what it says where no range starts in front of the contents. -/
theorem appendsAsSaid_iff (h : ∀ entry ∈ entries, entry.Allowed) :
    AppendsAsSaid config bytes w entries file mtime ↔ StartsInside bytes entries file.contents := by
  rcases appendContents_cases bytes h file.contents with
    ⟨hinside, hwritten | houtside⟩ | ⟨hnot, hraises⟩
  · obtain ⟨contents, happend, hreplaced⟩ := hwritten
    refine iff_of_true ?_ hinside
    rw [AppendsAsSaid, requestAppendFile, happend]
    cases hcheck : filesSizeCheck (w.filesSize - file.size) contents config.filesSizeLimit with
    | none => exact .inl ⟨400, by simp only [writeContents, hcheck]⟩
    | some sizes =>
      refine .inr ⟨contents, _, hreplaced, by simp only [writeContents, hcheck]; rfl, ?_⟩
      intro name hname
      exact congrArg File.contents (fileRefresh_of_mem hname)
  · refine iff_of_true (.inl ⟨416, ?_⟩) hinside
    rw [requestAppendFile, houtside]
  · refine iff_of_false ?_ hnot
    rw [AppendsAsSaid, requestAppendFile, hraises]
    rintro (⟨status, hnone⟩ | ⟨contents, w', -, hnone, -⟩)
    · cases hnone
    · cases hnone

end File

/-- A file that is empty. -/
def emptyFile : File Nat Nat Unit Nat where
  contents := []
  size := 0
  mtimeI := (0, 0)
  toggle := false
  writeAppends := []
  notify := []
  redirect := none

/-- The service with this file. -/
def emptyWorld : World Nat Nat Unit Nat where
  files := fun _ => emptyFile
  filesSize := 0
  toggle := false
  timers := []
  messages := []
  nextTref := 0

/-- A file of three bytes. -/
def filledFile : File Nat Nat Unit Nat := { emptyFile with contents := [1, 2, 3], size := 3 }

/-- A byte behind a gap of two, and then one at the start of a suffix of two. -/
def gapAndSuffix : List (RangeRequest Nat) := [⟨some (.open 5), 7⟩, ⟨some (.integer (-2)), 8⟩]

theorem appendsAsSaid_iff_gap :
    AppendsAsSaid ⟨false, false, true, none⟩ (fun i => [Fin.ofNat 256 i])
        { emptyWorld with files := fun _ => filledFile, filesSize := 3 } gapAndSuffix filledFile 1 ∧
      Replaced (fun i => [Fin.ofNat 256 i]) gapAndSuffix filledFile.contents [1, 2, 3, 0, 8, 7] := by
  refine ⟨(appendsAsSaid_iff _ _ _ _ _ _ ?_).mpr ?_, 5, 5, rfl, le_rfl, 4, 4, rfl, le_rfl, rfl⟩
  · simp [gapAndSuffix, RangeRequest.Allowed]
  · rintro start stop hbounds -
    cases hbounds
    refine ⟨by decide, ?_⟩
    rintro start stop hbounds -
    cases hbounds
    exact ⟨by decide, trivial⟩

/-- A suffix of one byte of an empty file: the append raises. -/
theorem not_appendsAsSaid_suffix :
    ¬ ∀ (entries : List (RangeRequest Nat)), (∀ entry ∈ entries, entry.Allowed) →
      AppendsAsSaid ⟨false, false, true, none⟩ (fun i => [Fin.ofNat 256 i]) emptyWorld entries
        emptyFile 1 := by
  intro h
  have hallowed : ∀ entry ∈ [(⟨some (.integer (-1)), 7⟩ : RangeRequest Nat)], entry.Allowed := by
    rintro _ (_ | ⟨_, ⟨⟩⟩) i hi
    cases hi
    decide
  rcases h _ hallowed with ⟨status, hnone⟩ | ⟨contents, w', -, hnone, -⟩
  · cases hnone
  · cases hnone

end CloudI.ServiceFilesystem
