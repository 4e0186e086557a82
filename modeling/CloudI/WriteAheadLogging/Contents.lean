import CloudI.WriteAheadLogging.Accounting

/-!
# WriteAheadLogging.Contents

What is in the file of the write-ahead log: each chunk and each free space has its
bytes at its position, and past the position of the log there are only zeros.
-/

namespace CloudI.WriteAheadLogging

open CloudI.Lists Tiling Run Binary List

variable {ι ρ : Type} [LinearOrder ι] {cfg : Config ρ} {id : ι}

/-! ## bytes at a position -/

variable {file data : Binary} {chunks : ErlMap ι (Chunk ρ)}
  {s s' : System ι ρ}

/-- A byte after a write. -/
theorem getElem?_pwrite (h : p ≤ file.length) (i : Nat) :
    (pwrite p data file)[i]? = if i < p then file[i]? else
      if i < p + data.length then data[i - p]? else file[i]? := by
  have htake : (file.take p).length = p := length_take_of_le h
  have hgap : List.replicate (p - file.length) (0 : Byte) = [] := by
    rw [Nat.sub_eq_zero_of_le h]
    rfl
  rw [pwrite, hgap, append_nil]
  by_cases hlt : i < p
  · rw [if_pos hlt, append_assoc, getElem?_append_left (by omega),
      getElem?_take_of_lt hlt]
  · rw [if_neg hlt]
    by_cases hin : i < p + data.length
    · rw [if_pos hin, getElem?_append_left (by rw [length_append, htake]; exact hin),
        getElem?_append_right (by omega), htake]
    · rw [if_neg hin, getElem?_append_right (by rw [length_append, htake]; omega),
        length_append, htake, getElem?_drop]
      congr 1
      omega

theorem length_pwrite (h : p ≤ file.length) :
    (pwrite p data file).length = max file.length (p + data.length) := by
  have hgap : p - file.length = 0 := Nat.sub_eq_zero_of_le h
  simp only [pwrite, length_append, length_replicate, length_drop, hgap,
    length_take_of_le h]
  omega

theorem holds_pwrite_self (h : p ≤ file.length) (data : Binary) :
    Holds (pwrite p data file) p data := by
  intro i byte hi
  have hlt := (List.getElem?_eq_some_iff.mp hi).1
  rw [getElem?_pwrite h, if_neg (by omega), if_pos (by omega), Nat.add_sub_cancel_left]
  exact hi

theorem holds_pwrite_of_apart (h : Holds file q data) (hp : p ≤ file.length)
    (hapart : Apart (q, q + data.length) (p, p + written.length)) :
    Holds (pwrite p written file) q data := by
  intro i byte hi
  have hlt := (List.getElem?_eq_some_iff.mp hi).1
  rw [getElem?_pwrite hp]
  rcases hapart with hapart | hapart
  · rw [if_pos (by simp only at hapart; omega)]
    exact h i byte hi
  · simp only at hapart
    rw [if_neg (by omega), if_neg (by omega)]
    exact h i byte hi

theorem drop_pwrite (h : p ≤ file.length) (hq : p + data.length ≤ q) :
    (pwrite p data file).drop q = file.drop q := by
  refine ext_getElem? fun i => ?_
  rw [getElem?_drop, getElem?_drop, getElem?_pwrite h, if_neg (by omega),
    if_neg (by omega)]

/-! ## spaces -/

/-- A space of the file, and the request of the chunk that has it. -/
structure Space (ρ : Type) where
  position : Nat
  size : Nat
  request : Option ρ

/-- The space of a chunk. -/
def Chunk.space (chunk : Chunk ρ) : Space ρ where
  position := chunk.position
  size := chunk.size
  request := some chunk.request

/-- A free chunk. -/
def freeSpace (chunk : FreeChunk) : Space ρ where
  position := (ofLex chunk).2
  size := (ofLex chunk).1
  request := none

/-- What `chunk_write/7` writes of a chunk. -/
def chunkBytes (cfg : Config ρ) (size : Nat) (chunkData : Binary) : Binary :=
  Binary.bigEndian 8 size ++ Binary.bigEndian 8 chunkData.length ++
    cfg.checksum chunkData ++ chunkData ++ List.replicate (size - chunkData.length) 0

/-- What `chunk_free/4` writes, and `chunk_erase_last/4` with the size zero in front. -/
def freeBytes (cfg : Config ρ) (written size : Nat) : Binary :=
  Binary.bigEndian 8 written ++ Binary.bigEndian 8 0 ++ List.replicate cfg.checksumSize 0 ++
    List.replicate size 0

/-- The bytes of a space. -/
def Space.bytes (cfg : Config ρ) (space : Space ρ) : Binary :=
  match space.request with
  | none => freeBytes cfg space.size space.size
  | some request => chunkBytes cfg space.size (cfg.termToBinary request)

/-- The extent of a space. -/
def Space.extent (cfg : Config ρ) (space : Space ρ) : Nat × Nat :=
  extentAt cfg space.size space.position

/-- A size that a header can have, and that its request fits in. -/
structure Space.Fits (cfg : Config ρ) (space : Space ρ) : Prop where
  pos : 0 < space.size
  lt : space.size < 256 ^ 8
  used : ∀ request ∈ space.request, (cfg.termToBinary request).length ≤ space.size

/-- The codecs behave as documented: a checksum has the size of the setting, and a term
becomes at least one byte, of a length that fits in 64 bits, and is read back. -/
structure Lawful (cfg : Config ρ) (binaryToTerm : Binary → Option ρ) : Prop where
  length_checksum : ∀ data, (cfg.checksum data).length = cfg.checksumSize
  pos : ∀ request, 0 < (cfg.termToBinary request).length
  lt : ∀ request, (cfg.termToBinary request).length < 256 ^ 8
  binaryToTerm : ∀ request, binaryToTerm (cfg.termToBinary request) = some request

variable {binaryToTerm : Binary → Option ρ}

theorem length_freeBytes (cfg : Config ρ) (written size : Nat) :
    (freeBytes cfg written size).length = cfg.overhead + size := by
  simp only [freeBytes, Config.overhead, length_append, Binary.length_bigEndian,
    length_replicate]

theorem Space.length_bytes (hcfg : Lawful cfg binaryToTerm) {space : Space ρ}
    (h : space.Fits cfg) : (space.bytes cfg).length = cfg.overhead + space.size := by
  cases hrequest : space.request with
  | none => rw [Space.bytes, hrequest, length_freeBytes]
  | some request =>
    have hused := h.used request hrequest
    simp only [Space.bytes, hrequest, chunkBytes, length_append, Binary.length_bigEndian,
      hcfg.length_checksum, length_replicate, Config.overhead]
    omega

theorem Space.extent_proper (cfg : Config ρ) (space : Space ρ) :
    (space.extent cfg).1 < (space.extent cfg).2 :=
  extentAt_proper cfg space.size space.position

/-! ## the contents -/

/-- **The contents** of a file with some spaces up to a position. -/
structure Laid (cfg : Config ρ) (spaces : List (Space ρ)) (stop : Nat)
    (file : Binary) : Prop where
  holds : ∀ space ∈ spaces, Holds file space.position (space.bytes cfg)
  fits : ∀ space ∈ spaces, space.Fits cfg
  length : stop ≤ file.length
  zeros : ∀ byte ∈ file.drop stop, byte = 0

theorem Laid.perm (h : Laid cfg l stop file) (hl : l.Perm l') : Laid cfg l' stop file where
  holds := fun space hspace => h.holds space (hl.mem_iff.mpr hspace)
  fits := fun space hspace => h.fits space (hl.mem_iff.mpr hspace)
  length := h.length
  zeros := h.zeros

theorem Laid.tail (h : Laid cfg (space :: l) stop file) : Laid cfg l stop file where
  holds := fun x hx => h.holds x (mem_cons_of_mem space hx)
  fits := fun x hx => h.fits x (mem_cons_of_mem space hx)
  length := h.length
  zeros := h.zeros

section

variable (hcfg : Lawful cfg binaryToTerm)

include hcfg

theorem Laid.holds_pwrite (h : Laid cfg l stop file) {space : Space ρ}
    (hapart : ∀ x ∈ l, Apart (space.extent cfg) (x.extent cfg))
    (hposition : space.position ≤ file.length) (hdata : data.length = cfg.overhead + space.size)
    (hx : x ∈ l) : Holds (pwrite space.position data file) x.position (x.bytes cfg) := by
  refine holds_pwrite_of_apart (h.holds x hx) hposition ?_
  have hx' := (hapart x hx).symm
  rwa [hdata, Space.length_bytes hcfg (h.fits x hx), ← Nat.add_assoc, ← Nat.add_assoc]

/-- A space written over with as many bytes. -/
theorem Laid.replace (h : Laid cfg (space :: l) stop file)
    (hapart : ∀ x ∈ l, Apart (space.extent cfg) (x.extent cfg))
    (hstop : (space.extent cfg).2 ≤ stop) {space' : Space ρ} (hfits : space'.Fits cfg)
    (hposition : space'.position = space.position) (hsize : space'.size = space.size) :
    Laid cfg (space' :: l) stop (pwrite space'.position (space'.bytes cfg) file) := by
  have hextent : space'.extent cfg = space.extent cfg := by
    rw [Space.extent, Space.extent, hposition, hsize]
  rw [← hextent] at hapart hstop
  have hend : space'.position + cfg.overhead + space'.size ≤ stop := hstop
  have hlen := h.length
  have hbytes := Space.length_bytes hcfg hfits
  constructor
  case holds =>
    intro x hx
    rcases mem_cons.mp hx with rfl | hx
    · exact holds_pwrite_self (by omega) _
    · exact h.tail.holds_pwrite hcfg hapart (by omega) hbytes hx
  case fits =>
    intro x hx
    rcases mem_cons.mp hx with rfl | hx
    · exact hfits
    · exact h.tail.fits x hx
  case length =>
    rw [length_pwrite (by omega)]
    omega
  case zeros =>
    rw [drop_pwrite (by omega) (by omega)]
    exact h.zeros

/-- A new space at the end. -/
theorem Laid.extend (h : Laid cfg l stop file) (htiles : Tiles (l.map (Space.extent cfg)) stop)
    {space : Space ρ} (hfits : space.Fits cfg) (hposition : space.position = stop) :
    Laid cfg (space :: l) (stop + cfg.overhead + space.size)
      (pwrite stop (space.bytes cfg) file) := by
  subst hposition
  have hbytes := Space.length_bytes hcfg hfits
  have hapart : ∀ x ∈ l, Apart (space.extent cfg) (x.extent cfg) := by
    intro x hx
    exact .inr (htiles.le_stop (mem_map_of_mem hx))
  constructor
  case holds =>
    intro x hx
    rcases mem_cons.mp hx with rfl | hx
    · exact holds_pwrite_self h.length _
    · exact h.holds_pwrite hcfg hapart h.length hbytes hx
  case fits =>
    intro x hx
    rcases mem_cons.mp hx with rfl | hx
    · exact hfits
    · exact h.fits x hx
  case length =>
    rw [length_pwrite h.length]
    omega
  case zeros =>
    rw [drop_pwrite h.length (by omega), Nat.add_assoc, ← drop_drop]
    exact fun byte hbyte => h.zeros byte (mem_of_mem_drop hbyte)

theorem Laid.shrink (h : Laid cfg (space :: l) stop file)
    (hapart : ∀ x ∈ l, Apart (space.extent cfg) (x.extent cfg))
    (hlast : space.position + cfg.overhead + space.size = stop) :
    Laid cfg l space.position (chunkEraseLast cfg space.size space.position file) := by
  have hlen := h.length
  have hwrite : chunkEraseLast cfg space.size space.position file =
      pwrite space.position (freeBytes cfg 0 space.size) file := rfl
  have hzero : ∀ byte ∈ freeBytes cfg 0 space.size, byte = 0 := by
    have hheader : Binary.bigEndian 8 0 = List.replicate 8 0 := by decide
    simp [freeBytes, hheader]
  rw [hwrite]
  constructor
  case holds =>
    intro x hx
    exact h.tail.holds_pwrite hcfg hapart (by omega) (length_freeBytes cfg 0 space.size) hx
  case fits => exact h.tail.fits
  case length =>
    rw [length_pwrite (by omega)]
    omega
  case zeros =>
    have hle : space.position ≤ file.length := by omega
    have hheld := holds_pwrite_self hle (freeBytes cfg 0 space.size)
    rw [hheld.drop_eq, length_freeBytes, drop_pwrite (by omega)
      (by rw [length_freeBytes]), ← Nat.add_assoc, hlast]
    intro byte hbyte
    rcases mem_append.mp hbyte with hbyte | hbyte
    · exact hzero byte hbyte
    · exact h.zeros byte hbyte

end

/-! ## the operations -/

/-- The spaces of the stored chunks. -/
def storedSpaces (chunks : ErlMap ι (Chunk ρ)) : List (Space ρ) :=
  (Maps.toList chunks).map fun x => x.2.space

/-- The spaces of all chunks. -/
def spaces (s : System ι ρ) : List (Space ρ) :=
  storedSpaces s.log.chunks ++ s.started.map Chunk.space ++ s.log.chunksFree.map freeSpace

theorem map_extent (chunks : ErlMap ι (Chunk ρ)) (started : List (Chunk ρ))
    (chunksFree : List FreeChunk) :
    (storedSpaces chunks ++ started.map Chunk.space ++ chunksFree.map freeSpace).map
        (Space.extent cfg) =
      storedExtents cfg chunks ++ started.map (extent cfg) ++ chunksFree.map (freeExtent cfg) := by
  simp only [storedSpaces, storedExtents, map_append, map_map]
  rfl

theorem apart_of_head (h : Tiles ((space :: l).map (Space.extent cfg)) stop) :
    ∀ x ∈ l, Apart (space.extent cfg) (x.extent cfg) := fun _ hx =>
  (pairwise_cons.mp h.apart).1 _ (mem_map_of_mem hx)

theorem head_le_stop (h : Tiles ((space :: l).map (Space.extent cfg)) stop) :
    (space.extent cfg).2 ≤ stop :=
  h.le_stop (mem_map_of_mem (f := Space.extent cfg) mem_cons_self)

/-- An erased chunk leaves zeros at the end, or a free space. -/
theorem eraseChunk_laid (hcfg : Lawful cfg binaryToTerm) {chunk : Chunk ρ} {s : State ι ρ}
    (h : Laid cfg (chunk.space :: (l ++ s.chunksFree.map freeSpace)) s.position s.file)
    (htiles : Tiles ((chunk.space :: (l ++ s.chunksFree.map freeSpace)).map (Space.extent cfg))
      s.position) :
    Laid cfg (l ++ (eraseChunk cfg chunk s).chunksFree.map freeSpace)
      (eraseChunk cfg chunk s).position (eraseChunk cfg chunk s).file := by
  rw [eraseChunk]
  by_cases hlast : chunk.position + cfg.overhead + chunk.size = s.position
  · rw [if_pos hlast]
    exact h.shrink hcfg (apart_of_head htiles) hlast
  · rw [if_neg hlast]
    have hchunk : chunk.space.Fits cfg := h.fits _ mem_cons_self
    have hfits : (freeSpace (toLex (chunk.size, chunk.position)) : Space ρ).Fits cfg :=
      ⟨hchunk.pos, hchunk.lt, by simp [freeSpace]⟩
    have hlaid := h.replace hcfg (apart_of_head htiles) (head_le_stop htiles) hfits rfl rfl
    refine ⟨fun x hx => hlaid.holds x ?_, fun x hx => hlaid.fits x ?_, hlaid.length, hlaid.zeros⟩
    all_goals
      rcases mem_append.mp hx with hx | hx
      · exact mem_cons_of_mem _ (mem_append_left _ hx)
      · obtain ⟨free, hfree, rfl⟩ := mem_map.mp hx
        rcases mem_uinsert.mp hfree with rfl | hfree
        · exact mem_cons_self
        · exact mem_cons_of_mem _ (mem_append_right _ (mem_map_of_mem hfree))

theorem chunkFreeCheck_size (h : chunkFreeCheck n chunksFree l = some (chunk, rest)) :
    n ≤ (ofLex chunk).1 := by
  induction chunksFree generalizing l with
  | nil => cases h
  | cons c chunksFree ih =>
    rw [chunkFreeCheck] at h
    by_cases hsize : (ofLex c).1 ≥ n
    · rw [if_pos hsize] at h
      cases h
      exact hsize
    · rw [if_neg hsize] at h
      exact ih h

theorem writeRequest_laid (hcfg : Lawful cfg binaryToTerm) {s s' : State ι ρ}
    (h : Laid cfg (l ++ s.chunksFree.map freeSpace) s.position s.file)
    (htiles : Tiles ((l ++ s.chunksFree.map freeSpace).map (Space.extent cfg)) s.position)
    (hwrite : writeRequest cfg limit request s = some (chunk, s')) :
    Laid cfg (chunk.space :: (l ++ s'.chunksFree.map freeSpace)) s'.position s'.file := by
  rw [writeRequest] at hwrite
  cases hcheck : chunkFreeCheck (cfg.termToBinary request).length s.chunksFree [] with
  | none =>
    simp only [hcheck] at hwrite
    by_cases hfull : limit.any
        (s.position + cfg.overhead + (cfg.termToBinary request).length > ·) = true
    · rw [if_pos hfull] at hwrite
      cases hwrite
    · rw [if_neg hfull] at hwrite
      cases hwrite
      refine h.extend hcfg htiles ⟨hcfg.pos request, hcfg.lt request, ?_⟩ rfl
      intro request' hrequest
      obtain rfl : request = request' := Option.some.inj hrequest
      exact Nat.le_refl _
  | some x =>
    obtain ⟨free, rest⟩ := x
    simp only [hcheck] at hwrite
    cases hwrite
    have hperm : (l ++ s.chunksFree.map freeSpace).Perm
        (freeSpace free :: (l ++ rest.map freeSpace)) :=
      (((chunkFreeCheck_perm hcheck).map freeSpace).append_left l).trans perm_middle
    have hlaid := h.perm hperm
    have hfree := hlaid.fits _ mem_cons_self
    have htiles' := htiles.perm (hperm.map (Space.extent cfg))
    refine hlaid.replace hcfg (apart_of_head htiles') (head_le_stop htiles')
      ⟨hfree.pos, hfree.lt, ?_⟩ rfl rfl
    intro request' hrequest
    obtain rfl : request = request' := Option.some.inj hrequest
    exact chunkFreeCheck_size hcheck

/-! ## steps -/

theorem storedSpaces_put (h : Maps.find id chunks = none) (chunk : Chunk ρ) :
    (storedSpaces (Maps.put id chunk chunks)).Perm (chunk.space :: storedSpaces chunks) :=
  (Maps.toList_put_perm h chunk).map _

theorem storedSpaces_remove (h : Maps.find id chunks = some chunk) :
    (storedSpaces chunks).Perm (chunk.space :: storedSpaces (Maps.remove id chunks)) :=
  (Maps.toList_remove_perm h).map _

/-- The contents of the file of a system. -/
def Stored (cfg : Config ρ) (s : System ι ρ) : Prop :=
  Laid cfg (spaces s) s.log.position s.log.file

theorem Accounted.tiles_of_perm (hs : Accounted cfg s) (h : (spaces s).Perm l) :
    Tiles (l.map (Space.extent cfg)) s.log.position := by
  have htiles := hs.tiles
  rw [extents, ← map_extent] at htiles
  exact htiles.perm (h.map _)

theorem spaces_perm (hid : Maps.find id s.log.chunks = some chunk) :
    (spaces s).Perm (chunk.space :: ((storedSpaces (Maps.remove id s.log.chunks) ++
      s.started.map Chunk.space) ++ s.log.chunksFree.map freeSpace)) :=
  ((storedSpaces_remove hid).append_right _).append_right _

theorem Stored.of_erase (hcfg : Lawful cfg binaryToTerm) (h : Stored cfg s) (hs : Accounted cfg s)
    (hid : Maps.find id s.log.chunks = some chunk) :
    Laid cfg ((storedSpaces (Maps.remove id s.log.chunks) ++ s.started.map Chunk.space) ++
      (eraseChunk cfg chunk s.log).chunksFree.map freeSpace) (eraseChunk cfg chunk s.log).position
        (eraseChunk cfg chunk s.log).file :=
  eraseChunk_laid hcfg (h.perm (spaces_perm hid)) (hs.tiles_of_perm (spaces_perm hid))

theorem Stored.storeStart (hcfg : Lawful cfg binaryToTerm) (h : Stored cfg s) (hs : Accounted cfg s)
    {request : ρ} (hnext : next cfg s (.storeStart request) = some s') : Stored cfg s' := by
  rw [next] at hnext
  cases hstart : WriteAheadLogging.storeStart cfg request s.log with
  | none =>
    rw [hstart] at hnext
    cases hnext
    exact h
  | some x =>
    obtain ⟨chunk, log⟩ := x
    rw [hstart] at hnext
    cases hnext
    have htiles := hs.tiles_of_perm (List.Perm.refl (spaces s))
    have hlaid := writeRequest_laid hcfg h htiles hstart
    have hchunks : log.chunks = s.log.chunks := (writeRequest_spec hs.tiles hstart).2.1
    refine hlaid.perm ?_
    rw [spaces, hchunks, map_cons]
    exact perm_middle.symm.append_right _

theorem Stored.storeEnd (h : Stored cfg s) (hnext : next cfg s (.storeEnd i id) = some s') :
    Stored cfg s' := by
  rw [next] at hnext
  cases hi : s.started[i]? with
  | none =>
    rw [hi] at hnext
    cases hnext
  | some chunk =>
    cases hid : Maps.find id s.log.chunks with
    | some chunk' =>
      rw [hi, hid] at hnext
      cases hnext
    | none =>
      rw [hi, hid] at hnext
      cases hnext
      have hstarted := (perm_eraseIdx hi).map Chunk.space
      have hstored := storedSpaces_put hid chunk
      have hmove : (storedSpaces s.log.chunks ++ s.started.map Chunk.space).Perm
          (storedSpaces (Maps.put id chunk s.log.chunks) ++
            (s.started.eraseIdx i).map Chunk.space) := by
        refine (hstarted.append_left _).trans ?_
        rw [map_cons]
        exact perm_middle.trans (hstored.symm.append_right _)
      exact Laid.perm h (hmove.append_right _)

section

variable (hcfg : Lawful cfg binaryToTerm) (h : Stored cfg s) (hs : Accounted cfg s)

include hcfg h hs

theorem Stored.storeFail (hnext : next cfg s (.storeFail i) = some s') : Stored cfg s' := by
  rw [next, Option.map_eq_some_iff] at hnext
  obtain ⟨chunk, hi, rfl⟩ := hnext
  have hstarted := (perm_eraseIdx hi).map Chunk.space
  have hmove : (spaces s).Perm (chunk.space ::
      ((storedSpaces s.log.chunks ++ (s.started.eraseIdx i).map Chunk.space) ++
        s.log.chunksFree.map freeSpace)) := by
    refine ((hstarted.append_left _).append_right _).trans ?_
    rw [map_cons]
    exact perm_middle.append_right _
  have hlaid := eraseChunk_laid hcfg (h.perm hmove) (hs.tiles_of_perm hmove)
  rw [Stored, spaces]
  simp only [WriteAheadLogging.storeFail, eraseChunk_chunks]
  exact hlaid

theorem Stored.erase (hnext : next cfg s (.erase id) = some s') : Stored cfg s' := by
  rw [next, WriteAheadLogging.erase, Maps.take] at hnext
  cases hid : Maps.find id s.log.chunks with
  | none =>
    rw [hid] at hnext
    cases hnext
  | some chunk =>
    rw [hid] at hnext
    cases hnext
    exact h.of_erase hcfg hs hid

theorem Stored.eraseRetry (hnext : next cfg s (.eraseRetry id retryMax retryF) = some s')
    : Stored cfg s' := by
  obtain ⟨chunk, hid, rfl | ⟨newId, hnone, rfl⟩⟩ := next_eraseRetry_eq_some hnext
  · exact h.of_erase hcfg hs hid
  · refine Laid.perm h ?_
    refine ((storedSpaces_remove hid).trans ?_).append_right _ |>.append_right _
    exact (storedSpaces_put hnone { chunk with retries := chunk.retries + 1 }).symm

theorem Stored.update (hkeeps : KeepsId s (.update id updateF))
    (hnext : next cfg s (.update id updateF) = some s') : Stored cfg s' := by
  obtain ⟨chunk, hid, ⟨-, rfl⟩ | ⟨newId, request, newChunk, log, hupdate, -, hwrite, rfl⟩⟩ :=
    next_update_eq_some hnext
  · exact h.of_erase hcfg hs hid
  · obtain rfl := hkeeps chunk hid newId request hupdate
    have htiles := tiles_erase hs.tiles hid
    have hlaid := writeRequest_laid hcfg (h.of_erase hcfg hs hid) (by rwa [map_extent]) hwrite
    have hnone : Maps.find newId (Maps.remove newId s.log.chunks) = none := by simp
    refine hlaid.perm ?_
    rw [spaces, ← Maps.put_remove]
    exact ((storedSpaces_put hnone newChunk).symm.append_right _).append_right _

/-- **Step lemma**: a step whose update keeps the id. -/
theorem Stored.next {event : Event ι ρ} (hkeeps : KeepsId s event)
    (hnext : next cfg s event = some s') : Stored cfg s' := by
  cases event with
  | storeStart request => exact h.storeStart hcfg hs hnext
  | storeEnd i id => exact h.storeEnd hnext
  | storeFail i => exact h.storeFail hcfg hs hnext
  | erase id => exact h.erase hcfg hs hnext
  | eraseRetry id retryMax retryF => exact h.eraseRetry hcfg hs hnext
  | update id updateF => exact h.update hcfg hs hkeeps hnext

end

theorem stored_new : Stored cfg ({} : System ι ρ) where
  holds := fun space hspace => by cases hspace
  fits := fun space hspace => by cases hspace
  length := Nat.le_refl _
  zeros := fun byte hbyte => by cases hbyte

/-- **Run lemma**: the file of every run whose updates keep the id. -/
theorem stored_of_steps (hcfg : Lawful cfg binaryToTerm)
    (h : Steps (WriteAheadLogging.next cfg) KeepsId {} events s) :
    Accounted cfg s ∧ Stored cfg s := by
  refine h.invariant (I := fun s => Accounted cfg s ∧ Stored cfg s) ?_ ⟨accounted_new, stored_new⟩
  rintro s event s' ⟨hs, hstored⟩ hkeeps hnext
  exact ⟨(hs.next_iff hnext).mpr hkeeps, hstored.next hcfg hs hkeeps hnext⟩

end CloudI.WriteAheadLogging
