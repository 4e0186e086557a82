import CloudI.WriteAheadLogging.Contents
import Mathlib.Data.List.Sort

/-!
# WriteAheadLogging.Recover

The recovery of the write-ahead log from its file: `new/5` and `chunks_recover/7`
walk the file chunk by chunk, give each request to the retry function and free the
chunks of those that time out.

`none` is a failure: an `{error, _}` that `new/5` does not match, or a read that no
clause matches.  The retry function is a function of the number of calls made
before, since it may answer two calls for one request differently.  The recursion is
bounded by fuel; that enough fuel gives a result is part of what is proved.
-/

namespace CloudI.WriteAheadLogging

open CloudI.Lists Tiling Run Binary List Option

variable {ι ρ : Type} [LinearOrder ι] {cfg : Config ρ} {id : ι}

/-! ## the walk -/

/-- What `file:read/2` of eight bytes gives: the unsigned integer, or fewer bytes. -/
inductive Word where
  | eof
  | number (n : Nat)
  | short
deriving DecidableEq

/-- `file:read(Fd, 8)`, of what the file has from the read position on. -/
def readWord (rest : Binary) : Word :=
  if rest = [] then .eof
  else if rest.length < 8 then .short
  else .number (Binary.value (rest.take 8))

/-- The arguments of `chunks_recover/7`: the log as it is recovered so far, the read
position of the file, and the number of calls of the retry function. -/
structure Recovery (ι ρ : Type) [LinearOrder ι] where
  log : State ι ρ
  fd : Nat := 0
  calls : Nat := 0

def chunkRecoverFree (cfg : Config ρ) (chunkSize : Nat) (r : Recovery ι ρ) : Recovery ι ρ :=
  { r with log := { r.log with
      position := r.log.position + cfg.overhead + chunkSize
      chunksFree := umerge r.log.chunksFree [toLex (chunkSize, r.log.position)] } }

/-- `chunk_recover_used/9` with the request and the answer of the retry function.  After
a timeout the read position stays behind the data: the padding is not skipped. -/
def chunkRetried (cfg : Config ρ) (chunkSize chunkSizeUsed : Nat) (request : ρ)
    (r : Recovery ι ρ) : Option ι → Recovery ι ρ
  | none =>
      chunkRecoverFree cfg chunkSize { r with log := { r.log with
        file := chunkFree cfg chunkSize r.log.position r.log.file } }
  | some chunkId =>
      let chunk : Chunk ρ := { size := chunkSize, position := r.log.position, request }
      let chunks := Maps.put chunkId chunk r.log.chunks
      if chunkSize = chunkSizeUsed then
        { r with log := { r.log with
            position := r.log.position + cfg.overhead + chunkSize
            chunks } }
      else
        { r with fd := r.fd + (chunkSize - chunkSizeUsed)
                 log := { r.log with
                   position := r.fd + (chunkSize - chunkSizeUsed)
                   chunks } }

def chunkRecoverUsed (cfg : Config ρ) (binaryToTerm : Binary → Option ρ)
    (retryF : Nat → ρ → Bool → Option ι) (chunkSize chunkSizeUsed : Nat)
    (r : Recovery ι ρ) : Option (Recovery ι ρ) :=
  let bytes := (r.log.file.drop r.fd).take (cfg.checksumSize + chunkSizeUsed)
  let chunkData := bytes.drop cfg.checksumSize
  if bytes = [] ∨ bytes.length < cfg.checksumSize then none
  else if bytes.take cfg.checksumSize = cfg.checksum chunkData then
    (binaryToTerm chunkData).map fun request =>
      chunkRetried cfg chunkSize chunkSizeUsed request
        { r with fd := r.fd + bytes.length, calls := r.calls + 1 } (retryF r.calls request true)
  else none

def chunkRecover (cfg : Config ρ) (binaryToTerm : Binary → Option ρ)
    (retryF : Nat → ρ → Bool → Option ι) (chunkSize : Nat)
    (r : Recovery ι ρ) : Option (Recovery ι ρ) :=
  match readWord (r.log.file.drop r.fd) with
  | .eof => none
  | .number 0 =>
      some (chunkRecoverFree cfg chunkSize { r with fd := r.fd + 8 + cfg.checksumSize + chunkSize })
  | .number chunkSizeUsed =>
      if chunkSize ≥ chunkSizeUsed then
        chunkRecoverUsed cfg binaryToTerm retryF chunkSize chunkSizeUsed { r with fd := r.fd + 8 }
      else none
  | .short => none

def chunksRecover (cfg : Config ρ) (binaryToTerm : Binary → Option ρ)
    (retryF : Nat → ρ → Bool → Option ι) :
    Nat → Recovery ι ρ → Option (State ι ρ)
  | 0, _ => none
  | fuel + 1, r =>
      match readWord (r.log.file.drop r.fd) with
      | .eof => some r.log
      | .number 0 => some r.log
      | .number chunkSize =>
          (chunkRecover cfg binaryToTerm retryF chunkSize { r with fd := r.fd + 8 }).bind
            (chunksRecover cfg binaryToTerm retryF fuel)
      | .short => none

/-- `new/5` of a file. -/
def new (cfg : Config ρ) (binaryToTerm : Binary → Option ρ)
    (retryF : Nat → ρ → Bool → Option ι) (fuel : Nat) (file : Binary) : Option (State ι ρ) :=
  chunksRecover cfg binaryToTerm retryF fuel { log := { file } }

variable {binaryToTerm : Binary → Option ρ} {retryF : Nat → ρ → Bool → Option ι}

variable {r : Recovery ι ρ} {log : State ι ρ}

theorem chunksRecover_succ (h : chunksRecover cfg binaryToTerm retryF fuel r = some s) :
    chunksRecover cfg binaryToTerm retryF (fuel + 1) r = some s := by
  induction fuel generalizing r with
  | zero => cases h
  | succ fuel ih =>
    rw [chunksRecover] at h ⊢
    split at h
    case h_1 => simpa using h
    case h_2 hzero => simpa using h
    case h_3 chunkSize hpos hsize =>
      obtain ⟨r', hr', hrest⟩ := bind_eq_some_iff.mp h
      exact bind_eq_some_iff.mpr ⟨r', hr', ih hrest⟩
    case h_4 => cases h

theorem chunksRecover_add (h : chunksRecover cfg binaryToTerm retryF fuel r = some s) (n : Nat) :
    chunksRecover cfg binaryToTerm retryF (fuel + n) r = some s := by
  induction n with
  | zero => exact h
  | succ n ih => exact chunksRecover_succ ih

theorem chunksRecover_unique (h : chunksRecover cfg binaryToTerm retryF fuel r = some s)
    (h' : chunksRecover cfg binaryToTerm retryF fuel' r = some s') : s = s' := by
  have hmore := chunksRecover_add h fuel'
  rw [Nat.add_comm, chunksRecover_add h' fuel] at hmore
  exact (Option.some.inj hmore).symm

/-! ## one space -/

theorem readWord_holds {file : Binary} (h : Holds file p (Binary.bigEndian 8 n))
    (hn : n < 256 ^ 8) : readWord (file.drop p) = .number n := by
  have hlen := Binary.length_bigEndian 8 n
  have hne : Binary.bigEndian 8 n ++ file.drop (p + 8) ≠ [] := by simp [Binary.bigEndian]
  have hlong : ¬ (Binary.bigEndian 8 n ++ file.drop (p + 8)).length < 8 := by
    rw [length_append, hlen]
    omega
  rw [h.drop_eq, hlen, readWord, if_neg hne, if_neg hlong, take_left' hlen,
    Binary.value_bigEndian, Nat.mod_eq_of_lt hn]

theorem chunksRecover_number (h : readWord (r.log.file.drop r.fd) = .number n) (hn : 0 < n) :
    chunksRecover cfg binaryToTerm retryF (fuel + 1) r =
      (chunkRecover cfg binaryToTerm retryF n { r with fd := r.fd + 8 }).bind
        (chunksRecover cfg binaryToTerm retryF fuel) := by
  obtain ⟨m, rfl⟩ := Nat.exists_eq_succ_of_ne_zero hn.ne'
  rw [chunksRecover, h]
  rfl

theorem chunkRecover_free (h : Holds r.log.file r.fd (freeBytes cfg n n)) :
    chunkRecover cfg binaryToTerm retryF n { r with fd := r.fd + 8 } =
      some (chunkRecoverFree cfg n { r with fd := r.fd + cfg.overhead + n }) := by
  have hused : Holds r.log.file (r.fd + 8) (Binary.bigEndian 8 0) := by
    have hfront := (holds_append (holds_append h).1).1
    have hheader := (holds_append hfront).2
    rwa [Binary.length_bigEndian] at hheader
  have hfd : r.fd + 8 + 8 + cfg.checksumSize + n = r.fd + cfg.overhead + n := by
    rw [Config.overhead]
    omega
  rw [chunkRecover, readWord_holds hused (by decide)]
  simp only [hfd]

/-- The request of a chunk is read and given to the retry function. -/
theorem chunkRecover_used (hcfg : Lawful cfg binaryToTerm)
    (h : Holds r.log.file r.fd (chunkBytes cfg n (cfg.termToBinary request)))
    (hn : (cfg.termToBinary request).length ≤ n) :
    chunkRecover cfg binaryToTerm retryF n { r with fd := r.fd + 8 } =
      some (chunkRetried cfg n (cfg.termToBinary request).length request
        { r with fd := r.fd + cfg.overhead + (cfg.termToBinary request).length
                 calls := r.calls + 1 } (retryF r.calls request true)) := by
  have hfront := (holds_append h).1
  rw [append_assoc] at hfront
  obtain ⟨hheader, hdata⟩ := holds_append hfront
  have hused := (holds_append hheader).2
  rw [length_append, Binary.length_bigEndian, Binary.length_bigEndian] at hdata
  rw [Binary.length_bigEndian] at hused
  have hchecksum := hcfg.length_checksum (cfg.termToBinary request)
  have hpos := hcfg.pos request
  have hread : (r.log.file.drop (r.fd + 8 + 8)).take
      (cfg.checksumSize + (cfg.termToBinary request).length) =
        cfg.checksum (cfg.termToBinary request) ++ cfg.termToBinary request := by
    have hlen : (cfg.checksum (cfg.termToBinary request) ++ cfg.termToBinary request).length =
          cfg.checksumSize + (cfg.termToBinary request).length := by
      rw [length_append, hchecksum]
    rw [hdata.drop_eq, take_left' hlen]
  have hnumber := readWord_holds hused (hcfg.lt request)
  obtain ⟨m, hm⟩ := Nat.exists_eq_add_of_lt hpos
  have hsome : ¬ (cfg.checksum (cfg.termToBinary request) ++ cfg.termToBinary request = [] ∨
      (cfg.checksum (cfg.termToBinary request) ++ cfg.termToBinary request).length <
        cfg.checksumSize) := by
    rw [← length_eq_zero_iff, length_append, hchecksum]
    omega
  have hfd : r.fd + 8 + 8 + (cfg.checksumSize + (cfg.termToBinary request).length) =
      r.fd + cfg.overhead + (cfg.termToBinary request).length := by
    rw [Config.overhead]
    omega
  have hrecover : chunkRecover cfg binaryToTerm retryF n { r with fd := r.fd + 8 } =
      chunkRecoverUsed cfg binaryToTerm retryF n (cfg.termToBinary request).length
        { r with fd := r.fd + 8 + 8 } := by
    rw [hm] at hnumber hn ⊢
    rw [chunkRecover, hnumber]
    exact if_pos hn
  rw [hrecover, chunkRecoverUsed]
  simp only [hread]
  rw [if_neg hsome, drop_left' hchecksum, take_left' hchecksum, if_pos rfl,
    hcfg.binaryToTerm, length_append, hchecksum, hfd]
  rfl

/-! ## the walk over the spaces -/

/-- The retry function gives no id twice. -/
def Distinct (retryF : Nat → ρ → Bool → Option ι) : Prop :=
  ∀ i j request request' id, retryF i request true = some id →
    retryF j request' true = some id → i = j

/-- **The recovered chunks**: of the requests that were asked for, those with an id, and
the rest of the extents below the position is free. -/
structure Recovering (cfg : Config ρ) (retryF : Nat → ρ → Bool → Option ι)
    (asked : List (Chunk ρ)) (log : State ι ρ) : Prop where
  found : ∀ id chunk, Maps.find id log.chunks = some chunk ↔
    ∃ i, asked[i]? = some chunk ∧ retryF i chunk.request true = some id
  tiles : Tiles (storedExtents cfg log.chunks ++ log.chunksFree.map (freeExtent cfg)) log.position

/-- The chunk of a space, as it is recovered. -/
def Space.chunk? (space : Space ρ) : Option (Chunk ρ) :=
  space.request.map fun request => { size := space.size, position := space.position, request }

/-- The request of a chunk times out that is shorter than its space. -/
def PaddedTimeout (cfg : Config ρ) (retryF : Nat → ρ → Bool → Option ι)
    (i : Nat) (chunk : Chunk ρ) : Prop :=
  retryF i chunk.request true = none ∧ (cfg.termToBinary chunk.request).length < chunk.size

/-- **The walk**, in front of the spaces that are left. -/
structure Walk (cfg : Config ρ) (retryF : Nat → ρ → Bool → Option ι)
    (rest : List (Space ρ)) (stop : Nat) (asked : List (Chunk ρ))
    (r : Recovery ι ρ) : Prop where
  fd : r.fd = r.log.position
  calls : r.calls = asked.length
  sound : Recovering cfg retryF asked r.log
  chain : Chain (Space.extent cfg) r.log.position rest stop
  laid : Laid cfg rest stop r.log.file

theorem not_mem_free {l : List (Nat × Nat)} {free : List FreeChunk}
    (h : Tiles (l ++ free.map (freeExtent cfg)) stop) (size : Nat) : toLex (size, stop) ∉ free := by
  intro hmem
  have hle := h.le_stop (mem_append_right l (List.mem_map_of_mem (f := freeExtent cfg) hmem))
  have hproper := extentAt_proper cfg size stop
  exact absurd (Nat.lt_of_lt_of_le hproper hle) (Nat.lt_irrefl stop)

theorem Recovering.free (h : Recovering cfg retryF asked r.log) (size : Nat) :
    Recovering cfg retryF asked (chunkRecoverFree cfg size r).log where
  found := h.found
  tiles := by
    have hperm := (perm_uinsert (not_mem_free h.tiles size)).map (freeExtent cfg)
    refine (h.tiles.extend (extentAt_proper cfg size r.log.position)).perm ?_
    refine perm_middle.symm.trans ?_
    exact hperm.symm.append_left _

theorem getElem?_concat_eq_some :
    (l ++ [a])[i]? = some x ↔ l[i]? = some x ∨ i = l.length ∧ x = a := by
  by_cases hlt : i < l.length
  · rw [getElem?_append_left hlt]
    exact ⟨.inl, fun h => h.resolve_right fun hi => absurd hlt (by omega)⟩
  · have hnone : l[i]? = none := getElem?_eq_none (Nat.not_lt.mp hlt)
    rw [getElem?_append_right (Nat.not_lt.mp hlt), getElem?_singleton, hnone]
    by_cases hi : i = l.length
    · simp [hi, eq_comm]
    · have hsub : i - l.length ≠ 0 := by omega
      simp [hi, hsub]

/-- A request without an id. -/
theorem Recovering.timeout (h : Recovering cfg retryF asked log)
    (hretry : retryF asked.length chunk.request true = none) :
    Recovering cfg retryF (asked ++ [chunk]) log where
  found := by
    intro id c
    rw [h.found]
    constructor
    · rintro ⟨i, hi, hid⟩
      exact ⟨i, getElem?_concat_eq_some.mpr (.inl hi), hid⟩
    · rintro ⟨i, hi, hid⟩
      rcases getElem?_concat_eq_some.mp hi with hi | ⟨rfl, rfl⟩
      · exact ⟨i, hi, hid⟩
      · rw [hretry] at hid
        cases hid
  tiles := h.tiles

theorem Recovering.put (hdistinct : Distinct retryF) (h : Recovering cfg retryF asked log)
    (hposition : chunk.position = log.position)
    (hretry : retryF asked.length chunk.request true = some id) :
    Recovering cfg retryF (asked ++ [chunk])
      { log with position := log.position + cfg.overhead + chunk.size
                 chunks := Maps.put id chunk log.chunks } where
  found := by
    intro id' c
    rw [Maps.find_put]
    by_cases hid : id = id'
    · subst hid
      rw [if_pos rfl]
      constructor
      · intro hc
        obtain rfl := Option.some.inj hc
        exact ⟨asked.length, getElem?_concat_eq_some.mpr (.inr ⟨rfl, rfl⟩), hretry⟩
      · rintro ⟨i, hi, hasked⟩
        obtain rfl := hdistinct _ _ _ _ _ hasked hretry
        rw [getElem?_concat_length] at hi
        exact hi
    · rw [if_neg hid, h.found]
      constructor
      · rintro ⟨i, hi, hasked⟩
        exact ⟨i, getElem?_concat_eq_some.mpr (.inl hi), hasked⟩
      · rintro ⟨i, hi, hasked⟩
        rcases getElem?_concat_eq_some.mp hi with hi | ⟨rfl, rfl⟩
        · exact ⟨i, hi, hasked⟩
        · rw [hretry] at hasked
          exact absurd (Option.some.inj hasked) hid
  tiles := by
    have hnone : Maps.find id log.chunks = none := by
      cases hfind : Maps.find id log.chunks with
      | none => rfl
      | some c =>
        obtain ⟨i, hi, hasked⟩ := (h.found id c).mp hfind
        obtain rfl := hdistinct _ _ _ _ _ hasked hretry
        rw [getElem?_eq_none (Nat.le_refl _)] at hi
        cases hi
    have hextent : extent cfg chunk = (log.position, log.position + cfg.overhead + chunk.size) := by
      rw [extent, hposition, extentAt]
    have hextend := h.tiles.extend (extentAt_proper cfg chunk.size log.position)
    refine hextend.perm ?_
    rw [extentAt, ← hextent]
    exact ((storedExtents_put hnone chunk).symm.append_right _)

theorem Recovering.withFile (h : Recovering cfg retryF asked log) (file : Binary) :
    Recovering cfg retryF asked { log with file } :=
  ⟨h.found, h.tiles⟩

theorem Space.holds_size {space : Space ρ} (h : Holds file p (space.bytes cfg)) :
    Holds file p (Binary.bigEndian 8 space.size) := by
  cases hrequest : space.request with
  | none =>
    rw [Space.bytes, hrequest] at h
    exact (holds_append (holds_append (holds_append h).1).1).1
  | some request =>
    rw [Space.bytes, hrequest] at h
    exact (holds_append (holds_append (holds_append (holds_append h).1).1).1).1

theorem Walk.apart (h : Walk cfg retryF (space :: rest) stop asked r) :
    ∀ x ∈ rest, Apart (space.extent cfg) (x.extent cfg) := fun _ hx =>
  .inl (h.chain.2.start_le (fun y _ => Space.extent_proper cfg y) hx)

theorem Walk.freed (hcfg : Lawful cfg binaryToTerm)
    (h : Walk cfg retryF (space :: rest) stop asked r) :
    Laid cfg rest stop (chunkFree cfg space.size space.position r.log.file) ∧
      (chunkFree cfg space.size space.position r.log.file).drop
        (space.position + cfg.overhead + space.size) =
          r.log.file.drop (space.position + cfg.overhead + space.size) := by
  have hfits := h.laid.fits space mem_cons_self
  have hstop : (space.extent cfg).2 ≤ stop :=
    h.chain.2.le_stop fun x _ => Space.extent_proper cfg x
  have hfree : (Space.mk space.position space.size none : Space ρ).Fits cfg :=
    ⟨hfits.pos, hfits.lt, by simp⟩
  have hposition : space.position ≤ r.log.file.length := by
    have hproper := Space.extent_proper cfg space
    have hlen := h.laid.length
    have hstart : (space.extent cfg).1 = space.position := rfl
    omega
  constructor
  · exact (h.laid.replace hcfg h.apart hstop hfree rfl rfl).tail
  · exact drop_pwrite hposition
      (Nat.le_of_eq ((congrArg _ (length_freeBytes cfg _ _)).trans (Nat.add_assoc _ _ _).symm))

/-- **Step lemma**: a space that is not of a padded timeout is passed. -/
theorem Walk.space (hcfg : Lawful cfg binaryToTerm) (hdistinct : Distinct retryF)
    {space : Space ρ} (h : Walk cfg retryF (space :: rest) stop asked r)
    (hnot : ∀ chunk ∈ space.chunk?, ¬ PaddedTimeout cfg retryF asked.length chunk) :
    ∃ r', (∀ fuel, chunksRecover cfg binaryToTerm retryF (fuel + 1) r =
        chunksRecover cfg binaryToTerm retryF fuel r') ∧
      Walk cfg retryF rest stop (asked ++ space.chunk?.toList) r' ∧
      r.log.position ≤ r'.log.position ∧
      r'.log.file.drop r'.log.position = r.log.file.drop r'.log.position := by
  have hfits := h.laid.fits space mem_cons_self
  have hholds := h.laid.holds space mem_cons_self
  have hfreed := h.freed hcfg
  obtain ⟨hstart, hchain⟩ := h.chain
  obtain ⟨position, size, request⟩ := space
  obtain rfl : position = r.log.position := hstart
  have hle : r.log.position ≤ r.log.position + cfg.overhead + size := by omega
  have hnumber : ∀ fuel, chunksRecover cfg binaryToTerm retryF (fuel + 1) r =
      (chunkRecover cfg binaryToTerm retryF size { r with fd := r.fd + 8 }).bind
        (chunksRecover cfg binaryToTerm retryF fuel) := fun fuel =>
    chunksRecover_number (readWord_holds (h.fd ▸ Space.holds_size hholds) hfits.lt) hfits.pos
  cases request with
  | none =>
    have hsound : Recovering cfg retryF (asked ++ []) (chunkRecoverFree cfg size r).log := by
      rw [append_nil]
      exact h.sound.free size
    refine ⟨chunkRecoverFree cfg size { r with fd := r.fd + cfg.overhead + size },
      fun fuel => ?_, ⟨?_, ?_, hsound, hchain, h.laid.tail⟩, hle, rfl⟩
    · rw [hnumber, chunkRecover_free (h.fd ▸ hholds)]
      rfl
    · show r.fd + cfg.overhead + size = r.log.position + cfg.overhead + size
      rw [h.fd]
    · show r.calls = (asked ++ []).length
      rw [append_nil, h.calls]
  | some request =>
    have hused := hfits.used request rfl
    have hpadded := hnot _ rfl
    have hrecover : chunkRecover cfg binaryToTerm retryF size { r with fd := r.fd + 8 } = _ :=
      chunkRecover_used hcfg
      (h.fd ▸ hholds : Holds r.log.file r.fd (chunkBytes cfg size (cfg.termToBinary request)))
      hused
    have hcalls : asked.length + 1 = (asked ++
        [({ size, position := r.log.position, request } : Chunk ρ)]).length := by simp
    cases hretry : retryF asked.length request true with
    | none =>
      have hsize : (cfg.termToBinary request).length = size := by
        by_contra hne
        exact hpadded ⟨hretry, Nat.lt_of_le_of_ne hused hne⟩
      rw [hsize] at hrecover
      have htimeout : Recovering cfg retryF
          (asked ++ [{ size, position := r.log.position, request }]) r.log :=
        h.sound.timeout hretry
      have hsound := htimeout.withFile (chunkFree cfg size r.log.position r.log.file)
      refine ⟨_, fun fuel => ?_, ⟨?_, ?_, hsound.free (r := ⟨_, r.fd + cfg.overhead + size,
        asked.length + 1⟩) size, hchain, hfreed.1⟩, hle, hfreed.2⟩
      · rw [hnumber, hrecover, h.calls, hretry]
        rfl
      · show r.fd + cfg.overhead + size = r.log.position + cfg.overhead + size
        rw [h.fd]
      · exact hcalls
    | some id =>
      have hput : Recovering cfg retryF
          (asked ++ [{ size, position := r.log.position, request }]) _ :=
        h.sound.put hdistinct rfl hretry
      refine ⟨⟨_, r.log.position + cfg.overhead + size, asked.length + 1⟩, fun fuel => ?_,
        ⟨rfl, hcalls, hput, hchain, h.laid.tail⟩, hle, rfl⟩
      rw [hnumber, hrecover, h.calls, hretry, bind_some, chunkRetried]
      by_cases hsize : size = (cfg.termToBinary request).length
      · rw [if_pos hsize, ← hsize, h.fd]
      · have hend : r.log.position + cfg.overhead + (cfg.termToBinary request).length +
            (size - (cfg.termToBinary request).length) = r.log.position + cfg.overhead + size := by
          have hle : (cfg.termToBinary request).length ≤ size := hused
          omega
        rw [if_neg hsize, h.fd]
        simp only [hend]

/-- **Run lemma**: the spaces in front of the first padded timeout are passed. -/
theorem Walk.spaces (hcfg : Lawful cfg binaryToTerm) (hdistinct : Distinct retryF)
    {l : List (Space ρ)} (h : Walk cfg retryF (l ++ rest) stop asked r)
    (hnot : ∀ i chunk, (l.filterMap Space.chunk?)[i]? = some chunk →
      ¬ PaddedTimeout cfg retryF (asked.length + i) chunk) :
    ∃ r', (∀ fuel, chunksRecover cfg binaryToTerm retryF (fuel + l.length) r =
        chunksRecover cfg binaryToTerm retryF fuel r') ∧
      Walk cfg retryF rest stop (asked ++ l.filterMap Space.chunk?) r' ∧
      r.log.position ≤ r'.log.position ∧
      r'.log.file.drop r'.log.position = r.log.file.drop r'.log.position := by
  induction l generalizing asked r with
  | nil => exact ⟨r, fun _ => rfl, by simpa using h, Nat.le_refl _, rfl⟩
  | cons space l ih =>
    have hcons : (space :: l).filterMap Space.chunk? =
        space.chunk?.toList ++ l.filterMap Space.chunk? := by
      cases hchunk : space.chunk? with
      | none => simp [hchunk]
      | some chunk => simp [hchunk]
    rw [hcons] at hnot
    obtain ⟨r₁, hstep, hwalk, hle₁, hdrop₁⟩ := h.space hcfg hdistinct fun chunk hchunk =>
      hnot 0 chunk (by rw [hchunk]; rfl)
    obtain ⟨r₂, hrun, hwalk', hle₂, hdrop₂⟩ := ih hwalk fun i chunk hi => by
      rw [length_append, Nat.add_assoc]
      refine hnot (space.chunk?.toList.length + i) chunk ?_
      rwa [getElem?_append_right (Nat.le_add_right _ _), Nat.add_sub_cancel_left]
    refine ⟨r₂, fun fuel => ?_, ?_, Nat.le_trans hle₁ hle₂, ?_⟩
    · rw [← hrun fuel, ← hstep (fuel + l.length)]
      rfl
    · rw [hcons, ← append_assoc]
      exact hwalk'
    · obtain ⟨k, hk⟩ := Nat.exists_eq_add_of_le hle₂
      rw [hdrop₂, hk, ← drop_drop, hdrop₁, drop_drop]

theorem freeBytes_add (cfg : Config ρ) (written m n : Nat) :
    freeBytes cfg written (m + n) = freeBytes cfg written m ++ List.replicate n 0 := by
  rw [freeBytes, freeBytes, replicate_add, ← append_assoc]

/-- The padding of a chunk is zeros, and so are the bytes of the freed chunk there. -/
theorem Walk.drop_padding (hcfg : Lawful cfg binaryToTerm) {space : Space ρ}
    (h : Walk cfg retryF (space :: rest) stop asked r) (hrequest : space.request = some request) :
    (chunkFree cfg space.size space.position r.log.file).drop
        (space.position + cfg.overhead + (cfg.termToBinary request).length) =
      r.log.file.drop (space.position + cfg.overhead + (cfg.termToBinary request).length) := by
  have hfits := h.laid.fits space mem_cons_self
  have hholds := h.laid.holds space mem_cons_self
  have hused := hfits.used request hrequest
  rw [Space.bytes, hrequest] at hholds
  have hpadding := (holds_append hholds).2
  have hposition : space.position ≤ r.log.file.length := by
    have hproper := Space.extent_proper cfg space
    have hlen := h.laid.length
    have hstart : (space.extent cfg).1 = space.position := rfl
    have hstop : (space.extent cfg).2 ≤ stop :=
      h.chain.2.le_stop fun x _ => Space.extent_proper cfg x
    omega
  have hfreed : Holds (chunkFree cfg space.size space.position r.log.file) space.position
      (freeBytes cfg space.size space.size) := holds_pwrite_self hposition _
  have hzeros : freeBytes cfg space.size space.size =
      freeBytes cfg space.size (cfg.termToBinary request).length ++
        List.replicate (space.size - (cfg.termToBinary request).length) 0 := by
    rw [← freeBytes_add, Nat.add_sub_cancel' hused]
  rw [hzeros] at hfreed
  have hend := (holds_append hfreed).2
  rw [length_freeBytes, ← Nat.add_assoc] at hend
  simp only [length_append, Binary.length_bigEndian, hcfg.length_checksum, ← Nat.add_assoc]
    at hpadding
  have hstart : space.position + 8 + 8 + cfg.checksumSize + (cfg.termToBinary request).length =
      space.position + cfg.overhead + (cfg.termToBinary request).length := by
    rw [Config.overhead]
    omega
  rw [hstart] at hpadding
  have hrest : space.position + cfg.overhead + (cfg.termToBinary request).length +
      (space.size - (cfg.termToBinary request).length) =
        space.position + cfg.overhead + space.size := by omega
  rw [hend.drop_eq, hpadding.drop_eq, length_replicate, hrest, (h.freed hcfg).2]

/-- **A padded timeout ends the recovery** where zeros follow the data. -/
theorem Walk.stops (hcfg : Lawful cfg binaryToTerm) {space : Space ρ}
    (h : Walk cfg retryF (space :: rest) stop asked r) (hchunk : space.chunk? = some chunk)
    (htimeout : retryF asked.length chunk.request true = none)
    (hends : readWord (r.log.file.drop (chunk.position + cfg.overhead +
      (cfg.termToBinary chunk.request).length)) = .number 0) :
    ∃ log, (∀ fuel, chunksRecover cfg binaryToTerm retryF (fuel + 2) r = some log) ∧
      Recovering cfg retryF (asked ++ [chunk]) log := by
  obtain ⟨request, hrequest, rfl⟩ := map_eq_some_iff.mp hchunk
  have hfits := h.laid.fits space mem_cons_self
  have hholds := h.laid.holds space mem_cons_self
  have hdrop := h.drop_padding hcfg hrequest
  obtain ⟨hstart, -⟩ := h.chain
  obtain ⟨position, size, _⟩ := space
  obtain rfl : position = r.log.position := hstart
  subst hrequest
  have hrecover : chunkRecover cfg binaryToTerm retryF size { r with fd := r.fd + 8 } = _ :=
    chunkRecover_used hcfg
    (h.fd ▸ hholds : Holds r.log.file r.fd (chunkBytes cfg size (cfg.termToBinary request)))
    (hfits.used request rfl)
  have hsize : Holds r.log.file r.fd (Binary.bigEndian 8 size) := by
    rw [h.fd]
    exact Space.holds_size hholds
  have hsound := (h.sound.timeout htimeout).withFile (chunkFree cfg size r.log.position r.log.file)
  refine ⟨_, fun fuel => ?_, hsound.free (r := ⟨_, r.log.position + cfg.overhead +
    (cfg.termToBinary request).length, asked.length + 1⟩) size⟩
  have hword : readWord ((chunkFree cfg size r.log.position r.log.file).drop
      (r.log.position + cfg.overhead + (cfg.termToBinary request).length)) = .number 0 := by
    have hends' : readWord (r.log.file.drop (r.log.position + cfg.overhead +
      (cfg.termToBinary request).length)) = .number 0 := hends
    rw [← hends', ← hdrop]
  rw [chunksRecover_number (readWord_holds hsize hfits.lt) hfits.pos, hrecover, h.fd, h.calls,
    htimeout]
  show chunksRecover cfg binaryToTerm retryF (fuel + 1) (chunkRecoverFree cfg size _) = _
  rw [chunksRecover]
  simp only [chunkRecoverFree, hword]

end CloudI.WriteAheadLogging
