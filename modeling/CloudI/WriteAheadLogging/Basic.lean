import CloudI.Erlang.Maps
import CloudI.Erlang.Binary
import Mathlib.Data.Prod.Lex

/-!
# WriteAheadLogging.Basic

`cloudi_write_ahead_logging`: requests persisted as chunks of a file, with the
space of erased chunks on a free list.

The file is its contents; every operation replaces it as a whole (it works on a
copy that is then renamed).  A failed file operation ends the service and is left
out, and so is a position that does not fit in 64 bits.  `none` is a failed match
(`maps:take` or `maps:get` of an id that is not stored).
-/

namespace CloudI.WriteAheadLogging

open CloudI.Lists

/-- `#chunk{}` of a request. -/
structure Chunk (ρ : Type) where
  size : Nat
  position : Nat
  request : ρ
  retries : Nat := 0

/-- `#chunk{}` of `chunks_free`, in its order: the size and the position; the
request is `undefined` and there are no retries. -/
abbrev FreeChunk := Nat ×ₗ Nat

/-- The fields of `#state{}` that do not change, with the codecs that they name:
the compressed `term_to_binary` and the checksum of `checksum_size` bytes. -/
structure Config (ρ : Type) where
  fileSizeLimit : Nat
  checksumSize : Nat
  checksum : Binary → Binary
  termToBinary : ρ → Binary

/-- The fields of `#state{}` that change, and the file. -/
structure State (ι ρ : Type) [LinearOrder ι] where
  position : Nat := 0
  chunks : ErlMap ι (Chunk ρ) := ∅
  chunksFree : List FreeChunk := []
  file : Binary := []

variable {ι ρ : Type} [LinearOrder ι] (cfg : Config ρ)

/-- `?CHUNK_OVERHEAD`. -/
def Config.overhead : Nat := 8 + 8 + cfg.checksumSize

/-! ## the file -/

/-- `file:pwrite/3`: a gap before the position is filled with zeros. -/
def pwrite (position : Nat) (data file : Binary) : Binary :=
  file.take position ++ List.replicate (position - file.length) 0 ++ data ++
    file.drop (position + data.length)

/-- What `chunk_write/7` writes. -/
def chunkWrite (chunkSize : Nat) (chunkData : Binary) (position : Nat) (file : Binary) : Binary :=
  pwrite position
    (Binary.bigEndian 8 chunkSize ++ Binary.bigEndian 8 chunkData.length ++
      cfg.checksum chunkData ++ chunkData ++ List.replicate (chunkSize - chunkData.length) 0) file

def chunkEraseLast (chunkSize position : Nat) (file : Binary) : Binary :=
  pwrite position
    (Binary.bigEndian 8 0 ++ Binary.bigEndian 8 0 ++ List.replicate cfg.checksumSize 0 ++
      List.replicate chunkSize 0) file

def chunkFree (chunkSize position : Nat) (file : Binary) : Binary :=
  pwrite position
    (Binary.bigEndian 8 chunkSize ++ Binary.bigEndian 8 0 ++ List.replicate cfg.checksumSize 0 ++
      List.replicate chunkSize 0) file

/-! ## space -/

def eraseChunk (chunk : Chunk ρ) (s : State ι ρ) : State ι ρ :=
  if chunk.position + cfg.overhead + chunk.size = s.position then
    { s with position := chunk.position
             file := chunkEraseLast cfg chunk.size chunk.position s.file }
  else
    { s with chunksFree := umerge s.chunksFree [toLex (chunk.size, chunk.position)]
             file := chunkFree cfg chunk.size chunk.position s.file }

/-- `chunk_free_check/3`: the first chunk of the free list that is large enough. -/
def chunkFreeCheck (size : Nat) : List FreeChunk → List FreeChunk → Option (FreeChunk × List FreeChunk)
  | [], _ => none
  | chunk :: chunksFree, l =>
      if (ofLex chunk).1 ≥ size then some (chunk, l.reverse ++ chunksFree)
      else chunkFreeCheck size chunksFree (chunk :: l)

/-- A request written to a free chunk or, within the limit if there is one, at the end;
`none` is `full`. -/
def writeRequest (limit : Option Nat) (request : ρ)
    (s : State ι ρ) : Option (Chunk ρ × State ι ρ) :=
  let chunkData := cfg.termToBinary request
  match chunkFreeCheck chunkData.length s.chunksFree [] with
  | none =>
      if limit.any (s.position + cfg.overhead + chunkData.length > ·) then none
      else
        some ({ size := chunkData.length, position := s.position, request },
          { s with position := s.position + cfg.overhead + chunkData.length
                   file := chunkWrite cfg chunkData.length chunkData s.position s.file })
  | some (chunk, newChunksFree) =>
      let size := (ofLex chunk).1
      let position := (ofLex chunk).2
      some ({ size, position, request },
        { s with chunksFree := newChunksFree
                 file := chunkWrite cfg size chunkData position s.file })

/-! ## operations -/

/-- `store_start/2`; `none` is `full`. -/
def storeStart (request : ρ) (s : State ι ρ) : Option (Chunk ρ × State ι ρ) :=
  writeRequest cfg (some cfg.fileSizeLimit) request s

variable (chunkId : ι)

def storeEnd (chunk : Chunk ρ) (s : State ι ρ) : State ι ρ :=
  { s with chunks := Maps.put chunkId chunk s.chunks }

def storeFail (chunk : Chunk ρ) (s : State ι ρ) : State ι ρ :=
  eraseChunk cfg chunk s

variable (s : State ι ρ)

def erase : Option (ρ × State ι ρ) :=
  (Maps.take chunkId s.chunks).map fun (chunk, newChunks) =>
    (chunk.request, { eraseChunk cfg chunk s with chunks := newChunks })

/-- `erase_retry/4`; `retryF` answers the new id, or `none` for `{error, timeout}`. -/
def eraseRetry (retryMax : Nat) (retryF : ρ → Bool → Option ι) (s : State ι ρ) :
    Option (State ι ρ) :=
  (Maps.take chunkId s.chunks).map fun (chunk, newChunks) =>
    match retryF chunk.request (chunk.retries < retryMax) with
    | none => { eraseChunk cfg chunk s with chunks := newChunks }
    | some newChunkId =>
        { s with chunks := Maps.put newChunkId { chunk with retries := chunk.retries + 1 } newChunks }

/-- `update/3`: the new chunk is put into the map that still has the old one. -/
def update
    (updateF : ρ → Option (ι × ρ)) (s : State ι ρ) : Option (Option ρ × State ι ρ) :=
  match Maps.find chunkId s.chunks with
  | none => none
  | some chunk =>
      match updateF chunk.request with
      | none => (erase cfg chunkId s).map fun x => (none, x.2)
      | some (newChunkId, newChunkRequest) =>
          (writeRequest cfg none newChunkRequest (eraseChunk cfg chunk s)).map fun x =>
            (some newChunkRequest, { x.2 with chunks := Maps.put newChunkId x.1 s.chunks })

def fetchKeys : List ι := (Maps.toList s.chunks).map Prod.fst

end CloudI.WriteAheadLogging
