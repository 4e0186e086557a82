import CloudI.WriteAheadLogging.Basic
import CloudI.Library.Tiling
import CloudI.Library.Run

/-!
# WriteAheadLogging.Accounting

The space of the write-ahead log under the operations of `cloudi_service_queue`.
A chunk is started, and then it is ended under an id or it fails.  The extents of
the stored, the started and the free chunks tile the file up to its position.
-/

namespace CloudI.WriteAheadLogging

open CloudI.Lists Tiling Run List Option Function

variable {ι ρ : Type} [LinearOrder ι] {cfg : Config ρ} {id id' : ι}

/-! ## the operations as they are issued -/

/-- The log, the chunks that are started but not ended, and the requests that are
stored: those that were stored, or renamed, and not erased.  No operation reads
`live`. -/
structure System (ι ρ : Type) [LinearOrder ι] where
  log : State ι ρ := {}
  started : List (Chunk ρ) := []
  live : ι → Option ρ := fun _ => none

/-- An operation.  `storeEnd` and `storeFail` name the chunk by its index. -/
inductive Event (ι ρ : Type) where
  | storeStart (request : ρ)
  | storeEnd (i : Nat) (chunkId : ι)
  | storeFail (i : Nat)
  | erase (chunkId : ι)
  | eraseRetry (chunkId : ι) (retryMax : Nat) (retryF : ρ → Bool → Option ι)
  | update (chunkId : ι) (updateF : ρ → Option (ι × ρ))

/-- An id that is not stored, or is the old one. -/
def Fresh (s : State ι ρ) (chunkId newChunkId : ι) : Prop :=
  newChunkId = chunkId ∨ Maps.find newChunkId s.chunks = none

instance (s : State ι ρ) (chunkId newChunkId : ι) : Decidable (Fresh s chunkId newChunkId) := by
  unfold Fresh
  infer_instance

/-- The stored requests with one of them renamed, and possibly changed. -/
def rename (live : ι → Option ρ) (chunkId newChunkId : ι) (request : ρ) : ι → Option ρ :=
  Function.update (Function.update live chunkId none) newChunkId (some request)

/-- A step; `none` is an operation that is not issued: of an id that is not stored,
or with a new id that already is. -/
def next (cfg : Config ρ) (s : System ι ρ) :
    Event ι ρ → Option (System ι ρ)
  | .storeStart request =>
      match storeStart cfg request s.log with
      | none => some s
      | some (chunk, log) => some { s with log, started := chunk :: s.started }
  | .storeEnd i chunkId =>
      match s.started[i]?, Maps.find chunkId s.log.chunks with
      | some chunk, none =>
          some { log := storeEnd chunkId chunk s.log
                 started := s.started.eraseIdx i
                 live := Function.update s.live chunkId (some chunk.request) }
      | _, _ => none
  | .storeFail i =>
      s.started[i]?.map fun chunk =>
        { s with log := storeFail cfg chunk s.log, started := s.started.eraseIdx i }
  | .erase chunkId =>
      (erase cfg chunkId s.log).map fun x =>
        { s with log := x.2, live := Function.update s.live chunkId none }
  | .eraseRetry chunkId retryMax retryF =>
      match Maps.find chunkId s.log.chunks, eraseRetry cfg chunkId retryMax retryF s.log with
      | some chunk, some log =>
          match retryF chunk.request (chunk.retries < retryMax) with
          | none => some { s with log, live := Function.update s.live chunkId none }
          | some newChunkId =>
              if Fresh s.log chunkId newChunkId then
                some { s with log, live := rename s.live chunkId newChunkId chunk.request }
              else none
      | _, _ => none
  | .update chunkId updateF =>
      match Maps.find chunkId s.log.chunks, update cfg chunkId updateF s.log with
      | some chunk, some (_, log) =>
          match updateF chunk.request with
          | none => some { s with log, live := Function.update s.live chunkId none }
          | some (newChunkId, request) =>
              if Fresh s.log chunkId newChunkId then
                some { s with log, live := rename s.live chunkId newChunkId request }
              else none
      | _, _ => none

/-! ## the accounting -/

/-- The extent of space of a size at a position: the header and the bytes. -/
def extentAt (cfg : Config ρ) (size position : Nat) : Nat × Nat :=
  (position, position + cfg.overhead + size)

/-- The extent of a chunk. -/
def extent (cfg : Config ρ) (chunk : Chunk ρ) : Nat × Nat :=
  extentAt cfg chunk.size chunk.position

/-- The extent of a free chunk. -/
def freeExtent (cfg : Config ρ) (chunk : FreeChunk) : Nat × Nat :=
  extentAt cfg (ofLex chunk).1 (ofLex chunk).2

/-- The extents of the stored chunks. -/
def storedExtents (cfg : Config ρ) (chunks : ErlMap ι (Chunk ρ)) : List (Nat × Nat) :=
  (Maps.toList chunks).map fun x => extent cfg x.2

/-- The extents of all chunks. -/
def extents (cfg : Config ρ) (s : System ι ρ) : List (Nat × Nat) :=
  storedExtents cfg s.log.chunks ++ s.started.map (extent cfg) ++
    s.log.chunksFree.map (freeExtent cfg)

/-- **The accounting**: the extents tile the file up to the position, two ids do not
share one, and the stored requests are those that are live. -/
structure Accounted (cfg : Config ρ) (s : System ι ρ) : Prop where
  tiles : Tiles (extents cfg s) s.log.position
  apart : ∀ id id' chunk chunk', Maps.find id s.log.chunks = some chunk →
    Maps.find id' s.log.chunks = some chunk' → id ≠ id' → Apart (extent cfg chunk) (extent cfg chunk')
  live : ∀ id, (Maps.find id s.log.chunks).map (·.request) = s.live id

/-- The condition on a step: an update keeps the id of the chunk. -/
def KeepsId (s : System ι ρ) : Event ι ρ → Prop
  | .update chunkId updateF => ∀ chunk, Maps.find chunkId s.log.chunks = some chunk →
      ∀ newChunkId request, updateF chunk.request = some (newChunkId, request) →
        newChunkId = chunkId
  | _ => True

/-! ## space -/

theorem extentAt_proper (cfg : Config ρ) (size position : Nat) :
    (extentAt cfg size position).1 < (extentAt cfg size position).2 := by
  simp only [extentAt, Config.overhead]
  omega

/-- An erased chunk is given back: at the end, or to the free list. -/
theorem eraseChunk_spec {chunk : Chunk ρ} {s : State ι ρ}
    (h : Tiles (extent cfg chunk :: (l ++ s.chunksFree.map (freeExtent cfg))) s.position) :
    Tiles (l ++ (eraseChunk cfg chunk s).chunksFree.map (freeExtent cfg))
      (eraseChunk cfg chunk s).position := by
  rw [eraseChunk]
  by_cases hlast : chunk.position + cfg.overhead + chunk.size = s.position
  · rw [if_pos hlast]
    have hextent : extent cfg chunk = (chunk.position, s.position) := by
      rw [extent, extentAt, hlast]
    rw [hextent] at h
    exact h.shrink
  · rw [if_neg hlast]
    have hnot : toLex (chunk.size, chunk.position) ∉ s.chunksFree := by
      intro hmem
      have hin : extent cfg chunk ∈ l ++ s.chunksFree.map (freeExtent cfg) :=
        mem_append_right l (List.mem_map_of_mem (f := freeExtent cfg) hmem)
      have hproper := extentAt_proper cfg chunk.size chunk.position
      have happart := (pairwise_cons.mp h.apart).1 _ hin
      rcases happart with happart | happart <;> exact absurd hproper (Nat.not_lt.mpr happart)
    have hperm := (perm_uinsert hnot).map (freeExtent cfg)
    refine h.perm (List.Perm.trans ?_ (hperm.append_left l).symm)
    rw [map_cons]
    exact perm_middle.symm

theorem eraseChunk_chunks (chunk : Chunk ρ) (s : State ι ρ) :
    (eraseChunk cfg chunk s).chunks = s.chunks := by
  rw [eraseChunk]
  by_cases hlast : chunk.position + cfg.overhead + chunk.size = s.position
  · rw [if_pos hlast]
  · rw [if_neg hlast]

theorem chunkFreeCheck_perm (h : chunkFreeCheck n chunksFree l = some (chunk, rest)) :
    (l.reverse ++ chunksFree).Perm (chunk :: rest) := by
  induction chunksFree generalizing l with
  | nil => cases h
  | cons c chunksFree ih =>
    rw [chunkFreeCheck] at h
    by_cases hsize : (ofLex c).1 ≥ n
    · rw [if_pos hsize] at h
      cases h
      exact perm_middle
    · rw [if_neg hsize] at h
      have ih' := ih h
      rwa [reverse_cons, append_assoc] at ih'

/-- A written request has space of its own: from the free list, or at the end. -/
theorem writeRequest_spec {s s' : State ι ρ}
    (h : Tiles (l ++ s.chunksFree.map (freeExtent cfg)) s.position)
    (hwrite : writeRequest cfg limit request s = some (chunk, s')) :
    Tiles (extent cfg chunk :: (l ++ s'.chunksFree.map (freeExtent cfg))) s'.position ∧
      s'.chunks = s.chunks ∧ chunk.request = request := by
  rw [writeRequest] at hwrite
  cases hcheck : chunkFreeCheck (cfg.termToBinary request).length s.chunksFree [] with
  | none =>
    simp only [hcheck] at hwrite
    by_cases hfull : limit.any
        (s.position + cfg.overhead + (cfg.termToBinary request).length > ·) = true
    · rw [if_pos hfull] at hwrite
      cases hwrite
    · rw [if_neg hfull] at hwrite
      cases hwrite
      exact ⟨h.extend (extentAt_proper cfg _ s.position), rfl, rfl⟩
  | some x =>
    obtain ⟨free, rest⟩ := x
    simp only [hcheck] at hwrite
    cases hwrite
    have hperm := (chunkFreeCheck_perm hcheck).map (freeExtent cfg)
    refine ⟨h.perm ((hperm.append_left l).trans ?_), rfl, rfl⟩
    rw [map_cons]
    exact perm_middle

/-! ## the stored chunks -/

variable {chunks : ErlMap ι (Chunk ρ)} {s s' : System ι ρ}
  {live : ι → Option ρ}

theorem storedExtents_put (h : Maps.find id chunks = none) (chunk : Chunk ρ) :
    (storedExtents cfg (Maps.put id chunk chunks)).Perm
      (extent cfg chunk :: storedExtents cfg chunks) :=
  (Maps.toList_put_perm h chunk).map _

theorem storedExtents_remove (h : Maps.find id chunks = some chunk) :
    (storedExtents cfg chunks).Perm
      (extent cfg chunk :: storedExtents cfg (Maps.remove id chunks)) :=
  (Maps.toList_remove_perm h).map _

theorem apart_of_tiles (h : Tiles (storedExtents cfg chunks ++ l) stop)
    (hid : Maps.find id chunks = some chunk) (hid' : Maps.find id' chunks = some chunk')
    (hne : id ≠ id') : Apart (extent cfg chunk) (extent cfg chunk') := by
  have hmem : (id', chunk') ∈ Maps.toList (Maps.remove id chunks) := by
    rw [Maps.mem_toList, Maps.find_remove, if_neg hne, hid']
  have hperm := h.perm ((storedExtents_remove hid).append_right l)
  refine (pairwise_cons.mp hperm.apart).1 _ (mem_append_left l ?_)
  exact List.mem_map_of_mem (f := fun x => extent cfg x.2) hmem

theorem Accounted.of_tiles (htiles : Tiles (extents cfg s) s.log.position)
    (hlive : ∀ id, (Maps.find id s.log.chunks).map (·.request) = s.live id) : Accounted cfg s where
  tiles := htiles
  apart := by
    intro id id' chunk chunk' hid hid' hne
    rw [extents, append_assoc] at htiles
    exact apart_of_tiles htiles hid hid' hne
  live := hlive

/-! ## steps -/

theorem tiles_erase (h : Tiles (extents cfg s) s.log.position)
    (hid : Maps.find id s.log.chunks = some chunk) :
    Tiles ((storedExtents cfg (Maps.remove id s.log.chunks) ++ s.started.map (extent cfg)) ++
      (eraseChunk cfg chunk s.log).chunksFree.map (freeExtent cfg))
      (eraseChunk cfg chunk s.log).position := by
  rw [extents] at h
  exact eraseChunk_spec (h.perm (((storedExtents_remove hid).append_right _).append_right _))

theorem live_remove (h : ∀ id, (Maps.find id chunks).map (·.request) = live id) (k : ι) :
    (Maps.find k (Maps.remove id chunks)).map (·.request) = Function.update live id none k := by
  rw [Maps.find_remove, update_apply]
  by_cases hk : id = k
  · rw [if_pos hk, if_pos hk.symm]
    rfl
  · rw [if_neg hk, if_neg (Ne.symm hk)]
    exact h k

theorem live_put (h : ∀ id, (Maps.find id chunks).map (·.request) = live id) (chunk : Chunk ρ)
    (k : ι) : (Maps.find k (Maps.put id chunk chunks)).map (·.request) =
      Function.update live id (some chunk.request) k := by
  rw [Maps.find_put, update_apply]
  by_cases hk : id = k
  · rw [if_pos hk, if_pos hk.symm]
    rfl
  · rw [if_neg hk, if_neg (Ne.symm hk)]
    exact h k

theorem perm_eraseIdx {l : List α} (h : l[i]? = some x) : l.Perm (x :: l.eraseIdx i) := by
  induction l generalizing i with
  | nil => cases h
  | cons y l ih =>
    cases i with
    | zero =>
      cases h
      exact List.Perm.refl _
    | succ i => exact ((ih h).cons y).trans (List.Perm.swap x y _)

section

variable (hs : Accounted cfg s)

include hs

/-- **Step lemma**: a chunk is started. -/
theorem Accounted.storeStart {request : ρ} (h : next cfg s (.storeStart request) = some s')
    : Accounted cfg s' := by
  rw [next] at h
  cases hstart : WriteAheadLogging.storeStart cfg request s.log with
  | none =>
    rw [hstart] at h
    cases h
    exact hs
  | some x =>
    obtain ⟨chunk, log⟩ := x
    rw [hstart] at h
    cases h
    obtain ⟨htiles, hchunks, -⟩ := writeRequest_spec hs.tiles hstart
    refine Accounted.of_tiles (htiles.perm ?_) (fun k => ?_)
    · rw [extents, hchunks, map_cons]
      exact (perm_middle.symm).append_right _
    · rw [hchunks]
      exact hs.live k

/-- **Step lemma**: a started chunk is stored. -/
theorem Accounted.storeEnd (h : next cfg s (.storeEnd i id) = some s') : Accounted cfg s' := by
  rw [next] at h
  cases hi : s.started[i]? with
  | none =>
    rw [hi] at h
    cases h
  | some chunk =>
    cases hid : Maps.find id s.log.chunks with
    | some chunk' =>
      rw [hi, hid] at h
      cases h
    | none =>
      rw [hi, hid] at h
      cases h
      refine Accounted.of_tiles (hs.tiles.perm ?_) (live_put hs.live chunk)
      have hstarted := (perm_eraseIdx hi).map (extent cfg)
      have hstored : (storedExtents cfg (Maps.put id chunk s.log.chunks)).Perm
          (extent cfg chunk :: storedExtents cfg s.log.chunks) := storedExtents_put hid chunk
      have hmove : (storedExtents cfg s.log.chunks ++ s.started.map (extent cfg)).Perm
          (storedExtents cfg (Maps.put id chunk s.log.chunks) ++
            (s.started.eraseIdx i).map (extent cfg)) := by
        refine (hstarted.append_left _).trans ?_
        rw [map_cons]
        exact perm_middle.trans (hstored.symm.append_right _)
      exact hmove.append_right _

/-- **Step lemma**: a started chunk fails. -/
theorem Accounted.storeFail (h : next cfg s (.storeFail i) = some s') : Accounted cfg s' := by
  rw [next, map_eq_some_iff] at h
  obtain ⟨chunk, hi, rfl⟩ := h
  have hstarted := (perm_eraseIdx hi).map (extent cfg)
  have hmove : (extents cfg s).Perm (extent cfg chunk ::
      ((storedExtents cfg s.log.chunks ++ (s.started.eraseIdx i).map (extent cfg)) ++
        s.log.chunksFree.map (freeExtent cfg))) := by
    refine ((hstarted.append_left _).append_right _).trans ?_
    rw [map_cons]
    exact perm_middle.append_right _
  have htiles := eraseChunk_spec (hs.tiles.perm hmove)
  refine Accounted.of_tiles ?_ (fun k => ?_)
  · rw [extents]
    simp only [WriteAheadLogging.storeFail, eraseChunk_chunks]
    exact htiles
  · simp only [WriteAheadLogging.storeFail, eraseChunk_chunks]
    exact hs.live k

theorem Accounted.of_erase (hid : Maps.find id s.log.chunks = some chunk) : Accounted cfg { s with
      log := { eraseChunk cfg chunk s.log with chunks := Maps.remove id s.log.chunks }
      live := Function.update s.live id none } :=
  Accounted.of_tiles (tiles_erase hs.tiles hid) (live_remove hs.live)

/-- **Step lemma**: an erase. -/
theorem Accounted.erase (h : next cfg s (.erase id) = some s') : Accounted cfg s' := by
  rw [next, WriteAheadLogging.erase, Maps.take] at h
  cases hid : Maps.find id s.log.chunks with
  | none =>
    rw [hid] at h
    cases h
  | some chunk =>
    rw [hid] at h
    cases h
    exact hs.of_erase hid

end

theorem next_eraseRetry_eq_some (h : next cfg s (.eraseRetry id retryMax retryF) = some s') :
    ∃ chunk, Maps.find id s.log.chunks = some chunk ∧ (s' = { s with
          log := { eraseChunk cfg chunk s.log with chunks := Maps.remove id s.log.chunks }
          live := Function.update s.live id none } ∨
        ∃ newId, Maps.find newId (Maps.remove id s.log.chunks) = none ∧ s' = { s with
          log := { s.log with
            chunks := Maps.put newId { chunk with retries := chunk.retries + 1 }
                        (Maps.remove id s.log.chunks) }
          live := rename s.live id newId chunk.request }) := by
  rw [next, WriteAheadLogging.eraseRetry, Maps.take] at h
  cases hid : Maps.find id s.log.chunks with
  | none =>
    rw [hid] at h
    cases h
  | some chunk =>
    refine ⟨chunk, rfl, ?_⟩
    simp only [hid, map_some] at h
    cases hretry : retryF chunk.request (chunk.retries < retryMax) with
    | none =>
      simp only [hretry] at h
      cases h
      exact .inl rfl
    | some newId =>
      simp only [hretry] at h
      by_cases hfresh : Fresh s.log id newId
      · rw [if_pos hfresh] at h
        cases h
        refine .inr ⟨newId, ?_, rfl⟩
        rw [Maps.find_remove]
        rcases hfresh with rfl | hfresh
        · exact if_pos rfl
        · rw [hfresh, ite_self]
      · rw [if_neg hfresh] at h
        cases h

/-- **Step lemma**: an erase with a retry. -/
theorem Accounted.eraseRetry (hs : Accounted cfg s)
    (h : next cfg s (.eraseRetry id retryMax retryF) = some s') : Accounted cfg s' := by
  obtain ⟨chunk, hid, rfl | ⟨newId, hnone, rfl⟩⟩ := next_eraseRetry_eq_some h
  · exact hs.of_erase hid
  · refine Accounted.of_tiles (hs.tiles.perm ?_) (live_put (live_remove hs.live) _)
    refine ((storedExtents_remove hid).trans ?_).append_right _ |>.append_right _
    exact (storedExtents_put hnone { chunk with retries := chunk.retries + 1 }).symm

theorem next_update_eq_some (h : next cfg s (.update id updateF) = some s') :
    ∃ chunk, Maps.find id s.log.chunks = some chunk ∧ ((updateF chunk.request = none ∧ s' = { s with
          log := { eraseChunk cfg chunk s.log with chunks := Maps.remove id s.log.chunks }
          live := Function.update s.live id none }) ∨
        ∃ newId request newChunk log, updateF chunk.request = some (newId, request) ∧
          Fresh s.log id newId ∧
          writeRequest cfg none request (eraseChunk cfg chunk s.log) = some (newChunk, log) ∧
          s' = { s with log := { log with chunks := Maps.put newId newChunk s.log.chunks }
                        live := rename s.live id newId request }) := by
  rw [next] at h
  cases hid : Maps.find id s.log.chunks with
  | none =>
    rw [hid] at h
    cases h
  | some chunk =>
    refine ⟨chunk, rfl, ?_⟩
    cases hupdate : updateF chunk.request with
    | none =>
      simp only [hid, WriteAheadLogging.update, hupdate, WriteAheadLogging.erase, Maps.take,
        map_some] at h
      cases h
      exact .inl ⟨rfl, rfl⟩
    | some x =>
      obtain ⟨newId, request⟩ := x
      simp only [hid, WriteAheadLogging.update, hupdate] at h
      cases hwrite : writeRequest cfg none request (eraseChunk cfg chunk s.log) with
      | none =>
        rw [hwrite] at h
        cases h
      | some y =>
        obtain ⟨newChunk, log⟩ := y
        rw [hwrite] at h
        simp only [map_some, hupdate] at h
        by_cases hfresh : Fresh s.log id newId
        · rw [if_pos hfresh] at h
          cases h
          exact .inr ⟨newId, request, newChunk, log, rfl, hfresh, hwrite, rfl⟩
        · rw [if_neg hfresh] at h
          cases h

/-- **Step lemma**: an update that keeps the id. -/
theorem Accounted.update (hs : Accounted cfg s) (hkeeps : KeepsId s (.update id updateF))
    (h : next cfg s (.update id updateF) = some s') : Accounted cfg s' := by
  obtain ⟨chunk, hid, ⟨-, rfl⟩ | ⟨newId, request, newChunk, log, hupdate, -, hwrite, rfl⟩⟩ :=
    next_update_eq_some h
  · exact hs.of_erase hid
  · obtain rfl := hkeeps chunk hid newId request hupdate
    obtain ⟨htiles, hchunks, hrequest⟩ := writeRequest_spec (tiles_erase hs.tiles hid) hwrite
    have hnone : Maps.find newId (Maps.remove newId s.log.chunks) = none := by simp
    refine Accounted.of_tiles (htiles.perm ?_) ?_
    · rw [extents, ← Maps.put_remove]
      exact ((storedExtents_put hnone newChunk).symm.append_right _).append_right _
    · intro k
      have hremove : ∀ j, (Maps.find j (Maps.remove newId s.log.chunks)).map (·.request) =
          Function.update s.live newId none j := live_remove hs.live
      have hput : (Maps.find k (Maps.put newId newChunk (Maps.remove newId s.log.chunks))).map
          (·.request) = _ := live_put hremove newChunk k
      rwa [Maps.put_remove, hrequest] at hput

/-- An update that does not keep the id leaves the old one stored. -/
theorem KeepsId.of_accounted (hs : Accounted cfg s')
    (h : next cfg s (.update id updateF) = some s') : KeepsId s (.update id updateF) := by
  obtain ⟨chunk, hid, ⟨hupdate, -⟩ | ⟨newId, request, newChunk, log, hupdate, -, -, rfl⟩⟩ :=
    next_update_eq_some h
  · intro chunk' hid' newId request hsome
    rw [hid] at hid'
    cases hid'
    rw [hupdate] at hsome
    cases hsome
  · intro chunk' hid' newId' request' hsome
    rw [hid] at hid'
    cases hid'
    rw [hupdate] at hsome
    cases hsome
    by_contra hne
    have hold := hs.live id
    simp only [rename, Maps.find_put, if_neg hne, hid, update_of_ne (Ne.symm hne),
      update_self] at hold
    cases hold

/-- **Step lemma**: the accounting is kept exactly by the steps that meet the condition. -/
theorem Accounted.next_iff (hs : Accounted cfg s) (h : next cfg s event = some s') :
    Accounted cfg s' ↔ KeepsId s event := by
  cases event with
  | storeStart request => exact ⟨fun _ => trivial, fun _ => hs.storeStart h⟩
  | storeEnd i id => exact ⟨fun _ => trivial, fun _ => hs.storeEnd h⟩
  | storeFail i => exact ⟨fun _ => trivial, fun _ => hs.storeFail h⟩
  | erase id => exact ⟨fun _ => trivial, fun _ => hs.erase h⟩
  | eraseRetry id retryMax retryF => exact ⟨fun _ => trivial, fun _ => hs.eraseRetry h⟩
  | update id updateF => exact ⟨fun hs' => .of_accounted hs' h, fun hkeeps => hs.update hkeeps h⟩

theorem accounted_new : Accounted cfg ({} : System ι ρ) := by
  refine Accounted.of_tiles tiles_nil fun id => ?_
  show (Maps.find id ∅).map _ = none
  rw [Maps.find_empty]
  rfl

/-- **Space accounting**: in every run whose updates keep the id, the extents tile the
file and the stored requests are the live ones; one more step keeps this exactly
when it is not an update with a new id. -/
theorem space_accounted {events : List (Event ι ρ)} {s : System ι ρ}
    (h : Steps (next cfg) KeepsId {} events s) : Accounted cfg s ∧
      ∀ event s', next cfg s event = some s' → (Accounted cfg s' ↔ KeepsId s event) := by
  have hs : Accounted cfg s := h.invariant
    (fun _ _ _ hs hkeeps hstep => (hs.next_iff hstep).mpr hkeeps) accounted_new
  exact ⟨hs, fun event s' hstep => hs.next_iff hstep⟩

/-- Requests that are numbers, of one byte more than their value. -/
def numbers : Config Nat where
  fileSizeLimit := 1024
  checksumSize := 0
  checksum := fun _ => []
  termToBinary := fun n => List.replicate (n + 1) 1

/-- Two chunks of which the first is erased, its space used again, and the new chunk
renamed by a retry and then updated. -/
def reuseSpace : List (Event Nat Nat) :=
  [.storeStart 3, .storeEnd 0 1, .storeStart 5, .storeEnd 0 2, .erase 1, .storeStart 2,
    .storeEnd 0 3, .eraseRetry 3 1 fun _ _ => some 4, .update 4 fun _ => some (4, 9)]

theorem space_accounted_reuseSpace :
    ∃ s, run (next numbers) {} reuseSpace = some s ∧ s.log.position = 68 ∧ Accounted numbers s := by
  have hsteps : ∃ s, Steps (next numbers) KeepsId {} reuseSpace s ∧ s.log.position = 68 := by
    refine ⟨_, .cons trivial rfl <| .cons trivial rfl <| .cons trivial rfl <| .cons trivial rfl <|
      .cons trivial rfl <| .cons trivial rfl <| .cons trivial rfl <| .cons trivial rfl <|
      .cons ?_ rfl <| .nil _, rfl⟩
    intro chunk _ newId request h
    cases h
    rfl
  obtain ⟨s, hsteps, hposition⟩ := hsteps
  exact ⟨s, hsteps.run_eq, hposition, (space_accounted hsteps).1⟩

/-- **An update with a new id leaves the old one**: both ids are stored, with the
same extent. -/
theorem update_keeps_old_id : ∃ s, run (next numbers) {}
        [.storeStart 0, .storeEnd 0 1, .update 1 fun _ => some (2, 0)] = some s ∧
      (Maps.find 1 s.log.chunks).map (extent numbers) = some (0, 17) ∧
      (Maps.find 2 s.log.chunks).map (extent numbers) = some (0, 17) ∧
      s.live 1 = none ∧ ¬ Accounted numbers s := by
  refine ⟨_, rfl, rfl, rfl, rfl, fun h => ?_⟩
  have hlive := h.live 1
  exact absurd hlive (by decide)

end CloudI.WriteAheadLogging
