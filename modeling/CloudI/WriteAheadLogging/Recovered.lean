import CloudI.WriteAheadLogging.Recover

/-!
# WriteAheadLogging.Recovered

What a recovery comes to: after every run of the log, and for every retry function
that gives no id twice.

Two things go wrong.  A request that times out and is shorter than the space of its
chunk leaves the read position inside of the chunk.  And a file that ends with fewer
than eight bytes behind the last chunk ends with a read that no clause matches.
-/

namespace CloudI.WriteAheadLogging

open CloudI.Lists Tiling Run Binary List

variable {ι ρ : Type} [LinearOrder ι] {cfg : Config ρ}
  {binaryToTerm : Binary → Option ρ} {retryF : Nat → ρ → Bool → Option ι}

/-! ## the result -/

/-- The order of the positions. -/
def Chunk.Before (chunk chunk' : Chunk ρ) : Prop := chunk.position ≤ chunk'.position

instance : DecidableRel (@Chunk.Before ρ) := fun chunk chunk' =>
  inferInstanceAs (Decidable (chunk.position ≤ chunk'.position))

instance : Std.Total (@Chunk.Before ρ) := ⟨fun _ _ => Nat.le_total _ _⟩

instance : IsTrans (Chunk ρ) Chunk.Before := ⟨fun _ _ _ => Nat.le_trans⟩

/-- The stored chunks in the order of their positions, as they are recovered: without
their retries. -/
def inOrder (s : State ι ρ) : List (Chunk ρ) :=
  ((Maps.toList s.chunks).map fun x => { x.2 with retries := 0 }).insertionSort Chunk.Before

/-- **The recovered log** of a log: the retry function is called with the requests in
order, the chunks are those with an id, and the other extents up to the position are
free. -/
def Recovered (cfg : Config ρ) (retryF : Nat → ρ → Bool → Option ι) (s s' : State ι ρ) : Prop :=
  Recovering cfg retryF (inOrder s) s'

/-- `new/5` ends, with the recovered log. -/
def Recovers (cfg : Config ρ) (binaryToTerm : Binary → Option ρ)
    (retryF : Nat → ρ → Bool → Option ι) (s : State ι ρ) : Prop :=
  ∃ fuel s', new cfg binaryToTerm retryF fuel s.file = some s' ∧ Recovered cfg retryF s s'

/-- Eight zeros follow the data of a chunk in the file. -/
def EndsBehind (cfg : Config ρ) (s : State ι ρ) (chunk : Chunk ρ) : Prop :=
  readWord (s.file.drop (chunk.position + cfg.overhead +
    (cfg.termToBinary chunk.request).length)) = .number 0

/-- No request from an index on has an id. -/
def NoIdFrom (retryF : Nat → ρ → Bool → Option ι) (s : State ι ρ) (i : Nat) : Prop :=
  ∀ j chunk, i ≤ j → (inOrder s)[j]? = some chunk → retryF j chunk.request true = none

/-- **The condition**: where the request of a padded chunk times out, eight zeros follow
its data and no later request has an id; without such a chunk, the bytes behind the
position are none or at least eight. -/
structure Readable (cfg : Config ρ) (retryF : Nat → ρ → Bool → Option ι)
    (s : State ι ρ) : Prop where
  padded : ∀ i chunk, (inOrder s)[i]? = some chunk → PaddedTimeout cfg retryF i chunk →
    EndsBehind cfg s chunk ∧ NoIdFrom retryF s (i + 1)
  tail : (∀ i chunk, (inOrder s)[i]? = some chunk → ¬ PaddedTimeout cfg retryF i chunk) →
    s.file.length = s.position ∨ s.position + 8 ≤ s.file.length

/-! ## the order -/

theorem filterMap_chunk? {s : System ι ρ} (hstarted : s.started = [])
    {l : List (Space ρ)} (hperm : l.Perm (spaces s))
    (hchain : Chain (Space.extent cfg) 0 l stop) : l.filterMap Space.chunk? = inOrder s.log := by
  have hstored : (spaces s).filterMap Space.chunk? =
      (Maps.toList s.log.chunks).map fun x => { x.2 with retries := 0 } := by
    have hfree : ∀ free : List FreeChunk,
        (free.map freeSpace).filterMap (@Space.chunk? ρ) = [] := by
      intro free
      rw [filterMap_map, filterMap_eq_nil_iff]
      exact fun _ _ => rfl
    rw [spaces, hstarted, map_nil, append_nil, filterMap_append, hfree,
      append_nil, storedSpaces, filterMap_map, ← filterMap_eq_map]
    rfl
  have hsorted : (l.filterMap Space.chunk?).Pairwise fun c d => c.position < d.position := by
    refine (hchain.pairwise fun x _ => Space.extent_proper cfg x).filterMap _ ?_
    intro x y hlt c hc d hd
    obtain ⟨_, -, rfl⟩ := Option.map_eq_some_iff.mp hc
    obtain ⟨_, -, rfl⟩ := Option.map_eq_some_iff.mp hd
    exact hlt
  have hsame : (l.filterMap Space.chunk?).Perm (inOrder s.log) := by
    refine (hperm.filterMap _).trans ?_
    rw [hstored]
    exact (perm_insertionSort Chunk.Before _).symm
  refine List.Perm.eq_of_pairwise ?_ (hsorted.imp Nat.le_of_lt)
    (pairwise_insertionSort Chunk.Before _) hsame
  intro c d hc hd hcd hdc
  have hnodup : ((l.filterMap Space.chunk?).map Chunk.position).Nodup :=
    pairwise_map.mpr (hsorted.imp Nat.ne_of_lt)
  exact inj_on_of_nodup_map hnodup hc (hsame.mem_iff.mpr hd) (Nat.le_antisymm hcd hdc)

/-! ## the first padded timeout -/

/-- The list in front of an element that a filter keeps. -/
theorem exists_of_getElem?_filterMap (h : (l.filterMap f)[k]? = some y) :
    ∃ l₁ x l₂, l = l₁ ++ x :: l₂ ∧ f x = some y ∧ (l₁.filterMap f).length = k := by
  induction l generalizing k with
  | nil => cases h
  | cons x l ih =>
    cases hx : f x with
    | none =>
      rw [filterMap_cons_none hx] at h
      obtain ⟨l₁, x', l₂, rfl, hx', hk⟩ := ih h
      exact ⟨x :: l₁, x', l₂, rfl, hx', by rw [filterMap_cons_none hx, hk]⟩
    | some z =>
      rw [filterMap_cons_some hx] at h
      cases k with
      | zero => exact ⟨[], x, l, rfl, hx.trans h, rfl⟩
      | succ k =>
        obtain ⟨l₁, x', l₂, rfl, hx', hk⟩ := ih h
        refine ⟨x :: l₁, x', l₂, rfl, hx', ?_⟩
        rw [filterMap_cons_some hx, length_cons, hk]

theorem none_or_first (P : Nat → α → Prop) (l : List α) : (∀ i x, l[i]? = some x → ¬ P i x) ∨
      ∃ k y, l[k]? = some y ∧ P k y ∧ ∀ i x, i < k → l[i]? = some x → ¬ P i x := by
  classical
  by_cases hsome : ∃ k, ∃ y, l[k]? = some y ∧ P k y
  · obtain ⟨y, hy, hP⟩ := Nat.find_spec hsome
    refine .inr ⟨Nat.find hsome, y, hy, hP, fun i x hi hx hPx => ?_⟩
    exact Nat.find_min hsome hi ⟨x, hx, hPx⟩
  · exact .inl fun i x hx hPx => hsome ⟨i, x, hx, hPx⟩

/-! ## the recovery -/

variable {s : State ι ρ}

/-- Recovered so far is recovered when none of the others has an id. -/
theorem recovered_iff_noIdFrom (hdistinct : Distinct retryF) (h : Recovering cfg retryF asked log)
    (hasked : inOrder s = asked ++ others) :
    Recovered cfg retryF s log ↔ NoIdFrom retryF s asked.length := by
  rw [Recovered, NoIdFrom, hasked]
  constructor
  · intro hall j chunk hj hchunk
    cases hretry : retryF j chunk.request true with
    | none => rfl
    | some id =>
      obtain ⟨i, hi, hid⟩ := (h.found id chunk).mp ((hall.found id chunk).mpr ⟨j, hchunk, hretry⟩)
      obtain rfl := hdistinct _ _ _ _ _ hid hretry
      exact absurd (List.getElem?_eq_some_iff.mp hi).1 (Nat.not_lt.mpr hj)
  · intro hnone
    refine ⟨fun id chunk => ?_, h.tiles⟩
    rw [h.found]
    constructor
    · rintro ⟨i, hi, hid⟩
      have hlt := (List.getElem?_eq_some_iff.mp hi).1
      exact ⟨i, by rwa [getElem?_append_left hlt], hid⟩
    · rintro ⟨i, hi, hid⟩
      by_cases hlt : i < asked.length
      · exact ⟨i, by rwa [getElem?_append_left hlt] at hi, hid⟩
      · rw [hnone i chunk (Nat.not_lt.mp hlt) hi] at hid
        cases hid

theorem walk_start (hlaid : Laid cfg l stop s.file) (hchain : Chain (Space.extent cfg) 0 l stop) :
    Walk cfg retryF l stop [] { log := ({ file := s.file } : State ι ρ) } where
  fd := rfl
  calls := rfl
  sound :=
    { found := by
        intro id chunk
        show Maps.find id ∅ = _ ↔ _
        simp
      tiles := tiles_nil }
  chain := hchain
  laid := hlaid

/-- The end of the walk: what is behind the position decides. -/
theorem Walk.end (h : Walk cfg retryF [] stop asked r) :
    (r.log.file.length = stop ∨ stop + 8 ≤ r.log.file.length →
      chunksRecover cfg binaryToTerm retryF 1 r = some r.log) ∧
    (¬ (r.log.file.length = stop ∨ stop + 8 ≤ r.log.file.length) →
      ∀ fuel, chunksRecover cfg binaryToTerm retryF fuel r = none) := by
  obtain rfl : r.log.position = stop := h.chain
  have hlen := h.laid.length
  have hzeros := h.laid.zeros
  have hrest : (r.log.file.drop r.log.position).length = r.log.file.length - r.log.position :=
    length_drop
  constructor
  · rintro (hnone | hmore)
    · have hword : readWord (r.log.file.drop r.fd) = .eof := by
        rw [h.fd, readWord, if_pos (length_eq_zero_iff.mp (by omega))]
      rw [chunksRecover, hword]
    · have hword : readWord (r.log.file.drop r.fd) = .number 0 := by
        have htake : (r.log.file.drop r.log.position).take 8 = List.replicate 8 0 := by
          refine eq_replicate_iff.mpr ⟨by rw [length_take]; omega, fun byte hbyte => ?_⟩
          exact hzeros byte (mem_of_mem_take hbyte)
        have hne : r.log.file.drop r.log.position ≠ [] := by
          intro hnil
          rw [hnil] at hrest
          simp only [length_nil] at hrest
          omega
        rw [h.fd, readWord, if_neg hne, if_neg (by omega), htake]
        rfl
      rw [chunksRecover, hword]
      rfl
  · intro hfew fuel
    rw [not_or] at hfew
    have hword : readWord (r.log.file.drop r.fd) = .short := by
      have hne : r.log.file.drop r.log.position ≠ [] := by
        intro hnil
        rw [hnil] at hrest
        simp only [length_nil] at hrest
        omega
      rw [h.fd, readWord, if_neg hne, if_pos (by omega)]
    cases fuel with
    | zero => rfl
    | succ fuel => rw [chunksRecover, hword]

theorem recovers_iff_tail (hcfg : Lawful cfg binaryToTerm) (hdistinct : Distinct retryF)
    (hlaid : Laid cfg l s.position s.file) (hchain : Chain (Space.extent cfg) 0 l s.position)
    (hchunks : l.filterMap Space.chunk? = inOrder s)
    (hnot : ∀ i chunk, (inOrder s)[i]? = some chunk → ¬ PaddedTimeout cfg retryF i chunk) :
    Recovers cfg binaryToTerm retryF s ↔
      s.file.length = s.position ∨ s.position + 8 ≤ s.file.length := by
  have hwalk : Walk cfg retryF (l ++ []) s.position []
      { log := ({ file := s.file } : State ι ρ) } := by
    rw [append_nil]
    exact walk_start hlaid hchain
  obtain ⟨r, hrun, hend, -, hdrop⟩ := hwalk.spaces hcfg hdistinct (by
    intro i chunk hi
    rw [hchunks] at hi
    rw [length_nil, Nat.zero_add]
    exact hnot i chunk hi)
  rw [nil_append, hchunks] at hend
  have hposition : r.log.position = s.position := hend.chain
  have hlen : r.log.file.length = s.file.length := by
    have hsame : (r.log.file.drop r.log.position).length = (s.file.drop r.log.position).length :=
      congrArg List.length hdrop
    have hr := hend.laid.length
    have hs := hlaid.length
    rw [length_drop, length_drop] at hsame
    omega
  have hstops : (_ → chunksRecover cfg binaryToTerm retryF 1 r = some r.log) ∧ _ := hend.end
  obtain ⟨hok, hfail⟩ := hstops
  rw [hlen] at hok hfail
  constructor
  · rintro ⟨fuel, s', hnew, -⟩
    by_contra htail
    have hmore := chunksRecover_add hnew l.length
    rw [hrun, hfail htail] at hmore
    cases hmore
  · intro htail
    exact ⟨1 + l.length, r.log, (hrun 1).trans (hok htail), hend.sound⟩

theorem recovers_iff_noIdFrom (hcfg : Lawful cfg binaryToTerm) (hdistinct : Distinct retryF)
    (hlaid : Laid cfg l s.position s.file) (hchain : Chain (Space.extent cfg) 0 l s.position)
    (hchunks : l.filterMap Space.chunk? = inOrder s) (hk : (inOrder s)[k]? = some chunk)
    (hpadded : PaddedTimeout cfg retryF k chunk)
    (hfirst : ∀ i chunk', i < k → (inOrder s)[i]? = some chunk' →
      ¬ PaddedTimeout cfg retryF i chunk') (hends : EndsBehind cfg s chunk) :
    Recovers cfg binaryToTerm retryF s ↔ NoIdFrom retryF s (k + 1) := by
  rw [← hchunks] at hk
  obtain ⟨l₁, space, l₂, rfl, hchunk, rfl⟩ := exists_of_getElem?_filterMap hk
  have hsplit : inOrder s =
      (l₁.filterMap Space.chunk? ++ [chunk]) ++ l₂.filterMap Space.chunk? := by
    rw [← hchunks, filterMap_append, filterMap_cons_some hchunk, append_assoc]
    rfl
  obtain ⟨r, hrun, hwalk, -, hdrop⟩ := (walk_start hlaid hchain).spaces hcfg hdistinct (by
    intro i chunk' hi
    have hlt := (List.getElem?_eq_some_iff.mp hi).1
    rw [length_nil, Nat.zero_add]
    refine hfirst i chunk' hlt ?_
    rwa [hsplit, append_assoc, getElem?_append_left hlt])
  rw [nil_append] at hwalk
  have hposition : r.log.position = chunk.position := by
    obtain ⟨_, -, rfl⟩ := Option.map_eq_some_iff.mp hchunk
    exact hwalk.chain.1.symm
  have hends' : readWord (r.log.file.drop (chunk.position + cfg.overhead +
      (cfg.termToBinary chunk.request).length)) = .number 0 := by
    rw [← hends, Nat.add_assoc, ← drop_drop, ← hposition, hdrop, drop_drop]
  obtain ⟨log, hstops, hsound⟩ := hwalk.stops hcfg hchunk hpadded.1 hends'
  have hresult : chunksRecover cfg binaryToTerm retryF (0 + 2 + l₁.length)
      { log := ({ file := s.file } : State ι ρ) } = some log :=
    (hrun (0 + 2)).trans (hstops 0)
  have hiff := recovered_iff_noIdFrom hdistinct hsound hsplit
  rw [length_append] at hiff
  constructor
  · rintro ⟨fuel, s', hnew, hrecovered⟩
    obtain rfl := chunksRecover_unique hnew hresult
    exact hiff.mp hrecovered
  · intro hnone
    exact ⟨_, log, hresult, hiff.mpr hnone⟩

/-- **The recovery**: after every run whose updates keep the id, and for every retry
function that gives no id twice, the condition is enough; it is also needed when eight
zeros follow the data of each chunk with a padded timeout. -/
theorem recovers_of_steps (hcfg : Lawful cfg binaryToTerm) (hdistinct : Distinct retryF)
    {s : System ι ρ} (h : Steps (next cfg) KeepsId {} events s) (hstarted : s.started = []) :
    (Readable cfg retryF s.log → Recovers cfg binaryToTerm retryF s.log) ∧
      ((∀ i chunk, (inOrder s.log)[i]? = some chunk → PaddedTimeout cfg retryF i chunk →
          EndsBehind cfg s.log chunk) →
        Recovers cfg binaryToTerm retryF s.log → Readable cfg retryF s.log) := by
  obtain ⟨hs, hstored⟩ := stored_of_steps hcfg h
  obtain ⟨l, hperm, hchain⟩ :=
    (hs.tiles_of_perm (List.Perm.refl (spaces s))).exists_chain
  have hlaid : Laid cfg l s.log.position s.log.file := Laid.perm hstored hperm.symm
  have hchunks := filterMap_chunk? hstarted hperm hchain
  rcases none_or_first (PaddedTimeout cfg retryF) (inOrder s.log) with hnot | hfirst
  · have hiff := recovers_iff_tail hcfg hdistinct hlaid hchain hchunks hnot
    refine ⟨fun hreadable => hiff.mpr (hreadable.tail hnot), fun _ hrecovers => ?_⟩
    exact ⟨fun i chunk hi hpadded => absurd hpadded (hnot i chunk hi), fun _ => hiff.mp hrecovers⟩
  · obtain ⟨k, chunk, hk, hpadded, hbefore⟩ := hfirst
    have hiff := recovers_iff_noIdFrom hcfg hdistinct hlaid hchain hchunks hk hpadded hbefore
    constructor
    · intro hreadable
      obtain ⟨hends, hnone⟩ := hreadable.padded k chunk hk hpadded
      exact (hiff hends).mpr hnone
    · intro hends hrecovers
      have hnone := (hiff (hends k chunk hk hpadded)).mp hrecovers
      constructor
      case padded =>
        intro i chunk' hi hpadded'
        refine ⟨hends i chunk' hi hpadded', fun j c hj hc => hnone j c ?_ hc⟩
        have hle : k ≤ i := by
          by_contra hlt
          exact hbefore i chunk' (Nat.not_le.mp hlt) hi hpadded'
        omega
      case tail => exact fun hnot => absurd hpadded (hnot k chunk hk)

/-- Requests of one to sixteen bytes. -/
def sizes : Config (Fin 16) where
  fileSizeLimit := 1024
  checksumSize := 1
  checksum := fun data => [Fin.ofNat 256 data.length]
  termToBinary := fun n => List.replicate (n.val + 1) 1

local instance neZero : NeZero 16 := ⟨by decide⟩

/-- The request that has as many bytes. -/
def ofSize (data : Binary) : Option (Fin 16) := some (Fin.ofNat 16 (data.length - 1))

theorem lawful_sizes : Lawful sizes ofSize where
  length_checksum := fun _ => rfl
  pos := by decide
  lt := by decide
  binaryToTerm := by decide

/-- The first space is used again by a shorter request, and the second request times out. -/
def reusedSpace : List (Event Nat (Fin 16)) :=
  [.storeStart 3, .storeEnd 0 1, .storeStart 5, .storeEnd 0 2, .storeStart 2, .storeEnd 0 3,
    .erase 1, .storeStart 1, .storeEnd 0 4]

/-- Every call but the second has an id. -/
def secondTimesOut (i : Nat) (_ : Fin 16) (_ : Bool) : Option Nat :=
  if i = 1 then none else some i

theorem distinct_secondTimesOut : Distinct secondTimesOut := by
  intro i j request request' id hi hj
  simp only [secondTimesOut] at hi hj
  split at hi
  · cases hi
  · split at hj
    · cases hj
    · exact (Option.some.inj hi).trans (Option.some.inj hj).symm

deriving instance DecidableEq for Chunk

theorem recovers_of_steps_reusedSpace :
    ∃ s, run (next sizes) {} reusedSpace = some s ∧ Recovers sizes ofSize secondTimesOut s.log := by
  obtain ⟨s, hsteps, hstarted, horder, htail⟩ :
      ∃ s, Steps (next sizes) KeepsId {} reusedSpace s ∧ s.started = [] ∧
        inOrder s.log = [⟨4, 0, 1, 0⟩, ⟨6, 21, 5, 0⟩, ⟨3, 44, 2, 0⟩] ∧
        s.log.file.length = s.log.position :=
    ⟨_, .cons trivial rfl <| .cons trivial rfl <| .cons trivial rfl <| .cons trivial rfl <|
      .cons trivial rfl <| .cons trivial rfl <| .cons trivial rfl <| .cons trivial rfl <|
      .cons trivial rfl <| .nil _, rfl, by decide +kernel, by decide +kernel⟩
  have hreadable : Readable sizes secondTimesOut s.log := by
    refine ⟨fun i chunk hi hpadded => ?_, fun _ => .inl htail⟩
    rw [horder] at hi
    match i, hi with
    | 0, hi => cases hpadded.1
    | 1, hi =>
      cases hi
      exact absurd hpadded.2 (by decide)
    | 2, hi => cases hpadded.1
    | _ + 3, hi => cases hi
  exact ⟨s, hsteps.run_eq,
    (recovers_of_steps lawful_sizes distinct_secondTimesOut hsteps hstarted).1 hreadable⟩

/-- **A short tail and a padded timeout**: with two zeros behind the last chunk `new/5`
fails; and behind a padded request that times out the chunks are lost. -/
theorem recovery_fails : (∃ s, run (next sizes) {}
        [.storeStart 5, .storeEnd 0 1, .erase 1, .storeStart 3, .storeEnd 0 2] = some s ∧
      ∀ fuel, new sizes ofSize (fun i _ _ => some i) fuel s.log.file = none) ∧
    ∃ s, run (next sizes) {}
        [.storeStart 9, .storeEnd 0 1, .storeStart 1, .storeEnd 0 2, .erase 1, .storeStart 0,
          .storeEnd 0 3] = some s ∧
      ¬ Recovers sizes ofSize (fun i _ _ => if i = 0 then none else some i) s.log := by
  refine ⟨⟨_, rfl, fun fuel => ?_⟩, _, rfl, ?_⟩
  · match fuel with
    | 0 => rfl
    | 1 => rfl
    | fuel + 2 => rfl
  · rintro ⟨fuel, s', hnew, hrecovered⟩
    have hresult := chunksRecover_unique hnew
      (rfl : new sizes ofSize (fun i _ _ => if i = 0 then none else some i) 2 _ = some _)
    subst hresult
    have hlost := (hrecovered.found 1 _).mpr ⟨1, rfl, rfl⟩
    cases hlost

end CloudI.WriteAheadLogging
