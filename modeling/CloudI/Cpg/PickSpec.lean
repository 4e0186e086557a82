import CloudI.Cpg.Pick
import CloudI.Cpg.Represent
import CloudI.Trie.Found2

/-!
# Cpg.PickSpec

Every function that picks a destination answers a pid that the caller wants, from any
draw, or an error when the group has none.
-/

namespace CloudI.Cpg

open List

variable {Name Pid Node : Type}

/-- The result is a pid that is wanted, or `no_process` when there is none. -/
def Chooses (name pattern : Name) (Wanted : Pid → Prop) (r : Picked Name Pid) : Prop :=
  (∃ pid, Wanted pid ∧ r = .ok (.ok (pattern, pid))) ∨
  (∀ pid, ¬ Wanted pid) ∧ r = .ok (.error (.noProcess name))

theorem Chooses.congr {P Q : Pid → Prop} {r : Picked Name Pid} (h : Chooses name pattern P r)
    (hPQ : ∀ pid, P pid ↔ Q pid) : Chooses name pattern Q r := by
  have heq : P = Q := funext fun pid => propext (hPQ pid)
  exact heq ▸ h

theorem chooses_of_mem (name pattern : Name) (h : P pid) :
    Chooses name pattern P (.ok (.ok (pattern, pid))) := .inl ⟨pid, h, rfl⟩

theorem chooses_of_none {P : Pid → Prop} (name pattern : Name) (h : ∀ pid, ¬ P pid) :
    Chooses name pattern P (.ok (.error (.noProcess name))) := .inr ⟨h, rfl⟩

/-! ## pick -/

variable {l : List Pid}

theorem nth_spec (h : i < l.length) : ∃ pid ∈ l, nth (i + 1) l = .ok pid := by
  refine ⟨l[i], getElem_mem h, ?_⟩
  simp [nth, h]

theorem random_spec {n : Nat} (h : 0 < n) (draw : Nat) : random n draw = .ok (draw % n + 1) := by
  rw [random, if_neg (by omega), Int.toNat_natCast]

theorem pickNth_spec (h : l ≠ []) (draw : Nat) (name pattern : Name) :
    Chooses name pattern (· ∈ l) (pickNth draw l.length l pattern) := by
  have hpos : 0 < l.length := length_pos_of_ne_nil h
  obtain ⟨pid, hmem, hnth⟩ := nth_spec (Nat.mod_lt draw hpos)
  rw [pickNth, random_spec hpos]
  refine .inl ⟨pid, hmem, ?_⟩
  show Except.map _ (nth (draw % l.length + 1) l) = _
  rw [hnth]
  rfl

theorem pick_spec (h : l ≠ []) (draw : Nat) (name pattern : Name) :
    Chooses name pattern (· ∈ l) (pick draw l.length l pattern) := by
  match l with
  | [] => exact absurd rfl h
  | [pid] => exact chooses_of_mem name pattern mem_cons_self
  | pid1 :: pid2 :: l => exact pickNth_spec h draw name pattern

variable [DecidableEq Pid]

/-- At the end of the pids, one of those that were passed over is taken. -/
theorem pickI_nil (random : Nat) (exclude : Pid) (name pattern : Name) (filtered : List Pid) :
    Chooses name pattern (· ∈ filtered)
      (pickI random exclude name pattern random filtered.length filtered []) := by
  match filtered with
  | [] =>
    simp only [pickI, if_pos]
    exact chooses_of_none name pattern fun _ => not_mem_nil
  | [pid] =>
    simp only [pickI, if_pos, length_singleton]
    exact chooses_of_mem name pattern mem_cons_self
  | pid1 :: pid2 :: filtered =>
    have hpos : 0 < (pid1 :: pid2 :: filtered).length := Nat.succ_pos _
    obtain ⟨pid, hmem, hnth⟩ := nth_spec (Nat.mod_lt random hpos)
    refine .inl ⟨pid, hmem, ?_⟩
    simp only [pickI, if_pos, hnth]
    rfl

omit [DecidableEq Pid] in
theorem mem_cons_and_ne (hp : p = exclude) :
    pid ∈ p :: l ∧ pid ≠ exclude ↔ pid ∈ l ∧ pid ≠ exclude := by
  refine and_congr_left fun hne => ?_
  rw [mem_cons, hp, or_iff_right hne]

/-- **Step lemma** of `pick_i/8`: the pids before the random one that were passed over are kept
for the case that all the others are excluded. -/
theorem pickI_spec (exclude : Pid) (name pattern : Name) {i random : Nat} (l : List Pid)
    (hi : i ≤ random) (hrandom : random < i + l.length ∨ i = random) (filtered : List Pid) :
    Chooses name pattern (fun pid => pid ∈ filtered ∨ pid ∈ l ∧ pid ≠ exclude)
      (pickI random exclude name pattern i filtered.length filtered l) := by
  induction l generalizing i filtered with
  | nil =>
    have hat : i = random := by
      rw [length_nil] at hrandom
      omega
    subst hat
    refine (pickI_nil i exclude name pattern filtered).congr fun pid => ?_
    simp
  | cons p l ih =>
    rw [pickI]
    by_cases hat : i = random
    · rw [if_pos hat]
      by_cases hp : p = exclude
      · rw [if_pos hp]
        exact (ih hi (.inr hat) filtered).congr fun pid =>
          or_congr_right (mem_cons_and_ne hp).symm
      · rw [if_neg hp]
        exact chooses_of_mem name pattern (.inr ⟨mem_cons_self, hp⟩)
    · rw [if_neg hat]
      have hi' : i + 1 ≤ random := by omega
      have hrandom' : random < i + 1 + l.length ∨ i + 1 = random := by
        rw [length_cons] at hrandom
        omega
      by_cases hp : p = exclude
      · rw [if_pos hp]
        exact (ih hi' hrandom' filtered).congr fun pid =>
          or_congr_right (mem_cons_and_ne hp).symm
      · rw [if_neg hp]
        refine (ih hi' hrandom' (p :: filtered)).congr fun pid => ?_
        simp only [mem_cons]
        constructor
        · rintro ((rfl | hmem) | hmem)
          · exact .inr ⟨.inl rfl, hp⟩
          · exact .inl hmem
          · exact .inr ⟨.inr hmem.1, hmem.2⟩
        · rintro (hmem | ⟨rfl | hmem, hne⟩)
          · exact .inl (.inr hmem)
          · exact .inl (.inl rfl)
          · exact .inr ⟨hmem, hne⟩

theorem pickExclude_spec (draw : Nat) (l : List Pid) (exclude : Pid) (name pattern : Name) :
    Chooses name pattern (fun pid => pid ∈ l ∧ pid ≠ exclude)
      (pickExclude draw l.length l exclude name pattern) := by
  rw [pickExclude]
  by_cases hl : l = []
  · subst hl
    exact chooses_of_none name pattern (by simp)
  · have hpos : 0 < l.length := length_pos_of_ne_nil hl
    have hrandom : draw % l.length + 1 < 1 + l.length := by
      have := Nat.mod_lt draw hpos
      omega
    rw [if_neg fun h => hl h.2, random_spec hpos]
    refine (pickI_spec exclude name pattern l (Nat.le_add_left 1 _) (.inl hrandom) []).congr
      fun pid => ?_
    simp

/-- The first pids are asked before the second. -/
theorem pickEither_spec (draw draw2 : Nat) (l1 l2 : List Pid) (exclude : Pid)
    (name pattern : Name) :
    Chooses name pattern (fun pid => (pid ∈ l1 ∧ pid ≠ exclude) ∨
        ((∀ q, ¬ (q ∈ l1 ∧ q ≠ exclude)) ∧ pid ∈ l2 ∧ pid ≠ exclude))
      (pickEither draw draw2 l1.length l1 l2.length l2 exclude name pattern) := by
  have hsecond := pickExclude_spec draw2 l2 exclude name pattern
  rw [pickEither]
  split
  next h =>
    refine hsecond.congr fun pid => ?_
    simp [h.2]
  next h =>
    rcases pickExclude_spec draw l1 exclude name pattern with ⟨pid, hpid, hr⟩ | ⟨hnone, hr⟩
    · rw [hr]
      exact chooses_of_mem name pattern (.inl hpid)
    · rw [hr]
      refine hsecond.congr fun pid => ?_
      exact ⟨fun h => .inr ⟨hnone, h⟩, fun h => (h.resolve_left (hnone pid)).2⟩

omit [DecidableEq Pid] in
/-- The pids that have priority, without a pid to exclude. -/
theorem pickFirst_spec (h : l1 ≠ [] ∨ l2 ≠ []) (draw : Nat) (name pattern : Name) :
    Chooses name pattern (fun pid => pid ∈ l1 ∨ ((∀ q, q ∉ l1) ∧ pid ∈ l2))
      (if (l1.length : Int) = 0 then pick draw l2.length l2 pattern
        else pick draw l1.length l1 pattern) := by
  by_cases hl1 : l1 = []
  · subst hl1
    rw [if_pos (by simp)]
    refine (pick_spec (h.resolve_left fun h => h rfl) draw name pattern).congr fun pid => ?_
    simp
  · have hpos : 0 < l1.length := length_pos_of_ne_nil hl1
    rw [if_neg (by omega)]
    refine (pick_spec hl1 draw name pattern).congr fun pid => ?_
    exact ⟨.inl, fun h => h.resolve_right fun h => hl1 (eq_nil_iff_forall_not_mem.mpr h.1)⟩

theorem pickFirstExclude_spec (draw draw2 : Nat) (l1 l2 : List Pid) (exclude : Pid)
    (name pattern : Name) :
    Chooses name pattern (fun pid => (pid ∈ l1 ∧ pid ≠ exclude) ∨
        ((∀ q, ¬ (q ∈ l1 ∧ q ≠ exclude)) ∧ pid ∈ l2 ∧ pid ≠ exclude))
      (if (l1.length : Int) = 0 then pickExclude draw l2.length l2 exclude name pattern
        else pickEither draw draw2 l1.length l1 l2.length l2 exclude name pattern) := by
  by_cases hl1 : l1 = []
  · subst hl1
    rw [if_pos (by simp)]
    refine (pickExclude_spec draw l2 exclude name pattern).congr fun pid => ?_
    simp
  · have hpos : 0 < l1.length := length_pos_of_ne_nil hl1
    rw [if_neg (by omega)]
    exact pickEither_spec draw draw2 l1 l2 exclude name pattern

/-! ## history -/

section
omit [DecidableEq Pid]

theorem historyFirst_spec (wanted : Pid → Bool) (name pattern : Name) (history : List Pid) :
    Chooses name pattern (fun pid => (history.filter wanted).head? = some pid)
      (historyFirst wanted name pattern history) := by
  induction history with
  | nil => exact chooses_of_none name pattern (by simp)
  | cons p history ih =>
    rw [historyFirst]
    by_cases hp : wanted p
    · rw [if_pos hp, filter_cons_of_pos hp]
      exact chooses_of_mem name pattern rfl
    · rw [if_neg hp, filter_cons_of_neg hp]
      exact ih

theorem nonEmpty_eq (h : history ≠ []) (f : List Pid → Picked Name Pid) :
    nonEmpty f history = f history := by
  cases history with
  | nil => exact absurd rfl h
  | cons pid history => rfl

theorem newest_spec (h : history ≠ []) (wanted : Pid → Bool) (name pattern : Name) :
    Chooses name pattern (fun pid => (history.filter wanted).head? = some pid)
      (nonEmpty (historyFirst wanted name pattern) history) := by
  rw [nonEmpty_eq h]
  exact historyFirst_spec wanted name pattern history

theorem oldest_spec (h : history ≠ []) (wanted : Pid → Bool) (name pattern : Name) :
    Chooses name pattern (fun pid => (history.filter wanted).getLast? = some pid)
      (nonEmpty (fun history => historyFirst wanted name pattern history.reverse) history) := by
  rw [nonEmpty_eq h]
  refine (historyFirst_spec wanted name pattern history.reverse).congr fun pid => ?_
  rw [filter_reverse, head?_reverse]

end

/-! ## what is wanted -/

/-- The functions `get_*_pid`, by the pids that they look at. -/
inductive Form where
  | closest
  | furthest
  | any (side : Option Side)
  | oldest (side : Option Side)
  | newest (side : Option Side)

section
variable [DecidableEq Node] (node : Pid → Node) (home : Node)

/-- The function of a form, without or with a pid to exclude. -/
def Form.call (draw draw2 : Nat) (name : Name) (groups : Storage Pid Name) :
    Form → Option Pid → Picked Name Pid
  | .closest, none => getClosestPid draw name groups
  | .closest, some exclude => getClosestPidExclude draw draw2 name exclude groups
  | .furthest, none => getFurthestPid draw name groups
  | .furthest, some exclude => getFurthestPidExclude draw draw2 name exclude groups
  | .any none, none => getRandomPid draw name groups
  | .any none, some exclude => getRandomPidExclude draw name exclude groups
  | .any (some .here), none => getLocalPid draw name groups
  | .any (some .here), some exclude => getLocalPidExclude draw name exclude groups
  | .any (some .remote), none => getRemotePid draw name groups
  | .any (some .remote), some exclude => getRemotePidExclude draw name exclude groups
  | .oldest none, none => getOldestPid name groups
  | .oldest none, some exclude => getOldestPidExclude name exclude groups
  | .oldest (some .here), none => getLocalOldestPid node home name groups
  | .oldest (some .here), some exclude => getLocalOldestPidExclude node home name exclude groups
  | .oldest (some .remote), none => getRemoteOldestPid node home name groups
  | .oldest (some .remote), some exclude => getRemoteOldestPidExclude node home name exclude groups
  | .newest none, none => getNewestPid name groups
  | .newest none, some exclude => getNewestPidExclude name exclude groups
  | .newest (some .here), none => getLocalNewestPid node home name groups
  | .newest (some .here), some exclude => getLocalNewestPidExclude node home name exclude groups
  | .newest (some .remote), none => getRemoteNewestPid node home name groups
  | .newest (some .remote), some exclude => getRemoteNewestPidExclude node home name exclude groups

/-- The pid is of the side; both sides are meant without one. -/
def isOf : Option Side → Pid → Bool
  | none, _ => true
  | some .here, pid => node pid = home
  | some .remote, pid => node pid ≠ home

/-- The members of a side that are not excluded, from newest to oldest. -/
def candidates (side : Option Side) (exclude : Option Pid) (history : List Pid) : List Pid :=
  history.filter fun pid => isOf node home side pid ∧ some pid ≠ exclude

/-- The pids that a form may answer: local ones before remote ones for the closest, remote ones
before local ones for the furthest. -/
def Form.Wanted (exclude : Option Pid) (history : List Pid) : Form → Pid → Prop
  | .closest, pid => pid ∈ candidates node home (some .here) exclude history ∨
      ((∀ q, q ∉ candidates node home (some .here) exclude history) ∧
        pid ∈ candidates node home (some .remote) exclude history)
  | .furthest, pid => pid ∈ candidates node home (some .remote) exclude history ∨
      ((∀ q, q ∉ candidates node home (some .remote) exclude history) ∧
        pid ∈ candidates node home (some .here) exclude history)
  | .any side, pid => pid ∈ candidates node home side exclude history
  | .oldest side, pid => (candidates node home side exclude history).getLast? = some pid
  | .newest side, pid => (candidates node home side exclude history).head? = some pid

/-- **The invariant of a group**: the pids of the two sides are those of the history. -/
structure RecordOk (data : CpgData Pid) : Prop where
  localPids_eq : data.localPids = data.history.filter (node · = home)
  localCount_eq : data.localCount = data.localPids.length
  remotePids_eq : data.remotePids = data.history.filter (node · ≠ home)
  remoteCount_eq : data.remoteCount = data.remotePids.length

end

omit [DecidableEq Pid] in
/-- The group has the name. -/
def Storage.Stored : Storage Pid Name → Name → CpgData Pid → Prop
  | .trie groups, name, data => Trie.meaning name (groups, none) = some data
  | @Storage.dict _ _ _ groups, name, data => Maps.find name groups = some data

/-- The storage is well formed; the names in a trie are patterns as `trie:is_pattern2/1` accepts
them. -/
def Storage.Formed : Storage Pid Name → Prop
  | .trie groups => Trie.Rooted groups ∧
      ∀ name data, Trie.meaning name (groups, none) = some data → Trie.WellFormed2 name
  | @Storage.dict .. => True

/-- **The invariant of the groups**. -/
def Storage.Ok [DecidableEq Node] (node : Pid → Node) (home : Node) (groups : Storage Pid Name) :
    Prop :=
  groups.Formed ∧ ∀ name data, groups.Stored name data → RecordOk node home data

section
omit [DecidableEq Pid]

/-- A name that is no pattern; in another storage than a trie every name is one. -/
def Storage.Plain : Storage Pid Name → Name → Prop
  | .trie _, name => Trie.Free name
  | @Storage.dict .., _ => True

/-- The group of the pattern is meant by the name. -/
def Storage.Means : Storage Pid Name → (pattern name : Name) → Prop
  | .trie _, pattern, name => Trie.Matches2 pattern name
  | @Storage.dict .., pattern, name => pattern = name

/-- `trie:find_match2/2` is wrong about the name. -/
def Storage.Misled : Storage Pid Name → Name → Prop
  | .trie groups, name => Trie.Misled (.element (groups, none)) name
  | @Storage.dict .., _ => False

end

/-- **What the group of a name is**: a stored one; the one of that name, when it is stored, and
otherwise one that the name means, so that there is none only when no stored group is meant. -/
structure Storage.Finds (groups : Storage Pid Name) (name : Name)
    (found : Option (Name × CpgData Pid)) : Prop where
  stored : ∀ pattern data, found = some (pattern, data) → groups.Stored pattern data
  own : groups.Plain name → ∀ data, groups.Stored name data → found = some (name, data)
  means : groups.Plain name → ¬ groups.Misled name → ∀ pattern data,
    found = some (pattern, data) → groups.Means pattern name
  none : groups.Plain name → ¬ groups.Misled name → found = none → ∀ pattern data,
    groups.Stored pattern data → ¬ groups.Means pattern name

omit [DecidableEq Pid] in
theorem groupFind_spec {groups : Storage Pid Name} (h : groups.Formed) (name : Name) :
    ∃ found, groupFind name groups = .ok found ∧ groups.Finds name found := by
  cases groups with
  | trie groups =>
    obtain ⟨honly, hfound⟩ := Trie.findMatch2_finds h.1 h.2 name
    have hown : Trie.Free name → ∀ data, Trie.meaning name (groups, none) = some data →
        Trie.findMatch2 name groups = .ok (some (name, data)) := fun hplain data hdata =>
      Trie.findMatch2_stored h.1 hplain hdata
    have hspec : Trie.Free name → ¬ Trie.Misled (.element (groups, none)) name →
        Trie.Answers (Trie.findMatch2 name groups) fun p data =>
          Trie.meaning p (groups, none) = some data ∧ Trie.Matches2 p name := fun hplain hmisled =>
      Trie.findMatch2_spec h.1 h.2 hplain hmisled
    rw [groupFind]
    cases hr : Trie.findMatch2 name groups with
    | error e =>
      cases honly e hr
      refine ⟨none, rfl, fun _ _ hnone => ?_, fun hplain data hdata => ?_,
        fun _ _ _ _ hnone => ?_, fun hplain hmisled _ => ?_⟩
      · cases hnone
      · rw [hown hplain data hdata] at hr
        cases hr
      · cases hnone
      · obtain ⟨p, v, heq, -⟩ | ⟨heq, -⟩ := hr ▸ hspec hplain hmisled
        · cases heq
        · cases heq
    | ok found =>
      refine ⟨found, rfl, fun pattern data heq => hfound pattern data (heq ▸ hr),
        fun hplain data hdata => ?_, fun hplain hmisled pattern data heq => ?_,
        fun hplain hmisled heq pattern data hstored hmeans => ?_⟩
      · rw [hown hplain data hdata] at hr
        cases hr
        rfl
      · subst heq
        obtain ⟨p, v, heq, -, hmatch⟩ | ⟨heq, -⟩ := hr ▸ hspec hplain hmisled
        · cases heq
          exact hmatch
        · cases heq
      · subst heq
        obtain ⟨p, v, heq, -⟩ | ⟨-, hno⟩ := hr ▸ hspec hplain hmisled
        · cases heq
        · exact hno pattern data ⟨hstored, hmeans⟩
  | dict groups =>
    refine ⟨_, rfl, fun pattern data heq => ?_, fun _ data hdata => ?_, fun _ _ pattern data heq => ?_,
      fun _ _ heq pattern data hstored hmeans => ?_⟩
    · obtain ⟨data', hdata, heq⟩ := Option.map_eq_some_iff.mp heq
      cases heq
      exact hdata
    · rw [show Maps.find name groups = some data from hdata]
      rfl
    · obtain ⟨data', -, heq⟩ := Option.map_eq_some_iff.mp heq
      cases heq
      rfl
    · cases hmeans
      rw [Option.map_eq_none_iff] at heq
      rw [show Maps.find name groups = some data from hstored] at heq
      cases heq

omit [DecidableEq Pid] in
/-! ## the selection -/

section
variable [DecidableEq Node] {node : Pid → Node} {home : Node}

theorem candidates_both (history : List Pid) :
    candidates node home none none history = history := by
  simp [candidates, isOf]

theorem mem_candidates_some : pid ∈ candidates node home side (some exclude) history ↔
      pid ∈ candidates node home side none history ∧ pid ≠ exclude := by
  simp [candidates, and_assoc]

theorem RecordOk.here {data : CpgData Pid} (h : RecordOk node home data) :
    candidates node home (some .here) none data.history = data.localPids := by
  rw [h.localPids_eq]
  simp [candidates, isOf]

theorem RecordOk.remote (h : RecordOk node home data) :
    candidates node home (some .remote) none data.history = data.remotePids := by
  rw [h.remotePids_eq]
  simp [candidates, isOf]

section
omit [DecidableEq Pid]

theorem RecordOk.mem_history {data : CpgData Pid} (h : RecordOk node home data) (pid : Pid) :
    pid ∈ data.history ↔ pid ∈ data.localPids ∨ pid ∈ data.remotePids := by
  rw [h.localPids_eq, h.remotePids_eq]
  by_cases hpid : node pid = home <;> simp [hpid]

theorem RecordOk.localCount_eq_zero (h : RecordOk node home data) :
    data.localCount = 0 ↔ data.localPids = [] := by
  rw [h.localCount_eq, Int.natCast_eq_zero, length_eq_zero_iff]

theorem RecordOk.remoteCount_eq_zero (h : RecordOk node home data) :
    data.remoteCount = 0 ↔ data.remotePids = [] := by
  rw [h.remoteCount_eq, Int.natCast_eq_zero, length_eq_zero_iff]

theorem RecordOk.pids_ne_nil {data : CpgData Pid} (h : RecordOk node home data)
    (hne : data.history ≠ []) : data.localPids ≠ [] ∨ data.remotePids ≠ [] := by
  obtain ⟨pid, hpid⟩ := exists_mem_of_ne_nil _ hne
  exact ((h.mem_history pid).mp hpid).imp ne_nil_of_mem ne_nil_of_mem

theorem RecordOk.no_pids {data : CpgData Pid} (h : RecordOk node home data)
    (hnil : data.history = []) : data.localPids = [] ∧ data.remotePids = [] := by
  rw [h.localPids_eq, h.remotePids_eq, hnil]
  exact ⟨rfl, rfl⟩

end

variable {select : Name → CpgData Pid → Picked Name Pid}

omit [DecidableEq Pid] [DecidableEq Node] in
theorem getPid_chooses {groups : Storage Pid Name} {data : CpgData Pid}
    {noPids : CpgData Pid → Prop} [DecidablePred noPids] {P : Pid → Prop}
    (hfind : groupFind name groups = .ok (some (pattern, data)))
    (hnone : noPids data → ∀ pid, ¬ P pid)
    (hselect : ¬ noPids data → Chooses name pattern P (select pattern data)) :
    Chooses name pattern P (getPid noPids select name groups) := by
  rw [getPid, hfind]
  show Chooses name pattern P (if noPids data then _ else _)
  split
  next h => exact chooses_of_none name pattern (hnone h)
  next h => exact hselect h

omit [DecidableEq Pid] [DecidableEq Node] in
theorem getPid_none [DecidablePred noPids] (hfind : groupFind name groups = .ok none) :
    getPid noPids select name groups = .ok (.error (.noSuchGroup name)) := by
  rw [getPid, hfind]
  rfl

theorem candidates_eq_nil (exclude : Option Pid) (h : candidates node home side none history = []) :
    candidates node home side exclude history = [] := by
  match exclude with
  | none => exact h
  | some exclude =>
    refine eq_nil_iff_forall_not_mem.mpr fun pid hpid => ?_
    have hmem := (mem_candidates_some.mp hpid).1
    rw [h] at hmem
    exact not_mem_nil hmem

theorem RecordOk.no_local (h : RecordOk node home data) (hcount : data.localCount = 0)
    (exclude : Option Pid) : candidates node home (some .here) exclude data.history = [] := by
  refine candidates_eq_nil exclude ?_
  rw [h.here]
  exact h.localCount_eq_zero.mp hcount

theorem RecordOk.no_remote (h : RecordOk node home data) (hcount : data.remoteCount = 0)
    (exclude : Option Pid) : candidates node home (some .remote) exclude data.history = [] := by
  refine candidates_eq_nil exclude ?_
  rw [h.remote]
  exact h.remoteCount_eq_zero.mp hcount

theorem no_history {data : CpgData Pid} (h : data.history = []) (side : Option Side)
    (exclude : Option Pid) : candidates node home side exclude data.history = [] := by
  rw [h]
  rfl

omit [DecidableEq Pid] in
theorem RecordOk.history_of_local (h : RecordOk node home data) (hcount : ¬ data.localCount = 0) :
    data.history ≠ [] := by
  intro hnil
  rw [h.localCount_eq, h.localPids_eq, hnil] at hcount
  exact hcount rfl

omit [DecidableEq Pid] in
theorem RecordOk.history_of_remote (h : RecordOk node home data) (hcount : ¬ data.remoteCount = 0) :
    data.history ≠ [] := by
  intro hnil
  rw [h.remoteCount_eq, h.remotePids_eq, hnil] at hcount
  exact hcount rfl

section
variable {groups : Storage Pid Name} {data : CpgData Pid} {name pattern : Name}
  (h : RecordOk node home data)
  (hfind : groupFind name groups = .ok (some (pattern, data))) (draw draw2 : Nat)

include h hfind

omit h in
/-- The functions that look at the pids of one side, or at all of them. -/
theorem pids_chooses {side : Option Side} {noPids : CpgData Pid → Prop} [DecidablePred noPids]
    (n : CpgData Pid → Int) (l : CpgData Pid → List Pid) {call : Option Pid → Picked Name Pid}
    (hcount : n data = (l data).length)
    (hmem : ∀ pid, pid ∈ candidates node home side none data.history ↔ pid ∈ l data)
    (hempty : noPids data ↔ l data = []) (hnone : call none =
      getPid noPids (fun pattern data => pick draw (n data) (l data) pattern) name groups)
    (hsome : ∀ exclude, call (some exclude) = getPid noPids
      (fun pattern data => pickExclude draw (n data) (l data) exclude name pattern) name groups)
    (exclude : Option Pid) :
    Chooses name pattern (Form.Wanted node home exclude data.history (.any side))
      (call exclude) := by
  have hnil : noPids data → candidates node home side exclude data.history = [] := by
    intro hno
    refine candidates_eq_nil exclude (eq_nil_iff_forall_not_mem.mpr fun pid hpid => ?_)
    rw [hmem, hempty.mp hno] at hpid
    exact not_mem_nil hpid
  match exclude with
  | none =>
    rw [hnone]
    refine getPid_chooses hfind (fun hno pid => ?_) fun hpids => ?_
    · simp [Form.Wanted, hnil hno]
    · rw [hcount]
      exact (pick_spec (mt hempty.mpr hpids) draw name pattern).congr fun pid => (hmem pid).symm
  | some exclude =>
    rw [hsome]
    refine getPid_chooses hfind (fun hno pid => ?_) fun hpids => ?_
    · simp [Form.Wanted, hnil hno]
    · rw [hcount]
      refine (pickExclude_spec draw _ exclude name pattern).congr fun pid => ?_
      rw [Form.Wanted, mem_candidates_some, hmem]

omit h in
/-- The functions that look at the pids `l1` of a side first, and at the pids `l2` of the other
side when the first has none. -/
theorem sides_chooses {side1 side2 : Side} (n1 n2 : CpgData Pid → Int)
    (l1 l2 : CpgData Pid → List Pid) {call : Option Pid → Picked Name Pid}
    (hcount1 : n1 data = (l1 data).length) (hcount2 : n2 data = (l2 data).length)
    (hside1 : candidates node home (some side1) none data.history = l1 data)
    (hside2 : candidates node home (some side2) none data.history = l2 data)
    (hpids : data.history ≠ [] → l1 data ≠ [] ∨ l2 data ≠ [])
    (hnone : call none = getPid (·.history = []) (fun pattern data =>
      if n1 data = 0 then pick draw (n2 data) (l2 data) pattern
      else pick draw (n1 data) (l1 data) pattern) name groups)
    (hsome : ∀ exclude, call (some exclude) = getPid (·.history = []) (fun pattern data =>
      if n1 data = 0 then pickExclude draw (n2 data) (l2 data) exclude name pattern
      else pickEither draw draw2 (n1 data) (l1 data) (n2 data) (l2 data) exclude name pattern)
      name groups)
    (exclude : Option Pid) :
    Chooses name pattern (fun pid => pid ∈ candidates node home (some side1) exclude data.history ∨
        ((∀ q, q ∉ candidates node home (some side1) exclude data.history) ∧
          pid ∈ candidates node home (some side2) exclude data.history)) (call exclude) := by
  match exclude with
  | none =>
    rw [hnone]
    refine getPid_chooses hfind (fun hnil pid => ?_) fun hne => ?_
    · simp [no_history hnil]
    · rw [hcount1, hcount2]
      refine (pickFirst_spec (hpids hne) draw name pattern).congr fun pid => ?_
      rw [hside1, hside2]
  | some exclude =>
    rw [hsome]
    refine getPid_chooses hfind (fun hnil pid => ?_) fun hne => ?_
    · simp [no_history hnil]
    · rw [hcount1, hcount2]
      refine (pickFirstExclude_spec draw draw2 _ _ exclude name pattern).congr fun pid => ?_
      simp only [mem_candidates_some, hside1, hside2]

theorem closest_chooses (exclude : Option Pid) :
    Chooses name pattern (Form.Wanted node home exclude data.history .closest)
      (Form.call node home draw draw2 name groups .closest exclude) :=
  sides_chooses hfind draw draw2 (·.localCount) (·.remoteCount) (·.localPids) (·.remotePids)
    h.localCount_eq h.remoteCount_eq h.here h.remote h.pids_ne_nil rfl (fun _ => rfl) exclude

theorem furthest_chooses (exclude : Option Pid) :
    Chooses name pattern (Form.Wanted node home exclude data.history .furthest)
      (Form.call node home draw draw2 name groups .furthest exclude) :=
  sides_chooses hfind draw draw2 (·.remoteCount) (·.localCount) (·.remotePids) (·.localPids)
    h.remoteCount_eq h.localCount_eq h.remote h.here (fun hne => (h.pids_ne_nil hne).symm)
    rfl (fun _ => rfl) exclude

theorem any_chooses (side : Option Side) (exclude : Option Pid) :
    Chooses name pattern (Form.Wanted node home exclude data.history (.any side))
      (Form.call node home draw draw2 name groups (.any side) exclude) := by
  match side with
  | none =>
    refine pids_chooses hfind draw (fun data => data.localCount + data.remoteCount)
      (fun data => data.localPids ++ data.remotePids) ?_ ?_ ?_ rfl (fun _ => rfl) exclude
    · rw [h.localCount_eq, h.remoteCount_eq, length_append, Int.natCast_add]
    · intro pid
      rw [candidates_both, h.mem_history, mem_append]
    · rw [append_eq_nil_iff]
      exact ⟨h.no_pids, not_imp_not.mp fun hne => not_and_or.mpr (h.pids_ne_nil hne)⟩
  | some .here =>
    exact pids_chooses hfind draw (·.localCount) (·.localPids) h.localCount_eq
      (fun pid => by rw [h.here]) h.localCount_eq_zero rfl (fun _ => rfl) exclude
  | some .remote =>
    exact pids_chooses hfind draw (·.remoteCount) (·.remotePids) h.remoteCount_eq
      (fun pid => by rw [h.remote]) h.remoteCount_eq_zero rfl (fun _ => rfl) exclude

omit h in
/-- The functions that look at the history from its end. -/
theorem oldest_chooses [DecidablePred noPids]
    (hnone : noPids data → candidates node home side exclude data.history = [])
    (hne : ¬ noPids data → data.history ≠ [])
    (hwanted : ∀ pid, wanted pid = decide (isOf node home side pid ∧ some pid ≠ exclude)) :
    Chooses name pattern (Form.Wanted node home exclude data.history (.oldest side))
      (getPid noPids (fun pattern data => nonEmpty
        (fun history => historyFirst wanted name pattern history.reverse) data.history)
        name groups) := by
  have hfilter : data.history.filter wanted = candidates node home side exclude data.history :=
    filter_congr fun pid _ => hwanted pid
  refine getPid_chooses hfind (fun hzero pid => ?_) fun hcount => ?_
  · simp [Form.Wanted, hnone hzero]
  · refine (oldest_spec (hne hcount) wanted name pattern).congr fun pid => ?_
    rw [Form.Wanted, hfilter]

omit h in
/-- The functions that look at the history from its start. -/
theorem newest_chooses [DecidablePred noPids]
    (hnone : noPids data → candidates node home side exclude data.history = [])
    (hne : ¬ noPids data → data.history ≠ [])
    (hwanted : ∀ pid, wanted pid = decide (isOf node home side pid ∧ some pid ≠ exclude)) :
    Chooses name pattern (Form.Wanted node home exclude data.history (.newest side))
      (getPid noPids (fun pattern data => nonEmpty
        (historyFirst wanted name pattern) data.history) name groups) := by
  have hfilter : data.history.filter wanted = candidates node home side exclude data.history :=
    filter_congr fun pid _ => hwanted pid
  refine getPid_chooses hfind (fun hzero pid => ?_) fun hcount => ?_
  · simp [Form.Wanted, hnone hzero]
  · refine (newest_spec (hne hcount) wanted name pattern).congr fun pid => ?_
    rw [Form.Wanted, hfilter]

omit h in
theorem getOldestPid_chooses :
    Chooses name pattern (Form.Wanted node home none data.history (.oldest none))
      (getOldestPid name groups) := by
  refine getPid_chooses hfind (fun hnil pid => ?_) fun hne => ?_
  · simp [Form.Wanted, no_history hnil]
  · refine Chooses.congr (P := fun pid => data.history.reverse.head? = some pid) ?_ fun pid => by
      rw [Form.Wanted, candidates_both, head?_reverse]
    rw [historyOldest, nonEmpty_eq hne]
    cases hr : data.history.reverse with
    | nil => exact absurd (reverse_eq_nil_iff.mp hr) hne
    | cons pid l => exact chooses_of_mem name pattern rfl

omit h in
theorem getNewestPid_chooses :
    Chooses name pattern (Form.Wanted node home none data.history (.newest none))
      (getNewestPid name groups) := by
  refine getPid_chooses hfind (fun hnil pid => ?_) fun hne => ?_
  · simp [Form.Wanted, no_history hnil]
  · refine Chooses.congr (P := fun pid => data.history.head? = some pid) ?_ fun pid => by
      rw [Form.Wanted, candidates_both]
    cases hr : data.history with
    | nil => exact absurd hr hne
    | cons pid l => exact chooses_of_mem name pattern rfl

/-- **Step lemma** of a selection: every form chooses from the group that was found. -/
theorem call_chooses (form : Form) (exclude : Option Pid) :
    Chooses name pattern (form.Wanted node home exclude data.history)
      (form.call node home draw draw2 name groups exclude) := by
  have hhistory : data.history = [] → ∀ exclude,
      candidates node home none exclude data.history = [] := fun hnil => no_history hnil none
  match form, exclude with
  | .closest, exclude => exact closest_chooses h hfind draw draw2 exclude
  | .furthest, exclude => exact furthest_chooses h hfind draw draw2 exclude
  | .any side, exclude => exact any_chooses h hfind draw draw2 side exclude
  | .oldest none, none => exact getOldestPid_chooses hfind
  | .oldest none, some exclude =>
    exact oldest_chooses hfind (hhistory · _) id fun pid => by simp [isOf]
  | .oldest (some .here), none =>
    exact oldest_chooses hfind (h.no_local · _) h.history_of_local fun pid => by simp [isOf]
  | .oldest (some .here), some exclude =>
    exact oldest_chooses hfind (h.no_local · _) h.history_of_local fun pid => by
      simp [isOf, and_comm]
  | .oldest (some .remote), none =>
    exact oldest_chooses hfind (h.no_remote · _) h.history_of_remote fun pid => by simp [isOf]
  | .oldest (some .remote), some exclude =>
    exact oldest_chooses hfind (h.no_remote · _) h.history_of_remote fun pid => by
      simp [isOf, and_comm]
  | .newest none, none => exact getNewestPid_chooses hfind
  | .newest none, some exclude =>
    exact newest_chooses hfind (hhistory · _) id fun pid => by simp [isOf]
  | .newest (some .here), none =>
    exact newest_chooses hfind (h.no_local · _) h.history_of_local fun pid => by simp [isOf]
  | .newest (some .here), some exclude =>
    exact newest_chooses hfind (h.no_local · _) h.history_of_local fun pid => by
      simp [isOf, and_comm]
  | .newest (some .remote), none =>
    exact newest_chooses hfind (h.no_remote · _) h.history_of_remote fun pid => by simp [isOf]
  | .newest (some .remote), some exclude =>
    exact newest_chooses hfind (h.no_remote · _) h.history_of_remote fun pid => by
      simp [isOf, and_comm]

end

/-- The groups of a represented state have the invariant. -/
theorem Represented.storageOk {Name Pid Node : Type} [LinearOrder Name] [LinearOrder Pid]
    [LinearOrder Node] {node : Pid → Node} {home : Node} {s : State Name Pid Node}
    (h : Represented node home s) : (Storage.dict s.groups).Ok node home := by
  refine ⟨trivial, fun name data hfind => ?_⟩
  obtain ⟨hlocal, hlocalCount⟩ := h.localPids_eq name data hfind
  obtain ⟨hremote, hremoteCount⟩ := h.remotePids_eq name data hfind
  exact ⟨hlocal, hlocalCount, hremote, hremoteCount⟩

/-- **Destination selection**: every form answers a member that it wants of the group of the
name, or an error when there is none; and no such group, when the name has no group. -/
theorem selects {groups : Storage Pid Name} (h : groups.Ok node home) (name : Name) (form : Form)
    (exclude : Option Pid) (draw draw2 : Nat) :
    ∃ found, groupFind name groups = .ok found ∧ groups.Finds name found ∧
      (found = none → form.call node home draw draw2 name groups exclude =
        .ok (.error (.noSuchGroup name))) ∧
      ∀ pattern data, found = some (pattern, data) →
        Chooses name pattern (form.Wanted node home exclude data.history)
          (form.call node home draw draw2 name groups exclude) := by
  obtain ⟨found, hfind, hfinds⟩ := groupFind_spec h.1 name
  refine ⟨found, hfind, hfinds, fun hnone => ?_, fun pattern data heq => ?_⟩
  · subst hnone
    match form, exclude with
    | .closest, none | .closest, some _ | .furthest, none | .furthest, some _
    | .any none, none | .any none, some _ | .any (some .here), none | .any (some .here), some _
    | .any (some .remote), none | .any (some .remote), some _
    | .oldest none, none | .oldest none, some _
    | .oldest (some .here), none | .oldest (some .here), some _
    | .oldest (some .remote), none | .oldest (some .remote), some _
    | .newest none, none | .newest none, some _
    | .newest (some .here), none | .newest (some .here), some _
    | .newest (some .remote), none | .newest (some .remote), some _ => exact getPid_none hfind
  · subst heq
    exact call_chooses (h.2 pattern data (hfinds.stored pattern data rfl)) hfind draw draw2 form
      exclude

/-- A group with the pids 1 and 3 of the node 1, and the pid 2 of the node 0. -/
def twoNodes : Storage Nat Nat :=
  .dict (Maps.put 7 ⟨1, [2], 3, [1, 3, 1], [1, 3, 2, 1]⟩ ∅)

theorem selects_twoNodes : ∃ data, groupFind 7 twoNodes = .ok (some (7, data)) ∧
      Chooses 7 7 (Form.closest.Wanted (· % 2) 0 (some 2) data.history)
        (Form.closest.call (· % 2) 0 5 1 7 twoNodes (some 2)) := by
  have hok : twoNodes.Ok (· % 2) 0 := by
    refine ⟨trivial, fun name data hfind => ?_⟩
    rw [twoNodes, Storage.Stored, Maps.find_put] at hfind
    split at hfind
    next =>
      cases hfind
      exact ⟨rfl, rfl, rfl, rfl⟩
    next => cases hfind
  obtain ⟨found, hfind, hfinds, -, hchooses⟩ := selects hok 7 .closest (some 2) 5 1
  have hfound := hfinds.own trivial _ rfl
  exact ⟨_, hfound ▸ hfind, hchooses 7 _ hfound⟩

end

end CloudI.Cpg
