import CloudI.Crdt.Reachable

/-!
# Crdt.Compaction

What a local write does to the POLog.  A write that is added takes out operations that it
makes redundant, and nothing is lost.  A `put` or a `clear` is ignored when the newest
operation of the POLog that replaces the same key has a counter that is not lower: also when
that is an operation of the same process, as long as no other clock came in between.
-/

namespace CloudI.Crdt

variable {ν K V F Average : Type} [LinearOrder ν] [LinearOrder K]
  {calls : Calls V F} {floats : Floats ν Average}
  {p : Process ν K V F Average} {op : Operation K V F}
  {c : VClock ν} {polog : List (Entry ν K V F)}

/-- **The POLog loses nothing**: its operations after the local write come to the write after
its operations before. -/
def Lossless (calls : Calls V F) (op : Operation K V F)
    (p : Process ν K V F Average) : Prop :=
  ∀ data, replay calls (p.eventLocal op).process.polog data =
    write calls op (replay calls p.polog data)

/-- The newest operation of the POLog that replaces the key of the write, if there is one, is
less than the clock of the write, or the POLog comes to the value that is written. -/
def LastWins (calls : Calls V F) (op : Operation K V F)
    (p : Process ν K V F Average) : Prop :=
  ∀ key e, op.replaces = some key →
    p.polog.find? (fun e => e.operation.replaces = some key) = some e →
      vclockLessThan e.vclock (vclockIncrement p.nodeId p.vclock) = true ∨
        Maps.find key (replay calls p.polog ∅) = effect calls key op none

/-! ## ignored operations -/

variable {key : K} {e : Entry ν K V F}

theorem pologRedundancyRelation_of_replaces (hreplaces : op.replaces = some key) (c : VClock ν)
    (polog : List (Entry ν K V F)) :
    pologRedundancyRelation op c polog = pologRedundancyRelationKey key c polog [] := by
  cases op with
  | put key' value =>
    cases hreplaces
    rfl
  | clear key' =>
    cases hreplaces
    rfl
  | _ => cases hreplaces

/-- **An ignored operation** leaves the POLog as it is. -/
theorem pologEffect_of_ignored (hreplaces : op.replaces = some key)
    (hfind : polog.find? (fun e => e.operation.replaces = some key) = some e)
    (hless : ¬ vclockLessThan e.vclock c = true) (id : ν × Nat) :
    pologEffect op c id polog = polog := by
  have hrelation : pologRedundancyRelation op c polog = (false, polog) := by
    rw [pologRedundancyRelation_of_replaces hreplaces, pologRedundancyRelationKey_eq]
    simp only [hfind, if_neg hless, List.reverse_nil, List.nil_append]
  rw [pologEffect, hrelation]
  by_cases hduplicate : pologDuplicateOperation c polog = true
  · rw [if_pos hduplicate]
  · rw [if_neg hduplicate]

/-- The value of a key that an operation of the POLog replaces does not depend on the data. -/
theorem find_replay_of_replaces
    (hfind : polog.find? (fun e => e.operation.replaces = some key) = some e)
    (data data' : Data K V) :
    Maps.find key (replay calls polog data) = Maps.find key (replay calls polog data') := by
  induction polog with
  | nil => cases hfind
  | cons e' polog ih =>
    show Maps.find key (write calls e'.operation (replay calls polog data)) =
      Maps.find key (write calls e'.operation (replay calls polog data'))
    rw [find_write, find_write]
    by_cases he : e'.operation.replaces = some key
    · exact effect_of_replaces he calls _ _
    · rw [List.find?_cons_of_neg (by simpa using he)] at hfind
      rw [ih hfind]

/-- A `put` or a `clear` changes nothing when the key has its value. -/
theorem write_eq_self_iff (hreplaces : op.replaces = some key) (data : Data K V) :
    data = write calls op data ↔ Maps.find key data = effect calls key op none := by
  constructor
  · intro h
    have hkey := congrArg (Maps.find key) h
    rw [find_write] at hkey
    exact hkey.trans (effect_of_replaces hreplaces calls _ none)
  · intro h
    refine Maps.ext fun k => ?_
    rw [find_write]
    by_cases hk : key = k
    · subst hk
      rw [h]
      exact effect_of_replaces hreplaces calls none _
    · rw [effect_of_replaces_ne hreplaces hk]

/-! ## local writes -/

/-- **Local writes are lossless** exactly when the last write of a key wins. -/
theorem lossless_iff_lastWins (h : Reachable calls floats p) (op : Operation K V F) :
    Lossless calls op p ↔ LastWins calls op p := by
  have hok : PologOk p.toState := ⟨h.ok.log.ascending, h.ok.log.below⟩
  have hnew : ∀ e ∈ p.polog, e.vclock ≠ vclockIncrement p.nodeId p.vclock := fun e he =>
    (hok.below_of_advances (advances_vclockIncrement p.nodeId p.vclock) e he).2
  by_cases hkept : Kept op (vclockIncrement p.nodeId p.vclock) p.polog
  · -- the write is added
    refine iff_of_true (fun data => ?_) fun key e hreplaces hfind =>
      .inl (hkept key hreplaces e hfind)
    obtain ⟨rest, heffect, -, hreplay⟩ := pologEffect_of_kept calls hnew hkept
      (operationId p.nodeId (vclockIncrement p.nodeId (vclockIncrement p.nodeId p.vclock)))
    show replay calls (pologEffect op _ _ p.polog) data = _
    rw [heffect]
    exact hreplay data
  · -- the write is ignored
    simp only [Kept, not_forall] at hkept
    obtain ⟨key, hreplaces, e, hfind, hless⟩ := hkept
    have hpolog : (p.eventLocal op).process.polog = p.polog :=
      pologEffect_of_ignored hreplaces hfind hless _
    have hvalue : Lossless calls op p ↔
        Maps.find key (replay calls p.polog ∅) = effect calls key op none := by
      unfold Lossless
      rw [hpolog]
      constructor
      · intro hlossless
        exact (write_eq_self_iff hreplaces _).mp (hlossless ∅)
      · intro hfound data
        rw [write_eq_self_iff hreplaces, ← hfound]
        exact find_replay_of_replaces hfind data ∅
    rw [hvalue]
    constructor
    · intro hfound key' e' hreplaces' _
      obtain rfl := Option.some.inj (hreplaces.symm.trans hreplaces')
      exact .inr hfound
    · intro hlast
      rcases hlast key e hreplaces hfind with hless' | hfound
      · exact absurd hless' hless
      · exact hfound

/-- The process 0 after it put the value 1. -/
def putProcess : Process Nat Nat Nat Unit (Nat × Nat) :=
  startedProcess.after naturalCalls exactFloats (.operation (.put 7 1))

theorem reachable_putProcess : Reachable naturalCalls exactFloats putProcess :=
  reachable_startedProcess.after fun _ hs => by cases hs

theorem lossless_iff_lastWins_putProcess :
    Lossless naturalCalls (.put 7 2) putProcess ↔ LastWins naturalCalls (.put 7 2) putProcess :=
  lossless_iff_lastWins reachable_putProcess (.put 7 2)

/-- **The second put of a process is lost**: after a put of the value 1, its put of the value 2
for the same key is ignored. -/
theorem second_put_ignored : Reachable naturalCalls exactFloats putProcess ∧
    putProcess.pologMode = .normal ∧ ¬ Lossless naturalCalls (.put 7 2) putProcess := by
  refine ⟨reachable_putProcess, by decide +kernel, fun h => ?_⟩
  have hfind := congrArg (Maps.find 7) (h ∅)
  revert hfind
  decide +kernel

end CloudI.Crdt
