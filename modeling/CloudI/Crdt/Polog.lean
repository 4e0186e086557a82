import CloudI.Crdt.Clock

/-!
# Crdt.Polog

The write operations of `cloudi_crdt`, their effect on the data, and the POLog:
the partially ordered log of the operations that are not stable yet, newest first.

Event ids and events are left out, and so are the versions of modules: no
function of the POLog or the data depends on them.  Numbers and the functions
that an update calls are parameters.

`replay polog data` is the data after all operations of a POLog.
-/

namespace CloudI.Crdt

open List

variable {ν K V F : Type} [LinearOrder ν] [LinearOrder K]

/-! ## operations -/

/-- The numbers, and the functions of an update with one and with two arguments. -/
structure Calls (V F : Type) where
  isNumber : V → Bool
  add : V → V → V
  sub : V → V → V
  call1 : F → V → V
  call2 : F → V → V → V

/-- `operation_write()`. -/
inductive Operation (K V F : Type) where
  | assign (key : K) (value : V)
  | incr (key : K) (value : V)
  | decr (key : K) (value : V)
  | update (key : K) (function : F)
  | updateArgument (key : K) (function : F) (argument : V)
  | updateAssign (key : K) (value : V) (function : F)
  | updateAssignArgument (key : K) (value : V) (function : F) (argument : V)
  | put (key : K) (value : V)
  | clear (key : K)
  | clearAll
  deriving DecidableEq

abbrev Data (K V : Type) [LinearOrder K] := ErlMap K V

variable (calls : Calls V F)

def write :
    Operation K V F → Data K V → Data K V
  | .assign key valueNew, data => Maps.updateWith key id valueNew data
  | .incr key value, data =>
      Maps.update key (fun old => if calls.isNumber old then calls.add old value else old) data
  | .decr key value, data =>
      Maps.update key (fun old => if calls.isNumber old then calls.sub old value else old) data
  | .update key function, data => Maps.update key (calls.call1 function) data
  | .updateArgument key function argument, data =>
      Maps.update key (calls.call2 function argument) data
  | .updateAssign key value function, data =>
      Maps.updateWith key (calls.call1 function) value data
  | .updateAssignArgument key value function argument, data =>
      Maps.updateWith key (calls.call2 function argument) value data
  | .put key valueNew, data => Maps.put key valueNew data
  | .clear key, data => Maps.remove key data
  | .clearAll, _ => ∅

/-- The key that a `put` or a `clear` replaces. -/
def Operation.replaces : Operation K V F → Option K
  | .put key _ | .clear key => some key
  | _ => none

/-- What an operation does to the value of one key. -/
def effect (k : K) :
    Operation K V F → Option V → Option V
  | .assign key value, o => if key = k then some (o.elim value id) else o
  | .incr key value, o =>
      if key = k then
        o.map fun old => if calls.isNumber old then calls.add old value else old
      else o
  | .decr key value, o =>
      if key = k then
        o.map fun old => if calls.isNumber old then calls.sub old value else old
      else o
  | .update key function, o => if key = k then o.map (calls.call1 function) else o
  | .updateArgument key function argument, o =>
      if key = k then o.map (calls.call2 function argument) else o
  | .updateAssign key value function, o =>
      if key = k then some (o.elim value (calls.call1 function)) else o
  | .updateAssignArgument key value function argument, o =>
      if key = k then some (o.elim value (calls.call2 function argument)) else o
  | .put key value, o => if key = k then some value else o
  | .clear key, o => if key = k then none else o
  | .clearAll, _ => none

/-- **A write is pointwise**: the value of a key depends on nothing but its old value. -/
theorem find_write (op : Operation K V F) (data : Data K V) (k : K) :
    Maps.find k (write calls op data) = effect calls k op (Maps.find k data) := by
  have hkey : ∀ key : K, ∀ a b : Option V, (key = k → a = b) →
      (if key = k then a else Maps.find k data) = if key = k then b else Maps.find k data := by
    intro key a b hab
    by_cases hk : key = k
    · rw [if_pos hk, if_pos hk, hab hk]
    · rw [if_neg hk, if_neg hk]
  cases op with
  | assign key value =>
    rw [write, effect, Maps.find_updateWith]
    exact hkey key _ _ fun hk => by rw [hk]
  | incr key value =>
    rw [write, effect, Maps.find_update]
    exact hkey key _ _ fun hk => by rw [hk]
  | decr key value =>
    rw [write, effect, Maps.find_update]
    exact hkey key _ _ fun hk => by rw [hk]
  | update key function =>
    rw [write, effect, Maps.find_update]
    exact hkey key _ _ fun hk => by rw [hk]
  | updateArgument key function argument =>
    rw [write, effect, Maps.find_update]
    exact hkey key _ _ fun hk => by rw [hk]
  | updateAssign key value function =>
    rw [write, effect, Maps.find_updateWith]
    exact hkey key _ _ fun hk => by rw [hk]
  | updateAssignArgument key value function argument =>
    rw [write, effect, Maps.find_updateWith]
    exact hkey key _ _ fun hk => by rw [hk]
  | put key value => rw [write, effect, Maps.find_put]
  | clear key => rw [write, effect, Maps.find_remove]
  | clearAll => rw [write, effect, Maps.find_empty]

variable {op : Operation K V F}

theorem effect_of_replaces (h : op.replaces = some key) (calls : Calls V F)
    (o o' : Option V) : effect calls key op o = effect calls key op o' := by
  cases op with
  | put key' value =>
    cases h
    rw [effect, effect, if_pos rfl, if_pos rfl]
  | clear key' =>
    cases h
    rw [effect, effect, if_pos rfl, if_pos rfl]
  | _ => cases h

theorem effect_of_replaces_ne (h : op.replaces = some key) (hk : key ≠ k) (calls : Calls V F)
    (o : Option V) : effect calls k op o = o := by
  cases op with
  | put key' value =>
    cases h
    rw [effect, if_neg hk]
  | clear key' =>
    cases h
    rw [effect, if_neg hk]
  | _ => cases h

/-- Two operations that can be written in either order. -/
def Commute (op op' : Operation K V F) : Prop :=
  ∀ data : Data K V, write calls op (write calls op' data) =
    write calls op' (write calls op data)

/-! ## the POLog -/

/-- An operation of the POLog.  `id` is the process that issued the operation and the
clock of that process when it sent it: no process reads it, it is there to say which
operation an entry is. -/
structure Entry (ν K V F : Type) [LinearOrder ν] where
  vclock : VClock ν
  operation : Operation K V F
  id : ν × Nat

def pologDuplicateOperation (c : VClock ν) (polog : List (Entry ν K V F)) : Bool :=
  polog.any fun e => decide (e.vclock = c)

/-- `polog_redundancy_relation_key/4` and `polog_redundancy_relation_conflict_resolve/5`;
`true` is `add` and `false` is `ignore`. -/
def pologRedundancyRelationKey (key : K) (c : VClock ν) :
    List (Entry ν K V F) → List (Entry ν K V F) →
    Bool × List (Entry ν K V F)
  | [], polog => (true, polog.reverse)
  | e :: pologWithout, polog =>
      if e.operation.replaces = some key then
        if vclockLessThan e.vclock c then (true, polog.reverse ++ pologWithout)
        else (false, polog.reverse ++ e :: pologWithout)
      else pologRedundancyRelationKey key c pologWithout (e :: polog)

def pologRedundancyRelationClearAll (c : VClock ν) :
    List (Entry ν K V F) → List (Entry ν K V F) →
    Bool × List (Entry ν K V F)
  | [], polog => (true, polog.reverse)
  | e :: pologWithout, polog =>
      if vclockLessThan e.vclock c then pologRedundancyRelationClearAll c pologWithout polog
      else pologRedundancyRelationClearAll c pologWithout (e :: polog)

def pologRedundancyRelation (op : Operation K V F) (c : VClock ν)
    (polog : List (Entry ν K V F)) : Bool × List (Entry ν K V F) :=
  match op with
  | .put key _ | .clear key => pologRedundancyRelationKey key c polog []
  | .clearAll => pologRedundancyRelationClearAll c polog []
  | _ => (true, polog)

def pologEffect (op : Operation K V F) (c : VClock ν) (id : ν × Nat)
    (polog : List (Entry ν K V F)) : List (Entry ν K V F) :=
  if pologDuplicateOperation c polog then polog
  else match pologRedundancyRelation op c polog with
    | (false, pologN) => pologN
    | (true, pologN) => ⟨c, op, id⟩ :: pologN

/-- The loop of `polog_stable/6`, from the oldest operation to the newest. -/
def pologStableLoop (calls : Calls V F) (vclockMin : VClock ν) :
    List (Entry ν K V F) → List (Entry ν K V F) →
    Data K V → List (Entry ν K V F) × Data K V
  | [], pologNew, data => (pologNew, data)
  | e :: pologOld, pologNew, data =>
      if vclockLessThan e.vclock vclockMin then
        pologStableLoop calls vclockMin pologOld pologNew (write calls e.operation data)
      else pologStableLoop calls vclockMin pologOld (e :: pologNew) data

def pologStable (polog : List (Entry ν K V F))
    (data : Data K V) (vclockMin : VClock ν) :
    List (Entry ν K V F) × Data K V :=
  pologStableLoop calls vclockMin polog.reverse [] data

/-- The data after all operations of a POLog. -/
def replay (polog : List (Entry ν K V F)) (data : Data K V) : Data K V :=
  polog.foldr (fun e data => write calls e.operation data) data

/-! ## stable operations -/

theorem pologStableLoop_eq (vclockMin : VClock ν)
    (l polog : List (Entry ν K V F)) (data : Data K V) :
    pologStableLoop calls vclockMin l polog data =
      (l.reverse.filter (fun e => !vclockLessThan e.vclock vclockMin) ++ polog,
        replay calls (l.reverse.filter fun e => vclockLessThan e.vclock vclockMin) data) := by
  induction l generalizing polog data with
  | nil => rfl
  | cons e l ih =>
    rw [pologStableLoop, reverse_cons]
    by_cases he : vclockLessThan e.vclock vclockMin = true
    · rw [if_pos he, ih]
      simp [he, replay]
    · rw [if_neg he, ih]
      simp [he]

/-- **Stable operations**: those that are less than the minimum go to the data. -/
theorem pologStable_eq
    (polog : List (Entry ν K V F)) (data : Data K V)
    (vclockMin : VClock ν) : pologStable calls polog data vclockMin =
      (polog.filter (fun e => !vclockLessThan e.vclock vclockMin),
        replay calls (polog.filter fun e => vclockLessThan e.vclock vclockMin) data) := by
  rw [pologStable, pologStableLoop_eq, reverse_reverse, append_nil]

/-- The clocks of a POLog are below those of the newer operations. -/
def Ascending (polog : List (Entry ν K V F)) : Prop :=
  polog.Pairwise fun newer older => Below older.vclock newer.vclock

/-- A POLog in order is replayed to the same data after some of it got stable. -/
theorem replay_pologStable (h : Ascending polog) (data : Data K V)
    (vclockMin : VClock ν) : replay calls (pologStable calls polog data vclockMin).1
      (pologStable calls polog data vclockMin).2 = replay calls polog data := by
  rw [pologStable_eq]
  induction polog with
  | nil => rfl
  | cons e polog ih =>
    rw [Ascending, pairwise_cons] at h
    by_cases he : vclockLessThan e.vclock vclockMin = true
    · have hall : ∀ e' ∈ polog, vclockLessThan e'.vclock vclockMin = true := fun e' he' =>
        vclockLessThan_of_below (h.1 e' he') he
      have hnone : (e :: polog).filter (fun e => !vclockLessThan e.vclock vclockMin) = [] := by
        simpa [he] using hall
      have hkeep : (e :: polog).filter (fun e => vclockLessThan e.vclock vclockMin) = e :: polog := by
        simpa [he] using hall
      rw [hnone, hkeep]
      rfl
    · have ih' := ih h.2
      simp only [filter_cons, he]
      simpa [replay] using congrArg (write calls e.operation) ih'

/-! ## the effect of an operation -/

/-- **The operation is kept**: the newest operation of the POLog that replaces the same
key, if there is one, is less than the new one. -/
def Kept (op : Operation K V F) (c : VClock ν)
    (polog : List (Entry ν K V F)) : Prop :=
  ∀ key, op.replaces = some key →
    ∀ e, polog.find? (fun e => e.operation.replaces = some key) = some e →
      vclockLessThan e.vclock c = true

theorem pologRedundancyRelationKey_eq (key : K) (c : VClock ν)
    (l polog : List (Entry ν K V F)) :
    pologRedundancyRelationKey key c l polog =
      match l.find? (fun e => e.operation.replaces = some key) with
      | none => (true, polog.reverse ++ l)
      | some e =>
        if vclockLessThan e.vclock c then
          (true, polog.reverse ++ l.eraseP fun e => e.operation.replaces = some key)
        else (false, polog.reverse ++ l) := by
  induction l generalizing polog with
  | nil => simp [pologRedundancyRelationKey]
  | cons e l ih =>
    rw [pologRedundancyRelationKey]
    by_cases he : e.operation.replaces = some key
    · simp [he]
    · rw [if_neg he, ih]
      simp only [find?_cons, he, decide_false, reverse_cons, append_assoc,
        singleton_append, Bool.false_eq_true, not_false_eq_true, eraseP_cons_of_neg]

omit [LinearOrder K] in
theorem pologRedundancyRelationClearAll_eq (c : VClock ν)
    (l polog : List (Entry ν K V F)) :
    pologRedundancyRelationClearAll c l polog =
      (true, polog.reverse ++ l.filter fun e => !vclockLessThan e.vclock c) := by
  induction l generalizing polog with
  | nil => simp [pologRedundancyRelationClearAll]
  | cons e l ih =>
    rw [pologRedundancyRelationClearAll]
    by_cases he : vclockLessThan e.vclock c = true
    · rw [if_pos he, ih]
      simp [he]
    · rw [if_neg he, ih]
      simp [he]

/-- The redundancy relation takes operations out of the POLog and adds none. -/
theorem pologRedundancyRelation_sublist (op : Operation K V F) (c : VClock ν)
    (polog : List (Entry ν K V F)) :
    (pologRedundancyRelation op c polog).2.Sublist polog := by
  have hkey : ∀ key, (pologRedundancyRelationKey key c polog []).2.Sublist polog := by
    intro key
    rw [pologRedundancyRelationKey_eq]
    cases polog.find? fun e => e.operation.replaces = some key with
    | none => exact List.Sublist.refl polog
    | some e =>
      by_cases he : vclockLessThan e.vclock c = true
      · simp only [if_pos he]
        exact eraseP_sublist
      · simp only [if_neg he]
        exact List.Sublist.refl polog
  cases op with
  | put key value => exact hkey key
  | clear key => exact hkey key
  | clearAll =>
    rw [pologRedundancyRelation, pologRedundancyRelationClearAll_eq]
    exact filter_sublist
  | _ => exact List.Sublist.refl polog

theorem write_replay_eraseP (h : op.replaces = some key)
    (polog : List (Entry ν K V F)) (data : Data K V) :
    write calls op (replay calls (polog.eraseP fun e => e.operation.replaces = some key) data) =
      write calls op (replay calls polog data) := by
  refine Maps.ext fun k => ?_
  rw [find_write, find_write]
  by_cases hk : key = k
  · subst hk
    exact effect_of_replaces h calls _ _
  · rw [effect_of_replaces_ne h hk, effect_of_replaces_ne h hk]
    induction polog with
    | nil => rfl
    | cons e polog ih =>
      by_cases he : e.operation.replaces = some key
      · rw [eraseP_cons_of_pos (by simpa using he)]
        show _ = Maps.find k (write calls e.operation (replay calls polog data))
        rw [find_write, effect_of_replaces_ne he hk]
      · rw [eraseP_cons_of_neg (by simpa using he)]
        show Maps.find k (write calls e.operation (replay calls _ data)) =
          Maps.find k (write calls e.operation (replay calls polog data))
        rw [find_write, find_write, ih]

/-- **A kept operation** is added, and the operations that are taken out for it change
nothing. -/
theorem pologEffect_of_kept (hnew : ∀ e ∈ polog, e.vclock ≠ c)
    (hkept : Kept op c polog) (id : ν × Nat) :
    ∃ rest, pologEffect op c id polog = ⟨c, op, id⟩ :: rest ∧ rest.Sublist polog ∧
      ∀ data : Data K V,
        write calls op (replay calls rest data) = write calls op (replay calls polog data) := by
  have hduplicate : pologDuplicateOperation c polog = false := by
    simpa [pologDuplicateOperation] using hnew
  have hkey : ∀ key, op.replaces = some key →
      pologRedundancyRelation op c polog = pologRedundancyRelationKey key c polog [] →
      ∃ rest, pologEffect op c id polog = ⟨c, op, id⟩ :: rest ∧ rest.Sublist polog ∧
        ∀ data : Data K V,
          write calls op (replay calls rest data) = write calls op (replay calls polog data) := by
    intro key hreplaces hrelation
    rw [pologRedundancyRelationKey_eq] at hrelation
    cases hfind : polog.find? fun e => e.operation.replaces = some key with
    | none =>
      simp only [hfind] at hrelation
      exact ⟨polog, by simp [pologEffect, hduplicate, hrelation], List.Sublist.refl _, fun _ => rfl⟩
    | some e =>
      simp only [hfind, if_pos (hkept key hreplaces e hfind)] at hrelation
      exact ⟨_, by rw [pologEffect, if_neg (by simp [hduplicate]), hrelation]; rfl,
        eraseP_sublist, write_replay_eraseP calls hreplaces polog⟩
  have hadd : pologRedundancyRelation op c polog = (true, polog) →
      ∃ rest, pologEffect op c id polog = ⟨c, op, id⟩ :: rest ∧ rest.Sublist polog ∧
        ∀ data : Data K V,
          write calls op (replay calls rest data) = write calls op (replay calls polog data) :=
    fun hrelation => ⟨polog, by simp [pologEffect, hduplicate, hrelation], List.Sublist.refl _,
      fun _ => rfl⟩
  cases op with
  | put key value => exact hkey key rfl rfl
  | clear key => exact hkey key rfl rfl
  | clearAll =>
    have hrelation : pologRedundancyRelation .clearAll c polog =
        (true, polog.filter fun e => !vclockLessThan e.vclock c) := by
      rw [pologRedundancyRelation, pologRedundancyRelationClearAll_eq]
      rfl
    exact ⟨_, by rw [pologEffect, if_neg (by simp [hduplicate]), hrelation],
      filter_sublist, fun _ => rfl⟩
  | _ => exact hadd rfl

end CloudI.Crdt
