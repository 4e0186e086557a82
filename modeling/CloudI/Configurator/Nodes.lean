import CloudI.Erlang.Lists
import CloudI.Library.Run
import CloudI.Library.WaitFor
import Mathlib.Data.Fintype.Basic

/-!
# Configurator.Nodes

`nodes_set`, `nodes_add` and `nodes_remove` of `cloudi_core_i_configurator`, on connected nodes
with one configurator each.

A configurator that changes its nodes for an administrator calls all others, and waits for their
replies inside its own `handle_call`.  It holds a lock meanwhile, whose resource is the argument
of the change.  Both make it wait: for the lock, and then for configurators that may be waiting
themselves (`nodes_call_deadlocks`).

A reply is received when it is sent.  The lock is taken as mutual exclusion on its resource.
-/

namespace CloudI.Configurator

open Run WaitFor List
open Function (update update_self update_of_ne)

variable {Node Opt Options : Type} [LinearOrder Node] [DecidableEq Opt] [DecidableEq Options]

/-! ## the configuration -/

/-- `connect`. -/
inductive Connect where
  | visible
  | hidden
  deriving DecidableEq

/-- `#config_nodes{}`; `options` are the fields besides the nodes and `connect`. -/
structure ConfigNodes (Node Options : Type) where
  nodes : List Node
  connect : Connect
  options : Options
  deriving DecidableEq

/-- An element of the argument: a node name, or an option for `nodes_set`. -/
inductive Element (Node Opt : Type) where
  | node (n : Node)
  | option (o : Opt)
  deriving DecidableEq

/-- The function of a request. -/
inductive Change where
  | nodesSet
  | nodesAdd
  | nodesRemove
  deriving DecidableEq

/-- Why a request fails. -/
inductive Reason (Node Opt : Type) where
  | nodeInvalid (l : List (Element Node Opt))
  | nodeNotFound (n : Node)
  | options (l : List Opt)
  | reconfigure
  | remote (nodes : List Node)

/-- What the configuration relies on: `validate_node/1` (is it a node name), and the options that
`nodes_options/2` takes. -/
structure Validate (Node Opt Options : Type) where
  node : Node → Bool
  options : List Node → List Opt → Option (ConfigNodes Node Options)

/-- The node names of an argument. -/
def literals : List (Element Node Opt) → List Node
  | [] => []
  | .node n :: l => n :: literals l
  | .option _ :: l => literals l

/-- The options of an argument. -/
def optionsOf : List (Element Node Opt) → List Opt
  | [] => []
  | .node _ :: l => optionsOf l
  | .option o :: l => o :: optionsOf l

variable (validate : Validate Node Opt Options) (self : Node)

def nodesValidate : List Node → Except (Reason Node Opt) Unit
  | [] => .ok ()
  | n :: l => if validate.node n then nodesValidate l else .error (.nodeInvalid [.node n])

def nodesProplist (value : List (Element Node Opt)) :
    Except (Reason Node Opt) (ConfigNodes Node Options) := do
  let nodes := (Lists.usort (literals value)).erase self
  nodesValidate validate nodes
  match validate.options nodes (optionsOf value) with
  | none => .error (.options (optionsOf value))
  | some config => pure config

def nodesElementsAdd :
    List (Element Node Opt) → ConfigNodes Node Options →
      Except (Reason Node Opt) (ConfigNodes Node Options)
  | [], config => .ok config
  | .node n :: l, config =>
      if n = self then nodesElementsAdd l config
      else if validate.node n then
        nodesElementsAdd l { config with nodes := Lists.umerge config.nodes [n] }
      else .error (.nodeInvalid [.node n])
  | .option o :: _, _ => .error (.nodeInvalid [.option o])

def nodesElementsRemove :
    List (Element Node Opt) → ConfigNodes Node Options →
      Except (Reason Node Opt) (ConfigNodes Node Options)
  | [], config => .ok config
  | .node n :: l, config =>
      if n = self then nodesElementsRemove l config
      else if n ∈ config.nodes then
        nodesElementsRemove l { config with nodes := config.nodes.erase n }
      else .error (.nodeNotFound n)
  | .option o :: _, _ => .error (.nodeInvalid [.option o])

/-- `cloudi_core_i_configuration:F(L, Config)`, of a list that is not empty. -/
def configure (change : Change) (value : List (Element Node Opt))
    (config : ConfigNodes Node Options) : Except (Reason Node Opt) (ConfigNodes Node Options) :=
  match change, value with
  | .nodesSet, value => nodesProplist validate self value
  | .nodesAdd, .node n :: l =>
      nodesElementsAdd validate self ((.node n :: l).erase (.node self)) config
  | .nodesRemove, .node n :: l => nodesElementsRemove self (.node n :: l) config
  | _, value => .error (.nodeInvalid value)

/-! ## configurators -/

/-- `{F, L, local}` of an administrator or, with a source, `{F, L, remote}`. -/
structure Request (Node Opt : Type) where
  change : Change
  value : List (Element Node Opt)
  source : Option Node

/-- What a configurator does: nothing, it waits for the lock, or it has the lock and waits for
the replies of `gen_server:multi_call/4`. -/
inductive Phase (Node Opt Options : Type) where
  | idle
  | locking (request : Request Node Opt) (config : ConfigNodes Node Options)
  | calling (request : Request Node Opt) (config : ConfigNodes Node Options) (waiting : List Node)
      (errors : List Node)

/-- A reply: `ok` or `{error, Reason}`. -/
abbrev Reply (Node Opt : Type) := Except (Reason Node Opt) Unit

/-- A configurator, with the replies that its administrators got. -/
structure Process (Node Opt Options : Type) where
  config : ConfigNodes Node Options
  mailbox : List (Request Node Opt) := []
  phase : Phase Node Opt Options := .idle
  replies : List (Reply Node Opt) := []

/-- The configurators, and the locks that are held. -/
structure Nodes (Node Opt Options : Type) where
  configurators : Node → Process Node Opt Options
  locks : List (List (Element Node Opt) × Node) := []

/-- A step: an administrator makes a call, a configurator handles the next message, gets the lock,
or has all replies.  `reconfigured` is the result of `cloudi_core_i_nodes:reconfigure/2`. -/
inductive Label (Node Opt : Type) where
  | call (n : Node) (change : Change) (value : List (Element Node Opt))
  | handle (n : Node) (reconfigured : Bool)
  | lock (n : Node)
  | finish (n : Node) (reconfigured : Bool)

/-! ## steps -/

variable {w w' : Nodes Node Opt Options} {n m p : Node}

/-- A configurator that changed. -/
def Nodes.put (w : Nodes Node Opt Options) (n : Node) (c : Process Node Opt Options) :
    Nodes Node Opt Options :=
  { w with configurators := update w.configurators n c }

/-- What a configurator that calls does with the reply of a node. -/
def Phase.received (n : Node) (reply : Reply Node Opt) :
    Phase Node Opt Options → Phase Node Opt Options
  | .calling request config waiting errors =>
      .calling request config (waiting.erase n)
        (match reply with
          | .ok _ => errors
          | .error _ => errors ++ [n])
  | phase => phase

/-- The reply of a configurator: to an administrator, or to the configurator that calls it. -/
def Nodes.reply (w : Nodes Node Opt Options) (n : Node) (reply : Reply Node Opt) :
    Option Node → Nodes Node Opt Options
  | none =>
      w.put n { w.configurators n with replies := (w.configurators n).replies ++ [reply] }
  | some source =>
      w.put source { w.configurators source with
        phase := (w.configurators source).phase.received n reply }

/-- A local call of `cloudi_core_i_nodes:reconfigure/2` with the new configuration, and the
reply. -/
def Nodes.reconfigure (w : Nodes Node Opt Options) (n : Node)
    (config : ConfigNodes Node Options) (reconfigured : Bool) (result : Reply Node Opt)
    (source : Option Node) : Nodes Node Opt Options :=
  if reconfigured then
    (w.put n { w.configurators n with config }).reply n result source
  else w.reply n (.error .reconfigure) source

/-- `nodes_call/2`, of the first message of the mailbox. -/
def nodesCall (w : Nodes Node Opt Options) (n : Node) (request : Request Node Opt)
    (reconfigured : Bool) : Nodes Node Opt Options :=
  match configure validate n request.change request.value (w.configurators n).config with
  | .error reason => w.reply n (.error reason) request.source
  | .ok config =>
      if config = (w.configurators n).config then w.reply n (.ok ()) request.source
      else
        match request.source with
        | some source => w.reconfigure n config reconfigured (.ok ()) (some source)
        | none =>
            w.put n { w.configurators n with
              phase := .locking request config }

/-- `gen_server:multi_call/4`: the request in the mailbox of each node. -/
def multiCall (w : Nodes Node Opt Options) (nodes : List Node) (request : Request Node Opt) :
    Nodes Node Opt Options :=
  { w with
    configurators := fun m =>
      if m ∈ nodes then
        { w.configurators m with mailbox := (w.configurators m).mailbox ++ [request] }
      else w.configurators m }

def nodesCallRemoteResult (errors : List Node) : Reply Node Opt :=
  if errors = [] then .ok () else .error (.remote errors)

/-- A step of the system; `none` when it is not enabled.  `connected` is `nodes()` or
`nodes(connected)`. -/
def next (connected : Connect → Node → List Node) (w : Nodes Node Opt Options) :
    Label Node Opt → Option (Nodes Node Opt Options)
  | .call n change value =>
      let c := w.configurators n
      if value = [] then none
      else some (w.put n { c with mailbox := c.mailbox ++ [⟨change, value, none⟩] })
  | .handle n reconfigured =>
      let c := w.configurators n
      match c.phase, c.mailbox with
      | .idle, request :: mailbox =>
          some (nodesCall validate (w.put n { c with mailbox }) n request reconfigured)
      | _, _ => none
  | .lock n =>
      let c := w.configurators n
      match c.phase with
      | .locking request config =>
          let nodes := connected config.connect n
          if ∃ held ∈ w.locks, held.1 = request.value then none
          else
            some (multiCall
              { w.put n { c with phase := .calling request config nodes [] } with
                locks := (request.value, n) :: w.locks }
              nodes { request with source := some n })
      | _ => none
  | .finish n reconfigured =>
      let c := w.configurators n
      match c.phase with
      | .calling request config [] errors =>
          some (Nodes.reconfigure
            { w.put n { c with phase := .idle } with
              locks := w.locks.filter (· ≠ (request.value, n)) }
            n config reconfigured (nodesCallRemoteResult errors) none)
      | _ => none

/-! ## waiting -/

/-- Whom a configurator waits for: those that have not replied, or the holder of the lock. -/
def Phase.WaitsFor (locks : List (List (Element Node Opt) × Node)) (m : Node) :
    Phase Node Opt Options → Prop
  | .idle => False
  | .locking request _ => (request.value, m) ∈ locks
  | .calling _ _ waiting _ => m ∈ waiting

/-- **`n` waits for `m`**. -/
def Waits (w : Nodes Node Opt Options) (n m : Node) : Prop :=
  (w.configurators n).phase.WaitsFor w.locks m

instance (locks : List (List (Element Node Opt) × Node)) (m : Node)
    (phase : Phase Node Opt Options) : Decidable (phase.WaitsFor locks m) :=
  match phase with
  | .idle => isFalse id
  | .locking request _ => inferInstanceAs (Decidable ((request.value, m) ∈ locks))
  | .calling _ _ waiting _ => inferInstanceAs (Decidable (m ∈ waiting))

instance (w : Nodes Node Opt Options) (n m : Node) : Decidable (Waits w n m) :=
  inferInstanceAs (Decidable ((w.configurators n).phase.WaitsFor w.locks m))

/-- **No deadlock**: no configurators each wait for the next. -/
def DeadlockFree (w : Nodes Node Opt Options) : Prop := Acyclic (Waits w)

/-- The configurators wait for nothing, and no lock is held. -/
structure Start (w : Nodes Node Opt Options) : Prop where
  phase : ∀ n, (w.configurators n).phase = .idle
  locks : w.locks = []

/-- The resource of the lock, when `n` takes an administrator's call that changes its nodes. -/
def takesChange (w : Nodes Node Opt Options) (n : Node) : Option (List (Element Node Opt)) :=
  match (w.configurators n).mailbox with
  | [] => none
  | request :: _ =>
      match request.source, configure validate n request.change request.value
          (w.configurators n).config with
      | none, .ok config =>
          if config = (w.configurators n).config then none else some request.value
      | _, _ => none

/-- The resource that a configurator waits to lock. -/
def Phase.resource? : Phase Node Opt Options → Option (List (Element Node Opt))
  | .locking request _ => some request.value
  | _ => none

/-- **A configurator starts to wait only when nobody waits for it**: for its reply when it has to
wait for the lock, and for its reply or the same lock when it gets the lock. -/
def StepOk (w : Nodes Node Opt Options) : Label Node Opt → Prop
  | .handle n _ => ∀ value ∈ takesChange validate w n, (∃ held ∈ w.locks, held.1 = value) →
      ∀ m, ¬ Waits w m n
  | .lock n => ∀ m, ¬ Waits w m n ∧
      (m ≠ n → ∀ value ∈ (w.configurators n).phase.resource?,
        (w.configurators m).phase.resource? ≠ some value)
  | _ => True

instance [Fintype Node] (w : Nodes Node Opt Options) (l : Label Node Opt) :
    Decidable (StepOk validate w l) :=
  match l with
  | .handle n _ => inferInstanceAs (Decidable (∀ value ∈ takesChange validate w n,
      (∃ held ∈ w.locks, held.1 = value) → ∀ m, ¬ Waits w m n))
  | .lock n => inferInstanceAs (Decidable (∀ m, ¬ Waits w m n ∧
      (m ≠ n → ∀ value ∈ (w.configurators n).phase.resource?,
        (w.configurators m).phase.resource? ≠ some value)))
  | .call _ _ _ => isTrue trivial
  | .finish _ _ => isTrue trivial

/-! ## what a step changes -/

section Steps

variable {validate} {connected : Connect → Node → List Node} {c : Process Node Opt Options}
  {request : Request Node Opt} {reply : Reply Node Opt} {source : Option Node} {reconfigured : Bool}

section
omit [DecidableEq Opt] [DecidableEq Options]

theorem waits_put : Waits (w.put n c) m p ↔
    if m = n then c.phase.WaitsFor w.locks p else Waits w m p := by
  rw [Waits, Nodes.put]
  dsimp only
  by_cases hm : m = n
  · subst hm
    rw [if_pos rfl, update_self]
  · rw [if_neg hm, update_of_ne hm]
    rfl

theorem waits_put_of_eq (h : c.phase = (w.configurators n).phase) :
    Waits (w.put n c) m p ↔ Waits w m p := by
  rw [waits_put]
  by_cases hm : m = n
  · subst hm
    rw [if_pos rfl, h]
    rfl
  · rw [if_neg hm]

variable {phase : Phase Node Opt Options} {locks : List (List (Element Node Opt) × Node)}
  {config : ConfigNodes Node Options} {a b : Node} {nodes : List Node}
  {value : List (Element Node Opt)}

theorem waitsFor_received (h : (phase.received n reply).WaitsFor locks p) :
    phase.WaitsFor locks p := by
  cases phase with
  | calling request config waiting errors => exact mem_of_mem_erase h
  | _ => exact h

theorem waits_reply (h : Waits (w.reply n reply source) m p) : Waits w m p := by
  cases source with
  | none =>
    exact (waits_put_of_eq (by rfl)).mp h
  | some source =>
    rw [Nodes.reply, waits_put] at h
    by_cases hm : m = source
    · subst hm
      rw [if_pos rfl] at h
      exact waitsFor_received h
    · rwa [if_neg hm] at h

theorem waits_reconfigure (h : Waits (w.reconfigure n config reconfigured reply source) m p) :
    Waits w m p := by
  rw [Nodes.reconfigure] at h
  cases reconfigured with
  | true =>
    rw [if_pos rfl] at h
    exact (waits_put_of_eq (by rfl)).mp (waits_reply h)
  | false => exact waits_reply h

omit [LinearOrder Node] in
theorem not_waits_of_idle (h : (w.configurators n).phase = .idle) : ¬ Waits w n m := by
  rw [Waits, h]
  exact id

omit [LinearOrder Node] in
theorem waitsFor_mono (hlocks : ∀ held ∈ locks', held ∈ locks) (h : phase.WaitsFor locks' p) :
    phase.WaitsFor locks p := by
  cases phase with
  | locking request config => exact hlocks _ h
  | _ => exact h

theorem phase_lock (a : Node) : ((multiCall
      { w.put n { w.configurators n with phase := .calling request config nodes [] } with locks }
      nodes { request with source := some n }).configurators a).phase =
      if a = n then .calling request config nodes [] else (w.configurators a).phase := by
  rw [multiCall, Nodes.put]
  dsimp only
  by_cases ha : a = n
  · subst ha
    rw [update_self, if_pos rfl]
    by_cases hmem : a ∈ nodes
    · rw [if_pos hmem]
    · rw [if_neg hmem]
  · rw [update_of_ne ha, if_neg ha]
    by_cases hmem : a ∈ nodes
    · rw [if_pos hmem]
    · rw [if_neg hmem]

/-- **What getting the lock does**: `n` waits for its nodes, and those that wait for the same lock
wait for `n`. -/
theorem waits_lock (h : Waits (multiCall
      { w.put n { w.configurators n with phase := .calling request config nodes [] } with
        locks := (request.value, n) :: w.locks } nodes { request with source := some n }) a b) :
    (a = n ∧ b ∈ nodes) ∨ (a ≠ n ∧ Waits w a b) ∨
      (a ≠ n ∧ b = n ∧ (w.configurators a).phase.resource? = some request.value) := by
  rw [Waits, phase_lock] at h
  by_cases ha : a = n
  · rw [if_pos ha] at h
    exact .inl ⟨ha, h⟩
  · rw [if_neg ha] at h
    cases hother : (w.configurators a).phase with
    | idle =>
      rw [hother] at h
      exact h.elim
    | calling request' config' waiting errors =>
      rw [hother] at h
      refine .inr (.inl ⟨ha, ?_⟩)
      rw [Waits, hother]
      exact h
    | locking request' config' =>
      rw [hother] at h
      rcases mem_cons.mp h with heq | h
      · obtain ⟨hvalue, rfl⟩ := Prod.mk.inj heq
        refine .inr (.inr ⟨ha, rfl, ?_⟩)
        rw [Phase.resource?, hvalue]
      · refine .inr (.inl ⟨ha, ?_⟩)
        rw [Waits, hother]
        exact h

/-! ## the holders of the locks -/

/-- The configurator calls the others, with the lock on this resource. -/
def Phase.Holds (value : List (Element Node Opt)) : Phase Node Opt Options → Prop
  | .calling request _ _ _ => request.value = value
  | _ => False

theorem holds_received : (phase.received n reply).Holds value ↔ phase.Holds value := by
  cases phase <;> rfl

theorem holds_reply : ((w.reply n reply source).configurators m).phase.Holds value ↔
      (w.configurators m).phase.Holds value := by
  cases source with
  | none =>
    rw [Nodes.reply, Nodes.put]
    dsimp only
    by_cases hm : m = n
    · subst hm
      rw [update_self]
    · rw [update_of_ne hm]
  | some source =>
    rw [Nodes.reply, Nodes.put]
    dsimp only
    by_cases hm : m = source
    · subst hm
      rw [update_self]
      exact holds_received
    · rw [update_of_ne hm]

theorem locks_reply : (w.reply n reply source).locks = w.locks := by
  cases source <;> rfl

/-- The invariant: no deadlock, and the holder of a lock is calling. -/
structure NodesInv (w : Nodes Node Opt Options) : Prop where
  free : DeadlockFree w
  held : ∀ held ∈ w.locks, (w.configurators held.2).phase.Holds held.1

theorem holds_reconfigure :
    ((w.reconfigure n config reconfigured reply source).configurators m).phase.Holds value ↔
      (w.configurators m).phase.Holds value := by
  rw [Nodes.reconfigure]
  cases reconfigured with
  | false => exact holds_reply
  | true =>
    rw [if_pos rfl, holds_reply, Nodes.put]
    dsimp only
    by_cases hm : m = n
    · subst hm
      rw [update_self]
    · rw [update_of_ne hm]

theorem locks_reconfigure : (w.reconfigure n config reconfigured reply source).locks = w.locks := by
  rw [Nodes.reconfigure]
  cases reconfigured with
  | false => exact locks_reply
  | true => exact locks_reply

end

/-- **What a message does**: it ends waiting, or its configurator waits for the lock. -/
theorem waits_nodesCall (hmailbox : (w.configurators n).mailbox = request :: mailbox)
    (h : Waits (nodesCall validate
      (w.put n { w.configurators n with mailbox }) n request reconfigured) a b) : Waits w a b ∨
      a = n ∧ ∃ value ∈ takesChange validate w n, (value, b) ∈ w.locks := by
  have hput : ∀ a b, Waits (w.put n { w.configurators n with mailbox }) a b ↔ Waits w a b :=
    fun a b => waits_put_of_eq rfl
  have hself : (w.put n { w.configurators n with mailbox }).configurators n =
      { w.configurators n with mailbox } := update_self _ _ _
  rw [nodesCall, hself] at h
  cases hconfigure : configure validate n request.change request.value
      (w.configurators n).config with
  | error reason =>
    simp only [hconfigure] at h
    exact .inl ((hput a b).mp (waits_reply h))
  | ok config =>
    simp only [hconfigure] at h
    by_cases hsame : config = (w.configurators n).config
    · rw [if_pos hsame] at h
      exact .inl ((hput a b).mp (waits_reply h))
    · rw [if_neg hsame] at h
      cases hsource : request.source with
      | some source =>
        simp only [hsource] at h
        exact .inl ((hput a b).mp (waits_reconfigure h))
      | none =>
        simp only [hsource] at h
        rw [waits_put] at h
        by_cases ha : a = n
        · rw [if_pos ha] at h
          refine .inr ⟨ha, request.value, ?_, h⟩
          rw [takesChange, hmailbox]
          simp only [hsource, hconfigure, hsame, if_false]
          rfl
        · rw [if_neg ha] at h
          exact .inl ((hput a b).mp h)

/-- A message takes no lock, and its configurator had none. -/
theorem held_nodesCall (hidle : (w.configurators n).phase = .idle)
    (hheld : ∀ held ∈ w.locks, (w.configurators held.2).phase.Holds held.1) :
    ∀ held ∈ (nodesCall validate w n request reconfigured).locks,
      ((nodesCall validate w n request reconfigured).configurators held.2).phase.Holds held.1 := by
  have hne : ∀ held ∈ w.locks, held.2 ≠ n := by
    intro held hmem heq
    have hholds := hheld held hmem
    rw [heq, hidle] at hholds
    exact hholds
  intro held hmem
  rw [nodesCall] at hmem ⊢
  cases hconfigure : configure validate n request.change request.value
      (w.configurators n).config with
  | error reason =>
    simp only [hconfigure] at hmem ⊢
    rw [locks_reply] at hmem
    exact holds_reply.mpr (hheld held hmem)
  | ok config =>
    simp only [hconfigure] at hmem ⊢
    by_cases hsame : config = (w.configurators n).config
    · rw [if_pos hsame] at hmem ⊢
      rw [locks_reply] at hmem
      exact holds_reply.mpr (hheld held hmem)
    · rw [if_neg hsame] at hmem ⊢
      cases hsource : request.source with
      | some source =>
        simp only [hsource] at hmem ⊢
        rw [locks_reconfigure] at hmem
        exact holds_reconfigure.mpr (hheld held hmem)
      | none =>
        simp only [hsource] at hmem ⊢
        rw [Nodes.put]
        dsimp only
        rw [update_of_ne (hne held hmem)]
        exact hheld held hmem

/-! ## runs -/

theorem next_handle (h : next validate connected w (.handle n reconfigured) = some w') :
    ∃ request mailbox, (w.configurators n).phase = .idle ∧
      (w.configurators n).mailbox = request :: mailbox ∧
      w' = nodesCall validate (w.put n { w.configurators n with mailbox }) n request
        reconfigured := by
  rw [next] at h
  split at h
  · next request mailbox hphase hmailbox =>
    exact ⟨request, mailbox, hphase, hmailbox, (Option.some.inj h).symm⟩
  · cases h

/-- A lock that is taken. -/
theorem next_lock (h : next validate connected w (.lock n) = some w') :
    ∃ request config, (w.configurators n).phase = .locking request config ∧
      (∀ held ∈ w.locks, held.1 ≠ request.value) ∧
      w' = multiCall { w.put n { w.configurators n with
            phase := .calling request config (connected config.connect n) [] } with
          locks := (request.value, n) :: w.locks }
        (connected config.connect n) { request with source := some n } := by
  rw [next] at h
  dsimp only at h
  split at h
  · next request config hphase =>
    by_cases hheld : ∃ held ∈ w.locks, held.1 = request.value
    · rw [if_pos hheld] at h
      cases h
    · rw [if_neg hheld] at h
      exact ⟨request, config, hphase, fun held hmem heq => hheld ⟨held, hmem, heq⟩,
        (Option.some.inj h).symm⟩
  · cases h

theorem next_finish (h : next validate connected w (.finish n reconfigured) = some w') :
    ∃ request config errors, (w.configurators n).phase = .calling request config [] errors ∧
      w' = Nodes.reconfigure { w.put n { w.configurators n with phase := .idle } with
          locks := w.locks.filter (· ≠ (request.value, n)) }
        n config reconfigured (nodesCallRemoteResult errors) none := by
  rw [next] at h
  dsimp only at h
  split at h
  · next request config errors hphase =>
    exact ⟨request, config, errors, hphase, (Option.some.inj h).symm⟩
  · cases h

/-- **No step closes a cycle** when a configurator starts to wait only while nobody waits for
it. -/
theorem NodesInv.next (hself : ∀ connect n, n ∉ connected connect n) (h : NodesInv w)
    (hok : StepOk validate w l) (hnext : Configurator.next validate connected w l = some w') :
    NodesInv w' := by
  cases l with
  | call n change value =>
    rw [Configurator.next] at hnext
    by_cases hvalue : value = []
    · rw [if_pos hvalue] at hnext
      cases hnext
    · rw [if_neg hvalue] at hnext
      cases hnext
      refine ⟨h.free.mono fun a b hab => (waits_put_of_eq (by rfl)).mp hab, fun held hmem => ?_⟩
      rw [Nodes.put]
      dsimp only
      by_cases hm : held.2 = n
      · rw [hm, update_self]
        exact hm ▸ h.held held hmem
      · rw [update_of_ne hm]
        exact h.held held hmem
  | handle n reconfigured =>
    obtain ⟨request, mailbox, hidle, hmailbox, rfl⟩ := next_handle hnext
    refine ⟨?_, held_nodesCall ?_ fun held hmem => ?_⟩
    · by_cases hheld : ∃ value ∈ takesChange validate w n, ∃ held ∈ w.locks, held.1 = value
      · obtain ⟨value, hvalue, hheld⟩ := hheld
        have hnobody := hok value hvalue hheld
        refine h.free.start (x := n) (fun a b hab => ?_) fun a ha => ?_
        · exact (waits_nodesCall hmailbox hab).imp_right And.left
        · rcases waits_nodesCall hmailbox ha with ha | ⟨rfl, value', -, hlock⟩
          · exact hnobody a ha
          · have hholds := h.held _ hlock
            rw [hidle] at hholds
            exact hholds
      · refine h.free.mono fun a b hab => ?_
        rcases waits_nodesCall hmailbox hab with hab | ⟨-, value, hvalue, hlock⟩
        · exact hab
        · exact absurd ⟨value, hvalue, _, hlock, rfl⟩ hheld
    · rw [Nodes.put]
      dsimp only
      rw [update_self]
      exact hidle
    · rw [Nodes.put]
      dsimp only
      by_cases hm : held.2 = n
      · rw [hm, update_self]
        exact hm ▸ h.held held hmem
      · rw [update_of_ne hm]
        exact h.held held hmem
  | lock n =>
    obtain ⟨request, config, hphase, -, rfl⟩ := next_lock hnext
    have hqueued : ∀ a, a ≠ n → (w.configurators a).phase.resource? ≠ some request.value :=
      fun a ha => (hok a).2 ha request.value (by rw [hphase]; rfl)
    refine ⟨h.free.start (x := n) (fun a b hab => ?_) fun a ha => ?_, fun held hmem => ?_⟩
    · rcases waits_lock hab with ⟨ha, -⟩ | ⟨-, hab⟩ | ⟨ha, -, hsame⟩
      · exact .inr ha
      · exact .inl hab
      · exact absurd hsame (hqueued a ha)
    · rcases waits_lock ha with ⟨-, hmem⟩ | ⟨-, hwaits⟩ | ⟨ha, -, hsame⟩
      · exact hself _ _ hmem
      · exact (hok a).1 hwaits
      · exact absurd hsame (hqueued a ha)
    · rw [phase_lock]
      rcases mem_cons.mp hmem with rfl | hmem
      · rw [if_pos rfl]
        rfl
      · have hm : held.2 ≠ n := by
          intro heq
          have hholds := h.held held hmem
          rw [heq, hphase] at hholds
          exact hholds
        rw [if_neg hm]
        exact h.held held hmem
  | finish n reconfigured =>
    obtain ⟨request, config, errors, hphase, rfl⟩ := next_finish hnext
    refine ⟨h.free.mono fun a b hab => ?_, fun held hmem => ?_⟩
    · have hidle := waits_reconfigure hab
      by_cases ha : a = n
      · subst ha
        refine absurd hidle (not_waits_of_idle ?_)
        rw [Nodes.put]
        dsimp only
        rw [update_self]
      · rw [Waits, Nodes.put] at hidle
        dsimp only at hidle
        rw [update_of_ne ha] at hidle
        exact waitsFor_mono (fun held hmem => (mem_filter.mp hmem).1) hidle
    · rw [locks_reconfigure] at hmem
      obtain ⟨hmem, hne⟩ := mem_filter.mp hmem
      rw [holds_reconfigure, Nodes.put]
      dsimp only
      have hm : held.2 ≠ n := by
        intro heq
        have hholds := h.held held hmem
        rw [heq, hphase] at hholds
        have hpair : held = (request.value, n) := Prod.ext hholds.symm heq
        simp [hpair] at hne
      rw [update_of_ne hm]
      exact h.held held hmem

/-- **No deadlock** in any run in which a configurator starts to wait only while nobody waits for
it. -/
theorem deadlockFree_of_steps {labels : List (Label Node Opt)}
    (hself : ∀ connect n, n ∉ connected connect n) (hstart : Start w)
    (hsteps : Steps (Configurator.next validate connected) (StepOk validate) w labels w') :
    DeadlockFree w' := by
  have hinv : NodesInv w := by
    refine ⟨acyclic_of_forall fun a b => not_waits_of_idle (hstart.phase a), fun held hmem => ?_⟩
    rw [hstart.locks] at hmem
    cases hmem
  have hend : NodesInv w' :=
    hsteps.invariant (fun _ _ _ h hok hnext => h.next hself hok hnext) hinv
  exact hend.free

end Steps

/-! ## sample runs -/

/-- Four node names, all valid, and no options. -/
def plainValidate : Validate (Fin 4) Empty Unit where
  node := fun _ => true
  options := fun nodes _ => some ⟨nodes, .visible, ()⟩

/-- The nodes 0 and 1 are connected. -/
def pair (_ : Connect) (n : Fin 4) : List (Fin 4) :=
  if n = 0 then [1] else if n = 1 then [0] else []

/-- Two nodes that know each other. -/
def twoNodes : Nodes (Fin 4) Empty Unit where
  configurators := fun n => { config := ⟨pair .visible n, .visible, ()⟩ }

theorem not_mem_pair : ∀ n, n ∉ pair .visible n := by decide

theorem start_twoNodes : Start twoNodes := ⟨fun _ => rfl, rfl⟩

/-- The nodes after a run. -/
def nodesAfter (labels : List (Label (Fin 4) Empty)) : Nodes (Fin 4) Empty Unit :=
  (run (next plainValidate pair) twoNodes labels).getD twoNodes

/-- The node 0 adds the node 2, and then the node 1 adds the node 3. -/
def oneAfterTheOther : List (Label (Fin 4) Empty) :=
  [.call 0 .nodesAdd [.node 2], .handle 0 true, .lock 0, .handle 1 true, .finish 0 true,
    .call 1 .nodesAdd [.node 3], .handle 1 true, .lock 1]

/-- Both nodes add a node at the same time. -/
def atTheSameTime : List (Label (Fin 4) Empty) :=
  [.call 0 .nodesAdd [.node 2], .call 1 .nodesAdd [.node 3], .handle 0 true, .lock 0,
    .handle 1 true, .lock 1]

theorem deadlockFree_of_steps_add : DeadlockFree (nodesAfter oneAfterTheOther) := by
  have hsteps : Steps (next plainValidate pair) (StepOk plainValidate) twoNodes oneAfterTheOther
      (nodesAfter oneAfterTheOther) :=
    steps_getD_of_checked (by decide +kernel)
  exact deadlockFree_of_steps (fun _ => not_mem_pair) start_twoNodes hsteps

/-- **Two administrators add a node at the same time**, on two connected nodes: each configurator
has its own lock, and waits for the reply of the other. -/
theorem nodes_call_deadlocks :
    ∃ (labels : List (Label (Fin 4) Empty)) (w : Nodes (Fin 4) Empty Unit), Start twoNodes ∧
        Steps (next plainValidate pair) (fun _ _ => True) twoNodes labels w ∧
        ¬ DeadlockFree w := by
  have hsteps : Steps (next plainValidate pair) (fun _ _ => True) twoNodes atTheSameTime
      (nodesAfter atTheSameTime) :=
    steps_getD_of_checked (by decide +kernel)
  have h01 : Waits (nodesAfter atTheSameTime) 0 1 := by decide +kernel
  have h10 : Waits (nodesAfter atTheSameTime) 1 0 := by decide +kernel
  exact ⟨_, _, start_twoNodes, hsteps, not_acyclic_of_both h01 h10⟩

end CloudI.Configurator
