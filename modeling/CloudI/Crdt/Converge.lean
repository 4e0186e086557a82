import CloudI.Crdt.Network
import CloudI.Library.Run

/-!
# Crdt.Converge

The data of the processes converge in every run in which each operation can be taken where it
is.  Every process has the same data after the operations that it is missing are written as
well (`caught`), and what it is missing from another process is what is in flight from there
(`flight`).

Two processes that write the same key at the same time do not converge: each of them stamps
the operation of the other one with a clock above its own operation (`diverges`).
-/

namespace CloudI.Crdt

open Flight Run List Option
open Function (update update_self update_of_ne)

variable {ν K V F : Type} [LinearOrder ν] [LinearOrder K]
  {calls : Calls V F} {nodes : List ν} {w w' : World ν K V F}
  {n m a p : ν} {op : Operation K V F} {request : Request ν K V F}

/-! ## missing operations -/

/-- The data after the missing operations are written as well. -/
def catchUp (calls : Calls V F) (missing : List (ν × Operation K V F))
    (data : Data K V) : Data K V :=
  missing.foldl (fun data x => write calls x.2 data) data

omit [LinearOrder ν] in
theorem catchUp_append (l1 l2 : List (ν × Operation K V F)) (data : Data K V) :
    catchUp calls (l1 ++ l2) data = catchUp calls l2 (catchUp calls l1 data) :=
  foldl_append

omit [LinearOrder ν] in
theorem catchUp_write {l : List (ν × Operation K V F)}
    (h : ∀ x ∈ l, Commute calls op x.2) (data : Data K V) :
    catchUp calls l (write calls op data) = write calls op (catchUp calls l data) := by
  induction l generalizing data with
  | nil => rfl
  | cons x l ih =>
    show catchUp calls l (write calls x.2 (write calls op data)) =
      write calls op (catchUp calls l (write calls x.2 data))
    rw [← h x mem_cons_self data]
    exact ih (fun y hy => h y (mem_cons_of_mem x hy)) _

variable {missing : List (ν × Operation K V F)}
  {x : (ν × ν) × Request ν K V F}
  {requests : List ((ν × ν) × Request ν K V F)}
  {opsNew : ν → ν → List (Operation K V F)}
  {responses : List ((ν × ν) × Response ν)} {response : Response ν} {size : Nat}
  {l : Label ν K V F}

omit [LinearOrder K] in
/-- The first missing operation of a process, between the older and the newer ones. -/
theorem missing_eq (h : (missing.filter (·.1 = a)).map (·.2) = op :: ops) :
    ∃ post, missing = missing.takeWhile (·.1 ≠ a) ++ (a, op) :: post ∧
      missing.eraseP (·.1 = a) = missing.takeWhile (·.1 ≠ a) ++ post ∧
      ((missing.eraseP (·.1 = a)).filter (·.1 = a)).map (·.2) = ops := by
  induction missing with
  | nil => cases h
  | cons x missing ih =>
    obtain ⟨b, op'⟩ := x
    by_cases hb : b = a
    · subst hb
      simp only [decide_true, filter_cons_of_pos, map_cons, List.cons.injEq] at h
      obtain ⟨rfl, hops⟩ := h
      refine ⟨missing, by simp, by simp, ?_⟩
      rw [eraseP_cons_of_pos (by simp)]
      exact hops
    · rw [filter_cons_of_neg (by simpa using hb)] at h
      obtain ⟨post, hmissing, herase, hops⟩ := ih h
      refine ⟨post, ?_, ?_, ?_⟩
      · rw [takeWhile_cons_of_pos (by simpa using hb), cons_append, ← hmissing]
      · rw [eraseP_cons_of_neg (by simpa using hb),
          takeWhile_cons_of_pos (by simpa using hb), herase, cons_append]
      · rw [eraseP_cons_of_neg (by simpa using hb),
          filter_cons_of_neg (by simpa using hb)]
        exact hops

omit [LinearOrder K] in
theorem filter_eraseP_of_ne (hab : a ≠ p) :
    (missing.eraseP (·.1 = a)).filter (·.1 = p) = missing.filter (·.1 = p) := by
  induction missing with
  | nil => rfl
  | cons x missing ih =>
    by_cases hx : x.1 = a
    · have hxp : x.1 ≠ p := by rw [hx]; exact hab
      rw [eraseP_cons_of_pos (by simpa using hx), filter_cons_of_neg (by simpa using hxp)]
    · rw [eraseP_cons_of_neg (by simpa using hx), filter_cons, filter_cons, ih]

/-! ## operations on their way -/

/-- The operations on their way from a process to another one, in flight or in the queue. -/
def operationsTo (w : World ν K V F) (a p : ν) : List (Operation K V F) :=
  (mail (a, p) w.requests ++ (w.outboxes a).waiting).filterMap Request.operation?

/-- The responses that a process waits for. -/
def owed (w : World ν K V F) (n : ν) : Nat :=
  total (fun m => if m.1.1 = n then 1 else 0) w.requests +
    total (fun m => if m.1.2 = n then 1 else 0) w.responses

/-- **The queue of a process**: what is pending is in flight, and requests wait for that only. -/
structure OutboxOk (nodes : List ν) (w : World ν K V F) (n : ν) : Prop where
  pending : (w.outboxes n).pending = owed w n
  le : (w.outboxes n).pending ≤ (others nodes n).length
  waiting : (w.outboxes n).waiting ≠ [] → (w.outboxes n).pending ≠ 0

theorem mem_others : p ∈ others nodes n ↔ p ∈ nodes ∧ p ≠ n := by
  rw [others, mem_filter, decide_eq_true_eq]

omit [LinearOrder K] in
theorem mail_sends (hnodup : nodes.Nodup) (hp : p ∈ nodes) (hap : a ≠ p) :
    mail (a, p) (sends nodes n request) = if a = n then [request] else [] := by
  by_cases ha : a = n
  · subst ha
    have hkey : ∀ q, ((a, q) : ν × ν) = (a, p) ↔ q = p := by simp
    have hothers : (others nodes a).Nodup := hnodup.sublist filter_sublist
    rw [sends, mail_broadcast hkey hothers, if_pos (mem_others.mpr ⟨hp, Ne.symm hap⟩), if_pos rfl]
  · rw [if_neg ha]
    refine mail_eq_nil fun m hm => ?_
    obtain ⟨q, -, rfl⟩ := List.mem_map.mp hm
    exact fun heq => ha (Prod.mk.inj heq).1.symm

omit [LinearOrder K] in
theorem total_sends (m : ν) : total (fun x => if x.1.1 = m then 1 else 0)
    (sends nodes n request) = if m = n then (others nodes n).length else 0 := by
  rw [sends]
  induction others nodes n with
  | nil => simp
  | cons q l ih =>
    rw [map_cons, total_cons, ih]
    by_cases hm : m = n
    · subst hm
      simp [Nat.add_comm]
    · simp [hm, Ne.symm hm]

/-! ## the queue -/

@[simp] theorem processes_mcast : (w.mcast nodes n request).processes = w.processes := by
  unfold World.mcast
  dsimp only
  split <;> rfl

@[simp] theorem responses_mcast : (w.mcast nodes n request).responses = w.responses := by
  unfold World.mcast
  dsimp only
  split <;> rfl

@[simp] theorem missing_mcast : (w.mcast nodes n request).missing = w.missing := by
  unfold World.mcast
  dsimp only
  split <;> rfl

/-- **A request is sent or waits**: either way it is on its way to all others. -/
theorem operationsTo_mcast (hnodup : nodes.Nodup) (h : OutboxOk nodes w n) (hp : p ∈ nodes)
    (hap : a ≠ p) : operationsTo (w.mcast nodes n request) a p =
      operationsTo w a p ++ if a = n then request.operation?.toList else [] := by
  unfold World.mcast
  dsimp only
  split
  · rw [operationsTo, operationsTo]
    dsimp only
    by_cases ha : a = n
    · subst ha
      rw [update_self, if_pos rfl, ← append_assoc, filterMap_append]
      rfl
    · rw [update_of_ne ha, if_neg ha, append_nil]
  · next hpending =>
      have hwaiting : (w.outboxes n).waiting = [] := by
        by_contra hne
        exact h.waiting hne (by omega)
      rw [operationsTo, operationsTo]
      dsimp only
      rw [mail_append, mail_sends hnodup hp hap]
      by_cases ha : a = n
      · subst ha
        rw [update_self, if_pos rfl, if_pos rfl, hwaiting]
        simp only [append_nil, filterMap_append]
        rfl
      · rw [update_of_ne ha, if_neg ha, if_neg ha, append_nil, append_nil]

theorem OutboxOk.mcast (h : OutboxOk nodes w n) (hm : OutboxOk nodes w m) :
    OutboxOk nodes (w.mcast nodes n request) m := by
  unfold World.mcast
  dsimp only
  split
  · next hpending =>
      by_cases hmn : m = n
      · subst hmn
        refine ⟨?_, ?_, fun _ => ?_⟩ <;> dsimp only <;> rw [update_self]
        · exact hm.pending
        · exact hm.le
        · dsimp only
          omega
      · refine ⟨?_, ?_, ?_⟩ <;> dsimp only <;> rw [update_of_ne hmn]
        · exact hm.pending
        · exact hm.le
        · exact hm.waiting
  · next hpending =>
      have howed : (w.outboxes n).pending = owed w n := h.pending
      by_cases hmn : m = n
      · subst hmn
        refine ⟨?_, ?_, fun hne => ?_⟩ <;> dsimp only at * <;> rw [update_self] at *
        · rw [owed] at howed ⊢
          dsimp only
          rw [total_append, total_sends, if_pos rfl]
          omega
        · exact absurd (by omega) (h.waiting hne)
      · refine ⟨?_, ?_, ?_⟩ <;> dsimp only <;> rw [update_of_ne hmn]
        · rw [hm.pending, owed, owed]
          dsimp only
          rw [total_append, total_sends, if_neg hmn, Nat.add_zero]
        · exact hm.le
        · exact hm.waiting

@[simp] theorem processes_orderedCheck : (w.orderedCheck nodes n).processes = w.processes := by
  unfold World.orderedCheck
  dsimp only
  split <;> rfl

@[simp] theorem missing_orderedCheck : (w.orderedCheck nodes n).missing = w.missing := by
  unfold World.orderedCheck
  dsimp only
  split <;> rfl

@[simp] theorem responses_orderedCheck : (w.orderedCheck nodes n).responses = w.responses := by
  unfold World.orderedCheck
  dsimp only
  split <;> rfl

/-- The request that waited is on its way as before. -/
theorem operationsTo_orderedCheck (hnodup : nodes.Nodup) (hp : p ∈ nodes) (hap : a ≠ p) :
    operationsTo (w.orderedCheck nodes n) a p = operationsTo w a p := by
  unfold World.orderedCheck
  dsimp only
  rw [operationsTo, operationsTo]
  by_cases ha : a = n
  · subst ha
    split
    · next hwaiting =>
        dsimp only
        rw [update_self, hwaiting]
    · next request waiting _ hwaiting =>
        dsimp only
        rw [update_self, hwaiting, mail_append, mail_sends hnodup hp hap, if_pos rfl]
        simp only [append_assoc, singleton_append]
    · dsimp only
      rw [update_self]
  · split
    · dsimp only
      rw [update_of_ne ha]
    · dsimp only
      rw [update_of_ne ha, mail_append, mail_sends hnodup hp hap, if_neg ha,
        append_nil]
    · dsimp only
      rw [update_of_ne ha]

/-- **A response counts**: the process that it comes to waits for one response less. -/
theorem outboxOk_orderedCheck (hpending : (w.outboxes n).pending = owed w n + 1)
    (hle : (w.outboxes n).pending ≤ (others nodes n).length)
    (hm : m ≠ n → OutboxOk nodes w m) : OutboxOk nodes (w.orderedCheck nodes n) m := by
  unfold World.orderedCheck
  dsimp only
  by_cases hmn : m = n
  · subst hmn
    rw [owed] at hpending
    split
    · next hone _ =>
        refine ⟨?_, ?_, ?_⟩ <;> dsimp only <;> rw [update_self]
        · rw [owed]
          dsimp only
          omega
        · exact Nat.zero_le _
        · exact fun hne => absurd rfl hne
    · next request waiting hone _ =>
        refine ⟨?_, ?_, fun _ => ?_⟩ <;> dsimp only <;> rw [update_self]
        · rw [owed]
          dsimp only
          rw [total_append, total_sends, if_pos rfl]
          omega
        · dsimp only
          omega
    · next hnil hcons =>
        have hne : (w.outboxes m).pending ≠ 1 := by
          intro hone
          cases hwaiting : (w.outboxes m).waiting with
          | nil => exact hnil hone hwaiting
          | cons request waiting => exact hcons request waiting hone hwaiting
        refine ⟨?_, ?_, fun _ => ?_⟩ <;> dsimp only <;> rw [update_self]
        · rw [owed]
          dsimp only
          omega
        · dsimp only
          omega
        · dsimp only
          omega
  · have hok := hm hmn
    split
    · refine ⟨?_, ?_, ?_⟩ <;> dsimp only <;> rw [update_of_ne hmn]
      · exact hok.pending
      · exact hok.le
      · exact hok.waiting
    · refine ⟨?_, ?_, ?_⟩ <;> dsimp only <;> rw [update_of_ne hmn]
      · rw [hok.pending, owed, owed]
        dsimp only
        rw [total_append, total_sends, if_neg hmn, Nat.add_zero]
      · exact hok.le
      · exact hok.waiting
    · refine ⟨?_, ?_, ?_⟩ <;> dsimp only <;> rw [update_of_ne hmn]
      · exact hok.pending
      · exact hok.le
      · exact hok.waiting

/-! ## the messages in flight -/

/-- **What is in flight**: the operations on their way are `ops`. -/
structure FlightOk (nodes : List ν) (ops : ν → ν → List (Operation K V F))
    (w : World ν K V F) : Prop where
  operations : ∀ a ∈ nodes, ∀ p ∈ nodes, a ≠ p → operationsTo w a p = ops a p
  outbox : ∀ n ∈ nodes, OutboxOk nodes w n
  requests : ∀ x ∈ w.requests, x.1.1 ∈ nodes ∧ x.1.2 ∈ nodes ∧ x.1.1 ≠ x.1.2
  responses : ∀ x ∈ w.responses, x.1.2 ∈ nodes

variable {ops : ν → ν → List (Operation K V F)} {r : Outcome ν K V F}

omit [LinearOrder K] in
theorem mem_sends (hn : n ∈ nodes) (h : x ∈ sends nodes n request) :
    x.1.1 ∈ nodes ∧ x.1.2 ∈ nodes ∧ x.1.1 ≠ x.1.2 := by
  obtain ⟨q, hq, rfl⟩ := List.mem_map.mp h
  obtain ⟨hq, hne⟩ := mem_others.mp hq
  exact ⟨hn, hq, Ne.symm hne⟩

theorem mem_requests_mcast (h : x ∈ (w.mcast nodes n request).requests) :
    x ∈ w.requests ∨ x ∈ sends nodes n request := by
  unfold World.mcast at h
  dsimp only at h
  split at h
  · exact .inl h
  · exact mem_append.mp h

theorem mem_requests_orderedCheck (h : x ∈ (w.orderedCheck nodes n).requests) :
    x ∈ w.requests ∨ ∃ request, x ∈ sends nodes n request := by
  unfold World.orderedCheck at h
  dsimp only at h
  split at h
  · exact .inl h
  · exact (mem_append.mp h).imp_right fun hx => ⟨_, hx⟩
  · exact .inl h

/-- An event of a process sends its operation to all others. -/
theorem FlightOk.finish (hnodup : nodes.Nodup) (hn : n ∈ nodes) (h : FlightOk nodes ops w)
    (r : Outcome ν K V F) :
    FlightOk nodes (fun a p => ops a p ++
      if a = n then (r.mcast.bind Request.operation?).toList else []) (w.finish nodes n r) := by
  rw [World.finish]
  cases r.mcast with
  | none =>
    have hnil : ∀ a : ν, (if a = n then ((none : Option (Request ν K V F)).bind
        Request.operation?).toList else []) = [] := fun a => ite_self []
    refine ⟨fun a ha p hp hap => ?_, fun m hm => ?_, h.requests, h.responses⟩
    · rw [hnil, append_nil]
      exact h.operations a ha p hp hap
    · exact ⟨(h.outbox m hm).pending, (h.outbox m hm).le, (h.outbox m hm).waiting⟩
  | some request =>
    have hbefore : ∀ m ∈ nodes, OutboxOk nodes
        { w with processes := update w.processes n r.state } m := fun m hm =>
      ⟨(h.outbox m hm).pending, (h.outbox m hm).le, (h.outbox m hm).waiting⟩
    refine ⟨fun a ha p hp hap => ?_, fun m hm => (hbefore n hn).mcast (hbefore m hm),
      fun x hx => ?_, fun x hx => ?_⟩
    · rw [operationsTo_mcast hnodup (hbefore n hn) hp hap]
      congr 1
      exact h.operations a ha p hp hap
    · rcases mem_requests_mcast hx with hx | hx
      · exact h.requests x hx
      · exact mem_sends hn hx
    · rw [responses_mcast] at hx
      exact h.responses x hx

theorem FlightOk.keys (h : FlightOk nodes ops w)
    (htake : takeFirst (fun m => decide (m.1 = (a, p))) w.requests = some (x, requests)) :
    a ∈ nodes ∧ p ∈ nodes ∧ a ≠ p := by
  have hnodes := h.requests x (mem_of_takeFirst htake).1
  rw [(mail_takeFirst_key htake).1] at hnodes
  exact hnodes

theorem FlightOk.receiveRequest (h : FlightOk nodes ops w)
    (htake : takeFirst (fun m => decide (m.1 = (a, p))) w.requests = some (x, requests))
    (response : Response ν) (missing : ν → List (ν × Operation K V F))
    (hops : ops a p = x.2.operation?.toList ++ opsNew a p)
    (hothers : ∀ b q, ¬ (b = a ∧ q = p) → opsNew b q = ops b q) :
    FlightOk nodes opsNew
      { w with requests, responses := w.responses ++ [((p, a), response)], missing } := by
  obtain ⟨-, hsub⟩ := mem_of_takeFirst htake
  obtain ⟨hkey, hmail, hmails⟩ := mail_takeFirst_key htake
  refine ⟨fun b hb q hq hbq => ?_, fun m hm => ?_, fun y hy => h.requests y (hsub y hy),
    fun y hy => ?_⟩
  · have hbefore := h.operations b hb q hq hbq
    rw [operationsTo] at hbefore ⊢
    dsimp only
    by_cases hkeys : b = a ∧ q = p
    · obtain ⟨rfl, rfl⟩ := hkeys
      rw [hmail, hops] at hbefore
      cases hoperation : x.2.operation? with
      | none =>
        rw [hoperation, cons_append, filterMap_cons_none hoperation] at hbefore
        exact hbefore
      | some op =>
        rw [hoperation, cons_append, filterMap_cons_some hoperation] at hbefore
        exact (List.cons.inj hbefore).2
    · rw [hmails (b, q) fun heq => hkeys (Prod.mk.inj heq), hothers b q hkeys]
      exact hbefore
  · have hok := h.outbox m hm
    refine ⟨?_, hok.le, hok.waiting⟩
    have hrequests := total_takeFirst htake fun y => if y.1.1 = m then 1 else 0
    rw [hok.pending, owed, owed, hrequests]
    dsimp only
    rw [total_append, total_cons, total_nil, hkey]
    dsimp only
    omega
  · rcases mem_append.mp hy with hy | hy
    · exact h.responses y hy
    · rw [mem_singleton.mp hy]
      exact (h.keys htake).1

theorem FlightOk.receiveResponse {x : (ν × ν) × Response ν} (hnodup : nodes.Nodup)
    (h : FlightOk nodes ops w)
    (htake : takeFirst (fun m => decide (m.1 = (a, p))) w.responses = some (x, responses)) :
    p ∈ nodes ∧ FlightOk nodes ops (World.orderedCheck nodes p { w with responses }) := by
  obtain ⟨hmem, hsub⟩ := mem_of_takeFirst htake
  obtain ⟨hkey, -, -⟩ := mail_takeFirst_key htake
  have hp := h.responses x hmem
  rw [hkey] at hp
  have howed : ∀ m, owed w m = owed { w with responses } m + if m = p then 1 else 0 := by
    intro m
    have hresponses := total_takeFirst htake fun y => if y.1.2 = m then 1 else 0
    rw [owed, owed, hresponses, hkey]
    dsimp only
    by_cases hm : m = p
    · rw [if_pos hm, if_pos hm.symm]
      omega
    · rw [if_neg hm, if_neg (Ne.symm hm)]
      omega
  refine ⟨hp, fun b hb q hq hbq => ?_, fun m hm => ?_, fun y hy => ?_, fun y hy => ?_⟩
  · rw [operationsTo_orderedCheck hnodup hq hbq]
    exact h.operations b hb q hq hbq
  · have hpending := (h.outbox p hp).pending
    rw [howed, if_pos rfl] at hpending
    refine outboxOk_orderedCheck hpending (h.outbox p hp).le fun hne => ?_
    have hok := h.outbox m hm
    refine ⟨?_, hok.le, hok.waiting⟩
    rw [hok.pending, howed, if_neg hne, Nat.add_zero]
  · rcases mem_requests_orderedCheck hy with hy | ⟨request, hy⟩
    · exact h.requests y hy
    · exact mem_sends hp hy
  · rw [responses_orderedCheck] at hy
    exact h.responses y (hsub y hy)

theorem FlightOk.operations_nil (h : FlightOk nodes ops w) (hrequests : w.requests = [])
    (hresponses : w.responses = []) (ha : a ∈ nodes) (hp : p ∈ nodes) (hap : a ≠ p) :
    ops a p = [] := by
  have hok := h.outbox a ha
  have hpending : (w.outboxes a).pending = 0 := by
    rw [hok.pending, owed, hrequests, hresponses]
    rfl
  have hwaiting : (w.outboxes a).waiting = [] := by
    by_contra hne
    exact hok.waiting hne hpending
  rw [← h.operations a ha p hp hap, operationsTo, hrequests, hwaiting]
  rfl

/-! ## the data -/

@[simp] theorem processes_finish :
    (w.finish nodes n r).processes = update w.processes n r.state := by
  rw [World.finish]
  split
  · rw [processes_mcast]
  · rfl

@[simp] theorem missing_finish : (w.finish nodes n r).missing = w.missing := by
  rw [World.finish]
  split
  · rw [missing_mcast]
  · rfl

/-- **Every process is on the way to the same data.** -/
structure DataOk (calls : Calls V F) (nodes : List ν)
    (w : World ν K V F) : Prop where
  polog : ∀ n ∈ nodes, PologOk (w.processes n)
  caught : ∃ data, ∀ n ∈ nodes, catchUp calls (w.missing n) ((w.processes n).total calls) = data
  origin : ∀ p ∈ nodes, ∀ x ∈ w.missing p, x.1 ∈ nodes ∧ x.1 ≠ p

variable {s : State ν K V F}

theorem DataOk.polog_update (h : DataOk calls nodes w) (hs : PologOk s) :
    ∀ m ∈ nodes, PologOk (update w.processes n s m) :=
  (Function.forall_update_iff _ fun m s => m ∈ nodes → PologOk s).mpr
    ⟨fun _ => hs, fun m _ => h.polog m⟩

/-- A process whose data stay. -/
theorem DataOk.keep (h : DataOk calls nodes w) (hs : PologOk s)
    (htotal : s.total calls = (w.processes n).total calls)
    (hprocesses : w'.processes = update w.processes n s) (hmissing : w'.missing = w.missing) :
    DataOk calls nodes w' := by
  obtain ⟨data, hdata⟩ := h.caught
  refine ⟨fun m hm => ?_, ⟨data, fun m hm => ?_⟩, by rw [hmissing]; exact h.origin⟩
  · rw [hprocesses]
    exact h.polog_update hs m hm
  · rw [hprocesses, hmissing]
    by_cases hmn : m = n
    · subst hmn
      rw [update_self, htotal]
      exact hdata m hm
    · rw [update_of_ne hmn]
      exact hdata m hm

/-- A process writes an operation: the others are missing it now. -/
theorem DataOk.write (h : DataOk calls nodes w) (hn : n ∈ nodes) (hs : PologOk s)
    (htotal : s.total calls = write calls op ((w.processes n).total calls))
    (hcommute : ∀ x ∈ w.missing n, Commute calls op x.2)
    (hprocesses : w'.processes = update w.processes n s)
    (hmissing : w'.missing = fun m => if m = n then w.missing m else w.missing m ++ [(n, op)]) :
    DataOk calls nodes w' := by
  obtain ⟨data, hdata⟩ := h.caught
  refine ⟨fun m hm => ?_, ⟨Crdt.write calls op data, fun m hm => ?_⟩, fun p hp x hx => ?_⟩
  · rw [hprocesses]
    exact h.polog_update hs m hm
  · rw [hprocesses, hmissing]
    dsimp only
    by_cases hmn : m = n
    · subst hmn
      rw [update_self, if_pos rfl, htotal, catchUp_write hcommute, hdata m hm]
    · rw [update_of_ne hmn, if_neg hmn, catchUp_append, hdata m hm]
      rfl
  · rw [hmissing] at hx
    dsimp only at hx
    by_cases hpn : p = n
    · rw [if_pos hpn] at hx
      exact h.origin p hp x hx
    · rw [if_neg hpn, mem_append, mem_singleton] at hx
      rcases hx with hx | rfl
      · exact h.origin p hp x hx
      · exact ⟨hn, Ne.symm hpn⟩

theorem DataOk.receive {ops : List (Operation K V F)} (h : DataOk calls nodes w)
    (hs : PologOk s) (htotal : s.total calls = Crdt.write calls op ((w.processes n).total calls))
    (hops : ((w.missing n).filter (·.1 = a)).map (·.2) = op :: ops)
    (hcommute : ∀ x ∈ (w.missing n).takeWhile (·.1 ≠ a), Commute calls op x.2)
    (hprocesses : w'.processes = update w.processes n s)
    (hmissing : w'.missing = update w.missing n ((w.missing n).eraseP (·.1 = a))) :
    DataOk calls nodes w' := by
  obtain ⟨data, hdata⟩ := h.caught
  obtain ⟨post, heq, herase, -⟩ := missing_eq hops
  refine ⟨fun m hm => ?_, ⟨data, fun m hm => ?_⟩, fun p hp x hx => ?_⟩
  · rw [hprocesses]
    exact h.polog_update hs m hm
  · rw [hprocesses, hmissing]
    by_cases hmn : m = n
    · subst hmn
      rw [update_self, update_self, htotal, herase, catchUp_append,
        catchUp_write hcommute, ← hdata m hm]
      conv_rhs => rw [heq, catchUp_append]
      rfl
    · rw [update_of_ne hmn, update_of_ne hmn]
      exact hdata m hm
  · rw [hmissing] at hx
    by_cases hpn : p = n
    · subst hpn
      rw [update_self] at hx
      exact h.origin p hp x (mem_of_mem_eraseP hx)
    · rw [update_of_ne hpn] at hx
      exact h.origin p hp x hx

/-! ## steps -/

/-- The operations that a process is missing from another one. -/
def missingFrom (w : World ν K V F) (a p : ν) : List (Operation K V F) :=
  ((w.missing p).filter (·.1 = a)).map (·.2)

/-- **The invariant of all runs** in which every operation can be taken where it is. -/
structure Converging (calls : Calls V F) (nodes : List ν)
    (w : World ν K V F) : Prop where
  data : DataOk calls nodes w
  flight : FlightOk nodes (missingFrom w) w

theorem missingFrom_eq_of (hmissing : w'.missing = w.missing) : missingFrom w' = missingFrom w := by
  funext a p
  rw [missingFrom, missingFrom, hmissing]

theorem finish_with (responses : List ((ν × ν) × Response ν))
    (missing : ν → List (ν × Operation K V F)) :
    { w.finish nodes n r with responses, missing } =
      World.finish nodes n r { w with responses, missing } := by
  unfold World.finish World.mcast
  dsimp only
  cases r.mcast with
  | none => rfl
  | some request =>
    dsimp only
    split <;> rfl

theorem handleRequest_mcast (h : handleRequest calls size s request = (r, response)) :
    r.mcast.bind Request.operation? = none := by
  cases request with
  | vclock nodeIdRemote vclockRemote =>
    cases h
    cases size <;> rfl
  | _ =>
    cases h
    rfl

theorem handleResponse_mcast :
    (handleResponse calls size s response).mcast.bind Request.operation? = none := by
  cases response with
  | vclock nodeIdRemote vclockRemote => cases size <;> rfl
  | _ => rfl

theorem FlightOk.congr (h : FlightOk nodes ops w) (hops : ∀ a p, a ≠ p → opsNew a p = ops a p) :
    FlightOk nodes opsNew w :=
  ⟨fun a ha p hp hap => (h.operations a ha p hp hap).trans (hops a p hap).symm, h.outbox, h.requests,
    h.responses⟩

theorem FlightOk.withMissing (h : FlightOk nodes ops w)
    (missing : ν → List (ν × Operation K V F)) : FlightOk nodes ops { w with missing } :=
  ⟨h.operations, fun m hm => ⟨(h.outbox m hm).pending, (h.outbox m hm).le, (h.outbox m hm).waiting⟩,
    h.requests, h.responses⟩

theorem FlightOk.finish_none (hnodup : nodes.Nodup) (hn : n ∈ nodes) (h : FlightOk nodes ops w)
    (hr : r.mcast.bind Request.operation? = none) : FlightOk nodes ops (w.finish nodes n r) := by
  refine (h.finish hnodup hn r).congr fun a p _ => ?_
  rw [hr]
  simp

theorem FlightOk.first (h : FlightOk nodes ops w)
    (htake : takeFirst (fun m => decide (m.1 = (a, p))) w.requests = some (x, requests))
    (hx : x.2.operation? = some op) : ∃ rest, ops a p = op :: rest := by
  obtain ⟨ha, hp, hap⟩ := h.keys htake
  obtain ⟨-, hmail, -⟩ := mail_takeFirst_key htake
  rw [← h.operations a ha p hp hap, operationsTo, hmail, cons_append,
    filterMap_cons_some hx]
  exact ⟨_, rfl⟩

section

variable (hnodup : nodes.Nodup) (h : Converging calls nodes w)

include hnodup h

theorem Converging.write (hn : n ∈ nodes)
    (htakes : Takes calls op (vclockIncrement (w.processes n).nodeId (w.processes n).vclock)
      (w.processes n) (w.missing n)) :
    Converging calls nodes { w.finish nodes n (eventLocal op (w.processes n)) with
        missing := fun m => if m = n then w.missing m else w.missing m ++ [(n, op)] } := by
  obtain ⟨hpolog, htotal⟩ : PologOk (eventLocal op (w.processes n)).state ∧
      (eventLocal op (w.processes n)).state.total calls =
        Crdt.write calls op ((w.processes n).total calls) :=
    eventLocal_spec (h.data.polog n hn) htakes.1
  refine ⟨h.data.write hn hpolog htotal htakes.2 processes_finish rfl,
    ((h.flight.finish hnodup hn _).withMissing _).congr fun a p hap => ?_⟩
  rw [missingFrom, missingFrom]
  dsimp only
  by_cases hpn : p = n
  · subst hpn
    rw [if_pos rfl, if_neg hap, append_nil]
  · rw [if_neg hpn, filter_append, map_append]
    congr 1
    by_cases han : a = n
    · subst han
      rw [if_pos rfl, filter_cons_of_pos (by simp)]
      rfl
    · rw [if_neg han, filter_cons_of_neg (by simpa using Ne.symm han)]
      rfl

theorem Converging.receiveRequest
    (htake : takeFirst (fun m => decide (m.1 = (a, p))) w.requests = some (x, requests))
    (htakes : ∀ nodeId c op, x.2 = .operation nodeId c op →
      Takes calls op (vclockReceive c (w.processes p)) (w.processes p)
        ((w.missing p).takeWhile (·.1 ≠ a)))
    (hr : handleRequest calls size (w.processes p) x.2 = (r, response)) :
    Converging calls nodes (World.finish nodes p r { w with
          requests
          responses := w.responses ++ [((p, a), response)]
          missing := missingAfter a p x.2 w.missing }) := by
  have hnone := handleRequest_mcast hr
  obtain ⟨-, hp, -⟩ := h.flight.keys htake
  -- a request without an operation
  have hkeep (hx : x.2.operation? = none) (hs : PologOk r.state)
      (htotal : r.state.total calls = (w.processes p).total calls) :
      Converging calls nodes (World.finish nodes p r { w with
            requests
            responses := w.responses ++ [((p, a), response)]
            missing := missingAfter a p x.2 w.missing }) := by
    have hafter : missingAfter a p x.2 w.missing = w.missing := by rw [missingAfter, hx]
    rw [hafter]
    have hflight := h.flight.receiveRequest htake response w.missing (by rw [hx]; rfl) fun _ _ _ => rfl
    refine ⟨h.data.keep hs htotal processes_finish missing_finish, ?_⟩
    rw [missingFrom_eq_of missing_finish]
    exact hflight.finish_none hnodup hp hnone
  cases hx : x.2 with
  | operation nodeId c op =>
    have hop : x.2.operation? = some op := by rw [hx]; rfl
    have hafter : missingAfter a p x.2 w.missing =
        update w.missing p ((w.missing p).eraseP (·.1 = a)) := by
      rw [missingAfter, hop]
    rw [← hx, hafter]
    obtain ⟨ops, hops⟩ := h.flight.first htake hop
    obtain ⟨-, -, -, herase⟩ := missing_eq hops
    let wNew : World ν K V F :=
      { w with
        requests
        responses := w.responses ++ [((p, a), response)]
        missing := update w.missing p ((w.missing p).eraseP (·.1 = a)) }
    have hnew : missingFrom wNew a p = ops := by
      show ((update w.missing p _ p).filter (·.1 = a)).map (·.2) = ops
      rw [update_self]
      exact herase
    have hothers : ∀ b q, ¬ (b = a ∧ q = p) → missingFrom wNew b q = missingFrom w b q := by
      intro b q hne
      show ((update w.missing p _ q).filter (·.1 = b)).map (·.2) = _
      by_cases hqp : q = p
      · subst hqp
        have hab : a ≠ b := fun heq => hne ⟨heq.symm, rfl⟩
        rw [update_self, filter_eraseP_of_ne hab, missingFrom]
      · rw [update_of_ne hqp, missingFrom]
    have hflight := h.flight.receiveRequest htake response wNew.missing
      (by rw [hop, hnew, hops]; rfl) hothers
    obtain ⟨hkept, hcommute⟩ := htakes nodeId c op hx
    rw [hx] at hr
    cases hr
    obtain ⟨hpolog, htotal⟩ := eventRemote_spec (h.data.polog p hp) hkept
    refine ⟨h.data.receive hpolog htotal hops hcommute processes_finish missing_finish, ?_⟩
    rw [missingFrom_eq_of missing_finish]
    exact hflight.finish_none hnodup hp hnone
  | vclock nodeId c =>
    rw [← hx]
    rw [hx] at hr
    cases hr
    obtain ⟨hpolog, htotal⟩ := eventVclock_spec (h.data.polog p hp)
    exact hkeep (by rw [hx]; rfl) hpolog htotal
  | vclockUpdated nodeId c =>
    rw [← hx]
    rw [hx] at hr
    cases hr
    obtain ⟨hpolog, htotal⟩ := stabilize_spec (h.data.polog p hp) (.refl _)
    exact hkeep (by rw [hx]; rfl) hpolog htotal

theorem Converging.receiveResponse {x : (ν × ν) × Response ν}
    (htake : takeFirst (fun m => decide (m.1 = (a, p))) w.responses = some (x, responses)) :
    Converging calls nodes ((World.orderedCheck nodes p { w with responses }).finish nodes p
        (handleResponse calls size (w.processes p) x.2)) := by
  obtain ⟨hp, hflight⟩ := h.flight.receiveResponse hnodup htake
  obtain ⟨hpolog, htotal⟩ := handleResponse_spec (h.data.polog p hp)
  have hmissing : ((World.orderedCheck nodes p { w with responses }).finish nodes p
      (handleResponse calls size (w.processes p) x.2)).missing = w.missing := by
    rw [missing_finish, missing_orderedCheck]
  refine ⟨h.data.keep hpolog htotal (by rw [processes_finish, processes_orderedCheck]) hmissing, ?_⟩
  rw [missingFrom_eq_of hmissing]
  exact hflight.finish_none hnodup hp handleResponse_mcast

theorem Converging.next (hok : StepOk calls w l) (hnext : Crdt.next nodes calls w l = some w') :
    Converging calls nodes w' := by
  cases l with
  | write n op =>
    rw [Crdt.next, ite_none_right_eq_some] at hnext
    obtain ⟨hn, heq⟩ := hnext
    cases heq
    exact h.write hnodup hn hok
  | request sender receiver =>
    obtain ⟨⟨x, requests⟩, htake, heq⟩ := map_eq_some_iff.mp hnext
    dsimp only at heq
    cases heq
    rw [finish_with]
    refine Converging.receiveRequest (w := w) hnodup h htake
      (fun nodeId c op hx => hok nodeId c op ?_) rfl
    rw [World.nextRequest, htake, map_some, hx]
  | response sender receiver =>
    obtain ⟨⟨x, responses⟩, htake, heq⟩ := map_eq_some_iff.mp hnext
    dsimp only at heq
    cases heq
    rw [processes_orderedCheck]
    exact Converging.receiveResponse (w := w) hnodup h htake

end

theorem converging_start (hstart : Start nodes w) : Converging calls nodes w := by
  have hempty : ∀ n ∈ nodes, (w.processes n).total calls = (w.processes n).data := by
    intro n hn
    rw [State.total, hstart.polog n hn]
    rfl
  refine ⟨⟨fun n hn => ?_, ?_, fun p hp x hx => ?_⟩,
    ⟨fun a ha p hp _ => ?_, fun n hn => ?_, fun x hx => ?_, fun x hx => ?_⟩⟩
  · refine ⟨?_, ?_⟩ <;> rw [hstart.polog n hn]
    · exact List.Pairwise.nil
    · exact fun _ he => absurd he not_mem_nil
  · cases nodes with
    | nil => exact ⟨∅, fun _ hn => absurd hn not_mem_nil⟩
    | cons m nodes =>
      refine ⟨(w.processes m).data, fun n hn => ?_⟩
      rw [hstart.missing n hn, hempty n hn]
      exact hstart.data n hn m mem_cons_self
  · rw [hstart.missing p hp] at hx
    cases hx
  · rw [operationsTo, missingFrom, hstart.requests, hstart.outboxes a ha, hstart.missing p hp]
    rfl
  · refine ⟨?_, ?_, ?_⟩ <;> rw [hstart.outboxes n hn]
    · rw [owed, hstart.requests, hstart.responses]
      rfl
    · exact Nat.zero_le _
    · exact fun hne => absurd rfl hne
  · rw [hstart.requests] at hx
    cases hx
  · rw [hstart.responses] at hx
    cases hx

/-- Nothing in flight and no POLog: the data are equal. -/
theorem Converging.converged (h : Converging calls nodes w) (hquiet : Quiet nodes w) :
    Converged nodes w := by
  obtain ⟨data, hdata⟩ := h.data.caught
  have heq : ∀ n ∈ nodes, (w.processes n).data = data := by
    intro n hn
    have hmissing : w.missing n = [] := by
      rw [eq_nil_iff_forall_not_mem]
      intro x hx
      obtain ⟨ha, hne⟩ := h.data.origin n hn x hx
      have hnone := h.flight.operations_nil hquiet.requests hquiet.responses ha hn hne
      rw [missingFrom, map_eq_nil_iff, filter_eq_nil_iff] at hnone
      exact hnone x hx (by simp)
    rw [← hdata n hn, hmissing, State.total, hquiet.polog n hn]
    rfl
  intro n hn m hm
  rw [heq n hn, heq m hm]

/-- **Convergence**: in every run in which each operation can be taken where it is, the data of
all processes are equal whenever no message is in flight and every POLog is empty. -/
theorem converged_of_steps {labels : List (Label ν K V F)} (hnodup : nodes.Nodup)
    (hstart : Start nodes w) (hsteps : Steps (Crdt.next nodes calls) (StepOk calls) w labels w')
    (hquiet : Quiet nodes w') : Converged nodes w' := by
  have hconverging : Converging calls nodes w' :=
    hsteps.invariant (fun _ _ _ h hok hnext => h.next hnodup hok hnext) (converging_start hstart)
  exact hconverging.converged hquiet

/-! ## sample runs -/

/-- The operation of a step replaces no key, and equals all older operations that are missing. -/
def Repeats (w : World ν K V F) : Label ν K V F → Prop
  | .write n op => op.replaces = none ∧ ∀ x ∈ w.missing n, x.2 = op
  | .request sender receiver =>
      ∀ op ∈ (w.nextRequest sender receiver).bind Request.operation?,
        op.replaces = none ∧ ∀ x ∈ (w.missing receiver).takeWhile (·.1 ≠ sender), x.2 = op
  | .response _ _ => True

instance [DecidableEq V] [DecidableEq F] (w : World ν K V F)
    (l : Label ν K V F) : Decidable (Repeats w l) :=
  match l with
  | .write n op =>
      inferInstanceAs (Decidable (op.replaces = none ∧ ∀ x ∈ w.missing n, x.2 = op))
  | .request sender receiver =>
      inferInstanceAs (Decidable (∀ op ∈ (w.nextRequest sender receiver).bind Request.operation?,
        op.replaces = none ∧ ∀ x ∈ (w.missing receiver).takeWhile (·.1 ≠ sender), x.2 = op))
  | .response _ _ => isTrue trivial

theorem Repeats.takes (hreplaces : op.replaces = none) (holder : ∀ x ∈ older, x.2 = op) :
    Takes calls op c s older := by
  refine ⟨fun key hkey => ?_, fun x hx => ?_⟩
  · rw [hreplaces] at hkey
    cases hkey
  · rw [holder x hx]
    exact fun _ => rfl

theorem Repeats.stepOk (h : Repeats w l) : StepOk calls w l := by
  cases l with
  | write n op => exact Repeats.takes h.1 h.2
  | request sender receiver =>
    intro nodeId c op hrequest
    obtain ⟨hreplaces, holder⟩ := h op (by rw [hrequest]; rfl)
    exact Repeats.takes hreplaces holder
  | response sender receiver => trivial

/-- Values that are numbers. -/
def numberCalls : Calls Nat Unit where
  isNumber := fun _ => true
  add := (· + ·)
  sub := (· - ·)
  call1 := fun _ x => x
  call2 := fun _ x _ => x

/-- Two processes that know each other. -/
def twoProcesses : World Nat Nat Nat Unit where
  processes := fun n =>
    { nodeId := n
      nodeIds := [0, 1]
      vclock := Maps.put 0 1 (Maps.put 1 1 ∅)
      data := Maps.put 0 0 ∅ }

theorem start_twoProcesses : Start [0, 1] twoProcesses :=
  ⟨fun _ _ => rfl, fun _ _ _ _ => rfl, fun _ _ => rfl, rfl, rfl, fun _ _ => rfl⟩

/-- Both processes write an operation at the same time. -/
def bothWrite (op0 op1 : Operation Nat Nat Unit) : List (Label Nat Nat Nat Unit) :=
  [.write 0 op0, .write 1 op1, .request 0 1, .request 1 0, .response 1 0, .response 0 1,
    .request 0 1, .request 1 0, .response 1 0, .response 0 1]

/-- The world after a run. -/
def worldAfter (labels : List (Label Nat Nat Nat Unit)) : World Nat Nat Nat Unit :=
  (run (Crdt.next [0, 1] numberCalls) twoProcesses labels).getD twoProcesses

theorem converged_of_steps_bothWrite :
    Converged [0, 1] (worldAfter (bothWrite (.incr 0 1) (.incr 0 1))) := by
  have hsteps : Steps (Crdt.next [0, 1] numberCalls) Repeats twoProcesses
      (bothWrite (.incr 0 1) (.incr 0 1)) (worldAfter (bothWrite (.incr 0 1) (.incr 0 1))) :=
    steps_getD_of_checked (by decide +kernel)
  exact converged_of_steps (by decide) start_twoProcesses (hsteps.mono fun _ _ h => h.stepOk)
    ⟨by decide +kernel, by decide +kernel, by decide +kernel⟩

/-- **Two processes that put a value at the same time keep different data.** -/
theorem diverges : ∃ (labels : List (Label Nat Nat Nat Unit)) (w : World Nat Nat Nat Unit),
    Start [0, 1] twoProcesses ∧
      Steps (Crdt.next [0, 1] numberCalls) (fun _ _ => True) twoProcesses labels w ∧
      Quiet [0, 1] w ∧ ¬ Converged [0, 1] w := by
  have hsteps : Steps (Crdt.next [0, 1] numberCalls) (fun _ _ => True) twoProcesses
      (bothWrite (.put 0 1) (.put 0 2)) (worldAfter (bothWrite (.put 0 1) (.put 0 2))) :=
    steps_getD_of_checked (by decide +kernel)
  refine ⟨_, _, start_twoProcesses, hsteps, ⟨by decide +kernel, by decide +kernel, by decide +kernel⟩,
    fun h => ?_⟩
  have hdata := congrArg (Maps.find 0) (h 0 (by decide) 1 (by decide))
  revert hdata
  decide +kernel

end CloudI.Crdt
