import CloudI.Cpg.Network

/-!
# Cpg.Agree

The counts of the nodes agree when nothing is under way, in every run whose
delivered casts do what they should.  The invariant is a balance: what a node
records of a pid, with the requests that are still on their way to it, is what
the node of the pid records.
-/

namespace CloudI.Cpg

open CloudI.Lists Flight Run List Function

variable {Name Pid Node χ : Type} [LinearOrder Name] [LinearOrder Pid] [LinearOrder Node]
  {node : Pid → Node} {clientNode : χ → Node} {nodes : List Node}

/-! ## what a request does to the counts -/

/-- The memberships of each group that a request adds. -/
def added : Request Name Pid → Name → Nat
  | .join name _, g => if g = name then 1 else 0
  | .joinCounts counts _, g => taken counts g
  | .leaveAll _, _ | .leave .., _ | .leaveCounts .., _ => 0

/-- What a request with the memberships `t` taken out changes for a pid. -/
def effect (pid : Pid) (g : Name) (r : Request Name Pid) (t : Name → Nat) : Int :=
  if r.pid = pid then (added r g : Int) - t g else 0

theorem count_more (H : Name → List Pid) (pid : Pid) (counts : List (Name × Int)) (q : Pid)
    (g : Name) : (more H pid counts g).count q =
      (H g).count q + if pid = q then taken counts g else 0 := by
  induction counts generalizing H with
  | nil => simp [more, taken]
  | cons x counts ih =>
    have hstep : more H pid (x :: counts) =
        more (update H x.1 (List.replicate x.2.toNat pid ++ H x.1)) pid counts := rfl
    rw [hstep, ih, taken, update_apply]
    by_cases hg : g = x.1
    · subst hg
      by_cases hq : pid = q
      · subst hq
        simp [count_append]
        omega
      · simp [count_append, count_replicate, hq]
    · by_cases hq : pid = q
      · simp [hg, Ne.symm hg, hq]
      · simp [hg, hq]

omit [LinearOrder Name] in
theorem count_less_self (H : Name → List Pid) (pid : Pid) (t : Name → Nat) (g : Name) :
    ((less H pid t g).count pid : Int) = (H g).count pid - (min (t g) ((H g).count pid) : Nat) := by
  rw [less, count_removeLast_self]
  omega

omit [LinearOrder Name] in
theorem count_without (H : Name → List Pid) (pid q : Pid) (g : Name) :
    (without H pid g).count q = if pid = q then 0 else (H g).count q := by
  rw [without]
  by_cases hq : pid = q
  · subst hq
    rw [if_pos rfl, count_eq_zero]
    simp
  · rw [if_neg hq, count_filter]
    simpa using Ne.symm hq

theorem effect_self (r : Request Name Pid) (g : Name) (t : Name → Nat) :
    effect r.pid g r t = (added r g : Int) - t g := if_pos rfl

variable {r : Request Name Pid} {H : Name → List Pid} {s s' : System Name Pid Node χ}
  {c : χ} {x : Packet Name Pid Node χ}

theorem effect_of_ne (h : r.pid ≠ q) (g : Name) (t : Name → Nat) : effect q g r t = 0 := if_neg h

/-- The other pids keep their counts. -/
theorem count_afterRequest_of_ne (hq : r.pid ≠ q) (g : Name) :
    (afterRequest H r g).count q = (H g).count q := by
  cases r with
  | join name pid =>
    replace hq : pid ≠ q := hq
    rw [afterRequest, update_apply]
    by_cases hg : g = name
    · rw [if_pos hg, hg, count_cons_of_ne hq]
    · rw [if_neg hg]
  | joinCounts counts pid =>
    replace hq : pid ≠ q := hq
    rw [afterRequest, count_more, if_neg hq, Nat.add_zero]
  | leaveAll pid =>
    replace hq : pid ≠ q := hq
    rw [afterRequest, count_without, if_neg hq]
  | leave name pid =>
    replace hq : pid ≠ q := hq
    rw [afterRequest, update_apply]
    by_cases hg : g = name
    · rw [if_pos hg, hg, count_removeLast_of_ne (Ne.symm hq)]
    · rw [if_neg hg]
  | leaveCounts counts pid =>
    replace hq : pid ≠ q := hq
    rw [afterRequest, less, count_removeLast_of_ne (Ne.symm hq)]

/-- The pid of a request gets the memberships added and loses those taken out. -/
theorem count_afterRequest_self (h : Taken H r) (g : Name) :
    ((afterRequest H r g).count r.pid : Int) =
      (H g).count r.pid + ((added r g : Int) - removed H r g) := by
  cases r with
  | join name pid =>
    simp only [afterRequest, Request.pid, added, removed, update_apply]
    by_cases hg : g = name <;> simp [hg]
  | joinCounts counts pid =>
    simp [afterRequest, Request.pid, added, removed, count_more]
  | leaveAll pid =>
    simp [afterRequest, Request.pid, added, removed, count_without]
  | leave name pid =>
    simp only [afterRequest, Request.pid, added, removed, update_apply]
    by_cases hg : g = name
    · subst hg
      rw [if_pos rfl, if_pos rfl, count_removeLast_self]
      omega
    · simp [hg]
  | leaveCounts counts pid =>
    have hall : ∀ x ∈ counts, pid ∈ H x.1 := fun x hx => (h.2 x hx).1
    simp only [afterRequest, Request.pid, added, removed, if_pos hall]
    rw [count_less_self]
    omega

/-- **A request that is taken** changes the counts of its pid, and no others. -/
theorem count_afterRequest (h : Taken H r) (q : Pid) (g : Name) :
    ((afterRequest H r g).count q : Int) = (H g).count q + effect q g r (removed H r) := by
  by_cases hq : r.pid = q
  · subst hq
    rw [effect_self, count_afterRequest_self h]
  · rw [effect_of_ne hq, count_afterRequest_of_ne hq, Int.add_zero]

/-- A cast that is not taken takes nothing out. -/
theorem effect_of_not_taken (hcounts : ∀ x ∈ r.counts, 0 < x.2) (h : ¬ Taken H r) (q : Pid)
    (g : Name) : effect q g r (removed H r) = 0 := by
  by_cases hq : r.pid = q
  · subst hq
    rw [effect_self]
    cases r with
    | join name pid => exact absurd trivial h
    | joinCounts counts pid => exact absurd hcounts h
    | leaveAll pid =>
      have hnone : (H g).count pid = 0 := count_eq_zero.mpr fun hg => h ⟨g, hg⟩
      simp [added, removed, hnone]
    | leave name pid =>
      have hnone : (H name).count pid = 0 := count_eq_zero.mpr h
      by_cases hg : g = name
      · simp [added, removed, hg, hnone]
      · simp [added, removed, hg]
    | leaveCounts counts pid =>
      by_cases hall : ∀ x ∈ counts, pid ∈ H x.1
      · have hnone : (H g).count pid = 0 := count_eq_zero.mpr fun hg =>
          h ⟨⟨g, hg⟩, fun x hx => ⟨hall x hx, hcounts x hx⟩⟩
        simp [added, removed, hnone]
      · simp only [added, removed, if_neg hall]
        simp
  · exact effect_of_ne hq g _

theorem count_mergeHistories (h : ∀ x ∈ historyL, ∀ pid ∈ x.2, (H x.1).count pid = x.2.count pid)
    (q : Pid) (g : Name) : (mergeHistories historyL H g).count q = (H g).count q := by
  induction historyL generalizing H with
  | nil => rfl
  | cons x historyL ih =>
    have hone : ∀ q g, (update H x.1 (mergeHistory x.2 (H x.1)) g).count q =
        (H g).count q := by
      intro q g
      rw [update_apply]
      by_cases hg : g = x.1
      · rw [if_pos hg, count_mergeHistory, hg]
        by_cases hq : q ∈ x.2
        · rw [if_pos hq, h x mem_cons_self q hq]
        · rw [if_neg hq]
      · rw [if_neg hg]
    have hstep : mergeHistories (x :: historyL) H =
        mergeHistories historyL (update H x.1 (mergeHistory x.2 (H x.1))) := rfl
    rw [hstep, ih, hone]
    intro y hy pid hpid
    rw [hone]
    exact h y (mem_cons_of_mem x hy) pid hpid

/-! ## the balance -/

/-- What a pending request will change. -/
def pendingEffect (pid : Pid) (g : Name) (x : Pending Name Pid χ) : Int :=
  effect pid g x.request x.removed

/-- What a message will change. -/
def messageEffect (pid : Pid) (g : Name) (t : Name → Nat) : Message Name Pid Node → Int
  | .cast r => effect pid g r t
  | _ => 0

/-- What a cast in flight will change at the node `n`. -/
def flightEffect (n : Node) (pid : Pid) (g : Name) (x : Packet Name Pid Node χ) : Int :=
  if x.receiver = n then messageEffect pid g x.removed x.message else 0

/-- A cast that can be in flight. -/
def PacketOk (node : Pid → Node) (nodes : List Node) (x : Packet Name Pid Node χ) : Prop :=
  x.receiver ∈ nodes ∧
    match x.message with
    | .cast r => node r.pid ≠ x.receiver ∧ ∀ y ∈ r.counts, 0 < y.2
    | .exchange _ historyL => ∀ y ∈ historyL, y.2 ≠ []
    | _ => False

/-- **The invariant**: what a node records of a pid, with what is on its way to the
node, is what the node of the pid records. -/
structure Balanced (node : Pid → Node) (nodes : List Node) (s : System Name Pid Node χ) :
    Prop where
  rep : ∀ n ∈ nodes, ∃ H, Rep node n (s.scopes n) H
  balance : ∀ n ∈ nodes, ∀ pid, node pid ∈ nodes → n ≠ node pid → ∀ g,
    (recorded s n pid g : Int) + total (pendingEffect pid g) s.pending +
      total (flightEffect n pid g) s.flight = recorded s (node pid) pid g
  pending : ∀ x ∈ s.pending, ∀ y ∈ x.request.counts, 0 < y.2
  flight : ∀ x ∈ s.flight, PacketOk node nodes x

theorem recorded_of_rep (hs : Rep node n (s.scopes n) H) (pid : Pid) (g : Name) :
    recorded s n pid g = (H g).count pid := by
  rw [recorded, hs.historyOf_eq]

theorem scopes_setScope (s : System Name Pid Node χ) (n : Node) (scope : State Name Pid Node) :
    (s.setScope n scope).scopes = update s.scopes n scope := rfl

theorem recorded_setScope (hs : Rep node n scope H) (m : Node) (pid : Pid) (g : Name) :
    recorded (s.setScope n scope) m pid g = if m = n then (H g).count pid else recorded s m pid g := by
  rw [recorded, scopes_setScope]
  by_cases hm : m = n
  · subst hm
    rw [if_pos rfl, update_self, hs.historyOf_eq]
  · rw [if_neg hm, update_of_ne hm]
    rfl

theorem rep_setScope (h : ∀ n ∈ nodes, ∃ H, Rep node n (s.scopes n) H) (hs : Rep node n scope H) :
    ∀ m ∈ nodes, ∃ H, Rep node m ((s.setScope n scope).scopes m) H := by
  intro m hm
  rw [scopes_setScope]
  by_cases hmn : m = n
  · subst hmn
    exact ⟨H, by rwa [update_self]⟩
  · rw [update_of_ne hmn]
    exact h m hm

omit [LinearOrder Name] [LinearOrder Pid] in
theorem taken_counts_pos (h : Taken H r) : ∀ x ∈ r.counts, 0 < x.2 := by
  cases r with
  | joinCounts counts pid => exact h
  | leaveCounts counts pid => exact fun x hx => (h.2 x hx).2
  | _ => simp [Request.counts]

/-- A request that returns was taken, or changed nothing. -/
theorem handleRequest_cases {s s' : State Name Pid Node} (hs : Rep node home s H)
    (hpid : sideOf node home r.pid = side) (hcounts : side = .remote → ∀ x ∈ r.counts, 0 < x.2)
    (h : handleRequest node side s r = .ok (b, s')) :
    (b = true ∧ Taken H r ∧ Rep node home s' (afterRequest H r)) ∨
      (b = false ∧ ¬ Taken H r ∧ s' = s) := by
  obtain ⟨htaken, hrefused, hfails⟩ := handleRequest_spec hs r hpid hcounts
  by_cases hok : RequestOk H r
  · by_cases ht : Taken H r
    · obtain ⟨s'', hs'', hrep⟩ := htaken hok ht
      rw [hs''] at h
      cases h
      exact .inl ⟨rfl, ht, hrep⟩
    · rw [hrefused hok ht] at h
      cases h
      exact .inr ⟨rfl, ht, rfl⟩
  · obtain ⟨e, he⟩ := hfails hok
    rw [he] at h
    cases h

variable [DecidableEq χ]

/-- **Step lemma**: a call. -/
theorem Balanced.call (hs : Balanced node nodes s)
    (h : next node clientNode nodes s (.call c r) = some s') : Balanced node nodes s' := by
  rw [next] at h
  by_cases hcall : clientNode c ≠ node r.pid ∨ node r.pid ∉ nodes ∨ ∃ x ∈ s.pending, x.client = c
  · simp only [if_pos hcall] at h
    cases h
  simp only [if_neg hcall] at h
  push Not at hcall
  obtain ⟨-, hnode, -⟩ := hcall
  obtain ⟨H, hrep⟩ := hs.rep (node r.pid) hnode
  have hside : sideOf node (node r.pid) r.pid = .here := sideOf_eq_here.mpr rfl
  cases hcase : handleRequest node .here (s.scopes (node r.pid)) r with
  | error e =>
    rw [hcase] at h
    cases h
  | ok a =>
    obtain ⟨b, scope⟩ := a
    rw [hcase] at h
    rcases handleRequest_cases hrep hside (by simp) hcase with
      ⟨rfl, htaken, hrep'⟩ | ⟨rfl, -, -⟩
    · cases h
      refine ⟨rep_setScope hs.rep hrep', ?_, ?_, hs.flight⟩
      · intro n hn pid hpid hne g
        have hold := hs.balance n hn pid hpid hne g
        have hcount := count_afterRequest htaken pid g
        have hrecord := recorded_of_rep hrep pid g
        have hnew : ∀ m, recorded (s.setScope (node r.pid) scope) m pid g =
            if m = node r.pid then (afterRequest H r g).count pid else recorded s m pid g :=
          fun m => recorded_setScope hrep' m pid g
        show (recorded (s.setScope (node r.pid) scope) n pid g : Int) +
          total (pendingEffect pid g) (s.pending ++ _) + total (flightEffect n pid g) s.flight =
          recorded (s.setScope (node r.pid) scope) (node pid) pid g
        rw [hnew, hnew, total_append, total_cons, total_nil, pendingEffect, hrep.historyOf_eq]
        show _ + (_ + (effect pid g r (removed H r) + 0)) + _ = _
        by_cases hp : r.pid = pid
        · subst hp
          rw [if_neg hne, if_pos rfl]
          omega
        · rw [effect_of_ne hp] at hcount ⊢
          by_cases hn' : n = node r.pid
          · subst hn'
            rw [if_pos rfl, if_neg (Ne.symm hne)]
            omega
          · rw [if_neg hn']
            by_cases hp' : node pid = node r.pid
            · rw [hp'] at hold
              rw [if_pos hp']
              omega
            · rw [if_neg hp']
              omega
      · intro x hx
        rcases mem_append.mp hx with hx | hx
        · exact hs.pending x hx
        · rw [mem_singleton] at hx
          subst hx
          exact taken_counts_pos htaken
    · cases h
      exact hs

omit [DecidableEq χ] in
theorem total_casts (hnodes : nodes.Nodup) (x : Pending Name Pid χ) (hn : n ∈ nodes)
    (m : Node) (pid : Pid) (g : Name) :
    total (flightEffect n pid g) (casts nodes m x) = if n = m then 0 else pendingEffect pid g x := by
  have hsend : ∀ k, flightEffect n pid g ⟨.client x.client, k, .cast x.request, x.removed⟩ =
      if k = n then pendingEffect pid g x else 0 := fun k => rfl
  rw [casts, total_broadcast hsend (hnodes.filter _)]
  by_cases hm : n = m
  · simp [hm]
  · simp [hm, hn]

/-- **Step lemma**: the casts after a call. -/
theorem Balanced.abcast (hnodes : nodes.Nodup) (hs : Balanced node nodes s)
    (h : next node clientNode nodes s (.abcast c) = some s') : Balanced node nodes s' := by
  rw [next] at h
  cases htake : takeFirst (fun x : Pending Name Pid χ => x.client = c) s.pending with
  | none =>
    rw [htake] at h
    cases h
  | some a =>
    obtain ⟨x, pending⟩ := a
    rw [htake] at h
    cases h
    obtain ⟨hx, hpending⟩ := mem_of_takeFirst htake
    constructor
    case rep => exact hs.rep
    case balance =>
      intro n hn pid hpid hne g
      have hold := hs.balance n hn pid hpid hne g
      have hcasts := total_casts hnodes x hn (node x.request.pid) pid g
      have htotal := total_takeFirst htake (pendingEffect pid g)
      show (recorded s n pid g : Int) + total (pendingEffect pid g) pending +
        total (flightEffect n pid g) (s.flight ++ casts nodes (node x.request.pid) x) =
        recorded s (node pid) pid g
      rw [total_append, hcasts]
      by_cases hm : n = node x.request.pid
      · have hother : pendingEffect pid g x = 0 := by
          refine effect_of_ne ?_ g x.removed
          rintro rfl
          exact hne hm
        rw [if_pos hm]
        omega
      · rw [if_neg hm]
        omega
    case pending => exact fun y hy => hs.pending y (hpending y hy)
    case flight =>
      intro y hy
      rcases mem_append.mp hy with hy | hy
      · exact hs.flight y hy
      · obtain ⟨m, hm, rfl⟩ := mem_map.mp hy
        obtain ⟨hm, hne⟩ := mem_filter.mp hm
        have hne' : m ≠ node x.request.pid := by simpa using hne
        exact ⟨hm, Ne.symm hne', hs.pending x hx⟩

theorem Rep.histories_ne_nil {s : State Name Pid Node} (hs : Rep node home s H) :
    ∀ y ∈ histories s, y.2 ≠ [] := by
  intro y hy
  rw [histories, mem_reverse] at hy
  obtain ⟨x, hx, rfl⟩ := mem_map.mp hy
  have hfind : Maps.find x.1 s.groups = some x.2 :=
    Std.ExtTreeMap.mem_toList_iff_getElem?_eq_some.mp hx
  exact hs.represented.history_ne_nil x.1 x.2 hfind

/-- **Step lemma**: a node comes up. -/
theorem Balanced.nodeup (hs : Balanced node nodes s) {n m : Node}
    (h : next node clientNode nodes s (.nodeup n m) = some s') : Balanced node nodes s' := by
  rw [next] at h
  by_cases hnm : n ∉ nodes ∨ m ∉ nodes ∨ n = m
  · simp only [if_pos hnm] at h
    cases h
  simp only [if_neg hnm, handle, mergeStart] at h
  push Not at hnm
  obtain ⟨hn, hm, -⟩ := hnm
  by_cases hnil : histories (s.scopes n) = []
  · rw [if_pos hnil] at h
    cases h
    exact hs
  · rw [if_neg hnil] at h
    cases h
    obtain ⟨H, hrep⟩ := hs.rep n hn
    constructor
    case rep => exact hs.rep
    case balance =>
      intro k hk pid hpid hne g
      have hold := hs.balance k hk pid hpid hne g
      show (recorded s k pid g : Int) + total (pendingEffect pid g) s.pending +
        total (flightEffect k pid g) (s.flight ++ _) = recorded s (node pid) pid g
      rw [total_append, total_cons, total_nil]
      simp only [flightEffect, messageEffect, ite_self]
      omega
    case pending => exact hs.pending
    case flight =>
      intro y hy
      rcases mem_append.mp hy with hy | hy
      · exact hs.flight y hy
      · rw [mem_singleton] at hy
        subst hy
        exact ⟨hm, hrep.histories_ne_nil⟩

omit [DecidableEq χ] in
theorem delivered_spec {s s' : State Name Pid Node} (hs : Rep node home s H)
    (hhome : x.receiver = home) (hpacket : PacketOk node nodes x) (hcast : CastOk H x)
    (h : handle node home s x.message = .ok (out, s')) :
    ∃ H', Rep node home s' H' ∧
      ∀ pid g, ((H' g).count pid : Int) = (H g).count pid + flightEffect home pid g x := by
  obtain ⟨sender, receiver, message, t⟩ := x
  subst hhome
  have heffect : ∀ pid g, flightEffect receiver pid g ⟨sender, receiver, message, t⟩ =
      messageEffect pid g t message := fun pid g => if_pos rfl
  simp only [heffect]
  cases message with
  | cast r =>
    obtain ⟨-, hne, hcounts⟩ := hpacket
    have hside : sideOf node receiver r.pid = .remote := if_neg hne
    have ht : removed H r = t := funext hcast
    cases hcase : handleRequest node .remote s r with
    | error e =>
      rw [handle, hcase] at h
      cases h
    | ok a =>
      obtain ⟨b, s''⟩ := a
      rw [handle, hcase] at h
      cases h
      rcases handleRequest_cases hs hside (fun _ => hcounts) hcase with
        ⟨-, htaken, hrep⟩ | ⟨-, hnot, hsame⟩
      · refine ⟨_, hrep, fun pid g => ?_⟩
        rw [count_afterRequest htaken, ht, messageEffect]
      · refine ⟨H, hsame ▸ hs, fun pid g => ?_⟩
        rw [messageEffect, ← ht, effect_of_not_taken hcounts hnot, Int.add_zero]
  | exchange n historyL =>
    obtain ⟨-, hX⟩ := hpacket
    obtain ⟨s'', hs'', hrep⟩ := merge_spec hX hs
    rw [handle, hs''] at h
    cases h
    refine ⟨_, hrep, fun pid g => ?_⟩
    have hnone : messageEffect pid g t (.exchange n historyL : Message Name Pid Node) = 0 := rfl
    rw [count_mergeHistories hcast, hnone, Int.add_zero]
  | _ => exact absurd hpacket.2 not_false

omit [DecidableEq χ] in
/-- A cast has no effect on the pids of its receiver. -/
theorem flightEffect_home (hpacket : PacketOk node nodes x) (pid : Pid) (g : Name) :
    flightEffect (node pid) pid g x = 0 := by
  rw [flightEffect]
  by_cases hx : x.receiver = node pid
  · rw [if_pos hx]
    cases hm : x.message with
    | cast r =>
      have hne : node r.pid ≠ node pid := by
        have h := hpacket.2
        rw [hm, hx] at h
        exact h.1
      exact effect_of_ne (fun hp => hne (congrArg node hp)) g x.removed
    | _ => rfl
  · rw [if_neg hx]

/-- **Step lemma**: a delivery. -/
theorem Balanced.deliver (hs : Balanced node nodes s) {sender : Sender Node χ}
    {receiver : Node} (hok : StepOk s (.deliver sender receiver))
    (h : next node clientNode nodes s (.deliver sender receiver) = some s') :
    Balanced node nodes s' := by
  rw [next] at h
  cases htake : takeFirst (fun x : Packet Name Pid Node χ =>
      x.sender = sender ∧ x.receiver = receiver) s.flight with
  | none =>
    rw [htake] at h
    cases h
  | some a =>
    obtain ⟨x, flight⟩ := a
    simp only [htake] at h
    obtain ⟨hx, hflight⟩ := mem_of_takeFirst htake
    have hreceiver : x.receiver = receiver := by
      have hp := (takeFirst_eq_some htake).1
      simp only [decide_eq_true_eq] at hp
      exact hp.2
    have hpacket := hs.flight x hx
    obtain ⟨H, hrep⟩ := hs.rep receiver (hreceiver ▸ hpacket.1)
    have hcast := hok x flight htake
    rw [hrep.historyOf_eq] at hcast
    cases hcase : handle node receiver (s.scopes receiver) x.message with
    | error e =>
      rw [hcase] at h
      cases h
    | ok a =>
      obtain ⟨out, scope⟩ := a
      rw [hcase] at h
      cases h
      obtain ⟨H', hrep', hcount⟩ := delivered_spec hrep hreceiver hpacket hcast hcase
      constructor
      case rep => exact rep_setScope hs.rep hrep'
      case balance =>
        intro n hn pid hpid hne g
        have hold := hs.balance n hn pid hpid hne g
        have htotal := total_takeFirst htake (flightEffect n pid g)
        have hrecord := recorded_of_rep hrep pid g
        have hchange := hcount pid g
        show (recorded (s.setScope receiver scope) n pid g : Int) +
          total (pendingEffect pid g) s.pending + total (flightEffect n pid g) flight =
          recorded (s.setScope receiver scope) (node pid) pid g
        rw [recorded_setScope hrep', recorded_setScope hrep']
        by_cases hn' : n = receiver
        · subst hn'
          rw [if_pos rfl, if_neg (Ne.symm hne)]
          omega
        · have hnone : flightEffect n pid g x = 0 :=
            if_neg fun hx => hn' (hx.symm.trans hreceiver)
          rw [if_neg hn']
          by_cases hp : node pid = receiver
          · have hhome := flightEffect_home hpacket pid g
            rw [hp] at hold hhome
            rw [if_pos hp]
            omega
          · rw [if_neg hp]
            omega
      case pending => exact hs.pending
      case flight => exact fun y hy => hs.flight y (hflight y hy)

/-! ## runs -/

theorem Balanced.next (hnodes : nodes.Nodup) (hs : Balanced node nodes s)
    {event : Event Name Pid Node χ} (hok : StepOk s event)
    (h : next node clientNode nodes s event = some s') : Balanced node nodes s' := by
  cases event with
  | call c r => exact hs.call h
  | abcast c => exact hs.abcast hnodes h
  | nodeup n m => exact hs.nodeup h
  | deliver sender receiver => exact hs.deliver hok h

omit [DecidableEq χ] in
theorem Balanced.agree (hs : Balanced node nodes s) (hquiet : Quiet s) : Agree node nodes s := by
  intro n hn pid hpid g
  by_cases hne : n = node pid
  · rw [hne]
  · have h := hs.balance n hn pid hpid hne g
    rw [hquiet.1, hquiet.2, total_nil, total_nil] at h
    omega

/-- Scope processes that were just started, or whose counts agree. -/
structure Settled (node : Pid → Node) (nodes : List Node) (s : System Name Pid Node χ) :
    Prop where
  reached : ∀ n ∈ nodes, ∃ H, Rep node n (s.scopes n) H
  quiet : Quiet s
  agree : Agree node nodes s

omit [DecidableEq χ] in
theorem settled_new : Settled node nodes
    ({ scopes := fun _ => {}, pending := [], flight := [] } : System Name Pid Node χ) where
  reached := fun _ _ => ⟨_, rep_new⟩
  quiet := ⟨rfl, rfl⟩
  agree := fun _ _ _ _ _ => rfl

omit [DecidableEq χ] in
theorem Settled.balanced (hs : Settled node nodes s) : Balanced node nodes s where
  rep := hs.reached
  balance := by
    intro n hn pid hpid _ g
    rw [hs.quiet.1, hs.quiet.2, total_nil, total_nil, hs.agree n hn pid hpid g]
    omega
  pending := by simp [hs.quiet.1]
  flight := by simp [hs.quiet.2]

/-- **The counts agree**: in a run whose delivered casts do what they should, the
nodes record the same memberships whenever nothing is under way. -/
theorem quiet_counts_agree {s0 s : System Name Pid Node χ}
    {events : List (Event Name Pid Node χ)} (hnodes : nodes.Nodup)
    (h0 : Settled node nodes s0) (h : Steps (next node clientNode nodes) StepOk s0 events s)
    (hquiet : Quiet s) : Agree node nodes s := by
  have hbalanced : Balanced node nodes s := h.invariant
    (fun _ _ _ hs hok hstep => hs.next hnodes hok hstep) h0.balanced
  exact hbalanced.agree hquiet

/-- Two nodes, with the pids and the clients from 100 on at the second one. -/
def started : System Bool Nat Nat Nat := { scopes := fun _ => {}, pending := [], flight := [] }

/-- The first node joins, exchanges its histories and leaves, in this order. -/
def joinExchangeLeave : List (Event Bool Nat Nat Nat) :=
  [.call 7 (.joinCounts [(true, 2)] 5), .abcast 7, .deliver (.client 7) 1, .nodeup 0 1,
    .deliver (.scope 0) 1, .call 7 (.leave true 5), .abcast 7, .deliver (.client 7) 1]

theorem quiet_counts_agree_joinExchangeLeave :
    ∃ s, run (next (· / 100) (· / 100) [0, 1]) started joinExchangeLeave = some s ∧
      recorded s 1 5 true = 1 ∧ Agree (· / 100) [0, 1] s := by
  have hsteps : ∃ s, Steps (next (· / 100) (· / 100) [0, 1]) StepOk started joinExchangeLeave s ∧
      Quiet s ∧ recorded s 1 5 true = 1 := by
    refine ⟨_, .cons trivial rfl <| .cons trivial rfl <| .cons ?_ rfl <| .cons trivial rfl <|
      .cons ?_ rfl <| .cons trivial rfl <| .cons trivial rfl <| .cons ?_ rfl <| .nil _,
      ⟨rfl, rfl⟩, rfl⟩
    · intro x flight h
      cases h
      exact fun g => rfl
    · intro x flight h
      cases h
      intro y hy pid hpid
      obtain rfl : y = (true, [5, 5]) := mem_singleton.mp hy
      obtain rfl : pid = 5 := by simpa using hpid
      rfl
    · intro x flight h
      cases h
      intro g
      cases g <;> rfl
  obtain ⟨s, hsteps, hquiet, hone⟩ := hsteps
  exact ⟨s, hsteps.run_eq, hone, quiet_counts_agree (by decide) settled_new hsteps hquiet⟩

/-- **An exchange overtakes a join that it lists**: the second node has the
membership from the exchange and then adds that of the join. -/
theorem overtaken_join_disagrees : ∃ s, run (next (· / 100) (· / 100) [0, 1]) started
        [.call 7 (.join true 5), .nodeup 0 1, .deliver (.scope 0) 1, .abcast 7,
          .deliver (.client 7) 1] = some s ∧
      Settled (· / 100) [0, 1] started ∧ Quiet s ∧
      recorded s 0 5 true = 1 ∧ recorded s 1 5 true = 2 ∧ ¬ Agree (· / 100) [0, 1] s := by
  refine ⟨_, rfl, settled_new, ⟨rfl, rfl⟩, rfl, rfl, fun h => ?_⟩
  have hcounts := h 1 (by decide) 5 (by decide) true
  exact absurd hcounts (by decide)

end CloudI.Cpg
