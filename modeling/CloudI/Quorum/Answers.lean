import CloudI.Library.Run
import CloudI.Library.Votes
import CloudI.Quorum.Basic

/-!
# Quorum.Answers

The answers of `cloudi_service_quorum`, over all orders of responses, invalid responses and
timeouts of any number of requests.

Beside the state of the service stands what was asked: the sends of each request, and their
outcomes as votes (a valid response is a vote for it, any other outcome is void).  The answer is
the decision of the votes, returned to the source of the request.
-/

namespace CloudI.Quorum

open Run Votes List Option Function

variable {ι Pid Name Info Body : Type} [LinearOrder ι] [LinearOrder Pid]
  [LinearOrder Info] [LinearOrder Body]

/-! ## the system -/

/-- The outcome of a send: a valid response, or a void vote. -/
abbrev Vote (Info Body : Type) := Option (Key Info Body × Info × Body)

/-- A request that was sent: the required count, the sends that succeeded, their outcomes in the
order of arrival, and the timeout that the outcome that decided came with. -/
structure Asked (ι Pid Name Info Body : Type) where
  request : Incoming ι Pid Name Info Body
  required : Nat
  sent : List ι
  votes : List (Vote Info Body) := []
  timeout : Nat := request.timeout

section
variable (a : Asked ι Pid Name Info Body)

/-- The decision of a request so far. -/
def Asked.decision : Option (Option (Info × Body)) :=
  Votes.decision a.required a.sent.length a.votes

/-- The request with one more outcome. -/
def Asked.vote (vote : Vote Info Body) (timeout : Nat) : Asked ι Pid Name Info Body :=
  { a with
    votes := a.votes ++ [vote]
    timeout := if a.decision = none then timeout else a.timeout }

/-- The answer to the source of the request: everything but the response and the timeout is the
request's own. -/
def Asked.returns (timeout : Nat) (response : Option (Info × Body)) : Answer ι Pid Name Info Body :=
  { a.request.fail with response, timeout }

/-- The answer that the source is to get: the decision, with the timeout that it came with. -/
def Asked.answer : Option (Answer ι Pid Name Info Body) :=
  a.decision.map (a.returns a.timeout)

end

/-- The service with what was asked.  `owner` is the request of a send whose outcome is
outstanding; `known` and `used` are the ids of all requests and sends so far. -/
structure World (ι Pid Name Info Body : Type) [LinearOrder ι] [LinearOrder Pid]
    [LinearOrder Info] [LinearOrder Body] where
  state : State ι Pid Name Info Body := {}
  asked : ι → Option (Asked ι Pid Name Info Body) := fun _ => none
  owner : ι → Option ι := fun _ => none
  known : List ι := []
  used : List ι := []
  answers : List (Answer ι Pid Name Info Body) := []

/-- A step: a request, the outcome of a send, or the end of a process. -/
inductive Label (ι Pid Name Info Body : Type) where
  | request (r : Incoming ι Pid Name Info Body)
      (sends : Option (List (Pid × Option ι))) (observed : Observed Pid)
  | response (quorumTransId : ι) (info : Info) (body : Body) (timeout : Nat)
      (observed : Observed Pid)
  | timeout (quorumTransId : ι) (observed : Observed Pid)
  | down (pid : Pid)

variable (cfg : Config Info Body)

/-- The required count of a request that is sent, and its destinations. -/
def accepted (r : Incoming ι Pid Name Info Body) (sends : Option (List (Pid × Option ι))) :
    Option (Nat × List (Pid × Option ι)) :=
  if validate cfg.validateRequestInfo cfg.validateRequest r.requestInfo r.request then
    sends.bind fun sends => (countRequired cfg sends.length).map fun n => (n, sends)
  else none

/-- The sends that succeeded. -/
def sentOf (sends : List (Pid × Option ι)) : List ι := sends.filterMap Prod.snd

/-- The vote of a response. -/
def voteOf (info : Info) (body : Body) : Vote Info Body :=
  if validate cfg.validateResponseInfo cfg.validateResponse info body then
    some (key cfg info body, info, body)
  else none

/-- An outcome of a send, with its timeout. -/
def World.outcome (w : World ι Pid Name Info Body) (quorumTransId : ι)
    (vote : Vote Info Body) (timeout : Incoming ι Pid Name Info Body → Nat)
    (s : State ι Pid Name Info Body)
    (e : Effects ι Pid Name Info Body) : World ι Pid Name Info Body :=
  { w with
    state := s
    asked := fun t =>
      if w.owner quorumTransId = some t then
        (w.asked t).map fun a => a.vote vote (timeout a.request)
      else w.asked t
    owner := update w.owner quorumTransId none
    answers := w.answers ++ e.answers }

/-- A step of the system; `none` when the service fails. -/
def next (w : World ι Pid Name Info Body) :
    Label ι Pid Name Info Body → Option (World ι Pid Name Info Body)
  | .request r sends observed =>
      let (s, e) := handleRequest cfg observed r sends w.state
      let sent := match accepted cfg r sends with
        | none => []
        | some (_, sends) => sentOf sends
      some
        { state := s
          asked := match accepted cfg r sends with
            | none => w.asked
            | some (required, _) => update w.asked r.transId (some { request := r, required, sent })
          owner := fun q => if q ∈ sent then some r.transId else w.owner q
          known := r.transId :: w.known
          used := sent ++ w.used
          answers := w.answers ++ e.answers }
  | .response quorumTransId info body timeout observed =>
      (handleReturn cfg observed quorumTransId info body timeout w.state).map fun (s, e) =>
        w.outcome quorumTransId (voteOf cfg info body) (fun _ => timeout) s e
  | .timeout quorumTransId observed =>
      (handleTimeout cfg observed quorumTransId w.state).map fun (s, e) =>
        w.outcome quorumTransId none Incoming.timeout s e
  | .down pid => some { w with state := handleDown cfg pid w.state }

/-! ## what is asked, and the property -/

/-- The source of an outcome stays alive. -/
def SourceAlive (w : World ι Pid Name Info Body) (quorumTransId : ι)
    (observed : Observed Pid) : Prop :=
  ∀ x ∈ takePending quorumTransId w.state,
    (failureSource cfg observed x.2.2.source w.state).dead = false

/-- **The steps of the environment**: new ids for requests and sends, a required count of 1 or
more, exactly one outcome for each send, and sources that stay alive. -/
def Admitted (w : World ι Pid Name Info Body) : Label ι Pid Name Info Body → Prop
  | .request r sends observed =>
      r.transId ∉ w.known ∧ (failureSource cfg observed r.source w.state).dead = false ∧
        ∀ x ∈ accepted cfg r sends, 1 ≤ x.1 ∧ (sentOf x.2).Nodup ∧ ∀ q ∈ sentOf x.2, q ∉ w.used
  | .response quorumTransId _ _ _ observed =>
      (w.owner quorumTransId).isSome = true ∧ SourceAlive cfg w quorumTransId observed
  | .timeout quorumTransId observed =>
      (w.owner quorumTransId).isSome = true ∧ SourceAlive cfg w quorumTransId observed
  | .down _ => True

/-- **Some send of the request succeeds.** -/
def StepOk : Label ι Pid Name Info Body → Prop
  | .request r sends _ => ∀ x ∈ accepted cfg r sends, sentOf x.2 ≠ []
  | _ => True

instance (w : World ι Pid Name Info Body) (q : ι) (observed : Observed Pid) :
    Decidable (SourceAlive cfg w q observed) := by
  unfold SourceAlive
  infer_instance

instance (w : World ι Pid Name Info Body) (l : Label ι Pid Name Info Body) :
    Decidable (Admitted cfg w l) := by
  cases l <;> unfold Admitted <;> infer_instance

instance (l : Label ι Pid Name Info Body) : Decidable (StepOk cfg l) := by
  cases l <;> unfold StepOk <;> infer_instance

/-- The answers with the transaction id of a request. -/
def World.answersOf (w : World ι Pid Name Info Body) (t : ι) : List (Answer ι Pid Name Info Body) :=
  w.answers.filter (·.transId = t)

/-- **A request is answered by the decision of its votes**: its source gets that answer and no
other one, and its record and its pending entries are there while an outcome is outstanding. -/
structure Answered (w : World ι Pid Name Info Body) (t : ι)
    (a : Asked ι Pid Name Info Body) : Prop where
  request : a.request.transId = t
  answers : w.answersOf t = a.answer.toList
  once : a.votes.length = a.sent.length → (w.answersOf t).length = 1
  record : (Maps.find t w.state.requests).isSome = true ↔ ∃ q, w.owner q = some t
  pending : ∀ q, (∃ dest, Maps.find q w.state.pending = some ⟨t, dest⟩) ↔ w.owner q = some t

/-! ## one outcome -/

section Outcome

omit [LinearOrder ι] [LinearOrder Pid]

variable {cfg} {a : Asked ι Pid Name Info Body} {request : Request Pid Name Info Body} {t : ι}

/-- **The record of a request**: what is returned to its source, its counts, and the tally of the
votes until they decide. -/
structure RecordOk (a : Asked ι Pid Name Info Body) (request : Request Pid Name Info Body) :
    Prop where
  answer : request.answer a.request.transId = a.returns
  timeout : request.timeout = a.request.timeout
  countRequired : request.countRequired = a.required
  countTotal : request.countTotal = a.sent.length
  countResponses : request.countResponses = a.votes.length
  returned : request.returned = a.decision.isSome
  tally : a.decision = none →
    Tally a.votes (fun k => Maps.find k request.responses) request.countCorrect

theorem decision_vote (a : Asked ι Pid Name Info Body) (vote : Vote Info Body)
    (timeout : Nat) : (a.vote vote timeout).decision =
      a.decision.or (decisionAt a.required a.sent.length (a.votes ++ [vote])) :=
  decision_concat _ _ _ _

/-- The answers that an outcome is to bring. -/
def Asked.brings (a : Asked ι Pid Name Info Body) (vote : Vote Info Body) (timeout : Nat) :
    List (Answer ι Pid Name Info Body) :=
  if a.decision = none then
    ((decisionAt a.required a.sent.length (a.votes ++ [vote])).map (a.returns timeout)).toList
  else []

/-- The answer comes with the vote that decides, and stays. -/
theorem answer_vote (a : Asked ι Pid Name Info Body) (vote : Vote Info Body) (timeout : Nat) :
    (a.vote vote timeout).answer.toList = a.answer.toList ++ a.brings vote timeout := by
  rw [Asked.answer, Asked.answer, Asked.brings, decision_vote]
  cases hdec : a.decision with
  | none =>
    have htimeout : (a.vote vote timeout).timeout = timeout := by rw [Asked.vote, if_pos hdec]
    rw [none_or, htimeout, if_pos rfl]
    rfl
  | some d =>
    have htimeout : (a.vote vote timeout).timeout = a.timeout := by
      rw [Asked.vote, if_neg (by simp [hdec])]
    rw [some_or, htimeout, if_neg (by simp), append_nil]
    rfl

/-- A record whose votes decide: only its counts are read from now on. -/
theorem RecordOk.decided {newRequest : Request Pid Name Info Body} {vote : Vote Info Body}
    {d : Option (Info × Body)} {timeout : Nat} (hrecord : RecordOk a request)
    (hdecision : (a.vote vote timeout).decision = some d)
    (hanswer : ∀ t : ι, newRequest.answer t = request.answer t)
    (htimeout : newRequest.timeout = request.timeout)
    (hrequired : newRequest.countRequired = request.countRequired)
    (htotal : newRequest.countTotal = request.countTotal)
    (hresponses : newRequest.countResponses = request.countResponses + 1)
    (hreturned : newRequest.returned = true) : RecordOk (a.vote vote timeout) newRequest where
  answer := (hanswer _).trans hrecord.answer
  timeout := htimeout.trans hrecord.timeout
  countRequired := hrequired.trans hrecord.countRequired
  countTotal := htotal.trans hrecord.countTotal
  countResponses := by
    rw [hresponses, hrecord.countResponses, Asked.vote, length_append, length_singleton]
  returned := by
    rw [hreturned, hdecision]
    rfl
  tally := by
    intro hnone
    rw [hdecision] at hnone
    cases hnone

/-- What the record says about votes that do not decide for a response. -/
theorem lost_iff {votes : List (Vote Info Body)} {count : Key Info Body → Option Nat}
    {countCorrect : Nat} (hrecord : RecordOk a request) (hrequired : 0 < a.required)
    (hlen : votes.length = request.countResponses + 1)
    (htally : Tally votes count countCorrect) (hfew : ∀ k, votesFor k votes < a.required) :
    request.lost (request.countResponses + 1) countCorrect = true ↔
      Hopeless a.required a.sent.length votes := by
  rw [htally.hopeless_iff, Request.lost, hrecord.countTotal, hrecord.countRequired, hlen]
  have hle : countCorrect < a.required := by
    rcases htally.attained with rfl | ⟨v, hv, x, hx, heq⟩
    · exact hrequired
    · rw [← heq]
      exact hfew x.1
  simp only [Bool.or_eq_true, decide_eq_true_eq]
  constructor
  · rintro (heq | hlt)
    · omega
    · exact hlt
  · exact .inr

theorem votesFor_vote_lt (hrequired : 0 < a.required) (hnone : a.decision = none)
    (hne : votesFor k a.votes + 1 ≠ a.required) (k' : Key Info Body) :
    votesFor k' (a.votes ++ [some (k, response)]) < a.required := by
  have hk := votesFor_lt hrequired hnone k
  have hk' := votesFor_lt hrequired hnone k'
  rw [votesFor_concat]
  by_cases heq : k = k'
  · subst heq
    simp only [any_some, decide_true, if_true]
    omega
  · simpa [heq] using hk'

variable {timeout : Nat}

/-- **A valid response**: the record follows the votes, and what is returned is what the vote
decides. -/
theorem validResponse_spec {info : Info} {body : Body} (hrecord : RecordOk a request)
    (hrequired : 0 < a.required) (ht : a.request.transId = t) :
    RecordOk (a.vote (some (key cfg info body, info, body)) timeout)
        (validResponse cfg t request info body timeout).1 ∧
      (validResponse cfg t request info body timeout).2 =
        a.brings (some (key cfg info body, info, body)) timeout := by
  subst ht
  have hdecision := decision_vote a (some (key cfg info body, info, body)) timeout
  rw [Asked.brings]
  cases hdec : a.decision with
  | some d =>
    have hreturned : request.returned = true := by rw [hrecord.returned, hdec]; rfl
    rw [hdec, some_or] at hdecision
    have heq : validResponse cfg a.request.transId request info body timeout =
        ({ request with countResponses := request.countResponses + 1 }, []) := by
      rw [validResponse]
      simp [hreturned]
    rw [heq]
    exact ⟨hrecord.decided hdecision (fun _ => rfl) rfl rfl rfl rfl hreturned, rfl⟩
  | none =>
    have hreturned : request.returned = false := by rw [hrecord.returned, hdec]; rfl
    have htally := hrecord.tally hdec
    have hcount : request.count (key cfg info body) = votesFor (key cfg info body) a.votes + 1 := by
      rw [← htally.count, Request.count]
      cases Maps.find (key cfg info body) request.responses <;> rfl
    have htally' : Tally (a.votes ++ [some (key cfg info body, info, body)])
        (fun k => Maps.find k (Maps.put (key cfg info body)
          (votesFor (key cfg info body) a.votes + 1) request.responses))
        (max (votesFor (key cfg info body) a.votes + 1) request.countCorrect) := by
      rw [← htally.count]
      exact htally.vote (info, body) (by simp) (fun k hne => by simp [hne.symm])
    rw [hdec, none_or, decisionAt_some] at hdecision
    rw [if_pos rfl, decisionAt_some, validResponse]
    simp only [hreturned, Bool.false_eq_true, if_false, hcount, hrecord.answer]
    by_cases heq : votesFor (key cfg info body) a.votes + 1 = a.required
    · have heq' : votesFor (key cfg info body) a.votes + 1 = request.countRequired :=
        heq.trans hrecord.countRequired.symm
      rw [if_pos heq] at hdecision ⊢
      rw [if_pos heq']
      exact ⟨hrecord.decided hdecision (fun _ => rfl) rfl rfl rfl rfl rfl, rfl⟩
    · have hfew : ∀ k, votesFor k (a.votes ++ [some (key cfg info body, info, body)]) <
          a.required := votesFor_vote_lt hrequired hdec heq
      have hlost := lost_iff hrecord hrequired
        (by rw [length_append, length_singleton, hrecord.countResponses]) htally' hfew
      have heq' : votesFor (key cfg info body) a.votes + 1 ≠ request.countRequired :=
        fun h => heq (h.trans hrecord.countRequired)
      rw [if_neg heq] at hdecision ⊢
      rw [if_neg heq']
      by_cases hhopeless : Hopeless a.required a.sent.length
          (a.votes ++ [some (key cfg info body, info, body)])
      · rw [if_pos hhopeless] at hdecision ⊢
        rw [if_pos (hlost.mpr hhopeless)]
        exact ⟨hrecord.decided hdecision (fun _ => rfl) rfl rfl rfl rfl rfl, rfl⟩
      · rw [if_neg hhopeless] at hdecision ⊢
        rw [if_neg (hhopeless ∘ hlost.mp)]
        refine ⟨⟨hrecord.answer, hrecord.timeout, hrecord.countRequired, hrecord.countTotal, ?_, ?_,
          fun _ => htally'⟩, rfl⟩
        · rw [Asked.vote, length_append, length_singleton, hrecord.countResponses]
        · rw [hdecision]
          rfl

/-- **An invalid response or a timeout**, with a source that stays alive. -/
theorem failedResponse_spec (hrecord : RecordOk a request) (hrequired : 0 < a.required)
    (ht : a.request.transId = t) :
    RecordOk (a.vote none timeout) (failedResponse t request timeout false).1 ∧
      (failedResponse t request timeout false).2 = a.brings none timeout := by
  subst ht
  have hdecision := decision_vote a none timeout
  have hlen : (a.votes ++ [none]).length = request.countResponses + 1 := by
    rw [length_append, length_singleton, hrecord.countResponses]
  rw [Asked.brings]
  cases hdec : a.decision with
  | some d =>
    have hreturned : request.returned = true := by rw [hrecord.returned, hdec]; rfl
    rw [hdec, some_or] at hdecision
    rw [failedResponse]
    simp only [hreturned, Bool.not_true, Bool.false_and, Bool.false_eq_true, if_false]
    exact ⟨hrecord.decided hdecision (fun _ => rfl) rfl rfl rfl rfl rfl, rfl⟩
  | none =>
    have hreturned : request.returned = false := by rw [hrecord.returned, hdec]; rfl
    have htally := (hrecord.tally hdec).void
    have hfew : ∀ k, votesFor k (a.votes ++ [none]) < a.required := by
      intro k
      rw [votesFor_concat]
      exact votesFor_lt hrequired hdec k
    have hlost := lost_iff hrecord hrequired hlen htally hfew
    rw [hdec, none_or, decisionAt_none] at hdecision
    rw [if_pos rfl, decisionAt_none, failedResponse]
    simp only [hreturned, Bool.not_false, Bool.true_and, Bool.false_eq_true, if_false,
      hrecord.answer]
    by_cases hhopeless : Hopeless a.required a.sent.length (a.votes ++ [none])
    · rw [if_pos hhopeless] at hdecision ⊢
      rw [if_pos (hlost.mpr hhopeless)]
      exact ⟨hrecord.decided hdecision (fun _ => rfl) rfl rfl rfl rfl rfl, rfl⟩
    · rw [if_neg hhopeless] at hdecision ⊢
      rw [if_neg (hhopeless ∘ hlost.mp)]
      refine ⟨⟨hrecord.answer, hrecord.timeout, hrecord.countRequired, hrecord.countTotal,
        hlen.symm, ?_, fun _ => htally⟩, rfl⟩
      rw [hdecision]
      rfl

end Outcome

/-! ## the invariant -/

section Invariant

variable {cfg} {w w' : World ι Pid Name Info Body} {a : Asked ι Pid Name Info Body}
  {t q : ι}

/-- The sends of a request whose outcome is outstanding. -/
def World.outstanding (w : World ι Pid Name Info Body) (t : ι)
    (a : Asked ι Pid Name Info Body) : List ι :=
  a.sent.filter fun q => w.owner q = some t

/-- **A request that was asked**: its outcomes are outstanding or votes, the record is there and in
step with the votes until the last one, and the answers are the decision. -/
structure AskedOk (w : World ι Pid Name Info Body) (t : ι)
    (a : Asked ι Pid Name Info Body) : Prop where
  request : a.request.transId = t
  required : 0 < a.required
  nodup : a.sent.Nodup
  sent : a.sent ≠ []
  owner : ∀ q, w.owner q = some t → q ∈ a.sent
  count : (w.outstanding t a).length + a.votes.length = a.sent.length
  record : a.votes.length < a.sent.length →
    ∃ request, Maps.find t w.state.requests = some request ∧ RecordOk a request
  removed : a.votes.length = a.sent.length → Maps.find t w.state.requests = none
  answers : w.answersOf t = a.answer.toList

/-- A request whose outstanding outcomes, record and answers stay. -/
theorem AskedOk.congr (hok : AskedOk w t a) (howner : ∀ q, w'.owner q = some t ↔ w.owner q = some t)
    (hfind : Maps.find t w'.state.requests = Maps.find t w.state.requests)
    (hanswers : w'.answersOf t = w.answersOf t) : AskedOk w' t a where
  request := hok.request
  required := hok.required
  nodup := hok.nodup
  sent := hok.sent
  owner := fun q hq => hok.owner q ((howner q).mp hq)
  count := by
    have hsame : w'.outstanding t a = w.outstanding t a :=
      filter_congr fun q _ => by simp [howner]
    rw [hsame]
    exact hok.count
  record := by
    rw [hfind]
    exact hok.record
  removed := by
    rw [hfind]
    exact hok.removed
  answers := by
    rw [hanswers]
    exact hok.answers

/-- **The invariant of the system.** -/
structure WorldOk (w : World ι Pid Name Info Body) : Prop where
  asked : ∀ t a, w.asked t = some a → AskedOk w t a
  owner : ∀ q t, w.owner q = some t → (w.asked t).isSome = true
  pending : ∀ q t, (∃ dest, Maps.find q w.state.pending = some ⟨t, dest⟩) ↔ w.owner q = some t
  known : ∀ t, (w.asked t).isSome = true → t ∈ w.known
  answered : ∀ x ∈ w.answers, x.transId ∈ w.known
  used : ∀ q t, w.owner q = some t → q ∈ w.used

/-- An outstanding outcome finds its pending entry and its record. -/
theorem WorldOk.takePending (h : WorldOk w) (howner : w.owner q = some t) :
    ∃ a dest request, w.asked t = some a ∧ AskedOk w t a ∧ a.votes.length < a.sent.length ∧
      Maps.find t w.state.requests = some request ∧ RecordOk a request ∧
      Quorum.takePending q w.state = some (⟨t, dest⟩, Maps.remove q w.state.pending, request) := by
  obtain ⟨a, ha⟩ := isSome_iff_exists.mp (h.owner q t howner)
  have hok := h.asked t a ha
  have hmem : q ∈ w.outstanding t a := by
    rw [World.outstanding, mem_filter]
    exact ⟨hok.owner q howner, by simpa using howner⟩
  have hpos := length_pos_of_mem hmem
  have hcount := hok.count
  have hlt : a.votes.length < a.sent.length := by omega
  obtain ⟨request, hrequest, hrecord⟩ := hok.record hlt
  obtain ⟨dest, hdest⟩ := (h.pending q t).mpr howner
  refine ⟨a, dest, request, ha, hok, hlt, hrequest, hrecord, ?_⟩
  rw [Quorum.takePending, Maps.take, hdest]
  simp [hrequest]

theorem answersOf_append (hw : w'.answers = w.answers ++ answers)
    (hanswers : ∀ x ∈ answers, x.transId = t) (t' : ι) :
    w'.answersOf t' = w.answersOf t' ++ if t' = t then answers else [] := by
  rw [World.answersOf, hw, filter_append]
  congr 1
  by_cases heq : t' = t
  · subst heq
    rw [if_pos rfl, filter_eq_self.mpr fun x hx => by simpa using hanswers x hx]
  · rw [if_neg heq, filter_eq_nil_iff]
    intro x hx
    simp [hanswers x hx, Ne.symm heq]

variable {vote : Vote Info Body} {timeout : Incoming ι Pid Name Info Body → Nat}
  {e : Effects ι Pid Name Info Body}

theorem length_outstanding_outcome (hnodup : a.sent.Nodup) (howner : w.owner q = some t)
    (hmem : q ∈ a.sent) :
    ((w.outcome q vote timeout s e).outstanding t a).length + 1 = (w.outstanding t a).length := by
  have heq : (w.outcome q vote timeout s e).outstanding t a = (w.outstanding t a).erase q := by
    rw [World.outstanding, World.outstanding, List.Nodup.erase_eq_filter (hnodup.filter _),
      List.filter_filter]
    refine filter_congr fun q' _ => ?_
    rw [World.outcome]
    dsimp only
    by_cases hq : q' = q
    · subst hq
      simp
    · simp [hq]
  have hin : q ∈ w.outstanding t a := by
    rw [World.outstanding, mem_filter]
    exact ⟨hmem, by simpa using howner⟩
  rw [heq, length_erase_of_mem hin]
  have hpos := length_pos_of_mem hin
  omega

omit [LinearOrder Pid] in
theorem storeRequest_eq (hrecord : RecordOk a request) (hle : a.votes.length ≤ a.sent.length) :
    storeRequest t request requests =
      some (if a.votes.length = a.sent.length then Maps.remove t requests
        else Maps.put t request requests) := by
  rw [storeRequest, hrecord.countResponses, hrecord.countTotal]
  by_cases heq : a.votes.length = a.sent.length
  · rw [if_pos heq, if_pos heq]
  · rw [if_neg heq, if_pos (by omega), if_neg heq]

omit [LinearOrder ι] [LinearOrder Pid] in
theorem transId_of_mem_brings {timeout : Nat} (h : x ∈ a.brings vote timeout) :
    x.transId = a.request.transId := by
  rw [Asked.brings] at h
  split at h
  · obtain ⟨response, -, rfl⟩ := map_eq_some_iff.mp (mem_toList.mp h)
    rfl
  · cases h

/-- **An outcome keeps the invariant.** -/
theorem WorldOk.outcome (h : WorldOk w) (howner : w.owner q = some t) (ha : w.asked t = some a)
    (hrecord : RecordOk (a.vote vote (timeout a.request)) request)
    (hanswers : e.answers = a.brings vote (timeout a.request))
    (hrequests : s.requests = if (a.vote vote (timeout a.request)).votes.length =
        (a.vote vote (timeout a.request)).sent.length then
      Maps.remove t w.state.requests else Maps.put t request w.state.requests)
    (hpending : s.pending = Maps.remove q w.state.pending) : WorldOk (w.outcome q vote timeout s e) := by
  have hok := h.asked t a ha
  have hmem := hok.owner q howner
  have hlen : (a.vote vote (timeout a.request)).votes.length = a.votes.length + 1 := by
    rw [Asked.vote, length_append, length_singleton]
  have htransId : ∀ x ∈ e.answers, x.transId = t := by
    intro x hx
    rw [hanswers] at hx
    exact (transId_of_mem_brings hx).trans hok.request
  have hanswersOf : ∀ t', (w.outcome q vote timeout s e).answersOf t' =
      w.answersOf t' ++ if t' = t then e.answers else [] :=
    answersOf_append rfl htransId
  have howner' : ∀ q' t', (w.outcome q vote timeout s e).owner q' = some t' ↔
      q' ≠ q ∧ w.owner q' = some t' := by
    intro q' t'
    rw [World.outcome]
    dsimp only
    by_cases hq : q' = q
    · subst hq
      simp
    · simp [hq]
  have hasked : ∀ t' a', (w.outcome q vote timeout s e).asked t' = some a' →
      (t' = t ∧ a' = a.vote vote (timeout a.request)) ∨ (t' ≠ t ∧ w.asked t' = some a') := by
    intro t' a' ha'
    rw [World.outcome] at ha'
    dsimp only at ha'
    by_cases heq : t' = t
    · subst heq
      rw [if_pos howner, ha, map_some, Option.some.injEq] at ha'
      exact .inl ⟨rfl, ha'.symm⟩
    · rw [if_neg (by rw [howner]; simpa using Ne.symm heq)] at ha'
      exact .inr ⟨heq, ha'⟩
  have hsome : ∀ t', ((w.outcome q vote timeout s e).asked t').isSome = (w.asked t').isSome := by
    intro t'
    rw [World.outcome]
    dsimp only
    by_cases heq : w.owner q = some t'
    · rw [if_pos heq, isSome_map]
    · rw [if_neg heq]
  refine ⟨fun t' a' ha' => ?_, fun q' t' hq' => ?_, fun q' t' => ?_, fun t' ht' => ?_,
    fun x hx => ?_, fun q' t' hq' => ?_⟩
  · rcases hasked t' a' ha' with ⟨rfl, rfl⟩ | ⟨hne, ha'⟩
    · have hcount : ((w.outcome q vote timeout s e).outstanding t' a).length + 1 =
          (w.outstanding t' a).length := length_outstanding_outcome hok.nodup howner hmem
      have hcount' := hok.count
      refine ⟨hok.request, hok.required, hok.nodup, hok.sent, fun q' hq' => hok.owner q' ((howner' q' t').mp hq').2,
        ?_, fun hlt => ?_, fun hall => ?_, ?_⟩
      · rw [hlen]
        show ((w.outcome q vote timeout s e).outstanding t' a).length + _ = a.sent.length
        omega
      · refine ⟨request, ?_, hrecord⟩
        show Maps.find t' s.requests = _
        rw [hrequests, if_neg (by omega), Maps.find_put, if_pos rfl]
      · show Maps.find t' s.requests = _
        rw [hrequests, if_pos hall, Maps.find_remove, if_pos rfl]
      · rw [hanswersOf, if_pos rfl, hok.answers, hanswers, answer_vote]
    · refine (h.asked t' a' ha').congr (fun q' => ?_) ?_ ?_
      · rw [howner']
        refine ⟨And.right, fun hq' => ⟨?_, hq'⟩⟩
        rintro rfl
        exact hne (Option.some.inj (hq'.symm.trans howner))
      · show Maps.find t' s.requests = _
        rw [hrequests]
        by_cases hall : (a.vote vote (timeout a.request)).votes.length =
            (a.vote vote (timeout a.request)).sent.length
        · rw [if_pos hall, Maps.find_remove, if_neg (Ne.symm hne)]
        · rw [if_neg hall, Maps.find_put, if_neg (Ne.symm hne)]
      · rw [hanswersOf, if_neg hne, append_nil]
  · rw [hsome]
    exact h.owner q' t' ((howner' q' t').mp hq').2
  · show (∃ dest, Maps.find q' s.pending = some ⟨t', dest⟩) ↔ _
    rw [hpending, howner']
    simp only [Maps.find_remove]
    by_cases hq : q = q'
    · subst hq
      simp
    · simp only [hq, if_false, Ne.symm hq, ne_eq, not_false_eq_true, true_and]
      exact h.pending q' t'
  · rw [hsome] at ht'
    exact h.known t' ht'
  · rcases mem_append.mp hx with hx | hx
    · exact h.answered x hx
    · rw [htransId x hx]
      exact h.known t (by rw [ha]; rfl)
  · exact h.used q' t' ((howner' q' t').mp hq').2

/-! ## requests -/

omit [LinearOrder Pid] in
/-- **What `mcast_send` does**: the sends are counted, and each has a pending entry. -/
theorem mcastSend_spec (t : ι) (sends : List (Pid × Option ι)) (countSent : Nat)
    (pending : ErlMap ι (Pending ι Pid)) :
    (mcastSend t sends countSent pending).1 = countSent + (sentOf sends).length ∧
      ∀ q, (q ∈ sentOf sends →
          ∃ dest, Maps.find q (mcastSend t sends countSent pending).2 = some ⟨t, dest⟩) ∧
        (q ∉ sentOf sends →
          Maps.find q (mcastSend t sends countSent pending).2 = Maps.find q pending) := by
  induction sends generalizing countSent pending with
  | nil => exact ⟨rfl, fun q => ⟨fun hq => absurd hq not_mem_nil, fun _ => rfl⟩⟩
  | cons send sends ih =>
    obtain ⟨dest, result⟩ := send
    cases result with
    | none => exact ih countSent pending
    | some sentId =>
      obtain ⟨hcount, hpending⟩ := ih (countSent + 1) (Maps.put sentId ⟨t, dest⟩ pending)
      have hsent : sentOf ((dest, some sentId) :: sends) = sentId :: sentOf sends := rfl
      rw [mcastSend, hsent, length_cons]
      refine ⟨by omega, fun q => ⟨fun hq => ?_, fun hq => ?_⟩⟩
      · by_cases hmem : q ∈ sentOf sends
        · exact (hpending q).1 hmem
        · obtain rfl : q = sentId := (mem_cons.mp hq).resolve_right hmem
          exact ⟨dest, by rw [(hpending q).2 hmem, Maps.find_put, if_pos rfl]⟩
      · have hne : sentId ≠ q := fun heq => hq (heq ▸ mem_cons_self)
        rw [(hpending q).2 fun hmem => hq (mem_cons_of_mem _ hmem), Maps.find_put, if_neg hne]

/-- **What a request does**: it is sent, or it fails and is answered. -/
theorem handleRequest_eq {r : Incoming ι Pid Name Info Body}
    {sends : Option (List (Pid × Option ι))} {observed : Observed Pid}
    {s : State ι Pid Name Info Body} : handleRequest cfg observed r sends s =
      match accepted cfg r sends with
      | none => requestFailed cfg observed r s
      | some (required, sends) => mcast r sends required s := by
  unfold handleRequest accepted
  by_cases hvalid : validate cfg.validateRequestInfo cfg.validateRequest r.requestInfo r.request = true
  · rw [if_pos hvalid, if_pos hvalid]
    cases sends with
    | none => rfl
    | some sends =>
      cases hcount : countRequired cfg sends.length with
      | _ => simp [hcount]
  · rw [if_neg hvalid, if_neg hvalid]

variable {r : Incoming ι Pid Name Info Body} {sends : Option (List (Pid × Option ι))}
  {observed : Observed Pid}

/-- A request that is not sent. -/
theorem WorldOk.failed (h : WorldOk w) (hfresh : r.transId ∉ w.known)
    (hrequests : s.requests = w.state.requests) (hpending : s.pending = w.state.pending) :
    WorldOk { w with
      state := s
      known := r.transId :: w.known
      answers := w.answers ++ [r.fail] } := by
  have hanswersOf : ∀ t, World.answersOf { w with
      state := s
      known := r.transId :: w.known
      answers := w.answers ++ [r.fail] } t =
      w.answersOf t ++ if t = r.transId then [r.fail] else [] :=
    answersOf_append rfl fun x hx => by rw [mem_singleton.mp hx]; rfl
  refine ⟨fun t a ha => ?_, h.owner, fun q t => ?_, fun t ht => mem_cons_of_mem _ (h.known t ht),
    fun x hx => ?_, h.used⟩
  · have hok := h.asked t a ha
    have hne : t ≠ r.transId := by
      rintro rfl
      exact hfresh (h.known _ (by rw [show w.asked r.transId = some a from ha]; rfl))
    refine hok.congr (fun _ => Iff.rfl) ?_ ?_
    · show Maps.find t s.requests = _
      rw [hrequests]
    · rw [hanswersOf, if_neg hne, append_nil]
  · show (∃ dest, Maps.find q s.pending = some ⟨t, dest⟩) ↔ _
    rw [hpending]
    exact h.pending q t
  · rcases mem_append.mp hx with hx | hx
    · exact mem_cons_of_mem _ (h.answered x hx)
    · rw [mem_singleton.mp hx]
      exact mem_cons_self

/-- The world after a request was sent. -/
def World.sent (w : World ι Pid Name Info Body) (r : Incoming ι Pid Name Info Body)
    (sends : List (Pid × Option ι)) (required : Nat) : World ι Pid Name Info Body where
  state := (mcast r sends required w.state).1
  asked := update w.asked r.transId (some { request := r, required, sent := sentOf sends })
  owner := fun q => if q ∈ sentOf sends then some r.transId else w.owner q
  known := r.transId :: w.known
  used := sentOf sends ++ w.used
  answers := w.answers ++ (mcast r sends required w.state).2.answers

section Sent

variable {sends : List (Pid × Option ι)} {required : Nat}
  {s : State ι Pid Name Info Body}

theorem mcast_requests : (mcast r sends required s).1.requests =
    Maps.put r.transId (r.record required (sentOf sends).length
      (!decide ((sentOf sends).length ≥ required))) s.requests := by
  have hcount := (mcastSend_spec r.transId sends 0 s.pending).1
  rw [Nat.zero_add] at hcount
  rw [mcast]
  simp only [hcount]
  by_cases hge : (sentOf sends).length ≥ required
  · rw [if_pos hge, decide_eq_true hge]
    rfl
  · rw [if_neg hge, decide_eq_false hge]
    rfl

theorem mcast_pending : (mcast r sends required s).1.pending =
    (mcastSend r.transId sends 0 s.pending).2 := by
  rw [mcast]
  dsimp only
  split <;> rfl

theorem mcast_answers : (mcast r sends required s).2.answers =
    if (sentOf sends).length ≥ required then [] else [r.fail] := by
  have hcount := (mcastSend_spec r.transId sends 0 s.pending).1
  rw [Nat.zero_add] at hcount
  rw [mcast]
  simp only [hcount]
  by_cases hge : (sentOf sends).length ≥ required
  · rw [if_pos hge, if_pos hge]
  · rw [if_neg hge, if_neg hge]

theorem transId_of_mem_mcast (hx : x ∈ (mcast r sends required s).2.answers) :
    x.transId = r.transId := by
  rw [mcast_answers] at hx
  by_cases hge : (sentOf sends).length ≥ required
  · rw [if_pos hge] at hx
    cases hx
  · rw [if_neg hge] at hx
    rw [mem_singleton.mp hx]
    rfl

theorem answersOf_sent (t : ι) : (w.sent r sends required).answersOf t =
    w.answersOf t ++ if t = r.transId then
      (mcast r sends required w.state).2.answers else [] := by
  have hanswers : (w.sent r sends required).answers =
      w.answers ++ (mcast r sends required w.state).2.answers := rfl
  exact answersOf_append hanswers (fun _ hx => transId_of_mem_mcast hx) t

/-- A new request has no outcome, and no answer, but of a failure at once. -/
theorem WorldOk.askedOk_sent (h : WorldOk w) (hfresh : r.transId ∉ w.known)
    (hrequired : 0 < required) (hnodup : (sentOf sends).Nodup) (hsent : sentOf sends ≠ [])
    (howner : ∀ q, w.owner q ≠ some r.transId) :
    AskedOk (w.sent r sends required) r.transId
      { request := r, required, sent := sentOf sends } where
  request := rfl
  required := hrequired
  nodup := hnodup
  sent := hsent
  owner := by
    intro q (hq : (if q ∈ sentOf sends then some r.transId else w.owner q) = _)
    by_cases hmem : q ∈ sentOf sends
    · exact hmem
    · rw [if_neg hmem] at hq
      exact absurd hq (howner q)
  count := by
    show ((sentOf sends).filter fun q => decide
      ((if q ∈ sentOf sends then some r.transId else w.owner q) = some r.transId)).length + 0 = _
    rw [Nat.add_zero, filter_eq_self.mpr fun q hq => by simp [hq]]
  record := by
    intro _
    refine ⟨_, by rw [World.sent, mcast_requests, Maps.find_put, if_pos rfl], rfl, rfl, rfl, rfl,
      rfl, ?_, fun _ => ?_⟩
    · show (!decide ((sentOf sends).length ≥ required)) = _
      rw [Asked.decision, decision_nil]
      dsimp only
      by_cases hge : (sentOf sends).length ≥ required
      · rw [decide_eq_true hge, if_neg (by omega)]
        rfl
      · rw [decide_eq_false hge, if_pos (by omega)]
        rfl
    · have hempty : (fun k => Maps.find k (r.record required (sentOf sends).length
            (!decide ((sentOf sends).length ≥ required))).responses) = fun _ => none :=
        funext fun k => Maps.find_empty k
      rw [hempty]
      exact tally_nil
  removed := fun hnone => absurd hnone (length_pos_of_ne_nil hsent).ne
  answers := by
    have hnone : w.answersOf r.transId = [] := by
      rw [World.answersOf, filter_eq_nil_iff]
      intro x hx
      have hne : x.transId ≠ r.transId := fun heq => hfresh (heq ▸ h.answered x hx)
      simpa using hne
    rw [answersOf_sent, if_pos rfl, hnone, nil_append, mcast_answers, Asked.answer,
      Asked.decision, decision_nil]
    dsimp only
    by_cases hge : (sentOf sends).length ≥ required
    · rw [if_pos hge, if_neg (by omega)]
      rfl
    · rw [if_neg hge, if_pos (by omega)]
      rfl

/-- **A request that is sent.** -/
theorem WorldOk.sent (h : WorldOk w) (hfresh : r.transId ∉ w.known) (hrequired : 0 < required)
    (hnodup : (sentOf sends).Nodup) (hnew : ∀ q ∈ sentOf sends, q ∉ w.used)
    (hsent : sentOf sends ≠ []) : WorldOk (w.sent r sends required) := by
  have hasked : w.asked r.transId = none := by
    rw [← not_isSome_iff_eq_none]
    exact fun hsome => hfresh (h.known _ hsome)
  have howner : ∀ q, w.owner q ≠ some r.transId := by
    intro q hq
    have hsome := h.owner q _ hq
    rw [hasked] at hsome
    cases hsome
  have hpending := (mcastSend_spec r.transId sends 0 w.state.pending).2
  refine ⟨fun t a ha => ?_, fun q t hq => ?_, fun q t => ?_, fun t ht => ?_, fun x hx => ?_,
    fun q t hq => ?_⟩
  · replace ha : update w.asked r.transId (some { request := r, required, sent := sentOf sends }) t =
      some a := ha
    by_cases heq : t = r.transId
    · subst heq
      rw [update_self, Option.some.injEq] at ha
      subst ha
      exact h.askedOk_sent hfresh hrequired hnodup hsent howner
    · rw [update_of_ne heq] at ha
      refine (h.asked t a ha).congr (fun q => ?_) ?_ ?_
      · show (if q ∈ sentOf sends then some r.transId else w.owner q) = some t ↔ _
        by_cases hmem : q ∈ sentOf sends
        · rw [if_pos hmem]
          refine ⟨fun hq => absurd (Option.some.inj hq).symm heq, fun hq => ?_⟩
          exact absurd (h.used q t hq) (hnew q hmem)
        · rw [if_neg hmem]
      · rw [World.sent, mcast_requests, Maps.find_put, if_neg (Ne.symm heq)]
      · rw [answersOf_sent, if_neg heq, append_nil]
  · show (update w.asked r.transId (some { request := r, required, sent := sentOf sends }) t).isSome = true
    replace hq : (if q ∈ sentOf sends then some r.transId else w.owner q) = some t := hq
    by_cases hmem : q ∈ sentOf sends
    · rw [if_pos hmem, Option.some.injEq] at hq
      subst hq
      rw [update_self]
      rfl
    · rw [if_neg hmem] at hq
      have hne : t ≠ r.transId := by
        rintro rfl
        exact howner q hq
      rw [update_of_ne hne]
      exact h.owner q t hq
  · show (∃ dest, Maps.find q (mcast r sends required w.state).1.pending = some ⟨t, dest⟩) ↔
      (if q ∈ sentOf sends then some r.transId else w.owner q) = some t
    rw [mcast_pending]
    by_cases hmem : q ∈ sentOf sends
    · obtain ⟨dest, hdest⟩ := (hpending q).1 hmem
      rw [if_pos hmem, hdest]
      simp
    · rw [if_neg hmem, (hpending q).2 hmem]
      exact h.pending q t
  · replace ht : (update w.asked r.transId
      (some { request := r, required, sent := sentOf sends }) t).isSome = true := ht
    by_cases heq : t = r.transId
    · exact mem_cons.mpr (.inl heq)
    · rw [update_of_ne heq] at ht
      exact mem_cons_of_mem _ (h.known t ht)
  · rcases mem_append.mp hx with hx | hx
    · exact mem_cons_of_mem _ (h.answered x hx)
    · rw [transId_of_mem_mcast hx]
      exact mem_cons_self
  · replace hq : (if q ∈ sentOf sends then some r.transId else w.owner q) = some t := hq
    show q ∈ sentOf sends ++ w.used
    by_cases hmem : q ∈ sentOf sends
    · exact mem_append_left _ hmem
    · rw [if_neg hmem] at hq
      exact mem_append_right _ (h.used q t hq)

end Sent

/-! ## runs -/

/-- An invalid response or a timeout. -/
theorem WorldOk.handleFailed (h : WorldOk w) (howner : w.owner q = some t)
    (halive : SourceAlive cfg w q observed) (timeout : Request Pid Name Info Body → Nat)
    (timeout' : Incoming ι Pid Name Info Body → Nat)
    (htimeout : ∀ request r, request.timeout = r.timeout → timeout request = timeout' r) :
    ∃ x, ((Quorum.takePending q w.state).bind fun y =>
        Quorum.handleFailed cfg observed y.1 y.2.1 y.2.2 (timeout y.2.2) w.state) = some x ∧
      WorldOk (w.outcome q none timeout' x.1 x.2) := by
  obtain ⟨a, dest, request, ha, hok, hlt, -, hrecord, htake⟩ := h.takePending howner
  have hdead : (failureSource cfg observed request.source w.state).dead = false := halive _ htake
  obtain ⟨hnew, hanswers⟩ : RecordOk (a.vote none (timeout' a.request))
        (failedResponse t request (timeout request) false).1 ∧
      (failedResponse t request (timeout request) false).2 =
        a.brings none (timeout' a.request) := by
    rw [htimeout request a.request hrecord.timeout]
    exact failedResponse_spec hrecord hok.required hok.request
  have hle : (a.vote none (timeout' a.request)).votes.length ≤
      (a.vote none (timeout' a.request)).sent.length := by
    rw [Asked.vote, length_append, length_singleton]
    exact hlt
  rw [htake, bind_some, Quorum.handleFailed]
  simp only [hdead]
  rw [storeRequest_eq hnew hle, map_some]
  exact ⟨_, rfl, h.outcome howner ha hnew hanswers rfl rfl⟩

theorem WorldOk.validResponse (h : WorldOk w) (howner : w.owner q = some t) (timeout : Nat) :
    ∃ x, ((Quorum.takePending q w.state).bind fun y =>
        (storeRequest y.1.transId
          (Quorum.validResponse cfg y.1.transId y.2.2 info body timeout).1 w.state.requests).map
          fun newRequests =>
            (({ w.state with requests := newRequests, pending := y.2.1 } :
                State ι Pid Name Info Body),
              ({ answers := (Quorum.validResponse cfg y.1.transId y.2.2 info body timeout).2 } :
                Effects ι Pid Name Info Body))) = some x ∧
      WorldOk (w.outcome q (some (key cfg info body, info, body)) (fun _ => timeout) x.1 x.2) := by
  obtain ⟨a, dest, request, ha, hok, hlt, -, hrecord, htake⟩ := h.takePending howner
  obtain ⟨hnew, hanswers⟩ : RecordOk (a.vote (some (key cfg info body, info, body)) timeout)
        (Quorum.validResponse cfg t request info body timeout).1 ∧ _ :=
    validResponse_spec hrecord hok.required hok.request
  have hle : (a.vote (some (key cfg info body, info, body)) timeout).votes.length ≤
      (a.vote (some (key cfg info body, info, body)) timeout).sent.length := by
    rw [Asked.vote, length_append, length_singleton]
    exact hlt
  rw [htake, bind_some, storeRequest_eq hnew hle, map_some]
  exact ⟨_, rfl, h.outcome howner ha hnew hanswers rfl rfl⟩

/-- **Every step of the environment is handled, and keeps the invariant.** -/
theorem WorldOk.next {l : Label ι Pid Name Info Body} (h : WorldOk w)
    (hadmitted : Admitted cfg w l) :
    ∃ w', Quorum.next cfg w l = some w' ∧ (StepOk cfg l → WorldOk w') := by
  cases l with
  | request r sends observed =>
    obtain ⟨hfresh, hdead, haccepted⟩ := hadmitted
    cases hacc : accepted cfg r sends with
    | none =>
      rw [Quorum.next, handleRequest_eq]
      simp only [hacc]
      have hanswers : (requestFailed cfg observed r w.state).2.answers = [r.fail] := by
        simp [requestFailed, hdead]
      refine ⟨_, rfl, fun _ => ?_⟩
      have hworld := h.failed hfresh (s := (requestFailed cfg observed r w.state).1) rfl rfl
      simpa [hanswers] using hworld
    | some x =>
      obtain ⟨required, sends⟩ := x
      obtain ⟨hrequired, hnodup, hnew⟩ := haccepted (required, sends) hacc
      rw [Quorum.next, handleRequest_eq]
      simp only [hacc]
      exact ⟨_, rfl, fun hok => h.sent hfresh hrequired hnodup hnew (hok (required, sends) hacc)⟩
  | response q info body timeout observed =>
    obtain ⟨howner, halive⟩ := hadmitted
    obtain ⟨t, ht⟩ := isSome_iff_exists.mp howner
    cases hvalid : validate cfg.validateResponseInfo cfg.validateResponse info body with
    | true =>
      obtain ⟨x, hx, hworld⟩ := h.validResponse ht timeout
      have hreturn : handleReturn cfg observed q info body timeout w.state = some x := by
        rw [handleReturn]
        simp only [hvalid, if_true]
        exact hx
      have hvote : voteOf cfg info body = some (key cfg info body, info, body) := by
        rw [voteOf, if_pos hvalid]
      rw [Quorum.next, hreturn, hvote]
      exact ⟨_, rfl, fun _ => hworld⟩
    | false =>
      obtain ⟨x, hx, hworld⟩ := h.handleFailed ht halive (fun _ => timeout)
        (fun _ => timeout) fun _ _ _ => rfl
      have hreturn : handleReturn cfg observed q info body timeout w.state = some x := by
        rw [handleReturn]
        simp only [hvalid, Bool.false_eq_true, if_false]
        exact hx
      have hvote : voteOf cfg info body = none := by
        rw [voteOf, if_neg (by simp [hvalid])]
      rw [Quorum.next, hreturn, hvote]
      exact ⟨_, rfl, fun _ => hworld⟩
  | timeout q observed =>
    obtain ⟨howner, halive⟩ := hadmitted
    obtain ⟨t, ht⟩ := isSome_iff_exists.mp howner
    obtain ⟨x, hx, hworld⟩ := h.handleFailed ht halive Request.timeout Incoming.timeout
      fun _ _ heq => heq
    have htimeout : handleTimeout cfg observed q w.state = some x := hx
    rw [Quorum.next, htimeout]
    exact ⟨_, rfl, fun _ => hworld⟩
  | down pid =>
    refine ⟨_, rfl, fun _ => ⟨fun t a ha => ?_, h.owner, h.pending, h.known, h.answered, h.used⟩⟩
    exact (h.asked t a ha).congr (fun _ => Iff.rfl) rfl rfl

theorem worldOk_new : WorldOk ({} : World ι Pid Name Info Body) := by
  refine ⟨fun t a ha => ?_, fun q t hq => ?_, fun q t => ?_, fun t ht => ?_, fun x hx => ?_,
    fun q t hq => ?_⟩
  · cases ha
  · cases hq
  · simp
  · cases ht
  · cases hx
  · cases hq

/-- **The answers of the quorum service**: in every run in which some send of each request
succeeds, every request has been answered by the decision of its votes, its record and its pending
entries are there while an outcome is outstanding, and no outcome fails. -/
theorem answered_of_steps {labels : List (Label ι Pid Name Info Body)}
    (hsteps : Steps (Quorum.next cfg) (fun w l => Admitted cfg w l ∧ StepOk cfg l) {} labels w) :
    (∀ t a, w.asked t = some a → Answered w t a) ∧
      ∀ l, Admitted cfg w l → (Quorum.next cfg w l).isSome = true := by
  have hinv : WorldOk w := by
    refine hsteps.invariant (fun w l w' h hgood hnext => ?_) worldOk_new
    obtain ⟨w'', hnext', hworld⟩ := h.next hgood.1
    rw [hnext', Option.some.injEq] at hnext
    exact hnext ▸ hworld hgood.2
  refine ⟨fun t a ha => ?_, fun l hadmitted => ?_⟩
  · have hok := hinv.asked t a ha
    have hiff : (Maps.find t w.state.requests).isSome = true ↔ ∃ q, w.owner q = some t := by
      have hcount := hok.count
      constructor
      · intro hsome
        by_contra hnone
        have hnil : w.outstanding t a = [] := by
          rw [World.outstanding, filter_eq_nil_iff]
          intro q hq
          simpa using fun howner => hnone ⟨q, howner⟩
        rw [hnil, length_nil, Nat.zero_add] at hcount
        rw [hok.removed hcount] at hsome
        cases hsome
      · rintro ⟨q, hq⟩
        obtain ⟨-, -, request, -, -, -, hrequest, -⟩ := hinv.takePending hq
        rw [hrequest]
        rfl
    refine ⟨hok.request, hok.answers, fun hall => ?_, hiff, fun q => hinv.pending q t⟩
    have hdecided : a.decision.isSome = true := decision_isSome hok.required hall.ge
    obtain ⟨d, hd⟩ := isSome_iff_exists.mp hdecided
    rw [hok.answers, Asked.answer, hd]
    rfl
  · obtain ⟨w', hnext, -⟩ := hinv.next hadmitted
    rw [hnext]
    rfl

end Invariant

/-! ## sample runs -/

/-- Two equal responses, none of them empty. -/
def twoOf : Config Nat Nat where
  quorum := .absolute 2
  validateResponse := some fun info body => !(info = 0 && body = 0)

/-- The request 0 of the process 9. -/
def sample : Incoming Nat Nat Unit Nat Nat where
  requestType := .async
  name := ()
  pattern := ()
  requestInfo := 0
  request := 5
  timeout := 1000
  transId := 0
  source := 9

/-- All processes are alive. -/
def atStart : Observed Nat where
  secondsNow := 0
  alive := fun _ => true

/-- The world after a run. -/
def worldAfter (labels : List (Label Nat Nat Unit Nat Nat)) : World Nat Nat Unit Nat Nat :=
  (run (next twoOf) {} labels).getD {}

/-- Four destinations, of which one send fails: an invalid response, and two equal ones. -/
def twoEqual : List (Label Nat Nat Unit Nat Nat) :=
  [.request sample (some [(1, some 11), (2, none), (3, some 13), (4, some 14)]) atStart,
    .response 13 0 7 1000 atStart, .response 11 0 0 1000 atStart, .response 14 0 7 900 atStart]

theorem answered_of_steps_twoEqual :
    (∀ t a, (worldAfter twoEqual).asked t = some a → Answered (worldAfter twoEqual) t a) ∧
      ∀ l, Admitted twoOf (worldAfter twoEqual) l →
        (next twoOf (worldAfter twoEqual) l).isSome = true := by
  have hsteps : Steps (next twoOf) (fun w l => Admitted twoOf w l ∧ StepOk twoOf l) {} twoEqual
      (worldAfter twoEqual) :=
    steps_getD_of_checked (by decide +kernel)
  exact answered_of_steps hsteps

example : (worldAfter twoEqual).answersOf 0 =
    [{ sample.fail with response := some (0, 7), timeout := 900 }] := by
  decide +kernel

/-- **A request with no successful send keeps its record for ever**: it is answered at once, and
no outcome will come that removes the record. -/
theorem record_without_sends : ∃ (labels : List (Label Nat Nat Unit Nat Nat))
    (w : World Nat Nat Unit Nat Nat) (a : Asked Nat Nat Unit Nat Nat),
      Steps (next twoOf) (fun w l => Admitted twoOf w l) {} labels w ∧ w.asked 0 = some a ∧
        (Maps.find 0 w.state.requests).isSome = true ∧ (∀ q, w.owner q ≠ some 0) ∧
        ¬ Answered w 0 a := by
  have hsteps : Steps (next twoOf) (fun w l => Admitted twoOf w l) {}
      [.request sample (some [(1, none), (2, none)]) atStart]
      (worldAfter [.request sample (some [(1, none), (2, none)]) atStart]) :=
    steps_getD_of_checked (by decide +kernel)
  have hrecord : (Maps.find 0 (worldAfter [.request sample (some [(1, none), (2, none)])
      atStart]).state.requests).isSome = true := by
    decide +kernel
  have howner : ∀ q, (worldAfter [.request sample (some [(1, none), (2, none)])
      atStart]).owner q ≠ some 0 := by
    intro q hq
    cases hq
  refine ⟨_, _, { request := sample, required := 2, sent := [] }, hsteps, rfl, hrecord, howner, fun h => ?_⟩
  obtain ⟨q, hq⟩ := h.record.mp hrecord
  exact howner q hq

end CloudI.Quorum
