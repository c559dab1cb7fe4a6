import Courier.Proofs.Attempt
import Courier.Proofs.Schedule
import Courier.Transport.Config

/-!
# How often a request is tried

The outcomes of its attempts alone decide how many attempts a call makes, what its notices say and
what it brings: the first outcome that is no timeout is the last, and the budget bounds the
timeouts before it. The law is proved along every path of a call, so that it holds of a call that
runs alone and of each call that takes turns with others on one transport.
-/
namespace Courier

/-- What the loop writes about itself. -/
inductive Notice where
  /-- A timeout is followed by another attempt, after which so many repetitions are left. -/
  | retrying (left : Nat)
  | gaveUp (retries : Nat)
deriving DecidableEq, Repr

/-- The notice that a record is, if it is one. -/
def Record.notice? : Record → Option Notice
  | .retrying _ left => some (.retrying left)
  | .gaveUp retries => some (.gaveUp retries)
  | _ => none

/-- The notices that some steps put into the trace, in order. -/
def notices (steps : List Step) : List Notice := (records steps).filterMap Record.notice?

@[simp] theorem notices_append (first rest : List Step) :
    notices (first ++ rest) = notices first ++ notices rest := by
  simp [notices, List.filterMap_append]

/-- The notices of `k` repetitions out of a budget: one less is left each time. -/
def countdown (budget k : Nat) : List Notice :=
  (List.range k).map fun i => .retrying (budget - 1 - i)

@[simp] theorem countdown_zero (budget : Nat) : countdown budget 0 = [] := rfl

theorem countdown_succ (budget k : Nat) :
    countdown (budget + 1) (k + 1) = .retrying budget :: countdown budget k := by
  rw [countdown, List.range_succ_eq_map, List.map_cons, List.map_map, countdown]
  congr 1
  apply List.map_congr_left
  intro i _
  simp only [Function.comp_apply]
  congr 1
  omega

namespace Chain

/-- Attempts are traced. -/
def traces (c : Chain) : Bool :=
  match c.tracing with
  | .off => false
  | .on _ => true

theorem traces_off {c : Chain} (h : c.tracing = .off) : c.traces = false := by
  rw [traces, h]

theorem traces_on {c : Chain} {redact : Bool} (h : c.tracing = .on redact) : c.traces = true := by
  rw [traces, h]

/-- The request that each attempt of a call hands to the connection, if it can be signed. -/
def sent (c : Chain) (r : Request) : Except Failure Request :=
  (c.signed (c.stamped r)).map Compression.advertise

/-- The outcomes of the attempts that some steps of a call make, in order. -/
def outcomesOf (c : Chain) (r : Request) (steps : List Step) : List Outcome :=
  match c.sent r with
  | .error e => List.replicate (attempts steps) (.error e)
  | .ok _ => (answers steps).map c.observed

/-- The law of repetition, for a call whose attempts end in the given outcomes: what its steps are
and what it brings. -/
structure RetryLaw (c : Chain) (r : Request) (outcomes : Nat → Outcome) (steps : List Step)
    (value : Outcome) : Prop where
  /-- If `k` timeouts come first and the budget allows for them, the outcome after them is the
  last. -/
  answered : ∀ k ≤ c.retry.maxRetries, (∀ i < k, timesOut (outcomes i) = true) →
    timesOut (outcomes k) = false →
      attempts steps = k + 1 ∧ value = c.settledOutcome (c.stamped r) (outcomes k) ∧
        notices steps = if c.traces then countdown c.retry.maxRetries k else []
  /-- If more timeouts come than the budget allows for, the last of them is the outcome. -/
  exhausted : (∀ i ≤ c.retry.maxRetries, timesOut (outcomes i) = true) →
    attempts steps = c.retry.maxRetries + 1 ∧ value = outcomes c.retry.maxRetries ∧
      notices steps = if c.traces then
        countdown c.retry.maxRetries c.retry.maxRetries ++ [.gaveUp c.retry.maxRetries] else []
  /-- Every attempt hands over the same request. -/
  delivered : ∀ q, c.sent r = .ok q → requests steps = List.replicate (attempts steps) q

/-! ## Counting along the loop -/

section Counting

variable {c : Chain} {r : Request}

theorem outcomesOf_append (first rest : List Step) :
    c.outcomesOf r (first ++ rest) = c.outcomesOf r first ++ c.outcomesOf r rest := by
  unfold outcomesOf
  split
  · rw [attempts_append, ← List.replicate_append_replicate]
  · rw [answers_append, List.map_append]

theorem notices_outcomeRecords (number : Nat) (o : Outcome) :
    (c.outcomeRecords number o).filterMap Record.notice? = [] := by
  unfold outcomeRecords
  split
  · rfl
  · split <;> rfl

/-- An attempt hands over its request once, brings one answer, and writes no notice. -/
theorem views_attemptSteps (q : Request) (number : Nat) (answer : Answer) :
    requests (c.attemptSteps q number answer) = [Compression.advertise q] ∧
      answers (c.attemptSteps q number answer) = [answer] ∧
      attempts (c.attemptSteps q number answer) = 0 ∧
      notices (c.attemptSteps q number answer) = [] := by
  unfold attemptSteps
  split
  · exact ⟨rfl, rfl, rfl, rfl⟩
  · obtain ⟨hq, ha, hn, hr⟩ := views_writing (c.outcomeRecords number (c.received answer))
    have quiet := notices_outcomeRecords (c := c) number (c.received answer)
    refine ⟨?_, ?_, ?_, ?_⟩
    · simp [exchangeSteps, hq, Step.request?, Step.writing, Step.pausing]
    · simp [exchangeSteps, ha, Step.answer?, Step.writing, Step.pausing]
    · simp [exchangeSteps, hn, Step.isProbe, Step.writing, Step.pausing]
    · rw [notices, records_cons, records_cons, records_append, hr]
      simp only [List.filterMap_append, quiet]
      rfl

/-- What the notice of a repetition or of the last timeout shows. -/
theorem views_noticeSteps (record : Record) :
    requests (c.noticeSteps record) = [] ∧ answers (c.noticeSteps record) = [] ∧
      attempts (c.noticeSteps record) = 0 ∧
      notices (c.noticeSteps record) = if c.traces then record.notice?.toList else [] := by
  unfold noticeSteps
  split
  next off => exact ⟨rfl, rfl, rfl, by simp [traces_off off, notices]⟩
  next redact on =>
    refine ⟨rfl, rfl, rfl, ?_⟩
    rw [traces_on on]
    cases h : record.notice? <;> simp [notices, Step.writing, Step.record?, h]

theorem views_giveUpSteps (event : Event) :
    requests (c.giveUpSteps event) = [] ∧ answers (c.giveUpSteps event) = [] ∧
      attempts (c.giveUpSteps event) = 0 ∧
      notices (c.giveUpSteps event) = if c.traces then [.gaveUp c.retry.maxRetries] else [] :=
  views_noticeSteps (.gaveUp c.retry.maxRetries)

theorem views_backOffSteps (left : Nat) (draw : Backoff.Draw) (event : Event) :
    requests (c.backOffSteps left draw event) = [] ∧
      answers (c.backOffSteps left draw event) = [] ∧
      attempts (c.backOffSteps left draw event) = 0 ∧
      notices (c.backOffSteps left draw event) = if c.traces then [.retrying left] else [] := by
  obtain ⟨hq, ha, hn, hr⟩ :=
    views_noticeSteps (c := c) (.retrying (Backoff.wait c.retry.ceiling draw) left)
  unfold backOffSteps
  refine ⟨?_, ?_, ?_, ?_⟩
  · simp [hq, Step.request?, Step.logging, Step.pausing]
  · simp [ha, Step.answer?, Step.logging, Step.pausing]
  · simp [hn, Step.isProbe, Step.logging, Step.pausing]
  · simp only [notices] at hr
    simp [notices, hr, Step.record?, Step.logging, Step.pausing, Record.notice?]

/-- What the steps of an attempt add, together with the question before it. -/
theorem Attempted.views {steps : List Step} {o : Outcome} (h : c.Attempted (c.stamped r) steps o) :
    c.outcomesOf r (⟨.probe, none⟩ :: steps) = [o] ∧ attempts (⟨.probe, none⟩ :: steps) = 1 ∧
      notices (⟨.probe, none⟩ :: steps) = [] ∧
      ∀ q, c.sent r = .ok q → requests (⟨.probe, none⟩ :: steps) = [q] := by
  cases h with
  | @unsigned e hs =>
    have hsent : c.sent r = .error e := by rw [sent, hs]; rfl
    refine ⟨?_, rfl, rfl, ?_⟩
    · rw [outcomesOf, hsent]
      rfl
    · intro q hq
      rw [hsent] at hq
      cases hq
  | @made q hs number answer =>
    have hsent : c.sent r = .ok (Compression.advertise q) := by rw [sent, hs]; rfl
    obtain ⟨hq, ha, hn, hr⟩ := views_attemptSteps (c := c) q number answer
    refine ⟨?_, ?_, ?_, ?_⟩
    · rw [outcomesOf, hsent]
      simp [ha, Step.answer?]
    · simp [hn, Step.isProbe]
    · exact hr
    · intro other ho
      rw [hsent] at ho
      cases ho
      simp [hq, Step.request?]

/-- The account of a loop that tried `late.length + 1` times. -/
structure Account (c : Chain) (r : Request) (left : Nat) (steps : List Step) (o : Outcome)
    (late : List Failure) : Prop where
  timeouts : ∀ e ∈ late, e.isTimeout = true
  outcomes : c.outcomesOf r steps = late.map .error ++ [o]
  within : late.length ≤ left
  spent : timesOut o = true → late.length = left
  tried : attempts steps = late.length + 1
  noticed : notices steps = if c.traces then
    countdown left late.length ++ (if timesOut o then [.gaveUp c.retry.maxRetries] else []) else []
  handed : ∀ q, c.sent r = .ok q → requests steps = List.replicate (late.length + 1) q

/-- Every loop on a connection that is ready has an account. -/
theorem Loop.exists_account {left : Nat} {steps : List Step} {o : Outcome}
    (h : c.Loop (c.stamped r) left steps o) (ready : ∀ step ∈ steps, step.isRefusal = false) :
    ∃ late, c.Account r left steps o late := by
  induction h with
  | refused e =>
    have refused := ready _ (List.mem_singleton_self _)
    cases refused
  | @settled left steps o ha ends =>
    obtain ⟨ho, hn, hr, hq⟩ := ha.views
    refine ⟨[], ⟨by simp, ho, Nat.zero_le _, by simp [ends], hn, ?_, hq⟩⟩
    simp [hr, ends]
  | @exhausted steps e ha late event =>
    obtain ⟨ho, hn, hr, hq⟩ := ha.views
    obtain ⟨gq, ga, gn, gr⟩ := views_giveUpSteps (c := c) event
    refine ⟨[], ⟨by simp, ?_, Nat.zero_le _, fun _ => rfl, ?_, ?_, ?_⟩⟩
    · rw [← List.cons_append, outcomesOf_append, ho, outcomesOf, gn, ga]
      split <;> rfl
    · rw [← List.cons_append, attempts_append, hn, gn]
      rfl
    · rw [← List.cons_append, notices_append, hr, gr]
      simp [late]
    · intro q hs
      rw [← List.cons_append, requests_append, hq q hs, gq]
      rfl
  | @again left steps rest e o ha late draw event more ih =>
    obtain ⟨ho, hn, hr, hq⟩ := ha.views
    obtain ⟨bq, ba, bn, br⟩ := views_backOffSteps (c := c) left draw event
    -- The account of the rest, with this timeout in front: one more attempt, notice and request.
    obtain ⟨lates, account⟩ := ih fun step hs => ready step (by simp [hs])
    refine ⟨e :: lates, ⟨?_, ?_, ?_, ?_, ?_, ?_, ?_⟩⟩
    · intro f hf
      rcases List.mem_cons.1 hf with rfl | hf
      · exact late
      · exact account.timeouts f hf
    · rw [← List.cons_append, outcomesOf_append, ho, outcomesOf_append, account.outcomes]
      have none : c.outcomesOf r (c.backOffSteps left draw event) = [] := by
        rw [outcomesOf, bn, ba]
        split <;> rfl
      rw [none]
      rfl
    · exact Nat.succ_le_succ account.within
    · intro ends
      exact congrArg Nat.succ (account.spent ends)
    · rw [← List.cons_append, attempts_append, hn, attempts_append, bn, account.tried,
        List.length_cons]
      omega
    · rw [← List.cons_append, notices_append, hr, notices_append, br, account.noticed,
        List.length_cons, countdown_succ]
      cases c.traces <;> rfl
    · intro q hs
      rw [← List.cons_append, requests_append, hq q hs, requests_append, bq, account.handed q hs,
        List.length_cons, List.replicate_succ (n := lates.length + 1)]
      rfl

/-- An account keeps the law for every sequence that starts with its outcomes. -/
theorem Account.law {steps : List Step} {o : Outcome} {late : List Failure}
    (account : c.Account r c.retry.maxRetries steps o late) {outcomes : Nat → Outcome}
    (seen : ∀ i o, (c.outcomesOf r steps)[i]? = some o → outcomes i = o) :
    c.RetryLaw r outcomes steps (c.settledOutcome (c.stamped r) o) := by
  have early : ∀ i < late.length, timesOut (outcomes i) = true := by
    intro i hi
    have at_i : (c.outcomesOf r steps)[i]? = some (.error late[i]) := by
      rw [account.outcomes, List.getElem?_append_left (by simpa using hi)]
      simp [hi]
    rw [seen i _ at_i]
    exact account.timeouts _ (List.getElem_mem hi)
  have last : outcomes late.length = o := by
    apply seen
    rw [account.outcomes, List.getElem?_append_right (by simp)]
    simp
  refine ⟨?_, ?_, ?_⟩
  · intro k hk before ends
    -- `k` is the position of the first outcome that is no timeout, and so is that of the last.
    have same : late.length = k := by
      rcases Nat.lt_trichotomy late.length k with less | same | more
      · have spent := account.spent (by rw [← last]; exact before _ less)
        omega
      · exact same
      · rw [early k more] at ends
        cases ends
    subst same
    rw [last] at ends
    refine ⟨account.tried, by rw [last], ?_⟩
    rw [account.noticed, ends]
    simp
  · intro always
    have ends : timesOut o = true := by
      rw [← last]
      exact always _ account.within
    have spent := account.spent ends
    rw [spent] at last
    refine ⟨by rw [account.tried, spent], ?_, ?_⟩
    · rw [last]
      cases o with
      | error e => exact settledOutcome_error ..
      | ok response => cases ends
    · rw [account.noticed, ends, spent]
      rfl
  · intro q hq
    rw [account.tried]
    exact account.handed q hq

end Counting

/-- A call that goes to its end on a connection that is ready keeps the law of repetition. -/
theorem retryLaw_of_ends {c : Chain} {r : Request} {steps : List Step} {value : Outcome}
    (h : (c.call r).Ends steps value) (ready : ∀ step ∈ steps, step.isRefusal = false)
    (outcomes : Nat → Outcome)
    (seen : ∀ i o, (c.outcomesOf r steps)[i]? = some o → outcomes i = o) :
    c.RetryLaw r outcomes steps value := by
  obtain ⟨loop, o, hl, rfl, rfl⟩ := ends_call h
  obtain ⟨hq, ha, hn, hr⟩ := views_logging (c.settledEvents (c.stamped r) o)
  have same : c.outcomesOf r (loop ++ (c.settledEvents (c.stamped r) o).map .logging) =
      c.outcomesOf r loop := by
    rw [outcomesOf_append, outcomesOf, outcomesOf, hn, ha]
    split <;> simp
  obtain ⟨late, account⟩ := hl.exists_account fun step hs => ready step (by simp [hs])
  have law := account.law (same ▸ seen)
  refine ⟨?_, ?_, ?_⟩
  · simpa [notices, hn, hr] using law.answered
  · simpa [notices, hn, hr] using law.exhausted
  · simpa [hn, hq] using law.delivered

/-! ## The loop ends -/

section Bounds

variable (c : Chain) (r : Request)

theorem within_exchange : (c.exchange r).Within 2 := by
  intro answer elapsed
  exact Call.within_pure ..

theorem within_dumped (number : Nat) (o : Outcome) : (c.dumped number o).Within 2 := by
  cases o with
  | error e =>
    intro written
    exact Call.within_pure ..
  | ok response =>
    rw [dumped]
    split
    · exact Call.within_pure ..
    · intro written
      exact Call.within_pure ..
    · intro written noted
      exact Call.within_pure ..

theorem within_attempt : (c.attempt r).Within 6 := by
  unfold attempt
  split
  · exact Call.within_pure ..
  next headers _ =>
    unfold observedExchange
    split
    · exact (within_exchange c _).mono (by omega)
    · intro number written
      exact (within_exchange c _).bind fun o => within_dumped c number o

/-- An attempt takes as many actions as what may follow it, and seven more. -/
theorem within_attemptOr {onTimeout : Failure → Call Outcome} {n : Nat}
    (h : ∀ e, (onTimeout e).Within n) : (c.attemptOr r onTimeout).Within (6 + n + 1) := by
  intro unready
  cases unready with
  | some e => exact Call.within_pure ..
  | none =>
    refine (within_attempt c r).bind fun o => ?_
    cases o with
    | ok response => exact Call.within_pure ..
    | error e =>
      by_cases late : e.isTimeout = true
      · simpa only [late, if_true] using h e
      · simp only [late]
        exact Call.within_pure ..

theorem within_notice (record : Record) : (c.notice record).Within 1 := by
  unfold notice
  split
  · exact Call.within_pure ..
  · intro written
    exact Call.within_done ..

theorem within_giveUp (e : Failure) : (c.giveUp r e).Within 2 := by
  intro logged
  exact within_notice c _

theorem within_backOff (left : Nat) (e : Failure) : (c.backOff r left e).Within 4 := by
  intro draw logged
  have waits : ∀ wait, (Call.lift (.pause wait)).Within 1 := fun _ _ => Call.within_done ..
  exact (within_notice c _).bind (n := 1) fun _ => waits _

theorem within_retrying (left : Nat) : (c.retrying r left).Within (11 * left + 9) := by
  induction left with
  | zero =>
    have once : ∀ e, (do c.giveUp r e; pure (.error e) : Call Outcome).Within 2 := by
      intro e
      exact (within_giveUp c r e).bind (n := 0) fun _ => Call.within_pure ..
    exact within_attemptOr c r once
  | succ left ih =>
    have once := within_attemptOr c r fun e => (within_backOff c r left e).bind fun _ => ih
    exact once.mono (by omega)

theorem within_settle (o : Outcome) : (c.settle r o).Within 1 := by
  unfold settle
  split
  · exact Call.within_pure ..
  · cases o with
    | error e => exact Call.within_pure ..
    | ok response =>
      by_cases page : response.headers.isHtml = true
      · simp only [ProxyPage.normalize, page, if_true]
        intro logged
        exact Call.within_pure ..
      · simp only [ProxyPage.normalize, page]
        exact Call.within_pure ..

/-- Whatever its attempts bring, a call ends within a number of actions that its budget sets. -/
theorem within_call : (c.call r).Within (Transport.movesPerAttempt * (c.retry.maxRetries + 1)) := by
  have bound := (within_retrying c (c.stamped r) c.retry.maxRetries).bind fun o =>
    within_settle c (c.stamped r) o
  refine bound.mono ?_
  rw [Transport.movesPerAttempt]
  omega

end Bounds

end Chain

namespace Transport

variable {σ : Type}

/-- The outcome of the attempt at a position, if all before it end in timeouts: what the
connection answers then, an answer that comes too late being a timeout. -/
def outcomeAt (t : Transport σ) (r : Request) (i : Nat) : Chain.Outcome :=
  match t.chain.sent r with
  | .error e => .error e
  | .ok q => t.chain.observed (answerAt t.connection q t.wire i)

theorem isRefusal_steps {α : Type} {t : Transport σ} (ready : AlwaysReady t.connection)
    (c : Call α) : ∀ step ∈ t.steps c, step.isRefusal = false :=
  steps_all (I := fun u => u.connection = t.connection)
    (fun u a h => (sameSettings_perform u a).connection.trans h)
    (fun u a h => not_isRefusal_perform ready u a h) rfl c

/-- The attempts of a call that runs alone bring what the connection answers one time after
another. -/
theorem outcomeAt_eq {t : Transport σ} (ready : AlwaysReady t.connection) {r : Request} {i : Nat}
    {o : Chain.Outcome} (h : (t.chain.outcomesOf r (t.steps (t.chain.call r)))[i]? = some o) :
    t.outcomeAt r i = o := by
  have law := Chain.retryLaw_of_ends (t.ends_run (t.chain.call r)) (isRefusal_steps ready _)
    (fun i => (t.chain.outcomesOf r (t.steps (t.chain.call r)))[i]?.getD (.error default))
    fun i o h => by simp [h]
  have same := law.delivered
  unfold Chain.outcomesOf at h
  unfold outcomeAt
  cases hs : t.chain.sent r with
  | error e =>
    simp only [hs] at h ⊢
    exact (List.eq_of_mem_replicate (List.mem_of_getElem? h)).symm
  | ok q =>
    simp only [hs] at h ⊢
    rw [List.getElem?_map] at h
    obtain ⟨answer, ha, rfl⟩ := Option.map_eq_some_iff.1 h
    rw [answers_steps (fun other ho => ?_) ha]
    rw [same q hs] at ho
    exact List.eq_of_mem_replicate ho

/-- **The law of repetition.** On a connection that is always ready, a call that runs alone keeps
the law for what the connection answers one time after another, an answer that comes too late being
a timeout. So does each of any number of calls, however they take turns, for the outcomes of its
own attempts; and each ends if it is scheduled often enough. The trace keeps exactly what the steps
say. -/
theorem retryLaw_of_ready (t : Transport σ) (opened : t.closed = none)
    (ready : AlwaysReady t.connection) :
    (∀ answer, answer.delay.exceeds t.chain.timeout = true →
      t.chain.observed answer = .error (.timeout t.chain.timeout)) ∧
    (∀ r, t.chain.RetryLaw r (t.outcomeAt r) (t.steps (t.chain.call r)) (t.roundTrip r).1 ∧
      (t.Keeps → (t.roundTrip r).2.kept = t.kept ++ records (t.steps (t.chain.call r)))) ∧
    ∀ (rs : List Request) (schedule : List Nat),
      (t.Keeps → (t.follow (t.callsOf rs) schedule).2.kept =
        t.kept ++ records ((t.log (t.callsOf rs) schedule).map (·.2))) ∧
      ∀ i r, rs[i]? = some r →
        (movesPerAttempt * (t.chain.retry.maxRetries + 1) ≤ schedule.count i →
          ∃ left value, (t.follow (t.callsOf rs) schedule).1[i]? = some left ∧
            left.value? = some value) ∧
        ∀ left value, (t.follow (t.callsOf rs) schedule).1[i]? = some left →
          left.value? = some value → ∀ outcomes : Nat → Chain.Outcome,
          (∀ j o, (t.chain.outcomesOf r (stepsOf i (t.log (t.callsOf rs) schedule)))[j]? = some o →
            outcomes j = o) →
          t.chain.RetryLaw r outcomes (stepsOf i (t.log (t.callsOf rs) schedule)) value := by
  refine ⟨fun answer late => Chain.observed_of_late late, ?_, ?_⟩
  · intro r
    rw [roundTrip_open opened (ready t.wire)]
    refine ⟨?_, fun keeps => kept_run keeps _⟩
    exact Chain.retryLaw_of_ends (t.ends_run _) (isRefusal_steps ready _) (t.outcomeAt r)
      fun i o h => outcomeAt_eq ready h
  · intro rs schedule
    refine ⟨fun keeps => ?_, ?_⟩
    · exact view_follow kept (fun u a h => (keeps_perform u a h).1)
        (fun u a h => (keeps_perform u a h).2) keeps _ _
    · intro i r hr
      have turn := getElem?_callsOf (t := t) hr
      refine ⟨fun often => follow_finishes turn (Chain.within_call ..) often, ?_⟩
      intro left value hl hv outcomes seen
      refine Chain.retryLaw_of_ends (follow_ends turn hl hv) (fun step hs => ?_) outcomes seen
      have all := log_all (P := fun step => step.isRefusal = false)
        (fun u a h => (sameSettings_perform u a).connection.trans h)
        (fun u a h => not_isRefusal_perform ready u a h) rfl (t.callsOf rs) schedule
      exact all _ (mem_stepsOf.1 hs)

/-- A connection that leaves the first request unanswered. -/
def slowOnce : Connection Nat where
  unready _ := none
  answer _ served :=
    (⟨if served = 0 then .never else .none, .ok { status := .ok, body := [] }⟩, served + 1)

/-- A transport that repeats an attempt once and keeps its trace. -/
def patient : Transport Nat where
  chain := {
    identity := ⟨HeaderValue.json, .userAgent⟩
    timeout := Duration.ofSecs 30
    retry := { maxRetries := 1 }
    tracing := .on true
    maxBodySize := 16
    brotli := .absent }
  security := .tlsOnly
  connection := slowOnce
  wire := 0
  tracer := some { sink := .empty }

def homeRequest : Request :=
  ⟨.get, ⟨some "https", some "cloud.example.com", some "/"⟩, .http11, {}, []⟩

/-- One timeout within the budget: two attempts, and one notice that no repetition is left. -/
theorem retryLaw_patient :
    attempts (patient.steps (patient.chain.call homeRequest)) = 2 ∧
      notices (patient.steps (patient.chain.call homeRequest)) = [.retrying 0] := by
  obtain ⟨-, alone, -⟩ := retryLaw_of_ready patient rfl fun _ => rfl
  have late : ∀ i < 1, Chain.timesOut (patient.outcomeAt homeRequest i) = true := by
    intro i hi
    obtain rfl : i = 0 := by omega
    rfl
  obtain ⟨tried, -, noticed⟩ := (alone homeRequest).1.answered 1 (Nat.le_refl 1) late rfl
  exact ⟨tried, noticed⟩

/-- A page of a proxy, `text/html`. -/
def proxyPage : Response where
  status := ⟨502, by decide⟩
  headers := ⟨[(.contentType, ⟨[0x74, 0x65, 0x78, 0x74, 0x2F, 0x68, 0x74, 0x6D, 0x6C], by decide,
    false⟩)]⟩
  body := [.data [0x3C, 0x70, 0x3E, 0x68, 0x69, 0x3C, 0x2F, 0x70, 0x3E]]

/-- A transport that traces nothing, behind a proxy that answers every request with a page. -/
def behindProxy : Transport Unit where
  chain := {
    identity := ⟨HeaderValue.json, .userAgent⟩
    timeout := Duration.ofSecs 30
    retry := { maxRetries := 0 }
    maxBodySize := 10485760
    brotli := .absent }
  security := .tlsOnly
  connection := { unready := fun _ => none, answer := fun _ s => (⟨.none, .ok proxyPage⟩, s) }
  wire := ()

/-- The last outcome does not always reach the caller unchanged: a page is replaced. -/
theorem roundTrip_behindProxy_ne :
    behindProxy.closed = none ∧ AlwaysReady behindProxy.connection ∧
      Chain.timesOut (behindProxy.outcomeAt homeRequest 0) = false ∧
      (behindProxy.roundTrip homeRequest).1 ≠ behindProxy.outcomeAt homeRequest 0 := by
  refine ⟨rfl, fun _ => rfl, rfl, ?_⟩
  intro same
  have pages := congrArg (fun o => (o.map fun response => response.headers.isHtml).toOption) same
  revert pages
  decide +kernel

end Transport

end Courier
