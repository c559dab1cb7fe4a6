import Courier.Proofs.RetryLaw

/-!
# No attempt after an answer

Of the attempts of a call only those are repeated that end in a timeout, so that a response ends the
call. There is one way around this: while attempts are traced, the body of a response is read before
the caller gets it, and a body that fails with a timeout makes a timeout of the response.
-/
namespace Courier

/-- The step belongs to making an attempt: it asks whether the connection is ready, or hands a
request to it. -/
def Step.isAttempt (step : Step) : Bool := step.isProbe || step.request?.isSome

@[simp] theorem Step.isAttempt_writing (record : Record) :
    (Step.writing record).isAttempt = false := rfl

@[simp] theorem Step.isAttempt_logging (e : Event) : (Step.logging e).isAttempt = false := rfl

@[simp] theorem Step.isAttempt_pausing (time : Duration) :
    (Step.pausing time).isAttempt = false := rfl

namespace Chain

variable {c : Chain} {r : Request} {steps : List Step}

/-- Reading the body of a response for the trace does not end in a timeout. Without a trace nothing
is read. -/
def Readable (c : Chain) (response : Response) : Prop :=
  c.traces = true → ∀ e, response.body.buffer c.maxBodySize = .error e → e.isTimeout = false

/-- What may come after the answers of a call. -/
structure AnswerLaw (c : Chain) (steps : List Step) : Prop where
  /-- A response that came in time is followed by no attempt. -/
  settled : steps.Pairwise fun earlier later =>
    ∀ answer response, earlier.answer? = some answer → c.received answer = .ok response →
      c.Readable response → later.isAttempt = false
  /-- An answer is followed by an attempt only if it came too late, if it was a failure that is a
  timeout, or if reading its body for the trace ended in one. -/
  repeated : steps.Pairwise fun earlier later =>
    ∀ answer, earlier.answer? = some answer → later.isAttempt = true →
      answer.delay.exceeds c.timeout = true ∨
      (∃ e, answer.outcome = .error e ∧ e.isTimeout = true) ∨
      ∃ response, c.received answer = .ok response ∧ ¬ c.Readable response

/-! ## Which attempts end in a timeout -/

theorem received_eq_error {answer : Answer} {e : Failure} (h : c.received answer = .error e) :
    answer.delay.exceeds c.timeout = true ∨ answer.outcome = .error e := by
  rw [received, Answer.within] at h
  split at h
  next late => exact .inl late
  · right
    cases ho : answer.outcome with
    | error f =>
      rw [ho] at h
      cases h
      rfl
    | ok response =>
      rw [ho] at h
      cases h

/-- A response that can be read stays one, traced or not. -/
theorem timesOut_observed_of_readable {answer : Answer} {response : Response}
    (h : c.received answer = .ok response) (readable : c.Readable response) :
    timesOut (c.observed answer) = false := by
  rw [observed]
  split
  · rw [h]
    rfl
  next redact on =>
    have quiet := readable (traces_on on)
    rw [h, rebuilt]
    split
    next e hb => exact quiet e hb
    · rfl
    · rfl

theorem cause_of_timesOut {answer : Answer} (h : timesOut (c.observed answer) = true) :
    answer.delay.exceeds c.timeout = true ∨
      (∃ e, answer.outcome = .error e ∧ e.isTimeout = true) ∨
      ∃ response, c.received answer = .ok response ∧ ¬ c.Readable response := by
  cases hr : c.received answer with
  | ok response =>
    refine .inr (.inr ⟨response, rfl, ?_⟩)
    intro readable
    rw [timesOut_observed_of_readable hr readable] at h
    cases h
  | error e =>
    have same : c.observed answer = .error e := by
      rw [observed]
      split
      · exact hr
      · rw [hr]
        rfl
    rw [same] at h
    obtain late | failed := received_eq_error hr
    · exact .inl late
    · exact .inr (.inl ⟨e, failed, h⟩)

/-! ## Along the loop -/

/-- The earlier step did not bring an answer that settles the call, or the later one is no part of
an attempt. -/
def Continues (c : Chain) (earlier later : Step) : Prop :=
  ∀ answer, earlier.answer? = some answer → timesOut (c.observed answer) = false →
    later.isAttempt = false

/-- A step that brings no answer may be followed by anything. -/
theorem continues_of_no_answer {earlier : Step} (h : earlier.answer? = none) (later : Step) :
    c.Continues earlier later := by
  intro answer ha
  rw [h] at ha
  cases ha

/-- Any step may be followed by one that makes no attempt. -/
theorem continues_of_no_attempt (earlier : Step) {later : Step} (h : later.isAttempt = false) :
    c.Continues earlier later := fun _ _ _ => h

/-- Steps that make no attempt are in order. -/
theorem pairwise_of_no_attempt (h : ∀ step ∈ steps, step.isAttempt = false) :
    steps.Pairwise c.Continues :=
  List.pairwise_of_forall_mem_list fun _ _ later hl => continues_of_no_attempt _ (h later hl)

theorem not_isAttempt_noticeSteps (record : Record) :
    ∀ step ∈ c.noticeSteps record, step.isAttempt = false := by
  rw [noticeSteps]
  split <;> simp

theorem not_isAttempt_giveUpSteps (event : Event) :
    ∀ step ∈ c.giveUpSteps event, step.isAttempt = false := by
  simpa [giveUpSteps] using not_isAttempt_noticeSteps _

theorem not_isAttempt_backOffSteps (left : Nat) (draw : Backoff.Draw) (event : Event) :
    ∀ step ∈ c.backOffSteps left draw event, step.isAttempt = false := by
  have notices := not_isAttempt_noticeSteps (c := c)
    (.retrying (Backoff.wait c.retry.ceiling draw) left)
  intro step hs
  simp only [backOffSteps, List.mem_cons, List.mem_append, List.not_mem_nil, or_false] at hs
  rcases hs with rfl | rfl | written | rfl
  · rfl
  · rfl
  · exact notices step written
  · rfl

/-- After the question whether the connection is ready, an attempt hands over its request and then
only waits and writes. -/
theorem Attempted.pairwise {o : Outcome} (h : c.Attempted r steps o) :
    steps.Pairwise c.Continues := by
  cases h with
  | unsigned => exact .nil
  | @made q hs number answer =>
    have exchange : ∀ rest, (∀ step ∈ rest, step.isAttempt = false) →
        (c.exchangeSteps q answer ++ rest).Pairwise c.Continues := by
      intro rest quiet
      have after : ∀ step ∈ .pausing (answer.delay.elapsed c.timeout) :: rest,
          step.isAttempt = false := by
        simpa using quiet
      exact .cons (fun later hl => continues_of_no_attempt _ (after later hl))
        (pairwise_of_no_attempt after)
    rw [attemptSteps]
    split
    · simpa using exchange [] (by simp)
    · refine .cons (fun _ _ => continues_of_no_answer rfl _) (.cons (fun _ _ =>
        continues_of_no_answer rfl _) (exchange _ ?_))
      simp

/-- An attempt brings no other answer than that of its outcome. -/
theorem Attempted.observed_eq {o : Outcome} (h : c.Attempted r steps o) {step : Step}
    (hs : step ∈ steps) {answer : Answer} (ha : step.answer? = some answer) :
    c.observed answer = o := by
  have among : answer ∈ answers steps := List.mem_filterMap.2 ⟨step, hs, ha⟩
  cases h with
  | unsigned => cases hs
  | @made q _ number other =>
    rw [(views_attemptSteps q number other).2.1] at among
    rw [List.mem_singleton.1 among]

/-- A loop goes on after answers only that are timeouts. -/
theorem Loop.pairwise {left : Nat} {o : Outcome} (h : c.Loop r left steps o) :
    steps.Pairwise c.Continues := by
  induction h with
  | refused e => exact List.pairwise_singleton _ _
  | settled ha ends =>
    exact .cons (fun _ _ => continues_of_no_answer rfl _) ha.pairwise
  | exhausted ha late event =>
    have last := not_isAttempt_giveUpSteps (c := c) event
    refine .cons (fun _ _ => continues_of_no_answer rfl _) (List.pairwise_append.2 ⟨ha.pairwise,
      pairwise_of_no_attempt last, ?_⟩)
    exact fun earlier _ later hl => continues_of_no_attempt earlier (last later hl)
  | @again left steps rest e o ha late draw event more ih =>
    have wait := not_isAttempt_backOffSteps (c := c) left draw event
    have noAnswer : ∀ step ∈ c.backOffSteps left draw event, step.answer? = none := by
      have none := (views_backOffSteps (c := c) left draw event).2.1
      exact List.filterMap_eq_nil_iff.1 none
    refine .cons (fun _ _ => continues_of_no_answer rfl _) (List.pairwise_append.2 ⟨ha.pairwise,
      List.pairwise_append.2 ⟨pairwise_of_no_attempt wait, ih, ?_⟩, ?_⟩)
    · exact fun earlier he later _ => continues_of_no_answer (noAnswer earlier he) later
    · -- The answer of this attempt is a timeout, so that anything may follow it.
      intro earlier he later _ answer hs settled
      rw [ha.observed_eq he hs, timesOut_error, late] at settled
      cases settled

/-- However far a call has come, its answers that settle it are followed by no attempt. -/
theorem pairwise_of_path {d : Call Outcome} (h : (c.call r).Path steps d) :
    steps.Pairwise c.Continues := by
  -- The rules are about calls that end, so the path is led to an end of the call.
  obtain ⟨rest, value, hd⟩ := d.exists_ends
  obtain ⟨loop, o, hl, same, -⟩ := ends_call (h.append hd)
  have whole : (steps ++ rest).Pairwise c.Continues := by
    have logged : ∀ step ∈ (c.settledEvents (c.stamped r) o).map Step.logging,
        step.isAttempt = false := by
      simp
    rw [same]
    exact List.pairwise_append.2 ⟨hl.pairwise, pairwise_of_no_attempt logged,
      fun earlier _ later hlater => continues_of_no_attempt earlier (logged later hlater)⟩
  exact (List.pairwise_append.1 whole).1

theorem answerLaw_of_path {d : Call Outcome} (h : (c.call r).Path steps d) : c.AnswerLaw steps := by
  have order := pairwise_of_path h
  refine ⟨order.imp ?_, order.imp ?_⟩
  · intro earlier later continues answer response ha hr readable
    exact continues answer ha (timesOut_observed_of_readable hr readable)
  · intro earlier later continues answer ha attempt
    refine cause_of_timesOut ?_
    cases ends : timesOut (c.observed answer) with
    | true => rfl
    | false =>
      rw [continues answer ha ends] at attempt
      cases attempt

end Chain

namespace Transport

variable {σ : Type}

/-- **No attempt after an answer.** Whether a call runs alone or takes turns with others, on any
connection and with any budget, a response that came in time is the last it asks of the connection,
as long as reading its body for the trace does not end in a timeout; and it repeats an attempt only
after an answer that came too late, a failure that is a timeout, or such a body. -/
theorem no_attempt_after_answer (t : Transport σ) :
    (∀ r, t.chain.AnswerLaw (t.steps (t.chain.call r))) ∧
    ∀ (rs : List Request) (schedule : List Nat) (i : Nat),
      t.chain.AnswerLaw (stepsOf i (t.log (t.callsOf rs) schedule)) := by
  refine ⟨fun r => Chain.answerLaw_of_path (t.ends_run _), ?_⟩
  intro rs schedule i
  cases hr : rs[i]? with
  | some r =>
    obtain ⟨left, -, path, -⟩ := follow_path (t := t) schedule (getElem?_callsOf hr)
    exact Chain.answerLaw_of_path path
  | none =>
    have nothing : stepsOf i (t.log (t.callsOf rs) schedule) = [] := by
      refine List.eq_nil_iff_forall_not_mem.2 fun step hs => ?_
      obtain ⟨turn, hturn⟩ := getElem?_of_mem_log (mem_stepsOf.1 hs)
      simp [callsOf, hr] at hturn
    rw [nothing]
    exact ⟨.nil, .nil⟩

/-- A response whose body fails with a timeout at once. -/
def stalled : Response where
  status := .ok
  body := [.failed (.ioMessage .timedOut "slow body")]

/-- A transport that repeats an attempt once, traces, and is answered so again and again. -/
def stalling : Transport Unit where
  chain := { patient.chain with tracing := .on true }
  security := .tlsOnly
  connection := { unready := fun _ => none, answer := fun _ s => (⟨.none, .ok stalled⟩, s) }
  wire := ()
  tracer := some { sink := .empty }

/-- A response is not always the last: its body is read for the trace, fails with a timeout, and the
request is sent again. -/
theorem steps_stalling_repeat :
    ¬ (stalling.steps (stalling.chain.call homeRequest)).Pairwise fun earlier later =>
      ∀ answer response, earlier.answer? = some answer →
        stalling.chain.received answer = .ok response → later.isAttempt = false := by
  intro settled
  have order := List.pairwise_iff_getElem.1 settled 3 9 (by decide) (by decide) (by decide)
  have quiet := order ⟨.none, .ok stalled⟩ stalled rfl rfl
  cases quiet

end Transport

end Courier
