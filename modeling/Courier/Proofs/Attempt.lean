import Courier.Chain
import Courier.Proofs.Path

/-!
# Attempts

What each part of a chain does, as the steps of its paths and the value at their ends. An attempt
hands one request to the connection and brings one outcome; `Loop` says how attempts follow one
another. Everything else about the steps of a call is read off these rules.
-/
namespace Courier.Chain

variable {steps : List Step}

/-- An outcome after which an attempt is repeated. -/
def timesOut : Outcome → Bool
  | .error e => e.isTimeout
  | .ok _ => false

@[simp] theorem timesOut_error (e : Failure) : timesOut (.error e) = e.isTimeout := rfl

/-! ## One attempt -/

/-- An answer as it comes out of the limit in time and of the decompression. -/
def received (c : Chain) (answer : Answer) : Outcome :=
  (answer.within c.timeout).map (Compression.expand c.brotli)

/-- A response whose body has been read for the dump. -/
def rebuilt (c : Chain) : Outcome → Outcome
  | .error e => .error e
  | .ok response =>
    match response.body.buffer c.maxBodySize with
    | .error e => .error e
    | .ok (.complete bytes) => .ok { response with body := Body.full bytes }
    | .ok (.overflow head rest) => .ok { response with body := Body.resume head rest }

/-- The outcome of an attempt that was answered. -/
def observed (c : Chain) (answer : Answer) : Outcome :=
  match c.tracing with
  | .off => c.received answer
  | .on _ => c.rebuilt (c.received answer)

/-- An attempt that is not answered in time ends in a timeout. -/
theorem observed_of_late {c : Chain} {answer : Answer}
    (late : answer.delay.exceeds c.timeout = true) :
    c.observed answer = .error (.timeout c.timeout) := by
  have timeout : c.received answer = .error (.timeout c.timeout) := by
    rw [received, Answer.within, if_pos late]
    rfl
  rw [observed]
  split
  · exact timeout
  · rw [timeout]
    rfl

/-- What the trace says of an outcome. -/
def outcomeRecords (c : Chain) (number : Nat) : Outcome → List Record
  | .error e => [.failed number e.message]
  | .ok response =>
    match response.body.buffer c.maxBodySize with
    | .error _ => []
    | .ok (.complete bytes) => [.ofResponse number response.toResponseHead bytes]
    | .ok (.overflow head _) =>
      [.ofResponse number response.toResponseHead (head.take c.maxBodySize),
        .truncated number c.maxBodySize]

/-- The request with proof of who is asking. -/
def signed (c : Chain) (r : Request) : Except Failure Request :=
  (c.authorize r.headers).map fun headers => { r with headers := headers }

/-- The steps of handing a request to the connection and waiting for the answer. -/
def exchangeSteps (c : Chain) (q : Request) (answer : Answer) : List Step :=
  [⟨.deliver (Compression.advertise q), answer⟩, .pausing (answer.delay.elapsed c.timeout)]

/-- The steps of an attempt with a signed request, under its number if attempts are traced. -/
def attemptSteps (c : Chain) (q : Request) (number : Nat) (answer : Answer) : List Step :=
  match c.tracing with
  | .off => c.exchangeSteps q answer
  | .on redact =>
    ⟨.claim, number⟩ :: .writing (.ofRequest redact number q) :: (c.exchangeSteps q answer ++
      (c.outcomeRecords number (c.received answer)).map .writing)

/-- An attempt, by its steps and its outcome. -/
inductive Attempted (c : Chain) (r : Request) : List Step → Outcome → Prop where
  /-- The request could not be signed. -/
  | unsigned {e : Failure} (h : c.signed r = .error e) : Attempted c r [] (.error e)
  | made {q : Request} (h : c.signed r = .ok q) (number : Nat) (answer : Answer) :
      Attempted c r (c.attemptSteps q number answer) (c.observed answer)

theorem ends_exchange {c : Chain} {q : Request} {o : Outcome} (h : (c.exchange q).Ends steps o) :
    ∃ answer, steps = c.exchangeSteps q answer ∧ o = c.received answer := by
  obtain ⟨(answer : Answer), _, rfl, waits⟩ := Call.ends_lift_bind.1 h
  obtain ⟨_, _, rfl, ends⟩ := Call.ends_lift_bind.1 waits
  obtain ⟨rfl, rfl⟩ := Call.ends_pure.1 ends
  exact ⟨answer, rfl, rfl⟩

theorem ends_write_bind {α : Type} {record : Record} {f : Unit → Call α} {value : α}
    (h : (Call.lift (.write record) >>= f).Ends steps value) :
    ∃ rest, steps = .writing record :: rest ∧ (f ()).Ends rest value := by
  obtain ⟨_, rest, rfl, next⟩ := Call.ends_lift_bind.1 h
  exact ⟨rest, rfl, next⟩

theorem ends_dumped {c : Chain} {number : Nat} {o final : Outcome}
    (h : (c.dumped number o).Ends steps final) :
    steps = (c.outcomeRecords number o).map .writing ∧ final = c.rebuilt o := by
  cases o with
  | error e =>
    obtain ⟨_, rfl, ends⟩ := ends_write_bind h
    obtain ⟨rfl, rfl⟩ := Call.ends_pure.1 ends
    exact ⟨rfl, rfl⟩
  | ok response =>
    rw [dumped] at h
    rw [outcomeRecords, rebuilt]
    generalize response.body.buffer c.maxBodySize = buffered at h ⊢
    cases buffered with
    | error e =>
      obtain ⟨rfl, rfl⟩ := Call.ends_pure.1 h
      exact ⟨rfl, rfl⟩
    | ok buffered =>
      cases buffered with
      | complete bytes =>
        obtain ⟨_, rfl, ends⟩ := ends_write_bind h
        obtain ⟨rfl, rfl⟩ := Call.ends_pure.1 ends
        exact ⟨rfl, rfl⟩
      | overflow head rest =>
        obtain ⟨_, rfl, next⟩ := ends_write_bind h
        obtain ⟨_, rfl, ends⟩ := ends_write_bind next
        obtain ⟨rfl, rfl⟩ := Call.ends_pure.1 ends
        exact ⟨rfl, rfl⟩

theorem ends_observedExchange {c : Chain} {q : Request} {o : Outcome}
    (h : (c.observedExchange q).Ends steps o) :
    ∃ number answer, steps = c.attemptSteps q number answer ∧ o = c.observed answer := by
  rw [observedExchange] at h
  split at h
  next off =>
    obtain ⟨answer, rfl, rfl⟩ := ends_exchange h
    exact ⟨0, answer, by rw [attemptSteps, off], by rw [observed, off]⟩
  next redact on =>
    obtain ⟨(number : Nat), _, rfl, numbered⟩ := Call.ends_lift_bind.1 h
    obtain ⟨_, rfl, dumps⟩ := ends_write_bind numbered
    obtain ⟨_, _, middle, rfl, he, hd⟩ := Call.ends_bind.1 dumps
    obtain ⟨answer, rfl, rfl⟩ := ends_exchange he
    obtain ⟨rfl, rfl⟩ := ends_dumped hd
    exact ⟨number, answer, by rw [attemptSteps, on], by rw [observed, on]⟩

theorem ends_attempt {c : Chain} {r : Request} {o : Outcome} (h : (c.attempt r).Ends steps o) :
    c.Attempted r steps o := by
  rw [attempt] at h
  split at h
  next e ha =>
    obtain ⟨rfl, rfl⟩ := Call.ends_pure.1 h
    exact .unsigned (by rw [signed, ha]; rfl)
  next headers ha =>
    obtain ⟨number, answer, rfl, rfl⟩ := ends_observedExchange h
    exact .made (by rw [signed, ha]; rfl) number answer

/-! ## The loop -/

/-- The steps of a notice, which there is if attempts are traced. -/
def noticeSteps (c : Chain) (record : Record) : List Step :=
  match c.tracing with
  | .off => []
  | .on _ => [.writing record]

/-- The steps after the last timeout. -/
def giveUpSteps (c : Chain) (event : Event) : List Step :=
  .logging event :: c.noticeSteps (.gaveUp c.retry.maxRetries)

/-- The steps between a timeout and the next attempt. -/
def backOffSteps (c : Chain) (left : Nat) (draw : Backoff.Draw) (event : Event) : List Step :=
  let wait := Backoff.wait c.retry.ceiling draw
  ⟨.draw, draw⟩ :: .logging event :: (c.noticeSteps (.retrying wait left) ++ [.pausing wait])

/-- Attempts with `left` repetitions, by their steps and the outcome of the last. -/
inductive Loop (c : Chain) (r : Request) : Nat → List Step → Outcome → Prop where
  /-- The connection is not ready. -/
  | refused {left : Nat} (e : Failure) : Loop c r left [⟨.probe, some e⟩] (.error e)
  /-- The attempt does not end in a timeout. -/
  | settled {left : Nat} {steps : List Step} {o : Outcome} (h : c.Attempted r steps o)
      (ends : timesOut o = false) : Loop c r left (⟨.probe, none⟩ :: steps) o
  /-- The attempt ends in a timeout, and no repetition is left. -/
  | exhausted {steps : List Step} {e : Failure} (h : c.Attempted r steps (.error e))
      (late : e.isTimeout = true) (event : Event) :
      Loop c r 0 (⟨.probe, none⟩ :: (steps ++ c.giveUpSteps event)) (.error e)
  /-- The attempt ends in a timeout and is repeated. -/
  | again {left : Nat} {steps rest : List Step} {e : Failure} {o : Outcome}
      (h : c.Attempted r steps (.error e)) (late : e.isTimeout = true) (draw : Backoff.Draw)
      (event : Event) (more : Loop c r left rest o) :
      Loop c r (left + 1)
        (⟨.probe, none⟩ :: (steps ++ (c.backOffSteps left draw event ++ rest))) o

theorem ends_notice {c : Chain} {record : Record} {value : Unit}
    (h : (c.notice record).Ends steps value) : steps = c.noticeSteps record := by
  unfold notice at h
  unfold noticeSteps
  cases ht : c.tracing with
  | off =>
    rw [ht] at h
    exact (Call.ends_pure.1 h).1
  | on redact =>
    rw [ht] at h
    exact Call.ends_lift.1 h

theorem ends_giveUp {c : Chain} {r : Request} {e : Failure} {value : Unit}
    (h : (c.giveUp r e).Ends steps value) : ∃ event, steps = c.giveUpSteps event := by
  obtain ⟨_, _, rfl, logged⟩ := Call.ends_lift_bind.1 h
  obtain rfl := ends_notice logged
  exact ⟨_, rfl⟩

theorem ends_backOff {c : Chain} {r : Request} {left : Nat} {e : Failure} {value : Unit}
    (h : (c.backOff r left e).Ends steps value) :
    ∃ draw event, steps = c.backOffSteps left draw event := by
  obtain ⟨(draw : Backoff.Draw), _, rfl, drawn⟩ := Call.ends_lift_bind.1 h
  obtain ⟨_, _, rfl, logged⟩ := Call.ends_lift_bind.1 drawn
  obtain ⟨_, _, _, rfl, noticed, waits⟩ := Call.ends_bind.1 logged
  obtain rfl := ends_notice noticed
  obtain rfl := Call.ends_lift.1 waits
  exact ⟨draw, _, rfl⟩

/-- An attempt ends with a connection that is not ready, with an outcome that is no timeout, or
with what follows a timeout. -/
theorem ends_attemptOr {c : Chain} {r : Request} {onTimeout : Failure → Call Outcome} {o : Outcome}
    (h : (c.attemptOr r onTimeout).Ends steps o) :
    (∃ e, steps = [⟨.probe, some e⟩] ∧ o = .error e) ∨
    (∃ tail, steps = ⟨.probe, none⟩ :: tail ∧ c.Attempted r tail o ∧ timesOut o = false) ∨
    ∃ first rest e, steps = ⟨.probe, none⟩ :: (first ++ rest) ∧ c.Attempted r first (.error e) ∧
      e.isTimeout = true ∧ (onTimeout e).Ends rest o := by
  obtain ⟨(unready : Option Failure), _, rfl, probed⟩ := Call.ends_lift_bind.1 h
  cases unready with
  | some e =>
    obtain ⟨rfl, rfl⟩ := Call.ends_pure.1 probed
    exact .inl ⟨e, rfl, rfl⟩
  | none =>
    refine .inr ?_
    obtain ⟨first, rest, middle, rfl, ha, next⟩ := Call.ends_bind.1 probed
    have attempted := ends_attempt ha
    cases middle with
    | ok response =>
      obtain ⟨rfl, rfl⟩ := Call.ends_pure.1 next
      exact .inl ⟨first ++ [], rfl, by simpa using attempted, rfl⟩
    | error e =>
      by_cases late : e.isTimeout = true
      · simp only [late, if_true] at next
        exact .inr ⟨first, rest, e, rfl, attempted, late, next⟩
      · simp only [late] at next
        obtain ⟨rfl, rfl⟩ := Call.ends_pure.1 next
        exact .inl ⟨first ++ [], rfl, by simpa using attempted, by simpa using late⟩

theorem ends_retrying {c : Chain} {r : Request} {left : Nat} {o : Outcome}
    (h : (c.retrying r left).Ends steps o) : c.Loop r left steps o := by
  induction left generalizing steps with
  | zero =>
    rw [retrying] at h
    obtain ⟨e, rfl, rfl⟩ | ⟨tail, rfl, ha, ends⟩ | ⟨first, _, e, rfl, ha, late, next⟩ :=
      ends_attemptOr h
    · exact .refused e
    · exact .settled ha ends
    · obtain ⟨_, _, _, rfl, gaveUp, ends⟩ := Call.ends_bind.1 next
      obtain ⟨event, rfl⟩ := ends_giveUp gaveUp
      obtain ⟨rfl, rfl⟩ := Call.ends_pure.1 ends
      rw [List.append_nil]
      exact .exhausted ha late event
  | succ left ih =>
    rw [retrying] at h
    obtain ⟨e, rfl, rfl⟩ | ⟨tail, rfl, ha, ends⟩ | ⟨first, _, e, rfl, ha, late, next⟩ :=
      ends_attemptOr h
    · exact .refused e
    · exact .settled ha ends
    · obtain ⟨_, _, _, rfl, waited, more⟩ := Call.ends_bind.1 next
      obtain ⟨draw, event, rfl⟩ := ends_backOff waited
      exact .again ha late draw event (ih more)

/-! ## The whole call -/

/-- The outcome as the caller gets it: pages of intermediaries are replaced, unless attempts are
traced. -/
def settledOutcome (c : Chain) (r : Request) (o : Outcome) : Outcome :=
  match c.tracing with
  | .on _ => o
  | .off => (ProxyPage.normalize r o).1

theorem settledOutcome_error (c : Chain) (r : Request) (e : Failure) :
    c.settledOutcome r (.error e) = .error e := by
  unfold settledOutcome
  split <;> rfl

theorem ends_logAll {events : List Event} {value : Unit}
    (h : (Call.logAll events).Ends steps value) : steps = events.map .logging := by
  induction events generalizing steps with
  | nil => exact (Call.ends_done.1 h).1
  | cons e es ih =>
    obtain ⟨_, rest, rfl, more⟩ := Call.ends_act.1 h
    rw [ih more]
    rfl

/-- What the journal says of a page that was replaced. -/
def settledEvents (c : Chain) (r : Request) (o : Outcome) : List Event :=
  match c.tracing with
  | .on _ => []
  | .off => (ProxyPage.normalize r o).2

theorem settledEvents_error (c : Chain) (r : Request) (e : Failure) :
    c.settledEvents r (.error e) = [] := by
  unfold settledEvents
  split <;> rfl

theorem ends_settle {c : Chain} {r : Request} {o final : Outcome}
    (h : (c.settle r o).Ends steps final) :
    steps = (c.settledEvents r o).map .logging ∧ final = c.settledOutcome r o := by
  unfold settle at h
  unfold settledOutcome settledEvents
  cases ht : c.tracing with
  | on redact =>
    rw [ht] at h
    obtain ⟨rfl, rfl⟩ := Call.ends_pure.1 h
    exact ⟨rfl, rfl⟩
  | off =>
    rw [ht] at h
    obtain ⟨first, _, _, rfl, hl, ends⟩ := Call.ends_bind.1 h
    obtain ⟨rfl, rfl⟩ := Call.ends_pure.1 ends
    refine ⟨?_, rfl⟩
    rw [List.append_nil]
    exact ends_logAll hl

/-- A call is a loop of attempts with the stamped request, whose outcome is settled. -/
theorem ends_call {c : Chain} {r : Request} {final : Outcome} (h : (c.call r).Ends steps final) :
    ∃ (loop : List Step) (o : Outcome), c.Loop (c.stamped r) c.retry.maxRetries loop o ∧
      steps = loop ++ (c.settledEvents (c.stamped r) o).map .logging ∧
      final = c.settledOutcome (c.stamped r) o := by
  obtain ⟨loop, _, o, rfl, hl, hs⟩ := Call.ends_bind.1 h
  obtain ⟨rfl, rfl⟩ := ends_settle hs
  exact ⟨loop, o, ends_retrying hl, rfl, rfl⟩

end Courier.Chain
