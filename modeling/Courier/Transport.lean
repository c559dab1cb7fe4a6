import Courier.Chain
import Courier.Response

/-!
# Transports

A transport is a chain on top of a connection, with everything that changes while it runs: the
state of the connection, the trace, the journal, the draws used up. It has one door: every request
is admitted before its call starts, and a connection that is not ready then closes the door for
good.
-/
namespace Courier

/-- Which URLs a request may be sent to. -/
inductive Security where
  | tlsOnly
  | allowInsecureHttp
deriving DecidableEq, Repr

/-- A chain on top of a connection with states `σ`. -/
structure Transport (σ : Type) where
  chain : Chain
  security : Security
  /-- How many requests are let in at a time when many are sent at once. -/
  capacity : Nat := 1024
  connection : Connection σ
  wire : σ
  /-- An endless supply of random numbers, and how many of them have been used. -/
  draws : Nat → Backoff.Draw := Backoff.evenDraws
  drawn : Nat := 0
  tracer : Option Tracer := none
  /-- Why no request is admitted any more. -/
  closed : Option Failure := none
  /-- What happened on this transport, the latest last. -/
  journal : List Event := []

namespace Transport

variable {σ α : Type}

def noting (t : Transport σ) (events : List Event) : Transport σ :=
  { t with journal := t.journal ++ events }

def perform (t : Transport σ) : (a : Action) → a.Result × Transport σ
  | .probe => (t.connection.unready t.wire, t)
  | .deliver r =>
    let (answer, wire) := t.connection.answer r t.wire
    (answer, { t with wire := wire })
  | .claim =>
    match t.tracer with
    | none => ((0 : Nat), t)
    | some tracer =>
      let (number, claimed) := tracer.claim
      (number, { t with tracer := some claimed })
  | .write record =>
    match t.tracer with
    | none => ((), t)
    | some tracer =>
      let (events, written) := tracer.write record
      ((), { t with tracer := some written }.noting events)
  | .draw => (t.draws t.drawn, { t with drawn := t.drawn + 1 })
  | .pause _ => ((), t)
  | .log e => ((), t.noting [e])

def run (t : Transport σ) : Call α → α × Transport σ
  | .done value => (value, t)
  | .act a next =>
    let (result, after) := t.perform a
    after.run (next result)

@[simp] theorem run_pure (t : Transport σ) (value : α) : t.run (pure value) = (value, t) := rfl

@[simp] theorem run_done (t : Transport σ) (value : α) : t.run (.done value) = (value, t) := rfl

@[simp] theorem run_act (t : Transport σ) (a : Action) (next : a.Result → Call α) :
    t.run (.act a next) = (t.perform a).2.run (next (t.perform a).1) := rfl

@[simp] theorem run_lift (t : Transport σ) (a : Action) : t.run (Call.lift a) = t.perform a := rfl

/-- One call after another runs the second where the first has left the transport. -/
theorem run_bind {β : Type} (t : Transport σ) (c : Call α) (f : α → Call β) :
    t.run (c >>= f) = (t.run c).2.run (f (t.run c).1) := by
  induction c generalizing t with
  | done value => rfl
  | act a next ih => exact ih (t.perform a).1 (t.perform a).2

def refusal (cause : Failure) : Event :=
  ⟨.error, "buffer worker closed unexpectedly; service unavailable",
    [("error", "buffered service failed: " ++ cause.message)]⟩

/-- Admit a request, or tell why no request is admitted any more. -/
def enter (t : Transport σ) : Option Failure × Transport σ :=
  match t.closed <|> t.connection.unready t.wire with
  | none => (none, t)
  | some cause => (some .serviceClosed, { t with closed := some cause }.noting [refusal cause])

/-- Send a request. Any status is an answer. -/
def roundTrip (t : Transport σ) (r : Request) : Except Failure Response × Transport σ :=
  match t.enter with
  | (some e, refused) => (.error e, refused)
  | (none, admitted) => admitted.run (t.chain.call r)

/-- A response under the limit of this transport. -/
def reply (t : Transport σ) (response : Response) : Reply := ⟨response, t.chain.maxBodySize⟩

/-- Send a request and answer a reply that can be read. -/
def send (t : Transport σ) (r : Request) : Except Failure Reply × Transport σ :=
  let (outcome, after) := t.roundTrip r
  (outcome.map t.reply, after)

end Courier.Transport
