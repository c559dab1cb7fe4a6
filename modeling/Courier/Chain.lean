import Courier.Body
import Courier.Call
import Courier.Compression
import Courier.Identity
import Courier.ProxyPage

/-!
# Chains

What stands between a caller and a connection. From the outside in: the identity is stamped; pages
of intermediaries are replaced, unless attempts are traced; an attempt that timed out is repeated;
each attempt is authorized anew, numbered and dumped if attempts are traced, limited in time, and
its response inflated.
-/
namespace Courier

/-- How often an attempt that timed out is repeated, and the longest wait before it. -/
structure RetryPolicy where
  maxRetries : Nat := 2
  ceiling : Duration := Duration.ofSecs 1
deriving DecidableEq, Repr

/-- Whether attempts are traced, and if so, whether credentials are hidden. -/
inductive Tracing where
  | off
  | on (redact : Bool)
deriving DecidableEq, Repr

structure Chain where
  identity : Identity
  timeout : Duration
  retry : RetryPolicy
  /-- Adds proof of who is asking, from the headers alone and to them alone. What proves itself by
  the whole request, keeps a state, or sends requests of its own is not of this kind. -/
  authorize : Headers → Except Failure Headers := .ok
  tracing : Tracing := .off
  maxBodySize : Nat
  /-- The decoder of Brotli, which comes from outside. -/
  brotli : Compression.Decoder

/-- How long someone waits for an answer who waits no longer than the limit. -/
def Delay.elapsed (limit : Duration) : Delay → Duration
  | .none => ⟨0⟩
  | .after time => ⟨min time.nanos limit.nanos⟩
  | .never => limit

namespace Chain

/-- The outcome of one attempt, or of all. -/
abbrev Outcome := Except Failure Response

/-- Hand a request to the connection and wait for its answer. -/
def exchange (c : Chain) (r : Request) : Call Outcome := do
  let answer ← Call.lift (.deliver (Compression.advertise r))
  Call.lift (.pause (answer.delay.elapsed c.timeout))
  pure ((answer.within c.timeout).map (Compression.expand c.brotli))

/-- The outcome of a traced attempt. The body is read for the dump and handed on unread; if it is
longer than the limit, the dump shows its beginning only. -/
def dumped (c : Chain) (number : Nat) : Outcome → Call Outcome
  | .error e => do
    Call.lift (.write (.failed number e.message))
    pure (.error e)
  | .ok response =>
    match response.body.buffer c.maxBodySize with
    | .error e => pure (.error e)
    | .ok (.complete bytes) => do
      Call.lift (.write (.ofResponse number response.toResponseHead bytes))
      pure (.ok { response with body := Body.full bytes })
    | .ok (.overflow head rest) => do
      Call.lift (.write (.ofResponse number response.toResponseHead (head.take c.maxBodySize)))
      Call.lift (.write (.truncated number c.maxBodySize))
      pure (.ok { response with body := Body.resume head rest })

def observedExchange (c : Chain) (r : Request) : Call Outcome :=
  match c.tracing with
  | .off => c.exchange r
  | .on redact => do
    let number ← Call.lift .claim
    Call.lift (.write (.ofRequest redact number r))
    let outcome ← c.exchange r
    c.dumped number outcome

/-- One attempt. A request that cannot be authorized goes nowhere. -/
def attempt (c : Chain) (r : Request) : Call Outcome :=
  match c.authorize r.headers with
  | .error e => pure (.error e)
  | .ok headers => c.observedExchange { r with headers := headers }

/-- Write a record if attempts are traced. -/
def notice (c : Chain) (record : Record) : Call Unit :=
  match c.tracing with
  | .off => pure ()
  | .on _ => Call.lift (.write record)

def hostName (r : Request) : String := r.uri.authority.getD "unknown"

/-- Tell that a request timed out for the last time. -/
def giveUp (c : Chain) (r : Request) (e : Failure) : Call Unit := do
  let retries := toString c.retry.maxRetries
  Call.lift (.log ⟨.warn, "Request timed out, retries exhausted",
    [("retries", retries), ("error", e.message), ("method", r.method.text),
      ("host", hostName r)]⟩)
  c.notice (.gaveUp c.retry.maxRetries)

/-- Tell that a request timed out and will be repeated, with so many repetitions left after that,
and wait. -/
def backOff (c : Chain) (r : Request) (left : Nat) (e : Failure) : Call Unit := do
  let draw ← Call.lift .draw
  let wait := Backoff.wait c.retry.ceiling draw
  Call.lift (.log ⟨.debug, "Retrying request after timeout",
    [("retry", toString (c.retry.maxRetries - left)), ("remaining", toString left),
      ("error", e.message), ("method", r.method.text), ("host", hostName r),
      ("backoff_ms", toString wait.millis)]⟩)
  c.notice (.retrying wait left)
  Call.lift (.pause wait)

/-- An attempt on a connection that is ready; what follows a timeout is left open. -/
def attemptOr (c : Chain) (r : Request) (onTimeout : Failure → Call Outcome) : Call Outcome := do
  match ← Call.lift .probe with
  | some unready => pure (.error unready)
  | none =>
    match ← c.attempt r with
    | .error e => if e.isTimeout then onTimeout e else pure (.error e)
    | .ok response => pure (.ok response)

/-- Repeat an attempt that times out up to `left` times. -/
def retrying (c : Chain) (r : Request) : (left : Nat) → Call Outcome
  | 0 => c.attemptOr r fun e => do
    c.giveUp r e
    pure (.error e)
  | left + 1 => c.attemptOr r fun e => do
    c.backOff r left e
    c.retrying r left

/-- Replace the outcome if it is a page of an intermediary, unless attempts are traced. -/
def settle (c : Chain) (r : Request) (outcome : Outcome) : Call Outcome :=
  match c.tracing with
  | .on _ => pure outcome
  | .off => do
    let (settled, events) := ProxyPage.normalize r outcome
    Call.logAll events
    pure settled

/-- The request as it enters the chain. -/
def stamped (c : Chain) (r : Request) : Request :=
  { r with headers := c.identity.stamp r.headers }

def call (c : Chain) (r : Request) : Call Outcome := do
  let outcome ← c.retrying (c.stamped r) c.retry.maxRetries
  c.settle (c.stamped r) outcome

end Courier.Chain
