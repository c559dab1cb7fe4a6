import Courier.Http.Message

/-!
# Connections

Whatever carries one request to a service and brings back its answer. A connection has a state,
says whether it is ready, and answers a request after some time or never.
-/
namespace Courier

/-- When an answer arrives. -/
inductive Delay where
  /-- At once, before any limit. -/
  | none
  /-- After some time. -/
  | after (time : Duration)
  | never
deriving DecidableEq, Repr

/-- An answer with a delay comes too late for a limit. -/
def Delay.exceeds (limit : Duration) : Delay → Bool
  | .none => false
  | .after time => limit.nanos < time.nanos
  | .never => true

structure Answer where
  delay : Delay
  outcome : Except Failure Response

/-- The answer as it looks to someone who waits no longer than the limit. -/
def Answer.within (limit : Duration) (a : Answer) : Except Failure Response :=
  if a.delay.exceeds limit then .error (.timeout limit) else a.outcome

/-- A connection with states `σ`. `unready` tells why it cannot take a request, if it cannot. -/
structure Connection (σ : Type) where
  unready : σ → Option Failure
  answer : Request → σ → Answer × σ

/-- The connection that also keeps the requests it received, the latest last. -/
def Connection.recorded {σ : Type} (c : Connection σ) : Connection (List Request × σ) where
  unready s := c.unready s.2
  answer r s :=
    let a := c.answer r s.2
    (a.1, (s.1 ++ [r], a.2))

end Courier
