import Courier.Backoff
import Courier.Connection
import Courier.Trace.Tracer

/-!
# Calls

A call is what is done to answer one request, written as a sequence of atomic actions where the
result of each decides what follows. Nothing here says how actions are performed: a call may run
alone, or its actions may be interleaved with those of other calls.
-/
namespace Courier

/-- What a call may do in one piece. -/
inductive Action where
  /-- Ask why the connection cannot take a request, if it cannot. -/
  | probe
  /-- Hand a request to the connection. -/
  | deliver (r : Request)
  /-- Claim the next trace number. -/
  | claim
  /-- Put a record into the trace. -/
  | write (r : Record)
  /-- Draw a random number. -/
  | draw
  /-- Let time pass. -/
  | pause (time : Duration)
  /-- Put an event into the journal. -/
  | log (e : Event)

/-- What an action brings. -/
def Action.Result : Action → Type
  | .probe => Option Failure
  | .deliver _ => Answer
  | .claim => Nat
  | .write _ => Unit
  | .draw => Backoff.Draw
  | .pause _ => Unit
  | .log _ => Unit

/-- A sequence of actions that ends with a value of type `α`. -/
inductive Call (α : Type) where
  | done (value : α)
  | act (a : Action) (next : a.Result → Call α)

namespace Call

variable {α β : Type}

/-- One call after another. -/
def andThen : Call α → (α → Call β) → Call β
  | .done value, f => f value
  | .act a next, f => .act a fun result => (next result).andThen f

instance : Monad Call where
  pure := .done
  bind := andThen

/-- The call that does one thing. -/
def lift (a : Action) : Call a.Result := .act a .done

@[simp] theorem done_bind (value : α) (f : α → Call β) : (Call.done value >>= f) = f value := rfl

@[simp] theorem act_bind (a : Action) (next : a.Result → Call α) (f : α → Call β) :
    (Call.act a next >>= f) = .act a fun result => next result >>= f := rfl

@[simp] theorem lift_bind (a : Action) (f : a.Result → Call β) :
    (Call.lift a >>= f) = .act a f := rfl

theorem andThen_done (c : Call α) : c.andThen .done = c := by
  induction c with
  | done value => rfl
  | act a next ih => simp only [andThen, ih]

theorem andThen_assoc {γ : Type} (c : Call α) (f : α → Call β) (g : β → Call γ) :
    (c.andThen f).andThen g = c.andThen fun value => (f value).andThen g := by
  induction c with
  | done value => rfl
  | act a next ih => simp only [andThen, ih]

instance : LawfulMonad Call :=
  .mk' Call andThen_done (fun _ _ => rfl) andThen_assoc

/-- Put events into the journal, one after another. -/
def logAll : List Event → Call Unit
  | [] => .done ()
  | e :: es => .act (.log e) fun _ => logAll es

end Courier.Call
