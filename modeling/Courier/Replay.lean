import Courier.Connection
import Courier.Replay.Expectation

/-!
# Replayed connections

A connection that answers with programmed entries, one for each call and in their order. Each call
moves the cursor on by one, whatever comes of it; a call past the end fails. Entries may be added
at any time.
-/
namespace Courier

namespace Replay

inductive CannedFailure where
  /-- A timeout. -/
  | timeout
  | connectionRefused
  | custom (text : String)
deriving DecidableEq, Repr

/-- The failure as a caller sees it. -/
def CannedFailure.failure : CannedFailure → Failure
  | .timeout => .transport (.ioMessage .timedOut "mock: request timed out")
  | .connectionRefused => .transport (.ioMessage .connectionRefused "mock: connection refused")
  | .custom text => .transport (.replay (.custom text))

structure Entry where
  outcome : Except CannedFailure Response
  /-- What the request that takes this entry has to look like. -/
  expectation : Option Expectation := none
  delay : Delay := .none
  /-- Why the connection is not ready as long as this entry is next. -/
  unready : Option Failure := none

namespace Entry

/-- A response without headers and body. -/
def ofStatus (status : Status) : Entry := ⟨.ok ⟨{ status := status }, []⟩, none, .none, none⟩

def ofFailure (f : CannedFailure) : Entry := ⟨.error f, none, .none, none⟩

/-- Add a header to a response; a failure has none. -/
def withHeader (e : Entry) (name : HeaderName) (value : HeaderValue) : Entry :=
  { e with outcome := e.outcome.map fun r => { r with headers := r.headers.append name value } }

/-- Replace the body of a response by frames; a failure has none. -/
def withFrames (e : Entry) (frames : Body) : Entry :=
  { e with outcome := e.outcome.map fun r => { r with body := frames } }

/-- Replace the body of a response; a failure has none. -/
def withBody (e : Entry) (bytes : Bytes) : Entry := e.withFrames (Body.full bytes)

def ofJson (status : Status) (document : Json) : Entry :=
  ((ofStatus status).withHeader .contentType .json).withBody (Utf8.encode document.text)

/-- The content type of pages. -/
def pageType : HeaderValue := (HeaderValue.ofText? "text/html; charset=utf-8").getD .json

/-- A page, as intermediaries send it. -/
def ofPage (status : Status) (page : Bytes) : Entry :=
  ((ofStatus status).withHeader .contentType pageType).withBody page

/-- What comes of a request that takes this entry as number `index`. A request that is not as
expected fails, and the programmed outcome is not shown. -/
def resolve (e : Entry) (index : Nat) (r : Request) : Except Failure Response :=
  match e.expectation.bind (·.check r) with
  | some mismatch => .error (.transport (.replay (.assertionFailed index mismatch)))
  | none => e.outcome.mapError CannedFailure.failure

end Entry
end Replay

/-- Programmed entries, and how many calls there have been. -/
structure Replay where
  entries : List Replay.Entry := []
  calls : Nat := 0

namespace Replay

def push (p : Replay) (e : Entry) : Replay := { p with entries := p.entries ++ [e] }

/-- The entry that the next call takes. -/
def next? (p : Replay) : Option Entry := p.entries[p.calls]?

def remaining (p : Replay) : Nat := p.entries.length - p.calls

/-- Take the next entry for a request. -/
def take (p : Replay) (r : Request) : Answer × Replay :=
  let answer : Answer :=
    match p.next? with
    | none =>
      ⟨.none, .error (.transport (.replay (.exhausted r.method r.uri.text p.calls)))⟩
    | some e => ⟨e.delay, e.resolve p.calls r⟩
  (answer, { p with calls := p.calls + 1 })

@[simp] theorem calls_take (p : Replay) (r : Request) : (p.take r).2.calls = p.calls + 1 := rfl

@[simp] theorem entries_take (p : Replay) (r : Request) : (p.take r).2.entries = p.entries := rfl

@[simp] theorem calls_push (p : Replay) (e : Entry) : (p.push e).calls = p.calls := rfl

@[simp] theorem entries_push (p : Replay) (e : Entry) :
    (p.push e).entries = p.entries ++ [e] := rfl

def connection : Connection Replay where
  unready p := p.next?.bind (·.unready)
  answer r p := p.take r

/-- Calls and entries left, in one line. -/
def text (p : Replay) : String :=
  "MockTransport \x7b calls: " ++ toString p.calls ++ ", remaining: " ++ toString p.remaining ++
    " \x7d"

end Courier.Replay
