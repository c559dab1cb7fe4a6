import Courier.Duration
import Courier.Trace.Dump
import Courier.Trace.Redaction

/-!
# Trace records

What a tracer writes: the dump of a request or a response between two banners that carry its kind
and number, or a note of one line. A record is written in one piece, so that a trace is a sequence
of whole records whatever runs at the same time.
-/
namespace Courier

inductive BlockKind where
  | request
  | response
deriving DecidableEq, Repr

def BlockKind.text : BlockKind → String
  | .request => "Request"
  | .response => "Response"

/-- One piece of a trace. -/
inductive Record where
  /-- The dump of attempt `number`'s request or response. -/
  | block (kind : BlockKind) (number : Nat) (dump : String)
  /-- The attempt brought no response. -/
  | failed (number : Nat) (reason : String)
  /-- The block before shows only the beginning of a body. -/
  | truncated (number limit : Nat)
  /-- An attempt timed out and is repeated, after which so many repetitions are left. -/
  | retrying (wait : Duration) (left : Nat)
  /-- An attempt timed out and none is left. -/
  | gaveUp (retries : Nat)
  /-- A message of someone else. -/
  | note (message : String)
deriving DecidableEq, Repr

namespace Record

/-- One of the two banners of a block. -/
def banner (edge : String) (kind : BlockKind) (number : Nat) : String :=
  "==================== " ++ edge ++ " of " ++ kind.text ++ " #" ++ toString number ++
    " ====================\n"

/-- The text of a record. It ends with a line break. -/
def text : Record → String
  | .block kind number dump =>
    banner "Start" kind number ++ dump ++ "\n" ++ banner "End" kind number
  | .failed number reason => "request #" ++ toString number ++ " failed: " ++ reason ++ "\n"
  | .truncated number limit =>
    "response #" ++ toString number ++ " body exceeds " ++ toString limit ++
      " bytes, dump truncated\n"
  | .retrying wait left =>
    "request timed out, retrying in " ++ toString wait.millis ++ "ms (" ++ toString left ++
      " retries left)\n"
  | .gaveUp retries =>
    "request timed out, giving up after " ++ toString retries ++ " retries\n"
  | .note message => message ++ "\n"

/-- The block of a request, without credentials unless they are to be shown. -/
def ofRequest (redact : Bool) (number : Nat) (r : Request) : Record :=
  .block .request number (if redact then Redaction.redact r.dump else r.dump)

def ofResponse (number : Nat) (head : ResponseHead) (body : Bytes) : Record :=
  .block .response number (head.dump body)

end Courier.Record
