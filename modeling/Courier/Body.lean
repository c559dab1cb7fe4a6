import Courier.Http.Message

/-!
# Reading bodies

`Body.buffer` reads frames until the body ends or more octets have arrived than the limit allows.
In the second case nothing is lost: what has been read and what has not are both kept, and
`Body.resume` puts them together again.
-/
namespace Courier

/-- A body read up to a limit. -/
inductive Buffered where
  /-- All data, at most as much as the limit. -/
  | complete (bytes : Bytes)
  /-- More than the limit: `head` is everything read so far, and `rest` is unread. -/
  | overflow (head : Bytes) (rest : Body)

namespace Body

/-- Read on, after `collected`. The limit is looked at after each data frame. -/
def bufferFrom (limit : Nat) (collected : Bytes) : Body → Except Failure Buffered
  | [] => .ok (.complete collected)
  | .data bytes :: rest =>
    if limit < (collected ++ bytes).length then .ok (.overflow (collected ++ bytes) rest)
    else bufferFrom limit (collected ++ bytes) rest
  | .trailers _ :: rest => bufferFrom limit collected rest
  | .failed cause :: _ => .error (.transport cause)

/-- Read a body until it ends, fails, or exceeds the limit. -/
def buffer (limit : Nat) (body : Body) : Except Failure Buffered :=
  bufferFrom limit [] body

/-- A body that yields `head` and then whatever `rest` still holds. -/
def resume (head : Bytes) (rest : Body) : Body := .data head :: rest

/-- The data of a body, or a failure if there is more of it than the limit allows. -/
def readLimited (limit : Nat) (body : Body) : Except Failure Bytes :=
  match buffer limit body with
  | .error e => .error e
  | .ok (.complete bytes) => .ok bytes
  | .ok (.overflow head _) => .error (.bodyTooLarge limit head.length)

/-- The frames that a reader sees: up to and including the first failure. -/
def observed : Body → Body
  | [] => []
  | .failed cause :: _ => [.failed cause]
  | frame :: rest => frame :: observed rest

end Courier.Body
