import Courier.Failure
import Courier.Http.Headers
import Courier.Http.Uri

/-!
# Requests and responses

A request carries its whole body. The body of a response arrives in frames: data, trailers, or an
error after which nothing can be read.

All frames of a body are there once its response is. A body that stalls, be it for a while or for
good, is outside this model; in particular the time that a traced attempt takes to read one, to
which its limit does not extend.
-/
namespace Courier

inductive Version where
  | http09
  | http10
  | http11
  | http2
  | http3
deriving DecidableEq, Repr

def Version.text : Version → String
  | .http09 => "HTTP/0.9"
  | .http10 => "HTTP/1.0"
  | .http11 => "HTTP/1.1"
  | .http2 => "HTTP/2.0"
  | .http3 => "HTTP/3.0"

structure Request where
  method : Method
  uri : Uri
  version : Version
  headers : Headers
  body : Bytes
deriving DecidableEq

/-- One step of reading a body. -/
inductive Frame where
  | data (bytes : Bytes)
  | trailers (fields : Headers)
  | failed (cause : Cause)

/-- The frames of a body that are still to be read: finitely many, none of which keeps a reader
waiting. -/
abbrev Body := List Frame

/-- Everything of a response but its body. -/
structure ResponseHead where
  status : Status
  version : Version := .http11
  headers : Headers := {}
deriving DecidableEq

/-- A response whose body has not been read yet. -/
structure Response extends ResponseHead where
  body : Body

/-- A body that is all there: one frame, or none if it is empty. -/
def Body.full (bytes : Bytes) : Body :=
  if bytes.isEmpty then [] else [.data bytes]

end Courier
