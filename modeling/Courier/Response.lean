import Courier.Body
import Courier.Envelope.Reader
import Courier.Http.MediaType

/-!
# Reading responses

The ways of turning a response into a value. Those that check the status answer a failure for
every status but success: with the envelope if the body carries one, otherwise with the beginning
of the body.
-/
namespace Courier

/-- The most octets of a body that a failure shows. -/
def previewLimit : Nat := 8192

/-- What a failure shows of a body that is too large to be read. -/
def tooLargePreview : String := "<body too large for preview>"

/-- A response, with the most octets that may be read of its body. -/
structure Reply where
  response : Response
  maxBodySize : Nat

namespace Reply

/-- The first content type, if it is visible text. -/
def contentType? (r : Reply) : Option String :=
  (r.response.headers.get? .contentType).bind HeaderValue.toText?

/-- The octets of the body, whatever the status. -/
def bytes (r : Reply) : Except Failure Bytes :=
  r.response.body.readLimited r.maxBodySize

/-- The failure that a status other than success with this body is. -/
def rejection (r : Reply) (body : Bytes) : Failure :=
  match Envelope.parse? body with
  | some envelope => .api r.response.status envelope
  | none =>
    .httpStatus r.response.status (Utf8.lossy (body.take previewLimit)) r.contentType?

/-- The octets of a successful body. A body that is too large does not hide a status other than
success; one that cannot be read does. -/
def checkedBytes (r : Reply) : Except Failure Bytes :=
  if r.response.status.isSuccess then r.bytes
  else match r.bytes with
    | .ok body => .error (r.rejection body)
    | .error (.bodyTooLarge _ _) =>
      .error (.httpStatus r.response.status tooLargePreview r.contentType?)
    | .error e => .error e

/-- The text of a successful body, broken pieces replaced. -/
def text (r : Reply) : Except Failure String :=
  r.checkedBytes.map Utf8.lossy

/-- The document in a successful body. -/
def json (r : Reply) : Except Failure Json :=
  match r.checkedBytes with
  | .error e => .error e
  | .ok body =>
    match Json.parse? body with
    | some v => .ok v
    | none => .error (.json Json.unreadable)

/-- The reply itself if its status is a success. The body is not read. -/
def errorForStatus (r : Reply) : Except Failure Reply :=
  if r.response.status.isSuccess then .ok r
  else .error (.httpStatus r.response.status "" r.contentType?)

end Courier.Reply
