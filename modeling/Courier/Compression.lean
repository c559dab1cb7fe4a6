import Courier.Compression.Container
import Courier.Http.Message

/-!
# Transparent compression

Requests ask for compressed responses unless the caller asked for something else, and compressed
responses are handed on expanded. Only the first content encoding counts, and only if it is
exactly the name of a known one; then the headers that speak of the compressed form are dropped.
Data is expanded frame by frame, so that a fault comes after the data that was there before it.

The decoder of Brotli is not part of this library. It is a parameter of which nothing is assumed.
-/
namespace Courier.Compression

inductive Encoding where
  | gzip
  | deflate
  | brotli
deriving DecidableEq, Repr

def Encoding.ofName? (name : Bytes) : Option Encoding :=
  if name = Utf8.encode "gzip" then some .gzip
  else if name = Utf8.encode "deflate" then some .deflate
  else if name = Utf8.encode "br" then some .brotli
  else none

/-- The decoder of an encoding, given the one of Brotli. -/
def Encoding.decoder (brotli : Decoder) : Encoding → Decoder
  | .gzip => ⟨memberProgress, .shortMember⟩
  | .deflate => ⟨streamProgress, .shortStream⟩
  | .brotli => brotli

/-- What requests ask for. -/
def acceptedEncodings : HeaderValue :=
  (HeaderValue.ofText? "gzip,deflate,br").getD HeaderValue.json

/-- Ask for compressed responses unless the request already says what it accepts. -/
def advertise (r : Request) : Request :=
  if r.headers.contains .acceptEncoding then r
  else { r with headers := r.headers.insert .acceptEncoding acceptedEncodings }

/-- What a reader meets where data is at fault. -/
def Fault.frame (fault : Fault) : Frame := .failed (.plain fault.message)

/-- The frames after the end of the data. Of these trailers and failures are handed on, while more
data is a fault; a reader takes an empty data frame for the end of the body. -/
def afterData : Body → Body
  | [] => []
  | .trailers fields :: rest => .trailers fields :: afterData rest
  | .failed cause :: _ => [.failed cause]
  | .data bytes :: _ => if bytes.isEmpty then [] else [Fault.surplus.frame]

/-- The frames of an expanded body after the compressed data in `collected`, which expands to
`ready`: all data in one frame, and then either what follows it or what is wrong with it. A stream
that breaks loses what its last frame expands to, and a failure amid the data loses all of it. -/
def expandFrom (decoder : Decoder) (collected ready : Bytes) : Body → Body
  | .data bytes :: rest =>
    match decoder.progress (collected ++ bytes) with
    | .complete data => Body.full data ++ afterData rest
    | .partway data => expandFrom decoder (collected ++ bytes) data rest
    | .broken fault data =>
      Body.full (if fault.inStream then ready else data) ++ [fault.frame]
  | .failed cause :: _ => [.failed cause]
  | _ => Body.full ready ++ [decoder.shortage.frame]

/-- The frames of an expanded body. A body without data is not compressed. -/
def expandBody (decoder : Decoder) : Body → Body
  | .data bytes :: rest => expandFrom decoder [] [] (.data bytes :: rest)
  | body => afterData body

/-- Expand a response whose first content encoding is a known one. -/
def expand (brotli : Decoder) (r : Response) : Response :=
  match (r.headers.get? .contentEncoding).bind fun v => Encoding.ofName? v.bytes with
  | none => r
  | some encoding =>
    { r with
      headers := (r.headers.erase .contentEncoding).erase .contentLength
      body := expandBody (encoding.decoder brotli) r.body }

end Courier.Compression
