import Courier.Text.Utf8

/-!
# Progress of compressed data

Compressed data arrives in pieces. What has arrived is either complete, or the beginning of
something, or broken; and each time there is the data that it expands to so far. A decoder is what
tells which of these it is.
-/
namespace Courier.Compression

/-- What is wrong with compressed data. -/
inductive Fault where
  /-- A member does not begin like one. -/
  | header
  /-- The header of a member does not have the checksum that it states. -/
  | headerChecksum
  /-- The data is not what a compressor writes. -/
  | stream
  /-- The expanded data does not have the checksum that the member states. -/
  | checksum
  /-- The expanded data is not as long as the member states. -/
  | size
  /-- A member ends too early. -/
  | shortMember
  /-- A stream ends too early. -/
  | shortStream
  /-- More data follows where all of it should have come. -/
  | surplus
  /-- The data is not what a decoder from outside takes, in its own words. -/
  | told (message : String)
deriving DecidableEq, Repr

def Fault.message : Fault → String
  | .header => "Invalid gzip header"
  | .headerChecksum => "CRC computed for header does not match"
  | .stream => "deflate decompression error"
  | .checksum => "CRC computed does not match"
  | .size => "amount of bytes read does not match"
  | .shortMember => "unexpected end of file"
  | .shortStream => "unexpected BufError"
  | .surplus => "there are extra bytes after body has been decompressed"
  | .told message => message

/-- A fault in the midst of a stream, where a reader loses what the last frame expands to. -/
def Fault.inStream : Fault → Bool
  | .stream | .told _ => true
  | _ => false

/-- Why reading stops. -/
inductive Stop where
  /-- What comes next has not arrived. -/
  | starved
  | faulty (fault : Fault)
deriving DecidableEq, Repr

/-- What has arrived of compressed data, and what it expands to. -/
inductive Progress where
  | complete (data : Bytes)
  /-- The end has not arrived. -/
  | partway (data : Bytes)
  | broken (fault : Fault) (data : Bytes)
deriving DecidableEq, Repr

/-- The progress of reading that stopped with some data. -/
def Progress.stopped : Stop → Bytes → Progress
  | .starved, data => .partway data
  | .faulty fault, data => .broken fault data

structure Decoder where
  /-- What has arrived. -/
  progress : Bytes → Progress
  /-- What is wrong with data that ends too early. -/
  shortage : Fault

/-- Stands in where there is no decoder: no data is what it takes. -/
def Decoder.absent : Decoder where
  progress _ := .broken (.told "no decoder for this content encoding") []
  shortage := .told "no decoder for this content encoding"

end Courier.Compression
