import Courier.Compression.Checksum
import Courier.Compression.Inflate

/-!
# Containers of compressed data

The two wrappers around an inflatable stream: a member with a file header, a checksum and a size,
and a stream with two octets of header and a checksum. What follows either is not looked at.
-/
namespace Courier.Compression

/-- A natural number from octets, the lowest first. -/
def littleEndian : Bytes → Nat
  | [] => 0
  | b :: bs => b.toNat + 256 * littleEndian bs

def skip (n : Nat) (bs : Bytes) : Except Stop Bytes :=
  if n ≤ bs.length then .ok (bs.drop n) else .error .starved

/-- Pass over a text and the nought octet that ends it. -/
def skipText : Bytes → Except Stop Bytes
  | [] => .error .starved
  | b :: bs => if b = 0 then .ok bs else skipText bs

/-- Pass over a field and the two octets before it that tell its length. -/
def skipField (bs : Bytes) : Except Stop Bytes := do
  let rest ← skip 2 bs
  skip (littleEndian (bs.take 2)) rest

/-- Pass over what a set flag announces. -/
def skipIf (flag : Bool) (f : Bytes → Except Stop Bytes) (bs : Bytes) : Except Stop Bytes :=
  if flag then f bs else .ok bs

/-- What every member begins with: two octets of its own, and the only method there is. -/
def memberMark : Bytes := [0x1F, 0x8B, 0x08]

/-- Pass over the checksum of a header, the low half of the one that the octets in front of it
have. -/
def skipHeaderChecksum (header bs : Bytes) : Except Stop Bytes := do
  let rest ← skip 2 bs
  if littleEndian (bs.take 2) = Checksum.crc32 header % Nat.pow 2 16 then .ok rest
  else .error (.faulty .headerChecksum)

/-- Pass over the header of a member: a fixed part and the parts that its flags announce. A wrong
mark shows as soon as there is any of it. -/
def skipMemberHeader (bs : Bytes) : Except Stop Bytes :=
  if bs.take 3 = memberMark.take bs.length then do
    let flag (i : Nat) : Bool := ((bs[3]?).getD 0).toNat.testBit i
    let rest ← skip 10 bs
    let rest ← skipIf (flag 2) skipField rest
    let rest ← skipIf (flag 3) skipText rest
    let rest ← skipIf (flag 4) skipText rest
    skipIf (flag 1) (skipHeaderChecksum (bs.take (bs.length - rest.length))) rest
  else .error (.faulty .header)

def memberContent : Inflating Unit := do
  Inflating.stream
  let check ← Inflating.number 32
  let size ← Inflating.number 32
  let data := (← get).data
  if check ≠ Checksum.crc32 data then throw (.faulty .checksum)
  else if size ≠ data.length % Nat.pow 2 32 then throw (.faulty .size)
  else pure ()

def memberProgress (bs : Bytes) : Progress :=
  match skipMemberHeader bs with
  | .error stop => .stopped stop []
  | .ok rest => Inflating.progress memberContent rest

/-- Read a number of `n` octets, the highest first, after the number that is before it. -/
def bigEndianFrom (before : Nat) : (n : Nat) → Inflating Nat
  | 0 => pure before
  | n + 1 => do bigEndianFrom (256 * before + (← Inflating.number 8)) n

def streamContent : Inflating Unit := do
  Inflating.stream
  let check ← bigEndianFrom 0 4
  if check = Checksum.adler32 (← get).data then pure () else Inflating.fail

/-- Whether two octets are the header of a stream: together a multiple of 31, a method with a
window of at most 32768 octets, and no dictionary. -/
def isStreamHeader (method flags : UInt8) : Bool :=
  (method.toNat * 256 + flags.toNat) % 31 = 0 && method.toNat % 16 = 8 &&
    method.toNat / 16 ≤ 7 && !flags.toNat.testBit 5

def streamProgress : Bytes → Progress
  | method :: flags :: rest =>
    if isStreamHeader method flags then Inflating.progress streamContent rest
    else .broken .stream []
  | _ => .partway []

end Courier.Compression
