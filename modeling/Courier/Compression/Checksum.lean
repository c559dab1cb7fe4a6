import Courier.Text.Utf8

/-!
# Checksums of compressed data

The cyclic redundancy check of 32 bits, and the pair of sums modulo 65521.
-/
namespace Courier.Checksum

/-- One bit of the division by the reversed polynomial. -/
def crcShift (v : UInt32) : UInt32 :=
  if v &&& 1 = 1 then (v >>> 1) ^^^ 0xEDB88320 else v >>> 1

/-- Eight bits of the division. -/
def crcStep (v : UInt32) (b : UInt8) : UInt32 :=
  Nat.repeat crcShift 8 (v ^^^ b.toUInt32)

def crc32 (bs : Bytes) : Nat :=
  ((bs.foldl crcStep 0xFFFFFFFF) ^^^ 0xFFFFFFFF).toNat

/-- The sum of the octets and the sum of its values, both modulo 65521. -/
def adler32 (bs : Bytes) : Nat :=
  let s := bs.foldl (fun (p : Nat × Nat) b =>
    let a := (p.1 + b.toNat) % 65521
    (a, (p.2 + a) % 65521)) (1, 0)
  s.2 * 65536 + s.1

end Courier.Checksum
