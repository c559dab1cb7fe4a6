import Courier.Text.Utf8

/-!
# Percent-encoding

Unreserved octets stand for themselves; every other octet of the UTF-8 form is written as a
percent sign and two capital hexadecimal digits.
-/
namespace Courier.Percent

/-- Letters, digits and the four marks `-`, `_`, `.` and `~`. -/
def unreserved (b : UInt8) : Bool :=
  (0x41 ≤ b && b ≤ 0x5A) || (0x61 ≤ b && b ≤ 0x7A) || (0x30 ≤ b && b ≤ 0x39) ||
    b == 0x2D || b == 0x5F || b == 0x2E || b == 0x7E

/-- The capital hexadecimal digit of a number below sixteen. -/
def hexDigit (n : Nat) : Char :=
  if n < 10 then Char.ofNat (48 + n) else Char.ofNat (55 + n)

/-- The written form of one octet. -/
def encodeByte (b : UInt8) : List Char :=
  if unreserved b then [Char.ofNat b.toNat]
  else ['%', hexDigit (b.toNat / 16), hexDigit (b.toNat % 16)]

def encode (text : String) : String :=
  String.ofList ((Utf8.encode text).flatMap encodeByte)

end Courier.Percent
