import Courier.Binary64

/-!
# JSON numbers

Whole numbers of up to 64 bits stay exact; every other number is a double. A numeral is the
written form: `value?` says which number it stands for.
-/
namespace Courier.Json

inductive Number where
  /-- A whole number from `-2^63` to `2^64 - 1`. -/
  | whole (i : Int)
  /-- A double, given by its sign and size. -/
  | real (negative : Bool) (size : Binary64)
deriving DecidableEq, Repr

/-- Equality of numbers: the two noughts of the doubles are equal, and a whole number never
equals a double. -/
def Number.same : Number → Number → Bool
  | .whole i, .whole j => i == j
  | .real s x, .real t y => x == y && (s == t || x == Binary64.zero)
  | _, _ => false

/-- A number as written: an optional minus sign, digits, an optional fraction and an optional
exponent. -/
structure Numeral where
  negative : Bool
  whole : List Nat
  fraction : Option (List Nat)
  exponent : Option Int
deriving DecidableEq, Repr

namespace Numeral

/-- Largest significand kept while digits are read. -/
def maxSignificand : Nat := Nat.pow 2 64 - 1

/-- Append digits to a significand as long as it fits 64 bits; the digits left over come back. -/
def gather : Nat → List Nat → Nat × List Nat
  | n, [] => (n, [])
  | n, d :: ds => if n * 10 + d ≤ maxSignificand then gather (n * 10 + d) ds else (n, d :: ds)

/-- The number of a numeral without fraction and exponent whose digits fit 64 bits. A negative
one below `-2^63`, and `-0`, are doubles. -/
def ofInteger? (negative : Bool) (n : Nat) : Option Number :=
  if negative then
    if 0 < n ∧ n ≤ Nat.pow 2 63 then some (.whole (-n))
    else (Binary64.ofNat? n).map (.real true)
  else some (.whole n)

/-- The double whose leading digits are `n` and whose scale is a power of ten. -/
def ofScaled? (negative : Bool) (n : Nat) (exponent : Int) : Option Number :=
  ((Binary64.ofNat? n).bind (·.scaleTen exponent)).map (.real negative)

/-- The number that a numeral stands for. A double is made of the leading digits that fit 64 bits,
rounded, and then scaled; `none` if it is too large. -/
def value? (t : Numeral) : Option Number :=
  let (n, left) := gather 0 t.whole
  match t.fraction, t.exponent with
  | none, none =>
    if left.isEmpty then ofInteger? t.negative n else ofScaled? t.negative n left.length
  | fraction, exponent =>
    let digits := fraction.getD []
    let (m, dropped) := gather n digits
    let places : Int := (digits.length : Int) - dropped.length
    ofScaled? t.negative m (left.length - places + exponent.getD 0)

end Courier.Json.Numeral
