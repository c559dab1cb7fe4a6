import Courier.Binary64

/-!
# Shortest decimal of a double

The decimal with the fewest digits that reads back as a given double, and of those the nearest
to it. The reals that round to a double form an interval around it, which contains its ends
exactly when the significand is even. On the grid of decimals with a given number of digits only
the two neighbours of the double can be nearest, so those two are tried for 1, 2, … digits.
-/
namespace Courier

/-- The number `digits * 10 ^ exponent`. -/
structure Decimal where
  digits : Nat
  exponent : Int
deriving DecidableEq, Repr

namespace Binary64

/-- The fraction `num / den` is at least `10 ^ k`. -/
def reachesTen (num den : Nat) (k : Int) : Bool :=
  let s := unscale 10 num den k
  s.2 ≤ s.1

/-- The exponent `d` with `10 ^ d ≤ num / den < 10 ^ (d + 1)`, for a positive fraction. The
estimate from the binary exponent is off by one at most. -/
def decimalExponent (num den : Nat) : Int :=
  let d := binaryExponent num den * 30103 / 100000
  if reachesTen num den (d + 1) then d + 1
  else if reachesTen num den d then d
  else d - 1

/-- Ends of the interval of reals that round to `x`, in units of a quarter of its last place. -/
def quarters (x : Binary64) : Nat × Nat :=
  let below := if x.significand = Nat.pow 2 52 ∧ -1074 < x.exponent then 1 else 2
  (4 * x.significand - below, 4 * x.significand + 2)

/-- The decimal `c * 10 ^ k` rounds to `x`. -/
def readsBack (x : Binary64) (c : Nat) (k : Int) : Bool :=
  -- `c * 10 ^ k` in quarters of the last place, as a fraction
  let s := unscale 10 c 1 (-k)
  let t := unscale 2 s.1 s.2 (x.exponent - 2)
  let (low, high) := x.quarters
  if x.significand % 2 = 0 then low * t.2 ≤ t.1 && t.1 ≤ high * t.2
  else low * t.2 < t.1 && t.1 < high * t.2

/-- The nearest decimal with `n + 1` digits that reads back, if there is one. -/
def shortestAt (x : Binary64) (n : Nat) : Option Decimal :=
  let (num, den) := x.ratio
  let k := decimalExponent num den - n
  let s := unscale 10 num den k
  let c := s.1 / s.2
  match x.readsBack c k, x.readsBack (c + 1) k with
  | true, true =>
    let twice := 2 * s.1
    let middle := (2 * c + 1) * s.2
    some ⟨if twice < middle ∨ (twice = middle ∧ c % 2 = 0) then c else c + 1, k⟩
  | true, false => some ⟨c, k⟩
  | false, true => some ⟨c + 1, k⟩
  | false, false => none

/-- The shortest decimal of a positive double. Seventeen digits always suffice. -/
def shortest (x : Binary64) : Decimal :=
  let d := ((List.range 17).findSome? x.shortestAt).getD ⟨0, 0⟩
  if d.digits % 10 = 0 then ⟨d.digits / 10, d.exponent + 1⟩ else d

end Courier.Binary64
