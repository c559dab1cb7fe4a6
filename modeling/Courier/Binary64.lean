/-!
# Doubles as exact numbers

A finite non-negative double is kept as `significand * 2 ^ exponent`. Each operation is carried
out exactly on fractions of natural numbers and rounded once, to the nearest double, a half to
the even neighbour. An operation answers `none` where the result is too large for a double.
-/
namespace Courier

/-- A finite non-negative double in normal form: the significand is below `2 ^ 53`, the exponent
lies between -1074 and 971, and the significand is at least `2 ^ 52` unless the exponent is
-1074. -/
structure Binary64 where
  significand : Nat
  exponent : Int
deriving DecidableEq, Repr

namespace Binary64

/-- The quotient rounded to the nearest natural number, a half to the even neighbour. -/
def roundHalfEven (num den : Nat) : Nat :=
  let q := num / den
  let r := num % den
  if 2 * r < den ∨ (2 * r = den ∧ q % 2 = 0) then q else q + 1

/-- The fraction `num / den` divided by `base ^ k`, as a fraction. -/
def unscale (base num den : Nat) (k : Int) : Nat × Nat :=
  (num * Nat.pow base (-k).toNat, den * Nat.pow base k.toNat)

/-- The exponent `e` with `2 ^ e ≤ num / den < 2 ^ (e + 1)`, for a positive fraction. -/
def binaryExponent (num den : Nat) : Int :=
  let e : Int := (Nat.log2 num : Int) - (Nat.log2 den : Int)
  let s := unscale 2 num den e
  if s.2 ≤ s.1 then e else e - 1

def zero : Binary64 := ⟨0, -1074⟩

/-- The nearest double, if it is finite. -/
def ofRatio? (num den : Nat) : Option Binary64 :=
  if num = 0 then some zero
  else
    let e := max (binaryExponent num den - 52) (-1074)
    let s := unscale 2 num den e
    let n := roundHalfEven s.1 s.2
    let v : Binary64 := if n = Nat.pow 2 53 then ⟨Nat.pow 2 52, e + 1⟩ else ⟨n, e⟩
    if v.exponent ≤ 971 then some v else none

/-- The exact value as a fraction. -/
def ratio (x : Binary64) : Nat × Nat :=
  (x.significand * Nat.pow 2 x.exponent.toNat, Nat.pow 2 (-x.exponent).toNat)

def ofNat? (n : Nat) : Option Binary64 := ofRatio? n 1

/-- Sum, rounded once. -/
def add? (x y : Binary64) : Option Binary64 :=
  ofRatio? (x.ratio.1 * y.ratio.2 + y.ratio.1 * x.ratio.2) (x.ratio.2 * y.ratio.2)

/-- Product, rounded once. -/
def mul? (x y : Binary64) : Option Binary64 :=
  ofRatio? (x.ratio.1 * y.ratio.1) (x.ratio.2 * y.ratio.2)

/-- Quotient by a positive double, rounded once. -/
def div? (x y : Binary64) : Option Binary64 :=
  ofRatio? (x.ratio.1 * y.ratio.2) (x.ratio.2 * y.ratio.1)

def le (x y : Binary64) : Bool :=
  x.ratio.1 * y.ratio.2 ≤ y.ratio.1 * x.ratio.2

def powerOfTen? (k : Nat) : Option Binary64 := ofNat? (Nat.pow 10 k)

/-- Divide by `10 ^ 308` as often as `n` says, each quotient rounded; nought stays. -/
def shrink : Nat → Binary64 → Option Binary64
  | 0, x => some x
  | n + 1, x => if x = zero then some x else ((powerOfTen? 308).bind (div? x)).bind (shrink n)

/-- The product `x * 10 ^ exponent`, with one rounding for each power of ten that is used.
One power suffices while the exponent is at most 308 in size; below that the value is first
divided by `10 ^ 308` as often as it takes. -/
def scaleTen (x : Binary64) (exponent : Int) : Option Binary64 :=
  let size := exponent.natAbs
  if 0 ≤ exponent then
    if size ≤ 308 then (powerOfTen? size).bind (mul? x)
    else if x = zero then some x else none
  else
    let n := (size - 1) / 308
    (shrink n x).bind fun y =>
      if y = zero then some y else (powerOfTen? (size - 308 * n)).bind (div? y)

end Courier.Binary64
