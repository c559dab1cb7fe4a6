/-!
# Durations

Spans of time as whole nanoseconds, and their text: the largest unit that leaves a whole part,
and the exact fraction without trailing noughts.
-/
namespace Courier

structure Duration where
  nanos : Nat
deriving DecidableEq, Repr

namespace Duration

def perSecond : Nat := 1000000000

def secs (d : Duration) : Nat := d.nanos / perSecond

/-- Nanoseconds beyond the whole seconds. -/
def subsecNanos (d : Duration) : Nat := d.nanos % perSecond

def millis (d : Duration) : Nat := d.nanos / 1000000

def ofParts (secs nanos : Nat) : Duration := ⟨secs * perSecond + nanos⟩

def ofSecs (n : Nat) : Duration := ofParts n 0

def ofMillis (n : Nat) : Duration := ⟨n * 1000000⟩

/-- The decimal digits of `n`, with noughts before them up to `width` digits. -/
def padded (width n : Nat) : List Char :=
  let digits := (toString n).toList
  List.replicate (width - digits.length) '0' ++ digits

/-- The text of `n / 10 ^ places`, with the fraction left out where it is nought. -/
def decimal (places n : Nat) : String :=
  let fraction := ((padded places (n % Nat.pow 10 places)).reverse.dropWhile (· == '0')).reverse
  toString (n / Nat.pow 10 places) ++
    (if fraction.isEmpty then "" else "." ++ String.ofList fraction)

def text (d : Duration) : String :=
  if perSecond ≤ d.nanos then decimal 9 d.nanos ++ "s"
  else if 1000000 ≤ d.nanos then decimal 6 d.nanos ++ "ms"
  else if 1000 ≤ d.nanos then decimal 3 d.nanos ++ "\u00b5s"
  else toString d.nanos ++ "ns"

end Courier.Duration
