import Courier.Binary64
import Courier.Duration

/-!
# Waits between attempts

A wait is a ceiling divided by `1 + 10 r`, where `r` is a draw from the unit interval, so that it
lies between an eleventh of the ceiling and the ceiling. Every wait is drawn anew against the same
ceiling. All arithmetic is that of doubles, and the result is rounded to whole nanoseconds.
-/
namespace Courier.Backoff

/-- A number as it may be drawn. Only finite ones count. -/
inductive Draw where
  | finite (negative : Bool) (size : Binary64)
  | notFinite
deriving DecidableEq, Repr

def one : Binary64 := ⟨Nat.pow 2 52, -52⟩

def ten : Binary64 := ⟨5 * Nat.pow 2 50, -49⟩

def perSecond : Binary64 := (Binary64.ofNat? Duration.perSecond).getD Binary64.zero

/-- The draw as a number of the unit interval: what is below counts as nought, what is above as
one, and what is not finite as nought. -/
def Draw.clamped : Draw → Binary64
  | .finite true _ => Binary64.zero
  | .finite false size => if one.le size then one else size
  | .notFinite => Binary64.zero

/-- A duration as a double number of seconds. -/
def seconds? (d : Duration) : Option Binary64 := do
  let whole ← Binary64.ofNat? d.secs
  let nanos ← Binary64.ofNat? d.subsecNanos
  let fraction ← nanos.div? perSecond
  whole.add? fraction

/-- The most whole seconds that a duration holds. -/
def maxSecs : Nat := Nat.pow 2 64 - 1

/-- A double number of seconds as a duration, a half of a nanosecond going to the even neighbour;
`none` if it is too long. -/
def ofSeconds? (x : Binary64) : Option Duration :=
  let n := Binary64.roundHalfEven (x.ratio.1 * Duration.perSecond) x.ratio.2
  if n / Duration.perSecond ≤ maxSecs then some ⟨n⟩ else none

/-- The wait for a draw; `none` if it does not fit a duration. -/
def jitter? (ceiling : Duration) (draw : Draw) : Option Duration := do
  let scaled ← draw.clamped.mul? ten
  let divisor ← one.add? scaled
  let span ← seconds? ceiling
  let wait ← span.div? divisor
  ofSeconds? wait

/-- The wait for a draw. A ceiling from `2 ^ 64 - 1024` seconds on counts as `2 ^ 64` seconds, which
is more than a duration holds; where the draw then leaves the divisor at one there is no wait, and
whoever asks for it fails. That failure is outside this model: the ceiling stands in its place, and
says nothing of what happens there. -/
def wait (ceiling : Duration) (draw : Draw) : Duration :=
  (jitter? ceiling draw).getD ceiling

/-- The radical inverse of `n` in base two: its binary digits in reverse order behind the point, as
a fraction of two natural numbers. -/
def radicalInverse (n : Nat) : Nat × Nat :=
  if n = 0 then (0, 1)
  else
    let m := radicalInverse (n / 2)
    ((n % 2) * m.2 + m.1, 2 * m.2)

/-- An endless supply of draws that fills the unit interval evenly. -/
def evenDraws (n : Nat) : Draw :=
  let m := radicalInverse (n + 1)
  match Binary64.ofRatio? m.1 m.2 with
  | some x => .finite false x
  | none => .notFinite

end Courier.Backoff
