/-!
# The journal

Structured events, in the order in which they happened.
-/
namespace Courier

/-- How much an event matters. -/
inductive Level where
  | trace
  | debug
  | warn
  | error
deriving DecidableEq, Repr

structure Event where
  level : Level
  message : String
  fields : List (String × String) := []
deriving DecidableEq, Repr

end Courier
