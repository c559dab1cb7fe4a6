/-!
# Path patterns

A pattern is read from left to right into characters and named slots. A brace that opens or closes
no slot is a defect, and nothing behind the first defect is looked at.
-/
namespace Courier.Api

/-- A part of a path pattern. -/
inductive Piece where
  | char (c : Char)
  | slot (name : String)
deriving DecidableEq, Repr

inductive Defect where
  | relative
  | strayBrace
  | unclosedSlot
  | badSlot
deriving DecidableEq, Repr

def Defect.reason : Defect → String
  | .relative => "must start with '/'"
  | .strayBrace => "unexpected '\x7d'"
  | .unclosedSlot => "unclosed '\x7b'"
  | .badSlot => "empty or nested placeholder"

/-- The pieces of a pattern up to its first defect. `open?` holds the characters, the latest first,
of a slot that has been opened. -/
def scanPieces : (open? : Option (List Char)) → List Char → List Piece × Option Defect
  | none, [] => ([], none)
  | some _, [] => ([], some .unclosedSlot)
  | none, c :: cs =>
    if c = '{' then scanPieces (some []) cs
    else if c = '}' then ([], some .strayBrace)
    else
      let (pieces, defect) := scanPieces none cs
      (.char c :: pieces, defect)
  | some name, c :: cs =>
    if c = '}' then
      if name.isEmpty || name.contains '{' then ([], some .badSlot)
      else
        let (pieces, defect) := scanPieces none cs
        (.slot (String.ofList name.reverse) :: pieces, defect)
    else scanPieces (some (c :: name)) cs

/-- The pieces of an absolute pattern up to its first defect. -/
def scanPattern (pattern : String) : List Piece × Option Defect :=
  if pattern.toList.head? = some '/' then scanPieces none pattern.toList
  else ([], some .relative)

end Courier.Api
