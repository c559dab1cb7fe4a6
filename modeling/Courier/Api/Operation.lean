import Courier.Api.Pattern
import Courier.Http.Method
import Courier.Text.Percent

/-!
# Operations

An operation is a method with a path pattern, values for the slots of the pattern, and a query. The
values and both sides of the query are percent-encoded, so that they never open or close anything.
-/
namespace Courier.Api

/-- Why an operation has no path. -/
inductive OperationError where
  /-- The leftmost slot without a value. -/
  | missingParam (name pattern : String)
  | malformedPattern (pattern : String) (defect : Defect)
deriving DecidableEq, Repr

def OperationError.message : OperationError → String
  | .missingParam name pattern =>
    "missing value for path parameter '" ++ name ++ "' in '" ++ pattern ++ "'"
  | .malformedPattern pattern defect =>
    "malformed path pattern '" ++ pattern ++ "': " ++ defect.reason

/-- A method and a path pattern with values and a query. -/
structure Operation where
  method : Method
  pattern : String
  params : List (String × String) := []
  query : List (String × String) := []
deriving DecidableEq

namespace Operation

/-- Bind a slot. A binding of the same name is replaced. -/
def bindParam (op : Operation) (name value : String) : Operation :=
  { op with params := op.params.filter (fun p => p.1 ≠ name) ++ [(name, value)] }

def addQuery (op : Operation) (name value : String) : Operation :=
  { op with query := op.query ++ [(name, value)] }

/-- The value bound to a slot. -/
def value? (op : Operation) (name : String) : Option String :=
  (op.params.find? fun p => p.1 = name).map (·.2)

/-- The pieces of a pattern as text, or the name of the first slot without a value. -/
def fill (value? : String → Option String) : List Piece → Except String (List Char)
  | [] => .ok []
  | .char c :: rest => (fill value? rest).map (c :: ·)
  | .slot name :: rest =>
    match value? name with
    | none => .error name
    | some value => (fill value? rest).map ((Percent.encode value).toList ++ ·)

def pairText (pair : String × String) : String :=
  Percent.encode pair.1 ++ "=" ++ Percent.encode pair.2

/-- A query with its question mark; nothing if it has no pairs. -/
def queryText (pairs : List (String × String)) : String :=
  if pairs.isEmpty then "" else "?" ++ "&".intercalate (pairs.map pairText)

def render (op : Operation) : Except OperationError String :=
  let (pieces, defect) := scanPattern op.pattern
  match fill op.value? pieces, defect with
  | .error name, _ => .error (.missingParam name op.pattern)
  | .ok _, some d => .error (.malformedPattern op.pattern d)
  | .ok path, none => .ok (String.ofList path ++ queryText op.query)

end Courier.Api.Operation
