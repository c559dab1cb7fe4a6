import Courier.Api.Operation
import Courier.Failure

/-!
# Errors of the API

Whatever goes wrong with an operation ends as one aggregate of items, of which there is always at
least one. An envelope contributes an item for each of its entries, any other failure one item with
its message.
-/
namespace Courier.Api

/-- One item of an aggregate. Only items of an envelope have a code. -/
structure Item where
  code : Option String := none
  message : String
  fields : List String := []
deriving DecidableEq, Repr

namespace Item

def text (i : Item) : String :=
  (match i.code with | some code => code ++ ": " | none => "") ++ i.message ++ fieldsNote i.fields

def ofEntry (e : Entry) : Item := ⟨some e.code, e.message, e.fields.getD []⟩

def unknown : Item := { message := "unknown error" }

end Item

/-- What an aggregate was made of. -/
inductive Source where
  | failure (f : Failure)
  | operation (e : OperationError)

/-- Items, at least one, with the status of the response if there was one. -/
structure ApiError where
  status : Option Status
  items : List Item
  source : Option Source
  nonempty : items ≠ [] := by simp

namespace ApiError

/-- The items given, or one that says that nothing is known. -/
def orUnknown (items : List Item) : List Item := if items = [] then [Item.unknown] else items

theorem orUnknown_ne_nil (items : List Item) : orUnknown items ≠ [] := by
  unfold orUnknown
  split <;> simp_all

def ofItems (status : Option Status) (items : List Item) : ApiError :=
  ⟨status, orUnknown items, none, orUnknown_ne_nil items⟩

def ofFailure : Failure → ApiError
  | .api status envelope =>
    ⟨some status, orUnknown (envelope.errors.map Item.ofEntry),
      some (.failure (.api status envelope)), orUnknown_ne_nil _⟩
  | .httpStatus status preview contentType =>
    let f : Failure := .httpStatus status preview contentType
    { status := some status, items := [{ message := f.message }], source := some (.failure f) }
  | f => { status := none, items := [{ message := f.message }], source := some (.failure f) }

def ofOperation (e : OperationError) : ApiError :=
  { status := none, items := [{ message := e.message }], source := some (.operation e) }

/-- The codes of the items that have one, in order. -/
def codes (e : ApiError) : List String := e.items.filterMap (·.code)

/-- The failure that the aggregate was made of. -/
def failure? (e : ApiError) : Option Failure :=
  match e.source with
  | some (.failure f) => some f
  | _ => none

def isTimeout (e : ApiError) : Bool := e.failure?.any Failure.isTimeout

/-- The text of an aggregate: a heading, then a line for each item. -/
def text (e : ApiError) : String :=
  "api error: " ++
    (if e.items.length = 1 then "1 error occurred:\n"
    else toString e.items.length ++ " errors occurred:\n") ++
    String.join (e.items.map fun i => "\t* " ++ i.text ++ "\n") ++ "\n"

end Courier.Api.ApiError
