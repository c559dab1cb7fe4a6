import Courier.Http.Method
import Courier.Http.Status
import Courier.Json.Printer
import Courier.Text.Utf8

/-!
# Error envelopes

The JSON shape in which the service reports errors: an object with a list `errors` of entries,
each with a code, a message and, where the entry has any, the paths of the fields it is about.
-/
namespace Courier

/-- One reported error. `fields` may be absent, which differs from an empty list. -/
structure Entry where
  code : String
  fields : Option (List String)
  message : String
deriving DecidableEq, Repr

structure Envelope where
  errors : List Entry
deriving DecidableEq, Repr

/-- Field paths in parentheses after a message; nothing where there are none. -/
def fieldsNote (fields : List String) : String :=
  if fields.isEmpty then "" else " (" ++ ", ".intercalate fields ++ ")"

/-- Code, message and fields in one line. -/
def Entry.text (e : Entry) : String :=
  e.code ++ ": " ++ e.message ++ fieldsNote (e.fields.getD [])

/-- The member `fields` is left out where the entry has none. -/
def Entry.toJson (e : Entry) : Json :=
  .object ([("code", .string e.code)] ++
    (match e.fields with
      | none => []
      | some fs => [("fields", .array (fs.map .string))]) ++
    [("message", .string e.message)])

namespace Envelope

/-- The entries in one line. -/
def text (e : Envelope) : String :=
  "; ".intercalate (e.errors.map Entry.text)

def toJson (e : Envelope) : Json :=
  .object [("errors", .array (e.errors.map Entry.toJson))]

def encode (e : Envelope) : Bytes := Utf8.encode e.toJson.text

/-- Stands in for the page that an intermediary sent instead of an envelope: one entry with the
number of the status for its code, method and path for its only field, and the reason phrase for
its message. -/
def forProxyPage (status : Status) (method : Method) (path : String) : Envelope :=
  ⟨[⟨toString status.code, some [method.text ++ " " ++ path], status.reason⟩]⟩

end Courier.Envelope
