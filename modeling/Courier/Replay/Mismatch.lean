import Courier.Http.Method
import Courier.Json.Printer
import Courier.Text.Utf8

/-!
# Mismatches

The ways in which a request can fail an expectation.
-/
namespace Courier.Replay

/-- The part of a request that is not as expected. -/
inductive Mismatch where
  | method (expected actual : Method)
  | path (expected actual : String)
  /-- The first value under a name is another one, or there is none. -/
  | header (name expected : String) (actual : Option String)
  | body (expected actual : Bytes)
  /-- A document was expected, and the body is none. -/
  | notJson
  | json (expected actual : Json)

def Mismatch.message : Mismatch → String
  | .method expected actual =>
    "method: expected " ++ expected.text ++ ", got " ++ actual.text
  | .path expected actual => "path: expected " ++ expected ++ ", got " ++ actual
  | .header name expected actual =>
    "header " ++ name ++ ": expected '" ++ expected ++ "', got " ++
      (match actual with
      | none => "nothing"
      | some value => "'" ++ value ++ "'")
  | .body expected actual =>
    "body: expected '" ++ Utf8.lossy expected ++ "', got '" ++ Utf8.lossy actual ++ "'"
  | .notJson => "body is not JSON: " ++ Json.unreadable
  | .json expected actual => "json body: expected " ++ expected.text ++ ", got " ++ actual.text

end Courier.Replay
