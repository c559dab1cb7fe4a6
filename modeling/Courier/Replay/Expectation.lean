import Courier.Http.Message
import Courier.Json.Reader

/-!
# Expectations

What a request has to look like. Parts that are left open are not looked at; of several mismatches
the first counts, in the order method, path, headers, body, document.
-/
namespace Courier.Replay

/-- What a request has to look like. -/
structure Expectation where
  method : Option Method := none
  /-- The path as it was sent, still percent-encoded. -/
  path : Option String := none
  /-- Names with what their first value has to be. -/
  headers : List (String × String) := []
  body : Option Bytes := none
  /-- A document that the body has to be equal to. -/
  json : Option Json := none

namespace Expectation

/-- The first value under a name in either case, as text. -/
def firstValue (h : Headers) (name : String) : Option String :=
  ((HeaderName.parse? name).bind h.get?).map HeaderValue.shown

def checkMethod (e : Expectation) (r : Request) : Option Mismatch :=
  e.method.bind fun m => if r.method = m then none else some (.method m r.method)

def checkPath (e : Expectation) (r : Request) : Option Mismatch :=
  e.path.bind fun p => if r.uri.path = p then none else some (.path p r.uri.path)

def checkHeader (r : Request) (expected : String × String) : Option Mismatch :=
  let actual := firstValue r.headers expected.1
  if actual = some expected.2 then none else some (.header expected.1 expected.2 actual)

/-- Compare the body octet by octet. -/
def checkBody (e : Expectation) (r : Request) : Option Mismatch :=
  e.body.bind fun b => if r.body = b then none else some (.body b r.body)

def checkJson (e : Expectation) (r : Request) : Option Mismatch :=
  e.json.bind fun expected =>
    match Json.parse? r.body with
    | none => some .notJson
    | some actual => if actual.same expected then none else some (.json expected actual)

/-- The first mismatch of a request, if it has any. -/
def check (e : Expectation) (r : Request) : Option Mismatch :=
  e.checkMethod r <|> e.checkPath r <|> e.headers.findSome? (checkHeader r) <|> e.checkBody r <|>
    e.checkJson r

end Courier.Replay.Expectation
