import Courier.Http.Message

/-!
# Dumps

Requests and responses as text: a start line, header lines in the order of their names, an empty
line, and the body. The text has nothing that header values or bodies could not be told from,
because no header value contains a line break.
-/
namespace Courier

/-- Capitals at the front and after each hyphen, small letters elsewhere. -/
def capitalize : (atStart : Bool) → List Char → List Char
  | _, [] => []
  | atStart, c :: cs =>
    (if c = '-' then c else if atStart then c.toUpper else c.toLower) :: capitalize (c = '-') cs

/-- The name of a header as dumps show it. -/
def canonicalName (name : String) : String :=
  String.ofList (capitalize true name.toList)

namespace Headers

/-- Names and values as dumps show them, in the order of the names; values of one name stay in
order. -/
def shownFields (h : Headers) : List (String × String) :=
  (h.fields.map fun f => (canonicalName f.1.text, f.2.shown)).mergeSort fun a b =>
    decide (a.1 ≤ b.1)

/-- One line for each field. -/
def lines (h : Headers) : String :=
  String.join (h.shownFields.map fun f => f.1 ++ ": " ++ f.2 ++ "\r\n")

end Headers

/-- A request as it goes over the wire. The host is that of the URI; a header of that name is left
out. -/
def Request.dump (r : Request) : String :=
  r.method.text ++ " " ++ r.uri.requestTarget ++ " " ++ r.version.text ++ "\r\n" ++
    (match r.uri.authority with | some a => "Host: " ++ a ++ "\r\n" | none => "") ++
    (r.headers.erase .host).lines ++ "\r\n" ++ Utf8.lossy r.body

/-- A response with its status line, headers and the given part of its body. -/
def ResponseHead.dump (r : ResponseHead) (body : Bytes) : String :=
  r.version.text ++ " " ++ toString r.status.code ++ " " ++ r.status.reason ++ "\r\n" ++
    r.headers.lines ++ "\r\n" ++ Utf8.lossy body

end Courier
