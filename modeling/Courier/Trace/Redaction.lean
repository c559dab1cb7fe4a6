/-!
# Redaction

In a line that starts with the authorization header, everything after the name up to the end of
the line is replaced by a marker. A line starts at the beginning of the text and after each line
feed; its value ends before a carriage return, a line feed or the end of the text.
-/
namespace Courier.Redaction

/-- What a line to be redacted starts with. -/
def opening : List Char := "Authorization: ".toList

/-- What stands in the place of a credential. -/
def marker : List Char := "[REDACTED]".toList

def endsValue (c : Char) : Bool := c == '\r' || c == '\n'

/-- Redact from a position that is or is not the start of a line. -/
def redactFrom (atStart : Bool) (cs : List Char) : List Char :=
  match cs with
  | [] => []
  | c :: rest =>
    if atStart && opening.isPrefixOf (c :: rest) then
      opening ++ marker ++
        redactFrom false ((rest.drop (opening.length - 1)).dropWhile fun c => !endsValue c)
    else c :: redactFrom (c == '\n') rest
termination_by cs.length
decreasing_by
  · have h : ∀ l : List Char, (l.dropWhile fun c => !endsValue c).length ≤ l.length :=
      fun l => (List.dropWhile_sublist _).length_le
    have := h (rest.drop (opening.length - 1))
    simp only [List.length_drop, List.length_cons] at this ⊢
    omega
  · simp

/-- Replace every credential in a dump. -/
def redact (dump : String) : String :=
  String.ofList (redactFrom true dump.toList)

end Courier.Redaction
