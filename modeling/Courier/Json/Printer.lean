import Courier.Binary64.Shortest
import Courier.Json.Value

/-!
# The compact text of a JSON value

No blanks between tokens; members in the order of their names. Text is quoted with short escapes
for the quote, the reverse solidus and the control characters that have one, `\u00xx` for the
other control characters, and everything else raw. A double is written with the fewest digits
that read back.
-/
namespace Courier.Json

/-- A small hexadecimal digit. -/
def hexDigit (n : Nat) : Char :=
  if n < 10 then Char.ofNat (48 + n) else Char.ofNat (87 + n)

/-- A character inside quotes. -/
def escape (c : Char) : List Char :=
  if c = '"' then ['\\', '"']
  else if c = '\\' then ['\\', '\\']
  else if c = '\x08' then ['\\', 'b']
  else if c = '\x09' then ['\\', 't']
  else if c = '\x0a' then ['\\', 'n']
  else if c = '\x0c' then ['\\', 'f']
  else if c = '\x0d' then ['\\', 'r']
  else if c.toNat < 32 then
    ['\\', 'u', '0', '0', hexDigit (c.toNat / 16), hexDigit (c.toNat % 16)]
  else [c]

def quote (s : String) : String :=
  String.ofList ('"' :: s.toList.flatMap escape ++ ['"'])

/-- How a double is laid out: positional while the exponent of the first digit is at least
`lowest` and below `highest`, otherwise one digit before the point and an exponent with a sign. -/
structure RealFormat where
  lowest : Int
  highest : Int

def realFormat : RealFormat := ⟨-5, 16⟩

/-- A decimal exponent with its sign. -/
def signed (e : Int) : List Char :=
  (if e < 0 then '-' else '+') :: (toString e.natAbs).toList

/-- The text of a positive decimal. -/
def RealFormat.layout (f : RealFormat) (d : Decimal) : List Char :=
  let digits := (toString d.digits).toList
  let first : Int := d.exponent + digits.length - 1
  if f.lowest ≤ first ∧ first < f.highest then
    if first < 0 then
      ['0', '.'] ++ List.replicate (-first - 1).toNat '0' ++ digits
    else
      let before := first.toNat + 1
      if digits.length ≤ before then
        digits ++ List.replicate (before - digits.length) '0' ++ ['.', '0']
      else digits.take before ++ ['.'] ++ digits.drop before
  else
    let rest := digits.drop 1
    digits.take 1 ++ (if rest.isEmpty then [] else '.' :: rest) ++ ['e'] ++ signed first

def Number.text : Number → String
  | .whole i => toString i
  | .real negative size =>
    let digits :=
      if size = Binary64.zero then ['0', '.', '0'] else realFormat.layout size.shortest
    String.ofList (if negative then '-' :: digits else digits)

mutual
/-- The compact text of a value. -/
def text : Json → String
  | .null => "null"
  | .bool b => if b then "true" else "false"
  | .number n => n.text
  | .string s => quote s
  | .array items => "[" ++ itemsText items ++ "]"
  | .object members => "\x7b" ++ membersText members ++ "\x7d"

/-- Items with commas between them. -/
def itemsText : List Json → String
  | [] => ""
  | [v] => text v
  | v :: rest => text v ++ "," ++ itemsText rest

/-- Members with commas between them. -/
def membersText : List (String × Json) → String
  | [] => ""
  | [(n, v)] => quote n ++ ":" ++ text v
  | (n, v) :: rest => quote n ++ ":" ++ text v ++ "," ++ membersText rest
end

end Courier.Json
