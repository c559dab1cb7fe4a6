/-!
# Blank characters

The characters with the Unicode property White_Space, and the text between them.
-/
namespace Courier.Text

/-- The character has the property White_Space. -/
def isBlank (c : Char) : Bool :=
  let n := c.toNat
  (9 ≤ n && n ≤ 13) || n == 0x20 || n == 0x85 || n == 0xA0 || n == 0x1680 ||
    (0x2000 ≤ n && n ≤ 0x200A) || n == 0x2028 || n == 0x2029 || n == 0x202F || n == 0x205F ||
    n == 0x3000

def dropEnd (p : Char → Bool) (cs : List Char) : List Char :=
  (cs.reverse.dropWhile p).reverse

/-- Drop blank characters from both ends. -/
def trim (text : String) : String :=
  String.ofList (dropEnd isBlank (text.toList.dropWhile isBlank))

/-- Drop every slash from the end. -/
def dropSlashes (text : String) : String :=
  String.ofList (dropEnd (· == '/') text.toList)

/-- Capital ASCII letters become small; all else stays. -/
def lower (text : String) : String :=
  String.ofList (text.toList.map Char.toLower)

end Courier.Text
