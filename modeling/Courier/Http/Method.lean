/-!
# Request methods

A method is a token: any non-empty text of token characters. Case is kept and matters.
-/
namespace Courier

/-- The characters of a token: ASCII letters, digits and fifteen marks. -/
def isTokenChar (c : Char) : Bool :=
  c.isAlphanum ||
    ['!', '#', '$', '%', '&', '\'', '*', '+', '-', '.', '^', '_', '\x60', '|', '~'].contains c

structure Method where
  text : String
  legal : (!text.isEmpty && text.toList.all isTokenChar) = true
deriving DecidableEq

namespace Method

/-- The method with the given text, if it is a token. -/
def parse? (text : String) : Option Method :=
  if h : (!text.isEmpty && text.toList.all isTokenChar) = true then some ⟨text, h⟩ else none

def get : Method := ⟨"GET", by decide⟩

instance : Inhabited Method := ⟨get⟩

end Courier.Method
