import Courier.Text.Blank

/-!
# Regions

A region is named by an identifier that goes into paths as it is, so that only letters, digits and
three marks are allowed in it.
-/
namespace Courier.Api

/-- What an identifier of a region may be. -/
def isRegionChar (c : Char) : Bool := c.isAlphanum || c == '.' || c == '_' || c == '-'

structure Region where
  id : String
  legal : (!id.isEmpty && id.toList.all isRegionChar) = true
deriving DecidableEq

/-- Why a text names no region. -/
inductive RegionFault where
  | empty
  | blank
  | illegal
deriving DecidableEq, Repr

def RegionFault.message : RegionFault → String
  | .empty => "must not be empty"
  | .blank => "must not contain whitespace"
  | .illegal => "may only contain ASCII letters, digits, '.', '_' and '-'"

def Region.parse (id : String) : Except RegionFault Region :=
  if id.isEmpty then .error .empty
  else if id.toList.any Text.isBlank then .error .blank
  else if h : (!id.isEmpty && id.toList.all isRegionChar) = true then .ok ⟨id, h⟩
  else .error .illegal

end Courier.Api
