import Courier.Api.Operation
import Courier.Api.Region
import Courier.Text.Blank

/-!
# Routing

Operations are addressed below one of two base paths: with the region, or without it for families
of patterns that belong to no region. Without a region both are the same.
-/
namespace Courier.Api

/-- The path below which all operations are found. -/
def apiPath : String := "/api/v1"

/-- The patterns that begin with one of these belong to no region. -/
def regionlessFamilies : List String := ["/deployments"]

/-- An origin and a path below which operations are found. -/
structure BasePath where
  origin : String
  path : String
deriving DecidableEq, Repr

def BasePath.url (b : BasePath) (rendered : String) : String := b.origin ++ b.path ++ rendered

/-- An origin, a region, and the families that belong to no region. -/
structure Router where
  origin : String
  region : Option Region := none
  families : List String := regionlessFamilies
deriving DecidableEq

namespace Router

/-- The router of an origin, which may end with slashes. -/
def ofOrigin (origin : String) (region : Option Region) : Router :=
  { origin := Text.dropSlashes origin, region := region }

def withRegionlessFamily (r : Router) (family : String) : Router :=
  { r with families := r.families ++ [family] }

def regionless (r : Router) : BasePath := ⟨r.origin, apiPath⟩

/-- The base path with the region, if there is one. -/
def regional (r : Router) : BasePath :=
  match r.region with
  | none => r.regionless
  | some region => ⟨r.origin, apiPath ++ "/regions/" ++ region.id⟩

def select (r : Router) (pattern : String) : BasePath :=
  if r.families.any fun family => family.toList.isPrefixOf pattern.toList then r.regionless
  else r.regional

def route (r : Router) (op : Operation) : BasePath := r.select op.pattern

end Courier.Api.Router
