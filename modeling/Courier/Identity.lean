import Courier.Http.Headers

/-!
# Identity

The name under which a client makes itself known. Stamping a request drops whatever the caller put
under the same header.
-/
namespace Courier

/-- A product name and the header that carries it. -/
structure Identity where
  value : HeaderValue
  header : HeaderName := .userAgent
deriving DecidableEq

namespace Identity

/-- The identity with the given text, if it can be sent. -/
def ofText? (text : String) : Option Identity :=
  (HeaderValue.ofText? text).map ({ value := · })

/-- Make the identity the only value of its header. -/
def stamp (i : Identity) (h : Headers) : Headers := h.insert i.header i.value

end Courier.Identity
