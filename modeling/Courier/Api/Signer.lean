import Courier.Failure
import Courier.Http.Headers

/-!
# Signers

A signer proves who is asking by setting the authorization of a request. The value is marked as
sensitive. Whatever the caller put there is dropped.
-/
namespace Courier.Api

inductive Signer where
  | apiKey (key : String)
  | bearer (token : String)
  /-- Has a credential that cannot be sent. -/
  | broken
deriving DecidableEq, Repr

namespace Signer

/-- The value under `authorization`, if it can be sent. -/
def credential? : Signer → Option HeaderValue
  | .apiKey key => HeaderValue.ofText? ("ApiKey " ++ key)
  | .bearer token => HeaderValue.ofText? ("Bearer " ++ token)
  | .broken => none

def sign (s : Signer) (h : Headers) : Except Failure Headers :=
  match s.credential? with
  | none => .error .invalidHeaderValue
  | some value => .ok (h.insert .authorization { value with sensitive := true })

end Courier.Api.Signer
