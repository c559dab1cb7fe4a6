import Courier.Http.MediaType
import Courier.Http.Message
import Courier.Journal

/-!
# Pages of intermediaries

Proxies and load balancers answer with HTML pages where the service would answer with an envelope.
Such a page, whatever its status and content, is replaced by an envelope that tells the status and
the request it answered.
-/
namespace Courier.ProxyPage

/-- The response that stands in for a page. -/
def replacement (r : Request) (page : Response) : Response :=
  let body := (Envelope.forProxyPage page.status r.method r.uri.path).encode
  { page with
    headers := (page.headers.insert .contentType .json).insert .contentLength
      (HeaderValue.ofNat body.length)
    body := Body.full body }

def event (r : Request) (page : Response) : Event :=
  ⟨.debug, "Replaced HTML error page with error envelope",
    [("status", toString page.status.code), ("method", r.method.text), ("path", r.uri.path)]⟩

/-- Replace the answer to a request if it is a page. -/
def normalize (r : Request) :
    Except Failure Response → Except Failure Response × List Event
  | .error e => (.error e, [])
  | .ok response =>
    if response.headers.isHtml then (.ok (replacement r response), [event r response])
    else (.ok response, [])

end Courier.ProxyPage
