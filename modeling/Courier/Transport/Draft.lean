import Courier.Json.Printer
import Courier.Transport

/-!
# Drafts

A request in the making. Whatever is wrong with a header is kept until the draft is finished, and
the first fault counts. A finished draft has an absolute URL that the security allows.
-/
namespace Courier

structure Draft where
  method : Method
  url : String
  headers : List (HeaderName × HeaderValue) := []
  body : Bytes := []
  /-- The body is a document. -/
  json : Bool := false
  /-- What is wrong with a header. -/
  fault : Option Failure := none

namespace Draft

def header (d : Draft) (name value : String) : Draft :=
  match d.fault with
  | some _ => d
  | none =>
    match HeaderName.parse? name, HeaderValue.ofText? value with
    | some n, some v => { d with headers := d.headers ++ [(n, v)] }
    | none, _ => { d with fault := some .invalidHeaderName }
    | some _, none => { d with fault := some .invalidHeaderValue }

/-- Add a header that is known to be good. -/
def typedHeader (d : Draft) (name : HeaderName) (value : HeaderValue) : Draft :=
  { d with headers := d.headers ++ [(name, value)] }

/-- Make a document the body, unless something is wrong already. -/
def withJson (d : Draft) (document : Json) : Except Failure Draft :=
  match d.fault with
  | some e => .error e
  | none => .ok { d with body := Utf8.encode document.text, json := true }

def withBody (d : Draft) (bytes : Bytes) : Draft := { d with body := bytes, json := false }

/-- The URL of a draft: it has to be one, to name a host, and to have a scheme that is allowed. -/
def checkUrl (security : Security) (url : String) : Except Failure Uri :=
  match Uri.parse url with
  | .error e => .error (.invalidUri url .parseError e.message)
  | .ok uri =>
    if uri.authority.isNone then
      .error (.invalidUri url .missingAuthority "missing host/authority")
    else
      match uri.scheme, security with
      | some "https", _ => .ok uri
      | some "http", .allowInsecureHttp => .ok uri
      | some "http", .tlsOnly =>
        .error (.invalidScheme "http" "HTTPS required (transport security is TlsOnly)")
      | some scheme, _ =>
        .error (.invalidScheme scheme "only http:// and https:// schemes are supported")
      | none, _ => .error (.invalidUri url .missingScheme "missing scheme")

/-- The headers of the request: for a document without a content type, that of documents, and then
all that were added, in order. -/
def finalHeaders (d : Draft) : Headers :=
  let typed := d.headers.any fun h => h.1 = .contentType
  ⟨(if d.json && !typed then [(.contentType, .json)] else []) ++ d.headers⟩

def build (d : Draft) (security : Security) : Except Failure Request :=
  match d.fault with
  | some e => .error e
  | none =>
    match checkUrl security d.url with
    | .error e => .error e
    | .ok uri => .ok ⟨d.method, uri, .http11, d.finalHeaders, d.body⟩

end Draft

namespace Transport

variable {σ : Type}

def finish (t : Transport σ) (d : Draft) : Except Failure Request := d.build t.security

/-- Finish a draft and send it. A draft that cannot be finished leaves the transport alone. -/
def sendDraft (t : Transport σ) (d : Draft) : Except Failure Reply × Transport σ :=
  match t.finish d with
  | .error e => (.error e, t)
  | .ok r => t.send r

end Courier.Transport
