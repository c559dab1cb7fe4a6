import Courier.Api.ApiError
import Courier.Api.Config
import Courier.Api.Router
import Courier.Transport.Draft

/-!
# Clients

A client renders an operation, routes it and sends it over its transport. Every request asks for a
document.
-/
namespace Courier.Api

structure Client (σ : Type) where
  transport : Transport σ
  router : Router

namespace Client

variable {σ : Type}

def readyEvent (origin : String) (region : Option Region) : Event :=
  ⟨.debug, "api client ready", [("origin", origin), ("region", (region.map (·.id)).getD "")]⟩

/-- Build a client; also what the journal says of it. -/
def build (c : ApiConfig) (ground : Ground σ) : Except ConfigError (Client σ) × List Event :=
  match c.check with
  | .error e => (.error e, [])
  | .ok (origin, signer) =>
    match (c.builder signer).build ground with
    | (.error e, events) => (.error (.transport e), events)
    | (.ok t, events) =>
      (.ok ⟨t, Router.ofOrigin origin c.region⟩, events ++ [readyEvent origin c.region])

def testConfig (region : Option Region) : ApiConfig where
  host := "https://mock.cloudsdk.invalid"
  region := region
  signer := some (.apiKey "dummy")
  transport := .forTesting

def forTesting (ground : Ground σ) (region : Option Region) :
    Except ConfigError (Client σ) × List Event :=
  build (testConfig region) ground

def requestEvent (op : Operation) (url : String) : Event :=
  ⟨.trace, "api request", [("method", op.method.text), ("url", url)]⟩

/-- The client after something happened on its transport. -/
def after {α : Type} (c : Client σ) (result : α × Transport σ) : α × Client σ :=
  (result.1, { c with transport := result.2 })

def request (c : Client σ) (op : Operation) : Except OperationError Draft × Client σ :=
  match op.render with
  | .error e => (.error e, c)
  | .ok path =>
    let url := (c.router.route op).url path
    let draft : Draft := { method := op.method, url := url }
    (.ok (draft.typedHeader .accept .json),
      { c with transport := c.transport.noting [requestEvent op url] })

/-- Send the request of an operation after it has been prepared. -/
def sendWith (prepare : Draft → Except Failure Draft) (c : Client σ) (op : Operation) :
    Except ApiError Reply × Client σ :=
  match c.request op with
  | (.error e, asked) => (.error (.ofOperation e), asked)
  | (.ok draft, asked) =>
    match prepare draft with
    | .error e => (.error (.ofFailure e), asked)
    | .ok prepared =>
      let (outcome, sent) := asked.after (asked.transport.sendDraft prepared)
      (outcome.mapError ApiError.ofFailure, sent)

/-- Send an operation without a body. Any status is an answer. -/
def send (c : Client σ) (op : Operation) : Except ApiError Reply × Client σ :=
  sendWith .ok c op

def document (result : Except ApiError Reply) : Except ApiError Json :=
  result.bind fun reply => reply.json.mapError ApiError.ofFailure

/-- Send an operation without a body and answer the document that comes back. -/
def execute (c : Client σ) (op : Operation) : Except ApiError Json × Client σ :=
  let (result, sent) := c.send op
  (document result, sent)

/-- Send an operation with a document and answer the document that comes back. -/
def executeJson (c : Client σ) (op : Operation) (body : Json) : Except ApiError Json × Client σ :=
  let (result, sent) := sendWith (·.withJson body) c op
  (document result, sent)

end Courier.Api.Client
