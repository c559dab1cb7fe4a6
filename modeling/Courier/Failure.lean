import Courier.Duration
import Courier.Envelope
import Courier.Replay.Mismatch

/-!
# Failures

Why a request brought no usable answer. A failure may have a cause, and a cause a source of its
own, so that behind each failure stands a chain. `isTimeout` is decided by the constructors of
the chain alone, never by its messages.
-/
namespace Courier

inductive IoKind where
  | timedOut
  | connectionRefused
  | connectionReset
  | brokenPipe
  | wouldBlock
  | interrupted
  | unexpectedEof
  | other
deriving DecidableEq, Repr

def IoKind.message : IoKind → String
  | .timedOut => "timed out"
  | .connectionRefused => "connection refused"
  | .connectionReset => "connection reset"
  | .brokenPipe => "broken pipe"
  | .wouldBlock => "operation would block"
  | .interrupted => "operation interrupted"
  | .unexpectedEof => "unexpected end of file"
  | .other => "other error"

inductive ReplayError where
  /-- No entry was programmed for the call at this position. -/
  | exhausted (method : Method) (url : String) (index : Nat)
  /-- The request is not the one expected at this position. -/
  | assertionFailed (index : Nat) (mismatch : Replay.Mismatch)
  /-- A programmed failure. -/
  | custom (text : String)

def ReplayError.message : ReplayError → String
  | .exhausted method url index =>
    "mock transport exhausted: no response #" ++ toString index ++ " for " ++ method.text ++ " " ++
      url
  | .assertionFailed index mismatch =>
    "request #" ++ toString index ++ " did not match expectation: " ++ mismatch.message
  | .custom text => text

/-- What a URL lacks. -/
inductive InvalidUri where
  | parseError
  | missingAuthority
  | missingScheme
deriving DecidableEq, Repr

mutual
/-- An error below a failure. -/
inductive Cause where
  /-- An error that is only a message. -/
  | plain (message : String)
  /-- An error with a source. -/
  | wrapped (message : String) (source : Cause)
  /-- Failed input or output. -/
  | io (kind : IoKind)
  /-- Failed input or output with a message of its own. -/
  | ioMessage (kind : IoKind) (message : String)
  /-- Failed input or output that stands for another error: it shows that error's message and has
  that error's source. -/
  | ioWrapping (kind : IoKind) (inner : Cause)
  /-- A failure below another one. -/
  | failure (f : Failure)
  | replay (e : ReplayError)

/-- Why a request brought no usable answer. -/
inductive Failure where
  | requestBuild
  | invalidHeaderName
  | invalidHeaderValue
  /-- An attempt was not answered within the limit. -/
  | timeout (limit : Duration)
  /-- The connection failed, or a body could not be read to its end. -/
  | transport (cause : Cause)
  | tls (cause : Cause)
  | bodyTooLarge (limit actual : Nat)
  /-- A status other than success, with the beginning of a body that is no envelope. -/
  | httpStatus (status : Status) (preview : String) (contentType : Option String)
  /-- A status other than success, with an envelope. -/
  | api (status : Status) (envelope : Envelope)
  /-- A document was expected, and there was none; with the error of its reader. -/
  | json (reader : Cause)
  | missingTraceSink
  /-- The worker that drives the chain has stopped. -/
  | serviceClosed
  | invalidUri (url : String) (kind : InvalidUri) (reason : String)
  | invalidScheme (scheme reason : String)
end

instance : Inhabited Failure := ⟨.serviceClosed⟩

/-- A message is an error without a source. -/
instance : Coe String Cause := ⟨.plain⟩

mutual
def Cause.message : Cause → String
  | .plain m => m
  | .wrapped m _ => m
  | .io k => k.message
  | .ioMessage _ m => m
  | .ioWrapping _ inner => inner.message
  | .failure f => f.message
  | .replay e => e.message

def Failure.message : Failure → String
  | .requestBuild => "Failed to build request: invalid HTTP method"
  | .invalidHeaderName => "Invalid header name: invalid HTTP header name"
  | .invalidHeaderValue => "Invalid header value: failed to parse header value"
  | .timeout limit => "Request attempt timed out after " ++ limit.text
  | .transport c => "Transport error: " ++ c.message
  | .tls c => "TLS error: " ++ c.message
  | .bodyTooLarge limit actual =>
    "Response body too large: limit " ++ toString limit ++ " bytes, got " ++ toString actual ++
      " bytes"
  | .httpStatus status preview _ => "HTTP " ++ status.text ++ ": " ++ preview
  | .api status envelope => "HTTP " ++ status.text ++ ": " ++ envelope.text
  | .json reader => "JSON parsing failed: " ++ reader.message
  | .missingTraceSink => "verbose tracing requested but no trace sink was provided"
  | .serviceClosed => "Service unavailable: internal failure"
  | .invalidUri url _ reason => "Invalid URL '" ++ url ++ "': " ++ reason
  | .invalidScheme scheme reason =>
    "URL scheme '" ++ scheme ++ "' not allowed: " ++ reason
end

mutual
/-- The sources of a cause, nearest first. -/
def Cause.sources : Cause → List Cause
  | .plain _ => []
  | .wrapped _ source => source :: source.sources
  | .io _ => []
  | .ioMessage _ _ => []
  | .ioWrapping _ inner => inner.sources
  | .failure f => f.sources
  | .replay _ => []

/-- The sources of a failure, nearest first. -/
def Failure.sources : Failure → List Cause
  | .requestBuild => [.plain "invalid HTTP method"]
  | .invalidHeaderName => [.plain "invalid HTTP header name"]
  | .invalidHeaderValue => [.plain "failed to parse header value"]
  | .transport c => c :: c.sources
  | .tls c => c :: c.sources
  | .json reader => reader :: reader.sources
  | .timeout _ => []
  | .bodyTooLarge _ _ => []
  | .httpStatus _ _ _ => []
  | .api _ _ => []
  | .missingTraceSink => []
  | .serviceClosed => []
  | .invalidUri _ _ _ => []
  | .invalidScheme _ _ => []
end

mutual
/-- The cause, or a source of it, is a timeout. -/
def Cause.reachesTimeout : Cause → Bool
  | .plain _ => false
  | .wrapped _ source => source.reachesTimeout
  | .io k => k == .timedOut
  | .ioMessage k _ => k == .timedOut
  | .ioWrapping k inner => k == .timedOut || inner.sourceReachesTimeout
  | .failure f => f.isTimeout || f.sourceReachesTimeout
  | .replay _ => false

/-- A source of the cause is a timeout. -/
def Cause.sourceReachesTimeout : Cause → Bool
  | .plain _ => false
  | .wrapped _ source => source.reachesTimeout
  | .io _ => false
  | .ioMessage _ _ => false
  | .ioWrapping _ inner => inner.sourceReachesTimeout
  | .failure f => f.sourceReachesTimeout
  | .replay _ => false

/-- A source of the failure is a timeout. -/
def Failure.sourceReachesTimeout : Failure → Bool
  | .transport c => c.reachesTimeout
  | .tls c => c.reachesTimeout
  | .json reader => reader.reachesTimeout
  | _ => false

/-- The failure is a timeout: a limit was exceeded, or the connection failed and its cause
reaches a timeout. -/
def Failure.isTimeout : Failure → Bool
  | .timeout _ => true
  | .transport c => c.reachesTimeout
  | _ => false
end

end Courier
