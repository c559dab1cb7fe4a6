import Courier.Network
import Courier.Transport

/-!
# Building transports

A configuration says how a transport behaves; a builder adds the authorization. What a transport is
built on is either a bare connection, given or made, which gets the whole chain, or a finished
transport, which is handed back as it is, so that no chain ever stands on top of another one.
-/
namespace Courier

inductive TlsRoots where
  | webPki
  | native
deriving DecidableEq, Repr

inductive TlsVerification where
  | verify
  | skip
deriving DecidableEq, Repr

/-- Whether and where attempts are traced. Tracing needs a sink. -/
structure TraceConfig where
  enabled : Bool := false
  redact : Bool := true
  sink : Option Sink := none
deriving DecidableEq, Repr

/-- Trace into a sink, without credentials. -/
def TraceConfig.to (sink : Sink) : TraceConfig := ⟨true, true, some sink⟩

/-- The tracer of a configuration, if it traces. -/
def TraceConfig.tracer? (c : TraceConfig) : Except Failure (Option Tracer) :=
  if c.enabled then
    match c.sink with
    | none => .error .missingTraceSink
    | some sink => .ok (some { sink := sink })
  else .ok none

namespace RetryPolicy

def disabled : RetryPolicy := { maxRetries := 0 }

def fast : RetryPolicy := ⟨3, Duration.ofMillis 1⟩

end RetryPolicy

structure TransportConfig where
  /-- How long one attempt may take. -/
  timeout : Duration := Duration.ofSecs 30
  userAgent : String := "cloudsdk-rs/0.2.8"
  retry : RetryPolicy := {}
  maxBodySize : Nat := 10485760
  security : Security := .tlsOnly
  tlsRoots : TlsRoots := .webPki
  tlsVerification : TlsVerification := .verify
  trace : TraceConfig := {}
  /-- How many requests may wait for admission; the others wait in front of them. -/
  bufferCapacity : Nat := 1024
  poolIdleTimeout : Option Duration := some (Duration.ofSecs 90)
  poolMaxIdlePerHost : Nat := 32
deriving DecidableEq, Repr

/-- Small limits, no repetition, and plain URLs allowed. -/
def TransportConfig.forTesting : TransportConfig where
  timeout := Duration.ofSecs 10
  retry := .disabled
  maxBodySize := 1048576
  security := .allowInsecureHttp
  bufferCapacity := 256
  poolIdleTimeout := some (Duration.ofSecs 10)
  poolMaxIdlePerHost := 4

inductive Ground (σ : Type) where
  /-- A connection and its state. -/
  | bare (connection : Connection σ) (wire : σ)
  /-- No connection is given, so that one is made for the configuration, if that can be done. What
  makes it is not part of this library: nothing is assumed of it, and what stands here by default is
  that of a machine without a network. -/
  | unsupplied (wire : σ)
      (make : TransportConfig → Except Failure (Connection σ) := fun _ => .ok Network.connection)
  /-- A finished transport. -/
  | decorated (t : Transport σ)

/-- A configuration with what a transport needs beyond it. -/
structure Builder where
  config : TransportConfig := {}
  /-- Adds proof of who is asking. As in a chain, a function of the headers and nothing more. -/
  authorize : Headers → Except Failure Headers := .ok
  brotli : Compression.Decoder := .absent
  /-- What the journal says of the choices made so far. -/
  journal : List Event := []

namespace Builder

variable {σ : Type}

def allowInsecureHttp (b : Builder) : Builder :=
  { b with
    config := { b.config with security := .allowInsecureHttp }
    journal := b.journal ++
      [⟨.warn, "allow_insecure_http() called - HTTP traffic will NOT be encrypted", []⟩] }

def alreadyDecorated : Event :=
  ⟨.debug, "connection already decorated; returning it unchanged", []⟩

def unverified : Event :=
  ⟨.warn, "TLS certificate verification disabled; any server certificate is accepted", []⟩

def insecure : Event :=
  ⟨.warn, "insecure HTTP enabled (TransportSecurity::AllowInsecureHttp); " ++
    "use only for testing with mock servers", []⟩

/-- The tracing of the chain under a tracer. -/
def tracing (b : Builder) : Option Tracer → Tracing
  | none => .off
  | some _ => .on b.config.trace.redact

/-- What the journal says while a chain is put on a connection. -/
def warnings (b : Builder) : List Event :=
  if b.config.security = .allowInsecureHttp then [insecure] else []

/-- Put the chain on a connection. The identity has to be one that can be sent. -/
def decorate (b : Builder) (tracer : Option Tracer) (connection : Connection σ) (wire : σ) :
    Except Failure (Transport σ) :=
  match Identity.ofText? b.config.userAgent with
  | none => .error .invalidHeaderValue
  | some identity =>
    .ok {
      chain := {
        identity := identity
        timeout := b.config.timeout
        retry := b.config.retry
        authorize := b.authorize
        tracing := b.tracing tracer
        maxBodySize := b.config.maxBodySize
        brotli := b.brotli }
      security := b.config.security
      capacity := b.config.bufferCapacity
      connection := connection
      wire := wire
      tracer := tracer }

/-- What the journal says while a connection is made. -/
def connectionWarnings (b : Builder) : List Event :=
  if b.config.tlsVerification = .skip then [unverified] else []

/-- Build a transport; also what the journal says of it. -/
def build (b : Builder) (ground : Ground σ) : Except Failure (Transport σ) × List Event :=
  match b.config.trace.tracer? with
  | .error e => (.error e, b.journal)
  | .ok tracer =>
    match ground with
    | .decorated t => (.ok t, b.journal ++ [alreadyDecorated])
    | .bare connection wire => (b.decorate tracer connection wire, b.journal ++ b.warnings)
    | .unsupplied wire make =>
      match make b.config with
      | .error e => (.error e, b.journal ++ b.connectionWarnings)
      | .ok connection =>
        (b.decorate tracer connection wire, b.journal ++ b.connectionWarnings ++ b.warnings)

end Courier.Builder
