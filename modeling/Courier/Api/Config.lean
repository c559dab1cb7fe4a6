import Courier.Api.Region
import Courier.Api.Signer
import Courier.Http.Uri
import Courier.Transport.Config

/-!
# Configuring clients

A client needs a host to talk to and a signer. The host is an absolute URL without path and query;
a slash at its end is dropped.
-/
namespace Courier.Api

/-- Why a host cannot be talked to. -/
inductive HostFault where
  | unreadable (e : UriError)
  | foreignScheme
  | missingScheme
  | missingHost
  | pathOrQuery
deriving DecidableEq

def HostFault.message : HostFault → String
  | .unreadable e => e.message
  | .foreignScheme => "scheme must be http or https"
  | .missingScheme => "missing scheme"
  | .missingHost => "missing host"
  | .pathOrQuery => "must not contain a path or query"

inductive ConfigError where
  | missingHost
  | invalidHost (host : String) (fault : HostFault)
  | invalidRegion (region : String) (fault : RegionFault)
  | missingSigner
  | transport (f : Failure)

def ConfigError.message : ConfigError → String
  | .missingHost => "api host is required"
  | .invalidHost host fault => "invalid api host '" ++ host ++ "': " ++ fault.message
  | .invalidRegion region fault => "invalid region '" ++ region ++ "': " ++ fault.message
  | .missingSigner => "a request signer is required"
  | .transport f => f.message

structure ApiConfig where
  host : String
  region : Option Region := none
  signer : Option Signer := none
  transport : TransportConfig := {}
  brotli : Compression.Decoder := .absent

namespace ApiConfig

def hostFault (host : String) : Option HostFault :=
  match Uri.parse host with
  | .error e => some (.unreadable e)
  | .ok uri =>
    match uri.scheme with
    | none => some .missingScheme
    | some scheme =>
      if scheme ≠ "https" ∧ scheme ≠ "http" then some .foreignScheme
      else if uri.authority.isNone then some .missingHost
      else if (uri.path ≠ "" ∧ uri.path ≠ "/") ∨ uri.query?.isSome then some .pathOrQuery
      else none

/-- The origin of a configuration: its host without blanks around it and slashes at its end. -/
def origin (c : ApiConfig) : Except ConfigError String :=
  let host := Text.trim c.host
  if host.isEmpty then .error .missingHost
  else
    match hostFault host with
    | some fault => .error (.invalidHost c.host fault)
    | none => .ok (Text.dropSlashes host)

/-- The region with the given identifier, as configurations take it. -/
def regionOf (id : String) : Except ConfigError Region :=
  (Region.parse id).mapError (.invalidRegion id)

/-- The origin and the signer of a configuration. -/
def check (c : ApiConfig) : Except ConfigError (String × Signer) :=
  match c.origin with
  | .error e => .error e
  | .ok origin =>
    match c.signer with
    | none => .error .missingSigner
    | some signer => .ok (origin, signer)

def builder (c : ApiConfig) (signer : Signer) : Builder :=
  { config := c.transport, authorize := signer.sign, brotli := c.brotli }

end Courier.Api.ApiConfig
