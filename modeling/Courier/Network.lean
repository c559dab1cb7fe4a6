import Courier.Connection

/-!
# Connections to nowhere

What stands in for the connection that is made for a transport that was given none, on a machine
without a network: a request fails before anything is sent, because its URL names no host or because
the host cannot be reached.
-/
namespace Courier.Network

def failure (r : Request) : Failure :=
  match r.uri.authority with
  | none => .transport (.plain "client error (UserAbsoluteUriRequired)")
  | some _ => .transport (.plain "client error (Connect)")

/-- The connection on which every request fails. It has no state of its own. -/
def connection {σ : Type} : Connection σ where
  unready _ := none
  answer r wire := (⟨.none, .error (failure r)⟩, wire)

end Courier.Network
