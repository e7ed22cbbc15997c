import Meridian.Lib.Table
import Meridian.Lib.Text
import Meridian.Wire

/-! The table from SPIFFE IDs to identities in the node proxy (`internal/proxy/spiffe_resolver.go`). A SPIFFE ID is the
    bytes of its text, as it stands in a certificate. -/

namespace Meridian.Proxy
open Lib Wire

structure MapSpiffeIDResolver where
  byURI : Table (List UInt8) IdentityID
  byID : Table IdentityID (List UInt8)

namespace MapSpiffeIDResolver

def new : MapSpiffeIDResolver := ⟨fun _ => none, fun _ => none⟩

/-- One round of the loop of `Update`: an identity without a SPIFFE ID is left out, and a later one replaces an earlier
    one with the same SPIFFE ID. -/
def add (r : MapSpiffeIDResolver) (id : Identity) : MapSpiffeIDResolver :=
  if id.spiffeID ≠ "" then
    { byURI := Table.put r.byURI (utf8 id.spiffeID) id.id, byID := Table.put r.byID id.id (utf8 id.spiffeID) }
  else r

/-- The tables after `Update`. -/
def update (identities : List Identity) : MapSpiffeIDResolver := identities.foldl add new

def resolveSpiffeID (r : MapSpiffeIDResolver) (spiffeID : List UInt8) : Option IdentityID := r.byURI spiffeID

def lookupID (r : MapSpiffeIDResolver) (id : IdentityID) : Option (List UInt8) := r.byID id

end MapSpiffeIDResolver

end Meridian.Proxy
