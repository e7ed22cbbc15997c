import Meridian.Control.Store
import Meridian.Lib.Text

/-! The contents of the store in etcd (`internal/control/store/etcd.go`): keys, values and listings. The part that
    notifies watchers is the structure `Etcd`. -/

namespace Meridian.Store
open Lib Wire

/-- `encoding/json` for the two kinds of values, of which only the round trip is known. -/
structure Codec (V : Type) where
  marshalIdentity : Identity → V
  unmarshalIdentity : V → Option Identity
  marshalPolicy : PolicyRule → V
  unmarshalPolicy : V → Option PolicyRule
  unmarshal_identity : ∀ identity, unmarshalIdentity (marshalIdentity identity) = some identity
  unmarshal_policy : ∀ rule, unmarshalPolicy (marshalPolicy rule) = some rule

instance : Inhabited (Codec (Identity ⊕ PolicyRule)) where
  default :=
    { marshalIdentity := .inl
      unmarshalIdentity := Sum.getLeft?
      marshalPolicy := .inr
      unmarshalPolicy := Sum.getRight?
      unmarshal_identity := fun _ => rfl
      unmarshal_policy := fun _ => rfl }

def identityPrefix : String := "/meridian/identities/"

def policyPrefix : String := "/meridian/policies/"

def identityKey (id : IdentityID) : String := identityPrefix ++ decimal id.toNat

def policyKey (k : PolicyRuleKey) : String :=
  policyPrefix ++ decimal k.srcIdentity.toNat ++ "_" ++ decimal k.dstIdentity.toNat ++ "_" ++ decimal k.dstPort.toNat ++
    "_" ++ decimal k.protocol.toNat ++ "_" ++ decimal k.direction.toNat

/-- The keys of etcd with their values. -/
abbrev KeyValues (V : Type) := AList fun _ : String => V

inductive ListError where
  | unmarshalIdentity (key : String)
  | unmarshalPolicy (key : String)
  deriving DecidableEq, Repr

namespace KeyValues

variable {V : Type} (codec : Codec V)

def commit (kv : KeyValues V) : Mutation → KeyValues V
  | .putIdentity identity => AList.insert (identityKey identity.id) (codec.marshalIdentity identity) kv
  | .deleteIdentity id => AList.erase (identityKey id) kv
  | .putPolicy rule => AList.insert (policyKey rule.key) (codec.marshalPolicy rule) kv
  | .deletePolicy key => AList.erase (policyKey key) kv

/-- `Get` with `WithPrefix`, in one of the orders of the map. -/
def withPrefix (kv : KeyValues V) (start : String) : List (String × V) :=
  (kv.entries.filter fun x => start.toList.isPrefixOf x.1.toList).map fun x => (x.1, x.2)

def read {A : Type} (unmarshal : V → Option A) (err : String → ListError) (x : String × V) : Except ListError A :=
  match unmarshal x.2 with
  | none => .error (err x.1)
  | some a => .ok a

/-- The values under a common start of their keys; the first that is not understood ends the listing. -/
def list {A : Type} (kv : KeyValues V) (start : String) (unmarshal : V → Option A) (err : String → ListError) :
    Except ListError (List A) :=
  (kv.withPrefix start).mapM (read unmarshal err)

def listIdentities (kv : KeyValues V) : Except ListError (List Identity) :=
  kv.list identityPrefix codec.unmarshalIdentity .unmarshalIdentity

def listPolicies (kv : KeyValues V) : Except ListError (List PolicyRule) :=
  kv.list policyPrefix codec.unmarshalPolicy .unmarshalPolicy

end KeyValues

end Meridian.Store
