/-! The contracts shared by the control plane, the agent and the node proxy (`pkg/wire`). Actions,
    directions and flags are bytes, as on the wire: values outside the named ones exist and are
    refused by checks, not by the types. -/

namespace Meridian.Wire

abbrev IdentityID := UInt32

/-- The reserved identity: no mapping in `identity_map`. -/
def identityUnknown : IdentityID := 0

structure Identity where
  id : IdentityID
  podIPv4 : String
  spiffeID : String
  ns : String
  name : String
  deriving DecidableEq, Repr

abbrev Direction := UInt8

def directionIngress : Direction := 0
def directionEgress : Direction := 1

structure PolicyRuleKey where
  srcIdentity : IdentityID
  dstIdentity : IdentityID
  dstPort : UInt16
  protocol : UInt8
  direction : Direction
  deriving DecidableEq, Repr

abbrev PolicyAction := UInt8

def policyActionAllow : PolicyAction := 0
def policyActionDeny : PolicyAction := 1
def policyActionRedirectProxy : PolicyAction := 2

abbrev PolicyFlags := UInt8

def policyFlagSockmapEligible : PolicyFlags := 1
def policyFlagL7Required : PolicyFlags := 2
def policyFlagMTLSRequired : PolicyFlags := 4
def policyFlagAudit : PolicyFlags := 8

structure PolicyVerdict where
  action : PolicyAction
  flags : PolicyFlags
  deriving DecidableEq, Repr

structure PolicyRule where
  key : PolicyRuleKey
  verdict : PolicyVerdict
  deriving DecidableEq, Repr

/-- The desired state as one document. -/
structure PolicySnapshot where
  version : String
  identities : List Identity
  policies : List PolicyRule
  deriving DecidableEq, Repr

/-- The part of the desired state that the node proxy reads. -/
structure ProxyPolicySnapshot where
  version : String
  policies : List PolicyRule
  deriving DecidableEq, Repr

structure HeaderMatcher where
  name : String
  value : List UInt8
  exact : Bool
  deriving DecidableEq, Repr

/-- One HTTP rule; empty fields match every request. -/
structure CompiledL7Rule where
  method : String
  pathExact : List UInt8
  pathPrefix : List UInt8
  headers : List HeaderMatcher
  verdict : PolicyVerdict
  deriving DecidableEq, Repr

structure L7PolicySnapshot where
  version : String
  rules : List CompiledL7Rule
  deriving DecidableEq, Repr

/-- The staged update that the datapath writer applies to the kernel maps. -/
structure CommitPlan where
  identityUpserts : List Identity
  identityDeletes : List IdentityID
  policyUpserts : List PolicyRule
  policyDeletes : List PolicyRuleKey
  deriving DecidableEq, Repr

/-- A rule of a declarative policy: it stands for every combination of its selectors' entries, with
    source and destination identities given by SPIFFE name. -/
structure PolicyRuleSelector where
  name : String
  sources : List String
  destinations : List String
  ports : List UInt16
  protocols : List UInt8
  directions : List Direction
  verdict : PolicyVerdict
  deriving DecidableEq, Repr

structure Policy where
  name : String
  rules : List PolicyRuleSelector
  deriving DecidableEq, Repr

structure PolicySpec where
  policies : List Policy
  deriving DecidableEq, Repr

end Meridian.Wire
