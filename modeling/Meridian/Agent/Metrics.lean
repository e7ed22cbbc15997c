import Mathlib.Data.List.AList
import Meridian.Agent.Telemetry
import Meridian.Control.Compiler

/-! The exporter of denied flows (`internal/agent/metrics`): every entry of `denied_flows_map` becomes a counter whose
    labels are the names of its two identities, its destination port, its protocol and its reason. -/

namespace Meridian.Metrics
open Lib Bpf Wire

def unknownLabelValue : String := "unknown"

/-- The value of an entry; the reason is any number. -/
structure DeniedFlowInfo where
  lastNs : UInt64
  count : UInt32
  reason : UInt32
  deriving DecidableEq, Repr

structure DeniedFlow where
  srcIP : Quad
  dstIP : Quad
  srcPort : UInt16
  dstPort : UInt16
  proto : UInt8
  count : UInt32
  reason : UInt32
  lastNs : UInt64
  srcIdentity : String
  dstIdentity : String
  deriving DecidableEq, Repr

def DeniedFlow.flow (f : DeniedFlow) : Telemetry.Flow := ⟨f.srcIP, f.dstIP, f.srcPort, f.dstPort, f.proto⟩

/-- `Resolve`: an error, a miss, or the identity. -/
inductive Resolution where
  | failed
  | missing
  | found (identity : Identity)
  deriving DecidableEq, Repr

abbrev Resolver := IdentityID → Resolution

/-- Maps that were not opened and a missing resolver are nil. -/
structure MapDeniedReader where
  deniedMap : Option (AList fun _ : FlowKey => DeniedFlowInfo)
  identityMap : Option (Table UInt32 UInt32)
  resolver : Option Resolver

inductive ReadError where
  | nilMap
  | iterate
  deriving DecidableEq, Repr

/-! ### Fields -/

def lookupIdentityID (m : Option (Table UInt32 UInt32)) (ipv4NetworkOrder : UInt32) : IdentityID × Bool :=
  match m with
  | none => (0, false)
  | some m =>
    match m ipv4NetworkOrder with
    | none => (0, false)
    | some id => (id, true)

def resolveSpiffeLabel (resolver : Option Resolver) (id : IdentityID) : String :=
  match resolver with
  | none => unknownLabelValue
  | some resolve =>
    if id = identityUnknown then unknownLabelValue
    else
      match resolve id with
      | .failed | .missing => unknownLabelValue
      | .found identity => if Compiler.isBlank identity.spiffeID then unknownLabelValue else identity.spiffeID

def ipv4FromNetwork (raw : UInt32) : Quad := .bigEndian raw

/-- The two bytes of the port in memory, read in network order. -/
def hostPortFromFlowKey (port : UInt16) : UInt16 := swapU16 port

def protocolLabel (proto : UInt8) : String :=
  if proto = 6 then "tcp" else if proto = 17 then "udp" else decimal proto.toNat

def dropReasonLabel (reason : UInt32) : String :=
  if reason = 1 then "policy_deny"
  else if reason = 2 then "policy_miss"
  else if reason = 3 then "unknown_identity"
  else if reason = 4 then "invalid_action"
  else if reason = 5 then "geneve_encap_fail"
  else "unspecified"

/-! ### Reading and collecting -/

namespace MapDeniedReader

def deniedFlow (r : MapDeniedReader) (key : FlowKey) (value : DeniedFlowInfo) : DeniedFlow where
  srcIP := ipv4FromNetwork key.srcIp
  dstIP := ipv4FromNetwork key.dstIp
  srcPort := hostPortFromFlowKey key.srcPort
  dstPort := hostPortFromFlowKey key.dstPort
  proto := key.proto
  count := value.count
  reason := value.reason
  lastNs := value.lastNs
  srcIdentity := resolveSpiffeLabel r.resolver (lookupIdentityID r.identityMap key.srcIp).1
  dstIdentity := resolveSpiffeLabel r.resolver (lookupIdentityID r.identityMap key.dstIp).1

/-- `aborted` is an iteration that ends with an error. -/
def readAll (r : MapDeniedReader) (aborted : Bool) : Except ReadError (List DeniedFlow) :=
  match r.deniedMap with
  | none => .error .nilMap
  | some deniedMap =>
    if aborted then .error .iterate else .ok (deniedMap.entries.map fun x => r.deniedFlow x.1 x.2)

end MapDeniedReader

structure Labels where
  srcIdentity : String
  dstIdentity : String
  dstPort : String
  protocol : String
  reason : String
  deriving DecidableEq, Repr

/-- What a collector sends; counts are exact in the format of the values. -/
inductive Metric where
  | invalid (err : ReadError)
  | counter (value : Nat) (labels : Labels)
  deriving DecidableEq, Repr

def flowLabels (flow : DeniedFlow) : Labels :=
  ⟨flow.srcIdentity, flow.dstIdentity, decimal flow.dstPort.toNat, protocolLabel flow.proto, dropReasonLabel flow.reason⟩

/-- `Collect` of the collector with this reader, none if it has no reader. -/
def collect (reader : Option MapDeniedReader) (aborted : Bool) : List Metric :=
  match reader with
  | none => []
  | some r =>
    match r.readAll aborted with
    | .error err => [.invalid err]
    | .ok flows => flows.map fun flow => .counter flow.count.toNat (flowLabels flow)

end Meridian.Metrics
