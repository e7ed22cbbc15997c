import Meridian.Lib.Bytes
import Meridian.Lib.Table

/-! The types, constants and maps that the BPF programs share (`meridian_types.h`,
    `meridian_consts.h`, `meridian_maps.h`). The target is little-endian. Explicit padding is always
    zero and is left out of the structures. -/

namespace Meridian.Bpf
open Lib

/-! ### Constants -/

inductive TcAct where
  | ok
  | shot
  | stolen
  deriving DecidableEq, Repr

def ethPIp : UInt16 := 0x0800
def ethP8021q : UInt16 := 0x8100
def vlanInnerHdrBytes : Nat := 4

def ipprotoTcp : UInt8 := 6
def ipprotoUdp : UInt8 := 17

/-- Bit 0 of `runtime_config_map[0]`. -/
def meridianCfgFallopenUnknown : UInt32 := 1

def meridianGeneveUdpPort : UInt16 := 6081
def meridianGeneveClass : UInt16 := 0x4d52
def meridianOptIdentity : UInt8 := 1
def meridianGeneveOptBytes : Nat := 8
def meridianGeneveOptWords : Nat := 2
def meridianGeneveIdentityLenWords : Nat := 1
def meridianMaxGeneveOpts : Nat := 4
def meridianMaxGeneveOptWords : Nat := meridianMaxGeneveOpts * meridianGeneveOptWords
def meridianStripMaxLen : Nat := 256
def meridianMarkRedirectPlaceholder : UInt32 := 1

def ipv4IhlMin : Nat := 5
def ipv4IhlMax : Nat := 15
def ipv4WordBytes : Nat := 4
def l4PortsBytes : Nat := 4

def sizeofEthhdr : Nat := 14
def sizeofIphdr : Nat := 20
def sizeofUdphdr : Nat := 8

def bpfHtons (x : UInt16) : UInt16 := swapU16 x
def bpfNtohs (x : UInt16) : UInt16 := swapU16 x
def bpfHtonl (x : UInt32) : UInt32 := swapU32 x
def bpfNtohl (x : UInt32) : UInt32 := swapU32 x

/-! ### Map keys and values -/

/-- `enum flow_verdict`, as the byte that a policy verdict carries. -/
def flowVerdictAllow : UInt8 := 0
def flowVerdictDeny : UInt8 := 1
def flowVerdictRedirect : UInt8 := 2

def policyDirIngress : UInt8 := 0
def policyDirEgress : UInt8 := 1

structure PolicyKey where
  srcId : UInt32
  dstId : UInt32
  dstPort : UInt16
  proto : UInt8
  direction : UInt8
  deriving DecidableEq, Repr

structure PolicyVerdict where
  action : UInt8
  flags : UInt8
  deriving DecidableEq, Repr

def policyFlagSockmapEligible : UInt8 := 1
def policyFlagL7Required : UInt8 := 2
def policyFlagMtlsRequired : UInt8 := 4

/-- Addresses and ports as loaded from the packet, in network order. -/
structure FlowKey where
  srcIp : UInt32
  dstIp : UInt32
  srcPort : UInt16
  dstPort : UInt16
  proto : UInt8
  deriving DecidableEq, Repr

inductive DropReason where
  | policyDeny
  | policyMiss
  | unknownIdentity
  | invalidAction
  | geneveEncapFail
  deriving DecidableEq, Repr

structure DenyInfo where
  lastNs : UInt64
  count : UInt32
  reason : DropReason
  deriving DecidableEq, Repr

structure FlowEvent where
  timestampNs : UInt64
  srcIp : UInt32
  dstIp : UInt32
  srcPort : UInt16
  dstPort : UInt16
  proto : UInt8
  verdict : UInt8
  srcIdentity : UInt32
  dstIdentity : UInt32
  bytes : UInt32
  deriving DecidableEq, Repr

inductive MetricId where
  | packetsTotal
  | ringbufDropped
  | bytesTotal
  | flowsAllowed
  | flowsDenied
  | flowsRedirected
  | geneveEncapFail
  | geneveDecodeFail
  deriving DecidableEq, Repr

/-- The maps of one node. `metrics_map` is the sum over the CPUs; the two LRU maps are unbounded;
    `flowEvents` is what was submitted to the ring, oldest first. -/
structure Maps where
  identityMap : Table UInt32 UInt32
  policyMap : Table PolicyKey PolicyVerdict
  runtimeConfigMap : Option UInt32
  metricsMap : MetricId → UInt64
  deniedFlowsMap : Table FlowKey DenyInfo
  udpSeenFlowsMap : Table FlowKey UInt8
  flowEvents : List FlowEvent

def Maps.fresh (identityMap : Table UInt32 UInt32) (policyMap : Table PolicyKey PolicyVerdict)
    (runtimeConfigMap : Option UInt32) : Maps where
  identityMap := identityMap
  policyMap := policyMap
  runtimeConfigMap := runtimeConfigMap
  metricsMap := fun _ => 0
  deniedFlowsMap := fun _ => none
  udpSeenFlowsMap := fun _ => none
  flowEvents := []

end Meridian.Bpf
