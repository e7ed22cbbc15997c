import Mathlib.Algebra.Group.Nat.Defs
import Meridian.Bpf.Types
import Meridian.Wire

/-! Flow events in the agent (`internal/agent/telemetry`): the decoded form of a record of the kernel's ring buffer. -/

namespace Meridian.Telemetry
open Lib Bpf

def verdictAllow : UInt8 := 0
def verdictDeny : UInt8 := 1
/-- A flow as its packets name it: addresses in their order on the wire, ports in host order. -/
structure Flow where
  srcIP : Quad
  dstIP : Quad
  srcPort : UInt16
  dstPort : UInt16
  proto : UInt8
  deriving DecidableEq, Repr

/-- The timestamp is in nanoseconds since 1970, none for the zero time. -/
structure Event where
  timestamp : Option Int
  monotonicNs : UInt64
  srcIP : Quad
  dstIP : Quad
  srcPort : UInt16
  dstPort : UInt16
  proto : UInt8
  verdict : UInt8
  srcIdentity : UInt32
  dstIdentity : UInt32
  bytes : UInt32
  latencyNs : UInt64
  l7StatusCode : UInt16
  deriving DecidableEq, Repr

def Event.flow (e : Event) : Flow := ⟨e.srcIP, e.dstIP, e.srcPort, e.dstPort, e.proto⟩

/-- The sum is one of 64-bit integers. -/
def wallClock (monotonicNs : UInt64) (bootOffsetNs : Int) : Option Int :=
  if monotonicNs = 0 then none else some (Int.bmod (monotonicNs.toNat + bootOffsetNs) (2 ^ 64))

def ntohs (netOrder : UInt16) : UInt16 := swapU16 netOrder

def ipFromBE32 (be : UInt32) : Quad := .littleEndian be

/-- The programs submit records without latency and status. -/
def fromWire (bootNs : Int) (w : FlowEvent) : Event where
  timestamp := wallClock w.timestampNs bootNs
  monotonicNs := w.timestampNs
  srcIP := ipFromBE32 w.srcIp
  dstIP := ipFromBE32 w.dstIp
  srcPort := ntohs w.srcPort
  dstPort := ntohs w.dstPort
  proto := w.proto
  verdict := w.verdict
  srcIdentity := w.srcIdentity
  dstIdentity := w.dstIdentity
  bytes := w.bytes
  latencyNs := 0
  l7StatusCode := 0

end Meridian.Telemetry
