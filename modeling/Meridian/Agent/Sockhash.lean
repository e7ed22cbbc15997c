import Meridian.Agent.Datapath
import Meridian.Bpf.Sock

/-! The SOCKHASH map of a node over time: what the writer and the established connections do to it, and what the
    sockets of a host see of it. -/

namespace Meridian.Sockhash
open Lib Wire Bpf

/-! ### Ports

The kernel hands ports to the programs in two byte orders. -/

/-- A port in host order, as in `local_port`. -/
def hostPort (port : UInt16) : UInt32 := UInt32.ofNat port.toNat

/-- A port in network order in the upper half, as in `remote_port`. -/
def netPort (port : UInt16) : UInt32 := UInt32.ofNat ((bpfHtons port).toNat * 65536)

/-! ### From admission to insertion -/

section
variable {σ : Type}

/-- The maps of a node and the writer that fills them, with the sockets inserted so far. -/
structure GateState (σ : Type) where
  writer : Datapath.Writer
  sockhash : Table SockKey σ

/-- A batch of rules reaches the writer, policies are deleted, `identity_map` changes to any content, or a
    connection is established. -/
inductive GateEvent (σ : Type) where
  | upserts (rules : List PolicyRule) (fails : Nat → Bool)
  | deletes (keys : List PolicyRuleKey) (fails : Nat → Bool)
  | identities (identityMap : Table UInt32 UInt32)
  | established (ctx : BpfSockOps) (sk : σ) (updateFails : Bool)

def GateState.step (s : GateState σ) : GateEvent σ → GateState σ
  | .upserts rules fails => { s with writer := (Datapath.applyPolicyUpserts fails rules ⟨s.writer, 0⟩).2.writer }
  | .deletes keys fails => { s with writer := (Datapath.applyPolicyDeletes fails keys ⟨s.writer, 0⟩).2.writer }
  | .identities identityMap => { s with writer := { s.writer with identityMap } }
  | .established ctx sk updateFails =>
    { s with sockhash := meridianSockOps s.writer.identityMap s.writer.policyMap updateFails ctx sk s.sockhash }

def GateState.empty : GateState σ := ⟨Datapath.Writer.new (fun _ => none) fun _ => none, fun _ => none⟩

end

/-! ### Redirects -/

structure Endpoint where
  ip : UInt32
  port : UInt16
  deriving DecidableEq, Repr

structure Conn where
  client : Endpoint
  server : Endpoint
  deriving DecidableEq, Repr

structure Sock (ι : Type) where
  conn : ι
  active : Bool
  deriving DecidableEq, Repr

section
variable {ι : Type} (conns : ι → Conn)

def Sock.peer (sk : Sock ι) : Sock ι := { sk with active := !sk.active }

def Sock.localEnd (sk : Sock ι) : Endpoint := if sk.active then (conns sk.conn).client else (conns sk.conn).server

def Sock.remoteEnd (sk : Sock ι) : Endpoint := if sk.active then (conns sk.conn).server else (conns sk.conn).client

/-- What `meridian_sock_ops` sees when the connection is established at this end. -/
def Sock.opsCtx (sk : Sock ι) : BpfSockOps :=
  { family := afInet, op := if sk.active then bpfSockOpsActiveEstablishedCb else bpfSockOpsPassiveEstablishedCb,
    localIp4 := (sk.localEnd conns).ip, remoteIp4 := (sk.remoteEnd conns).ip,
    localPort := hostPort (sk.localEnd conns).port, remotePort := netPort (sk.remoteEnd conns).port }

def Sock.msg (sk : Sock ι) : SkMsgMd :=
  { family := afInet, remoteIp4 := (sk.remoteEnd conns).ip, remotePort := netPort (sk.remoteEnd conns).port }

structure HostState (ι : Type) where
  sockhash : Table SockKey (Sock ι)
  metrics : MetricId → UInt64

/-- An end of a connection is established while the maps hold anything, or a socket sends. -/
inductive HostEvent (ι : Type) where
  | established (sk : Sock ι) (identityMap : Table UInt32 UInt32) (policyMap : Table PolicyKey Bpf.PolicyVerdict)
      (updateFails : Bool)
  | send (sk : Sock ι)

def HostState.step (s : HostState ι) : HostEvent ι → HostState ι
  | .established sk identityMap policyMap updateFails =>
    { s with sockhash := meridianSockOps identityMap policyMap updateFails (sk.opsCtx conns) sk s.sockhash }
  | .send sk => { s with metrics := (meridianSkMsg s.sockhash s.metrics (sk.msg conns)).2.2 }

def HostState.start : HostState ι := ⟨fun _ => none, fun _ => 0⟩

def HostState.redirect (s : HostState ι) (sk : Sock ι) : Option (Sock ι) :=
  (meridianSkMsg s.sockhash s.metrics (sk.msg conns)).2.1

end

end Meridian.Sockhash
