import Meridian.Bpf.Types

/-! The socket programs: `meridian_sock_ops` fills the SOCKHASH map (`sock_ops.c`), `meridian_sk_msg`
    redirects by it (`sk_msg.c`), with the primitives they share (`meridian_helpers.h`). Sockets are
    values of an arbitrary type `σ`. -/

namespace Meridian.Bpf
open Lib

def afInet : UInt32 := 2
def bpfSockOpsActiveEstablishedCb : UInt32 := 4
def bpfSockOpsPassiveEstablishedCb : UInt32 := 5

/-- The fields that `meridian_sock_ops` reads. Addresses are in network order, the local port in host
    order, the remote port in network order in the upper half of its word. -/
structure BpfSockOps where
  family : UInt32
  op : UInt32
  localIp4 : UInt32
  remoteIp4 : UInt32
  localPort : UInt32
  remotePort : UInt32
  deriving DecidableEq, Repr

structure SkMsgMd where
  family : UInt32
  remoteIp4 : UInt32
  remotePort : UInt32
  deriving DecidableEq, Repr

structure SockKey where
  dstIp : UInt32
  dstPort : UInt16
  deriving DecidableEq, Repr

def lower16 (x : UInt32) : UInt16 := UInt16.ofNat (x.toNat % 65536)

def upper16 (x : UInt32) : UInt16 := UInt16.ofNat (x.toNat / 65536)

/-! ### Policy primitives -/

def meridianIdentityOf (identityMap : Table UInt32 UInt32) (ipv4Net : UInt32) : UInt32 := (identityMap ipv4Net).getD 0

def meridianPolicyLookup (policyMap : Table PolicyKey PolicyVerdict) (srcId dstId : UInt32) (dstPortHost : UInt16)
    (proto direction : UInt8) : Option PolicyVerdict :=
  policyMap { srcId, dstId, dstPort := dstPortHost, proto, direction }

def meridianVerdictSockmapEligible (v : Option PolicyVerdict) : Bool :=
  match v with
  | none => false
  | some v => v.action = flowVerdictAllow && v.flags &&& policyFlagSockmapEligible ≠ 0

/-! ### sock_ops -/

structure SockFlow where
  srcId : UInt32
  dstId : UInt32
  dstPortHost : UInt16
  direction : UInt8
  deriving DecidableEq, Repr

def sockKeyOf (ctx : BpfSockOps) : SockKey := { dstIp := ctx.localIp4, dstPort := bpfHtons (lower16 ctx.localPort) }

/-- The flow of an established connection: seen from the initiator it is egress to the remote port, from
    the acceptor ingress to the local port. Other callbacks and families have none. -/
def sockFlow (identityMap : Table UInt32 UInt32) (ctx : BpfSockOps) : Option SockFlow :=
  if ctx.family ≠ afInet then none
  else if ctx.op = bpfSockOpsActiveEstablishedCb then
    some { srcId := meridianIdentityOf identityMap ctx.localIp4, dstId := meridianIdentityOf identityMap ctx.remoteIp4,
           dstPortHost := bpfNtohs (upper16 ctx.remotePort), direction := policyDirEgress }
  else if ctx.op = bpfSockOpsPassiveEstablishedCb then
    some { srcId := meridianIdentityOf identityMap ctx.remoteIp4, dstId := meridianIdentityOf identityMap ctx.localIp4,
           dstPortHost := lower16 ctx.localPort, direction := policyDirIngress }
  else none

section
variable {σ : Type}

/-- Inserts `sk` under its own local address; `updateFails` is the outcome of the map helper, which the
    program ignores. -/
def tryInsert (policyMap : Table PolicyKey PolicyVerdict) (updateFails : Bool) (ctx : BpfSockOps) (sk : σ)
    (flow : SockFlow) (sockhash : Table SockKey σ) : Table SockKey σ :=
  if flow.srcId = 0 || flow.dstId = 0 then sockhash
  else if !meridianVerdictSockmapEligible
      (meridianPolicyLookup policyMap flow.srcId flow.dstId flow.dstPortHost ipprotoTcp flow.direction) then sockhash
  else if updateFails then sockhash
  else Table.put sockhash (sockKeyOf ctx) sk

def meridianSockOps (identityMap : Table UInt32 UInt32) (policyMap : Table PolicyKey PolicyVerdict) (updateFails : Bool)
    (ctx : BpfSockOps) (sk : σ) (sockhash : Table SockKey σ) : Table SockKey σ :=
  match sockFlow identityMap ctx with
  | none => sockhash
  | some flow => tryInsert policyMap updateFails ctx sk flow sockhash

/-! ### sk_msg -/

inductive SkAction where
  | drop
  | pass
  deriving DecidableEq, Repr

def bpfMsgRedirectHash (sockhash : Table SockKey σ) (key : SockKey) : SkAction × Option σ :=
  match sockhash key with
  | none => (.drop, none)
  | some sk => (.pass, some sk)

def skMsgKey (msg : SkMsgMd) : SockKey := { dstIp := msg.remoteIp4, dstPort := upper16 msg.remotePort }

/-- The program's return code, the socket that the message is redirected to, and the metrics. -/
def meridianSkMsg (sockhash : Table SockKey σ) (metrics : MetricId → UInt64) (msg : SkMsgMd) :
    SkAction × Option σ × (MetricId → UInt64) :=
  if msg.family ≠ afInet then (.pass, none, metrics)
  else
    match bpfMsgRedirectHash sockhash (skMsgKey msg) with
    | (.drop, _) => (.pass, none, metrics)
    | (.pass, sk) => (.pass, sk, Function.update metrics .flowsRedirected (metrics .flowsRedirected + 1))

end

/-! ### What a run inserts -/

section
variable {σ : Type} {identityMap : Table UInt32 UInt32} {policyMap : Table PolicyKey PolicyVerdict} {updateFails : Bool}
  {ctx : BpfSockOps} {sk : σ} {sockhash : Table SockKey σ}

theorem meridianVerdictSockmapEligible_iff {v : Option PolicyVerdict} : meridianVerdictSockmapEligible v = true ↔
    ∃ w, v = some w ∧ w.action = flowVerdictAllow ∧ w.flags &&& policyFlagSockmapEligible ≠ 0 := by
  cases v with
  | none => simp [meridianVerdictSockmapEligible]
  | some w => simp [meridianVerdictSockmapEligible]

/-- A run leaves the map alone, or inserts the socket for a flow between known identities whose verdict is
    eligible. -/
theorem meridianSockOps_cases :
    meridianSockOps identityMap policyMap updateFails ctx sk sockhash = sockhash ∨
      ∃ flow, sockFlow identityMap ctx = some flow ∧ flow.srcId ≠ 0 ∧ flow.dstId ≠ 0 ∧
        meridianVerdictSockmapEligible
          (meridianPolicyLookup policyMap flow.srcId flow.dstId flow.dstPortHost ipprotoTcp flow.direction) = true ∧
        meridianSockOps identityMap policyMap updateFails ctx sk sockhash = Table.put sockhash (sockKeyOf ctx) sk := by
  unfold meridianSockOps
  cases hflow : sockFlow identityMap ctx with
  | none => exact Or.inl rfl
  | some flow =>
    dsimp only
    unfold tryInsert
    split
    · exact Or.inl rfl
    · rename_i hids
      simp only [Bool.or_eq_true, decide_eq_true_eq, not_or] at hids
      split
      · exact Or.inl rfl
      · rename_i helig
        split
        · exact Or.inl rfl
        · exact Or.inr ⟨flow, rfl, hids.1, hids.2, by simpa using helig, rfl⟩

theorem meridianSockOps_inserts {flow : SockFlow} (sk : σ) (sockhash : Table SockKey σ)
    (hflow : sockFlow identityMap ctx = some flow) (hsrc : flow.srcId ≠ 0) (hdst : flow.dstId ≠ 0)
    (helig : meridianVerdictSockmapEligible
      (meridianPolicyLookup policyMap flow.srcId flow.dstId flow.dstPortHost ipprotoTcp flow.direction) = true) :
    meridianSockOps identityMap policyMap false ctx sk sockhash = Table.put sockhash (sockKeyOf ctx) sk := by
  simp [meridianSockOps, hflow, tryInsert, hsrc, hdst, helig]

end

end Meridian.Bpf
