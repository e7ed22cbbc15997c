import Meridian.Bpf.Skb

/-! `meridian_tc_egress`: stamping the source identity into the Geneve header (`tc_egress.c`). -/

namespace Meridian.Bpf
open Lib

/-! ### Geneve options -/

/-- The option count, at most `n` more options, after `count` of them up to `offset`. -/
def parseGeneveOptionCountLoop (d : List UInt8) (opts optBytes : Nat) : Nat → Nat → Nat → Option Nat
  | 0, offset, count => if offset ≠ optBytes then none else some count
  | n + 1, offset, count =>
    if offset = optBytes then some count
    else if offset > optBytes then none
    else
      let opt := opts + offset
      if opt + 4 > d.length then none
      else
        let optLenWords := (byteAt d (opt + 3)).toNat % 32
        let optSize := 4 + optLenWords * 4
        if optSize < 4 then none
        else parseGeneveOptionCountLoop d opts optBytes n (offset + optSize) (count + 1)

def parseGeneveOptionCount (d : List UInt8) (opts optBytes : Nat) : Option Nat :=
  parseGeneveOptionCountLoop d opts optBytes 4 0 0

/-! ### Rewriting the packet -/

/-- The unrolled copy of `insert_inner_tlv_room`: `n` more rounds, the next at `i`. -/
def copyHeadLoop (env : Env) (roomOff : Nat) : Nat → Nat → Ctx → Bool × Ctx
  | 0, _, c => (false, c)
  | n + 1, i, c =>
    if i < roomOff then
      orFailLoad (bpfSkbLoadBytes env c (meridianGeneveOptBytes + i) 1) fun b c =>
      orFail (bpfSkbStoreBytes env c i b) fun c =>
      copyHeadLoop env roomOff n (i + 1) c
    else copyHeadLoop env roomOff n (i + 1) c

/-- Opens a slot for the option at `roomOff`: grows the packet at its head and moves the outer headers
    back to the front. -/
def insertInnerTlvRoom (env : Env) (c : Ctx) (roomOff outerIpOff : Nat) : Bool × Ctx :=
  orFail (bpfSkbPullData env c) fun c =>
  if roomOff = 0 || roomOff ≥ c.skb.data.length || outerIpOff ≥ roomOff then (true, c)
  else if roomOff - outerIpOff > 64 then (true, c)
  else if roomOff > 80 then (true, c)
  else
    orFail (bpfSkbChangeHead env c meridianGeneveOptBytes) fun c =>
    orFail (bpfSkbPullData env c) fun c =>
    copyHeadLoop env roomOff 80 0 c

def bumpUdpGeneveLengths (env : Env) (c : Ctx) (outerIpOff udpOff : Nat) : Bool × Ctx :=
  orFail (bpfSkbPullData env c) fun c =>
  let newIpLenBe := bpfHtons (UInt16.ofNat (c.skb.data.length - outerIpOff))
  orFailLoad (bpfSkbLoadBytes env c (outerIpOff + 2) 2) fun _ c =>
  orFail (bpfSkbStoreBytes env c (outerIpOff + 2) (bytesU16 newIpLenBe)) fun c =>
  let newUdpLenBe := bpfHtons (UInt16.ofNat (c.skb.data.length - udpOff))
  orFailLoad (bpfSkbLoadBytes env c (udpOff + 4) 2) fun oldUdpLen c =>
  orFail (bpfSkbStoreBytes env c (udpOff + 4) (bytesU16 newUdpLenBe)) fun c =>
  orFailLoad (bpfSkbLoadBytes env c (udpOff + 6) 2) fun udpCheck c =>
  -- The update is applied at `udpOff`, where the UDP header starts.
  if loadU16 udpCheck 0 ≠ 0 then bpfL4CsumReplace env c udpOff (loadU16 oldUdpLen 0) newUdpLenBe
  else (false, c)

def identityTlv (srcId : UInt32) : List UInt8 :=
  bytesU16 (bpfHtons meridianGeneveClass) ++ [meridianOptIdentity, UInt8.ofNat meridianGeneveIdentityLenWords] ++
    bytesU32 (bpfHtonl srcId)

def stampIdentityTlv (env : Env) (c : Ctx) (stampOff geneveOff optWords : Nat) (srcId : UInt32) : Bool × Ctx :=
  orFail (bpfSkbStoreBytes env c stampOff (identityTlv srcId)) fun c =>
  orFailLoad (bpfSkbLoadBytes env c geneveOff 1) fun geneve0 c =>
  bpfSkbStoreBytes env c geneveOff
    [byteAt geneve0 0 &&& 0xc0 ||| UInt8.ofNat (optWords + meridianGeneveOptWords)]

/-! ### The program -/

/-- The `return` statement by which the program left; `encap_fail` has one for each posture. -/
inductive EgressExit where
  | pullFailed
  | notIpv4
  | badIhl
  | plainUnknown
  | plainDeny
  | plainOk
  | innerNotIpv4
  | deny
  | stamped (srcId : UInt32)
  | encapFailOpen
  | encapFail
  deriving DecidableEq, Repr

def EgressExit.action : EgressExit → TcAct
  | .plainDeny | .deny => .stolen
  | .encapFail => .shot
  | _ => .ok

/-- The label `encap_fail`; `flow` is the inner flow with its identities once it is known. -/
def encapFail (env : Env) (c : Ctx) (packetBytes : UInt32) (flow : Option (FlowKey × UInt32 × UInt32)) :
    EgressExit × Ctx :=
  let c := metricAdd c .geneveEncapFail 1
  if failopenUnknownEnabled c.maps then (.encapFailOpen, c)
  else
    match flow with
    | some (key, srcId, dstId) => (.encapFail, recordDeny env c key .geneveEncapFail srcId dstId packetBytes)
    | none => (.encapFail, c)

def egressDenied (m : Maps) (srcId dstId : UInt32) (dstPort : UInt16) (proto : UInt8) : Bool :=
  dstId ≠ 0 &&
    match m.policyMap (policyKeyOf srcId dstId dstPort proto) with
    | some verdict => verdict.action = flowVerdictDeny
    | none => false

/-- A packet outside the tunnel. A flow whose ports cannot be read keeps the zero key. -/
def egressPlain (env : Env) (c : Ctx) (d : List UInt8) (ip : Nat) (packetBytes : UInt32) : EgressExit × Ctx :=
  let srcId := mappedIdentity c.maps (ipSaddr d ip)
  let dstId := mappedIdentity c.maps (ipDaddr d ip)
  let dstPort := ((parseL4Ports d ip).map (·.2)).getD 0
  let flow : FlowKey :=
    match parseL4Ports d ip with
    | some (srcPort, dstPort) =>
      { srcIp := ipSaddr d ip, dstIp := ipDaddr d ip, srcPort, dstPort, proto := ipProtocol d ip }
    | none => { srcIp := 0, dstIp := 0, srcPort := 0, dstPort := 0, proto := 0 }
  if srcId = 0 then (.plainUnknown, c)
  else if egressDenied c.maps srcId dstId dstPort (ipProtocol d ip) then
    (.plainDeny, recordDeny env c flow .policyDeny srcId dstId packetBytes)
  else (.plainOk, c)

structure EgressGeneve where
  outerIp : Nat
  udp : Nat
  geneve : Nat
  optWords : Nat
  optionCount : Nat
  innerBase : Nat
  innerIp : Nat
  reservedHeadroom : Nat
  deriving DecidableEq, Repr

/-- Making room and writing the option; true when the packet could not be stamped. -/
def egressStamp (env : Env) (c : Ctx) (g : EgressGeneve) (srcId : UInt32) : Bool × Ctx :=
  if g.reservedHeadroom = meridianGeneveOptBytes then
    stampIdentityTlv env c g.innerBase g.geneve g.optWords srcId
  else if g.reservedHeadroom = 0 then
    orFail (insertInnerTlvRoom env c g.innerBase g.outerIp) fun c =>
    -- The result of the length update is discarded.
    let c := (bumpUdpGeneveLengths env c g.outerIp g.udp).2
    stampIdentityTlv env c g.innerBase g.geneve g.optWords srcId
  else (true, c)

def egressInner (env : Env) (c : Ctx) (d : List UInt8) (g : EgressGeneve) (packetBytes : UInt32) : EgressExit × Ctx :=
  match parseL4Ports d g.innerIp with
  | none => encapFail env c packetBytes none
  | some (srcPort, dstPort) =>
    let flow : FlowKey :=
      { srcIp := ipSaddr d g.innerIp, dstIp := ipDaddr d g.innerIp, srcPort, dstPort, proto := ipProtocol d g.innerIp }
    let srcId := mappedIdentity c.maps (ipSaddr d g.innerIp)
    let dstId := mappedIdentity c.maps (ipDaddr d g.innerIp)
    if srcId = 0 then encapFail env c packetBytes (some (flow, 0, dstId))
    else if egressDenied c.maps srcId dstId dstPort (ipProtocol d g.innerIp) then
      (.deny, recordDeny env c flow .policyDeny srcId dstId packetBytes)
    else if g.optionCount ≥ meridianMaxGeneveOpts then encapFail env c packetBytes (some (flow, srcId, dstId))
    else
      match egressStamp env c g srcId with
      | (true, c) => encapFail env c packetBytes (some (flow, srcId, dstId))
      | (false, c) => (.stamped srcId, c)

inductive EgressParse where
  | notIpv4
  | badIhl
  | plain (ip : Nat)
  | malformed
  | innerNotIpv4
  | tunnel (g : EgressGeneve)
  deriving DecidableEq, Repr

def parseTunnel (d : List UInt8) (outerIp udp : Nat) : EgressParse :=
  let geneve := udp + sizeofUdphdr
  if geneve + 8 > d.length then .malformed
  else if (byteAt d geneve).toNat / 64 ≠ 0 then .malformed
  else
    let optWords := (byteAt d geneve).toNat % 64
    let optBytes := optWords * 4
    if optWords > meridianMaxGeneveOptWords then .malformed
    else
      let opts := geneve + 8
      if opts + optBytes > d.length then .malformed
      else
        match parseGeneveOptionCount d opts optBytes with
        | none => .malformed
        | some optionCount =>
          let innerBase := opts + optBytes
          match parseIpv4InGenevePayload d innerBase with
          | none => .innerNotIpv4
          | some (innerIp, reservedHeadroom) =>
            .tunnel { outerIp, udp, geneve, optWords, optionCount, innerBase, innerIp, reservedHeadroom }

def egressParse (d : List UInt8) : EgressParse :=
  match parseIpv4AfterEth d 0 with
  | none => .notIpv4
  | some outerIp =>
    if ipVersion d outerIp ≠ 4 || ipIhl d outerIp < ipv4IhlMin || ipIhl d outerIp > ipv4IhlMax then .badIhl
    else
      let udp := ipPayload d outerIp
      if ipProtocol d outerIp ≠ ipprotoUdp || udp + sizeofUdphdr > d.length ||
          udpDest d udp ≠ bpfHtons meridianGeneveUdpPort then
        .plain outerIp
      else parseTunnel d outerIp udp

def meridianTcEgress (env : Env) (maps : Maps) (skb : Skb) : EgressExit × Ctx :=
  let packetBytes := UInt32.ofNat skb.data.length
  match bpfSkbPullData env (Ctx.start skb maps) with
  | (true, c) => (.pullFailed, c)
  | (false, c) =>
    let d := c.skb.data
    match egressParse d with
    | .notIpv4 => (.notIpv4, c)
    | .badIhl => (.badIhl, c)
    | .plain ip => egressPlain env c d ip packetBytes
    | .malformed => encapFail env c packetBytes none
    | .innerNotIpv4 => (.innerNotIpv4, c)
    | .tunnel g => egressInner env c d g packetBytes

end Meridian.Bpf
