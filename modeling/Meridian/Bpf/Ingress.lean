import Meridian.Bpf.Skb

/-! `meridian_tc_ingress`: parsing, identity resolution, the policy verdict and its telemetry
    (`tc_ingress.c`). -/

namespace Meridian.Bpf
open Lib

/-! ### Geneve -/

/-- The walk over the Geneve options, at most `n` more of them, from `offset` on. -/
def parseGeneveIdentityLoop (d : List UInt8) (opts optBytes : Nat) : Nat → Nat → Option UInt32
  | 0, _ => none
  | n + 1, offset =>
    if offset ≥ optBytes then none
    else
      let opt := opts + offset
      if opt + 4 > d.length then none
      else
        let optLenWords := (byteAt d (opt + 3)).toNat % 32
        let optSize := 4 + optLenWords * 4
        if optSize < 4 || offset + optSize > optBytes then none
        else if loadU16 d opt = bpfHtons meridianGeneveClass && byteAt d (opt + 2) = meridianOptIdentity &&
            optLenWords = meridianGeneveIdentityLenWords then
          if opt + meridianGeneveOptBytes > d.length then none
          else some (bpfNtohl (loadU32 d (opt + 4)))
        else parseGeneveIdentityLoop d opts optBytes n (offset + optSize)

def parseGeneveIdentity (d : List UInt8) (opts optBytes : Nat) : Option UInt32 :=
  parseGeneveIdentityLoop d opts optBytes 4 0

/-- What `try_parse_geneve_inner` hands back: the inner IPv4 header, and the identity of the Meridian
    option when it is there (`geneve_tlv_found`). -/
structure GeneveInner where
  innerIp : Nat
  identity : Option UInt32
  deriving DecidableEq, Repr

def tryParseGeneveInner (d : List UInt8) (outerIp : Nat) : Option GeneveInner :=
  if ipProtocol d outerIp ≠ ipprotoUdp then none
  else
    let udp := ipPayload d outerIp
    if udp + sizeofUdphdr > d.length then none
    else if udpDest d udp ≠ bpfHtons meridianGeneveUdpPort then none
    else
      let geneve := udp + sizeofUdphdr
      if geneve + 8 > d.length then none
      else if (byteAt d geneve).toNat / 64 ≠ 0 then none
      else
        let optWords := (byteAt d geneve).toNat % 64
        let optBytes := optWords * 4
        if optWords > meridianMaxGeneveOptWords then none
        else
          let opts := geneve + 8
          if opts + optBytes > d.length then none
          else
            match parseIpv4InGenevePayload d (opts + optBytes) with
            | none => none
            | some (innerIp, _) => some { innerIp, identity := parseGeneveIdentity d opts optBytes }

def isGeneveUdpOuter (d : List UInt8) (outerIp : Nat) : Bool :=
  if ipProtocol d outerIp ≠ ipprotoUdp then false
  else
    let udp := ipPayload d outerIp
    if udp + sizeofUdphdr > d.length then false
    else udpDest d udp = bpfHtons meridianGeneveUdpPort

/-! ### Enforcement -/

/-- A SYN without ACK. The flags byte is at TCP offset 13; a packet too short for it opens nothing. -/
def isTcpConnectionOpen (d : List UInt8) (ip : Nat) : Bool :=
  if ipIhl d ip < ipv4IhlMin || ipIhl d ip > ipv4IhlMax then false
  else
    let l4 := ipPayload d ip
    if l4 + 14 > d.length then false
    else byteAt d (l4 + 13) &&& 0x02 ≠ 0 && byteAt d (l4 + 13) &&& 0x10 = 0

def udpFirstSight (c : Ctx) (key : FlowKey) : Bool × Ctx :=
  match c.maps.udpSeenFlowsMap key with
  | some _ => (false, c)
  | none => (true, { c with maps := { c.maps with udpSeenFlowsMap := Table.put c.maps.udpSeenFlowsMap key 1 } })

def opensFlow (c : Ctx) (d : List UInt8) (ip : Nat) (key : FlowKey) : Bool × Ctx :=
  if ipProtocol d ip = ipprotoTcp then (isTcpConnectionOpen d ip, c)
  else if ipProtocol d ip = ipprotoUdp then udpFirstSight c key
  else (false, c)

def flowKeyOf (d : List UInt8) (ip : Nat) (srcPort dstPort : UInt16) : FlowKey :=
  { srcIp := ipSaddr d ip, dstIp := ipDaddr d ip, srcPort, dstPort, proto := ipProtocol d ip }

def enforceFlow (env : Env) (c : Ctx) (d : List UInt8) (ip : Nat) (packetBytes : UInt32) (srcPort dstPort : UInt16)
    (srcId dstId : UInt32) (denyAction : TcAct) : TcAct × Ctx :=
  let flowKey := flowKeyOf d ip srcPort dstPort
  if srcId = 0 || dstId = 0 then
    if failopenUnknownEnabled c.maps then (.ok, c)
    else (.shot, recordDeny env c flowKey .unknownIdentity srcId dstId packetBytes)
  else
    match c.maps.policyMap (policyKeyOf srcId dstId dstPort (ipProtocol d ip)) with
    | none => (.shot, recordDeny env c flowKey .policyMiss srcId dstId packetBytes)
    | some verdict =>
      if verdict.action = flowVerdictAllow then
        match opensFlow c d ip flowKey with
        | (true, c) =>
          (.ok, emitFlowEvent env (metricAdd c .flowsAllowed 1) flowKey flowVerdictAllow srcId dstId packetBytes)
        | (false, c) => (.ok, c)
      else if verdict.action = flowVerdictDeny then
        (denyAction, recordDeny env c flowKey .policyDeny srcId dstId packetBytes)
      else if verdict.action = flowVerdictRedirect then
        let c := { c with skb := { c.skb with mark := c.skb.mark ||| meridianMarkRedirectPlaceholder } }
        (.ok, emitFlowEvent env (metricAdd c .flowsRedirected 1) flowKey flowVerdictRedirect srcId dstId packetBytes)
      else (.shot, recordDeny env c flowKey .invalidAction srcId dstId packetBytes)

/-! ### Stripping the option -/

structure StripOffsets where
  innerBaseOff : Nat
  outerIpOff : Nat
  udpOff : Nat
  geneveOff : Nat
  deriving DecidableEq, Repr

/-- Shifts the payload towards the head, byte by byte: at most `n` more bytes, the next at `i`. -/
def stripShiftLoop (env : Env) (innerBaseOff innerLen : Nat) : Nat → Nat → Ctx → Bool × Ctx
  | 0, _, c => (false, c)
  | n + 1, i, c =>
    if i ≥ innerLen then (false, c)
    else
      orFailLoad (bpfSkbLoadBytes env c (innerBaseOff + i) 1) fun b c =>
      orFail (bpfSkbStoreBytes env c (innerBaseOff - meridianGeneveOptBytes + i) b) fun c =>
      stripShiftLoop env innerBaseOff innerLen n (i + 1) c

def lowerLength (env : Env) (c : Ctx) (off : Nat) : Bool × Ctx :=
  orFailLoad (bpfSkbLoadBytes env c off 2) fun b c =>
  bpfSkbStoreBytes env c off
    (bytesU16 (bpfHtons (bpfNtohs (loadU16 b 0) - UInt16.ofNat meridianGeneveOptBytes)))

def stripMeridianTlv (env : Env) (c : Ctx) (o : StripOffsets) : Bool × Ctx :=
  orFail (bpfSkbPullData env c) fun c =>
  if o.innerBaseOff < meridianGeneveOptBytes then (true, c)
  else if o.innerBaseOff > c.skb.data.length then (true, c)
  else
    let innerLen := c.skb.data.length - o.innerBaseOff
    if innerLen > meridianStripMaxLen then (true, c)
    else
      orFail (stripShiftLoop env o.innerBaseOff innerLen meridianStripMaxLen 0 c) fun c =>
      orFailLoad (bpfSkbLoadBytes env c o.geneveOff 1) fun geneve0 c =>
      orFail (bpfSkbStoreBytes env c o.geneveOff [byteAt geneve0 0 &&& 0xc0]) fun c =>
      orFail (lowerLength env c (o.outerIpOff + 2)) fun c =>
      lowerLength env c (o.udpOff + 4)

/-! ### The program -/

/-- The `return` statement by which the program left. -/
inductive IngressExit where
  | pullFailed
  | notIpv4
  | badIhl
  | geneveUnparsed
  | l4Truncated
  | nonSyn
  | enforced (verdict : TcAct)
  deriving DecidableEq, Repr

def IngressExit.action : IngressExit → TcAct
  | .enforced verdict => verdict
  | _ => .ok

def stripOffsets (env : Env) (c : Ctx) (d : List UInt8) (outerIp : Nat) : StripOffsets × Ctx :=
  let udpOff := ipPayload d outerIp
  let geneveOff := udpOff + 8
  match bpfSkbLoadBytes env c geneveOff 1 with
  | (b, c) =>
    -- A failed load leaves the byte zero.
    let gnvByte := byteAt (b.getD []) 0
    ({ innerBaseOff := geneveOff + 8 + gnvByte.toNat % 64 * 4, outerIpOff := outerIp, udpOff, geneveOff }, c)

/-- The source identity of a packet: from the option, else from the map. `geneve` is the identity of
    the option when the packet came through a tunnel. -/
def sourceIdentity (m : Maps) (geneve : Option (Option UInt32)) (saddr : UInt32) : UInt32 :=
  match geneve with
  | some (some srcId) => srcId
  | _ => mappedIdentity m saddr

/-- A tunnel packet whose source is neither in the option nor in the map is counted. -/
def countDecodeFail (c : Ctx) (geneve : Option (Option UInt32)) (saddr : UInt32) : Ctx :=
  match geneve with
  | some none => if mappedIdentity c.maps saddr = 0 then metricAdd c .geneveDecodeFail 1 else c
  | _ => c

/-- The part of the program after the headers are located: `ip` is the packet to judge, and `geneve`
    holds the option's identity and the strip offsets when it is the inner one. -/
def ingressFlow (env : Env) (c : Ctx) (d : List UInt8) (ip : Nat) (packetBytes : UInt32)
    (geneve : Option (Option UInt32 × StripOffsets)) : IngressExit × Ctx :=
  let strip (c : Ctx) : Ctx :=
    match geneve with
    | some (some _, offs) => (stripMeridianTlv env c offs).2
    | _ => c
  match parseL4Ports d ip with
  | none => (.l4Truncated, c)
  | some (srcPort, dstPort) =>
    let option := geneve.map (·.1)
    let srcId := sourceIdentity c.maps option (ipSaddr d ip)
    let dstId := mappedIdentity c.maps (ipDaddr d ip)
    let c := countDecodeFail c option (ipSaddr d ip)
    if geneve.isSome && ipProtocol d ip = ipprotoTcp && srcId ≠ 0 && !isTcpConnectionOpen d ip then
      (.nonSyn, strip c)
    else
      match enforceFlow env c d ip packetBytes srcPort dstPort srcId dstId
          (if geneve.isSome then .stolen else .shot) with
      | (verdict, c) => (.enforced verdict, if verdict = .ok then strip c else c)

/-- What the program finds in a frame before it judges a packet. -/
inductive IngressParse where
  | notIpv4
  | badIhl
  | geneveUnparsed
  | plain (ip : Nat)
  | tunnel (outerIp : Nat) (g : GeneveInner)
  deriving DecidableEq, Repr

def ingressParse (d : List UInt8) : IngressParse :=
  match parseIpv4AfterEth d 0 with
  | none => .notIpv4
  | some ip =>
    if ipIhl d ip < ipv4IhlMin || ipIhl d ip > ipv4IhlMax then .badIhl
    else
      match tryParseGeneveInner d ip with
      | some g => .tunnel ip g
      | none => if isGeneveUdpOuter d ip then .geneveUnparsed else .plain ip

variable {d : List UInt8} {ip : Nat}

theorem ingressParse_of_header (hip : parseIpv4AfterEth d 0 = some ip) : ingressParse d =
      match tryParseGeneveInner d ip with
      | some g => .tunnel ip g
      | none => if isGeneveUdpOuter d ip then .geneveUnparsed else .plain ip := by
  obtain ⟨-, -, hmin, hmax⟩ := looksLikeIpv4_iff.mp (parseIpv4AfterEth_eq_some_iff.mp hip).2
  have hihl : ¬(decide (ipIhl d ip < ipv4IhlMin) || decide (ipIhl d ip > ipv4IhlMax)) = true := by
    simp only [Bool.or_eq_true, decide_eq_true_eq]
    omega
  unfold ingressParse
  rw [hip]
  exact if_neg hihl

def meridianTcIngress (env : Env) (maps : Maps) (skb : Skb) : IngressExit × Ctx :=
  let packetBytes := UInt32.ofNat skb.data.length
  let c := metricAdd (metricAdd (Ctx.start skb maps) .packetsTotal 1) .bytesTotal packetBytes.toUInt64
  match bpfSkbPullData env c with
  | (true, c) => (.pullFailed, c)
  | (false, c) =>
    let d := c.skb.data
    match ingressParse d with
    | .notIpv4 => (.notIpv4, c)
    | .badIhl => (.badIhl, c)
    | .geneveUnparsed => (.geneveUnparsed, c)
    | .plain ip => ingressFlow env c d ip packetBytes none
    | .tunnel outerIp g =>
      match stripOffsets env c d outerIp with
      | (offs, c) => ingressFlow env c d g.innerIp packetBytes (some (g.identity, offs))

/-! ### The tunnel headers -/

def geneveWords (d : List UInt8) (ip : Nat) : Nat := (byteAt d (ipPayload d ip + 8)).toNat % 64

/-- A UDP packet to the Geneve port with a complete version 0 header. -/
structure GeneveHeader (d : List UInt8) (ip : Nat) : Prop where
  proto : ipProtocol d ip = ipprotoUdp
  port : udpDest d (ipPayload d ip) = bpfHtons meridianGeneveUdpPort
  length : ipPayload d ip + 16 ≤ d.length
  version : (byteAt d (ipPayload d ip + 8)).toNat / 64 = 0

def genevePayload (d : List UInt8) (ip : Nat) : Nat := ipPayload d ip + 16 + geneveWords d ip * 4

theorem tryParseGeneveInner_of_header (h : GeneveHeader d ip) (hwords : geneveWords d ip ≤ 8)
    (hinside : genevePayload d ip ≤ d.length) :
    tryParseGeneveInner d ip = (parseIpv4InGenevePayload d (genevePayload d ip)).map fun r =>
      { innerIp := r.1, identity := parseGeneveIdentity d (ipPayload d ip + 16) (geneveWords d ip * 4) } := by
  have hlen := h.length
  have hudp : ipPayload d ip + sizeofUdphdr ≤ d.length := by
    simp only [sizeofUdphdr]
    omega
  unfold tryParseGeneveInner
  refine Eq.trans (if_neg (not_not.mpr h.proto)) ?_
  refine Eq.trans (if_neg (Nat.not_lt.mpr hudp)) ?_
  refine Eq.trans (if_neg (not_not.mpr h.port)) ?_
  refine Eq.trans (if_neg (Nat.not_lt.mpr hlen)) ?_
  refine Eq.trans (if_neg (not_not.mpr h.version)) ?_
  refine Eq.trans (if_neg (Nat.not_lt.mpr hwords)) ?_
  refine Eq.trans (if_neg (Nat.not_lt.mpr hinside)) ?_
  change (match parseIpv4InGenevePayload d (genevePayload d ip) with | none => none | some (innerIp, _) => some _) = _
  cases parseIpv4InGenevePayload d (genevePayload d ip) with
  | none => rfl
  | some r => rfl

/-- Only such headers, with at most eight words of options, are taken apart. -/
theorem tryParseGeneveInner_eq_some {g : GeneveInner} (h : tryParseGeneveInner d ip = some g) :
    GeneveHeader d ip ∧ geneveWords d ip ≤ 8 ∧ genevePayload d ip ≤ d.length := by
  unfold tryParseGeneveInner at h
  split at h
  · cases h
  · rename_i hproto
    dsimp only at h
    split at h
    · cases h
    · split at h
      · cases h
      · rename_i hport
        split at h
        · cases h
        · rename_i hlen
          split at h
          · cases h
          · rename_i hversion
            split at h
            · cases h
            · rename_i hwords
              split at h
              · cases h
              · rename_i hinside
                exact ⟨⟨not_not.mp hproto, not_not.mp hport, Nat.not_lt.mp hlen, not_not.mp hversion⟩,
                  Nat.not_lt.mp hwords, Nat.not_lt.mp hinside⟩

end Meridian.Bpf
