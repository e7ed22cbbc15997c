import Meridian.Theorems.Calls
import Meridian.Theorems.DenyRecord

/-! One run of ingress as a whole. The packet is dropped, and then its bytes are as they were and one denied flow is
    recorded; or it is passed, and then no denied flow is recorded and its bytes are those that stripping left, which
    depend on the frame and on the helper calls that failed, and on nothing else. -/

namespace Meridian.Bpf
open Lib

/-! ### Stripping a tunnel frame -/

/-- The strip offsets of a tunnel frame. The length of the options counts only if it could be loaded. -/
def tunnelOffsets (d : List UInt8) (outerIp : Nat) (loaded : Bool) : StripOffsets where
  innerBaseOff := ipPayload d outerIp + 16 + if loaded then geneveWords d outerIp * 4 else 0
  outerIpOff := outerIp
  udpOff := ipPayload d outerIp
  geneveOff := ipPayload d outerIp + 8

theorem stripOffsets_eq {env : Env} {c : Ctx} {outerIp : Nat} (h : GeneveHeader c.skb.data outerIp) :
    stripOffsets env c c.skb.data outerIp =
      (tunnelOffsets c.skb.data outerIp (!env.skbFails c.skbCalls), { c with skbCalls := c.skbCalls + 1 }) := by
  have hlen := h.length
  have hbyte : byteAt (((c.skb.data.drop (ipPayload c.skb.data outerIp + 8)).take 1)) 0 =
      byteAt c.skb.data (ipPayload c.skb.data outerIp + 8) := by
    rw [byteAt_take Nat.one_pos, byteAt_drop, Nat.add_zero]
  unfold stripOffsets bpfSkbLoadBytes
  dsimp only
  rw [decide_eq_false (show ¬ipPayload c.skb.data outerIp + 8 + 1 > c.skb.data.length by omega), Bool.or_false]
  cases env.skbFails c.skbCalls with
  | true => rfl
  | false =>
    simp only [Bool.false_eq_true, if_false, Option.getD_some, hbyte]
    rfl

/-- What `ingress_parse` has checked of a tunnel frame. -/
structure TunnelFrame (d : List UInt8) (outerIp : Nat) : Prop extends GeneveHeader d outerIp where
  outer : parseIpv4AfterEth d 0 = some outerIp
  words : geneveWords d outerIp ≤ 8
  inside : genevePayload d outerIp ≤ d.length

theorem ingressParse_tunnel {d : List UInt8} {outerIp : Nat} {g : GeneveInner} (h : ingressParse d = .tunnel outerIp g) :
    TunnelFrame d outerIp ∧ tryParseGeneveInner d outerIp = some g := by
  cases houter : parseIpv4AfterEth d 0 with
  | none =>
    rw [ingressParse, houter] at h
    cases h
  | some ip =>
    rw [ingressParse_of_header houter] at h
    cases hinner : tryParseGeneveInner d ip with
    | none =>
      rw [hinner] at h
      dsimp only at h
      split at h <;> cases h
    | some g' =>
      rw [hinner] at h
      cases h
      obtain ⟨hheader, hwords, hinside⟩ := tryParseGeneveInner_eq_some hinner
      exact ⟨⟨hheader, houter, hwords, hinside⟩, hinner⟩

theorem TunnelFrame.udp_ge {d : List UInt8} {outerIp : Nat} (h : TunnelFrame d outerIp) :
    outerIp + 20 ≤ ipPayload d outerIp := by
  obtain ⟨-, -, hmin, -⟩ := looksLikeIpv4_iff.mp (parseIpv4AfterEth_eq_some_iff.mp h.outer).2
  simp only [ipPayload, ipv4WordBytes, ipv4IhlMin] at hmin ⊢
  omega

/-- The calls of the strip in a tunnel frame: none of the moves when there are too many bytes to move. -/
def stripScript (d : List UInt8) (o : StripOffsets) : List Call :=
  id :: if d.length - o.innerBaseOff ≤ meridianStripMaxLen then stripCalls o (d.length - o.innerBaseOff) else []

theorem TunnelFrame.base_le {d : List UInt8} {outerIp : Nat} (h : TunnelFrame d outerIp) (loaded : Bool) :
    (tunnelOffsets d outerIp loaded).innerBaseOff ≤ d.length := by
  have hinside := h.inside
  have hlen := h.length
  simp only [genevePayload] at hinside
  cases loaded with
  | true => exact hinside
  | false => exact hlen

theorem TunnelFrame.strippable {d : List UInt8} {outerIp : Nat} (h : TunnelFrame d outerIp) {loaded : Bool}
    (hshort : d.length - (tunnelOffsets d outerIp loaded).innerBaseOff ≤ meridianStripMaxLen) :
    Strippable d (tunnelOffsets d outerIp loaded) := by
  have hudp := h.udp_ge
  have hlen := h.length
  refine ⟨?_, h.base_le loaded, hshort, ?_, ?_, ?_⟩ <;> simp only [tunnelOffsets, meridianGeneveOptBytes] <;> omega

section
variable {env : Env} {c : Ctx} {outerIp : Nat} {loaded : Bool}

theorem stripMeridianTlv_tooLong {o : StripOffsets} (hbase : meridianGeneveOptBytes ≤ o.innerBaseOff)
    (hinside : o.innerBaseOff ≤ c.skb.data.length) (hlong : ¬c.skb.data.length - o.innerBaseOff ≤ meridianStripMaxLen) :
    stripMeridianTlv env c o = (true, { c with skbCalls := c.skbCalls + 1 }) := by
  unfold stripMeridianTlv bpfSkbPullData
  cases env.skbFails c.skbCalls with
  | true => rfl
  | false =>
    dsimp only [orFail]
    rw [if_neg (Nat.not_lt.mpr hbase), if_neg (Nat.not_lt.mpr hinside), if_pos (Nat.not_le.mp hlong)]

/-- Stripping a tunnel frame is its script, and it fails when the script does or there is too much to move. -/
theorem TunnelFrame.stripMeridianTlv_eq (h : TunnelFrame c.skb.data outerIp) :
    (stripMeridianTlv env c (tunnelOffsets c.skb.data outerIp loaded)).2 =
        (c.attempt env (stripScript c.skb.data (tunnelOffsets c.skb.data outerIp loaded))).2 ∧
      ((stripMeridianTlv env c (tunnelOffsets c.skb.data outerIp loaded)).1 = true ↔
        c.skb.data.length - (tunnelOffsets c.skb.data outerIp loaded).innerBaseOff ≤ meridianStripMaxLen →
          (c.attempt env (stripScript c.skb.data (tunnelOffsets c.skb.data outerIp loaded))).1 = true) := by
  unfold stripScript
  by_cases hshort : c.skb.data.length - (tunnelOffsets c.skb.data outerIp loaded).innerBaseOff ≤ meridianStripMaxLen
  · rw [if_pos hshort, stripMeridianTlv_eq_attempt (h.strippable hshort)]
    exact ⟨rfl, fun hfail _ => hfail, fun hfail => hfail hshort⟩
  · have hbase : meridianGeneveOptBytes ≤ (tunnelOffsets c.skb.data outerIp loaded).innerBaseOff := by
      simp only [tunnelOffsets, meridianGeneveOptBytes]
      omega
    rw [if_neg hshort, stripMeridianTlv_tooLong hbase (h.base_le loaded) hshort, attempt_pair]
    refine ⟨?_, fun _ hle => absurd hle hshort, fun _ => rfl⟩
    cases env.skbFails c.skbCalls <;> rfl

end

/-! ### The run -/

/-- The bytes that ingress leaves of a frame that it passes. -/
def passedData (fails : Nat → Bool) (d : List UInt8) : List UInt8 :=
  if fails 0 then d
  else
    match ingressParse d with
    | .tunnel outerIp ⟨innerIp, some _⟩ =>
      if (parseL4Ports d innerIp).isSome then
        (attempt fails (stripScript d (tunnelOffsets d outerIp (!fails 1))) 2 d).2.2
      else d
    | _ => d

/-- The flow that ingress denies in a frame, when it denies one, and the reason. -/
def ingressDenial (m : Maps) (d : List UInt8) : Option (FlowKey × DropReason) :=
  (judgedPacket d).bind fun p => flowDenial m d p.1 p.2

theorem ingressStart_judged (maps : Maps) (skb : Skb) :
    (ingressStart maps skb).skb.data = skb.data ∧ (ingressStart maps skb).skbCalls = 1 ∧
      SameAccounts maps (ingressStart maps skb).maps := by
  refine ⟨rfl, rfl, ?_⟩
  exact (metricAdd_sameAccounts (Ctx.start skb maps) 1 (by decide) (by decide)).trans
    (metricAdd_sameAccounts (metricAdd (Ctx.start skb maps) .packetsTotal 1) _ (by decide) (by decide))

/-- The judgement of a packet, from the maps that the program started with. -/
theorem ingressFlow_run {env : Env} {maps : Maps} {c : Ctx} {d : List UInt8} {ip : Nat} {packetBytes : UInt32}
    {geneve : Option (Option UInt32 × StripOffsets)} (hsame : SameAccounts maps c.maps) (htables : SameTables maps c.maps) :
    ((ingressFlow env c d ip packetBytes geneve).1.action ≠ .ok ∧
        (ingressFlow env c d ip packetBytes geneve).2.skb.data = c.skb.data ∧
        ∃ flow reason, flowDenial maps d ip (geneve.map (·.1)) = some (flow, reason) ∧
          DenyRecorded env.ktimeNs flow reason maps (ingressFlow env c d ip packetBytes geneve).2.maps) ∨
      ((ingressFlow env c d ip packetBytes geneve).1.action = .ok ∧
        ∃ c', c'.skb.data = c.skb.data ∧ c'.skbCalls = c.skbCalls ∧ DenyFree maps c'.maps ∧
          (ingressFlow env c d ip packetBytes geneve).2 =
            if (parseL4Ports d ip).isSome then stripPassed env geneve c' else c') := by
  rcases ingressFlow_cases env c d ip packetBytes geneve with
    ⟨haction, hjudged, flow, reason, hdenial, hrecord⟩ | ⟨haction, c', hjudged, hfree, hc'⟩
  · refine Or.inl ⟨haction, hjudged.data, flow, reason, ?_, hsame.denyRecorded hrecord⟩
    exact (htables.flowDenial_eq _ _ _).symm.trans hdenial
  · exact Or.inr ⟨haction, c', hjudged.data, hjudged.skbCalls, hsame.denyFree hfree, hc'⟩

theorem meridianTcIngress_cases (env : Env) (maps : Maps) (skb : Skb) :
    ((meridianTcIngress env maps skb).1.action ≠ .ok ∧ (meridianTcIngress env maps skb).2.skb.data = skb.data ∧
        ∃ flow reason, ingressDenial maps skb.data = some (flow, reason) ∧
          DenyRecorded env.ktimeNs flow reason maps (meridianTcIngress env maps skb).2.maps) ∨
      ((meridianTcIngress env maps skb).1.action = .ok ∧
        (meridianTcIngress env maps skb).2.skb.data = passedData env.skbFails skb.data ∧
        DenyFree maps (meridianTcIngress env maps skb).2.maps) := by
  obtain ⟨hdata, hcalls, hsame⟩ := ingressStart_judged maps skb
  have htables := ingressStart_sameTables maps skb
  have hstart := hsame.denyFree (DenyFree.refl _)
  cases hpull : env.skbFails 0 with
  | true =>
    refine Or.inr ?_
    unfold meridianTcIngress bpfSkbPullData passedData
    dsimp only [metricAdd, Ctx.start]
    rw [hpull]
    exact ⟨rfl, rfl, hstart⟩
  | false =>
    rw [meridianTcIngress_eq maps skb hpull, passedData, hpull, ingressDenial, judgedPacket]
    cases hparse : ingressParse skb.data with
    | notIpv4 => exact Or.inr ⟨rfl, rfl, hstart⟩
    | badIhl => exact Or.inr ⟨rfl, rfl, hstart⟩
    | geneveUnparsed => exact Or.inr ⟨rfl, rfl, hstart⟩
    | plain ip =>
      rcases @ingressFlow_run env maps (ingressStart maps skb) skb.data ip (UInt32.ofNat skb.data.length) none hsame htables
        with hdropped | ⟨haction, c', hdata', -, hfree, hc'⟩
      · exact Or.inl hdropped
      · refine Or.inr ⟨haction, ?_⟩
        dsimp only
        rw [hc']
        have hkept : (if (parseL4Ports skb.data ip).isSome = true then c' else c') = c' := ite_self c'
        exact ⟨(congrArg (·.skb.data) hkept).trans hdata', hkept.symm ▸ hfree⟩
    | tunnel outerIp g =>
      obtain ⟨htunnel, -⟩ := ingressParse_tunnel hparse
      have hoffs := @stripOffsets_eq env (ingressStart maps skb) outerIp htunnel.toGeneveHeader
      rw [hdata, hcalls] at hoffs
      dsimp only
      rw [hoffs]
      rcases @ingressFlow_run env maps { ingressStart maps skb with skbCalls := 2 } skb.data g.innerIp
          (UInt32.ofNat skb.data.length) (some (g.identity, tunnelOffsets skb.data outerIp (!env.skbFails 1))) hsame htables
        with hdropped | ⟨haction, c', hdata', hcalls', hfree, hc'⟩
      · exact Or.inl hdropped
      · refine Or.inr ⟨haction, ?_⟩
        change c'.skb.data = skb.data at hdata'
        dsimp only
        rw [hc']
        obtain ⟨innerIp, identity⟩ := g
        cases identity with
        | none =>
          have hkept : (if (parseL4Ports skb.data innerIp).isSome = true then c' else c') = c' := ite_self c'
          exact ⟨(congrArg (·.skb.data) hkept).trans hdata', hkept.symm ▸ hfree⟩
        | some srcId =>
          have hstrip := (@TunnelFrame.stripMeridianTlv_eq env c' outerIp (!env.skbFails 1) (hdata' ▸ htunnel)).1
          rw [hdata', Ctx.attempt, hdata', hcalls'] at hstrip
          dsimp only [stripPassed]
          rw [hstrip]
          cases (parseL4Ports skb.data innerIp).isSome with
          | false => exact ⟨hdata', hfree⟩
          | true => exact ⟨rfl, hfree⟩

end Meridian.Bpf
