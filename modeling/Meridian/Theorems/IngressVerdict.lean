import Meridian.Bpf.Ingress

/-! The verdict of ingress without its telemetry: which tables it depends on, the action and the mark
    that `enforce_flow` gives a flow, and the exit of the whole program once the headers are located. -/

namespace Meridian.Bpf
open Lib

/-! ### The tables that decide -/

/-- Two states of the maps that hold the same identities, policies and configuration. -/
structure SameTables (m m' : Maps) : Prop where
  identityMap : m'.identityMap = m.identityMap
  policyMap : m'.policyMap = m.policyMap
  runtimeConfigMap : m'.runtimeConfigMap = m.runtimeConfigMap

namespace SameTables
variable {m m' m'' : Maps}

theorem refl (m : Maps) : SameTables m m := ⟨rfl, rfl, rfl⟩

theorem trans (h : SameTables m m') (h' : SameTables m' m'') : SameTables m m'' :=
  ⟨h'.identityMap.trans h.identityMap, h'.policyMap.trans h.policyMap,
    h'.runtimeConfigMap.trans h.runtimeConfigMap⟩

theorem mappedIdentity_eq (h : SameTables m m') (addr : UInt32) : mappedIdentity m' addr = mappedIdentity m addr := by
  rw [mappedIdentity, mappedIdentity, h.identityMap]

theorem failopenUnknownEnabled_eq (h : SameTables m m') : failopenUnknownEnabled m' = failopenUnknownEnabled m := by
  rw [failopenUnknownEnabled, failopenUnknownEnabled, h.runtimeConfigMap]

theorem sourceIdentity_eq (h : SameTables m m') (geneve : Option (Option UInt32)) (saddr : UInt32) :
    sourceIdentity m' geneve saddr = sourceIdentity m geneve saddr := by
  unfold sourceIdentity
  rw [h.mappedIdentity_eq]

end SameTables

theorem countDecodeFail_sameTables (c : Ctx) (geneve : Option (Option UInt32)) (saddr : UInt32) :
    SameTables c.maps (countDecodeFail c geneve saddr).maps := by
  unfold countDecodeFail
  split
  · split
    · exact ⟨rfl, rfl, rfl⟩
    · exact SameTables.refl _
  · exact SameTables.refl _

/-! ### The verdict for a flow -/

def enforceAction (m : Maps) (srcId dstId : UInt32) (key : PolicyKey) (denyAction : TcAct) : TcAct :=
  if srcId = 0 || dstId = 0 then if failopenUnknownEnabled m then .ok else .shot
  else
    match m.policyMap key with
    | none => .shot
    | some verdict =>
      if verdict.action = flowVerdictAllow then .ok
      else if verdict.action = flowVerdictDeny then denyAction
      else if verdict.action = flowVerdictRedirect then .ok
      else .shot

def enforceRedirects (m : Maps) (srcId dstId : UInt32) (key : PolicyKey) : Bool :=
  srcId ≠ 0 && dstId ≠ 0 && (m.policyMap key).any fun verdict => verdict.action = flowVerdictRedirect

theorem SameTables.enforceAction_eq {m m' : Maps} (h : SameTables m m') (srcId dstId : UInt32) (key : PolicyKey)
    (denyAction : TcAct) : enforceAction m' srcId dstId key denyAction = enforceAction m srcId dstId key denyAction := by
  unfold enforceAction
  rw [h.failopenUnknownEnabled_eq, h.policyMap]

theorem opensFlow_skb (c : Ctx) (d : List UInt8) (ip : Nat) (key : FlowKey) : (opensFlow c d ip key).2.skb = c.skb := by
  unfold opensFlow udpFirstSight
  split
  · rfl
  · split
    · split <;> rfl
    · rfl

def marked (skb : Skb) (redirects : Bool) : Skb :=
  if redirects then { skb with mark := skb.mark ||| meridianMarkRedirectPlaceholder } else skb

theorem enforceFlow_spec (env : Env) (c : Ctx) (d : List UInt8) (ip : Nat) (packetBytes : UInt32)
    (srcPort dstPort : UInt16) (srcId dstId : UInt32) (denyAction : TcAct) :
    (enforceFlow env c d ip packetBytes srcPort dstPort srcId dstId denyAction).1 =
        enforceAction c.maps srcId dstId (policyKeyOf srcId dstId dstPort (ipProtocol d ip)) denyAction ∧
      (enforceFlow env c d ip packetBytes srcPort dstPort srcId dstId denyAction).2.skb =
        marked c.skb (enforceRedirects c.maps srcId dstId (policyKeyOf srcId dstId dstPort (ipProtocol d ip))) := by
  unfold enforceFlow enforceAction enforceRedirects marked
  by_cases hids : srcId = 0 ∨ dstId = 0
  · have hcond : (decide (srcId = 0) || decide (dstId = 0)) = true := by simpa using hids
    have hred : (decide (srcId ≠ 0) && decide (dstId ≠ 0)) = false := by
      rcases hids with h | h <;> simp [h]
    rw [if_pos hcond, if_pos hcond, hred]
    cases failopenUnknownEnabled c.maps <;> simp
  · have hcond : ¬(decide (srcId = 0) || decide (dstId = 0)) = true := by simpa using hids
    have hred : (decide (srcId ≠ 0) && decide (dstId ≠ 0)) = true := by simpa using hids
    rw [if_neg hcond, if_neg hcond, hred, Bool.true_and]
    cases c.maps.policyMap (policyKeyOf srcId dstId dstPort (ipProtocol d ip)) with
    | none => simp
    | some verdict =>
      dsimp only [Option.any]
      by_cases hallow : verdict.action = flowVerdictAllow
      · have hskb := opensFlow_skb c d ip (flowKeyOf d ip srcPort dstPort)
        have hne : flowVerdictAllow ≠ flowVerdictRedirect := by decide
        cases hopen : opensFlow c d ip (flowKeyOf d ip srcPort dstPort) with
        | mk opens c' =>
          rw [hopen] at hskb
          cases opens <;> simp [hallow, hne, ← hskb]
      · by_cases hdeny : verdict.action = flowVerdictDeny
        · have hne : flowVerdictDeny ≠ flowVerdictRedirect := by decide
          have hne' : flowVerdictDeny ≠ flowVerdictAllow := by decide
          simp [hdeny, hne, hne']
        · by_cases hredirect : verdict.action = flowVerdictRedirect
          · have hne : flowVerdictRedirect ≠ flowVerdictAllow := by decide
            have hne' : flowVerdictRedirect ≠ flowVerdictDeny := by decide
            simp [hredirect, hne, hne']
          · simp [hallow, hdeny, hredirect]

def entryAction (action : UInt8) (denyAction : TcAct) : TcAct :=
  if action = flowVerdictAllow then .ok
  else if action = flowVerdictDeny then denyAction
  else if action = flowVerdictRedirect then .ok
  else .shot

section
variable {m : Maps} {srcId dstId : UInt32} {key : PolicyKey}

theorem enforce_unknown (h : srcId = 0 ∨ dstId = 0) (denyAction : TcAct) :
    enforceAction m srcId dstId key denyAction = (if failopenUnknownEnabled m then .ok else .shot) ∧
      enforceRedirects m srcId dstId key = false := by
  rcases h with rfl | rfl <;> simp [enforceAction, enforceRedirects]

theorem enforce_missing (hsrc : srcId ≠ 0) (hdst : dstId ≠ 0) (hnone : m.policyMap key = none) (denyAction : TcAct) :
    enforceAction m srcId dstId key denyAction = .shot ∧ enforceRedirects m srcId dstId key = false := by
  simp [enforceAction, enforceRedirects, hsrc, hdst, hnone]

theorem enforce_entry {v : PolicyVerdict} (hsrc : srcId ≠ 0) (hdst : dstId ≠ 0) (hentry : m.policyMap key = some v)
    (denyAction : TcAct) :
    enforceAction m srcId dstId key denyAction = entryAction v.action denyAction ∧
      enforceRedirects m srcId dstId key = decide (v.action = flowVerdictRedirect) := by
  simp [enforceAction, enforceRedirects, entryAction, hsrc, hdst, hentry]

end

/-- With the fail-open bit clear, a flow passes only by an ALLOW or REDIRECT entry. -/
theorem enforceAction_eq_ok {m : Maps} {srcId dstId : UInt32} {key : PolicyKey} {denyAction : TcAct}
    (hclosed : failopenUnknownEnabled m = false) (hdeny : denyAction ≠ .ok)
    (h : enforceAction m srcId dstId key denyAction = .ok) :
    ∃ v, m.policyMap key = some v ∧ (v.action = flowVerdictAllow ∨ v.action = flowVerdictRedirect) := by
  unfold enforceAction at h
  split at h
  · rw [hclosed] at h
    cases h
  · split at h
    · cases h
    · rename_i v hv
      split at h
      · exact ⟨v, hv, Or.inl ‹_›⟩
      · split at h
        · exact absurd h hdeny
        · split at h
          · exact ⟨v, hv, Or.inr ‹_›⟩
          · cases h

/-! ### The exit of the program -/

/-- The exit for the packet at `ip`; `geneve` is the option's identity when it came through a tunnel. -/
def flowExit (m : Maps) (d : List UInt8) (ip : Nat) (geneve : Option (Option UInt32)) : IngressExit :=
  match parseL4Ports d ip with
  | none => .l4Truncated
  | some (_, dstPort) =>
    let srcId := sourceIdentity m geneve (ipSaddr d ip)
    let dstId := mappedIdentity m (ipDaddr d ip)
    if geneve.isSome && ipProtocol d ip = ipprotoTcp && srcId ≠ 0 && !isTcpConnectionOpen d ip then .nonSyn
    else
      .enforced (enforceAction m srcId dstId (policyKeyOf srcId dstId dstPort (ipProtocol d ip))
        (if geneve.isSome then .stolen else .shot))

theorem ingressFlow_exit (env : Env) (c : Ctx) (d : List UInt8) (ip : Nat) (packetBytes : UInt32)
    (geneve : Option (Option UInt32 × StripOffsets)) :
    (ingressFlow env c d ip packetBytes geneve).1 = flowExit c.maps d ip (geneve.map (·.1)) := by
  unfold ingressFlow flowExit
  dsimp only
  cases parseL4Ports d ip with
  | none => rfl
  | some ports =>
    obtain ⟨srcPort, dstPort⟩ := ports
    dsimp only
    rw [Option.isSome_map]
    split
    · rfl
    · have hsame := countDecodeFail_sameTables c (geneve.map (·.1)) (ipSaddr d ip)
      exact congrArg IngressExit.enforced
        ((enforceFlow_spec env _ d ip packetBytes srcPort dstPort _ _ _).1.trans (hsame.enforceAction_eq _ _ _ _))

/-- Outside the tunnel nothing is stripped: the packet changes by its mark only. -/
theorem ingressFlow_plain_skb (env : Env) (c : Ctx) {d : List UInt8} {ip : Nat} (packetBytes : UInt32)
    {srcPort dstPort : UInt16} (hports : parseL4Ports d ip = some (srcPort, dstPort)) :
    (ingressFlow env c d ip packetBytes none).2.skb =
      marked c.skb (enforceRedirects c.maps (mappedIdentity c.maps (ipSaddr d ip)) (mappedIdentity c.maps (ipDaddr d ip))
        (policyKeyOf (mappedIdentity c.maps (ipSaddr d ip)) (mappedIdentity c.maps (ipDaddr d ip)) dstPort
          (ipProtocol d ip))) := by
  unfold ingressFlow
  rw [hports]
  dsimp only [Option.map_none, Option.isSome_none, Bool.false_and]
  rw [if_neg Bool.false_ne_true, ite_self]
  exact (enforceFlow_spec env c d ip packetBytes srcPort dstPort _ _ _).2

theorem SameTables.flowExit_eq {m m' : Maps} (h : SameTables m m') (d : List UInt8) (ip : Nat)
    (geneve : Option (Option UInt32)) : flowExit m' d ip geneve = flowExit m d ip geneve := by
  unfold flowExit
  simp only [h.sourceIdentity_eq, h.mappedIdentity_eq, h.enforceAction_eq]

def ingressExit (m : Maps) (d : List UInt8) : IngressExit :=
  match ingressParse d with
  | .notIpv4 => .notIpv4
  | .badIhl => .badIhl
  | .geneveUnparsed => .geneveUnparsed
  | .plain ip => flowExit m d ip none
  | .tunnel _ g => flowExit m d g.innerIp (some g.identity)

theorem stripOffsets_maps (env : Env) (c : Ctx) (d : List UInt8) (outerIp : Nat) :
    (stripOffsets env c d outerIp).2.maps = c.maps := by
  unfold stripOffsets bpfSkbLoadBytes
  dsimp only
  split <;> rfl

def ingressStart (maps : Maps) (skb : Skb) : Ctx :=
  (metricAdd (metricAdd (Ctx.start skb maps) .packetsTotal 1) .bytesTotal
    (UInt32.ofNat skb.data.length).toUInt64).after skb.data 1

theorem ingressStart_sameTables (maps : Maps) (skb : Skb) : SameTables maps (ingressStart maps skb).maps :=
  ⟨rfl, rfl, rfl⟩

theorem meridianTcIngress_eq {env : Env} (maps : Maps) (skb : Skb) (hpull : env.skbFails 0 = false) :
    meridianTcIngress env maps skb =
      let c := ingressStart maps skb
      match ingressParse skb.data with
      | .notIpv4 => (.notIpv4, c)
      | .badIhl => (.badIhl, c)
      | .geneveUnparsed => (.geneveUnparsed, c)
      | .plain ip => ingressFlow env c skb.data ip (UInt32.ofNat skb.data.length) none
      | .tunnel outerIp g =>
        ingressFlow env (stripOffsets env c skb.data outerIp).2 skb.data g.innerIp (UInt32.ofNat skb.data.length)
          (some (g.identity, (stripOffsets env c skb.data outerIp).1)) := by
  unfold meridianTcIngress bpfSkbPullData
  dsimp only [metricAdd, Ctx.start]
  rw [hpull]
  rfl

theorem meridianTcIngress_exit {env : Env} (maps : Maps) (skb : Skb) (hpull : env.skbFails 0 = false) :
    (meridianTcIngress env maps skb).1 = ingressExit maps skb.data := by
  have hsame := ingressStart_sameTables maps skb
  rw [meridianTcIngress_eq maps skb hpull]
  unfold ingressExit
  cases ingressParse skb.data with
  | notIpv4 => rfl
  | badIhl => rfl
  | geneveUnparsed => rfl
  | plain ip => exact (ingressFlow_exit env _ _ ip _ none).trans (hsame.flowExit_eq _ _ _)
  | tunnel outerIp g =>
    refine (ingressFlow_exit env _ _ g.innerIp _ _).trans ?_
    rw [stripOffsets_maps]
    exact hsame.flowExit_eq _ _ _

/-- A TCP SYN from 10.0.0.1 to port 8080 of 10.0.0.2, outside the tunnel. -/
def plainFrame : List UInt8 :=
  [2, 0, 0, 0, 0, 2, 2, 0, 0, 0, 0, 1, 8, 0] ++ [0x45, 0, 0, 0, 0, 0, 0, 0, 64, 6, 0, 0, 10, 0, 0, 1, 10, 0, 0, 2] ++
  [0x9c, 0x40, 0x1f, 0x90, 0, 0, 0, 0, 0, 0, 0, 0, 0x50, 0x02]

end Meridian.Bpf
