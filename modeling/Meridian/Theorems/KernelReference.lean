import Meridian.Reference.Evaluator
import Meridian.Theorems.IngressVerdict
import Meridian.Theorems.Snapshot

/-! The kernel verdict against the reference verdict: on maps that the writer filled from a rule list and an
    identity list, ingress decides a packet outside the tunnel as the evaluator does. -/

namespace Meridian.Bpf
open Lib Wire Datapath

/-! ### Packets outside the tunnel -/

variable {ip : Nat} {rules : List Reference.Rule}

theorem ingressParse_plain {d : List UInt8} (hip : parseIpv4AfterEth d 0 = some ip)
    (hnot : ¬(ipProtocol d ip = ipprotoUdp ∧ udpDest d (ipPayload d ip) = bpfHtons meridianGeneveUdpPort)) :
    ingressParse d = .plain ip := by
  have hnone : tryParseGeneveInner d ip = none := by
    cases htry : tryParseGeneveInner d ip with
    | none => rfl
    | some g =>
      have hheader := (tryParseGeneveInner_eq_some htry).1
      exact absurd ⟨hheader.proto, hheader.port⟩ hnot
  have houter : isGeneveUdpOuter d ip = false := by
    unfold isGeneveUdpOuter
    split
    · rfl
    · rename_i hproto
      dsimp only
      split
      · rfl
      · exact decide_eq_false fun hport => hnot ⟨not_not.mp hproto, hport⟩
  rw [ingressParse_of_header hip, hnone, houter]
  rfl

def hasPorts (d : List UInt8) (ip : Nat) : Prop := ipProtocol d ip = ipprotoTcp ∨ ipProtocol d ip = ipprotoUdp

instance (d : List UInt8) (ip : Nat) : Decidable (hasPorts d ip) := inferInstanceAs (Decidable (_ ∨ _))

def wireDstPort (d : List UInt8) (ip : Nat) : UInt16 := if hasPorts d ip then loadU16 d (ipPayload d ip + 2) else 0

theorem parseL4Ports_present {d : List UInt8} (hip : looksLikeIpv4 d ip = true)
    (hpresent : hasPorts d ip → ipPayload d ip + l4PortsBytes ≤ d.length) :
    ∃ srcPort, parseL4Ports d ip = some (srcPort, wireDstPort d ip) := by
  obtain ⟨-, -, hmin, hmax⟩ := looksLikeIpv4_iff.mp hip
  have hihl : ¬(decide (ipIhl d ip < ipv4IhlMin) || decide (ipIhl d ip > ipv4IhlMax)) = true := by
    simp only [Bool.or_eq_true, decide_eq_true_eq]
    omega
  unfold parseL4Ports wireDstPort
  rw [if_neg hihl]
  dsimp only
  by_cases hp : hasPorts d ip
  · rw [if_pos hp, if_pos (by simpa [hasPorts] using hp), if_neg (Nat.not_lt.mpr (hpresent hp))]
    exact ⟨_, rfl⟩
  · rw [if_neg hp, if_neg (by simpa [hasPorts] using hp)]
    exact ⟨_, rfl⟩

/-- Outside the tunnel the verdict is that of the addresses' identities, and the packet changes by its mark only. -/
theorem ingress_plain {env : Env} {maps : Maps} {skb : Skb} (hpull : env.skbFails 0 = false)
    (hip : parseIpv4AfterEth skb.data 0 = some ip)
    (hpresent : hasPorts skb.data ip → ipPayload skb.data ip + l4PortsBytes ≤ skb.data.length)
    (hnot : ¬(ipProtocol skb.data ip = ipprotoUdp ∧ udpDest skb.data (ipPayload skb.data ip) = bpfHtons meridianGeneveUdpPort))
    {srcId dstId : UInt32} (hsrc : mappedIdentity maps (ipSaddr skb.data ip) = srcId)
    (hdst : mappedIdentity maps (ipDaddr skb.data ip) = dstId) : (meridianTcIngress env maps skb).1.action =
        enforceAction maps srcId dstId
          (policyKeyOf srcId dstId (wireDstPort skb.data ip) (ipProtocol skb.data ip)) .shot ∧
      (meridianTcIngress env maps skb).2.skb =
        marked skb (enforceRedirects maps srcId dstId
          (policyKeyOf srcId dstId (wireDstPort skb.data ip) (ipProtocol skb.data ip))) := by
  subst hsrc hdst
  have hplain : ingressParse skb.data = .plain ip := ingressParse_plain hip hnot
  obtain ⟨srcPort, hports⟩ := parseL4Ports_present (parseIpv4AfterEth_eq_some_iff.mp hip).2 hpresent
  constructor
  · rw [meridianTcIngress_exit maps skb hpull, ingressExit, hplain]
    simp only [flowExit, hports, Option.isSome_none, Bool.false_and, Bool.false_eq_true, if_false]
    rfl
  · rw [meridianTcIngress_eq maps skb hpull, hplain]
    exact ingressFlow_plain_skb env _ _ hports

/-! ### The maps of a rule list -/

def wireRule (rule : Reference.Rule) : PolicyRule :=
  { key := { srcIdentity := rule.srcIdentity, dstIdentity := rule.dstIdentity, dstPort := rule.dstPort,
             protocol := rule.protocol, direction := rule.direction }
    verdict := rule.verdict }

def seedPlan (identities : List Identity) (rules : List Reference.Rule) : CommitPlan :=
  { identityUpserts := identities, identityDeletes := [], policyUpserts := rules.map wireRule, policyDeletes := [] }

def kernelKey (key : Reference.RuleKey) : PolicyKey :=
  { srcId := key.srcID, dstId := key.dstID, dstPort := key.dstPort, proto := key.protocol, direction := key.direction }

theorem kernelKey_injective : Function.Injective kernelKey := by
  rintro ⟨s, t, p, pr, dir⟩ ⟨s', t', p', pr', dir'⟩ h
  simp only [kernelKey, PolicyKey.mk.injEq] at h
  obtain ⟨rfl, rfl, rfl, rfl, rfl⟩ := h
  rfl

theorem policyLog_seedPlan (identities : List Identity) (rules : List Reference.Rule) (key : Reference.RuleKey) :
    Table.writes (fun _ => none) (policyLog (seedPlan identities rules)) (kernelKey key) =
      (Table.writes (fun _ => none) (Reference.ruleWrites rules) key).map translatePolicyVerdict := by
  rw [← Table.writes_image kernelKey_injective]
  unfold policyLog seedPlan Reference.ruleWrites
  rw [List.map_nil, List.append_nil, List.map_map, List.map_map]
  rfl

theorem identityLog_seedPlan (w : Writer) (identities : List Identity) (rules : List Reference.Rule) :
    identityLog w (seedPlan identities rules) = identities.filterMap podWrite :=
  List.append_nil _

/-- The maps that the writer fills from empty ones. -/
theorem seedPlan_maps {identities : List Identity} {fails : Nat → Bool} {w : Writer}
    (hdistinct : DistinctIdentities identities)
    (happly : apply fails (seedPlan identities rules) (Writer.new (fun _ => none) fun _ => none) = (none, w)) :
    HoldsIdentities w.identityMap identities ∧
      ∀ key, w.policyMap (kernelKey key) =
        (Table.writes (fun _ => none) (Reference.ruleWrites rules) key).map translatePolicyVerdict := by
  obtain ⟨hidents, hpolicies⟩ := apply_maps_of_ok (congrArg Prod.fst happly)
  rw [happly] at hidents hpolicies
  constructor
  · rw [identityLog_seedPlan] at hidents
    exact hidents ▸ holdsIdentities_podWrites hdistinct
  · intro key
    exact (congrFun hpolicies _).trans (policyLog_seedPlan identities rules key)

theorem ruleWrites_action (hvalid : ∀ rule ∈ rules, Reference.validateRule rule = none) {key : Reference.RuleKey}
    {v : Wire.PolicyVerdict} (h : Table.writes (fun _ => none) (Reference.ruleWrites rules) key = some v) :
    v.action = policyActionAllow ∨ v.action = policyActionDeny ∨ v.action = policyActionRedirectProxy := by
  obtain ⟨rule, hrule, -, rfl⟩ := Table.exists_of_writes_puts h
  have hrule := hvalid rule hrule
  unfold Reference.validateRule at hrule
  split at hrule
  · cases hrule
  · split at hrule
    · cases hrule
    · rw [Option.map_eq_none_iff] at hrule
      exact (Reference.validateVerdict_eq_none_iff.mp hrule).1

/-! ### Verdicts -/

/-- A kernel action and a decision to mark that agree with the action of a reference verdict. -/
structure Agrees (verdict : PolicyAction) (action : TcAct) (redirects : Bool) : Prop where
  ok : action = .ok ↔ verdict = policyActionAllow ∨ verdict = policyActionRedirectProxy
  shot : action = .shot ↔ verdict = policyActionDeny
  mark : redirects = true ↔ verdict = policyActionRedirectProxy

theorem agrees_entry {verdict : PolicyAction}
    (h : verdict = policyActionAllow ∨ verdict = policyActionDeny ∨ verdict = policyActionRedirectProxy) :
    Agrees verdict (entryAction verdict .shot) (decide (verdict = flowVerdictRedirect)) := by
  rcases h with rfl | rfl | rfl <;> exact ⟨by decide, by decide, by decide⟩

theorem agrees_unknown {mode : Reference.UnknownIdentityMode}
    (h : mode = Reference.unknownIdentityFailOpen ∨ mode = Reference.unknownIdentityFailClosed) :
    Agrees (Reference.unknownVerdict mode).action
      (if decide (mode = Reference.unknownIdentityFailOpen) then .ok else .shot) false := by
  rcases h with rfl | rfl <;> exact ⟨by decide, by decide, by decide⟩

/-- The flow tuple of a packet: the identities of its addresses, zero where there is none, and its port in
    host order. -/
def flowInput (identities : List Identity) (d : List UInt8) (ip : Nat) : Reference.Input :=
  { srcIdentity := identityAt identities (ipSaddr d ip), dstIdentity := identityAt identities (ipDaddr d ip),
    dstPort := bpfNtohs (wireDstPort d ip), protocol := ipProtocol d ip, direction := directionIngress }

/-- The kernel's decision on a tuple agrees with the evaluator's, once its map holds the evaluator's table. -/
theorem enforce_agrees {m : Maps} {e : Reference.MapEvaluator} {mode : Reference.UnknownIdentityMode}
    (hnew : Reference.newEvaluator mode rules = .ok e)
    (hposture : failopenUnknownEnabled m = decide (mode = Reference.unknownIdentityFailOpen))
    (hpolicy : ∀ key, m.policyMap (kernelKey key) = (e.rules key).map translatePolicyVerdict) (input : Reference.Input) :
    ∃ v, e.evaluate .live input = .ok v ∧
      Agrees v.action
        (enforceAction m input.srcIdentity input.dstIdentity (kernelKey input.key) .shot)
        (enforceRedirects m input.srcIdentity input.dstIdentity (kernelKey input.key)) := by
  obtain ⟨hmode, hvalid, -, rfl⟩ := Reference.newEvaluator_eq_ok_iff.mp hnew
  have hentry : m.policyMap (kernelKey input.key) =
      (Table.writes (fun _ => none) (Reference.ruleWrites rules) input.key).map translatePolicyVerdict := hpolicy input.key
  by_cases hids : input.srcIdentity = identityUnknown ∨ input.dstIdentity = identityUnknown
  · -- An unknown identity: the posture decides.
    obtain ⟨haction, hredirect⟩ := enforce_unknown hids .shot
    refine ⟨_, Reference.evaluate_unknown _ hids, ?_⟩
    rw [haction, hredirect, hposture]
    exact agrees_unknown hmode
  · obtain ⟨hs, ht⟩ := not_or.mp hids
    refine ⟨_, Reference.evaluate_known _ hids, ?_⟩
    dsimp only
    cases hv : Table.writes (fun _ => none) (Reference.ruleWrites rules) input.key with
    | none =>
      rw [hv] at hentry
      obtain ⟨haction, hredirect⟩ := enforce_missing hs ht hentry .shot
      rw [haction, hredirect]
      exact ⟨by decide, by decide, by decide⟩
    | some v =>
      rw [hv] at hentry
      obtain ⟨haction, hredirect⟩ := enforce_entry hs ht hentry .shot
      rw [haction, hredirect]
      exact agrees_entry (ruleWrites_action hvalid hv)

/-- The kernel decides a packet outside the tunnel as the reference evaluator does, on maps that the writer
    filled from the same rules. -/
theorem kernel_verdict_eq_reference {identities : List Identity} {rules : List Reference.Rule}
    {mode : Reference.UnknownIdentityMode} {e : Reference.MapEvaluator} {fails : Nat → Bool} {w : Writer} {env : Env}
    {maps : Maps} {skb : Skb} {ip : Nat} (hpods : DistinctPods identities)
    (hnew : Reference.newEvaluator mode rules = .ok e)
    (happly : apply fails (seedPlan identities rules) (Writer.new (fun _ => none) fun _ => none) = (none, w))
    (hidentityMap : maps.identityMap = w.identityMap) (hpolicyMap : maps.policyMap = w.policyMap)
    (hposture : failopenUnknownEnabled maps = decide (mode = Reference.unknownIdentityFailOpen))
    (hpull : env.skbFails 0 = false) (hip : parseIpv4AfterEth skb.data 0 = some ip)
    (hpresent : hasPorts skb.data ip → ipPayload skb.data ip + l4PortsBytes ≤ skb.data.length)
    (hnot : ¬(ipProtocol skb.data ip = ipprotoUdp ∧
      udpDest skb.data (ipPayload skb.data ip) = bpfHtons meridianGeneveUdpPort)) :
    ∃ v, e.evaluate .live (flowInput identities skb.data ip) = .ok v ∧
      ((meridianTcIngress env maps skb).1.action = .ok ↔
        v.action = policyActionAllow ∨ v.action = policyActionRedirectProxy) ∧
      ((meridianTcIngress env maps skb).1.action = .shot ↔ v.action = policyActionDeny) ∧
      (meridianTcIngress env maps skb).2.skb.mark =
        if v.action = policyActionRedirectProxy then skb.mark ||| meridianMarkRedirectPlaceholder else skb.mark := by
  obtain ⟨hholds, hpolicies⟩ := seedPlan_maps hpods.toDistinctIdentities happly
  rw [← hidentityMap] at hholds
  have hpolicy : ∀ key, maps.policyMap (kernelKey key) = (e.rules key).map translatePolicyVerdict := by
    obtain ⟨-, -, -, rfl⟩ := Reference.newEvaluator_eq_ok_iff.mp hnew
    rw [hpolicyMap]
    exact hpolicies
  obtain ⟨v, heval, hagree⟩ := enforce_agrees hnew hposture hpolicy (flowInput identities skb.data ip)
  obtain ⟨haction, hskb⟩ := ingress_plain hpull hip hpresent hnot (hholds.getD_eq _) (hholds.getD_eq _)
  refine ⟨v, heval, ?_, ?_, ?_⟩
  · rw [haction]
    exact hagree.ok
  · rw [haction]
    exact hagree.shot
  · rw [hskb]
    by_cases hred : v.action = policyActionRedirectProxy
    · exact (congrArg Skb.mark (if_pos (hagree.mark.mpr hred))).trans (if_pos hred).symm
    · exact (congrArg Skb.mark (if_neg fun h => hred (hagree.mark.mp h))).trans (if_neg hred).symm

def framePods : List Identity :=
  [⟨7, "10.0.0.1", "spiffe://td/client", "demo", "client"⟩, ⟨8, "10.0.0.2", "spiffe://td/server", "demo", "server"⟩]

def redirectRule : Reference.Rule := ⟨7, 8, 8080, ipprotoTcp, directionIngress, ⟨policyActionRedirectProxy, 0⟩⟩

theorem framePods_distinct : DistinctPods framePods where
  ids := by decide
  known := by decide
  valid := by
    intro i hi
    rcases List.mem_pair.mp hi with rfl | rfl
    · exact ⟨_, rfl⟩
    · exact ⟨_, rfl⟩
  addrs := by decide

def frameWriter : Writer :=
  (apply (fun _ => false) (seedPlan framePods [redirectRule]) (Writer.new (fun _ => none) fun _ => none)).2

def frameMaps : Maps := Maps.fresh frameWriter.identityMap frameWriter.policyMap none

theorem kernel_verdict_eq_reference_redirect :
    ∃ e, Reference.newEvaluator Reference.unknownIdentityFailClosed [redirectRule] = .ok e ∧
      apply (fun _ => false) (seedPlan framePods [redirectRule]) (Writer.new (fun _ => none) fun _ => none) =
        (none, frameWriter) ∧
      ∃ v, e.evaluate .live (flowInput framePods plainFrame 14) = .ok v ∧
        ((meridianTcIngress quietEnv frameMaps ⟨plainFrame, 0⟩).1.action = .ok ↔
          v.action = policyActionAllow ∨ v.action = policyActionRedirectProxy) ∧
        ((meridianTcIngress quietEnv frameMaps ⟨plainFrame, 0⟩).1.action = .shot ↔ v.action = policyActionDeny) ∧
        (meridianTcIngress quietEnv frameMaps ⟨plainFrame, 0⟩).2.skb.mark =
          if v.action = policyActionRedirectProxy then 0 ||| meridianMarkRedirectPlaceholder else 0 :=
  have hnew : Reference.newEvaluator Reference.unknownIdentityFailClosed [redirectRule] =
      .ok ⟨Reference.unknownIdentityFailClosed, Table.writes (fun _ => none) (Reference.ruleWrites [redirectRule])⟩ := rfl
  have happly : apply (fun _ => false) (seedPlan framePods [redirectRule]) (Writer.new (fun _ => none) fun _ => none) =
      (none, frameWriter) := Prod.ext (by decide) rfl
  ⟨_, hnew, happly, @kernel_verdict_eq_reference framePods [redirectRule] Reference.unknownIdentityFailClosed _
    (fun _ => false) frameWriter quietEnv frameMaps ⟨plainFrame, 0⟩ 14 framePods_distinct hnew happly rfl rfl (by decide) rfl
    (by decide) (by decide) (by decide)⟩

end Meridian.Bpf
