import Meridian.Proxy.Authz
import Meridian.Theorems.KernelReference

/-! The proxy's authorisation against the reference evaluator. The proxy takes the first rule in the list that covers
    the flow, with zero for any port and any protocol; the evaluator looks up one exact key. They agree when the
    evaluator is asked under the port and protocol of the rule that the proxy found. -/

namespace Meridian.Proxy
open Lib Wire Bpf

/-- The result says what the action says. -/
structure Mirrors (result : AuthzResult) (action : PolicyAction) : Prop where
  allow : result = .allow ↔ action = policyActionAllow
  deny : result = .deny ↔ action = policyActionDeny
  redirectProxy : result = .redirectProxy ↔ action = policyActionRedirectProxy

theorem mirrors_authzOf {action : PolicyAction} (h : Reference.KnownAction action) : Mirrors (authzOf action) action := by
  rcases h with rfl | rfl | rfl <;> exact ⟨by decide, by decide, by decide⟩

theorem mirrors_deny : Mirrors .deny policyActionDeny := mirrors_authzOf (.inr (.inl rfl))

/-- The port and protocol under which the proxy finds a flow: those of the first rule that covers it, or the flow's
    own when there is none. -/
def foundAt (rules : List PolicyRule) (srcID dstID : IdentityID) (port : UInt16) (proto : UInt8) : UInt16 × UInt8 :=
  match rules.find? (covers srcID dstID port proto) with
  | some rule => (rule.key.dstPort, rule.key.protocol)
  | none => (port, proto)

section
variable {rules : List Reference.Rule} {rule : Reference.Rule}

theorem validateRule_known (h : Reference.validateRule rule = none) :
    rule.srcIdentity ≠ identityUnknown ∧ rule.dstIdentity ≠ identityUnknown ∧
      Reference.KnownAction rule.verdict.action := by
  unfold Reference.validateRule at h
  split at h
  · cases h
  · rename_i hknown
    split at h
    · cases h
    · have hverdict := Reference.validateVerdict_eq_none_iff.mp (Option.map_eq_none_iff.mp h)
      simp only [Bool.or_eq_true, decide_eq_true_eq, not_or] at hknown
      exact ⟨hknown.1, hknown.2, hverdict.1⟩

/-- The evaluator's answer for the key of one of its rules. -/
theorem evaluate_rule {e : Reference.MapEvaluator} {mode : Reference.UnknownIdentityMode}
    (hnew : Reference.newEvaluator mode rules = .ok e) (hrule : rule ∈ rules) :
    e.evaluate .live ⟨rule.srcIdentity, rule.dstIdentity, rule.dstPort, rule.protocol, rule.direction⟩ =
      .ok rule.verdict := by
  obtain ⟨-, hvalid, hnodup, rfl⟩ := Reference.newEvaluator_eq_ok_iff.mp hnew
  obtain ⟨hsrc, hdst, -⟩ := validateRule_known (hvalid rule hrule)
  have hentry := (Reference.writes_ruleWrites_eq_some_iff hnodup).mpr ⟨rule, hrule, rfl, rfl⟩
  rw [Reference.evaluate_known _ (not_or.mpr ⟨hsrc, hdst⟩)]
  exact congrArg (fun v => Except.ok (Option.getD v _)) hentry

/-- With no rule for the key, the closed evaluator denies, whether the identities are known or not. -/
theorem evaluate_missing {e : Reference.MapEvaluator}
    (hnew : Reference.newEvaluator Reference.unknownIdentityFailClosed rules = .ok e) {input : Reference.Input}
    (hmiss : ∀ rule ∈ rules, Reference.keyFromRule rule ≠ input.key) :
    e.evaluate .live input = .ok ⟨policyActionDeny, 0⟩ := by
  obtain ⟨-, -, hnodup, rfl⟩ := Reference.newEvaluator_eq_ok_iff.mp hnew
  by_cases hunknown : input.srcIdentity = identityUnknown ∨ input.dstIdentity = identityUnknown
  · rw [Reference.evaluate_unknown _ hunknown]
    rfl
  · have hnone : Table.writes (fun _ => none) (Reference.ruleWrites rules) input.key = none := by
      cases hentry : Table.writes (fun _ => none) (Reference.ruleWrites rules) input.key with
      | none => rfl
      | some v =>
        obtain ⟨rule, hrule, hkey, -⟩ := (Reference.writes_ruleWrites_eq_some_iff hnodup).mp hentry
        exact absurd hkey (hmiss rule hrule)
    rw [Reference.evaluate_known _ hunknown]
    exact congrArg (fun v => Except.ok (Option.getD v _)) hnone

end

/-- The proxy decides as the closed evaluator does under the port and protocol at which the proxy finds the flow,
    as long as the rule it finds is an ingress rule. -/
theorem evalPolicy_mirrors_reference {rules : List Reference.Rule} {e : Reference.MapEvaluator}
    (hnew : Reference.newEvaluator Reference.unknownIdentityFailClosed rules = .ok e) (version : String)
    (srcID dstID : IdentityID) (dst : AddrPort)
    (hingress : ∀ rule, (rules.map wireRule).find? (covers srcID dstID dst.port 6) = some rule →
      rule.key.direction = directionIngress) :
    ∃ v, e.evaluate .live
        ⟨srcID, dstID, (foundAt (rules.map wireRule) srcID dstID dst.port 6).1,
          (foundAt (rules.map wireRule) srcID dstID dst.port 6).2, directionIngress⟩ = .ok v ∧
      Mirrors (evalPolicy ⟨version, rules.map wireRule⟩ srcID dstID dst 6) v.action := by
  obtain ⟨-, hvalid, -, -⟩ := Reference.newEvaluator_eq_ok_iff.mp hnew
  have hactions : ∀ rule ∈ rules.map wireRule, Reference.KnownAction rule.verdict.action := by
    intro wired hwired
    obtain ⟨rule, hrule, rfl⟩ := List.mem_map.mp hwired
    exact (validateRule_known (hvalid rule hrule)).2.2
  unfold evalPolicy foundAt
  rw [evalRules_eq_first hactions]
  cases hfind : (rules.map wireRule).find? (covers srcID dstID dst.port 6) with
  | none =>
    refine ⟨_, evaluate_missing hnew fun rule hrule hkey => ?_, mirrors_deny⟩
    -- A rule under the flow's own key would cover it.
    have hcovers : covers srcID dstID dst.port 6 (wireRule rule) = true := by
      obtain ⟨hsrc, hdst, hport, hproto, -⟩ := Reference.RuleKey.mk.inj hkey
      exact covers_iff.mpr ⟨hsrc, hdst, .inr hport, .inr hproto⟩
    have hnot := List.find?_eq_none.mp hfind _ (List.mem_map_of_mem hrule)
    exact hnot hcovers
  | some wired =>
    obtain ⟨rule, hrule, rfl⟩ := List.mem_map.mp (List.mem_of_find?_eq_some hfind)
    obtain ⟨rfl, rfl, -, -⟩ := covers_iff.mp (List.find?_some hfind)
    have heval := evaluate_rule hnew hrule
    rw [show rule.direction = directionIngress from hingress _ hfind] at heval
    exact ⟨rule.verdict, heval, mirrors_authzOf (validateRule_known (hvalid rule hrule)).2.2⟩

/-- A rule for every port, as the proxy reads it. -/
def anyPortRule : Reference.Rule := ⟨7, 8, 0, 6, directionIngress, ⟨policyActionAllow, 0⟩⟩

theorem evalPolicy_mirrors_reference_any_port :
    ∃ e, Reference.newEvaluator Reference.unknownIdentityFailClosed [anyPortRule] = .ok e ∧
      ∃ v, e.evaluate .live ⟨7, 8, 0, 6, directionIngress⟩ = .ok v ∧
        Mirrors (evalPolicy ⟨"v1", [wireRule anyPortRule]⟩ 7 8 ⟨[10, 0, 0, 2], 8080⟩ 6) v.action := by
  have hnew : Reference.newEvaluator Reference.unknownIdentityFailClosed [anyPortRule] =
      .ok ⟨Reference.unknownIdentityFailClosed, Table.writes (fun _ => none) (Reference.ruleWrites [anyPortRule])⟩ := rfl
  refine ⟨_, hnew, ?_⟩
  exact evalPolicy_mirrors_reference hnew "v1" 7 8 ⟨[10, 0, 0, 2], 8080⟩ (by rintro _ ⟨⟩; rfl)

/-- The evaluator knows no rule for every port: it denies a flow that the proxy allows. -/
theorem evalPolicy_port_wildcard :
    ∃ e, Reference.newEvaluator Reference.unknownIdentityFailClosed [anyPortRule] = .ok e ∧
      e.evaluate .live ⟨7, 8, 8080, 6, directionIngress⟩ = .ok ⟨policyActionDeny, 0⟩ ∧
      evalPolicy ⟨"v1", [wireRule anyPortRule]⟩ 7 8 ⟨[10, 0, 0, 2], 8080⟩ 6 = .allow :=
  ⟨_, rfl, rfl, rfl⟩

end Meridian.Proxy
