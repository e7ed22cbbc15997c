import Mathlib.Data.List.Find
import Mathlib.Logic.Basic
import Meridian.Wire

/-! Authorisation in the node proxy (`internal/proxy/authz.go`). -/

namespace Meridian.Proxy
open Wire

/-- `netip.AddrPort`; the address is its four or sixteen bytes. -/
structure AddrPort where
  addr : List UInt8
  port : UInt16
  deriving DecidableEq, Repr

inductive AuthzResult where
  | allow
  | deny
  | redirectProxy
  deriving DecidableEq, Repr

/-- The loop over the rules. An action outside the three falls through to the next rule. -/
def evalRules (srcID dstID : IdentityID) (port : UInt16) (proto : UInt8) : List PolicyRule → AuthzResult
  | [] => .deny
  | rule :: rest =>
    if rule.key.srcIdentity ≠ srcID then evalRules srcID dstID port proto rest
    else if rule.key.dstIdentity ≠ dstID then evalRules srcID dstID port proto rest
    else if rule.key.dstPort ≠ 0 && rule.key.dstPort ≠ port then evalRules srcID dstID port proto rest
    else if rule.key.protocol ≠ 0 && rule.key.protocol ≠ proto then evalRules srcID dstID port proto rest
    else if rule.verdict.action = policyActionAllow then .allow
    else if rule.verdict.action = policyActionDeny then .deny
    else if rule.verdict.action = policyActionRedirectProxy then .redirectProxy
    else evalRules srcID dstID port proto rest

def evalPolicy (snap : ProxyPolicySnapshot) (srcID dstID : IdentityID) (dst : AddrPort) (proto : UInt8) : AuthzResult :=
  evalRules srcID dstID dst.port proto snap.policies

/-! ### The deciding rule -/

/-- The rule speaks about the flow: port 0 and protocol 0 stand for all. The direction is not looked at. -/
def covers (srcID dstID : IdentityID) (port : UInt16) (proto : UInt8) (rule : PolicyRule) : Bool :=
  rule.key.srcIdentity = srcID && rule.key.dstIdentity = dstID &&
    (rule.key.dstPort = 0 || rule.key.dstPort = port) && (rule.key.protocol = 0 || rule.key.protocol = proto)

def authzOf (action : PolicyAction) : AuthzResult :=
  if action = policyActionAllow then .allow else if action = policyActionDeny then .deny else .redirectProxy

/-- The rule covers the flow, and its action is one of the three. -/
def decides (srcID dstID : IdentityID) (port : UInt16) (proto : UInt8) (rule : PolicyRule) : Bool :=
  covers srcID dstID port proto rule &&
    (rule.verdict.action = policyActionAllow || rule.verdict.action = policyActionDeny ||
      rule.verdict.action = policyActionRedirectProxy)

section
variable {srcID dstID : IdentityID} {port : UInt16} {proto : UInt8} {rules : List PolicyRule}

theorem covers_iff {rule : PolicyRule} : covers srcID dstID port proto rule = true ↔
    rule.key.srcIdentity = srcID ∧ rule.key.dstIdentity = dstID ∧
      (rule.key.dstPort = 0 ∨ rule.key.dstPort = port) ∧ (rule.key.protocol = 0 ∨ rule.key.protocol = proto) := by
  simp [covers, and_assoc]

theorem evalRules_cons (rule : PolicyRule) (rest : List PolicyRule) :
    evalRules srcID dstID port proto (rule :: rest) =
      if decides srcID dstID port proto rule then authzOf rule.verdict.action
      else evalRules srcID dstID port proto rest := by
  rw [evalRules]
  cases hcovers : covers srcID dstID port proto rule with
  | true =>
    obtain ⟨hsrc, hdst, hport, hproto⟩ := covers_iff.mp hcovers
    rw [if_neg (not_not.mpr hsrc), if_neg (not_not.mpr hdst), if_neg (by simpa [imp_iff_not_or] using hport),
      if_neg (by simpa [imp_iff_not_or] using hproto), decides, hcovers, authzOf]
    by_cases hallow : rule.verdict.action = policyActionAllow
    · simp [hallow]
    · by_cases hdeny : rule.verdict.action = policyActionDeny
      · simp [hdeny]
      · simp [hallow, hdeny]
  | false =>
    rw [decides, hcovers]
    split
    · rfl
    · split
      · rfl
      · split
        · rfl
        · split
          · rfl
          · rename_i hsrc hdst hport hproto
            simp_all [covers]

/-- The first rule with a known action that covers the flow decides. -/
theorem evalRules_eq : evalRules srcID dstID port proto rules =
    ((rules.find? (decides srcID dstID port proto)).map fun rule => authzOf rule.verdict.action).getD .deny := by
  induction rules with
  | nil => rfl
  | cons rule rest ih =>
    rw [evalRules_cons, List.find?_cons]
    cases decides srcID dstID port proto rule with
    | true => rfl
    | false => exact ih

/-- Where every action is one of the three, the first rule that covers the flow decides. -/
theorem evalRules_eq_first (hactions : ∀ rule ∈ rules, rule.verdict.action = policyActionAllow ∨
      rule.verdict.action = policyActionDeny ∨ rule.verdict.action = policyActionRedirectProxy) :
    evalRules srcID dstID port proto rules =
      ((rules.find? (covers srcID dstID port proto)).map fun rule => authzOf rule.verdict.action).getD .deny := by
  have hsame : ∀ rule ∈ rules, decides srcID dstID port proto rule = covers srcID dstID port proto rule := by
    intro rule hrule
    unfold decides
    rcases hactions rule hrule with haction | haction | haction <;> simp [haction]
  rw [evalRules_eq, List.find?_congr hsame]

theorem evalRules_eq_deny_iff : evalRules srcID dstID port proto rules = .deny ↔
    ∀ rule, rules.find? (decides srcID dstID port proto) = some rule → rule.verdict.action = policyActionDeny := by
  rw [evalRules_eq]
  cases hfind : rules.find? (decides srcID dstID port proto) with
  | none => simp
  | some rule =>
    have hknown := List.find?_some hfind
    simp only [decides, Bool.and_eq_true, Bool.or_eq_true, decide_eq_true_eq] at hknown
    simp only [Option.map_some, Option.getD_some, Option.some.injEq, forall_eq']
    rcases hknown.2 with (haction | haction) | haction <;> rw [haction] <;> decide

end

end Meridian.Proxy
