import Meridian.Lib.Json
import Meridian.Wire

/-! Admission of compiled rules by the administrative REST surface (`internal/control/rest`). -/

namespace Meridian.Rest
open Lib Wire

inductive ApiError where
  | invalidBody (err : JsonError)
  | invalidPolicy (message : String)
  | storeError (message : String)
  deriving DecidableEq, Repr

def policyRuleKeyFields : List (JsonField PolicyRuleKey) :=
  [uintField "SrcIdentity" 32 fun n k => { k with srcIdentity := UInt32.ofNat n },
   uintField "DstIdentity" 32 fun n k => { k with dstIdentity := UInt32.ofNat n },
   uintField "DstPort" 16 fun n k => { k with dstPort := UInt16.ofNat n },
   uintField "Protocol" 8 fun n k => { k with protocol := UInt8.ofNat n },
   uintField "Direction" 8 fun n k => { k with direction := UInt8.ofNat n }]

def policyVerdictFields : List (JsonField Wire.PolicyVerdict) :=
  [uintField "Action" 8 fun n v => { v with action := UInt8.ofNat n },
   uintField "Flags" 8 fun n v => { v with flags := UInt8.ofNat n }]

def policyRuleFields : List (JsonField PolicyRule) :=
  [structField "Key" policyRuleKeyFields (·.key) fun k r => { r with key := k },
   structField "Verdict" policyVerdictFields (·.verdict) fun v r => { r with verdict := v }]

def decodeStrict (body : JsonText) : Except JsonError PolicyRule :=
  strictDecode policyRuleFields ⟨⟨0, 0, 0, 0, 0⟩, ⟨0, 0⟩⟩ body

def validatePolicyRule (rule : PolicyRule) : Option String :=
  if rule.key.srcIdentity = identityUnknown || rule.key.dstIdentity = identityUnknown then
    some "policy must not reference unknown identity (0)"
  else if rule.key.dstPort = 0 then some "policy dstPort must be non-zero"
  else if rule.key.direction ≠ directionIngress && rule.key.direction ≠ directionEgress then
    some ("unsupported direction: " ++ toString rule.key.direction.toNat)
  else if rule.verdict.action ≠ policyActionAllow && rule.verdict.action ≠ policyActionDeny &&
      rule.verdict.action ≠ policyActionRedirectProxy then
    some ("unsupported action: " ++ toString rule.verdict.action.toNat)
  else none

/-- The rule that a request creates; `putPolicy` is the error of the store, if it has one. -/
def handleCreatePolicy (putPolicy : PolicyRule → Option String) (body : JsonText) : Except ApiError PolicyRule :=
  match decodeStrict body with
  | .error e => .error (.invalidBody e)
  | .ok rule =>
    match validatePolicyRule rule with
    | some message => .error (.invalidPolicy message)
    | none =>
      match putPolicy rule with
      | some message => .error (.storeError message)
      | none => .ok rule

/-! ### What is admitted -/

theorem validatePolicyRule_eq_none_iff {rule : PolicyRule} : validatePolicyRule rule = none ↔
    rule.key.srcIdentity ≠ 0 ∧ rule.key.dstIdentity ≠ 0 ∧ rule.key.dstPort ≠ 0 ∧
      (rule.key.direction = directionIngress ∨ rule.key.direction = directionEgress) ∧
      (rule.verdict.action = policyActionAllow ∨ rule.verdict.action = policyActionDeny ∨
        rule.verdict.action = policyActionRedirectProxy) := by
  unfold validatePolicyRule identityUnknown
  by_cases hsrc : rule.key.srcIdentity = 0
  · simp [hsrc]
  by_cases hdst : rule.key.dstIdentity = 0
  · simp [hdst]
  by_cases hport : rule.key.dstPort = 0
  · simp [hsrc, hdst, hport]
  by_cases hdir : rule.key.direction = directionIngress ∨ rule.key.direction = directionEgress
  · by_cases hact : rule.verdict.action = policyActionAllow ∨ rule.verdict.action = policyActionDeny ∨
        rule.verdict.action = policyActionRedirectProxy
    · rcases hdir with h | h <;> rcases hact with h' | h' | h' <;> simp [hsrc, hdst, hport, h, h']
    · simp only [not_or] at hact
      rcases hdir with h | h <;> simp [hsrc, hdst, hport, h, hact]
  · simp only [not_or] at hdir
    simp [hsrc, hdst, hport, hdir]

def requestBody (rule : PolicyRule) : JsonText :=
  .value (.obj
    [("Key", .obj
       [("SrcIdentity", .num rule.key.srcIdentity.toNat), ("DstIdentity", .num rule.key.dstIdentity.toNat),
        ("DstPort", .num rule.key.dstPort.toNat), ("Protocol", .num rule.key.protocol.toNat),
        ("Direction", .num rule.key.direction.toNat)]),
     ("Verdict", .obj [("Action", .num rule.verdict.action.toNat), ("Flags", .num rule.verdict.flags.toNat)])]) false

theorem decodeStrict_requestBody (rule : PolicyRule) : decodeStrict (requestBody rule) = .ok rule := by
  have hkey : ∀ k : PolicyRuleKey, decodeMembers policyRuleKeyFields
      [("SrcIdentity", .num k.srcIdentity.toNat), ("DstIdentity", .num k.dstIdentity.toNat),
       ("DstPort", .num k.dstPort.toNat), ("Protocol", .num k.protocol.toNat), ("Direction", .num k.direction.toNat)]
      ⟨0, 0, 0, 0, 0⟩ = .ok k := by
    intro k
    rw [decodeMembers_cons rfl (uintField_num k.srcIdentity.toNat_lt _),
      decodeMembers_cons rfl (uintField_num k.dstIdentity.toNat_lt _),
      decodeMembers_cons rfl (uintField_num k.dstPort.toNat_lt _),
      decodeMembers_cons rfl (uintField_num k.protocol.toNat_lt _),
      decodeMembers_cons rfl (uintField_num k.direction.toNat_lt _)]
    simp only [decodeMembers, UInt32.ofNat_toNat, UInt16.ofNat_toNat, UInt8.ofNat_toNat]
  have hverdict : ∀ v : Wire.PolicyVerdict, decodeMembers policyVerdictFields
      [("Action", .num v.action.toNat), ("Flags", .num v.flags.toNat)] ⟨0, 0⟩ = .ok v := by
    intro v
    rw [decodeMembers_cons rfl (uintField_num v.action.toNat_lt _),
      decodeMembers_cons rfl (uintField_num v.flags.toNat_lt _)]
    simp only [decodeMembers, UInt8.ofNat_toNat]
  refine strictDecode_obj ?_
  rw [decodeMembers_cons (q := ⟨rule.key, ⟨0, 0⟩⟩) rfl
      (structField_obj (r := ⟨⟨0, 0, 0, 0, 0⟩, ⟨0, 0⟩⟩) (g := PolicyRule.key) (hkey rule.key)),
    decodeMembers_cons (q := rule) rfl
      (structField_obj (r := ⟨rule.key, ⟨0, 0⟩⟩) (g := PolicyRule.verdict) (hverdict rule.verdict))]
  rfl

theorem handleCreatePolicy_eq_ok {putPolicy : PolicyRule → Option String} {body : JsonText} {rule : PolicyRule}
    (h : handleCreatePolicy putPolicy body = .ok rule) : validatePolicyRule rule = none := by
  unfold handleCreatePolicy at h
  split at h
  · cases h
  · split at h
    · cases h
    · rename_i hvalid
      split at h
      · cases h
      · cases h
        exact hvalid

/-- Every rule that passes the checks can be admitted. -/
theorem handleCreatePolicy_requestBody {rule : PolicyRule} (h : validatePolicyRule rule = none) :
    handleCreatePolicy (fun _ => none) (requestBody rule) = .ok rule := by
  rw [handleCreatePolicy, decodeStrict_requestBody]
  simp only [h]

end Meridian.Rest
