import Meridian.Lib.Table
import Meridian.Wire

/-! The reference evaluator (`internal/reference`): the source of truth for verdicts. -/

namespace Meridian.Reference
open Lib Wire

/-! ### Verdicts -/

inductive VerdictError where
  | unsupportedAction (action : UInt8)
  | unknownFlagBits (bits : UInt8)
  | sockmapRequiresAllow
  | sockmapWithL7
  | sockmapWithMtls
  deriving DecidableEq, Repr

/-- `wire.PolicyFlags(1) << pos`: a shift by eight or more gives zero. -/
def flagMask (pos : PolicyFlags) : PolicyFlags := UInt8.ofNat (1 <<< pos.toNat)

def hasFlag (flags pos : PolicyFlags) : Bool := flags &&& flagMask pos ≠ 0

def knownMask : PolicyFlags :=
  flagMask policyFlagSockmapEligible ||| flagMask policyFlagL7Required ||| flagMask policyFlagMTLSRequired |||
    flagMask policyFlagAudit

/-- The check of a verdict. The policy compiler carries the same copy of this function. -/
def validateVerdict (verdict : Wire.PolicyVerdict) : Option VerdictError :=
  if verdict.action ≠ policyActionAllow && verdict.action ≠ policyActionDeny &&
      verdict.action ≠ policyActionRedirectProxy then
    some (.unsupportedAction verdict.action)
  else if verdict.flags &&& ~~~knownMask ≠ 0 then some (.unknownFlagBits (verdict.flags &&& ~~~knownMask))
  else if hasFlag verdict.flags policyFlagSockmapEligible then
    if verdict.action ≠ policyActionAllow then some .sockmapRequiresAllow
    else if hasFlag verdict.flags policyFlagL7Required then some .sockmapWithL7
    else if hasFlag verdict.flags policyFlagMTLSRequired then some .sockmapWithMtls
    else none
  else none

def KnownAction (action : PolicyAction) : Prop :=
  action = policyActionAllow ∨ action = policyActionDeny ∨ action = policyActionRedirectProxy

theorem validateVerdict_eq_none_iff {verdict : Wire.PolicyVerdict} : validateVerdict verdict = none ↔
    KnownAction verdict.action ∧ verdict.flags &&& ~~~knownMask = 0 ∧
      (hasFlag verdict.flags policyFlagSockmapEligible = true →
        verdict.action = policyActionAllow ∧ hasFlag verdict.flags policyFlagL7Required = false ∧
          hasFlag verdict.flags policyFlagMTLSRequired = false) := by
  unfold validateVerdict
  by_cases haction : KnownAction verdict.action
  · rw [if_neg (by simpa [KnownAction, imp_iff_not_or, or_assoc] using haction)]
    by_cases hknown : verdict.flags &&& ~~~knownMask = 0
    · rw [if_neg (not_not.mpr hknown)]
      cases hasFlag verdict.flags policyFlagSockmapEligible with
      | false => simp [haction, hknown]
      | true =>
        by_cases hallow : verdict.action = policyActionAllow
        · have hallowKnown : KnownAction policyActionAllow := Or.inl rfl
          cases hasFlag verdict.flags policyFlagL7Required <;> cases hasFlag verdict.flags policyFlagMTLSRequired <;>
            simp [hknown, hallow, hallowKnown]
        · simp [hallow]
    · rw [if_pos hknown]
      simp [hknown]
  · rw [if_pos (by simpa [KnownAction, not_or, and_assoc] using haction)]
    simp [haction]

/-! ### Rules -/

abbrev UnknownIdentityMode := UInt8

def unknownIdentityFailOpen : UnknownIdentityMode := 0
def unknownIdentityFailClosed : UnknownIdentityMode := 1

structure Rule where
  srcIdentity : IdentityID
  dstIdentity : IdentityID
  dstPort : UInt16
  protocol : UInt8
  direction : UInt8
  verdict : Wire.PolicyVerdict
  deriving DecidableEq, Repr

structure RuleKey where
  srcID : IdentityID
  dstID : IdentityID
  dstPort : UInt16
  protocol : UInt8
  direction : UInt8
  deriving DecidableEq, Repr

def keyFromRule (rule : Rule) : RuleKey :=
  { srcID := rule.srcIdentity, dstID := rule.dstIdentity, dstPort := rule.dstPort, protocol := rule.protocol,
    direction := rule.direction }

inductive RuleError where
  | unknownIdentity
  | unsupportedDirection (direction : UInt8)
  | verdict (err : VerdictError)
  deriving DecidableEq, Repr

def validateRule (rule : Rule) : Option RuleError :=
  if rule.srcIdentity = identityUnknown || rule.dstIdentity = identityUnknown then some .unknownIdentity
  else if rule.direction ≠ directionIngress && rule.direction ≠ directionEgress then
    some (.unsupportedDirection rule.direction)
  else (validateVerdict rule.verdict).map .verdict

/-! ### The evaluator -/

structure MapEvaluator where
  unknownMode : UnknownIdentityMode
  rules : Table RuleKey Wire.PolicyVerdict

inductive EvaluatorError where
  | invalidMode (mode : UnknownIdentityMode)
  | invalidRule (index : Nat) (err : RuleError)
  | duplicateKey (index : Nat) (key : RuleKey)
  deriving DecidableEq, Repr

def compileRules : List Rule → Nat → Table RuleKey Wire.PolicyVerdict →
    Except EvaluatorError (Table RuleKey Wire.PolicyVerdict)
  | [], _, compiled => .ok compiled
  | rule :: rest, i, compiled =>
    match validateRule rule with
    | some err => .error (.invalidRule i err)
    | none =>
      if (compiled (keyFromRule rule)).isSome then .error (.duplicateKey i (keyFromRule rule))
      else compileRules rest (i + 1) (Table.put compiled (keyFromRule rule) rule.verdict)

def newEvaluator (mode : UnknownIdentityMode) (rules : List Rule) : Except EvaluatorError MapEvaluator :=
  if mode ≠ unknownIdentityFailOpen && mode ≠ unknownIdentityFailClosed then .error (.invalidMode mode)
  else
    match compileRules rules 0 fun _ => none with
    | .error e => .error e
    | .ok compiled => .ok { unknownMode := mode, rules := compiled }

structure Input where
  srcIdentity : IdentityID
  dstIdentity : IdentityID
  dstPort : UInt16
  protocol : UInt8
  direction : UInt8
  deriving DecidableEq, Repr

inductive Context where
  | missing
  | canceled
  | live
  deriving DecidableEq, Repr

inductive EvaluateError where
  | nilContext
  | canceled
  deriving DecidableEq, Repr

def unknownVerdict (mode : UnknownIdentityMode) : Wire.PolicyVerdict :=
  if mode = unknownIdentityFailOpen then ⟨policyActionAllow, 0⟩ else ⟨policyActionDeny, 0⟩

def MapEvaluator.evaluate (e : MapEvaluator) (ctx : Context) (input : Input) : Except EvaluateError Wire.PolicyVerdict :=
  match ctx with
  | .missing => .error .nilContext
  | .canceled => .error .canceled
  | .live =>
    if input.srcIdentity = identityUnknown || input.dstIdentity = identityUnknown then .ok (unknownVerdict e.unknownMode)
    else
      match e.rules { srcID := input.srcIdentity, dstID := input.dstIdentity, dstPort := input.dstPort,
                      protocol := input.protocol, direction := input.direction } with
      | some verdict => .ok verdict
      | none => .ok ⟨policyActionDeny, 0⟩

/-! ### What is accepted -/

def ruleWrites (rules : List Rule) : List (Write RuleKey Wire.PolicyVerdict) :=
  rules.map fun rule => (keyFromRule rule, some rule.verdict)

theorem compileRules_eq_ok_iff {rules : List Rule} {i : Nat} {compiled result : Table RuleKey Wire.PolicyVerdict} :
    compileRules rules i compiled = .ok result ↔
      (∀ rule ∈ rules, validateRule rule = none) ∧ (rules.map keyFromRule).Nodup ∧
        (∀ rule ∈ rules, compiled (keyFromRule rule) = none) ∧ result = Table.writes compiled (ruleWrites rules) := by
  induction rules generalizing i compiled with
  | nil => simp [compileRules, ruleWrites, eq_comm]
  | cons rule rest ih =>
    rw [compileRules]
    cases hvalid : validateRule rule with
    | some err => simp [hvalid]
    | none =>
      dsimp only
      cases hkey : compiled (keyFromRule rule) with
      | some v => simp [hkey]
      | none =>
        rw [if_neg (by simp), ih]
        simp only [List.forall_mem_cons, hvalid, hkey, true_and, List.map_cons, List.nodup_cons, ruleWrites,
          Table.writes_cons]
        -- A later rule finds its key free exactly when it was free before and is not the key just put.
        have hfree : (∀ r ∈ rest, Table.put compiled (keyFromRule rule) rule.verdict (keyFromRule r) = none) ↔
            keyFromRule rule ∉ rest.map keyFromRule ∧ ∀ r ∈ rest, compiled (keyFromRule r) = none := by
          constructor
          · intro h
            have hne : ∀ r ∈ rest, keyFromRule rule ≠ keyFromRule r := fun r hr heq => by
              have := h r hr
              rw [← heq, Table.put_same] at this
              cases this
            refine ⟨fun hmem => ?_, fun r hr => ?_⟩
            · obtain ⟨r, hr, heq⟩ := List.mem_map.mp hmem
              exact hne r hr heq.symm
            · rw [← h r hr, Table.put_of_ne (hne r hr)]
          · rintro ⟨hmem, h⟩ r hr
            have hne : keyFromRule rule ≠ keyFromRule r := fun heq => by
              rw [heq] at hmem
              exact hmem (List.mem_map_of_mem hr)
            rw [Table.put_of_ne hne, h r hr]
        rw [hfree]
        constructor
        · rintro ⟨hall, hnd, ⟨hmem, hnone⟩, hres⟩
          exact ⟨hall, ⟨hmem, hnd⟩, hnone, hres⟩
        · rintro ⟨hall, ⟨hmem, hnd⟩, hnone, hres⟩
          exact ⟨hall, hnd, ⟨hmem, hnone⟩, hres⟩

/-- A rule list is accepted when the mode is one of the two, every rule is valid and no key is repeated; the
    table then holds every rule. -/
theorem newEvaluator_eq_ok_iff {mode : UnknownIdentityMode} {rules : List Rule} {e : MapEvaluator} :
    newEvaluator mode rules = .ok e ↔
      (mode = unknownIdentityFailOpen ∨ mode = unknownIdentityFailClosed) ∧
        (∀ rule ∈ rules, validateRule rule = none) ∧ (rules.map keyFromRule).Nodup ∧
        e = ⟨mode, Table.writes (fun _ => none) (ruleWrites rules)⟩ := by
  unfold newEvaluator
  by_cases hmode : mode = unknownIdentityFailOpen ∨ mode = unknownIdentityFailClosed
  · rw [if_neg (by simpa [imp_iff_not_or] using hmode)]
    cases hcomp : compileRules rules 0 fun _ => none with
    | error err =>
      refine iff_of_false (by simp) ?_
      rintro ⟨-, hall, hnd, -⟩
      rw [compileRules_eq_ok_iff.mpr ⟨hall, hnd, fun _ _ => rfl, rfl⟩] at hcomp
      cases hcomp
    | ok compiled =>
      obtain ⟨hall, hnd, -, rfl⟩ := compileRules_eq_ok_iff.mp hcomp
      constructor
      · intro h
        cases h
        exact ⟨hmode, hall, hnd, rfl⟩
      · rintro ⟨-, -, -, rfl⟩
        rfl
  · rw [if_pos (by simpa [not_or] using hmode)]
    simp [hmode]

theorem writes_ruleWrites_eq_some_iff {rules : List Rule} (hnd : (rules.map keyFromRule).Nodup) {key : RuleKey}
    {v : Wire.PolicyVerdict} :
    Table.writes (fun _ => none) (ruleWrites rules) key = some v ↔
      ∃ rule ∈ rules, keyFromRule rule = key ∧ rule.verdict = v :=
  Table.writes_puts_eq_some_iff fun _ hr _ hr' heq => congrArg Rule.verdict (List.inj_on_of_nodup_map hnd hr hr' heq)

def Input.key (input : Input) : RuleKey :=
  ⟨input.srcIdentity, input.dstIdentity, input.dstPort, input.protocol, input.direction⟩

theorem evaluate_unknown (e : MapEvaluator) {input : Input}
    (h : input.srcIdentity = identityUnknown ∨ input.dstIdentity = identityUnknown) :
    e.evaluate .live input = .ok (unknownVerdict e.unknownMode) :=
  if_pos (by simpa using h)

theorem evaluate_known (e : MapEvaluator) {input : Input}
    (h : ¬(input.srcIdentity = identityUnknown ∨ input.dstIdentity = identityUnknown)) :
    e.evaluate .live input = .ok ((e.rules input.key).getD ⟨policyActionDeny, 0⟩) := by
  refine Eq.trans (if_neg (by simpa using h)) ?_
  unfold Input.key
  cases e.rules ⟨input.srcIdentity, input.dstIdentity, input.dstPort, input.protocol, input.direction⟩ <;> rfl

end Meridian.Reference
