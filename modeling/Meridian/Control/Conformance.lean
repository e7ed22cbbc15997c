import Meridian.Control.Compiler

/-! The conformance oracle of the compiler's tests, which reads the verdict of a flow off the spec without
    compiling it, and the declarative meaning of a spec. -/

namespace Meridian.Compiler
open Lib Wire

/-- The compiled rules as the evaluator takes them, field by field. -/
def referenceRule (rule : PolicyRule) : Reference.Rule :=
  { srcIdentity := rule.key.srcIdentity, dstIdentity := rule.key.dstIdentity, dstPort := rule.key.dstPort,
    protocol := rule.key.protocol, direction := rule.key.direction, verdict := rule.verdict }

def newReferenceEvaluatorFromCompiled (rules : List PolicyRule) (mode : Reference.UnknownIdentityMode) :
    Except Reference.EvaluatorError Reference.MapEvaluator :=
  Reference.newEvaluator mode (rules.map referenceRule)

/-! ### The oracle -/

inductive OracleError where
  | unresolved (name : String)
  deriving DecidableEq, Repr

def resolveNameForOracle (bySpiffe : Table String IdentityID) (_ : Nat) (name : String) (out : List IdentityID) :
    Except OracleError (List IdentityID) :=
  match bySpiffe name with
  | none => .error (.unresolved name)
  | some id => if out.contains id then .ok out else .ok (out ++ [id])

def resolveNamesForOracle (names : List String) (bySpiffe : Table String IdentityID) :
    Except OracleError (List IdentityID) :=
  rangeLoop (resolveNameForOracle bySpiffe) names 0 []

def spiffeTable (identities : List Identity) : Table String IdentityID :=
  Table.writes (fun _ => none) (identities.map fun identity => (identity.spiffeID, some identity.id))

def flowKey (input : Reference.Input) : PolicyRuleKey :=
  { srcIdentity := input.srcIdentity, dstIdentity := input.dstIdentity, dstPort := input.dstPort,
    protocol := input.protocol, direction := input.direction }

def searchRules (bySpiffe : Table String IdentityID) (input : Reference.Input) :
    List PolicyRuleSelector → Except OracleError PolicyVerdict
  | [] => .ok ⟨policyActionDeny, 0⟩
  | rule :: rest =>
    match resolveNamesForOracle rule.sources bySpiffe with
    | .error e => .error e
    | .ok srcIDs =>
      match resolveNamesForOracle rule.destinations bySpiffe with
      | .error e => .error e
      | .ok dstIDs =>
        if (expand srcIDs dstIDs rule).contains (flowKey input) then .ok rule.verdict
        else searchRules bySpiffe input rest

def specRules (spec : PolicySpec) : List PolicyRuleSelector := spec.policies.flatMap (·.rules)

def naiveEvaluateSpec (spec : PolicySpec) (identities : List Identity) (mode : Reference.UnknownIdentityMode)
    (input : Reference.Input) : Except OracleError PolicyVerdict :=
  if input.srcIdentity = identityUnknown || input.dstIdentity = identityUnknown then
    .ok (if mode = Reference.unknownIdentityFailOpen then ⟨policyActionAllow, 0⟩ else ⟨policyActionDeny, 0⟩)
  else searchRules (spiffeTable identities) input (specRules spec)

/-! ### The meaning of a spec -/

/-- All five selectors of the rule contain the component of the key. -/
def selects (bySpiffe : Table String IdentityID) (rule : PolicyRuleSelector) (key : PolicyRuleKey) : Bool :=
  rule.sources.any (fun name => bySpiffe name = some key.srcIdentity) &&
    rule.destinations.any (fun name => bySpiffe name = some key.dstIdentity) &&
    rule.ports.contains key.dstPort && rule.protocols.contains key.protocol && rule.directions.contains key.direction

/-- The posture's verdict between unknown identities, the verdict of the first rule that selects the flow
    otherwise, and deny without one. -/
def specVerdict (spec : PolicySpec) (identities : List Identity) (mode : Reference.UnknownIdentityMode)
    (input : Reference.Input) : PolicyVerdict :=
  if input.srcIdentity = identityUnknown || input.dstIdentity = identityUnknown then Reference.unknownVerdict mode
  else
    match (specRules spec).find? fun rule => selects (spiffeTable identities) rule (flowKey input) with
    | some rule => rule.verdict
    | none => ⟨policyActionDeny, 0⟩

variable {bySpiffe : Table String IdentityID}

theorem selects_iff {rule : PolicyRuleSelector} {key : PolicyRuleKey} : selects bySpiffe rule key = true ↔
      (∃ name ∈ rule.sources, bySpiffe name = some key.srcIdentity) ∧
        (∃ name ∈ rule.destinations, bySpiffe name = some key.dstIdentity) ∧
        key.dstPort ∈ rule.ports ∧ key.protocol ∈ rule.protocols ∧ key.direction ∈ rule.directions := by
  simp [selects, and_assoc]

def Resolved (bySpiffe : Table String IdentityID) (names : List String) (ids : List IdentityID) : Prop :=
  ∀ id, id ∈ ids ↔ ∃ name ∈ names, bySpiffe name = some id

theorem Resolved.snoc {names : List String} {ids : List IdentityID} {name : String} {id : IdentityID}
    (h : Resolved bySpiffe names ids) (hname : bySpiffe name = some id) :
    Resolved bySpiffe (names ++ [name]) (if ids.contains id then ids else ids ++ [id]) := by
  intro id'
  have hmem : id' ∈ (if ids.contains id then ids else ids ++ [id]) ↔ id' ∈ ids ∨ id' = id := by
    by_cases hc : id ∈ ids
    · rw [if_pos (List.contains_iff_mem.mpr hc)]
      exact ⟨Or.inl, fun h => h.elim (fun h => h) fun h => h ▸ hc⟩
    · rw [if_neg (fun h => hc (List.contains_iff_mem.mp h)), List.mem_append, List.mem_singleton]
  rw [hmem, h id', eq_comm (a := id')]
  simp only [List.mem_append, List.mem_singleton, or_and_right, exists_or, exists_eq_left, hname, Option.some.injEq]

/-- The expansion of a rule over resolved selectors is the set of keys that it selects. -/
theorem mem_expand {rule : PolicyRuleSelector} {srcIDs dstIDs : List IdentityID}
    (hsrc : Resolved bySpiffe rule.sources srcIDs) (hdst : Resolved bySpiffe rule.destinations dstIDs) {key : PolicyRuleKey} :
    key ∈ expand srcIDs dstIDs rule ↔ selects bySpiffe rule key = true := by
  rw [selects_iff, ← hsrc, ← hdst]
  obtain ⟨s, t, port, proto, dir⟩ := key
  simp only [expand, List.mem_flatMap, List.mem_map, PolicyRuleKey.mk.injEq]
  constructor
  · rintro ⟨_, hs, _, ht, _, hport, _, hproto, _, hdir, rfl, rfl, rfl, rfl, rfl⟩
    exact ⟨hs, ht, hport, hproto, hdir⟩
  · rintro ⟨hs, ht, hport, hproto, hdir⟩
    exact ⟨s, hs, t, ht, port, hport, proto, hproto, dir, hdir, rfl, rfl, rfl, rfl, rfl⟩

end Meridian.Compiler
