import Mathlib.Data.List.AList
import Mathlib.Data.List.Sort
import Meridian.Lib.Loop
import Meridian.Lib.Text
import Meridian.Reference.Evaluator

/-! The policy compiler (`internal/control`): a declarative spec, with selectors over SPIFFE names, becomes the
    sorted list of its keys and verdicts. -/

namespace Meridian.Compiler
open Lib Wire

/-- What an error reports; the rule path is `policy/rule`. -/
inductive CompileError where
  | identityIsUnknown (index : Nat) (spiffeID : String)
  | identityUnnamed (index : Nat) (id : IdentityID)
  | identityConflict (index : Nat) (spiffeID : String) (prior id : IdentityID)
  | selectorEmpty (rulePath selectorName : String)
  | nameEmpty (rulePath selectorName : String) (index : Nat)
  | nameUnresolved (rulePath name selectorName : String)
  | nameUnknownIdentity (rulePath selectorName name : String)
  | invalidVerdict (rulePath : String) (err : Reference.VerdictError)
  | invalidRule (rulePath : String) (err : Reference.RuleError)
  | conflictingVerdicts (rulePath : String) (key : PolicyRuleKey) (existing new : PolicyVerdict)
  deriving DecidableEq, Repr

/-- `strings.TrimSpace(s) == ""` -/
def isBlank (s : String) : Bool := s.toList.all isSpace

/-! ### Names -/

def bindIdentity (i : Nat) (identity : Identity) (identitiesBySpiffe : Table String IdentityID) :
    Except CompileError (Table String IdentityID) :=
  if identity.id = identityUnknown then .error (.identityIsUnknown i identity.spiffeID)
  else if identity.spiffeID = "" then .error (.identityUnnamed i identity.id)
  else
    match identitiesBySpiffe identity.spiffeID with
    | some prior =>
      if prior ≠ identity.id then .error (.identityConflict i identity.spiffeID prior identity.id)
      else .ok (Table.put identitiesBySpiffe identity.spiffeID identity.id)
    | none => .ok (Table.put identitiesBySpiffe identity.spiffeID identity.id)

/-- A name of a selector; the identities already resolved are not repeated. -/
def resolveIdentityName (rulePath selectorName : String) (identitiesBySpiffe : Table String IdentityID) (i : Nat)
    (name : String) (resolved : List IdentityID) : Except CompileError (List IdentityID) :=
  if isBlank name then .error (.nameEmpty rulePath selectorName i)
  else
    match identitiesBySpiffe name with
    | none => .error (.nameUnresolved rulePath name selectorName)
    | some identityID =>
      if identityID = identityUnknown then .error (.nameUnknownIdentity rulePath selectorName name)
      else if resolved.contains identityID then .ok resolved
      else .ok (resolved ++ [identityID])

def resolveIdentityNames (rulePath selectorName : String) (names : List String)
    (identitiesBySpiffe : Table String IdentityID) : Except CompileError (List IdentityID) :=
  if names.isEmpty then .error (.selectorEmpty rulePath selectorName)
  else rangeLoop (resolveIdentityName rulePath selectorName identitiesBySpiffe) names 0 []

/-! ### Rules -/

def validateVerdict (verdict : PolicyVerdict) : Option Reference.VerdictError := Reference.validateVerdict verdict

def validateRule (rule : PolicyRule) : Option Reference.RuleError :=
  if rule.key.srcIdentity = identityUnknown || rule.key.dstIdentity = identityUnknown then some .unknownIdentity
  else if rule.key.direction ≠ directionIngress && rule.key.direction ≠ directionEgress then
    some (.unsupportedDirection rule.key.direction)
  else (validateVerdict rule.verdict).map .verdict

abbrev RuleMap := AList fun _ : PolicyRuleKey => PolicyVerdict

/-- The keys of a rule, in the order of the nested loops. -/
def expand (srcIDs dstIDs : List IdentityID) (rule : PolicyRuleSelector) : List PolicyRuleKey :=
  srcIDs.flatMap fun srcID => dstIDs.flatMap fun dstID => rule.ports.flatMap fun port =>
    rule.protocols.flatMap fun proto => rule.directions.map fun direction =>
      { srcIdentity := srcID, dstIdentity := dstID, dstPort := port, protocol := proto, direction := direction }

/-- The body of the nested loops. -/
def addKey (rulePath : String) (verdict : PolicyVerdict) (_ : Nat) (key : PolicyRuleKey) (rulesByKey : RuleMap) :
    Except CompileError RuleMap :=
  match validateRule ⟨key, verdict⟩ with
  | some err => .error (.invalidRule rulePath err)
  | none =>
    match rulesByKey.lookup key with
    | some existing =>
      if existing ≠ verdict then .error (.conflictingVerdicts rulePath key existing verdict) else .ok rulesByKey
    | none => .ok (rulesByKey.insert key verdict)

def nameOr (kind : String) (i : Nat) (name : String) : String :=
  if isBlank name then kind ++ "[" ++ toString i ++ "]" else name

def compileRule (policyName : String) (identitiesBySpiffe : Table String IdentityID) (ruleIdx : Nat)
    (rule : PolicyRuleSelector) (rulesByKey : RuleMap) : Except CompileError RuleMap :=
  let rulePath := policyName ++ "/" ++ nameOr "rule" ruleIdx rule.name
  match resolveIdentityNames rulePath "sources" rule.sources identitiesBySpiffe with
  | .error e => .error e
  | .ok srcIDs =>
    match resolveIdentityNames rulePath "destinations" rule.destinations identitiesBySpiffe with
    | .error e => .error e
    | .ok dstIDs =>
      if rule.ports.isEmpty then .error (.selectorEmpty rulePath "ports")
      else if rule.protocols.isEmpty then .error (.selectorEmpty rulePath "protocols")
      else if rule.directions.isEmpty then .error (.selectorEmpty rulePath "directions")
      else
        match validateVerdict rule.verdict with
        | some err => .error (.invalidVerdict rulePath err)
        | none => rangeLoop (addKey rulePath rule.verdict) (expand srcIDs dstIDs rule) 0 rulesByKey

def compilePolicy (identitiesBySpiffe : Table String IdentityID) (policyIdx : Nat) (policy : Policy)
    (rulesByKey : RuleMap) : Except CompileError RuleMap :=
  rangeLoop (compileRule (nameOr "policy" policyIdx policy.name) identitiesBySpiffe) policy.rules 0 rulesByKey

/-! ### The compiled list -/

def compareKeys (a b : PolicyRuleKey) : Ordering :=
  if a.srcIdentity ≠ b.srcIdentity then if a.srcIdentity < b.srcIdentity then .lt else .gt
  else if a.dstIdentity ≠ b.dstIdentity then if a.dstIdentity < b.dstIdentity then .lt else .gt
  else if a.dstPort ≠ b.dstPort then if a.dstPort < b.dstPort then .lt else .gt
  else if a.protocol ≠ b.protocol then if a.protocol < b.protocol then .lt else .gt
  else if a.direction ≠ b.direction then if a.direction < b.direction then .lt else .gt
  else .eq

/-- The keys in order. A range over the map gives them in an order of its own, but they are distinct, so that
    sorting leaves no choice. -/
def sortedKeys (rulesByKey : RuleMap) : List PolicyRuleKey :=
  rulesByKey.keys.insertionSort fun a b => compareKeys a b ≠ .gt

def compile (spec : PolicySpec) (identities : List Identity) : Except CompileError (List PolicyRule) :=
  match rangeLoop bindIdentity identities 0 (fun _ => none) with
  | .error e => .error e
  | .ok identitiesBySpiffe =>
    match rangeLoop (compilePolicy identitiesBySpiffe) spec.policies 0 ∅ with
    | .error e => .error e
    | .ok rulesByKey =>
      .ok ((sortedKeys rulesByKey).map fun key => ⟨key, (rulesByKey.lookup key).getD ⟨policyActionAllow, 0⟩⟩)

end Meridian.Compiler
