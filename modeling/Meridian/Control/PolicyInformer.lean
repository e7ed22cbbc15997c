import Meridian.Lib.Loop
import Meridian.Lib.Run
import Meridian.Lib.Table
import Meridian.Wire

/-! `MeridianPolicy` objects and their informer (`internal/control/k8s`): an object is compiled into rules, which the
    watcher puts into the store and records, so that it can delete them later. -/

namespace Meridian.K8s
open Lib Wire

/-! ### The custom resource -/

structure WorkloadSelector where
  ns : String
  labels : List (String × String)
  deriving DecidableEq, Repr

structure MeridianPolicySpec where
  selector : WorkloadSelector
  sources : List String
  ports : List UInt16
  protocols : List String
  action : String
  deriving DecidableEq, Repr

structure MeridianPolicy where
  ns : String
  name : String
  spec : MeridianPolicySpec
  deriving DecidableEq, Repr

def policyActionNameAllow : String := "allow"
def policyActionNameDeny : String := "deny"
def protocolNameTCP : String := "tcp"
def protocolNameUDP : String := "udp"
def maxPolicySources : Nat := 64
def maxPolicyPorts : Nat := 64

inductive SpecError where
  | action (found : String)
  | selectorNamespace
  | noSources
  | tooManySources (count : Nat)
  | source (index : Nat) (found : String)
  | noPorts
  | tooManyPorts (count : Nat)
  | port (index : Nat)
  | protocol (index : Nat) (found : String)
  deriving DecidableEq, Repr

/-- `spiffe://` and at least one more byte. -/
def isSpiffeURI (src : String) : Bool := "spiffe://".toList.isPrefixOf src.toList && src.toList.length > 9

/-- A loop that returns the error of the first element that fails a check. -/
def checkEach {A : Type} (ok : A → Bool) (err : Nat → A → SpecError) (xs : List A) : Except SpecError Unit :=
  rangeLoop (fun i x _ => if ok x then .ok () else .error (err i x)) xs 0 ()

def validatePolicySpec (spec : MeridianPolicySpec) : Except SpecError Unit :=
  if spec.action ≠ policyActionNameAllow && spec.action ≠ policyActionNameDeny then .error (.action spec.action)
  else if spec.selector.ns = "" then .error .selectorNamespace
  else if spec.sources.length = 0 then .error .noSources
  else if spec.sources.length > maxPolicySources then .error (.tooManySources spec.sources.length)
  else
    match checkEach isSpiffeURI .source spec.sources with
    | .error e => .error e
    | .ok () =>
      if spec.ports.length = 0 then .error .noPorts
      else if spec.ports.length > maxPolicyPorts then .error (.tooManyPorts spec.ports.length)
      else
        match checkEach (fun port => port ≠ 0) (fun i _ => .port i) spec.ports with
        | .error e => .error e
        | .ok () => checkEach (fun p => p = protocolNameTCP || p = protocolNameUDP) .protocol spec.protocols

/-! ### Compilation -/

def protocolTCP : UInt8 := 6
def protocolUDP : UInt8 := 17
def maxCompiledRulesPerPolicy : Nat := 65536

/-- The answers of a resolver; those about SPIFFE IDs may differ from call to call. -/
structure IdentityResolver where
  resolveSelector : WorkloadSelector → Option (List IdentityID)
  resolveSpiffeID : Nat → String → Option IdentityID

inductive CompileCause where
  | spec (err : SpecError)
  | source (src : String)
  | selector
  | protocol (name : String)
  | action (name : String)
  | tooManyRules (product : Nat)
  deriving DecidableEq, Repr

/-- An error names the object. -/
structure CompileError where
  ns : String
  name : String
  cause : CompileCause
  deriving DecidableEq, Repr

def protocolNumbers (names : List String) : Except CompileCause (List UInt8) :=
  if names.length = 0 then .ok [protocolTCP]
  else
    rangeLoop (fun _ name out =>
      if name = protocolNameTCP then .ok (out ++ [protocolTCP])
      else if name = protocolNameUDP then .ok (out ++ [protocolUDP])
      else .error (.protocol name)) names 0 []

def verdictForAction (action : String) : Except CompileCause PolicyVerdict :=
  if action = policyActionNameAllow then .ok ⟨policyActionAllow, 0⟩
  else if action = policyActionNameDeny then .ok ⟨policyActionDeny, 0⟩
  else .error (.action action)

def resolveSources (resolver : IdentityResolver) (sources : List String) : Except CompileCause (List IdentityID) :=
  rangeLoop (fun i src ids =>
    match resolver.resolveSpiffeID i src with
    | none => .error (.source src)
    | some id => .ok (ids ++ [id])) sources 0 []

/-- Sources × destinations × ports × protocols. -/
def expand (srcIDs dstIDs : List IdentityID) (ports : List UInt16) (protocols : List UInt8) (verdict : PolicyVerdict) :
    List PolicyRule :=
  srcIDs.flatMap fun src => dstIDs.flatMap fun dst => ports.flatMap fun port => protocols.map fun proto =>
    ⟨⟨src, dst, port, proto, directionIngress⟩, verdict⟩

def compileSpec (spec : MeridianPolicySpec) (resolver : IdentityResolver) : Except CompileCause (List PolicyRule) :=
  match validatePolicySpec spec with
  | .error e => .error (.spec e)
  | .ok () =>
    match resolveSources resolver spec.sources with
    | .error e => .error e
    | .ok srcIDs =>
      match resolver.resolveSelector spec.selector with
      | none => .error .selector
      | some dstIDs =>
        match protocolNumbers spec.protocols with
        | .error e => .error e
        | .ok protocols =>
          match verdictForAction spec.action with
          | .error e => .error e
          | .ok verdict =>
            let product := srcIDs.length * dstIDs.length * spec.ports.length * protocols.length
            if product > maxCompiledRulesPerPolicy then .error (.tooManyRules product)
            else .ok (expand srcIDs dstIDs spec.ports protocols verdict)

def compilePolicyRules (pol : MeridianPolicy) (resolver : IdentityResolver) : Except CompileError (List PolicyRule) :=
  match compileSpec pol.spec resolver with
  | .error cause => .error ⟨pol.ns, pol.name, cause⟩
  | .ok rules => .ok rules

/-! ### The watcher -/

/-- What an informer delivers: an unstructured object with the policy that it converts to, if it does, a tombstone of
    one, or something else. -/
inductive Object where
  | unstructured (policy : Option MeridianPolicy)
  | deletedFinalStateUnknown (obj : Option MeridianPolicy)
  | other
  deriving DecidableEq, Repr

def policyFromObject : Object → Option MeridianPolicy
  | .unstructured policy => policy
  | .deletedFinalStateUnknown policy => policy
  | .other => none

/-- The policies of the store, and the keys written for each object; a record may be there and empty. -/
structure PolicyWatcher where
  store : Table PolicyRuleKey PolicyVerdict
  applied : Table String (List PolicyRuleKey)

/-- Which store calls of an event fail, by their number. -/
structure Failures where
  put : Nat → Bool
  delete : Nat → Bool

def Failures.none : Failures := ⟨fun _ => false, fun _ => false⟩

/-- The store after the puts, and the keys of those that succeeded. -/
def putRules (fails : Nat → Bool) :
    List PolicyRule → Nat → Table PolicyRuleKey PolicyVerdict → Table PolicyRuleKey PolicyVerdict × List PolicyRuleKey
  | [], _, store => (store, [])
  | rule :: rest, i, store =>
    if fails i then putRules fails rest (i + 1) store
    else
      match putRules fails rest (i + 1) (Table.put store rule.key rule.verdict) with
      | (store, keys) => (store, rule.key :: keys)

def deleteKeys (fails : Nat → Bool) :
    List PolicyRuleKey → Nat → Table PolicyRuleKey PolicyVerdict → Table PolicyRuleKey PolicyVerdict
  | [], _, store => store
  | key :: rest, i, store => deleteKeys fails rest (i + 1) (if fails i then store else Table.erase store key)

def MeridianPolicy.fullName (pol : MeridianPolicy) : String := pol.ns ++ "/" ++ pol.name

namespace PolicyWatcher

def new (store : Table PolicyRuleKey PolicyVerdict) : PolicyWatcher := ⟨store, fun _ => none⟩

/-- The keys recorded for an object. -/
def recorded (w : PolicyWatcher) (name : String) : List PolicyRuleKey := (w.applied name).getD []

def onUpsert (fails : Failures) (resolver : IdentityResolver) (w : PolicyWatcher) (newObj : Object) : PolicyWatcher :=
  match policyFromObject newObj with
  | none => w
  | some pol =>
    match compilePolicyRules pol resolver with
    | .error _ => w
    | .ok rules =>
      match putRules fails.put rules 0 w.store with
      | (store, appliedKeys) =>
        let stale := (w.recorded pol.fullName).filter fun key => key ∉ rules.map (·.key)
        { store := deleteKeys fails.delete stale 0 store, applied := Table.put w.applied pol.fullName appliedKeys }

/-- Without a record the spec is compiled again for the keys to delete. -/
def onDelete (fails : Failures) (resolver : IdentityResolver) (w : PolicyWatcher) (obj : Object) : PolicyWatcher :=
  match policyFromObject obj with
  | none => w
  | some pol =>
    let applied := Table.erase w.applied pol.fullName
    match w.applied pol.fullName with
    | some keys => { store := deleteKeys fails.delete keys 0 w.store, applied }
    | none =>
      match compilePolicyRules pol resolver with
      | .error _ => { w with applied }
      | .ok rules => { store := deleteKeys fails.delete (rules.map (·.key)) 0 w.store, applied }

end PolicyWatcher

/-! ### Events -/

inductive InformerEvent where
  | upsert (obj : Object) (resolver : IdentityResolver)
  | delete (obj : Object) (resolver : IdentityResolver)

def InformerEvent.policy : InformerEvent → Option MeridianPolicy
  | .upsert obj _ | .delete obj _ => policyFromObject obj

def PolicyWatcher.handle (fails : Failures) (w : PolicyWatcher) : InformerEvent → PolicyWatcher
  | .upsert obj resolver => w.onUpsert fails resolver obj
  | .delete obj resolver => w.onDelete fails resolver obj

/-- The keys that the event deletes: those recorded for its object that it does not produce any more, or those of the
    spec when a deleted object has no record. -/
def PolicyWatcher.deletes (w : PolicyWatcher) : InformerEvent → List PolicyRuleKey
  | .upsert obj resolver =>
    match policyFromObject obj with
    | none => []
    | some pol =>
      match compilePolicyRules pol resolver with
      | .error _ => []
      | .ok rules => (w.recorded pol.fullName).filter fun key => key ∉ rules.map (·.key)
  | .delete obj resolver =>
    match policyFromObject obj with
    | none => []
    | some pol =>
      match w.applied pol.fullName with
      | some keys => keys
      | none =>
        match compilePolicyRules pol resolver with
        | .error _ => []
        | .ok rules => rules.map (·.key)

/-- An object, by its namespace and its name. -/
abbrev ObjectKey := String × String

def MeridianPolicy.objectKey (pol : MeridianPolicy) : ObjectKey := (pol.ns, pol.name)

/-- The watcher, and the rules of the last successful compilation of each object that was upserted and not deleted. -/
structure Mirror where
  watcher : PolicyWatcher
  live : Table ObjectKey (List PolicyRule)

namespace Mirror

def start : Mirror := ⟨.new fun _ => none, fun _ => none⟩

def liveAfter (live : Table ObjectKey (List PolicyRule)) : InformerEvent → Table ObjectKey (List PolicyRule)
  | .upsert obj resolver =>
    match policyFromObject obj with
    | none => live
    | some pol =>
      match compilePolicyRules pol resolver with
      | .error _ => live
      | .ok rules => Table.put live pol.objectKey rules
  | .delete obj _ =>
    match policyFromObject obj with
    | none => live
    | some pol => Table.erase live pol.objectKey

/-- No store call fails. -/
def step (s : Mirror) (e : InformerEvent) : Mirror := ⟨s.watcher.handle .none e, liveAfter s.live e⟩

end Mirror

end Meridian.K8s
