import Mathlib.Data.List.Dedup
import Mathlib.Data.List.Sort
import Meridian.Agent.Datapath
import Meridian.Lib.Diff
import Meridian.Lib.Loop
import Meridian.Lib.Text

/-! How an agent process starts (`internal/agent/supervisor`): it opens the pinned maps, seeds them from a static
    snapshot through a new datapath writer, and attaches. The maps are those that an earlier process left. The
    plan of the seed is computed by `internal/agent/config`. -/

namespace Meridian.Config
open Lib Wire

/-! ### The snapshot file -/

/-- A rule as the file has it, with its action in words. -/
structure StubPolicyRule where
  srcIdentity : IdentityID
  dstIdentity : IdentityID
  dstPort : UInt16
  protocol : UInt8
  direction : Direction
  action : String
  flags : UInt8
  deriving DecidableEq, Repr

structure StubYAML where
  version : String
  identities : List Identity
  policies : List StubPolicyRule
  deriving DecidableEq, Repr

inductive LoadError where
  | file (err : String)
  | reservedID (index : Nat)
  | missingPodIPv4 (index : Nat)
  | duplicatesID (index : Nat) (id : IdentityID)
  | unsupportedAction (index : Nat) (raw : String)
  | invalidDirection (index : Nat) (direction : Direction)
  deriving DecidableEq, Repr

def parsePolicyAction (raw : String) : Option PolicyAction :=
  let word := (trimSpace raw.toList).map lowerAscii
  if word = "allow".toList then some policyActionAllow
  else if word = "deny".toList then some policyActionDeny
  else if word = "redirect".toList || word = "redirect_proxy".toList then some policyActionRedirectProxy
  else none

def loadIdentity (i : Nat) (id : Identity) (identities : List Identity) : Except LoadError (List Identity) :=
  if id.id = identityUnknown then .error (.reservedID i)
  else if id.podIPv4 = "" then .error (.missingPodIPv4 i)
  else if id.id ∈ identities.map (·.id) then .error (.duplicatesID i id.id)
  else .ok (identities ++ [id])

def loadPolicyRule (i : Nat) (rule : StubPolicyRule) (policies : List PolicyRule) : Except LoadError (List PolicyRule) :=
  match parsePolicyAction rule.action with
  | none => .error (.unsupportedAction i rule.action)
  | some action =>
    if rule.direction ≠ directionIngress && rule.direction ≠ directionEgress then
      .error (.invalidDirection i rule.direction)
    else
      .ok (policies ++ [⟨⟨rule.srcIdentity, rule.dstIdentity, rule.dstPort, rule.protocol, rule.direction⟩,
        ⟨action, rule.flags⟩⟩])

/-- The checks on the decoded file. -/
def loadPolicySnapshot (doc : StubYAML) : Except LoadError PolicySnapshot :=
  match rangeLoop loadIdentity doc.identities 0 [] with
  | .error e => .error e
  | .ok identities =>
    match rangeLoop loadPolicyRule doc.policies 0 [] with
    | .error e => .error e
    | .ok policies => .ok ⟨doc.version, identities, policies⟩

/-! ### The plan -/

def comparePolicyRuleKey (a b : PolicyRuleKey) : Ordering :=
  (compare a.srcIdentity b.srcIdentity).then <| (compare a.dstIdentity b.dstIdentity).then <|
    (compare a.dstPort b.dstPort).then <| (compare a.protocol b.protocol).then <| compare a.direction b.direction

section
variable {K V : Type} [DecidableEq K] [DecidableEq V]

/-- The keys of a Go map that was filled from `keys`, sorted. -/
def sortedKeys (le : K → K → Bool) (keys : List K) : List K := keys.dedup.insertionSort fun a b => le a b = true

/-- The entries of `desired` that `current` lacks or has with another value. -/
def planUpserts (keys : List K) (current desired : Table K V) : List (K × V) :=
  keys.filterMap fun k => (desired k).bind fun want => if current k = some want then none else some (k, want)

def planDeletes (keys : List K) (desired : Table K V) : List K := keys.filter fun k => (desired k).isNone

end

def identitiesByID (identities : List Identity) : Table IdentityID Identity := byKey (·.id) identities

def verdictsByKey (policies : List PolicyRule) : Table PolicyRuleKey PolicyVerdict :=
  Table.writes (fun _ => none) (policies.map fun p => (p.key, some p.verdict))

def identityKeys (identities : List Identity) : List IdentityID :=
  sortedKeys (fun a b => decide (a ≤ b)) (identities.map (·.id))

def policyKeys (policies : List PolicyRule) : List PolicyRuleKey :=
  sortedKeys (fun a b => comparePolicyRuleKey a b != .gt) (policies.map (·.key))

/-- The minimal map mutations from the current snapshot to the desired one. -/
def buildCommitPlan (current desired : PolicySnapshot) : CommitPlan :=
  { identityUpserts :=
      (planUpserts (identityKeys desired.identities) (identitiesByID current.identities)
        (identitiesByID desired.identities)).map (·.2)
    identityDeletes := planDeletes (identityKeys current.identities) (identitiesByID desired.identities)
    policyUpserts :=
      (planUpserts (policyKeys desired.policies) (verdictsByKey current.policies)
        (verdictsByKey desired.policies)).map fun e => ⟨e.1, e.2⟩
    policyDeletes := planDeletes (policyKeys current.policies) (verdictsByKey desired.policies) }

end Meridian.Config

namespace Meridian.Supervisor
open Lib Wire Datapath

structure StartupOptions where
  policyFile : String
  interface : String

/-- Which handles `openResources` returned. -/
structure StartupResources where
  identityMap : Bool
  policyMap : Bool
  attachProgram : Bool

/-- The pinned maps, which outlive the process. -/
structure PinnedMaps where
  identityMap : Table UInt32 UInt32
  policyMap : Table Bpf.PolicyKey Bpf.PolicyVerdict

/-- What the rest of the system answers: opening the pins, reading and decoding the snapshot file, making the
    writer, each map operation of the seed, and attaching. -/
structure StartupDeps where
  openResources : Except String StartupResources
  readFile : String → Except String Config.StubYAML
  newWriter : Except String Unit
  applyFails : Nat → Bool
  ensureAttached : String → Except String Unit

def StartupDeps.loadSnapshot (deps : StartupDeps) (path : String) : Except Config.LoadError PolicySnapshot :=
  if path = "" then .ok ⟨"", [], []⟩
  else
    match deps.readFile path with
    | .error e => .error (.file e)
    | .ok doc => Config.loadPolicySnapshot doc

inductive StartupError where
  | openPinnedMaps (err : String)
  | missingIdentityMap
  | missingPolicyMap
  | missingAttachProgram
  | seedState (err : Config.LoadError)
  | initializeWriter (err : String)
  | seedStateApply (err : ApplyError)
  | attach (iface : String) (err : String)
  deriving DecidableEq, Repr

structure StartupRuntime where
  writer : Writer
  iface : String
  attached : Bool

structure StartupRunner where
  opts : StartupOptions
  currentSnapshot : PolicySnapshot
  runtime : Option StartupRuntime

def newStartupRunner (opts : StartupOptions) : StartupRunner := ⟨opts, ⟨"", [], []⟩, none⟩

/-- The result of a call, the runner afterwards, and what it left in the pinned maps. -/
structure Started where
  result : Except StartupError StartupRuntime
  runner : StartupRunner
  pins : PinnedMaps

def pinsOf (w : Writer) : PinnedMaps := ⟨w.identityMap, w.policyMap⟩

/-- The part of `Startup` from the seed on; the handles are there. -/
def seedAndAttach (deps : StartupDeps) (pins : PinnedMaps) (r : StartupRunner) : Started :=
  match deps.loadSnapshot r.opts.policyFile with
  | .error e => ⟨.error (.seedState e), r, pins⟩
  | .ok desired =>
    let plan := Config.buildCommitPlan r.currentSnapshot desired
    match deps.newWriter with
    | .error e => ⟨.error (.initializeWriter e), r, pins⟩
    | .ok () =>
      match apply deps.applyFails plan (Writer.new pins.identityMap pins.policyMap) with
      | (some e, writer) => ⟨.error (.seedStateApply e), r, pinsOf writer⟩
      | (none, writer) =>
        let started (attached : Bool) : Started :=
          let runtime : StartupRuntime := ⟨writer, r.opts.interface, attached⟩
          ⟨.ok runtime, { r with currentSnapshot := desired, runtime := some runtime }, pinsOf writer⟩
        if r.opts.interface = "" then started false
        else
          match deps.ensureAttached r.opts.interface with
          | .error e => ⟨.error (.attach r.opts.interface e), r, pinsOf writer⟩
          | .ok () => started true

def startup (deps : StartupDeps) (pins : PinnedMaps) (r : StartupRunner) : Started :=
  match r.runtime with
  | some runtime => ⟨.ok runtime, r, pins⟩
  | none =>
    match deps.openResources with
    | .error e => ⟨.error (.openPinnedMaps e), r, pins⟩
    | .ok resources =>
      if resources.identityMap = false then ⟨.error .missingIdentityMap, r, pins⟩
      else if resources.policyMap = false then ⟨.error .missingPolicyMap, r, pins⟩
      else if r.opts.interface ≠ "" && !resources.attachProgram then ⟨.error .missingAttachProgram, r, pins⟩
      else seedAndAttach deps pins r

end Meridian.Supervisor
