import Meridian.Bpf.Types
import Meridian.Wire

/-! The datapath writer: how a commit plan reaches the kernel maps (`internal/agent/datapath`). Any map
    operation may fail; which do is given per call, by the number of operations before it. -/

namespace Meridian.Datapath
open Lib Wire

/-! ### Translation -/

def translatePolicyRuleKey (key : PolicyRuleKey) : Bpf.PolicyKey :=
  { srcId := key.srcIdentity, dstId := key.dstIdentity, dstPort := key.dstPort, proto := key.protocol,
    direction := key.direction }

def translatePolicyVerdict (verdict : Wire.PolicyVerdict) : Bpf.PolicyVerdict :=
  { action := verdict.action, flags := verdict.flags }

/-- The IPv4 half of `netip.ParseAddr`: the rest of the text after the octets `fields` and `digLen` digits
    of the next one, which so far is `val`. -/
def parseIPv4Fields : List Char → List UInt8 → Nat → Nat → Option (List UInt8)
  | [], fields, val, digLen => if fields.length < 3 || digLen = 0 then none else some (fields ++ [UInt8.ofNat val])
  | c :: rest, fields, val, digLen =>
    if '0' ≤ c && c ≤ '9' then
      if digLen = 1 && val = 0 then none
      else
        let val := val * 10 + (c.toNat - 48)
        if val > 255 then none else parseIPv4Fields rest fields val (digLen + 1)
    else if c = '.' then
      if digLen = 0 then none
      else if fields.length = 3 then none
      else parseIPv4Fields rest (fields ++ [UInt8.ofNat val]) 0 0
    else none

def parseIPv4 (s : String) : Option (List UInt8) := parseIPv4Fields s.toList [] 0 0

inductive TranslateError where
  | missingPodIPv4 (id : IdentityID)
  | notIPv4 (id : IdentityID) (podIPv4 : String)
  deriving DecidableEq, Repr

/-- The key of a pod in `identity_map`: the four address bytes in network order, loaded as a word. -/
def identityIPv4NetworkKey (identity : Identity) : Except TranslateError UInt32 :=
  if identity.podIPv4 = "" then .error (.missingPodIPv4 identity.id)
  else
    match parseIPv4 identity.podIPv4 with
    | none => .error (.notIPv4 identity.id identity.podIPv4)
    | some v4 => .ok (loadU32 v4 0)

structure IdentityMapEntry where
  key : UInt32
  value : UInt32
  deriving DecidableEq, Repr

def translateIdentity (identity : Identity) : Except TranslateError IdentityMapEntry :=
  match identityIPv4NetworkKey identity with
  | .error e => .error e
  | .ok key => .ok { key, value := identity.id }

/-! ### Map operations -/

inductive MapError where
  | keyNotExist
  | other
  deriving DecidableEq, Repr

section
variable {K V : Type} [DecidableEq K]

def mapUpdate (fails : Bool) (t : Table K V) (k : K) (v : V) : Except MapError (Table K V) :=
  if fails then .error .other else .ok (Table.put t k v)

def mapDelete (fails : Bool) (t : Table K V) (k : K) : Except MapError (Table K V) :=
  if fails then .error .other
  else if (t k).isNone then .error .keyNotExist
  else .ok (Table.erase t k)

end

/-! ### The writer -/

/-- The writer with the two maps it writes; `identityKeyByID` is its own record of the keys it put. -/
structure Writer where
  identityMap : Table UInt32 UInt32
  policyMap : Table Bpf.PolicyKey Bpf.PolicyVerdict
  identityKeyByID : Table IdentityID UInt32

def Writer.new (identityMap : Table UInt32 UInt32) (policyMap : Table Bpf.PolicyKey Bpf.PolicyVerdict) : Writer :=
  ⟨identityMap, policyMap, fun _ => none⟩

inductive ApplyError where
  | translate (err : TranslateError)
  | identityUpsert (id : IdentityID) (ipKey : UInt32)
  | policyUpsert (key : PolicyRuleKey)
  | policyDelete (key : PolicyRuleKey)
  | identityDelete (id : IdentityID) (ipKey : UInt32)
  deriving DecidableEq, Repr

structure ApplyState where
  writer : Writer
  ops : Nat

/-- `if err := ..; err != nil { return err }`. -/
def andThen (r : Option ApplyError × ApplyState) (rest : ApplyState → Option ApplyError × ApplyState) :
    Option ApplyError × ApplyState :=
  match r with
  | (some e, s) => (some e, s)
  | (none, s) => rest s

section
variable (fails : Nat → Bool)

def applyIdentityUpserts : List Identity → ApplyState → Option ApplyError × ApplyState
  | [], s => (none, s)
  | identity :: rest, s =>
    match translateIdentity identity with
    | .error e => (some (.translate e), s)
    | .ok entry =>
      match mapUpdate (fails s.ops) s.writer.identityMap entry.key entry.value with
      | .error _ => (some (.identityUpsert identity.id entry.key), ⟨s.writer, s.ops + 1⟩)
      | .ok identityMap =>
        let identityKeyByID := Table.put s.writer.identityKeyByID identity.id entry.key
        applyIdentityUpserts rest ⟨{ s.writer with identityMap, identityKeyByID }, s.ops + 1⟩

def applyPolicyUpserts : List PolicyRule → ApplyState → Option ApplyError × ApplyState
  | [], s => (none, s)
  | rule :: rest, s =>
    match mapUpdate (fails s.ops) s.writer.policyMap (translatePolicyRuleKey rule.key)
        (translatePolicyVerdict rule.verdict) with
    | .error _ => (some (.policyUpsert rule.key), ⟨s.writer, s.ops + 1⟩)
    | .ok policyMap => applyPolicyUpserts rest ⟨{ s.writer with policyMap }, s.ops + 1⟩

def applyPolicyDeletes : List PolicyRuleKey → ApplyState → Option ApplyError × ApplyState
  | [], s => (none, s)
  | ruleKey :: rest, s =>
    match mapDelete (fails s.ops) s.writer.policyMap (translatePolicyRuleKey ruleKey) with
    | .error .other => (some (.policyDelete ruleKey), ⟨s.writer, s.ops + 1⟩)
    | .error .keyNotExist => applyPolicyDeletes rest ⟨s.writer, s.ops + 1⟩
    | .ok policyMap => applyPolicyDeletes rest ⟨{ s.writer with policyMap }, s.ops + 1⟩

def applyIdentityDeletes : List IdentityID → ApplyState → Option ApplyError × ApplyState
  | [], s => (none, s)
  | identityID :: rest, s =>
    match s.writer.identityKeyByID identityID with
    -- Only keys observed by this writer are tracked.
    | none => applyIdentityDeletes rest s
    | some ipKey =>
      let identityKeyByID := Table.erase s.writer.identityKeyByID identityID
      match mapDelete (fails s.ops) s.writer.identityMap ipKey with
      | .error .other => (some (.identityDelete identityID ipKey), ⟨s.writer, s.ops + 1⟩)
      | .error .keyNotExist => applyIdentityDeletes rest ⟨{ s.writer with identityKeyByID }, s.ops + 1⟩
      | .ok identityMap => applyIdentityDeletes rest ⟨{ s.writer with identityMap, identityKeyByID }, s.ops + 1⟩

def apply (plan : CommitPlan) (w : Writer) : Option ApplyError × Writer :=
  let r := andThen (applyIdentityUpserts fails plan.identityUpserts ⟨w, 0⟩) fun s =>
    andThen (applyPolicyUpserts fails plan.policyUpserts s) fun s =>
    andThen (applyPolicyDeletes fails plan.policyDeletes s) fun s =>
    applyIdentityDeletes fails plan.identityDeletes s
  (r.1, r.2.writer)

end

end Meridian.Datapath
