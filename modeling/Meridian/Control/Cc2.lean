import Meridian.Lib.Json
import Meridian.Wire

/-! The CC-2 resource codec (`internal/cc2`): a resource is an `Any` that wraps a `BytesValue` whose bytes
    are a versioned JSON envelope. -/

namespace Meridian.Cc2
open Lib Wire

def schemaVersion : UInt32 := 1

def kindPolicyRule : String := "PolicyRule"
def kindIdentity : String := "Identity"

def bytesValueUrl : String := "type.googleapis.com/google.protobuf.BytesValue"

/-- `google.protobuf.Any`; `bytes` is the content of the `BytesValue` when the value is one. -/
structure AnyMsg where
  typeUrl : String
  bytes : Option JsonText

/-- The envelope; `spec` is missing when its raw text is empty. -/
structure Envelope where
  schemaVersion : UInt32
  kind : String
  spec : Option Json

structure PolicySpec where
  srcIdentity : UInt32
  dstIdentity : UInt32
  dstPort : UInt16
  protocol : UInt8
  direction : UInt8
  action : UInt8
  flags : UInt8
  deriving DecidableEq, Repr

structure IdentitySpec where
  id : UInt32
  spiffeID : String
  podIPv4 : String
  ns : String
  name : String
  deriving DecidableEq, Repr

inductive Cc2Error where
  | notBytesValue
  | envelope (err : JsonError)
  | schemaVersion (found : UInt32)
  | kind (found want : String)
  | emptySpec (want : String)
  | spec (kind : String) (err : JsonError)
  | direction (found : UInt8)
  | action (found : UInt8)
  deriving DecidableEq, Repr

/-! ### Encoding -/

def encode (kind : String) (spec : Json) : AnyMsg where
  typeUrl := bytesValueUrl
  bytes := some (.value
    (.obj [("schema_version", .num schemaVersion.toNat), ("kind", .str kind), ("spec", spec)]) false)

def encodePolicyRule (r : PolicyRule) : AnyMsg :=
  encode kindPolicyRule (.obj
    [("src_identity", .num r.key.srcIdentity.toNat), ("dst_identity", .num r.key.dstIdentity.toNat),
     ("dst_port", .num r.key.dstPort.toNat), ("protocol", .num r.key.protocol.toNat),
     ("direction", .num r.key.direction.toNat), ("action", .num r.verdict.action.toNat),
     ("flags", .num r.verdict.flags.toNat)])

def encodeIdentity (i : Identity) : AnyMsg :=
  encode kindIdentity (.obj
    [("id", .num i.id.toNat), ("spiffe_id", .str i.spiffeID), ("pod_ipv4", .str i.podIPv4), ("namespace", .str i.ns),
     ("name", .str i.name)])

/-! ### Decoding -/

def envelopeFields : List (JsonField Envelope) :=
  [uintField "schema_version" 32 fun n e => { e with schemaVersion := UInt32.ofNat n },
   stringField "kind" fun s e => { e with kind := s },
   rawField "spec" fun v e => { e with spec := some v }]

def policySpecFields : List (JsonField PolicySpec) :=
  [uintField "src_identity" 32 fun n s => { s with srcIdentity := UInt32.ofNat n },
   uintField "dst_identity" 32 fun n s => { s with dstIdentity := UInt32.ofNat n },
   uintField "dst_port" 16 fun n s => { s with dstPort := UInt16.ofNat n },
   uintField "protocol" 8 fun n s => { s with protocol := UInt8.ofNat n },
   uintField "direction" 8 fun n s => { s with direction := UInt8.ofNat n },
   uintField "action" 8 fun n s => { s with action := UInt8.ofNat n },
   uintField "flags" 8 fun n s => { s with flags := UInt8.ofNat n }]

def identitySpecFields : List (JsonField IdentitySpec) :=
  [uintField "id" 32 fun n s => { s with id := UInt32.ofNat n },
   stringField "spiffe_id" fun v s => { s with spiffeID := v },
   stringField "pod_ipv4" fun v s => { s with podIPv4 := v },
   stringField "namespace" fun v s => { s with ns := v },
   stringField "name" fun v s => { s with name := v }]

def openEnvelope (a : AnyMsg) (wantKind : String) : Except Cc2Error Json :=
  match a.bytes with
  | none => .error .notBytesValue
  | some text =>
    if a.typeUrl ≠ bytesValueUrl then .error .notBytesValue
    else
      match strictDecode envelopeFields { schemaVersion := 0, kind := "", spec := none } text with
      | .error e => .error (.envelope e)
      | .ok env =>
        if env.schemaVersion ≠ schemaVersion then .error (.schemaVersion env.schemaVersion)
        else if env.kind ≠ wantKind then .error (.kind env.kind wantKind)
        else
          match env.spec with
          | none => .error (.emptySpec wantKind)
          | some spec => .ok spec

/-- The part of `DecodePolicyRule` and `DecodeIdentity` up to the decoded spec. -/
def decodeSpec {ρ : Type} (kind : String) (fields : List (JsonField ρ)) (zero : ρ) (a : AnyMsg) : Except Cc2Error ρ :=
  match openEnvelope a kind with
  | .error e => .error e
  | .ok raw =>
    match strictDecode fields zero (.value raw false) with
    | .error e => .error (.spec kind e)
    | .ok s => .ok s

def decodePolicyRule (a : AnyMsg) : Except Cc2Error PolicyRule :=
  match decodeSpec kindPolicyRule policySpecFields ⟨0, 0, 0, 0, 0, 0, 0⟩ a with
  | .error e => .error e
  | .ok s =>
    if s.direction > 1 then .error (.direction s.direction)
    else if s.action > policyActionRedirectProxy then .error (.action s.action)
    else
      .ok { key := { srcIdentity := s.srcIdentity, dstIdentity := s.dstIdentity, dstPort := s.dstPort,
                     protocol := s.protocol, direction := s.direction },
            verdict := { action := s.action, flags := s.flags } }

def decodeIdentity (a : AnyMsg) : Except Cc2Error Identity :=
  match decodeSpec kindIdentity identitySpecFields ⟨0, "", "", "", ""⟩ a with
  | .error e => .error e
  | .ok s => .ok { id := s.id, spiffeID := s.spiffeID, podIPv4 := s.podIPv4, ns := s.ns, name := s.name }

/-! ### Round trips -/

theorem decode_envelope (kind : String) (spec : Json) :
    decodeMembers envelopeFields
      [("schema_version", .num schemaVersion.toNat), ("kind", .str kind), ("spec", spec)] ⟨0, "", none⟩ =
    .ok ⟨schemaVersion, kind, some spec⟩ := by
  rw [decodeMembers_cons (q := ⟨schemaVersion, "", none⟩) rfl rfl,
    decodeMembers_cons (q := ⟨schemaVersion, kind, none⟩) rfl rfl, decodeMembers_cons rfl rfl]
  rfl

theorem openEnvelope_encode (kind : String) (spec : Json) : openEnvelope (encode kind spec) kind = .ok spec := by
  simp [openEnvelope, encode, strictDecode_obj (decode_envelope kind spec)]

theorem decodeMembers_policySpec (s : PolicySpec) :
    decodeMembers policySpecFields
      [("src_identity", .num s.srcIdentity.toNat), ("dst_identity", .num s.dstIdentity.toNat),
       ("dst_port", .num s.dstPort.toNat), ("protocol", .num s.protocol.toNat), ("direction", .num s.direction.toNat),
       ("action", .num s.action.toNat), ("flags", .num s.flags.toNat)] ⟨0, 0, 0, 0, 0, 0, 0⟩ = .ok s := by
  rw [decodeMembers_cons rfl (uintField_num s.srcIdentity.toNat_lt _),
    decodeMembers_cons rfl (uintField_num s.dstIdentity.toNat_lt _),
    decodeMembers_cons rfl (uintField_num s.dstPort.toNat_lt _),
    decodeMembers_cons rfl (uintField_num s.protocol.toNat_lt _),
    decodeMembers_cons rfl (uintField_num s.direction.toNat_lt _),
    decodeMembers_cons rfl (uintField_num s.action.toNat_lt _),
    decodeMembers_cons rfl (uintField_num s.flags.toNat_lt _)]
  simp only [decodeMembers, UInt32.ofNat_toNat, UInt16.ofNat_toNat, UInt8.ofNat_toNat]

/-- A rule with a direction and an action in range survives the codec. -/
theorem decodePolicyRule_encodePolicyRule {r : PolicyRule} (hdir : r.key.direction ≤ 1)
    (hact : r.verdict.action ≤ policyActionRedirectProxy) : decodePolicyRule (encodePolicyRule r) = .ok r := by
  have hspec := decodeMembers_policySpec
    ⟨r.key.srcIdentity, r.key.dstIdentity, r.key.dstPort, r.key.protocol, r.key.direction, r.verdict.action,
      r.verdict.flags⟩
  rw [decodePolicyRule, decodeSpec, encodePolicyRule, openEnvelope_encode]
  simp only [strictDecode_obj hspec]
  rw [if_neg (UInt8.not_lt.mpr hdir), if_neg (UInt8.not_lt.mpr hact)]

end Meridian.Cc2
