import Meridian.Lib.JsonWriter
import Meridian.Theorems.WireGrammar

/-! The round trip of the resource codec, down to the bytes: what the encoder writes is a text that the strict decoder
    reads back to the same record, and a record of one kind is refused by the decoder of the other. -/

namespace Meridian.Cc2
open Lib Wire

/-! ### The bytes of the encoder -/

/-- `json.Marshal` of the envelope around a marshalled spec. -/
def envelopeBytes (kind : String) (spec : List UInt8) : List UInt8 :=
  writeObject [("schema_version", writeNat schemaVersion.toNat), ("kind", writeString kind), ("spec", spec)]

def policySpecBytes (r : PolicyRule) : List UInt8 :=
  writeObject [("src_identity", writeNat r.key.srcIdentity.toNat), ("dst_identity", writeNat r.key.dstIdentity.toNat),
    ("dst_port", writeNat r.key.dstPort.toNat), ("protocol", writeNat r.key.protocol.toNat),
    ("direction", writeNat r.key.direction.toNat), ("action", writeNat r.verdict.action.toNat),
    ("flags", writeNat r.verdict.flags.toNat)]

def identitySpecBytes (i : Identity) : List UInt8 :=
  writeObject [("id", writeNat i.id.toNat), ("spiffe_id", writeString i.spiffeID), ("pod_ipv4", writeString i.podIPv4),
    ("namespace", writeString i.ns), ("name", writeString i.name)]

def policyRuleBytes (r : PolicyRule) : List UInt8 := envelopeBytes kindPolicyRule (policySpecBytes r)

def identityBytes (i : Identity) : List UInt8 := envelopeBytes kindIdentity (identitySpecBytes i)

/-- The envelope of a spec that is read back is the encoded resource. -/
theorem encode_eq_resource {kind : String} {text : List UInt8} {spec : Json}
    (h : ReadsBack (readValue (maxNestingDepth - 1)) text spec) :
    encode kind spec = resource (envelopeBytes kind text) := by
  have hread : ReadsBack readJson (envelopeBytes kind text)
      (.obj [("schema_version", .num schemaVersion.toNat), ("kind", .str kind), ("spec", spec)]) :=
    readsBack_writeObject (maxNestingDepth - 1)
      [("schema_version", writeNat schemaVersion.toNat, .num schemaVersion.toNat), ("kind", writeString kind, .str kind),
        ("spec", text, spec)]
      (by simpa using ⟨readsBack_writeNat _ _, readsBack_writeString _ _, h⟩)
  rw [encode, resource, readText_of_readsBack hread]

theorem encodePolicyRule_eq_resource (r : PolicyRule) : encodePolicyRule r = resource (policyRuleBytes r) := by
  refine encode_eq_resource (readsBack_writeObject (maxNestingDepth - 2)
    [("src_identity", _, .num r.key.srcIdentity.toNat), ("dst_identity", _, .num r.key.dstIdentity.toNat),
     ("dst_port", _, .num r.key.dstPort.toNat), ("protocol", _, .num r.key.protocol.toNat),
     ("direction", _, .num r.key.direction.toNat), ("action", _, .num r.verdict.action.toNat),
     ("flags", _, .num r.verdict.flags.toNat)] ?_)
  simpa using ⟨readsBack_writeNat _ _, readsBack_writeNat _ _, readsBack_writeNat _ _, readsBack_writeNat _ _,
    readsBack_writeNat _ _, readsBack_writeNat _ _, readsBack_writeNat _ _⟩

theorem encodeIdentity_eq_resource (i : Identity) : encodeIdentity i = resource (identityBytes i) := by
  refine encode_eq_resource (readsBack_writeObject (maxNestingDepth - 2)
    [("id", _, .num i.id.toNat), ("spiffe_id", _, .str i.spiffeID), ("pod_ipv4", _, .str i.podIPv4),
     ("namespace", _, .str i.ns), ("name", _, .str i.name)] ?_)
  simpa using ⟨readsBack_writeNat _ _, readsBack_writeString _ _, readsBack_writeString _ _, readsBack_writeString _ _,
    readsBack_writeString _ _⟩

/-! ### Decoding what was encoded -/

theorem decodeIdentity_encodeIdentity (i : Identity) : decodeIdentity (encodeIdentity i) = .ok i := by
  have hspec : decodeMembers identitySpecFields
      [("id", .num i.id.toNat), ("spiffe_id", .str i.spiffeID), ("pod_ipv4", .str i.podIPv4), ("namespace", .str i.ns),
       ("name", .str i.name)] ⟨0, "", "", "", ""⟩ = .ok ⟨i.id, i.spiffeID, i.podIPv4, i.ns, i.name⟩ := by
    rw [decodeMembers_cons rfl (uintField_num i.id.toNat_lt _), decodeMembers_cons rfl rfl, decodeMembers_cons rfl rfl,
      decodeMembers_cons rfl rfl, decodeMembers_cons rfl rfl, decodeMembers, UInt32.ofNat_toNat]
  rw [decodeIdentity, decodeSpec, encodeIdentity, openEnvelope_encode]
  simp only [strictDecode_obj hspec]

/-- An envelope of another kind is refused for its kind. -/
theorem openEnvelope_encode_of_ne {kind want : String} (h : kind ≠ want) (spec : Json) :
    openEnvelope (encode kind spec) want = .error (.kind kind want) := by
  simp [openEnvelope, encode, strictDecode_obj (decode_envelope kind spec), h]

/-- The codec on the bytes of the wire. -/
theorem wire_codec_round_trip :
    (∀ r : PolicyRule, r.key.direction ≤ 1 → r.verdict.action ≤ 2 →
      decodePolicyRule (resource (policyRuleBytes r)) = .ok r) ∧
    (∀ i : Identity, decodeIdentity (resource (identityBytes i)) = .ok i) ∧
    (∀ r : PolicyRule, decodeIdentity (resource (policyRuleBytes r)) = .error (.kind kindPolicyRule kindIdentity)) ∧
    (∀ i : Identity, decodePolicyRule (resource (identityBytes i)) = .error (.kind kindIdentity kindPolicyRule)) := by
  have hne : kindPolicyRule ≠ kindIdentity := by decide
  refine ⟨fun r hdir hact => ?_, fun i => ?_, fun r => ?_, fun i => ?_⟩
  · rw [← encodePolicyRule_eq_resource]
    exact decodePolicyRule_encodePolicyRule hdir hact
  · rw [← encodeIdentity_eq_resource]
    exact decodeIdentity_encodeIdentity i
  · rw [← encodePolicyRule_eq_resource, decodeIdentity, decodeSpec, encodePolicyRule, openEnvelope_encode_of_ne hne]
  · rw [← encodeIdentity_eq_resource, decodePolicyRule, decodeSpec, encodeIdentity, openEnvelope_encode_of_ne hne.symm]

/-- A rule that redirects, and an identity whose name needs escapes. -/
theorem wire_codec_round_trip_sample :
    decodePolicyRule (resource (policyRuleBytes ⟨⟨7, 9, 8080, 6, 1⟩, ⟨2, 3⟩⟩)) = .ok ⟨⟨7, 9, 8080, 6, 1⟩, ⟨2, 3⟩⟩ ∧
    decodeIdentity (resource (identityBytes ⟨7, "spiffe://a/b", "10.0.0.1", "<ns>", "q\"é"⟩)) =
      .ok ⟨7, "spiffe://a/b", "10.0.0.1", "<ns>", "q\"é"⟩ :=
  ⟨wire_codec_round_trip.1 _ (by decide) (by decide), wire_codec_round_trip.2.1 _⟩

end Meridian.Cc2
