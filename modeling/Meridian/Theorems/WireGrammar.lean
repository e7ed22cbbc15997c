import Mathlib.Data.List.TakeWhile
import Meridian.Control.Cc2
import Meridian.Lib.JsonReader
import Meridian.Lib.JsonShape

/-! The language of the wire decoder. The frozen contract is one object with each member once; the decoder accepts more:
    names in another case, repeated members of which the last counts, members that are absent or `null`, and anything
    after a closing bracket that follows the object. -/

namespace Meridian.Cc2
open Lib Wire

/-! ### The grammar -/

def envelopeShape : Shape := [("schema_version", .uint 32 (2 ^ 32)), ("kind", .string), ("spec", .any)]

def policyShape : Shape :=
  [("src_identity", .uint 32 (2 ^ 32)), ("dst_identity", .uint 32 (2 ^ 32)), ("dst_port", .uint 16 (2 ^ 16)),
   ("protocol", .uint 8 (2 ^ 8)), ("direction", .uint 8 2), ("action", .uint 8 3), ("flags", .uint 8 (2 ^ 8))]

def identityShape : Shape :=
  [("id", .uint 32 (2 ^ 32)), ("spiffe_id", .string), ("pod_ipv4", .string), ("namespace", .string), ("name", .string)]

/-- The resource with these bytes. -/
def resource (d : List UInt8) : AnyMsg := ⟨bytesValueUrl, some (readText d)⟩

def ValidUtf8 (d : List UInt8) : Prop := ∃ text : List Char, d = text.flatMap String.utf8EncodeChar

/-- The frozen contract: one object with the three members of the envelope, each once, whose spec is an object with the
    fields of the shape, each once and valid, and only space after it. -/
def Frozen (kind : String) (shape : Shape) (d : List UInt8) : Prop :=
  ValidUtf8 d ∧ ∃ members rest spec, readJson d = some (.obj members, rest) ∧ (∀ b ∈ rest, isJsonSpace b = true) ∧
    SameNames envelopeShape members ∧ ("schema_version", .num 1) ∈ members ∧ ("kind", .str kind) ∈ members ∧
    ("spec", .obj spec) ∈ members ∧ Exact shape spec

/-- What the decoder takes for a spec. -/
def LenientSpec (shape : Shape) (v : Json) : Prop :=
  v = .null ∨ ∃ members, v = .obj members ∧ Stores shape members ∧ LastHold shape members

/-- What the decoder takes for a resource: of each member of the envelope the last value counts, for the version and the
    kind the last that is not `null`. -/
def Lenient (kind : String) (shape : Shape) (d : List UInt8) : Prop :=
  ∃ members rest spec, readJson d = some (.obj members, rest) ∧ moreFollows rest = false ∧ Stores envelopeShape members ∧
    lastSet "schema_version" members = some (.num 1) ∧ lastSet "kind" members = some (.str kind) ∧
    lastMember (fun _ => true) "spec" members = some spec ∧ LenientSpec shape spec

/-- The members of the envelope and of the spec each stand once, under their own names and not as `null`, and only space
    follows. -/
def Tidy (shape : Shape) (d : List UInt8) : Prop :=
  ValidUtf8 d ∧ ∀ members rest, readJson d = some (.obj members, rest) →
    (∀ b ∈ rest, isJsonSpace b = true) ∧ SameNames envelopeShape members ∧ NoNull members ∧
    ∀ spec, ("spec", .obj spec) ∈ members → SameNames shape spec ∧ NoNull spec

/-! ### The frozen part of the language -/

theorem foldDistinct_envelopeShape : FoldDistinct envelopeShape := by
  unfold FoldDistinct
  decide +kernel

theorem moreFollows_of_space {rest : List UInt8} (h : ∀ b ∈ rest, isJsonSpace b = true) : moreFollows rest = false := by
  have hnil : skipSpace rest = [] := List.dropWhile_eq_nil_iff.mpr h
  simp [moreFollows, hnil]

section
variable {kind : String} {shape : Shape} {d : List UInt8}

/-- The members of a frozen envelope are stored, and none of them is `null`. -/
theorem stores_envelope {members spec : List (String × Json)} (hnames : SameNames envelopeShape members)
    (hversion : ("schema_version", .num 1) ∈ members) (hkind : ("kind", .str kind) ∈ members)
    (hspec : ("spec", .obj spec) ∈ members) : Stores envelopeShape members ∧ NoNull members := by
  have hvalue {name : String} {v : Json} (hv : (name, v) ∈ members) {m : String × Json} (hm : m ∈ members)
      (hname : name = m.1) : m.2 = v :=
    hnames.value_unique foldDistinct_envelopeShape (hname ▸ hm) hv
  have hcases {m : String × Json} (hm : m ∈ members) :
      m = ("schema_version", .num 1) ∨ m = ("kind", .str kind) ∨ m = ("spec", .obj spec) := by
    obtain ⟨t, ht, hname, -⟩ := hnames.mem foldDistinct_envelopeShape hm
    simp only [envelopeShape, List.mem_cons, List.not_mem_nil, or_false] at ht
    rcases ht with rfl | rfl | rfl
    · exact .inl (Prod.ext hname.symm (hvalue hversion hm hname))
    · exact .inr (.inl (Prod.ext hname.symm (hvalue hkind hm hname)))
    · exact .inr (.inr (Prod.ext hname.symm (hvalue hspec hm hname)))
  constructor
  · intro m hm
    rcases hcases hm with rfl | rfl | rfl
    · exact ⟨_, List.mem_cons_self, rfl, .inr ⟨1, by decide, rfl⟩⟩
    · exact ⟨_, List.mem_cons_of_mem _ List.mem_cons_self, rfl, .inr ⟨kind, rfl⟩⟩
    · exact ⟨_, List.mem_cons_of_mem _ (List.mem_cons_of_mem _ List.mem_cons_self), rfl, trivial⟩
  · intro m hm
    rcases hcases hm with rfl | rfl | rfl <;> simp

/-- The frozen resources are those of the decoder's language that are tidy. -/
theorem frozen_iff (hdistinct : FoldDistinct shape) (hfits : ∀ t ∈ shape, t.2.Fits = true)
    (htyped : ∀ t ∈ shape, t.2 ≠ .any) : Frozen kind shape d ↔ Lenient kind shape d ∧ Tidy shape d := by
  have hlast {members : List (String × Json)} (hnames : SameNames envelopeShape members) {keep : Json → Bool}
      (hkeep : ∀ m ∈ members, keep m.2 = true) {t : String × FieldType} (ht : t ∈ envelopeShape) (v : Json) :
      lastMember keep t.1 members = some v ↔ (t.1, v) ∈ members :=
    hnames.lastMember_iff foldDistinct_envelopeShape ht hkeep v
  have hversion : ("schema_version", .uint 32 (2 ^ 32)) ∈ envelopeShape := List.mem_cons_self
  have hkind : ("kind", .string) ∈ envelopeShape := List.mem_cons_of_mem _ List.mem_cons_self
  have hspec : ("spec", .any) ∈ envelopeShape := List.mem_cons_of_mem _ (List.mem_cons_of_mem _ List.mem_cons_self)
  constructor
  · rintro ⟨hutf8, members, rest, spec, hread, hspace, hnames, hv, hk, hs, hexact⟩
    obtain ⟨hstores, hnull⟩ := stores_envelope hnames hv hk hs
    obtain ⟨hlenient, hspecNames, hspecNull⟩ := (exact_iff hdistinct hfits htyped).mp hexact
    refine ⟨⟨members, rest, .obj spec, hread, moreFollows_of_space hspace, hstores, ?_, ?_, ?_, .inr ⟨spec, rfl, hlenient⟩⟩,
      hutf8, fun members' rest' hread' => ?_⟩
    · exact (hlast hnames hnull.kept hversion _).mpr hv
    · exact (hlast hnames hnull.kept hkind _).mpr hk
    · exact (hlast hnames (fun _ _ => rfl) hspec _).mpr hs
    · rw [hread] at hread'
      cases hread'
      refine ⟨hspace, hnames, hnull, fun spec' hspec' => ?_⟩
      cases hnames.value_unique foldDistinct_envelopeShape hs hspec'
      exact ⟨hspecNames, hspecNull⟩
  · rintro ⟨⟨members, rest, spec, hread, -, -, hv, hk, hs, hlenient⟩, hutf8, htidy⟩
    obtain ⟨hspace, hnames, hnull, hspecTidy⟩ := htidy members rest hread
    have hmem := (hlast hnames (fun _ _ => rfl) hspec _).mp hs
    obtain rfl | ⟨specMembers, rfl, hstored⟩ := hlenient
    · exact absurd rfl (hnull _ hmem)
    · exact ⟨hutf8, members, rest, specMembers, hread, hspace, hnames, (hlast hnames hnull.kept hversion _).mp hv,
        (hlast hnames hnull.kept hkind _).mp hk, hmem, (exact_iff hdistinct hfits htyped).mpr ⟨hstored, hspecTidy _ hmem⟩⟩

end

/-! ### The language of the decoder -/

theorem fieldOf_envelope : List.Forall₂ FieldOf envelopeFields envelopeShape :=
  .cons (fieldOf_uint _ _ _ _) (.cons (fieldOf_string _ _) (.cons (fieldOf_raw _ _) .nil))

theorem fieldOf_policy : List.Forall₂ FieldOf policySpecFields policyShape :=
  .cons (fieldOf_uint _ _ _ _) (.cons (fieldOf_uint _ _ _ _) (.cons (fieldOf_uint _ _ _ _) (.cons (fieldOf_uint _ _ _ _)
    (.cons (fieldOf_uint _ _ _ _) (.cons (fieldOf_uint _ _ _ _) (.cons (fieldOf_uint _ _ _ _) .nil))))))

theorem fieldOf_identity : List.Forall₂ FieldOf identitySpecFields identityShape :=
  .cons (fieldOf_uint _ _ _ _) (.cons (fieldOf_string _ _) (.cons (fieldOf_string _ _) (.cons (fieldOf_string _ _)
    (.cons (fieldOf_string _ _) .nil))))

/-- The number of a value, and its text. -/
def numberOf : Json → Nat
  | .num n => n
  | _ => 0

def textOf : Json → String
  | .str s => s
  | _ => ""

variable {members : List (String × Json)} {shape : Shape} {ρ : Type} {fields : List (JsonField ρ)} {d : List UInt8}
  {kind : String} {a : AnyMsg}

/-- What the envelope's fields hold after the members. -/
theorem envelope_fields {env : Envelope} (h : decodeMembers envelopeFields members ⟨0, "", none⟩ = .ok env) :
    env.schemaVersion = ((lastSet "schema_version" members).map fun v => UInt32.ofNat (numberOf v)).getD 0 ∧
    env.kind = ((lastSet "kind" members).map textOf).getD "" ∧
    env.spec = lastMember (fun _ => true) "spec" members := by
  have hnames : foldName "schema_version" ≠ foldName "kind" ∧ foldName "schema_version" ≠ foldName "spec" ∧
      foldName "kind" ≠ foldName "spec" := by decide +kernel
  obtain ⟨hvk, hvs, hks⟩ := hnames
  refine ⟨?_, ?_, ?_⟩
  · refine decodeMembers_get Envelope.schemaVersion "schema_version" _ _ (fun f hf => ?_) h
    simp only [envelopeFields, List.mem_cons, List.not_mem_nil, or_false] at hf
    rcases hf with rfl | rfl | rfl
    · exact reads_uint fun _ _ => rfl
    · exact reads_string_other hvk fun _ _ => rfl
    · exact reads_raw_other hvs fun _ _ => rfl
  · refine decodeMembers_get Envelope.kind "kind" _ _ (fun f hf => ?_) h
    simp only [envelopeFields, List.mem_cons, List.not_mem_nil, or_false] at hf
    rcases hf with rfl | rfl | rfl
    · exact reads_uint_other hvk.symm fun _ _ => rfl
    · exact reads_string fun _ _ => rfl
    · exact reads_raw_other hks fun _ _ => rfl
  · have hspec := decodeMembers_get Envelope.spec "spec" (fun _ => true) some (fun f hf => ?_) h
    · rw [hspec]
      cases lastMember (fun _ => true) "spec" members <;> rfl
    · simp only [envelopeFields, List.mem_cons, List.not_mem_nil, or_false] at hf
      rcases hf with rfl | rfl | rfl
      · exact reads_uint_other hvs.symm fun _ _ => rfl
      · exact reads_string_other hks.symm fun _ _ => rfl
      · exact reads_raw fun _ _ => rfl

/-- The last value that is set in a field has the field's type. -/
theorem storable_of_lastSet (hdistinct : FoldDistinct shape) (hstores : Stores shape members) {t : String × FieldType}
    (ht : t ∈ shape) {v : Json} (hlast : lastSet t.1 members = some v) : t.2.Storable v ∧ v ≠ .null := by
  obtain ⟨m, hm, hfold, rfl, hset⟩ := exists_of_lastMember hlast
  obtain ⟨t', ht', hfold', hstorable⟩ := hstores m hm
  rw [hdistinct.eq ht ht' (hfold.trans hfold'.symm)]
  refine ⟨hstorable, fun hnull => ?_⟩
  rw [hnull] at hset
  cases hset

theorem strictDecode_readText {zero r : ρ} : strictDecode fields zero (readText d) = .ok r ↔
      ∃ v rest, readJson d = some (v, rest) ∧ moreFollows rest = false ∧ decodeStruct fields v zero = .ok r := by
  unfold readText
  cases hread : readJson d with
  | none => simp [strictDecode]
  | some result =>
    obtain ⟨v, rest⟩ := result
    cases hdecode : decodeStruct fields v zero with
    | error e => simp [strictDecode, hdecode]
    | ok r' =>
      cases hmore : moreFollows rest <;> simp [strictDecode, hdecode, hmore]

theorem openEnvelope_resource {raw : Json} :
    openEnvelope (resource d) kind = .ok raw ↔ ∃ env, strictDecode envelopeFields ⟨0, "", none⟩ (readText d) = .ok env ∧
      env.schemaVersion = schemaVersion ∧ env.kind = kind ∧ env.spec = some raw := by
  simp only [openEnvelope, resource, ne_eq, not_true_eq_false, if_false]
  cases hdecode : strictDecode envelopeFields ⟨0, "", none⟩ (readText d) with
  | error e => simp
  | ok env =>
    by_cases hversion : env.schemaVersion = schemaVersion
    · by_cases hkind : env.kind = kind
      · cases hspec : env.spec <;> simp [hversion, hkind, hspec]
      · simp [hversion, hkind]
    · simp [hversion]

/-- A version that was read is the number of a member. -/
theorem lastSet_version (hstores : Stores envelopeShape members)
    (hversion : 1 = ((lastSet "schema_version" members).map fun v => UInt32.ofNat (numberOf v)).getD 0) :
    lastSet "schema_version" members = some (.num 1) := by
  cases hlast : lastSet "schema_version" members with
  | none =>
    rw [hlast] at hversion
    exact absurd hversion (by decide)
  | some v =>
    obtain ⟨hnull | ⟨n, hn, rfl⟩, hset⟩ :=
      storable_of_lastSet foldDistinct_envelopeShape hstores List.mem_cons_self hlast
    · exact absurd hnull hset
    · rw [hlast] at hversion
      have hone := congrArg UInt32.toNat hversion
      simp only [Option.map_some, Option.getD_some, numberOf, UInt32.toNat_ofNat'] at hone
      rw [Nat.mod_eq_of_lt hn] at hone
      exact congrArg (fun n => some (Json.num n)) hone.symm

/-- A kind that was read is the text of a member. -/
theorem lastSet_kind (hstores : Stores envelopeShape members) (hkind : kind ≠ "")
    (hread : kind = ((lastSet "kind" members).map textOf).getD "") : lastSet "kind" members = some (.str kind) := by
  cases hlast : lastSet "kind" members with
  | none =>
    rw [hlast] at hread
    exact absurd hread hkind
  | some v =>
    obtain ⟨hnull | ⟨text, rfl⟩, hset⟩ :=
      storable_of_lastSet foldDistinct_envelopeShape hstores (List.mem_cons_of_mem _ List.mem_cons_self) hlast
    · exact absurd hnull hset
    · rw [hlast] at hread
      exact congrArg (fun text => some (Json.str text)) hread.symm

/-- What the decoder reads from the envelope. -/
theorem openEnvelope_eq_ok (hkind : kind ≠ "") {raw : Json} : openEnvelope (resource d) kind = .ok raw ↔
      ∃ members rest, readJson d = some (.obj members, rest) ∧ moreFollows rest = false ∧ Stores envelopeShape members ∧
        lastSet "schema_version" members = some (.num 1) ∧ lastSet "kind" members = some (.str kind) ∧
        lastMember (fun _ => true) "spec" members = some raw := by
  rw [openEnvelope_resource]
  constructor
  · rintro ⟨env, hdecode, hversion, hk, hspec⟩
    obtain ⟨v, rest, hread, hmore, hstruct⟩ := strictDecode_readText.mp hdecode
    cases v with
    | null =>
      cases hstruct
      exact absurd hversion (by decide)
    | obj members =>
      have hstores := (decodeMembers_isOk_iff fieldOf_envelope foldDistinct_envelopeShape members _).mp ⟨env, hstruct⟩
      obtain ⟨hv, hk', hs⟩ := envelope_fields hstruct
      rw [hversion] at hv
      rw [hk] at hk'
      exact ⟨members, rest, hread, hmore, hstores, lastSet_version hstores hv, lastSet_kind hstores hkind hk',
        hs.symm.trans hspec⟩
    | bool b => cases hstruct
    | num n => cases hstruct
    | otherNum literal => cases hstruct
    | str text => cases hstruct
    | arr elements => cases hstruct
  · rintro ⟨members, rest, hread, hmore, hstores, hversion, hk, hspec⟩
    obtain ⟨env, henv⟩ :=
      (decodeMembers_isOk_iff fieldOf_envelope foldDistinct_envelopeShape members ⟨0, "", none⟩).mpr hstores
    obtain ⟨hv, hk', hs⟩ := envelope_fields henv
    rw [hversion] at hv
    rw [hk] at hk'
    exact ⟨env, strictDecode_readText.mpr ⟨.obj members, rest, hread, hmore, henv⟩, hv, hk', hs.trans hspec⟩

/-- What the decoder reads from a spec: nothing from `null`. -/
theorem decodeSpec_eq_ok {zero s : ρ} : decodeSpec kind fields zero a = .ok s ↔ ∃ raw, openEnvelope a kind = .ok raw ∧
      (raw = .null ∧ s = zero ∨ ∃ members, raw = .obj members ∧ decodeMembers fields members zero = .ok s) := by
  unfold decodeSpec
  cases openEnvelope a kind with
  | error e => simp
  | ok raw =>
    cases raw with
    | null => simp [strictDecode, decodeStruct, eq_comm]
    | obj members => cases hmembers : decodeMembers fields members zero <;> simp [strictDecode, decodeStruct, hmembers]
    | _ => simp [strictDecode, decodeStruct]

/-- A value that can be stored in a field without a limit of its own is valid. -/
theorem holds_of_storable {t : FieldType} {v : Json} (h : t.Storable v ∧ v ≠ .null)
    (hfull : ∀ bits limit, t = .uint bits limit → limit = 2 ^ bits) : t.Holds v := by
  cases t with
  | uint bits limit =>
    obtain ⟨hnull | hnum, hset⟩ := h
    · exact absurd hnull hset
    · exact hfull bits limit rfl ▸ hnum
  | string =>
    obtain ⟨hnull | htext, hset⟩ := h
    · exact absurd hnull hset
    · exact htext
  | any => trivial

/-- A small number of a byte field: the last value that is set, or the zero value, is below the limit. -/
theorem byte_lt_iff (hdistinct : FoldDistinct shape) (hstores : Stores shape members) {name : String} {limit : Nat}
    (ht : (name, .uint 8 limit) ∈ shape) (hlimit : 0 < limit) :
    (((lastSet name members).map fun v => UInt8.ofNat (numberOf v)).getD 0).toNat < limit ↔
      ∀ v, lastSet name members = some v → (FieldType.uint 8 limit).Holds v := by
  cases hlast : lastSet name members with
  | none =>
    refine ⟨fun _ v hv => ?_, fun _ => hlimit⟩
    cases hv
  | some v =>
    obtain ⟨hnull | ⟨n, hn, rfl⟩, hset⟩ := storable_of_lastSet hdistinct hstores ht hlast
    · exact absurd hnull hset
    · have hbyte : (UInt8.ofNat (numberOf (.num n))).toNat = n := Nat.mod_eq_of_lt hn
      simp only [Option.map_some, Option.getD_some, hbyte]
      constructor
      · rintro hlt v hv
        cases hv
        exact ⟨n, hlt, rfl⟩
      · intro hall
        obtain ⟨m, hm, heq⟩ := hall _ rfl
        cases heq
        exact hm

theorem foldDistinct_policyShape : FoldDistinct policyShape := by
  unfold FoldDistinct
  decide +kernel

theorem foldDistinct_identityShape : FoldDistinct identityShape := by
  unfold FoldDistinct
  decide +kernel

/-- What the two checked fields of a policy hold after the members. -/
theorem policy_fields {s : PolicySpec} (h : decodeMembers policySpecFields members ⟨0, 0, 0, 0, 0, 0, 0⟩ = .ok s) :
    s.direction = ((lastSet "direction" members).map fun v => UInt8.ofNat (numberOf v)).getD 0 ∧
    s.action = ((lastSet "action" members).map fun v => UInt8.ofNat (numberOf v)).getD 0 := by
  have hnames : ∀ name ∈ ["src_identity", "dst_identity", "dst_port", "protocol", "action", "flags"],
      foldName "direction" ≠ foldName name := by decide +kernel
  have hnames' : ∀ name ∈ ["src_identity", "dst_identity", "dst_port", "protocol", "direction", "flags"],
      foldName "action" ≠ foldName name := by decide +kernel
  constructor
  · refine decodeMembers_get PolicySpec.direction "direction" _ _ (fun f hf => ?_) h
    simp only [policySpecFields, List.mem_cons, List.not_mem_nil, or_false] at hf
    rcases hf with rfl | rfl | rfl | rfl | rfl | rfl | rfl
    case inr.inr.inr.inr.inl => exact reads_uint fun _ _ => rfl
    all_goals exact reads_uint_other (hnames _ (by simp)) fun _ _ => rfl
  · refine decodeMembers_get PolicySpec.action "action" _ _ (fun f hf => ?_) h
    simp only [policySpecFields, List.mem_cons, List.not_mem_nil, or_false] at hf
    rcases hf with rfl | rfl | rfl | rfl | rfl | rfl | rfl
    case inr.inr.inr.inr.inr.inl => exact reads_uint fun _ _ => rfl
    all_goals exact reads_uint_other (hnames' _ (by simp)) fun _ _ => rfl

theorem lastHold_policyShape (hstores : Stores policyShape members) : LastHold policyShape members ↔
      (∀ v, lastSet "direction" members = some v → (FieldType.uint 8 2).Holds v) ∧
      ∀ v, lastSet "action" members = some v → (FieldType.uint 8 3).Holds v := by
  constructor
  · intro h
    exact ⟨h ("direction", .uint 8 2) (by decide), h ("action", .uint 8 3) (by decide)⟩
  · rintro ⟨hdirection, haction⟩ t ht v hlast
    have hstorable := storable_of_lastSet foldDistinct_policyShape hstores ht hlast
    simp only [policyShape, List.mem_cons, List.not_mem_nil, or_false] at ht
    rcases ht with rfl | rfl | rfl | rfl | rfl | rfl | rfl
    case inr.inr.inr.inr.inl => exact hdirection v hlast
    case inr.inr.inr.inr.inr.inl => exact haction v hlast
    all_goals
      refine holds_of_storable hstorable fun bits limit h => ?_
      cases h
      rfl

theorem lastHold_identityShape (hstores : Stores identityShape members) : LastHold identityShape members := by
  intro t ht v hlast
  refine holds_of_storable (storable_of_lastSet foldDistinct_identityShape hstores ht hlast) fun bits limit h => ?_
  simp only [identityShape, List.mem_cons, List.not_mem_nil, or_false] at ht
  rcases ht with rfl | rfl | rfl | rfl | rfl <;> cases h
  rfl

theorem decodePolicyRule_isOk : (∃ rule, decodePolicyRule a = .ok rule) ↔
    ∃ s, decodeSpec kindPolicyRule policySpecFields ⟨0, 0, 0, 0, 0, 0, 0⟩ a = .ok s ∧ s.direction.toNat < 2 ∧
      s.action.toNat < 3 := by
  unfold decodePolicyRule
  cases decodeSpec kindPolicyRule policySpecFields ⟨0, 0, 0, 0, 0, 0, 0⟩ a with
  | error e => simp
  | ok s =>
    have hdir : s.direction > 1 ↔ ¬s.direction.toNat < 2 := by
      rw [gt_iff_lt, UInt8.lt_iff_toNat_lt]
      exact Nat.not_lt.symm
    have hact : s.action > policyActionRedirectProxy ↔ ¬s.action.toNat < 3 := by
      rw [gt_iff_lt, UInt8.lt_iff_toNat_lt]
      exact Nat.not_lt.symm
    by_cases hd : s.direction.toNat < 2
    · simp only [if_neg fun h => hdir.mp h hd]
      by_cases ha : s.action.toNat < 3
      · simp only [if_neg fun h => hact.mp h ha]
        exact ⟨fun _ => ⟨s, rfl, hd, ha⟩, fun _ => ⟨_, rfl⟩⟩
      · simp only [if_pos (hact.mpr ha)]
        exact ⟨(fun ⟨_, h⟩ => nomatch h), fun ⟨_, hs, _, ha'⟩ => absurd (Except.ok.inj hs ▸ ha') ha⟩
    · simp only [if_pos (hdir.mpr hd)]
      exact ⟨(fun ⟨_, h⟩ => nomatch h), fun ⟨_, hs, hd', _⟩ => absurd (Except.ok.inj hs ▸ hd') hd⟩

theorem decodeIdentity_isOk : (∃ identity, decodeIdentity a = .ok identity) ↔
    ∃ s, decodeSpec kindIdentity identitySpecFields ⟨0, "", "", "", ""⟩ a = .ok s := by
  unfold decodeIdentity
  cases decodeSpec kindIdentity identitySpecFields ⟨0, "", "", "", ""⟩ a <;> simp

/-- The resources whose spec decodes and passes a check, when the check is the one of the shape. -/
theorem decodeSpec_isOk_iff {zero : ρ} (hfields : List.Forall₂ FieldOf fields shape) (hdistinct : FoldDistinct shape)
    (hkind : kind ≠ "") {P : ρ → Prop} (hzero : P zero)
    (hP : ∀ members s, decodeMembers fields members zero = .ok s → Stores shape members → (P s ↔ LastHold shape members))
    (d : List UInt8) : (∃ s, decodeSpec kind fields zero (resource d) = .ok s ∧ P s) ↔ Lenient kind shape d := by
  constructor
  · rintro ⟨s, hs, hPs⟩
    obtain ⟨raw, hopen, hraw⟩ := decodeSpec_eq_ok.mp hs
    obtain ⟨members, rest, hread, hmore, hstores, hversion, hk, hspec⟩ := (openEnvelope_eq_ok hkind).mp hopen
    refine ⟨members, rest, raw, hread, hmore, hstores, hversion, hk, hspec, ?_⟩
    rcases hraw with ⟨rfl, -⟩ | ⟨specMembers, rfl, hmembers⟩
    · exact .inl rfl
    · have hspecStores := (decodeMembers_isOk_iff hfields hdistinct _ _).mp ⟨s, hmembers⟩
      exact .inr ⟨specMembers, rfl, hspecStores, (hP specMembers s hmembers hspecStores).mp hPs⟩
  · rintro ⟨members, rest, raw, hread, hmore, hstores, hversion, hk, hspec, hlenient⟩
    have hopen := (openEnvelope_eq_ok hkind).mpr ⟨members, rest, hread, hmore, hstores, hversion, hk, hspec⟩
    rcases hlenient with rfl | ⟨specMembers, rfl, hspecStores, hlast⟩
    · exact ⟨zero, decodeSpec_eq_ok.mpr ⟨.null, hopen, .inl ⟨rfl, rfl⟩⟩, hzero⟩
    · obtain ⟨s, hmembers⟩ := (decodeMembers_isOk_iff hfields hdistinct _ zero).mpr hspecStores
      exact ⟨s, decodeSpec_eq_ok.mpr ⟨_, hopen, .inr ⟨specMembers, rfl, hmembers⟩⟩,
        (hP specMembers s hmembers hspecStores).mpr hlast⟩

/-- The resources that decode to a rule. -/
theorem decodePolicyRule_isOk_iff (d : List UInt8) :
    (∃ rule, decodePolicyRule (resource d) = .ok rule) ↔ Lenient kindPolicyRule policyShape d := by
  rw [decodePolicyRule_isOk]
  refine decodeSpec_isOk_iff fieldOf_policy foldDistinct_policyShape (by decide) ⟨by decide, by decide⟩
    (fun members s hs hstores => ?_) d
  obtain ⟨hdir, hact⟩ := policy_fields hs
  rw [hdir, hact, lastHold_policyShape hstores,
    byte_lt_iff foldDistinct_policyShape hstores (by decide) (by decide),
    byte_lt_iff foldDistinct_policyShape hstores (by decide) (by decide)]

/-- The resources that decode to an identity. -/
theorem decodeIdentity_isOk_iff (d : List UInt8) :
    (∃ identity, decodeIdentity (resource d) = .ok identity) ↔ Lenient kindIdentity identityShape d := by
  have hspec : (∃ s, decodeSpec kindIdentity identitySpecFields ⟨0, "", "", "", ""⟩ (resource d) = .ok s ∧ True) ↔
      Lenient kindIdentity identityShape d :=
    decodeSpec_isOk_iff (P := fun _ => True) fieldOf_identity foldDistinct_identityShape (by decide) trivial
      (fun members s _ hstores => iff_of_true trivial (lastHold_identityShape hstores)) d
  simpa only [and_true, decodeIdentity_isOk] using hspec

/-- The decoder accepts exactly the frozen contract on the resources that are not in its language or are tidy. -/
theorem wire_language_iff (d : List UInt8) :
    (((∃ rule, decodePolicyRule (resource d) = .ok rule) ↔ Frozen kindPolicyRule policyShape d) ∧
      ((∃ identity, decodeIdentity (resource d) = .ok identity) ↔ Frozen kindIdentity identityShape d)) ↔
    (Lenient kindPolicyRule policyShape d → Tidy policyShape d) ∧
      (Lenient kindIdentity identityShape d → Tidy identityShape d) := by
  rw [decodePolicyRule_isOk_iff, decodeIdentity_isOk_iff,
    frozen_iff foldDistinct_policyShape (by decide) (by decide),
    frozen_iff foldDistinct_identityShape (by decide) (by decide)]
  constructor
  · rintro ⟨hpolicy, hidentity⟩
    exact ⟨fun h => (hpolicy.mp h).2, fun h => (hidentity.mp h).2⟩
  · rintro ⟨hpolicy, hidentity⟩
    exact ⟨⟨fun h => ⟨h, hpolicy h⟩, fun h => h.1⟩, ⟨fun h => ⟨h, hidentity h⟩, fun h => h.1⟩⟩

/-- A rule resource whose spec has no members. -/
def emptySpec : List UInt8 :=
  "\x7b\"schema_version\":1,\"kind\":\"PolicyRule\",\"spec\":\x7b\x7d\x7d".toList.map fun c => UInt8.ofNat c.toNat

/-- The names in the specs of a text that is an object. -/
def specNames (d : List UInt8) : List (List String) :=
  match readJson d with
  | some (.obj members, _) => members.filterMap fun m =>
    match m.2 with
    | .obj spec => if m.1 = "spec" then some (spec.map (·.1)) else none
    | _ => none
  | _ => []

theorem empty_spec_decodes :
    decodePolicyRule (resource emptySpec) = .ok ⟨⟨0, 0, 0, 0, 0⟩, ⟨policyActionAllow, 0⟩⟩ ∧
      ¬Frozen kindPolicyRule policyShape emptySpec := by
  refine ⟨by decide +kernel, ?_⟩
  rintro ⟨-, members, rest, spec, hread, -, -, -, -, hspec, hexact, -⟩
  have hnames : spec.map (·.1) ∈ specNames emptySpec := by
    simp only [specNames, hread, List.mem_filterMap]
    exact ⟨_, hspec, rfl⟩
  rw [show specNames emptySpec = [[]] by decide +kernel, List.mem_singleton] at hnames
  have hlength := hexact.length_eq
  rw [hnames] at hlength
  cases hlength

end Meridian.Cc2
