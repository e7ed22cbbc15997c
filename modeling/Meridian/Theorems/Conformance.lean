import Meridian.Lib.Bytes
import Meridian.Theorems.Compile

/-! The compiler against the meaning of a spec: which specs compile, and that the compiled rules give every flow
    the verdict that the spec declares for it. -/

namespace Meridian.Compiler
open Lib Wire

/-! ### Which specs compile -/

def Nameable (identities : List Identity) (names : List String) : Prop :=
  names ≠ [] ∧ ∀ name ∈ names, isBlank name = false ∧ ∃ i ∈ identities, i.spiffeID = name

/-- All that a spec needs to compile but valid verdicts. -/
structure SpecShape (spec : PolicySpec) (identities : List Identity) : Prop where
  names : NamesOk identities
  selectors : ∀ rule ∈ specRules spec, SelectorsOk (Nameable identities) rule
  consistent : ∀ r ∈ specRules spec, ∀ rule ∈ specRules spec, ∀ key,
    selects (spiffeTable identities) r key = true → selects (spiffeTable identities) rule key = true →
      r.verdict = rule.verdict

variable {identities : List Identity} {spec : PolicySpec} {compiled : List PolicyRule} {mode : Reference.UnknownIdentityMode}
  {bySpiffe : Table String IdentityID} {input : Reference.Input}

theorem resolvable_iff_nameable (hnames : NamesOk identities) {names : List String} :
    Resolvable (spiffeTable identities) names ↔ Nameable identities names := by
  refine and_congr_right fun _ => forall₂_congr fun name _ => and_congr_right fun _ => ?_
  simp only [spiffeTable_eq_some_iff hnames]
  constructor
  · rintro ⟨_, ⟨i, hi, hname, -⟩, -⟩
    exact ⟨i, hi, hname⟩
  · rintro ⟨i, hi, hname⟩
    exact ⟨i.id, ⟨i, hi, hname, rfl⟩, hnames.known i hi⟩

theorem SelectorsOk.congr {P Q : List String → Prop} (h : ∀ names, P names ↔ Q names) {rule : PolicyRuleSelector}
    (hrule : SelectorsOk P rule) : SelectorsOk Q rule :=
  { hrule with sources := (h _).mp hrule.sources, destinations := (h _).mp hrule.destinations }

theorem specShape_iff : (SpecShape spec identities ∧ ∀ rule ∈ specRules spec, validateVerdict rule.verdict = none) ↔
      NamesOk identities ∧ RulesOk (spiffeTable identities) (specRules spec) := by
  constructor
  · rintro ⟨⟨hnames, hsel, hcons⟩, hverdicts⟩
    exact ⟨hnames, fun rule hrule => (hsel rule hrule).congr fun _ => (resolvable_iff_nameable hnames).symm, hverdicts,
      hcons⟩
  · rintro ⟨hnames, hsel, hverdicts, hcons⟩
    exact ⟨⟨hnames, fun rule hrule => (hsel rule hrule).congr fun _ => resolvable_iff_nameable hnames, hcons⟩, hverdicts⟩

theorem compile_eq_ok : compile spec identities = .ok compiled ↔
      NamesOk identities ∧ ∃ m, rangeLoop (compilePolicy (spiffeTable identities)) spec.policies 0 ∅ = .ok m ∧
        compiled = (sortedKeys m).map fun key => ⟨key, (m.lookup key).getD ⟨policyActionAllow, 0⟩⟩ := by
  unfold compile
  cases hbind : rangeLoop bindIdentity identities 0 (fun _ => none) with
  | error e =>
    refine iff_of_false (by simp) ?_
    rintro ⟨hnames, -⟩
    rw [bindIdentities_eq_ok.mpr ⟨hnames, rfl⟩] at hbind
    cases hbind
  | ok t =>
    obtain ⟨hnames, rfl⟩ := bindIdentities_eq_ok.mp hbind
    dsimp only
    cases rangeLoop (compilePolicy (spiffeTable identities)) spec.policies 0 ∅ with
    | error e => simp
    | ok m => simp [hnames, eq_comm]

theorem compile_ok_iff : (∃ compiled, compile spec identities = .ok compiled) ↔
      SpecShape spec identities ∧ ∀ rule ∈ specRules spec, validateVerdict rule.verdict = none := by
  have hloop : _ ↔ RulesOk (spiffeTable identities) (specRules spec) := compilePolicies_ok_iff
  rw [specShape_iff, ← hloop]
  simp only [compile_eq_ok]
  constructor
  · rintro ⟨_, hnames, m, hm, -⟩
    exact ⟨hnames, m, hm⟩
  · rintro ⟨hnames, m, hm⟩
    exact ⟨_, hnames, m, hm, rfl⟩

/-! ### What is compiled -/

theorem sortedKeys_perm (m : RuleMap) : (sortedKeys m).Perm m.keys := List.perm_insertionSort _ _

theorem compile_rules (h : compile spec identities = .ok compiled) : (compiled.map (·.key)).Nodup ∧
      ∀ key v, ⟨key, v⟩ ∈ compiled ↔ Standing (spiffeTable identities) (specRules spec) key v := by
  obtain ⟨-, m, hm, rfl⟩ := compile_eq_ok.mp h
  constructor
  · rw [List.map_map]
    exact (List.map_id (sortedKeys m)).symm ▸ (sortedKeys_perm m).nodup_iff.mpr m.keys_nodup
  · intro key v
    rw [← compilePolicies_holds hm key v]
    simp only [List.mem_map, PolicyRule.mk.injEq, (sortedKeys_perm m).mem_iff]
    constructor
    · rintro ⟨k, hk, rfl, rfl⟩
      obtain ⟨v, hv⟩ := Option.isSome_iff_exists.mp (AList.lookup_isSome.mpr (AList.mem_keys.mpr hk))
      rw [hv, Option.getD_some]
    · intro hv
      refine ⟨key, ?_, rfl, by rw [hv, Option.getD_some]⟩
      exact AList.mem_keys.mp (AList.lookup_isSome.mp (by rw [hv]; rfl))

def referenceKey (key : PolicyRuleKey) : Reference.RuleKey :=
  { srcID := key.srcIdentity, dstID := key.dstIdentity, dstPort := key.dstPort, protocol := key.protocol,
    direction := key.direction }

theorem referenceKey_injective : Function.Injective referenceKey := by
  rintro ⟨s, t, p, pr, d⟩ ⟨s', t', p', pr', d'⟩ h
  simp only [referenceKey, Reference.RuleKey.mk.injEq] at h
  obtain ⟨rfl, rfl, rfl, rfl, rfl⟩ := h
  rfl

theorem compile_evaluator (h : compile spec identities = .ok compiled)
    (hmode : mode = Reference.unknownIdentityFailOpen ∨ mode = Reference.unknownIdentityFailClosed) :
    ∃ e, newReferenceEvaluatorFromCompiled compiled mode = .ok e ∧ e.unknownMode = mode ∧
      ∀ key v, e.rules (referenceKey key) = some v ↔ Standing (spiffeTable identities) (specRules spec) key v := by
  obtain ⟨hnd, hmem⟩ := compile_rules h
  obtain ⟨-, hrules⟩ := specShape_iff.mp (compile_ok_iff.mp ⟨_, h⟩)
  have hvalid : ∀ rule ∈ compiled.map referenceRule, Reference.validateRule rule = none := by
    intro rule hrule
    obtain ⟨⟨key, v⟩, hkey, rfl⟩ := List.mem_map.mp hrule
    obtain ⟨r, hr, hsel, rfl⟩ := (hmem key v).mp hkey
    exact validateRule_of_selects (hrules.selectors r hr) (hrules.verdicts r hr) hsel
  have hkeys : ((compiled.map referenceRule).map Reference.keyFromRule).Nodup := by
    have hcomp : (compiled.map referenceRule).map Reference.keyFromRule = (compiled.map (·.key)).map referenceKey := by
      rw [List.map_map, List.map_map]
      rfl
    rw [hcomp]
    exact hnd.map referenceKey_injective
  refine ⟨_, Reference.newEvaluator_eq_ok_iff.mpr ⟨hmode, hvalid, hkeys, rfl⟩, rfl, fun key v => ?_⟩
  rw [Reference.writes_ruleWrites_eq_some_iff hkeys, ← hmem]
  constructor
  · rintro ⟨_, hrule, hkey, rfl⟩
    obtain ⟨rule, hcompiled, rfl⟩ := List.mem_map.mp hrule
    rw [← referenceKey_injective hkey]
    exact hcompiled
  · intro hrule
    exact ⟨_, List.mem_map_of_mem hrule, rfl, rfl⟩

/-! ### The oracle -/

theorem resolveNameForOracle_resolved {i : Nat} {name : String} {done : List String} {ids ids' : List IdentityID}
    (hinv : Resolved bySpiffe done ids) (h : resolveNameForOracle bySpiffe i name ids = .ok ids') :
    Resolved bySpiffe (done ++ [name]) ids' := by
  unfold resolveNameForOracle at h
  cases hname : bySpiffe name with
  | none =>
    rw [hname] at h
    cases h
  | some id =>
    have hsnoc := hinv.snoc hname
    rw [hname] at h
    dsimp only at h
    rw [← apply_ite Except.ok] at h
    exact Except.ok.inj h ▸ hsnoc

theorem resolveNamesForOracle_ok {names : List String} (h : Resolvable bySpiffe names) :
    ∃ ids, resolveNamesForOracle names bySpiffe = .ok ids ∧ Resolved bySpiffe names ids := by
  have hok : ∃ ids, resolveNamesForOracle names bySpiffe = .ok ids := by
    refine (rangeLoop_ok_iff (I := Resolved bySpiffe) (C := fun _ name => ∃ id, bySpiffe name = some id)
      (fun _ _ _ _ _ => resolveNameForOracle_resolved) ?_ [] resolved_nil).mpr ?_
    · intro done name i ids _
      unfold resolveNameForOracle
      cases bySpiffe name with
      | none => simp
      | some id => by_cases hc : id ∈ ids <;> simp [hc]
    · intro before name after hsplit
      obtain ⟨-, id, hid, -⟩ := h.2 name (by simp [hsplit])
      exact ⟨id, hid⟩
  obtain ⟨ids, hids⟩ := hok
  exact ⟨ids, hids, rangeLoop_inv (I := Resolved bySpiffe) (fun _ _ _ _ _ => resolveNameForOracle_resolved) [] resolved_nil hids⟩

theorem searchRules_eq {rules : List PolicyRuleSelector} (h : ∀ rule ∈ rules, SelectorsOk (Resolvable bySpiffe) rule) :
    searchRules bySpiffe input rules =
      .ok (match rules.find? fun rule => selects bySpiffe rule (flowKey input) with
        | some rule => rule.verdict
        | none => ⟨policyActionDeny, 0⟩) := by
  induction rules with
  | nil => rfl
  | cons rule rest ih =>
    obtain ⟨hrule, hrest⟩ := List.forall_mem_cons.mp h
    obtain ⟨srcIDs, hsrc, hsrcIDs⟩ := resolveNamesForOracle_ok hrule.sources
    obtain ⟨dstIDs, hdst, hdstIDs⟩ := resolveNamesForOracle_ok hrule.destinations
    rw [searchRules, hsrc, hdst, List.find?_cons]
    dsimp only
    have hcontains : (expand srcIDs dstIDs rule).contains (flowKey input) = selects bySpiffe rule (flowKey input) := by
      rw [Bool.eq_iff_iff, List.contains_iff_mem, mem_expand hsrcIDs hdstIDs]
    rw [hcontains, ih hrest]
    cases selects bySpiffe rule (flowKey input) <;> rfl

theorem naiveEvaluateSpec_eq (h : compile spec identities = .ok compiled) (mode : Reference.UnknownIdentityMode)
    (input : Reference.Input) :
    naiveEvaluateSpec spec identities mode input = .ok (specVerdict spec identities mode input) := by
  obtain ⟨-, hrules⟩ := specShape_iff.mp (compile_ok_iff.mp ⟨_, h⟩)
  unfold naiveEvaluateSpec specVerdict
  rw [searchRules_eq hrules.selectors, ← apply_ite Except.ok]
  rfl

/-- A rule that selects a flow between known identities has the verdict that the spec declares for the flow. -/
theorem specVerdict_of_selects (hrules : RulesOk (spiffeTable identities) (specRules spec))
    (hids : ¬(input.srcIdentity = identityUnknown ∨ input.dstIdentity = identityUnknown)) {rule : PolicyRuleSelector}
    (hrule : rule ∈ specRules spec) (hsel : selects (spiffeTable identities) rule (flowKey input) = true) :
    specVerdict spec identities mode input = rule.verdict := by
  refine Eq.trans (if_neg (by simpa using hids)) ?_
  cases hfind : (specRules spec).find? fun rule => selects (spiffeTable identities) rule (flowKey input) with
  | none => exact absurd hsel (List.find?_eq_none.mp hfind rule hrule)
  | some first =>
    have hfirst := List.find?_some hfind
    exact hrules.consistent first (List.mem_of_find?_eq_some hfind) rule hrule _ hfirst hsel

theorem specVerdict_of_none (hids : ¬(input.srcIdentity = identityUnknown ∨ input.dstIdentity = identityUnknown))
    (hnone : ∀ rule ∈ specRules spec, ¬selects (spiffeTable identities) rule (flowKey input) = true) :
    specVerdict spec identities mode input = ⟨policyActionDeny, 0⟩ := by
  refine Eq.trans (if_neg (by simpa using hids)) ?_
  rw [List.find?_eq_none.mpr hnone]

/-- Compiled rules give every flow the verdict of the spec: the evaluator takes them, it agrees with the oracle,
    and each rule that selects the flow would give the same answer. -/
theorem compiled_verdict_eq_declared {spec : PolicySpec} {identities : List Identity} {compiled : List PolicyRule}
    {mode : Reference.UnknownIdentityMode} (h : compile spec identities = .ok compiled)
    (hmode : mode = Reference.unknownIdentityFailOpen ∨ mode = Reference.unknownIdentityFailClosed) :
    ∃ e, newReferenceEvaluatorFromCompiled compiled mode = .ok e ∧
      ∀ input : Reference.Input,
        e.evaluate .live input = .ok (specVerdict spec identities mode input) ∧
        naiveEvaluateSpec spec identities mode input = .ok (specVerdict spec identities mode input) ∧
        (input.srcIdentity ≠ identityUnknown → input.dstIdentity ≠ identityUnknown → ∀ rule ∈ specRules spec,
          selects (spiffeTable identities) rule (flowKey input) = true →
            rule.verdict = specVerdict spec identities mode input) := by
  obtain ⟨-, hrules⟩ := specShape_iff.mp (compile_ok_iff.mp ⟨_, h⟩)
  obtain ⟨e, hnew, rfl, htable⟩ := compile_evaluator h hmode
  refine ⟨e, hnew, fun input => ⟨?_, naiveEvaluateSpec_eq h _ input, fun hs ht rule hrule hsel => ?_⟩⟩
  · by_cases hids : input.srcIdentity = identityUnknown ∨ input.dstIdentity = identityUnknown
    · rw [Reference.evaluate_unknown e hids]
      exact congrArg Except.ok (if_pos (by simpa using hids)).symm
    · rw [Reference.evaluate_known e hids]
      refine congrArg Except.ok ?_
      cases hv : e.rules input.key with
      | some v =>
        obtain ⟨rule, hrule, hsel, rfl⟩ := (htable (flowKey input) v).mp hv
        exact (specVerdict_of_selects hrules hids hrule hsel).symm
      | none =>
        refine (specVerdict_of_none hids fun rule hrule hsel => ?_).symm
        have := (htable (flowKey input) rule.verdict).mpr ⟨rule, hrule, hsel, rfl⟩
        cases hv.symm.trans this
  · exact (specVerdict_of_selects hrules (not_or.mpr ⟨hs, ht⟩) hrule hsel).symm

def twoWorkloads : List Identity :=
  [⟨7, "10.0.0.1", "spiffe://td/client", "demo", "client"⟩, ⟨8, "10.0.0.2", "spiffe://td/server", "demo", "server"⟩]

def clientServerSpec (verdict : PolicyVerdict) : PolicySpec :=
  ⟨[⟨"demo", [⟨"http", ["spiffe://td/client"], ["spiffe://td/server"], [8080], [6], [directionIngress], verdict⟩]⟩]⟩

theorem compiled_verdict_eq_declared_demo :
    ∃ compiled e, compile (clientServerSpec ⟨policyActionAllow, 0⟩) twoWorkloads = .ok compiled ∧
      newReferenceEvaluatorFromCompiled compiled Reference.unknownIdentityFailClosed = .ok e ∧
      e.evaluate .live ⟨7, 8, 8080, 6, directionIngress⟩ =
        .ok (specVerdict (clientServerSpec ⟨policyActionAllow, 0⟩) twoWorkloads Reference.unknownIdentityFailClosed
          ⟨7, 8, 8080, 6, directionIngress⟩) :=
  have h : compile (clientServerSpec ⟨policyActionAllow, 0⟩) twoWorkloads =
      .ok [⟨⟨7, 8, 8080, 6, directionIngress⟩, ⟨policyActionAllow, 0⟩⟩] := by decide
  have hmode : Reference.unknownIdentityFailClosed = Reference.unknownIdentityFailOpen ∨
      Reference.unknownIdentityFailClosed = Reference.unknownIdentityFailClosed := Or.inr rfl
  match compiled_verdict_eq_declared h hmode with
  | ⟨e, hnew, hall⟩ => ⟨_, e, h, hnew, (hall _).1⟩

/-! ### Flags -/

/-- The contract of a verdict with flags as the bit masks that the wire package and the kernel define. -/
structure MaskContract (v : PolicyVerdict) : Prop where
  action : Reference.KnownAction v.action
  reserved : v.flags &&& 0xf0 = 0
  sockmap : v.flags &&& policyFlagSockmapEligible ≠ 0 →
    v.action = policyActionAllow ∧ v.flags &&& policyFlagL7Required = 0 ∧ v.flags &&& policyFlagMTLSRequired = 0

/-- The verdicts with flags taken as bit positions: the masks are shifted once more. -/
def PositionReading (v : PolicyVerdict) : Prop :=
  Reference.KnownAction v.action ∧
    ((v.flags = 0 ∨ v.flags = 4 ∨ v.flags = 16 ∨ v.flags = 20) ∨ v.flags = 2 ∧ v.action = policyActionAllow)

/-- The verdicts valid under both readings: no flags, MTLS_REQUIRED, or L7_REQUIRED on an allow. -/
def BothReadings (v : PolicyVerdict) : Prop :=
  Reference.KnownAction v.action ∧ (v.flags = 0 ∨ v.flags = 4 ∨ v.flags = 2 ∧ v.action = policyActionAllow)

theorem validateVerdict_eq_none_iff {v : PolicyVerdict} : validateVerdict v = none ↔ PositionReading v := by
  have hflags : ∀ f : PolicyFlags,
      (f &&& ~~~Reference.knownMask = 0 ∧ Reference.hasFlag f policyFlagSockmapEligible = false ↔
        f = 0 ∨ f = 4 ∨ f = 16 ∨ f = 20) ∧
      (f &&& ~~~Reference.knownMask = 0 ∧ Reference.hasFlag f policyFlagSockmapEligible = true ∧
        Reference.hasFlag f policyFlagL7Required = false ∧ Reference.hasFlag f policyFlagMTLSRequired = false ↔ f = 2) :=
    forall_byte (by decide +kernel)
  obtain ⟨hplain, hsockmap⟩ := hflags v.flags
  refine Reference.validateVerdict_eq_none_iff.trans (and_congr_right fun _ => ?_)
  constructor
  · rintro ⟨hknown, hexcludes⟩
    cases hs : Reference.hasFlag v.flags policyFlagSockmapEligible with
    | false => exact Or.inl (hplain.mp ⟨hknown, hs⟩)
    | true =>
      obtain ⟨hallow, hl7, hmtls⟩ := hexcludes hs
      exact Or.inr ⟨hsockmap.mp ⟨hknown, hs, hl7, hmtls⟩, hallow⟩
  · rintro (h | ⟨h, hallow⟩)
    · obtain ⟨hknown, hs⟩ := hplain.mpr h
      exact ⟨hknown, fun hs' => by simp [hs] at hs'⟩
    · obtain ⟨hknown, -, hl7, hmtls⟩ := hsockmap.mpr h
      exact ⟨hknown, fun _ => ⟨hallow, hl7, hmtls⟩⟩

theorem both_readings_iff {v : PolicyVerdict} : PositionReading v ∧ MaskContract v ↔ BothReadings v := by
  obtain ⟨action, flags⟩ := v
  constructor
  · rintro ⟨⟨haction, hflags⟩, hmask⟩
    have hreserved : flags &&& 0xf0 = 0 := hmask.reserved
    rcases hflags with (rfl | rfl | rfl | rfl) | hallow
    · exact ⟨haction, Or.inl rfl⟩
    · exact ⟨haction, Or.inr (Or.inl rfl)⟩
    · exact absurd hreserved (by decide)
    · exact absurd hreserved (by decide)
    · exact ⟨haction, Or.inr (Or.inr hallow)⟩
  · rintro ⟨haction, hflags⟩
    -- None of the three has a reserved bit or SOCKMAP_ELIGIBLE.
    have hbits : flags &&& 0xf0 = 0 ∧ flags &&& policyFlagSockmapEligible = 0 := by
      rcases hflags with rfl | rfl | ⟨rfl, -⟩ <;> decide
    refine ⟨⟨haction, ?_⟩, haction, hbits.1, fun hs => absurd hbits.2 hs⟩
    rcases hflags with h | h | h
    · exact Or.inl (Or.inl h)
    · exact Or.inl (Or.inr (Or.inl h))
    · exact Or.inr h

/-- A spec compiles exactly when it is well formed under the mask reading of flags, if it has not the shape to
    compile, if all its verdicts are valid under both readings, or if each reading refuses one of them. -/
theorem compile_accepts_well_formed_iff (spec : PolicySpec) (identities : List Identity) :
    ((∃ compiled, compile spec identities = .ok compiled) ↔
        SpecShape spec identities ∧ ∀ rule ∈ specRules spec, MaskContract rule.verdict) ↔
      ¬SpecShape spec identities ∨ (∀ rule ∈ specRules spec, BothReadings rule.verdict) ∨
        ((∃ rule ∈ specRules spec, ¬PositionReading rule.verdict) ∧
          ∃ rule ∈ specRules spec, ¬MaskContract rule.verdict) := by
  simp only [compile_ok_iff, validateVerdict_eq_none_iff, ← both_readings_iff, forall₂_and]
  by_cases hshape : SpecShape spec identities
  · have hposition : (∃ rule ∈ specRules spec, ¬PositionReading rule.verdict) ↔
        ¬∀ rule ∈ specRules spec, PositionReading rule.verdict := by simp
    have hmask : (∃ rule ∈ specRules spec, ¬MaskContract rule.verdict) ↔
        ¬∀ rule ∈ specRules spec, MaskContract rule.verdict := by simp
    rw [hposition, hmask]
    simp only [hshape, true_and, not_true, false_or]
    exact iff_iff_and_or_not_and_not
  · simp [hshape]

theorem clientServerSpec_shape (verdict : PolicyVerdict) : SpecShape (clientServerSpec verdict) twoWorkloads where
  names := ⟨by decide, by decide, by decide⟩
  selectors := by
    intro rule hrule
    obtain rfl := List.mem_singleton.mp hrule
    have hclient : Nameable twoWorkloads ["spiffe://td/client"] := ⟨by decide, by decide⟩
    have hserver : Nameable twoWorkloads ["spiffe://td/server"] := ⟨by decide, by decide⟩
    exact ⟨hclient, hserver, by simp, by simp, by simp, by simp⟩
  consistent := by
    intro r hr rule hrule _ _ _
    rw [List.mem_singleton.mp hr, List.mem_singleton.mp hrule]

/-- AUDIT is refused although the spec is well formed; the reserved bit 4 is compiled. -/
theorem compile_misreads_flags :
    (compile (clientServerSpec ⟨policyActionAllow, policyFlagAudit⟩) twoWorkloads =
        .error (.invalidVerdict "demo/http" (.unknownFlagBits policyFlagAudit)) ∧
      SpecShape (clientServerSpec ⟨policyActionAllow, policyFlagAudit⟩) twoWorkloads ∧
      ∀ rule ∈ specRules (clientServerSpec ⟨policyActionAllow, policyFlagAudit⟩), MaskContract rule.verdict) ∧
    (compile (clientServerSpec ⟨policyActionAllow, 16⟩) twoWorkloads =
        .ok [⟨⟨7, 8, 8080, 6, directionIngress⟩, ⟨policyActionAllow, 16⟩⟩] ∧
      ∃ rule ∈ specRules (clientServerSpec ⟨policyActionAllow, 16⟩), ¬MaskContract rule.verdict) := by
  refine ⟨⟨by decide, clientServerSpec_shape _, ?_⟩, by decide, _, List.mem_singleton.mpr rfl, ?_⟩
  · intro rule hrule
    obtain rfl := List.mem_singleton.mp hrule
    exact ⟨Or.inl rfl, by decide, by decide⟩
  · intro h
    exact absurd h.reserved (by decide)

end Meridian.Compiler
