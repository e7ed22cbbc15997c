import Meridian.Theorems.Conformance
import Meridian.Theorems.SourceCoverage

/-! The two compilers of policies: a `MeridianPolicy`, written as a spec of one rule, compiles to the same rules. -/

namespace Meridian.K8s
open Lib Wire

/-! ### The translation -/

/-- The numbers of the protocols; tcp where none is listed. -/
def protocolsOf (names : List String) : List UInt8 :=
  if names = [] then [protocolTCP] else names.map fun name => if name = protocolNameUDP then protocolUDP else protocolTCP

def verdictOf (action : String) : PolicyVerdict :=
  ⟨if action = policyActionNameAllow then policyActionAllow else policyActionDeny, 0⟩

def toRule (spec : MeridianPolicySpec) (dstIDs : List IdentityID) (name : IdentityID → String) : PolicyRuleSelector :=
  { name := ""
    sources := spec.sources
    destinations := dstIDs.map name
    ports := spec.ports
    protocols := protocolsOf spec.protocols
    directions := [directionIngress]
    verdict := verdictOf spec.action }

def toPolicySpec (pol : MeridianPolicy) (dstIDs : List IdentityID) (name : IdentityID → String) : PolicySpec :=
  ⟨[⟨pol.fullName, [toRule pol.spec dstIDs name]⟩]⟩

/-- The identities of the sources and of the destinations under their names. -/
def identitiesOf (sources : List String) (id : String → IdentityID) (dstIDs : List IdentityID)
    (name : IdentityID → String) : List Identity :=
  sources.map (fun src => ⟨id src, "", src, "", ""⟩) ++ dstIDs.map fun dst => ⟨dst, "", name dst, "", ""⟩

/-- Each source has an identity, and so has some destination; none of them is the reserved one. -/
structure Resolves (resolver : IdentityResolver) (spec : MeridianPolicySpec) (id : String → IdentityID)
    (dstIDs : List IdentityID) : Prop where
  source : ∀ src ∈ spec.sources, ∀ i, resolver.resolveSpiffeID i src = some (id src)
  source_known : ∀ src ∈ spec.sources, id src ≠ identityUnknown
  selector : resolver.resolveSelector spec.selector = some dstIDs
  selects : dstIDs ≠ []
  dst_known : ∀ dst ∈ dstIDs, dst ≠ identityUnknown

/-- The destinations have names of their own; one that is the name of a source stands for the same identity. -/
structure Naming (sources : List String) (id : String → IdentityID) (dstIDs : List IdentityID)
    (name : IdentityID → String) : Prop where
  named : ∀ dst ∈ dstIDs, Compiler.isBlank (name dst) = false
  injective : ∀ dst ∈ dstIDs, ∀ dst' ∈ dstIDs, name dst = name dst' → dst = dst'
  source : ∀ dst ∈ dstIDs, ∀ src ∈ sources, name dst = src → id src = dst

/-! ### The parts of a compilation -/

theorem protocolNumbers_eq {names : List String} {protocols : List UInt8} (h : protocolNumbers names = .ok protocols) :
    protocols = protocolsOf names := by
  rcases protocolNumbers_eq_ok h with ⟨rfl, rfl⟩ | ⟨hnames, hlen, hall⟩
  · rfl
  · rw [protocolsOf, if_neg hnames]
    refine List.ext_getElem? fun i => ?_
    rw [List.getElem?_map]
    cases hi : names[i]? with
    | none => exact List.getElem?_eq_none (hlen ▸ List.getElem?_eq_none_iff.mp hi)
    | some name =>
      obtain ⟨proto, hproto, hget⟩ := hall i name hi
      rw [hget, Option.map_some]
      rcases hproto with ⟨rfl, rfl⟩ | ⟨-, rfl, rfl⟩
      · rw [if_neg (by decide)]
      · rw [if_pos rfl]

theorem verdictForAction_eq {action : String} {verdict : PolicyVerdict} (h : verdictForAction action = .ok verdict) :
    verdict = verdictOf action := by
  unfold verdictForAction at h
  unfold verdictOf
  split at h
  · rename_i hallow
    cases h
    rw [if_pos hallow]
  · rename_i hallow
    split at h
    · cases h
      rw [if_neg hallow]
    · cases h

theorem length_expand (srcIDs dstIDs : List IdentityID) (ports : List UInt16) (protocols : List UInt8)
    (verdict : PolicyVerdict) :
    (expand srcIDs dstIDs ports protocols verdict).length =
      srcIDs.length * dstIDs.length * ports.length * protocols.length := by
  simp [expand, List.length_flatMap, Nat.mul_assoc]

theorem isBlank_of_isSpiffeURI {src : String} (h : isSpiffeURI src = true) : Compiler.isBlank src = false := by
  obtain ⟨rest, hrest⟩ := List.isPrefixOf_iff_prefix.mp (Bool.and_eq_true_iff.mp h).1
  rw [Compiler.isBlank, ← hrest, List.all_append, show "spiffe://".toList.all isSpace = false by decide, Bool.false_and]

theorem validateVerdict_verdictOf (action : String) : Compiler.validateVerdict (verdictOf action) = none := by
  unfold verdictOf
  split <;> decide

section
variable {sources : List String} {id : String → IdentityID} {dstIDs : List IdentityID} {name : IdentityID → String}

theorem mem_identitiesOf {i : Identity} : i ∈ identitiesOf sources id dstIDs name ↔
    (∃ src ∈ sources, i = ⟨id src, "", src, "", ""⟩) ∨ ∃ dst ∈ dstIDs, i = ⟨dst, "", name dst, "", ""⟩ := by
  simp only [identitiesOf, List.mem_append, List.mem_map, eq_comm]

theorem namesOk_identitiesOf (hknown : ∀ src ∈ sources, id src ≠ identityUnknown)
    (hblank : ∀ src ∈ sources, Compiler.isBlank src = false) (hdst : ∀ dst ∈ dstIDs, dst ≠ identityUnknown)
    (hnames : Naming sources id dstIDs name) : Compiler.NamesOk (identitiesOf sources id dstIDs name) where
  known := by
    intro i hi
    rcases mem_identitiesOf.mp hi with ⟨src, hsrc, rfl⟩ | ⟨dst, hmem, rfl⟩
    · exact hknown src hsrc
    · exact hdst dst hmem
  named := by
    intro i hi
    rcases mem_identitiesOf.mp hi with ⟨src, hsrc, rfl⟩ | ⟨dst, hmem, rfl⟩
    · rintro rfl
      exact absurd (hblank _ hsrc) (by decide)
    · intro hnil
      exact absurd (hnames.named dst hmem) (by rw [show name dst = "" from hnil]; decide)
  unique := by
    intro i hi j hj hsame
    rcases mem_identitiesOf.mp hi with ⟨src, hsrc, rfl⟩ | ⟨dst, hmem, rfl⟩ <;>
      rcases mem_identitiesOf.mp hj with ⟨src', hsrc', rfl⟩ | ⟨dst', hmem', rfl⟩
    · exact congrArg id hsame
    · exact hnames.source dst' hmem' src hsrc hsame.symm
    · exact (hnames.source dst hmem src' hsrc' hsame).symm
    · exact hnames.injective dst hmem dst' hmem' hsame

theorem table_source (hok : Compiler.NamesOk (identitiesOf sources id dstIDs name)) {src : String} (hsrc : src ∈ sources) :
    Compiler.spiffeTable (identitiesOf sources id dstIDs name) src = some (id src) :=
  (Compiler.spiffeTable_eq_some_iff hok).mpr ⟨_, mem_identitiesOf.mpr (.inl ⟨src, hsrc, rfl⟩), rfl, rfl⟩

theorem table_destination (hok : Compiler.NamesOk (identitiesOf sources id dstIDs name)) {dst : IdentityID}
    (hdst : dst ∈ dstIDs) : Compiler.spiffeTable (identitiesOf sources id dstIDs name) (name dst) = some dst :=
  (Compiler.spiffeTable_eq_some_iff hok).mpr ⟨_, mem_identitiesOf.mpr (.inr ⟨dst, hdst, rfl⟩), rfl, rfl⟩

end

/-! ### Agreement -/

theorem specRules_toPolicySpec (pol : MeridianPolicy) (dstIDs : List IdentityID) (name : IdentityID → String) :
    Compiler.specRules (toPolicySpec pol dstIDs name) = [toRule pol.spec dstIDs name] := rfl

section
variable {pol : MeridianPolicy} {resolver : IdentityResolver} {rules : List PolicyRule} {id : String → IdentityID}
  {dstIDs : List IdentityID} {name : IdentityID → String}

section
variable (h : compilePolicyRules pol resolver = .ok rules) (hres : Resolves resolver pol.spec id dstIDs)
include h hres

/-- The rules of a policy whose sources and selector are resolved. -/
theorem mem_rules_iff (key : PolicyRuleKey) (v : PolicyVerdict) :
    ⟨key, v⟩ ∈ rules ↔ (∃ src ∈ pol.spec.sources, id src = key.srcIdentity) ∧ key.dstIdentity ∈ dstIDs ∧
      key.dstPort ∈ pol.spec.ports ∧ key.protocol ∈ protocolsOf pol.spec.protocols ∧ key.direction = directionIngress ∧
      v = verdictOf pol.spec.action := by
  obtain ⟨srcIDs, dsts, protocols, verdict, -, hsrc, hdst, hproto, hverdict, -, rfl⟩ :=
    compileSpec_eq_ok.mp (compilePolicyRules_eq_ok.mp h)
  rw [hres.selector, Option.some.injEq] at hdst
  subst hdst
  rw [protocolNumbers_eq hproto, verdictForAction_eq hverdict, mem_expand]
  have hids : ∀ s, s ∈ srcIDs ↔ ∃ src ∈ pol.spec.sources, id src = s := by
    intro s
    rw [mem_of_resolveSources hsrc]
    constructor
    · rintro ⟨i, src, hi, hs⟩
      have hmem := List.mem_of_getElem? hi
      rw [hres.source src hmem i, Option.some.injEq] at hs
      exact ⟨src, hmem, hs⟩
    · rintro ⟨src, hmem, rfl⟩
      obtain ⟨i, hi⟩ := List.mem_iff_getElem?.mp hmem
      exact ⟨i, src, hi, hres.source src hmem i⟩
  constructor
  · rintro ⟨src, hs, dst, hd, port, hport, proto, hproto, heq⟩
    cases heq
    exact ⟨(hids src).mp hs, hd, hport, hproto, rfl, rfl⟩
  · rintro ⟨hs, hd, hport, hproto, hdir, rfl⟩
    refine ⟨key.srcIdentity, (hids _).mpr hs, key.dstIdentity, hd, key.dstPort, hport, key.protocol, hproto, ?_⟩
    rw [← hdir]

theorem namesOk_of_resolves (hnames : Naming pol.spec.sources id dstIDs name) :
    Compiler.NamesOk (identitiesOf pol.spec.sources id dstIDs name) := by
  obtain ⟨_, _, _, _, hvalid, -⟩ := compileSpec_eq_ok.mp (compilePolicyRules_eq_ok.mp h)
  obtain ⟨-, -, -, hsources⟩ := validatePolicySpec_eq_ok hvalid
  exact namesOk_identitiesOf hres.source_known (fun src hsrc => isBlank_of_isSpiffeURI (hsources src hsrc)) hres.dst_known
    hnames

theorem translation_compiles (hnames : Naming pol.spec.sources id dstIDs name) : ∃ compiled,
      Compiler.compile (toPolicySpec pol dstIDs name) (identitiesOf pol.spec.sources id dstIDs name) = .ok compiled := by
  obtain ⟨_, _, protocols, _, hvalid, -, -, hproto, -⟩ := compileSpec_eq_ok.mp (compilePolicyRules_eq_ok.mp h)
  obtain ⟨-, hsome, hports, hsources⟩ := validatePolicySpec_eq_ok hvalid
  refine Compiler.compile_ok_iff.mpr ⟨⟨namesOk_of_resolves h hres hnames, ?_, ?_⟩, ?_⟩
  · rw [specRules_toPolicySpec, List.forall_mem_singleton]
    refine ⟨⟨hsome, fun src hsrc => ⟨isBlank_of_isSpiffeURI (hsources src hsrc), ?_⟩⟩, ⟨?_, fun n hn => ?_⟩, hports,
      ?_, ?_, ?_⟩
    · exact ⟨_, mem_identitiesOf.mpr (.inl ⟨src, hsrc, rfl⟩), rfl⟩
    · exact fun hnil => hres.selects (List.map_eq_nil_iff.mp hnil)
    · obtain ⟨dst, hdst, rfl⟩ := List.mem_map.mp hn
      exact ⟨hnames.named dst hdst, _, mem_identitiesOf.mpr (.inr ⟨dst, hdst, rfl⟩), rfl⟩
    · rw [toRule, ← protocolNumbers_eq hproto]
      exact protocolNumbers_ne_nil hproto
    · exact List.cons_ne_nil _ _
    · intro d hd
      exact .inl (List.mem_singleton.mp hd)
  · rw [specRules_toPolicySpec]
    intro r hr rule hrule key _ _
    rw [List.mem_singleton.mp hr, List.mem_singleton.mp hrule]
  · rw [specRules_toPolicySpec, List.forall_mem_singleton]
    exact validateVerdict_verdictOf pol.spec.action

end

theorem mem_translation_iff (hok : Compiler.NamesOk (identitiesOf pol.spec.sources id dstIDs name))
    {compiled : List PolicyRule}
    (h : Compiler.compile (toPolicySpec pol dstIDs name) (identitiesOf pol.spec.sources id dstIDs name) = .ok compiled)
    (key : PolicyRuleKey) (v : PolicyVerdict) :
    ⟨key, v⟩ ∈ compiled ↔ (∃ src ∈ pol.spec.sources, id src = key.srcIdentity) ∧ key.dstIdentity ∈ dstIDs ∧
      key.dstPort ∈ pol.spec.ports ∧ key.protocol ∈ protocolsOf pol.spec.protocols ∧ key.direction = directionIngress ∧
      v = verdictOf pol.spec.action := by
  have hsrc : (∃ n ∈ pol.spec.sources, Compiler.spiffeTable (identitiesOf pol.spec.sources id dstIDs name) n =
      some key.srcIdentity) ↔ ∃ src ∈ pol.spec.sources, id src = key.srcIdentity := by
    refine exists_congr fun src => and_congr_right fun hmem => ?_
    rw [table_source hok hmem, Option.some.injEq]
  have hdst : (∃ n ∈ dstIDs.map name, Compiler.spiffeTable (identitiesOf pol.spec.sources id dstIDs name) n =
      some key.dstIdentity) ↔ key.dstIdentity ∈ dstIDs := by
    constructor
    · rintro ⟨n, hn, htable⟩
      obtain ⟨dst, hmem, rfl⟩ := List.mem_map.mp hn
      rw [table_destination hok hmem, Option.some.injEq] at htable
      exact htable ▸ hmem
    · exact fun hmem => ⟨_, List.mem_map.mpr ⟨_, hmem, rfl⟩, table_destination hok hmem⟩
  rw [(Compiler.compile_rules h).2, Compiler.Standing, specRules_toPolicySpec]
  simp only [List.mem_singleton, exists_eq_left, Compiler.selects_iff, toRule, hsrc, hdst, and_assoc, eq_comm (a := v)]

end

/-- What a `MeridianPolicy` compiles to has one verdict for each key and at most 65536 rules, and where the sources and the
    selector resolve, the spec of one rule that says the same compiles to the same rules. -/
theorem crd_compiler_agrees {pol : MeridianPolicy} {resolver : IdentityResolver} {rules : List PolicyRule}
    (h : compilePolicyRules pol resolver = .ok rules) :
    (∀ id dstIDs name, Resolves resolver pol.spec id dstIDs → Naming pol.spec.sources id dstIDs name →
        ∃ compiled,
          Compiler.compile (toPolicySpec pol dstIDs name) (identitiesOf pol.spec.sources id dstIDs name) = .ok compiled ∧
            ∀ rule, rule ∈ compiled ↔ rule ∈ rules) ∧
      (∀ rule ∈ rules, ∀ rule' ∈ rules, rule.key = rule'.key → rule.verdict = rule'.verdict) ∧ rules.length ≤ 65536 := by
  refine ⟨fun id dstIDs name hres hnames => ?_, ?_⟩
  · obtain ⟨compiled, hcompiled⟩ := translation_compiles h hres hnames
    refine ⟨compiled, hcompiled, fun rule => ?_⟩
    obtain ⟨key, v⟩ := rule
    rw [mem_translation_iff (namesOk_of_resolves h hres hnames) hcompiled, mem_rules_iff h hres]
  · obtain ⟨srcIDs, dstIDs, protocols, verdict, -, -, -, -, -, hproduct, rfl⟩ :=
      compileSpec_eq_ok.mp (compilePolicyRules_eq_ok.mp h)
    refine ⟨fun rule hrule rule' hrule' _ => ?_, by rw [length_expand]; exact hproduct⟩
    obtain ⟨_, -, _, -, _, -, _, -, rfl⟩ := mem_expand.mp hrule
    obtain ⟨_, -, _, -, _, -, _, -, rfl⟩ := mem_expand.mp hrule'
    rfl

/-- A policy that lists everything twice. -/
def doubledPolicy : MeridianPolicy :=
  ⟨"default", "doubled", ⟨⟨"default", []⟩, ["spiffe://cluster.local/a", "spiffe://cluster.local/a"], [80, 80], ["tcp", "tcp"],
    "allow"⟩⟩

def fixedResolver (src : IdentityID) (dstIDs : List IdentityID) : IdentityResolver := ⟨fun _ => some dstIDs, fun _ _ => some src⟩

theorem crd_compiler_agrees_doubled :
    compilePolicyRules doubledPolicy (fixedResolver 1 [2, 2, 3]) =
        .ok (expand [1, 1] [2, 2, 3] [80, 80] [6, 6] ⟨policyActionAllow, 0⟩) ∧
      ∃ compiled,
        Compiler.compile (toPolicySpec doubledPolicy [2, 2, 3] fun dst => decimal dst.toNat)
            (identitiesOf doubledPolicy.spec.sources (fun _ => 1) [2, 2, 3] fun dst => decimal dst.toNat) = .ok compiled ∧
          ∀ rule, rule ∈ compiled ↔ rule ∈ expand [1, 1] [2, 2, 3] [80, 80] [6, 6] ⟨policyActionAllow, 0⟩ := by
  have h : compilePolicyRules doubledPolicy (fixedResolver 1 [2, 2, 3]) =
      .ok (expand [1, 1] [2, 2, 3] [80, 80] [6, 6] ⟨policyActionAllow, 0⟩) := by decide +kernel
  refine ⟨h, (crd_compiler_agrees h).1 (fun _ => 1) [2, 2, 3] (fun dst => decimal dst.toNat) ?_ ?_⟩
  · exact ⟨fun _ _ _ => rfl, fun _ _ => by decide, rfl, List.cons_ne_nil _ _, by simp [identityUnknown]⟩
  · refine ⟨?_, fun _ _ _ _ h => UInt32.toNat_inj.mp (decimal_injective h), ?_⟩
    · simp only [List.forall_mem_cons, List.not_mem_nil, false_imp_iff, implies_true, and_true]
      decide +kernel
    · simp only [doubledPolicy, List.forall_mem_cons, List.not_mem_nil, false_imp_iff, implies_true, and_true]
      decide +kernel

end Meridian.K8s
