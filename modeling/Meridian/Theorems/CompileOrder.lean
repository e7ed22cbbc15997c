import Mathlib.Data.Prod.Lex
import Meridian.Theorems.Conformance

/-! Compiling does not depend on the order or the repetition of what it is given: whether it succeeds, and with which
    rules, depends on the members of the lists only, and the list of the rules is sorted strictly. -/

namespace Meridian.Compiler
open Lib Wire

/-! ### The order of the keys -/

/-- A key as a point of the lexicographic order. -/
def lexKey (key : PolicyRuleKey) : ℕ ×ₗ ℕ ×ₗ ℕ ×ₗ ℕ ×ₗ ℕ :=
  toLex (key.srcIdentity.toNat, toLex (key.dstIdentity.toNat, toLex (key.dstPort.toNat,
    toLex (key.protocol.toNat, key.direction.toNat))))

theorem lexKey_injective : Function.Injective lexKey := by
  rintro ⟨s, t, p, pr, d⟩ ⟨s', t', p', pr', d'⟩ h
  simp only [lexKey, EmbeddingLike.apply_eq_iff_eq, Prod.mk.injEq, UInt32.toNat_inj, UInt16.toNat_inj, UInt8.toNat_inj] at h
  obtain ⟨rfl, rfl, rfl, rfl, rfl⟩ := h
  rfl

/-- One field of the comparison. -/
theorem compareField_eq_gt_iff {p q : Prop} [Decidable p] [Decidable q] {m n : ℕ} {rest : Ordering} {R : Prop}
    (hp : p ↔ m ≠ n) (hq : q ↔ m < n) (hrest : rest = .gt ↔ R) :
    (if p then if q then .lt else .gt else rest) = .gt ↔ n < m ∨ n = m ∧ R := by
  rcases Nat.lt_trichotomy m n with hlt | heq | hgt
  · rw [if_pos (hp.mpr hlt.ne), if_pos (hq.mpr hlt)]
    exact iff_of_false nofun (by omega)
  · rw [if_neg (fun h => hp.mp h heq), hrest]
    exact ⟨fun hR => Or.inr ⟨heq.symm, hR⟩, fun h => h.elim (fun hlt => absurd heq hlt.ne') And.right⟩
  · rw [if_pos (hp.mpr hgt.ne'), if_neg fun h => Nat.lt_asymm hgt (hq.mp h)]
    exact iff_of_true rfl (Or.inl hgt)

theorem compareKeys_eq_gt_iff {a b : PolicyRuleKey} : compareKeys a b = .gt ↔ lexKey b < lexKey a := by
  simp only [compareKeys, lexKey, Prod.Lex.toLex_lt_toLex]
  refine compareField_eq_gt_iff UInt32.toNat_inj.symm.not UInt32.lt_iff_toNat_lt ?_
  refine compareField_eq_gt_iff UInt32.toNat_inj.symm.not UInt32.lt_iff_toNat_lt ?_
  refine compareField_eq_gt_iff UInt16.toNat_inj.symm.not UInt16.lt_iff_toNat_lt ?_
  refine compareField_eq_gt_iff UInt8.toNat_inj.symm.not UInt8.lt_iff_toNat_lt ?_
  have hlast := @compareField_eq_gt_iff (a.direction ≠ b.direction) (a.direction < b.direction) _ _ _ _ .eq False
    UInt8.toNat_inj.symm.not UInt8.lt_iff_toNat_lt (iff_of_false nofun not_false)
  rwa [and_false, or_false] at hlast

theorem sortedKeys_pairwise (m : RuleMap) : (sortedKeys m).Pairwise fun a b => lexKey a < lexKey b := by
  have hle : ∀ a b, compareKeys a b ≠ .gt ↔ lexKey a ≤ lexKey b := fun a b =>
    compareKeys_eq_gt_iff.not.trans not_lt
  have : Std.Total fun a b => compareKeys a b ≠ .gt := ⟨fun a b => by
    rw [hle, hle]
    exact le_total _ _⟩
  have : IsTrans PolicyRuleKey fun a b => compareKeys a b ≠ .gt := ⟨fun a b c hab hbc => by
    rw [hle] at hab hbc ⊢
    exact hab.trans hbc⟩
  have hnodup : (sortedKeys m).Nodup := (sortedKeys_perm m).nodup_iff.mpr m.keys_nodup
  refine (List.Pairwise.and (List.pairwise_insertionSort _ _) hnodup).imp fun {a b} h => ?_
  exact lt_of_le_of_ne ((hle a b).mp h.1) fun heq => h.2 (lexKey_injective heq)

theorem compile_sorted {spec : PolicySpec} {identities : List Identity} {compiled : List PolicyRule}
    (h : compile spec identities = .ok compiled) : compiled.Pairwise fun a b => lexKey a.key < lexKey b.key := by
  obtain ⟨-, m, -, rfl⟩ := compile_eq_ok.mp h
  exact List.pairwise_map.mpr (sortedKeys_pairwise m)

/-! ### The same members -/

section
variable {α : Type} {l l' : List α}

def SameMembers (l l' : List α) : Prop := ∀ a, a ∈ l ↔ a ∈ l'

theorem SameMembers.symm (h : SameMembers l l') : SameMembers l' l := fun a => (h a).symm

theorem SameMembers.ne_nil (h : SameMembers l l') (hl : l ≠ []) : l' ≠ [] := by
  obtain ⟨a, ha⟩ := List.exists_mem_of_ne_nil l hl
  exact List.ne_nil_of_mem ((h a).mp ha)

/-- Each entry of one list has a counterpart in the other. So it is with lists that are permuted or have entries
    repeated, whenever `R` is reflexive. -/
structure Counterparts (R : α → α → Prop) (l l' : List α) : Prop where
  right : ∀ a ∈ l, ∃ b ∈ l', R a b
  left : ∀ b ∈ l', ∃ a ∈ l, R a b

theorem Counterparts.symm {R : α → α → Prop} (h : Counterparts R l l') (hR : ∀ {a b}, R a b → R b a) :
    Counterparts R l' l where
  right b hb :=
    have ⟨a, ha, hab⟩ := h.left b hb
    ⟨a, ha, hR hab⟩
  left a ha :=
    have ⟨b, hb, hab⟩ := h.right a ha
    ⟨b, hb, hR hab⟩

theorem Counterparts.flatMap {β : Type} {R : β → β → Prop} {f : α → List β}
    (h : Counterparts (fun a b => Counterparts R (f a) (f b)) l l') : Counterparts R (l.flatMap f) (l'.flatMap f) := by
  refine ⟨fun x hx => ?_, fun y hy => ?_⟩
  · obtain ⟨a, ha, hxa⟩ := List.mem_flatMap.mp hx
    obtain ⟨b, hb, hab⟩ := h.right a ha
    obtain ⟨y, hy, hxy⟩ := hab.right x hxa
    exact ⟨y, List.mem_flatMap.mpr ⟨b, hb, hy⟩, hxy⟩
  · obtain ⟨b, hb, hyb⟩ := List.mem_flatMap.mp hy
    obtain ⟨a, ha, hab⟩ := h.left b hb
    obtain ⟨x, hx, hxy⟩ := hab.left y hyb
    exact ⟨x, List.mem_flatMap.mpr ⟨a, ha, hx⟩, hxy⟩

end

/-- Rules with the same selectors and the same verdict; the name is free. -/
structure SameRule (r r' : PolicyRuleSelector) : Prop where
  sources : SameMembers r.sources r'.sources
  destinations : SameMembers r.destinations r'.destinations
  ports : SameMembers r.ports r'.ports
  protocols : SameMembers r.protocols r'.protocols
  directions : SameMembers r.directions r'.directions
  verdict : r.verdict = r'.verdict

def SamePolicy (p p' : Policy) : Prop := Counterparts SameRule p.rules p'.rules

def SameSpec (spec spec' : PolicySpec) : Prop := Counterparts SamePolicy spec.policies spec'.policies

theorem SameRule.symm {r r' : PolicyRuleSelector} (h : SameRule r r') : SameRule r' r :=
  ⟨h.sources.symm, h.destinations.symm, h.ports.symm, h.protocols.symm, h.directions.symm, h.verdict.symm⟩

theorem SameSpec.rules {spec spec' : PolicySpec} (h : SameSpec spec spec') :
    Counterparts SameRule (specRules spec) (specRules spec') := Counterparts.flatMap h

/-! ### What is compiled of them -/

section
variable {bySpiffe : Table String IdentityID}

theorem SameRule.selects_iff {r r' : PolicyRuleSelector} (h : SameRule r r') (key : PolicyRuleKey) :
    selects bySpiffe r key = true ↔ selects bySpiffe r' key = true := by
  simp only [Compiler.selects_iff, h.sources _, h.destinations _, h.ports _, h.protocols _, h.directions _]

theorem Resolvable.congr {names names' : List String} (h : SameMembers names names') (hnames : Resolvable bySpiffe names) :
    Resolvable bySpiffe names' :=
  ⟨h.ne_nil hnames.1, fun name hname => hnames.2 name ((h name).mpr hname)⟩

theorem SameRule.selectorsOk {r r' : PolicyRuleSelector} (h : SameRule r r') (hr : SelectorsOk (Resolvable bySpiffe) r) :
    SelectorsOk (Resolvable bySpiffe) r' where
  sources := hr.sources.congr h.sources
  destinations := hr.destinations.congr h.destinations
  ports := h.ports.ne_nil hr.ports
  protocols := h.protocols.ne_nil hr.protocols
  directions := h.directions.ne_nil hr.directions
  supported d hd := hr.supported d ((h.directions d).mpr hd)

variable {rules rules' : List PolicyRuleSelector}

theorem RulesOk.counterparts (h : Counterparts SameRule rules rules') (hrules : RulesOk bySpiffe rules) :
    RulesOk bySpiffe rules' := by
  refine ⟨fun r' hr' => ?_, fun r' hr' => ?_, fun r' hr' s' hs' key hrkey hskey => ?_⟩
  · obtain ⟨r, hr, hsame⟩ := h.left r' hr'
    exact hsame.selectorsOk (hrules.selectors r hr)
  · obtain ⟨r, hr, hsame⟩ := h.left r' hr'
    exact hsame.verdict ▸ hrules.verdicts r hr
  · obtain ⟨r, hr, hsame⟩ := h.left r' hr'
    obtain ⟨s, hs, hsame'⟩ := h.left s' hs'
    rw [← hsame.verdict, ← hsame'.verdict]
    exact hrules.consistent r hr s hs key ((hsame.selects_iff key).mpr hrkey) ((hsame'.selects_iff key).mpr hskey)

theorem Standing.counterparts (h : Counterparts SameRule rules rules') {key : PolicyRuleKey} {v : PolicyVerdict}
    (hstands : Standing bySpiffe rules key v) : Standing bySpiffe rules' key v := by
  obtain ⟨r, hr, hkey, hv⟩ := hstands
  obtain ⟨r', hr', hsame⟩ := h.right r hr
  exact ⟨r', hr', (hsame.selects_iff key).mp hkey, hsame.verdict ▸ hv⟩

end

section
variable {identities identities' : List Identity}

theorem NamesOk.congr (h : SameMembers identities identities') (hnames : NamesOk identities) : NamesOk identities' where
  known i hi := hnames.known i ((h i).mpr hi)
  named i hi := hnames.named i ((h i).mpr hi)
  unique i hi j hj := hnames.unique i ((h i).mpr hi) j ((h j).mpr hj)

theorem spiffeTable_congr (h : SameMembers identities identities') (hnames : NamesOk identities) :
    spiffeTable identities = spiffeTable identities' := by
  refine funext fun name => Option.ext fun id => ?_
  rw [spiffeTable_eq_some_iff hnames, spiffeTable_eq_some_iff (hnames.congr h)]
  simp only [h _]

variable {spec spec' : PolicySpec}

/-- Where one of the inputs is compiled, the other is, to the same rules. -/
theorem compile_congr (hspec : SameSpec spec spec') (hids : SameMembers identities identities') {compiled : List PolicyRule}
    (h : compile spec identities = .ok compiled) : compile spec' identities' = .ok compiled := by
  obtain ⟨hnames, hrules⟩ := specShape_iff.mp (compile_ok_iff.mp ⟨compiled, h⟩)
  have htable := spiffeTable_congr hids hnames
  obtain ⟨compiled', h'⟩ : ∃ compiled', compile spec' identities' = .ok compiled' :=
    compile_ok_iff.mpr (specShape_iff.mpr ⟨hnames.congr hids, htable ▸ hrules.counterparts hspec.rules⟩)
  obtain ⟨hnodup, hmem⟩ := compile_rules h
  obtain ⟨hnodup', hmem'⟩ := compile_rules h'
  have hperm : compiled.Perm compiled' := by
    refine (List.perm_ext_iff_of_nodup hnodup.of_map hnodup'.of_map).mpr fun rule => ?_
    rw [hmem rule.key rule.verdict, hmem' rule.key rule.verdict, ← htable]
    exact ⟨Standing.counterparts hspec.rules, Standing.counterparts (hspec.rules.symm SameRule.symm)⟩
  have heq : compiled = compiled' :=
    hperm.eq_of_pairwise (fun a b _ _ hab hba => absurd hab hba.asymm) (compile_sorted h) (compile_sorted h')
  rw [h', heq]

end

theorem SamePolicy.symm {p p' : Policy} (h : SamePolicy p p') : SamePolicy p' p := Counterparts.symm h SameRule.symm

/-- Both inputs fail, or both are compiled to one list, strictly increasing and so without a key twice. -/
theorem compile_order_irrelevant {spec spec' : PolicySpec} {identities identities' : List Identity}
    (hspec : SameSpec spec spec') (hids : SameMembers identities identities') :
    ((∃ e, compile spec identities = .error e) ∧ ∃ e, compile spec' identities' = .error e) ∨
      ∃ compiled, compile spec identities = .ok compiled ∧ compile spec' identities' = .ok compiled ∧
        (compiled.Pairwise fun a b => lexKey a.key < lexKey b.key) ∧ (compiled.map (·.key)).Nodup := by
  cases h : compile spec identities with
  | ok compiled => exact Or.inr ⟨compiled, rfl, compile_congr hspec hids h, compile_sorted h, (compile_rules h).1⟩
  | error e =>
    cases h' : compile spec' identities' with
    | ok compiled =>
      have hback : SameSpec spec' spec := Counterparts.symm hspec SamePolicy.symm
      cases h.symm.trans (compile_congr hback hids.symm h')
    | error e' => exact Or.inl ⟨⟨e, rfl⟩, e', rfl⟩

/-- The client may reach the given ports of the server. -/
def portsRule (name : String) (ports : List UInt16) : PolicyRuleSelector :=
  ⟨name, ["spiffe://td/client"], ["spiffe://td/server"], ports, [6], [directionIngress], ⟨policyActionAllow, 0⟩⟩

theorem portsRule_same (name name' : String) {ports ports' : List UInt16} (h : SameMembers ports ports') :
    SameRule (portsRule name ports) (portsRule name' ports') :=
  ⟨fun _ => Iff.rfl, fun _ => Iff.rfl, h, fun _ => Iff.rfl, fun _ => Iff.rfl, rfl⟩

theorem counterparts_singleton {α : Type} {R : α → α → Prop} {a : α} {l : List α} (hl : l ≠ []) (h : ∀ b ∈ l, R a b) :
    Counterparts R [a] l := by
  obtain ⟨b, hb⟩ := List.exists_mem_of_ne_nil l hl
  refine ⟨fun x hx => ⟨b, hb, ?_⟩, fun x hx => ⟨a, List.mem_singleton_self a, h x hx⟩⟩
  rw [List.mem_singleton.mp hx]
  exact h b hb

/-- Two policies, one with its rule twice, with other names, in other orders, from identities listed twice. -/
theorem compile_order_irrelevant_ports :
    compile ⟨[⟨"", [portsRule "" [443, 8080, 443], portsRule "web" [8080, 443]]⟩, ⟨"demo", [portsRule "" [443, 8080]]⟩]⟩
        (twoWorkloads.reverse ++ twoWorkloads) =
      .ok [⟨⟨7, 8, 443, 6, directionIngress⟩, ⟨policyActionAllow, 0⟩⟩,
        ⟨⟨7, 8, 8080, 6, directionIngress⟩, ⟨policyActionAllow, 0⟩⟩] := by
  have hcompiled : compile ⟨[⟨"demo", [portsRule "http" [8080, 443]]⟩]⟩ twoWorkloads =
      .ok [⟨⟨7, 8, 443, 6, directionIngress⟩, ⟨policyActionAllow, 0⟩⟩,
        ⟨⟨7, 8, 8080, 6, directionIngress⟩, ⟨policyActionAllow, 0⟩⟩] := rfl
  have hspec : SameSpec ⟨[⟨"demo", [portsRule "http" [8080, 443]]⟩]⟩
      ⟨[⟨"", [portsRule "" [443, 8080, 443], portsRule "web" [8080, 443]]⟩, ⟨"demo", [portsRule "" [443, 8080]]⟩]⟩ := by
    refine counterparts_singleton (List.cons_ne_nil _ _) ?_
    simp only [List.forall_mem_cons, List.not_mem_nil, false_imp_iff, implies_true, and_true]
    refine ⟨counterparts_singleton (List.cons_ne_nil _ _) ?_, counterparts_singleton (List.cons_ne_nil _ _) ?_⟩ <;>
      simp only [List.forall_mem_cons, List.not_mem_nil, false_imp_iff, implies_true, and_true]
    · exact ⟨portsRule_same _ _ fun p => by simp; tauto, portsRule_same _ _ fun p => Iff.rfl⟩
    · exact portsRule_same _ _ fun p => by simp; tauto
  have hids : SameMembers twoWorkloads (twoWorkloads.reverse ++ twoWorkloads) := fun i => by simp
  rcases compile_order_irrelevant hspec hids with ⟨⟨e, he⟩, -⟩ | ⟨compiled, h, h', -⟩
  · cases hcompiled.symm.trans he
  · exact h'.trans (h.symm.trans hcompiled)

end Meridian.Compiler
