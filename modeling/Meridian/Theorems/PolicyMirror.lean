import Meridian.Control.PolicyInformer

/-! The policy informer and the store. The watcher's record of an object covers the keys of its last compilation, so what
    an event puts and deletes is known; but each event looks at the record of its own object only. -/

namespace Meridian.K8s
open Lib Wire

/-! ### Store calls -/

section
variable {fails : Nat → Bool} {store : Table PolicyRuleKey PolicyVerdict} {key : PolicyRuleKey}

theorem mem_keys_of_putRules {rules : List PolicyRule} {i : Nat} (h : key ∈ (putRules fails rules i store).2) :
    key ∈ rules.map (·.key) := by
  induction rules generalizing i store with
  | nil => cases h
  | cons rule rest ih =>
    rw [putRules] at h
    split at h
    · exact List.mem_cons_of_mem _ (ih h)
    · rcases List.mem_cons.mp h with heq | hrest
      · rw [heq]
        exact List.mem_cons_self
      · exact List.mem_cons_of_mem _ (ih hrest)

/-- A key whose put succeeded has the verdict of the rules, and the others are untouched. -/
theorem putRules_apply {rules : List PolicyRule} {verdict : PolicyVerdict} (hv : ∀ rule ∈ rules, rule.verdict = verdict)
    (i : Nat) (store : Table PolicyRuleKey PolicyVerdict) (key : PolicyRuleKey) :
    (putRules fails rules i store).1 key =
      if key ∈ (putRules fails rules i store).2 then some verdict else store key := by
  induction rules generalizing i store with
  | nil => rfl
  | cons rule rest ih =>
    have ih := ih fun r hr => hv r (List.mem_cons_of_mem _ hr)
    rw [putRules]
    split
    · exact ih (i + 1) store
    · dsimp only
      rw [ih (i + 1), hv rule List.mem_cons_self]
      by_cases hkey : key = rule.key
      · subst hkey
        simp
      · simp [hkey, Table.put_of_ne (Ne.symm hkey)]

theorem putRules_keys (rules : List PolicyRule) (i : Nat) (store : Table PolicyRuleKey PolicyVerdict) :
    (putRules (fun _ => false) rules i store).2 = rules.map (·.key) := by
  induction rules generalizing i store with
  | nil => rfl
  | cons rule rest ih =>
    rw [putRules, if_neg (by simp)]
    exact congrArg (rule.key :: ·) (ih (i + 1) _)

/-- The keys whose deletion succeeded. -/
def deletedKeys (fails : Nat → Bool) : List PolicyRuleKey → Nat → List PolicyRuleKey
  | [], _ => []
  | key :: rest, i => if fails i then deletedKeys fails rest (i + 1) else key :: deletedKeys fails rest (i + 1)

theorem deletedKeys_subset {keys : List PolicyRuleKey} {i : Nat} : deletedKeys fails keys i ⊆ keys := by
  induction keys generalizing i with
  | nil => exact List.Subset.refl _
  | cons k rest ih =>
    rw [deletedKeys]
    split
    · exact List.subset_cons_of_subset _ ih
    · exact List.cons_subset_cons _ ih

theorem deleteKeys_apply (keys : List PolicyRuleKey) (i : Nat) (store : Table PolicyRuleKey PolicyVerdict)
    (key : PolicyRuleKey) :
    deleteKeys fails keys i store key = if key ∈ deletedKeys fails keys i then none else store key := by
  induction keys generalizing i store with
  | nil => rfl
  | cons k rest ih =>
    rw [deleteKeys, ih, deletedKeys]
    by_cases hfails : fails i = true
    · rw [if_pos hfails, if_pos hfails]
    · rw [if_neg hfails, if_neg hfails]
      by_cases hkey : key = k
      · subst hkey
        simp
      · simp [hkey, Table.erase_of_ne (Ne.symm hkey)]

theorem deletedKeys_none (keys : List PolicyRuleKey) (i : Nat) : deletedKeys (fun _ => false) keys i = keys := by
  induction keys generalizing i with
  | nil => rfl
  | cons k rest ih =>
    rw [deletedKeys, if_neg (by simp), ih]

end

theorem mem_expand {srcIDs dstIDs : List IdentityID} {ports : List UInt16} {protocols : List UInt8}
    {verdict : PolicyVerdict} {rule : PolicyRule} :
    rule ∈ expand srcIDs dstIDs ports protocols verdict ↔ ∃ src ∈ srcIDs, ∃ dst ∈ dstIDs, ∃ port ∈ ports,
      ∃ proto ∈ protocols, rule = ⟨⟨src, dst, port, proto, directionIngress⟩, verdict⟩ := by
  simp only [expand, List.mem_flatMap, List.mem_map, eq_comm]

variable {resolver : IdentityResolver} {rules : List PolicyRule}

theorem compileSpec_eq_ok {spec : MeridianPolicySpec} :
    compileSpec spec resolver = .ok rules ↔ ∃ srcIDs dstIDs protocols verdict, validatePolicySpec spec = .ok () ∧
      resolveSources resolver spec.sources = .ok srcIDs ∧ resolver.resolveSelector spec.selector = some dstIDs ∧
      protocolNumbers spec.protocols = .ok protocols ∧ verdictForAction spec.action = .ok verdict ∧
      srcIDs.length * dstIDs.length * spec.ports.length * protocols.length ≤ maxCompiledRulesPerPolicy ∧
      rules = expand srcIDs dstIDs spec.ports protocols verdict := by
  unfold compileSpec
  constructor
  · intro h
    split at h
    · cases h
    · rename_i hvalid
      split at h
      · cases h
      · rename_i srcIDs hsrc
        split at h
        · cases h
        · rename_i dstIDs hdst
          split at h
          · cases h
          · rename_i protocols hproto
            split at h
            · cases h
            · rename_i verdict hverdict
              dsimp only at h
              split at h
              · cases h
              · rename_i hproduct
                cases h
                exact ⟨srcIDs, dstIDs, protocols, verdict, hvalid, hsrc, hdst, hproto, hverdict, Nat.not_lt.mp hproduct, rfl⟩
  · rintro ⟨srcIDs, dstIDs, protocols, verdict, hvalid, hsrc, hdst, hproto, hverdict, hproduct, rfl⟩
    simp only [hvalid, hsrc, hdst, hproto, hverdict]
    rw [if_neg (Nat.not_lt.mpr hproduct)]

theorem compilePolicyRules_eq_ok {pol : MeridianPolicy} :
    compilePolicyRules pol resolver = .ok rules ↔ compileSpec pol.spec resolver = .ok rules := by
  unfold compilePolicyRules
  cases compileSpec pol.spec resolver <;> simp

theorem compilePolicyRules_verdict {pol : MeridianPolicy} (h : compilePolicyRules pol resolver = .ok rules) :
    ∃ verdict, ∀ rule ∈ rules, rule.verdict = verdict := by
  obtain ⟨srcIDs, dstIDs, protocols, verdict, -, -, -, -, -, -, rfl⟩ :=
    compileSpec_eq_ok.mp (compilePolicyRules_eq_ok.mp h)
  refine ⟨verdict, fun rule hrule => ?_⟩
  obtain ⟨_, -, _, -, _, -, _, -, rfl⟩ := mem_expand.mp hrule
  rfl

/-! ### Events -/

namespace PolicyWatcher

variable {fails : Failures} {w : PolicyWatcher} {obj : Object} {resolver : IdentityResolver} {pol : MeridianPolicy}
  {rules : List PolicyRule}

theorem onUpsert_eq_self (h : ∀ pol, policyFromObject obj = some pol → ∃ e, compilePolicyRules pol resolver = .error e) :
    w.onUpsert fails resolver obj = w := by
  unfold onUpsert
  split
  · rfl
  · rename_i pol hpol
    obtain ⟨e, he⟩ := h pol hpol
    rw [he]

section
variable (hpol : policyFromObject obj = some pol) (hrules : compilePolicyRules pol resolver = .ok rules)
include hpol hrules

theorem onUpsert_eq : w.onUpsert fails resolver obj =
      { store := deleteKeys fails.delete (w.deletes (.upsert obj resolver)) 0 (putRules fails.put rules 0 w.store).1
        applied := Table.put w.applied pol.fullName (putRules fails.put rules 0 w.store).2 } := by
  simp only [onUpsert, deletes, hpol, hrules]

theorem mem_deletes_upsert {key : PolicyRuleKey} :
    key ∈ w.deletes (.upsert obj resolver) ↔ key ∈ w.recorded pol.fullName ∧ key ∉ rules.map (·.key) := by
  simp [deletes, hpol, hrules]

theorem onUpsert_store {verdict : PolicyVerdict} (hv : ∀ rule ∈ rules, rule.verdict = verdict) (key : PolicyRuleKey) :
    (w.onUpsert fails resolver obj).store key =
      if key ∈ deletedKeys fails.delete (w.deletes (.upsert obj resolver)) 0 then none
      else if key ∈ (putRules fails.put rules 0 w.store).2 then some verdict
      else w.store key := by
  rw [onUpsert_eq hpol hrules]
  dsimp only
  rw [deleteKeys_apply, putRules_apply hv]

/-- Without failures an upsert puts its keys and deletes the other recorded ones. -/
theorem store_onUpsert {verdict : PolicyVerdict} (hv : ∀ rule ∈ rules, rule.verdict = verdict) (key : PolicyRuleKey) :
    (w.onUpsert .none resolver obj).store key =
      if key ∈ rules.map (·.key) then some verdict
      else if key ∈ w.recorded pol.fullName then none
      else w.store key := by
  have hputs : (putRules Failures.none.put rules 0 w.store).2 = rules.map (·.key) := putRules_keys rules 0 w.store
  have hdeletes (keys : List PolicyRuleKey) : deletedKeys Failures.none.delete keys 0 = keys := deletedKeys_none keys 0
  rw [onUpsert_store hpol hrules hv, hdeletes, hputs]
  by_cases hnew : key ∈ rules.map (·.key)
  · rw [if_pos hnew, if_pos hnew, if_neg fun hdel => ((mem_deletes_upsert hpol hrules).mp hdel).2 hnew]
  · rw [if_neg hnew, if_neg hnew]
    by_cases hrec : key ∈ w.recorded pol.fullName
    · rw [if_pos hrec, if_pos ((mem_deletes_upsert hpol hrules).mpr ⟨hrec, hnew⟩)]
    · rw [if_neg hrec, if_neg fun hdel => hrec ((mem_deletes_upsert hpol hrules).mp hdel).1]

theorem recorded_onUpsert (name : String) : (w.onUpsert .none resolver obj).recorded name =
      if pol.fullName = name then rules.map (·.key) else w.recorded name := by
  have hputs : (putRules Failures.none.put rules 0 w.store).2 = rules.map (·.key) := putRules_keys rules 0 w.store
  rw [onUpsert_eq hpol hrules, hputs]
  unfold recorded
  by_cases hname : pol.fullName = name
  · subst hname
    simp
  · simp [hname, Table.put_of_ne hname]

end

section
variable (hpol : policyFromObject obj = some pol)
include hpol

theorem onDelete_eq : w.onDelete fails resolver obj =
      { store := deleteKeys fails.delete (w.deletes (.delete obj resolver)) 0 w.store
        applied := Table.erase w.applied pol.fullName } := by
  simp only [onDelete, deletes, hpol]
  cases w.applied pol.fullName with
  | some keys => rfl
  | none => cases compilePolicyRules pol resolver <;> rfl

/-- A deletion takes every recorded key. -/
theorem recorded_subset_deletes : w.recorded pol.fullName ⊆ w.deletes (.delete obj resolver) := by
  intro key hkey
  unfold recorded at hkey
  simp only [deletes, hpol]
  cases hrec : w.applied pol.fullName with
  | none =>
    rw [hrec] at hkey
    cases hkey
  | some keys =>
    rw [hrec] at hkey
    exact hkey

theorem onDelete_store (key : PolicyRuleKey) : (w.onDelete fails resolver obj).store key =
      if key ∈ deletedKeys fails.delete (w.deletes (.delete obj resolver)) 0 then none else w.store key := by
  rw [onDelete_eq hpol]
  exact deleteKeys_apply _ 0 w.store key

theorem store_onDelete (key : PolicyRuleKey) : (w.onDelete .none resolver obj).store key =
      if key ∈ w.deletes (.delete obj resolver) then none else w.store key := by
  have hdeletes (keys : List PolicyRuleKey) : deletedKeys Failures.none.delete keys 0 = keys := deletedKeys_none keys 0
  rw [onDelete_store hpol, hdeletes]

theorem recorded_onDelete (name : String) :
    (w.onDelete fails resolver obj).recorded name = if pol.fullName = name then [] else w.recorded name := by
  rw [onDelete_eq hpol]
  unfold recorded
  by_cases hname : pol.fullName = name
  · subst hname
    simp
  · simp [hname, Table.erase_of_ne hname]

end

end PolicyWatcher

/-! ### The mirror -/

namespace Mirror

/-- A live object has a rule. -/
def Owns (s : Mirror) (obj : ObjectKey) (rule : PolicyRule) : Prop := ∃ rules, s.live obj = some rules ∧ rule ∈ rules

/-- The keys in the store are those of the live objects, and one on whose verdict its owners agree is stored with it. -/
def Mirrors (s : Mirror) : Prop :=
  (∀ key, (s.watcher.store key).isSome ↔ ∃ obj rule, s.Owns obj rule ∧ rule.key = key) ∧
    ∀ key verdict, (∃ obj rule, s.Owns obj rule ∧ rule.key = key) →
      (∀ obj rule, s.Owns obj rule → rule.key = key → rule.verdict = verdict) → s.watcher.store key = some verdict

/-- The event deletes no key of a rule of another live object. -/
def LeavesOthers (s : Mirror) (e : InformerEvent) : Prop :=
  ∀ pol, e.policy = some pol → ∀ key ∈ s.watcher.deletes e, ∀ obj rule, obj ≠ pol.objectKey → s.Owns obj rule →
    rule.key ≠ key

/-- Each entry of the store is the rule of a live object, whose rules are all in the store and on its record. -/
structure InStep (s : Mirror) : Prop where
  owned : ∀ key verdict, s.watcher.store key = some verdict → ∃ obj, s.Owns obj ⟨key, verdict⟩
  stored : ∀ obj rule, s.Owns obj rule → (s.watcher.store rule.key).isSome
  recorded : ∀ ns name rule, s.Owns (ns, name) rule → rule.key ∈ s.watcher.recorded (ns ++ "/" ++ name)

theorem InStep.mirrors {s : Mirror} (h : InStep s) : Mirrors s := by
  constructor
  · intro key
    constructor
    · intro hsome
      obtain ⟨verdict, hverdict⟩ := Option.isSome_iff_exists.mp hsome
      obtain ⟨obj, howns⟩ := h.owned key verdict hverdict
      exact ⟨obj, _, howns, rfl⟩
    · rintro ⟨obj, rule, howns, rfl⟩
      exact h.stored obj rule howns
  · rintro key verdict ⟨obj, rule, howns, rfl⟩ hagree
    obtain ⟨verdict', hverdict⟩ := Option.isSome_iff_exists.mp (h.stored obj rule howns)
    obtain ⟨obj', howns'⟩ := h.owned rule.key verdict' hverdict
    have hsame := hagree obj' _ howns' rfl
    dsimp only at hsame
    rw [hverdict, hsame]

section
variable {s : Mirror} {obj : Object} {resolver : IdentityResolver} {pol : MeridianPolicy} {rules : List PolicyRule}

/-- The rules of the live objects after an upsert. -/
theorem owns_upsert (hpol : policyFromObject obj = some pol) (hrules : compilePolicyRules pol resolver = .ok rules)
    (key : ObjectKey) (rule : PolicyRule) :
    (s.step (.upsert obj resolver)).Owns key rule ↔
      (key = pol.objectKey ∧ rule ∈ rules) ∨ (key ≠ pol.objectKey ∧ s.Owns key rule) := by
  simp only [Owns, step, liveAfter, hpol, hrules]
  by_cases hkey : key = pol.objectKey
  · subst hkey
    simp
  · simp [hkey, Table.put_of_ne (Ne.symm hkey)]

theorem owns_delete (hpol : policyFromObject obj = some pol) (key : ObjectKey) (rule : PolicyRule) :
    (s.step (.delete obj resolver)).Owns key rule ↔ key ≠ pol.objectKey ∧ s.Owns key rule := by
  simp only [Owns, step, liveAfter, hpol]
  by_cases hkey : key = pol.objectKey
  · subst hkey
    simp
  · simp [hkey, Table.erase_of_ne (Ne.symm hkey)]

/-- A rule of the object is on the record that the event looks at. -/
theorem InStep.recorded_own (h : InStep s) {key : ObjectKey} {rule : PolicyRule} (hkey : key = pol.objectKey)
    (howns : s.Owns key rule) : rule.key ∈ s.watcher.recorded pol.fullName := by
  subst hkey
  exact h.recorded pol.ns pol.name rule howns

theorem InStep.upsert (h : InStep s) (hpol : policyFromObject obj = some pol)
    (hrules : compilePolicyRules pol resolver = .ok rules) (hleaves : s.LeavesOthers (.upsert obj resolver)) :
    InStep (s.step (.upsert obj resolver)) := by
  obtain ⟨verdict, hv⟩ := compilePolicyRules_verdict hrules
  have hstore := PolicyWatcher.store_onUpsert (w := s.watcher) hpol hrules hv
  have hleaves {key : ObjectKey} {rule : PolicyRule} (hkey : key ≠ pol.objectKey) (howns : s.Owns key rule)
      (hrec : rule.key ∈ s.watcher.recorded pol.fullName) : rule.key ∈ rules.map (·.key) := by
    by_contra hnew
    exact hleaves pol hpol _ ((PolicyWatcher.mem_deletes_upsert hpol hrules).mpr ⟨hrec, hnew⟩) key rule hkey howns rfl
  constructor
  · intro key verdict' hsome
    rw [step, PolicyWatcher.handle, hstore] at hsome
    split at hsome
    · rename_i hnew
      obtain ⟨rule, hrule, rfl⟩ := List.mem_map.mp hnew
      cases hsome
      refine ⟨pol.objectKey, (owns_upsert hpol hrules _ _).mpr (.inl ⟨rfl, ?_⟩)⟩
      rw [← hv rule hrule]
      exact hrule
    · rename_i hnew
      split at hsome
      · cases hsome
      · rename_i hrec
        obtain ⟨owner, howns⟩ := h.owned key verdict' hsome
        refine ⟨owner, (owns_upsert hpol hrules _ _).mpr (.inr ⟨?_, howns⟩)⟩
        intro hkey
        exact hrec (h.recorded_own hkey howns)
  · intro key rule howns
    rw [step, PolicyWatcher.handle, hstore]
    rcases (owns_upsert hpol hrules _ _).mp howns with ⟨-, hrule⟩ | ⟨hkey, howns⟩
    · rw [if_pos (List.mem_map_of_mem hrule)]
      rfl
    · split
      · rfl
      · rename_i hnew
        rw [if_neg fun hrec => hnew (hleaves hkey howns hrec)]
        exact h.stored key rule howns
  · intro ns name rule howns
    rw [step, PolicyWatcher.handle, PolicyWatcher.recorded_onUpsert hpol hrules]
    rcases (owns_upsert hpol hrules _ _).mp howns with ⟨hkey, hrule⟩ | ⟨hkey, howns⟩
    · cases hkey
      rw [if_pos (show pol.fullName = pol.ns ++ "/" ++ pol.name from rfl)]
      exact List.mem_map_of_mem hrule
    · have hrec := h.recorded ns name rule howns
      split
      · rename_i hname
        rw [← hname] at hrec
        exact hleaves hkey howns hrec
      · exact hrec

theorem InStep.delete (h : InStep s) (hpol : policyFromObject obj = some pol)
    (hleaves : s.LeavesOthers (.delete obj resolver)) : InStep (s.step (.delete obj resolver)) := by
  have hstore (key : PolicyRuleKey) : (s.watcher.onDelete .none resolver obj).store key =
      if key ∈ s.watcher.deletes (.delete obj resolver) then none else s.watcher.store key :=
    PolicyWatcher.store_onDelete hpol key
  have hsubset : s.watcher.recorded pol.fullName ⊆ s.watcher.deletes (.delete obj resolver) :=
    PolicyWatcher.recorded_subset_deletes hpol
  constructor
  · intro key verdict hsome
    rw [step, PolicyWatcher.handle, hstore] at hsome
    split at hsome
    · cases hsome
    · rename_i hkept
      obtain ⟨owner, howns⟩ := h.owned key verdict hsome
      refine ⟨owner, (owns_delete hpol _ _).mpr ⟨?_, howns⟩⟩
      intro hkey
      exact hkept (hsubset (h.recorded_own hkey howns))
  · intro key rule howns
    obtain ⟨hkey, howns⟩ := (owns_delete hpol _ _).mp howns
    rw [step, PolicyWatcher.handle, hstore, if_neg fun hdel => hleaves pol hpol _ hdel key rule hkey howns rfl]
    exact h.stored key rule howns
  · intro ns name rule howns
    obtain ⟨hkey, howns⟩ := (owns_delete hpol _ _).mp howns
    have hrec := h.recorded ns name rule howns
    rw [step, PolicyWatcher.handle, PolicyWatcher.recorded_onDelete hpol]
    split
    · rename_i hname
      rw [← hname] at hrec
      exact absurd rfl (hleaves pol hpol _ (hsubset hrec) _ rule hkey howns)
    · exact hrec

theorem InStep.step (h : InStep s) {e : InformerEvent} (hleaves : s.LeavesOthers e) : InStep (s.step e) := by
  cases e with
  | upsert obj resolver =>
    by_cases hok : ∃ pol rules, policyFromObject obj = some pol ∧ compilePolicyRules pol resolver = .ok rules
    · obtain ⟨pol, rules, hpol, hrules⟩ := hok
      exact h.upsert hpol hrules hleaves
    · have herror (pol : MeridianPolicy) (hpol : policyFromObject obj = some pol) :
          ∃ e, compilePolicyRules pol resolver = .error e := by
        cases hrules : compilePolicyRules pol resolver with
        | error e => exact ⟨e, rfl⟩
        | ok rules => exact absurd ⟨pol, rules, hpol, hrules⟩ hok
      have hlive : liveAfter s.live (.upsert obj resolver) = s.live := by
        dsimp only [liveAfter]
        split
        · rfl
        · rename_i pol hpol
          obtain ⟨e, he⟩ := herror pol hpol
          rw [he]
      have hsame : s.step (.upsert obj resolver) = s := by
        rw [Mirror.step, hlive, PolicyWatcher.handle, PolicyWatcher.onUpsert_eq_self herror]
      rw [hsame]
      exact h
  | delete obj resolver =>
    cases hpol : policyFromObject obj with
    | none =>
      have hsame : s.step (.delete obj resolver) = s := by
        simp only [Mirror.step, PolicyWatcher.handle, PolicyWatcher.onDelete, liveAfter, hpol]
      rw [hsame]
      exact h
    | some pol => exact h.delete hpol hleaves

/-- A key that the event takes from another live object is missing afterwards. -/
theorem not_mirrors_step {e : InformerEvent} (hleaves : ¬s.LeavesOthers e) : ¬Mirrors (s.step e) := by
  intro hmirrors
  simp only [LeavesOthers, not_forall, not_not] at hleaves
  obtain ⟨pol, hpol, key, hdel, owner, rule, hkey, howns, rfl⟩ := hleaves
  have hnone : (s.step e).watcher.store rule.key = none ∧ (s.step e).Owns owner rule := by
    cases e with
    | upsert obj resolver =>
      change policyFromObject obj = some pol at hpol
      cases hrules : compilePolicyRules pol resolver with
      | error e =>
        simp only [PolicyWatcher.deletes, hpol, hrules] at hdel
        cases hdel
      | ok rules =>
        obtain ⟨verdict, hv⟩ := compilePolicyRules_verdict hrules
        obtain ⟨hrec, hnew⟩ := (PolicyWatcher.mem_deletes_upsert hpol hrules).mp hdel
        refine ⟨?_, (owns_upsert hpol hrules _ _).mpr (.inr ⟨hkey, howns⟩)⟩
        rw [Mirror.step, PolicyWatcher.handle, PolicyWatcher.store_onUpsert hpol hrules hv, if_neg hnew, if_pos hrec]
    | delete obj resolver =>
      change policyFromObject obj = some pol at hpol
      refine ⟨?_, (owns_delete hpol _ _).mpr ⟨hkey, howns⟩⟩
      rw [Mirror.step, PolicyWatcher.handle, PolicyWatcher.store_onDelete hpol, if_pos hdel]
  have hsome := (hmirrors.1 rule.key).mpr ⟨owner, rule, hnone.2, rfl⟩
  rw [hnone.1] at hsome
  cases hsome

end

theorem InStep.start : InStep start where
  owned _ _ h := by cases h
  stored _ _ h := by
    obtain ⟨_, hlive, -⟩ := h
    cases hlive
  recorded _ _ _ h := by
    obtain ⟨_, hlive, -⟩ := h
    cases hlive

end Mirror

/-- The store mirrors the live objects after every event exactly when no event deletes a key of a rule of another live
    object. -/
theorem policy_store_mirrors_iff (events : List InformerEvent) :
    Always Mirror.step Mirror.Mirrors .start events ↔ Steps Mirror.step Mirror.LeavesOthers .start events :=
  always_iff_steps (fun _ h => h.mirrors) (fun _ _ h hleaves => h.step hleaves)
    (fun _ _ _ hleaves => Mirror.not_mirrors_step hleaves) Mirror.InStep.start events

/-- An object that allows one source to reach one workload. -/
def allowPolicy (name : String) : MeridianPolicy :=
  ⟨"default", name, ⟨⟨"default", []⟩, ["spiffe://cluster.local/a"], [80], [], "allow"⟩⟩

def onePod : IdentityResolver := ⟨fun _ => some [8], fun _ _ => some 7⟩

/-- Two objects with the same rule; one of them is deleted. -/
def overlapping : List InformerEvent :=
  [.upsert (.unstructured (allowPolicy "a")) onePod, .upsert (.unstructured (allowPolicy "b")) onePod,
   .delete (.unstructured (allowPolicy "a")) onePod]

theorem overlapping_rule_lost : ¬Mirror.Mirrors (execute Mirror.step .start overlapping) := by
  intro h
  have howns : (execute Mirror.step .start overlapping).Owns ("default", "b") ⟨⟨7, 8, 80, 6, 0⟩, ⟨0, 0⟩⟩ :=
    ⟨[⟨⟨7, 8, 80, 6, 0⟩, ⟨0, 0⟩⟩], by decide +kernel, List.mem_singleton_self _⟩
  have hnone : (execute Mirror.step .start overlapping).watcher.store ⟨7, 8, 80, 6, 0⟩ = none := by decide +kernel
  have hsome := (h.1 ⟨7, 8, 80, 6, 0⟩).mpr ⟨_, _, howns, rfl⟩
  rw [hnone] at hsome
  cases hsome

end Meridian.K8s
