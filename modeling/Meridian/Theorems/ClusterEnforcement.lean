import Meridian.Theorems.EtcdRefines
import Meridian.Theorems.MeshEnforcement
import Meridian.Theorems.PodIdentity
import Meridian.Theorems.PolicyMirror

/-! From the objects of the cluster to the verdict. The informers of pods and of policies work on the store through calls,
    each one after the other, while its threads, the streams and the agent go on. Once their calls are made and the
    agent's stream is at rest, a packet between two pods passes only as the live policies say. -/

namespace Meridian.Store
open Lib Wire

/-! ### The contents as tables -/

def Mutation.ruleWrite : Mutation → Option (Write PolicyRuleKey PolicyVerdict)
  | .putPolicy rule => some (rule.key, some rule.verdict)
  | .deletePolicy key => some (key, none)
  | _ => none

def Mutation.identityWrite : Mutation → Option (Write IdentityID Identity)
  | .putIdentity identity => some (identity.id, some identity)
  | .deleteIdentity id => some (id, none)
  | _ => none

namespace Contents

def rules (c : Contents) : Table PolicyRuleKey PolicyVerdict := fun key => (c.policies.lookup key).map (·.verdict)

def byID (c : Contents) : Table IdentityID Identity := fun id => c.identities.lookup id

/-- Every rule and identity is stored under its own key. -/
structure Keyed (c : Contents) : Prop where
  rule : ∀ key rule, c.policies.lookup key = some rule → rule.key = key
  identity : ∀ id identity, c.identities.lookup id = some identity → identity.id = id

theorem rules_commit (c : Contents) (mutation : Mutation) :
    (c.commit mutation).rules = Table.writes c.rules mutation.ruleWrite.toList := by
  funext key
  cases mutation with
  | putIdentity | deleteIdentity => rfl
  | putPolicy rule =>
    simp only [rules, commit, Keyspace.lookup_insert_eq, Mutation.ruleWrite, Option.toList, Table.writes_cons, Table.writes_nil,
      Table.write_apply]
    split <;> rfl
  | deletePolicy other =>
    simp only [rules, commit, Keyspace.lookup_erase_eq, Mutation.ruleWrite, Option.toList, Table.writes_cons, Table.writes_nil,
      Table.write_apply]
    split <;> rfl

theorem byID_commit (c : Contents) (mutation : Mutation) :
    (c.commit mutation).byID = Table.writes c.byID mutation.identityWrite.toList := by
  funext id
  cases mutation with
  | putPolicy | deletePolicy => rfl
  | putIdentity identity => simp [byID, commit, Keyspace.lookup_insert_eq, Mutation.identityWrite, Table.write_apply]
  | deleteIdentity other => simp [byID, commit, Keyspace.lookup_erase_eq, Mutation.identityWrite, Table.write_apply]

theorem Keyed.commit {c : Contents} (h : Keyed c) (mutation : Mutation) : Keyed (c.commit mutation) := by
  cases mutation with
  | putIdentity identity =>
    refine ⟨h.rule, fun id i hi => ?_⟩
    simp only [Contents.commit, Keyspace.lookup_insert_eq] at hi
    split at hi
    · cases hi
      assumption
    · exact h.identity id i hi
  | deleteIdentity other =>
    refine ⟨h.rule, fun id i hi => ?_⟩
    simp only [Contents.commit, Keyspace.lookup_erase_eq] at hi
    split at hi
    · cases hi
    · exact h.identity id i hi
  | putPolicy rule =>
    refine ⟨fun key r hr => ?_, h.identity⟩
    simp only [Contents.commit, Keyspace.lookup_insert_eq] at hr
    split at hr
    · cases hr
      assumption
    · exact h.rule key r hr
  | deletePolicy other =>
    refine ⟨fun key r hr => ?_, h.identity⟩
    simp only [Contents.commit, Keyspace.lookup_erase_eq] at hr
    split at hr
    · cases hr
    · exact h.rule key r hr

theorem mem_listPolicies {c : Contents} (h : Keyed c) {rule : PolicyRule} :
    rule ∈ c.listPolicies ↔ c.policies.lookup rule.key = some rule := by
  rw [listPolicies, KeyValues.mem_values_iff]
  constructor
  · rintro ⟨key, hkey⟩
    rwa [h.rule key rule hkey]
  · exact fun hrule => ⟨rule.key, hrule⟩

theorem mem_listIdentities {c : Contents} (h : Keyed c) {identity : Identity} :
    identity ∈ c.listIdentities ↔ c.byID identity.id = some identity := by
  rw [listIdentities, KeyValues.mem_values_iff]
  constructor
  · rintro ⟨id, hid⟩
    rw [byID, h.identity id identity hid, hid]
  · exact fun hid => ⟨identity.id, hid⟩

end Contents

/-- Only a mutation changes the contents. -/
theorem Memory.step_contents (m : Memory) {e : Memory.Event} (he : ∀ mutation, e ≠ .mutate mutation) :
    (m.step e).contents = m.contents := by
  rcases step_moves m e with heq | hmoves
  · rw [heq]
  · generalize m.step e = m' at hmoves
    cases hmoves with
    | mutate mutation => exact absurd rfl (he mutation)
    | _ => rfl

end Meridian.Store

namespace Meridian.K8s
open Lib Wire Meridian.Store

/-! ### The calls of an event -/

theorem putRules_eq_writes (rules : List PolicyRule) (i : Nat) (store : Table PolicyRuleKey PolicyVerdict) :
    (putRules (fun _ => false) rules i store).1 =
      Table.writes store ((rules.map Mutation.putPolicy).filterMap Mutation.ruleWrite) := by
  induction rules generalizing i store with
  | nil => rfl
  | cons rule rest ih =>
    rw [putRules, if_neg (by simp)]
    exact ih (i + 1) _

theorem deleteKeys_eq_writes (keys : List PolicyRuleKey) (i : Nat) (store : Table PolicyRuleKey PolicyVerdict) :
    deleteKeys (fun _ => false) keys i store =
      Table.writes store ((keys.map Mutation.deletePolicy).filterMap Mutation.ruleWrite) := by
  induction keys generalizing i store with
  | nil => rfl
  | cons key rest ih =>
    rw [deleteKeys, if_neg (by simp)]
    exact ih (i + 1) _

/-- Without failures the calls make the watcher's store. -/
theorem PolicyWatcher.store_handle (w : PolicyWatcher) (e : InformerEvent) :
    (w.handle .none e).store = Table.writes w.store ((w.calls e).filterMap Mutation.ruleWrite) := by
  cases e with
  | upsert obj resolver =>
    simp only [handle, calls]
    cases hpol : policyFromObject obj with
    | none => simp [onUpsert, hpol]
    | some pol =>
      cases hrules : compilePolicyRules pol resolver with
      | error err => simp [onUpsert, hpol, hrules]
      | ok rules =>
        rw [onUpsert_eq hpol hrules]
        simp only [hrules, List.filterMap_append, Table.writes_append, Failures.none]
        rw [deleteKeys_eq_writes, putRules_eq_writes]
  | delete obj resolver =>
    simp only [handle, calls]
    cases hpol : policyFromObject obj with
    | none => simp [onDelete, deletes, hpol]
    | some pol =>
      rw [onDelete_eq hpol]
      exact deleteKeys_eq_writes _ 0 w.store

theorem Cluster.store_step (s : Cluster) (e : PodEvent) :
    (s.step e).watcher.store = Table.writes s.watcher.store ((s.watcher.calls e).filterMap Mutation.identityWrite) := by
  cases e with
  | upsert pod =>
    simp only [step, Watcher.onPodAdd, Watcher.calls]
    cases hmeshed : pod.meshed with
    | none => rfl
    | some spiffeID =>
      cases halloc : s.watcher.registry.allocate pod.name with
      | none => rfl
      | some p => rfl
  | delete pod tombstone =>
    cases tombstone with
    | true => rfl
    | false =>
      simp only [step, Watcher.onPodDelete, Watcher.calls, Bool.false_eq_true, if_false]
      cases hid : s.watcher.registry.lookupByName pod.name <;> rfl

/-- The rules of a policy allow, or they deny. -/
theorem action_of_compilePolicyRules {pol : MeridianPolicy} {resolver : IdentityResolver} {rules : List PolicyRule}
    (h : compilePolicyRules pol resolver = .ok rules) {rule : PolicyRule} (hrule : rule ∈ rules) :
    rule.verdict.action = policyActionAllow ∨ rule.verdict.action = policyActionDeny := by
  obtain ⟨srcIDs, dstIDs, protocols, verdict, -, -, -, -, hverdict, -, rfl⟩ :=
    compileSpec_eq_ok.mp (compilePolicyRules_eq_ok.mp h)
  obtain ⟨_, -, _, -, _, -, _, -, rfl⟩ := mem_expand.mp hrule
  unfold verdictForAction at hverdict
  split at hverdict
  · cases hverdict
    exact .inl rfl
  · split at hverdict
    · cases hverdict
      exact .inr rfl
    · cases hverdict

/-- Every rule of a live object allows or denies. -/
def Mirror.Decided (s : Mirror) : Prop :=
  ∀ obj rule, s.Owns obj rule → rule.verdict.action = policyActionAllow ∨ rule.verdict.action = policyActionDeny

theorem Mirror.Decided.step {s : Mirror} (h : s.Decided) (e : InformerEvent) : (s.step e).Decided := by
  intro obj rule howns
  cases e with
  | upsert o resolver =>
    cases hpol : policyFromObject o with
    | none => exact h obj rule (by simpa only [Owns, Mirror.step, liveAfter, hpol] using howns)
    | some pol =>
      cases hrules : compilePolicyRules pol resolver with
      | error err => exact h obj rule (by simpa only [Owns, Mirror.step, liveAfter, hpol, hrules] using howns)
      | ok rules =>
        rcases (owns_upsert hpol hrules obj rule).mp howns with ⟨-, hrule⟩ | ⟨-, howns⟩
        · exact action_of_compilePolicyRules hrules hrule
        · exact h obj rule howns
  | delete o resolver =>
    cases hpol : policyFromObject o with
    | none => exact h obj rule (by simpa only [Owns, Mirror.step, liveAfter, hpol] using howns)
    | some pol => exact h obj rule ((owns_delete hpol obj rule).mp howns).2

theorem PolicyWatcher.identityWrite_calls (w : PolicyWatcher) (e : InformerEvent) :
    ∀ call ∈ w.calls e, call.identityWrite = none := by
  cases e with
  | upsert obj resolver =>
    simp only [calls]
    split
    · exact nofun
    split
    · exact nofun
    · refine List.forall_mem_append.mpr ⟨?_, ?_⟩ <;> simp [Mutation.identityWrite]
  | delete obj resolver => simp [calls, Mutation.identityWrite]

theorem Watcher.ruleWrite_calls (w : Watcher) (e : PodEvent) : ∀ call ∈ w.calls e, call.ruleWrite = none := by
  cases e with
  | upsert pod =>
    simp only [calls]
    split
    · exact nofun
    split
    · exact nofun
    · simp [Mutation.ruleWrite]
  | delete pod tombstone =>
    simp only [calls]
    split
    · exact nofun
    split
    · exact nofun
    · simp [Mutation.ruleWrite]

end Meridian.K8s

namespace Meridian.Ads
open Lib Wire Cc2 Xds Datapath Bpf Compiler K8s Meridian.Store

namespace ControlPlane

/-- A policy event deletes no key of a rule of another live object; the other steps write nothing to the store, and bring
    the agent clean updates only. -/
def Clean (c : ControlPlane) : Event → Prop
  | .policy e => c.policyCalls = [] → c.policies.LeavesOthers e
  | .mesh e => (∀ mutation, e ≠ .control (.store (.mutate mutation))) ∧ c.mesh.CleanEvent e
  | _ => True

/-! ### The store -/

def contents (c : ControlPlane) : Contents := c.mesh.control.memory.contents

end ControlPlane

theorem System.step_contents (s : System) {e : System.Event} (he : ∀ mutation, e ≠ .store (.mutate mutation)) :
    (s.step e).memory.contents = s.memory.contents := by
  unfold System.step
  split
  · rfl
  cases e with
  | store e =>
    have he : ∀ mutation, e ≠ .mutate mutation := fun mutation h => he mutation (congrArg _ h)
    simp only [System.store]
    split
    · split
      · rfl
      · exact s.memory.step_contents he
    · exact s.memory.step_contents he
  | connect =>
    simp only [System.connect]
    split
    · simp only [Memory.watch]
      split <;> rfl
    · rfl
  | request req =>
    simp only [System.request]
    split
    · rfl
    · split <;> rfl
  | wake =>
    simp only [System.wake]
    split
    · rfl
    · split
      · split <;> rfl
      · rfl
  | read policies identities =>
    simp only [System.read]
    split
    · rfl
    · split
      · rfl
      · split
        · rfl
        · split
          · rfl
          · split <;> rfl
      · rfl
  | send fails =>
    simp only [System.send]
    split
    · rfl
    · split
      · split <;> rfl
      · rfl
  | done =>
    simp only [System.done]
    split
    · rfl
    · split
      · split <;> rfl
      · rfl
      · rfl
  | recvError =>
    simp only [System.recvError]
    split
    · rfl
    · split <;> rfl

namespace Mesh

theorem goOn_contents (m : Mesh) (a : Agent) (sent : List DiscoveryRequest) :
    (m.goOn a sent).control.memory.contents = m.control.memory.contents := by
  unfold Mesh.goOn
  split <;> rfl

theorem step_contents (m : Mesh) {e : Event} (he : ∀ mutation, e ≠ .control (.store (.mutate mutation))) :
    (m.step e).control.memory.contents = m.control.memory.contents := by
  cases e with
  | control e =>
    have he : ∀ mutation, e ≠ .store (.mutate mutation) := fun mutation h => he mutation (congrArg _ h)
    simp only [Mesh.step, Mesh.controlStep]
    split
    · rfl
    · rfl
    · exact m.control.step_contents he
  | accept =>
    simp only [Mesh.step, Mesh.accept]
    split
    · exact m.control.step_contents fun _ h => by cases h
    · rfl
  | request =>
    simp only [Mesh.step, Mesh.request]
    split
    · exact m.control.step_contents fun _ h => by cases h
    · rfl
  | subscribe fails draw =>
    simp only [Mesh.step, Mesh.subscribe]
    split
    · exact goOn_contents m _ _
    · exact goOn_contents m _ _
    · rfl
  | recv fails sendFails draw =>
    simp only [Mesh.step, Mesh.recv]
    split
    · exact goOn_contents _ _ _
    · rfl
  | dial | recvError | timer | cancel => exact goOn_contents m _ _

theorem step_mutate (m : Mesh) (mutation : Mutation)
    (h : (m.control.memory.panicked || !m.control.memory.unlocked) = false) :
    (m.step (.control (.store (.mutate mutation)))).control.memory.contents =
      m.control.memory.contents.commit mutation := by
  simp only [Bool.or_eq_false_iff, Bool.not_eq_false'] at h
  simp [Mesh.step, Mesh.controlStep, System.step, System.store, Memory.step, Memory.mutate, h.1, h.2]

end Mesh

namespace ControlPlane

variable {c : ControlPlane}

/-- The calls that are left make the informers' tables of the contents. -/
structure InStep (c : ControlPlane) : Prop where
  linked : c.mesh.Linked
  sync : InSync c.mesh.agent.client
  keyed : c.contents.Keyed
  mirror : c.policies.InStep
  decided : c.policies.Decided
  rules : Table.writes c.contents.rules (c.policyCalls.filterMap Mutation.ruleWrite) = c.policies.watcher.store
  identities : Table.writes c.contents.byID (c.podCalls.filterMap Mutation.identityWrite) = c.pods.watcher.store
  policyCalls : ∀ mutation ∈ c.policyCalls, mutation.identityWrite = none
  podCalls : ∀ mutation ∈ c.podCalls, mutation.ruleWrite = none

theorem InStep.start : InStep start where
  linked := .start _
  sync := inSync_start
  keyed := ⟨fun _ _ h => (by cases h), fun _ _ h => (by cases h)⟩
  mirror := .start
  decided := by
    rintro obj rule ⟨rules, hlive, -⟩
    cases hlive
  rules := rfl
  identities := rfl
  policyCalls _ h := by cases h
  podCalls _ h := by cases h

/-- A call is the next one of its informer, and is committed; or it waits. -/
theorem call_cases (m : Mesh) (calls : List Mutation) : call m calls = (m, calls) ∨
    ∃ mutation rest, calls = mutation :: rest ∧ call m calls = (m.step (.control (.store (.mutate mutation))), rest) ∧
      (m.step (.control (.store (.mutate mutation)))).control.memory.contents =
        m.control.memory.contents.commit mutation := by
  cases calls with
  | nil => exact .inl rfl
  | cons mutation rest =>
    simp only [call]
    split
    · exact .inl rfl
    · rename_i hfree
      exact .inr ⟨mutation, rest, rfl, rfl, m.step_mutate mutation (Bool.not_eq_true _ ▸ hfree)⟩

/-- A call is committed, and one informer has it no longer before it. -/
theorem InStep.commit (h : InStep c) {mutation : Mutation} {policyCalls podCalls : List Mutation}
    (hcommit : (c.mesh.step (.control (.store (.mutate mutation)))).control.memory.contents = c.contents.commit mutation)
    (hrules : c.policyCalls.filterMap Mutation.ruleWrite =
      mutation.ruleWrite.toList ++ policyCalls.filterMap Mutation.ruleWrite)
    (hidentities : c.podCalls.filterMap Mutation.identityWrite =
      mutation.identityWrite.toList ++ podCalls.filterMap Mutation.identityWrite)
    (hpolicy : policyCalls ⊆ c.policyCalls) (hpod : podCalls ⊆ c.podCalls) :
    InStep ⟨c.mesh.step (.control (.store (.mutate mutation))), c.policies, policyCalls, c.pods, podCalls⟩ where
  linked := h.linked.step (.control (.store (.mutate mutation)))
  sync := Mesh.inSync_step c.mesh (.control (.store (.mutate mutation))) h.sync trivial
  keyed := by
    rw [contents, hcommit]
    exact h.keyed.commit mutation
  mirror := h.mirror
  decided := h.decided
  rules := by
    rw [contents, hcommit, Contents.rules_commit, ← Table.writes_append, ← hrules]
    exact h.rules
  identities := by
    rw [contents, hcommit, Contents.byID_commit, ← Table.writes_append, ← hidentities]
    exact h.identities
  policyCalls m hm := h.policyCalls m (hpolicy hm)
  podCalls m hm := h.podCalls m (hpod hm)

theorem InStep.policyCall (h : InStep c) : InStep (c.step .policyCall) := by
  simp only [ControlPlane.step]
  rcases call_cases c.mesh c.policyCalls with heq | ⟨mutation, rest, hcalls, heq, hcommit⟩
  · rw [heq]
    exact h
  · have hnone : mutation.identityWrite = none := h.policyCalls mutation (by simp [hcalls])
    rw [heq]
    exact h.commit hcommit (by rw [hcalls, filterMap_cons_toList]) (by rw [hnone]; rfl) (by simp [hcalls])
      (List.Subset.refl _)

theorem InStep.podCall (h : InStep c) : InStep (c.step .podCall) := by
  simp only [ControlPlane.step]
  rcases call_cases c.mesh c.podCalls with heq | ⟨mutation, rest, hcalls, heq, hcommit⟩
  · rw [heq]
    exact h
  · have hnone : mutation.ruleWrite = none := h.podCalls mutation (by simp [hcalls])
    rw [heq]
    exact h.commit hcommit (by rw [hnone]; rfl) (by rw [hcalls, filterMap_cons_toList]) (List.Subset.refl _)
      (by simp [hcalls])

theorem InStep.step (h : InStep c) (e : Event) (hclean : c.Clean e) : InStep (c.step e) := by
  cases e with
  | policy e =>
    simp only [ControlPlane.step]
    split
    · rename_i hcalls
      have hrules := h.rules
      rw [hcalls] at hrules
      refine { h with mirror := h.mirror.step (hclean hcalls), decided := h.decided.step e, rules := ?_,
                      policyCalls := c.policies.watcher.identityWrite_calls e }
      exact (congrArg (Table.writes · _) hrules).trans (c.policies.watcher.store_handle e).symm
    · exact h
  | pod e =>
    simp only [ControlPlane.step]
    split
    · rename_i hcalls
      have hidentities := h.identities
      rw [hcalls] at hidentities
      refine { h with identities := ?_, podCalls := c.pods.watcher.ruleWrite_calls e }
      exact (congrArg (Table.writes · _) hidentities).trans (c.pods.store_step e).symm
    · exact h
  | policyCall => exact h.policyCall
  | podCall => exact h.podCall
  | mesh e =>
    have hcontents : (c.step (.mesh e)).contents = c.contents := c.mesh.step_contents hclean.1
    refine ⟨h.linked.step e, Mesh.inSync_step c.mesh e h.sync hclean.2, ?_, h.mirror, h.decided, ?_, ?_, h.policyCalls,
      h.podCalls⟩ <;> rw [hcontents]
    · exact h.keyed
    · exact h.rules
    · exact h.identities

/-! ### What the cluster says -/

/-- The pod informer has an identity at the address. -/
def At (c : ControlPlane) (addr : UInt32) (id : IdentityID) : Prop :=
  ∃ identity, c.pods.watcher.store id = some identity ∧ identityIPv4NetworkKey identity = .ok addr

/-- A live policy has a rule with the key and the action. -/
def Says (c : ControlPlane) (key : PolicyRuleKey) (action : PolicyAction) : Prop :=
  ∃ obj rule, c.policies.Owns obj rule ∧ rule.key = key ∧ rule.verdict.action = action

/-- The informers are through, the agent's stream is at rest, and its node's kernel has the agent's maps. -/
structure Settled (c : ControlPlane) (h : Handler) (w : Nat) (maps : Maps) : Prop where
  mesh : c.mesh.Settled h w
  accepted : c.mesh.Accepted
  policyCalls : c.policyCalls = []
  podCalls : c.podCalls = []
  identityMap : maps.identityMap = c.mesh.agent.client.writer.identityMap
  policyMap : maps.policyMap = c.mesh.agent.client.writer.policyMap

section
variable {h : Handler} {w : Nat} {maps : Maps}

section
variable (hc : InStep c) (hset : c.Settled h w maps)
include hc hset

theorem InStep.identityMap (addr : UInt32) (id : UInt32) : maps.identityMap addr = some id ↔ c.At addr id := by
  have hholds := holdsIdentities_perm (hc.linked.identities_of_settled hset.mesh hset.accepted) hc.sync.identities
  have hbyID := hc.identities
  rw [hset.podCalls] at hbyID
  rw [hset.identityMap, hholds addr id]
  constructor
  · rintro ⟨identity, hmem, hkey, rfl⟩
    refine ⟨identity, ?_, hkey⟩
    rw [← hbyID]
    exact (Contents.mem_listIdentities hc.keyed).mp hmem
  · rintro ⟨identity, hstore, hkey⟩
    rw [← hbyID] at hstore
    have hid : identity.id = id := hc.keyed.identity id identity hstore
    refine ⟨identity, (Contents.mem_listIdentities hc.keyed).mpr ?_, hkey, hid⟩
    rw [hid]
    exact hstore

theorem InStep.policyMap (key : PolicyRuleKey) :
    maps.policyMap (translatePolicyRuleKey key) = (c.policies.watcher.store key).map translatePolicyVerdict := by
  have hholds := holdsRules_perm (hc.linked.policies_of_settled hset.mesh hset.accepted) hc.sync.rules
  have hrules := hc.rules
  rw [hset.policyCalls] at hrules
  rw [hset.policyMap, ← hrules]
  refine Option.ext fun v => ?_
  rw [hholds]
  simp only [List.filterMap_nil, Table.writes_nil, Contents.rules, Option.map_map, Option.map_eq_some_iff, Function.comp]
  constructor
  · rintro ⟨rule, hmem, hkey, hv⟩
    obtain rfl := translatePolicyRuleKey_injective hkey
    exact ⟨rule, (Contents.mem_listPolicies hc.keyed).mp hmem, hv⟩
  · rintro ⟨rule, hlookup, hv⟩
    have hkey := hc.keyed.rule key rule hlookup
    exact ⟨rule, (Contents.mem_listPolicies hc.keyed).mpr (hkey.symm ▸ hlookup), congrArg _ hkey, hv⟩

/-- An entry of the policy map is what a live policy says, and a key of a live policy has one. -/
theorem InStep.entry (key : PolicyRuleKey) :
    (maps.policyMap (translatePolicyRuleKey key) = none ∧ ∀ action, ¬c.Says key action) ∨
      ∃ v, maps.policyMap (translatePolicyRuleKey key) = some v ∧
        (v.action = policyActionAllow ∨ v.action = policyActionDeny) ∧ c.Says key v.action := by
  rw [hc.policyMap hset]
  cases hstore : c.policies.watcher.store key with
  | none =>
    refine .inl ⟨rfl, ?_⟩
    rintro action ⟨obj, rule, howns, rfl, -⟩
    have hsome := hc.mirror.stored obj rule howns
    rw [hstore] at hsome
    cases hsome
  | some verdict =>
    obtain ⟨obj, howns⟩ := hc.mirror.owned key verdict hstore
    exact .inr ⟨translatePolicyVerdict verdict, rfl, hc.decided obj _ howns, obj, _, howns, rfl, rfl⟩

/-- The kernel's decision on a key of known identities. -/
theorem InStep.enforced (key : PolicyRuleKey) (hsrc : key.srcIdentity ≠ identityUnknown)
    (hdst : key.dstIdentity ≠ identityUnknown) :
    enforceRedirects maps key.srcIdentity key.dstIdentity (translatePolicyRuleKey key) = false ∧
      ((enforceAction maps key.srcIdentity key.dstIdentity (translatePolicyRuleKey key) .shot = .ok ∧
          c.Says key policyActionAllow) ∨
        enforceAction maps key.srcIdentity key.dstIdentity (translatePolicyRuleKey key) .shot = .shot ∧
          (c.Says key policyActionAllow → c.Says key policyActionDeny)) := by
  rcases hc.entry hset key with ⟨hnone, hsilent⟩ | ⟨v, hentry, hv | hv, hsays⟩
  · obtain ⟨haction, hredirects⟩ := enforce_missing hsrc hdst hnone .shot
    exact ⟨hredirects, .inr ⟨haction, fun hallow => absurd hallow (hsilent _)⟩⟩
  · obtain ⟨haction, hredirects⟩ := enforce_entry hsrc hdst hentry .shot
    rw [hv] at haction hredirects hsays
    exact ⟨hredirects, .inl ⟨haction, hsays⟩⟩
  · obtain ⟨haction, hredirects⟩ := enforce_entry hsrc hdst hentry .shot
    rw [hv] at haction hredirects hsays
    exact ⟨hredirects, .inr ⟨haction, fun _ => hsays⟩⟩

end

end

end ControlPlane

def clusterPod (name podIP : String) : Pod :=
  ⟨"demo", name, fun _ => none, Table.put (fun _ => none) spiffeIDAnnotation ("spiffe://td/" ++ name), podIP⟩

/-- A call with no stream to notify. -/
def called (call : ControlPlane.Event) : List ControlPlane.Event :=
  [call, .mesh (.control (.store (.notifyLock 0 []))), .mesh (.control (.store (.notifyUnlock 0)))]

def twoPods : List ControlPlane.Event :=
  [.pod (.upsert (clusterPod "client" "10.0.0.1"))] ++ called .podCall ++
    [.pod (.upsert (clusterPod "server" "10.0.0.2"))] ++ called .podCall

end Meridian.Ads
