import Meridian.Agent.Startup
import Meridian.Theorems.Convergence

/-! A restart over pinned maps. Neither the seed nor a new client's first pushes delete anything: the seed is
    planned from an empty snapshot and so is the first push on each channel. What an earlier process left stays
    wherever they write nothing. -/

namespace Meridian.Supervisor
open Lib Wire Datapath Config Xds Cc2

/-! ### Applies without deletions -/

/-- The identities and rules of `identities` and `policies` written over the maps of `w`. -/
structure WrittenOver (w w' : Writer) (identities : List Identity) (policies : List PolicyRule) : Prop where
  identityMap : Overlay w.identityMap w'.identityMap (fun i key => identityIPv4NetworkKey i = .ok key) (·.id) identities
  policyMap : Overlay w.policyMap w'.policyMap (fun r key => translatePolicyRuleKey r.key = key)
    (fun r => translatePolicyVerdict r.verdict) policies

variable {identities : List Identity} {policies : List PolicyRule} {seed : PolicySnapshot} {deps : StartupDeps}

theorem podWrites_of_valid (hvalid : ∀ i ∈ identities, ValidAddress i) :
    identities.filterMap podWrite = identities.map fun i => (podKey i, some i.id) := by
  rw [← List.filterMap_eq_map]
  refine List.filterMap_congr fun i hi => ?_
  exact podWrite_eq_some_iff.mpr ⟨(hvalid i hi).key_eq, rfl⟩

theorem apply_writtenOver {fails : Nat → Bool} {plan : CommitPlan} {w w' : Writer} (h : apply fails plan w = (none, w'))
    (hids : plan.identityDeletes = []) (hkeys : plan.policyDeletes = []) :
    WrittenOver w w' plan.identityUpserts plan.policyUpserts := by
  have hvalid := valid_of_apply_ok (congrArg Prod.fst h)
  obtain ⟨hidentity, hpolicy⟩ := apply_maps_of_ok (congrArg Prod.fst h)
  rw [h] at hidentity hpolicy
  constructor
  · have hlog : identityLog w plan = plan.identityUpserts.map fun i => (podKey i, some i.id) := by
      rw [identityLog, hids, podWrites_of_valid hvalid]
      exact List.append_nil _
    have hover := overlay_writes w.identityMap podKey (·.id) plan.identityUpserts
    rw [← hlog, ← hidentity] at hover
    have hat : ∀ i ∈ plan.identityUpserts, ∀ key, identityIPv4NetworkKey i = .ok key ↔ podKey i = key := by
      intro i hi key
      rw [(hvalid i hi).key_eq, Except.ok.injEq]
    exact hover.congr hat
  · have hlog : policyLog plan = plan.policyUpserts.map fun r =>
        (translatePolicyRuleKey r.key, some (translatePolicyVerdict r.verdict)) := by
      rw [policyLog, hkeys]
      exact List.append_nil _
    have hover := overlay_writes w.policyMap (fun r : PolicyRule => translatePolicyRuleKey r.key)
      (fun r => translatePolicyVerdict r.verdict) plan.policyUpserts
    rwa [← hlog, ← hpolicy] at hover

theorem WrittenOver.trans {w w₁ w₂ : Writer} (h₁ : WrittenOver w w₁ [] policies) (h₂ : WrittenOver w₁ w₂ identities []) :
    WrittenOver w w₂ identities policies where
  identityMap := h₁.identityMap.eq_of_nil ▸ h₂.identityMap
  policyMap := h₂.policyMap.eq_of_nil ▸ h₁.policyMap

theorem WrittenOver.trans' {w w₁ w₂ : Writer} (h₁ : WrittenOver w w₁ identities []) (h₂ : WrittenOver w₁ w₂ [] policies) :
    WrittenOver w w₂ identities policies where
  identityMap := h₂.identityMap.eq_of_nil ▸ h₁.identityMap
  policyMap := h₁.policyMap.eq_of_nil ▸ h₂.policyMap

/-! ### The seed -/

theorem mem_planUpserts {K V : Type} [DecidableEq K] [DecidableEq V] {keys : List K} {current desired : Table K V}
    {e : K × V} : e ∈ planUpserts keys current desired ↔
      e.1 ∈ keys ∧ desired e.1 = some e.2 ∧ current e.1 ≠ some e.2 := by
  obtain ⟨k, v⟩ := e
  simp only [planUpserts, List.mem_filterMap, Option.bind_eq_some_iff]
  constructor
  · rintro ⟨k', hk', want, hwant, hsome⟩
    split at hsome
    · cases hsome
    · rename_i hdiffer
      cases hsome
      exact ⟨hk', hwant, hdiffer⟩
  · rintro ⟨hk, hwant, hdiffer⟩
    exact ⟨k, hk, v, hwant, if_neg hdiffer⟩

theorem mem_sortedKeys {K : Type} [DecidableEq K] {le : K → K → Bool} {keys : List K} {k : K} :
    k ∈ sortedKeys le keys ↔ k ∈ keys := by
  rw [sortedKeys, List.mem_insertionSort, List.mem_dedup]

theorem mem_seed_identities (hids : (seed.identities.map (·.id)).Nodup) {i : Identity} :
    i ∈ (buildCommitPlan ⟨"", [], []⟩ seed).identityUpserts ↔ i ∈ seed.identities := by
  simp only [buildCommitPlan, List.mem_map, mem_planUpserts, identityKeys, mem_sortedKeys, identitiesByID]
  constructor
  · rintro ⟨⟨k, i'⟩, ⟨-, hsome, -⟩, rfl⟩
    exact ((byKey_eq_some_iff hids).mp hsome).1
  · intro hi
    exact ⟨(i.id, i), ⟨⟨i, hi, rfl⟩, (byKey_eq_some_iff hids).mpr ⟨hi, rfl⟩, by simp [byKey]⟩, rfl⟩

theorem mem_seed_policies {r : PolicyRule} :
    r ∈ (buildCommitPlan ⟨"", [], []⟩ seed).policyUpserts ↔ verdictsByKey seed.policies r.key = some r.verdict := by
  simp only [buildCommitPlan, List.mem_map, mem_planUpserts, policyKeys, mem_sortedKeys]
  constructor
  · rintro ⟨⟨k, v⟩, ⟨-, hsome, -⟩, rfl⟩
    exact hsome
  · intro hsome
    obtain ⟨p, hp, hkey, -⟩ := Table.exists_of_writes_puts hsome
    exact ⟨(r.key, r.verdict), ⟨⟨p, hp, hkey⟩, hsome, by simp [verdictsByKey]⟩, rfl⟩

/-- A key that some rule has is in the map, with the verdict of one of its rules. -/
theorem verdictsByKey_of_mem {r : PolicyRule} (hr : r ∈ policies) :
    ∃ v, verdictsByKey policies r.key = some v ∧ (⟨r.key, v⟩ : PolicyRule) ∈ policies := by
  obtain ⟨p, hp, hkey, hsome⟩ :=
    (overlay_writes (fun _ => none) (fun p : PolicyRule => p.key) (·.verdict) policies).written r hr r.key rfl
  exact ⟨p.verdict, hsome, hkey ▸ hp⟩

theorem loadIdentities_nodup {loaded : List Identity} (h : rangeLoop loadIdentity identities 0 [] = .ok loaded) :
    (loaded.map (·.id)).Nodup := by
  refine rangeLoop_inv (I := fun _ acc => (acc.map (·.id)).Nodup) ?_ [] List.nodup_nil h
  intro _ i _ acc acc' hacc hstep
  unfold loadIdentity at hstep
  split_ifs at hstep with hzero hempty hdup
  cases hstep
  rw [List.map_append, List.nodup_append_comm, List.map_singleton, List.singleton_append, List.nodup_cons]
  exact ⟨hdup, hacc⟩

theorem loadSnapshot_nodup {path : String} (h : deps.loadSnapshot path = .ok seed) : (seed.identities.map (·.id)).Nodup := by
  unfold StartupDeps.loadSnapshot at h
  split at h
  · cases h
    exact List.nodup_nil
  · split at h
    · cases h
    · unfold loadPolicySnapshot at h
      split at h
      · cases h
      · rename_i identities hids
        split at h
        · cases h
        · cases h
          exact loadIdentities_nodup hids

/-! ### Startup -/

theorem startup_ok {pins : PinnedMaps} {r : StartupRunner} {runtime : StartupRuntime} (hfresh : r.runtime = none)
    (h : (startup deps pins r).result = .ok runtime) : ∃ seed, deps.loadSnapshot r.opts.policyFile = .ok seed ∧
      apply deps.applyFails (buildCommitPlan r.currentSnapshot seed) (Writer.new pins.identityMap pins.policyMap) =
        (none, runtime.writer) := by
  have hseed : (seedAndAttach deps pins r).result = .ok runtime := by
    unfold startup at h
    rw [hfresh] at h
    dsimp only at h
    split at h
    · cases h
    · split_ifs at h
      exact h
  unfold seedAndAttach at hseed
  split at hseed
  · cases hseed
  rename_i seed hload
  dsimp only at hseed
  split at hseed
  · cases hseed
  split at hseed
  · cases hseed
  rename_i writer happly
  -- Attaching or not, the runtime has the writer that applied the seed.
  have hwriter : writer = runtime.writer := by
    split at hseed
    · exact congrArg StartupRuntime.writer (Except.ok.inj hseed)
    · split at hseed
      · cases hseed
      · exact congrArg StartupRuntime.writer (Except.ok.inj hseed)
  exact ⟨seed, hload, hwriter ▸ happly⟩

theorem startup_writtenOver {opts : StartupOptions} {pins : PinnedMaps} {runtime : StartupRuntime}
    (h : (startup deps pins (newStartupRunner opts)).result = .ok runtime) :
    ∃ seed, deps.loadSnapshot opts.policyFile = .ok seed ∧
      WrittenOver (Writer.new pins.identityMap pins.policyMap) runtime.writer seed.identities seed.policies := by
  obtain ⟨seed, hload, happly⟩ := startup_ok rfl h
  have hids : (buildCommitPlan ⟨"", [], []⟩ seed).identityDeletes = [] := by
    simp [buildCommitPlan, planDeletes, identityKeys, sortedKeys]
  have hkeys : (buildCommitPlan ⟨"", [], []⟩ seed).policyDeletes = [] := by
    simp [buildCommitPlan, planDeletes, policyKeys, sortedKeys]
  have hover := apply_writtenOver happly hids hkeys
  have hmem : ∀ {i}, i ∈ (buildCommitPlan ⟨"", [], []⟩ seed).identityUpserts ↔ i ∈ seed.identities :=
    mem_seed_identities (loadSnapshot_nodup hload)
  refine ⟨seed, hload, ?_, ?_⟩
  · exact hover.identityMap.of_subset (fun _ hi => hmem.mp hi) fun i hi _ hkey => ⟨i, hmem.mpr hi, hkey⟩
  · refine hover.policyMap.of_subset (fun r hr => ?_) fun r hr _ hkey => ?_
    · obtain ⟨⟨key, verdict⟩, hp, rfl, rfl⟩ := Table.exists_of_writes_puts (mem_seed_policies.mp hr)
      exact hp
    · obtain ⟨v, hsome, -⟩ := verdictsByKey_of_mem hr
      exact ⟨⟨r.key, v⟩, mem_seed_policies.mpr hsome, hkey⟩

/-! ### The first pushes -/

theorem handle_acked {c : Client} {push : Push}
    (h : (c.handle push.fails push.sendFails push.resp).request.errorDetail = none) :
    ∃ candidate w, c.candidateFor push.resp = .ok candidate ∧
      apply push.fails (diff c.applied candidate) c.writer = (none, w) ∧
      (c.handle push.fails push.sendFails push.resp).client =
        { c with writer := w }.commit push.resp.typeUrl push.resp.versionInfo candidate := by
  rcases handle_cases push.fails push.sendFails c push.resp with ⟨e, -, hreq⟩ | ⟨candidate, e, w, -, -, -, hreq⟩ |
    ⟨candidate, w, hcand, happly, hclient, -⟩
  · rw [hreq] at h
    cases h
  · rw [hreq] at h
    cases h
  · exact ⟨candidate, w, hcand, happly, hclient⟩

section
variable {c : Client} {push : Push} (hacked : (c.handle push.fails push.sendFails push.resp).request.errorDetail = none)
include hacked

theorem first_cluster_push (hurl : push.resp.typeUrl = clusterType)
    (hdec : decodeResources decodePolicyRule .clusterResource push.resp.resources = .ok policies)
    (hids : (c.applied.identities.map (·.id)).Nodup) (hfirst : c.applied.policies = []) :
    WrittenOver c.writer (c.handle push.fails push.sendFails push.resp).client.writer [] policies ∧
      (c.handle push.fails push.sendFails push.resp).client.applied = ⟨policies, c.applied.identities⟩ := by
  obtain ⟨candidate, w, hcand, happly, hclient⟩ := handle_acked hacked
  have hne : clusterType ≠ endpointType := by decide
  obtain ⟨-, policies', hdec', rfl⟩ | ⟨hurl', -⟩ | ⟨hurl', -⟩ := candidateFor_eq_ok.mp hcand
  · obtain rfl := Except.ok.inj (hdec.symm.trans hdec')
    have hplan : diff c.applied { c.applied with policies } = ⟨[], [], policies, []⟩ := by
      simp [diff, hfirst, upserts_self hids, gone_self]
    rw [hplan] at happly
    rw [hclient]
    exact ⟨apply_writtenOver happly rfl rfl, rfl⟩
  · exact absurd (hurl.symm.trans hurl') hne
  · exact absurd hurl hurl'

theorem first_endpoint_push (hurl : push.resp.typeUrl = endpointType)
    (hdec : decodeResources decodeIdentity .endpointResource push.resp.resources = .ok identities)
    (hkeys : (c.applied.policies.map (·.key)).Nodup) (hfirst : c.applied.identities = []) :
    WrittenOver c.writer (c.handle push.fails push.sendFails push.resp).client.writer identities [] ∧
      (c.handle push.fails push.sendFails push.resp).client.applied = ⟨c.applied.policies, identities⟩ := by
  obtain ⟨candidate, w, hcand, happly, hclient⟩ := handle_acked hacked
  have hne : endpointType ≠ clusterType := by decide
  obtain ⟨hurl', -⟩ | ⟨-, identities', hdec', rfl⟩ | ⟨-, hurl', -⟩ := candidateFor_eq_ok.mp hcand
  · exact absurd (hurl.symm.trans hurl') hne
  · obtain rfl := Except.ok.inj (hdec.symm.trans hdec')
    have hplan : diff c.applied { c.applied with identities } = ⟨identities, [], [], []⟩ := by
      simp [diff, hfirst, upserts_self hkeys, gone_self]
    rw [hplan] at happly
    rw [hclient]
    exact ⟨apply_writtenOver happly rfl rfl, rfl⟩
  · exact absurd hurl hurl'

end

/-- After a restart and one accepted push on each channel, the maps hold what was pushed, over the seed, over
    what an earlier process left. -/
theorem restart_writes_over_pinned_maps {deps : StartupDeps} {opts : StartupOptions} {pins : PinnedMaps}
    {runtime : StartupRuntime} (hstart : (startup deps pins (newStartupRunner opts)).result = .ok runtime)
    {cluster endpoint : Push} {policies : List PolicyRule} {identities : List Identity}
    (hcluster : cluster.resp.typeUrl = clusterType)
    (hpolicies : decodeResources decodePolicyRule .clusterResource cluster.resp.resources = .ok policies)
    (hendpoint : endpoint.resp.typeUrl = endpointType)
    (hidentities : decodeResources decodeIdentity .endpointResource endpoint.resp.resources = .ok identities)
    (hkeys : (policies.map (·.key)).Nodup) (hdistinct : DistinctIdentities identities) {pushes : List Push}
    (horder : pushes = [cluster, endpoint] ∨ pushes = [endpoint, cluster])
    (hacked : ∀ e ∈ (execute Session.step ⟨Client.new runtime.writer, []⟩ pushes).log, e.2.errorDetail = none) :
    ∃ seed, deps.loadSnapshot opts.policyFile = .ok seed ∧
      WrittenOver (Writer.new pins.identityMap pins.policyMap) runtime.writer seed.identities seed.policies ∧
      WrittenOver runtime.writer (execute Session.step ⟨Client.new runtime.writer, []⟩ pushes).client.writer identities
        policies := by
  obtain ⟨seed, hload, hseed⟩ := startup_writtenOver hstart
  refine ⟨seed, hload, hseed, ?_⟩
  rcases horder with rfl | rfl
  · obtain ⟨hfirst, happlied⟩ := first_cluster_push (hacked _ (List.mem_cons_self ..)) hcluster hpolicies
      List.nodup_nil rfl
    obtain ⟨hsecond, -⟩ := first_endpoint_push (hacked _ (List.mem_cons_of_mem _ (List.mem_cons_self ..))) hendpoint
      hidentities (happlied ▸ hkeys) (congrArg Snapshot.identities happlied)
    exact hfirst.trans hsecond
  · obtain ⟨hfirst, happlied⟩ := first_endpoint_push (hacked _ (List.mem_cons_self ..)) hendpoint hidentities
      List.nodup_nil rfl
    obtain ⟨hsecond, -⟩ := first_cluster_push (hacked _ (List.mem_cons_of_mem _ (List.mem_cons_self ..))) hcluster
      hpolicies (happlied ▸ hdistinct.ids) (congrArg Snapshot.policies happlied)
    exact hfirst.trans' hsecond

/-- No part of the system fails, and there is no snapshot file. -/
def quietDeps : StartupDeps :=
  { openResources := .ok ⟨true, true, true⟩, readFile := fun _ => .error "no such file", newWriter := .ok ()
    applyFails := fun _ => false, ensureAttached := fun _ => .ok () }

def staleKey : Bpf.PolicyKey := ⟨9, 8, 22, 6, 0⟩

/-- Maps that an earlier process filled: the identity 9 at 10.0.0.9, and a rule for it. -/
def stalePins : PinnedMaps :=
  ⟨Table.put (fun _ => none) (podKey (pod 9 "10.0.0.9")) 9, Table.put (fun _ => none) staleKey ⟨policyActionAllow, 0⟩⟩

def restartedRuntime : StartupRuntime := ⟨Writer.new stalePins.identityMap stalePins.policyMap, "", false⟩

def restarted : Session := execute Session.step ⟨Client.new restartedRuntime.writer, []⟩ firstPushes

theorem restart_writes_over_pinned_maps_first :
    (startup quietDeps stalePins (newStartupRunner ⟨"", ""⟩)).result = .ok restartedRuntime ∧
      (∀ e ∈ restarted.log, e.2.errorDetail = none) ∧
      ∃ seed, quietDeps.loadSnapshot "" = .ok seed ∧
        WrittenOver (Writer.new stalePins.identityMap stalePins.policyMap) restartedRuntime.writer seed.identities
          seed.policies ∧
        WrittenOver restartedRuntime.writer restarted.client.writer [pod 7 "10.0.0.1"] [firstRule] :=
  have hstart : (startup quietDeps stalePins (newStartupRunner ⟨"", ""⟩)).result = .ok restartedRuntime := rfl
  have hacked : ∀ e ∈ restarted.log, e.2.errorDetail = none := by
    intro e he
    rcases List.mem_pair.mp he with rfl | rfl <;> rfl
  ⟨hstart, hacked, restart_writes_over_pinned_maps hstart rfl (by decide +kernel) rfl (by decide +kernel) (by decide)
    ⟨by decide, by decide⟩ (Or.inl rfl) hacked⟩

/-- The stale identity and the stale rule are still there, although both pushes were accepted and neither has
    them. -/
theorem restart_keeps_stale_entries :
    (startup quietDeps stalePins (newStartupRunner ⟨"", ""⟩)).result = .ok restartedRuntime ∧
      restarted.log.map (·.2.errorDetail) = [none, none] ∧
      restarted.client.writer.policyMap staleKey = some ⟨policyActionAllow, 0⟩ ∧
      translatePolicyRuleKey firstRule.key ≠ staleKey ∧
      restarted.client.writer.identityMap (podKey (pod 9 "10.0.0.9")) = some 9 ∧
      podKey (pod 7 "10.0.0.1") ≠ podKey (pod 9 "10.0.0.9") :=
  ⟨rfl, by decide +kernel, by decide +kernel, by decide, by decide +kernel, by decide⟩

end Meridian.Supervisor
