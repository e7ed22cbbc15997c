import Meridian.Theorems.PolicyUpdate
import Meridian.Theorems.Restart

/-! The two planners of a commit, `BuildCommitPlan` at startup and `diff` at every push. Both plan from the last rule
    of each key in the current snapshot; the first one also writes the last rule of each key only, while the second one
    writes every rule that differs, in the order of the list. -/

namespace Meridian.Xds
open Lib Wire Datapath Config

/-! ### Applies in which no operation fails -/

theorem applyIdentityUpserts_policyMap (fails : Nat → Bool) (identities : List Identity) (s : ApplyState) :
    (applyIdentityUpserts fails identities s).2.writer.policyMap = s.writer.policyMap := by
  rw [applyIdentityUpserts_eq, runOps_writer, execute_eq_writes, ← List.map_take, upserts_no_policyWrite]
  rfl

theorem valid_of_applyIdentityUpserts {fails : Nat → Bool} {identities : List Identity} {s : ApplyState}
    (h : (applyIdentityUpserts fails identities s).1 = none) : ∀ i ∈ identities, ValidAddress i := by
  rw [applyIdentityUpserts_eq, runOps_error_iff] at h
  intro i hi
  obtain ⟨op, hop⟩ := ok_of_firstFailure_none h _ (List.mem_map_of_mem hi)
  exact validAddress_of_upsertOp hop

section
variable {plan : CommitPlan}

theorem policyMap_of_valid (hvalid : ∀ i ∈ plan.identityUpserts, ValidAddress i) (w : Writer) :
    (apply (fun _ => false) plan w).2.policyMap = Table.writes w.policyMap (policyLog plan) := by
  refine (apply_maps_of_ok (apply_eq_none_iff.mpr ?_)).2
  exact firstFailure_of_working (fun _ => rfl) (planOps_ok hvalid) 0

theorem policyMap_of_invalid (hinvalid : ¬∀ i ∈ plan.identityUpserts, ValidAddress i) (w : Writer) :
    (apply (fun _ => false) plan w).2.policyMap = w.policyMap := by
  have hkept := applyIdentityUpserts_policyMap (fun _ => false) plan.identityUpserts ⟨w, 0⟩
  unfold apply
  generalize hrun : applyIdentityUpserts (fun _ => false) plan.identityUpserts ⟨w, 0⟩ = r at hkept
  obtain ⟨e, s⟩ := r
  cases e with
  | none => exact absurd (valid_of_applyIdentityUpserts (congrArg Prod.fst hrun)) hinvalid
  | some e => exact hkept

end

/-! ### The map of a list of rules -/

theorem ruleTable_apply (rules : List PolicyRule) (key : PolicyRuleKey) :
    ruleTable rules (translatePolicyRuleKey key) = (verdictsByKey rules key).map translatePolicyVerdict := by
  rw [verdictsByKey, ← Table.writes_image translatePolicyRuleKey_injective, List.map_map]
  rfl

theorem translatePolicyRuleKey_surjective : Function.Surjective translatePolicyRuleKey := fun key =>
  ⟨⟨key.srcId, key.dstId, key.dstPort, key.proto, key.direction⟩, rfl⟩

/-! ### `BuildCommitPlan` -/

theorem mem_policyKeys {rules : List PolicyRule} {key : PolicyRuleKey} :
    key ∈ policyKeys rules ↔ verdictsByKey rules key ≠ none := by
  rw [policyKeys, Supervisor.mem_sortedKeys, List.mem_map]
  constructor
  · rintro ⟨r, hr, rfl⟩ hnone
    obtain ⟨v, hsome, -⟩ := Supervisor.verdictsByKey_of_mem hr
    cases hnone.symm.trans hsome
  · intro hsome
    obtain ⟨v, hv⟩ := Option.ne_none_iff_exists'.mp hsome
    obtain ⟨r, hr, hkey, -⟩ := Table.exists_of_writes_puts hv
    exact ⟨r, hr, hkey⟩

section
variable {current desired : PolicySnapshot} {key : PolicyRuleKey}

theorem mem_policyUpserts {r : PolicyRule} :
    r ∈ (buildCommitPlan current desired).policyUpserts ↔
      verdictsByKey desired.policies r.key = some r.verdict ∧ verdictsByKey current.policies r.key ≠ some r.verdict := by
  simp only [buildCommitPlan, List.mem_map, Supervisor.mem_planUpserts, mem_policyKeys]
  constructor
  · rintro ⟨⟨k, v⟩, ⟨-, hentry⟩, rfl⟩
    exact hentry
  · intro hentry
    exact ⟨(r.key, r.verdict), ⟨by rw [hentry.1]; exact Option.some_ne_none _, hentry⟩, rfl⟩

theorem mem_policyDeletes :
    key ∈ (buildCommitPlan current desired).policyDeletes ↔
      verdictsByKey current.policies key ≠ none ∧ verdictsByKey desired.policies key = none := by
  simp only [buildCommitPlan, planDeletes, List.mem_filter, mem_policyKeys, Option.isNone_iff_eq_none]

/-- Whatever the lists are, this plan leaves the last rule of each key. -/
theorem writes_buildCommitPlan (current desired : PolicySnapshot) :
    Table.writes (ruleTable current.policies) (policyLog (buildCommitPlan current desired)) = ruleTable desired.policies := by
  refine Table.writes_eq_of_forall (fun entry hentry => ?_) fun bpfKey hunwritten => ?_
  · rcases List.mem_append.mp hentry with hput | hdel
    · obtain ⟨r, hr, rfl⟩ := List.mem_map.mp hput
      exact ((ruleTable_apply _ _).trans (congrArg _ (mem_policyUpserts.mp hr).1)).symm
    · obtain ⟨key, hkey, rfl⟩ := List.mem_map.mp hdel
      exact ((ruleTable_apply _ _).trans (congrArg _ (mem_policyDeletes.mp hkey).2)).symm
  · obtain ⟨key, rfl⟩ := translatePolicyRuleKey_surjective bpfKey
    rw [ruleTable_apply, ruleTable_apply]
    refine congrArg _ (by_contra fun hdiffer => ?_)
    cases hdesired : verdictsByKey desired.policies key with
    | none =>
      have hdel := mem_policyDeletes.mpr ⟨fun hnone => hdiffer (hnone.trans hdesired.symm), hdesired⟩
      exact hunwritten _ (List.mem_append_right _ (List.mem_map_of_mem hdel)) rfl
    | some v =>
      have hput := (@mem_policyUpserts current desired ⟨key, v⟩).mpr ⟨hdesired, hdesired ▸ hdiffer⟩
      exact hunwritten _ (List.mem_append_left _ (List.mem_map_of_mem hput)) rfl

end

/-! ### `diff` -/

/-- Where a key has the same last rule in both lists, the desired list has no other rule with it. -/
def SettledRepeats (current desired : List PolicyRule) : Prop :=
  ∀ r ∈ desired, byKey (·.key) current r.key = byKey (·.key) desired r.key → byKey (·.key) desired r.key = some r

/-- The rules that applying a diff leaves, by key. -/
def diffRules (current desired : List PolicyRule) : Table PolicyRuleKey PolicyRule :=
  Table.writes (byKey (·.key) current) ((upserts (·.key) current desired).map (fun r => (r.key, some r)) ++
    (gone (·.key) current desired).map fun r => (r.key, none))

theorem diffRules_key {current desired : List PolicyRule} {key : PolicyRuleKey} {r : PolicyRule}
    (h : diffRules current desired key = some r) : r.key = key := by
  rw [diffRules, writes_diff_apply] at h
  split at h
  · cases h
  · rcases Option.or_eq_some_iff.mp h with hput | ⟨-, hkept⟩
    · exact (mem_of_byKey hput).2
    · exact (mem_of_byKey hkept).2

theorem ruleTable_byKey (rules : List PolicyRule) (key : PolicyRuleKey) :
    ruleTable rules (translatePolicyRuleKey key) =
      (byKey (·.key) rules key).map fun r => translatePolicyVerdict r.verdict := by
  rw [byKey, ← Table.writes_image translatePolicyRuleKey_injective, List.map_map]
  rfl

/-- The policy map holds what the diff leaves of the rules. -/
theorem writes_diff_byKey (current desired : Snapshot) (key : PolicyRuleKey) :
    Table.writes (ruleTable current.policies) (policyLog (diff current desired)) (translatePolicyRuleKey key) =
      (diffRules current.policies desired.policies key).map fun r => translatePolicyVerdict r.verdict := by
  rw [diffRules, byKey, ← Table.writes_append, ← Table.writes_image translatePolicyRuleKey_injective, policyLog_diff,
    ruleTable, ← Table.writes_append]
  simp only [List.map_append, List.map_map]
  rfl

theorem writes_diff_iff (current desired : Snapshot) :
    Table.writes (ruleTable current.policies) (policyLog (diff current desired)) = ruleTable desired.policies ↔
      SettledRepeats current.policies desired.policies := by
  rw [SettledRepeats, ← byKey_diff_iff]
  change _ ↔ diffRules current.policies desired.policies = _
  constructor
  · intro h
    funext key
    have hentry := congrFun h (translatePolicyRuleKey key)
    rw [writes_diff_byKey, ruleTable_byKey] at hentry
    cases hleft : diffRules current.policies desired.policies key with
    | none =>
      rw [hleft] at hentry
      exact (Option.map_eq_none_iff.mp hentry.symm).symm
    | some r =>
      rw [hleft] at hentry
      obtain ⟨r', hlast, hverdict⟩ := Option.map_eq_some_iff.mp hentry.symm
      have hkey : r'.key = r.key := (mem_of_byKey hlast).2.trans (diffRules_key hleft).symm
      have hsame : r' = r := ruleWrite_injective (Prod.ext (congrArg translatePolicyRuleKey hkey) (congrArg some hverdict))
      rw [hlast, hsame]
  · intro h
    funext bpfKey
    obtain ⟨key, rfl⟩ := translatePolicyRuleKey_surjective bpfKey
    rw [writes_diff_byKey, ruleTable_byKey, h]

/-! ### The two planners -/

/-- The snapshot as the client keeps it. -/
def clientSnapshot (s : PolicySnapshot) : Snapshot := ⟨s.policies, s.identities⟩

/-- A writer whose policy map holds the last rule of each key. -/
def writerAt (w : Writer) (current : PolicySnapshot) : Writer := { w with policyMap := ruleTable current.policies }

/-- The policy map after `BuildCommitPlan` is applied. -/
def planned (w : Writer) (current desired : PolicySnapshot) : Table Bpf.PolicyKey Bpf.PolicyVerdict :=
  (apply (fun _ => false) (buildCommitPlan current desired) (writerAt w current)).2.policyMap

/-- The policy map after `diff` is applied. -/
def diffed (w : Writer) (current desired : PolicySnapshot) : Table Bpf.PolicyKey Bpf.PolicyVerdict :=
  (apply (fun _ => false) (diff (clientSnapshot current) (clientSnapshot desired)) (writerAt w current)).2.policyMap

/-- Both planners leave one policy map, the one that the desired rules stand for whatever was there. -/
structure Interchangeable (w : Writer) (current desired : PolicySnapshot) : Prop where
  same : planned w current desired = diffed w current desired
  fromDesired : diffed w current desired = ruleTable desired.policies

/-- Every desired identity that the current snapshot does not end with under its ID has an address. -/
def Addressed (current desired : List Identity) : Prop :=
  ∀ i ∈ desired, byKey (·.id) current i.id ≠ some i → ValidAddress i

theorem addressed_iff {current desired : PolicySnapshot} :
    Addressed current.identities desired.identities ↔
      ∀ i ∈ (diff (clientSnapshot current) (clientSnapshot desired)).identityUpserts, ValidAddress i := by
  constructor
  · intro h i hi
    obtain ⟨hmem, hnew⟩ := List.mem_filter.mp hi
    exact h i hmem (of_decide_eq_true hnew)
  · intro h i hi hnew
    exact h i (List.mem_filter.mpr ⟨hi, decide_eq_true hnew⟩)

theorem Addressed.buildCommitPlan {current desired : PolicySnapshot}
    (h : Addressed current.identities desired.identities) :
    ∀ i ∈ (buildCommitPlan current desired).identityUpserts, ValidAddress i := by
  intro i hi
  simp only [Config.buildCommitPlan, List.mem_map, Supervisor.mem_planUpserts] at hi
  obtain ⟨⟨id, i'⟩, ⟨-, hlast, hnew⟩, rfl⟩ := hi
  obtain ⟨hmem, hid⟩ := mem_of_byKey hlast
  exact h i' hmem (hid ▸ hnew)

/-- The planners agree on the desired rules exactly when every new identity has an address and no rule that stays is
    repeated with another verdict; or when no rule can be written and none needs to be. -/
theorem commit_planners_interchangeable_iff (w : Writer) (current desired : PolicySnapshot) :
    Interchangeable w current desired ↔
      Addressed current.identities desired.identities ∧ SettledRepeats current.policies desired.policies ∨
        ¬Addressed current.identities desired.identities ∧ ruleTable current.policies = ruleTable desired.policies := by
  by_cases hids : Addressed current.identities desired.identities
  · have hplanned : planned w current desired = ruleTable desired.policies :=
      (policyMap_of_valid hids.buildCommitPlan _).trans (writes_buildCommitPlan current desired)
    have hdiffed : diffed w current desired = ruleTable desired.policies ↔
        SettledRepeats current.policies desired.policies := by
      rw [diffed, policyMap_of_valid (addressed_iff.mp hids)]
      exact writes_diff_iff (clientSnapshot current) (clientSnapshot desired)
    constructor
    · exact fun h => Or.inl ⟨hids, hdiffed.mp h.fromDesired⟩
    · rintro (⟨-, hrepeats⟩ | ⟨hno, -⟩)
      · have hdesired := hdiffed.mpr hrepeats
        exact ⟨hplanned.trans hdesired.symm, hdesired⟩
      · exact absurd hids hno
  · have hdiffed : diffed w current desired = ruleTable current.policies :=
      policyMap_of_invalid (fun hvalid => hids (addressed_iff.mpr hvalid)) _
    constructor
    · exact fun h => Or.inr ⟨hids, hdiffed.symm.trans h.fromDesired⟩
    · rintro (⟨hyes, -⟩ | ⟨-, hsame⟩)
      · exact absurd hyes hids
      · -- The first planner may get further, but has nothing to write.
        have hplanned : planned w current desired = ruleTable desired.policies := by
          by_cases hvalid : ∀ i ∈ (buildCommitPlan current desired).identityUpserts, ValidAddress i
          · exact (policyMap_of_valid hvalid _).trans (writes_buildCommitPlan current desired)
          · exact (policyMap_of_invalid hvalid _).trans hsame
        exact ⟨hplanned.trans (hdiffed.trans hsame).symm, hdiffed.trans hsame⟩

/-- A rule that is allowed stays so, but the list denies it first: `BuildCommitPlan` finds nothing to do, and `diff`
    leaves the denial; from an empty map `diff` leaves the permission. -/
theorem commit_planners_differ :
    planned (Writer.new (fun _ => none) fun _ => none) ⟨"1", [], [portRule 80 policyActionAllow]⟩
        ⟨"2", [], [portRule 80 policyActionDeny, portRule 80 policyActionAllow]⟩ ⟨7, 8, 80, 6, directionIngress⟩ =
      some ⟨policyActionAllow, 0⟩ ∧
    diffed (Writer.new (fun _ => none) fun _ => none) ⟨"1", [], [portRule 80 policyActionAllow]⟩
        ⟨"2", [], [portRule 80 policyActionDeny, portRule 80 policyActionAllow]⟩ ⟨7, 8, 80, 6, directionIngress⟩ =
      some ⟨policyActionDeny, 0⟩ ∧
    diffed (Writer.new (fun _ => none) fun _ => none) ⟨"", [], []⟩
        ⟨"2", [], [portRule 80 policyActionDeny, portRule 80 policyActionAllow]⟩ ⟨7, 8, 80, 6, directionIngress⟩ =
      some ⟨policyActionAllow, 0⟩ := by
  decide

end Meridian.Xds
