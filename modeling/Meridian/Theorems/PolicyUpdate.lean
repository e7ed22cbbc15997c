import Meridian.Theorems.Widening

/-! The policy map in the course of one update. Between any two operations a key holds its old entry or its new one,
    and an entry that does not change is not written. -/

namespace Meridian.Xds
open Lib Wire Datapath

/-- The map that a list of rules stands for; of several rules with one key, the last counts. -/
def ruleTable (rules : List PolicyRule) : Table Bpf.PolicyKey Bpf.PolicyVerdict :=
  Table.writes (fun _ => none) (rules.map ruleWrite)

theorem translatePolicyVerdict_injective : Function.Injective translatePolicyVerdict := by
  rintro ⟨action, flags⟩ ⟨action', flags'⟩ h
  simp only [translatePolicyVerdict, Bpf.PolicyVerdict.mk.injEq] at h
  obtain ⟨rfl, rfl⟩ := h
  rfl

theorem ruleWrite_injective : Function.Injective ruleWrite := by
  rintro ⟨key, verdict⟩ ⟨key', verdict'⟩ h
  obtain ⟨hkey, hverdict⟩ := Prod.mk.inj h
  cases translatePolicyRuleKey_injective hkey
  cases translatePolicyVerdict_injective (Option.some.inj hverdict)
  rfl

section
variable {rules : List PolicyRule} (hkeys : (rules.map (·.key)).Nodup)
include hkeys

theorem holdsRules_ruleTable : HoldsRules (ruleTable rules) rules := fun _ _ =>
  Table.writes_puts_eq_some_iff fun a ha b hb hkey => by
    rw [eq_of_key hkeys ha hb (translatePolicyRuleKey_injective hkey)]

theorem holdsRules_iff {t : Table Bpf.PolicyKey Bpf.PolicyVerdict} : HoldsRules t rules ↔ t = ruleTable rules := by
  constructor
  · intro h
    exact funext fun key => Option.ext fun v => (h key v).trans (holdsRules_ruleTable hkeys key v).symm
  · rintro rfl
    exact holdsRules_ruleTable hkeys

end

theorem policyLog_diff (old next : Snapshot) :
    policyLog (diff old next) =
      (upserts (·.key) old.policies next.policies).map
          (fun r => (translatePolicyRuleKey r.key, some (translatePolicyVerdict r.verdict))) ++
        (gone (·.key) old.policies next.policies).map fun r => (translatePolicyRuleKey r.key, none) := by
  rw [policyLog, diff, List.map_map]
  rfl

/-- A call makes a prefix of the operations of its plan, and all of them when it reports no error. -/
theorem apply_prefix (fails : Nat → Bool) (plan : CommitPlan) (w : Writer) :
    ∃ ops, ops <+: okOps (planOps w plan) ∧ (apply fails plan w).2 = execute MapOp.step w ops ∧
      ((apply fails plan w).1 = none → ops = okOps (planOps w plan)) := by
  refine ⟨okOps ((planOps w plan).take ((firstFailure fails (planOps w plan) 0).getD (planOps w plan).length)),
    (List.take_prefix _ _).filterMap _, ?_, fun hnone => ?_⟩
  · rw [apply_eq_runOps]
    exact runOps_writer fails (planOps w plan) ⟨w, 0⟩
  · rw [apply_eq_none_iff.mp hnone, Option.getD_none, List.take_length]

section
variable {w : Writer} {old next : Snapshot} (hold : (old.policies.map (·.key)).Nodup)
  (hnext : (next.policies.map (·.key)).Nodup)
include hold hnext

/-- A key that the update writes has another entry in the next rules than in the old ones. -/
theorem ruleTable_ne_of_written {key : Bpf.PolicyKey} {o : Option Bpf.PolicyVerdict}
    (h : (key, o) ∈ policyLog (diff old next)) : ruleTable old.policies key ≠ ruleTable next.policies key := by
  intro heq
  rw [policyLog_diff] at h
  rcases mem_diff_writes hold h with ⟨r, hr, hnew, rfl, -⟩ | ⟨r, hr, hgone, rfl, -⟩
  · have hentry := (holdsRules_ruleTable hnext _ _).mpr ⟨r, hr, rfl, rfl⟩
    obtain ⟨r', hr', hkey, hverdict⟩ := (holdsRules_ruleTable hold _ _).mp (heq.trans hentry)
    exact hnew (ruleWrite_injective (Prod.ext hkey (congrArg some hverdict)) ▸ hr')
  · have hentry := (holdsRules_ruleTable hold _ _).mpr ⟨r, hr, rfl, rfl⟩
    obtain ⟨r', hr', hkey, -⟩ := (holdsRules_ruleTable hnext _ _).mp (heq.symm.trans hentry)
    exact hgone r' hr' (translatePolicyRuleKey_injective hkey)

theorem holdsRules_policyLog {t : Table Bpf.PolicyKey Bpf.PolicyVerdict} (hmap : HoldsRules t old.policies) :
    HoldsRules (Table.writes t (policyLog (diff old next))) next.policies := by
  rw [policyLog_diff]
  exact entries_diff hold hnext translatePolicyRuleKey_injective hmap

/-- After any part of the operations a key holds its old entry or its next one. -/
theorem policyMap_execute (hmap : HoldsRules w.policyMap old.policies) {ops : List MapOp}
    (hops : ops <+: okOps (planOps w (diff old next))) (key : Bpf.PolicyKey) :
    (execute MapOp.step w ops).policyMap key = ruleTable old.policies key ∨
      (execute MapOp.step w ops).policyMap key = ruleTable next.policies key := by
  have hfinal : Table.writes (ruleTable old.policies) (policyLog (diff old next)) = ruleTable next.policies :=
    (holdsRules_iff hnext).mp (holdsRules_policyLog hold hnext (holdsRules_ruleTable hold))
  have hagree : Table.Agreeing (policyLog (diff old next)) := by
    rw [policyLog_diff]
    exact agreeing_diff hold hnext translatePolicyRuleKey_injective _
  have hpart : ops.filterMap MapOp.policyWrite ⊆ policyLog (diff old next) := by
    rw [← policyWrites_planOps w]
    exact (hops.filterMap _).subset
  rw [execute_eq_writes, (holdsRules_iff hold).mp hmap, ← hfinal]
  exact Table.writes_part hagree hpart _ key

end

/-- What an update does to the policy map. -/
structure ExactUpdate (w : Writer) (old next : Snapshot) : Prop where
  /-- After a prefix of the operations a key holds its old entry or its next one. -/
  between : ∀ ops, ops <+: okOps (planOps w (diff old next)) → ∀ key,
    (execute MapOp.step w ops).policyMap key = ruleTable old.policies key ∨
      (execute MapOp.step w ops).policyMap key = ruleTable next.policies key
  /-- No operation writes an entry that stays the same. -/
  untouched : ∀ key, ruleTable old.policies key = ruleTable next.policies key →
    ∀ op ∈ okOps (planOps w (diff old next)), ∀ o, op.policyWrite ≠ some (key, o)
  final : HoldsRules (execute MapOp.step w (okOps (planOps w (diff old next)))).policyMap next.policies
  /-- A call makes a prefix of the operations, and all of them when it reports no error. -/
  performed : ∀ fails, ∃ ops, ops <+: okOps (planOps w (diff old next)) ∧
    (apply fails (diff old next) w).2 = execute MapOp.step w ops ∧
    ((apply fails (diff old next) w).1 = none → ops = okOps (planOps w (diff old next)))
  completes : (∀ i ∈ next.identities, ValidAddress i) → (apply (fun _ => false) (diff old next) w).1 = none
  settled : (diff next next).policyUpserts = [] ∧ (diff next next).policyDeletes = [] ∧
    ((next.identities.map (·.id)).Nodup → diff next next = ⟨[], [], [], []⟩)

theorem diff_self {s : Snapshot} (hkeys : (s.policies.map (·.key)).Nodup) :
    (diff s s).policyUpserts = [] ∧ (diff s s).policyDeletes = [] ∧
      ((s.identities.map (·.id)).Nodup → diff s s = ⟨[], [], [], []⟩) := by
  refine ⟨upserts_self hkeys, congrArg _ (gone_self _), fun hids => ?_⟩
  rw [diff, upserts_self hkeys, upserts_self hids, gone_self, gone_self]
  rfl

/-- An update from rules with distinct keys to such shows no third verdict, leaves unchanged entries alone and ends
    with the next rules. -/
theorem policy_update_exact {w : Writer} {old next : Snapshot} (hold : (old.policies.map (·.key)).Nodup)
    (hnext : (next.policies.map (·.key)).Nodup) (hmap : HoldsRules w.policyMap old.policies) : ExactUpdate w old next where
  between ops hops key := policyMap_execute hold hnext hmap hops key
  untouched key heq op hop o hwrite := by
    have hmem : (key, o) ∈ policyLog (diff old next) := by
      rw [← policyWrites_planOps w]
      exact List.mem_filterMap.mpr ⟨op, hop, hwrite⟩
    exact ruleTable_ne_of_written hold hnext hmem heq
  final := by
    rw [execute_eq_writes, policyWrites_planOps]
    exact holdsRules_policyLog hold hnext hmap
  performed fails := apply_prefix fails (diff old next) w
  completes hvalid := apply_eq_none_iff.mpr (firstFailure_of_working (fun _ => rfl) (planOps_diff_ok hvalid) 0)
  settled := diff_self hnext

/-- A rule between identities 7 and 8 over TCP at ingress. -/
def portRule (port : UInt16) (action : PolicyAction) : PolicyRule := ⟨⟨7, 8, port, 6, directionIngress⟩, ⟨action, 0⟩⟩

/-- One rule changes its verdict, one goes, one stays and one is new. -/
theorem policy_update_exact_ports :
    ExactUpdate
      (snapshotWriter ⟨[portRule 80 policyActionAllow, portRule 443 policyActionAllow, portRule 22 policyActionDeny], []⟩)
      ⟨[portRule 80 policyActionAllow, portRule 443 policyActionAllow, portRule 22 policyActionDeny], []⟩
      ⟨[portRule 22 policyActionDeny, portRule 80 policyActionDeny, portRule 8080 policyActionAllow], []⟩ :=
  policy_update_exact (by decide) (by decide) (holdsRules_ruleTable (by decide))

end Meridian.Xds
