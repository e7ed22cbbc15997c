import Meridian.Lib.Diff
import Meridian.Theorems.ApplyLog

/-! Maps that hold a snapshot: the entries of its identities, keyed by address, and of its rules. -/

namespace Meridian.Datapath
open Lib Wire

structure DistinctIdentities (identities : List Identity) : Prop where
  ids : (identities.map (·.id)).Nodup
  addrs : (identities.map identityIPv4NetworkKey).Nodup

def ValidAddress (i : Identity) : Prop := ∃ key, identityIPv4NetworkKey i = .ok key

/-- Identities with distinct known IDs at distinct valid IPv4 addresses. -/
structure DistinctPods (identities : List Identity) : Prop extends DistinctIdentities identities where
  known : ∀ i ∈ identities, i.id ≠ identityUnknown
  valid : ∀ i ∈ identities, ValidAddress i

/-- The map contains the entry of each identity and nothing else. -/
def HoldsIdentities (identityMap : Table UInt32 UInt32) (identities : List Identity) : Prop :=
  ∀ key id, identityMap key = some id ↔ ∃ i ∈ identities, identityIPv4NetworkKey i = .ok key ∧ i.id = id

def HoldsRules (policyMap : Table Bpf.PolicyKey Bpf.PolicyVerdict) (rules : List PolicyRule) : Prop :=
  ∀ key verdict, policyMap key = some verdict ↔
    ∃ r ∈ rules, translatePolicyRuleKey r.key = key ∧ translatePolicyVerdict r.verdict = verdict

theorem translatePolicyRuleKey_injective : Function.Injective translatePolicyRuleKey := by
  rintro ⟨s, d, p, pr, dir⟩ ⟨s', d', p', pr', dir'⟩ h
  simp only [translatePolicyRuleKey, Bpf.PolicyKey.mk.injEq] at h
  obtain ⟨rfl, rfl, rfl, rfl, rfl⟩ := h
  rfl

section
variable {identities : List Identity} {i j : Identity} {key : UInt32}

theorem upsertOp_of_key (h : identityIPv4NetworkKey i = .ok key) : upsertOp i = .ok (.identityPut i.id key) := by
  simp [upsertOp, translateIdentity, h, Except.map]

theorem DistinctIdentities.eq_of_key (h : DistinctIdentities identities) (hi : i ∈ identities) (hj : j ∈ identities)
    (hki : identityIPv4NetworkKey i = .ok key) (hkj : identityIPv4NetworkKey j = .ok key) : i = j :=
  List.inj_on_of_nodup_map h.addrs hi hj (hki.trans hkj.symm)

def podKey (i : Identity) : UInt32 := (identityIPv4NetworkKey i).toOption.getD 0

theorem ValidAddress.key_eq (h : ValidAddress i) : identityIPv4NetworkKey i = .ok (podKey i) := by
  obtain ⟨key, hkey⟩ := h
  simp [podKey, hkey, Except.toOption]

theorem podKey_nodup (h : DistinctIdentities identities) (hvalid : ∀ i ∈ identities, ValidAddress i) :
    (identities.map podKey).Nodup := by
  refine List.Nodup.map_on (fun i hi j hj heq => ?_) (List.Nodup.of_map _ h.ids)
  exact h.eq_of_key hi hj (hvalid i hi).key_eq (heq ▸ (hvalid j hj).key_eq)

theorem holdsIdentities_iff_entries {t : Table UInt32 UInt32} (hvalid : ∀ i ∈ identities, ValidAddress i) :
    HoldsIdentities t identities ↔ Entries t podKey (·.id) identities := by
  refine forall₂_congr fun key id => iff_congr Iff.rfl (exists_congr fun i => and_congr_right fun hi => ?_)
  rw [(hvalid i hi).key_eq, Except.ok.injEq]

/-- The identity at an address, zero where there is none. -/
def identityAt (identities : List Identity) (addr : UInt32) : UInt32 :=
  ((identities.find? fun i => (identityIPv4NetworkKey i).toOption = some addr).map (·.id)).getD 0

theorem toOption_eq_some_iff {ε α : Type} {r : Except ε α} {a : α} : r.toOption = some a ↔ r = .ok a := by
  cases r <;> simp [Except.toOption]

theorem HoldsIdentities.getD_eq {t : Table UInt32 UInt32} (h : HoldsIdentities t identities) (addr : UInt32) :
    (t addr).getD 0 = identityAt identities addr := by
  unfold identityAt
  cases hfind : identities.find? fun i => (identityIPv4NetworkKey i).toOption = some addr with
  | none =>
    have hnone : t addr = none := by
      cases hv : t addr with
      | none => rfl
      | some id =>
        obtain ⟨i, hi, hkey, -⟩ := (h addr id).mp hv
        exact absurd (by simp [toOption_eq_some_iff.mpr hkey]) (List.find?_eq_none.mp hfind i hi)
    rw [hnone]
    rfl
  | some i =>
    have hkey := List.find?_some hfind
    rw [decide_eq_true_eq, toOption_eq_some_iff] at hkey
    rw [(h addr i.id).mpr ⟨i, List.mem_of_find?_eq_some hfind, hkey, rfl⟩]
    rfl

end

/-! ### Logs of a snapshot -/

def podWrite (i : Identity) : Option (Write UInt32 UInt32) :=
  (identityIPv4NetworkKey i).toOption.map fun key => (key, some i.id)

def ruleWrite (r : PolicyRule) : Write Bpf.PolicyKey Bpf.PolicyVerdict :=
  (translatePolicyRuleKey r.key, some (translatePolicyVerdict r.verdict))

theorem podWrite_eq_some_iff {i : Identity} {key : UInt32} {o : Option UInt32} :
    podWrite i = some (key, o) ↔ identityIPv4NetworkKey i = .ok key ∧ o = some i.id := by
  unfold podWrite
  cases identityIPv4NetworkKey i with
  | error e => simp [Except.toOption]
  | ok k => simp [Except.toOption, eq_comm]

theorem identityWrites_upserts (identities : List Identity) :
    (okOps (identities.map upsertOp)).filterMap MapOp.identityWrite = identities.filterMap podWrite := by
  unfold okOps
  rw [List.filterMap_map, List.filterMap_filterMap]
  congr 1
  funext i
  simp only [Function.comp, upsertOp, translateIdentity, podWrite]
  cases identityIPv4NetworkKey i <;> rfl

theorem mem_podWrites {identities : List Identity} {key : UInt32} {o : Option UInt32} :
    (key, o) ∈ identities.filterMap podWrite ↔ ∃ i ∈ identities, identityIPv4NetworkKey i = .ok key ∧ o = some i.id := by
  simp only [List.mem_filterMap, podWrite_eq_some_iff]

theorem holdsIdentities_podWrites {identities : List Identity} (h : DistinctIdentities identities) :
    HoldsIdentities (Table.writes (fun _ => none) (identities.filterMap podWrite)) identities := by
  have hagree : Table.Agreeing (identities.filterMap podWrite) := by
    intro key o o' ho ho'
    obtain ⟨i, hi, hki, rfl⟩ := mem_podWrites.mp ho
    obtain ⟨j, hj, hkj, rfl⟩ := mem_podWrites.mp ho'
    rw [h.eq_of_key hi hj hki hkj]
  intro key id
  rw [Table.writes_empty_eq_some_iff hagree, mem_podWrites]
  simp only [Option.some.injEq, eq_comm]

/-! ### Successful applies -/

variable {fails : Nat → Bool} {plan : CommitPlan} {w : Writer}

/-- After a call without an error every operation of the plan was made. -/
theorem apply_writer_of_ok (h : (apply fails plan w).1 = none) :
    (apply fails plan w).2 = execute MapOp.step w (okOps (planOps w plan)) := by
  rw [apply_eq_runOps]
  dsimp only
  rw [runOps_writer, apply_eq_none_iff.mp h, Option.getD_none, List.take_length]

theorem validAddress_of_upsertOp {i : Identity} {op : MapOp} (h : upsertOp i = .ok op) : ValidAddress i := by
  unfold upsertOp translateIdentity at h
  cases hkey : identityIPv4NetworkKey i with
  | error e =>
    rw [hkey] at h
    cases h
  | ok key => exact ⟨key, hkey⟩

theorem valid_of_apply_ok (h : (apply fails plan w).1 = none) : ∀ i ∈ plan.identityUpserts, ValidAddress i := by
  intro i hi
  have hmem : upsertOp i ∈ planOps w plan := List.mem_append_left _ (List.mem_map_of_mem hi)
  obtain ⟨op, hop⟩ := ok_of_firstFailure_none (apply_eq_none_iff.mp h) _ hmem
  exact validAddress_of_upsertOp hop

def policyLog (plan : CommitPlan) : List (Write Bpf.PolicyKey Bpf.PolicyVerdict) :=
  plan.policyUpserts.map ruleWrite ++ plan.policyDeletes.map fun key => (translatePolicyRuleKey key, none)

def identityLog (w : Writer) (plan : CommitPlan) : List (Write UInt32 UInt32) :=
  plan.identityUpserts.filterMap podWrite ++
    (okOps (deleteOps (recordAfter w.identityKeyByID plan.identityUpserts) plan.identityDeletes)).filterMap
      MapOp.identityWrite

theorem okOps_planOps (w : Writer) (plan : CommitPlan) :
    okOps (planOps w plan) = okOps (plan.identityUpserts.map upsertOp) ++ (plan.policyUpserts.map .policyPut ++
      (plan.policyDeletes.map .policyDelete ++
        okOps (deleteOps (recordAfter w.identityKeyByID plan.identityUpserts) plan.identityDeletes))) := by
  have hok {α : Type} (l : List α) (f : α → MapOp) : okOps (l.map fun a => .ok (f a)) = l.map f := by
    induction l with
    | nil => rfl
    | cons a l ih => exact congrArg (f a :: ·) ih
  unfold planOps
  simp only [okOps, List.filterMap_append] at hok ⊢
  rw [hok, hok]

theorem upserts_no_policyWrite (identities : List Identity) :
    (okOps (identities.map upsertOp)).filterMap MapOp.policyWrite = [] := by
  unfold okOps
  rw [List.filterMap_map, List.filterMap_filterMap, List.filterMap_eq_nil_iff]
  intro i _
  simp only [Function.comp, upsertOp]
  cases translateIdentity i <;> rfl

theorem deleteOps_no_policyWrite (record : Table IdentityID UInt32) (ids : List IdentityID) :
    (okOps (deleteOps record ids)).filterMap MapOp.policyWrite = [] := by
  induction ids generalizing record with
  | nil => rfl
  | cons id rest ih =>
    rw [deleteOps]
    cases record id with
    | none => exact ih record
    | some key => exact ih _

theorem policyWrites_planOps (w : Writer) (plan : CommitPlan) :
    (okOps (planOps w plan)).filterMap MapOp.policyWrite = policyLog plan := by
  rw [okOps_planOps, policyLog]
  simp only [List.filterMap_append, List.filterMap_map, upserts_no_policyWrite, deleteOps_no_policyWrite,
    List.nil_append, List.append_nil]
  congr 1
  · exact congrFun List.filterMap_eq_map' plan.policyUpserts
  · exact congrFun List.filterMap_eq_map' plan.policyDeletes

theorem identityWrites_planOps (w : Writer) (plan : CommitPlan) :
    (okOps (planOps w plan)).filterMap MapOp.identityWrite = identityLog w plan := by
  have hputs : plan.policyUpserts.filterMap (MapOp.identityWrite ∘ MapOp.policyPut) = [] :=
    List.filterMap_eq_nil_iff.mpr fun _ _ => rfl
  have hdels : plan.policyDeletes.filterMap (MapOp.identityWrite ∘ MapOp.policyDelete) = [] :=
    List.filterMap_eq_nil_iff.mpr fun _ _ => rfl
  rw [okOps_planOps, identityLog]
  simp only [List.filterMap_append, List.filterMap_map, identityWrites_upserts, hputs, hdels, List.nil_append]

theorem apply_maps_of_ok (h : (apply fails plan w).1 = none) :
    (apply fails plan w).2.identityMap = Table.writes w.identityMap (identityLog w plan) ∧
      (apply fails plan w).2.policyMap = Table.writes w.policyMap (policyLog plan) := by
  rw [apply_writer_of_ok h, execute_eq_writes, policyWrites_planOps, identityWrites_planOps]
  exact ⟨rfl, rfl⟩

end Meridian.Datapath
