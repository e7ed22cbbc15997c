import Meridian.Agent.Xds
import Meridian.Theorems.Snapshot

/-! Applying the diff of two snapshots. The policy map and the writer's record are keyed as the diff is, and follow
    every successful apply. The identity map is keyed by address while the diff is by ID: it follows exactly when
    no moved identity leaves its old address unused and no address of a removed identity is used again. -/

namespace Meridian.Xds
open Lib Wire Datapath

/-! ### The logs of a diff -/

theorem deleteOps_eq {record : Table IdentityID UInt32} {ids : List IdentityID} (hnd : ids.Nodup) :
    okOps (deleteOps record ids) = ids.filterMap fun id => (record id).map (MapOp.identityDelete id) := by
  induction ids generalizing record with
  | nil => rfl
  | cons id rest ih =>
    obtain ⟨hnot, hrest⟩ := List.nodup_cons.mp hnd
    rw [deleteOps, List.filterMap_cons]
    cases hid : record id with
    | none => exact ih hrest
    | some key =>
      refine (congrArg (MapOp.identityDelete id key :: ·) (ih hrest)).trans (congrArg _ ?_)
      refine List.filterMap_congr fun other hother => ?_
      have hne : id ≠ other := fun heq => hnot (heq ▸ hother)
      rw [Table.erase_of_ne hne]

theorem recordAfter_of_not_mem {us : List Identity} {record : Table IdentityID UInt32} {id : IdentityID}
    (h : ∀ u ∈ us, u.id ≠ id) : recordAfter record us id = record id := by
  induction us generalizing record with
  | nil => rfl
  | cons u rest ih =>
    obtain ⟨hu, hrest⟩ := List.forall_mem_cons.mp h
    rw [recordAfter]
    cases translateIdentity u with
    | error e => rfl
    | ok entry => exact (ih hrest).trans (Table.put_of_ne hu)

section
variable {old next : Snapshot} {w w' : Writer}

/-- The deletions of a diff: each removed identity is deleted under the key it was put with. -/
theorem deleteOps_diff (next : Snapshot) (hids : (old.identities.map (·.id)).Nodup)
    (hrecord : Entries w.identityKeyByID (·.id) podKey old.identities) :
    okOps (deleteOps (recordAfter w.identityKeyByID (diff old next).identityUpserts) (diff old next).identityDeletes) =
      (gone (·.id) old.identities next.identities).map fun i => .identityDelete i.id (podKey i) := by
  have hnd : (diff old next).identityDeletes.Nodup := (hids.sublist (List.Sublist.map _ List.filter_sublist))
  rw [deleteOps_eq hnd]
  unfold diff
  dsimp only
  rw [List.filterMap_map, ← List.filterMap_eq_map]
  refine List.filterMap_congr fun i hi => ?_
  obtain ⟨hold, hgone⟩ := mem_gone.mp hi
  have hkey : w.identityKeyByID i.id = some (podKey i) := (hrecord i.id (podKey i)).mpr ⟨i, hold, rfl, rfl⟩
  have hfree : ∀ u ∈ upserts (·.id) old.identities next.identities, u.id ≠ i.id := fun u hu =>
    hgone u (List.mem_filter.mp hu).1
  simp only [Function.comp]
  rw [recordAfter_of_not_mem hfree, hkey]
  rfl

theorem upsertOps_eq {us : List Identity} (hvalid : ∀ i ∈ us, ValidAddress i) :
    okOps (us.map upsertOp) = us.map fun i => .identityPut i.id (podKey i) := by
  unfold okOps
  rw [List.filterMap_map, ← List.filterMap_eq_map]
  refine List.filterMap_congr fun i hi => ?_
  simp only [Function.comp]
  rw [upsertOp_of_key (hvalid i hi).key_eq]
  rfl

theorem apply_diff_of_ok {fails : Nat → Bool} (hok : apply fails (diff old next) w = (none, w'))
    (hids : (old.identities.map (·.id)).Nodup) (hrecord : Entries w.identityKeyByID (·.id) podKey old.identities) :
    w' =
      { identityMap := Table.writes w.identityMap
          ((upserts (·.id) old.identities next.identities).map (fun i => (podKey i, some i.id)) ++
            (gone (·.id) old.identities next.identities).map fun i => (podKey i, none))
        policyMap := Table.writes w.policyMap
          ((upserts (·.key) old.policies next.policies).map
              (fun r => (translatePolicyRuleKey r.key, some (translatePolicyVerdict r.verdict))) ++
            (gone (·.key) old.policies next.policies).map fun r => (translatePolicyRuleKey r.key, none))
        identityKeyByID := Table.writes w.identityKeyByID
          ((upserts (·.id) old.identities next.identities).map (fun i => (i.id, some (podKey i))) ++
            (gone (·.id) old.identities next.identities).map fun i => (i.id, none)) } := by
  have hnone := congrArg Prod.fst hok
  have hw : (apply fails (diff old next) w).2 = w' := congrArg Prod.snd hok
  rw [← hw, apply_writer_of_ok hnone, execute_eq_writes, okOps_planOps, upsertOps_eq (valid_of_apply_ok hnone),
    deleteOps_diff next hids hrecord]
  simp [List.filterMap_append, List.filterMap_map, Function.comp_def, MapOp.identityWrite, MapOp.policyWrite,
    MapOp.recordWrite, diff]

end

/-! ### One update -/

/-- The writer's record is that of a snapshot with distinct IDs and distinct valid addresses. -/
structure Tracks (w : Writer) (identities : List Identity) : Prop extends DistinctIdentities identities where
  valid : ∀ i ∈ identities, ValidAddress i
  record : Entries w.identityKeyByID (·.id) podKey identities

/-- An update that the identity map follows: an address that an identity moves away from is taken again, and an
    address of a removed identity is not. -/
abbrev CleanUpdate (old next : List Identity) : Prop := Clean (·.id) podKey old next

theorem tracks_new (identityMap : Table UInt32 UInt32) (policyMap : Table Bpf.PolicyKey Bpf.PolicyVerdict) :
    Tracks (Writer.new identityMap policyMap) [] where
  ids := List.nodup_nil
  addrs := List.nodup_nil
  valid := by simp
  record := by simp [Entries, Writer.new]

section
variable {fails : Nat → Bool} {old next : Snapshot} {w w' : Writer} (htracks : Tracks w old.identities)
  (hok : apply fails (diff old next) w = (none, w'))
include htracks hok

theorem Tracks.valid_next : ∀ i ∈ next.identities, ValidAddress i := by
  intro i hi
  by_cases hold : i ∈ old.identities
  · exact htracks.valid i hold
  · exact valid_of_apply_ok (congrArg Prod.fst hok) i ((mem_upserts htracks.ids).mpr ⟨hi, hold⟩)

theorem Tracks.apply_ok (hnext : DistinctIdentities next.identities) : Tracks w' next.identities := by
  refine ⟨hnext, htracks.valid_next hok, ?_⟩
  rw [apply_diff_of_ok hok htracks.ids htracks.record]
  exact entries_diff htracks.ids hnext.ids Function.injective_id htracks.record

theorem Tracks.policies_apply_ok (hold : (old.policies.map (·.key)).Nodup) (hnext : (next.policies.map (·.key)).Nodup)
    (hrules : HoldsRules w.policyMap old.policies) : HoldsRules w'.policyMap next.policies := by
  rw [apply_diff_of_ok hok htracks.ids htracks.record]
  exact entries_diff hold hnext translatePolicyRuleKey_injective hrules

theorem Tracks.identities_apply_ok_iff (hnext : DistinctIdentities next.identities)
    (hmap : HoldsIdentities w.identityMap old.identities) :
    HoldsIdentities w'.identityMap next.identities ↔ CleanUpdate old.identities next.identities := by
  have hvalid := htracks.valid_next hok
  rw [holdsIdentities_iff_entries hvalid, apply_diff_of_ok hok htracks.ids htracks.record]
  exact entries_diff_iff_clean htracks.ids (podKey_nodup htracks.toDistinctIdentities htracks.valid)
    (podKey_nodup hnext hvalid) ((holdsIdentities_iff_entries htracks.valid).mp hmap)

end

/-! ### Runs of updates -/

/-- A run of successful updates, with the snapshot and the writer after each. -/
inductive UpdateRun : Snapshot → Writer → List (Snapshot × Writer) → Prop where
  | nil {s : Snapshot} {w : Writer} : UpdateRun s w []
  | cons {s next : Snapshot} {w w' : Writer} {run : List (Snapshot × Writer)} {fails : Nat → Bool} :
    apply fails (diff s next) w = (none, w') → UpdateRun next w' run → UpdateRun s w ((next, w') :: run)

/-- From a map that holds its snapshot, the map holds every later one exactly when all updates are clean. -/
theorem UpdateRun.exact_iff {s : Snapshot} {w : Writer} {run : List (Snapshot × Writer)} (hrun : UpdateRun s w run)
    (htracks : Tracks w s.identities) (hmap : HoldsIdentities w.identityMap s.identities)
    (hdistinct : ∀ p ∈ run, DistinctIdentities p.1.identities) :
    (∀ p ∈ run, HoldsIdentities p.2.identityMap p.1.identities) ↔
      List.IsChain CleanUpdate (s.identities :: run.map (·.1.identities)) := by
  induction hrun with
  | nil => simp
  | cons hok _ ih =>
    obtain ⟨hnext, hrest⟩ := List.forall_mem_cons.mp hdistinct
    have hiff := htracks.identities_apply_ok_iff hok hnext hmap
    rw [List.forall_mem_cons, List.map_cons, List.isChain_cons_cons, ← hiff]
    exact and_congr_right fun hmap' => ih (htracks.apply_ok hok hnext) hmap' hrest

/-- From an empty map and a fresh writer, the identity map is exact after every update exactly when all updates
    are clean. -/
theorem identity_map_exact_iff {policyMap : Table Bpf.PolicyKey Bpf.PolicyVerdict} {policies : List PolicyRule}
    {run : List (Snapshot × Writer)} (hrun : UpdateRun ⟨policies, []⟩ (Writer.new (fun _ => none) policyMap) run)
    (hpods : ∀ p ∈ run, DistinctPods p.1.identities) :
    (∀ p ∈ run, HoldsIdentities p.2.identityMap p.1.identities) ↔
      List.IsChain CleanUpdate ([] :: run.map (·.1.identities)) :=
  hrun.exact_iff (tracks_new _ _) (by simp [HoldsIdentities, Writer.new]) fun p hp => (hpods p hp).toDistinctIdentities

def pod (id : IdentityID) (podIPv4 : String) : Identity := ⟨id, podIPv4, "spiffe://td/app", "demo", "app"⟩

def applied (w : Writer) (old next : List Identity) : Option ApplyError × Writer :=
  apply (fun _ => false) (diff ⟨[], old⟩ ⟨[], next⟩) w

def onePodWriter : Writer := (applied (Writer.new (fun _ => none) fun _ => none) [] [pod 7 "10.0.0.1"]).2

def podPair : List Identity := [pod 7 "10.0.0.1", pod 8 "10.0.0.2"]

def swappedPods : List Identity := [pod 7 "10.0.0.2", pod 8 "10.0.0.1"]

def podPairWriter : Writer := (applied (Writer.new (fun _ => none) fun _ => none) [] podPair).2

def swapRun : List (Snapshot × Writer) :=
  [(⟨[], podPair⟩, podPairWriter), (⟨[], swappedPods⟩, (applied podPairWriter podPair swappedPods).2)]

/-- Two pods that take each other's address. -/
theorem identity_map_exact_swapped : HoldsIdentities podPairWriter.identityMap podPair ∧
    HoldsIdentities (applied podPairWriter podPair swappedPods).2.identityMap swappedPods := by
  have hrun : UpdateRun ⟨[], []⟩ (Writer.new (fun _ => none) fun _ => none) swapRun :=
    .cons (Prod.ext (by decide) rfl) (.cons (Prod.ext (by decide) rfl) .nil)
  have hpods : ∀ p ∈ swapRun, DistinctPods p.1.identities := by
    intro p hp
    rcases List.mem_pair.mp hp with rfl | rfl
    all_goals
      refine ⟨⟨by decide, by decide⟩, by decide, fun i hi => ?_⟩
      rcases List.mem_pair.mp hi with rfl | rfl <;> exact ⟨_, rfl⟩
  have hexact := (identity_map_exact_iff hrun hpods).mpr
    (.cons_cons ⟨by decide, by decide⟩ (.cons_cons ⟨by decide, by decide⟩ (.singleton _)))
  exact ⟨hexact _ List.mem_cons_self, hexact _ (List.mem_cons_of_mem _ List.mem_cons_self)⟩

/-- Two updates that leave the map wrong: an ID moves, and its old address keeps the entry; an address is handed
    to a new ID, and loses its entry. -/
theorem identity_map_not_exact :
    ((applied onePodWriter [pod 7 "10.0.0.1"] [pod 7 "10.0.0.3"]).1 = none ∧
      (applied onePodWriter [pod 7 "10.0.0.1"] [pod 7 "10.0.0.3"]).2.identityMap (podKey (pod 7 "10.0.0.1")) = some 7 ∧
      podKey (pod 7 "10.0.0.1") ≠ podKey (pod 7 "10.0.0.3")) ∧
    ((applied onePodWriter [pod 7 "10.0.0.1"] [pod 9 "10.0.0.1"]).1 = none ∧
      (applied onePodWriter [pod 7 "10.0.0.1"] [pod 9 "10.0.0.1"]).2.identityMap (podKey (pod 9 "10.0.0.1")) = none) := by
  decide

end Meridian.Xds
