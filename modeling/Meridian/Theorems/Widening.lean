import Meridian.Theorems.Update

/-! Flows between the operations of an update. The identities are written before the rules change, so that an
    old rule meets identities that were just written, and a new rule meets identities that are still at an
    address they leave. A flow that neither snapshot allows is let through exactly when such a pair has a rule. -/

namespace Meridian.Xds
open Lib Wire Datapath

/-! ### Flows -/

structure Flow where
  src : UInt32
  dst : UInt32
  port : UInt16
  proto : UInt8
  direction : UInt8
  deriving DecidableEq, Repr

def Flow.key (f : Flow) (srcId dstId : UInt32) : Bpf.PolicyKey := ⟨srcId, dstId, f.port, f.proto, f.direction⟩

def Passes (action : UInt8) : Prop := action = Bpf.flowVerdictAllow ∨ action = Bpf.flowVerdictRedirect

/-- Both addresses have known identities and the entry for these lets the flow through. -/
def Allowed (w : Writer) (f : Flow) : Prop :=
  ∃ srcId dstId v, w.identityMap f.src = some srcId ∧ w.identityMap f.dst = some dstId ∧ srcId ≠ 0 ∧ dstId ≠ 0 ∧
    w.policyMap (f.key srcId dstId) = some v ∧ Passes v.action

/-- A rule of the snapshot lets the flow through between the two identities. -/
def Snapshot.Permits (s : Snapshot) (i j : Identity) (f : Flow) : Prop :=
  i.id ≠ 0 ∧ j.id ≠ 0 ∧ ∃ r ∈ s.policies, translatePolicyRuleKey r.key = f.key i.id j.id ∧ Passes r.verdict.action

def Flow.Between (f : Flow) (i j : Identity) : Prop := podKey i = f.src ∧ podKey j = f.dst

def Snapshot.Allows (s : Snapshot) (f : Flow) : Prop :=
  ∃ i ∈ s.identities, ∃ j ∈ s.identities, f.Between i j ∧ s.Permits i j f

structure DistinctSnapshot (s : Snapshot) : Prop extends DistinctIdentities s.identities where
  keys : (s.policies.map (·.key)).Nodup
  valid : ∀ i ∈ s.identities, ValidAddress i

/-- The maps hold the snapshot and nothing else. -/
structure HoldsSnapshot (w : Writer) (s : Snapshot) : Prop where
  identities : HoldsIdentities w.identityMap s.identities
  rules : HoldsRules w.policyMap s.policies

variable {w : Writer} {old next : Snapshot} {n : Nat}

theorem HoldsSnapshot.allowed_iff {s : Snapshot} (h : HoldsSnapshot w s) (hvalid : ∀ i ∈ s.identities, ValidAddress i)
    {f : Flow} : Allowed w f ↔ s.Allows f := by
  have hentries := (holdsIdentities_iff_entries hvalid).mp h.identities
  constructor
  · rintro ⟨srcId, dstId, v, hsrc, hdst, hs0, hd0, hentry, hpass⟩
    obtain ⟨i, hi, hisrc, rfl⟩ := (hentries _ _).mp hsrc
    obtain ⟨j, hj, hjdst, rfl⟩ := (hentries _ _).mp hdst
    obtain ⟨r, hr, hkey, rfl⟩ := (h.rules _ _).mp hentry
    exact ⟨i, hi, j, hj, ⟨hisrc, hjdst⟩, hs0, hd0, r, hr, hkey, hpass⟩
  · rintro ⟨i, hi, j, hj, ⟨hisrc, hjdst⟩, hs0, hd0, r, hr, hkey, hpass⟩
    exact ⟨i.id, j.id, translatePolicyVerdict r.verdict, (hentries _ _).mpr ⟨i, hi, hisrc, rfl⟩,
      (hentries _ _).mpr ⟨j, hj, hjdst, rfl⟩, hs0, hd0, (h.rules _ _).mpr ⟨r, hr, hkey, rfl⟩, hpass⟩

/-- A writer whose maps are those of a snapshot. -/
def snapshotWriter (s : Snapshot) : Writer :=
  Writer.new (Table.writes (fun _ => none) (s.identities.filterMap podWrite))
    (Table.writes (fun _ => none) (s.policies.map ruleWrite))

theorem holdsSnapshot_snapshotWriter {s : Snapshot} (h : DistinctSnapshot s) : HoldsSnapshot (snapshotWriter s) s where
  identities := holdsIdentities_podWrites h.toDistinctIdentities
  rules key verdict := by
    refine Table.writes_puts_eq_some_iff fun a ha b hb hkey => ?_
    rw [eq_of_key h.keys ha hb (translatePolicyRuleKey_injective hkey)]

/-! ### The state between two operations -/

/-- The identities that an update writes, in order. -/
abbrev written (old next : Snapshot) : List Identity := upserts (·.id) old.identities next.identities

/-- The rule operations of an update, in order. -/
def ruleOps (old next : Snapshot) : List MapOp :=
  (diff old next).policyUpserts.map .policyPut ++ (diff old next).policyDeletes.map .policyDelete

def identityDeletions (w : Writer) (old next : Snapshot) : List MapOp :=
  okOps (deleteOps (recordAfter w.identityKeyByID (written old next)) (diff old next).identityDeletes)

theorem okOps_take {ops : List PlanOp} (hok : ∀ op ∈ ops, ∃ m, op = .ok m) (n : Nat) :
    okOps (ops.take n) = (okOps ops).take n := by
  induction ops generalizing n with
  | nil => simp [okOps]
  | cons op rest ih =>
    obtain ⟨⟨m, rfl⟩, hrest⟩ := List.forall_mem_cons.mp hok
    cases n with
    | zero => rfl
    | succ n => exact congrArg (m :: ·) (ih hrest n)

theorem deleteOps_ok (record : Table IdentityID UInt32) (ids : List IdentityID) :
    ∀ op ∈ deleteOps record ids, ∃ id key, op = .ok (.identityDelete id key) := by
  induction ids generalizing record with
  | nil => simp [deleteOps]
  | cons id rest ih =>
    rw [deleteOps]
    cases record id with
    | none => exact ih record
    | some key => exact List.forall_mem_cons.mpr ⟨⟨id, key, rfl⟩, ih _⟩

/-- Only an identity without a valid address has no operation. -/
theorem planOps_ok {plan : CommitPlan} (hvalid : ∀ i ∈ plan.identityUpserts, ValidAddress i) :
    ∀ op ∈ planOps w plan, ∃ m, op = .ok m := by
  intro op hop
  rw [planOps, List.mem_append, List.mem_append, List.mem_append] at hop
  rcases hop with hop | hop | hop | hop
  · obtain ⟨i, hi, rfl⟩ := List.mem_map.mp hop
    exact ⟨_, upsertOp_of_key (hvalid i hi).key_eq⟩
  · obtain ⟨r, -, rfl⟩ := List.mem_map.mp hop
    exact ⟨_, rfl⟩
  · obtain ⟨key, -, rfl⟩ := List.mem_map.mp hop
    exact ⟨_, rfl⟩
  · obtain ⟨id, key, rfl⟩ := deleteOps_ok _ _ op hop
    exact ⟨_, rfl⟩

theorem eq_identityDelete_of_mem {op : MapOp} (h : op ∈ (identityDeletions w old next).take n) :
    ∃ id key, op = .identityDelete id key := by
  obtain ⟨_, hmem, hop⟩ := List.mem_filterMap.mp (List.mem_of_mem_take h)
  obtain ⟨id, key, rfl⟩ := deleteOps_ok _ _ _ hmem
  cases hop
  exact ⟨id, key, rfl⟩

section
variable {old next : Snapshot} {w : Writer} (hvalid : ∀ i ∈ next.identities, ValidAddress i)
include hvalid

theorem written_valid : ∀ i ∈ written old next, ValidAddress i := fun i hi => hvalid i (List.mem_filter.mp hi).1

theorem planOps_diff_ok : ∀ op ∈ planOps w (diff old next), ∃ m, op = .ok m := planOps_ok (written_valid hvalid)

/-- The first `n` operations of an update: identities are written, then rules change, then identities go. -/
theorem opsBefore_diff (n : Nat) :
    opsBefore w (diff old next) n =
      ((written old next).take n).map (fun i => .identityPut i.id (podKey i)) ++
        ((ruleOps old next).take (n - (written old next).length) ++
          (identityDeletions w old next).take (n - (written old next).length - (ruleOps old next).length)) := by
  have hops : okOps (planOps w (diff old next)) = (written old next).map (fun i => .identityPut i.id (podKey i)) ++
      (ruleOps old next ++ identityDeletions w old next) := by
    have hids : (diff old next).identityUpserts = written old next := rfl
    rw [okOps_planOps, hids, upsertOps_eq (written_valid hvalid), ruleOps, List.append_assoc]
    rfl
  rw [opsBefore, okOps_take (planOps_diff_ok hvalid), hops, List.take_append, List.take_append, List.length_map,
    List.map_take]

end

/-- An identity that the map shows once the identities `done` are written: one of these, or an old one at an
    address that none of them has. -/
def Present (old done : List Identity) (i : Identity) : Prop :=
  i ∈ done ∨ i ∈ old ∧ ∀ u ∈ done, podKey u ≠ podKey i

section
variable {old next : Snapshot} {w : Writer} (hold : HoldsSnapshot w old) (hdo : DistinctSnapshot old)
  (hdn : DistinctSnapshot next)
include hold hdo hdn

theorem writes_written_iff {key id : UInt32} :
    Table.writes w.identityMap (((written old next).take n).map fun i => (podKey i, some i.id)) key = some id ↔
      ∃ i, Present old.identities ((written old next).take n) i ∧ podKey i = key ∧ i.id = id := by
  have hinj : ∀ a ∈ (written old next).take n, ∀ b ∈ (written old next).take n, podKey a = podKey b → a = b :=
    fun a ha b hb => eq_of_key (podKey_nodup hdn.toDistinctIdentities hdn.valid)
      (List.mem_filter.mp (List.mem_of_mem_take ha)).1 (List.mem_filter.mp (List.mem_of_mem_take hb)).1
  have hentries := (holdsIdentities_iff_entries hdo.valid).mp hold.identities
  have hiff : Table.writes w.identityMap (((written old next).take n).map (fun i => (podKey i, some i.id)) ++
      ([] : List Identity).map fun i => (podKey i, none)) key = some id ↔ _ := writes_puts_erases hinj
  rw [List.map_nil, List.append_nil] at hiff
  rw [hiff]
  constructor
  · rintro ⟨-, ⟨i, hi, hkey, hid⟩ | ⟨hfree, hentry⟩⟩
    · exact ⟨i, Or.inl hi, hkey, hid⟩
    · obtain ⟨i, hi, rfl, hid⟩ := (hentries _ _).mp hentry
      exact ⟨i, Or.inr ⟨hi, hfree⟩, rfl, hid⟩
  · rintro ⟨i, hi | ⟨hi, hfree⟩, rfl, hid⟩
    · exact ⟨by simp, Or.inl ⟨i, hi, rfl, hid⟩⟩
    · exact ⟨by simp, Or.inr ⟨hfree, (hentries _ _).mpr ⟨i, hi, rfl, hid⟩⟩⟩

end

section
variable {old next : Snapshot} {w : Writer} (hvalid : ∀ i ∈ next.identities, ValidAddress i)
include hvalid

theorem identityMap_between (n : Nat) :
    (execute MapOp.step w (opsBefore w (diff old next) n)).identityMap =
      Table.writes (Table.writes w.identityMap (((written old next).take n).map fun i => (podKey i, some i.id)))
        (((identityDeletions w old next).take (n - (written old next).length - (ruleOps old next).length)).filterMap
          MapOp.identityWrite) := by
  have hrules : ((ruleOps old next).take (n - (written old next).length)).filterMap MapOp.identityWrite = [] := by
    refine List.filterMap_eq_nil_iff.mpr fun op hop => ?_
    rcases List.mem_append.mp (List.mem_of_mem_take hop) with hput | hdel
    · obtain ⟨r, -, rfl⟩ := List.mem_map.mp hput
      rfl
    · obtain ⟨key, -, rfl⟩ := List.mem_map.mp hdel
      rfl
  have hputs : ((written old next).take n).filterMap (MapOp.identityWrite ∘ fun i => .identityPut i.id (podKey i)) =
      ((written old next).take n).map fun i => (podKey i, some i.id) := congrFun List.filterMap_eq_map _
  rw [execute_eq_writes, opsBefore_diff hvalid]
  dsimp only
  rw [List.filterMap_append, List.filterMap_append, hrules, List.nil_append,
    List.filterMap_map, hputs, Table.writes_append]

theorem policyMap_between (n : Nat) :
    (execute MapOp.step w (opsBefore w (diff old next) n)).policyMap =
      Table.writes w.policyMap
        (((ruleOps old next).take (n - (written old next).length)).filterMap MapOp.policyWrite) := by
  have hputs : (((written old next).take n).map fun i => MapOp.identityPut i.id (podKey i)).filterMap
      MapOp.policyWrite = [] := by
    rw [List.filterMap_map]
    exact List.filterMap_eq_nil_iff.mpr fun _ _ => rfl
  have hdels : ((identityDeletions w old next).take
      (n - (written old next).length - (ruleOps old next).length)).filterMap MapOp.policyWrite = [] := by
    refine List.filterMap_eq_nil_iff.mpr fun op hop => ?_
    obtain ⟨id, key, rfl⟩ := eq_identityDelete_of_mem hop
    rfl
  rw [execute_eq_writes, opsBefore_diff hvalid]
  dsimp only
  rw [List.filterMap_append, List.filterMap_append, hputs, hdels, List.nil_append,
    List.append_nil]

theorem identityMap_between_of_some {key id : UInt32}
    (h : (execute MapOp.step w (opsBefore w (diff old next) n)).identityMap key = some id) :
    Table.writes w.identityMap (((written old next).take n).map fun i => (podKey i, some i.id)) key = some id := by
  rw [identityMap_between hvalid] at h
  refine Table.of_writes_erases (fun wr hwr => ?_) h
  obtain ⟨op, hop, hwrite⟩ := List.mem_filterMap.mp hwr
  obtain ⟨id, key, rfl⟩ := eq_identityDelete_of_mem hop
  cases hwrite
  rfl

end

theorem mem_ruleOps_writes {key : Bpf.PolicyKey} {v : Bpf.PolicyVerdict}
    (h : (key, some v) ∈ (ruleOps old next).filterMap MapOp.policyWrite) :
    ∃ r ∈ next.policies, translatePolicyRuleKey r.key = key ∧ translatePolicyVerdict r.verdict = v := by
  obtain ⟨op, hop, hwrite⟩ := List.mem_filterMap.mp h
  rcases List.mem_append.mp hop with hput | hdel
  · obtain ⟨r, hr, rfl⟩ := List.mem_map.mp hput
    cases hwrite
    exact ⟨r, (List.mem_filter.mp hr).1, rfl, rfl⟩
  · obtain ⟨_, -, rfl⟩ := List.mem_map.mp hdel
    cases hwrite

/-- A rule entry between two operations is an old one, or one of the next snapshot once all identities are
    written. -/
theorem rule_between (hold : HoldsSnapshot w old) (hvalid : ∀ i ∈ next.identities, ValidAddress i) {key : Bpf.PolicyKey}
    {v : Bpf.PolicyVerdict} (h : (execute MapOp.step w (opsBefore w (diff old next) n)).policyMap key = some v) :
    (∃ r ∈ old.policies, translatePolicyRuleKey r.key = key ∧ translatePolicyVerdict r.verdict = v) ∨
      (written old next).length ≤ n ∧
        ∃ r ∈ next.policies, translatePolicyRuleKey r.key = key ∧ translatePolicyVerdict r.verdict = v := by
  rw [policyMap_between hvalid, Table.writes_apply] at h
  cases hl : Table.lastWrite (((ruleOps old next).take (n - (written old next).length)).filterMap
      MapOp.policyWrite) key with
  | none =>
    rw [hl] at h
    exact Or.inl ((hold.rules key v).mp h)
  | some o =>
    rw [hl, Option.getD_some] at h
    subst h
    have hmem := Table.mem_of_lastWrite hl
    refine Or.inr ⟨?_, mem_ruleOps_writes (((List.take_sublist _ _).filterMap _).subset hmem)⟩
    -- Some rule operation was made, so the identities were all written.
    by_contra hlt
    rw [Nat.sub_eq_zero_of_le (by omega), List.take_zero] at hmem
    cases hmem

/-- A flow that passes between two operations has a rule between identities that are present then. -/
theorem allowed_between (hold : HoldsSnapshot w old) (hdo : DistinctSnapshot old) (hdn : DistinctSnapshot next) {f : Flow}
    (h : Allowed (execute MapOp.step w (opsBefore w (diff old next) n)) f) :
    ∃ done i j, done <+: written old next ∧ Present old.identities done i ∧ Present old.identities done j ∧
      f.Between i j ∧ (old.Permits i j f ∨ done = written old next ∧ next.Permits i j f) := by
  obtain ⟨srcId, dstId, v, hsrc, hdst, hs0, hd0, hentry, hpass⟩ := h
  obtain ⟨i, hi, hisrc, rfl⟩ := (writes_written_iff hold hdo hdn).mp (identityMap_between_of_some hdn.valid hsrc)
  obtain ⟨j, hj, hjdst, rfl⟩ := (writes_written_iff hold hdo hdn).mp (identityMap_between_of_some hdn.valid hdst)
  refine ⟨_, i, j, List.take_prefix n _, hi, hj, ⟨hisrc, hjdst⟩, ?_⟩
  rcases rule_between hold hdn.valid hentry with ⟨r, hr, hkey, rfl⟩ | ⟨hall, r, hr, hkey, rfl⟩
  · exact Or.inl ⟨hs0, hd0, r, hr, hkey, hpass⟩
  · exact Or.inr ⟨List.take_of_length_le hall, hs0, hd0, r, hr, hkey, hpass⟩

section
variable {old next : Snapshot} {w : Writer} (hold : HoldsSnapshot w old) (hdo : DistinctSnapshot old)
  (hdn : DistinctSnapshot next) {i j : Identity} {f : Flow} (hf : f.Between i j)
include hold hdo hdn hf

theorem allowed_of_old_rule {done : List Identity} (hdone : done <+: written old next)
    (hi : Present old.identities done i) (hj : Present old.identities done j) (hrule : old.Permits i j f) :
    Allowed (execute MapOp.step w (opsBefore w (diff old next) done.length)) f := by
  have hzero : done.length - (written old next).length = 0 := Nat.sub_eq_zero_of_le hdone.length_le
  have htake : (written old next).take done.length = done := (List.prefix_iff_eq_take.mp hdone).symm
  have hshows : ∀ {x : Identity}, Present old.identities done x →
      (execute MapOp.step w (opsBefore w (diff old next) done.length)).identityMap (podKey x) = some x.id := by
    intro x hx
    rw [identityMap_between hdn.valid, hzero, Nat.zero_sub, List.take_zero]
    exact (writes_written_iff hold hdo hdn).mpr ⟨x, by rwa [htake], rfl, rfl⟩
  obtain ⟨hi0, hj0, r, hr, hkey, hpass⟩ := hrule
  refine ⟨i.id, j.id, translatePolicyVerdict r.verdict, hf.1 ▸ hshows hi, hf.2 ▸ hshows hj, hi0, hj0, ?_, hpass⟩
  rw [policyMap_between hdn.valid, hzero, List.take_zero]
  exact (hold.rules _ _).mpr ⟨r, hr, hkey, rfl⟩

theorem allowed_of_next_rule (hi : Present old.identities (written old next) i)
    (hj : Present old.identities (written old next) j) (hrule : next.Permits i j f) :
    Allowed (execute MapOp.step w (opsBefore w (diff old next) ((written old next).length + (ruleOps old next).length))) f := by
  have hshows : ∀ {x : Identity}, Present old.identities (written old next) x →
      (execute MapOp.step w (opsBefore w (diff old next) ((written old next).length + (ruleOps old next).length))).identityMap
        (podKey x) = some x.id := by
    intro x hx
    rw [identityMap_between hdn.valid, Nat.add_sub_cancel_left, Nat.sub_self, List.take_zero]
    refine (writes_written_iff hold hdo hdn).mpr ⟨x, ?_, rfl, rfl⟩
    rwa [List.take_of_length_le (Nat.le_add_right _ _)]
  have hlog : (ruleOps old next).filterMap MapOp.policyWrite =
      (upserts (·.key) old.policies next.policies).map
          (fun r => (translatePolicyRuleKey r.key, some (translatePolicyVerdict r.verdict))) ++
        (gone (·.key) old.policies next.policies).map fun r => (translatePolicyRuleKey r.key, none) := by
    simp [ruleOps, diff, List.filterMap_append, List.filterMap_map, Function.comp_def, MapOp.policyWrite]
  obtain ⟨hi0, hj0, r, hr, hkey, hpass⟩ := hrule
  refine ⟨i.id, j.id, translatePolicyVerdict r.verdict, hf.1 ▸ hshows hi, hf.2 ▸ hshows hj, hi0, hj0, ?_, hpass⟩
  rw [policyMap_between hdn.valid, Nat.add_sub_cancel_left, List.take_length, hlog]
  exact (entries_diff hdo.keys hdn.keys translatePolicyRuleKey_injective hold.rules _ _).mpr ⟨r, hr, hkey, rfl⟩

end

/-! ### Updates without mixing -/

/-- A flow that one of the two snapshots allows. -/
def EitherAllows (old next : Snapshot) (f : Flow) : Prop := old.Allows f ∨ next.Allows f

/-- The identity keeps its address in the map although the next snapshot does not use that address. -/
def LeftBehind (old next : Snapshot) (i : Identity) : Prop :=
  i ∈ old.identities ∧ ∀ c ∈ next.identities, podKey c ≠ podKey i

/-- No rule joins identities that meet only during the update, unless the flow between their addresses is allowed
    before or after: an old rule for two identities that are written, or for one of them and an old one at an
    address that is not rewritten up to then; and a new rule for an identity that is left behind. -/
structure NoMixing (old next : Snapshot) : Prop where
  bothWritten : ∀ i ∈ written old next, ∀ j ∈ written old next, ∀ f : Flow, f.Between i j →
    old.Permits i j f → EitherAllows old next f
  writtenAndOld : ∀ before i after, written old next = before ++ i :: after → ∀ j ∈ old.identities,
    (∀ u ∈ before ++ [i], podKey u ≠ podKey j) → ∀ f : Flow,
      (f.Between i j → old.Permits i j f → EitherAllows old next f) ∧
        (f.Between j i → old.Permits j i f → EitherAllows old next f)
  leftBehind : ∀ i j, LeftBehind old next i → (j ∈ next.identities ∨ LeftBehind old next j) → ∀ f : Flow,
    (f.Between i j → next.Permits i j f → EitherAllows old next f) ∧
      (f.Between j i → next.Permits j i f → EitherAllows old next f)

theorem present_written_iff (hdo : DistinctSnapshot old) (hdn : DistinctSnapshot next) {i : Identity} :
    Present old.identities (written old next) i ↔ i ∈ next.identities ∨ LeftBehind old next i := by
  have hmem : ∀ {x}, x ∈ written old next ↔ x ∈ next.identities ∧ x ∉ old.identities := mem_upserts hdo.ids
  constructor
  · rintro (hi | ⟨hi, hfree⟩)
    · exact Or.inl (hmem.mp hi).1
    · by_cases hused : ∃ c ∈ next.identities, podKey c = podKey i
      · obtain ⟨c, hc, hkey⟩ := hused
        -- Nobody new has the address, so its user was there before.
        have hcold : c ∈ old.identities := by
          by_contra hnew
          exact hfree c (hmem.mpr ⟨hc, hnew⟩) hkey
        exact Or.inl (eq_of_key (podKey_nodup hdo.toDistinctIdentities hdo.valid) hcold hi hkey ▸ hc)
      · push Not at hused
        exact Or.inr ⟨hi, hused⟩
  · rintro (hi | ⟨hi, hfree⟩)
    · by_cases hold : i ∈ old.identities
      · refine Or.inr ⟨hold, fun u hu hkey => ?_⟩
        have heq := eq_of_key (podKey_nodup hdn.toDistinctIdentities hdn.valid) (hmem.mp hu).1 hi hkey
        exact (hmem.mp hu).2 (heq ▸ hold)
      · exact Or.inl (hmem.mpr ⟨hi, hold⟩)
    · exact Or.inr ⟨hi, fun u hu => hfree u (hmem.mp hu).1⟩

section
variable {old next : Snapshot} {i j : Identity} {f : Flow}

theorem NoMixing.of_written_and_old (h : NoMixing old next) {done : List Identity} (hdone : done <+: written old next)
    (hi : i ∈ done) (hj : j ∈ old.identities) (hfree : ∀ u ∈ done, podKey u ≠ podKey j) :
    (f.Between i j → old.Permits i j f → EitherAllows old next f) ∧
      (f.Between j i → old.Permits j i f → EitherAllows old next f) := by
  obtain ⟨before, after, rfl⟩ := List.append_of_mem hi
  obtain ⟨rest, hrest⟩ := hdone
  rw [List.append_assoc, List.cons_append] at hrest
  refine h.writtenAndOld before i (after ++ rest) hrest.symm j hj (fun u hu => hfree u ?_) f
  rcases List.mem_append.mp hu with hu | hu
  · exact List.mem_append_left _ hu
  · obtain rfl := List.mem_singleton.mp hu
    exact hi

theorem NoMixing.old_rule (h : NoMixing old next) {done : List Identity} (hdone : done <+: written old next)
    (hi : Present old.identities done i) (hj : Present old.identities done j) (hf : f.Between i j)
    (hrule : old.Permits i j f) : EitherAllows old next f := by
  rcases hi with hi | ⟨hi, hifree⟩
  · rcases hj with hj | ⟨hj, hjfree⟩
    · exact h.bothWritten i (hdone.subset hi) j (hdone.subset hj) f hf hrule
    · exact (h.of_written_and_old hdone hi hj hjfree).1 hf hrule
  · rcases hj with hj | ⟨hj, -⟩
    · exact (h.of_written_and_old hdone hj hi hifree).2 hf hrule
    · exact Or.inl ⟨i, hi, j, hj, hf, hrule⟩

theorem NoMixing.next_rule (h : NoMixing old next) (hi : i ∈ next.identities ∨ LeftBehind old next i)
    (hj : j ∈ next.identities ∨ LeftBehind old next j) (hf : f.Between i j) (hrule : next.Permits i j f) :
    EitherAllows old next f := by
  rcases hi with hi | hi
  · rcases hj with hj | hj
    · exact Or.inr ⟨i, hi, j, hj, hf, hrule⟩
    · exact (h.leftBehind j i hj (Or.inl hi) f).2 hf hrule
  · exact (h.leftBehind i j hi hj f).1 hf hrule

end

/-- From maps that hold the old snapshot, every flow that passes between two operations of the update is allowed
    before or after it, exactly when the update does not mix identities and rules. -/
theorem no_transient_widening_iff {old next : Snapshot} {w wnext : Writer} (hold : HoldsSnapshot w old)
    (hnext : HoldsSnapshot wnext next) (hdo : DistinctSnapshot old) (hdn : DistinctSnapshot next) :
    (∀ n f, Allowed (execute MapOp.step w (opsBefore w (diff old next) n)) f → Allowed w f ∨ Allowed wnext f) ↔
      NoMixing old next := by
  simp only [hold.allowed_iff hdo.valid, hnext.allowed_iff hdn.valid]
  have hpresent : ∀ {i}, Present old.identities (written old next) i ↔ i ∈ next.identities ∨ LeftBehind old next i :=
    present_written_iff hdo hdn
  constructor
  · intro hbound
    refine ⟨?_, ?_, ?_⟩
    · intro i hi j hj f hf hrule
      exact hbound _ f (allowed_of_old_rule hold hdo hdn hf (List.prefix_refl _) (Or.inl hi) (Or.inl hj) hrule)
    · intro before i after hsplit j hj hfree f
      have hprefix : before ++ [i] <+: written old next := ⟨after, by rw [hsplit, List.append_assoc]; rfl⟩
      have hi : Present old.identities (before ++ [i]) i := Or.inl (by simp)
      exact ⟨fun hf hrule => hbound _ f (allowed_of_old_rule hold hdo hdn hf hprefix hi (Or.inr ⟨hj, hfree⟩) hrule),
        fun hf hrule => hbound _ f (allowed_of_old_rule hold hdo hdn hf hprefix (Or.inr ⟨hj, hfree⟩) hi hrule)⟩
    · intro i j hi hj f
      have hi' := hpresent.mpr (Or.inr hi)
      have hj' := hpresent.mpr hj
      exact ⟨fun hf hrule => hbound _ f (allowed_of_next_rule hold hdo hdn hf hi' hj' hrule),
        fun hf hrule => hbound _ f (allowed_of_next_rule hold hdo hdn hf hj' hi' hrule)⟩
  · intro hmix n f hallowed
    obtain ⟨done, i, j, hdone, hi, hj, hf, hrule | ⟨rfl, hrule⟩⟩ := allowed_between hold hdo hdn hallowed
    · exact hmix.old_rule hdone hi hj hf hrule
    · exact hmix.next_rule (hpresent.mp hi) (hpresent.mp hj) hf hrule

def rule (src dst : IdentityID) : PolicyRule := ⟨⟨src, dst, 80, 6, 0⟩, ⟨policyActionAllow, 0⟩⟩

/-- Two workloads, with a rule or without. -/
def twoPods (policies : List PolicyRule) : Snapshot := ⟨policies, podPair⟩

theorem twoPods_distinct {policies : List PolicyRule} (h : (policies.map (·.key)).Nodup) :
    DistinctSnapshot (twoPods policies) := by
  have hpair : DistinctIdentities podPair := ⟨by decide, by decide⟩
  refine ⟨hpair, h, fun i hi => ?_⟩
  rcases List.mem_pair.mp hi with rfl | rfl <;> exact ⟨_, rfl⟩

/-- Taking a rule away: the identities stay, so that nothing is mixed. -/
theorem no_transient_widening_rule_removed :
    NoMixing (twoPods [rule 7 8]) (twoPods []) ∧
      ∀ n f, Allowed (execute MapOp.step (snapshotWriter (twoPods [rule 7 8]))
          (opsBefore (snapshotWriter (twoPods [rule 7 8])) (diff (twoPods [rule 7 8]) (twoPods [])) n)) f →
        Allowed (snapshotWriter (twoPods [rule 7 8])) f ∨ Allowed (snapshotWriter (twoPods [])) f := by
  have hold : DistinctSnapshot (twoPods [rule 7 8]) := twoPods_distinct (by decide)
  have hnext : DistinctSnapshot (twoPods []) := twoPods_distinct (by decide)
  have hwritten : written (twoPods [rule 7 8]) (twoPods []) = [] := by decide
  have hmix : NoMixing (twoPods [rule 7 8]) (twoPods []) := by
    refine ⟨fun i hi => ?_, fun before i after heq => ?_, fun i j hi => absurd rfl (hi.2 i hi.1)⟩
    · rw [hwritten] at hi
      cases hi
    · simp [hwritten] at heq
  exact ⟨hmix, (no_transient_widening_iff (holdsSnapshot_snapshotWriter hold) (holdsSnapshot_snapshotWriter hnext) hold
    hnext).mpr hmix⟩

/-- Two addresses with their identities, and one rule, which is for neither pair. -/
def handedOver (first second : IdentityID) : Snapshot :=
  ⟨[rule 3 2], [pod first "10.0.0.1", pod second "10.0.0.2"]⟩

def handedOverFlow : Flow := ⟨podKey (pod 3 "10.0.0.1"), podKey (pod 2 "10.0.0.2"), 80, 6, 0⟩

/-- Both addresses get new identities. After the first is written, the flow passes that only the first new
    identity and the second old one have a rule for. -/
theorem transient_widening :
    HoldsSnapshot (snapshotWriter (handedOver 1 2)) (handedOver 1 2) ∧ DistinctSnapshot (handedOver 1 2) ∧
      DistinctSnapshot (handedOver 3 4) ∧
      Allowed (execute MapOp.step (snapshotWriter (handedOver 1 2))
        (opsBefore (snapshotWriter (handedOver 1 2)) (diff (handedOver 1 2) (handedOver 3 4)) 1)) handedOverFlow ∧
      ¬Allowed (snapshotWriter (handedOver 1 2)) handedOverFlow ∧
      ¬Allowed (snapshotWriter (handedOver 3 4)) handedOverFlow := by
  have hdistinct : DistinctSnapshot (handedOver 1 2) ∧ DistinctSnapshot (handedOver 3 4) := by
    refine ⟨⟨⟨by decide, by decide⟩, by decide, fun i hi => ?_⟩, ⟨⟨by decide, by decide⟩, by decide, fun i hi => ?_⟩⟩
    · rcases List.mem_pair.mp hi with rfl | rfl <;> exact ⟨_, rfl⟩
    · rcases List.mem_pair.mp hi with rfl | rfl <;> exact ⟨_, rfl⟩
  have hrefused : ∀ {w : Writer} {s d : UInt32}, w.identityMap handedOverFlow.src = some s →
      w.identityMap handedOverFlow.dst = some d → w.policyMap (handedOverFlow.key s d) = none →
      ¬Allowed w handedOverFlow := by
    rintro w s d hsrc hdst hnone ⟨s', d', v, hsrc', hdst', -, -, hentry, -⟩
    obtain rfl := Option.some.inj (hsrc.symm.trans hsrc')
    obtain rfl := Option.some.inj (hdst.symm.trans hdst')
    rw [hnone] at hentry
    cases hentry
  refine ⟨holdsSnapshot_snapshotWriter hdistinct.1, hdistinct.1, hdistinct.2, ?_, ?_, ?_⟩
  · exact ⟨3, 2, ⟨policyActionAllow, 0⟩, by decide, by decide, by decide, by decide, by decide, Or.inl rfl⟩
  · exact hrefused (s := 1) (d := 2) (by decide) (by decide) (by decide)
  · exact hrefused (s := 3) (d := 4) (by decide) (by decide) (by decide)

end Meridian.Xds
