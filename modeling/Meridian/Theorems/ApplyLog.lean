import Meridian.Agent.Datapath
import Meridian.Lib.Run

/-! A commit plan as a list of map operations. `apply` runs the list and stops at the first operation that
    fails, so what a call leaves behind is a prefix of the list; and what a prefix leaves behind is, for each
    map, its log of writes. -/

namespace Meridian.Datapath
open Lib Wire

/-- One operation on the maps, with the writer's own record of it. -/
inductive MapOp where
  | identityPut (id : IdentityID) (key : UInt32)
  | policyPut (rule : PolicyRule)
  | policyDelete (key : PolicyRuleKey)
  | identityDelete (id : IdentityID) (key : UInt32)
  deriving DecidableEq, Repr

def MapOp.error : MapOp → ApplyError
  | .identityPut id key => .identityUpsert id key
  | .policyPut rule => .policyUpsert rule.key
  | .policyDelete key => .policyDelete key
  | .identityDelete id key => .identityDelete id key

def MapOp.step (w : Writer) : MapOp → Writer
  | .identityPut id key =>
    { w with identityMap := Table.put w.identityMap key id, identityKeyByID := Table.put w.identityKeyByID id key }
  | .policyPut rule =>
    { w with policyMap := Table.put w.policyMap (translatePolicyRuleKey rule.key) (translatePolicyVerdict rule.verdict) }
  | .policyDelete key => { w with policyMap := Table.erase w.policyMap (translatePolicyRuleKey key) }
  | .identityDelete id key =>
    { w with identityMap := Table.erase w.identityMap key, identityKeyByID := Table.erase w.identityKeyByID id }

/-- A step of a plan: an operation, or an identity that cannot be translated into one. -/
abbrev PlanOp := Except TranslateError MapOp

def upsertOp (identity : Identity) : PlanOp := (translateIdentity identity).map fun entry => .identityPut identity.id entry.key

def deleteOps : Table IdentityID UInt32 → List IdentityID → List PlanOp
  | _, [] => []
  | record, id :: rest =>
    match record id with
    | none => deleteOps record rest
    | some key => .ok (.identityDelete id key) :: deleteOps (Table.erase record id) rest

def recordAfter (record : Table IdentityID UInt32) : List Identity → Table IdentityID UInt32
  | [] => record
  | identity :: rest =>
    match translateIdentity identity with
    | .error _ => record
    | .ok entry => recordAfter (Table.put record identity.id entry.key) rest

/-- The operations of a plan, in the order in which `apply` makes them. -/
def planOps (w : Writer) (plan : CommitPlan) : List PlanOp :=
  plan.identityUpserts.map upsertOp ++ (plan.policyUpserts.map (fun rule => .ok (.policyPut rule)) ++
    (plan.policyDeletes.map (fun key => .ok (.policyDelete key)) ++
      deleteOps (recordAfter w.identityKeyByID plan.identityUpserts) plan.identityDeletes))

def runOps (fails : Nat → Bool) : List PlanOp → ApplyState → Option ApplyError × ApplyState
  | [], s => (none, s)
  | .error e :: _, s => (some (.translate e), s)
  | .ok op :: rest, s =>
    if fails s.ops then (some op.error, ⟨s.writer, s.ops + 1⟩) else runOps fails rest ⟨op.step s.writer, s.ops + 1⟩

/-! ### `apply` runs the operations of its plan -/

section
variable {K V : Type} [DecidableEq K]

theorem mapDelete_false (t : Table K V) (k : K) :
    (mapDelete false t k = .error .keyNotExist ∧ Table.erase t k = t) ∨ mapDelete false t k = .ok (Table.erase t k) := by
  cases h : t k with
  | none => exact Or.inl ⟨by simp [mapDelete, h], Table.write_eq_self h⟩
  | some v => exact Or.inr (by simp [mapDelete, h])

end

section
variable (fails : Nat → Bool)

theorem runOps_append (a b : List PlanOp) (s : ApplyState) :
    runOps fails (a ++ b) s = andThen (runOps fails a s) (runOps fails b) := by
  induction a generalizing s with
  | nil => rfl
  | cons op a ih =>
    cases op with
    | error e => rfl
    | ok op =>
      rw [List.cons_append, runOps, runOps]
      split
      · rfl
      · exact ih _

theorem applyIdentityUpserts_eq (identities : List Identity) (s : ApplyState) :
    applyIdentityUpserts fails identities s = runOps fails (identities.map upsertOp) s := by
  induction identities generalizing s with
  | nil => rfl
  | cons identity rest ih =>
    rw [applyIdentityUpserts, List.map_cons, upsertOp]
    cases htrans : translateIdentity identity with
    | error e => rfl
    | ok entry =>
      have hvalue : entry.value = identity.id := by
        unfold translateIdentity at htrans
        split at htrans <;> cases htrans
        rfl
      cases hfail : fails s.ops with
      | true => simp [mapUpdate, Except.map, runOps, hfail, MapOp.error]
      | false => simp [mapUpdate, Except.map, runOps, hfail, MapOp.step, ih, hvalue]

theorem applyPolicyUpserts_eq (rules : List PolicyRule) (s : ApplyState) :
    applyPolicyUpserts fails rules s = runOps fails (rules.map fun rule => .ok (.policyPut rule)) s := by
  induction rules generalizing s with
  | nil => rfl
  | cons rule rest ih =>
    rw [applyPolicyUpserts, List.map_cons, runOps]
    cases fails s.ops with
    | true => rfl
    | false => exact ih _

theorem applyPolicyDeletes_eq (keys : List PolicyRuleKey) (s : ApplyState) :
    applyPolicyDeletes fails keys s = runOps fails (keys.map fun key => .ok (.policyDelete key)) s := by
  induction keys generalizing s with
  | nil => rfl
  | cons key rest ih =>
    rw [applyPolicyDeletes, List.map_cons, runOps]
    cases fails s.ops with
    | true => rfl
    | false =>
      rw [if_neg Bool.false_ne_true, MapOp.step, ← ih]
      rcases mapDelete_false s.writer.policyMap (translatePolicyRuleKey key) with ⟨hdel, hsame⟩ | hdel
      · rw [hdel, hsame]
      · rw [hdel]

theorem applyIdentityDeletes_eq (ids : List IdentityID) (s : ApplyState) :
    applyIdentityDeletes fails ids s = runOps fails (deleteOps s.writer.identityKeyByID ids) s := by
  induction ids generalizing s with
  | nil => rfl
  | cons id rest ih =>
    rw [applyIdentityDeletes, deleteOps]
    cases hrecord : s.writer.identityKeyByID id with
    | none => exact ih s
    | some key =>
      dsimp only
      rw [runOps]
      cases fails s.ops with
      | true => rfl
      | false =>
        rw [if_neg Bool.false_ne_true, MapOp.step]
        rcases mapDelete_false s.writer.identityMap key with ⟨hdel, hsame⟩ | hdel
        · rw [hdel, hsame]
          exact ih _
        · rw [hdel]
          exact ih _

theorem andThen_congr {r : Option ApplyError × ApplyState} {f g : ApplyState → Option ApplyError × ApplyState}
    (h : ∀ s, r = (none, s) → f s = g s) : andThen r f = andThen r g := by
  obtain ⟨e, s⟩ := r
  cases e with
  | some e => rfl
  | none => exact h s rfl

theorem runOps_upserts_record {identities : List Identity} {s s' : ApplyState}
    (h : runOps fails (identities.map upsertOp) s = (none, s')) :
    s'.writer.identityKeyByID = recordAfter s.writer.identityKeyByID identities := by
  induction identities generalizing s with
  | nil =>
    cases h
    rfl
  | cons identity rest ih =>
    rw [List.map_cons, upsertOp] at h
    rw [recordAfter]
    cases htrans : translateIdentity identity with
    | error e =>
      rw [htrans] at h
      cases h
    | ok entry =>
      rw [htrans, Except.map, runOps] at h
      split at h
      · cases h
      · exact ih h

theorem runOps_policy_record (ops : List MapOp)
    (hops : ∀ op ∈ ops, ∀ w, (op.step w).identityKeyByID = w.identityKeyByID)
    {s s' : ApplyState} (h : runOps fails (ops.map .ok) s = (none, s')) :
    s'.writer.identityKeyByID = s.writer.identityKeyByID := by
  induction ops generalizing s with
  | nil =>
    cases h
    rfl
  | cons op rest ih =>
    rw [List.forall_mem_cons] at hops
    rw [List.map_cons, runOps] at h
    split at h
    · cases h
    · rw [ih hops.2 h, hops.1]

theorem apply_eq_runOps (plan : CommitPlan) (w : Writer) :
    apply fails plan w =
      ((runOps fails (planOps w plan) ⟨w, 0⟩).1, (runOps fails (planOps w plan) ⟨w, 0⟩).2.writer) := by
  suffices h : (andThen (applyIdentityUpserts fails plan.identityUpserts ⟨w, 0⟩) fun s =>
      andThen (applyPolicyUpserts fails plan.policyUpserts s) fun s =>
      andThen (applyPolicyDeletes fails plan.policyDeletes s) fun s =>
      applyIdentityDeletes fails plan.identityDeletes s) = runOps fails (planOps w plan) ⟨w, 0⟩ by
    rw [← h]
    rfl
  rw [planOps, runOps_append, applyIdentityUpserts_eq]
  refine andThen_congr fun s₁ h₁ => ?_
  rw [runOps_append, applyPolicyUpserts_eq]
  refine andThen_congr fun s₂ h₂ => ?_
  rw [runOps_append, applyPolicyDeletes_eq]
  refine andThen_congr fun s₃ h₃ => ?_
  -- The deletions see the record that the upserts left: the policy operations do not touch it.
  have hrec₁ := runOps_upserts_record fails h₁
  have hrec₂ : s₂.writer.identityKeyByID = s₁.writer.identityKeyByID :=
    runOps_policy_record fails (plan.policyUpserts.map .policyPut)
      (by simp only [List.forall_mem_map]; exact fun _ _ _ => rfl) (by rw [List.map_map]; exact h₂)
  have hrec₃ : s₃.writer.identityKeyByID = s₂.writer.identityKeyByID :=
    runOps_policy_record fails (plan.policyDeletes.map .policyDelete)
      (by simp only [List.forall_mem_map]; exact fun _ _ _ => rfl) (by rw [List.map_map]; exact h₃)
  rw [applyIdentityDeletes_eq, hrec₃, hrec₂, hrec₁]

end

/-! ### What a run of operations leaves -/

def okOps (ops : List PlanOp) : List MapOp := ops.filterMap Except.toOption

/-- The index of the first step that fails, when `n` operations were tried before. -/
def firstFailure (fails : Nat → Bool) : List PlanOp → Nat → Option Nat
  | [], _ => none
  | .error _ :: _, _ => some 0
  | .ok _ :: rest, n => if fails n then some 0 else (firstFailure fails rest (n + 1)).map (· + 1)

theorem runOps_error_iff (fails : Nat → Bool) (ops : List PlanOp) (s : ApplyState) :
    (runOps fails ops s).1 = none ↔ firstFailure fails ops s.ops = none := by
  induction ops generalizing s with
  | nil => simp [runOps, firstFailure]
  | cons op rest ih =>
    cases op with
    | error e => simp [runOps, firstFailure]
    | ok op =>
      rw [runOps, firstFailure]
      cases fails s.ops with
      | true => simp
      | false => simp [ih]

variable {fails : Nat → Bool} {n : Nat} {w : Writer} {plan : CommitPlan}

theorem ok_of_firstFailure_none {ops : List PlanOp} (h : firstFailure fails ops n = none) : ∀ op ∈ ops, ∃ m, op = .ok m := by
  induction ops generalizing n with
  | nil => simp
  | cons op rest ih =>
    cases op with
    | error e => cases h
    | ok op =>
      rw [firstFailure] at h
      split at h
      · cases h
      · rw [Option.map_eq_none_iff] at h
        exact List.forall_mem_cons.mpr ⟨⟨op, rfl⟩, ih h⟩

theorem firstFailure_of_working (hworks : ∀ n, fails n = false) {ops : List PlanOp} (hok : ∀ op ∈ ops, ∃ m, op = .ok m)
    (n : Nat) : firstFailure fails ops n = none := by
  induction ops generalizing n with
  | nil => rfl
  | cons op rest ih =>
    obtain ⟨⟨m, rfl⟩, hrest⟩ := List.forall_mem_cons.mp hok
    rw [firstFailure, hworks, if_neg Bool.false_ne_true, ih hrest, Option.map_none]

/-- The writer after a run: every operation before the first failure was made, and no other. -/
theorem runOps_writer (fails : Nat → Bool) (ops : List PlanOp) (s : ApplyState) :
    (runOps fails ops s).2.writer =
      execute MapOp.step s.writer (okOps (ops.take ((firstFailure fails ops s.ops).getD ops.length))) := by
  induction ops generalizing s with
  | nil => rfl
  | cons op rest ih =>
    cases op with
    | error e => rfl
    | ok op =>
      rw [runOps, firstFailure]
      cases fails s.ops with
      | true => rfl
      | false =>
        rw [if_neg Bool.false_ne_true, if_neg Bool.false_ne_true, ih]
        cases firstFailure fails rest (s.ops + 1) with
        | none => rfl
        | some n => rfl

/-! ### Logs of writes -/

def MapOp.identityWrite : MapOp → Option (Write UInt32 UInt32)
  | .identityPut id key => some (key, some id)
  | .identityDelete _ key => some (key, none)
  | _ => none

def MapOp.policyWrite : MapOp → Option (Write Bpf.PolicyKey Bpf.PolicyVerdict)
  | .policyPut rule => some (translatePolicyRuleKey rule.key, some (translatePolicyVerdict rule.verdict))
  | .policyDelete key => some (translatePolicyRuleKey key, none)
  | _ => none

def MapOp.recordWrite : MapOp → Option (Write IdentityID UInt32)
  | .identityPut id key => some (id, some key)
  | .identityDelete id _ => some (id, none)
  | _ => none

theorem execute_eq_writes (w : Writer) (ops : List MapOp) :
    execute MapOp.step w ops =
      { identityMap := Table.writes w.identityMap (ops.filterMap MapOp.identityWrite)
        policyMap := Table.writes w.policyMap (ops.filterMap MapOp.policyWrite)
        identityKeyByID := Table.writes w.identityKeyByID (ops.filterMap MapOp.recordWrite) } := by
  induction ops generalizing w with
  | nil => rfl
  | cons op ops ih =>
    rw [execute_cons, ih]
    cases op <;> rfl

/-! ### Failed applies -/

/-- Every entry that the operations write holds already what the last of them writes there. -/
structure NoNetEffect (w : Writer) (ops : List MapOp) : Prop where
  identityMap : ∀ k o, Table.lastWrite (ops.filterMap MapOp.identityWrite) k = some o → w.identityMap k = o
  policyMap : ∀ k o, Table.lastWrite (ops.filterMap MapOp.policyWrite) k = some o → w.policyMap k = o
  identityKeyByID : ∀ k o, Table.lastWrite (ops.filterMap MapOp.recordWrite) k = some o → w.identityKeyByID k = o

theorem execute_eq_self_iff {ops : List MapOp} : execute MapOp.step w ops = w ↔ NoNetEffect w ops := by
  rw [execute_eq_writes]
  constructor
  · intro h
    exact ⟨Table.writes_eq_self_iff.mp (congrArg Writer.identityMap h),
      Table.writes_eq_self_iff.mp (congrArg Writer.policyMap h),
      Table.writes_eq_self_iff.mp (congrArg Writer.identityKeyByID h)⟩
  · intro h
    rw [Table.writes_eq_self_iff.mpr h.identityMap, Table.writes_eq_self_iff.mpr h.policyMap,
      Table.writes_eq_self_iff.mpr h.identityKeyByID]

def opsBefore (w : Writer) (plan : CommitPlan) (n : Nat) : List MapOp := okOps ((planOps w plan).take n)

theorem apply_eq_none_iff : (apply fails plan w).1 = none ↔ firstFailure fails (planOps w plan) 0 = none := by
  rw [apply_eq_runOps]
  exact runOps_error_iff fails _ _

theorem apply_writer_of_failure (h : firstFailure fails (planOps w plan) 0 = some n) :
    (apply fails plan w).2 = execute MapOp.step w (opsBefore w plan n) := by
  rw [apply_eq_runOps]
  dsimp only
  rw [runOps_writer, h]
  rfl

theorem apply_writer_eq_self_iff (h : firstFailure fails (planOps w plan) 0 = some n) :
    (apply fails plan w).2 = w ↔ NoNetEffect w (opsBefore w plan n) := by
  rw [apply_writer_of_failure h, execute_eq_self_iff]

/-- A call that fails leaves the maps and the record as they were exactly when the operations before the
    failing one had no net effect. -/
theorem failed_apply_unchanged_iff (fails : Nat → Bool) (plan : CommitPlan) (w : Writer) :
    ((apply fails plan w).1 ≠ none → (apply fails plan w).2 = w) ↔
      ∀ n, firstFailure fails (planOps w plan) 0 = some n → NoNetEffect w (opsBefore w plan n) := by
  cases hfail : firstFailure fails (planOps w plan) 0 with
  | none =>
    have hok := apply_eq_none_iff.mpr hfail
    exact iff_of_true (fun h => absurd hok h) (fun n h => by cases h)
  | some n =>
    have herr : (apply fails plan w).1 ≠ none := fun h => by
      rw [apply_eq_none_iff.mp h] at hfail
      cases hfail
    rw [apply_writer_eq_self_iff hfail]
    constructor
    · intro h m hm
      cases hm
      exact h herr
    · intro h _
      exact h n rfl

/-- Two new rules, the second of which cannot be written. -/
def twoRulePlan : CommitPlan :=
  { identityUpserts := [], identityDeletes := [], policyDeletes := []
    policyUpserts := [⟨⟨7, 8, 80, 6, 0⟩, ⟨policyActionAllow, 0⟩⟩, ⟨⟨7, 8, 443, 6, 0⟩, ⟨policyActionAllow, 0⟩⟩] }

/-- The call fails and the first rule stays in the policy map. -/
theorem failed_apply_leaves_rule :
    (apply (fun n => n = 1) twoRulePlan (Writer.new (fun _ => none) fun _ => none)).1 =
        some (.policyUpsert ⟨7, 8, 443, 6, 0⟩) ∧
      (Writer.new (fun _ => none) fun _ => none).policyMap ⟨7, 8, 80, 6, 0⟩ = none ∧
      (apply (fun n => n = 1) twoRulePlan (Writer.new (fun _ => none) fun _ => none)).2.policyMap ⟨7, 8, 80, 6, 0⟩ =
        some ⟨policyActionAllow, 0⟩ := by
  decide

end Meridian.Datapath
