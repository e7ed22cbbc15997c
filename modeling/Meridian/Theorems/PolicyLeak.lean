import Meridian.Theorems.PolicyMirror

/-! Failing store calls. An event replaces the record of its object before it deletes, and records a key only if its put
    succeeded, so a key whose call fails is in the store and on no record: only a later event that happens to put or
    delete it takes it back. -/

namespace Meridian.K8s
open Lib Wire

/-! ### One object -/

/-- An event of one object, with the spec that the object then has, if it converts. -/
inductive ObjectEvent where
  | upsert (spec : Option MeridianPolicySpec) (resolver : IdentityResolver) (fails : Failures)
  | delete (spec : Option MeridianPolicySpec) (tombstone : Bool) (resolver : IdentityResolver) (fails : Failures)

namespace ObjectEvent

def fails : ObjectEvent → Failures
  | .upsert _ _ fails | .delete _ _ _ fails => fails

def deletedObject (tombstone : Bool) (pol : Option MeridianPolicy) : Object :=
  if tombstone then .deletedFinalStateUnknown pol else .unstructured pol

@[simp] theorem policyFromObject_deletedObject (tombstone : Bool) (pol : Option MeridianPolicy) :
    policyFromObject (deletedObject tombstone pol) = pol := by
  cases tombstone <;> rfl

def event (ns name : String) : ObjectEvent → InformerEvent
  | .upsert spec resolver _ => .upsert (.unstructured (spec.map (⟨ns, name, ·⟩))) resolver
  | .delete spec tombstone resolver _ => .delete (deletedObject tombstone (spec.map (⟨ns, name, ·⟩))) resolver

/-- An upsert whose object does not convert or compile, and a deletion whose object does not convert, do nothing. -/
def Effective (ns name : String) : ObjectEvent → Prop
  | .upsert spec resolver _ => ∃ sp rules, spec = some sp ∧ compilePolicyRules ⟨ns, name, sp⟩ resolver = .ok rules
  | .delete spec _ _ _ => ∃ sp, spec = some sp

end ObjectEvent

/-- The watcher of an object, and the keys that it has put so far. -/
structure Owner where
  watcher : PolicyWatcher
  put : List PolicyRuleKey

namespace Owner

variable {ns name : String}

def start (store : Table PolicyRuleKey PolicyVerdict) : Owner := ⟨.new store, []⟩

/-- The keys whose put succeeds in the event. -/
def putsOf (ns name : String) (s : Owner) : ObjectEvent → List PolicyRuleKey
  | .upsert none _ _ | .delete _ _ _ _ => []
  | .upsert (some spec) resolver fails =>
    match compilePolicyRules ⟨ns, name, spec⟩ resolver with
    | .error _ => []
    | .ok rules => (putRules fails.put rules 0 s.watcher.store).2

/-- The keys whose deletion succeeds in the event. -/
def deletesOf (ns name : String) (s : Owner) (e : ObjectEvent) : List PolicyRuleKey :=
  deletedKeys e.fails.delete (s.watcher.deletes (e.event ns name)) 0

def step (ns name : String) (s : Owner) (e : ObjectEvent) : Owner :=
  ⟨s.watcher.handle e.fails (e.event ns name), s.put ++ s.putsOf ns name e⟩

def recorded (ns name : String) (s : Owner) : List PolicyRuleKey := s.watcher.recorded (ns ++ "/" ++ name)

/-- A store call of the event for the key succeeds. -/
def Writes (ns name : String) (key : PolicyRuleKey) (s : Owner) (e : ObjectEvent) : Prop :=
  key ∈ s.putsOf ns name e ∨ key ∈ s.deletesOf ns name e

/-- The event gives up the record of a key. -/
def Releases (ns name : String) (key : PolicyRuleKey) (s : Owner) (e : ObjectEvent) : Prop :=
  key ∈ s.recorded ns name ∧ e.Effective ns name

/-- The key is in the store, put there for the object, and on no record. -/
def Orphan (ns name : String) (key : PolicyRuleKey) (s : Owner) : Prop :=
  key ∈ s.put ∧ s.watcher.store key ≠ none ∧ key ∉ s.recorded ns name

/-- A recorded key was put and is in the store. -/
def Kept (ns name : String) (s : Owner) : Prop :=
  ∀ key ∈ s.recorded ns name, key ∈ s.put ∧ s.watcher.store key ≠ none

/-! ### The steps -/

variable {s : Owner} {e : ObjectEvent}

theorem putsOf_upsert {spec : MeridianPolicySpec} {resolver : IdentityResolver} {fails : Failures}
    {rules : List PolicyRule} (h : compilePolicyRules ⟨ns, name, spec⟩ resolver = .ok rules) :
    s.putsOf ns name (.upsert (some spec) resolver fails) = (putRules fails.put rules 0 s.watcher.store).2 := by
  simp only [putsOf, h]

theorem step_of_not_effective (h : ¬e.Effective ns name) : s.step ns name e = s := by
  cases e with
  | delete spec tombstone resolver fails =>
    obtain _ | spec := spec
    · cases tombstone <;> exact congrArg (Owner.mk s.watcher) (List.append_nil _)
    · exact absurd ⟨spec, rfl⟩ h
  | upsert spec resolver fails =>
    obtain _ | spec := spec
    · exact congrArg (Owner.mk s.watcher) (List.append_nil _)
    · cases hrules : compilePolicyRules ⟨ns, name, spec⟩ resolver with
      | ok rules => exact absurd ⟨spec, rules, rfl, hrules⟩ h
      | error err =>
        have hputs : s.putsOf ns name (.upsert (some spec) resolver fails) = [] := by
          simp only [putsOf, hrules]
        have hhandle : s.watcher.onUpsert fails resolver (.unstructured (some ⟨ns, name, spec⟩)) = s.watcher :=
          PolicyWatcher.onUpsert_eq_self fun pol hpol => by
            cases hpol
            exact ⟨err, hrules⟩
        rw [step, hputs, List.append_nil]
        exact congrArg (Owner.mk · s.put) hhandle

/-- The record after an event holds the keys that it has put. -/
theorem recorded_step (h : e.Effective ns name) : (s.step ns name e).recorded ns name = s.putsOf ns name e := by
  cases e with
  | upsert spec resolver fails =>
    obtain ⟨spec, rules, rfl, hrules⟩ := h
    rw [putsOf_upsert hrules]
    change PolicyWatcher.recorded (s.watcher.onUpsert fails resolver (.unstructured (some ⟨ns, name, spec⟩))) _ = _
    rw [PolicyWatcher.onUpsert_eq rfl hrules]
    exact congrArg (Option.getD · []) (Table.put_same _ _ _)
  | delete spec tombstone resolver fails =>
    obtain ⟨spec, rfl⟩ := h
    change PolicyWatcher.recorded (s.watcher.onDelete fails resolver
      (ObjectEvent.deletedObject tombstone (some ⟨ns, name, spec⟩))) _ = _
    rw [PolicyWatcher.recorded_onDelete (ObjectEvent.policyFromObject_deletedObject _ _)]
    exact if_pos rfl

/-- A key that an event deletes is not one that it puts. -/
theorem not_mem_deletesOf {key : PolicyRuleKey} (h : e.Effective ns name) (hput : key ∈ s.putsOf ns name e) :
    key ∉ s.deletesOf ns name e := by
  intro hdel
  cases e with
  | delete spec tombstone resolver fails => cases hput
  | upsert spec resolver fails =>
    obtain ⟨spec, rules, rfl, hrules⟩ := h
    rw [putsOf_upsert hrules] at hput
    have hstale := (PolicyWatcher.mem_deletes_upsert rfl hrules).mp (deletedKeys_subset hdel)
    exact hstale.2 (mem_keys_of_putRules hput)

/-- A key is in the store after an event when it was put, or was there and was not deleted. -/
theorem store_step (h : e.Effective ns name) (key : PolicyRuleKey) :
    (s.step ns name e).watcher.store key ≠ none ↔
      key ∈ s.putsOf ns name e ∨ (key ∉ s.deletesOf ns name e ∧ s.watcher.store key ≠ none) := by
  have hnot : key ∈ s.putsOf ns name e → key ∉ s.deletesOf ns name e := not_mem_deletesOf h
  cases e with
  | upsert spec resolver fails =>
    obtain ⟨spec, rules, rfl, hrules⟩ := h
    obtain ⟨verdict, hv⟩ := compilePolicyRules_verdict hrules
    have hstore : (s.step ns name (.upsert (some spec) resolver fails)).watcher.store key =
        if key ∈ s.deletesOf ns name (.upsert (some spec) resolver fails) then none
        else if key ∈ s.putsOf ns name (.upsert (some spec) resolver fails) then some verdict
        else s.watcher.store key := by
      rw [putsOf_upsert hrules]
      exact PolicyWatcher.onUpsert_store rfl hrules hv key
    rw [hstore]
    by_cases hput : key ∈ s.putsOf ns name (.upsert (some spec) resolver fails)
    · simp [hput, hnot hput]
    · by_cases hdel : key ∈ s.deletesOf ns name (.upsert (some spec) resolver fails) <;> simp [hput, hdel]
  | delete spec tombstone resolver fails =>
    obtain ⟨spec, rfl⟩ := h
    have hstore : (s.step ns name (.delete (some spec) tombstone resolver fails)).watcher.store key =
        if key ∈ s.deletesOf ns name (.delete (some spec) tombstone resolver fails) then none
        else s.watcher.store key :=
      PolicyWatcher.onDelete_store (ObjectEvent.policyFromObject_deletedObject _ _) key
    rw [hstore]
    by_cases hdel : key ∈ s.deletesOf ns name (.delete (some spec) tombstone resolver fails) <;> simp [hdel, putsOf]

/-- An event without effect makes no store call. -/
theorem not_writes_of_not_effective (h : ¬e.Effective ns name) (key : PolicyRuleKey) : ¬Writes ns name key s e := by
  rintro (hput | hdel)
  · have hsame := congrArg Owner.put (step_of_not_effective (s := s) h)
    rw [List.append_right_eq_self.mp hsame] at hput
    cases hput
  · have hmem := deletedKeys_subset hdel
    cases e with
    | upsert spec resolver fails =>
      obtain _ | spec := spec
      · cases hmem
      · simp only [ObjectEvent.event, Option.map_some, PolicyWatcher.deletes, policyFromObject] at hmem
        split at hmem
        · cases hmem
        · rename_i rules hrules
          exact h ⟨spec, rules, rfl, hrules⟩
    | delete spec tombstone resolver fails =>
      obtain _ | spec := spec
      · simp [ObjectEvent.event, PolicyWatcher.deletes] at hmem
      · exact h ⟨spec, rfl⟩

theorem Kept.step (h : Kept ns name s) (e : ObjectEvent) : Kept ns name (s.step ns name e) := by
  by_cases heff : e.Effective ns name
  · intro key hkey
    rw [recorded_step heff] at hkey
    exact ⟨List.mem_append_right _ hkey, (store_step heff key).mpr (.inl hkey)⟩
  · rw [step_of_not_effective heff]
    exact h

/-- A key becomes an orphan when its record is given up, and stops being one when a store call for it succeeds. -/
theorem orphan_step (h : Kept ns name s) (e : ObjectEvent) (key : PolicyRuleKey) :
    Orphan ns name key (s.step ns name e) ↔
      (Orphan ns name key s ∨ Releases ns name key s e) ∧ ¬Writes ns name key s e := by
  by_cases heff : e.Effective ns name
  · unfold Orphan Releases Writes
    rw [recorded_step heff, store_step heff]
    by_cases hput : key ∈ s.putsOf ns name e
    · simp [hput]
    · by_cases hrec : key ∈ s.recorded ns name
      · obtain ⟨hever, hstored⟩ := h key hrec
        simp [step, hput, hrec, hever, hstored, heff]
      · simp [step, hput, hrec, and_comm, and_left_comm]
  · rw [step_of_not_effective heff]
    simp [not_writes_of_not_effective heff, Releases, heff]

end Owner

/-- After a last deletion whose store calls all succeed no key that was put for the object is left in the store, exactly
    when every key whose record an event gave up had a store call succeed in that event or a later one, and a deletion
    whose object does not convert finds no record. -/
theorem no_rule_leaked_iff (store : Table PolicyRuleKey PolicyVerdict) (ns name : String) (events : List ObjectEvent)
    (spec : Option MeridianPolicySpec) (tombstone : Bool) (resolver : IdentityResolver) :
    (∀ key ∈ (execute (Owner.step ns name) (.start store) (events ++ [.delete spec tombstone resolver .none])).put,
      (execute (Owner.step ns name) (.start store) (events ++ [.delete spec tombstone resolver .none])).watcher.store key =
        none) ↔
    (∀ key, Answered (Owner.step ns name) (Owner.Releases ns name key) (Owner.Writes ns name key) (.start store)
      (events ++ [.delete spec tombstone resolver .none])) ∧
    (spec = none → (execute (Owner.step ns name) (.start store) events).recorded ns name = []) := by
  have hkept : Owner.Kept ns name (.start store) := fun key hkey => by cases hkey
  have hstart (key : PolicyRuleKey) : ¬Owner.Orphan ns name key (.start store) := fun h => by cases h.1
  have horphan (key : PolicyRuleKey) := not_execute_iff (I := Owner.Kept ns name) (O := Owner.Orphan ns name key)
    (fun _ e h => h.step e) (fun _ e h => Owner.orphan_step h e key) hkept
    (events ++ [.delete spec tombstone resolver .none])
  have hend := execute_inv (I := Owner.Kept ns name) (fun _ e h => h.step e) hkept
    (events ++ [.delete spec tombstone resolver .none])
  have hlast : execute (Owner.step ns name) (.start store) (events ++ [.delete spec tombstone resolver .none]) =
      (execute (Owner.step ns name) (.start store) events).step ns name (.delete spec tombstone resolver .none) :=
    execute_concat _ events _
  constructor
  · intro hnone
    refine ⟨fun key => ((horphan key).mp fun ho => ho.2.1 (hnone key ho.1)).2, fun hspec => ?_⟩
    refine List.eq_nil_iff_forall_not_mem.mpr fun key hkey => ?_
    have hsame : (execute (Owner.step ns name) (.start store) events).step ns name (.delete spec tombstone resolver .none) =
        execute (Owner.step ns name) (.start store) events :=
      Owner.step_of_not_effective fun ⟨sp, h⟩ => by
        rw [hspec] at h
        cases h
    rw [hlast, hsame] at hend hnone
    exact (hend key hkey).2 (hnone key (hend key hkey).1)
  · rintro ⟨hanswered, hspec⟩ key hput
    by_contra hstored
    refine (horphan key).mpr ⟨fun ho => absurd ho (hstart key), hanswered key⟩ ⟨hput, hstored, ?_⟩
    rw [hlast]
    cases spec with
    | some spec =>
      have heff : (ObjectEvent.delete (some spec) tombstone resolver .none).Effective ns name := ⟨spec, rfl⟩
      rw [Owner.recorded_step heff]
      exact List.not_mem_nil
    | none =>
      have heff : ¬(ObjectEvent.delete none tombstone resolver .none).Effective ns name := fun ⟨_, h⟩ => by cases h
      rw [Owner.step_of_not_effective heff, hspec rfl]
      exact List.not_mem_nil

/-- A rule is put, its second put fails, and the object is deleted. -/
def failedPut : List ObjectEvent :=
  [.upsert (allowPolicy "a").spec onePod .none,
   .upsert (allowPolicy "a").spec onePod ⟨fun _ => true, fun _ => false⟩,
   .delete (allowPolicy "a").spec false onePod .none]

theorem failed_put_leaks :
    ⟨7, 8, 80, 6, 0⟩ ∈ (execute (Owner.step "default" "a") (.start fun _ => none) failedPut).put ∧
      (execute (Owner.step "default" "a") (.start fun _ => none) failedPut).watcher.store ⟨7, 8, 80, 6, 0⟩ ≠ none := by
  decide +kernel

end Meridian.K8s
