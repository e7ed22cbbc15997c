import Mathlib.Algebra.Group.Nat.Defs
import Mathlib.Data.Set.Finite.Basic
import Meridian.Control.PodInformer

/-! The registry over a sequence of calls. The counter is above every identity that was ever returned, as long as it has
    not wrapped: the first that would wrap is the allocation number 2^32. -/

namespace Meridian.K8s
open Lib Wire

inductive RegistryCall where
  | allocate (name : String)
  | release (name : String)
  | lookupByName (name : String)
  | lookupByID (id : IdentityID)
  deriving DecidableEq, Repr

/-- The registry, the identities that `Allocate` has returned so far, and how many of them were new. -/
structure Allocations where
  registry : Registry
  returned : List IdentityID
  fresh : Nat

namespace Registry

variable {name : String} {id : IdentityID}

theorem allocate_known (r : Registry) (hempty : name ≠ "") (hname : r.lookupByName name = some id) :
    r.allocate name = some (id, r) := by
  rw [allocate, if_neg hempty, show r.byName name = some id from hname]

theorem allocate_unknown (r : Registry) (hempty : name ≠ "") (hname : r.lookupByName name = none) :
    r.allocate name =
      some (r.next, ⟨r.next + 1, Table.put r.byName name r.next, Table.put r.byID r.next name⟩) := by
  rw [allocate, if_neg hempty, show r.byName name = none from hname]

end Registry

/-- The two maps are finite and inverse to each other. -/
structure Registry.Bijective (r : Registry) : Prop where
  inverse : ∀ name id, r.lookupByName name = some id ↔ r.lookupByID id = some name
  finite : {name | r.lookupByName name ≠ none}.Finite

namespace Allocations

def start : Allocations := ⟨.new, [], 0⟩

def step (s : Allocations) : RegistryCall → Allocations
  | .allocate name =>
    match s.registry.allocate name with
    | none => s
    | some (id, registry) =>
      ⟨registry, id :: s.returned, if s.registry.lookupByName name = none then s.fresh + 1 else s.fresh⟩
  | .release name => { s with registry := s.registry.release name }
  | .lookupByName _ | .lookupByID _ => s

/-- What `Allocate` must answer: an identity that is not the reserved one, the bound one for a bound name, and one above
    all that were returned before for any other. -/
def Allocates (s : Allocations) : RegistryCall → Prop
  | .allocate name => name ≠ "" → ∃ id registry, s.registry.allocate name = some (id, registry) ∧ id ≠ identityUnknown ∧
      (∀ bound, s.registry.lookupByName name = some bound → id = bound) ∧
      (s.registry.lookupByName name = none → ∀ old ∈ s.returned, old < id)
  | .release _ | .lookupByName _ | .lookupByID _ => True

/-- The state of the registry while the counter has not wrapped. -/
structure Counting (s : Allocations) : Prop where
  next : s.registry.next = UInt32.ofNat (s.fresh + 1)
  returned : ∀ id ∈ s.returned, 0 < id.toNat ∧ id.toNat ≤ s.fresh
  bound : ∀ name id, s.registry.lookupByName name = some id → id ∈ s.returned
  bijective : s.registry.Bijective

/-! ### One call -/

theorem bijective_put {r : Registry} {name : String} {id : IdentityID} (h : r.Bijective)
    (hname : r.lookupByName name = none) (hid : r.lookupByID id = none) (next : IdentityID) :
    Registry.Bijective ⟨next, Table.put r.byName name id, Table.put r.byID id name⟩ where
  inverse name' id' := by
    show Table.put r.byName name id name' = some id' ↔ Table.put r.byID id name id' = some name'
    by_cases hn : name = name'
    · subst hn
      rw [Table.put_same, Option.some.injEq]
      by_cases hi : id = id'
      · subst hi
        rw [Table.put_same]
        exact iff_of_true rfl rfl
      · rw [Table.put_of_ne hi]
        refine iff_of_false hi fun hbound => ?_
        exact Option.some_ne_none _ (((h.inverse name id').mpr hbound).symm.trans hname)
    · rw [Table.put_of_ne hn]
      by_cases hi : id = id'
      · subst hi
        rw [Table.put_same, Option.some.injEq]
        refine iff_of_false (fun hbound => ?_) hn
        exact Option.some_ne_none _ (((h.inverse name' id).mp hbound).symm.trans hid)
      · rw [Table.put_of_ne hi]
        exact h.inverse name' id'
  finite := by
    refine (h.finite.insert name).subset fun name' hname' => ?_
    by_cases hn : name = name'
    · exact Or.inl hn.symm
    · refine Or.inr fun hnone => hname' ?_
      show Table.put r.byName name id name' = none
      rw [Table.put_of_ne hn]
      exact hnone

theorem bijective_release {r : Registry} (h : r.Bijective) (name : String) : (r.release name).Bijective := by
  unfold Registry.release
  split
  · exact h
  · rename_i id hid
    refine ⟨fun name' id' => ?_, ?_⟩
    · show Table.erase r.byName name name' = some id' ↔ Table.erase r.byID id id' = some name'
      constructor
      · intro hbound
        obtain ⟨hn, hbound⟩ := Table.of_erase hbound
        have hi : id ≠ id' := by
          rintro rfl
          exact hn (Option.some.inj (((h.inverse name id).mp hid).symm.trans ((h.inverse name' id).mp hbound)))
        rw [Table.erase_of_ne hi]
        exact (h.inverse name' id').mp hbound
      · intro hbound
        obtain ⟨hi, hbound⟩ := Table.of_erase hbound
        have hn : name ≠ name' := by
          rintro rfl
          exact hi (Option.some.inj (hid.symm.trans ((h.inverse name id').mpr hbound)))
        rw [Table.erase_of_ne hn]
        exact (h.inverse name' id').mpr hbound
    · refine h.finite.subset fun name' hname' => ?_
      obtain ⟨id', hid'⟩ := Option.ne_none_iff_exists'.mp hname'
      exact Option.ne_none_iff_exists'.mpr ⟨id', (Table.of_erase hid').2⟩

theorem fresh_le_step (s : Allocations) (c : RegistryCall) : s.fresh ≤ (s.step c).fresh := by
  cases c with
  | allocate name =>
    unfold step
    dsimp only
    split
    · exact Nat.le_refl _
    · dsimp only
      split
      · exact Nat.le_succ _
      · exact Nat.le_refl _
  | release name => exact Nat.le_refl _
  | lookupByName name => exact Nat.le_refl _
  | lookupByID id => exact Nat.le_refl _

theorem fresh_le_execute (s : Allocations) (cs : List RegistryCall) : s.fresh ≤ (execute step s cs).fresh := by
  induction cs generalizing s with
  | nil => exact Nat.le_refl _
  | cons c cs ih => exact (fresh_le_step s c).trans (ih _)

namespace Counting

variable {s : Allocations}

/-- The next identity is the number of the allocation, and no identity was returned that high. -/
theorem toNat_next (h : s.Counting) (hfresh : s.fresh + 1 < 2 ^ 32) : s.registry.next.toNat = s.fresh + 1 := by
  rw [h.next, UInt32.toNat_ofNat', Nat.mod_eq_of_lt hfresh]

theorem lt_next (h : s.Counting) (hfresh : s.fresh + 1 < 2 ^ 32) {id : IdentityID} (hid : id ∈ s.returned) :
    id < s.registry.next := by
  rw [UInt32.lt_iff_toNat_lt, h.toNat_next hfresh]
  exact Nat.lt_succ_of_le (h.returned id hid).2

theorem next_free (h : s.Counting) (hfresh : s.fresh + 1 < 2 ^ 32) : s.registry.lookupByID s.registry.next = none := by
  cases hname : s.registry.lookupByID s.registry.next with
  | none => rfl
  | some name =>
    have hreturned := h.bound name _ ((h.bijective.inverse name _).mpr hname)
    exact absurd (h.lt_next hfresh hreturned) (UInt32.lt_irrefl _)

theorem allocate_bound (h : s.Counting) {name : String} (hempty : name ≠ "") {id : IdentityID}
    (hname : s.registry.lookupByName name = some id) :
    (s.step (.allocate name)).Counting ∧ s.Allocates (.allocate name) := by
  have hid := h.bound name id hname
  have hstep : s.step (.allocate name) = { s with returned := id :: s.returned } := by
    unfold Allocations.step
    simp only [s.registry.allocate_known hempty hname, hname, reduceCtorEq, if_false]
  rw [hstep]
  refine ⟨⟨h.next, List.forall_mem_cons.mpr ⟨h.returned id hid, h.returned⟩, ?_, h.bijective⟩, fun _ => ?_⟩
  · exact fun name' id' hbound => List.mem_cons_of_mem _ (h.bound name' id' hbound)
  · refine ⟨id, s.registry, s.registry.allocate_known hempty hname, ?_, ?_, ?_⟩
    · rintro rfl
      exact absurd (h.returned _ hid).1 (Nat.lt_irrefl 0)
    · exact fun bound hbound => Option.some.inj (hname.symm.trans hbound)
    · exact fun hnone => absurd (hname.symm.trans hnone) (Option.some_ne_none id)

theorem allocate_new (h : s.Counting) {name : String} (hempty : name ≠ "") (hname : s.registry.lookupByName name = none)
    (hfresh : (s.step (.allocate name)).fresh < 2 ^ 32) :
    (s.step (.allocate name)).Counting ∧ s.Allocates (.allocate name) := by
  have hstep : s.step (.allocate name) = ⟨⟨s.registry.next + 1, Table.put s.registry.byName name s.registry.next,
      Table.put s.registry.byID s.registry.next name⟩, s.registry.next :: s.returned, s.fresh + 1⟩ := by
    unfold Allocations.step
    simp only [s.registry.allocate_unknown hempty hname, hname, if_true]
  rw [hstep] at hfresh ⊢
  have hnext := h.toNat_next hfresh
  refine ⟨⟨?_, ?_, ?_, bijective_put h.bijective hname (h.next_free hfresh) _⟩, fun _ => ?_⟩
  · rw [h.next, UInt32.ofNat_add (s.fresh + 1) 1]
    rfl
  · refine List.forall_mem_cons.mpr ⟨⟨hnext ▸ Nat.succ_pos _, hnext.le⟩, fun id hid => ?_⟩
    obtain ⟨hpos, hle⟩ := h.returned id hid
    exact ⟨hpos, hle.trans (Nat.le_succ _)⟩
  · intro name' id' hbound
    rcases Table.of_put hbound with ⟨-, rfl⟩ | ⟨-, hbound⟩
    · exact List.mem_cons_self
    · exact List.mem_cons_of_mem _ (h.bound name' id' hbound)
  · refine ⟨s.registry.next, _, s.registry.allocate_unknown hempty hname, ?_, ?_, fun _ old hold => h.lt_next hfresh hold⟩
    · intro hzero
      rw [hzero] at hnext
      exact absurd hnext (Nat.succ_ne_zero _).symm
    · exact fun bound hbound => absurd (hname.symm.trans hbound) (Option.some_ne_none bound).symm

theorem step (h : s.Counting) (c : RegistryCall) (hfresh : (s.step c).fresh < 2 ^ 32) :
    (s.step c).Counting ∧ s.Allocates c := by
  cases c with
  | allocate name =>
    by_cases hempty : name = ""
    · subst hempty
      exact ⟨h, fun hne => absurd rfl hne⟩
    · cases hname : s.registry.lookupByName name with
      | some id => exact h.allocate_bound hempty hname
      | none => exact h.allocate_new hempty hname hfresh
  | release name =>
    refine ⟨⟨?_, h.returned, ?_, bijective_release h.bijective name⟩, trivial⟩
    · show (s.registry.release name).next = _
      unfold Registry.release
      split <;> exact h.next
    · intro name' id hbound
      refine h.bound name' id ?_
      change (s.registry.release name).byName name' = some id at hbound
      unfold Registry.release at hbound
      split at hbound
      · exact hbound
      · exact (Table.of_erase hbound).2
  | lookupByName name => exact ⟨h, trivial⟩
  | lookupByID id => exact ⟨h, trivial⟩

/-- Whatever calls follow, as long as the counter does not wrap. -/
theorem run (h : s.Counting) {cs : List RegistryCall} (hfresh : (execute Allocations.step s cs).fresh < 2 ^ 32) :
    Steps Allocations.step Allocates s cs ∧ Always Allocations.step (fun s => s.registry.Bijective) s cs := by
  induction cs generalizing s with
  | nil =>
    refine ⟨trivial, fun pre hpre => ?_⟩
    rw [List.prefix_nil.mp hpre]
    exact h.bijective
  | cons c cs ih =>
    obtain ⟨hnext, hcall⟩ := h.step c ((fresh_le_execute _ cs).trans_lt hfresh)
    obtain ⟨hsteps, halways⟩ := ih hnext hfresh
    exact ⟨⟨hcall, hsteps⟩, always_cons.mpr ⟨h.bijective, halways⟩⟩

end Counting

theorem counting_start : start.Counting where
  next := rfl
  returned := by simp [start]
  bound name id h := by cases h
  bijective := ⟨fun _ _ => iff_of_false nofun nofun, by simp [start, Registry.new, Registry.lookupByName]⟩

/-- Over every sequence of calls with at most 2^32 - 1 new identities: `Allocate` answers a name that is not empty with
    the identity bound to it, or else with one above all those returned before, never with the reserved one, and the two
    maps are inverse to each other at every moment. -/
theorem registry_allocates (calls : List RegistryCall) (hfresh : (execute step start calls).fresh ≤ 2 ^ 32 - 1) :
    Steps step Allocates start calls ∧ Always step (fun s => s.registry.Bijective) start calls :=
  counting_start.run (by omega)

theorem registry_allocates_again :
    Steps step Allocates start [.allocate "web", .release "web", .lookupByID 1, .allocate "db", .allocate "web"] ∧
      Always step (fun s => s.registry.Bijective) start
        [.allocate "web", .release "web", .lookupByID 1, .allocate "db", .allocate "web"] ∧
      (execute step start [.allocate "web", .release "web", .lookupByID 1, .allocate "db", .allocate "web"]).returned =
        [3, 2, 1] := by
  obtain ⟨hsteps, halways⟩ := registry_allocates
    [.allocate "web", .release "web", .lookupByID 1, .allocate "db", .allocate "web"] (by decide)
  exact ⟨hsteps, halways, by decide⟩

end Allocations

end Meridian.K8s
