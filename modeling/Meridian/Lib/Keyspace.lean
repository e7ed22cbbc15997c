import Mathlib.Data.List.AList

/-! Several maps kept in one: each has its own function from its keys to those of the common map, and a coding of its
    values. -/

namespace Meridian.Lib.Keyspace

variable {K A T V : Type} [DecidableEq K] [DecidableEq T]

theorem lookup_insert_eq (m : AList fun _ : K => A) (k k' : K) (a : A) :
    (m.insert k a).lookup k' = if k = k' then some a else m.lookup k' := by
  split
  · rw [← ‹k = k'›, AList.lookup_insert]
  · rw [AList.lookup_insert_ne (Ne.symm ‹_›)]

theorem lookup_erase_eq (m : AList fun _ : K => A) (k k' : K) :
    (m.erase k).lookup k' = if k = k' then none else m.lookup k' := by
  split
  · rw [← ‹k = k'›, AList.lookup_erase]
  · rw [AList.lookup_erase_ne (Ne.symm ‹_›)]

/-- The common map `kv` has the entries of `m` under the keys of `key`. -/
def Holds (key : K → T) (enc : A → V) (m : AList fun _ : K => A) (kv : AList fun _ : T => V) : Prop :=
  ∀ k, kv.lookup (key k) = (m.lookup k).map enc

namespace Holds

variable {key : K → T} {enc : A → V} {m : AList fun _ : K => A} {kv : AList fun _ : T => V}

theorem empty (key : K → T) (enc : A → V) : Holds key enc ∅ ∅ := fun _ => rfl

section
variable (h : Holds key enc m kv)
include h

theorem insert (hkey : Function.Injective key) (k : K) (a : A) :
    Holds key enc (m.insert k a) (kv.insert (key k) (enc a)) := by
  intro k'
  rw [lookup_insert_eq, lookup_insert_eq, h k', apply_ite (Option.map enc), Option.map_some]
  exact if_congr hkey.eq_iff rfl rfl

theorem erase (hkey : Function.Injective key) (k : K) : Holds key enc (m.erase k) (kv.erase (key k)) := by
  intro k'
  rw [lookup_erase_eq, lookup_erase_eq, h k', apply_ite (Option.map enc), Option.map_none]
  exact if_congr hkey.eq_iff rfl rfl

theorem insert_other {t : T} (ht : ∀ k, key k ≠ t) (v : V) : Holds key enc m (kv.insert t v) := by
  intro k
  rw [AList.lookup_insert_ne (ht k), h k]

theorem erase_other {t : T} (ht : ∀ k, key k ≠ t) : Holds key enc m (kv.erase t) := by
  intro k
  rw [AList.lookup_erase_ne (ht k), h k]

end

end Holds

/-- A loop that stops at the first error ends with the results of all elements when there is none. -/
theorem mapM_ok {B E : Type} {f : A → Except E B} {l : List A} (h : ∀ x ∈ l, ∃ y, f x = .ok y) :
    ∃ ys, l.mapM f = .ok ys ∧ ∀ y, y ∈ ys ↔ ∃ x ∈ l, f x = .ok y := by
  induction l with
  | nil => exact ⟨[], rfl, by simp⟩
  | cons x l ih =>
    obtain ⟨y, hy⟩ := h x List.mem_cons_self
    obtain ⟨ys, hys, hmem⟩ := ih fun x hx => h x (List.mem_cons_of_mem _ hx)
    refine ⟨y :: ys, by rw [List.mapM_cons, hy, hys]; rfl, fun z => ?_⟩
    rw [List.mem_cons, hmem, List.exists_mem_cons_iff, hy, Except.ok.injEq, eq_comm]

end Meridian.Lib.Keyspace
