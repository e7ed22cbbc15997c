import Mathlib.Data.List.Nodup

/-! Association lists: what `List.lookup` finds after the values are mapped, an entry is added behind the others, the
    entry of a key is removed, or its value is replaced. -/

namespace Meridian.Lib.Assoc

variable {K A : Type} [DecidableEq K] {l : List (K × A)} {id : K} {a : A}

theorem lookup_cons_eq (k : K) (a : A) (l : List (K × A)) (id : K) :
    ((k, a) :: l).lookup id = if id = k then some a else l.lookup id := by
  rw [List.lookup_cons]
  by_cases h : id = k
  · rw [beq_iff_eq.mpr h, if_pos h]
  · rw [beq_eq_false_iff_ne.mpr h, if_neg h]

theorem lookup_eq_none : l.lookup id = none ↔ id ∉ l.map (·.1) := by
  rw [List.lookup_eq_none_iff, List.mem_map]
  constructor
  · rintro h ⟨x, hx, rfl⟩
    exact bne_iff_ne.mp (h x hx) rfl
  · intro h x hx
    exact bne_iff_ne.mpr fun hid => h ⟨x, hx, hid.symm⟩

theorem mem_of_lookup (h : l.lookup id = some a) : (id, a) ∈ l := by
  obtain ⟨l₁, l₂, rfl, _⟩ := List.lookup_eq_some_iff.mp h
  exact List.mem_append_right _ List.mem_cons_self

theorem lookup_map_snd (f : A → A) (l : List (K × A)) (id : K) :
    (l.map fun (id, a) => (id, f a)).lookup id = (l.lookup id).map f := by
  induction l with
  | nil => rfl
  | cons x l ih =>
    obtain ⟨k, a⟩ := x
    rw [List.map_cons, lookup_cons_eq, lookup_cons_eq, ih, apply_ite (Option.map f), Option.map_some]

theorem lookup_snoc (h : l.lookup id = none) (a : A) (id' : K) :
    (l ++ [(id, a)]).lookup id' = if id' = id then some a else l.lookup id' := by
  rw [List.lookup_append, lookup_cons_eq, List.lookup_nil]
  by_cases hid : id' = id
  · subst hid
    rw [if_pos rfl, if_pos rfl, h, Option.none_or]
  · rw [if_neg hid, if_neg hid, Option.or_none]

theorem lookup_eraseP (h : (l.map (·.1)).Nodup) (id id' : K) :
    (l.eraseP (·.1 == id)).lookup id' = if id' = id then none else l.lookup id' := by
  induction l with
  | nil => simp
  | cons x l ih =>
    obtain ⟨k, a⟩ := x
    rw [List.map_cons, List.nodup_cons] at h
    by_cases hk : k = id
    · subst hk
      have hnone : l.lookup k = none := lookup_eq_none.mpr h.1
      simp only [List.eraseP_cons, beq_self_eq_true, cond_true]
      rw [lookup_cons_eq]
      by_cases hid : id' = k
      · rw [if_pos hid, hid, hnone]
      · rw [if_neg hid, if_neg hid]
    · rw [List.eraseP_cons_of_neg (by simpa using hk), lookup_cons_eq, lookup_cons_eq, ih h.2]
      by_cases hid : id' = k
      · rw [if_pos hid, if_pos hid, if_neg (hid ▸ hk)]
      · rw [if_neg hid, if_neg hid]

theorem map_fst_replace (l : List (K × A)) (id : K) (a : A) :
    (l.map fun x => if x.1 = id then (id, a) else x).map (·.1) = l.map (·.1) := by
  rw [List.map_map]
  refine List.map_congr_left fun x _ => ?_
  show (if x.1 = id then (id, a) else x).1 = x.1
  split
  · rename_i h
    exact h.symm
  · rfl

theorem lookup_replace_of_ne {id' : K} (h : id' ≠ id) :
    (l.map fun x => if x.1 = id then (id, a) else x).lookup id' = l.lookup id' := by
  induction l with
  | nil => rfl
  | cons x l ih =>
    obtain ⟨k, c⟩ := x
    rw [List.map_cons, lookup_cons_eq]
    by_cases hk : k = id
    · subst hk
      rw [if_pos rfl, lookup_cons_eq, if_neg h, if_neg h, ih]
    · rw [if_neg hk, lookup_cons_eq, ih]

theorem lookup_replace {b : A} (h : l.lookup id = some b) (a : A) (id' : K) :
    (l.map fun x => if x.1 = id then (id, a) else x).lookup id' = if id' = id then some a else l.lookup id' := by
  induction l with
  | nil => cases h
  | cons x l ih =>
    obtain ⟨k, c⟩ := x
    rw [lookup_cons_eq] at h
    rw [List.map_cons, lookup_cons_eq]
    by_cases hk : k = id
    · subst hk
      rw [if_pos rfl, lookup_cons_eq]
      by_cases hid : id' = k
      · rw [if_pos hid, if_pos hid]
      · rw [if_neg hid, if_neg hid, if_neg hid]
        exact lookup_replace_of_ne hid
    · rw [if_neg (Ne.symm hk)] at h
      rw [if_neg hk, lookup_cons_eq, ih h]
      by_cases hid : id' = k
      · rw [if_pos hid, if_pos hid, if_neg (hid ▸ hk)]
      · rw [if_neg hid, if_neg hid]

end Meridian.Lib.Assoc
