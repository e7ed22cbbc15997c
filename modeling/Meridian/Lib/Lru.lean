import Mathlib.Data.List.Dedup
import Mathlib.Data.Nat.ModEq
import Meridian.Lib.Assoc
import Meridian.Lib.Tally

/-! A bounded table that loses the key that was used least recently. Its state is the list of the keys, the most recent one
    first, each with the events that used it since it was put in. The keys after a run are the most recent distinct ones;
    the events of a key are those since it was put in; and whatever the events weigh, what is kept and what was lost
    together weigh as much as all of them. -/

namespace Meridian.Lib.Lru

variable {K E : Type} {l : List (K × List E)} {k : K}

def keys (l : List (K × List E)) : List K := l.map (·.1)

theorem mem_keys {h : List E} (hmem : (k, h) ∈ l) : k ∈ keys l := List.mem_map.mpr ⟨(k, h), hmem, rfl⟩

/-- What all events in the table weigh, each under the key that it is kept for. -/
def total (w : K → E → Nat) (l : List (K × List E)) : Nat := (l.map fun x => (x.2.map (w x.1)).sum).sum

theorem total_cons (w : K → E → Nat) (k : K) (h : List E) (l : List (K × List E)) :
    total w ((k, h) :: l) = (h.map (w k)).sum + total w l := by
  simp [total]

theorem total_append (w : K → E → Nat) (l l' : List (K × List E)) : total w (l ++ l') = total w l + total w l' := by
  simp [total]

theorem total_perm (w : K → E → Nat) {l' : List (K × List E)} (h : l.Perm l') : total w l = total w l' := (h.map _).sum_eq

variable [DecidableEq K]

/-- An event uses its key. A key that is new takes the place of the last one when there is no other. -/
def note (cap : Nat) (key : E → K) (l : List (K × List E)) (e : E) : List (K × List E) :=
  (key e, e :: (l.lookup (key e)).getD []) :: (l.filter (·.1 ≠ key e)).take (cap - 1)

def evicted (cap : Nat) (key : E → K) (l : List (K × List E)) (e : E) : List (K × List E) :=
  (l.filter (·.1 ≠ key e)).drop (cap - 1)

variable {cap : Nat} {key : E → K}

/-! ### Keys -/

theorem keys_filter (l : List (K × List E)) (k : K) : keys (l.filter (·.1 ≠ k)) = (keys l).filter (· ≠ k) := by
  rw [keys, keys, List.filter_map]
  rfl

theorem keys_note (hcap : 0 < cap) (l : List (K × List E)) (e : E) :
    keys (note cap key l e) = (key e :: (keys l).filter (· ≠ key e)).take cap := by
  obtain ⟨n, rfl⟩ := Nat.exists_eq_add_one_of_ne_zero hcap.ne'
  rw [List.take_succ_cons, ← keys_filter, keys, note, List.map_cons, List.map_take]
  rfl

theorem keys_note_nodup (h : (keys l).Nodup) (cap : Nat) (key : E → K) (e : E) :
    (keys (note cap key l e)).Nodup := by
  have hrest : ((l.filter (·.1 ≠ key e)).take (cap - 1)).Sublist (l.filter (·.1 ≠ key e)) := List.take_sublist _ _
  rw [keys, note, List.map_cons, List.nodup_cons]
  refine ⟨fun hmem => ?_, ((hrest.trans List.filter_sublist).map _).nodup h⟩
  obtain ⟨x, hx, heq⟩ := List.mem_map.mp hmem
  exact of_decide_eq_true (List.mem_filter.mp (hrest.subset hx)).2 heq

theorem dedup_concat (ks : List K) (k : K) : (ks ++ [k]).dedup = ks.dedup.filter (· ≠ k) ++ [k] := by
  induction ks with
  | nil => rfl
  | cons x ks ih =>
    by_cases hx : x ∈ ks
    · rw [List.cons_append, List.dedup_cons_of_mem (List.mem_append_left _ hx), List.dedup_cons_of_mem hx, ih]
    · rw [List.cons_append, List.dedup_cons_of_notMem hx]
      by_cases hk : x = k
      · have hmem : x ∈ ks ++ [k] := List.mem_append_right _ (List.mem_singleton.mpr hk)
        rw [List.dedup_cons_of_mem hmem, ih, List.filter_cons_of_neg (by simpa using hk)]
      · have hmem : x ∉ ks ++ [k] := by
          rw [List.mem_append, List.mem_singleton]
          exact fun h => h.elim hx hk
        rw [List.dedup_cons_of_notMem hmem, ih, List.filter_cons_of_pos (by simpa using hk), List.cons_append]

/-- One key less in front needs one key more of the list, and no other. -/
theorem take_filter_take {ks : List K} (h : ks.Nodup) (k : K) (n : Nat) :
    ((ks.take (n + 1)).filter (· ≠ k)).take n = (ks.filter (· ≠ k)).take n := by
  induction ks generalizing n with
  | nil => rfl
  | cons x ks ih =>
    rw [List.nodup_cons] at h
    rw [List.take_succ_cons]
    by_cases hx : x = k
    · subst hx
      have hself : ∀ l : List K, l ⊆ ks → l.filter (· ≠ x) = l := by
        intro l hl
        refine List.filter_eq_self.mpr fun y hy => ?_
        exact decide_eq_true fun hyx : y = x => h.1 (hyx ▸ hl hy)
      rw [List.filter_cons_of_neg (by simp), List.filter_cons_of_neg (by simp), hself _ (List.take_subset _ _),
        hself _ (List.Subset.refl _), List.take_take, Nat.min_self]
    · rw [List.filter_cons_of_pos (by simpa using hx), List.filter_cons_of_pos (by simpa using hx)]
      cases n with
      | zero => rfl
      | succ n => rw [List.take_succ_cons, List.take_succ_cons, ih h.2]

/-- The keys of a run, newest first: duplicates keep their last place in the order of the events. -/
theorem keys_run (hcap : 0 < cap) (es : List E) :
    keys (execute (note cap key) [] es) = (es.map key).dedup.reverse.take cap := by
  induction es using List.reverseRecOn with
  | nil => simp [keys]
  | append_singleton es e ih =>
    have hnodup : (es.map key).dedup.reverse.Nodup := List.nodup_reverse.mpr (List.nodup_dedup _)
    obtain ⟨n, rfl⟩ := Nat.exists_eq_add_one_of_ne_zero hcap.ne'
    rw [execute_concat, keys_note hcap, ih, List.take_succ_cons, take_filter_take hnodup, List.map_append,
      List.map_singleton, dedup_concat, List.reverse_append, List.reverse_singleton, List.singleton_append,
      List.take_succ_cons, List.filter_reverse]

theorem length_note (hcap : 0 < cap) (l : List (K × List E)) (e : E) : (note cap key l e).length ≤ cap := by
  rw [note, List.length_cons]
  have hrest := List.length_take_le (cap - 1) (l.filter (·.1 ≠ key e))
  omega

/-! ### Events since a key was put in -/

/-- The first event of `after` finds the key absent, and every event of it leaves the key in the table. -/
structure PutSince (cap : Nat) (key : E → K) (before after : List E) (k : K) : Prop where
  absent : k ∉ keys (execute (note cap key) [] before)
  kept : ∀ seg, seg <+: after → seg ≠ [] → k ∈ keys (execute (note cap key) [] (before ++ seg))

theorem PutSince.concat {before after : List E} (h : PutSince cap key before after k) {e : E}
    (hkept : k ∈ keys (execute (note cap key) [] (before ++ after ++ [e]))) : PutSince cap key before (after ++ [e]) k := by
  refine ⟨h.absent, fun seg hseg hne => ?_⟩
  rcases List.prefix_concat_iff.mp hseg with rfl | hseg
  · rw [← List.append_assoc]
    exact hkept
  · exact h.kept seg hseg hne

/-- The events of a key are those since it was put in that use it, the newest first. -/
theorem mem_run {es h : List E} (hmem : (k, h) ∈ execute (note cap key) [] es) :
    ∃ before after, es = before ++ after ∧ PutSince cap key before after k ∧ h = (after.filter (key · = k)).reverse := by
  induction es using List.reverseRecOn generalizing h with
  | nil => cases hmem
  | append_singleton es e ih =>
    have hkept := mem_keys hmem
    rw [execute_concat, note, List.mem_cons] at hmem
    -- a key that was there before has one event more where it is the one used
    have hold : ∀ h', (k, h') ∈ execute (note cap key) [] es → h = ([e].filter (key · = k)).reverse ++ h' →
        ∃ before after, es ++ [e] = before ++ after ∧ PutSince cap key before after k ∧
          h = (after.filter (key · = k)).reverse := by
      intro h' hmem' heq
      obtain ⟨before, after, rfl, hsince, rfl⟩ := ih hmem'
      refine ⟨before, after ++ [e], List.append_assoc _ _ _, hsince.concat hkept, ?_⟩
      rw [heq, List.filter_append, List.reverse_append]
    rcases hmem with heq | hmem
    · obtain ⟨rfl, rfl⟩ := Prod.mk.inj heq
      cases hlookup : (execute (note cap key) [] es).lookup (key e) with
      | none =>
        refine ⟨es, [e], rfl, ⟨Assoc.lookup_eq_none.mp hlookup, fun seg hseg hne => ?_⟩, by simp⟩
        rcases List.prefix_concat_iff.mp (show seg <+: [] ++ [e] from hseg) with rfl | hseg
        · exact hkept
        · exact absurd (List.prefix_nil.mp hseg) hne
      | some h' =>
        rw [hlookup] at hold
        exact hold h' (Assoc.mem_of_lookup hlookup) (by simp)
    · obtain ⟨hmem, hk⟩ := List.mem_filter.mp (List.mem_of_mem_take hmem)
      have hk : key e ≠ k := fun heq => of_decide_eq_true hk heq.symm
      exact hold h hmem (by simp [hk])

/-! ### Weights -/

theorem filter_key (h : (keys l).Nodup) (k : K) : l.filter (·.1 = k) = ((l.lookup k).map (Prod.mk k)).toList := by
  induction l with
  | nil => rfl
  | cons x l ih =>
    obtain ⟨k', h'⟩ := x
    rw [keys, List.map_cons, List.nodup_cons] at h
    rw [Assoc.lookup_cons_eq]
    by_cases hk : k = k'
    · subst hk
      have hnone : l.filter (·.1 = k) = [] := by
        rw [ih h.2, Assoc.lookup_eq_none.mpr h.1]
        rfl
      rw [List.filter_cons_of_pos (by simp), hnone, if_pos rfl]
      rfl
    · rw [List.filter_cons_of_neg (by simpa using Ne.symm hk), ih h.2, if_neg hk]

/-- An event adds its weight, and the entry that it drives out takes its own away. -/
theorem total_note (w : K → E → Nat) (h : (keys l).Nodup) (cap : Nat) (key : E → K) (e : E) :
    total w (note cap key l e) + total w (evicted cap key l e) = total w l + w (key e) e := by
  have hsplit : total w l = total w (l.filter (·.1 = key e)) + total w (l.filter (·.1 ≠ key e)) := by
    rw [← total_append]
    refine (total_perm w ?_).symm
    simpa using List.filter_append_perm (fun x : K × List E => decide (x.1 = key e)) l
  have hused : total w (l.filter (·.1 = key e)) = (((l.lookup (key e)).getD []).map (w (key e))).sum := by
    rw [filter_key h]
    cases l.lookup (key e) <;> simp [total]
  have hrest : total w ((l.filter (·.1 ≠ key e)).take (cap - 1)) + total w (evicted cap key l e) =
      total w (l.filter (·.1 ≠ key e)) := by
    rw [evicted, ← total_append, List.take_append_drop]
  rw [note, total_cons, List.map_cons, List.sum_cons, hsplit, hused, ← hrest]
  omega

/-- What a run loses. -/
def lost (w : K → E → Nat) (cap : Nat) (key : E → K) (l : List (K × List E)) (es : List E) : Nat :=
  tally (note cap key) (fun l e => total w (evicted cap key l e)) l es

theorem total_run (w : K → E → Nat) (h : (keys l).Nodup) (cap : Nat) (key : E → K) (es : List E) :
    total w (execute (note cap key) l es) + lost w cap key l es = total w l + (es.map fun e => w (key e) e).sum := by
  induction es generalizing l with
  | nil => rfl
  | cons e es ih =>
    have hstep := total_note w h cap key e
    have hrun := ih (keys_note_nodup h cap key e)
    simp only [lost, tally, execute_cons, List.map_cons, List.sum_cons] at hrun ⊢
    omega

end Meridian.Lib.Lru
