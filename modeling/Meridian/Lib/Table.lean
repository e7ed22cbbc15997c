import Mathlib.Logic.Function.Basic
import Mathlib.Data.List.Nodup

/-! Hash maps as their lookup functions, and logs of writes to them. A write sets or clears one key.
    After a log of writes a key holds what the last write to it left, and its old content when no
    write touched it; a log changes nothing exactly when every last write restores what was there. -/

namespace Meridian.Lib

/-- A hash map, as its lookup function. -/
abbrev Table (K V : Type) := K → Option V

/-- A write to a map: the key and what it holds afterwards, nothing for a deletion. -/
abbrev Write (K V : Type) := K × Option V

namespace Table

variable {K V : Type} [DecidableEq K]

def write (t : Table K V) (w : Write K V) : Table K V := Function.update t w.1 w.2

def put (t : Table K V) (k : K) (v : V) : Table K V := write t (k, some v)

def erase (t : Table K V) (k : K) : Table K V := write t (k, none)

/-- The map after a log of writes, oldest first. -/
def writes (t : Table K V) (ws : List (Write K V)) : Table K V := ws.foldl write t

/-- What the last write to `k` in the log left there, if any write of the log is to `k`. -/
def lastWrite : List (Write K V) → K → Option (Option V)
  | [], _ => none
  | w :: ws, k =>
    match lastWrite ws k with
    | some o => some o
    | none => if w.1 = k then some w.2 else none

variable {t : Table K V} {k k' : K} {v : V} {w : Write K V} {ws ws' : List (Write K V)}

@[simp] theorem write_same (t : Table K V) (k : K) (o : Option V) : write t (k, o) k = o := by
  simp [write]

theorem write_of_ne (h : w.1 ≠ k) : write t w k = t k := by
  simp [write, Function.update_of_ne (Ne.symm h)]

theorem write_apply (t : Table K V) (w : Write K V) (k : K) : write t w k = if w.1 = k then w.2 else t k := by
  by_cases h : w.1 = k
  · subst h
    simp [write]
  · rw [write_of_ne h, if_neg h]

@[simp] theorem put_same (t : Table K V) (k : K) (v : V) : put t k v k = some v := write_same t k _

theorem put_of_ne (h : k ≠ k') : put t k v k' = t k' := write_of_ne h

@[simp] theorem erase_same (t : Table K V) (k : K) : erase t k k = none := write_same t k _

theorem erase_of_ne (h : k ≠ k') : erase t k k' = t k' := write_of_ne h

theorem of_put {w : V} (h : put t k v k' = some w) : (k = k' ∧ w = v) ∨ (k ≠ k' ∧ t k' = some w) := by
  by_cases hk : k = k'
  · subst hk
    rw [put_same] at h
    exact .inl ⟨rfl, (Option.some.inj h).symm⟩
  · rw [put_of_ne hk] at h
    exact .inr ⟨hk, h⟩

theorem of_erase {w : V} (h : erase t k k' = some w) : k ≠ k' ∧ t k' = some w := by
  have hk : k ≠ k' := by
    rintro rfl
    rw [erase_same] at h
    cases h
  rw [erase_of_ne hk] at h
  exact ⟨hk, h⟩

@[simp] theorem writes_nil (t : Table K V) : writes t [] = t := rfl

@[simp] theorem writes_cons (t : Table K V) (w : Write K V) (ws : List (Write K V)) :
    writes t (w :: ws) = writes (write t w) ws := rfl

theorem writes_append (t : Table K V) (ws ws' : List (Write K V)) :
    writes t (ws ++ ws') = writes (writes t ws) ws' := List.foldl_append

/-- A key holds what the last write to it left, and its old content without one. -/
theorem writes_apply (t : Table K V) (ws : List (Write K V)) (k : K) :
    writes t ws k = (lastWrite ws k).getD (t k) := by
  induction ws generalizing t with
  | nil => rfl
  | cons w ws ih =>
    rw [writes_cons, ih, lastWrite]
    cases lastWrite ws k with
    | some o => rfl
    | none =>
      rw [write_apply]
      by_cases h : w.1 = k <;> simp [h]

theorem lastWrite_eq_none_iff : lastWrite ws k = none ↔ ∀ w ∈ ws, w.1 ≠ k := by
  induction ws with
  | nil => simp [lastWrite]
  | cons w ws ih =>
    rw [lastWrite, List.forall_mem_cons, ← ih]
    cases h : lastWrite ws k with
    | some o => simp
    | none => by_cases hw : w.1 = k <;> simp [hw]

theorem mem_of_lastWrite {o : Option V} (h : lastWrite ws k = some o) : (k, o) ∈ ws := by
  induction ws with
  | nil => simp [lastWrite] at h
  | cons w ws ih =>
    rw [lastWrite] at h
    cases hl : lastWrite ws k with
    | some o' =>
      rw [hl] at h
      exact List.mem_cons_of_mem _ (ih (hl.trans h))
    | none =>
      rw [hl] at h
      by_cases hw : w.1 = k
      · simp only [hw, if_true, Option.some.injEq] at h
        rw [← hw, ← h]
        exact List.mem_cons_self
      · simp [hw] at h

/-- The writes to one key are all the same. -/
def Agreeing (ws : List (Write K V)) : Prop := ∀ k o o', (k, o) ∈ ws → (k, o') ∈ ws → o = o'

/-- In an agreeing log any write to a key says what the last one leaves. -/
theorem lastWrite_eq_some_iff (h : Agreeing ws) {o : Option V} : lastWrite ws k = some o ↔ (k, o) ∈ ws := by
  refine ⟨mem_of_lastWrite, fun hmem => ?_⟩
  cases hl : lastWrite ws k with
  | none => exact absurd rfl (lastWrite_eq_none_iff.mp hl _ hmem)
  | some o' => rw [h k o o' hmem (mem_of_lastWrite hl)]

/-- After a part of an agreeing log a key holds its old content or what the whole log leaves there. -/
theorem writes_part (h : Agreeing ws) (hpart : ws' ⊆ ws) (t : Table K V) (k : K) :
    writes t ws' k = t k ∨ writes t ws' k = writes t ws k := by
  rw [writes_apply, writes_apply]
  cases hl : lastWrite ws' k with
  | none => exact Or.inl rfl
  | some o => exact Or.inr (by rw [(lastWrite_eq_some_iff h).mpr (hpart (mem_of_lastWrite hl))])

theorem writes_empty_eq_some_iff (h : Agreeing ws) : writes (fun _ => none) ws k = some v ↔ (k, some v) ∈ ws := by
  rw [writes_apply, ← lastWrite_eq_some_iff h]
  cases lastWrite ws k <;> simp

section
variable {A : Type} {f : A → K} {g : A → V} {xs : List A}

theorem exists_of_writes_puts (h : writes (fun _ => none) (xs.map fun a => (f a, some (g a))) k = some v) :
    ∃ a ∈ xs, f a = k ∧ g a = v := by
  rw [writes_apply] at h
  cases hl : lastWrite (xs.map fun a => (f a, some (g a))) k with
  | none =>
    rw [hl] at h
    cases h
  | some o =>
    obtain ⟨a, ha, heq⟩ := List.mem_map.mp (mem_of_lastWrite hl)
    obtain ⟨hk, rfl⟩ := Prod.mk.inj heq
    rw [hl, Option.getD_some, Option.some.injEq] at h
    exact ⟨a, ha, hk, h⟩

theorem writes_puts_eq_some_iff (hagree : ∀ a ∈ xs, ∀ b ∈ xs, f a = f b → g a = g b) :
    writes (fun _ => none) (xs.map fun a => (f a, some (g a))) k = some v ↔ ∃ a ∈ xs, f a = k ∧ g a = v := by
  refine ⟨exists_of_writes_puts, ?_⟩
  rintro ⟨a, ha, rfl, rfl⟩
  have hlog : Agreeing (xs.map fun a => (f a, some (g a))) := by
    intro l o o' ho ho'
    obtain ⟨b, hb, heq⟩ := List.mem_map.mp ho
    obtain ⟨c, hc, heq'⟩ := List.mem_map.mp ho'
    obtain ⟨rfl, rfl⟩ := Prod.mk.inj heq
    obtain ⟨hkey, rfl⟩ := Prod.mk.inj heq'
    rw [hagree c hc b hb hkey]
  exact (writes_empty_eq_some_iff hlog).mpr (List.mem_map_of_mem ha)

end

theorem lastWrite_append : lastWrite (ws ++ ws') k = (lastWrite ws' k).or (lastWrite ws k) := by
  induction ws with
  | nil => simp [lastWrite]
  | cons w ws ih =>
    rw [List.cons_append, lastWrite, ih, lastWrite]
    cases lastWrite ws' k <;> rfl

/-- A log of writes leaves the map as it was exactly when each last write restores what was there. -/
theorem writes_eq_self_iff :
    writes t ws = t ↔ ∀ k o, lastWrite ws k = some o → t k = o := by
  constructor
  · intro h k o hl
    rw [← h, writes_apply, hl]
    rfl
  · intro h
    funext k
    rw [writes_apply]
    cases hl : lastWrite ws k with
    | none => rfl
    | some o => exact (h k o hl).symm

/-- A log that writes only what `t'` holds, and every key where `t` differs from it, turns `t` into `t'`. -/
theorem writes_eq_of_forall {t' : Table K V} (hws : ∀ w ∈ ws, w.2 = t' w.1)
    (hrest : ∀ k, (∀ w ∈ ws, w.1 ≠ k) → t k = t' k) : writes t ws = t' := by
  funext k
  rw [writes_apply]
  cases hl : lastWrite ws k with
  | none => exact hrest k (lastWrite_eq_none_iff.mp hl)
  | some o => exact hws _ (mem_of_lastWrite hl)

theorem of_writes_erases (h : ∀ w ∈ ws, w.2 = none) (hk : writes t ws k = some v) : t k = some v := by
  rw [writes_apply] at hk
  cases hl : lastWrite ws k with
  | none => rwa [hl] at hk
  | some o =>
    rw [hl, Option.getD_some, show o = none from h _ (mem_of_lastWrite hl)] at hk
    cases hk

/-- Logs over renamed keys and values: with different names for different keys, a renamed key holds the renamed
    value. -/
theorem writes_image {K' V' : Type} [DecidableEq K'] {f : K → K'} (hf : Function.Injective f) (g : V → V')
    (ws : List (Write K V)) (k : K) :
    writes (fun _ => none) (ws.map fun w => (f w.1, w.2.map g)) (f k) = (writes (fun _ => none) ws k).map g := by
  have hlast : lastWrite (ws.map fun w => (f w.1, w.2.map g)) (f k) = (lastWrite ws k).map (Option.map g) := by
    induction ws with
    | nil => rfl
    | cons w ws ih =>
      rw [List.map_cons, lastWrite, ih, lastWrite]
      cases lastWrite ws k with
      | some o => rfl
      | none => by_cases h : w.1 = k <;> simp [h, hf.eq_iff]
  rw [writes_apply, writes_apply, hlast]
  cases lastWrite ws k <;> rfl

theorem write_eq_self (h : t w.1 = w.2) : write t w = t := by
  funext k
  rw [write_apply]
  by_cases hk : w.1 = k
  · rw [if_pos hk, ← hk, h]
  · rw [if_neg hk]

end Table

theorem filterMap_cons_toList {A B : Type} (f : A → Option B) (a : A) (l : List A) :
    (a :: l).filterMap f = (f a).toList ++ l.filterMap f := by
  cases hf : f a <;> simp [hf]

end Meridian.Lib
