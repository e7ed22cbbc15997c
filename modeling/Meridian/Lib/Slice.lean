import Meridian.Lib.Table

/-! Slices over an array: the first `len` of `cap` cells. An append writes the next cell in place, and moves to a new
    array when there is none. A list can be compacted in place, since a cell is written only after it was read. -/

namespace Meridian.Lib

/-- The cells of the array are empty where nothing was written. -/
structure Slice (α : Type) where
  cells : Table Nat α
  len : Nat
  cap : Nat

section
variable {α : Type} {cells cells' : Table Nat α} {a b j : Nat} {x : α}

/-- The cells from `a` up to `b`. -/
def between (cells : Table Nat α) (a b : Nat) : List α := (List.range' a (b - a)).filterMap cells

def Filled (cells : Table Nat α) (a b : Nat) : Prop := ∀ i, a ≤ i → i < b → ∃ x, cells i = some x

theorem between_self (cells : Table Nat α) (a : Nat) : between cells a a = [] := by
  simp [between]

theorem between_congr (h : ∀ i, a ≤ i → i < b → cells i = cells' i) : between cells a b = between cells' a b := by
  refine List.filterMap_congr fun i hi => ?_
  rw [List.mem_range'_1] at hi
  exact h i hi.1 (by omega)

theorem between_cons (h : a < b) (hx : cells a = some x) : between cells a b = x :: between cells (a + 1) b := by
  rw [between, show b - a = (b - (a + 1)) + 1 by omega, List.range'_succ, List.filterMap_cons_some hx]
  rfl

theorem between_concat (h : a ≤ b) (hx : cells b = some x) : between cells a (b + 1) = between cells a b ++ [x] := by
  rw [between, show b + 1 - a = (b - a) + 1 by omega, List.range'_concat, List.filterMap_append, Nat.one_mul,
    Nat.add_sub_cancel' h, List.filterMap_cons_some hx]
  rfl

theorem between_put_of_lt (h : j < a) : between (Table.put cells j x) a b = between cells a b :=
  between_congr fun _ hi _ => Table.put_of_ne (by omega)

theorem between_put (h : a ≤ j) : between (Table.put cells j x) a (j + 1) = between cells a j ++ [x] := by
  rw [between_concat h (Table.put_same cells j x)]
  congr 1
  exact between_congr fun _ _ hi => Table.put_of_ne (by omega)

theorem Filled.tail (h : Filled cells a b) : Filled cells (a + 1) b :=
  fun i ha hb => h i (Nat.le_of_succ_le ha) hb

theorem Filled.put (h : Filled cells a b) : Filled (Table.put cells j x) a b := by
  intro i ha hb
  by_cases hij : j = i
  · subst hij
    exact ⟨x, Table.put_same cells j x⟩
  · rw [Table.put_of_ne hij]
    exact h i ha hb

theorem Filled.put_last (h : Filled cells a b) : Filled (Table.put cells b x) a (b + 1) := by
  intro i ha hb
  by_cases hi : b = i
  · subst hi
    exact ⟨x, Table.put_same cells b x⟩
  · rw [Table.put_of_ne hi]
    exact h i ha (by omega)

end

namespace Slice
variable {α : Type}

def empty : Slice α := ⟨fun _ => none, 0, 0⟩

def toList (s : Slice α) : List α := between s.cells 0 s.len

/-- The cells of a new array, after the first `n` were copied. -/
def copied (cells : Table Nat α) (n : Nat) : Table Nat α := fun i => if i < n then cells i else none

/-- `append(s, x)`; a new array has room for `spare` more. -/
def append (s : Slice α) (x : α) (spare : Nat) : Slice α :=
  if s.len < s.cap then ⟨Table.put s.cells s.len x, s.len + 1, s.cap⟩
  else ⟨Table.put (copied s.cells s.len) s.len x, s.len + 1, s.len + 1 + spare⟩

@[simp] theorem len_append (s : Slice α) (x : α) (spare : Nat) : (s.append x spare).len = s.len + 1 := by
  unfold append
  split <;> rfl

theorem cells_append_of_lt {s : Slice α} {i : Nat} (x : α) (spare : Nat) (h : i < s.len) :
    (s.append x spare).cells i = s.cells i := by
  unfold append
  split
  · exact Table.put_of_ne (by omega)
  · exact (Table.put_of_ne (by omega)).trans (if_pos h)

theorem cells_append_last (s : Slice α) (x : α) (spare : Nat) : (s.append x spare).cells s.len = some x := by
  unfold append
  split
  · exact Table.put_same _ s.len x
  · exact Table.put_same _ s.len x

theorem toList_append (s : Slice α) (x : α) (spare : Nat) : (s.append x spare).toList = s.toList ++ [x] := by
  rw [toList, len_append, between_concat (Nat.zero_le _) (cells_append_last s x spare), toList]
  congr 1
  exact between_congr fun i _ hi => cells_append_of_lt x spare hi

theorem filled_append {s : Slice α} (h : Filled s.cells 0 s.len) (x : α) (spare : Nat) :
    Filled (s.append x spare).cells 0 (s.append x spare).len := by
  intro i ha hb
  rw [len_append] at hb
  rcases Nat.lt_or_eq_of_le (Nat.le_of_lt_succ hb) with hlt | rfl
  · rw [cells_append_of_lt x spare hlt]
    exact h i ha hlt
  · exact ⟨x, cells_append_last s x spare⟩

end Slice

end Meridian.Lib
