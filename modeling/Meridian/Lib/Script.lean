import Mathlib.Data.List.Basic

/-! Scripts of calls that may fail. Which calls fail is given per call, by the number of calls before it. A call that
    fails has no effect and ends its script, so that a script leaves what a prefix of its effects leaves, and how long
    the prefix is depends on the pattern of failures only. -/

namespace Meridian.Lib

variable {S : Type} {fails : Nat → Bool}

/-- Runs the calls, of which the first is the `n`th: whether one failed, how many were made then, and the state. -/
def attempt (fails : Nat → Bool) : List (S → S) → Nat → S → Bool × Nat × S
  | [], n, s => (false, n, s)
  | f :: fs, n, s => if fails n then (true, n + 1, s) else attempt fails fs (n + 1) (f s)

/-- How many of `t` calls from the `n`th on succeed before one fails. -/
def successes (fails : Nat → Bool) : Nat → Nat → Nat
  | _, 0 => 0
  | n, t + 1 => if fails n then 0 else successes fails (n + 1) t + 1

/-- All of `t` calls from the `n`th on succeed. -/
def AllSucceed (fails : Nat → Bool) (n t : Nat) : Prop := ∀ i < t, fails (n + i) = false

def applyAll (fs : List (S → S)) (s : S) : S := fs.foldl (fun s f => f s) s

@[simp] theorem applyAll_nil (s : S) : applyAll [] s = s := rfl

@[simp] theorem applyAll_cons (f : S → S) (fs : List (S → S)) (s : S) : applyAll (f :: fs) s = applyAll fs (f s) := rfl

@[simp] theorem applyAll_append (fs gs : List (S → S)) (s : S) : applyAll (fs ++ gs) s = applyAll gs (applyAll fs s) :=
  List.foldl_append

/-! ### Patterns of failures -/

theorem allSucceed_zero (fails : Nat → Bool) (n : Nat) : AllSucceed fails n 0 := fun i hi => absurd hi (Nat.not_lt_zero i)

theorem allSucceed_succ {n t : Nat} : AllSucceed fails n (t + 1) ↔ fails n = false ∧ AllSucceed fails (n + 1) t := by
  constructor
  · intro h
    refine ⟨h 0 (Nat.succ_pos t), fun i hi => ?_⟩
    have := h (i + 1) (Nat.succ_lt_succ hi)
    rwa [Nat.add_right_comm]
  · rintro ⟨hn, h⟩ i hi
    cases i with
    | zero => exact hn
    | succ i =>
      have := h i (Nat.lt_of_succ_lt_succ hi)
      rwa [Nat.add_right_comm] at this

theorem allSucceed_add {n a b : Nat} : AllSucceed fails n (a + b) ↔ AllSucceed fails n a ∧ AllSucceed fails (n + a) b := by
  induction a generalizing n with
  | zero => simp [allSucceed_zero]
  | succ a ih =>
    rw [Nat.succ_add, allSucceed_succ, allSucceed_succ, ih, and_assoc, Nat.add_assoc, Nat.add_comm 1 a]

theorem successes_le (fails : Nat → Bool) (n t : Nat) : successes fails n t ≤ t := by
  induction t generalizing n with
  | zero => exact Nat.le_refl 0
  | succ t ih =>
    rw [successes]
    split
    · exact Nat.zero_le _
    · exact Nat.succ_le_succ (ih _)

theorem successes_eq_iff {n t : Nat} : successes fails n t = t ↔ AllSucceed fails n t := by
  induction t generalizing n with
  | zero => exact iff_of_true rfl (allSucceed_zero fails n)
  | succ t ih =>
    rw [successes, allSucceed_succ, ← ih]
    cases fails n with
    | true => simp
    | false => simp

/-! ### What a script leaves -/

section
variable {fs gs : List (S → S)} {n : Nat} {s : S}

theorem attempt_append :
    attempt fails (fs ++ gs) n s =
      match attempt fails fs n s with
      | (true, r) => (true, r)
      | (false, m, s') => attempt fails gs m s' := by
  induction fs generalizing n s with
  | nil => rfl
  | cons f fs ih =>
    rw [List.cons_append, attempt, attempt]
    cases fails n with
    | true => rfl
    | false => exact ih

theorem attempt_of_succeed (h : AllSucceed fails n fs.length) :
    attempt fails fs n s = (false, n + fs.length, applyAll fs s) := by
  induction fs generalizing n s with
  | nil => rfl
  | cons f fs ih =>
    obtain ⟨hn, hrest⟩ := allSucceed_succ.mp h
    rw [attempt, hn, if_neg Bool.false_ne_true, ih hrest, List.length_cons, applyAll_cons, Nat.add_assoc, Nat.add_comm 1]

theorem attempt_of_fail (h : ¬AllSucceed fails n fs.length) :
    attempt fails fs n s =
      (true, n + successes fails n fs.length + 1, applyAll (fs.take (successes fails n fs.length)) s) := by
  induction fs generalizing n s with
  | nil => exact absurd (allSucceed_zero fails n) h
  | cons f fs ih =>
    rw [attempt, List.length_cons, successes]
    cases hn : fails n with
    | true => rfl
    | false =>
      have hrest : ¬AllSucceed fails (n + 1) fs.length := fun hall => h (allSucceed_succ.mpr ⟨hn, hall⟩)
      rw [if_neg Bool.false_ne_true, if_neg Bool.false_ne_true, ih hrest, List.take_succ_cons, applyAll_cons,
        Nat.add_right_comm n 1, Nat.add_assoc n _ 1]

theorem attempt_failed_iff : (attempt fails fs n s).1 = true ↔ ¬AllSucceed fails n fs.length := by
  by_cases h : AllSucceed fails n fs.length
  · rw [attempt_of_succeed h]
    exact iff_of_false Bool.false_ne_true (not_not.mpr h)
  · rw [attempt_of_fail h]
    exact iff_of_true rfl h

end

end Meridian.Lib
