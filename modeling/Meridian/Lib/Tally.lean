import Mathlib.Algebra.BigOperators.Group.Finset.Basic
import Meridian.Lib.Run

/-! Sums over the steps of a run: an account that every step raises by some amount is raised by a run by the sum of the
    amounts, and a sum over a finite family of amounts can be taken step by step. -/

namespace Meridian.Lib

variable {S E : Type} {step : S → E → S}

def tally (step : S → E → S) (f : S → E → Nat) : S → List E → Nat
  | _, [] => 0
  | s, e :: es => f s e + tally step f (step s e) es

/-- `R s s' n` says that `n` was added between `s` and `s'`. -/
theorem execute_tally {R : S → S → Nat → Prop} {f : S → E → Nat} (hrefl : ∀ s, R s s 0)
    (hstep : ∀ s e s' n, R (step s e) s' n → R s s' (f s e + n)) (s : S) (es : List E) :
    R s (execute step s es) (tally step f s es) := by
  induction es generalizing s with
  | nil => exact hrefl s
  | cons e es ih => exact hstep s e _ _ (ih (step s e))

theorem tally_sum {I : Type} (is : Finset I) (f : I → S → E → Nat) (s : S) (es : List E) :
    ∑ i ∈ is, tally step (f i) s es = tally step (fun s e => ∑ i ∈ is, f i s e) s es := by
  induction es generalizing s with
  | nil => exact Finset.sum_const_zero
  | cons e es ih =>
    simp only [tally]
    rw [Finset.sum_add_distrib, ih]

end Meridian.Lib
