import Mathlib.Algebra.BigOperators.Group.Finset.Basic
import Mathlib.Algebra.BigOperators.Group.Finset.Piecewise

/-! Parties that hold things, each at most one, and each thing held by at most one party. -/

namespace Meridian.Lib
variable {P T : Type} [DecidableEq P] [DecidableEq T] {holds : P → Option T} {holder : T → Option P} {p : P} {t : T}

/-- What the parties hold and who holds the things are one relation. -/
def Holders (holds : P → Option T) (holder : T → Option P) : Prop := ∀ p t, holds p = some t ↔ holder t = some p

theorem Holders.acquire (h : Holders holds holder) (hp : holds p = none) (ht : holder t = none) :
    Holders (Function.update holds p (some t)) (Function.update holder t (some p)) := by
  intro q u
  have hqu := h q u
  rw [Function.update_apply, Function.update_apply]
  split <;> split <;> simp_all [eq_comm]

theorem Holders.release (h : Holders holds holder) (hp : holds p = some t) :
    Holders (Function.update holds p none) (Function.update holder t none) := by
  have ht := (h p t).mp hp
  intro q u
  have hqu := h q u
  rw [Function.update_apply, Function.update_apply]
  split <;> split <;> simp_all [eq_comm]

theorem Holders.keep (h : Holders holds holder) (hp : holds p = some t) :
    Holders (Function.update holds p (some t)) (Function.update holder t (some p)) := by
  rw [← hp, Function.update_eq_self, ← (h p t).mp hp, Function.update_eq_self]
  exact h

omit [DecidableEq P] in
theorem Holders.unheld (h : Holders holds holder) (ht : holder t = none) : Holders holds (Function.update holder t none) := by
  rw [← ht, Function.update_eq_self]
  exact h

/-- Counts of at most one each: what they sum to and how many are zero. -/
theorem sum_add_card_zero {f : Nat → Nat} {n : Nat} (h : ∀ i < n, f i ≤ 1) :
    ∑ i ∈ Finset.range n, f i + ((Finset.range n).filter (f · = 0)).card = n := by
  rw [Finset.card_filter, ← Finset.sum_add_distrib]
  calc ∑ i ∈ Finset.range n, (f i + if f i = 0 then 1 else 0)
      = ∑ i ∈ Finset.range n, 1 := by
        refine Finset.sum_congr rfl fun i hi => ?_
        have := h i (Finset.mem_range.mp hi)
        split <;> omega
    _ = n := by simp

end Meridian.Lib
