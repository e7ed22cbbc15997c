import Mathlib.Data.List.Basic
import Mathlib.Data.Nat.ModEq

/-! The ones' complement sum of 16-bit words, by which internet headers are checked: addition with the carry brought
    back around. A block of words verifies when its sum has all bits set, that is, when the words are not all zero and
    add up to a multiple of 65535; replacing one word keeps that exactly when the words agree modulo 65535. -/

namespace Meridian.Lib

/-- Addition of 16-bit words with end-around carry. -/
def addCarry (a b : Nat) : Nat := if a + b < 65536 then a + b else a + b - 65535

def onesSum : List Nat → Nat
  | [] => 0
  | w :: ws => addCarry w (onesSum ws)

def Verifies (ws : List Nat) : Prop := onesSum ws = 65535

instance (ws : List Nat) : Decidable (Verifies ws) := inferInstanceAs (Decidable (_ = _))

/-- The words of a block of bytes in network order; an odd byte at the end is padded with zero. -/
def networkWords : List UInt8 → List Nat
  | [] => []
  | [a] => [256 * a.toNat]
  | a :: b :: rest => (256 * a.toNat + b.toNat) :: networkWords rest

theorem networkWords_lt (d : List UInt8) : ∀ w ∈ networkWords d, w < 65536 := by
  fun_induction networkWords d with
  | case1 => simp
  | case2 a =>
    have ha := a.toNat_lt
    simp only [List.mem_singleton, forall_eq]
    omega
  | case3 a b rest ih =>
    have ha := a.toNat_lt
    have hb := b.toNat_lt
    intro w hw
    rcases List.mem_cons.mp hw with rfl | hw
    · omega
    · exact ih w hw

/-- The sum is the residue of the plain sum, represented in 1 to 65535 unless all words are zero. -/
theorem onesSum_spec {ws : List Nat} (h : ∀ w ∈ ws, w < 65536) :
    onesSum ws < 65536 ∧ onesSum ws % 65535 = ws.sum % 65535 ∧ (onesSum ws = 0 ↔ ws.sum = 0) := by
  induction ws with
  | nil => exact ⟨Nat.zero_lt_succ _, rfl, Iff.rfl⟩
  | cons w ws ih =>
    obtain ⟨hlt, hmod, hzero⟩ := ih fun w' hw' => h w' (List.mem_cons_of_mem w hw')
    have hw := h w List.mem_cons_self
    rw [onesSum, addCarry, List.sum_cons]
    split
    · refine ⟨by assumption, ?_, ?_⟩ <;> omega
    · refine ⟨by omega, ?_, ?_⟩ <;> omega

theorem verifies_iff {ws : List Nat} (h : ∀ w ∈ ws, w < 65536) : Verifies ws ↔ ws.sum ≠ 0 ∧ ws.sum % 65535 = 0 := by
  obtain ⟨hlt, hmod, hzero⟩ := onesSum_spec h
  unfold Verifies
  omega

/-- Another second word, behind a first word that is not zero. -/
theorem verifies_second_iff {first w w' : Nat} {rest : List Nat} (hpos : 0 < first) (h : ∀ v ∈ first :: w :: rest, v < 65536)
    (hw' : w' < 65536) (hverifies : Verifies (first :: w :: rest)) :
    Verifies (first :: w' :: rest) ↔ w % 65535 = w' % 65535 := by
  have h' : ∀ v ∈ first :: w' :: rest, v < 65536 := by
    intro v hv
    rcases List.mem_cons.mp hv with rfl | hv
    · exact h v List.mem_cons_self
    · rcases List.mem_cons.mp hv with rfl | hv
      · exact hw'
      · exact h v (List.mem_cons_of_mem _ (List.mem_cons_of_mem _ hv))
  obtain ⟨-, hsum⟩ := (verifies_iff h).mp hverifies
  rw [verifies_iff h']
  simp only [List.sum_cons] at hsum ⊢
  omega

end Meridian.Lib
