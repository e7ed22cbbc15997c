import Mathlib.Data.Int.Log
import Mathlib.Data.Rat.Floor
import Mathlib.Tactic.Linarith
import Mathlib.Tactic.NormNum
import Mathlib.Tactic.Positivity
import Mathlib.Tactic.Ring
import Mathlib.Tactic.FieldSimp

/-! Binary floating point with 53 bits, as exact rationals: an operation rounds its exact result to the nearest number of the
    format, and in a tie to the one with the even mantissa. Exponents have no bounds, so what is said here holds of
    `float64` as long as no result is subnormal or overflows. -/

namespace Meridian.Lib

/-! ### Rounding to integers -/

/-- The nearest integer, and the even one in a tie. -/
def nearestEven (x : ℚ) : ℤ :=
  if Int.fract x < 1 / 2 then ⌊x⌋
  else if 1 / 2 < Int.fract x then ⌊x⌋ + 1
  else if ⌊x⌋ % 2 = 0 then ⌊x⌋
  else ⌊x⌋ + 1

theorem nearestEven_sub_le (x : ℚ) : |(nearestEven x : ℚ) - x| ≤ 1 / 2 := by
  have split := Int.floor_add_fract x
  have low := Int.fract_nonneg x
  have high := Int.fract_lt_one x
  unfold nearestEven
  split_ifs <;> push_cast <;> rw [abs_le] <;> constructor <;> linarith

@[simp] theorem nearestEven_intCast (n : ℤ) : nearestEven n = n := by
  simp [nearestEven]

/-- A lower bound by half a unit is enough, and a tie is if the bound is even. -/
theorem le_nearestEven {n : ℤ} {x : ℚ} (h : n - 1 / 2 < x ∨ n % 2 = 0 ∧ n - 1 / 2 ≤ x) : n ≤ nearestEven x := by
  have error := nearestEven_sub_le x
  rw [abs_le] at error
  rcases h with above | ⟨even, above⟩
  · have : (n : ℚ) - 1 < nearestEven x := by linarith
    have : n - 1 < nearestEven x := by exact_mod_cast this
    omega
  · by_contra below
    have below_cast : (nearestEven x : ℚ) ≤ n - 1 := by exact_mod_cast (by omega : nearestEven x ≤ n - 1)
    -- the only way out is a tie that went down to an odd number
    obtain rfl : x = n - 1 / 2 := by linarith
    have floor : ⌊(n : ℚ) - 1 / 2⌋ = n - 1 := Int.floor_eq_iff.mpr ⟨by push_cast; linarith, by push_cast; linarith⟩
    have half : Int.fract ((n : ℚ) - 1 / 2) = 1 / 2 := by
      rw [Int.fract, floor]
      push_cast
      ring
    have odd : ¬(n - 1) % 2 = 0 := by omega
    simp only [nearestEven, half, lt_irrefl, ↓reduceIte, floor, odd] at below
    omega

/-! ### The format -/

structure Float64 where
  value : ℚ
  fits : ∃ m e : ℤ, |m| ≤ 2 ^ 53 ∧ value = m * 2 ^ e

namespace Float64

/-- The unit in the last place of a number. -/
def ulp (x : ℚ) : ℚ := 2 ^ (Int.log 2 |x| - 52)

theorem ulp_pos (x : ℚ) : 0 < ulp x := zpow_pos (by norm_num) _

theorem abs_lt_ulp (x : ℚ) : |x| < 2 ^ 53 * ulp x := by
  have h := Int.lt_zpow_succ_log_self (b := 2) (by norm_num) |x|
  calc |x| < (2 : ℚ) ^ (Int.log 2 |x| + 1) := by exact_mod_cast h
    _ = 2 ^ 53 * ulp x := by
      rw [ulp, ← zpow_natCast, ← zpow_add₀ (by norm_num)]
      congr 1
      push_cast
      ring

theorem abs_nearestEven_le (x : ℚ) : |nearestEven (x / ulp x)| ≤ 2 ^ 53 := by
  have small : |x / ulp x| < 2 ^ 53 := by
    rw [abs_div, abs_of_pos (ulp_pos x), div_lt_iff₀ (ulp_pos x)]
    exact abs_lt_ulp x
  have error := nearestEven_sub_le (x / ulp x)
  have bound : |(nearestEven (x / ulp x) : ℚ)| < 2 ^ 53 + 1 := by
    rw [abs_lt] at small ⊢
    rw [abs_le] at error
    constructor <;> linarith
  have : |nearestEven (x / ulp x)| < 2 ^ 53 + 1 := by exact_mod_cast bound
  omega

def round (x : ℚ) : Float64 where
  value := nearestEven (x / ulp x) * ulp x
  fits := ⟨nearestEven (x / ulp x), Int.log 2 |x| - 52, abs_nearestEven_le x, rfl⟩

def ofInt (n : ℤ) : Float64 := round n

def mul (x y : Float64) : Float64 := round (x.value * y.value)

/-- Conversion to an integer cuts the fraction off. -/
def toInt (x : Float64) : ℤ := if 0 ≤ x.value then ⌊x.value⌋ else ⌈x.value⌉

theorem toInt_sub_le (x : Float64) : |(x.toInt : ℚ) - x.value| ≤ 1 := by
  rw [toInt, abs_le]
  split
  · have := Int.floor_le x.value
    have := Int.lt_floor_add_one x.value
    constructor <;> linarith
  · have := Int.le_ceil x.value
    have := Int.ceil_lt_add_one x.value
    constructor <;> linarith

theorem round_value_sub_le (x : ℚ) : |(round x).value - x| ≤ ulp x / 2 := by
  have scaled : (round x).value - x = (nearestEven (x / ulp x) - x / ulp x) * ulp x := by
    rw [sub_mul, div_mul_cancel₀ _ (ulp_pos x).ne']
    rfl
  rw [scaled, abs_mul, abs_of_pos (ulp_pos x)]
  linarith [mul_le_mul_of_nonneg_right (nearestEven_sub_le (x / ulp x)) (ulp_pos x).le]

theorem ulp_le {x : ℚ} {e : ℤ} (hx : x ≠ 0) (h : |x| < 2 ^ (e + 53)) : ulp x ≤ 2 ^ e := by
  have hlog : Int.log 2 |x| < e + 53 :=
    (Int.lt_zpow_iff_log_lt (b := 2) (by norm_num) (abs_pos.mpr hx)).mp (by exact_mod_cast h)
  exact zpow_le_zpow_right₀ (by norm_num) (by omega)

/-- A multiple of a power of two is a multiple of every smaller unit. -/
theorem exists_mul_ulp {x : ℚ} {m e : ℤ} (h : ulp x ≤ 2 ^ e) : ∃ n : ℤ, (m * 2 ^ e : ℚ) = n * ulp x := by
  have hle : Int.log 2 |x| - 52 ≤ e := (zpow_le_zpow_iff_right₀ (by norm_num)).mp h
  obtain ⟨k, hk⟩ := Int.eq_ofNat_of_zero_le (sub_nonneg.mpr hle)
  refine ⟨m * 2 ^ k, ?_⟩
  rw [ulp, show e = (k : ℤ) + (Int.log 2 |x| - 52) by omega, zpow_add₀ (by norm_num), zpow_natCast]
  push_cast
  ring

/-- A number of the format is its own rounding. -/
theorem round_mul_zpow {m e : ℤ} (hm : |m| < 2 ^ 53) : (round (m * 2 ^ e)).value = m * 2 ^ e := by
  obtain ⟨n, hn⟩ : ∃ n : ℤ, (m * 2 ^ e : ℚ) = n * ulp (m * 2 ^ e) := by
    by_cases hzero : m = 0
    · exact ⟨0, by simp [hzero]⟩
    · refine exists_mul_ulp (ulp_le (mul_ne_zero (by exact_mod_cast hzero) (zpow_ne_zero e (by norm_num))) ?_)
      have hm' : |(m : ℚ)| < 2 ^ 53 := by exact_mod_cast hm
      have hpos : (0 : ℚ) < 2 ^ e := zpow_pos (by norm_num) e
      calc |(m * 2 ^ e : ℚ)| = |(m : ℚ)| * 2 ^ e := by rw [abs_mul, abs_of_pos hpos]
        _ < 2 ^ 53 * 2 ^ e := mul_lt_mul_of_pos_right hm' hpos
        _ = 2 ^ (e + 53) := by
          rw [zpow_add₀ (by norm_num), mul_comm]
          norm_num
  have scaled : (m * 2 ^ e : ℚ) / ulp (m * 2 ^ e) = n := by
    rw [div_eq_iff (ulp_pos _).ne', ← hn]
  simp only [round, scaled, nearestEven_intCast, ← hn]

theorem ofInt_value {n : ℤ} (hn : |n| < 2 ^ 53) : (ofInt n).value = n := by
  have h := round_mul_zpow (e := 0) hn
  rwa [zpow_zero, mul_one] at h

/-- A number on the grid of `x` that exceeds `x` by at most half an ulp of its own is not rounded away: that is at most
    half a unit of the grid, and a tie has the even mantissa. -/
theorem le_round_value {x : ℚ} {n : ℤ} (h : n * ulp x * (1 - 1 / 2 ^ 54) ≤ x) :
    n * ulp x ≤ (round x).value := by
  have hu := ulp_pos x
  have small : x / ulp x < 2 ^ 53 := by
    rw [div_lt_iff₀ hu]
    exact (le_abs_self x).trans_lt (abs_lt_ulp x)
  have close : (n : ℚ) * (1 - 1 / 2 ^ 54) ≤ x / ulp x := by
    rw [le_div_iff₀ hu]
    linarith
  have bound : n ≤ 2 ^ 53 := by
    have : (n : ℚ) < 2 ^ 53 + 1 := by
      norm_num at close small ⊢
      linarith
    have : n < 2 ^ 53 + 1 := by exact_mod_cast this
    omega
  refine mul_le_mul_of_nonneg_right ?_ hu.le
  refine Int.cast_le.mpr (le_nearestEven ?_)
  rcases bound.lt_or_eq with below | rfl
  · left
    have : (n : ℚ) < 2 ^ 53 := by exact_mod_cast below
    norm_num at close this ⊢
    linarith
  · right
    norm_num at close ⊢
    linarith

end Float64

end Meridian.Lib
