import Meridian.Agent.Rotation
import Meridian.Theorems.NearExpiry
import Mathlib.Algebra.Order.Archimedean.Basic
import Mathlib.Tactic.Linarith
import Mathlib.Tactic.NormNum

/-! Rotation through an outage of the signer. A retry comes two thirds of the remainder after the backoff, so a failed
    attempt at the scheduled moment is repeated only after the last sixth of the lifetime has begun. -/

namespace Meridian.Svid.Exact
open Lib

/-! ### The fractions in floating point -/

/-- The times of an entry in exact seconds. -/
def validity (e : Entry) : Validity := ⟨e.leaf.notBefore, e.leaf.notAfter⟩

theorem rotateFraction_value : Svid.rotateFraction.value = (1 - 1 / 2 ^ 54) * (2 / 3) := by
  decide +kernel

theorem scale_rotateFraction_sub_le {d : Int} (hpos : 0 < d) (hd : d < 2 ^ 53) :
    |(scale d Svid.rotateFraction : ℚ) - d * (2 / 3)| ≤ 2 := by
  have hpos' : (0 : ℚ) < d := by exact_mod_cast hpos
  have hd' : (d : ℚ) < 2 ^ 53 := by exact_mod_cast hd
  obtain ⟨x, hx⟩ : ∃ x : ℚ, x = d * ((1 - 1 / 2 ^ 54) * (2 / 3)) := ⟨_, rfl⟩
  have hxpos : 0 < x := by
    rw [hx]
    exact mul_pos hpos' (by norm_num)
  have hulp : Float64.ulp x ≤ 2 ^ (0 : ℤ) := by
    refine Float64.ulp_le hxpos.ne' ?_
    rw [abs_of_pos hxpos, hx]
    norm_num at hd' ⊢
    linarith
  have error := abs_le.mp (Float64.round_value_sub_le x)
  have hscale : scale d Svid.rotateFraction = (Float64.round x).toInt := by
    rw [scale, Float64.mul, Float64.ofInt_value (abs_lt.mpr ⟨by linarith, hd⟩), rotateFraction_value, ← hx]
  have cut := abs_le.mp (Float64.toInt_sub_le (.round x))
  rw [hscale, abs_le]
  norm_num at hulp hx hd'
  constructor <;> linarith

theorem Validity.nextRotateDelay_eq (v : Validity) (now : ℚ) :
    v.nextRotateDelay now = max 0 (v.remaining now * (2 / 3)) := by
  simp only [nextRotateDelay]
  split
  · exact (max_eq_left (by linarith)).symm
  · have hpos : 0 ≤ v.remaining now * rotateFraction := by
      unfold rotateFraction
      linarith
    rw [if_neg (not_lt.mpr hpos)]
    exact (max_eq_right hpos).symm

section

variable {now : Int} {e : Entry}

theorem remaining_validity (now : Int) (e : Entry) :
    (validity e).remaining (now / second) * second = Workloadapi.remaining e.leaf now := by
  have hsecond : (second : ℚ) ≠ 0 := by decide
  simp only [validity, Validity.remaining, Workloadapi.remaining, sub_mul, div_mul_cancel₀ _ hsecond]
  push_cast
  rfl

/-- The delay that the manager computes is the exact one up to two nanoseconds. -/
theorem nextRotateDelay_sub_le (he : Workloadapi.Issued e) (hnow : Workloadapi.remaining e.leaf now < 2 ^ 53) :
    |(nextRotateDelay now e : ℚ) - (validity e).nextRotateDelay (now / second) * second| ≤ 2 := by
  have hsecond : (0 : ℚ) < second := by decide
  have hexact : (validity e).nextRotateDelay (now / second) * second =
      max 0 ((Workloadapi.remaining e.leaf now : ℚ) * (2 / 3)) := by
    rw [Validity.nextRotateDelay_eq, max_mul_of_nonneg _ _ hsecond.le, zero_mul, mul_right_comm, remaining_validity]
  have hleft : sub (e.expiresAt * second) now = max (-2 ^ 63) (Workloadapi.remaining e.leaf now) := by
    rw [he.1, sub, Workloadapi.remaining] at *
    omega
  rw [hexact]
  simp only [nextRotateDelay, hleft]
  by_cases hpos : 0 < Workloadapi.remaining e.leaf now
  · have hpos' : (0 : ℚ) < Workloadapi.remaining e.leaf now := by exact_mod_cast hpos
    rw [max_eq_right (by omega : -2 ^ 63 ≤ Workloadapi.remaining e.leaf now), if_neg (not_le.mpr hpos),
      max_eq_right (by linarith)]
    have hscale := scale_rotateFraction_sub_le hpos hnow
    split
    · rename_i hneg
      have hneg' : (scale (Workloadapi.remaining e.leaf now) Svid.rotateFraction : ℚ) < 0 := by exact_mod_cast hneg
      rw [abs_le] at hscale ⊢
      push_cast
      constructor <;> linarith
    · exact hscale
  · have hneg : (Workloadapi.remaining e.leaf now : ℚ) ≤ 0 := by exact_mod_cast not_lt.mp hpos
    rw [if_pos (by omega), max_eq_left (by linarith)]
    norm_num

theorem nearExpiry_validity_eq_false_iff (hlife : 0 < Workloadapi.lifetime e.leaf) :
    (validity e).nearExpiry (now / second) = false ↔ Workloadapi.Fresh e.leaf now := by
  have hsecond : (0 : ℚ) < second := by decide
  have htotal : ((validity e).notAfter - (validity e).notBefore) * second = Workloadapi.lifetime e.leaf := by
    simp only [validity, Workloadapi.lifetime]
    push_cast
    rfl
  have hpos : 0 < (validity e).notAfter - (validity e).notBefore := by
    refine pos_of_mul_pos_left ?_ hsecond.le
    rw [htotal]
    exact_mod_cast hlife
  simp only [Validity.nearExpiry, if_neg (not_le.mpr hpos), decide_eq_false_iff_not, not_lt]
  rw [← mul_le_mul_iff_left₀ hsecond, remaining_validity, mul_right_comm, htotal, Workloadapi.Fresh, nearExpiryFraction,
    mul_one_div]

end

/-! ### One wait -/

namespace Loop

variable {l : Loop}

theorem now_le_attempt (l : Loop) (forced : Option ℚ) : l.now ≤ l.attempt forced := by
  have hdelay : 0 ≤ l.entry.nextRotateDelay l.now := by
    rw [Validity.nextRotateDelay_eq]
    exact le_max_left _ _
  cases forced with
  | none => exact le_add_of_nonneg_right hdelay
  | some d => exact le_add_of_nonneg_right (le_min (le_max_left 0 d) hdelay)

/-- At least a third of what was left is left at the attempt. -/
theorem third_le_remaining (l : Loop) (forced : Option ℚ) (hpos : 0 ≤ l.entry.remaining l.now) :
    l.entry.remaining l.now / 3 ≤ l.entry.remaining (l.attempt forced) := by
  have hdelay : l.attempt forced ≤ l.now + l.entry.remaining l.now * (2 / 3) := by
    rw [← max_eq_right (by linarith : 0 ≤ l.entry.remaining l.now * (2 / 3)), ← Validity.nextRotateDelay_eq]
    cases forced with
    | none => exact le_rfl
    | some d => exact add_le_add_right (min_le_right _ _) _
  unfold Validity.remaining at hdelay ⊢
  linarith

/-- A request preempts the timer. -/
def Preempted (l : Loop) (forced : Option ℚ) : Prop := ∃ d, forced = some d ∧ d < l.entry.nextRotateDelay l.now

/-- Without a request at most a third is left. -/
theorem remaining_le_third {forced : Option ℚ} (h : ¬l.Preempted forced) :
    l.entry.remaining (l.attempt forced) ≤ l.entry.remaining l.now / 3 ∨ l.entry.remaining (l.attempt forced) ≤ 0 := by
  have hattempt : l.attempt forced = l.now + max 0 (l.entry.remaining l.now * (2 / 3)) := by
    rw [← Validity.nextRotateDelay_eq]
    cases forced with
    | none => rfl
    | some d =>
      have hd : l.entry.nextRotateDelay l.now ≤ d := not_lt.mp fun hd => h ⟨d, rfl, hd⟩
      show _ + min (max 0 d) _ = _
      rw [min_eq_right (hd.trans (le_max_right 0 d))]
  rw [hattempt]
  rcases le_total (l.entry.remaining l.now) 0 with hneg | hpos
  · right
    rw [max_eq_left (by linarith), add_zero]
    exact hneg
  · left
    rw [max_eq_right (by linarith)]
    unfold Validity.remaining
    linarith

end Loop

/-! ### The run -/

section

variable {ttl start : ℚ} {w : Surroundings} {n : ℕ}

/-- The moment of the n-th attempt to rotate. -/
def attemptAt (ttl start : ℚ) (w : Surroundings) (n : ℕ) : ℚ := (loop ttl start w n).attempt (w.forced n)

/-- What is left of the entry at the n-th attempt. -/
def leftAt (ttl start : ℚ) (w : Surroundings) (n : ℕ) : ℚ := (loop ttl start w n).entry.remaining (attemptAt ttl start w n)

def Fails (ttl start : ℚ) (w : Surroundings) (n : ℕ) : Prop := w.down (attemptAt ttl start w n) = true

theorem loop_of_fails (h : Fails ttl start w n) :
    loop ttl start w (n + 1) = ⟨(loop ttl start w n).entry, attemptAt ttl start w n + 30⟩ := by
  show Loop.pass _ _ _ _ = _
  rw [Loop.pass]
  exact if_pos h

theorem loop_of_not_fails (h : ¬Fails ttl start w n) :
    loop ttl start w (n + 1) = ⟨sign (attemptAt ttl start w n) ttl, attemptAt ttl start w n⟩ := by
  show Loop.pass _ _ _ _ = _
  rw [Loop.pass]
  exact if_neg h

/-- An entry is fresh, or the last attempt failed. -/
theorem fresh_or_failed (ttl start : ℚ) (w : Surroundings) (n : ℕ) :
    (loop ttl start w n).entry = sign (loop ttl start w n).now ttl ∨ ∃ k, n = k + 1 ∧ Fails ttl start w k := by
  cases n with
  | zero => exact .inl rfl
  | succ k =>
    by_cases h : Fails ttl start w k
    · exact .inr ⟨k, rfl, h⟩
    · rw [loop_of_not_fails h]
      exact .inl rfl

theorem lifetime_loop (ttl start : ℚ) (w : Surroundings) (n : ℕ) :
    (loop ttl start w n).entry.notAfter - (loop ttl start w n).entry.notBefore = ttl + 300 := by
  have hsign : ∀ now, (sign now ttl).notAfter - (sign now ttl).notBefore = ttl + 300 := by
    intro now
    simp only [sign, clockSkew]
    linarith
  induction n with
  | zero => exact hsign start
  | succ n ih =>
    by_cases h : Fails ttl start w n
    · rw [loop_of_fails h]
      exact ih
    · rw [loop_of_not_fails h]
      exact hsign _

/-- `GetSVID` returns an entry that has not expired at every moment from the first issuance on. -/
def Serves (ttl start : ℚ) (w : Surroundings) : Prop :=
  ∀ n t, (loop ttl start w n).now ≤ t → t < (loop ttl start w (n + 1)).now →
    ∃ v, (loop ttl start w n).entry.getSVID t = some v ∧ t < v.notAfter

/-- Every failed attempt with less than three minutes over half of the lifetime left is followed by further failures only,
    until a request preempts the wait and its attempt succeeds before the last sixth of the validity. -/
def Rescued (ttl start : ℚ) (w : Surroundings) : Prop :=
  ∀ n, Fails ttl start w n → leftAt ttl start w n < ttl / 2 + 180 →
    ∃ m, n < m ∧ (∀ k, n ≤ k → k < m → Fails ttl start w k) ∧ ¬Fails ttl start w m ∧
      (loop ttl start w m).Preempted (w.forced m) ∧ (ttl + 300) / 6 ≤ leftAt ttl start w m

theorem served_iff (hT : 3600 ≤ ttl) (start : ℚ) (w : Surroundings) (n : ℕ) (t : ℚ) :
    (∃ v, (loop ttl start w n).entry.getSVID t = some v ∧ t < v.notAfter) ↔
      (ttl + 300) / 6 ≤ (loop ttl start w n).entry.remaining t := by
  have htotal := lifetime_loop ttl start w n
  generalize (loop ttl start w n).entry = v at htotal ⊢
  simp only [Validity.getSVID, Validity.nearExpiry, nearExpiryFraction, htotal,
    if_neg (show ¬ttl + 300 ≤ 0 by linarith), decide_eq_true_eq]
  constructor
  · rintro ⟨v', hv', -⟩
    by_contra hlow
    rw [if_pos (by linarith)] at hv'
    cases hv'
  · intro h
    refine ⟨v, if_neg (by linarith), ?_⟩
    unfold Validity.remaining at h
    linarith

/-- A pass of some length is served exactly when enough is left at its end. -/
theorem serves_iff (hT : 3600 ≤ ttl) :
    Serves ttl start w ↔ ∀ n, (loop ttl start w n).now < (loop ttl start w (n + 1)).now →
      (ttl + 300) / 6 ≤ (loop ttl start w n).entry.remaining (loop ttl start w (n + 1)).now := by
  simp only [Serves, served_iff hT]
  unfold Validity.remaining
  constructor
  · intro h n hlt
    by_contra hlow
    -- a moment before the end of the pass at which too little is left already
    have hmid : ∃ t, (loop ttl start w n).now ≤ t ∧ t < (loop ttl start w (n + 1)).now ∧
        (loop ttl start w n).entry.notAfter - (ttl + 300) / 6 < t := by
      obtain ⟨t, hlow', ht⟩ := exists_between (max_lt hlt (by linarith :
        (loop ttl start w n).entry.notAfter - (ttl + 300) / 6 < (loop ttl start w (n + 1)).now))
      exact ⟨t, (le_max_left _ _).trans hlow'.le, ht, (le_max_right _ _).trans_lt hlow'⟩
    obtain ⟨t, hnow, hend, hlate⟩ := hmid
    have := h n t hnow hend
    linarith
  · intro h n t hnow hend
    have := h n (hnow.trans_lt hend)
    linarith

/-- While attempts fail the entry stays, and each wait starts with at least the backoff less left than the last. -/
theorem remaining_of_fails {j : ℕ} (h : ∀ k, n ≤ k → k < n + (j + 1) → Fails ttl start w k) :
    (loop ttl start w (n + (j + 1))).entry.remaining (loop ttl start w (n + (j + 1))).now ≤
      leftAt ttl start w n - 30 * (j + 1) := by
  induction j with
  | zero =>
    rw [loop_of_fails (h n le_rfl n.lt_succ_self), leftAt]
    unfold Validity.remaining
    push_cast
    linarith
  | succ j ih =>
    have hleft := ih fun k hk hkj => h k hk (hkj.trans (Nat.lt_succ_self _))
    have hle := (loop ttl start w (n + (j + 1))).now_le_attempt (w.forced (n + (j + 1)))
    rw [← add_assoc n (j + 1) 1, loop_of_fails (h _ (by omega) (by omega))]
    unfold Validity.remaining attemptAt at *
    push_cast
    linarith

/-- A run that is served has enough left after each backoff. -/
theorem enough_after_fails (hT : 3600 ≤ ttl) (h : Serves ttl start w) (hn : Fails ttl start w n) :
    (ttl + 300) / 6 ≤ (loop ttl start w (n + 1)).entry.remaining (loop ttl start w (n + 1)).now := by
  have hlt : (loop ttl start w n).now < (loop ttl start w (n + 1)).now := by
    rw [loop_of_fails hn]
    exact lt_add_of_le_of_pos (Loop.now_le_attempt _ _) (by norm_num)
  have henough := (serves_iff hT).mp h n hlt
  rw [loop_of_fails hn] at henough ⊢
  exact henough

theorem exists_not_fails (hT : 3600 ≤ ttl) (h : Serves ttl start w) (n : ℕ) : ∃ m, n < m ∧ ¬Fails ttl start w m := by
  by_contra hnone
  have hfails : ∀ k, n < k → Fails ttl start w k := fun k hk => not_not.mp fun hk' => hnone ⟨k, hk, hk'⟩
  obtain ⟨j, hj⟩ := exists_nat_gt (leftAt ttl start w (n + 1))
  have hleft := remaining_of_fails (n := n + 1) (j := j) fun k hk _ => hfails k hk
  have henough := enough_after_fails hT h (hfails (n + 1 + j) (by omega))
  have hj' : (0 : ℚ) ≤ j := Nat.cast_nonneg j
  rw [add_assoc (n + 1)] at henough
  linarith

theorem rescued_of_serves (hT : 3600 ≤ ttl) (h : Serves ttl start w) : Rescued ttl start w := by
  classical
  intro n hn hlow
  -- the next attempt that succeeds
  obtain ⟨hnm, hm⟩ := Nat.find_spec (exists_not_fails hT h n)
  have hfirst := fun k => Nat.find_min (exists_not_fails hT h n) (m := k)
  generalize Nat.find (exists_not_fails hT h n) = m at hnm hm hfirst
  have hfails : ∀ k, n ≤ k → k < m → Fails ttl start w k := by
    intro k hk hkm
    rcases hk.eq_or_lt with rfl | hk
    · exact hn
    · exact not_not.mp fun hk' => hfirst k hkm ⟨hk, hk'⟩
  obtain ⟨j, rfl⟩ : ∃ j, m = n + (j + 1) := ⟨m - n - 1, by omega⟩
  have hleft := remaining_of_fails hfails
  have hbackoff := enough_after_fails hT h (hfails (n + j) (by omega) (by omega))
  have henough : (ttl + 300) / 6 ≤ leftAt ttl start w (n + (j + 1)) := by
    rcases (Loop.now_le_attempt (loop ttl start w (n + (j + 1))) (w.forced (n + (j + 1)))).eq_or_lt with hnow | hlt
    · rw [leftAt, attemptAt, ← hnow]
      exact hbackoff
    · have hend := (serves_iff hT).mp h (n + (j + 1))
      rw [loop_of_not_fails hm] at hend
      exact hend hlt
  refine ⟨n + (j + 1), hnm, hfails, hm, ?_, henough⟩
  by_contra hpre
  have hj : (0 : ℚ) ≤ j := Nat.cast_nonneg j
  unfold leftAt attemptAt at henough
  rcases Loop.remaining_le_third hpre with hthird | hzero <;> linarith

theorem serves_of_rescued (hT : 3600 ≤ ttl) (h : Rescued ttl start w) : Serves ttl start w := by
  refine (serves_iff hT).mpr fun n _ => ?_
  by_cases hn : Fails ttl start w n
  · rw [loop_of_fails hn]
    by_cases hlow : leftAt ttl start w n < ttl / 2 + 180
    · obtain ⟨m, hnm, hfails, -, -, henough⟩ := h n hn hlow
      obtain ⟨j, rfl⟩ : ∃ j, m = n + (j + 1) := ⟨m - n - 1, by omega⟩
      have hleft := remaining_of_fails hfails
      have hle := (loop ttl start w (n + (j + 1))).now_le_attempt (w.forced (n + (j + 1)))
      have hj : (0 : ℚ) ≤ j := Nat.cast_nonneg j
      unfold leftAt attemptAt Validity.remaining at *
      linarith
    · unfold leftAt Validity.remaining at hlow
      unfold Validity.remaining
      linarith
  · rw [loop_of_not_fails hn]
    show _ ≤ leftAt ttl start w n
    rcases fresh_or_failed ttl start w n with hfresh | ⟨k, rfl, hk⟩
    · have hleft : (loop ttl start w n).entry.remaining (loop ttl start w n).now = ttl := by
        rw [hfresh]
        exact add_sub_cancel_left _ _
      have hthird := (loop ttl start w n).third_le_remaining (w.forced n) (by linarith)
      unfold leftAt attemptAt
      linarith
    · by_cases hlow : leftAt ttl start w k < ttl / 2 + 180
      · obtain ⟨m, hkm, hfails, hm, -, henough⟩ := h k hk hlow
        rcases (Nat.succ_le_of_lt hkm).eq_or_lt with rfl | hlt
        · exact henough
        · exact absurd (hfails (k + 1) k.le_succ hlt) hn
      · have hleft : (loop ttl start w (k + 1)).entry.remaining (loop ttl start w (k + 1)).now =
            leftAt ttl start w k - 30 := by
          rw [loop_of_fails hk, leftAt]
          unfold Validity.remaining
          linarith
        have hthird := (loop ttl start w (k + 1)).third_le_remaining (w.forced (k + 1)) (by linarith)
        unfold leftAt attemptAt at *
        linarith

end

/-- From the first issuance on `GetSVID` always returns an entry that has not expired, exactly when every failed attempt
    that leaves less than half of the lifetime and three minutes is made good by a `ForceRotate` before the last sixth of
    the validity. -/
theorem rotation_serves_iff {ttl : ℚ} (hT : 3600 ≤ ttl) (start : ℚ) (w : Surroundings) :
    Serves ttl start w ↔ Rescued ttl start w :=
  ⟨rescued_of_serves hT, serves_of_rescued hT⟩

theorem loop_now_mono (ttl start : ℚ) (w : Surroundings) : Monotone fun n => (loop ttl start w n).now := by
  refine monotone_nat_of_le_succ fun n => ?_
  have hle := (loop ttl start w n).now_le_attempt (w.forced n)
  by_cases hfails : Fails ttl start w n
  · rw [loop_of_fails hfails]
    exact hle.trans (le_add_of_nonneg_right (by norm_num))
  · rw [loop_of_not_fails hfails]
    exact hle

/-- The signer is down at the scheduled rotation of the first entry, and a `ForceRotate` comes 10 seconds into the wait
    after the backoff. -/
def rescuedOutage : Surroundings where
  down t := t = 57600
  forced n := if n = 1 then some 10 else none

theorem rescued_outage_serves : Fails 86400 0 rescuedOutage 0 ∧ Serves 86400 0 rescuedOutage := by
  have hfirst : Fails 86400 0 rescuedOutage 0 := by
    unfold Fails
    decide +kernel
  refine ⟨hfirst, (rotation_serves_iff (by norm_num) 0 _).mpr fun n hfails _ => ?_⟩
  cases n with
  | zero =>
    refine ⟨1, Nat.one_pos, fun k _ hk => Nat.lt_one_iff.mp hk ▸ hfirst, ?_, ⟨10, rfl, by decide +kernel⟩,
      by decide +kernel⟩
    unfold Fails
    decide +kernel
  | succ n =>
    -- Every later attempt comes after the outage.
    have hdown : attemptAt 86400 0 rescuedOutage (n + 1) = 57600 := of_decide_eq_true hfails
    have hafter : 57600 < (loop 86400 0 rescuedOutage 1).now := by decide +kernel
    have hmono := loop_now_mono 86400 0 rescuedOutage (Nat.le_add_left 1 n)
    have hle := (loop 86400 0 rescuedOutage (n + 1)).now_le_attempt (rescuedOutage.forced (n + 1))
    exact absurd hdown (hafter.trans_le (hmono.trans hle)).ne'

/-- The signer is down for one second, from the scheduled rotation of the first entry on. -/
def shortOutage : Surroundings where
  down t := 2400 ≤ t ∧ t < 2401
  forced _ := none

/-- The outage ends with 1199 of 3600 seconds left. The retry comes 390 seconds before the entry expires, and `GetSVID`
    refuses the entry from 650 seconds on. -/
theorem short_outage_not_served :
    ¬Serves 3600 0 shortOutage ∧ attemptAt 3600 0 shortOutage 0 = 2400 ∧
      (loop 3600 0 shortOutage 0).now ≤ 2401 ∧ 2401 < (loop 3600 0 shortOutage 1).now ∧
      3600 / 4 ≤ (loop 3600 0 shortOutage 0).entry.remaining 2401 ∧
      (loop 3600 0 shortOutage 1).entry.getSVID 3000 = none ∧ attemptAt 3600 0 shortOutage 1 = 3210 := by
  have hnone : (loop 3600 0 shortOutage 1).entry.getSVID 3000 = none := by decide +kernel
  refine ⟨fun h => ?_, by decide +kernel, by decide +kernel, by decide +kernel, by decide +kernel, hnone,
    by decide +kernel⟩
  obtain ⟨v, hv, -⟩ := h 1 3000 (by decide +kernel) (by decide +kernel)
  exact Option.some_ne_none v (hv.symm.trans hnone)

end Meridian.Svid.Exact
