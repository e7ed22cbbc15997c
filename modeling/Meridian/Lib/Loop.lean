import Mathlib.Data.List.Basic

/-! Loops over a list that stop at the first error, and their rules. An invariant speaks of the elements done
    so far and of the state; a loop gets through exactly when no position, given the elements before it,
    makes its step fail. -/

namespace Meridian.Lib

variable {A S E : Type} {step : Nat → A → S → Except E S}

/-- `for i, x := range xs`, whose body updates a state and may return an error; `i` is the index of the head. -/
def rangeLoop (step : Nat → A → S → Except E S) : List A → Nat → S → Except E S
  | [], _, s => .ok s
  | x :: rest, i, s =>
    match step i x s with
    | .error e => .error e
    | .ok s' => rangeLoop step rest (i + 1) s'

theorem rangeLoop_cons_eq_ok {x : A} {rest : List A} {i : Nat} {s s' : S} :
    rangeLoop step (x :: rest) i s = .ok s' ↔
      ∃ mid, step i x s = .ok mid ∧ rangeLoop step rest (i + 1) mid = .ok s' := by
  rw [rangeLoop]
  cases step i x s <;> simp

section
variable {I : List A → S → Prop} (hstep : ∀ done x i s s', I done s → step i x s = .ok s' → I (done ++ [x]) s')
include hstep

/-- What every step carries from the elements before it to those with it, the loop carries to the whole list. -/
theorem rangeLoop_inv {xs : List A} (done : List A) {i : Nat} {s s' : S} (h0 : I done s)
    (h : rangeLoop step xs i s = .ok s') : I (done ++ xs) s' := by
  induction xs generalizing done i s with
  | nil =>
    cases h
    rwa [List.append_nil]
  | cons x rest ih =>
    obtain ⟨mid, hx, hrest⟩ := rangeLoop_cons_eq_ok.mp h
    have := ih _ (hstep done x i s mid h0 hx) hrest
    rwa [List.append_assoc] at this

/-- The loop succeeds exactly when each step does, where a step's success is a condition on its element and
    those before. -/
theorem rangeLoop_ok_iff {C : List A → A → Prop}
    (hok : ∀ done x i s, I done s → ((∃ s', step i x s = .ok s') ↔ C done x)) {xs : List A} (done : List A)
    {i : Nat} {s : S} (h0 : I done s) :
    (∃ s', rangeLoop step xs i s = .ok s') ↔ ∀ before x after, xs = before ++ x :: after → C (done ++ before) x := by
  induction xs generalizing done i s with
  | nil => simp [rangeLoop]
  | cons x rest ih =>
    constructor
    · rintro ⟨s', h⟩ before y after hsplit
      obtain ⟨mid, hx, hrest⟩ := rangeLoop_cons_eq_ok.mp h
      cases before with
      | nil =>
        obtain ⟨rfl, -⟩ := List.cons.inj hsplit
        rw [List.append_nil]
        exact (hok done x i s h0).mp ⟨mid, hx⟩
      | cons z before =>
        obtain ⟨rfl, hrestSplit⟩ := List.cons.inj hsplit
        have := (ih _ (hstep done x i s mid h0 hx)).mp ⟨s', hrest⟩ before y after hrestSplit
        rwa [List.append_assoc] at this
    · intro hall
      obtain ⟨mid, hx⟩ := (hok done x i s h0).mpr (by simpa using hall [] x rest rfl)
      obtain ⟨s', hrest⟩ := (ih _ (hstep done x i s mid h0 hx)).mpr fun before y after hsplit => by
        have := hall (x :: before) y after (by rw [hsplit, List.cons_append])
        rwa [List.append_assoc]
      exact ⟨s', rangeLoop_cons_eq_ok.mpr ⟨mid, hx, hrest⟩⟩

end

/-- A loop that appends one result for each element. -/
theorem rangeLoop_collect {B : Type} {step : Nat → A → List B → Except E (List B)} {R : Nat → A → B → Prop}
    (hstep : ∀ i x out out', step i x out = .ok out' ↔ ∃ b, R i x b ∧ out' = out ++ [b]) {xs : List A} {n : Nat}
    {acc out : List B} :
    rangeLoop step xs n acc = .ok out ↔ ∃ bs, out = acc ++ bs ∧ bs.length = xs.length ∧
      ∀ i x, xs[i]? = some x → ∃ b, R (n + i) x b ∧ bs[i]? = some b := by
  induction xs generalizing n acc with
  | nil =>
    simp only [rangeLoop, Except.ok.injEq, List.length_nil, List.length_eq_zero_iff, List.getElem?_nil, reduceCtorEq,
      false_implies, implies_true, and_true, exists_eq_right, List.append_nil]
    exact eq_comm
  | cons x rest ih =>
    rw [rangeLoop_cons_eq_ok]
    constructor
    · rintro ⟨mid, hmid, hrest⟩
      obtain ⟨b, hb, rfl⟩ := (hstep n x acc mid).mp hmid
      obtain ⟨bs, rfl, hlen, hall⟩ := ih.mp hrest
      refine ⟨b :: bs, by simp, by simp [hlen], fun i y hy => ?_⟩
      cases i with
      | zero =>
        cases hy
        exact ⟨b, hb, rfl⟩
      | succ i =>
        obtain ⟨c, hc, hget⟩ := hall i y hy
        exact ⟨c, (by omega : n + 1 + i = n + (i + 1)) ▸ hc, hget⟩
    · rintro ⟨bs, rfl, hlen, hall⟩
      cases bs with
      | nil => cases hlen
      | cons b bs =>
        obtain ⟨c, hc, hget⟩ := hall 0 x rfl
        cases hget
        refine ⟨acc ++ [b], (hstep n x acc _).mpr ⟨b, hc, rfl⟩, ih.mpr ⟨bs, by simp, Nat.succ.inj hlen, fun i y hy => ?_⟩⟩
        obtain ⟨d, hd, hget⟩ := hall (i + 1) y hy
        exact ⟨d, (by omega : n + (i + 1) = n + 1 + i) ▸ hd, hget⟩

/-! ### One element, one error -/

theorem mapM_eq_singleton {B : Type} {f : A → Option B} {l : List A} {b : B} :
    l.mapM f = some [b] ↔ ∃ a, l = [a] ∧ f a = some b := by
  rcases l with _ | ⟨a, _ | ⟨a', l⟩⟩
  · simp
  · cases h : f a <;> simp [List.mapM_cons, h]
  · cases h : f a with
    | none => simp [List.mapM_cons, h]
    | some b' =>
      cases h' : f a' with
      | none => simp [List.mapM_cons, h, h']
      | some b'' => cases hl : l.mapM f <;> simp [List.mapM_cons, h, h', hl]

theorem mapM_singleton {B : Type} (f : A → Option B) (a : A) : [a].mapM f = (f a).map fun b => [b] := by
  cases h : f a <;> simp [List.mapM_cons, h]

theorem mapError_eq_ok {F : Type} {f : E → F} {r : Except E A} {a : A} : r.mapError f = .ok a ↔ r = .ok a := by
  cases r <;> simp [Except.mapError]

end Meridian.Lib
