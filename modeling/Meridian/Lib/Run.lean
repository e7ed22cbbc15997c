import Mathlib.Data.List.Basic

/-! Runs of a step function over a list of events, and their rules: what every step keeps, the run keeps; a property holds
    in every state of a run exactly when every step meets a condition, as soon as the condition keeps an invariant that
    gives the property and a step against it breaks the property; conditions that agree where an invariant holds are met
    by the same runs; and a fact that some steps raise and others clear is false at the end exactly when every raise is
    followed by a clear. -/

namespace Meridian.Lib

variable {S E : Type} {step : S → E → S}

def execute (step : S → E → S) (s : S) (es : List E) : S := es.foldl step s

@[simp] theorem execute_nil (s : S) : execute step s [] = s := rfl

@[simp] theorem execute_cons (s : S) (e : E) (es : List E) : execute step s (e :: es) = execute step (step s e) es := rfl

theorem execute_append (s : S) (es es' : List E) :
    execute step s (es ++ es') = execute step (execute step s es) es' :=
  List.foldl_append

theorem execute_concat (s : S) (es : List E) (e : E) : execute step s (es ++ [e]) = step (execute step s es) e :=
  execute_append s es [e]

/-- Every state that the run reaches has the property, the first one included. -/
def Always (step : S → E → S) (P : S → Prop) (s : S) (es : List E) : Prop := ∀ pre, pre <+: es → P (execute step s pre)

/-- Every step of the run meets a condition on the state before it and its event. -/
def Steps (step : S → E → S) (C : S → E → Prop) : S → List E → Prop
  | _, [] => True
  | s, e :: es => C s e ∧ Steps step C (step s e) es

variable {I : S → Prop} {s : S} {C : S → E → Prop} {es : List E}

theorem execute_inv (hstep : ∀ s e, I s → I (step s e)) (h : I s) (es : List E) : I (execute step s es) := by
  induction es generalizing s with
  | nil => exact h
  | cons e es ih => exact ih (hstep s e h)

/-- What every step keeps that meets the condition, a run of such steps keeps. -/
theorem execute_inv_of_steps (hstep : ∀ s e, I s → C s e → I (step s e)) (h : I s) (hes : Steps step C s es) :
    I (execute step s es) := by
  induction es generalizing s with
  | nil => exact h
  | cons e es ih => exact ih (hstep s e h hes.1) hes.2

theorem steps_of_mem (h : ∀ s, ∀ e ∈ es, C s e) : Steps step C s es := by
  induction es generalizing s with
  | nil => trivial
  | cons e es ih => exact ⟨h s e List.mem_cons_self, ih fun s e' he' => h s e' (List.mem_cons_of_mem e he')⟩

theorem always_cons {P : S → Prop} {e : E} : Always step P s (e :: es) ↔ P s ∧ Always step P (step s e) es := by
  constructor
  · intro h
    refine ⟨h [] List.nil_prefix, fun pre hpre => ?_⟩
    exact h (e :: pre) (List.cons_prefix_cons.mpr ⟨rfl, hpre⟩)
  · rintro ⟨hs, h⟩ pre hpre
    cases pre with
    | nil => exact hs
    | cons e' pre =>
      obtain ⟨rfl, hrest⟩ := List.cons_prefix_cons.mp hpre
      exact h pre hrest

theorem always_iff_steps {P : S → Prop} (hP : ∀ s, I s → P s) (hstep : ∀ s e, I s → C s e → I (step s e))
    (hbad : ∀ s e, I s → ¬C s e → ¬P (step s e)) (h : I s) (es : List E) : Always step P s es ↔ Steps step C s es := by
  induction es generalizing s with
  | nil =>
    refine ⟨fun _ => trivial, fun _ pre hpre => ?_⟩
    rw [List.prefix_nil.mp hpre]
    exact hP s h
  | cons e es ih =>
    rw [always_cons]
    by_cases hC : C s e
    · rw [ih (hstep s e h hC)]
      exact ⟨fun ⟨_, hes⟩ => ⟨hC, hes⟩, fun ⟨_, hes⟩ => ⟨hP s h, hes⟩⟩
    · refine ⟨fun ⟨_, hes⟩ => ?_, fun ⟨hes, _⟩ => absurd hes hC⟩
      exact absurd (hes [] List.nil_prefix) (hbad s e h hC)

/-- Conditions that agree where an invariant holds, as long as they keep it. -/
theorem steps_iff {D : S → E → Prop} (h : ∀ s e, I s → (C s e ↔ D s e)) (hstep : ∀ s e, I s → D s e → I (step s e))
    (hs : I s) (es : List E) : Steps step C s es ↔ Steps step D s es := by
  induction es generalizing s with
  | nil => rfl
  | cons e es ih => exact (and_congr_left' (h s e hs)).trans (and_congr_right fun hD => ih (hstep s e hs hD))

theorem steps_congr {D : S → E → Prop} (hstep : ∀ s e, I s → I (step s e)) (h : ∀ s e, I s → (C s e ↔ D s e)) (hs : I s)
    (es : List E) : Steps step C s es ↔ Steps step D s es :=
  steps_iff h (fun s e hs _ => hstep s e hs) hs es

/-- Two runs over the same events, with a relation between their states that every step keeps. -/
theorem steps_rel {T : Type} {step' : T → E → T} {R : S → T → Prop} {D : T → E → Prop}
    (hstep : ∀ s t e, R s t → R (step s e) (step' t e)) (h : ∀ s t e, R s t → (C s e ↔ D t e)) {t : T} (hst : R s t)
    (es : List E) : Steps step C s es ↔ Steps step' D t es := by
  induction es generalizing s t with
  | nil => rfl
  | cons e es ih => exact and_congr (h s t e hst) (ih (hstep s t e hst))

/-- Some step of the run meets a condition. -/
def Eventually (step : S → E → S) (C : S → E → Prop) : S → List E → Prop
  | _, [] => False
  | s, e :: es => C s e ∨ Eventually step C (step s e) es

/-- Every step that raises something clears it itself, or a later step does. -/
def Answered (step : S → E → S) (raise clear : S → E → Prop) : S → List E → Prop
  | _, [] => True
  | s, e :: es => (raise s e → Eventually step clear s (e :: es)) ∧ Answered step raise clear (step s e) es

theorem not_execute_iff {O : S → Prop} {raise clear : S → E → Prop} (hinv : ∀ s e, I s → I (step s e))
    (hstep : ∀ s e, I s → (O (step s e) ↔ (O s ∨ raise s e) ∧ ¬clear s e)) (h : I s) (es : List E) :
    ¬O (execute step s es) ↔ (O s → Eventually step clear s es) ∧ Answered step raise clear s es := by
  induction es generalizing s with
  | nil => simp [Eventually, Answered]
  | cons e es ih =>
    rw [execute_cons, ih (hinv s e h), hstep s e h]
    simp only [Eventually, Answered]
    by_cases hclear : clear s e
    · simp [hclear]
    · simp only [hclear, not_false_eq_true, and_true, false_or, or_imp, and_assoc]

end Meridian.Lib
