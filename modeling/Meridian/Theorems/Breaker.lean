import Meridian.Lib.Run
import Meridian.Proxy.CircuitBreaker

/-! The circuit breaker among concurrent requests. A record carries no sign of the request that makes it: the success of a
    request that was admitted before the breaker opened closes it like the success of the probe. -/

namespace Meridian.Proxy
open Lib

/-! ### One call -/

namespace Traffic

variable {s : Traffic} {e : BreakerEvent}

/-- An admitted request records a success. -/
def Succeeds (s : Traffic) (e : BreakerEvent) (id : Nat) : Prop :=
  ∃ outcome, e.call = .finish id outcome ∧ outcome.succeeded = true ∧ s.requests id = some .inFlight

@[simp] theorem clock_step (s : Traffic) (e : BreakerEvent) : (s.step e).clock = s.now e := by
  unfold step
  split
  · split <;> rfl
  · split <;> rfl

theorem not_succeeds_of_allow {id : Nat} (h : e.call = .allow id) (id' : Nat) : ¬s.Succeeds e id' := by
  rintro ⟨outcome, hcall, -⟩
  cases h.symm.trans hcall

/-- What a call does to the breaker, and whom it admits. -/
theorem step_cases (s : Traffic) (e : BreakerEvent) :
    (∃ id, s.admits e = some id ∧ s.breaker.state = .cbClosed ∧ (s.step e).breaker = s.breaker ∧
        ∀ id, ¬s.Succeeds e id) ∨
      (∃ id, s.admits e = some id ∧ s.breaker.state = .cbOpen ∧
        s.breaker.resetAfter ≤ Svid.sub (s.now e) s.breaker.openedAt ∧
        (s.step e).breaker = { s.breaker with state := .cbHalfOpen } ∧ ∀ id, ¬s.Succeeds e id) ∨
      (∃ id, s.admits e = none ∧ s.Succeeds e id ∧ (s.step e).breaker = s.breaker.recordSuccess) ∨
      (s.admits e = none ∧ (∀ id, ¬s.Succeeds e id) ∧ (s.step e).breaker = s.breaker.recordFailure (s.now e)) ∨
      (s.admits e = none ∧ (∀ id, ¬s.Succeeds e id) ∧ (s.step e).breaker = s.breaker) := by
  cases hcall : e.call with
  | allow id =>
    have hnot := fun id' => not_succeeds_of_allow (s := s) hcall id'
    unfold admits step
    simp only [hcall]
    cases hreq : s.requests id with
    | some r => exact Or.inr (Or.inr (Or.inr (Or.inr ⟨by simp, hnot, rfl⟩)))
    | none =>
      unfold CircuitBreaker.allow
      cases hstate : s.breaker.state with
      | cbClosed => exact Or.inl ⟨id, by simp, rfl, rfl, hnot⟩
      | cbOpen =>
        by_cases hwait : Svid.sub (s.now e) s.breaker.openedAt ≥ s.breaker.resetAfter
        · exact Or.inr (Or.inl ⟨id, by simp [hwait], rfl, hwait, by simp [hwait], hnot⟩)
        · exact Or.inr (Or.inr (Or.inr (Or.inr ⟨by simp [hwait], hnot, by simp [hwait]⟩)))
      | cbHalfOpen => exact Or.inr (Or.inr (Or.inr (Or.inr ⟨by simp, hnot, rfl⟩)))
  | finish id outcome =>
    have hadmits : s.admits e = none := by
      unfold admits
      rw [hcall]
    have hother : ∀ {id'}, s.Succeeds e id' → s.requests id = some .inFlight ∧ outcome.succeeded = true := by
      rintro id' ⟨outcome', hcall', hok, hreq⟩
      cases hcall.symm.trans hcall'
      exact ⟨hreq, hok⟩
    unfold step
    simp only [hcall]
    by_cases hreq : s.requests id = some .inFlight
    · simp only [hreq, CircuitBreaker.record]
      cases hok : outcome.succeeded with
      | true => exact Or.inr (Or.inr (Or.inl ⟨id, hadmits, ⟨outcome, hcall, hok, hreq⟩, rfl⟩))
      | false =>
        refine Or.inr (Or.inr (Or.inr (Or.inl ⟨hadmits, fun id' hsucceeds => ?_, rfl⟩)))
        exact Bool.false_ne_true (hok.symm.trans (hother hsucceeds).2)
    · refine Or.inr (Or.inr (Or.inr (Or.inr ⟨hadmits, fun id' hsucceeds => hreq (hother hsucceeds).1, ?_⟩)))
      split
      · exact absurd ‹_› hreq
      · rfl

/-- A request is admitted while the breaker is closed, or as the probe. -/
theorem admits_state (s : Traffic) {id : Nat} (h : s.admits e = some id) : s.breaker.state = .cbClosed ∨
      s.breaker.state = .cbOpen ∧ s.breaker.resetAfter ≤ Svid.sub (s.now e) s.breaker.openedAt := by
  rcases s.step_cases e with ⟨_, -, hstate, -⟩ | ⟨_, -, hstate, hwait, -⟩ | ⟨_, hnone, -⟩ | ⟨hnone, -⟩ | ⟨hnone, -⟩
  · exact Or.inl hstate
  · exact Or.inr ⟨hstate, hwait⟩
  · cases h.symm.trans hnone
  · cases h.symm.trans hnone
  · cases h.symm.trans hnone

theorem Succeeds.id_eq {id id' : Nat} (h : s.Succeeds e id) (h' : s.Succeeds e id') : id = id' := by
  obtain ⟨_, hcall, -⟩ := h
  obtain ⟨_, hcall', -⟩ := h'
  cases hcall.symm.trans hcall'
  rfl

end Traffic

theorem CircuitBreaker.recordFailure_cases (cb : CircuitBreaker) (now : Int) :
    (∃ n, cb.recordFailure now = { cb with state := .cbOpen, openedAt := now, consecutiveErrors := n }) ∨
      (cb.state ≠ .cbHalfOpen ∧ ∃ n, cb.recordFailure now = { cb with consecutiveErrors := n }) := by
  unfold recordFailure
  dsimp only
  split
  · exact Or.inl ⟨0, rfl⟩
  · rename_i h
    refine Or.inr ⟨fun hhalf => h ?_, _, rfl⟩
    simp [hhalf]

/-! ### Histories -/

/-- The traffic with its past: the request that is the probe of the current half-open period, the times at which the
    breaker opened, and the requests that were admitted since it last did. -/
structure Observed where
  traffic : Traffic
  probe : Option Nat
  openings : List Int
  sinceOpening : List Nat

namespace Observed

def start (threshold resetAfter clock : Int) : Observed := ⟨.start threshold resetAfter clock, none, [], []⟩

def state (s : Observed) : CBState := s.traffic.breaker.state

def step (s : Observed) (e : BreakerEvent) : Observed :=
  let traffic := s.traffic.step e
  let opens := s.state ≠ .cbOpen && traffic.breaker.state = .cbOpen
  { traffic
    probe :=
      if traffic.breaker.state = .cbHalfOpen then if s.state = .cbHalfOpen then s.probe else s.traffic.admits e else none
    openings := if opens then traffic.clock :: s.openings else s.openings
    sinceOpening := if opens then [] else (s.traffic.admits e).toList ++ s.sinceOpening }

/-- The documented transitions, for one call. -/
structure Documented (s : Observed) (e : BreakerEvent) : Prop where
  closes : s.state ≠ .cbClosed → (s.step e).state = .cbClosed → ∃ id, s.probe = some id ∧ s.traffic.Succeeds e id
  alone : s.state = .cbHalfOpen → ∀ id, s.probe = some id → s.traffic.requests id = some .inFlight →
    ∀ other, other ≠ id → s.traffic.admits e ≠ some other
  waits : ∀ id, s.traffic.admits e = some id → ∀ t ∈ s.openings, s.traffic.breaker.resetAfter ≤ s.traffic.now e - t

/-- A success is recorded while the breaker is closed, or by a request that it has admitted since it last opened. -/
def NotOvertaken (s : Observed) (e : BreakerEvent) : Prop :=
  ∀ id, s.traffic.Succeeds e id → s.state = .cbClosed ∨ id ∈ s.sinceOpening

/-- What holds in every run until a success overtakes an opening. -/
structure Tracked (s : Observed) : Prop where
  past : ∀ t ∈ s.openings, t ≤ s.traffic.clock
  opened : s.state = .cbOpen → s.sinceOpening = [] ∧ s.traffic.breaker.openedAt ≤ s.traffic.clock ∧
    ∀ t ∈ s.openings, t ≤ s.traffic.breaker.openedAt
  halfOpen : s.state = .cbHalfOpen → ∃ id, s.probe = some id ∧ s.sinceOpening = [id]
  closed : s.state ≠ .cbHalfOpen → s.probe = none
  waited : s.state ≠ .cbOpen → ∀ t ∈ s.openings, s.traffic.breaker.resetAfter ≤ s.traffic.clock - t

section
variable {s : Observed} {e : BreakerEvent}

theorem tracked_start (threshold resetAfter clock : Int) : (start threshold resetAfter clock).Tracked where
  past := by simp [start]
  opened h := by cases h
  halfOpen h := by cases h
  closed _ := rfl
  waited := by simp [start]

theorem now_ge (s : Traffic) (e : BreakerEvent) : s.clock ≤ s.now e := by
  unfold Traffic.now
  omega

/-- The breaker lets the probe in no earlier than it should. -/
theorem Tracked.waits_open (h : s.Tracked) (hstate : s.state = .cbOpen)
    (hwait : s.traffic.breaker.resetAfter ≤ Svid.sub (s.traffic.now e) s.traffic.breaker.openedAt) :
    ∀ t ∈ s.openings, s.traffic.breaker.resetAfter ≤ s.traffic.now e - t := by
  intro t ht
  obtain ⟨-, hopened, hlast⟩ := h.opened hstate
  have hnow := now_ge s.traffic e
  have hle := hlast t ht
  unfold Svid.sub at hwait
  omega

/-- The openings stay as they are when the breaker does not open. -/
theorem step_eq_of_not_opens (h : s.state = .cbOpen ∨ (s.traffic.step e).breaker.state ≠ .cbOpen) :
    (s.step e).openings = s.openings ∧ (s.step e).sinceOpening = (s.traffic.admits e).toList ++ s.sinceOpening := by
  have hopens : (s.state ≠ .cbOpen && (s.traffic.step e).breaker.state = .cbOpen) = false := by
    rcases h with h | h <;> simp [h]
  unfold step
  simp only [hopens, Bool.false_eq_true, if_false, and_self]

theorem probe_step_of_ne (h : (s.step e).state ≠ .cbHalfOpen) : (s.step e).probe = none := if_neg h

theorem Tracked.past_step (h : s.Tracked) : ∀ t ∈ s.openings, t ≤ s.traffic.now e := fun t ht =>
  (h.past t ht).trans (now_ge s.traffic e)

theorem Tracked.waited_step (h : s.Tracked) (hstate : s.state ≠ .cbOpen) :
    ∀ t ∈ s.openings, s.traffic.breaker.resetAfter ≤ s.traffic.now e - t := by
  intro t ht
  have hwaited := h.waited hstate t ht
  have hnow := now_ge s.traffic e
  omega

/-- The breaker is where it was, and only a closed one has admitted anybody. -/
theorem Tracked.stays (h : s.Tracked) (hstate : (s.step e).state = s.state)
    (hopened : (s.traffic.step e).breaker.openedAt = s.traffic.breaker.openedAt)
    (hreset : (s.traffic.step e).breaker.resetAfter = s.traffic.breaker.resetAfter)
    (hadmits : s.state = .cbClosed ∨ s.traffic.admits e = none) : (s.step e).Tracked := by
  obtain ⟨hopenings, hsince⟩ := step_eq_of_not_opens (s := s) (e := e) <| by
    by_cases hopen : s.state = .cbOpen
    · exact Or.inl hopen
    · exact Or.inr fun hnew => hopen (hstate.symm.trans hnew)
  have hclock : (s.step e).traffic.clock = s.traffic.now e := s.traffic.clock_step e
  have hnone : s.state ≠ .cbClosed → (s.step e).sinceOpening = s.sinceOpening := by
    intro hne
    rw [hsince, hadmits.resolve_left hne]
    rfl
  refine ⟨?_, fun hopen => ?_, fun hhalf => ?_, probe_step_of_ne, fun hne => ?_⟩
  · rw [hopenings, hclock]
    exact h.past_step
  · rw [hstate] at hopen
    obtain ⟨hnil, hle, hlast⟩ := h.opened hopen
    rw [hnone (by rw [hopen]; decide), hopenings, hclock, show (s.step e).traffic.breaker.openedAt = _ from hopened]
    exact ⟨hnil, hle.trans (now_ge s.traffic e), hlast⟩
  · have hprobe : (s.step e).probe = s.probe := (if_pos hhalf).trans (if_pos (hstate ▸ hhalf))
    rw [hstate] at hhalf
    rw [hprobe, hnone (by rw [hhalf]; decide)]
    exact h.halfOpen hhalf
  · rw [hopenings, hclock, show (s.step e).traffic.breaker.resetAfter = _ from hreset]
    exact h.waited_step (hstate ▸ hne)

theorem Tracked.admitProbe (h : s.Tracked) {id : Nat} (hadmits : s.traffic.admits e = some id) (hstate : s.state = .cbOpen)
    (hwait : s.traffic.breaker.resetAfter ≤ Svid.sub (s.traffic.now e) s.traffic.breaker.openedAt)
    (hbreaker : (s.traffic.step e).breaker = { s.traffic.breaker with state := .cbHalfOpen }) : (s.step e).Tracked := by
  have hhalf : (s.step e).state = .cbHalfOpen := congrArg CircuitBreaker.state hbreaker
  obtain ⟨hopenings, hsince⟩ := step_eq_of_not_opens (s := s) (e := e) (Or.inl hstate)
  have hclock : (s.step e).traffic.clock = s.traffic.now e := s.traffic.clock_step e
  refine ⟨?_, fun hopen => ?_, fun _ => ⟨id, ?_, ?_⟩, probe_step_of_ne, fun _ => ?_⟩
  · rw [hopenings, hclock]
    exact h.past_step
  · cases hhalf.symm.trans hopen
  · exact (if_pos hhalf).trans ((if_neg (by rw [hstate]; decide)).trans hadmits)
  · rw [hsince, hadmits, (h.opened hstate).1]
    rfl
  · rw [hopenings, hclock, show (s.step e).traffic.breaker.resetAfter = _ from congrArg CircuitBreaker.resetAfter hbreaker]
    exact h.waits_open hstate hwait

theorem Tracked.recordSuccess (h : s.Tracked) (hstate : s.state ≠ .cbOpen)
    (hbreaker : (s.traffic.step e).breaker = s.traffic.breaker.recordSuccess) : (s.step e).Tracked := by
  have hclosed : (s.step e).state = .cbClosed := congrArg CircuitBreaker.state hbreaker
  obtain ⟨hopenings, -⟩ := step_eq_of_not_opens (s := s) (e := e) (Or.inr fun hopen => by cases hclosed.symm.trans hopen)
  have hclock : (s.step e).traffic.clock = s.traffic.now e := s.traffic.clock_step e
  refine ⟨?_, fun hopen => ?_, fun hhalf => ?_, probe_step_of_ne, fun _ => ?_⟩
  · rw [hopenings, hclock]
    exact h.past_step
  · cases hclosed.symm.trans hopen
  · cases hclosed.symm.trans hhalf
  · rw [hopenings, hclock, show (s.step e).traffic.breaker.resetAfter = _ from congrArg CircuitBreaker.resetAfter hbreaker]
    exact h.waited_step hstate

/-- A failure opens the breaker, or opens it again. -/
theorem Tracked.opens (h : s.Tracked) (hadmits : s.traffic.admits e = none) (hopen : (s.step e).state = .cbOpen)
    (hopenedAt : (s.traffic.step e).breaker.openedAt = s.traffic.now e) : (s.step e).Tracked := by
  have hclock : (s.step e).traffic.clock = s.traffic.now e := s.traffic.clock_step e
  have hpast : (∀ t ∈ (s.step e).openings, t ≤ s.traffic.now e) ∧ (s.step e).sinceOpening = [] := by
    by_cases hstate : s.state = .cbOpen
    · obtain ⟨hopenings, hsince⟩ := step_eq_of_not_opens (s := s) (e := e) (Or.inl hstate)
      rw [hopenings, hsince, hadmits, (h.opened hstate).1]
      exact ⟨h.past_step, rfl⟩
    · have hopens : (s.state ≠ .cbOpen && (s.traffic.step e).breaker.state = .cbOpen) = true := by
        simp [hstate, show (s.traffic.step e).breaker.state = .cbOpen from hopen]
      unfold step
      simp only [hopens, if_true, List.forall_mem_cons, Traffic.clock_step, and_true]
      exact ⟨le_refl _, h.past_step⟩
  refine ⟨?_, fun _ => ⟨hpast.2, ?_, ?_⟩, fun hhalf => ?_, probe_step_of_ne, fun hne => absurd hopen hne⟩
  · rw [hclock]
    exact hpast.1
  · rw [hclock, show (s.step e).traffic.breaker.openedAt = _ from hopenedAt]
  · rw [show (s.step e).traffic.breaker.openedAt = _ from hopenedAt]
    exact hpast.1
  · cases hopen.symm.trans hhalf

theorem Tracked.step (h : s.Tracked) (hintime : s.NotOvertaken e) : (s.step e).Tracked := by
  rcases s.traffic.step_cases e with ⟨id, -, hstate, hbreaker, -⟩ | ⟨id, hadmits, hstate, hwait, hbreaker, -⟩ |
    ⟨id, hadmits, hsucceeds, hbreaker⟩ | ⟨hadmits, -, hbreaker⟩ | ⟨hadmits, -, hbreaker⟩
  · exact h.stays (congrArg CircuitBreaker.state hbreaker) (by rw [hbreaker]) (by rw [hbreaker]) (Or.inl hstate)
  · exact h.admitProbe hadmits hstate hwait hbreaker
  · refine h.recordSuccess (fun hopen => ?_) hbreaker
    rcases hintime id hsucceeds with hclosed | hsince
    · cases hclosed.symm.trans hopen
    · rw [(h.opened hopen).1] at hsince
      cases hsince
  · rcases s.traffic.breaker.recordFailure_cases (s.traffic.now e) with ⟨n, hopens⟩ | ⟨-, n, hstays⟩
    · rw [hopens] at hbreaker
      exact h.opens hadmits (congrArg CircuitBreaker.state hbreaker) (by rw [hbreaker])
    · rw [hstays] at hbreaker
      have hstate : (s.traffic.step e).breaker.state = s.state := by
        rw [hbreaker]
        rfl
      exact h.stays hstate (by rw [hbreaker]) (by rw [hbreaker]) (Or.inr hadmits)
  · exact h.stays (congrArg CircuitBreaker.state hbreaker) (by rw [hbreaker]) (by rw [hbreaker]) (Or.inr hadmits)

/-- While the breaker is not closed, the requests that it has admitted since it opened are the probe. -/
theorem Tracked.mem_sinceOpening_iff (h : s.Tracked) (hstate : s.state ≠ .cbClosed) {id : Nat} :
    id ∈ s.sinceOpening ↔ s.probe = some id := by
  cases hs : s.state with
  | cbClosed => exact absurd hs hstate
  | cbOpen => simp [(h.opened hs).1, h.closed (by rw [hs]; decide)]
  | cbHalfOpen =>
    obtain ⟨p, hprobe, hsince⟩ := h.halfOpen hs
    rw [hprobe, hsince, List.mem_singleton, Option.some.injEq, eq_comm]

/-- Only a success closes the breaker. -/
theorem succeeds_of_closes (hstate : s.state ≠ .cbClosed) (hclosed : (s.step e).state = .cbClosed) :
    ∃ id, s.traffic.Succeeds e id := by
  change (s.traffic.step e).breaker.state = .cbClosed at hclosed
  rcases s.traffic.step_cases e with ⟨id, -, hs, -⟩ | ⟨id, -, -, -, hbreaker, -⟩ | ⟨id, -, hsucceeds, -⟩ |
    ⟨-, -, hbreaker⟩ | ⟨-, -, hbreaker⟩
  · exact absurd hs hstate
  · rw [hbreaker] at hclosed
    cases hclosed
  · exact ⟨id, hsucceeds⟩
  · rw [hbreaker] at hclosed
    rcases s.traffic.breaker.recordFailure_cases (s.traffic.now e) with ⟨n, hopens⟩ | ⟨-, n, hstays⟩
    · rw [hopens] at hclosed
      cases hclosed
    · rw [hstays] at hclosed
      exact absurd hclosed hstate
  · rw [hbreaker] at hclosed
    exact absurd hclosed hstate

theorem Tracked.documented_iff (h : s.Tracked) : s.Documented e ↔ s.NotOvertaken e := by
  constructor
  · intro hdoc id hsucceeds
    by_cases hstate : s.state = .cbClosed
    · exact Or.inl hstate
    · have hclosed : (s.step e).state = .cbClosed := by
        rcases s.traffic.step_cases e with ⟨_, -, -, -, hnot⟩ | ⟨_, -, -, -, -, hnot⟩ | ⟨_, -, -, hbreaker⟩ |
          ⟨-, hnot, -⟩ | ⟨-, hnot, -⟩
        · exact absurd hsucceeds (hnot id)
        · exact absurd hsucceeds (hnot id)
        · exact congrArg CircuitBreaker.state hbreaker
        · exact absurd hsucceeds (hnot id)
        · exact absurd hsucceeds (hnot id)
      obtain ⟨id', hprobe, hsucceeds'⟩ := hdoc.closes hstate hclosed
      rw [hsucceeds.id_eq hsucceeds']
      exact Or.inr ((h.mem_sinceOpening_iff hstate).mpr hprobe)
  · intro hintime
    refine ⟨fun hstate hclosed => ?_, fun hhalf _ _ _ other _ hadmits => ?_, fun id hadmits => ?_⟩
    · obtain ⟨id, hsucceeds⟩ := succeeds_of_closes hstate hclosed
      refine ⟨id, (h.mem_sinceOpening_iff hstate).mp ?_, hsucceeds⟩
      exact (hintime id hsucceeds).resolve_left hstate
    · rcases s.traffic.admits_state hadmits with hs | ⟨hs, -⟩
      · cases hs.symm.trans hhalf
      · cases hs.symm.trans hhalf
    · rcases s.traffic.admits_state hadmits with hs | ⟨hs, hwait⟩
      · exact h.waited_step (by rw [show s.state = _ from hs]; decide)
      · exact h.waits_open hs hwait

end

end Observed

/-- The breaker changes as documented in a run exactly when no success comes, while it is open or half open, from a request
    that was admitted before it last opened. -/
theorem breaker_transitions_iff (threshold resetAfter clock : Int) (events : List BreakerEvent) :
    Steps Observed.step Observed.Documented (.start threshold resetAfter clock) events ↔
      Steps Observed.step Observed.NotOvertaken (.start threshold resetAfter clock) events :=
  steps_iff (fun _ _ h => h.documented_iff) (fun _ _ h hintime => h.step hintime)
    (Observed.tracked_start threshold resetAfter clock) events

/-- Two requests are admitted; the first fails and opens the breaker, then the second succeeds and closes it, and a third
    is admitted at once. -/
def lateSuccess : List BreakerEvent :=
  [⟨0, .allow 1⟩, ⟨0, .allow 2⟩, ⟨0, .finish 1 .dialError⟩, ⟨1, .finish 2 (.copied .eof)⟩, ⟨1, .allow 3⟩]

theorem breaker_closed_by_late_success :
    ¬Steps Observed.step Observed.Documented (.start 1 (10 * Svid.second) 0) lateSuccess ∧
      (execute Observed.step (.start 1 (10 * Svid.second) 0) (lateSuccess.take 3)).state = .cbOpen ∧
      (execute Observed.step (.start 1 (10 * Svid.second) 0) (lateSuccess.take 4)).state = .cbClosed ∧
      (execute Observed.step (.start 1 (10 * Svid.second) 0) lateSuccess).sinceOpening = [3] := by
  refine ⟨fun h => ?_, by decide, by decide, by decide⟩
  obtain ⟨-, -, -, hlate, -⟩ := h
  obtain ⟨id, hprobe, -⟩ := hlate.closes (by decide) (by decide)
  exact Option.some_ne_none id (hprobe.symm.trans (by decide))

end Meridian.Proxy
