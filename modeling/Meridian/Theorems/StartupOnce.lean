import Meridian.Agent.StartupCalls
import Meridian.Lib.Holders
import Meridian.Lib.Run

/-! One runtime for all calls of `Startup`, and no resource lost. Each resource goes through one life, whatever the
    interleaving; that there is only one runtime depends on it. -/

namespace Meridian.Supervisor
open Lib

/-- The resources that a call has opened and neither handed to a runtime nor closed. -/
def StartupCall.holds : StartupCall → Option Nat
  | .loading res | .makingWriter res | .applying res | .attaching res | .publishing res _ | .detaching res | .closing res =>
    some res
  | .idle | .opening | .failed | .returned _ => none

/-- The runtime that a call of `Close` is taking down. -/
def CloseCall.busy : CloseCall → Option Nat
  | .detaching runtime | .closing runtime => some runtime
  | .idle | .returned _ => none

def StartupCall.Ended : StartupCall → Prop
  | .idle | .failed | .returned _ => True
  | _ => False

def CloseCall.Ended : CloseCall → Prop
  | .idle | .returned _ => True
  | _ => False

theorem StartupCall.Ended.holds {c : StartupCall} (h : c.Ended) : c.holds = none := by
  cases c <;> first | rfl | cases h

theorem CloseCall.Ended.busy {c : CloseCall} (h : c.Ended) : c.busy = none := by
  cases c <;> first | rfl | cases h

namespace StartupCalls
variable {iface : String} {s s' : StartupCalls} {e : StartupEvent} {t res c : Nat}

/-- How often a runtime is detached when it is closed. -/
def due (iface : String) (attached : Bool) : Nat := if attached && iface ≠ "" then 1 else 0

theorem due_le_one {attached : Bool} : due iface attached ≤ 1 := by
  rw [due]
  split <;> omega

def totalCloses (s : StartupCalls) : Nat := ∑ res ∈ Finset.range s.opens, s.closes res

/-- Every call has returned. -/
def Quiet (s : StartupCalls) : Prop := (∀ t, (s.calls t).Ended) ∧ ∀ c, (s.closers c).Ended

/-- Some call has succeeded, and its runtime is not closed. -/
def Running (s : StartupCalls) : Prop :=
  ∃ t runtime attached, s.calls t = .returned (some runtime) ∧ s.runtimes runtime = some ⟨attached, false⟩

/-- A runtime is detached and its resources are closed at most once, and exactly once when a call of `Close` on it has
    returned and none is under way. -/
def ClosedOnce (iface : String) (s : StartupCalls) : Prop :=
  ∀ runtime r, s.runtimes runtime = some r → s.closes runtime ≤ 1 ∧ s.detaches runtime ≤ 1 ∧
    ∀ c, s.closers c = .returned runtime → (∀ d, (s.closers d).busy ≠ some runtime) →
      s.closes runtime = 1 ∧ s.detaches runtime = due iface r.attached

structure Once (iface : String) (s : StartupCalls) : Prop where
  same : ∀ t u a b, s.calls t = .returned a → s.calls u = .returned b → a = b
  running : s.Quiet → s.Running → s.opens = s.totalCloses + 1
  stopped : s.Quiet → ¬s.Running → s.opens = s.totalCloses
  closedOnce : ClosedOnce iface s

/-- The life of a resource. -/
inductive Phase where
  | fresh
  | held (t : Nat)
  | dropped
  | running
  | closing (c : Nat)
  | closed

def Phase.call : Phase → Option Nat
  | .held t => some t
  | _ => none

def Phase.closer : Phase → Option Nat
  | .closing c => some c
  | _ => none

def Lives (iface : String) (s : StartupCalls) (res : Nat) : Phase → Prop
  | .fresh => s.closes res = 0 ∧ s.detaches res = 0 ∧ s.runtimes res = none
  | .held t => s.closes res = 0 ∧ (s.calls t ≠ .closing res → s.detaches res = 0) ∧ s.runtimes res = none
  | .dropped => s.closes res = 1 ∧ s.runtimes res = none
  | .running => s.closes res = 0 ∧ s.detaches res = 0 ∧ ∃ attached, s.runtimes res = some ⟨attached, false⟩
  | .closing c => s.closes res = 0 ∧ ∃ attached, s.runtimes res = some ⟨attached, true⟩ ∧
      (s.closers c = .detaching res ∧ s.detaches res = 0 ∧ due iface attached = 1 ∨
       s.closers c = .closing res ∧ s.detaches res = due iface attached)
  | .closed => s.closes res = 1 ∧ ∃ attached, s.runtimes res = some ⟨attached, true⟩ ∧ s.detaches res = due iface attached

/-- Each resource is in one phase of its life, and the calls are those that the phases name. -/
structure Owned (iface : String) (s : StartupCalls) (phase : Nat → Phase) : Prop where
  fresh : ∀ res, phase res = .fresh ↔ s.opens ≤ res
  calls : Holders (StartupCall.holds ∘ s.calls) (Phase.call ∘ phase)
  closers : Holders (CloseCall.busy ∘ s.closers) (Phase.closer ∘ phase)
  lives : ∀ res, Lives iface s res (phase res)

/-- The runtimes are the ones that calls returned. -/
structure Results (s : StartupCalls) : Prop where
  returned : ∀ t r, s.calls t = .returned r → ∃ runtime, r = some runtime ∧ s.runtimes runtime ≠ none
  published : ∀ runtime, s.runtimes runtime ≠ none → ∃ t, s.calls t = .returned (some runtime)
  current : s.started = true → ∃ runtime, s.runtime = some runtime ∧ s.runtimes runtime ≠ none
  finished : ∀ c runtime, s.closers c = .returned runtime → ∃ attached, s.runtimes runtime = some ⟨attached, true⟩

variable {phase : Nat → Phase} {ph : Phase} {k : CloseCall} {attached : Bool}

theorem Lives.congr (h : Lives iface s res ph) (hc : s'.closes res = s.closes res)
    (hd : s'.detaches res = s.detaches res) (hr : s'.runtimes res = s.runtimes res)
    (hcall : ∀ t, ph = .held t → s'.calls t ≠ .closing res → s.calls t ≠ .closing res)
    (hcloser : ∀ c, ph = .closing c → s'.closers c = s.closers c) : Lives iface s' res ph := by
  cases ph with
  | held t => exact ⟨hc.trans h.1, fun hne => hd.trans (h.2.1 (hcall t rfl hne)), hr.trans h.2.2⟩
  | closing c =>
    rw [Lives, hc, hd, hr, hcloser c rfl]
    exact h
  | fresh | dropped | running | closed =>
    rw [Lives, hc, hr]
    try rw [hd]
    exact h

section
variable (h : Owned iface s phase)
include h

theorem Owned.held (ht : (s.calls t).holds = some res) : phase res = .held t := by
  have := (h.calls t res).mp ht
  cases hp : phase res <;> simp_all [Phase.call]

theorem Owned.closing (hc : (s.closers c).busy = some res) : phase res = .closing c := by
  have := (h.closers c res).mp hc
  cases hp : phase res <;> simp_all [Phase.closer]

theorem Owned.lives_held (ht : (s.calls t).holds = some res) : Lives iface s res (.held t) := h.held ht ▸ h.lives res

theorem Owned.lives_closing (hc : (s.closers c).busy = some res) :
    Lives iface s res (.closing c) := h.closing hc ▸ h.lives res

/-- A resource changes its phase; the others stay as they are. -/
theorem Owned.turn (hfresh : ∀ r, Function.update phase res ph r = .fresh ↔ s'.opens ≤ r)
    (hcalls : Holders (StartupCall.holds ∘ s'.calls) (Function.update (Phase.call ∘ phase) res ph.call))
    (hclosers : Holders (CloseCall.busy ∘ s'.closers) (Function.update (Phase.closer ∘ phase) res ph.closer))
    (hlives : Lives iface s' res ph) (hother : ∀ r, r ≠ res → Lives iface s r (phase r) → Lives iface s' r (phase r)) :
    Owned iface s' (Function.update phase res ph) where
  fresh := hfresh
  calls := by
    rw [Function.comp_update]
    exact hcalls
  closers := by
    rw [Function.comp_update]
    exact hclosers
  lives r := by
    by_cases hr : r = res
    · subst hr
      rw [Function.update_self]
      exact hlives
    · rw [Function.update_of_ne hr]
      exact hother r hr (h.lives r)

theorem Owned.fresh_update (hold : phase res ≠ .fresh) (hnew : ph ≠ .fresh) (r : Nat) :
    Function.update phase res ph r = .fresh ↔ s.opens ≤ r := by
  rw [← h.fresh r, Function.update_apply]
  split
  · rename_i hr
    subst hr
    exact iff_of_false hnew hold
  · rfl

end

/-- What a step does. -/
inductive Move (iface : String) (s : StartupCalls) (e : StartupEvent) : StartupCalls → Prop where
  | stay : Move iface s e s
  | call {t : Nat} {c : StartupCall} (hholds : c.holds = (s.calls t).holds) (hclosing : ∀ res, s.calls t ≠ .closing res)
      (hbefore : ∀ r, s.calls t ≠ .returned r) (hafter : ∀ r, c = .returned r → s.started = true ∧ r = s.runtime) :
      Move iface s e (s.setCall t c)
  | opened {t : Nat} {c : StartupCall} (hcall : s.calls t = .opening) (hc : c = .closing s.opens ∨ c = .loading s.opens) :
      Move iface s e ({ s with opens := s.opens + 1 }.setCall t c)
  | publish {t res : Nat} {attached : Bool} (he : e = .publish t) (hcall : s.calls t = .publishing res attached) :
      Move iface s e (s.publish t res attached)
  | detach {t res : Nat} (hcall : s.calls t = .detaching res) : Move iface s e ((s.detach res).setCall t (.closing res))
  | drop {t res : Nat} (hcall : s.calls t = .closing res) : Move iface s e ((s.closeResources res).setCall t .failed)
  | close {c runtime : Nat} {attached : Bool} (hc : s.closers c = .idle)
      (hruntime : s.runtimes runtime = some ⟨attached, false⟩) :
      Move iface s e ({ s with runtimes := Table.put s.runtimes runtime ⟨attached, true⟩ }.setCloser c
        (if attached && iface ≠ "" then .detaching runtime else .closing runtime))
  | closeAgain {c runtime : Nat} {attached : Bool} (hc : s.closers c = .idle)
      (hruntime : s.runtimes runtime = some ⟨attached, true⟩) : Move iface s e (s.setCloser c (.returned runtime))
  | closeDetach {c runtime : Nat} (hc : s.closers c = .detaching runtime) :
      Move iface s e ((s.detach runtime).setCloser c (.closing runtime))
  | closeResources {c runtime : Nat} (hc : s.closers c = .closing runtime) :
      Move iface s e ((s.closeResources runtime).setCloser c (.returned runtime))

/-- A dependency has answered. -/
theorem Move.answer {next cleanup : StartupCall} (ok : Bool) (hnext : next.holds = (s.calls t).holds)
    (hcleanup : cleanup.holds = (s.calls t).holds) (hclosing : ∀ res, s.calls t ≠ .closing res)
    (hsome : (s.calls t).holds = some res) : Move iface s e (s.answer t ok next cleanup) := by
  have hreturned : ∀ c : StartupCall, c.holds = (s.calls t).holds → ∀ r, c ≠ .returned r := by
    rintro c hc r rfl
    rw [hsome] at hc
    cases hc
  rw [StartupCalls.answer]
  cases ok with
  | true => exact .call hnext hclosing (hreturned _ rfl) fun r hr => absurd hr (hreturned _ hnext r)
  | false => exact .call hcleanup hclosing (hreturned _ rfl) fun r hr => absurd hr (hreturned _ hcleanup r)

theorem step_move (iface : String) (s : StartupCalls) (e : StartupEvent) : Move iface s e (s.step iface e) := by
  cases e with
  | startup t =>
    rw [step]
    split
    · rename_i hidle
      rw [startup]
      split
      · rename_i hs
        refine .call (by rw [hidle]; rfl) (by simp [hidle]) (by simp [hidle]) fun r hr => ?_
        cases hr
        exact ⟨hs, rfl⟩
      · exact .call (by rw [hidle]; rfl) (by simp [hidle]) (by simp [hidle]) (by simp)
    · exact .stay
  | openResources t resources =>
    rw [step]
    split
    · rename_i hcall
      cases resources with
      | none => exact .call (by rw [hcall]; rfl) (by simp [hcall]) (by simp [hcall]) (by simp)
      | some resources =>
        refine .opened hcall ?_
        split
        · exact .inl rfl
        · exact .inr rfl
    · exact .stay
  | loadSnapshot t ok | newWriter t ok | ensureAttached t ok =>
    simp only [step]
    split
    · rename_i hcall
      exact .answer ok (by rw [hcall]; rfl) (by rw [hcall]; rfl) (by simp [hcall]) (by rw [hcall]; rfl)
    · exact .stay
  | apply t ok =>
    simp only [step]
    split
    · rename_i hcall
      refine .answer ok ?_ (by rw [hcall]; rfl) (by simp [hcall]) (by rw [hcall]; rfl)
      rw [hcall]
      split <;> rfl
    · exact .stay
  | publish t =>
    simp only [step]
    split
    · rename_i hcall
      exact .publish rfl hcall
    · exact .stay
  | cleanup t =>
    simp only [step]
    split
    · rename_i hcall
      exact .detach hcall
    · rename_i hcall
      exact .drop hcall
    · exact .stay
  | close c runtime =>
    rw [step]
    split
    · rename_i hc
      rw [StartupCalls.close]
      split
      · exact .stay
      · rename_i r hr
        obtain ⟨attached, closed⟩ := r
        cases closed with
        | true => exact .closeAgain hc hr
        | false => exact .close hc hr
    · exact .stay
  | closeNext c =>
    simp only [step]
    split
    · rename_i hc
      exact .closeDetach hc
    · rename_i hc
      exact .closeResources hc
    · exact .stay

theorem setCloser_self : (s.setCloser c k).closers c = k := by simp [setCloser]

/-- Another call than the one that moves is where it was. -/
theorem setCall_ne_closing {c : StartupCall} (h : s.calls t ≠ .closing res) (u : Nat)
    (hu : Function.update s.calls t c u ≠ .closing res) : s.calls u ≠ .closing res := by
  rw [Function.update_apply] at hu
  split at hu
  · rename_i htu
    rw [htu]
    exact h
  · exact hu

section
variable (h : Owned iface s phase)
include h

/-- A call of `Close` that takes down another runtime is where it was. -/
theorem Owned.setCloser_eq {r d : Nat} (hc : (s.closers c).busy ≠ some r) (hd : phase r = .closing d) :
    Function.update s.closers c k d = s.closers d := by
  refine Function.update_of_ne ?_ _ _
  rintro rfl
  exact hc ((h.closers d r).mpr (by rw [Function.comp_apply, hd]; rfl))

theorem Owned.call {c : StartupCall} (hholds : c.holds = (s.calls t).holds) (hclosing : ∀ res, s.calls t ≠ .closing res) :
    Owned iface (s.setCall t c) phase where
  fresh := h.fresh
  calls := by
    rw [setCall, Function.comp_update, hholds]
    exact (Function.update_eq_self t (StartupCall.holds ∘ s.calls)).symm ▸ h.calls
  closers := h.closers
  lives r := (h.lives r).congr rfl rfl rfl (fun u _ => setCall_ne_closing (hclosing r) u) fun _ _ => rfl

theorem Owned.opened {c : StartupCall} (hcall : s.calls t = .opening) (hc : c.holds = some s.opens) :
    Owned iface ({ s with opens := s.opens + 1 }.setCall t c) (Function.update phase s.opens (.held t)) := by
  have hfresh : phase s.opens = .fresh := (h.fresh s.opens).mpr le_rfl
  have hlives := h.lives s.opens
  rw [hfresh] at hlives
  refine h.turn (fun r => ?_) ?_ (h.closers.unheld ?_) ⟨hlives.1, fun _ => hlives.2.1, hlives.2.2⟩ fun r hr hl => ?_
  · rw [Function.update_apply]
    show _ ↔ s.opens + 1 ≤ r
    split
    · rename_i hr
      exact iff_of_false (by simp) (by omega)
    · rw [h.fresh r]
      omega
  · show Holders (StartupCall.holds ∘ Function.update s.calls t c) _
    rw [Function.comp_update, hc]
    refine h.calls.acquire ?_ ?_
    · rw [Function.comp_apply, hcall]
      rfl
    · rw [Function.comp_apply, hfresh]
      rfl
  · rw [Function.comp_apply, hfresh]
    rfl
  · exact hl.congr rfl rfl rfl (fun u _ => setCall_ne_closing (by simp [hcall]) u) fun _ _ => rfl

/-- A call does something to the resources it holds. -/
theorem Owned.turn_call {c : StartupCall} (hholds : (s.calls t).holds = some res)
    (hcalls : s'.calls = Function.update s.calls t c) (hclosers : s'.closers = s.closers) (hopens : s'.opens = s.opens)
    (hholders : Holders (Function.update (StartupCall.holds ∘ s.calls) t c.holds)
      (Function.update (Phase.call ∘ phase) res ph.call))
    (hfresh : ph ≠ .fresh) (hcloser : ph.closer = none) (hlives : Lives iface s' res ph)
    (hother : ∀ r, r ≠ res → s'.closes r = s.closes r ∧ s'.detaches r = s.detaches r ∧ s'.runtimes r = s.runtimes r) :
    Owned iface s' (Function.update phase res ph) := by
  have hheld := h.held hholds
  refine h.turn ?_ ?_ ?_ hlives fun r hr hl => ?_
  · rw [hopens]
    exact h.fresh_update (by simp [hheld]) hfresh
  · rw [hcalls, Function.comp_update]
    exact hholders
  · rw [hclosers, hcloser]
    refine h.closers.unheld ?_
    rw [Function.comp_apply, hheld]
    rfl
  · have hne : s.calls t ≠ .closing r := by
      intro hclosing
      rw [hclosing] at hholds
      exact hr (Option.some.inj hholds)
    obtain ⟨hc, hd, hr'⟩ := hother r hr
    refine hl.congr hc hd hr' (fun u _ hu => ?_) fun _ _ => by rw [hclosers]
    rw [hcalls] at hu
    exact setCall_ne_closing hne u hu

theorem Owned.publish {attached : Bool} (hcall : s.calls t = .publishing res attached) :
    Owned iface (s.publish t res attached) (Function.update phase res .running) := by
  have hholds : (s.calls t).holds = some res := by rw [hcall]; rfl
  obtain ⟨hcloses, hdetaches, -⟩ := h.lives_held hholds
  refine h.turn_call hholds rfl rfl rfl (h.calls.release hholds) nofun rfl ?_ fun r hr => ?_
  · exact ⟨hcloses, hdetaches (by simp [hcall]), attached, Table.put_same _ _ _⟩
  · exact ⟨rfl, rfl, Table.put_of_ne hr.symm⟩

theorem Owned.detach (hcall : s.calls t = .detaching res) :
    Owned iface ((s.detach res).setCall t (.closing res)) (Function.update phase res (.held t)) := by
  have hholds : (s.calls t).holds = some res := by rw [hcall]; rfl
  obtain ⟨hcloses, -, hnone⟩ := h.lives_held hholds
  refine h.turn_call hholds rfl rfl rfl (h.calls.keep hholds) nofun rfl ?_ fun r hr => ?_
  · exact ⟨hcloses, fun hne => absurd (Function.update_self t _ s.calls) hne, hnone⟩
  · exact ⟨rfl, Function.update_of_ne hr _ _, rfl⟩

theorem Owned.drop (hcall : s.calls t = .closing res) :
    Owned iface ((s.closeResources res).setCall t .failed) (Function.update phase res .dropped) := by
  have hholds : (s.calls t).holds = some res := by rw [hcall]; rfl
  obtain ⟨hcloses, -, hnone⟩ := h.lives_held hholds
  refine h.turn_call hholds rfl rfl rfl (h.calls.release hholds) nofun rfl ?_ fun r hr => ?_
  · exact ⟨(Function.update_self res _ s.closes).trans (by rw [hcloses]), hnone⟩
  · exact ⟨Function.update_of_ne hr _ _, rfl, rfl⟩

theorem Owned.running (hr : s.runtimes res = some ⟨attached, false⟩) : phase res = .running := by
  have hlives := h.lives res
  cases hp : phase res <;> simp_all [Lives]

theorem Owned.close {attached : Bool} (hc : s.closers c = .idle) (hr : s.runtimes res = some ⟨attached, false⟩) :
    Owned iface ({ s with runtimes := Table.put s.runtimes res ⟨attached, true⟩ }.setCloser c
      (if attached && iface ≠ "" then .detaching res else .closing res)) (Function.update phase res (.closing c)) := by
  have hrunning := h.running hr
  have hlives := h.lives res
  rw [hrunning] at hlives
  have hbusy : (if attached && iface ≠ "" then .detaching res else .closing res : CloseCall).busy = some res := by
    split <;> rfl
  refine h.turn (h.fresh_update (by simp [hrunning]) (by simp)) (h.calls.unheld ?_) ?_
    ⟨hlives.1, attached, Table.put_same _ _ _, ?_⟩ fun r hr hl => ?_
  · rw [Function.comp_apply, hrunning]
    rfl
  · show Holders (CloseCall.busy ∘ Function.update s.closers c _) _
    rw [Function.comp_update, hbusy]
    refine h.closers.acquire ?_ ?_
    · rw [Function.comp_apply, hc]
      rfl
    · rw [Function.comp_apply, hrunning]
      rfl
  · rw [setCloser_self, due]
    split
    · exact .inl ⟨rfl, hlives.2.1, rfl⟩
    · exact .inr ⟨rfl, hlives.2.1⟩
  · exact hl.congr rfl rfl (Table.put_of_ne hr.symm) (fun _ _ => id) fun d hd =>
      h.setCloser_eq (by rw [hc]; exact nofun) hd

theorem Owned.closeAgain (hc : s.closers c = .idle) : Owned iface (s.setCloser c (.returned res)) phase where
  fresh := h.fresh
  calls := h.calls
  closers := by
    have hsame : (CloseCall.returned res).busy = (CloseCall.busy ∘ s.closers) c := by
      rw [Function.comp_apply, hc]
      rfl
    rw [setCloser, Function.comp_update, hsame, Function.update_eq_self]
    exact h.closers
  lives r := (h.lives r).congr rfl rfl rfl (fun _ _ => id) fun d hd => h.setCloser_eq (by rw [hc]; exact nofun) hd

/-- A call of `Close` does something to the runtime that it takes down. -/
theorem Owned.turn_closer (hbusy : (s.closers c).busy = some res) (hclosers : s'.closers = Function.update s.closers c k)
    (hcalls : s'.calls = s.calls) (hopens : s'.opens = s.opens) (hruntimes : s'.runtimes = s.runtimes)
    (hholders : Holders (Function.update (CloseCall.busy ∘ s.closers) c k.busy)
      (Function.update (Phase.closer ∘ phase) res ph.closer))
    (hfresh : ph ≠ .fresh) (hcall : ph.call = none) (hlives : Lives iface s' res ph)
    (hother : ∀ r, r ≠ res → s'.closes r = s.closes r ∧ s'.detaches r = s.detaches r) :
    Owned iface s' (Function.update phase res ph) := by
  have hclosing := h.closing hbusy
  refine h.turn ?_ ?_ ?_ hlives fun r hr hl => ?_
  · rw [hopens]
    exact h.fresh_update (by simp [hclosing]) hfresh
  · rw [hcalls, hcall]
    refine h.calls.unheld ?_
    rw [Function.comp_apply, hclosing]
    rfl
  · rw [hclosers, Function.comp_update]
    exact hholders
  · obtain ⟨hc, hd⟩ := hother r hr
    refine hl.congr hc hd (by rw [hruntimes]) (fun _ _ => by rw [hcalls]; exact id) fun d hphase => ?_
    rw [hclosers]
    exact h.setCloser_eq (by rw [hbusy]; exact fun heq => hr (Option.some.inj heq).symm) hphase

theorem Owned.closeDetach (hc : s.closers c = .detaching res) :
    Owned iface ((s.detach res).setCloser c (.closing res)) (Function.update phase res (.closing c)) := by
  have hbusy : (s.closers c).busy = some res := by rw [hc]; rfl
  obtain ⟨hcloses, attached, hr, ⟨-, hdetaches, hdue⟩ | ⟨hother, -⟩⟩ := h.lives_closing hbusy
  · refine h.turn_closer hbusy rfl rfl rfl rfl (h.closers.keep hbusy) nofun rfl ?_ fun r hr => ?_
    · refine ⟨hcloses, attached, hr, .inr ⟨setCloser_self, ?_⟩⟩
      exact (Function.update_self res _ s.detaches).trans (by rw [hdetaches, hdue])
    · exact ⟨rfl, Function.update_of_ne hr _ _⟩
  · rw [hc] at hother
    cases hother

theorem Owned.closeResources (hc : s.closers c = .closing res) :
    Owned iface ((s.closeResources res).setCloser c (.returned res)) (Function.update phase res .closed) := by
  have hbusy : (s.closers c).busy = some res := by rw [hc]; rfl
  obtain ⟨hcloses, attached, hr, ⟨hother, -⟩ | ⟨-, hdetaches⟩⟩ := h.lives_closing hbusy
  · rw [hc] at hother
    cases hother
  · refine h.turn_closer hbusy rfl rfl rfl rfl (h.closers.release hbusy) nofun rfl ?_ fun r hr => ?_
    · exact ⟨(Function.update_self res _ s.closes).trans (by rw [hcloses]), attached, hr, hdetaches⟩
    · exact ⟨Function.update_of_ne hr _ _, rfl⟩

theorem Owned.move (hm : Move iface s e s') : ∃ phase', Owned iface s' phase' := by
  cases hm with
  | stay => exact ⟨phase, h⟩
  | call hholds hclosing => exact ⟨_, h.call hholds hclosing⟩
  | opened hcall hc => exact ⟨_, h.opened hcall (by obtain rfl | rfl := hc <;> rfl)⟩
  | publish he hcall => exact ⟨_, h.publish hcall⟩
  | detach hcall => exact ⟨_, h.detach hcall⟩
  | drop hcall => exact ⟨_, h.drop hcall⟩
  | close hc hruntime => exact ⟨_, h.close hc hruntime⟩
  | closeAgain hc => exact ⟨_, h.closeAgain hc⟩
  | closeDetach hc => exact ⟨_, h.closeDetach hc⟩
  | closeResources hc => exact ⟨_, h.closeResources hc⟩

end

theorem Results.keep (h : Results s) (hstarted : s'.started = s.started) (hruntime : s'.runtime = s.runtime)
    (hdomain : ∀ runtime, s'.runtimes runtime ≠ none ↔ s.runtimes runtime ≠ none)
    (hreturned : ∀ t r, s'.calls t = .returned r → s.calls t = .returned r ∨ s.started = true ∧ r = s.runtime)
    (hkeep : ∀ t r, s.calls t = .returned r → s'.calls t = .returned r)
    (hfinished : ∀ c runtime, s'.closers c = .returned runtime → ∃ attached, s'.runtimes runtime = some ⟨attached, true⟩) :
    Results s' where
  returned t r hr := by
    simp only [hdomain]
    obtain hold | ⟨hs, rfl⟩ := hreturned t r hr
    · exact h.returned t r hold
    · exact h.current hs
  published runtime hr := by
    obtain ⟨t, ht⟩ := h.published runtime ((hdomain runtime).mp hr)
    exact ⟨t, hkeep t _ ht⟩
  current hs := by
    simp only [hdomain, hruntime]
    exact h.current (hstarted ▸ hs)
  finished := hfinished

theorem of_update_returned {f : Nat → StartupCall} {c : StartupCall} {r : Option Nat} {u : Nat}
    (h : Function.update f t c u = .returned r) : c = .returned r ∨ f u = .returned r := by
  rw [Function.update_apply] at h
  split at h
  · exact .inl h
  · exact .inr h

theorem update_returned {f : Nat → StartupCall} {c : StartupCall} {r : Option Nat} {u : Nat}
    (hbefore : ∀ r, f t ≠ .returned r) (h : f u = .returned r) : Function.update f t c u = .returned r := by
  have hu : u ≠ t := by
    rintro rfl
    exact hbefore r h
  rw [Function.update_of_ne hu, h]

theorem of_update_finished {f : Nat → CloseCall} {runtime d : Nat} (h : Function.update f c k d = .returned runtime) :
    k = .returned runtime ∨ f d = .returned runtime := by
  rw [Function.update_apply] at h
  split at h
  · exact .inl h
  · exact .inr h

theorem Results.publish (h : Results s) {attached : Bool} (hcall : s.calls t = .publishing res attached)
    (hnone : s.runtimes res = none) : Results (s.publish t res attached) where
  returned u r hr := by
    obtain hnew | hold := of_update_returned hr
    · cases hnew
      exact ⟨res, rfl, by simp [StartupCalls.publish, setCall]⟩
    · obtain ⟨runtime, rfl, hsome⟩ := h.returned u r hold
      have hne : res ≠ runtime := by
        rintro rfl
        exact hsome hnone
      exact ⟨runtime, rfl, ne_of_eq_of_ne (Table.put_of_ne hne) hsome⟩
  published runtime hr := by
    by_cases hne : res = runtime
    · exact ⟨t, by simp [StartupCalls.publish, setCall, hne]⟩
    · obtain ⟨u, hu⟩ := h.published runtime fun hnone => hr ((Table.put_of_ne hne).trans hnone)
      exact ⟨u, update_returned (by simp [hcall]) hu⟩
  current _ := ⟨res, rfl, by simp [StartupCalls.publish, setCall]⟩
  finished c runtime hc := by
    obtain ⟨attached', hr⟩ := h.finished c runtime hc
    have hne : res ≠ runtime := by
      rintro rfl
      rw [hnone] at hr
      cases hr
    exact ⟨attached', (Table.put_of_ne hne).trans hr⟩

/-- A call that opens, detaches or drops its resources. -/
theorem Results.call (h : Results s) {c : StartupCall} (hbefore : ∀ r, s.calls t ≠ .returned r)
    (hafter : ∀ r, c = .returned r → s.started = true ∧ r = s.runtime) (hs : s'.started = s.started)
    (hr : s'.runtime = s.runtime) (hrs : s'.runtimes = s.runtimes) (hcalls : s'.calls = Function.update s.calls t c)
    (hclosers : s'.closers = s.closers) : Results s' := by
  refine h.keep hs hr (fun _ => by rw [hrs]) (fun u r hu => ?_) (fun u r hu => ?_) (fun d runtime hd => ?_)
  · rw [hcalls] at hu
    exact (of_update_returned hu).symm.imp_right (hafter r)
  · rw [hcalls]
    exact update_returned hbefore hu
  · rw [hclosers] at hd
    rw [hrs]
    exact h.finished d runtime hd

/-- A call of `Close` that leaves the flags of the runtimes. -/
theorem Results.closer (h : Results s)
    (hreturned : ∀ runtime, k = .returned runtime → ∃ attached, s.runtimes runtime = some ⟨attached, true⟩)
    (hs : s'.started = s.started) (hr : s'.runtime = s.runtime) (hrs : s'.runtimes = s.runtimes)
    (hcalls : s'.calls = s.calls) (hclosers : s'.closers = Function.update s.closers c k) : Results s' := by
  refine h.keep hs hr (fun _ => by rw [hrs]) (fun u r hu => .inl ?_) (fun u r hu => ?_) (fun d runtime hd => ?_)
  · rwa [hcalls] at hu
  · rwa [hcalls]
  · rw [hclosers] at hd
    rw [hrs]
    obtain hk | hold := of_update_finished hd
    · exact hreturned runtime hk
    · exact h.finished d runtime hold

theorem Results.close (h : Results s) {attached : Bool} {k : CloseCall} (hruntime : s.runtimes res = some ⟨attached, false⟩)
    (hk : ∀ runtime, k ≠ .returned runtime) :
    Results ({ s with runtimes := Table.put s.runtimes res ⟨attached, true⟩ }.setCloser c k) := by
  refine h.keep rfl rfl (fun r => ?_) (fun u r hu => .inl hu) (fun u r hu => hu) (fun d r hd => ?_)
  · by_cases hr : res = r
    · subst hr
      exact iff_of_true (by simp [setCloser]) (by simp [hruntime])
    · exact not_congr (Eq.congr_left (Table.put_of_ne hr))
  · obtain ⟨attached', hr⟩ := h.finished d r ((of_update_finished hd).resolve_left (hk r))
    have hne : res ≠ r := by
      rintro rfl
      rw [hruntime] at hr
      cases hr
    exact ⟨attached', (Table.put_of_ne hne).trans hr⟩

theorem Results.move (h : Results s) (howned : Owned iface s phase) (hm : Move iface s e s') :
    Results s' := by
  cases hm with
  | stay => exact h
  | call hholds hclosing hbefore hafter => exact h.call hbefore hafter rfl rfl rfl rfl rfl
  | opened hcall hc =>
    refine h.call (by simp [hcall]) (fun r hr => ?_) rfl rfl rfl rfl rfl
    obtain rfl | rfl := hc <;> cases hr
  | publish he hcall => exact h.publish hcall (howned.lives_held (by rw [hcall]; rfl)).2.2
  | detach hcall | drop hcall =>
    refine h.call (by simp [hcall]) (fun r hr => ?_) rfl rfl rfl rfl rfl
    cases hr
  | close hc hruntime =>
    refine h.close hruntime fun r => ?_
    split <;> exact nofun
  | closeAgain hc hruntime =>
    refine h.closer (fun r hr => ?_) rfl rfl rfl rfl rfl
    cases hr
    exact ⟨_, hruntime⟩
  | closeDetach hc =>
    refine h.closer (fun r hr => ?_) rfl rfl rfl rfl rfl
    cases hr
  | closeResources hc =>
    refine h.closer (fun r hr => ?_) rfl rfl rfl rfl rfl
    cases hr
    obtain ⟨-, attached, hr, -⟩ := howned.lives_closing (by rw [hc]; rfl)
    exact ⟨attached, hr⟩

/-- The runner's runtime is the only one. -/
def Single (s : StartupCalls) : Prop :=
  ∀ runtime, s.runtimes runtime ≠ none → s.started = true ∧ s.runtime = some runtime

theorem Single.eq (h : s.Single) {a b : Nat} (ha : s.runtimes a ≠ none) (hb : s.runtimes b ≠ none) : a = b :=
  Option.some.inj ((h a ha).2.symm.trans (h b hb).2)

/-- The last critical section is reached only while the runner is not started. -/
def Unstarted (s : StartupCalls) (e : StartupEvent) : Prop :=
  ∀ t res attached, e = .publish t → s.calls t = .publishing res attached → s.started = false

theorem Single.move (h : s.Single) (hC : s.Unstarted e) (hm : Move iface s e s') : s'.Single := by
  cases hm with
  | publish he hcall =>
    have hnone := hC _ _ _ he hcall
    intro runtime hr
    refine ⟨rfl, ?_⟩
    by_contra hne
    have hold := (h runtime fun hr' => hr ((Table.put_of_ne fun heq => hne (congrArg some heq)).trans hr')).1
    rw [hnone] at hold
    cases hold
  | close hc hruntime =>
    rename_i c closed attached
    intro runtime hr
    by_cases heq : closed = runtime
    · subst heq
      exact h closed (by simp [hruntime])
    · exact h runtime fun hr' => hr ((Table.put_of_ne heq).trans hr')
  | stay | call | opened | detach | drop | closeAgain | closeDetach | closeResources => exact h

section
variable (h : Owned iface s phase)
include h

theorem Owned.closes_le_one (res : Nat) : s.closes res ≤ 1 := by
  have hlives := h.lives res
  cases hp : phase res <;> simp_all [Lives]

/-- When every call has returned, the resources that are open are those of a runtime that is not closed. -/
theorem Owned.closes_eq_zero_iff (hquiet : s.Quiet) (hres : res < s.opens) :
    s.closes res = 0 ↔ ∃ attached, s.runtimes res = some ⟨attached, false⟩ := by
  have hlives := h.lives res
  cases hp : phase res with
  | fresh => exact absurd ((h.fresh res).mp hp) (by omega)
  | held t =>
    have hheld := (h.calls t res).mpr (by rw [Function.comp_apply, hp]; rfl)
    rw [Function.comp_apply, (hquiet.1 t).holds] at hheld
    cases hheld
  | closing c =>
    have hbusy := (h.closers c res).mpr (by rw [Function.comp_apply, hp]; rfl)
    rw [Function.comp_apply, (hquiet.2 c).busy] at hbusy
    cases hbusy
  | dropped =>
    rw [hp] at hlives
    exact iff_of_false (by simp [hlives.1]) (by simp [hlives.2])
  | running =>
    rw [hp] at hlives
    exact iff_of_true hlives.1 hlives.2.2
  | closed =>
    rw [hp] at hlives
    obtain ⟨hcloses, attached, hr, -⟩ := hlives
    exact iff_of_false (by simp [hcloses]) (by simp [hr])

theorem Owned.opens_eq : s.opens = s.totalCloses + ((Finset.range s.opens).filter (s.closes · = 0)).card :=
  (sum_add_card_zero fun res _ => h.closes_le_one res).symm

theorem Owned.lt_opens {r : RuntimeFlags} (hr : s.runtimes res = some r) : res < s.opens := by
  by_contra hge
  have hlives := h.lives res
  rw [(h.fresh res).mpr (Nat.not_lt.mp hge)] at hlives
  rw [hlives.2.2] at hr
  cases hr

theorem Owned.detaches_le_one {r : RuntimeFlags} (hr : s.runtimes res = some r) : s.detaches res ≤ 1 := by
  have hlives := h.lives res
  cases hp : phase res with
  | fresh | held t | dropped => simp_all [Lives]
  | running =>
    rw [hp] at hlives
    exact hlives.2.1 ▸ Nat.zero_le 1
  | closing c =>
    rw [hp] at hlives
    obtain ⟨-, attached, -, ⟨-, hd, -⟩ | ⟨-, hd⟩⟩ := hlives
    · exact hd ▸ Nat.zero_le 1
    · exact hd ▸ due_le_one
  | closed =>
    rw [hp] at hlives
    obtain ⟨-, attached, -, hd⟩ := hlives
    exact hd ▸ due_le_one

theorem Owned.closedOnce (hresults : Results s) : ClosedOnce iface s := by
  intro runtime r hr
  refine ⟨h.closes_le_one runtime, h.detaches_le_one hr, fun c hc hidle => ?_⟩
  have hlives := h.lives runtime
  obtain ⟨attached, hclosed⟩ := hresults.finished c runtime hc
  cases hr.symm.trans hclosed
  cases hp : phase runtime with
  | closing d =>
    have hbusy := (h.closers d runtime).mpr (by rw [Function.comp_apply, hp]; rfl)
    exact absurd hbusy (hidle d)
  | _ => simp_all [Lives]

theorem Owned.once (hresults : Results s) (hsingle : s.Single) : Once iface s where
  same t u a b ha hb := by
    obtain ⟨ra, rfl, hra⟩ := hresults.returned t a ha
    obtain ⟨rb, rfl, hrb⟩ := hresults.returned u b hb
    rw [hsingle.eq hra hrb]
  running hquiet hrunning := by
    obtain ⟨t, runtime, attached, -, hr⟩ := hrunning
    have hopen : (Finset.range s.opens).filter (s.closes · = 0) = {runtime} := by
      ext res
      rw [Finset.mem_filter, Finset.mem_range, Finset.mem_singleton]
      constructor
      · rintro ⟨hlt, hzero⟩
        obtain ⟨attached', hres⟩ := (h.closes_eq_zero_iff hquiet hlt).mp hzero
        exact hsingle.eq (by simp [hres]) (by simp [hr])
      · rintro rfl
        exact ⟨h.lt_opens hr, (h.closes_eq_zero_iff hquiet (h.lt_opens hr)).mpr ⟨attached, hr⟩⟩
    rw [h.opens_eq, hopen, Finset.card_singleton]
  stopped hquiet hstopped := by
    have hopen : (Finset.range s.opens).filter (s.closes · = 0) = ∅ := by
      refine Finset.filter_eq_empty_iff.mpr fun res hres hzero => hstopped ?_
      obtain ⟨attached, hr⟩ := (h.closes_eq_zero_iff hquiet (Finset.mem_range.mp hres)).mp hzero
      obtain ⟨t, ht⟩ := hresults.published res (by simp [hr])
      exact ⟨t, res, attached, ht, hr⟩
    rw [h.opens_eq, hopen, Finset.card_empty, Nat.add_zero]
  closedOnce := h.closedOnce hresults

end

/-- What every run keeps. -/
def Invariant (iface : String) (s : StartupCalls) : Prop := (∃ phase, Owned iface s phase) ∧ Results s

theorem invariant_start : Invariant iface start := by
  refine ⟨⟨fun _ => .fresh, ⟨by simp [start], ?_, ?_, fun _ => ⟨rfl, rfl, rfl⟩⟩⟩,
    ⟨nofun, fun _ h => absurd rfl h, nofun, nofun⟩⟩
  · exact fun _ _ => ⟨nofun, nofun⟩
  · exact fun _ _ => ⟨nofun, nofun⟩

theorem Invariant.step (e : StartupEvent) (h : Invariant iface s) : Invariant iface (s.step iface e) := by
  obtain ⟨⟨phase, howned⟩, hresults⟩ := h
  have hm := step_move iface s e
  exact ⟨howned.move hm, hresults.move howned hm⟩

/-- A call that finds the runner started at its end returns a second runtime. -/
theorem Invariant.not_once (h : Invariant iface s) (hC : ¬s.Unstarted e) : ¬Once iface (s.step iface e) := by
  obtain ⟨⟨phase, howned⟩, hresults⟩ := h
  intro honce
  refine hC fun t res attached he hcall => ?_
  by_contra hstarted
  obtain ⟨runtime, -, hr⟩ := hresults.current (Bool.eq_true_of_not_eq_false hstarted)
  obtain ⟨u, hu⟩ := hresults.published runtime hr
  have hstep : s.step iface e = s.publish t res attached := by
    simp only [he, StartupCalls.step, hcall]
  rw [hstep] at honce
  have hnew : (s.publish t res attached).calls t = .returned (some res) := by simp [StartupCalls.publish, setCall]
  have hold : (s.publish t res attached).calls u = .returned (some runtime) := update_returned (by simp [hcall]) hu
  have hnone := (howned.lives_held (by rw [hcall]; rfl)).2.2
  exact hr (Option.some.inj (honce.same t u _ _ hnew hold) ▸ hnone)

theorem startup_once_iff (iface : String) (events : List StartupEvent) :
    Always (step iface) (ClosedOnce iface) start events ∧
    (Always (step iface) (Once iface) start events ↔ Steps (step iface) Unstarted start events) := by
  constructor
  · intro pre _
    obtain ⟨⟨phase, howned⟩, hresults⟩ :=
      execute_inv (fun _ e h => Invariant.step e h) (invariant_start : Invariant iface start) pre
    exact howned.closedOnce hresults
  · refine always_iff_steps (I := fun s => Invariant iface s ∧ s.Single) ?_ ?_ ?_ ⟨invariant_start, ?_⟩ events
    · rintro s ⟨⟨⟨phase, howned⟩, hresults⟩, hsingle⟩
      exact howned.once hresults hsingle
    · rintro s e ⟨h, hsingle⟩ hC
      exact ⟨h.step e, hsingle.move hC (step_move iface s e)⟩
    · rintro s e ⟨h, -⟩ hC
      exact h.not_once hC
    · exact fun _ h => absurd rfl h

/-- Two calls, both past the first critical section before the other one's last. -/
theorem overlapping_calls_start_twice :
    ¬Once "" (execute (step "") start
      [.startup 0, .startup 1, .openResources 0 (some ⟨true, true, false⟩), .openResources 1 (some ⟨true, true, false⟩),
        .loadSnapshot 0 true, .loadSnapshot 1 true, .newWriter 0 true, .newWriter 1 true, .apply 0 true, .apply 1 true,
        .publish 0, .publish 1]) := by
  intro h
  have := h.same 0 1 (some 0) (some 1) rfl rfl
  cases this

end StartupCalls

end Meridian.Supervisor
