import Meridian.Agent.ForceRotate
import Meridian.Lib.Run

/-! Forced rotations: the loop never waits to send a reply, each request that it takes makes one issuance and gets its
    result, a request that it does not take makes none, and the loop alone writes the store. -/

namespace Meridian.Svid
open Lib

namespace Rotator

variable {r r' : Rotator} {i j : Nat}

/-! ### The loop and a call -/

/-- The results of the issuances that were for a call. -/
def issuancesOf (r : Rotator) (i : Nat) : List (Except IssueError Entry) :=
  r.issuances.filterMap fun x => if x.1 = some i then some x.2 else none

/-- What the loop has to do with a call: whether it rotates for it, the reply it is about to send, and what it issued. -/
structure Involved (r : Rotator) (i : Nat) (rotating : Prop) (reply : Option (Except IssueError Int))
    (done : List (Except IssueError Entry)) : Prop where
  forced : r.forced = some i ↔ rotating
  replying : ∀ res, r.replying = some (i, res) ↔ reply = some res
  issuances : r.issuancesOf i = done

/-- A request that was taken, and no reply received. -/
def Taken (c : Call) : Prop := c.state = .awaiting ∨ c.state = .returned (.error .cancelled)

/-- A call and the loop: the request is not taken, rotated for, about to be replied to, or replied to. -/
inductive Served (r : Rotator) (i : Nat) (c : Call) : Prop where
  | untaken (loop : Involved r i False none []) (state : c.state = .offering ∨ c.state = .returned (.error .notAccepting))
    (buffer : c.reply.buffer = [])
  | rotating (loop : Involved r i True none []) (state : Taken c) (buffer : c.reply.buffer = [])
  | replying (result : Except IssueError Entry) (loop : Involved r i False (some (result.map (·.expiresAt))) [result])
    (state : Taken c) (buffer : c.reply.buffer = [])
  | replied (result : Except IssueError Entry) (loop : Involved r i False none [result]) (state : Taken c)
    (buffer : c.reply.buffer = [result.map (·.expiresAt)])
  | received (result : Except IssueError Entry) (loop : Involved r i False none [result])
    (state : c.state = .returned (forceResult (result.map (·.expiresAt)))) (buffer : c.reply.buffer = [])

/-- The entry that was issued last. -/
def lastIssued (issuances : List (Option Nat × Except IssueError Entry)) : Option Entry :=
  (issuances.filterMap fun x => x.2.toOption).getLast?

structure Sound (r : Rotator) : Prop where
  calls : ∀ i c, r.calls[i]? = some c → Served r i c ∧ c.reply.cap = 1
  bound : ∀ i, r.calls[i]? = none → Involved r i False none []
  forced : r.forced ≠ none → ∃ entry, r.manager.phase = .issuing (some entry)
  stored : r.manager.store.current = lastIssued r.issuances

theorem Involved.congr {rotating : Prop} {reply : Option (Except IssueError Int)} {done : List (Except IssueError Entry)}
    (h : Involved r i rotating reply done) (hforced : r'.forced = some i ↔ r.forced = some i)
    (hreplying : ∀ res, r'.replying = some (i, res) ↔ r.replying = some (i, res))
    (hissuances : r'.issuancesOf i = r.issuancesOf i) : Involved r' i rotating reply done :=
  ⟨hforced.trans h.forced, fun res => (hreplying res).trans (h.replying res), hissuances.trans h.issuances⟩

theorem Served.congr {c : Call} (h : Served r i c) (hforced : r'.forced = some i ↔ r.forced = some i)
    (hreplying : ∀ res, r'.replying = some (i, res) ↔ r.replying = some (i, res))
    (hissuances : r'.issuancesOf i = r.issuancesOf i) : Served r' i c := by
  cases h with
  | untaken loop state buffer => exact .untaken (loop.congr hforced hreplying hissuances) state buffer
  | rotating loop state buffer => exact .rotating (loop.congr hforced hreplying hissuances) state buffer
  | replying result loop state buffer => exact .replying result (loop.congr hforced hreplying hissuances) state buffer
  | replied result loop state buffer => exact .replied result (loop.congr hforced hreplying hissuances) state buffer
  | received result loop state buffer => exact .received result (loop.congr hforced hreplying hissuances) state buffer

/-- A step of the loop that concerns no call. -/
theorem Sound.manager (h : Sound r) {m : Manager} (hstore : m.store = r.manager.store)
    (hforced : r.forced ≠ none → ∃ entry, m.phase = .issuing (some entry)) : Sound { r with manager := m } :=
  ⟨fun i c hc => ⟨(h.calls i c hc).1.congr Iff.rfl (fun _ => Iff.rfl) rfl, (h.calls i c hc).2⟩,
    fun i hi => (h.bound i hi).congr Iff.rfl (fun _ => Iff.rfl) rfl, hforced, hstore ▸ h.stored⟩

/-- A step that changes one call, and what the loop has to do with it. -/
theorem Sound.setCall (h : Sound r) {c c' : Call} (hi : r.calls[i]? = some c) (hcalls : r'.calls = r.calls.set i c')
    (hserved : Served r' i c') (hcap : c'.reply.cap = c.reply.cap)
    (hothers : ∀ j, j ≠ i → (r'.forced = some j ↔ r.forced = some j) ∧
      (∀ res, r'.replying = some (j, res) ↔ r.replying = some (j, res)) ∧ r'.issuancesOf j = r.issuancesOf j)
    (hforced : r'.forced ≠ none → ∃ entry, r'.manager.phase = .issuing (some entry))
    (hstored : r'.manager.store.current = lastIssued r'.issuances) : Sound r' := by
  have hlt : i < r.calls.length := (List.getElem?_eq_some_iff.mp hi).1
  refine ⟨fun j d hd => ?_, fun j hj => ?_, hforced, hstored⟩
  · rw [hcalls] at hd
    by_cases hji : j = i
    · subst hji
      rw [List.getElem?_set_self hlt] at hd
      cases hd
      exact ⟨hserved, hcap.trans (h.calls j c hi).2⟩
    · rw [List.getElem?_set_ne (Ne.symm hji)] at hd
      obtain ⟨hf, hr, hs⟩ := hothers j hji
      exact ⟨(h.calls j d hd).1.congr hf hr hs, (h.calls j d hd).2⟩
  · rw [hcalls, List.getElem?_eq_none_iff, List.length_set] at hj
    obtain ⟨hf, hr, hs⟩ := hothers j (Nat.ne_of_gt (Nat.lt_of_lt_of_le hlt hj))
    exact (h.bound j (List.getElem?_eq_none_iff.mpr hj)).congr hf hr hs

/-! ### The steps -/

theorem Sound.call (h : Sound r) : Sound r.call := by
  refine ⟨fun i c hc => ?_, fun i hi => ?_, h.forced, h.stored⟩
  · rcases Nat.lt_trichotomy i r.calls.length with hlt | rfl | hgt
    · rw [Rotator.call, List.getElem?_append_left hlt] at hc
      exact ⟨(h.calls i c hc).1.congr Iff.rfl (fun _ => Iff.rfl) rfl, (h.calls i c hc).2⟩
    · simp only [Rotator.call, List.getElem?_concat_length, Option.some.injEq] at hc
      subst hc
      have hnone := (h.bound _ (List.getElem?_eq_none_iff.mpr (Nat.le_refl _)))
      exact ⟨.untaken (hnone.congr Iff.rfl (fun _ => Iff.rfl) rfl) (.inl rfl) rfl, rfl⟩
    · rw [Rotator.call, List.getElem?_eq_none (by simpa using Nat.succ_le_of_lt hgt)] at hc
      cases hc
  · rw [Rotator.call, List.getElem?_eq_none_iff, List.length_append] at hi
    exact (h.bound i (List.getElem?_eq_none_iff.mpr (Nat.le_of_succ_le hi))).congr Iff.rfl (fun _ => Iff.rfl) rfl

/-- A request that is still offered has nothing to do with the loop. -/
theorem Served.of_offering {c : Call} (h : Served r i c) (hstate : c.state = .offering) :
    Involved r i False none [] ∧ c.reply.buffer = [] := by
  cases h with
  | untaken loop state buffer => exact ⟨loop, buffer⟩
  | rotating loop state buffer | replying result loop state buffer | replied result loop state buffer =>
    rcases state with hs | hs <;> rw [hstate] at hs <;> cases hs
  | received result loop state buffer =>
    rw [hstate] at state
    cases state

theorem Sound.take (h : Sound r) (i : Nat) : Sound (r.take i) := by
  unfold Rotator.take
  split
  · rename_i entry delay reply hreplying hphase hi
    obtain ⟨hloop, hbuffer⟩ := (h.calls i _ hi).1.of_offering rfl
    have hidle : r.forced = none := by
      by_contra hsome
      obtain ⟨e, he⟩ := h.forced hsome
      rw [hphase] at he
      cases he
    have hforce : r.manager.force.phase = .issuing (some entry) := by simp [Manager.force, hphase]
    refine h.setCall hi rfl (.rotating ⟨by simp, hloop.replying, hloop.issuances⟩ (.inl rfl) hbuffer) rfl
      (fun j hj => ⟨?_, fun _ => Iff.rfl, rfl⟩) (fun _ => ⟨entry, hforce⟩) ?_
    · simp [hidle, Ne.symm hj]
    · rw [Manager.store_force]
      exact h.stored
  · exact h

theorem Sound.timer (h : Sound r) (now : Int) : Sound (r.timer now) := by
  unfold Rotator.timer
  split
  · refine h.manager (Manager.store_timer _ _) fun hforced => ?_
    obtain ⟨entry, hphase⟩ := h.forced hforced
    exact ⟨entry, by simp [Manager.timer, hphase]⟩
  · exact h

theorem issuancesOf_snoc (r : Rotator) (f : Option Nat) (result : Except IssueError Entry) (i : Nat) :
    { r with issuances := r.issuances ++ [(f, result)] }.issuancesOf i =
      r.issuancesOf i ++ if f = some i then [result] else [] := by
  unfold issuancesOf
  rw [List.filterMap_append]
  congr 1
  by_cases hf : f = some i <;> simp [hf]

theorem lastIssued_snoc (issuances : List (Option Nat × Except IssueError Entry)) (f : Option Nat)
    (result : Except IssueError Entry) :
    lastIssued (issuances ++ [(f, result)]) = result.toOption.or (lastIssued issuances) := by
  unfold lastIssued
  cases result <;> simp [Except.toOption]

/-- Whatever it issues for, the loop stores what was issued. -/
theorem current_issued (m : Manager) (now : Int) (result : Except IssueError Entry) {entry : Option Entry}
    (hphase : m.phase = .issuing entry) :
    (m.issued now result).store.current = result.toOption.or m.store.current := by
  unfold Manager.issued
  rw [hphase]
  cases result with
  | error err => cases entry <;> rfl
  | ok next => cases entry <;> rfl

theorem Sound.issued (h : Sound r) (now : Int) (result : Except IssueError Entry) : Sound (r.issued now result) := by
  unfold Rotator.issued
  split
  · rename_i entry hreplying hphase
    have hquiet (j : Nat) (hj : r.forced ≠ some j) : (none = some j ↔ r.forced = some j) ∧
        (∀ res, (r.forced.map fun i => (i, result.map (·.expiresAt))) = some (j, res) ↔ r.replying = some (j, res)) ∧
          { r with issuances := r.issuances ++ [(r.forced, result)] }.issuancesOf j = r.issuancesOf j := by
      refine ⟨by simp [hj], fun res => ?_, ?_⟩
      · rw [hreplying]
        cases hforced : r.forced with
        | none => rfl
        | some k =>
          rw [hforced] at hj
          simp only [Option.map_some, Option.some.injEq, Prod.mk.injEq, reduceCtorEq, iff_false, not_and]
          exact fun hk => absurd (congrArg some hk) hj
      · rw [issuancesOf_snoc, if_neg hj, List.append_nil]
    refine ⟨fun j c hc => ⟨?_, (h.calls j c hc).2⟩, fun j hj => ?_, fun hforced => absurd rfl hforced, ?_⟩
    · by_cases hj : r.forced = some j
      · -- the call that the loop rotated for is replied to next
        cases (h.calls j c hc).1 with
        | rotating loop state buffer =>
          refine .replying result ⟨by simp, fun res => ?_, ?_⟩ state buffer
          · simp [hj]
          · have hsnoc := issuancesOf_snoc r r.forced result j
            rw [loop.issuances, if_pos hj, List.nil_append] at hsnoc
            exact hsnoc
        | untaken loop | replying _ loop | replied _ loop | received _ loop => exact absurd hj loop.forced.mp
      · obtain ⟨hf, hr, hs⟩ := hquiet j hj
        exact (h.calls j c hc).1.congr hf hr hs
    · have hnone := h.bound j hj
      obtain ⟨hf, hr, hs⟩ := hquiet j hnone.forced.mp
      exact hnone.congr hf hr hs
    · rw [lastIssued_snoc, current_issued _ _ _ hphase, h.stored]
  · exact h

/-- The buffer of the call is empty, so that the send goes through. -/
theorem Sound.room (h : Sound r) {res : Except IssueError Int} (hreplying : r.replying = some (i, res)) :
    ∃ c result, r.calls[i]? = some c ∧ c.reply.cap = 1 ∧ c.reply.buffer = [] ∧ Taken c ∧
      res = result.map (·.expiresAt) ∧ Involved r i False (some res) [result] := by
  cases hi : r.calls[i]? with
  | none =>
    have := ((h.bound i hi).replying res).mp hreplying
    cases this
  | some c =>
    obtain ⟨hserved, hcap⟩ := h.calls i c hi
    cases hserved with
    | replying result loop state buffer =>
      have hres := Option.some.inj ((loop.replying res).mp hreplying)
      subst hres
      exact ⟨c, result, rfl, hcap, buffer, state, rfl, loop⟩
    | untaken loop | rotating loop | replied _ loop | received _ loop =>
      have := (loop.replying res).mp hreplying
      cases this

theorem Sound.reply (h : Sound r) : Sound r.reply := by
  unfold Rotator.reply
  split
  · exact h
  · rename_i i res hreplying
    obtain ⟨c, result, hi, hcap, hbuffer, hstate, rfl, hloop⟩ := h.room hreplying
    rw [hi]
    dsimp only
    rw [if_pos (by simp [hbuffer, hcap])]
    refine h.setCall hi rfl (.replied result ⟨hloop.forced, by simp, hloop.issuances⟩ hstate (by simp [hbuffer])) rfl
      (fun j hj => ⟨Iff.rfl, fun res => ?_, rfl⟩) h.forced h.stored
    simp [hreplying, Ne.symm hj]

theorem Sound.receive (h : Sound r) (i : Nat) : Sound (r.receive i) := by
  unfold Rotator.receive
  split
  · rename_i reply hi
    split
    · rename_i res rest hrecv
      have hbuffer := Chan.buffer_of_recv hrecv
      have hkeep := Chan.recv_eq_some hrecv
      cases (h.calls i _ hi).1 with
      | replied result loop state buffer =>
        rw [hbuffer, List.cons.injEq] at buffer
        obtain ⟨rfl, hrest⟩ := buffer
        refine h.setCall hi rfl (.received result (loop.congr Iff.rfl (fun _ => Iff.rfl) rfl) rfl hrest) hkeep.2
          (fun j _ => ⟨Iff.rfl, fun _ => Iff.rfl, rfl⟩) h.forced h.stored
      | untaken _ _ buffer | rotating _ _ buffer | replying _ _ _ buffer | received _ _ _ buffer =>
        rw [hbuffer] at buffer
        cases buffer
    · exact h
  · exact h

theorem Sound.giveUp (h : Sound r) (i : Nat) : Sound (r.giveUp i) := by
  unfold Rotator.giveUp
  split
  · rename_i reply hi
    obtain ⟨hloop, hbuffer⟩ := (h.calls i _ hi).1.of_offering rfl
    refine h.setCall hi rfl (.untaken (hloop.congr Iff.rfl (fun _ => Iff.rfl) rfl) (.inr rfl) hbuffer) rfl
      (fun j _ => ⟨Iff.rfl, fun _ => Iff.rfl, rfl⟩) h.forced h.stored
  · rename_i reply hi
    refine h.setCall hi rfl ?_ rfl (fun j _ => ⟨Iff.rfl, fun _ => Iff.rfl, rfl⟩) h.forced h.stored
    have hcancelled : Taken ⟨.returned (.error .cancelled), reply⟩ := .inr rfl
    cases (h.calls i _ hi).1 with
    | untaken loop state buffer => rcases state with hs | hs <;> cases hs
    | rotating loop state buffer => exact .rotating (loop.congr Iff.rfl (fun _ => Iff.rfl) rfl) hcancelled buffer
    | replying result loop state buffer =>
      exact .replying result (loop.congr Iff.rfl (fun _ => Iff.rfl) rfl) hcancelled buffer
    | replied result loop state buffer =>
      exact .replied result (loop.congr Iff.rfl (fun _ => Iff.rfl) rfl) hcancelled buffer
    | received result loop state buffer => cases state
  · exact h

theorem Sound.cancel (h : Sound r) : Sound r.cancel := by
  unfold Rotator.cancel
  split
  · refine h.manager (Manager.store_cancel _) fun hforced => ?_
    obtain ⟨entry, hphase⟩ := h.forced hforced
    exact ⟨entry, by simp [Manager.cancel, hphase]⟩
  · exact h

theorem Sound.step (h : Sound r) (e : Event) : Sound (r.step e) := by
  cases e with
  | call => exact h.call
  | take i => exact h.take i
  | timer now => exact h.timer now
  | issued now result => exact h.issued now result
  | reply => exact h.reply
  | receive i => exact h.receive i
  | giveUp i => exact h.giveUp i
  | cancel => exact h.cancel

theorem Sound.start : Sound start :=
  ⟨fun i c hc => by simp [Rotator.start] at hc, fun i _ => ⟨by simp [Rotator.start], by simp [Rotator.start], rfl⟩,
    fun h => absurd rfl h, rfl⟩

/-- What a call has returned, by the issuances that were for it. -/
def Returned (result : Except ForceError Int) (issuances : List (Except IssueError Entry)) : Prop :=
  match result with
  | .ok expiry => ∃ entry, issuances = [.ok entry] ∧ entry.expiresAt = expiry
  | .error (.rotate err) => issuances = [.error err]
  | .error .notAccepting => issuances = []
  | .error .cancelled => issuances.length ≤ 1

theorem Served.returned {c : Call} (h : Served r i c) {result : Except ForceError Int} (hc : c.state = .returned result) :
    Returned result (r.issuancesOf i) := by
  have hcancelled (state : Taken c) : result = .error .cancelled := by
    rcases state with hs | hs <;> rw [hc] at hs <;> cases hs
    rfl
  cases h with
  | untaken loop state buffer =>
    rcases state with hs | hs <;> rw [hc] at hs <;> cases hs
    exact loop.issuances
  | rotating loop state buffer =>
    rw [hcancelled state, loop.issuances]
    exact Nat.zero_le 1
  | replying res loop state buffer | replied res loop state buffer =>
    rw [hcancelled state, loop.issuances]
    exact Nat.le_refl 1
  | received res loop state buffer =>
    rw [hc] at state
    cases state
    rw [loop.issuances]
    cases res with
    | error err => rfl
    | ok entry => exact ⟨entry, rfl, rfl⟩

end Rotator

/-- Over any interleaving of calls with the rotation loop: the loop never waits to send a reply; a call that returned an
    expiry has that of the one entry issued for it, one that returned the signer's error had the one issuance that failed,
    and one that was not accepted had none; and the store holds the entry that the loop issued last. -/
theorem force_rotate_exact (events : List Rotator.Event) {r : Rotator} (hr : execute Rotator.step .start events = r) :
    (∀ i res, r.replying = some (i, res) → ∃ c, r.calls[i]? = some c ∧ c.reply.buffer.length < c.reply.cap) ∧
      (∀ i c result, r.calls[i]? = some c → c.state = .returned result → Rotator.Returned result (r.issuancesOf i)) ∧
      r.manager.store.current = Rotator.lastIssued r.issuances := by
  have h := execute_inv (I := Rotator.Sound) (fun _ e h => h.step e) Rotator.Sound.start events
  rw [hr] at h
  refine ⟨fun i res hreplying => ?_, fun i c result hi hc => (h.calls i c hi).1.returned hc, h.stored⟩
  obtain ⟨c, -, hi, hcap, hbuffer, -⟩ := h.room hreplying
  exact ⟨c, hi, by simp [hcap, hbuffer]⟩

def issuedUntil (expiresAt : Int) : Entry :=
  ⟨[], ⟨.ecdsa .p256 3, [], [], 0, expiresAt⟩, ⟨.p256, 3⟩, [], expiresAt⟩

/-- The first issuance, and two calls: one is taken and gets its reply, the other gives up. -/
def forcedOnce : List Rotator.Event :=
  [.issued 0 (.ok (issuedUntil 3600)), .call, .call, .take 1, .giveUp 0, .issued 1 (.ok (issuedUntil 7200)), .reply, .receive 1]

theorem force_rotate_exact_once :
    ∃ r, execute Rotator.step .start forcedOnce = r ∧
      (∃ entry, r.issuancesOf 1 = [.ok entry] ∧ entry.expiresAt = 7200) ∧ r.issuancesOf 0 = [] := by
  obtain ⟨-, hreturned, -⟩ := force_rotate_exact forcedOnce rfl
  exact ⟨_, rfl, hreturned 1 ⟨.returned (.ok 7200), .make 1⟩ _ rfl rfl,
    hreturned 0 ⟨.returned (.error .notAccepting), .make 1⟩ _ rfl rfl⟩

end Meridian.Svid
