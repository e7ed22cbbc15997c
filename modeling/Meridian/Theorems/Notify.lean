import Meridian.Control.Store

/-! Notifications and closed channels. The in-memory store closes a channel under the lock that `notify` reads under, and
    takes it out of the watchers with it, so that no run of its threads panics. The etcd store closes a channel without
    its lock and keeps it among the subscribers. -/

namespace Meridian.Store
open Lib

/-! ### The in-memory store -/

/-- What every step keeps. -/
structure Memory.Sound (m : Memory) : Prop where
  running : m.panicked = false
  watched : ∀ i ∈ m.watchers, ∃ ch, m.chans[i]? = some ch ∧ ch.closed = false
  todo : ∀ ev todo, Mutator.notifying ev todo ∈ m.mutators → ∀ i ∈ todo, i ∈ m.watchers
  exclusive : m.writeLocked = true → m.readLocked = false
  waiting : ∀ i : Nat, m.routines[i]? = some .waiting → i ∈ m.watchers
  sizes : m.routines.length = m.chans.length
  caps : ∀ ch ∈ m.chans, ch.cap = watchBuffer

theorem Memory.Sound.new : Sound new where
  running := rfl
  watched := by simp [Memory.new]
  todo := by simp [Memory.new]
  exclusive := by simp [writeLocked, Memory.new]
  waiting := by simp [Memory.new]
  sizes := rfl
  caps := by simp [Memory.new]

namespace Memory

variable {m : Memory}

theorem readLocked_of_mem {ev : StoreEvent} {todo : List Nat} (h : Mutator.notifying ev todo ∈ m.mutators) :
    m.readLocked = true :=
  List.any_eq_true.mpr ⟨_, h, rfl⟩

theorem writeLocked_of_mem {r : Routine} {i : Nat} (h : m.routines[i]? = some r) (hr : r.holdsLock = true) :
    m.writeLocked = true :=
  List.any_eq_true.mpr ⟨r, List.mem_of_getElem? h, hr⟩

theorem unlocked_iff : m.unlocked = true ↔ m.readLocked = false ∧ m.writeLocked = false := by
  simp [unlocked]

/-- A channel changes its buffer only. -/
theorem Sound.setChan (h : Sound m) {i : Nat} {ch ch' : Chan StoreEvent} (hi : m.chans[i]? = some ch)
    (hclosed : ch'.closed = ch.closed) (hcap : ch'.cap = ch.cap) : Sound { m with chans := m.chans.set i ch' } where
  running := h.running
  watched k hk := by
    obtain ⟨c, hc, hopen⟩ := h.watched k hk
    by_cases heq : i = k
    · subst heq
      rw [hi] at hc
      cases hc
      exact ⟨ch', List.getElem?_set_self (List.getElem?_eq_some_iff.mp hi).1, hclosed.trans hopen⟩
    · exact ⟨c, (List.getElem?_set_ne heq).trans hc, hopen⟩
  todo := h.todo
  exclusive := h.exclusive
  waiting := h.waiting
  sizes := by
    rw [h.sizes]
    exact List.length_set.symm
  caps c hc := by
    rcases List.mem_or_eq_of_mem_set hc with hmem | rfl
    · exact h.caps c hmem
    · exact hcap.trans (h.caps ch (List.mem_of_getElem? hi))

/-- Other mutators, which notify watchers only, and none while a goroutine has the lock. -/
theorem Sound.setMutators (h : Sound m) (mutators : List Mutator)
    (htodo : ∀ ev todo, Mutator.notifying ev todo ∈ mutators → ∀ i ∈ todo, i ∈ m.watchers)
    (hread : m.writeLocked = true → mutators.any (·.isNotifying) = false) : Sound { m with mutators } where
  running := h.running
  watched := h.watched
  todo := htodo
  exclusive := hread
  waiting := h.waiting
  sizes := h.sizes
  caps := h.caps

/-- A goroutine past its wait, which has the lock only when no `notify` reads under it. -/
theorem Sound.setRoutine (h : Sound m) (i : Nat) {r : Routine} (hr : r ≠ .waiting)
    (hlock : r.holdsLock = true → m.readLocked = false) : Sound { m with routines := m.routines.set i r } where
  running := h.running
  watched := h.watched
  todo := h.todo
  exclusive hw := by
    obtain ⟨r', hmem, hr'⟩ := List.any_eq_true.mp hw
    rcases List.mem_or_eq_of_mem_set hmem with hold | rfl
    · exact h.exclusive (List.any_eq_true.mpr ⟨r', hold, hr'⟩)
    · exact hlock hr'
  waiting k hk := by
    by_cases heq : i = k
    · subst heq
      rw [List.getElem?_set] at hk
      simp only [if_true] at hk
      split at hk
      · exact absurd (Option.some.inj hk) hr
      · cases hk
    · exact h.waiting k ((List.getElem?_set_ne heq).symm.trans hk)
  sizes := by
    rw [← h.sizes]
    exact List.length_set
  caps := h.caps

/-! ### The steps -/

/-- What a thread or a subscriber can do, with what it finds. -/
inductive Moves (m : Memory) : Event → Memory → Prop
  | mutate (mutation : Mutation) (hfree : m.unlocked = true) : Moves m (.mutate mutation)
      { m with contents := m.contents.commit mutation, mutators := m.mutators ++ [.committed mutation.event] }
  | notifyLock {j : Nat} {order : List Nat} {ev : StoreEvent} (hj : m.mutators[j]? = some (.committed ev))
      (hwrite : m.writeLocked = false) (hperm : order.Perm m.watchers) :
      Moves m (.notifyLock j order) { m with mutators := m.mutators.set j (.notifying ev order) }
  | notifySend {j i : Nat} {ev : StoreEvent} {todo : List Nat} {ch ch' : Chan StoreEvent}
      (hj : m.mutators[j]? = some (.notifying ev (i :: todo))) (hch : m.chans[i]? = some ch)
      (hsend : ch.trySend ev = some ch') : Moves m (.notifySend j)
      { m with chans := m.chans.set i ch', mutators := m.mutators.set j (.notifying ev todo) }
  | sendPanics {j i : Nat} {ev : StoreEvent} {todo : List Nat} {ch : Chan StoreEvent}
      (hj : m.mutators[j]? = some (.notifying ev (i :: todo))) (hch : m.chans[i]? = some ch)
      (hsend : ch.trySend ev = none) : Moves m (.notifySend j) { m with panicked := true }
  | notifyUnlock {j : Nat} {ev : StoreEvent} (hj : m.mutators[j]? = some (.notifying ev [])) :
      Moves m (.notifyUnlock j) { m with mutators := m.mutators.eraseIdx j }
  | watch (hfree : m.unlocked = true) : Moves m .watch
      { m with
        chans := m.chans ++ [.make watchBuffer], watchers := m.watchers ++ [m.chans.length],
        routines := m.routines ++ [.waiting] }
  | cancel {i : Nat} (hi : m.routines[i]? = some .waiting) :
      Moves m (.cancel i) { m with routines := m.routines.set i .cancelled }
  | routineLock {i : Nat} (hi : m.routines[i]? = some .cancelled) (hfree : m.unlocked = true) :
      Moves m (.routineLock i) { m with routines := m.routines.set i .locked }
  | routineClose {i : Nat} {ch ch' : Chan StoreEvent} (hi : m.routines[i]? = some .locked) (hwatched : i ∈ m.watchers)
      (hch : m.chans[i]? = some ch) (hclose : ch.close = some ch') : Moves m (.routineClose i)
      { m with
        chans := m.chans.set i ch', watchers := m.watchers.filter (· ≠ i), routines := m.routines.set i .leaving }
  | closePanics {i : Nat} {ch : Chan StoreEvent} (hi : m.routines[i]? = some .locked) (hwatched : i ∈ m.watchers)
      (hch : m.chans[i]? = some ch) (hclose : ch.close = none) : Moves m (.routineClose i) { m with panicked := true }
  | routineLeave {i : Nat} (hi : m.routines[i]? = some .locked) :
      Moves m (.routineClose i) { m with routines := m.routines.set i .leaving }
  | routineUnlock {i : Nat} (hi : m.routines[i]? = some .leaving) :
      Moves m (.routineUnlock i) { m with routines := m.routines.set i .returned }
  | recv {i : Nat} {v : Option StoreEvent} {ch ch' : Chan StoreEvent} (hch : m.chans[i]? = some ch)
      (hrecv : ch.recv = some (v, ch')) : Moves m (.recv i) { m with chans := m.chans.set i ch' }

theorem step_moves (m : Memory) (e : Event) : m.step e = m ∨ Moves m e (m.step e) := by
  unfold Memory.step
  split
  · exact .inl rfl
  cases e with
  | mutate mutation =>
    dsimp only [Memory.mutate]
    split
    · exact .inr (.mutate mutation ‹_›)
    · exact .inl rfl
  | notifyLock j order =>
    dsimp only [Memory.notifyLock]
    split
    · split
      next hj hguard =>
        obtain ⟨hwrite, hperm⟩ := Bool.and_eq_true_iff.mp hguard
        exact .inr (.notifyLock hj (Bool.not_eq_true' _ ▸ hwrite) (List.isPerm_iff.mp hperm))
      · exact .inl rfl
    · exact .inl rfl
  | notifySend j =>
    dsimp only [Memory.notifySend]
    split
    · split
      · exact .inl rfl
      · split
        · exact .inr (.sendPanics ‹_› ‹_› ‹_›)
        · exact .inr (.notifySend ‹_› ‹_› ‹_›)
    · exact .inl rfl
  | notifyUnlock j =>
    dsimp only [Memory.notifyUnlock]
    split
    · exact .inr (.notifyUnlock ‹_›)
    · exact .inl rfl
  | watch =>
    dsimp only [Memory.watch]
    split
    · exact .inr (.watch ‹_›)
    · exact .inl rfl
  | cancel i =>
    dsimp only [Memory.cancel]
    split
    · exact .inr (.cancel ‹_›)
    · exact .inl rfl
  | routineLock i =>
    dsimp only [Memory.routineLock]
    split
    · split
      · exact .inr (.routineLock ‹_› ‹_›)
      · exact .inl rfl
    · exact .inl rfl
  | routineClose i =>
    dsimp only [Memory.routineClose]
    split
    · split
      · split
        · exact .inl rfl
        · split
          · exact .inr (.closePanics ‹_› ‹_› ‹_› ‹_›)
          · exact .inr (.routineClose ‹_› ‹_› ‹_› ‹_›)
      · exact .inr (.routineLeave ‹_›)
    · exact .inl rfl
  | routineUnlock i =>
    dsimp only [Memory.routineUnlock]
    split
    · exact .inr (.routineUnlock ‹_›)
    · exact .inl rfl
  | recv i =>
    dsimp only [Memory.recv]
    split
    · exact .inl rfl
    · split
      · exact .inl rfl
      · exact .inr (.recv ‹_› ‹_›)

theorem Sound.watch (h : Sound m) (hfree : m.unlocked = true) :
    Sound { m with
      chans := m.chans ++ [.make watchBuffer], watchers := m.watchers ++ [m.chans.length],
      routines := m.routines ++ [.waiting] } where
  running := h.running
  watched i hi := by
    rcases List.mem_append.mp hi with hold | hnew
    · obtain ⟨ch, hch, hopen⟩ := h.watched i hold
      exact ⟨ch, (List.getElem?_append_left (List.getElem?_eq_some_iff.mp hch).1).trans hch, hopen⟩
    · rw [List.mem_singleton.mp hnew]
      exact ⟨.make watchBuffer, by simp, rfl⟩
  todo ev todo hmem i hi := List.mem_append_left _ (h.todo ev todo hmem i hi)
  exclusive _ := (unlocked_iff.mp hfree).1
  waiting i hi := by
    by_cases hlt : i < m.routines.length
    · rw [List.getElem?_append_left hlt] at hi
      exact List.mem_append_left _ (h.waiting i hi)
    · have hlen := (List.getElem?_eq_some_iff.mp hi).1
      rw [List.length_append, List.length_singleton] at hlen
      refine List.mem_append_right _ (List.mem_singleton.mpr ?_)
      rw [← h.sizes]
      omega
  sizes := by simp [h.sizes]
  caps ch hch := by
    rcases List.mem_append.mp hch with hold | hnew
    · exact h.caps ch hold
    · rw [List.mem_singleton.mp hnew]
      rfl

/-- The goroutine has the lock, so no `notify` is left to send to the channel that it closes. -/
theorem Sound.routineClose (h : Sound m) {i : Nat} {ch ch' : Chan StoreEvent} (hi : m.routines[i]? = some .locked)
    (hch : m.chans[i]? = some ch) (hclose : ch.close = some ch') :
    Sound { m with
      chans := m.chans.set i ch', watchers := m.watchers.filter (· ≠ i), routines := m.routines.set i .leaving } := by
  have hread := h.exclusive (writeLocked_of_mem hi rfl)
  have hs := h.setRoutine i (r := .leaving) (by simp) (fun _ => hread)
  rw [Chan.close_eq_some hclose]
  constructor
  · exact h.running
  · intro k hk
    obtain ⟨hk, hne⟩ := List.mem_filter.mp hk
    obtain ⟨c, hc, hkopen⟩ := h.watched k hk
    have hne : i ≠ k := Ne.symm (of_decide_eq_true hne)
    exact ⟨c, (List.getElem?_set_ne hne).trans hc, hkopen⟩
  · intro ev todo hmem
    have := hread.symm.trans (readLocked_of_mem hmem)
    cases this
  · exact hs.exclusive
  · intro k hk
    refine List.mem_filter.mpr ⟨hs.waiting k hk, ?_⟩
    have hne : k ≠ i := by
      rintro rfl
      rw [List.getElem?_set_self (List.getElem?_eq_some_iff.mp hi).1] at hk
      cases hk
    simpa using hne
  · simp [h.sizes]
  · intro c hc
    rcases List.mem_or_eq_of_mem_set hc with hold | rfl
    · exact h.caps c hold
    · exact h.caps ch (List.mem_of_getElem? hch)

theorem Sound.moves (h : Sound m) {e : Event} {m' : Memory} (hmoves : Moves m e m') : Sound m' := by
  cases hmoves with
  | mutate mutation hfree =>
    have hm := h.setMutators (m.mutators ++ [.committed mutation.event])
      (fun ev todo hmem => by
        rcases List.mem_append.mp hmem with hold | hnew
        · exact h.todo ev todo hold
        · cases List.mem_singleton.mp hnew)
      (fun hw => by rw [(unlocked_iff.mp hfree).2] at hw; cases hw)
    exact ⟨hm.running, hm.watched, hm.todo, hm.exclusive, hm.waiting, hm.sizes, hm.caps⟩
  | notifyLock hj hwrite hperm =>
    refine h.setMutators _ (fun ev' todo hmem => ?_) (fun hw => ?_)
    · rcases List.mem_or_eq_of_mem_set hmem with hold | hnew
      · exact h.todo ev' todo hold
      · cases hnew
        exact fun i hi => hperm.subset hi
    · rw [hw] at hwrite
      cases hwrite
  | notifySend hj hch hsend =>
    have hmem := List.mem_of_getElem? hj
    have hwatched := h.todo _ _ hmem
    obtain ⟨hopen, hopen', hcap⟩ := Chan.trySend_eq_some hsend
    refine (h.setChan hch (hopen'.trans hopen.symm) hcap).setMutators _ (fun ev' todo' hmem' => ?_) (fun hw => ?_)
    · rcases List.mem_or_eq_of_mem_set hmem' with hold | hnew
      · exact h.todo ev' todo' hold
      · cases hnew
        exact fun k hk => hwatched k (List.mem_cons_of_mem _ hk)
    · -- The mutator has the read lock, so no goroutine has the lock.
      exact absurd (h.exclusive hw) (by rw [readLocked_of_mem hmem]; simp)
  | sendPanics hj hch hsend =>
    obtain ⟨ch, hch', hopen⟩ := h.watched _ (h.todo _ _ (List.mem_of_getElem? hj) _ List.mem_cons_self)
    rw [hch] at hch'
    cases hch'
    rw [Chan.trySend_eq_none_iff, hopen] at hsend
    cases hsend
  | notifyUnlock hj =>
    refine h.setMutators _ (fun ev todo hmem => h.todo ev todo (List.mem_of_mem_eraseIdx hmem)) (fun hw => ?_)
    refine List.any_eq_false.mpr fun mu hmu => ?_
    exact List.any_eq_false.mp (h.exclusive hw) mu (List.mem_of_mem_eraseIdx hmu)
  | watch hfree => exact h.watch hfree
  | cancel hi => exact h.setRoutine _ (by simp) (by simp [Routine.holdsLock])
  | routineLock hi hfree => exact h.setRoutine _ (by simp) (fun _ => (unlocked_iff.mp hfree).1)
  | routineClose hi hwatched hch hclose => exact h.routineClose hi hch hclose
  | closePanics hi hwatched hch hclose =>
    obtain ⟨ch, hch', hopen⟩ := h.watched _ hwatched
    rw [hch] at hch'
    cases hch'
    rw [Chan.close_eq_none_iff, hopen] at hclose
    cases hclose
  | routineLeave hi => exact h.setRoutine _ (by simp) (fun _ => h.exclusive (writeLocked_of_mem hi rfl))
  | routineUnlock hi => exact h.setRoutine _ (by simp) (by simp [Routine.holdsLock])
  | recv hch hrecv =>
    obtain ⟨hclosed, hcap⟩ := Chan.recv_eq_some hrecv
    exact h.setChan hch hclosed hcap

theorem Sound.step (h : Sound m) (e : Event) : Sound (m.step e) := by
  rcases step_moves m e with heq | hmoves
  · rwa [heq]
  · exact h.moves hmoves

end Memory

/-! ### The store in etcd -/

/-- What every step keeps that does not send to a watch that has ended. -/
structure Etcd.Sound (e : Etcd) : Prop where
  running : e.panicked = false
  ended : ∀ (i : Nat) ch, e.chans[i]? = some ch → (ch.closed = true ↔ e.routines[i]? = some .returned)
  sizes : e.routines.length = e.chans.length
  todo : ∀ ev todo, Mutator.notifying ev todo ∈ e.writers → ∀ i ∈ todo, i < e.chans.length
  subs : ∀ i ∈ e.subs, i < e.chans.length

/-- The step does not send a local notification to a watch whose goroutine has returned, because its context is done or
    the etcd watch was closed. -/
def Etcd.NotEnded (e : Etcd) (event : Etcd.Event) : Prop :=
  ∀ j ev i todo, event = .notifySend j → e.writers[j]? = some (.notifying ev (i :: todo)) →
    e.routines[i]? ≠ some .returned

namespace Etcd

variable {e : Etcd}

theorem Sound.new : Sound new where
  running := rfl
  ended := by simp [Etcd.new]
  sizes := rfl
  todo := by simp [Etcd.new]
  subs := by simp [Etcd.new]

section
variable (h : Sound e)
include h

theorem Sound.setWriters {writers : List Mutator}
    (htodo : ∀ ev todo, Mutator.notifying ev todo ∈ writers → ∀ i ∈ todo, i < e.chans.length) : Sound { e with writers } :=
  ⟨h.running, h.ended, h.sizes, htodo, h.subs⟩

/-- A channel changes its buffer only. -/
theorem Sound.setChan {i : Nat} {ch ch' : Chan StoreEvent} (hi : e.chans[i]? = some ch) (hclosed : ch'.closed = ch.closed) :
    Sound { e with chans := e.chans.set i ch' } where
  running := h.running
  ended k c hc := by
    by_cases heq : i = k
    · subst heq
      rw [List.getElem?_set_self (List.getElem?_eq_some_iff.mp hi).1] at hc
      cases hc
      rw [hclosed]
      exact h.ended i ch hi
    · exact h.ended k c ((List.getElem?_set_ne heq).symm.trans hc)
  sizes := h.sizes.trans List.length_set.symm
  todo ev todo hmem i hi := Nat.lt_of_lt_of_eq (h.todo ev todo hmem i hi) List.length_set.symm
  subs i hi := Nat.lt_of_lt_of_eq (h.subs i hi) List.length_set.symm

/-- A goroutine that has not returned goes on. -/
theorem Sound.setRoutine {i : Nat} {r r' : EtcdRoutine} (hi : e.routines[i]? = some r) (hr : r ≠ .returned)
    (hr' : r' ≠ .returned) : Sound { e with routines := e.routines.set i r' } where
  running := h.running
  ended k c hc := by
    rw [h.ended k c hc]
    by_cases heq : i = k
    · subst heq
      rw [List.getElem?_set_self (List.getElem?_eq_some_iff.mp hi).1, hi]
      simp [hr, hr']
    · rw [List.getElem?_set_ne heq]
  sizes := List.length_set.trans h.sizes
  todo := h.todo
  subs := h.subs

/-- A send to the channel of a watch that has not ended. -/
theorem Sound.send {i : Nat} (hi : e.routines[i]? ≠ some .returned) (ev : StoreEvent) : Sound (e.send i ev) := by
  unfold Etcd.send
  split
  · exact h
  · rename_i ch hch
    have hopen : ch.closed = false := Bool.eq_false_iff.mpr fun hc => hi ((h.ended i ch hch).mp hc)
    split
    · rename_i hpanic
      rw [Chan.trySend_eq_none_iff, hopen] at hpanic
      cases hpanic
    · rename_i ch' hsend
      exact h.setChan hch ((Chan.trySend_eq_some hsend).2.1.trans hopen.symm)

/-- A goroutine closes its channel once, as it returns. -/
theorem Sound.finish {i : Nat} (hi : e.routines[i]? = some .selecting) : Sound (e.finish i) := by
  unfold Etcd.finish
  split
  · exact h
  · rename_i ch hch
    split
    · rename_i hpanic
      rw [Chan.close_eq_none_iff, h.ended i ch hch, hi] at hpanic
      cases hpanic
    · rename_i ch' hclose
      rw [Chan.close_eq_some hclose]
      constructor
      · exact h.running
      · intro k c hc
        by_cases heq : i = k
        · subst heq
          rw [List.getElem?_set_self (List.getElem?_eq_some_iff.mp hch).1] at hc
          cases hc
          rw [List.getElem?_set_self (List.getElem?_eq_some_iff.mp hi).1]
          simp
        · rw [List.getElem?_set_ne heq]
          exact h.ended k c ((List.getElem?_set_ne heq).symm.trans hc)
      · simp [h.sizes]
      · intro ev todo hmem k hk
        exact Nat.lt_of_lt_of_eq (h.todo ev todo hmem k hk) List.length_set.symm
      · intro k hk
        exact Nat.lt_of_lt_of_eq (h.subs k hk) List.length_set.symm

theorem Sound.notifyLock (j : Nat) : Sound (e.notifyLock j) := by
  unfold Etcd.notifyLock
  split
  · split
    · exact h
    · refine h.setWriters fun ev todo hmem => ?_
      rcases List.mem_or_eq_of_mem_set hmem with hold | hnew
      · exact h.todo ev todo hold
      · cases hnew
        exact h.subs
  · exact h

theorem Sound.notifySend {j : Nat} (hne : e.NotEnded (.notifySend j)) : Sound (e.notifySend j) := by
  unfold Etcd.notifySend
  split
  · rename_i ev i todo hj
    have hw : Sound { e with writers := e.writers.set j (.notifying ev todo) } := by
      refine h.setWriters fun ev' todo' hmem => ?_
      rcases List.mem_or_eq_of_mem_set hmem with hold | hnew
      · exact h.todo ev' todo' hold
      · cases hnew
        exact fun k hk => h.todo ev (i :: todo) (List.mem_of_getElem? hj) k (List.mem_cons_of_mem i hk)
    exact hw.send (hne j ev i todo rfl hj) ev
  · exact h

end

theorem Sound.notifyUnlock (h : Sound e) (j : Nat) : Sound (e.notifyUnlock j) := by
  unfold Etcd.notifyUnlock
  split
  · exact h.setWriters fun ev todo hmem => h.todo ev todo (List.mem_of_mem_eraseIdx hmem)
  · exact h

theorem Sound.write (h : Sound e) (ev : StoreEvent) : Sound (e.write ev) := by
  refine h.setWriters fun ev' todo hmem => ?_
  rcases List.mem_append.mp hmem with hold | hnew
  · exact h.todo ev' todo hold
  · cases List.mem_singleton.mp hnew

theorem Sound.watch (h : Sound e) : Sound e.watch := by
  unfold Etcd.watch
  split
  · exact h
  · constructor
    · exact h.running
    · intro i ch hch
      by_cases hlt : i < e.chans.length
      · rw [List.getElem?_append_left hlt] at hch
        rw [List.getElem?_append_left (h.sizes ▸ hlt)]
        exact h.ended i ch hch
      · have hi : i = e.chans.length := by
          have := (List.getElem?_eq_some_iff.mp hch).1
          rw [List.length_append, List.length_singleton] at this
          omega
        subst hi
        rw [List.getElem?_concat_length] at hch
        cases hch
        rw [← h.sizes, List.getElem?_concat_length]
        simp [Chan.make]
    · simp [h.sizes]
    · intro ev todo hmem i hi
      rw [List.length_append]
      exact Nat.lt_add_right _ (h.todo ev todo hmem i hi)
    · intro i hi
      rw [List.length_append, List.length_singleton]
      rcases List.mem_append.mp hi with hold | hnew
      · exact Nat.lt_add_right _ (h.subs i hold)
      · rw [List.mem_singleton.mp hnew]
        exact Nat.lt_succ_self _

theorem Sound.response (h : Sound e) (i : Nat) (kinds : Option (List StoreEvent)) : Sound (e.response i kinds) := by
  unfold Etcd.response
  split
  · rename_i hi
    exact h.setRoutine hi (by simp) (by simp)
  · exact h

theorem Sound.forward (h : Sound e) (i : Nat) : Sound (e.forward i) := by
  unfold Etcd.forward
  split
  · rename_i kind kinds hi
    refine Sound.send (h.setRoutine hi (by simp) (by simp)) ?_ kind
    rw [List.getElem?_set_self (List.getElem?_eq_some_iff.mp hi).1]
    simp
  · rename_i hi
    exact h.setRoutine hi (by simp) (by simp)
  · exact h

theorem Sound.recv (h : Sound e) (i : Nat) : Sound (e.recv i) := by
  unfold Etcd.recv
  split
  · exact h
  · rename_i ch hch
    split
    · exact h
    · rename_i hrecv
      exact h.setChan hch (Chan.recv_eq_some hrecv).1

theorem Sound.step (h : Sound e) {event : Event} (hne : e.NotEnded event) : Sound (e.step event) := by
  unfold Etcd.step
  rw [if_neg (by simp [h.running])]
  cases event with
  | write ev => exact h.write ev
  | notifyLock j => exact h.notifyLock j
  | notifySend j => exact h.notifySend hne
  | notifyUnlock j => exact h.notifyUnlock j
  | watch => exact h.watch
  | cancel i => exact ⟨h.running, h.ended, h.sizes, h.todo, h.subs⟩
  | done i =>
    dsimp only [Etcd.done]
    split
    · rename_i hi
      exact h.finish (by simpa using (Bool.and_eq_true_iff.mp hi).1)
    · exact h
  | watchClosed i =>
    dsimp only [Etcd.watchClosed]
    split
    · rename_i hi
      exact h.finish hi
    · exact h
  | response i kinds => exact h.response i kinds
  | forward i => exact h.forward i
  | recv i => exact h.recv i

/-- The channel of a watch that has ended is closed, and it is still a subscriber's. -/
theorem Sound.step_panicked (h : Sound e) {event : Event} (hended : ¬e.NotEnded event) :
    (e.step event).panicked = true := by
  simp only [NotEnded, not_forall, not_not] at hended
  obtain ⟨j, ev, i, todo, rfl, hj, hi⟩ := hended
  have hlt := h.todo ev (i :: todo) (List.mem_of_getElem? hj) i List.mem_cons_self
  have hch : e.chans[i]? = some e.chans[i] := List.getElem?_eq_getElem hlt
  have hclosed := (h.ended i _ hch).mpr hi
  have hsend := Chan.trySend_eq_none_iff (v := ev).mpr hclosed
  unfold Etcd.step
  rw [if_neg (by simp [h.running])]
  dsimp only [Etcd.notifySend]
  rw [hj]
  dsimp only [Etcd.send]
  rw [hch]
  dsimp only
  rw [hsend]

end Etcd

/-- No run of the in-memory store sends to a closed channel or closes one twice; a run of the etcd store does neither
    exactly when no local write notifies a watch that has ended. -/
theorem notify_safe_iff (memoryRun : List Memory.Event) (etcdRun : List Etcd.Event) :
    Always Memory.step (fun m => m.panicked = false) .new memoryRun ∧
      (Always Etcd.step (fun e => e.panicked = false) .new etcdRun ↔ Steps Etcd.step Etcd.NotEnded .new etcdRun) := by
  constructor
  · intro pre _
    exact (execute_inv (I := Memory.Sound) (fun _ e h => h.step e) Memory.Sound.new pre).running
  · refine always_iff_steps (fun _ h => h.running) (fun _ _ h hne => h.step hne) (fun e event h hended => ?_)
      Etcd.Sound.new etcdRun
    rw [h.step_panicked hended]
    simp

/-- A watch is cancelled, and a policy is put after that. -/
theorem etcd_notify_after_cancel :
    (execute Etcd.step .new
      [.watch, .cancel 0, .done 0, .write .policyChanged, .notifyLock 0, .notifySend 0]).panicked = true := by
  decide

end Meridian.Store
