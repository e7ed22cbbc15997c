import Meridian.Control.Handle
import Meridian.Theorems.Notify

/-! No update of the in-memory store is lost on its way to an ADS stream: a type whose last response is out of date has
    a notification coming, or is about to be read again. -/

namespace Meridian.Store
open Lib Wire

/-! ### Notifications under way -/

/-- A notification is in the channel of a watch, or on its way there. -/
def Memory.Pending (m : Memory) (w : Nat) : Prop :=
  (∃ ch, m.chans[w]? = some ch ∧ ch.buffer ≠ []) ∨ (∃ ev, Mutator.committed ev ∈ m.mutators) ∨
    ∃ ev todo, Mutator.notifying ev todo ∈ m.mutators ∧ w ∈ todo

theorem mem_set_of_ne {α : Type} {l : List α} {x y z : α} {j : Nat} (hx : x ∈ l) (hj : l[j]? = some y) (hne : x ≠ y) :
    x ∈ l.set j z := by
  obtain ⟨k, hk⟩ := List.mem_iff_getElem?.mp hx
  have hjk : j ≠ k := by
    rintro rfl
    rw [hj] at hk
    exact hne (Option.some.inj hk).symm
  exact List.mem_of_getElem? ((List.getElem?_set_ne hjk).trans hk)

theorem mem_eraseIdx_of_ne {α : Type} {l : List α} {x y : α} {j : Nat} (hx : x ∈ l) (hj : l[j]? = some y) (hne : x ≠ y) :
    x ∈ l.eraseIdx j := by
  obtain ⟨k, hk⟩ := List.mem_iff_getElem?.mp hx
  refine List.mem_eraseIdx_iff_getElem?.mpr ⟨k, ?_, hk⟩
  rintro rfl
  rw [hj] at hk
  exact hne (Option.some.inj hk).symm

namespace Memory

variable {m : Memory} {w : Nat}

theorem Pending.setChan (h : Pending m w) {i : Nat} (hi : i ≠ w) (ch : Chan StoreEvent) :
    Pending { m with chans := m.chans.set i ch } w := by
  rcases h with ⟨c, hc, hbuf⟩ | hmut
  · exact .inl ⟨c, (List.getElem?_set_ne hi).trans hc, hbuf⟩
  · exact .inr hmut

/-- The send to the channel itself leaves it filled; a send to another one leaves the rest to do. -/
theorem Pending.notifySend (hs : Sound m) {j i : Nat} {ev : StoreEvent} {todo : List Nat} {ch ch' : Chan StoreEvent}
    (hj : m.mutators[j]? = some (.notifying ev (i :: todo))) (hch : m.chans[i]? = some ch)
    (hsend : ch.trySend ev = some ch') (h : Pending m w) :
    Pending { m with chans := m.chans.set i ch', mutators := m.mutators.set j (.notifying ev todo) } w := by
  by_cases hi : i = w
  · subst hi
    refine .inl ⟨ch', List.getElem?_set_self (List.getElem?_eq_some_iff.mp hch).1, ?_⟩
    refine Chan.buffer_ne_nil_of_trySend ?_ hsend
    rw [hs.caps ch (List.mem_of_getElem? hch)]
    exact Nat.one_pos
  · rcases h with ⟨c, hc, hbuf⟩ | ⟨ev', hmem⟩ | ⟨ev', todo', hmem, htodo⟩
    · exact .inl ⟨c, (List.getElem?_set_ne hi).trans hc, hbuf⟩
    · exact .inr (.inl ⟨ev', mem_set_of_ne hmem hj (by simp)⟩)
    · by_cases hsame : Mutator.notifying ev' todo' = .notifying ev (i :: todo)
      · cases hsame
        refine .inr (.inr ⟨ev, todo, List.mem_set (List.getElem?_eq_some_iff.mp hj).1 _, ?_⟩)
        exact (List.mem_cons.mp htodo).resolve_left (Ne.symm hi)
      · exact .inr (.inr ⟨ev', todo', mem_set_of_ne hmem hj hsame, htodo⟩)

theorem Pending.notifyUnlock {j : Nat} {ev : StoreEvent} (hj : m.mutators[j]? = some (.notifying ev []))
    (h : Pending m w) : Pending { m with mutators := m.mutators.eraseIdx j } w := by
  rcases h with hbuf | ⟨ev', hmem⟩ | ⟨ev', todo', hmem, htodo⟩
  · exact .inl hbuf
  · exact .inr (.inl ⟨ev', mem_eraseIdx_of_ne hmem hj (by simp)⟩)
  · refine .inr (.inr ⟨ev', todo', mem_eraseIdx_of_ne hmem hj ?_, htodo⟩)
    rintro heq
    cases heq
    cases htodo

/-- A notification for a watch that waits stays under way until the watch receives. -/
theorem Pending.moves (hs : Sound m) (hw : m.routines[w]? = some .waiting) {e : Event} (he : e ≠ .recv w) {m' : Memory}
    (hmoves : Moves m e m') (h : Pending m w) : Pending m' w := by
  cases hmoves with
  | mutate mutation => exact .inr (.inl ⟨mutation.event, by simp⟩)
  | @notifyLock j order ev hj _ hperm =>
    -- from now on the mutator has every watcher to notify
    have hmem := List.mem_set (List.getElem?_eq_some_iff.mp hj).1 (Mutator.notifying ev order)
    exact .inr (.inr ⟨ev, order, hmem, hperm.symm.subset (hs.waiting w hw)⟩)
  | notifySend hj hch hsend => exact h.notifySend hs hj hch hsend
  | notifyUnlock hj => exact h.notifyUnlock hj
  | watch =>
    rcases h with ⟨c, hc, hbuf⟩ | hmut
    · exact .inl ⟨c, (List.getElem?_append_left (List.getElem?_eq_some_iff.mp hc).1).trans hc, hbuf⟩
    · exact .inr hmut
  | routineClose hi =>
    refine h.setChan ?_ _
    rintro rfl
    rw [hi] at hw
    cases hw
  | recv => exact h.setChan (fun heq => he (heq ▸ rfl)) _
  | sendPanics | cancel | routineLock | closePanics | routineLeave | routineUnlock => exact h

/-- What a step does to the goroutines: one goes on from its wait or past it, or a new one waits. -/
theorem step_routines (m : Memory) (e : Event) :
    (m.step e).routines = m.routines ∨ (∃ i r, r ≠ .waiting ∧ (m.step e).routines = m.routines.set i r) ∨
      (m.step e).routines = m.routines ++ [.waiting] := by
  rcases step_moves m e with heq | hmoves
  · exact .inl (by rw [heq])
  generalize m.step e = m' at hmoves
  cases hmoves with
  | watch => exact .inr (.inr rfl)
  | cancel => exact .inr (.inl ⟨_, .cancelled, by simp, rfl⟩)
  | routineLock => exact .inr (.inl ⟨_, .locked, by simp, rfl⟩)
  | routineClose | routineLeave => exact .inr (.inl ⟨_, .leaving, by simp, rfl⟩)
  | routineUnlock => exact .inr (.inl ⟨_, .returned, by simp, rfl⟩)
  | mutate | notifyLock | notifySend | sendPanics | notifyUnlock | closePanics | recv => exact .inl rfl

theorem routines_length_le (m : Memory) (e : Event) : m.routines.length ≤ (m.step e).routines.length := by
  rcases step_routines m e with h | ⟨i, r, -, h⟩ | h
  · rw [h]
  · rw [h, List.length_set]
  · rw [h, List.length_append]
    exact Nat.le_add_right _ _

/-- A goroutine that waits has always waited. -/
theorem waiting_of_step {e : Event} (hlt : w < m.routines.length) (h : (m.step e).routines[w]? = some .waiting) :
    m.routines[w]? = some .waiting := by
  rcases step_routines m e with heq | ⟨i, r, hr, heq⟩ | heq
  · rwa [heq] at h
  · rw [heq, List.getElem?_set] at h
    split at h
    · split at h
      · exact absurd (Option.some.inj h) hr
      · cases h
    · exact h
  · rwa [heq, List.getElem?_append_left hlt] at h

/-- A step of the store's threads leaves a notification under way, and changes the contents only with one. -/
theorem Sound.step_pending (hs : Sound m) (hw : m.routines[w]? = some .waiting) {e : Event} (he : e ≠ .recv w) :
    Pending (m.step e) w ∨ ¬Pending m w ∧ (m.step e).contents = m.contents := by
  rcases step_moves m e with heq | hmoves
  · rw [heq]
    exact (em (Pending m w)).imp_right fun hp => ⟨hp, rfl⟩
  generalize m.step e = m' at hmoves
  by_cases hp : Pending m w
  · exact .inl (hp.moves hs hw he hmoves)
  cases hmoves with
  | mutate mutation => exact .inl (.inr (.inl ⟨mutation.event, by simp⟩))
  | _ => exact .inr ⟨hp, rfl⟩

end Memory

end Meridian.Store

namespace Meridian.Ads
open Lib Wire Cc2 Xds Meridian.Store

/-! ### The stream -/

/-- The resources of a type that the contents of the store make. -/
def resourcesOf (c : Contents) (typeUrl : String) : List AnyMsg :=
  if typeUrl = clusterType then c.listPolicies.map encodePolicyRule
  else if typeUrl = endpointType then c.listIdentities.map encodeIdentity
  else []

/-- The last response of a type brought the contents. -/
def Handler.Sent (h : Handler) (c : Contents) (typeUrl : String) : Prop :=
  ∃ resp, h.lastSent typeUrl = some resp ∧ resp.resources.Perm (resourcesOf c typeUrl)

/-- A type is up to date, or will be with what the loop has to do. -/
def Handler.Fresh (h : Handler) (c : Contents) (typeUrl : String) : Prop :=
  match h.loop with
  | .select => h.Sent c typeUrl
  | .pushing todo => typeUrl ∈ todo ∨ h.Sent c typeUrl
  | .sending t resources todo =>
    typeUrl ∈ todo ∨ (t = typeUrl ∧ resources.Perm (resourcesOf c typeUrl)) ∨ (t ≠ typeUrl ∧ h.Sent c typeUrl)
  | .returned => True

/-- The types that carry the store. -/
def storeTypes : List String := [clusterType, endpointType]

/-- While the context of the stream is not done, each subscribed type is fresh or has a notification coming. -/
def Handler.Tracks (h : Handler) (m : Memory) : Prop :=
  ∀ w, h.watch = some w → w < m.routines.length ∧
    (m.routines[w]? = some .waiting → ∀ t ∈ storeTypes, h.server.subscribed t = true → m.Pending w ∨ h.Fresh m.contents t)

structure System.Tracked (s : System) : Prop where
  memory : s.memory.Sound
  handler : ∀ h, s.handler = some h → h.Tracks s.memory

theorem lastSent_append (h : Handler) (resp : DiscoveryResponse) (loop : Loop) (server : Server) (t : String) :
    Handler.lastSent { h with server, loop, sent := h.sent ++ [resp] } t =
      if resp.typeUrl = t then some resp else h.lastSent t := by
  unfold Handler.lastSent
  rw [List.reverse_append, List.reverse_singleton, List.singleton_append, List.find?_cons]
  split <;> simp_all

theorem resourcesFor_perm {c : Contents} {policies : List PolicyRule} {identities : List Identity} {t : String}
    {resources : List AnyMsg} (hp : policies.Perm c.listPolicies) (hi : identities.Perm c.listIdentities)
    (h : resourcesFor ⟨some policies, some identities⟩ t = some resources) : resources.Perm (resourcesOf c t) := by
  unfold resourcesFor at h
  unfold resourcesOf
  split at h
  · rename_i ht
    rw [if_pos ht]
    cases h
    exact hp.map _
  · rename_i hcluster
    split at h
    · rename_i ht
      rw [if_neg hcluster, if_pos ht]
      cases h
      exact hi.map _
    · rename_i hendpoint
      rw [if_neg hcluster, if_neg hendpoint]
      cases h
      exact .nil

/-- A handler whose loop goes on, where what was fresh stays fresh, and a new subscription is. -/
theorem Handler.Tracks.next {hd hd' : Handler} {m : Memory} (h : hd.Tracks m) (hwatch : hd'.watch = hd.watch)
    (hfresh : ∀ t ∈ storeTypes, hd'.server.subscribed t = true → hd'.Fresh m.contents t ∨
      (hd.server.subscribed t = true ∧ (hd.Fresh m.contents t → hd'.Fresh m.contents t))) : hd'.Tracks m := by
  intro w hw
  obtain ⟨hlt, htrack⟩ := h w (hwatch ▸ hw)
  refine ⟨hlt, fun hwait t ht hsub => ?_⟩
  rcases hfresh t ht hsub with hnew | ⟨hsubOld, hkeep⟩
  · exact .inr hnew
  · exact (htrack hwait t ht hsubOld).imp_right hkeep

theorem onRequest_cases (h : Handler) (req : DiscoveryRequest) :
    (∃ state, h.onRequest req =
      { h with
        server := { h.server with state, subscribed := Function.update h.server.subscribed req.typeUrl true }
        loop := .pushing [req.typeUrl] }) ∨
    ∃ state, h.onRequest req = { h with server := { h.server with state } } := by
  unfold Handler.onRequest
  split
  · exact .inr ⟨h.server.state, rfl⟩
  · split
    · rename_i state _
      exact .inl ⟨state, rfl⟩
    · rename_i state _ _
      exact .inr ⟨state, rfl⟩

theorem storeTypes_subset_pushOrder : storeTypes ⊆ pushOrder := by decide

namespace System

variable {s : System}

theorem Tracked.store (h : Tracked s) (e : Memory.Event) : Tracked (s.store e) := by
  have hstep (he : ∀ w, s.handler.bind (·.watch) = some w → e ≠ .recv w) : Tracked { s with memory := s.memory.step e } := by
    refine ⟨h.memory.step e, fun hd hhd w hw => ?_⟩
    obtain ⟨hlt, htrack⟩ := h.handler hd hhd w hw
    have hlen : s.memory.routines.length ≤ (s.memory.step e).routines.length := Memory.routines_length_le s.memory e
    refine ⟨Nat.lt_of_lt_of_le hlt hlen, fun hwait t ht hsub => ?_⟩
    have hwait := Memory.waiting_of_step hlt hwait
    have hne := he w (by rw [hhd]; exact hw)
    rcases h.memory.step_pending hwait hne with hp | ⟨hp, hcontents⟩
    · exact .inl hp
    · right
      dsimp only
      rw [hcontents]
      exact (htrack hwait t ht hsub).resolve_left hp
  unfold System.store
  split
  · rename_i i w hw
    split
    · exact h
    · rename_i hne
      refine hstep fun w' hw' heq => ?_
      rw [hw] at hw'
      cases hw'
      cases heq
      exact hne rfl
  · rename_i hother
    refine hstep fun w hw heq => ?_
    exact hother w w heq hw

theorem Tracked.connect (h : Tracked s) : Tracked s.connect := by
  unfold System.connect
  split
  · rename_i hguard
    have hfree := (Bool.and_eq_true_iff.mp hguard).2
    have hwatch : s.memory.watch = _ := if_pos hfree
    rw [hwatch]
    refine ⟨h.memory.watch hfree, fun hd hhd w hw => ?_⟩
    cases hhd
    cases hw
    refine ⟨?_, fun _ t _ hsub => ?_⟩
    · simp [h.memory.sizes]
    · cases hsub
  · exact h

theorem Tracked.setHandler (h : Tracked s) {hd : Handler} (htrack : hd.Tracks s.memory) :
    Tracked { s with handler := some hd } := by
  refine ⟨h.memory, fun hd' heq => ?_⟩
  cases heq
  exact htrack

theorem Tracked.request (h : Tracked s) (req : DiscoveryRequest) : Tracked (s.request req) := by
  unfold System.request
  split
  · exact h
  · rename_i hd hhd
    split
    · rename_i hloop
      have hkeep := h.handler hd hhd
      rcases onRequest_cases hd req with ⟨state, heq⟩ | ⟨state, heq⟩
      · rw [heq]
        refine h.setHandler (hkeep.next rfl fun t _ hsub => ?_)
        by_cases ht : t = req.typeUrl
        · exact .inl (.inl (List.mem_singleton.mpr ht))
        · dsimp only at hsub
          rw [Function.update_of_ne ht] at hsub
          refine .inr ⟨hsub, fun hfresh => ?_⟩
          unfold Handler.Fresh at hfresh
          rw [hloop] at hfresh
          exact .inr hfresh
      · rw [heq]
        exact h.setHandler (hkeep.next rfl fun t _ hsub => .inr ⟨hsub, fun hfresh => hfresh⟩)
    · exact h

/-- The loop takes the notification, and will read every type after it. -/
theorem Tracked.wake (h : Tracked s) : Tracked s.wake := by
  unfold System.wake
  split
  · exact h
  · rename_i hd hhd
    split
    · rename_i w hloop hwatch
      split
      · exact h
      · rename_i ev ch hrecv
        obtain ⟨old, hold, hrecv⟩ := Option.bind_eq_some_iff.mp hrecv
        obtain ⟨hclosed, hcap⟩ := Chan.recv_eq_some hrecv
        refine ⟨h.memory.setChan hold hclosed hcap, fun hd' heq w' hw' => ?_⟩
        cases heq
        refine ⟨(h.handler hd hhd w' hw').1, fun _ t ht _ => .inr (.inl ?_)⟩
        exact storeTypes_subset_pushOrder ht
      · refine h.setHandler fun w' hw' => ?_
        cases hw'
    · exact h

theorem Tracked.read (h : Tracked s) (policies : List PolicyRule) (identities : List Identity) :
    Tracked (s.read policies identities) := by
  unfold System.read
  split
  · exact h
  · rename_i hd hhd
    have hkeep := h.handler hd hhd
    split
    · rename_i hloop
      refine h.setHandler (hkeep.next rfl fun t _ hsub => .inr ⟨hsub, fun hfresh => ?_⟩)
      unfold Handler.Fresh at hfresh
      rw [hloop] at hfresh
      exact hfresh.resolve_left (List.not_mem_nil)
    · rename_i typeUrl todo hloop
      have hfresh {t : String} (hf : hd.Fresh s.memory.contents t) : t ∈ typeUrl :: todo ∨ hd.Sent s.memory.contents t := by
        unfold Handler.Fresh at hf
        rwa [hloop] at hf
      split
      · rename_i hunsub
        refine h.setHandler (hkeep.next rfl fun t _ hsub => .inr ⟨hsub, fun hf => ?_⟩)
        refine (hfresh hf).imp_left fun hmem => (List.mem_cons.mp hmem).resolve_left ?_
        rintro rfl
        dsimp only at hsub
        rw [hsub] at hunsub
        cases hunsub
      · split
        · exact h
        · rename_i hguard
          simp only [Bool.or_eq_true, Bool.not_eq_true', not_or, Bool.not_eq_false] at hguard
          obtain ⟨⟨-, hp⟩, hi⟩ := hguard
          split
          · exact h.setHandler (hkeep.next rfl fun t _ hsub => .inl trivial)
          · rename_i resources hres
            have hperm := resourcesFor_perm (List.isPerm_iff.mp hp) (List.isPerm_iff.mp hi) hres
            refine h.setHandler (hkeep.next rfl fun t _ hsub => ?_)
            by_cases ht : typeUrl = t
            · subst ht
              exact .inl (.inr (.inl ⟨rfl, hperm⟩))
            · refine .inr ⟨hsub, fun hf => ?_⟩
              rcases hfresh hf with hmem | hsent
              · exact .inl ((List.mem_cons.mp hmem).resolve_left (Ne.symm ht))
              · exact .inr (.inr ⟨ht, hsent⟩)
    · exact h

theorem Tracked.send (h : Tracked s) (fails : Bool) : Tracked (s.send fails) := by
  unfold System.send
  split
  · exact h
  · rename_i hd hhd
    have hkeep := h.handler hd hhd
    split
    · rename_i typeUrl resources todo hloop
      rcases hd.server.state.preparePush typeUrl with ⟨versionInfo, nonce, state⟩
      dsimp only
      split
      · exact h.setHandler (hkeep.next rfl fun t _ hsub => .inl trivial)
      · refine h.setHandler (hkeep.next rfl fun t _ hsub => .inr ⟨hsub, fun hf => ?_⟩)
        unfold Handler.Fresh at hf
        rw [hloop] at hf
        unfold Handler.Fresh Handler.Sent
        dsimp only
        rw [lastSent_append]
        dsimp only
        rcases hf with hmem | ⟨rfl, hperm⟩ | ⟨hne, hsent⟩
        · exact .inl hmem
        · exact .inr ⟨_, if_pos rfl, hperm⟩
        · rw [if_neg hne]
          exact .inr hsent
    · exact h

theorem Tracked.returned (h : Tracked s) {hd : Handler} (hhd : s.handler = some hd) :
    Tracked { s with handler := some { hd with loop := .returned } } :=
  h.setHandler ((h.handler hd hhd).next rfl fun _ _ _ => .inl trivial)

theorem Tracked.step (h : Tracked s) (e : Event) : Tracked (s.step e) := by
  unfold System.step
  rw [if_neg (by simp [h.memory.running])]
  cases e with
  | store e => exact h.store e
  | connect => exact h.connect
  | request req => exact h.request req
  | wake => exact h.wake
  | read policies identities => exact h.read policies identities
  | send fails => exact h.send fails
  | done =>
    dsimp only [System.done]
    split
    · exact h
    · rename_i hd hhd
      split
      · split
        · exact h
        · exact h.returned hhd
      · exact h.returned hhd
      · exact h
  | recvError =>
    dsimp only [System.recvError]
    split
    · exact h
    · rename_i hd hhd
      split
      · exact h.returned hhd
      · exact h

theorem Tracked.start : Tracked start :=
  ⟨Memory.Sound.new, fun _ h => by cases h⟩

/-- The loop waits at its `select`, and the context of its stream is not done. -/
def Idle (s : System) (h : Handler) (w : Nat) : Prop :=
  s.handler = some h ∧ h.loop = .select ∧ h.watch = some w ∧ s.memory.routines[w]? = some .waiting

end System

/-- Whenever the loop of a stream is idle, its watch is empty and no mutation has still to notify, the last response of
    each subscribed type that carries the store brought what is in the store. -/
theorem no_update_lost (events : List System.Event) {h : Handler} {w : Nat} {ch : Chan StoreEvent}
    (hidle : (execute System.step .start events).Idle h w)
    (hch : (execute System.step .start events).memory.chans[w]? = some ch) (hempty : ch.buffer = [])
    (hquiet : (execute System.step .start events).memory.mutators = []) :
    (h.server.subscribed clusterType = true → ∃ resp, h.lastSent clusterType = some resp ∧
      resp.resources.Perm ((execute System.step .start events).memory.contents.listPolicies.map encodePolicyRule)) ∧
    (h.server.subscribed endpointType = true → ∃ resp, h.lastSent endpointType = some resp ∧
      resp.resources.Perm ((execute System.step .start events).memory.contents.listIdentities.map encodeIdentity)) := by
  have htracked := execute_inv (I := System.Tracked) (fun _ e h => h.step e) System.Tracked.start events
  obtain ⟨hhd, hloop, hwatch, hwait⟩ := hidle
  have hpending : ¬(execute System.step .start events).memory.Pending w := by
    rintro (⟨c, hc, hbuf⟩ | ⟨ev, hmem⟩ | ⟨ev, todo, hmem, -⟩)
    · rw [hch] at hc
      cases hc
      exact hbuf hempty
    · rw [hquiet] at hmem
      cases hmem
    · rw [hquiet] at hmem
      cases hmem
  have hsent {t : String} (ht : t ∈ storeTypes) (hsub : h.server.subscribed t = true) :
      h.Sent (execute System.step .start events).memory.contents t := by
    have hfresh := ((htracked.handler h hhd w hwatch).2 hwait t ht hsub).resolve_left hpending
    unfold Handler.Fresh at hfresh
    rwa [hloop] at hfresh
  constructor
  · intro hsub
    exact hsent (by simp [storeTypes]) hsub
  · intro hsub
    exact hsent (by simp [storeTypes]) hsub

/-- A stream subscribes to the policies, and one is put. -/
def policyPut : List System.Event :=
  let rule : PolicyRule := ⟨⟨7, 8, 80, 6, 0⟩, ⟨0, 0⟩⟩
  [.connect, .request ⟨clusterType, "", "", none⟩, .read [] [], .send false, .read [] [],
   .store (.mutate (.putPolicy rule)), .store (.notifyLock 0 [0]), .store (.notifySend 0), .store (.notifyUnlock 0), .wake,
   .read [rule] [], .send false, .read [] [], .read [] [], .read [] [], .read [] []]

theorem no_update_lost_policyPut : ∃ h resp, (execute System.step .start policyPut).handler = some h ∧
    h.lastSent clusterType = some resp ∧ resp.resources.Perm [encodePolicyRule ⟨⟨7, 8, 80, 6, 0⟩, ⟨0, 0⟩⟩] := by
  have hidle : (execute System.step .start policyPut).Idle _ 0 := ⟨rfl, rfl, rfl, rfl⟩
  obtain ⟨resp, hlast, hperm⟩ := (no_update_lost policyPut hidle rfl rfl rfl).1 rfl
  exact ⟨_, resp, rfl, hlast, hperm⟩

end Meridian.Ads
