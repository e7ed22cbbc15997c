import Meridian.Agent.WorkloadApi
import Meridian.Lib.Run

/-! What the subscribers of the store of SVIDs end up with. A rotation that finds the buffer of a subscriber full is not
    delivered to it, by design: the subscriber then receives the entry in the buffer, which is not the current one, and has
    to wait for the next rotation. -/

namespace Meridian.Workloadapi
open Lib Url Ca Svid

/-! ### One channel -/

/-- A channel as `Subscribe` makes it: open, with room for one entry. -/
structure Slot (ch : Chan Entry) : Prop where
  cap : ch.cap = 1
  isOpen : ch.closed = false
  length : ch.buffer.length ≤ 1

/-- `Set` puts the entry into an empty slot and leaves a full one as it is. -/
theorem Slot.trySend {ch : Chan Entry} (h : Slot ch) (e : Entry) :
    (ch.trySend e).getD ch = if ch.cap ≤ ch.buffer.length then ch else { ch with buffer := [e] } := by
  obtain ⟨hcap, hopen, hlength⟩ := h
  unfold Chan.trySend
  rw [if_neg (by rw [hopen]; exact Bool.false_ne_true), hcap]
  by_cases hroom : ch.buffer.length < 1
  · rw [if_pos hroom, if_neg (Nat.not_le.mpr hroom), List.length_eq_zero_iff.mp (Nat.lt_one_iff.mp hroom)]
    rfl
  · rw [if_neg hroom, if_pos (Nat.not_lt.mp hroom)]
    rfl

theorem Slot.recv {ch rest : Chan Entry} {e : Entry} (h : Slot ch) (hrecv : ch.recv = some (some e, rest)) :
    Slot rest ∧ rest.buffer = [] := by
  have hbuffer := Chan.buffer_of_recv hrecv
  obtain ⟨hclosed, hcap⟩ := Chan.recv_eq_some hrecv
  have hlength := h.length
  rw [hbuffer, List.length_cons] at hlength
  have hnil : rest.buffer = [] := List.length_eq_zero_iff.mp (by omega)
  exact ⟨⟨hcap.trans h.cap, hclosed.trans h.isOpen, by rw [hnil]; exact Nat.zero_le 1⟩, hnil⟩

/-! ### One subscriber -/

/-- What concerns one subscriber. -/
structure Subscriber where
  channel : Option (Chan Entry)
  stream : Bool
  received : List Entry
  sending : Option Entry
  sent : List X509SVID

/-- What holds of a subscriber at every moment; `skipped` if a rotation has found its buffer full since the last entry that
    was put into it. -/
structure Subscriber.Follows (rootCert : Option (Certificate URL)) (current : Option Entry) (skipped : Bool)
    (v : Subscriber) : Prop where
  slot : ∀ ch, v.channel = some ch → Slot ch
  offered : ∀ ch e rest, v.channel = some ch → skipped = false → ch.buffer = e :: rest → current = some e
  converged : ∀ ch, v.channel = some ch → skipped = false → ch.buffer = [] → current ≠ none → v.received.head? = current
  pending : ∀ e, v.sending = some e → v.received.head? = some e
  answered : v.stream = true → v.channel ≠ none → v.sending = none → ∀ e, v.received.head? = some e →
    ∃ resp, svidResponse rootCert e = .ok resp ∧ v.sent.head? = some resp

/-- Nothing depends on the flag of a subscriber without a channel. -/
theorem Subscriber.Follows.of_flag {rootCert : Option (Certificate URL)} {current : Option Entry} {skipped skipped' : Bool}
    {v : Subscriber} (h : v.Follows rootCert current skipped) (hflag : v.channel ≠ none → skipped' = skipped) :
    v.Follows rootCert current skipped' where
  slot := h.slot
  offered := by
    intro ch e rest hch hskip
    exact h.offered ch e rest hch (hflag (Option.ne_none_iff_exists'.mpr ⟨ch, hch⟩) ▸ hskip)
  converged := by
    intro ch hch hskip
    exact h.converged ch hch (hflag (Option.ne_none_iff_exists'.mpr ⟨ch, hch⟩) ▸ hskip)
  pending := h.pending
  answered := h.answered

namespace Feed

variable {rootCert : Option (Certificate URL)} {s : Feed} {id : Nat}

def subscriber (s : Feed) (id : Nat) : Subscriber :=
  ⟨s.channel id, s.streams id, s.received id, s.sending id, s.sent id⟩

theorem subscriber_set (s : Feed) (e : Entry) (id : Nat) :
    ({ s with store := s.store.set e } : Feed).subscriber id =
      { s.subscriber id with channel := (s.channel id).map fun ch => (ch.trySend e).getD ch } := by
  have hchannel : ({ s with store := s.store.set e } : Feed).channel id = _ := s.store.lookup_set e id
  rw [subscriber, hchannel]
  rfl

theorem subscriber_subscribe (h : s.channel id = none) (stream : Bool) :
    (s.subscribe id stream).subscriber =
      Function.update s.subscriber id ⟨some ⟨1, s.store.current.toList, false⟩, stream, [], none, []⟩ := by
  have hchannel : ∀ id', (s.store.subscribe id).subs.lookup id' =
      if id' = id then some ⟨1, s.store.current.toList, false⟩ else s.channel id' := by
    intro id'
    rw [Store.subscribe_eq]
    exact Assoc.lookup_snoc h _ id'
  funext id'
  unfold subscribe
  rw [h]
  simp only [subscriber, channel, hchannel]
  by_cases hid : id' = id
  · subst hid
    simp [Table.erase_same]
  · simp [subscriber, channel, hid, Table.erase_of_ne (Ne.symm hid)]

theorem subscriber_unsubscribe (h : (s.store.subs.map (·.1)).Nodup) (id : Nat) :
    (s.unsubscribe id).subscriber =
      Function.update s.subscriber id { s.subscriber id with channel := none, sending := none } := by
  have hchannel : ∀ id', (s.unsubscribe id).channel id' = if id' = id then none else s.channel id' :=
    Assoc.lookup_eraseP h id
  funext id'
  rw [subscriber, hchannel]
  by_cases hid : id' = id
  · subst hid
    simp [unsubscribe, subscriber]
  · simp [unsubscribe, subscriber, hid, Table.erase_of_ne (Ne.symm hid)]

theorem takes_eq_some {e : Entry} {rest : Chan Entry} (h : s.takes id = some (e, rest)) :
    s.sending id = none ∧ ∃ ch, s.channel id = some ch ∧ ch.recv = some (some e, rest) := by
  unfold takes at h
  split at h
  · rename_i ch hsending hch
    split at h
    · rename_i hrecv
      cases h
      exact ⟨hsending, ch, hch, hrecv⟩
    · cases h
  · cases h

theorem subscriber_receive {e : Entry} {rest : Chan Entry} (h : s.takes id = some (e, rest)) :
    (s.receive id).subscriber = Function.update s.subscriber id
      { s.subscriber id with
        channel := some rest, received := e :: s.received id, sending := if s.streams id then some e else none } := by
  obtain ⟨hsending, ch, hch, -⟩ := takes_eq_some h
  have hchannel : ∀ id', (s.receive id).channel id' = if id' = id then some rest else s.channel id' := by
    intro id'
    unfold receive
    rw [h]
    exact Assoc.lookup_replace hch rest id'
  funext id'
  rw [subscriber, hchannel]
  unfold receive
  rw [h]
  by_cases hid : id' = id
  · subst hid
    cases hstream : s.streams id' <;> simp [subscriber, hstream, hsending]
  · cases hstream : s.streams id <;> simp [subscriber, hid, Table.put_of_ne (Ne.symm hid)]

theorem subscriber_send {e : Entry} {resp : X509SVID} (h : s.sending id = some e)
    (hresp : svidResponse rootCert e = .ok resp) :
    (s.send rootCert id).subscriber =
      Function.update s.subscriber id { s.subscriber id with sending := none, sent := resp :: s.sent id } := by
  funext id'
  unfold send
  rw [h]
  simp only [hresp]
  by_cases hid : id' = id
  · subst hid
    simp [subscriber, channel]
  · simp [subscriber, channel, hid, Table.erase_of_ne (Ne.symm hid)]

-- Only `Set` changes the current entry.

theorem current_subscribe (s : Feed) (id : Nat) (stream : Bool) : (s.subscribe id stream).store.current = s.store.current := by
  unfold subscribe
  split
  · rfl
  · rw [Store.subscribe_eq]

theorem current_receive (s : Feed) (id : Nat) : (s.receive id).store.current = s.store.current := by
  unfold receive
  split <;> rfl

theorem current_send (s : Feed) (id : Nat) : (s.send rootCert id).store.current = s.store.current := by
  unfold send
  split
  · rfl
  · split <;> rfl

theorem nodup_subscribe (h : (s.store.subs.map (·.1)).Nodup) (id : Nat) (stream : Bool) :
    ((s.subscribe id stream).store.subs.map (·.1)).Nodup := by
  unfold subscribe
  split
  · exact h
  · rename_i hch
    exact Store.nodup_subscribe hch h

/-- The subscribers have different numbers. -/
theorem ids_step (rootCert : Option (Certificate URL)) (h : (s.store.subs.map (·.1)).Nodup) (ev : FeedEvent) :
    ((s.step rootCert ev).store.subs.map (·.1)).Nodup := by
  have hunsubscribe (id : Nat) : ((s.unsubscribe id).store.subs.map (·.1)).Nodup :=
    h.sublist ((List.eraseP_sublist).map _)
  cases ev with
  | set e => exact s.store.ids_set e ▸ h
  | subscribe id => exact nodup_subscribe h id false
  | fetchX509SVID id securityHeader =>
    cases securityHeader with
    | true => exact nodup_subscribe h id true
    | false => exact h
  | unsubscribe id => exact hunsubscribe id
  | receive id =>
    simp only [step, receive]
    split
    · exact h
    · rw [Assoc.map_fst_replace s.store.subs id]
      exact h
  | send id =>
    simp only [step, send]
    split
    · exact h
    · split
      · exact h
      · exact hunsubscribe id

/-! ### Convergence -/

/-- A subscriber whose channel is empty has last received the current entry, once there is one. -/
def Converged (s : Feed) (id : Nat) : Prop :=
  ∀ ch, s.channel id = some ch → ch.buffer = [] → s.store.current ≠ none → (s.received id).head? = s.store.current

/-- A stream with an empty channel and nothing left to send has last sent a response for the current entry. -/
def Streamed (rootCert : Option (Certificate URL)) (s : Feed) (id : Nat) : Prop :=
  ∀ ch e, s.streams id = true → s.channel id = some ch → ch.buffer = [] → s.sending id = none →
    s.store.current = some e → ∃ resp, svidResponse rootCert e = .ok resp ∧ (s.sent id).head? = some resp

/-- A rotation would find the buffer of the subscriber full. -/
def full (s : Feed) (id : Nat) : Bool := (s.channel id).any fun ch => ch.cap ≤ ch.buffer.length

end Feed

/-- A feed together with the subscribers that a rotation has skipped since the last entry that was put into their
    channel. -/
structure Watched where
  feed : Feed
  skipped : Nat → Bool

namespace Watched

def start : Watched := ⟨.start, fun _ => false⟩

def step (rootCert : Option (Certificate URL)) (w : Watched) (ev : FeedEvent) : Watched where
  feed := w.feed.step rootCert ev
  skipped id :=
    match ev with
    | .set _ => w.feed.full id
    | _ => if w.feed.channel id = none then false else w.skipped id

variable {rootCert : Option (Certificate URL)} {w : Watched} {id : Nat}

structure Following (rootCert : Option (Certificate URL)) (w : Watched) : Prop where
  ids : (w.feed.store.subs.map (·.1)).Nodup
  follows : ∀ id, (w.feed.subscriber id).Follows rootCert w.feed.store.current (w.skipped id)

namespace Following

theorem converged (h : w.Following rootCert) (hskip : w.skipped id = false) : w.feed.Converged id :=
  fun ch hch => (h.follows id).converged ch hch hskip

theorem streamed (h : w.Following rootCert) (hskip : w.skipped id = false) : w.feed.Streamed rootCert id := by
  intro ch e hstream hch hnil hsending hcurrent
  refine (h.follows id).answered hstream (Option.ne_none_iff_exists'.mpr ⟨ch, hch⟩) hsending e ?_
  rw [← hcurrent]
  exact h.converged hskip ch hch hnil (Option.ne_none_iff_exists'.mpr ⟨e, hcurrent⟩)

theorem start : Watched.start.Following rootCert where
  ids := List.nodup_nil
  follows id :=
    { slot := fun ch h => by cases h
      offered := fun ch e rest h => by cases h
      converged := fun ch h => by cases h
      pending := fun e h => by cases h
      answered := fun h => by cases h }

theorem set (h : w.Following rootCert) (e : Entry) : (w.step rootCert (.set e)).Following rootCert := by
  refine ⟨Feed.ids_step rootCert h.ids (.set e), fun id => ?_⟩
  have hsub := h.follows id
  have hset := Feed.subscriber_set w.feed e id
  have hchannel : ∀ ch, (w.feed.channel id).map (fun ch => (ch.trySend e).getD ch) = some ch →
      Slot ch ∧ ch.buffer ≠ [] ∧ (w.feed.full id = false → ch.buffer = [e]) := by
    intro ch hch
    obtain ⟨old, hold, rfl⟩ := Option.map_eq_some_iff.mp hch
    have hslot := hsub.slot old hold
    rw [hslot.trySend, Feed.full, hold, Option.any_some]
    split
    · rename_i hfull
      refine ⟨hslot, ?_, fun hroom => absurd hfull (of_decide_eq_false hroom)⟩
      rintro hnil
      rw [hnil, hslot.cap] at hfull
      exact absurd hfull (by decide)
    · exact ⟨⟨hslot.cap, hslot.isOpen, le_rfl⟩, List.cons_ne_nil _ _, fun _ => rfl⟩
  show Subscriber.Follows rootCert (some e) (w.feed.full id) _
  rw [show (w.step rootCert (.set e)).feed.subscriber id = _ from hset]
  refine ⟨fun ch hch => (hchannel ch hch).1, fun ch e' rest hch hroom hbuffer => ?_, fun ch hch _ hnil => ?_, hsub.pending,
    fun hstream hch => hsub.answered hstream fun hnone => hch ?_⟩
  · rw [(hchannel ch hch).2.2 hroom] at hbuffer
    rw [(List.cons.inj hbuffer).1]
  · exact absurd hnil (hchannel ch hch).2.1
  · exact (congrArg (Option.map fun ch : Chan Entry => (ch.trySend e).getD ch) hnone).trans (Option.map_none _)

theorem of_feed (h : w.Following rootCert) {w' : Watched} (hfeed : w'.feed = w.feed)
    (hskipped : ∀ id, w'.skipped id = if w.feed.channel id = none then false else w.skipped id) :
    w'.Following rootCert := by
  refine ⟨hfeed ▸ h.ids, fun id => ?_⟩
  rw [hfeed, hskipped]
  exact (h.follows id).of_flag fun hch => if_neg hch

/-- Where one subscriber changes, the others follow as before. -/
theorem update (h : w.Following rootCert) {w' : Watched} {v : Subscriber} (hids : (w'.feed.store.subs.map (·.1)).Nodup)
    (hcurrent : w'.feed.store.current = w.feed.store.current)
    (hskipped : ∀ id, w'.skipped id = if w.feed.channel id = none then false else w.skipped id)
    (hsub : w'.feed.subscriber = Function.update w.feed.subscriber id v)
    (hv : v.Follows rootCert w.feed.store.current (if w.feed.channel id = none then false else w.skipped id)) :
    w'.Following rootCert := by
  refine ⟨hids, ?_⟩
  rw [hcurrent, hsub]
  simp only [hskipped]
  refine (Function.forall_update_iff _ fun id v => Subscriber.Follows rootCert w.feed.store.current
    (if w.feed.channel id = none then false else w.skipped id) v).mpr ⟨hv, fun id _ => (h.follows id).of_flag fun hch => ?_⟩
  exact if_neg hch

theorem subscribe (h : w.Following rootCert) (id : Nat) (stream : Bool) {w' : Watched}
    (hfeed : w'.feed = w.feed.subscribe id stream)
    (hskipped : ∀ id, w'.skipped id = if w.feed.channel id = none then false else w.skipped id) :
    w'.Following rootCert := by
  cases hch : w.feed.channel id with
  | some ch =>
    refine h.of_feed ?_ hskipped
    rw [hfeed, Feed.subscribe, hch]
  | none =>
    refine h.update (hfeed ▸ Feed.nodup_subscribe h.ids id stream) (hfeed ▸ w.feed.current_subscribe id stream) hskipped
      (hfeed ▸ Feed.subscriber_subscribe hch stream) ?_
    · refine ⟨fun ch' hch' => ?_, fun ch' e rest hch' _ hbuffer => ?_, fun ch' hch' _ hnil hsome => ?_, fun e he => ?_,
        fun _ _ _ e he => ?_⟩
      · cases hch'
        exact ⟨rfl, rfl, Option.length_toList_le⟩
      · cases hch'
        have hlist : w.feed.store.current.toList = e :: rest := hbuffer
        exact Option.mem_toList.mp (hlist ▸ List.mem_cons_self)
      · cases hch'
        exact absurd (Option.toList_eq_nil_iff.mp hnil) hsome
      · cases he
      · cases he

theorem unsubscribe (h : w.Following rootCert) (id : Nat) {w' : Watched} (hfeed : w'.feed = w.feed.unsubscribe id)
    (hskipped : ∀ id, w'.skipped id = if w.feed.channel id = none then false else w.skipped id) :
    w'.Following rootCert := by
  refine h.update (hfeed ▸ Feed.ids_step rootCert h.ids (.unsubscribe id)) (by rw [hfeed]; rfl) hskipped
    (hfeed ▸ Feed.subscriber_unsubscribe h.ids id) ?_
  · refine ⟨fun ch hch => ?_, fun ch _ _ hch => ?_, fun ch hch => ?_, fun e he => ?_, fun _ hch => absurd rfl hch⟩
    · cases hch
    · cases hch
    · cases hch
    · cases he

theorem receive (h : w.Following rootCert) (id : Nat) : (w.step rootCert (.receive id)).Following rootCert := by
  cases htakes : w.feed.takes id with
  | none =>
    refine h.of_feed ?_ fun _ => rfl
    rw [show (w.step rootCert (.receive id)).feed = w.feed.receive id from rfl, Feed.receive, htakes]
  | some r =>
    obtain ⟨e, rest⟩ := r
    obtain ⟨hsending, ch, hch, hrecv⟩ := Feed.takes_eq_some htakes
    obtain ⟨hslot, hnil⟩ := ((h.follows id).slot ch hch).recv hrecv
    refine h.update (Feed.ids_step rootCert h.ids (.receive id)) (w.feed.current_receive id) (fun _ => rfl)
      (Feed.subscriber_receive htakes) ?_
    refine ⟨fun ch' hch' => ?_, fun ch' e' rest' hch' _ hbuffer => ?_, fun ch' _ hskip _ _ => ?_, fun e' he' => ?_,
      fun hstream _ hnone => ?_⟩
    · cases hch'
      exact hslot
    · cases hch'
      exact absurd (hnil.symm.trans hbuffer) (List.cons_ne_nil _ _).symm
    · rw [if_neg (by rw [hch]; exact Option.some_ne_none ch)] at hskip
      exact ((h.follows id).offered ch e rest.buffer hch hskip (Chan.buffer_of_recv hrecv)).symm
    · dsimp only at he' ⊢
      split at he'
      · exact he'
      · cases he'
    · dsimp only [Feed.subscriber] at hstream hnone
      rw [if_pos hstream] at hnone
      cases hnone

theorem send (h : w.Following rootCert) (id : Nat) : (w.step rootCert (.send id)).Following rootCert := by
  have hsent : (w.step rootCert (.send id)).feed = w.feed.send rootCert id := rfl
  cases hsending : w.feed.sending id with
  | none =>
    refine h.of_feed ?_ fun _ => rfl
    rw [hsent, Feed.send, hsending]
  | some e =>
    cases hresp : svidResponse rootCert e with
    | error err =>
      refine h.unsubscribe id ?_ fun _ => rfl
      rw [hsent]
      simp only [Feed.send, hsending, hresp]
    | ok resp =>
      have hsub := (h.follows id).of_flag fun hch => (if_neg hch : (if w.feed.channel id = none then false else _) = _)
      refine h.update (Feed.ids_step rootCert h.ids (.send id)) (w.feed.current_send id) (fun _ => rfl)
        (Feed.subscriber_send hsending hresp) ?_
      refine ⟨hsub.slot, hsub.offered, hsub.converged, fun e' he' => absurd he' (Option.some_ne_none e').symm,
        fun _ _ _ e' he' => ⟨resp, ?_, rfl⟩⟩
      rw [← Option.some.inj ((hsub.pending e hsending).symm.trans he')]
      exact hresp

theorem step (h : w.Following rootCert) (ev : FeedEvent) : (w.step rootCert ev).Following rootCert := by
  cases ev with
  | set e => exact h.set e
  | subscribe id => exact h.subscribe id false rfl fun _ => rfl
  | fetchX509SVID id securityHeader =>
    cases securityHeader with
    | true => exact h.subscribe id true rfl fun _ => rfl
    | false => exact h.of_feed rfl fun _ => rfl
  | unsubscribe id => exact h.unsubscribe id rfl fun _ => rfl
  | receive id => exact h.receive id
  | send id => exact h.send id

end Following

end Watched

/-- At every moment of a run of the store and its subscribers, a subscriber with an empty channel has last received the
    current entry and an idle stream has last sent a response for it, unless a rotation has found the subscriber's buffer
    full, and was skipped, since the last entry that was put into it. -/
theorem subscribers_converge (rootCert : Option (Certificate URL)) (events : List FeedEvent) :
    Always (Watched.step rootCert)
      (fun w => ∀ id, w.skipped id = false → w.feed.Converged id ∧ w.feed.Streamed rootCert id) .start events := by
  intro pre _
  have h : (execute (Watched.step rootCert) .start pre).Following rootCert :=
    execute_inv (fun _ ev h => h.step ev) Watched.Following.start pre
  exact fun id hskip => ⟨h.converged hskip, h.streamed hskip⟩

def rotatedCert (point : Nat) : Certificate URL := ⟨.ecdsa .p256 point, ascii "worker-1", [], -300, 86400⟩

def rotatedEntry (point : Nat) : Entry :=
  ⟨ascii "worker-1", rotatedCert point, ⟨.p256, point⟩, [rotatedCert point], 86400⟩

/-- The second rotation finds the first still in the buffer of the stream. -/
def missedRotation : List FeedEvent :=
  [.fetchX509SVID 1 true, .set (rotatedEntry 1), .set (rotatedEntry 2), .receive 1, .send 1]

theorem subscriber_misses_rotation :
    let run := execute (Feed.step (some (rotatedCert 0))) .start missedRotation
    ¬Always (Feed.step (some (rotatedCert 0)))
        (fun s => ∀ id, s.Converged id ∧ s.Streamed (some (rotatedCert 0)) id) .start missedRotation ∧
      run.store.current = some (rotatedEntry 2) ∧ (run.channel 1).map (·.buffer) = some [] ∧
      run.received 1 = [rotatedEntry 1] ∧ (run.sent 1).map (·.x509SVIDKey) = [⟨.p256, 1⟩] := by
  refine ⟨fun h => ?_, rfl, rfl, rfl, rfl⟩
  have hhead := (h missedRotation List.prefix_rfl 1).1 ⟨1, [], false⟩ rfl rfl (Option.some_ne_none _)
  cases hhead

end Meridian.Workloadapi
