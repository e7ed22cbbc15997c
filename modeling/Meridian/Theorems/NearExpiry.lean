import Meridian.Theorems.Issuance
import Meridian.Theorems.Subscribers

/-! The last sixth of a certificate's lifetime. `GetSVID` compares what is left with a sixth that it computes in floating
    point and cuts to nanoseconds; the TLS callbacks and the streams of the Workload API do not look at the clock. -/

namespace Meridian.Workloadapi
open Lib Url Ca Svid

/-! ### A sixth in floating point -/

theorem nearExpiryFraction_value : nearExpiryFraction.value = (1 - 1 / 2 ^ 54) / 6 := by
  decide +kernel

/-- Up to 2^53 nanoseconds the computed sixth is the exact one, rounded down. -/
theorem scale_nearExpiryFraction {d : Int} (hpos : 0 < d) (hd : d < 2 ^ 53) : scale d nearExpiryFraction = d / 6 := by
  have hpos' : (0 : ℚ) < d := by exact_mod_cast hpos
  have hd' : (d : ℚ) < 2 ^ 53 := by exact_mod_cast hd
  have floor_le : ((d / 6 : ℤ) : ℚ) ≤ d / 6 := by
    rw [le_div_iff₀ (by norm_num)]
    exact_mod_cast (by omega : d / 6 * 6 ≤ d)
  have lt_floor : (d : ℚ) / 6 ≤ (d / 6 : ℤ) + 5 / 6 := by
    have : (d : ℚ) ≤ (d / 6 : ℤ) * 6 + 5 := by exact_mod_cast (by omega : d ≤ d / 6 * 6 + 5)
    linarith
  obtain ⟨x, hx⟩ : ∃ x : ℚ, x = d * ((1 - 1 / 2 ^ 54) / 6) := ⟨_, rfl⟩
  have hxpos : 0 < x := by
    rw [hx]
    exact mul_pos hpos' (by norm_num)
  have hulp : Float64.ulp x ≤ 2 ^ (-2 : ℤ) := by
    refine Float64.ulp_le hxpos.ne' ?_
    rw [abs_of_pos hxpos, hx]
    norm_num at hd' ⊢
    linarith
  have low : ((d / 6 : ℤ) : ℚ) ≤ (Float64.round x).value := by
    obtain ⟨n, hn⟩ := Float64.exists_mul_ulp (x := x) (m := d / 6) (e := 0) (hulp.trans (by norm_num))
    rw [zpow_zero, mul_one] at hn
    rw [hn]
    refine Float64.le_round_value ?_
    rw [← hn, hx]
    norm_num
    linarith
  have high : (Float64.round x).value < (d / 6 : ℤ) + 1 := by
    have error := (abs_le.mp (Float64.round_value_sub_le x)).2
    norm_num at hulp hx
    linarith
  have nonneg : 0 ≤ (Float64.round x).value := low.trans' (by exact_mod_cast Int.ediv_nonneg hpos.le (by norm_num))
  rw [scale, Float64.mul, Float64.ofInt_value (abs_lt.mpr ⟨by linarith, hd⟩), nearExpiryFraction_value, ← hx,
    Float64.toInt, if_pos nonneg]
  exact Int.floor_eq_iff.mpr ⟨low, high⟩

/-! ### Freshness -/

/-- In nanoseconds. -/
def lifetime (c : Certificate URL) : Int := (c.notAfter - c.notBefore) * second

def remaining (c : Certificate URL) (now : Int) : Int := c.notAfter * second - now

/-- At least a sixth of the lifetime is left. -/
def Fresh (c : Certificate URL) (now : Int) : Prop := (lifetime c : ℚ) / 6 ≤ remaining c now

instance (c : Certificate URL) (now : Int) : Decidable (Fresh c now) := inferInstanceAs (Decidable (_ ≤ _))

theorem fresh_iff {c : Certificate URL} {now : Int} : Fresh c now ↔ lifetime c ≤ 6 * remaining c now := by
  rw [Fresh, div_le_iff₀ (by norm_num), mul_comm]
  exact_mod_cast Iff.rfl

/-- What is left does not lie between the sixth that the manager computes and the exact one. Under 2^53 nanoseconds there is
    at most one such value, the exact sixth rounded down. -/
def Resolved (c : Certificate URL) (now : Int) : Prop :=
  (0 < lifetime c → lifetime c < 2 ^ 53 → remaining c now = lifetime c / 6 → 6 ∣ lifetime c) ∧
    (2 ^ 53 ≤ lifetime c →
      scale (sub (c.notAfter * second) (c.notBefore * second)) nearExpiryFraction ≤ sub (c.notAfter * second) now →
      Fresh c now)

/-- What holds of every entry that the manager has issued. -/
def Issued (e : Entry) : Prop := e.expiresAt = e.leaf.notAfter ∧ e.chain.head? = some e.leaf

variable {x : X509} {spiffeID : List UInt8} {e : Entry}

theorem issued_of_issue {sign : Signer} {point : Nat} (h : issue x sign point spiffeID = .ok e) : Issued e := by
  simp only [issue] at h
  split at h
  · cases h
  · split at h
    · cases h
    · split at h
      · cases h
      · cases h
      · cases h
        exact ⟨rfl, rfl⟩

theorem nearExpiry_eq_false_iff {now : Int} (he : Issued e) : nearExpiry now (some e) = false ↔
      0 < sub (e.leaf.notAfter * second) (e.leaf.notBefore * second) ∧
      scale (sub (e.leaf.notAfter * second) (e.leaf.notBefore * second)) nearExpiryFraction ≤
        sub (e.leaf.notAfter * second) now := by
  simp only [nearExpiry, he.1]
  split
  · simp only [Bool.true_eq_false, false_iff]
    omega
  · simp only [decide_eq_false_iff_not]
    omega

theorem fresh_of_not_nearExpiry_iff (now : Int) (he : Issued e) :
    (nearExpiry now (some e) = false → Fresh e.leaf now) ↔ Resolved e.leaf now := by
  have htotal : sub (e.leaf.notAfter * second) (e.leaf.notBefore * second) =
      max (-2 ^ 63) (min (lifetime e.leaf) (2 ^ 63 - 1)) := by
    rw [sub, lifetime, sub_mul]
  have hleft : sub (e.leaf.notAfter * second) now = max (-2 ^ 63) (min (remaining e.leaf now) (2 ^ 63 - 1)) := rfl
  rw [nearExpiry_eq_false_iff he, Resolved]
  by_cases hlong : 2 ^ 53 ≤ lifetime e.leaf
  · have hpos : 0 < sub (e.leaf.notAfter * second) (e.leaf.notBefore * second) := by omega
    have hshort : ¬lifetime e.leaf < 2 ^ 53 := by omega
    simp only [hpos, true_and, hlong, hshort, false_implies, implies_true, forall_const]
  · simp only [hlong, false_implies, and_true, fresh_iff]
    by_cases hpos : 0 < lifetime e.leaf
    · have hexact : sub (e.leaf.notAfter * second) (e.leaf.notBefore * second) = lifetime e.leaf := by omega
      rw [hexact, scale_nearExpiryFraction hpos (by omega)]
      omega
    · omega

/-! ### What the events so far have left

The past events of a run, the newest first, tell which entry a reader has in its hands. -/

abbrev IssuedEntry := { e : Entry // Issued e }

/-- What an answer of the signer puts into the store: an entry, if the loop waits for the answer. -/
def answered (phase : Phase) (result : Except IssueError Entry) : Option Entry :=
  match phase with
  | .issuing _ => result.toOption
  | _ => none

theorem store_issued (m : Manager) (now : Int) (result : Except IssueError Entry) :
    (m.issued now result).store = (answered m.phase result).elim m.store m.store.set := by
  obtain ⟨phase, store⟩ := m
  cases phase with
  | issuing entry => cases entry <;> cases result <;> rfl
  | _ => cases result <;> rfl

theorem issued_of_answered {phase : Phase} {sign : Signer} {point : Nat}
    (h : answered phase (Svid.issue x sign point spiffeID) = some e) : Issued e := by
  cases phase with
  | issuing entry =>
    cases hissue : Svid.issue x sign point spiffeID with
    | error err =>
      rw [hissue] at h
      cases h
    | ok e' =>
      rw [hissue] at h
      cases h
      exact issued_of_issue hissue
  | _ => cases h

section
variable (x : X509) (rootCert : Option (Certificate URL)) (spiffeID : List UInt8)

/-- Where the rotation loop is. -/
def rotation : List Event → Phase
  | [] => .issuing none
  | .issue sign point now :: past => (Manager.issued ⟨rotation past, .new⟩ now (Svid.issue x sign point spiffeID)).phase
  | .timer now :: past => (Manager.timer ⟨rotation past, .new⟩ now).phase
  | .force :: past => (Manager.force ⟨rotation past, .new⟩).phase
  | .cancel :: past => (Manager.cancel ⟨rotation past, .new⟩).phase
  | _ :: past => rotation past

/-- The entry of an issue, if it is successful. -/
def issuance (past : List Event) (sign : Signer) (point : Nat) : Option IssuedEntry :=
  (answered (rotation x spiffeID past) (Svid.issue x sign point spiffeID)).pmap Subtype.mk fun _ => issued_of_answered

/-- The entry of the last successful issue. -/
def lastIssued : List Event → Option IssuedEntry
  | [] => none
  | .issue sign point _ :: past => (issuance x spiffeID past sign point).or (lastIssued past)
  | _ :: past => lastIssued past

/-- The getter of a call that has not returned, and the entry of the last successful issue before the call. -/
def called (id : Nat) : List Event → Option (Getter × IssuedEntry)
  | [] => none
  | .call id' getter :: past =>
    if id' = id then (called id past).or ((lastIssued x spiffeID past).map (getter, ·)) else called id past
  | .answer id' _ :: past => if id' = id then none else called id past
  | _ :: past => called id past

/-- An open stream: the entry in its slot, and the one that it has taken out and not sent. -/
structure Stream where
  slot : Option IssuedEntry
  taken : Option IssuedEntry

def Stream.receive : Stream → Stream
  | ⟨slot, none⟩ => ⟨none, slot⟩
  | st => st

/-- A response cannot be made without a root certificate, which ends the stream. -/
def Stream.send (rootCert : Option (Certificate URL)) : Stream → Option Stream
  | ⟨slot, none⟩ => some ⟨slot, none⟩
  | ⟨slot, some _⟩ => rootCert.map fun _ => ⟨slot, none⟩

/-- The slot of a stream is filled when the stream is opened, from the last successful issue, and by every successful
    issue that finds it empty. -/
def stream (id : Nat) : List Event → Option Stream
  | [] => none
  | .issue sign point _ :: past =>
    (stream id past).map fun st => { st with slot := st.slot.or (issuance x spiffeID past sign point) }
  | .fetch id' true :: past =>
    if id' = id then (stream id past).or (some ⟨lastIssued x spiffeID past, none⟩) else stream id past
  | .receive id' :: past => if id' = id then (stream id past).map Stream.receive else stream id past
  | .send id' _ :: past => if id' = id then (stream id past).bind (Stream.send rootCert) else stream id past
  | .hangUp id' :: past => if id' = id then none else stream id past
  | _ :: past => stream id past

/-- The condition on the past of an event. `GetSVID` asks the clock: only its comparison must not be off. A TLS callback has
    to return while the leaf of the last successful issue before its call has a sixth left, and a stream has to send while
    the leaf of the issue that filled its slot has. -/
def InTime (past : List Event) : Event → Prop
  | .answer id now =>
    ∀ getter e, called x spiffeID id past = some (getter, e) →
      if getter = .getSVID then Resolved e.1.leaf now else Fresh e.1.leaf now
  | .send id now =>
    ∀ slot e, stream x rootCert spiffeID id past = some ⟨slot, some e⟩ → rootCert ≠ none → Fresh e.1.leaf now
  | _ => True

end

/-! ### The state of the system -/

/-- The channel of a stream, and what it is sending. -/
structure Subscriber.Shows (v : Subscriber) (st : Option Stream) : Prop where
  channel : v.channel = st.map fun st => ⟨1, (st.slot.map (·.1)).toList, false⟩
  sending : v.sending = st.bind fun st => st.taken.map (·.1)
  stream : st ≠ none → v.stream = true

/-- `Set` puts the entry into an empty slot and leaves a full one as it is. -/
theorem Subscriber.Shows.set {v : Subscriber} {st : Option Stream} (h : v.Shows st) (e : IssuedEntry) :
    Subscriber.Shows { v with channel := v.channel.map fun ch => (ch.trySend e.1).getD ch }
      (st.map fun st => { st with slot := st.slot.or (some e) }) := by
  obtain ⟨hchannel, hsending, hstream⟩ := h
  cases st with
  | none => exact ⟨by rw [hchannel]; rfl, hsending, fun hne => absurd rfl hne⟩
  | some st =>
    refine ⟨?_, hsending, fun _ => hstream (Option.some_ne_none st)⟩
    rw [hchannel]
    obtain ⟨slot, taken⟩ := st
    cases slot <;> rfl

theorem Subscriber.Shows.update {feed feed' : Feed} {st : Nat → Option Stream} {id : Nat} {v : Subscriber}
    {f : Option Stream → Option Stream} (h : ∀ id, (feed.subscriber id).Shows (st id))
    (hfeed : feed'.subscriber = Function.update feed.subscriber id v) (hv : v.Shows (f (st id))) (id' : Nat) :
    (feed'.subscriber id').Shows (if id = id' then f (st id') else st id') := by
  rw [hfeed]
  by_cases hid : id = id'
  · subst hid
    rw [Function.update_self, if_pos rfl]
    exact hv
  · rw [Function.update_of_ne (Ne.symm hid), if_neg hid]
    exact h id'

theorem Subscriber.Shows.keep {feed : Feed} {st : Nat → Option Stream} {id : Nat} {f : Option Stream → Option Stream}
    (h : ∀ id, (feed.subscriber id).Shows (st id)) (hf : f (st id) = st id) :
    ∀ id', (feed.subscriber id').Shows (if id = id' then f (st id') else st id') :=
  update h (Function.update_eq_self id _).symm (hf.symm ▸ h id)

/-- The system holds what the past events have left. -/
structure Follows (x : X509) (rootCert : Option (Certificate URL)) (spiffeID : List UInt8) (s : System)
    (past : List Event) : Prop where
  phase : s.phase = rotation x spiffeID past
  current : s.feed.store.current = (lastIssued x spiffeID past).map (·.1)
  calls : ∀ id, s.calls id = (called x spiffeID id past).map fun c => (c.1, c.2.1)
  ids : (s.feed.store.subs.map (·.1)).Nodup
  streams : ∀ id, (s.feed.subscriber id).Shows (stream x rootCert spiffeID id past)

/-- The loop does not read the store. -/
theorem phase_congr {m m' : Manager} (h : m.phase = m'.phase) :
    (∀ now result, (m.issued now result).phase = (m'.issued now result).phase) ∧
      (∀ now, (m.timer now).phase = (m'.timer now).phase) ∧ m.force.phase = m'.force.phase ∧
      m.cancel.phase = m'.cancel.phase := by
  obtain ⟨phase, store⟩ := m
  obtain ⟨phase', store'⟩ := m'
  cases h
  refine ⟨fun now result => ?_, fun now => ?_, ?_, ?_⟩ <;> cases phase <;> try rfl
  rename_i entry
  cases entry <;> cases result <;> rfl

namespace Follows

variable {x : X509} {rootCert : Option (Certificate URL)} {spiffeID : List UInt8} {s : System} {past : List Event}

theorem start : Follows x rootCert spiffeID .start [] :=
  ⟨rfl, rfl, fun _ => rfl, List.nodup_nil, fun _ => ⟨rfl, rfl, fun h => absurd rfl h⟩⟩

section
variable (h : Follows x rootCert spiffeID s past)
include h

theorem issue (sign : Signer) (point : Nat) (now : Int) :
    Follows x rootCert spiffeID (s.step x rootCert spiffeID (.issue sign point now)) (.issue sign point now :: past) := by
  have hstore : (s.manager.issued now (Svid.issue x sign point spiffeID)).store =
      ((issuance x spiffeID past sign point).map (·.1)).elim s.feed.store s.feed.store.set := by
    rw [store_issued, show s.manager.phase = _ from h.phase, issuance, Option.map_pmap, Option.pmap_eq_map, Option.map_id']
    rfl
  have hphase : (s.manager.issued now (Svid.issue x sign point spiffeID)).phase = _ :=
    (phase_congr (show s.manager.phase = (Manager.mk _ .new).phase from h.phase)).1 now _
  simp only [System.step, System.withManager, hstore, hphase]
  cases hnew : issuance x spiffeID past sign point with
  | none =>
    refine ⟨rfl, ?_, h.calls, h.ids, fun id => ?_⟩
    · rw [lastIssued, hnew, Option.none_or]
      exact h.current
    · rw [stream, hnew]
      simp only [Option.or_none, Option.map_id']
      exact h.streams id
  | some e =>
    refine ⟨rfl, ?_, h.calls, Feed.ids_step rootCert h.ids (.set e.1), fun id => ?_⟩
    · rw [lastIssued, hnew, Option.some_or]
      rfl
    · rw [stream, hnew]
      exact Feed.subscriber_set s.feed e.1 id ▸ (h.streams id).set e

/-- The loop goes on without a new entry. -/
theorem rotates {m : Manager} {e : Event} (hstore : m.store = s.feed.store)
    (hphase : m.phase = rotation x spiffeID (e :: past))
    (hlast : lastIssued x spiffeID (e :: past) = lastIssued x spiffeID past)
    (hcalls : ∀ id, called x spiffeID id (e :: past) = called x spiffeID id past)
    (hstreams : ∀ id, stream x rootCert spiffeID id (e :: past) = stream x rootCert spiffeID id past) :
    Follows x rootCert spiffeID (s.withManager m) (e :: past) := by
  rw [System.withManager, hstore]
  exact ⟨hphase, hlast ▸ h.current, fun id => hcalls id ▸ h.calls id, h.ids, fun id => hstreams id ▸ h.streams id⟩

theorem fetch (id : Nat) (securityHeader : Bool) :
    Follows x rootCert spiffeID (s.step x rootCert spiffeID (.fetch id securityHeader))
      (.fetch id securityHeader :: past) := by
  cases securityHeader with
  | false => exact ⟨h.phase, h.current, h.calls, h.ids, h.streams⟩
  | true =>
    have hchannel := (h.streams id).channel
    cases hch : s.feed.channel id with
    | some ch =>
      obtain ⟨st, hst, -⟩ := Option.map_eq_some_iff.mp (hchannel.symm.trans hch)
      have hsame : s.step x rootCert spiffeID (.fetch id true) = s := by
        simp [System.step, Feed.step, Feed.subscribe, hch]
      rw [hsame]
      exact ⟨h.phase, h.current, h.calls, h.ids, .keep (f := fun st => st.or _) h.streams (by rw [hst, Option.some_or])⟩
    | none =>
      refine ⟨h.phase, (s.feed.current_subscribe id true).trans h.current, h.calls, Feed.nodup_subscribe h.ids id true,
        .update (f := fun st => st.or _) h.streams (Feed.subscriber_subscribe hch true) ?_⟩
      rw [Option.map_eq_none_iff.mp (hchannel.symm.trans hch), Option.none_or, h.current]
      exact ⟨rfl, rfl, fun _ => rfl⟩

theorem receive (id : Nat) :
    Follows x rootCert spiffeID (s.step x rootCert spiffeID (.receive id)) (.receive id :: past) := by
  obtain ⟨hchannel, hsending, hstream⟩ := h.streams id
  change s.feed.channel id = _ at hchannel
  change s.feed.sending id = _ at hsending
  have hkeep (htakes : s.feed.takes id = none)
      (hst : (stream x rootCert spiffeID id past).map Stream.receive = stream x rootCert spiffeID id past) :
      Follows x rootCert spiffeID (s.step x rootCert spiffeID (.receive id)) (.receive id :: past) := by
    have hsame : s.step x rootCert spiffeID (.receive id) = s := by simp [System.step, Feed.receive, htakes]
    rw [hsame]
    exact ⟨h.phase, h.current, h.calls, h.ids, .keep (f := Option.map Stream.receive) h.streams hst⟩
  cases hst : stream x rootCert spiffeID id past with
  | none =>
    rw [hst] at hchannel hkeep
    exact hkeep (by simp [Feed.takes, hchannel]) rfl
  | some st =>
    obtain ⟨slot, taken⟩ := st
    rw [hst] at hchannel hsending hkeep
    cases taken with
    | some e => exact hkeep (by simp [Feed.takes, hsending]) rfl
    | none =>
      cases slot with
      | none => exact hkeep (by simp [Feed.takes, hsending, hchannel, Chan.recv]) rfl
      | some e =>
        have htakes : s.feed.takes id = some (e.1, ⟨1, [], false⟩) := by
          simp [Feed.takes, hsending, hchannel, Chan.recv]
        have hopen := hstream (hst ▸ Option.some_ne_none _)
        refine ⟨h.phase, (s.feed.current_receive id).trans h.current, h.calls, Feed.ids_step rootCert h.ids (.receive id),
          .update (f := Option.map Stream.receive) h.streams (Feed.subscriber_receive htakes) ?_⟩
        rw [hst]
        exact ⟨rfl, if_pos hopen, fun _ => hopen⟩

theorem send (id : Nat) (now : Int) :
    Follows x rootCert spiffeID (s.step x rootCert spiffeID (.send id now)) (.send id now :: past) := by
  obtain ⟨hchannel, hsending, hstream⟩ := h.streams id
  change s.feed.sending id = _ at hsending
  have hkeep (hnone : s.feed.sending id = none)
      (hst : (stream x rootCert spiffeID id past).bind (Stream.send rootCert) = stream x rootCert spiffeID id past) :
      Follows x rootCert spiffeID (s.step x rootCert spiffeID (.send id now)) (.send id now :: past) := by
    have hsame : s.step x rootCert spiffeID (.send id now) = s := by simp [System.step, Feed.send, hnone]
    rw [hsame]
    exact ⟨h.phase, h.current, h.calls, h.ids, .keep (f := (·.bind (Stream.send rootCert))) h.streams hst⟩
  cases hst : stream x rootCert spiffeID id past with
  | none =>
    rw [hst] at hsending hkeep
    exact hkeep hsending rfl
  | some st =>
    obtain ⟨slot, taken⟩ := st
    rw [hst] at hchannel hsending hkeep
    cases taken with
    | none => exact hkeep hsending rfl
    | some e =>
      cases hresp : svidResponse rootCert e.1 with
      | error err =>
        have hend : s.feed.send rootCert id = s.feed.unsubscribe id := by simp [Feed.send, hsending, hresp]
        refine ⟨h.phase, (s.feed.current_send id).trans h.current, h.calls, Feed.ids_step rootCert h.ids (.send id),
          .update (f := (·.bind (Stream.send rootCert))) h.streams (hend ▸ Feed.subscriber_unsubscribe h.ids id) ?_⟩
        cases rootCert with
        | none =>
          rw [hst]
          exact ⟨rfl, rfl, fun hne => absurd rfl hne⟩
        | some root => cases hresp
      | ok resp =>
        refine ⟨h.phase, (s.feed.current_send id).trans h.current, h.calls, Feed.ids_step rootCert h.ids (.send id),
          .update (f := (·.bind (Stream.send rootCert))) h.streams (Feed.subscriber_send hsending hresp) ?_⟩
        cases rootCert with
        | none => cases hresp
        | some root =>
          rw [hst]
          exact ⟨hchannel, rfl, fun _ => hstream (hst ▸ Option.some_ne_none _)⟩

theorem call (id : Nat) (getter : Getter) : Follows x rootCert spiffeID (s.call id getter) (.call id getter :: past) := by
  have hsame : s.call id getter = { s with calls := (s.call id getter).calls } := by
    unfold System.call
    split <;> rfl
  rw [hsame]
  refine ⟨h.phase, h.current, fun id' => ?_, h.ids, h.streams⟩
  have hcall := h.calls id'
  unfold System.call
  rw [called]
  by_cases hid : id = id'
  · subst hid
    rw [if_pos rfl, h.current, hcall]
    cases hc : called x spiffeID id past <;> cases lastIssued x spiffeID past <;> simp [hcall, hc]
  · rw [if_neg hid, ← hcall]
    split
    · exact Table.put_of_ne hid
    · rfl

theorem step (e : Event) : Follows x rootCert spiffeID (s.step x rootCert spiffeID e) (e :: past) := by
  have hphase := phase_congr (show s.manager.phase = (Manager.mk _ .new).phase from h.phase)
  cases e with
  | issue sign point now => exact h.issue sign point now
  | timer now => exact h.rotates (s.manager.store_timer now) (hphase.2.1 now) rfl (fun _ => rfl) fun _ => rfl
  | force => exact h.rotates s.manager.store_force hphase.2.2.1 rfl (fun _ => rfl) fun _ => rfl
  | cancel => exact h.rotates s.manager.store_cancel hphase.2.2.2 rfl (fun _ => rfl) fun _ => rfl
  | call id getter => exact h.call id getter
  | answer id now =>
    refine ⟨h.phase, h.current, fun id' => ?_, h.ids, h.streams⟩
    rw [called, apply_ite (Option.map _), ← h.calls id']
    exact Table.write_apply s.calls (id, none) id'
  | fetch id securityHeader => exact h.fetch id securityHeader
  | receive id => exact h.receive id
  | send id now => exact h.send id now
  | hangUp id =>
    exact ⟨h.phase, h.current, h.calls, Feed.ids_step rootCert h.ids (.unsubscribe id),
      .update (f := fun _ => none) h.streams (Feed.subscriber_unsubscribe h.ids id) ⟨rfl, rfl, fun hne => absurd rfl hne⟩⟩

end

end Follows

/-! ### What is handed out -/

def System.HandsOutFresh (rootCert : Option (Certificate URL)) (spiffeID : List UInt8) (s : System) (e : Event) : Prop :=
  ∀ leaf now, s.handedOut rootCert spiffeID e = some (leaf, now) → Fresh leaf now

/-- What an event hands out is fresh exactly if the event is in time. -/
theorem Follows.handsOutFresh_iff {rootCert : Option (Certificate URL)} {s : System} {past : List Event}
    (h : Follows x rootCert spiffeID s past) (e : Event) :
    s.HandsOutFresh rootCert spiffeID e ↔ InTime x rootCert spiffeID past e := by
  cases e with
  | answer id now =>
    simp only [System.HandsOutFresh, System.handedOut, InTime, h.calls id]
    cases called x spiffeID id past with
    | none => simp
    | some call =>
      obtain ⟨getter, e, he⟩ := call
      cases getter with
      | getSVID =>
        have hiff := fresh_of_not_nearExpiry_iff now he
        cases hnear : nearExpiry now (some e) <;> simp [getSVID, hnear, Except.toOption, ← hiff]
      | getCertificate | getClientCertificate => simp [getCert, Except.toOption]
  | send id now =>
    have hsending : s.feed.sending id = _ := (h.streams id).sending
    simp only [System.HandsOutFresh, System.handedOut, InTime, hsending]
    cases stream x rootCert spiffeID id past with
    | none => simp
    | some st =>
      obtain ⟨slot, taken⟩ := st
      cases taken with
      | none => simp
      | some e => cases rootCert <;> simp [svidResponse, Except.toOption, e.2.2]
  | _ => exact ⟨fun _ => trivial, fun _ _ _ hnone => by cases hnone⟩

/-- A run hands out certificates with a sixth of their lifetime left only, exactly if every reader returns in time after the
    issue that its entry comes from. -/
theorem handed_out_fresh_iff (x : X509) (rootCert : Option (Certificate URL)) (spiffeID : List UInt8) (events : List Event) :
    Steps (System.step x rootCert spiffeID) (System.HandsOutFresh rootCert spiffeID) .start events ↔
      Steps (fun past e => e :: past) (InTime x rootCert spiffeID) [] events :=
  steps_rel (R := Follows x rootCert spiffeID) (fun _ _ e h => h.step e) (fun _ _ e h => h.handsOutFresh_iff e)
    Follows.start events

/-- The signer fails when the first SVID is to be rotated. 6400 of its 86700 seconds before it expires, a TLS callback and a
    new stream still hand it out. -/
theorem failed_rotation_served :
    let spiffeID := ascii "spiffe://cluster.local/default/svc-a"
    let leaf := Rest.leafFor spiffeID (Rest.clusterURL (ascii "/default/svc-a") [])
    let rootCert := some Rest.clusterAuthority.interCert
    let now := 80000 * second
    let s := execute (System.step Rest.hostX509 rootCert spiffeID) .start
      [.issue (fun _ _ => .ok [leaf]) 3 0, .timer (57600 * second), .issue (fun _ _ => .error .post) 4 (57600 * second),
        .call 0 .getCertificate, .fetch 1 true, .receive 1]
    s.handedOut rootCert spiffeID (.answer 0 now) = some (leaf, now) ∧
      s.handedOut rootCert spiffeID (.send 1 now) = some (leaf, now) ∧ ¬Fresh leaf now := by
  decide +kernel

end Meridian.Workloadapi
