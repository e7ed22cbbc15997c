import Meridian.Control.ControlPlane
import Meridian.Theorems.LastKnownGood
import Meridian.Theorems.LostUpdate
import Meridian.Theorems.WireCodec

/-! The control plane and an agent that connects to it again and again. Whatever happened before, on streams broken off
    anywhere: once a stream has nothing more to bring and its last responses were accepted, the agent has applied what is
    in the store. -/

namespace Meridian.Xds
open Lib Wire Cc2

/-! ### Decoding a listing -/

theorem decodeResources_eq_ok {ρ : Type} {decode : AnyMsg → Except Cc2Error ρ} {err : Nat → Cc2Error → PushError}
    {resources : List AnyMsg} {out : List ρ} (h : decodeResources decode err resources = .ok out) :
    out = resources.filterMap (fun res => (decode res).toOption) ∧ ∀ res ∈ resources, ∃ r, decode res = .ok r := by
  refine rangeLoop_inv (I := fun done out => out = done.filterMap (fun res => (decode res).toOption) ∧
    ∀ res ∈ done, ∃ r, decode res = .ok r) ?_ [] ⟨rfl, by simp⟩ h
  rintro done res i s s' ⟨rfl, hdone⟩ hstep
  cases hres : decode res with
  | error e =>
    rw [hres] at hstep
    cases hstep
  | ok r =>
    rw [hres] at hstep
    cases hstep
    refine ⟨by simp [hres, Except.toOption], List.forall_mem_append.mpr ⟨hdone, ?_⟩⟩
    simp [hres]

/-- A permuted listing, encoded and decoded, is the listing up to its order. -/
theorem decodeResources_perm {ρ : Type} {decode : AnyMsg → Except Cc2Error ρ} {encode : ρ → AnyMsg}
    {err : Nat → Cc2Error → PushError} {resources : List AnyMsg} {listing out : List ρ}
    (hround : ∀ r r', decode (encode r) = .ok r' → r' = r) (hperm : resources.Perm (listing.map encode))
    (h : decodeResources decode err resources = .ok out) : out.Perm listing := by
  obtain ⟨rfl, hall⟩ := decodeResources_eq_ok h
  have hback : (listing.map encode).filterMap (fun res => (decode res).toOption) = listing := by
    rw [List.filterMap_map]
    have hsome : ∀ r ∈ listing, ((fun res => (decode res).toOption) ∘ encode) r = some r := by
      intro r hr
      obtain ⟨r', hr'⟩ := hall _ (hperm.mem_iff.mpr (List.mem_map_of_mem hr))
      rw [Function.comp, hr', hround r r' hr']
      rfl
    rw [List.filterMap_congr hsome, List.filterMap_some]
  rw [← hback]
  exact hperm.filterMap _

theorem eq_of_decodePolicyRule {r r' : PolicyRule} (h : decodePolicyRule (encodePolicyRule r) = .ok r') : r' = r := by
  have hspec := decodeMembers_policySpec
    ⟨r.key.srcIdentity, r.key.dstIdentity, r.key.dstPort, r.key.protocol, r.key.direction, r.verdict.action,
      r.verdict.flags⟩
  rw [decodePolicyRule, decodeSpec, encodePolicyRule, openEnvelope_encode] at h
  simp only [strictDecode_obj hspec] at h
  split at h
  · cases h
  · split at h
    · cases h
    · exact (Except.ok.inj h).symm

theorem eq_of_decodeIdentity {i i' : Identity} (h : decodeIdentity (encodeIdentity i) = .ok i') : i' = i := by
  rw [decodeIdentity_encodeIdentity] at h
  exact (Except.ok.inj h).symm

/-! ### The last answers -/

/-- The last answer on a type. -/
def lastAnswer (t : String) (answers : List Answer) : Option Answer := answers.reverse.find? fun x => x.resp.typeUrl = t

theorem mem_of_lastAnswer {t : String} {answers : List Answer} {x : Answer} (h : lastAnswer t answers = some x) :
    x ∈ answers :=
  List.mem_reverse.mp (List.mem_of_find?_eq_some h)

theorem lastAccepted_of_lastAnswer {t : String} {answers : List Answer} {x : Answer} (h : lastAnswer t answers = some x)
    (hx : x.accepted = true) : lastAccepted t answers = some x := by
  rw [lastAccepted, List.getLast?_eq_head?_reverse, ← List.filter_reverse, List.head?_filter]
  unfold lastAnswer at h
  generalize answers.reverse = l at h
  induction l with
  | nil => cases h
  | cons y rest ih =>
    rw [List.find?_cons] at h ⊢
    by_cases hy : y.resp.typeUrl = t
    · simp only [hy, decide_true, Option.some.injEq] at h
      subst h
      simp [hy, hx]
    · simp only [hy, decide_false] at h
      simpa [hy] using ih h

/-- Where all answers went out and one of them was an ACK, the announced part has every ACK. -/
theorem acceptedIdentities_announcedPart (old : List Answer) {new : List Answer} (hsent : ∀ x ∈ new, x.sent = true)
    (hack : ∃ x ∈ new, x.accepted = true) :
    acceptedIdentities (announcedPart (old ++ new)) = acceptedIdentities (old ++ new) := by
  induction new using List.reverseRecOn with
  | nil =>
    obtain ⟨x, hx, -⟩ := hack
    cases hx
  | append_singleton new y ih =>
    obtain ⟨hnew, hy⟩ := List.forall_mem_append.mp hsent
    rw [← List.append_assoc, announcedPart]
    by_cases haccepted : y.accepted = true
    · rw [List.rdropWhile_concat_neg _ _ _ (by simp [Answer.announced, haccepted, hy y List.mem_cons_self])]
    · rw [List.rdropWhile_concat_pos _ _ _ (by simp [Answer.announced, haccepted]),
        acceptedIdentities_snoc_nack _ (Bool.not_eq_true _ ▸ haccepted)]
      refine ih hnew ?_
      obtain ⟨x, hx, hxa⟩ := hack
      rcases List.mem_append.mp hx with hx | hx
      · exact ⟨x, hx, hxa⟩
      · rw [List.mem_singleton.mp hx] at hxa
        exact absurd hxa haccepted

end Meridian.Xds

namespace Meridian.Ads
open Lib Wire Cc2 Xds Datapath Proxy Meridian.Store

/-! ### The control plane's steps -/

/-- A stream stays the agent's: what was sent stays sent, and what was subscribed stays subscribed. -/
structure System.Advances (s s' : System) : Prop where
  without : s.handler = none → s'.handler = none
  same : ∀ h, s.handler = some h → ∃ h', s'.handler = some h' ∧ h.sent <+: h'.sent ∧
    ∀ t, h.server.subscribed t = true → h'.server.subscribed t = true

namespace System

variable {s s' : System}

theorem Advances.of_eq (h : s'.handler = s.handler) : Advances s s' :=
  ⟨fun hs => h.trans hs, fun hd hs => ⟨hd, h.trans hs, List.prefix_rfl, fun _ hsub => hsub⟩⟩

theorem Advances.next {hd hd' : Handler} (hs : s.handler = some hd) (hs' : s'.handler = some hd')
    (hsent : hd.sent <+: hd'.sent) (hsub : ∀ t, hd.server.subscribed t = true → hd'.server.subscribed t = true) :
    Advances s s' := by
  refine ⟨fun hnone => ?_, fun h hh => ?_⟩
  · rw [hs] at hnone
    cases hnone
  · rw [hs] at hh
    cases hh
    exact ⟨hd', hs', hsent, hsub⟩

theorem onRequest_subscribed (h : Handler) (req : DiscoveryRequest) {t : String} (hsub : h.server.subscribed t = true) :
    (h.onRequest req).server.subscribed t = true := by
  rcases onRequest_cases h req with ⟨state, heq⟩ | ⟨state, heq⟩ <;> rw [heq]
  · dsimp only
    by_cases ht : t = req.typeUrl
    · rw [ht, Function.update_self]
    · rwa [Function.update_of_ne ht]
  · exact hsub

theorem onRequest_sent (h : Handler) (req : DiscoveryRequest) : (h.onRequest req).sent = h.sent := by
  rcases onRequest_cases h req with ⟨state, heq⟩ | ⟨state, heq⟩ <;> rw [heq]

theorem step_advances (s : System) {e : Event} (he : e ≠ .connect) : Advances s (s.step e) := by
  unfold System.step
  split
  · exact .of_eq rfl
  cases e with
  | store e =>
    dsimp only [System.store]
    split
    · split
      · exact .of_eq rfl
      · exact .of_eq rfl
    · exact .of_eq rfl
  | connect => exact absurd rfl he
  | request req =>
    dsimp only [System.request]
    split
    · exact .of_eq rfl
    · rename_i hd hhd
      split
      · exact .next hhd rfl (onRequest_sent hd req ▸ List.prefix_rfl) fun t => onRequest_subscribed hd req
      · exact .of_eq rfl
  | wake =>
    dsimp only [System.wake]
    split
    · exact .of_eq rfl
    · rename_i hd hhd
      split
      · split
        · exact .of_eq rfl
        · exact .next hhd rfl List.prefix_rfl fun _ h => h
        · exact .next hhd rfl List.prefix_rfl fun _ h => h
      · exact .of_eq rfl
  | read policies identities =>
    dsimp only [System.read]
    split
    · exact .of_eq rfl
    · rename_i hd hhd
      split
      · exact .next hhd rfl List.prefix_rfl fun _ h => h
      · split
        · exact .next hhd rfl List.prefix_rfl fun _ h => h
        · split
          · exact .of_eq rfl
          · split
            · exact .next hhd rfl List.prefix_rfl fun _ h => h
            · exact .next hhd rfl List.prefix_rfl fun _ h => h
      · exact .of_eq rfl
  | send fails =>
    dsimp only [System.send]
    split
    · exact .of_eq rfl
    · rename_i hd hhd
      split
      · split
        · exact .next hhd rfl List.prefix_rfl fun _ h => h
        · exact .next hhd rfl (List.prefix_append _ _) fun _ h => h
      · exact .of_eq rfl
  | done =>
    dsimp only [System.done]
    split
    · exact .of_eq rfl
    · rename_i hd hhd
      split
      · split
        · exact .of_eq rfl
        · exact .next hhd rfl List.prefix_rfl fun _ h => h
      · exact .next hhd rfl List.prefix_rfl fun _ h => h
      · exact .of_eq rfl
  | recvError =>
    dsimp only [System.recvError]
    split
    · exact .of_eq rfl
    · rename_i hd hhd
      split
      · exact .next hhd rfl List.prefix_rfl fun _ h => h
      · exact .of_eq rfl

theorem connect_cases (s : System) : s.connect = s ∨
    s.handler = none ∧ ∃ w, s.connect = ⟨s.memory.watch, some ⟨some w, .start, .select, []⟩⟩ := by
  unfold System.connect
  split
  · rename_i hguard
    exact .inr ⟨Option.isNone_iff_eq_none.mp (Bool.and_eq_true_iff.mp hguard).1, _, rfl⟩
  · exact .inl rfl

end System

/-! ### The invariant -/

namespace Mesh

def sent (m : Mesh) : List DiscoveryResponse := (m.control.handler.map (·.sent)).getD []

/-- The subscription to a type is under way, or was taken. -/
def Asked (m : Mesh) (t : String) : Prop :=
  ⟨t, "", "", none⟩ ∈ m.requests ∨ ∃ h, m.control.handler = some h ∧ h.server.subscribed t = true

/-- What the agent's loop has done about a type. -/
def AskedIn (m : Mesh) (t : String) : Phase → Prop
  | .subscribing todo => t ∈ todo ∨ m.Asked t
  | .receiving _ => m.Asked t
  | _ => True

/-- The answers on the stream are to the responses received on it, in their order, and all went out. -/
structure Linked (m : Mesh) : Prop where
  tracked : m.control.Tracked
  held : m.agent.Held
  unlinked : m.agent.streaming = false → m.control.handler = none
  bound : m.received ≤ m.sent.length
  answers : ∃ old new, m.agent.answers = old ++ new ∧ new.map (·.resp) = m.sent.take m.received ∧ ∀ x ∈ new, x.sent = true
  asked : ∀ t ∈ subscribeTypes, m.AskedIn t m.agent.phase

variable {m : Mesh}

theorem Linked.hangUp (h : Linked m) {a : Agent} (held : a.Held) (hphase : a.streaming = false) :
    Linked ⟨{ m.control with handler := none }, a, [], 0⟩ := by
  refine ⟨⟨h.tracked.memory, fun _ hnone => (by cases hnone)⟩, held, fun _ => rfl, Nat.zero_le _,
    ⟨a.answers, [], by simp, rfl, by simp⟩, fun t _ => ?_⟩
  unfold Agent.streaming at hphase
  dsimp only
  cases hp : a.phase with
  | subscribing | receiving =>
    rw [hp] at hphase
    cases hphase
  | dialing | sleeping | returned => trivial

theorem Asked.control {t : String} (h : m.Asked t) {s : System} (hadv : m.control.Advances s) :
    { m with control := s }.Asked t := by
  rcases h with hreq | ⟨hd, hhd, hsub⟩
  · exact .inl hreq
  · obtain ⟨hd', hhd', -, hsub'⟩ := hadv.same hd hhd
    exact .inr ⟨hd', hhd', hsub' t hsub⟩

theorem sent_prefix {s : System} (hadv : m.control.Advances s) : m.sent <+: { m with control := s }.sent := by
  unfold Mesh.sent
  cases hhd : m.control.handler with
  | none => exact List.nil_prefix
  | some hd =>
    obtain ⟨hd', hhd', hsent, -⟩ := hadv.same hd hhd
    rw [hhd']
    exact hsent

variable {t : String} {h : Handler} {w : Nat}

theorem AskedIn.mono {m' : Mesh} {phase : Phase} (h : m.AskedIn t phase) (hmono : m.Asked t → m'.Asked t) :
    m'.AskedIn t phase := by
  cases phase with
  | subscribing todo => exact Or.imp_right hmono h
  | receiving p => exact hmono h
  | dialing | sleeping | returned => trivial

theorem Linked.control (h : Linked m) {s : System} (htracked : s.Tracked) (hadv : m.control.Advances s) :
    Linked { m with control := s } := by
  have hprefix := sent_prefix hadv
  obtain ⟨old, new, hanswers, hnew, hsent⟩ := h.answers
  refine ⟨htracked, h.held, fun hphase => hadv.without (h.unlinked hphase), h.bound.trans hprefix.length_le,
    ⟨old, new, hanswers, ?_, hsent⟩, fun t ht => (h.asked t ht).mono fun hasked => hasked.control hadv⟩
  obtain ⟨more, hmore⟩ := hprefix
  rw [hnew, ← hmore, List.take_append_of_le_length h.bound]

theorem Linked.accept (h : Linked m) : Linked m.accept := by
  unfold Mesh.accept
  split
  · rename_i hstreaming
    have hstep : m.control.step .connect = m.control.connect := if_neg (by simp [h.tracked.memory.running])
    rcases System.connect_cases m.control with heq | ⟨hnone, w, heq⟩
    · rw [hstep, heq]
      exact h
    · have hempty : m.sent = [] := by rw [Mesh.sent, hnone]; rfl
      have hbound := h.bound
      rw [hempty] at hbound
      obtain ⟨old, new, hanswers, hnew, hsent⟩ := h.answers
      have htracked := h.tracked.connect
      rw [heq] at htracked
      rw [hstep, heq]
      refine ⟨htracked, h.held, fun hphase => ?_, hbound, ⟨old, new, hanswers, ?_, hsent⟩, fun t ht => ?_⟩
      · rw [hstreaming] at hphase
        cases hphase
      · rw [hnew, hempty]
        rfl
      · refine (h.asked t ht).mono fun hasked => ?_
        rcases hasked with hreq | ⟨hd, hhd, -⟩
        · exact .inl hreq
        · rw [hnone] at hhd
          cases hhd
  · exact h

/-- The loop takes the request; a subscription is then subscribed. -/
theorem Linked.request (h : Linked m) : Linked m.request := by
  unfold Mesh.request
  split
  · rename_i req rest hreqs hloop
    obtain ⟨hd, hhd, hloop⟩ := Option.map_eq_some_iff.mp hloop
    have hne : System.Event.request req ≠ .connect := nofun
    have hlinked := h.control (h.tracked.step (.request req)) (m.control.step_advances hne)
    have hstep : m.control.step (.request req) = { m.control with handler := some (hd.onRequest req) } := by
      rw [System.step, if_neg (by simp [h.tracked.memory.running])]
      simp only [System.request, hhd, hloop]
    refine { hlinked with asked := fun t ht => (hlinked.asked t ht).mono fun hasked => ?_ }
    rcases hasked with hmem | hsub
    · have hmem : ⟨t, "", "", none⟩ ∈ req :: rest := hreqs ▸ hmem
      rcases List.mem_cons.mp hmem with rfl | hrest
      · refine .inr ⟨hd.onRequest ⟨t, "", "", none⟩, by rw [hstep], ?_⟩
        have hurl : t ≠ "" := by
          rintro rfl
          revert ht
          decide
        simp [Handler.onRequest, hurl, StreamState.classify]
      · exact .inl hrest
    · exact .inr hsub
  · exact h

theorem Linked.controlStep (h : Linked m) (e : System.Event) : Linked (m.controlStep e) := by
  unfold Mesh.controlStep
  split
  · exact h
  · exact h
  · rename_i hconnect _
    exact h.control (h.tracked.step e) (m.control.step_advances hconnect)

/-! ### The agent's steps -/

/-- A step of the agent without an answer. -/
theorem Linked.goOn (h : Linked m) {a : Agent} {sent : List DiscoveryRequest} (held : a.Held)
    (hanswers : a.answers = m.agent.answers)
    (hasked : ∀ t ∈ subscribeTypes, { m with requests := m.requests ++ sent }.AskedIn t a.phase) :
    Linked (m.goOn a sent) := by
  unfold Mesh.goOn
  split
  · rename_i hstreaming
    obtain ⟨old, new, hold, hnew, hsent⟩ := h.answers
    refine ⟨h.tracked, held, fun hphase => ?_, h.bound, ⟨old, new, hanswers.trans hold, hnew, hsent⟩, hasked⟩
    rw [hstreaming] at hphase
    cases hphase
  · rename_i hphase
    exact h.hangUp held (Bool.not_eq_true _ ▸ hphase)

theorem Linked.askedIn (h : Linked m) (ht : t ∈ subscribeTypes) (sent : List DiscoveryRequest) :
    { m with requests := m.requests ++ sent }.AskedIn t m.agent.phase :=
  (h.asked t ht).mono fun hasked => hasked.imp_left (List.mem_append_left _)

theorem Linked.dial (h : Linked m) (fails : Bool) (draw : Nat) : Linked (m.goOn (m.agent.dial fails draw) []) := by
  refine h.goOn (h.held.step (.dial fails draw)) ?_ fun t ht => ?_ <;> unfold Agent.dial <;> split
  · split <;> rfl
  · rfl
  · split
    · trivial
    · exact .inl ht
  · exact h.askedIn ht []

theorem Linked.subscribe (h : Linked m) (fails : Bool) (draw : Nat) : Linked (m.subscribe fails draw) := by
  unfold Mesh.subscribe
  split
  · rename_i typeUrl todo hphase
    refine h.goOn (h.held.step (.subscribe fails draw)) ?_ fun t ht => ?_ <;> simp only [Agent.subscribe, hphase] <;> split
    · rfl
    · rfl
    · trivial
    · have hasked := h.askedIn ht [⟨typeUrl, "", "", none⟩]
      rw [hphase] at hasked
      rcases hasked with htodo | hasked
      · rcases List.mem_cons.mp htodo with rfl | hrest
        · exact .inr (.inl (List.mem_append_right _ List.mem_cons_self))
        · exact .inl hrest
      · exact .inr hasked
  · rename_i hphase
    refine h.goOn (h.held.step (.subscribe fails draw)) ?_ fun t ht => ?_ <;> simp only [Agent.subscribe, hphase]
    have hasked := h.askedIn ht []
    rw [hphase] at hasked
    exact hasked.resolve_left List.not_mem_nil
  · exact h

/-- The agent took the next response of the stream; if its answer went out, the stream goes on. -/
theorem Linked.recv (h : Linked m) (fails : Nat → Bool) (sendFails : Bool) (draw : Nat) :
    Linked (m.recv fails sendFails draw) := by
  unfold Mesh.recv
  split
  · rename_i p resp hphase hnext
    have hheld := h.held.step (.recv resp fails sendFails draw)
    obtain ⟨hd, hhd, hget⟩ := Option.bind_eq_some_iff.mp hnext
    have hsent : m.sent = hd.sent := by rw [Mesh.sent, hhd]; rfl
    simp only [Agent.step, Agent.recv, hphase] at hheld ⊢
    unfold Mesh.goOn
    cases sendFails with
    | true => exact h.hangUp hheld rfl
    | false =>
      obtain ⟨old, new, hanswers, hnew, hwent⟩ := h.answers
      refine ⟨h.tracked, hheld, fun hphase' => ?_, ?_,
        ⟨old, new ++ [⟨resp, (m.agent.client.handle fails false resp).request, true⟩], ?_, ?_, ?_⟩, fun t ht => ?_⟩
      · cases hphase'
      · obtain ⟨hlt, -⟩ := List.getElem?_eq_some_iff.mp hget
        rw [← hsent] at hlt
        exact hlt
      · rw [← List.append_assoc, ← hanswers]
        rfl
      · rw [List.map_append, hnew, hsent]
        have htake := List.take_add_one (l := hd.sent) (i := m.received)
        rw [hget] at htake
        exact htake.symm.trans (congrArg _ hsent.symm)
      · exact List.forall_mem_append.mpr ⟨hwent, by simp⟩
      · have hasked := h.askedIn ht [(m.agent.client.handle fails false resp).request]
        rw [hphase] at hasked
        exact hasked
  · exact h

theorem Linked.step (h : Linked m) (e : Event) : Linked (m.step e) := by
  cases e with
  | control e => exact h.controlStep e
  | accept => exact h.accept
  | request => exact h.request
  | dial fails draw => exact h.dial fails draw
  | subscribe fails draw => exact h.subscribe fails draw
  | recv fails sendFails draw => exact h.recv fails sendFails draw
  | recvError draw =>
    refine h.goOn (h.held.step (.recvError draw)) ?_ fun t ht => ?_ <;> unfold Agent.recvError <;> split
    · rfl
    · rfl
    · trivial
    · exact h.askedIn ht []
  | timer =>
    refine h.goOn (h.held.step .timer) ?_ fun t ht => ?_ <;> unfold Agent.timer <;> split
    · rfl
    · rfl
    · trivial
    · exact h.askedIn ht []
  | cancel => exact h.goOn (h.held.step .cancel) rfl fun t _ => trivial

theorem Linked.start (writer : Writer) : Linked (.start writer) :=
  ⟨.start, .start writer, fun _ => rfl, Nat.le_refl _, ⟨[], [], rfl, rfl, by simp⟩, fun _ _ => trivial⟩

/-! ### A stream at rest -/

/-- The agent receives, and nothing more is under way on its stream in either direction or from the store. -/
structure Settled (m : Mesh) (h : Handler) (w : Nat) : Prop where
  idle : m.control.Idle h w
  empty : ∃ ch, m.control.memory.chans[w]? = some ch ∧ ch.buffer = []
  quiet : m.control.memory.mutators = []
  receiving : ∃ p, m.agent.phase = .receiving p
  answered : m.requests = []
  received : m.received = h.sent.length

section
variable (hset : m.Settled h w)
include hset

theorem Linked.sent_of_settled (hl : Linked m) (ht : t ∈ storeTypes) : h.Sent m.control.memory.contents t := by
  obtain ⟨hhd, hloop, hwatch, hwait⟩ := hset.idle
  have hpending : ¬m.control.memory.Pending w := by
    obtain ⟨ch, hch, hempty⟩ := hset.empty
    rintro (⟨c, hc, hbuf⟩ | ⟨ev, hmem⟩ | ⟨ev, todo, hmem, -⟩)
    · rw [hch] at hc
      cases hc
      exact hbuf hempty
    · rw [hset.quiet] at hmem
      cases hmem
    · rw [hset.quiet] at hmem
      cases hmem
  have hsub : h.server.subscribed t = true := by
    obtain ⟨p, hphase⟩ := hset.receiving
    have hasked := hl.asked t ht
    rw [hphase] at hasked
    rcases hasked with hmem | ⟨hd, hhd', hsub⟩
    · rw [hset.answered] at hmem
      cases hmem
    · rw [hhd] at hhd'
      cases hhd'
      exact hsub
  have hfresh := ((hl.tracked.handler h hhd w hwatch).2 hwait t ht hsub).resolve_left hpending
  unfold Handler.Fresh at hfresh
  rwa [hloop] at hfresh

/-- The last answer on a type is to the last response of the type, which brought what is in the store, and all answers on
    the stream went out. -/
theorem Linked.lastAnswer_of_settled (hl : Linked m) (ht : t ∈ storeTypes) :
    ∃ old new x, m.agent.answers = old ++ new ∧ (∀ y ∈ new, y.sent = true) ∧ x ∈ new ∧
      lastAnswer t m.agent.answers = some x ∧ x.resp.typeUrl = t ∧
      x.resp.resources.Perm (resourcesOf m.control.memory.contents t) := by
  obtain ⟨resp, hlast, hperm⟩ := hl.sent_of_settled hset ht
  obtain ⟨old, new, hanswers, hnew, hwent⟩ := hl.answers
  have hsent : m.sent = h.sent := by rw [Mesh.sent, hset.idle.1]; rfl
  rw [hsent, hset.received, List.take_length] at hnew
  rw [Handler.lastSent, ← hnew, ← List.map_reverse, List.find?_map, Option.map_eq_some_iff] at hlast
  obtain ⟨x, hx, rfl⟩ := hlast
  refine ⟨old, new, x, hanswers, hwent, List.mem_reverse.mp (List.mem_of_find?_eq_some hx), ?_,
    by simpa using List.find?_some hx, hperm⟩
  rw [lastAnswer, hanswers, List.reverse_append, List.find?_append]
  exact Option.or_eq_some_iff.mpr (.inl hx)

/-- The last response of each type that carries the store was accepted. -/
def Accepted (m : Mesh) : Prop := ∀ t ∈ storeTypes, ∀ x, lastAnswer t m.agent.answers = some x → x.accepted = true

theorem Linked.policies_of_settled (hl : Linked m) (hack : m.Accepted) :
    m.agent.client.applied.policies.Perm m.control.memory.contents.listPolicies := by
  have ht : clusterType ∈ storeTypes := by simp [storeTypes]
  obtain ⟨old, new, x, -, -, -, hx, hurl, hperm⟩ := hl.lastAnswer_of_settled hset ht
  have haccepted := hack _ ht x hx
  obtain ⟨policies, hdec⟩ := (hl.held.decodes x (mem_of_lastAnswer hx) haccepted).cluster hurl
  have happlied : m.agent.client.applied.policies = policies := by
    rw [hl.held.applied]
    dsimp only
    rw [acceptedPolicies, lastAccepted_of_lastAnswer hx haccepted]
    dsimp only
    rw [hdec]
    rfl
  rw [happlied]
  exact decodeResources_perm (fun _ _ => eq_of_decodePolicyRule) hperm hdec

theorem Linked.identities_of_settled (hl : Linked m) (hack : m.Accepted) :
    m.agent.client.applied.identities.Perm m.control.memory.contents.listIdentities := by
  have ht : endpointType ∈ storeTypes := by simp [storeTypes]
  obtain ⟨old, new, x, -, -, -, hx, hurl, hperm⟩ := hl.lastAnswer_of_settled hset ht
  have haccepted := hack _ ht x hx
  obtain ⟨identities, hdec⟩ := (hl.held.decodes x (mem_of_lastAnswer hx) haccepted).endpoint hurl
  have happlied : m.agent.client.applied.identities = identities := by
    rw [hl.held.applied]
    dsimp only
    rw [acceptedIdentities, lastAccepted_of_lastAnswer hx haccepted]
    dsimp only
    rw [hdec]
    rfl
  rw [happlied]
  exact decodeResources_perm (fun _ _ => eq_of_decodeIdentity) hperm hdec

theorem Linked.resolver_of_settled (hl : Linked m) (hack : m.Accepted) :
    m.agent.resolver = .update m.agent.client.applied.identities := by
  have ht : clusterType ∈ storeTypes := by simp [storeTypes]
  obtain ⟨old, new, x, hanswers, hwent, hmem, hx, -, -⟩ := hl.lastAnswer_of_settled hset ht
  have hpart := acceptedIdentities_announcedPart old hwent ⟨x, hmem, hack _ ht x hx⟩
  rw [hl.held.resolver, hl.held.applied]
  dsimp only
  rw [hanswers, hpart]

end

theorem linked_run (writer : Writer) (events : List Event) : Linked (execute step (.start writer) events) :=
  execute_inv (I := Linked) (fun _ e h => h.step e) (Linked.start writer) events

end Mesh

/-- Whatever streams there were before and however they ended: when the agent's stream is at rest and the last response of
    each type was accepted, the agent has applied what is in the store, and the proxy's table says so. -/
theorem reconnect_converges (writer : Writer) (events : List Mesh.Event) {h : Handler} {w : Nat}
    (hset : (execute Mesh.step (.start writer) events).Settled h w)
    (hack : (execute Mesh.step (.start writer) events).Accepted) :
    (execute Mesh.step (.start writer) events).agent.client.applied.policies.Perm
        (execute Mesh.step (.start writer) events).control.memory.contents.listPolicies ∧
      (execute Mesh.step (.start writer) events).agent.client.applied.identities.Perm
        (execute Mesh.step (.start writer) events).control.memory.contents.listIdentities ∧
      (execute Mesh.step (.start writer) events).agent.resolver =
        .update (execute Mesh.step (.start writer) events).agent.client.applied.identities :=
  have hlinked := Mesh.linked_run writer events
  ⟨hlinked.policies_of_settled hset hack, hlinked.identities_of_settled hset hack, hlinked.resolver_of_settled hset hack⟩

/-- A stream is taken up and the listings are sent on it. -/
def taken (rules : List PolicyRule) (identities : List Identity) : List Mesh.Event :=
  [.dial false 0, .subscribe false 0, .subscribe false 0, .subscribe false 0, .accept,
   .request, .control (.read rules identities), .control (.send false), .control (.read rules identities),
   .request, .control (.read rules identities), .control (.send false), .control (.read rules identities)]

/-- A stream breaks off when the answer to its first response cannot be sent; a rule is put; and the next stream brings
    both listings. -/
def brokenOff : List Mesh.Event :=
  let rule : PolicyRule := ⟨⟨7, 8, 80, 6, 0⟩, ⟨0, 0⟩⟩
  taken [] [] ++ [.recv (fun _ => false) true 3, .control (.store (.mutate (.putPolicy rule))),
    .control (.store (.notifyLock 0 [0])), .control (.store (.notifySend 0)), .control (.store (.notifyUnlock 0)), .timer] ++
    taken [rule] [] ++
    [.recv (fun _ => false) false 0, .recv (fun _ => false) false 0, .request, .request]

theorem reconnect_converges_brokenOff :
    ∃ m, execute Mesh.step (.start (Writer.new (fun _ => none) fun _ => none)) brokenOff = m ∧
      m.agent.ended.length = 1 ∧ m.agent.client.applied.policies.Perm [⟨⟨7, 8, 80, 6, 0⟩, ⟨0, 0⟩⟩] := by
  have hset : (execute Mesh.step (.start (Writer.new (fun _ => none) fun _ => none)) brokenOff).Settled _ 1 :=
    ⟨⟨rfl, rfl, rfl, rfl⟩, ⟨_, rfl, rfl⟩, rfl, ⟨true, rfl⟩, rfl, rfl⟩
  have hack : (execute Mesh.step (.start (Writer.new (fun _ => none) fun _ => none)) brokenOff).Accepted := by
    intro t ht x hx
    rcases List.mem_pair.mp ht with rfl | rfl <;> cases hx <;> rfl
  exact ⟨_, rfl, rfl, (reconnect_converges _ brokenOff hset hack).1⟩

end Meridian.Ads
