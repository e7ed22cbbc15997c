import Meridian.Control.Ads
import Meridian.Theorems.Convergence

/-! One ADS stream: the server and the agent's client with a queue of messages in each direction. While the counters of
    the server do not wrap, they agree on what was accepted. -/

namespace Meridian.Ads
open Lib Wire Cc2 Datapath Xds

/-! ### The invariant -/

/-- The numbers from 1 to `n`, as the server writes them. -/
def numerals (n : Nat) : List String := (List.range n).map fun i => decimal (i + 1)

theorem numerals_succ (n : Nat) : numerals (n + 1) = numerals n ++ [decimal (n + 1)] := by
  simp [numerals, List.range_succ]

theorem numerals_nodup (n : Nat) : (numerals n).Nodup := by
  refine List.Nodup.map (fun i j h => ?_) List.nodup_range
  exact Nat.succ.inj (decimal_injective h)

theorem mem_numerals {n : Nat} {text : String} : text ∈ numerals n ↔ ∃ v, 0 < v ∧ v ≤ n ∧ text = decimal v := by
  constructor
  · intro h
    obtain ⟨i, hi, rfl⟩ := List.mem_map.mp h
    exact ⟨i + 1, Nat.succ_pos i, List.mem_range.mp hi, rfl⟩
  · rintro ⟨v, hpos, hle, rfl⟩
    refine List.mem_map.mpr ⟨v - 1, List.mem_range.mpr (by omega), ?_⟩
    rw [Nat.sub_add_cancel hpos]

theorem numerals_pairwise (n : Nat) :
    (numerals n).Pairwise fun text text' => ∃ v w, text = decimal v ∧ text' = decimal w ∧ v < w := by
  refine List.pairwise_map.mpr (List.pairwise_lt_range.imp fun {i j} hlt => ?_)
  exact ⟨i + 1, j + 1, rfl, rfl, Nat.succ_lt_succ hlt⟩

/-- The versions of the responses of one type. -/
def versionsOf (typeUrl : String) (rs : List DiscoveryResponse) : List String :=
  (rs.filter fun r => r.typeUrl = typeUrl).map (·.versionInfo)

theorem versionsOf_append (typeUrl : String) (rs rs' : List DiscoveryResponse) :
    versionsOf typeUrl (rs ++ rs') = versionsOf typeUrl rs ++ versionsOf typeUrl rs' := by
  simp [versionsOf]

theorem mem_versionsOf {rs : List DiscoveryResponse} {r : DiscoveryResponse} (h : r ∈ rs) :
    r.versionInfo ∈ versionsOf r.typeUrl rs :=
  List.mem_map_of_mem (List.mem_filter.mpr ⟨h, by simp⟩)

/-- What the server stamped: the nonces count all responses, the versions those of a type. -/
structure Stamped (state : StreamState) (issued : List DiscoveryResponse) : Prop where
  count : state.nonceSeq.toNat = issued.length
  nonces : issued.map (·.nonce) = numerals issued.length
  versions : ∀ t, versionsOf t issued = numerals (state.sentVersionOf t).toNat
  outstanding : ∀ t, (state.get t).hasOutstanding = true → ∃ r ∈ issued, r.typeUrl = t ∧ r.nonce = (state.get t).lastNonce ∧
    r.versionInfo = decimal (state.sentVersionOf t).toNat

/-- A request that the client sends: a subscription, or the answer to a response that it handled. -/
def AnswersOne (handled : List Exchange) (req : DiscoveryRequest) : Prop :=
  req.responseNonce = "" ∨ ∃ e ∈ handled, req.typeUrl = e.resp.typeUrl ∧ req.responseNonce = e.resp.nonce ∧
    (req.errorDetail = none → e.Applied)

structure Agreed (s : Stream) : Prop where
  stamped : Stamped s.server.state s.issued
  delivered : ∃ lost, s.issued = s.handled.map (·.resp) ++ s.toClient ++ lost ∧ (s.server.running = true → lost = [])
  replies : ∀ req ∈ s.toServer, AnswersOne s.handled req
  acked : ∀ t, s.acked t ≤ s.sent t ∧
    (0 < s.acked t → ∃ e ∈ s.handled, e.resp.typeUrl = t ∧ e.resp.versionInfo = decimal (s.acked t).toNat ∧ e.Applied)
  accepted : ∀ e ∈ s.handled, e.Applied → ∃ v w, e.resp.versionInfo = decimal v ∧
    s.client.accepted e.resp.typeUrl = some (decimal w) ∧ v ≤ w

/-! ### The server's steps -/

theorem toNat_add_one {x : UInt64} (h : x.toNat + 1 < UInt64.size) : (x + 1).toNat = x.toNat + 1 := by
  rw [UInt64.toNat_add]
  exact Nat.mod_eq_of_lt h

section
variable {state : StreamState} {issued : List DiscoveryResponse}

theorem Stamped.sent_le (h : Stamped state issued) (t : String) : (state.sentVersionOf t).toNat ≤ issued.length := by
  have hlen := congrArg List.length (h.versions t)
  simp only [versionsOf, numerals, List.length_map, List.length_range] at hlen
  rw [← hlen]
  exact List.length_filter_le _ _

theorem preparePush_sentVersionOf (state : StreamState) (typeUrl t : String) :
    (state.preparePush typeUrl).2.2.sentVersionOf t =
      if t = typeUrl then state.sentVersionOf typeUrl + 1 else state.sentVersionOf t := by
  unfold StreamState.sentVersionOf
  rw [StreamState.preparePush_get]
  split <;> rfl

section
variable (h : Stamped state issued)
include h

theorem Stamped.sentVersionOf_add_one (hroom : issued.length + 1 < UInt64.size) (t : String) :
    (state.sentVersionOf t + 1).toNat = (state.sentVersionOf t).toNat + 1 :=
  toNat_add_one (Nat.lt_of_le_of_lt (Nat.succ_le_succ (h.sent_le t)) hroom)

theorem Stamped.sent_le_preparePush (typeUrl : String) (hroom : issued.length + 1 < UInt64.size) (t : String) :
    (state.sentVersionOf t).toNat ≤ ((state.preparePush typeUrl).2.2.sentVersionOf t).toNat := by
  rw [preparePush_sentVersionOf]
  split
  · rename_i ht
    rw [ht, h.sentVersionOf_add_one hroom]
    exact Nat.le_succ _
  · exact Nat.le_refl _

/-- A stamp that does not make a counter wrap. -/
theorem Stamped.preparePush (typeUrl : String) (resources : List AnyMsg) (hroom : issued.length + 1 < UInt64.size) :
    Stamped (state.preparePush typeUrl).2.2
      (issued ++ [⟨typeUrl, (state.preparePush typeUrl).1, (state.preparePush typeUrl).2.1, resources⟩]) := by
  have hseq : (state.nonceSeq + 1).toNat = issued.length + 1 := by
    rw [toNat_add_one (h.count ▸ hroom), h.count]
  have hsent := h.sentVersionOf_add_one hroom typeUrl
  constructor
  · rw [List.length_append]
    exact hseq
  · rw [List.map_append, h.nonces, List.length_append, List.length_singleton, numerals_succ, ← hseq]
    rfl
  · intro t
    rw [versionsOf_append, h.versions t, preparePush_sentVersionOf]
    by_cases ht : t = typeUrl
    · subst ht
      rw [if_pos rfl, hsent, numerals_succ, ← hsent]
      simp [versionsOf, StreamState.preparePush, StreamState.sentVersionOf]
    · rw [if_neg ht]
      simp [versionsOf, Ne.symm ht]
  · intro t hout
    rw [preparePush_sentVersionOf]
    rw [StreamState.preparePush_get] at hout ⊢
    by_cases ht : t = typeUrl
    · subst ht
      rw [if_pos rfl, if_pos rfl]
      exact ⟨_, List.mem_append_right _ List.mem_cons_self, rfl, rfl, rfl⟩
    · rw [if_neg ht] at hout ⊢
      rw [if_neg ht]
      obtain ⟨r, hr, hrest⟩ := h.outstanding t hout
      exact ⟨r, List.mem_append_left _ hr, hrest⟩

/-- Settling the outstanding push of a type. -/
theorem Stamped.settle {typeUrl : String} {ts : TypeState} (hsent : ts.sentVersion = (state.get typeUrl).sentVersion)
    (hsettled : ts.hasOutstanding = false) : Stamped (state.put typeUrl ts) issued := by
  have hversions : ∀ t, (state.put typeUrl ts).sentVersionOf t = state.sentVersionOf t := by
    intro t
    unfold StreamState.sentVersionOf
    rw [StreamState.put_get]
    split
    · rename_i ht
      rw [hsent, ht]
    · rfl
  constructor
  · exact h.count
  · exact h.nonces
  · intro t
    rw [hversions]
    exact h.versions t
  · intro t hout
    rw [hversions]
    rw [StreamState.put_get] at hout ⊢
    by_cases ht : t = typeUrl
    · rw [if_pos ht, hsettled] at hout
      cases hout
    · rw [if_neg ht] at hout ⊢
      exact h.outstanding t hout

theorem Stamped.eq_of_nonce {r r' : DiscoveryResponse} (hr : r ∈ issued) (hr' : r' ∈ issued) (hnonce : r.nonce = r'.nonce) :
    r = r' := by
  have hnodup : (issued.map (·.nonce)).Nodup := h.nonces ▸ numerals_nodup _
  exact List.inj_on_of_nodup_map hnodup hr hr' hnonce

/-- A response is told by its type and its version. -/
theorem Stamped.eq_of_version {r r' : DiscoveryResponse} (hr : r ∈ issued) (hr' : r' ∈ issued)
    (htype : r.typeUrl = r'.typeUrl) (hversion : r.versionInfo = r'.versionInfo) : r = r' := by
  have hnodup : (versionsOf r'.typeUrl issued).Nodup := h.versions _ ▸ numerals_nodup _
  exact List.inj_on_of_nodup_map hnodup (List.mem_filter.mpr ⟨hr, by simp [htype]⟩)
    (List.mem_filter.mpr ⟨hr', by simp⟩) hversion

end

end

/-- The four ways to take a request. -/
theorem classify_cases (state : StreamState) (typeUrl nonce : String) (hasError : Bool) :
    (nonce = "" ∧ state.classify typeUrl nonce hasError = (.initial, state)) ∨
    (state.classify typeUrl nonce hasError = (.stale, state) ∧
      ¬((state.get typeUrl).hasOutstanding = true ∧ nonce = (state.get typeUrl).lastNonce)) ∨
    (hasError = true ∧ state.classify typeUrl nonce hasError =
      (.nack, state.put typeUrl { state.get typeUrl with hasOutstanding := false, lastNonce := "" })) ∨
    (hasError = false ∧ nonce ≠ "" ∧ (state.get typeUrl).hasOutstanding = true ∧ nonce = (state.get typeUrl).lastNonce ∧
      state.classify typeUrl nonce hasError =
        (.ack, state.put typeUrl { state.get typeUrl with
          hasOutstanding := false, lastNonce := "", ackedVersion := (state.get typeUrl).sentVersion })) := by
  unfold StreamState.classify
  by_cases hempty : nonce = ""
  · exact .inl ⟨hempty, if_pos hempty⟩
  · rw [if_neg hempty]
    by_cases hout : (state.get typeUrl).hasOutstanding = true ∧ nonce = (state.get typeUrl).lastNonce
    · have hcond : ¬(!(state.get typeUrl).hasOutstanding || decide (nonce ≠ (state.get typeUrl).lastNonce)) = true := by
        simp [hout.1, hout.2]
      rw [if_neg hcond]
      cases hasError with
      | true => exact .inr (.inr (.inl ⟨rfl, rfl⟩))
      | false => exact .inr (.inr (.inr ⟨rfl, hempty, hout.1, hout.2, rfl⟩))
    · have hcond : (!(state.get typeUrl).hasOutstanding || decide (nonce ≠ (state.get typeUrl).lastNonce)) = true := by
        rw [not_and_or] at hout
        simpa using hout
      exact .inr (.inl ⟨if_pos hcond, hout⟩)

/-- A push ends the stream for want of resources, or stamps a response. -/
theorem push_cases (store : Store) (sendFails : Bool) (srv : Server) (typeUrl : String) :
    srv.push store sendFails typeUrl = ({ srv with running := false }, none) ∨
      ∃ resources, srv.push store sendFails typeUrl =
        ({ srv with state := (srv.state.preparePush typeUrl).2.2, running := !sendFails },
          some ⟨typeUrl, (srv.state.preparePush typeUrl).1, (srv.state.preparePush typeUrl).2.1, resources⟩) := by
  unfold Server.push
  cases resourcesFor store typeUrl with
  | none => exact .inl rfl
  | some resources => exact .inr ⟨resources, rfl⟩

/-- A stamp accepts nothing. -/
theorem preparePush_acceptedVersion (state : StreamState) (typeUrl t : String) :
    (state.preparePush typeUrl).2.2.acceptedVersion t = state.acceptedVersion t := by
  unfold StreamState.acceptedVersion
  rw [StreamState.preparePush_get]
  split
  · rename_i ht
    rw [ht]
  · rfl

theorem push_acceptedVersion (store : Store) (sendFails : Bool) (srv : Server) (typeUrl t : String) :
    (srv.push store sendFails typeUrl).1.state.acceptedVersion t = srv.state.acceptedVersion t := by
  rcases push_cases store sendFails srv typeUrl with heq | ⟨resources, heq⟩ <;> rw [heq]
  exact preparePush_acceptedVersion srv.state typeUrl t

/-- A request changes what is accepted only as an ACK of the outstanding push, and only for its type. -/
theorem onRequest_acceptedVersion (store : Store) (sendFails : Bool) (srv : Server) (req : DiscoveryRequest) (t : String) :
    (srv.onRequest store sendFails req).1.state.acceptedVersion t = srv.state.acceptedVersion t ∨
      (req.errorDetail = none ∧ (srv.state.get req.typeUrl).hasOutstanding = true ∧
        req.responseNonce = (srv.state.get req.typeUrl).lastNonce ∧
        (srv.onRequest store sendFails req).1.state.acceptedVersion t = srv.state.sentVersionOf t) := by
  unfold Server.onRequest
  by_cases hurl : req.typeUrl = ""
  · rw [if_pos hurl]
    exact .inl rfl
  rw [if_neg hurl]
  rcases classify_cases srv.state req.typeUrl req.responseNonce req.errorDetail.isSome with ⟨-, heq⟩ | ⟨heq, -⟩ |
    ⟨-, heq⟩ | ⟨herror, -, hout, hlast, heq⟩ <;> rw [heq] <;> dsimp only
  · exact .inl (push_acceptedVersion _ _ _ _ _)
  · exact .inl rfl
  · left
    rw [StreamState.acceptedVersion, StreamState.put_get]
    split
    · rename_i ht
      rw [ht]
      rfl
    · rfl
  · have hnone : req.errorDetail = none := Option.not_isSome_iff_eq_none.mp (by simp [herror])
    rw [StreamState.acceptedVersion, StreamState.put_get]
    split
    · rename_i ht
      rw [ht]
      exact .inr ⟨hnone, hout, hlast, rfl⟩
    · exact .inl rfl

section
variable {s : Stream}

theorem Agreed.mem_issued (h : Agreed s) {e : Exchange} (he : e ∈ s.handled) : e.resp ∈ s.issued := by
  obtain ⟨lost, hissued, -⟩ := h.delivered
  rw [hissued, List.append_assoc]
  exact List.mem_append_left _ (List.mem_map_of_mem he)

/-- The server took a step that leaves it with a proper count, and with nothing accepted that was not applied. -/
theorem Agreed.served (h : Agreed s) (hrunning : s.server.running = true) {r : Server × Option DiscoveryResponse}
    (hstamped : Stamped r.1.state (s.issued ++ r.2.toList))
    (hacked : ∀ t, r.1.state.acceptedVersion t ≤ r.1.state.sentVersionOf t ∧
      (0 < r.1.state.acceptedVersion t → ∃ e ∈ s.handled, e.resp.typeUrl = t ∧
        e.resp.versionInfo = decimal (r.1.state.acceptedVersion t).toNat ∧ e.Applied)) : Agreed (s.served r) where
  stamped := hstamped
  delivered := by
    obtain ⟨lost, hissued, hlost⟩ := h.delivered
    cases hlost hrunning
    rw [List.append_nil] at hissued
    by_cases hrun : r.1.running = true
    · refine ⟨[], ?_, fun _ => rfl⟩
      simp [Stream.served, hrun, hissued]
    · refine ⟨r.2.toList, ?_, fun hrun' => absurd hrun' hrun⟩
      simp [Stream.served, hrun, hissued]
  replies := h.replies
  acked := hacked
  accepted := h.accepted

theorem Agreed.push (h : Agreed s) (hrunning : s.server.running = true) {srv : Server} (hstate : srv.state = s.server.state)
    {store : Store} {sendFails : Bool} {typeUrl : String}
    (hroom : (s.served (srv.push store sendFails typeUrl)).issued.length < UInt64.size) :
    Agreed (s.served (srv.push store sendFails typeUrl)) := by
  rcases push_cases store sendFails srv typeUrl with heq | ⟨resources, heq⟩ <;> rw [heq, hstate] at hroom ⊢
  · refine h.served hrunning ?_ h.acked
    rw [Option.toList_none, List.append_nil]
    exact h.stamped
  · have hnext : s.issued.length + 1 < UInt64.size := by
      simpa [Stream.served] using hroom
    refine h.served hrunning (h.stamped.preparePush typeUrl resources hnext) fun t => ?_
    obtain ⟨hle, hexchange⟩ := h.acked t
    dsimp only
    rw [preparePush_acceptedVersion]
    refine ⟨UInt64.le_trans hle ?_, hexchange⟩
    rw [UInt64.le_iff_toNat_le]
    exact h.stamped.sent_le_preparePush typeUrl hnext t

/-- The nonce of an ACK tells which response it answers: if it is the outstanding one, the last one of its type. -/
theorem Agreed.outstanding_applied (h : Agreed s) {req : DiscoveryRequest} (hreq : AnswersOne s.handled req)
    (hnonce : req.responseNonce ≠ "") (hout : (s.server.state.get req.typeUrl).hasOutstanding = true)
    (hlast : req.responseNonce = (s.server.state.get req.typeUrl).lastNonce) (hnone : req.errorDetail = none) :
    ∃ e ∈ s.handled, e.resp.typeUrl = req.typeUrl ∧ e.resp.versionInfo = decimal (s.sent req.typeUrl).toNat ∧ e.Applied := by
  rcases hreq with hempty | ⟨e, he, htype, hanswers, happlied⟩
  · exact absurd hempty hnonce
  · obtain ⟨r, hr, -, hrnonce, hrversion⟩ := h.stamped.outstanding _ hout
    have hsame := h.stamped.eq_of_nonce hr (h.mem_issued he) (hrnonce.trans (hlast.symm.trans hanswers))
    exact ⟨e, he, htype.symm, hsame ▸ hrversion, happlied hnone⟩

/-- The outstanding push of a type is settled, and what the type has accepted was applied by the client. -/
theorem Agreed.settle (h : Agreed s) (hrunning : s.server.running = true) {typeUrl : String} {ts : TypeState}
    (hsent : ts.sentVersion = s.server.state.sentVersionOf typeUrl) (hsettled : ts.hasOutstanding = false)
    (hacked : ts.ackedVersion ≤ ts.sentVersion ∧ (0 < ts.ackedVersion → ∃ e ∈ s.handled, e.resp.typeUrl = typeUrl ∧
      e.resp.versionInfo = decimal ts.ackedVersion.toNat ∧ e.Applied)) :
    Agreed (s.served ({ s.server with state := s.server.state.put typeUrl ts }, none)) := by
  refine h.served hrunning ?_ fun t => ?_
  · rw [Option.toList_none, List.append_nil]
    exact h.stamped.settle hsent hsettled
  · dsimp only
    rw [StreamState.acceptedVersion, StreamState.sentVersionOf, StreamState.put_get]
    split
    · rename_i ht
      subst ht
      exact hacked
    · exact h.acked t

/-- A request that answers one of the responses, or none. -/
theorem Agreed.onRequest (h : Agreed s) (hrunning : s.server.running = true) {req : DiscoveryRequest}
    (hreq : AnswersOne s.handled req) {store : Store} {sendFails : Bool}
    (hroom : (s.served (s.server.onRequest store sendFails req)).issued.length < UInt64.size) :
    Agreed (s.served (s.server.onRequest store sendFails req)) := by
  have hsame : Agreed (s.served (s.server, none)) := by
    refine h.served hrunning ?_ h.acked
    rw [Option.toList_none, List.append_nil]
    exact h.stamped
  unfold Server.onRequest at hroom ⊢
  split at hroom
  · rename_i hurl
    rw [if_pos hurl]
    exact hsame
  rename_i hurl
  rw [if_neg hurl]
  rcases classify_cases s.server.state req.typeUrl req.responseNonce req.errorDetail.isSome with ⟨-, heq⟩ | ⟨heq, -⟩ |
    ⟨-, heq⟩ | ⟨herror, hnonce, hout, hlast, heq⟩ <;> rw [heq] at hroom ⊢
  · refine h.push hrunning ?_ hroom
    rfl
  · exact hsame
  · exact h.settle hrunning rfl rfl (h.acked _)
  · have hnone : req.errorDetail = none := Option.not_isSome_iff_eq_none.mp (by simp [herror])
    refine h.settle hrunning rfl rfl ⟨UInt64.le_refl _, fun _ => ?_⟩
    exact h.outstanding_applied hreq hnonce hout hlast hnone

end

/-! ### The client's step -/

section
variable {e : Exchange}

theorem Exchange.Applied.result (h : e.Applied) :
    e.result.request = e.resp.ack ∧
      e.result.client.accepted = Table.put e.client.accepted e.resp.typeUrl e.resp.versionInfo := by
  obtain ⟨candidate, writer, hcandidate, happly⟩ := h
  unfold Exchange.result Client.handle
  rw [hcandidate]
  dsimp only
  rw [happly]
  exact ⟨rfl, rfl⟩

theorem Exchange.result_of_not_applied (h : ¬e.Applied) :
    (∃ err, e.result.request = e.client.nack e.resp err) ∧ e.result.client.accepted = e.client.accepted := by
  unfold Exchange.result
  rcases handle_cases e.fails e.sendFails e.client e.resp with ⟨err, hclient, hreq⟩ |
    ⟨candidate, err, writer, -, -, hclient, hreq⟩ |
    ⟨candidate, writer, hcandidate, happly, -, -⟩
  · exact ⟨⟨err, hreq⟩, by rw [hclient]⟩
  · exact ⟨⟨_, hreq⟩, by rw [hclient]⟩
  · exact absurd ⟨candidate, writer, hcandidate, happly⟩ h

theorem AnswersOne.mono {handled : List Exchange} {req : DiscoveryRequest} (h : AnswersOne handled req) :
    AnswersOne (handled ++ [e]) req := by
  rcases h with hempty | ⟨e', he', hrest⟩
  · exact .inl hempty
  · exact .inr ⟨e', List.mem_append_left _ he', hrest⟩

theorem answersOne_result (handled : List Exchange) : AnswersOne (handled ++ [e]) e.result.request := by
  refine .inr ⟨e, List.mem_append_right _ List.mem_cons_self, ?_⟩
  by_cases happlied : e.Applied
  · rw [happlied.result.1]
    exact ⟨rfl, rfl, fun _ => happlied⟩
  · obtain ⟨⟨err, hreq⟩, -⟩ := Exchange.result_of_not_applied happlied
    rw [hreq]
    exact ⟨rfl, rfl, fun hnone => by cases hnone⟩

end

variable {s : Stream} {resp : DiscoveryResponse} {rest : List DiscoveryResponse}

/-- The first response under way is newer than those of its type that were handled. -/
theorem Agreed.newer (h : Agreed s) (hqueue : s.toClient = resp :: rest) {e : Exchange} (he : e ∈ s.handled)
    (htype : e.resp.typeUrl = resp.typeUrl) :
    ∃ v w, e.resp.versionInfo = decimal v ∧ resp.versionInfo = decimal w ∧ v < w := by
  obtain ⟨lost, hissued, -⟩ := h.delivered
  have hversions := h.stamped.versions resp.typeUrl
  have hfirst : versionsOf resp.typeUrl (resp :: rest) = resp.versionInfo :: versionsOf resp.typeUrl rest := by
    simp [versionsOf]
  rw [hissued, hqueue, versionsOf_append, versionsOf_append, hfirst, List.append_assoc] at hversions
  have hordered := numerals_pairwise (s.server.state.sentVersionOf resp.typeUrl).toNat
  rw [← hversions] at hordered
  refine (List.pairwise_append.mp hordered).2.2 _ ?_ _ List.mem_cons_self
  rw [← htype]
  exact mem_versionsOf (List.mem_map_of_mem he)

theorem Agreed.decimal_version (h : Agreed s) {r : DiscoveryResponse} (hr : r ∈ s.issued) :
    ∃ v, r.versionInfo = decimal v := by
  have hversion := mem_versionsOf hr
  rw [h.stamped.versions] at hversion
  obtain ⟨v, -, -, htext⟩ := mem_numerals.mp hversion
  exact ⟨v, htext⟩

/-- After the client handled the first response under way, what it has accepted is not older than what it applied. -/
theorem Agreed.accepted_answered (h : Agreed s) (hqueue : s.toClient = resp :: rest) {now : Exchange}
    (hclient : now.client = s.client) (hresp : now.resp = resp) {e : Exchange} (he : e ∈ s.handled ++ [now])
    (happlied : e.Applied) :
    ∃ v w, e.resp.versionInfo = decimal v ∧ now.result.client.accepted e.resp.typeUrl = some (decimal w) ∧ v ≤ w := by
  rcases List.mem_append.mp he with hold | hnew
  · obtain ⟨v, w, hv, hw, hle⟩ := h.accepted e hold happlied
    by_cases hnow : now.Applied
    · rw [hnow.result.2, hclient, hresp]
      by_cases htype : e.resp.typeUrl = resp.typeUrl
      · obtain ⟨v', w', hv', hw', hlt⟩ := h.newer hqueue hold htype
        refine ⟨v', w', hv', ?_, Nat.le_of_lt hlt⟩
        rw [htype, Table.put_same, hw']
      · refine ⟨v, w, hv, ?_, hle⟩
        rw [Table.put_of_ne (Ne.symm htype)]
        exact hw
    · rw [(Exchange.result_of_not_applied hnow).2, hclient]
      exact ⟨v, w, hv, hw, hle⟩
  · cases List.mem_singleton.mp hnew
    have hmem : now.resp ∈ s.issued := by
      obtain ⟨lost, hissued, -⟩ := h.delivered
      rw [hissued, hqueue, hresp]
      simp
    obtain ⟨v, hv⟩ := h.decimal_version hmem
    refine ⟨v, v, hv, ?_, Nat.le_refl v⟩
    rw [happlied.result.2, Table.put_same, hv]

theorem Agreed.answered (h : Agreed s) (hqueue : s.toClient = resp :: rest) (fails : Nat → Bool) (sendFails : Bool) :
    Agreed (s.answered ⟨s.client, resp, fails, sendFails⟩ rest) where
  stamped := h.stamped
  delivered := by
    obtain ⟨lost, hissued, hlost⟩ := h.delivered
    refine ⟨lost, ?_, hlost⟩
    rw [hqueue] at hissued
    simpa [Stream.answered] using hissued
  replies := by
    intro req hreq
    unfold Stream.answered at hreq
    dsimp only at hreq
    split at hreq
    · exact (h.replies req hreq).mono
    · rcases List.mem_append.mp hreq with hold | hnew
      · exact (h.replies req hold).mono
      · rw [List.mem_singleton.mp hnew]
        exact answersOne_result s.handled
  acked := by
    intro t
    obtain ⟨hle, hexchange⟩ := h.acked t
    refine ⟨hle, fun hpos => ?_⟩
    obtain ⟨e, he, hrest⟩ := hexchange hpos
    exact ⟨e, List.mem_append_left _ he, hrest⟩
  accepted := fun _ he happlied => h.accepted_answered hqueue rfl rfl he happlied

/-! ### Runs -/

/-- What a step can do; an event that nothing waits for does nothing. -/
inductive Next (s : Stream) : Stream → Prop where
  | idle : Next s s
  | subscribe (typeUrl : String) : Next s { s with toServer := s.toServer ++ [⟨typeUrl, "", "", none⟩] }
  | request {req : DiscoveryRequest} {rest : List DiscoveryRequest} (store : Store) (sendFails : Bool)
    (hqueue : s.toServer = req :: rest) (hrunning : s.server.running = true) :
    Next s ({ s with toServer := rest }.served (s.server.onRequest store sendFails req))
  | push (typeUrl : String) (store : Store) (sendFails : Bool) (hrunning : s.server.running = true) :
    Next s (s.served (s.server.push store sendFails typeUrl))
  | response {resp : DiscoveryResponse} {rest : List DiscoveryResponse} (fails : Nat → Bool) (sendFails : Bool)
    (hqueue : s.toClient = resp :: rest) : Next s (s.answered ⟨s.client, resp, fails, sendFails⟩ rest)

theorem step_next (s : Stream) (event : Event) : Next s (s.step event) := by
  cases event with
  | subscribe typeUrl =>
    simp only [Stream.step]
    split
    · exact .subscribe typeUrl
    · exact .idle
  | request store sendFails =>
    simp only [Stream.step]
    split
    · exact .idle
    · rename_i hqueue
      split
      · exact .request store sendFails hqueue ‹_›
      · exact .idle
  | push typeUrl store sendFails =>
    simp only [Stream.step]
    split
    · exact .push typeUrl store sendFails ‹_›
    · exact .idle
  | response fails sendFails =>
    simp only [Stream.step]
    split
    · exact .idle
    · rename_i hqueue
      split
      · exact .response fails sendFails hqueue
      · exact .idle

section
variable {s s' : Stream}

theorem Next.issued_length (h : Next s s') : s.issued.length ≤ s'.issued.length := by
  cases h with
  | idle => exact Nat.le_refl _
  | subscribe typeUrl => exact Nat.le_refl _
  | request store sendFails hqueue hrunning => simp [Stream.served]
  | push typeUrl store sendFails hrunning => simp [Stream.served]
  | response fails sendFails hqueue => exact Nat.le_refl _

theorem Next.agreed (hnext : Next s s') (h : Agreed s) (hroom : s'.issued.length < UInt64.size) : Agreed s' := by
  cases hnext with
  | idle => exact h
  | subscribe typeUrl =>
    refine { h with replies := fun req hreq => ?_ }
    rcases List.mem_append.mp hreq with hold | hnew
    · exact h.replies req hold
    · exact .inl (by rw [List.mem_singleton.mp hnew])
  | @request req rest store sendFails hqueue hrunning =>
    have hdropped : Agreed { s with toServer := rest } :=
      { h with replies := fun req' hreq' => h.replies req' (hqueue ▸ List.mem_cons_of_mem req hreq') }
    exact hdropped.onRequest hrunning (h.replies req (hqueue ▸ List.mem_cons_self)) hroom
  | push typeUrl store sendFails hrunning => exact h.push hrunning rfl hroom
  | response fails sendFails hqueue => exact h.answered hqueue fails sendFails

/-- What is accepted only grows, to what was sent. -/
theorem Next.acked_le (hnext : Next s s') (h : Agreed s) (t : String) : s.acked t ≤ s'.acked t := by
  cases hnext with
  | idle => exact UInt64.le_refl _
  | subscribe typeUrl => exact UInt64.le_refl _
  | @request req rest store sendFails hqueue hrunning =>
    rcases onRequest_acceptedVersion store sendFails s.server req t with hsame | ⟨-, -, -, hsent⟩
    · exact UInt64.le_of_eq hsame.symm
    · exact UInt64.le_trans (h.acked t).1 (UInt64.le_of_eq hsent.symm)
  | push typeUrl store sendFails hrunning =>
    exact UInt64.le_of_eq (push_acceptedVersion store sendFails s.server typeUrl t).symm
  | response fails sendFails hqueue => exact UInt64.le_refl _

end

theorem run_issued_length (s : Stream) (events : List Event) :
    s.issued.length ≤ (execute Stream.step s events).issued.length :=
  execute_inv (I := fun s' : Stream => s.issued.length ≤ s'.issued.length)
    (fun s' e h => Nat.le_trans h (step_next s' e).issued_length) (Nat.le_refl _) events

theorem Agreed.run {s : Stream} (h : Agreed s) {events : List Event}
    (hroom : (execute Stream.step s events).issued.length < UInt64.size) :
    Agreed (execute Stream.step s events) ∧ ∀ t, s.acked t ≤ (execute Stream.step s events).acked t := by
  induction events generalizing s with
  | nil => exact ⟨h, fun t => UInt64.le_refl _⟩
  | cons event rest ih =>
    have hnext := step_next s event
    obtain ⟨hrest, hacked⟩ :=
      ih (hnext.agreed h (Nat.lt_of_le_of_lt (run_issued_length (s.step event) rest) hroom)) hroom
    exact ⟨hrest, fun t => UInt64.le_trans (hnext.acked_le h t) (hacked t)⟩

theorem agreed_start (client : Client) : Agreed (Stream.start client) where
  stamped :=
    { count := rfl
      nonces := rfl
      versions := fun t => rfl
      outstanding := fun t hout => by cases hout }
  delivered := ⟨[], rfl, fun _ => rfl⟩
  replies := fun req hreq => by cases hreq
  acked := fun t => ⟨UInt64.le_refl _, fun hpos => absurd hpos (UInt64.lt_irrefl _)⟩
  accepted := fun e he => by cases he

/-- In every state of a stream before the counters wrap: nonces are distinct; what the server takes as accepted is at
    most what it sent, only grows, and was applied by the client, which has accepted it or something newer; and only
    an ACK of the outstanding push changes it. -/
theorem ads_agreement (client : Client) {events : List Event}
    (hroom : (execute Stream.step (.start client) events).issued.length < UInt64.size) :
    let s := execute Stream.step (.start client) events
    (s.issued.map (·.nonce)).Nodup ∧ (∀ t, s.acked t ≤ s.sent t) ∧
      (∀ more, (execute Stream.step s more).issued.length < UInt64.size →
        ∀ t, s.acked t ≤ (execute Stream.step s more).acked t) ∧
      (∀ t, 0 < s.acked t →
        (∃ e ∈ s.handled, e.Applied ∧ e.resp ∈ s.issued ∧ e.resp.typeUrl = t ∧
          e.resp.versionInfo = decimal (s.acked t).toNat ∧
          ∀ r ∈ s.issued, r.typeUrl = t → r.versionInfo = decimal (s.acked t).toNat → r = e.resp) ∧
        ∃ w, readDecimal (s.client.acceptedVersion t) = some w ∧ (s.acked t).toNat ≤ w) ∧
      ∀ store sendFails req rest, s.toServer = req :: rest →
        req.errorDetail ≠ none ∨ ¬((s.server.state.get req.typeUrl).hasOutstanding = true ∧
          req.responseNonce = (s.server.state.get req.typeUrl).lastNonce) →
        ∀ t, (s.step (.request store sendFails)).acked t = s.acked t := by
  intro s
  obtain ⟨h, -⟩ := (agreed_start client).run hroom
  refine ⟨h.stamped.nonces ▸ numerals_nodup _, fun t => (h.acked t).1, fun more hmore => (h.run hmore).2,
    fun t hpos => ?_, fun store sendFails req rest hqueue hheld t => ?_⟩
  · obtain ⟨e, he, htype, hversion, happlied⟩ := (h.acked t).2 hpos
    refine ⟨⟨e, he, happlied, h.mem_issued he, htype, hversion, fun r hr hrtype hrversion => ?_⟩, ?_⟩
    · exact h.stamped.eq_of_version hr (h.mem_issued he) (hrtype.trans htype.symm) (hrversion.trans hversion.symm)
    · obtain ⟨v, w, hv, hw, hle⟩ := h.accepted e he happlied
      have hacked : (s.acked t).toNat = v := decimal_injective (hversion.symm.trans hv)
      rw [htype] at hw
      refine ⟨w, ?_, hacked ▸ hle⟩
      rw [Client.acceptedVersion, hw]
      exact readDecimal_decimal w
  · simp only [Stream.step, hqueue]
    split
    · rcases onRequest_acceptedVersion store sendFails s.server req t with hsame | ⟨hnone, hout, hlast, -⟩
      · exact hsame
      · rcases hheld with herror | hstale
        · exact absurd hnone herror
        · exact absurd ⟨hout, hlast⟩ hstale
    · rfl

/-- A client of a host without entries. -/
def freshClient : Client := Client.new (Writer.new (fun _ => none) fun _ => none)

def emptyStore : Store := ⟨some [], some []⟩

/-- A subscription, its push, and the ACK. -/
theorem ads_agreement_first_ack :
    let s := execute Stream.step (.start freshClient)
      [.subscribe clusterType, .request emptyStore false, .response (fun _ => false) false, .request emptyStore false]
    s.acked clusterType = 1 ∧ ∃ e ∈ s.handled, e.Applied ∧ e.resp.typeUrl = clusterType := by
  intro s
  have hroom : s.issued.length < UInt64.size := by decide +kernel
  have hacked : s.acked clusterType = 1 := by decide +kernel
  have hpos : 0 < s.acked clusterType := by
    rw [hacked]
    decide
  obtain ⟨-, -, -, happlied, -⟩ := ads_agreement freshClient hroom
  obtain ⟨⟨e, he, hdone, -, htype, -⟩, -⟩ := happlied clusterType hpos
  exact ⟨hacked, e, he, hdone, htype⟩

/-! ### Where the counters wrap -/

def pushEmpty : Event := .push clusterType emptyStore false

theorem run_pushes (client : Client) (n : Nat) :
    let s := execute Stream.step (.start client) (List.replicate n pushEmpty)
    s.server.running = true ∧ s.server.state.nonceSeq = UInt64.ofNat n ∧
      s.issued.map (·.nonce) = (List.range n).map fun i => decimal (UInt64.ofNat (i + 1)).toNat := by
  induction n with
  | zero => exact ⟨rfl, rfl, rfl⟩
  | succ n ih =>
    obtain ⟨hrunning, hseq, hnonces⟩ := ih
    have hlast : execute Stream.step (.start client) (List.replicate (n + 1) pushEmpty) =
        (execute Stream.step (.start client) (List.replicate n pushEmpty)).step pushEmpty := by
      rw [List.replicate_succ', execute_concat]
    rw [hlast]
    generalize execute Stream.step (.start client) (List.replicate n pushEmpty) = s at hrunning hseq hnonces
    have hstep : s.step pushEmpty = s.served (s.server.push emptyStore false clusterType) := if_pos hrunning
    rw [hstep]
    refine ⟨rfl, ?_, ?_⟩
    · change s.server.state.nonceSeq + 1 = _
      rw [hseq, UInt64.ofNat_add]
      rfl
    · rw [List.range_succ, List.map_append, ← hnonces, List.map_singleton, UInt64.ofNat_add, ← hseq]
      exact List.map_append

/-- The nonce after 2^64 pushes is that of the first. -/
theorem ads_nonces_wrap :
    ¬((execute Stream.step (.start freshClient) (List.replicate (UInt64.size + 1) pushEmpty)).issued.map (·.nonce)).Nodup := by
  obtain ⟨-, -, hnonces⟩ := run_pushes freshClient (UInt64.size + 1)
  rw [hnonces]
  intro hnodup
  have hfirst : 0 ∈ List.range (UInt64.size + 1) := List.mem_range.mpr (Nat.succ_pos _)
  have hlast : UInt64.size ∈ List.range (UInt64.size + 1) := List.mem_range.mpr (Nat.lt_succ_self _)
  have hsame : UInt64.ofNat (0 + 1) = UInt64.ofNat (UInt64.size + 1) := by decide
  have hzero : 0 = UInt64.size := List.inj_on_of_nodup_map hnodup hfirst hlast (by rw [hsame])
  exact absurd hzero (by decide)

end Meridian.Ads
