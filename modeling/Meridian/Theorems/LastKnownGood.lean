import Mathlib.Data.List.DropRight
import Meridian.Agent.XdsRun
import Meridian.Theorems.Convergence

/-! What the agent holds over one stream after another. It is a function of its answers alone, however the streams ended:
    what is applied and accepted is that of the last ACK of each type, and the proxy's table is that of the last ACK that
    went out. -/

namespace Meridian.Xds
open Lib Wire Cc2 Datapath Proxy

/-! ### What the answers say -/

/-- The last answer to a response of a type that accepted it. -/
def lastAccepted (typeUrl : String) (answers : List Answer) : Option Answer :=
  (answers.filter fun a => decide (a.resp.typeUrl = typeUrl) && a.accepted).getLast?

def acceptedPolicies (answers : List Answer) : List PolicyRule :=
  match lastAccepted clusterType answers with
  | none => []
  | some a => (decodeResources decodePolicyRule .clusterResource a.resp.resources).toOption.getD []

def acceptedIdentities (answers : List Answer) : List Identity :=
  match lastAccepted endpointType answers with
  | none => []
  | some a => (decodeResources decodeIdentity .endpointResource a.resp.resources).toOption.getD []

/-- The answer was an ACK and went out, so that the hook ran. -/
def Answer.announced (a : Answer) : Bool := a.accepted && a.sent

/-- The answers up to the last one that was announced. -/
def announcedPart (answers : List Answer) : List Answer := answers.rdropWhile fun a => !a.announced

theorem lastAccepted_snoc (typeUrl : String) (answers : List Answer) (a : Answer) :
    lastAccepted typeUrl (answers ++ [a]) =
      if a.resp.typeUrl = typeUrl ∧ a.accepted = true then some a else lastAccepted typeUrl answers := by
  unfold lastAccepted
  rw [List.filter_append]
  by_cases h : a.resp.typeUrl = typeUrl ∧ a.accepted = true
  · simp [h]
  · have hnone : [a].filter (fun a => decide (a.resp.typeUrl = typeUrl) && a.accepted) = [] :=
      List.filter_eq_nil_iff.mpr (by simpa using h)
    rw [if_neg h, hnone, List.append_nil]

variable {a : Answer}

theorem lastAccepted_snoc_nack (typeUrl : String) (answers : List Answer) (ha : a.accepted = false) :
    lastAccepted typeUrl (answers ++ [a]) = lastAccepted typeUrl answers := by
  rw [lastAccepted_snoc, if_neg (by simp [ha])]

theorem acceptedPolicies_snoc_nack (answers : List Answer) (ha : a.accepted = false) :
    acceptedPolicies (answers ++ [a]) = acceptedPolicies answers := by
  rw [acceptedPolicies, acceptedPolicies, lastAccepted_snoc_nack _ _ ha]

theorem acceptedIdentities_snoc_nack (answers : List Answer) (ha : a.accepted = false) :
    acceptedIdentities (answers ++ [a]) = acceptedIdentities answers := by
  rw [acceptedIdentities, acceptedIdentities, lastAccepted_snoc_nack _ _ ha]

theorem acceptedPolicies_snoc (answers : List Answer) (ha : a.accepted = true) :
    acceptedPolicies (answers ++ [a]) = if a.resp.typeUrl = clusterType then
      (decodeResources decodePolicyRule .clusterResource a.resp.resources).toOption.getD [] else acceptedPolicies answers := by
  rw [acceptedPolicies, lastAccepted_snoc]
  by_cases h : a.resp.typeUrl = clusterType <;> simp [h, ha, acceptedPolicies]

theorem acceptedIdentities_snoc (answers : List Answer) (ha : a.accepted = true) :
    acceptedIdentities (answers ++ [a]) = if a.resp.typeUrl = endpointType then
      (decodeResources decodeIdentity .endpointResource a.resp.resources).toOption.getD [] else acceptedIdentities answers := by
  rw [acceptedIdentities, lastAccepted_snoc]
  by_cases h : a.resp.typeUrl = endpointType <;> simp [h, ha, acceptedIdentities]

/-! ### One response -/

/-- The hook runs exactly after an ACK that went out. -/
theorem handle_announced (fails : Nat → Bool) (sendFails : Bool) (c : Client) (resp : DiscoveryResponse) :
    (c.handle fails sendFails resp).announced.isSome =
      ((c.handle fails sendFails resp).request.errorDetail.isNone && !sendFails) := by
  unfold Client.handle
  cases c.candidateFor resp with
  | error e => rfl
  | ok candidate =>
    dsimp only
    rcases apply fails (diff c.applied candidate) c.writer with ⟨_ | e, w⟩
    · cases sendFails <;> rfl
    · rfl

/-- What an ACK applies is what the answers with it say. -/
theorem candidate_eq_accepted {c : Client} {resp : DiscoveryResponse} {candidate : Snapshot} {answers : List Answer}
    (hcand : c.candidateFor resp = .ok candidate)
    (happlied : c.applied = ⟨acceptedPolicies answers, acceptedIdentities answers⟩) (hresp : a.resp = resp)
    (ha : a.accepted = true) : candidate = ⟨acceptedPolicies (answers ++ [a]), acceptedIdentities (answers ++ [a])⟩ := by
  have hne : endpointType ≠ clusterType := by decide
  subst hresp
  rw [acceptedPolicies_snoc answers ha, acceptedIdentities_snoc answers ha]
  rcases candidateFor_eq_ok.mp hcand with ⟨hurl, policies, hdec, rfl⟩ | ⟨hurl, identities, hdec, rfl⟩ |
    ⟨hcluster, hendpoint, -, rfl⟩
  · rw [if_pos hurl, if_neg (hurl ▸ hne.symm), hdec, happlied]
    rfl
  · rw [if_neg (hurl ▸ hne), if_pos hurl, hdec, happlied]
    rfl
  · rw [if_neg hcluster, if_neg hendpoint, happlied]

/-- The resources of a response of the types that carry the store decode. -/
structure Answer.Decodes (x : Answer) : Prop where
  cluster : x.resp.typeUrl = clusterType →
    ∃ policies, decodeResources decodePolicyRule .clusterResource x.resp.resources = .ok policies
  endpoint : x.resp.typeUrl = endpointType →
    ∃ identities, decodeResources decodeIdentity .endpointResource x.resp.resources = .ok identities

theorem decodes_of_candidate {c : Client} {resp : DiscoveryResponse} {candidate : Snapshot}
    (hcand : c.candidateFor resp = .ok candidate) {request : DiscoveryRequest} {sent : Bool} :
    Answer.Decodes ⟨resp, request, sent⟩ := by
  have hne : endpointType ≠ clusterType := by decide
  rcases candidateFor_eq_ok.mp hcand with ⟨hurl, policies, hdec, -⟩ | ⟨hurl, identities, hdec, -⟩ |
    ⟨hcluster, hendpoint, -, -⟩
  · exact ⟨fun _ => ⟨policies, hdec⟩, fun h => absurd (h.symm.trans hurl) hne⟩
  · exact ⟨fun h => absurd (hurl.symm.trans h) hne, fun _ => ⟨identities, hdec⟩⟩
  · exact ⟨fun h => absurd h hcluster, fun h => absurd h hendpoint⟩

/-- The agent's state as its answers determine it; what it accepted decodes, and a NACK names the version that was accepted
    before it. -/
structure Agent.Held (a : Agent) : Prop where
  applied : a.client.applied = ⟨acceptedPolicies a.answers, acceptedIdentities a.answers⟩
  accepted : ∀ t, a.client.accepted t = (lastAccepted t a.answers).map (·.resp.versionInfo)
  resolver : a.resolver = .update (acceptedIdentities (announcedPart a.answers))
  decodes : ∀ x ∈ a.answers, x.accepted = true → x.Decodes
  nacks : ∀ before x after, a.answers = before ++ x :: after → x.accepted = false →
    x.request.versionInfo = ((lastAccepted x.resp.typeUrl before).map (·.resp.versionInfo)).getD ""

namespace Agent

variable {a : Agent}

/-- The clause about NACKs, with one more answer. -/
theorem Held.nacks_snoc (h : Held a) {x : Answer}
    (hx : x.accepted = false → x.request.versionInfo = a.client.acceptedVersion x.resp.typeUrl) {before after : List Answer}
    {y : Answer} (hsplit : a.answers ++ [x] = before ++ y :: after) (hy : y.accepted = false) :
    y.request.versionInfo = ((lastAccepted y.resp.typeUrl before).map (·.resp.versionInfo)).getD "" := by
  rcases List.eq_nil_or_concat after with rfl | ⟨after, z, rfl⟩
  · obtain ⟨rfl, hlast⟩ := List.append_inj' hsplit rfl
    cases hlast
    rw [hx hy, Client.acceptedVersion, h.accepted]
  · rw [List.concat_eq_append, ← List.cons_append, ← List.append_assoc] at hsplit
    obtain ⟨hfront, -⟩ := List.append_inj' hsplit rfl
    exact h.nacks before y after hfront hy

theorem Held.refused (h : Held a) {b : Agent} {resp : DiscoveryResponse} {err : PushError} {sent : Bool}
    (happlied : b.client.applied = a.client.applied) (haccepted : b.client.accepted = a.client.accepted)
    (hanswers : b.answers = a.answers ++ [⟨resp, a.client.nack resp err, sent⟩]) (hresolver : b.resolver = a.resolver) :
    Held b := by
  refine ⟨?_, ?_, ?_, ?_, ?_⟩ <;> rw [hanswers]
  · rw [happlied, acceptedPolicies_snoc_nack _ rfl, acceptedIdentities_snoc_nack _ rfl]
    exact h.applied
  · intro t
    rw [haccepted, lastAccepted_snoc_nack _ _ rfl]
    exact h.accepted t
  · rw [hresolver, announcedPart, List.rdropWhile_concat_pos _ _ _ rfl]
    exact h.resolver
  · exact List.forall_mem_append.mpr ⟨h.decodes, by simp [Answer.accepted, Client.nack]⟩
  · exact fun before y after hsplit hy => h.nacks_snoc (fun _ => rfl) hsplit hy

theorem Held.acked (h : Held a) {b : Agent} {resp : DiscoveryResponse} {candidate : Snapshot} {w : Writer} {sent : Bool}
    (hcand : a.client.candidateFor resp = .ok candidate)
    (hclient : b.client = { a.client with writer := w }.commit resp.typeUrl resp.versionInfo candidate)
    (hanswers : b.answers = a.answers ++ [⟨resp, resp.ack, sent⟩])
    (hresolver : b.resolver = if sent then .update candidate.identities else a.resolver) : Held b := by
  have hcandidate := candidate_eq_accepted (a := ⟨resp, resp.ack, sent⟩) hcand h.applied rfl rfl
  refine ⟨?_, ?_, ?_, ?_, ?_⟩ <;> rw [hanswers]
  · rw [hclient]
    exact hcandidate
  · intro t
    rw [hclient, lastAccepted_snoc]
    dsimp only [Client.commit]
    by_cases ht : resp.typeUrl = t
    · subst ht
      rw [Table.put_same, if_pos ⟨rfl, rfl⟩]
      rfl
    · rw [Table.put_of_ne ht, if_neg fun hand => ht hand.1]
      exact h.accepted t
  · rw [hresolver, announcedPart]
    cases sent with
    | true =>
      rw [if_pos rfl, List.rdropWhile_concat_neg _ _ _ Bool.false_ne_true]
      exact congrArg (fun s : Snapshot => MapSpiffeIDResolver.update s.identities) hcandidate
    | false =>
      rw [if_neg Bool.false_ne_true, List.rdropWhile_concat_pos _ _ _ rfl]
      exact h.resolver
  · refine List.forall_mem_append.mpr ⟨h.decodes, fun x hx _ => ?_⟩
    rw [List.mem_singleton.mp hx]
    exact decodes_of_candidate hcand
  · refine fun before y after hsplit hy => h.nacks_snoc (fun hack => ?_) hsplit hy
    cases hack

theorem Held.handle (h : Held a) (fails : Nat → Bool) (sendFails : Bool) (resp : DiscoveryResponse) :
    Held (a.handle fails sendFails resp) := by
  have hres : (a.handle fails sendFails resp).resolver =
      if (a.client.handle fails sendFails resp).request.errorDetail.isNone && !sendFails then
        .update (a.client.handle fails sendFails resp).client.applied.identities else a.resolver := by
    have hannounced := handle_announced fails sendFails a.client resp
    unfold Agent.handle
    dsimp only
    rw [← hannounced]
    cases (a.client.handle fails sendFails resp).announced <;> rfl
  have hanswers : (a.handle fails sendFails resp).answers =
      a.answers ++ [⟨resp, (a.client.handle fails sendFails resp).request, !sendFails⟩] := rfl
  have hclient : (a.handle fails sendFails resp).client = (a.client.handle fails sendFails resp).client := rfl
  rcases handle_cases fails sendFails a.client resp with ⟨e, heq, hreq⟩ | ⟨candidate, e, w, -, -, heq, hreq⟩ |
    ⟨candidate, w, hcand, -, heq, hreq⟩ <;> rw [heq] at hclient hres <;> rw [hreq] at hanswers hres
  · exact h.refused (by rw [hclient]) (by rw [hclient]) hanswers hres
  · exact h.refused (by rw [hclient]) (by rw [hclient]) hanswers hres
  · exact h.acked hcand hclient hanswers hres

/-- What the loop does beside its answers. -/
theorem Held.keep (h : Held a) {b : Agent} (hclient : b.client = a.client) (hanswers : b.answers = a.answers)
    (hresolver : b.resolver = a.resolver) : Held b := by
  refine ⟨?_, ?_, ?_, ?_, ?_⟩ <;> rw [hanswers]
  · rw [hclient]
    exact h.applied
  · rw [hclient]
    exact h.accepted
  · rw [hresolver]
    exact h.resolver
  · exact h.decodes
  · exact h.nacks

theorem Held.step (h : Held a) (e : Event) : Held (a.step e) := by
  cases e with
  | dial fails draw =>
    simp only [Agent.step, Agent.dial]
    split
    · split
      · exact h.keep rfl rfl rfl
      · exact h.keep rfl rfl rfl
    · exact h
  | subscribe fails draw =>
    simp only [Agent.step, Agent.subscribe]
    split
    · exact h.keep rfl rfl rfl
    · split
      · exact h.keep rfl rfl rfl
      · exact h.keep rfl rfl rfl
    · exact h
  | recv resp fails sendFails draw =>
    simp only [Agent.step, Agent.recv]
    split
    · split
      · exact (h.handle fails sendFails resp).keep rfl rfl rfl
      · exact (h.handle fails sendFails resp).keep rfl rfl rfl
    · exact h
  | recvError draw =>
    simp only [Agent.step, Agent.recvError]
    split
    · exact h.keep rfl rfl rfl
    · exact h
  | timer =>
    simp only [Agent.step, Agent.timer]
    split
    · exact h.keep rfl rfl rfl
    · exact h
  | cancel => exact h.keep rfl rfl rfl

theorem Held.start (writer : Writer) : Held (.start writer) :=
  ⟨rfl, fun _ => rfl, rfl, fun x hx => (by cases hx), fun before x after hsplit => by simp [Agent.start] at hsplit⟩

end Agent

/-- Over any number of streams, broken off anywhere: what the client has applied and accepted is that of its last ACK of
    each type, a NACK names the version accepted before it, and the proxy's table is behind exactly by the ACKs after the
    last one that went out. -/
theorem last_known_good (writer : Writer) (events : List Agent.Event) :
    (execute Agent.step (.start writer) events).Held :=
  execute_inv (I := Agent.Held) (fun _ e h => h.step e) (Agent.Held.start writer) events

end Meridian.Xds
