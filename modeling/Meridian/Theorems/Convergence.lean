import Meridian.Theorems.Update

/-! Runs of pushes. As long as a failed apply has no net effect and every applied Endpoint push is a clean
    update, the kernel maps hold the snapshot that the client recorded, and so they hold what the last pushes
    brought whenever those were accepted. -/

namespace Meridian.Xds
open Lib Wire Cc2 Datapath

/-! ### One push -/

variable {c : Client} {resp : DiscoveryResponse} {s : Session}

theorem candidateFor_eq_ok {candidate : Snapshot} : c.candidateFor resp = .ok candidate ↔
      (resp.typeUrl = clusterType ∧ ∃ policies,
        decodeResources decodePolicyRule .clusterResource resp.resources = .ok policies ∧
          candidate = { c.applied with policies }) ∨
      (resp.typeUrl = endpointType ∧ ∃ identities,
        decodeResources decodeIdentity .endpointResource resp.resources = .ok identities ∧
          candidate = { c.applied with identities }) ∨
      (resp.typeUrl ≠ clusterType ∧ resp.typeUrl ≠ endpointType ∧ resp.resources = [] ∧ candidate = c.applied) := by
  have hne : endpointType ≠ clusterType := by decide
  unfold Client.candidateFor
  by_cases hcluster : resp.typeUrl = clusterType
  · rw [if_pos hcluster]
    cases decodeResources decodePolicyRule .clusterResource resp.resources <;>
      simp [hcluster, hne.symm, eq_comm]
  by_cases hendpoint : resp.typeUrl = endpointType
  · rw [if_neg hcluster, if_pos hendpoint]
    cases decodeResources decodeIdentity .endpointResource resp.resources <;>
      simp [hendpoint, hne, eq_comm]
  rw [if_neg hcluster, if_neg hendpoint]
  by_cases hempty : resp.resources = [] <;> simp [hcluster, hendpoint, hempty, eq_comm]

theorem handle_cases (fails : Nat → Bool) (sendFails : Bool) (c : Client) (resp : DiscoveryResponse) :
    (∃ e, (c.handle fails sendFails resp).client = c ∧ (c.handle fails sendFails resp).request = c.nack resp e) ∨
    (∃ candidate e w, c.candidateFor resp = .ok candidate ∧ apply fails (diff c.applied candidate) c.writer = (some e, w) ∧
      (c.handle fails sendFails resp).client = { c with writer := w } ∧
      (c.handle fails sendFails resp).request = c.nack resp (.applyFailed e)) ∨
    (∃ candidate w, c.candidateFor resp = .ok candidate ∧ apply fails (diff c.applied candidate) c.writer = (none, w) ∧
      (c.handle fails sendFails resp).client = { c with writer := w }.commit resp.typeUrl resp.versionInfo candidate ∧
      (c.handle fails sendFails resp).request = resp.ack) := by
  unfold Client.handle
  cases hcand : c.candidateFor resp with
  | error e => exact Or.inl ⟨e, rfl, rfl⟩
  | ok candidate =>
    dsimp only
    cases happly : apply fails (diff c.applied candidate) c.writer with
    | mk err w =>
      cases err with
      | some e => exact Or.inr (Or.inl ⟨candidate, e, w, rfl, happly, rfl, rfl⟩)
      | none => exact Or.inr (Or.inr ⟨candidate, w, rfl, happly, rfl, rfl⟩)

/-- The kernel maps and the writer's record are those of the recorded snapshot. -/
structure InSync (c : Client) : Prop where
  tracks : Tracks c.writer c.applied.identities
  keys : (c.applied.policies.map (·.key)).Nodup
  rules : HoldsRules c.writer.policyMap c.applied.policies
  identities : HoldsIdentities c.writer.identityMap c.applied.identities

/-- A response whose resources decode, to rules with distinct keys or to identities with distinct IDs and
    addresses. -/
structure WellFormed (resp : DiscoveryResponse) : Prop where
  cluster : resp.typeUrl = clusterType → ∃ policies,
    decodeResources decodePolicyRule .clusterResource resp.resources = .ok policies ∧ (policies.map (·.key)).Nodup
  endpoint : resp.typeUrl = endpointType → ∃ identities,
    decodeResources decodeIdentity .endpointResource resp.resources = .ok identities ∧ DistinctIdentities identities

/-- The operations before a failing one have no net effect, and a push without a failing one is a clean update. -/
structure CleanStep (c : Client) (push : Push) : Prop where
  failed : ∀ candidate n, c.candidateFor push.resp = .ok candidate →
    firstFailure push.fails (planOps c.writer (diff c.applied candidate)) 0 = some n →
      NoNetEffect c.writer (opsBefore c.writer (diff c.applied candidate) n)
  applied : ∀ candidate, c.candidateFor push.resp = .ok candidate →
    firstFailure push.fails (planOps c.writer (diff c.applied candidate)) 0 = none →
      CleanUpdate c.applied.identities candidate.identities

theorem WellFormed.candidate {candidate : Snapshot} (hwf : WellFormed resp) (hsync : InSync c)
    (hcand : c.candidateFor resp = .ok candidate) :
    (candidate.policies.map (·.key)).Nodup ∧ DistinctIdentities candidate.identities := by
  rcases candidateFor_eq_ok.mp hcand with ⟨hurl, policies, hdec, rfl⟩ | ⟨hurl, identities, hdec, rfl⟩ | ⟨-, -, -, rfl⟩
  · obtain ⟨policies', hdec', hkeys⟩ := hwf.cluster hurl
    rw [hdec, Except.ok.injEq] at hdec'
    exact ⟨hdec' ▸ hkeys, hsync.tracks.toDistinctIdentities⟩
  · obtain ⟨identities', hdec', hdistinct⟩ := hwf.endpoint hurl
    rw [hdec, Except.ok.injEq] at hdec'
    exact ⟨hsync.keys, hdec' ▸ hdistinct⟩
  · exact ⟨hsync.keys, hsync.tracks.toDistinctIdentities⟩

theorem InSync.handle {c : Client} {push : Push} (hsync : InSync c) (hwf : WellFormed push.resp)
    (hclean : CleanStep c push) : InSync (c.handle push.fails push.sendFails push.resp).client := by
  rcases handle_cases push.fails push.sendFails c push.resp with ⟨e, hclient, -⟩ | ⟨candidate, e, w, hcand, happly, hclient, -⟩ |
    ⟨candidate, w, hcand, happly, hclient, -⟩
  · rw [hclient]
    exact hsync
  · -- A NACKed apply: nothing changed.
    cases hfail : firstFailure push.fails (planOps c.writer (diff c.applied candidate)) 0 with
    | none =>
      have := apply_eq_none_iff.mpr hfail
      rw [happly] at this
      cases this
    | some n =>
      have hw := (apply_writer_eq_self_iff hfail).mpr (hclean.failed candidate n hcand hfail)
      rw [happly] at hw
      rw [hclient, show w = c.writer from hw]
      exact hsync
  · obtain ⟨hkeys, hdistinct⟩ := hwf.candidate hsync hcand
    have hnone : firstFailure push.fails (planOps c.writer (diff c.applied candidate)) 0 = none :=
      apply_eq_none_iff.mp (congrArg Prod.fst happly)
    rw [hclient]
    exact ⟨hsync.tracks.apply_ok happly hdistinct, hkeys, hsync.tracks.policies_apply_ok happly hsync.keys hkeys hsync.rules,
      (hsync.tracks.identities_apply_ok_iff happly hdistinct hsync.identities).mpr
        (hclean.applied candidate hcand hnone)⟩

/-! ### Runs -/

def lastOn (typeUrl : String) (log : List (DiscoveryResponse × DiscoveryRequest)) :
    Option (DiscoveryResponse × DiscoveryRequest) := (log.filter fun e => e.1.typeUrl = typeUrl).getLast?

theorem lastOn_snoc (typeUrl : String) (log : List (DiscoveryResponse × DiscoveryRequest))
    (e : DiscoveryResponse × DiscoveryRequest) :
    lastOn typeUrl (log ++ [e]) = if e.1.typeUrl = typeUrl then some e else lastOn typeUrl log := by
  unfold lastOn
  rw [List.filter_append]
  by_cases h : e.1.typeUrl = typeUrl <;> simp [h]

/-- What was accepted last on each channel is what the client recorded. -/
structure Recorded (s : Session) : Prop where
  cluster : ∀ e, lastOn clusterType s.log = some e → e.2.errorDetail = none →
    decodeResources decodePolicyRule .clusterResource e.1.resources = .ok s.client.applied.policies
  endpoint : ∀ e, lastOn endpointType s.log = some e → e.2.errorDetail = none →
    decodeResources decodeIdentity .endpointResource e.1.resources = .ok s.client.applied.identities

section
variable {ρ : Type} {decode : AnyMsg → Except Cc2Error ρ} {err : Nat → Cc2Error → PushError} {rs : List ρ}
  {typeUrl : String} {log : List (DiscoveryResponse × DiscoveryRequest)} {resp : DiscoveryResponse}
  {req : DiscoveryRequest}

/-- An exchange on another channel, or a refused one, does not change what was accepted last. -/
theorem accepted_snoc_other
    (h : ∀ e, lastOn typeUrl log = some e → e.2.errorDetail = none → decodeResources decode err e.1.resources = .ok rs)
    (hskip : resp.typeUrl ≠ typeUrl ∨ req.errorDetail ≠ none) :
    ∀ e, lastOn typeUrl (log ++ [(resp, req)]) = some e → e.2.errorDetail = none →
      decodeResources decode err e.1.resources = .ok rs := by
  intro e hlast hack
  rw [lastOn_snoc] at hlast
  split at hlast
  · rename_i hurl
    cases hlast
    rcases hskip with hother | hnack
    · exact absurd hurl hother
    · exact absurd hack hnack
  · exact h e hlast hack

theorem accepted_snoc_self (hurl : resp.typeUrl = typeUrl) (hdec : decodeResources decode err resp.resources = .ok rs) :
    ∀ e, lastOn typeUrl (log ++ [(resp, req)]) = some e → e.2.errorDetail = none →
      decodeResources decode err e.1.resources = .ok rs := by
  intro e hlast _
  rw [lastOn_snoc, if_pos hurl] at hlast
  cases hlast
  exact hdec

end

theorem Recorded.nack (h : Recorded s) {req : DiscoveryRequest} (happlied : c.applied = s.client.applied)
    (hnack : req.errorDetail ≠ none) : Recorded ⟨c, s.log ++ [(resp, req)]⟩ := by
  constructor
  · rw [happlied]
    exact accepted_snoc_other h.cluster (Or.inr hnack)
  · rw [happlied]
    exact accepted_snoc_other h.endpoint (Or.inr hnack)

theorem Recorded.ack (h : Recorded s) {candidate : Snapshot} (hcand : s.client.candidateFor resp = .ok candidate)
    (happlied : c.applied = candidate) :
    Recorded ⟨c, s.log ++ [(resp, resp.ack)]⟩ := by
  have hne : endpointType ≠ clusterType := by decide
  rcases candidateFor_eq_ok.mp hcand with ⟨hurl, policies, hdec, heq⟩ | ⟨hurl, identities, hdec, heq⟩ |
    ⟨hcluster, hendpoint, -, heq⟩
  · constructor <;> rw [happlied, heq]
    · exact accepted_snoc_self hurl hdec
    · exact accepted_snoc_other h.endpoint (Or.inl (hurl ▸ hne.symm))
  · constructor <;> rw [happlied, heq]
    · exact accepted_snoc_other h.cluster (Or.inl (hurl ▸ hne))
    · exact accepted_snoc_self hurl hdec
  · constructor <;> rw [happlied, heq]
    · exact accepted_snoc_other h.cluster (Or.inl hcluster)
    · exact accepted_snoc_other h.endpoint (Or.inl hendpoint)

theorem Recorded.step {s : Session} (h : Recorded s) (push : Push) : Recorded (s.step push) := by
  unfold Session.step
  rcases handle_cases push.fails push.sendFails s.client push.resp with ⟨e, hclient, hreq⟩ |
    ⟨candidate, e, w, -, -, hclient, hreq⟩ | ⟨candidate, w, hcand, -, hclient, hreq⟩
  · exact h.nack (by rw [hclient]) (by rw [hreq]; simp [Client.nack])
  · exact h.nack (by rw [hclient]) (by rw [hreq]; simp [Client.nack])
  · rw [hreq]
    exact h.ack hcand (by rw [hclient]; rfl)

theorem run_inSync {pushes : List Push} (hsync : InSync s.client) (hrec : Recorded s)
    (hwf : ∀ push ∈ pushes, WellFormed push.resp) (hclean : Steps Session.step (fun s => CleanStep s.client) s pushes) :
    InSync (execute Session.step s pushes).client ∧ Recorded (execute Session.step s pushes) := by
  induction pushes generalizing s with
  | nil => exact ⟨hsync, hrec⟩
  | cons push rest ih =>
    obtain ⟨hpush, hrest⟩ := List.forall_mem_cons.mp hwf
    exact ih (hsync.handle hpush hclean.1) (hrec.step push) hrest hclean.2

theorem inSync_start : InSync Session.start.client where
  tracks := tracks_new _ _
  keys := List.nodup_nil
  rules := by simp [HoldsRules, Session.start, Client.new, Writer.new]
  identities := by simp [HoldsIdentities, Session.start, Client.new, Writer.new]

theorem recorded_start : Recorded Session.start := ⟨by simp [lastOn, Session.start], by simp [lastOn, Session.start]⟩

/-- After clean steps, once the most recent pushes on both channels are accepted, the kernel maps hold exactly
    what they brought. -/
theorem accepted_pushes_held {pushes : List Push} (hwf : ∀ push ∈ pushes, WellFormed push.resp)
    (hclean : Steps Session.step (fun s => CleanStep s.client) .start pushes) {rc re : DiscoveryResponse}
    {qc qe : DiscoveryRequest}
    (hcluster : lastOn clusterType (execute Session.step .start pushes).log = some (rc, qc)) (hcack : qc.errorDetail = none)
    (hendpoint : lastOn endpointType (execute Session.step .start pushes).log = some (re, qe)) (heack : qe.errorDetail = none) :
    ∃ policies identities,
      decodeResources decodePolicyRule .clusterResource rc.resources = .ok policies ∧
      decodeResources decodeIdentity .endpointResource re.resources = .ok identities ∧
      HoldsRules (execute Session.step .start pushes).client.writer.policyMap policies ∧
      HoldsIdentities (execute Session.step .start pushes).client.writer.identityMap identities := by
  obtain ⟨hsync, hrec⟩ := run_inSync inSync_start recorded_start hwf hclean
  exact ⟨_, _, hrec.cluster _ hcluster hcack, hrec.endpoint _ hendpoint heack, hsync.rules, hsync.identities⟩

def quietPush (typeUrl : String) (resources : List AnyMsg) : Push :=
  ⟨⟨typeUrl, "1", "n", resources⟩, fun _ => false, false⟩

theorem cleanStep_of_ok {push : Push} (candidate : Snapshot) (hcand : c.candidateFor push.resp = .ok candidate)
    (hnone : firstFailure push.fails (planOps c.writer (diff c.applied candidate)) 0 = none)
    (hclean : CleanUpdate c.applied.identities candidate.identities) : CleanStep c push := by
  constructor
  · intro candidate' n hcand' hfail
    obtain rfl := Except.ok.inj (hcand.symm.trans hcand')
    rw [hnone] at hfail
    cases hfail
  · intro candidate' hcand' _
    obtain rfl := Except.ok.inj (hcand.symm.trans hcand')
    exact hclean

def firstRule : PolicyRule := ⟨⟨7, 8, 80, 6, 0⟩, ⟨policyActionAllow, 0⟩⟩

def firstPushes : List Push :=
  [quietPush clusterType [encodePolicyRule firstRule], quietPush endpointType [encodeIdentity (pod 7 "10.0.0.1")]]

/-- A push that is refused at its first operation, and two that are accepted. -/
def refusedFirst : List Push :=
  { quietPush clusterType [encodePolicyRule firstRule] with fails := fun n => n = 0 } :: firstPushes

theorem refusedFirst_wellFormed : ∀ push ∈ refusedFirst, WellFormed push.resp := by
  have hcluster : WellFormed (quietPush clusterType [encodePolicyRule firstRule]).resp :=
    ⟨fun _ => ⟨[firstRule], by decide +kernel, by decide⟩, fun h => absurd h (by decide)⟩
  refine List.forall_mem_cons.mpr ⟨hcluster, fun push hpush => ?_⟩
  rcases List.mem_pair.mp hpush with rfl | rfl
  · exact hcluster
  · exact ⟨fun h => absurd h (by decide), fun _ => ⟨[pod 7 "10.0.0.1"], by decide +kernel, by decide, by decide⟩⟩

theorem refusedFirst_clean : Steps Session.step (fun s => CleanStep s.client) .start refusedFirst := by
  refine ⟨⟨fun candidate n hcand hfail => ?_, fun candidate hcand hnone => ?_⟩, ?_, ?_, trivial⟩
  · cases hcand.symm.trans (show _ = Except.ok ⟨[firstRule], []⟩ by decide +kernel)
    cases hfail.symm.trans (show _ = some 0 by decide +kernel)
    constructor <;> intro _ _ h <;> cases h
  · cases hcand.symm.trans (show _ = Except.ok ⟨[firstRule], []⟩ by decide +kernel)
    cases hnone.symm.trans (show _ = some 0 by decide +kernel)
  · exact cleanStep_of_ok ⟨[firstRule], []⟩ (by decide +kernel) (by decide +kernel) ⟨by decide, by decide⟩
  · exact cleanStep_of_ok ⟨[firstRule], [pod 7 "10.0.0.1"]⟩ (by decide +kernel) (by decide +kernel)
      ⟨by decide, by decide⟩

theorem accepted_pushes_held_refused :
    ∃ policies identities,
      decodeResources decodePolicyRule .clusterResource [encodePolicyRule firstRule] = .ok policies ∧
      decodeResources decodeIdentity .endpointResource [encodeIdentity (pod 7 "10.0.0.1")] = .ok identities ∧
      HoldsRules (execute Session.step .start refusedFirst).client.writer.policyMap policies ∧
      HoldsIdentities (execute Session.step .start refusedFirst).client.writer.identityMap identities :=
  have hcluster : lastOn clusterType (execute Session.step .start refusedFirst).log =
      some ((quietPush clusterType [encodePolicyRule firstRule]).resp, ⟨clusterType, "1", "n", none⟩) := rfl
  have hendpoint : lastOn endpointType (execute Session.step .start refusedFirst).log =
      some ((quietPush endpointType [encodeIdentity (pod 7 "10.0.0.1")]).resp, ⟨endpointType, "1", "n", none⟩) := rfl
  accepted_pushes_held refusedFirst_wellFormed refusedFirst_clean hcluster rfl hendpoint rfl

/-- Two rules of which the second cannot be written, and then an empty rule list. -/
def partialPushes : List Push :=
  [{ quietPush clusterType (twoRulePlan.policyUpserts.map encodePolicyRule) with fails := fun n => n = 1 },
   quietPush clusterType [], quietPush endpointType []]

/-- The first push is refused and the other two are accepted, but its first rule is in the policy map. -/
theorem accepted_pushes_not_held :
    (lastOn clusterType (execute Session.step .start partialPushes).log).map (·.2.errorDetail) = some none ∧
      (lastOn clusterType (execute Session.step .start partialPushes).log).map (·.1.resources.length) = some 0 ∧
      (lastOn endpointType (execute Session.step .start partialPushes).log).map (·.2.errorDetail) = some none ∧
      (execute Session.step .start partialPushes).client.writer.policyMap ⟨7, 8, 80, 6, 0⟩ = some ⟨policyActionAllow, 0⟩ := by
  decide +kernel

end Meridian.Xds
