import Meridian.Theorems.Steering

/-! The accounts of denied flows: the map of denied flows, the counter of denied flows, and the DENY events with the
    reservations that failed for them. A packet that ingress drops leaves one record in each, under its own flow key
    and with the reason that applied; a packet that it passes leaves none. -/

namespace Meridian.Bpf
open Lib

/-! ### Accounts -/

def FlowEvent.flow (e : FlowEvent) : FlowKey :=
  { srcIp := e.srcIp, dstIp := e.dstIp, srcPort := e.srcPort, dstPort := e.dstPort, proto := e.proto }

def FlowEvent.isDeny (e : FlowEvent) : Bool := e.verdict = flowVerdictDeny

/-- Nothing that belongs to a denied flow has changed. -/
structure SameAccounts (m m' : Maps) : Prop where
  deniedFlowsMap : m'.deniedFlowsMap = m.deniedFlowsMap
  flowsDenied : m'.metricsMap .flowsDenied = m.metricsMap .flowsDenied
  ringbufDropped : m'.metricsMap .ringbufDropped = m.metricsMap .ringbufDropped
  flowEvents : m'.flowEvents = m.flowEvents

/-- No flow was recorded as denied; events of other verdicts may have been submitted or lost. -/
structure DenyFree (m m' : Maps) : Prop where
  deniedFlowsMap : m'.deniedFlowsMap = m.deniedFlowsMap
  flowsDenied : m'.metricsMap .flowsDenied = m.metricsMap .flowsDenied
  flowEvents : ∃ es, m'.flowEvents = m.flowEvents ++ es ∧ es.countP FlowEvent.isDeny = 0

/-- One denied flow was recorded, for this reason: its entry counts it and carries the reason, the counter is one
    higher, and either one DENY event of the flow was submitted or one reservation is counted as failed. -/
structure DenyRecorded (now : UInt64) (flow : FlowKey) (reason : DropReason) (m m' : Maps) : Prop where
  deniedFlowsMap : m'.deniedFlowsMap = Table.put m.deniedFlowsMap flow ⟨now, deniedCount m flow + 1, reason⟩
  flowsDenied : m'.metricsMap .flowsDenied = m.metricsMap .flowsDenied + 1
  event : (∃ e : FlowEvent, e.flow = flow ∧ e.isDeny ∧ m'.flowEvents = m.flowEvents ++ [e] ∧
        m'.metricsMap .ringbufDropped = m.metricsMap .ringbufDropped) ∨
      (m'.flowEvents = m.flowEvents ∧ m'.metricsMap .ringbufDropped = m.metricsMap .ringbufDropped + 1)

section
variable {m m₁ m₂ : Maps} {now : UInt64} {flow : FlowKey} {reason : DropReason}

theorem SameAccounts.refl (m : Maps) : SameAccounts m m := ⟨rfl, rfl, rfl, rfl⟩

theorem SameAccounts.trans (h : SameAccounts m m₁) (h' : SameAccounts m₁ m₂) : SameAccounts m m₂ :=
  ⟨h'.deniedFlowsMap.trans h.deniedFlowsMap, h'.flowsDenied.trans h.flowsDenied,
    h'.ringbufDropped.trans h.ringbufDropped, h'.flowEvents.trans h.flowEvents⟩

theorem DenyFree.refl (m : Maps) : DenyFree m m := ⟨rfl, rfl, [], (List.append_nil _).symm, rfl⟩

theorem SameAccounts.denyFree (h : SameAccounts m m₁) (h' : DenyFree m₁ m₂) : DenyFree m m₂ where
  deniedFlowsMap := h'.deniedFlowsMap.trans h.deniedFlowsMap
  flowsDenied := h'.flowsDenied.trans h.flowsDenied
  flowEvents := h.flowEvents ▸ h'.flowEvents

theorem SameAccounts.denyRecorded (h : SameAccounts m m₁) (h' : DenyRecorded now flow reason m₁ m₂) :
    DenyRecorded now flow reason m m₂ := by
  obtain ⟨hmap, hcounter, hevent⟩ := h'
  rw [deniedCount, h.deniedFlowsMap] at hmap
  rw [h.flowsDenied] at hcounter
  rw [h.flowEvents, h.ringbufDropped] at hevent
  exact ⟨hmap, hcounter, hevent⟩

theorem metricAdd_self (c : Ctx) (id : MetricId) (delta : UInt64) :
    (metricAdd c id delta).maps.metricsMap id = c.maps.metricsMap id + delta :=
  Function.update_self ..

theorem metricAdd_of_ne (c : Ctx) {id other : MetricId} (delta : UInt64) (h : other ≠ id) :
    (metricAdd c id delta).maps.metricsMap other = c.maps.metricsMap other :=
  Function.update_of_ne h _ _

theorem metricAdd_sameAccounts (c : Ctx) {id : MetricId} (delta : UInt64) (hdenied : id ≠ .flowsDenied)
    (hdropped : id ≠ .ringbufDropped) : SameAccounts c.maps (metricAdd c id delta).maps :=
  ⟨rfl, metricAdd_of_ne c delta hdenied.symm, metricAdd_of_ne c delta hdropped.symm, rfl⟩

end

section
variable (env : Env) (c : Ctx) (flow : FlowKey) (srcId dstId bytes : UInt32)

theorem emitFlowEvent_cases (verdict : UInt8) :
    (∃ e : FlowEvent, e.flow = flow ∧ e.verdict = verdict ∧
        (emitFlowEvent env c flow verdict srcId dstId bytes).maps = { c.maps with flowEvents := c.maps.flowEvents ++ [e] }) ∨
      (emitFlowEvent env c flow verdict srcId dstId bytes).maps = (metricAdd c .ringbufDropped 1).maps := by
  unfold emitFlowEvent
  dsimp only
  cases env.reserveFails c.reserves with
  | true => exact Or.inr rfl
  | false => exact Or.inl ⟨_, rfl, rfl, rfl⟩

theorem recordDeny_recorded (reason : DropReason) :
    DenyRecorded env.ktimeNs flow reason c.maps (recordDeny env c flow reason srcId dstId bytes).maps := by
  have hdenied : MetricId.flowsDenied ≠ .ringbufDropped := by decide
  let c₁ := deniedFlowUpsert env c flow reason
  rcases emitFlowEvent_cases env (metricAdd c₁ .flowsDenied 1) flow srcId dstId bytes flowVerdictDeny with
    ⟨e, hflow, hverdict, hmaps⟩ | hmaps
  · rw [recordDeny, hmaps]
    refine ⟨rfl, metricAdd_self c₁ .flowsDenied 1, Or.inl ⟨e, hflow, decide_eq_true hverdict, rfl, ?_⟩⟩
    exact metricAdd_of_ne c₁ 1 hdenied.symm
  · rw [recordDeny, hmaps]
    refine ⟨rfl, ?_, Or.inr ⟨rfl, ?_⟩⟩
    · rw [metricAdd_of_ne _ 1 hdenied]
      exact metricAdd_self c₁ .flowsDenied 1
    · rw [metricAdd_self, metricAdd_of_ne c₁ 1 hdenied.symm]
      rfl

/-- An event of another verdict, after the counter of its kind. -/
theorem emitFlowEvent_denyFree {id : MetricId} {verdict : UInt8} (hid : id ≠ .flowsDenied)
    (hverdict : verdict ≠ flowVerdictDeny) :
    DenyFree c.maps (emitFlowEvent env (metricAdd c id 1) flow verdict srcId dstId bytes).maps := by
  have hcounter := metricAdd_of_ne c 1 hid.symm
  rcases emitFlowEvent_cases env (metricAdd c id 1) flow srcId dstId bytes verdict with ⟨e, -, he, hmaps⟩ | hmaps
  · rw [hmaps]
    refine ⟨rfl, hcounter, [e], rfl, ?_⟩
    simp [FlowEvent.isDeny, he, hverdict]
  · rw [hmaps]
    refine ⟨rfl, ?_, [], (List.append_nil _).symm, rfl⟩
    rw [metricAdd_of_ne _ 1 (by decide), hcounter]

end

/-! ### The judged flow -/

/-- Why a flow is denied, when it is. -/
def dropReason (m : Maps) (srcId dstId : UInt32) (key : PolicyKey) : Option DropReason :=
  if srcId = 0 || dstId = 0 then if failopenUnknownEnabled m then none else some .unknownIdentity
  else
    match m.policyMap key with
    | none => some .policyMiss
    | some verdict =>
      if verdict.action = flowVerdictAllow || verdict.action = flowVerdictRedirect then none
      else if verdict.action = flowVerdictDeny then some .policyDeny
      else some .invalidAction

/-- The run from `c` to `c'` has made no packet helper call and has kept the packet's bytes and the tables. -/
structure Judged (c c' : Ctx) : Prop where
  data : c'.skb.data = c.skb.data
  skbCalls : c'.skbCalls = c.skbCalls
  tables : SameTables c.maps c'.maps

section
variable {env : Env} {c c' c'' : Ctx}

theorem Judged.refl (c : Ctx) : Judged c c := ⟨rfl, rfl, SameTables.refl _⟩

theorem Judged.trans (h : Judged c c') (h' : Judged c' c'') : Judged c c'' :=
  ⟨h'.data.trans h.data, h'.skbCalls.trans h.skbCalls, h.tables.trans h'.tables⟩

theorem metricAdd_judged (c : Ctx) (id : MetricId) (delta : UInt64) : Judged c (metricAdd c id delta) :=
  ⟨rfl, rfl, rfl, rfl, rfl⟩

theorem emitFlowEvent_judged (env : Env) (c : Ctx) (flow : FlowKey) (verdict : UInt8) (srcId dstId bytes : UInt32) :
    Judged c (emitFlowEvent env c flow verdict srcId dstId bytes) := by
  unfold emitFlowEvent
  dsimp only
  split <;> exact ⟨rfl, rfl, rfl, rfl, rfl⟩

theorem recordDeny_judged (env : Env) (c : Ctx) (flow : FlowKey) (reason : DropReason) (srcId dstId bytes : UInt32) :
    Judged c (recordDeny env c flow reason srcId dstId bytes) := by
  have hupsert : Judged c (deniedFlowUpsert env c flow reason) := ⟨rfl, rfl, rfl, rfl, rfl⟩
  exact hupsert.trans ((metricAdd_judged _ .flowsDenied 1).trans (emitFlowEvent_judged ..))

theorem countDecodeFail_judged (c : Ctx) (geneve : Option (Option UInt32)) (saddr : UInt32) :
    Judged c (countDecodeFail c geneve saddr) ∧ SameAccounts c.maps (countDecodeFail c geneve saddr).maps := by
  unfold countDecodeFail
  split
  · split
    · exact ⟨metricAdd_judged .., metricAdd_sameAccounts c 1 (by decide) (by decide)⟩
    · exact ⟨Judged.refl c, SameAccounts.refl _⟩
  · exact ⟨Judged.refl c, SameAccounts.refl _⟩

theorem opensFlow_judged (c : Ctx) (d : List UInt8) (ip : Nat) (key : FlowKey) :
    Judged c (opensFlow c d ip key).2 ∧ SameAccounts c.maps (opensFlow c d ip key).2.maps := by
  unfold opensFlow udpFirstSight
  split
  · exact ⟨Judged.refl c, SameAccounts.refl _⟩
  · split
    · split
      · exact ⟨Judged.refl c, SameAccounts.refl _⟩
      · exact ⟨⟨rfl, rfl, rfl, rfl, rfl⟩, rfl, rfl, rfl, rfl⟩
    · exact ⟨Judged.refl c, SameAccounts.refl _⟩

variable {d : List UInt8} {ip : Nat} {packetBytes : UInt32} {srcPort dstPort : UInt16} {srcId dstId : UInt32}
  {denyAction : TcAct}

theorem enforceFlow_denied {reason : DropReason} (hdeny : denyAction ≠ .ok)
    (h : dropReason c.maps srcId dstId (policyKeyOf srcId dstId dstPort (ipProtocol d ip)) = some reason) :
    (enforceFlow env c d ip packetBytes srcPort dstPort srcId dstId denyAction).1 ≠ .ok ∧
      (enforceFlow env c d ip packetBytes srcPort dstPort srcId dstId denyAction).2 =
        recordDeny env c (flowKeyOf d ip srcPort dstPort) reason srcId dstId packetBytes := by
  have hshot : TcAct.shot ≠ .ok := by decide
  unfold dropReason at h
  unfold enforceFlow
  dsimp only
  split at h
  · rename_i hids
    rw [if_pos hids]
    split at h
    · cases h
    · rename_i hclosed
      cases h
      rw [if_neg hclosed]
      exact ⟨hshot, rfl⟩
  · rename_i hids
    rw [if_neg hids]
    cases hentry : c.maps.policyMap (policyKeyOf srcId dstId dstPort (ipProtocol d ip)) with
    | none =>
      rw [hentry] at h
      cases h
      exact ⟨hshot, rfl⟩
    | some verdict =>
      rw [hentry] at h
      dsimp only at h ⊢
      split at h
      · cases h
      · rename_i hpass
        simp only [Bool.or_eq_true, decide_eq_true_eq, not_or] at hpass
        rw [if_neg hpass.1, if_neg hpass.2]
        split at h
        · rename_i hverdict
          cases h
          rw [if_pos hverdict]
          exact ⟨hdeny, rfl⟩
        · rename_i hverdict
          cases h
          rw [if_neg hverdict]
          exact ⟨hshot, rfl⟩

/-- The flow passes without a trace in the accounts of denials. -/
def Passes (c : Ctx) (r : TcAct × Ctx) : Prop := r.1 = .ok ∧ Judged c r.2 ∧ DenyFree c.maps r.2.maps

section
variable {verdict : PolicyVerdict} (hids : ¬(srcId = 0 || dstId = 0) = true)
  (hentry : c.maps.policyMap (policyKeyOf srcId dstId dstPort (ipProtocol d ip)) = some verdict)
include hids hentry

theorem enforceFlow_allowed (hallow : verdict.action = flowVerdictAllow) :
    Passes c (enforceFlow env c d ip packetBytes srcPort dstPort srcId dstId denyAction) := by
  unfold enforceFlow
  dsimp only
  rw [if_neg hids, hentry]
  dsimp only
  rw [if_pos hallow]
  obtain ⟨hjudged, hsame⟩ := opensFlow_judged c d ip (flowKeyOf d ip srcPort dstPort)
  generalize opensFlow c d ip (flowKeyOf d ip srcPort dstPort) = r at hjudged hsame ⊢
  obtain ⟨opens, c'⟩ := r
  cases opens with
  | true =>
    refine ⟨rfl, hjudged.trans ((metricAdd_judged ..).trans (emitFlowEvent_judged ..)), ?_⟩
    exact hsame.denyFree (emitFlowEvent_denyFree env c' _ srcId dstId packetBytes (by decide) (by decide))
  | false => exact ⟨rfl, hjudged, hsame.denyFree (DenyFree.refl _)⟩

theorem enforceFlow_redirected (hredirect : verdict.action = flowVerdictRedirect) :
    Passes c (enforceFlow env c d ip packetBytes srcPort dstPort srcId dstId denyAction) := by
  unfold enforceFlow
  dsimp only
  rw [if_neg hids, hentry]
  dsimp only
  rw [if_neg (by rw [hredirect]; decide), if_neg (by rw [hredirect]; decide), if_pos hredirect]
  let c₁ : Ctx := { c with skb := { c.skb with mark := c.skb.mark ||| meridianMarkRedirectPlaceholder } }
  have hmark : Judged c c₁ := ⟨rfl, rfl, rfl, rfl, rfl⟩
  have hid : MetricId.flowsRedirected ≠ .flowsDenied := by decide
  refine ⟨rfl, hmark.trans ((metricAdd_judged c₁ .flowsRedirected 1).trans (emitFlowEvent_judged ..)), ?_⟩
  exact emitFlowEvent_denyFree env c₁ (flowKeyOf d ip srcPort dstPort) srcId dstId packetBytes hid
    (show flowVerdictRedirect ≠ flowVerdictDeny by decide)

end

theorem enforceFlow_passed
    (h : dropReason c.maps srcId dstId (policyKeyOf srcId dstId dstPort (ipProtocol d ip)) = none) :
    Passes c (enforceFlow env c d ip packetBytes srcPort dstPort srcId dstId denyAction) := by
  unfold dropReason at h
  split at h
  · rename_i hids
    split at h
    · rename_i hopen
      unfold enforceFlow
      dsimp only
      rw [if_pos hids, if_pos hopen]
      exact ⟨rfl, Judged.refl c, DenyFree.refl _⟩
    · cases h
  · rename_i hids
    cases hentry : c.maps.policyMap (policyKeyOf srcId dstId dstPort (ipProtocol d ip)) with
    | none =>
      rw [hentry] at h
      cases h
    | some verdict =>
      rw [hentry] at h
      dsimp only at h
      split at h
      · rename_i hpass
        simp only [Bool.or_eq_true, decide_eq_true_eq] at hpass
        rcases hpass with hallow | hredirect
        · exact enforceFlow_allowed hids hentry hallow
        · exact enforceFlow_redirected hids hentry hredirect
      · split at h <;> cases h

end

/-! ### The program -/

/-- The flow of the packet at `ip` and why it is denied, when it is. -/
def flowDenial (m : Maps) (d : List UInt8) (ip : Nat) (geneve : Option (Option UInt32)) : Option (FlowKey × DropReason) :=
  match parseL4Ports d ip with
  | none => none
  | some (srcPort, dstPort) =>
    let srcId := sourceIdentity m geneve (ipSaddr d ip)
    let dstId := mappedIdentity m (ipDaddr d ip)
    (dropReason m srcId dstId (policyKeyOf srcId dstId dstPort (ipProtocol d ip))).map fun reason =>
      (flowKeyOf d ip srcPort dstPort, reason)

/-- A passed packet is stripped when it came with the identity option. -/
def stripPassed (env : Env) (geneve : Option (Option UInt32 × StripOffsets)) (c : Ctx) : Ctx :=
  match geneve with
  | some (some _, offs) => (stripMeridianTlv env c offs).2
  | _ => c

theorem SameTables.dropReason_eq {m m' : Maps} (h : SameTables m m') (srcId dstId : UInt32) (key : PolicyKey) :
    dropReason m' srcId dstId key = dropReason m srcId dstId key := by
  unfold dropReason
  rw [h.failopenUnknownEnabled_eq, h.policyMap]

theorem SameTables.flowDenial_eq {m m' : Maps} (h : SameTables m m') (d : List UInt8) (ip : Nat)
    (geneve : Option (Option UInt32)) : flowDenial m' d ip geneve = flowDenial m d ip geneve := by
  unfold flowDenial
  simp only [h.sourceIdentity_eq, h.mappedIdentity_eq, h.dropReason_eq]

/-- The packet is dropped and recorded, or it is passed, and then nothing is recorded and the option is stripped if
    the ports could be read. -/
theorem ingressFlow_cases (env : Env) (c : Ctx) (d : List UInt8) (ip : Nat) (packetBytes : UInt32)
    (geneve : Option (Option UInt32 × StripOffsets)) :
    ((ingressFlow env c d ip packetBytes geneve).1.action ≠ .ok ∧ Judged c (ingressFlow env c d ip packetBytes geneve).2 ∧
        ∃ flow reason, flowDenial c.maps d ip (geneve.map (·.1)) = some (flow, reason) ∧
          DenyRecorded env.ktimeNs flow reason c.maps (ingressFlow env c d ip packetBytes geneve).2.maps) ∨
      ((ingressFlow env c d ip packetBytes geneve).1.action = .ok ∧
        ∃ c', Judged c c' ∧ DenyFree c.maps c'.maps ∧
          (ingressFlow env c d ip packetBytes geneve).2 =
            if (parseL4Ports d ip).isSome then stripPassed env geneve c' else c') := by
  unfold ingressFlow flowDenial
  dsimp only
  cases parseL4Ports d ip with
  | none => exact Or.inr ⟨rfl, c, Judged.refl c, DenyFree.refl _, rfl⟩
  | some ports =>
    obtain ⟨srcPort, dstPort⟩ := ports
    obtain ⟨hjudged, hsame⟩ := countDecodeFail_judged c (geneve.map (·.1)) (ipSaddr d ip)
    have htables := hjudged.tables
    dsimp only
    generalize countDecodeFail c (geneve.map (·.1)) (ipSaddr d ip) = c₁ at hjudged hsame htables ⊢
    generalize sourceIdentity c.maps (geneve.map (·.1)) (ipSaddr d ip) = srcId
    generalize mappedIdentity c.maps (ipDaddr d ip) = dstId
    have hfree₁ : DenyFree c.maps c₁.maps := hsame.denyFree (DenyFree.refl _)
    split
    · exact Or.inr ⟨rfl, c₁, hjudged, hfree₁, rfl⟩
    · have hdeny : (if geneve.isSome then TcAct.stolen else .shot) ≠ .ok := by split <;> decide
      rw [← htables.dropReason_eq]
      cases hreason : dropReason c₁.maps srcId dstId (policyKeyOf srcId dstId dstPort (ipProtocol d ip)) with
      | some reason =>
        obtain ⟨haction, hrecord⟩ := @enforceFlow_denied env c₁ d ip packetBytes srcPort dstPort srcId dstId _ reason hdeny
          hreason
        refine Or.inl ⟨haction, ?_, _, reason, rfl, ?_⟩
        · rw [if_neg haction, hrecord]
          exact hjudged.trans (recordDeny_judged ..)
        · rw [if_neg haction, hrecord]
          exact hsame.denyRecorded (recordDeny_recorded ..)
      | none =>
        obtain ⟨haction, hjudged₂, hfree₂⟩ := @enforceFlow_passed env c₁ d ip packetBytes srcPort dstPort srcId dstId
          (if geneve.isSome then .stolen else .shot) hreason
        exact Or.inr ⟨haction, _, hjudged.trans hjudged₂, hsame.denyFree hfree₂, if_pos haction⟩

end Meridian.Bpf
