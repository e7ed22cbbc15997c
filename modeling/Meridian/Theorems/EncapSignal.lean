import Meridian.Theorems.Accounting
import Meridian.Theorems.EgressRules
import Meridian.Theorems.Transport

/-! The signals of an encapsulation failure at egress. Every path to the label `encap_fail` counts the failure; the
    records of the denied flow are made only where the flow was known before the jump. -/

namespace Meridian.Bpf
open Lib

/-! ### The label -/

theorem recordDeny_metric {env : Env} {c : Ctx} {id : MetricId} (flow : FlowKey) (reason : DropReason)
    (srcId dstId bytes : UInt32) (hdenied : id ≠ .flowsDenied) (hdropped : id ≠ .ringbufDropped) :
    (recordDeny env c flow reason srcId dstId bytes).maps.metricsMap id = c.maps.metricsMap id := by
  have hcounter := metricAdd_of_ne (deniedFlowUpsert env c flow reason) 1 hdenied
  rcases emitFlowEvent_cases env (metricAdd (deniedFlowUpsert env c flow reason) .flowsDenied 1) flow srcId dstId bytes
    flowVerdictDeny with ⟨e, -, -, hmaps⟩ | hmaps
  · rw [recordDeny, hmaps]
    exact hcounter
  · rw [recordDeny, hmaps, metricAdd_of_ne _ 1 hdropped]
    exact hcounter

section
variable {env : Env} {c : Ctx} {packetBytes : UInt32} {flow : Option (FlowKey × UInt32 × UInt32)}

theorem encapFail_counted :
    (encapFail env c packetBytes flow).2.maps.metricsMap .geneveEncapFail = c.maps.metricsMap .geneveEncapFail + 1 := by
  have hcounter := metricAdd_self c .geneveEncapFail 1
  unfold encapFail
  dsimp only
  split
  · exact hcounter
  · split
    · rw [recordDeny_metric _ _ _ _ _ (by decide) (by decide)]
      exact hcounter
    · exact hcounter

theorem encapFail_closed (h : failopenUnknownEnabled c.maps = false) :
    (encapFail env c packetBytes flow).1.action = .shot ∧
      match flow with
      | some (key, _, _) => DenyRecorded env.ktimeNs key .geneveEncapFail c.maps (encapFail env c packetBytes flow).2.maps
      | none => SameAccounts c.maps (encapFail env c packetBytes flow).2.maps := by
  have hopen : failopenUnknownEnabled (metricAdd c .geneveEncapFail 1).maps = false := h
  have hsame := @metricAdd_sameAccounts c .geneveEncapFail 1 (by decide) (by decide)
  refine ⟨by rw [encapFail_action, encapFailAction, h]; rfl, ?_⟩
  unfold encapFail
  dsimp only
  rw [hopen]
  cases flow with
  | none => exact hsame
  | some f => exact hsame.denyRecorded (recordDeny_recorded ..)

end

/-! ### The inner flow -/

/-- The addresses and the protocol are those of the inner packet, and the ports too if they can be read. -/
structure InnerFlow (d : List UInt8) (g : EgressGeneve) (flow : FlowKey) : Prop where
  srcIp : flow.srcIp = ipSaddr d g.innerIp
  dstIp : flow.dstIp = ipDaddr d g.innerIp
  proto : flow.proto = ipProtocol d g.innerIp
  ports : ∀ srcPort dstPort, parseL4Ports d g.innerIp = some (srcPort, dstPort) →
    flow.srcPort = srcPort ∧ flow.dstPort = dstPort

/-- Neither stamped nor dropped by an entry: the program went to the label, with the flow if the ports can be read. -/
theorem egressInner_failure {env : Env} {c : Ctx} {d : List UInt8} {g : EgressGeneve} {packetBytes : UInt32}
    (hdeny : (egressInner env c d g packetBytes).1 ≠ .deny)
    (hstamped : ∀ s, (egressInner env c d g packetBytes).1 ≠ .stamped s) :
    ∃ c' flow, egressInner env c d g packetBytes = encapFail env c' packetBytes flow ∧ c'.maps = c.maps ∧
      match flow with
      | some (key, _, _) => parseL4Ports d g.innerIp ≠ none ∧ InnerFlow d g key
      | none => parseL4Ports d g.innerIp = none := by
  unfold egressInner at hdeny hstamped ⊢
  cases hports : parseL4Ports d g.innerIp with
  | none => exact ⟨c, none, rfl, rfl, rfl⟩
  | some ports =>
    obtain ⟨srcPort, dstPort⟩ := ports
    have hflow : some (srcPort, dstPort) ≠ none ∧ InnerFlow d g
        { srcIp := ipSaddr d g.innerIp, dstIp := ipDaddr d g.innerIp, srcPort, dstPort, proto := ipProtocol d g.innerIp } := by
      refine ⟨Option.some_ne_none _, rfl, rfl, rfl, fun srcPort' dstPort' h => ?_⟩
      cases hports.symm.trans h
      exact ⟨rfl, rfl⟩
    rw [hports] at hdeny hstamped
    dsimp only at hdeny hstamped ⊢
    split
    · exact ⟨c, some _, rfl, rfl, hflow⟩
    · rename_i hsrc
      rw [if_neg hsrc] at hdeny hstamped
      split
      · rename_i hdenied
        rw [if_pos hdenied] at hdeny
        exact absurd rfl hdeny
      · rename_i hdenied
        rw [if_neg hdenied] at hstamped
        split
        · exact ⟨c, some _, rfl, rfl, hflow⟩
        · rename_i hcount
          rw [if_neg hcount] at hstamped
          have hmaps := egressStamp_maps env c g (mappedIdentity c.maps (ipSaddr d g.innerIp))
          generalize egressStamp env c g (mappedIdentity c.maps (ipSaddr d g.innerIp)) = stamp at hmaps hstamped ⊢
          obtain ⟨failed, c'⟩ := stamp
          cases failed with
          | true => exact ⟨c', some _, rfl, hmaps, hflow⟩
          | false => exact absurd rfl (hstamped _)

/-! ### Packets in sequence -/

def Arrival.egress (a : Arrival) (m : Maps) : EgressExit × Ctx := meridianTcEgress a.env (a.maps m) a.skb

def egressStep (m : Maps) (a : Arrival) : Maps := (a.egress m).2.maps

/-- The packet entered the Geneve branch, its inner header was located, and it was neither stamped nor dropped by an
    explicit DENY. -/
structure EncapFailure (m : Maps) (a : Arrival) (g : EgressGeneve) : Prop where
  pulled : a.env.skbFails 0 = false
  tunnel : egressParse a.skb.data = .tunnel g
  notDenied : (a.egress m).1 ≠ .deny
  notStamped : ∀ s, (a.egress m).1 ≠ .stamped s

/-- The failure is counted, and with the fail-open bit clear the packet is dropped and recorded in its inner flow. -/
structure FailureSignalled (m : Maps) (a : Arrival) (g : EgressGeneve) : Prop where
  counted : (egressStep m a).metricsMap .geneveEncapFail = m.metricsMap .geneveEncapFail + 1
  recorded : failopenUnknownEnabled (a.maps m) = false → (a.egress m).1.action = .shot ∧
    ∃ flow, InnerFlow a.skb.data g flow ∧ DenyRecorded a.env.ktimeNs flow .geneveEncapFail m (egressStep m a)

theorem EncapFailure.cases {m : Maps} {a : Arrival} {g : EgressGeneve} (h : EncapFailure m a g) :
    ∃ c flow, a.egress m = encapFail a.env c (UInt32.ofNat a.skb.data.length) flow ∧ c.maps = a.maps m ∧
      match flow with
      | some (key, _, _) => parseL4Ports a.skb.data g.innerIp ≠ none ∧ InnerFlow a.skb.data g key
      | none => parseL4Ports a.skb.data g.innerIp = none := by
  have hrun : a.egress m =
      egressInner a.env (egressStart (a.maps m) a.skb) a.skb.data g (UInt32.ofNat a.skb.data.length) := by
    rw [Arrival.egress, meridianTcEgress_eq _ _ h.pulled, h.tunnel]
  have hdeny := h.notDenied
  have hstamped := h.notStamped
  rw [hrun] at hdeny hstamped ⊢
  exact egressInner_failure hdeny hstamped

theorem EncapFailure.signalled_iff {m : Maps} {a : Arrival} {g : EgressGeneve} (h : EncapFailure m a g) :
    FailureSignalled m a g ↔
      (failopenUnknownEnabled (a.maps m) = false → parseL4Ports a.skb.data g.innerIp ≠ none) := by
  obtain ⟨c, flow, hrun, hmaps, hflow⟩ := h.cases
  have hfound : SameAccounts m c.maps := hmaps ▸ ⟨rfl, rfl, rfl, rfl⟩
  have hcounted : (egressStep m a).metricsMap .geneveEncapFail = m.metricsMap .geneveEncapFail + 1 := by
    rw [egressStep, hrun, encapFail_counted, hmaps]
    rfl
  constructor
  · rintro ⟨-, hrecorded⟩ hclosed hports
    obtain ⟨-, key, -, hrecord⟩ := hrecorded hclosed
    -- The accounts are as they were, so the counter cannot be one higher.
    have hfail := (@encapFail_closed a.env c (UInt32.ofNat a.skb.data.length) flow (hmaps ▸ hclosed)).2
    cases flow with
    | none =>
      have hsame := (hfound.trans hfail).flowsDenied
      rw [← hrun] at hsame
      have hone := hrecord.flowsDenied.symm.trans hsame
      simp at hone
    | some f => exact hflow.1 hports
  · intro hreadable
    refine ⟨hcounted, fun hclosed => ?_⟩
    obtain ⟨haction, hfail⟩ := @encapFail_closed a.env c (UInt32.ofNat a.skb.data.length) flow (hmaps ▸ hclosed)
    cases flow with
    | none => exact absurd hflow (hreadable hclosed)
    | some f =>
      rw [← hrun] at haction hfail
      exact ⟨haction, f.1, hflow.2, hfound.denyRecorded hfail⟩

/-- A packet whose inner ports cannot be read is never stamped and never denied by an entry. -/
theorem encapFailure_of_unreadable {m : Maps} {a : Arrival} {g : EgressGeneve} (hpull : a.env.skbFails 0 = false)
    (hparse : egressParse a.skb.data = .tunnel g) (hports : parseL4Ports a.skb.data g.innerIp = none) :
    EncapFailure m a g := by
  have hrun : a.egress m =
      encapFail a.env (egressStart (a.maps m) a.skb) (UInt32.ofNat a.skb.data.length) none := by
    rw [Arrival.egress, meridianTcEgress_eq _ _ hpull, hparse]
    dsimp only
    rw [egressInner, hports]
  refine ⟨hpull, hparse, ?_, ?_⟩
  · rw [hrun, encapFail]
    split <;> simp
  · intro s hs
    rw [hrun] at hs
    exact encapFail_ne_stamped _ _ s (Prod.ext hs rfl)

/-- In every sequence of packets, all encapsulation failures are signalled exactly when no tunnel packet whose inner
    ports cannot be read comes while the fail-open bit is clear. -/
theorem egress_failures_signalled_iff (m : Maps) (as : List Arrival) :
    Steps egressStep (fun m a => ∀ g, EncapFailure m a g → FailureSignalled m a g) m as ↔
      Steps egressStep (fun m a => ∀ g, a.env.skbFails 0 = false → egressParse a.skb.data = .tunnel g →
        failopenUnknownEnabled (a.maps m) = false → parseL4Ports a.skb.data g.innerIp ≠ none) m as := by
  refine steps_congr (I := fun _ => True) (fun _ _ _ => trivial) (fun m a _ => ?_) trivial as
  constructor
  · intro h g hpull hparse hclosed hports
    have hfailure := encapFailure_of_unreadable (m := m) hpull hparse hports
    exact hfailure.signalled_iff.mp (h g hfailure) hclosed hports
  · intro h g hfailure
    exact hfailure.signalled_iff.mpr (h g hfailure.pulled hfailure.tunnel)

/-- A Geneve frame that ends after the inner IPv4 header, before the ports of its TCP segment. -/
def truncatedInner : List UInt8 := (tunnelFrame [] [] 64).take 70

/-- With the fail-open bit clear its failure is dropped, and neither the counter nor the map nor the ring shows it. -/
theorem egress_failure_not_signalled :
    EncapFailure senderMaps ⟨quietEnv, ⟨truncatedInner, 0⟩, senderMaps.identityMap, fun _ => none, none, fun _ => none⟩
        ⟨14, 34, 42, 0, 0, 50, 50, 0⟩ ∧
      ¬FailureSignalled senderMaps
        ⟨quietEnv, ⟨truncatedInner, 0⟩, senderMaps.identityMap, fun _ => none, none, fun _ => none⟩
        ⟨14, 34, 42, 0, 0, 50, 50, 0⟩ := by
  have hparse : egressParse truncatedInner = .tunnel ⟨14, 34, 42, 0, 0, 50, 50, 0⟩ := by decide +kernel
  have hports : parseL4Ports truncatedInner 50 = none := by decide +kernel
  have hfailure := encapFailure_of_unreadable (m := senderMaps)
    (a := ⟨quietEnv, ⟨truncatedInner, 0⟩, senderMaps.identityMap, fun _ => none, none, fun _ => none⟩) rfl hparse hports
  exact ⟨hfailure, fun h => hfailure.signalled_iff.mp h rfl hports⟩

end Meridian.Bpf
