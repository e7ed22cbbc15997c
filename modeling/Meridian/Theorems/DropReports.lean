import Meridian.Agent.Metrics
import Meridian.Theorems.Accounting

/-! The two reports of a dropped packet. Both start from words that the kernel copied out of the packet; the telemetry
    event takes their bytes in the order of memory, the reader of denied flows takes those of the addresses backwards. -/

namespace Meridian.Metrics
open Lib Bpf

/-! ### The packet's own flow -/

/-- A 16-bit number in network order. -/
def hostPortAt (d : List UInt8) (i : Nat) : UInt16 := UInt16.ofNat (256 * (byteAt d i).toNat + (byteAt d (i + 1)).toNat)

/-- The flow of the packet at `ip`, byte by byte; a protocol without ports has zeros for them. -/
def packetFlow (d : List UInt8) (ip : Nat) : Telemetry.Flow :=
  let hasPorts := ipProtocol d ip = ipprotoTcp || ipProtocol d ip = ipprotoUdp
  { srcIP := quadAt d (ip + 12)
    dstIP := quadAt d (ip + 16)
    srcPort := if hasPorts then hostPortAt d (ipPayload d ip) else 0
    dstPort := if hasPorts then hostPortAt d (ipPayload d ip + 2) else 0
    proto := byteAt d (ip + 9) }

theorem swapU16_loadU16 (d : List UInt8) (i : Nat) : swapU16 (loadU16 d i) = hostPortAt d i := by
  have h0 := (byteAt d i).toNat_lt
  have h1 := (byteAt d (i + 1)).toNat_lt
  apply UInt16.toNat_inj.mp
  rw [toNat_swapU16, loadU16, hostPortAt, UInt16.toNat_ofNat', UInt16.toNat_ofNat']
  generalize (byteAt d i).toNat = lo at *
  generalize (byteAt d (i + 1)).toNat = hi at *
  rw [Nat.mod_eq_of_lt (by omega : lo + 256 * hi < 2 ^ 16), Nat.mod_eq_of_lt (by omega : 256 * lo + hi < 2 ^ 16),
    Nat.add_mul_div_left lo hi (by decide), Nat.add_mul_mod_self_left, Nat.div_eq_of_lt h0, Nat.mod_eq_of_lt h0]
  omega

variable {d : List UInt8} {key : FlowKey} {reason : DropReason}

theorem ports_of_parse {ip : Nat} {srcPort dstPort : UInt16} (h : parseL4Ports d ip = some (srcPort, dstPort)) :
    swapU16 srcPort = (packetFlow d ip).srcPort ∧ swapU16 dstPort = (packetFlow d ip).dstPort := by
  simp only [parseL4Ports, packetFlow] at h ⊢
  split at h
  · cases h
  · split at h
    · rename_i hports
      split at h
      · cases h
      · cases h
        rw [hports, if_pos rfl, if_pos rfl]
        exact ⟨swapU16_loadU16 d _, swapU16_loadU16 d _⟩
    · rename_i hports
      cases h
      rw [if_neg hports, if_neg hports]
      exact ⟨rfl, rfl⟩

/-! ### Reports -/

/-- The words of a flow with their bytes in the order of memory. -/
def wireFlow (key : FlowKey) : Telemetry.Flow :=
  ⟨.littleEndian key.srcIp, .littleEndian key.dstIp, swapU16 key.srcPort, swapU16 key.dstPort, key.proto⟩

theorem fromWire_flow (bootNs : Int) (e : FlowEvent) : (Telemetry.fromWire bootNs e).flow = wireFlow e.flow := rfl

theorem wireFlow_flowKeyOf {ip : Nat} {srcPort dstPort : UInt16} (h : parseL4Ports d ip = some (srcPort, dstPort)) :
    wireFlow (flowKeyOf d ip srcPort dstPort) = packetFlow d ip := by
  obtain ⟨hsrc, hdst⟩ := ports_of_parse h
  rw [wireFlow, flowKeyOf, ipSaddr, ipDaddr, littleEndian_loadU32, littleEndian_loadU32, hsrc, hdst]
  rfl

/-- The reader of denied flows has the same ports and the addresses backwards. -/
theorem deniedFlow_flow (r : MapDeniedReader) (key : FlowKey) (value : DeniedFlowInfo) :
    (r.deniedFlow key value).flow =
      { wireFlow key with srcIP := (wireFlow key).srcIP.reverse, dstIP := (wireFlow key).dstIP.reverse } := rfl

def reasonCode : DropReason → UInt32
  | .policyDeny => 1
  | .policyMiss => 2
  | .unknownIdentity => 3
  | .invalidAction => 4
  | .geneveEncapFail => 5

/-- An entry of the map as user space reads it. -/
def infoOf (info : DenyInfo) : DeniedFlowInfo := ⟨info.lastNs, info.count, reasonCode info.reason⟩

/-- The entry under `key` and an event that was submitted between `m` and `m'` both report the flow. -/
structure Reported (r : MapDeniedReader) (bootNs : Int) (m m' : Maps) (key : FlowKey) (flow : Telemetry.Flow) : Prop where
  denied : ∀ info, m'.deniedFlowsMap key = some info → (r.deniedFlow key (infoOf info)).flow = flow
  event : ∀ e, m'.flowEvents = m.flowEvents ++ [e] → (Telemetry.fromWire bootNs e).flow = flow

theorem event_of_denyRecorded {now : UInt64} {m m' : Maps} (h : DenyRecorded now key reason m m') (bootNs : Int)
    {e : FlowEvent} (he : m'.flowEvents = m.flowEvents ++ [e]) : (Telemetry.fromWire bootNs e).flow = wireFlow key := by
  rcases h.event with ⟨e', hflow, -, hevents, -⟩ | ⟨hevents, -⟩
  · have hsame : e' = e := List.singleton_inj.mp (List.append_cancel_left (hevents.symm.trans he))
    rw [fromWire_flow, ← hsame, hflow]
  · rw [hevents] at he
    exact absurd (List.self_eq_append_right.mp he) (List.cons_ne_nil e [])

theorem reported_iff {now : UInt64} {m m' : Maps} (h : DenyRecorded now key reason m m') (r : MapDeniedReader) (bootNs : Int) :
    Reported r bootNs m m' key (wireFlow key) ↔
      (wireFlow key).srcIP.reverse = (wireFlow key).srcIP ∧ (wireFlow key).dstIP.reverse = (wireFlow key).dstIP := by
  constructor
  · intro hreported
    have hdenied := hreported.denied _ (by rw [h.deniedFlowsMap]; exact Table.put_same ..)
    rw [deniedFlow_flow, Telemetry.Flow.mk.injEq] at hdenied
    exact ⟨hdenied.1, hdenied.2.1⟩
  · rintro ⟨hsrc, hdst⟩
    refine ⟨fun info _ => ?_, fun e he => event_of_denyRecorded h bootNs he⟩
    rw [deniedFlow_flow, hsrc, hdst]

theorem exists_of_ingressDenial {m : Maps} (h : ingressDenial m d = some (key, reason)) :
    ∃ ip option srcPort dstPort, judgedPacket d = some (ip, option) ∧ parseL4Ports d ip = some (srcPort, dstPort) ∧
      key = flowKeyOf d ip srcPort dstPort := by
  obtain ⟨⟨ip, option⟩, hjudged, hdenial⟩ := Option.bind_eq_some_iff.mp h
  unfold flowDenial at hdenial
  split at hdenial
  · cases hdenial
  · rename_i srcPort dstPort hports
    obtain ⟨reason', -, heq⟩ := Option.map_eq_some_iff.mp hdenial
    cases heq
    exact ⟨ip, option, srcPort, dstPort, hjudged, hports, rfl⟩

/-- A packet that ingress drops leaves an entry for its flow. That entry and the event, where it is submitted, both report
    the packet's own addresses, ports and protocol exactly when its two addresses read the same backwards. -/
theorem drop_reports_iff {m : Maps} {a : Arrival} (h : a.dropped m = true) (r : MapDeniedReader) (bootNs : Int) :
    ∃ ip option srcPort dstPort, judgedPacket a.skb.data = some (ip, option) ∧
      parseL4Ports a.skb.data ip = some (srcPort, dstPort) ∧
      (∃ info, (ingressStep m a).deniedFlowsMap =
        Table.put m.deniedFlowsMap (flowKeyOf a.skb.data ip srcPort dstPort) info) ∧
      (Reported r bootNs m (ingressStep m a) (flowKeyOf a.skb.data ip srcPort dstPort) (packetFlow a.skb.data ip) ↔
        ((packetFlow a.skb.data ip).srcIP.b0 = (packetFlow a.skb.data ip).srcIP.b3 ∧
          (packetFlow a.skb.data ip).srcIP.b1 = (packetFlow a.skb.data ip).srcIP.b2) ∧
        (packetFlow a.skb.data ip).dstIP.b0 = (packetFlow a.skb.data ip).dstIP.b3 ∧
          (packetFlow a.skb.data ip).dstIP.b1 = (packetFlow a.skb.data ip).dstIP.b2) := by
  rcases ingressStep_cases m a with ⟨-, key, reason, hdenial, hrecord⟩ | ⟨hpassed, -⟩
  · obtain ⟨ip, option, srcPort, dstPort, hjudged, hports, rfl⟩ := exists_of_ingressDenial hdenial
    refine ⟨ip, option, srcPort, dstPort, hjudged, hports, ⟨_, hrecord.deniedFlowsMap⟩, ?_⟩
    rw [← wireFlow_flowKeyOf hports, reported_iff hrecord, Quad.reverse_eq_iff, Quad.reverse_eq_iff]
  · rw [h] at hpassed
    cases hpassed

/-- A frame that arrives on a node without identities and policies. -/
def strangeArrival (data : List UInt8) : Arrival :=
  { env := quietEnv, skb := { data, mark := 0 }, identityMap := fun _ => none, policyMap := fun _ => none,
    runtimeConfigMap := none, udpSeenFlowsMap := fun _ => none }

def emptyMaps : Maps := .fresh (fun _ => none) (fun _ => none) none

def plainReader : MapDeniedReader := ⟨none, none, none⟩

/-- A TCP SYN from 10.0.0.10 to port 8080 of 10.1.1.10. -/
def symmetricFrame : List UInt8 := plainFrame.take 26 ++ [10, 0, 0, 10, 10, 1, 1, 10] ++ plainFrame.drop 34

theorem symmetric_drop_reported :
    (strangeArrival symmetricFrame).dropped emptyMaps = true ∧
      ∃ key, Reported plainReader 0 emptyMaps (ingressStep emptyMaps (strangeArrival symmetricFrame)) key
        ⟨⟨10, 0, 0, 10⟩, ⟨10, 1, 1, 10⟩, 40000, 8080, 6⟩ := by
  have hdropped : (strangeArrival symmetricFrame).dropped emptyMaps = true := by decide +kernel
  obtain ⟨ip, option, srcPort, dstPort, hjudged, -, -, hiff⟩ := drop_reports_iff hdropped plainReader 0
  have hip : judgedPacket (strangeArrival symmetricFrame).skb.data = some (14, none) := by decide +kernel
  rw [hip] at hjudged
  cases hjudged
  have hflow : packetFlow (strangeArrival symmetricFrame).skb.data 14 =
      ⟨⟨10, 0, 0, 10⟩, ⟨10, 1, 1, 10⟩, 40000, 8080, 6⟩ := by decide +kernel
  rw [hflow] at hiff
  exact ⟨hdropped, _, hiff.mpr ⟨⟨rfl, rfl⟩, rfl, rfl⟩⟩

/-- A packet from 10.0.0.1 to 10.0.0.2: the event names these, the denied flow 1.0.0.10 and 2.0.0.10. -/
theorem plain_drop_misreported :
    let m' := ingressStep emptyMaps (strangeArrival plainFrame)
    let key := flowKeyOf plainFrame 14 (bpfHtons 40000) (bpfHtons 8080)
    (strangeArrival plainFrame).dropped emptyMaps = true ∧
      packetFlow plainFrame 14 = ⟨⟨10, 0, 0, 1⟩, ⟨10, 0, 0, 2⟩, 40000, 8080, 6⟩ ∧
      (m'.deniedFlowsMap key).map (fun info => (plainReader.deniedFlow key (infoOf info)).flow) =
        some ⟨⟨1, 0, 0, 10⟩, ⟨2, 0, 0, 10⟩, 40000, 8080, 6⟩ ∧
      m'.flowEvents.map (fun e => (Telemetry.fromWire 0 e).flow) = [⟨⟨10, 0, 0, 1⟩, ⟨10, 0, 0, 2⟩, 40000, 8080, 6⟩] ∧
      ¬Reported plainReader 0 emptyMaps m' key (packetFlow plainFrame 14) := by
  intro m' key
  have hflow : packetFlow plainFrame 14 = ⟨⟨10, 0, 0, 1⟩, ⟨10, 0, 0, 2⟩, 40000, 8080, 6⟩ := by decide +kernel
  have hdenied : (m'.deniedFlowsMap key).map (fun info => (plainReader.deniedFlow key (infoOf info)).flow) =
      some ⟨⟨1, 0, 0, 10⟩, ⟨2, 0, 0, 10⟩, 40000, 8080, 6⟩ := by decide +kernel
  refine ⟨by decide +kernel, hflow, hdenied, by decide +kernel, fun h => ?_⟩
  obtain ⟨info, hinfo, hbackwards⟩ := Option.map_eq_some_iff.mp hdenied
  exact absurd (hbackwards.symm.trans ((h.denied info hinfo).trans hflow)) (by decide)

end Meridian.Metrics
