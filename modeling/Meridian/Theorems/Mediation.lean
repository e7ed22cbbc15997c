import Meridian.Bpf.Egress
import Meridian.Theorems.IngressVerdict

/-! Mediation on ingress: which frames pass, measured against the packet that a frame carries by its own
    headers. Frames that the parser cannot take apart pass by design. -/

namespace Meridian.Bpf
open Lib

/-! ### The packet a frame carries -/

def ethPTeb : UInt16 := 0x6558

structure CompleteGeneve (d : List UInt8) (ip : Nat) : Prop where
  header : GeneveHeader d ip
  inside : genevePayload d ip ≤ d.length

/-- Where the protocol type of the Geneve header announces an inner IPv4 header: at the start of the
    payload, or behind an inner Ethernet header for IPv4. -/
def announcedInner (d : List UInt8) (ip : Nat) : Option Nat :=
  if loadU16 d (ipPayload d ip + 10) = bpfHtons ethPIp then some (genevePayload d ip)
  else if loadU16 d (ipPayload d ip + 10) = bpfHtons ethPTeb then l3AfterEth d (genevePayload d ip)
  else none

/-- The packet to judge in a frame with an IPv4 header at `ip`: the inner one of a tunnel packet, with the
    identity of its Meridian option, and the outer one otherwise. -/
inductive JudgedFlow (d : List UInt8) (ip : Nat) : Nat → Option (Option UInt32) → Prop where
  | outer (h : ¬CompleteGeneve d ip) : JudgedFlow d ip ip none
  | inner {inner : Nat} (h : CompleteGeneve d ip) (hinner : announcedInner d ip = some inner) :
    JudgedFlow d ip inner (some (parseGeneveIdentity d (ipPayload d ip + 16) (geneveWords d ip * 4)))

/-- The frame cannot be taken apart: its IPv4 header is cut off or not valid, it is sent to the Geneve port
    without a complete version 0 header, its inner IPv4 header is cut off or not valid, or the ports of the
    packet to judge are missing. -/
inductive ParserNegative (d : List UInt8) (ip : Nat) : Prop where
  | header (h : looksLikeIpv4 d ip = false)
  | tunnelHeader (h : isGeneveUdpOuter d ip = true) (hnot : ¬CompleteGeneve d ip)
  | innerHeader {inner : Nat} (h : CompleteGeneve d ip) (hinner : announcedInner d ip = some inner)
      (hlooks : looksLikeIpv4 d inner = false)
  | ports {j : Nat} {option : Option (Option UInt32)} (h : JudgedFlow d ip j option) (hports : parseL4Ports d j = none)

def Permitted (m : Maps) (d : List UInt8) (j : Nat) (option : Option (Option UInt32)) : Prop :=
  ∃ srcPort dstPort v, parseL4Ports d j = some (srcPort, dstPort) ∧
    m.policyMap (policyKeyOf (sourceIdentity m option (ipSaddr d j)) (mappedIdentity m (ipDaddr d j)) dstPort
      (ipProtocol d j)) = some v ∧
    (v.action = flowVerdictAllow ∨ v.action = flowVerdictRedirect)

/-- A TCP packet from the tunnel that does not open a connection, from a known source. -/
def MidConnection (m : Maps) (d : List UInt8) (j : Nat) (option : Option (Option UInt32)) : Prop :=
  option.isSome = true ∧ ipProtocol d j = ipprotoTcp ∧ isTcpConnectionOpen d j = false ∧
    sourceIdentity m option (ipSaddr d j) ≠ 0

/-- The tunnel headers announce an inner header at `inner`, with at most eight words of options, and no
    bytes before it pass for one where the parser looks first. -/
structure ReadAsAnnounced (d : List UInt8) (ip inner : Nat) : Prop where
  words : geneveWords d ip ≤ 8
  announced : announcedInner d ip = some inner
  slot : looksLikeIpv4 d (genevePayload d ip + 8) = false
  raw : inner ≠ genevePayload d ip → looksLikeIpv4 d (genevePayload d ip) = false

section
variable {d : List UInt8} {ip inner : Nat}

theorem announcedInner_cases (h : announcedInner d ip = some inner) :
    inner = genevePayload d ip ∨ l3AfterEth d (genevePayload d ip) = some inner := by
  unfold announcedInner at h
  split at h
  · cases h
    exact Or.inl rfl
  · split at h
    · exact Or.inr h
    · cases h

theorem ReadAsAnnounced.parse (h : ReadAsAnnounced d ip inner) (hlooks : looksLikeIpv4 d inner = true) :
    parseIpv4InGenevePayload d (genevePayload d ip) = some (inner, 0) := by
  have hslot : ¬looksLikeIpv4 d (genevePayload d ip + meridianGeneveOptBytes) = true := by
    rw [show looksLikeIpv4 d (genevePayload d ip + meridianGeneveOptBytes) = false from h.slot]
    decide
  unfold parseIpv4InGenevePayload
  rw [if_neg hslot]
  by_cases hraw : inner = genevePayload d ip
  · rw [← hraw, if_pos hlooks]
  · have hl3 := (announcedInner_cases h.announced).resolve_left hraw
    rw [if_neg (by rw [h.raw hraw]; decide), parseIpv4AfterEth_eq_some_iff.mpr ⟨hl3, hlooks⟩]
    rfl

theorem tryParseGeneveInner_of_read (h : CompleteGeneve d ip) (hread : ReadAsAnnounced d ip inner)
    (hlooks : looksLikeIpv4 d inner = true) :
    tryParseGeneveInner d ip =
      some ⟨inner, parseGeneveIdentity d (ipPayload d ip + 16) (geneveWords d ip * 4)⟩ := by
  rw [tryParseGeneveInner_of_header h.header hread.words h.inside, hread.parse hlooks]
  rfl

theorem flowExit_ok {m : Maps} {j : Nat} {option : Option (Option UInt32)} (hclosed : failopenUnknownEnabled m = false)
    (hok : (flowExit m d j option).action = .ok) :
    parseL4Ports d j = none ∨ Permitted m d j option ∨ MidConnection m d j option := by
  unfold flowExit at hok
  split at hok
  · exact Or.inl ‹_›
  · rename_i srcPort dstPort hports
    dsimp only at hok
    split at hok
    · rename_i hmid
      simp only [Bool.and_eq_true, decide_eq_true_eq, Bool.not_eq_true'] at hmid
      obtain ⟨⟨⟨hsome, htcp⟩, hsrc⟩, hopen⟩ := hmid
      exact Or.inr (Or.inr ⟨hsome, htcp, hopen, hsrc⟩)
    · have hdeny : (if option.isSome then TcAct.stolen else TcAct.shot) ≠ .ok := by
        split <;> decide
      obtain ⟨v, hv, hact⟩ := enforceAction_eq_ok hclosed hdeny hok
      exact Or.inr (Or.inl ⟨srcPort, dstPort, v, hports, hv, hact⟩)

/-- What the program parsed is the packet to judge, or the frame is parser-negative. -/
theorem ingressParse_judged (heth : l3AfterEth d 0 = some ip)
    (hread : CompleteGeneve d ip → ∃ inner, ReadAsAnnounced d ip inner) :
    ParserNegative d ip ∨ (ingressParse d = .plain ip ∧ JudgedFlow d ip ip none) ∨
      ∃ j identity, ingressParse d = .tunnel ip ⟨j, identity⟩ ∧ JudgedFlow d ip j (some identity) := by
  cases hlooks : looksLikeIpv4 d ip with
  | false => exact Or.inl (.header hlooks)
  | true =>
    have houter : parseIpv4AfterEth d 0 = some ip := parseIpv4AfterEth_eq_some_iff.mpr ⟨heth, hlooks⟩
    have hparse := ingressParse_of_header houter
    by_cases hcomplete : CompleteGeneve d ip
    · obtain ⟨inner, hinner⟩ := hread hcomplete
      cases hvalid : looksLikeIpv4 d inner with
      | false => exact Or.inl (.innerHeader hcomplete hinner.announced hvalid)
      | true =>
        rw [tryParseGeneveInner_of_read hcomplete hinner hvalid] at hparse
        exact Or.inr (Or.inr ⟨inner, _, hparse, .inner hcomplete hinner.announced⟩)
    · cases hudp : isGeneveUdpOuter d ip with
      | true => exact Or.inl (.tunnelHeader hudp hcomplete)
      | false =>
        have hnone : tryParseGeneveInner d ip = none := by
          cases htry : tryParseGeneveInner d ip with
          | none => rfl
          | some g =>
            obtain ⟨hheader, -, hinside⟩ := tryParseGeneveInner_eq_some htry
            exact absurd ⟨hheader, hinside⟩ hcomplete
        rw [hnone, hudp] at hparse
        exact Or.inr (Or.inl ⟨hparse, .outer hcomplete⟩)

end

/-- With the fail-open bit clear, a frame passes only if the policy permits the packet it carries, if that is
    a TCP packet of the tunnel within a connection, or if the parser cannot take the frame apart. -/
theorem ingress_ok_mediated {env : Env} {maps : Maps} {skb : Skb} {ip : Nat} (hpull : env.skbFails 0 = false)
    (hclosed : failopenUnknownEnabled maps = false) (heth : l3AfterEth skb.data 0 = some ip)
    (hread : CompleteGeneve skb.data ip → ∃ inner, ReadAsAnnounced skb.data ip inner)
    (hok : (meridianTcIngress env maps skb).1.action = .ok) :
    ParserNegative skb.data ip ∨
      ∃ j option, JudgedFlow skb.data ip j option ∧
        (Permitted maps skb.data j option ∨ MidConnection maps skb.data j option) := by
  rw [meridianTcIngress_exit maps skb hpull] at hok
  rcases ingressParse_judged heth hread with hneg | ⟨hparse, hjudged⟩ | ⟨j, identity, hparse, hjudged⟩
  · exact Or.inl hneg
  · unfold ingressExit at hok
    rw [hparse] at hok
    rcases flowExit_ok hclosed hok with hports | hflow
    · exact Or.inl (.ports hjudged hports)
    · exact Or.inr ⟨ip, none, hjudged, hflow⟩
  · unfold ingressExit at hok
    rw [hparse] at hok
    rcases flowExit_ok hclosed hok with hports | hflow
    · exact Or.inl (.ports hjudged hports)
    · exact Or.inr ⟨j, some identity, hjudged, hflow⟩

def openMaps : Maps := Maps.fresh (fun _ => some 7) (fun _ => some ⟨flowVerdictAllow, 0⟩) none

def be16 (x : UInt16) : List UInt8 := bytesU16 (bpfHtons x)

/-- A frame from 172.31.0.1 to port 6081 of 172.31.0.2, with the given lengths and UDP checksum and with the
    header checksum of its total length. -/
def geneveFrame (totLen udpLen udpCheck protocolType : UInt16) (opts payload : List UInt8) : List UInt8 :=
  [2, 0, 0, 0, 0, 2, 2, 0, 0, 0, 0, 1, 8, 0] ++ [0x45, 0] ++ be16 totLen ++ [0, 0, 0, 0, 64, 17] ++ be16 (0x22ac - totLen) ++
    [172, 31, 0, 1, 172, 31, 0, 2] ++ [0x30, 0x39, 0x17, 0xc1] ++ be16 udpLen ++ be16 udpCheck ++
    [UInt8.ofNat (opts.length / 4), 0] ++ be16 protocolType ++ [0, 0, 100, 0] ++ opts ++ payload

/-- A TCP SYN from 10.0.0.1 to port 8080 of 10.0.0.2. -/
def synPacket (ttl : UInt8) : List UInt8 :=
  [0x45, 0, 0, 40, 0, 0, 0, 0, ttl, 6, 0, 0, 10, 0, 0, 1, 10, 0, 0, 2] ++
    [0x9c, 0x40, 0x1f, 0x90, 0, 0, 0, 0, 0, 0, 0, 0, 0x50, 0x02, 0xff, 0xff, 0, 0, 0, 0]

/-- A raw SYN from the pod with identity 7, with the given options behind the identity option. -/
def taggedFrame (totLen udpLen : UInt16) (more payload : List UInt8) : List UInt8 :=
  geneveFrame totLen udpLen 0 ethPIp (identityTlv 7 ++ more) payload

theorem ingress_ok_mediated_stamped :
    (meridianTcIngress quietEnv openMaps ⟨taggedFrame 84 64 [] (synPacket 64), 0⟩).1.action = .ok ∧
      (ParserNegative (taggedFrame 84 64 [] (synPacket 64)) 14 ∨
        ∃ j option, JudgedFlow (taggedFrame 84 64 [] (synPacket 64)) 14 j option ∧
          (Permitted openMaps (taggedFrame 84 64 [] (synPacket 64)) j option ∨
            MidConnection openMaps (taggedFrame 84 64 [] (synPacket 64)) j option)) :=
  have hok : (meridianTcIngress quietEnv openMaps ⟨taggedFrame 84 64 [] (synPacket 64), 0⟩).1.action = .ok := by
    decide +kernel
  ⟨hok, @ingress_ok_mediated quietEnv openMaps ⟨taggedFrame 84 64 [] (synPacket 64), 0⟩ 14 rfl (by decide) (by decide)
    (fun _ => ⟨58, by decide, by decide, by decide, by decide⟩) hok⟩

/-- A frame that ends behind its IPv4 header passes although no flow has a policy entry: its IPv4 header is
    valid and announces TCP, and it is no tunnel packet. -/
theorem ingress_ok_unmediated :
    (meridianTcIngress quietEnv (Maps.fresh (fun _ => none) (fun _ => none) none)
        ⟨plainFrame.take 34, 0⟩).1.action = .ok ∧
      failopenUnknownEnabled (Maps.fresh (fun _ => none) (fun _ => none) none) = false ∧
      parseIpv4AfterEth (plainFrame.take 34) 0 = some 14 ∧ isGeneveUdpOuter (plainFrame.take 34) 14 = false ∧
      ∀ key, (Maps.fresh (fun _ => none) (fun _ => none) none).policyMap key = none :=
  ⟨by decide, by decide, by decide, by decide, fun _ => rfl⟩

end Meridian.Bpf
