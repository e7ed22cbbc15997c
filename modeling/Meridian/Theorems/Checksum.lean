import Meridian.Lib.OnesComplement
import Meridian.Theorems.RoundTrip

/-! The checksums of a frame that egress stamps by insertion. The length update writes both lengths but not the IPv4
    header checksum, and it applies the checksum update of UDP to the word at the start of the UDP header. -/

namespace Meridian.Bpf
open Lib

/-! ### Checksums -/

def ipHeaderBytes (d : List UInt8) (ip : Nat) : List UInt8 := (d.drop ip).take (ipIhl d ip * ipv4WordBytes)

/-- The header checksum of the IPv4 header at `ip` verifies. -/
def IpChecksumOk (d : List UInt8) (ip : Nat) : Prop := Verifies (networkWords (ipHeaderBytes d ip))

instance (d : List UInt8) (ip : Nat) : Decidable (IpChecksumOk d ip) := inferInstanceAs (Decidable (Verifies _))

/-- Source and destination address, zero and the protocol, and the UDP length. -/
def udpPseudoHeader (d : List UInt8) (ip udp : Nat) : List UInt8 :=
  (d.drop (ip + 12)).take 8 ++ [0, ipprotoUdp] ++ (d.drop (udp + 4)).take 2

/-- The UDP checksum verifies, over the pseudo-header and the bytes that the UDP length covers. -/
structure UdpChecksumOk (d : List UInt8) (ip udp : Nat) : Prop where
  header : 8 ≤ udpLen d udp
  inside : udp + udpLen d udp ≤ d.length
  verifies : Verifies (networkWords (udpPseudoHeader d ip udp ++ (d.drop udp).take (udpLen d udp)))

/-- The stamped frame `d'` is a well-formed packet with the ports of `d`. -/
structure WellFormed (d d' : List UInt8) (ip udp : Nat) : Prop where
  total : ip + ipTotLen d' ip = d'.length
  length : udp + udpLen d' udp = d'.length
  srcPort : loadU16 d' udp = loadU16 d udp
  dstPort : loadU16 d' (udp + 2) = loadU16 d (udp + 2)
  ipChecksum : IpChecksumOk d' ip
  udpChecksum : loadU16 d' (udp + 6) = 0 ∨ UdpChecksumOk d' ip udp

/-! ### The incremental update -/

theorem csumAdd_spec {a b : Nat} (ha : a < 4294967296) (hb : b < 4294967296) :
    csumAdd a b < 4294967296 ∧ csumAdd a b % 65535 = (a + b) % 65535 := by
  unfold csumAdd
  dsimp only
  split <;> omega

theorem csumFold_spec {s : Nat} (hs : s < 4294967296) : csumFold s < 65536 ∧ (csumFold s + s) % 65535 = 0 := by
  obtain ⟨s₁, hs₁⟩ : ∃ s₁, s₁ = s % 65536 + s / 65536 := ⟨_, rfl⟩
  obtain ⟨s₂, hs₂⟩ : ∃ s₂, s₂ = s₁ % 65536 + s₁ / 65536 := ⟨_, rfl⟩
  have hle : s₂ ≤ 65535 := by omega
  have hmod : s₂ % 65535 = s % 65535 := by omega
  have hfold : csumFold s = 65535 - s₂ % 65536 := by rw [csumFold, ← hs₁, ← hs₂]
  rw [hfold, Nat.mod_eq_of_lt (by omega)]
  omega

/-- The update trades the new word for the old one, modulo 65535. -/
theorem csumReplace2_congr (sum old new : UInt16) :
    ((csumReplace2 sum old new).toNat + new.toNat) % 65535 = (sum.toNat + old.toNat) % 65535 := by
  have hsum := sum.toNat_lt
  have hold := old.toNat_lt
  have hnew := new.toNat_lt
  obtain ⟨hlt₁, hmod₁⟩ := @csumAdd_spec (0xffffffff - sum.toNat) (0xffffffff - old.toNat) (by omega) (by omega)
  obtain ⟨hlt₂, hmod₂⟩ := @csumAdd_spec _ new.toNat hlt₁ (by omega)
  obtain ⟨hlt₃, hmod₃⟩ := csumFold_spec hlt₂
  rw [csumReplace2, UInt16.toNat_ofNat', Nat.mod_eq_of_lt hlt₃]
  omega

theorem toNat_swapU16_congr (x : UInt16) : (swapU16 x).toNat % 65535 = 256 * x.toNat % 65535 := by
  have hx := x.toNat_lt
  rw [toNat_swapU16]
  omega

/-! ### The header words -/

theorem take_drop_succ {d : List UInt8} {i n : Nat} (h : i < d.length) :
    (d.drop i).take (n + 1) = byteAt d i :: (d.drop (i + 1)).take n := by
  rw [List.drop_eq_getElem_cons h, List.take_succ_cons, byteAt, List.getD_eq_getElem?_getD, List.getElem?_eq_getElem h]
  rfl

theorem ipTotLen_eq (d : List UInt8) (ip : Nat) :
    ipTotLen d ip = 256 * (byteAt d (ip + 2)).toNat + (byteAt d (ip + 3)).toNat := by
  have h2 := (byteAt d (ip + 2)).toNat_lt
  have h3 := (byteAt d (ip + 2 + 1)).toNat_lt
  show _ = 256 * (byteAt d (ip + 2)).toNat + (byteAt d (ip + 2 + 1)).toNat
  rw [ipTotLen, bpfNtohs, toNat_swapU16, loadU16, UInt16.toNat_ofNat']
  omega

/-- The words of a header: its first two bytes, the total length, and the rest. -/
theorem networkWords_ipHeader {d : List UInt8} {ip : Nat} (h : looksLikeIpv4 d ip = true) :
    networkWords (ipHeaderBytes d ip) =
      (256 * (byteAt d ip).toNat + (byteAt d (ip + 1)).toNat) :: ipTotLen d ip ::
        networkWords ((d.drop (ip + 4)).take (ipIhl d ip * ipv4WordBytes - 4)) := by
  obtain ⟨hlen, -, hmin, -⟩ := looksLikeIpv4_iff.mp h
  simp only [sizeofIphdr, ipv4IhlMin] at hlen hmin
  obtain ⟨n, hn⟩ : ∃ n, ipIhl d ip * ipv4WordBytes = n + 4 := ⟨ipIhl d ip * ipv4WordBytes - 4, by
    simp only [ipv4WordBytes]
    omega⟩
  rw [ipHeaderBytes, hn, take_drop_succ (by omega), take_drop_succ (by omega), take_drop_succ (by omega),
    take_drop_succ (by omega), networkWords, networkWords, ipTotLen_eq, Nat.add_sub_cancel]

theorem first_word_pos {d : List UInt8} {ip : Nat} (h : looksLikeIpv4 d ip = true) :
    0 < 256 * (byteAt d ip).toNat + (byteAt d (ip + 1)).toNat := by
  obtain ⟨-, hversion, -⟩ := looksLikeIpv4_iff.mp h
  simp only [ipVersion] at hversion
  omega

/-! ### The stamped frame -/

section
variable {d d' : List UInt8} {g : EgressGeneve} {s : UInt32}

theorem Stamped.looksLikeIpv4 (st : Stamped d d' g s) (t : Tunnel d g) : looksLikeIpv4 d' g.outerIp = true :=
  (parseIpv4AfterEth_eq_some_iff.mp (st.outer t)).2

/-- In the outer header only the total length changes. -/
theorem Stamped.ipChecksumOk_iff (st : Stamped d d' g s) (t : Tunnel d g) (h : IpChecksumOk d g.outerIp) :
    IpChecksumOk d' g.outerIp ↔ ipTotLen d g.outerIp % 65535 = ipTotLen d' g.outerIp % 65535 := by
  have hudp := t.udp_ge
  have hgeneve := t.geneve
  have hbase := t.base
  have hinside := t.inside
  have hroom := st.room
  have hwordsOf := networkWords_lt (ipHeaderBytes d g.outerIp)
  have hpayload : g.udp = g.outerIp + ipIhl d g.outerIp * ipv4WordBytes := t.udp
  have hihl : ipIhl d' g.outerIp = ipIhl d g.outerIp := by
    rw [ipIhl, ipIhl, st.outer_bytes t (by omega) (by omega) (by omega)]
  have hrest : (d'.drop (g.outerIp + 4)).take (ipIhl d g.outerIp * ipv4WordBytes - 4) =
      (d.drop (g.outerIp + 4)).take (ipIhl d g.outerIp * ipv4WordBytes - 4) := by
    refine ext_byteAt ?_ fun i hi => ?_
    · simp only [List.length_take, List.length_drop]
      omega
    · rw [List.length_take] at hi
      rw [byteAt_take (by omega), byteAt_take (by omega), byteAt_drop, byteAt_drop]
      refine st.head _ (by omega) ?_ (by omega)
      unfold LengthField
      omega
  unfold IpChecksumOk at h ⊢
  rw [networkWords_ipHeader t.outer_looks] at h hwordsOf
  rw [networkWords_ipHeader (st.looksLikeIpv4 t), hihl, hrest, st.outer_bytes t (by omega) (by omega) (by omega),
    st.outer_bytes t (by omega) (by omega) (by omega)]
  exact verifies_second_iff (first_word_pos t.outer_looks) hwordsOf (UInt16.toNat_lt _) h

/-- A checksum that is not zero was updated in the place of the source port, and the lengths differ. -/
theorem InsertedFields.srcPort_changed (hfields : InsertedFields d d' g) (hcheck : loadU16 d (g.udp + 6) ≠ 0)
    (hudp : UdpChecksumOk d g.outerIp g.udp) (hlength : udpLen d' g.udp = d.length + 8 - g.udp) :
    loadU16 d' g.udp ≠ loadU16 d g.udp := by
  have hheader := hudp.header
  have hinside := hudp.inside
  have hU' : udpLen d' g.udp < 65536 := UInt16.toNat_lt _
  intro hport
  rw [hfields.srcPort, if_neg hcheck] at hport
  have hcongr := csumReplace2_congr (loadU16 d g.udp) (loadU16 d (g.udp + 4)) (lengthField (d.length + 8 - g.udp))
  rw [hport, ← hfields.udp] at hcongr
  have hold := toNat_swapU16_congr (loadU16 d (g.udp + 4))
  have hnew := toNat_swapU16_congr (loadU16 d' (g.udp + 4))
  change udpLen d g.udp % 65535 = _ at hold
  change udpLen d' g.udp % 65535 = _ at hnew
  omega

end

/-- A frame that egress stamps by insertion comes out well-formed exactly when its UDP checksum is zero, it is still
    shorter than 65536 bytes, and its total length field already held the length that it has afterwards (or zero, where
    that is 65535). -/
theorem stamped_wellFormed_iff {env : Env} {maps : Maps} {skb : Skb} {g : EgressGeneve} {s : UInt32}
    (hworks : ∀ n, env.skbFails n = false) (hparse : egressParse skb.data = .tunnel g)
    (hinserted : g.reservedHeadroom = 0) (hrun : (meridianTcEgress env maps skb).1 = .stamped s)
    (hip : IpChecksumOk skb.data g.outerIp)
    (hudp : loadU16 skb.data (g.udp + 6) = 0 ∨ UdpChecksumOk skb.data g.outerIp g.udp) :
    WellFormed skb.data (meridianTcEgress env maps skb).2.skb.data g.outerIp g.udp ↔
      loadU16 skb.data (g.udp + 6) = 0 ∧ skb.data.length + 8 - g.outerIp < 65536 ∧
        (ipTotLen skb.data g.outerIp = skb.data.length + 8 - g.outerIp ∨
          ipTotLen skb.data g.outerIp = 0 ∧ skb.data.length + 8 - g.outerIp = 65535) := by
  have t := egressParse_tunnel hparse
  obtain ⟨-, hdata⟩ := meridianTcEgress_inserted hworks hparse hinserted hrun
  obtain ⟨g', hparse', -, -, -, st⟩ := meridianTcEgress_stamped (Prod.ext hrun rfl)
  cases hparse'.symm.trans hparse
  have hfields : InsertedFields skb.data (meridianTcEgress env maps skb).2.skb.data g := hdata ▸ insertedData_fields t s
  generalize (meridianTcEgress env maps skb).2.skb.data = d' at st hfields
  have hge := t.udp_ge
  have hgeneve := t.geneve
  have hbase := t.base
  have hinside := t.inside
  have hlen := hfields.length
  have htotal := ipTotLen_of_field hfields.total
  have hudpLen := udpLen_of_field hfields.udp
  have hL : ipTotLen skb.data g.outerIp < 65536 := UInt16.toNat_lt _
  have hword : ∀ i, i = g.udp + 2 ∨ i = g.udp + 6 → loadU16 d' i = loadU16 skb.data i := by
    intro i hi
    refine loadU16_congr (st.head _ (by omega) ?_ (by omega)) (st.head _ (by omega) ?_ (by omega)) <;> unfold LengthField <;>
      omega
  constructor
  · rintro ⟨htot, hulen, hport, -, hsum, -⟩
    have hmod := (st.ipChecksumOk_iff t hip).mp hsum
    have hcheck : loadU16 skb.data (g.udp + 6) = 0 := by
      by_contra hne
      exact hfields.srcPort_changed hne (hudp.resolve_left hne) (by omega) hport
    exact ⟨hcheck, by omega, by omega⟩
  · rintro ⟨hcheck, hshort, hfield⟩
    have hport := hfields.srcPort
    rw [if_pos hcheck] at hport
    refine ⟨by omega, by omega, hport, hword _ (Or.inl rfl), ?_, Or.inl ((hword _ (Or.inr rfl)).trans hcheck)⟩
    exact (st.ipChecksumOk_iff t hip).mpr (by omega)

theorem stamped_wellFormed_oversized :
    WellFormed (geneveFrame 84 56 0 ethPIp [] (synPacket 64))
      (meridianTcEgress quietEnv senderMaps ⟨geneveFrame 84 56 0 ethPIp [] (synPacket 64), 0⟩).2.skb.data 14 34 :=
  (@stamped_wellFormed_iff quietEnv senderMaps ⟨geneveFrame 84 56 0 ethPIp [] (synPacket 64), 0⟩
    ⟨14, 34, 42, 0, 0, 50, 50, 0⟩ 7 (fun _ => rfl) (by decide +kernel) rfl (by decide +kernel) (by decide +kernel)
    (Or.inl (by decide +kernel))).mpr (by decide +kernel)

/-- A frame whose lengths and checksums are all right, without and with a UDP checksum. After stamping, the header
    checksum does not verify, and with the UDP checksum the source port is another one. -/
theorem stamped_not_wellFormed :
    (IpChecksumOk (geneveFrame 76 56 0 ethPIp [] (synPacket 64)) 14 ∧
      (meridianTcEgress quietEnv senderMaps ⟨geneveFrame 76 56 0 ethPIp [] (synPacket 64), 0⟩).1 = .stamped 7 ∧
      ¬WellFormed (geneveFrame 76 56 0 ethPIp [] (synPacket 64))
        (meridianTcEgress quietEnv senderMaps ⟨geneveFrame 76 56 0 ethPIp [] (synPacket 64), 0⟩).2.skb.data 14 34) ∧
    (IpChecksumOk (geneveFrame 76 56 0x4e3d ethPIp [] (synPacket 64)) 14 ∧
      UdpChecksumOk (geneveFrame 76 56 0x4e3d ethPIp [] (synPacket 64)) 14 34 ∧
      (meridianTcEgress quietEnv senderMaps ⟨geneveFrame 76 56 0x4e3d ethPIp [] (synPacket 64), 0⟩).1 = .stamped 7 ∧
      ¬WellFormed (geneveFrame 76 56 0x4e3d ethPIp [] (synPacket 64))
        (meridianTcEgress quietEnv senderMaps ⟨geneveFrame 76 56 0x4e3d ethPIp [] (synPacket 64), 0⟩).2.skb.data 14 34) := by
  refine ⟨⟨by decide +kernel, by decide +kernel, fun h => ?_⟩,
    ⟨by decide +kernel, ⟨by decide +kernel, by decide +kernel, by decide +kernel⟩, by decide +kernel, fun h => ?_⟩⟩
  · exact absurd h.ipChecksum (by decide +kernel)
  · exact absurd h.srcPort (by decide +kernel)

end Meridian.Bpf
