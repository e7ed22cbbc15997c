import Meridian.Theorems.Mediation

/-! Where the parser finds the inner IPv4 header. It does not read the protocol type of the Geneve header, and takes
    the first of three offsets with a byte that can start an IPv4 header. A MAC address or a TTL may have such a byte. -/

namespace Meridian.Bpf
open Lib

/-- A byte that can start an IPv4 header: version 4 and a header length of at least five words. -/
def headerByte (b : UInt8) : Bool := b.toNat / 16 = 4 && b.toNat % 16 ≥ ipv4IhlMin

section
variable {d : List UInt8} {ip inner p : Nat}

theorem looksLikeIpv4_eq_headerByte (h : p + sizeofIphdr ≤ d.length) : looksLikeIpv4 d p = headerByte (byteAt d p) := by
  have hmax : (byteAt d p).toNat % 16 ≤ ipv4IhlMax := by
    simp only [ipv4IhlMax]
    omega
  apply Bool.eq_iff_iff.mpr
  rw [looksLikeIpv4_iff]
  simp only [headerByte, ipVersion, ipIhl, Bool.and_eq_true, decide_eq_true_eq, ge_iff_le]
  constructor
  · rintro ⟨-, hversion, hmin, -⟩
    exact ⟨hversion, hmin⟩
  · rintro ⟨hversion, hmin⟩
    exact ⟨h, hversion, hmin, hmax⟩

theorem looksLikeIpv4_eq_false_iff :
    looksLikeIpv4 d p = false ↔ (p + sizeofIphdr ≤ d.length → headerByte (byteAt d p) = false) := by
  by_cases h : p + sizeofIphdr ≤ d.length
  · rw [looksLikeIpv4_eq_headerByte h]
    exact ⟨fun hfalse _ => hfalse, fun hfalse => hfalse h⟩
  · refine iff_of_true ?_ fun hin => absurd hin h
    exact Bool.eq_false_iff.mpr fun hlooks => h (looksLikeIpv4_iff.mp hlooks).1

/-- The protocol type decides between the two announced places. -/
theorem announcedInner_place (h : announcedInner d ip = some inner) :
    (loadU16 d (ipPayload d ip + 10) ≠ bpfHtons ethPTeb ∧ inner = genevePayload d ip) ∨
      (loadU16 d (ipPayload d ip + 10) = bpfHtons ethPTeb ∧ genevePayload d ip + 14 ≤ inner) := by
  have hne : bpfHtons ethPIp ≠ bpfHtons ethPTeb := by decide
  unfold announcedInner at h
  split at h
  · rename_i hraw
    cases h
    exact Or.inl ⟨fun hteb => hne (hraw.symm.trans hteb), rfl⟩
  · split at h
    · rename_i hteb
      refine Or.inr ⟨hteb, ?_⟩
      rcases l3AfterEth_eq_some_iff.mp h with ⟨-, -, rfl⟩ | ⟨-, -, -, rfl⟩ <;> omega
    · cases h

/-- The parser finds a valid inner header at the announced place exactly when no byte that it looks at before can
    start a header: eight bytes into the payload, where a MAC address or the TTL is, and in an inner Ethernet frame
    also at its first byte. -/
theorem inner_header_found_iff (hinner : announcedInner d ip = some inner) (hvalid : looksLikeIpv4 d inner = true) :
    parseIpv4InGenevePayload d (genevePayload d ip) = some (inner, 0) ↔
      (genevePayload d ip + 28 ≤ d.length → headerByte (byteAt d (genevePayload d ip + 8)) = false) ∧
        (loadU16 d (ipPayload d ip + 10) = bpfHtons ethPTeb → headerByte (byteAt d (genevePayload d ip)) = false) := by
  have hslot : looksLikeIpv4 d (genevePayload d ip + meridianGeneveOptBytes) = false ↔
      (genevePayload d ip + 28 ≤ d.length → headerByte (byteAt d (genevePayload d ip + 8)) = false) :=
    looksLikeIpv4_eq_false_iff
  rw [← hslot]
  unfold parseIpv4InGenevePayload
  cases hlooks : looksLikeIpv4 d (genevePayload d ip + meridianGeneveOptBytes) with
  | true =>
    -- The slot is reported, with its eight bytes.
    rw [if_pos rfl]
    exact iff_of_false (fun h => Nat.succ_ne_zero 7 (congrArg Prod.snd (Option.some.inj h))) fun h => by cases h.1
  | false =>
    rw [if_neg Bool.false_ne_true]
    simp only [true_and]
    rcases announcedInner_place hinner with ⟨hraw, rfl⟩ | ⟨hteb, hbehind⟩
    · rw [if_pos hvalid]
      exact iff_of_true rfl fun h => absurd h hraw
    · have hlen := (looksLikeIpv4_iff.mp hvalid).1
      have hfirst : looksLikeIpv4 d (genevePayload d ip) = headerByte (byteAt d (genevePayload d ip)) :=
        looksLikeIpv4_eq_headerByte (by omega)
      have hne : inner ≠ genevePayload d ip := by omega
      rw [hfirst]
      cases headerByte (byteAt d (genevePayload d ip)) with
      | true =>
        rw [if_pos rfl]
        refine iff_of_false (fun h => hne (congrArg Prod.fst (Option.some.inj h)).symm) fun h => ?_
        cases h hteb
      | false =>
        have hl3 := (announcedInner_cases hinner).resolve_left hne
        rw [if_neg Bool.false_ne_true, parseIpv4AfterEth_eq_some_iff.mpr ⟨hl3, hvalid⟩]
        exact iff_of_true rfl fun _ => rfl

end

/-- The SYN in an Ethernet frame, with the first byte of the destination and the third of the source address given. -/
def innerEthernet (dst0 src2 : UInt8) : List UInt8 :=
  [dst0, 0, 0, 0, 0, 4, 2, 0, src2, 0, 0, 3, 8, 0] ++ synPacket 64

theorem inner_header_found_ethernet :
    parseIpv4InGenevePayload (geneveFrame 90 70 0 ethPTeb [] (innerEthernet 2 0)) 50 = some (64, 0) :=
  (@inner_header_found_iff (geneveFrame 90 70 0 ethPTeb [] (innerEthernet 2 0)) 14 64 (by decide) (by decide)).mpr
    ⟨by decide, by decide⟩

/-- An inner source address 02:00:48:..., an inner destination address 46:00:..., and a raw packet with TTL 69: the
    header is found inside the source address, at the destination address, and at the TTL. -/
theorem inner_header_not_found :
    (announcedInner (geneveFrame 90 70 0 ethPTeb [] (innerEthernet 2 0x48)) 14 = some 64 ∧
      looksLikeIpv4 (geneveFrame 90 70 0 ethPTeb [] (innerEthernet 2 0x48)) 64 = true ∧
      parseIpv4InGenevePayload (geneveFrame 90 70 0 ethPTeb [] (innerEthernet 2 0x48)) 50 = some (58, 8)) ∧
    (announcedInner (geneveFrame 90 70 0 ethPTeb [] (innerEthernet 0x46 0)) 14 = some 64 ∧
      looksLikeIpv4 (geneveFrame 90 70 0 ethPTeb [] (innerEthernet 0x46 0)) 64 = true ∧
      parseIpv4InGenevePayload (geneveFrame 90 70 0 ethPTeb [] (innerEthernet 0x46 0)) 50 = some (50, 0)) ∧
    (announcedInner (geneveFrame 76 56 0 ethPIp [] (synPacket 69)) 14 = some 50 ∧
      looksLikeIpv4 (geneveFrame 76 56 0 ethPIp [] (synPacket 69)) 50 = true ∧
      parseIpv4InGenevePayload (geneveFrame 76 56 0 ethPIp [] (synPacket 69)) 50 = some (58, 8)) := by
  decide

end Meridian.Bpf
