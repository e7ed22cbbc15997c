import Meridian.Bpf.Types

/-! The shared L2/L3 parsers (`meridian_parse.h`) and the header fields they and the programs read.
    A pointer into the packet is its offset from `data`, and `data_end` is the packet's length. -/

namespace Meridian.Bpf
open Lib

/-! ### Header fields -/

def ipIhl (d : List UInt8) (ip : Nat) : Nat := (byteAt d ip).toNat % 16

def ipVersion (d : List UInt8) (ip : Nat) : Nat := (byteAt d ip).toNat / 16

def ipProtocol (d : List UInt8) (ip : Nat) : UInt8 := byteAt d (ip + 9)

def ipSaddr (d : List UInt8) (ip : Nat) : UInt32 := loadU32 d (ip + 12)

def ipDaddr (d : List UInt8) (ip : Nat) : UInt32 := loadU32 d (ip + 16)

def ethHProto (d : List UInt8) (eth : Nat) : UInt16 := loadU16 d (eth + 12)

def udpDest (d : List UInt8) (udp : Nat) : UInt16 := loadU16 d (udp + 2)

def ipPayload (d : List UInt8) (ip : Nat) : Nat := ip + ipIhl d ip * ipv4WordBytes

/-! ### Parsers -/

def looksLikeIpv4 (d : List UInt8) (p : Nat) : Bool :=
  if p + sizeofIphdr > d.length then false
  else ipVersion d p = 4 && ipIhl d p ≥ ipv4IhlMin && ipIhl d p ≤ ipv4IhlMax

/-- Where the network layer starts after an Ethernet header that announces IPv4, directly or behind
    one 802.1Q tag. -/
def l3AfterEth (d : List UInt8) (eth : Nat) : Option Nat :=
  if eth + sizeofEthhdr > d.length then none
  else if ethHProto d eth = bpfHtons ethPIp then some (eth + sizeofEthhdr)
  else if ethHProto d eth = bpfHtons ethP8021q then
    let vlan := eth + sizeofEthhdr
    if vlan + vlanInnerHdrBytes > d.length then none
    else if loadU16 d (vlan + 2) ≠ bpfHtons ethPIp then none
    else some (vlan + vlanInnerHdrBytes)
  else none

def parseIpv4AfterEth (d : List UInt8) (eth : Nat) : Option Nat :=
  (l3AfterEth d eth).filter fun l3 => looksLikeIpv4 d l3

/-- The inner IPv4 header of a Geneve payload, with the bytes reserved before it for the identity
    option: after a reserved slot, at the start, or after an inner Ethernet header, tried in this
    order. -/
def parseIpv4InGenevePayload (d : List UInt8) (payload : Nat) : Option (Nat × Nat) :=
  if looksLikeIpv4 d (payload + meridianGeneveOptBytes) then
    some (payload + meridianGeneveOptBytes, meridianGeneveOptBytes)
  else if looksLikeIpv4 d payload then some (payload, 0)
  else (parseIpv4AfterEth d payload).map fun ip => (ip, 0)

/-- Source and destination port of a TCP or UDP packet in network order, zero for other protocols.
    Both programs carry the same copy of this function. -/
def parseL4Ports (d : List UInt8) (ip : Nat) : Option (UInt16 × UInt16) :=
  if ipIhl d ip < ipv4IhlMin || ipIhl d ip > ipv4IhlMax then none
  else
    let l4 := ipPayload d ip
    if ipProtocol d ip = ipprotoTcp || ipProtocol d ip = ipprotoUdp then
      if l4 + l4PortsBytes > d.length then none
      else some (loadU16 d l4, loadU16 d (l4 + 2))
    else some (0, 0)

/-! ### What a parser found -/

section
variable {d d' : List UInt8} {n n' p p' ip r : Nat}

theorem looksLikeIpv4_iff : looksLikeIpv4 d p = true ↔
    p + sizeofIphdr ≤ d.length ∧ ipVersion d p = 4 ∧ ipv4IhlMin ≤ ipIhl d p ∧ ipIhl d p ≤ ipv4IhlMax := by
  unfold looksLikeIpv4
  split
  · rename_i h
    simp
    omega
  · rename_i h
    simp only [Bool.and_eq_true, decide_eq_true_eq, ge_iff_le]
    constructor
    · rintro ⟨⟨hv, hmin⟩, hmax⟩
      exact ⟨by omega, hv, hmin, hmax⟩
    · rintro ⟨-, hv, hmin, hmax⟩
      exact ⟨⟨hv, hmin⟩, hmax⟩

theorem l3AfterEth_eq_some_iff : l3AfterEth d p = some ip ↔
    (p + 14 ≤ d.length ∧ ethHProto d p = bpfHtons ethPIp ∧ ip = p + 14) ∨
      (p + 18 ≤ d.length ∧ ethHProto d p = bpfHtons ethP8021q ∧ loadU16 d (p + 16) = bpfHtons ethPIp ∧
        ip = p + 18) := by
  have hne : bpfHtons ethPIp ≠ bpfHtons ethP8021q := by decide
  unfold l3AfterEth
  simp only [sizeofEthhdr, vlanInnerHdrBytes, Nat.add_assoc, Nat.reduceAdd, gt_iff_lt]
  by_cases hlen : d.length < p + 14
  · rw [if_pos hlen]
    constructor
    · intro h
      cases h
    · rintro (⟨h, -⟩ | ⟨h, -⟩) <;> omega
  · rw [if_neg hlen]
    by_cases hp : ethHProto d p = bpfHtons ethPIp
    · simp only [hp, hne, if_true, false_and, and_false, or_false, Option.some.injEq, true_and]
      constructor
      · intro h
        exact ⟨by omega, h.symm⟩
      · rintro ⟨-, rfl⟩
        rfl
    · by_cases hq : ethHProto d p = bpfHtons ethP8021q
      · by_cases hv : d.length < p + 18
        · simp only [hq, hne.symm, hv, if_true, if_false, false_and, and_false, false_or, reduceCtorEq, false_iff]
          omega
        · by_cases hin : loadU16 d (p + 16) = bpfHtons ethPIp
          · simp only [hq, hne.symm, hv, hin, ne_eq, not_true, if_true, if_false, false_and, and_false, false_or,
              Option.some.injEq, true_and]
            constructor
            · intro h
              exact ⟨by omega, h.symm⟩
            · rintro ⟨-, rfl⟩
              rfl
          · simp [hq, hne.symm, hv, hin]
      · simp [hp, hq]

theorem parseIpv4AfterEth_eq_some_iff :
    parseIpv4AfterEth d p = some ip ↔ l3AfterEth d p = some ip ∧ looksLikeIpv4 d ip = true := by
  rw [parseIpv4AfterEth, Option.filter_eq_some_iff]

/-! ### Parsing in a suffix

The parsers read nothing before the offset they start from. -/

theorem looksLikeIpv4_drop (d : List UInt8) (n k : Nat) : looksLikeIpv4 (d.drop n) k = looksLikeIpv4 d (n + k) := by
  apply Bool.eq_iff_iff.mpr
  rw [looksLikeIpv4_iff, looksLikeIpv4_iff]
  simp only [ipVersion, ipIhl, byteAt_drop, List.length_drop, sizeofIphdr]
  constructor
  · rintro ⟨hlen, hrest⟩
    exact ⟨by omega, hrest⟩
  · rintro ⟨hlen, hrest⟩
    exact ⟨by omega, hrest⟩

theorem loadU16_drop (d : List UInt8) (n k : Nat) : loadU16 (d.drop n) k = loadU16 d (n + k) := by
  simp only [loadU16, byteAt_drop, Nat.add_assoc]

theorem l3AfterEth_drop (d : List UInt8) (n k : Nat) : l3AfterEth d (n + k) = (l3AfterEth (d.drop n) k).map (n + ·) := by
  apply Option.ext
  intro ip
  simp only [Option.map_eq_some_iff, l3AfterEth_eq_some_iff, ethHProto, loadU16_drop, List.length_drop, Nat.add_assoc]
  constructor
  · rintro (⟨hlen, hp, rfl⟩ | ⟨hlen, hq, hin, rfl⟩)
    · exact ⟨k + 14, Or.inl ⟨by omega, hp, rfl⟩, rfl⟩
    · exact ⟨k + 18, Or.inr ⟨by omega, hq, hin, rfl⟩, rfl⟩
  · rintro ⟨_, ⟨hlen, hp, rfl⟩ | ⟨hlen, hq, hin, rfl⟩, rfl⟩
    · exact Or.inl ⟨by omega, hp, rfl⟩
    · exact Or.inr ⟨by omega, hq, hin, rfl⟩

theorem parseIpv4AfterEth_drop (d : List UInt8) (n k : Nat) :
    parseIpv4AfterEth d (n + k) = (parseIpv4AfterEth (d.drop n) k).map (n + ·) := by
  rw [parseIpv4AfterEth, parseIpv4AfterEth, l3AfterEth_drop]
  cases l3AfterEth (d.drop n) k with
  | none => rfl
  | some l3 =>
    simp only [Option.map_some, Option.filter_some, looksLikeIpv4_drop]
    by_cases h : looksLikeIpv4 d (n + l3) = true <;> simp [h]

theorem parseIpv4InGenevePayload_drop (d : List UInt8) (n k : Nat) :
    parseIpv4InGenevePayload d (n + k) =
      (parseIpv4InGenevePayload (d.drop n) k).map fun r => (n + r.1, r.2) := by
  unfold parseIpv4InGenevePayload
  rw [looksLikeIpv4_drop, looksLikeIpv4_drop, parseIpv4AfterEth_drop, Nat.add_assoc]
  by_cases hslot : looksLikeIpv4 d (n + (k + meridianGeneveOptBytes)) = true
  · simp only [hslot, if_true, Option.map_some]
  · by_cases hraw : looksLikeIpv4 d (n + k) = true
    · simp only [hslot, hraw, if_true, if_false, Option.map_some, Bool.false_eq_true]
    · simp only [hslot, hraw, if_false, Bool.false_eq_true, Option.map_map]
      rfl

theorem parseIpv4InGenevePayload_of_drop_eq (h : d.drop n = d'.drop n') :
    parseIpv4InGenevePayload d' n' =
      (parseIpv4InGenevePayload d n).map fun r => (n' + (r.1 - n), r.2) := by
  have e := parseIpv4InGenevePayload_drop d n 0
  have e' := parseIpv4InGenevePayload_drop d' n' 0
  rw [Nat.add_zero] at e e'
  rw [e, e', ← h, Option.map_map]
  congr 1
  funext r
  simp

theorem parseIpv4InGenevePayload_bounds (h : parseIpv4InGenevePayload d n = some (ip, r)) :
    looksLikeIpv4 d ip = true ∧ ((r = meridianGeneveOptBytes ∧ ip = n + meridianGeneveOptBytes) ∨ (r = 0 ∧ n ≤ ip)) := by
  unfold parseIpv4InGenevePayload at h
  split at h
  · rename_i hslot
    cases h
    exact ⟨hslot, Or.inl ⟨rfl, rfl⟩⟩
  · split at h
    · rename_i hraw
      cases h
      exact ⟨hraw, Or.inr ⟨rfl, Nat.le_refl _⟩⟩
    · rw [Option.map_eq_some_iff] at h
      obtain ⟨ip', hip, he⟩ := h
      cases he
      obtain ⟨hl3, hlooks⟩ := parseIpv4AfterEth_eq_some_iff.mp hip
      refine ⟨hlooks, Or.inr ⟨rfl, ?_⟩⟩
      rcases l3AfterEth_eq_some_iff.mp hl3 with ⟨-, -, rfl⟩ | ⟨-, -, -, rfl⟩ <;> omega

end

end Meridian.Bpf
