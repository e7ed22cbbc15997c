import Meridian.Theorems.InnerHeader
import Meridian.Theorems.IngressRun

/-! What stripping leaves of a tunnel frame when the helpers work: which frames come out without options and with the
    lengths and the payload of the frame without them. -/

namespace Meridian.Bpf
open Lib

/-! ### Length fields -/

/-- The total length of the IPv4 header at `ip`, in bytes. -/
def ipTotLen (d : List UInt8) (ip : Nat) : Nat := (bpfNtohs (loadU16 d (ip + 2))).toNat

/-- The length of the UDP header at `udp`, in bytes. -/
def udpLen (d : List UInt8) (udp : Nat) : Nat := (bpfNtohs (loadU16 d (udp + 4))).toNat

theorem toNat_sub_eight (x : UInt16) :
    (x - UInt16.ofNat meridianGeneveOptBytes).toNat = (x.toNat + 65528) % 65536 := by
  rw [UInt16.toNat_sub, meridianGeneveOptBytes, UInt16.toNat_ofNat']
  omega

variable {d : List UInt8} {off : Nat}

theorem loadU16_lowerWord (h : off + 2 ≤ d.length) :
    (bpfNtohs (loadU16 (lowerWord off d) off)).toNat = ((bpfNtohs (loadU16 d off)).toNat + 65528) % 65536 := by
  rw [lowerWord, loadU16_overwrite_self _ h, ← toNat_sub_eight]
  exact congrArg UInt16.toNat (swapU16_swapU16 _)

theorem lowerWord_sameOff (h : off + 2 ≤ d.length) : SameOff (fun i => off ≤ i ∧ i < off + 2) d (lowerWord off d) :=
  @SameOff.overwrite d (bytesU16 _) off h

theorem clearOptionLength_sameOff (h : off + 1 ≤ d.length) :
    SameOff (fun i => off ≤ i ∧ i < off + 1) d (clearOptionLength off d) :=
  @SameOff.overwrite d [_] off h

/-! ### The stripped frame -/

/-- The bytes that stripping patches: both length fields, and the first byte of the Geneve header. -/
def PatchedField (ip udp i : Nat) : Prop := i = ip + 2 ∨ i = ip + 3 ∨ i = udp + 4 ∨ i = udp + 5 ∨ i = udp + 8

/-- The payload moved eight bytes towards the head; the last eight bytes are stale. -/
def movedPayload (d : List UInt8) (base : Nat) : List UInt8 := overwrite d (base - 8) (d.drop base)

def stripped (d : List UInt8) (ip : Nat) : List UInt8 :=
  lowerWord (ipPayload d ip + 4) (lowerWord (ip + 2) (clearOptionLength (ipPayload d ip + 8)
    (movedPayload d (genevePayload d ip))))

section
variable {d : List UInt8} {ip : Nat}

theorem applyAll_stripScript (h : TunnelFrame d ip) (hshort : d.length ≤ genevePayload d ip + meridianStripMaxLen) :
    applyAll (stripScript d (tunnelOffsets d ip true)) d = stripped d ip := by
  have hinside := h.inside
  have hbase : (tunnelOffsets d ip true).innerBaseOff = genevePayload d ip := rfl
  have htake : (d.drop (genevePayload d ip)).take (d.length - genevePayload d ip) = d.drop (genevePayload d ip) :=
    List.take_of_length_le (by rw [List.length_drop])
  rw [stripScript, hbase, if_pos (by omega), stripCalls, hbase, applyAll_cons, applyAll_append, id,
    applyAll_moveCalls (by omega) (by omega), htake]
  rfl

theorem length_movedPayload {base : Nat} (hbase : 8 ≤ base) (h : base ≤ d.length) :
    (movedPayload d base).length = d.length := by
  refine length_overwrite ?_
  rw [List.length_drop]
  omega

theorem byteAt_movedPayload {base i : Nat} (hbase : 8 ≤ base) (h : base ≤ d.length) (hi : i + 8 < base) :
    byteAt (movedPayload d base) i = byteAt d i := by
  refine byteAt_overwrite_lt ?_ (by omega)
  rw [List.length_drop]
  omega

theorem drop_movedPayload {base : Nat} (hbase : 8 ≤ base) (h : base ≤ d.length) :
    (movedPayload d base).drop (base - 8) = d.drop base ++ d.drop (d.length - 8) := by
  have hhead : (d.take (base - 8)).length = base - 8 := by
    rw [List.length_take]
    omega
  rw [movedPayload, overwrite, List.append_assoc, List.drop_append, List.drop_eq_nil_of_le (by omega), List.nil_append, hhead,
    Nat.sub_self, List.drop_zero, List.length_drop, show base - 8 + (d.length - base) = d.length - 8 by omega]

/-- `d'` is what stripping leaves of the tunnel frame `d`. -/
structure Stripped (d d' : List UInt8) (ip : Nat) : Prop where
  length : d'.length = d.length
  head : ∀ i, i < ipPayload d ip + 16 → ¬PatchedField ip (ipPayload d ip) i → byteAt d' i = byteAt d i
  options : byteAt d' (ipPayload d ip + 8) = byteAt d (ipPayload d ip + 8) &&& 0xc0
  total : ipTotLen d' ip = (ipTotLen d ip + 65528) % 65536
  udp : udpLen d' (ipPayload d ip) = (udpLen d (ipPayload d ip) + 65528) % 65536
  payload : d'.drop (genevePayload d ip - 8) = d.drop (genevePayload d ip) ++ d.drop (d.length - 8)

theorem clearedOptions (b : UInt8) : (b &&& 0xc0).toNat % 64 = 0 := by
  revert b
  apply forall_byte
  decide +kernel

/-- The option's two words stand between the headers and the payload, so the fields are not among the moved bytes. -/
theorem stripped_stripped (h : TunnelFrame d ip) (hwords : 2 ≤ geneveWords d ip) : Stripped d (stripped d ip) ip := by
  have hudp := h.udp_ge
  have hinside := h.inside
  have hlen := h.length
  have hbase : genevePayload d ip = ipPayload d ip + 16 + geneveWords d ip * 4 := rfl
  generalize hu : ipPayload d ip = udp at hudp hbase hlen
  generalize hb : genevePayload d ip = base at hinside hbase
  have hmove := @length_movedPayload d base (by omega) hinside
  have hmoved : ∀ {i}, i < udp + 16 → byteAt (movedPayload d base) i = byteAt d i := fun hi =>
    byteAt_movedPayload (by omega) hinside (by omega)
  -- The three patches, one after the other.
  let m₁ := clearOptionLength (udp + 8) (movedPayload d base)
  let m₂ := lowerWord (ip + 2) m₁
  have hlen₁ : m₁.length = d.length := (length_clearOptionLength (by omega)).trans hmove
  have hlen₂ : m₂.length = d.length := (length_lowerWord (by omega)).trans hlen₁
  have hin₁ : udp + 8 + 1 ≤ (movedPayload d base).length := by omega
  have hin₂ : ip + 2 + 2 ≤ m₁.length := by omega
  have hin₃ : udp + 4 + 2 ≤ m₂.length := by omega
  have hsame₁ : SameOff _ (movedPayload d base) m₁ := clearOptionLength_sameOff hin₁
  have hsame₂ : SameOff _ m₁ m₂ := lowerWord_sameOff hin₂
  have hsame₃ := lowerWord_sameOff hin₃
  have hsame : SameOff (PatchedField ip udp) (movedPayload d base) (lowerWord (udp + 4) m₂) := by
    refine (hsame₁.mono ?_).trans ((hsame₂.mono ?_).trans (hsame₃.mono ?_)) <;> unfold PatchedField <;> omega
  have hword₁ : ∀ {i}, i + 2 ≤ udp + 8 → loadU16 m₁ i = loadU16 d i := fun hi =>
    loadU16_congr ((hsame₁.bytes _ (by omega)).trans (hmoved (by omega)))
      ((hsame₁.bytes _ (by omega)).trans (hmoved (by omega)))
  have heq : stripped d ip = lowerWord (udp + 4) m₂ := by rw [stripped, hu, hb]
  rw [heq]
  refine ⟨hsame.length.trans hmove, ?_, ?_, ?_, ?_, ?_⟩
  · rw [hu]
    intro i hi hfield
    exact (hsame.bytes i hfield).trans (hmoved hi)
  · have hclear : byteAt m₁ (udp + 8) = byteAt (movedPayload d base) (udp + 8) &&& 0xc0 := by
      exact @byteAt_overwrite_mid (movedPayload d base) [_] (udp + 8) 0 hin₁ Nat.one_pos
    rw [hu, hsame₃.bytes _ (by omega), hsame₂.bytes _ (by omega), hclear, hmoved (by omega)]
  · have hfield : loadU16 (lowerWord (udp + 4) m₂) (ip + 2) = loadU16 m₂ (ip + 2) :=
      loadU16_congr (hsame₃.bytes _ (by omega)) (hsame₃.bytes _ (by omega))
    rw [ipTotLen, hfield, loadU16_lowerWord hin₂, hword₁ (by omega)]
    rfl
  · have hfield : loadU16 m₂ (udp + 4) = loadU16 m₁ (udp + 4) :=
      loadU16_congr (hsame₂.bytes _ (by omega)) (hsame₂.bytes _ (by omega))
    rw [udpLen, hu, loadU16_lowerWord hin₃, hfield, hword₁ (by omega)]
    rfl
  · have hbehind : ∀ i, base - 8 ≤ i → ¬PatchedField ip udp i := by
      unfold PatchedField
      omega
    rw [hb, hsame.drop_eq hbehind, drop_movedPayload (by omega) hinside]

theorem Stripped.ipPayload_eq {d' : List UInt8} (h : Stripped d d' ip) (ht : TunnelFrame d ip) :
    ipPayload d' ip = ipPayload d ip := by
  have hudp := ht.udp_ge
  have hbyte : byteAt d' ip = byteAt d ip := by
    refine h.head ip (by omega) ?_
    unfold PatchedField
    omega
  rw [ipPayload, ipIhl, hbyte]
  rfl

end

/-! ### Which frames are decapsulable -/

/-- A frame with the identity option has two words of options or more. -/
theorem parseGeneveIdentityLoop_words {opts optBytes n offset : Nat} {v : UInt32}
    (h : parseGeneveIdentityLoop d opts optBytes n offset = some v) : 8 ≤ optBytes := by
  induction n generalizing offset with
  | zero => cases h
  | succ n ih =>
    rw [parseGeneveIdentityLoop] at h
    split at h
    · cases h
    · dsimp only at h
      split at h
      · cases h
      · split at h
        · cases h
        · rename_i hsize
          split at h
          · rename_i hid
            simp only [Bool.and_eq_true, decide_eq_true_eq, Bool.or_eq_true, not_or] at hid hsize
            have hone : (byteAt d (opts + offset + 3)).toNat % 32 = 1 := hid.2
            omega
          · exact ih h

theorem TunnelFrame.two_words {ip inner : Nat} {srcId : UInt32} (h : TunnelFrame d ip)
    (hinner : tryParseGeneveInner d ip = some ⟨inner, some srcId⟩) : 2 ≤ geneveWords d ip := by
  rw [tryParseGeneveInner_of_header h.toGeneveHeader h.words h.inside] at hinner
  obtain ⟨r, -, hr⟩ := Option.map_eq_some_iff.mp hinner
  have hbytes := parseGeneveIdentityLoop_words (congrArg GeneveInner.identity hr)
  omega

/-- What ingress leaves of an allowed frame when every helper works. -/
theorem passedData_working {fails : Nat → Bool} {ip inner : Nat} {srcId : UInt32} (hworks : ∀ n, fails n = false)
    (hparse : ingressParse d = .tunnel ip ⟨inner, some srcId⟩) : passedData fails d =
      if (parseL4Ports d inner).isSome ∧ d.length ≤ genevePayload d ip + meridianStripMaxLen then stripped d ip else d := by
  obtain ⟨htunnel, -⟩ := ingressParse_tunnel hparse
  rw [passedData, hworks 0, hparse]
  dsimp only
  rw [if_neg Bool.false_ne_true, hworks 1, attempt_of_succeed fun i _ => hworks _]
  by_cases hports : (parseL4Ports d inner).isSome = true
  · by_cases hshort : d.length ≤ genevePayload d ip + meridianStripMaxLen
    · rw [if_pos hports, if_pos ⟨hports, hshort⟩]
      exact applyAll_stripScript htunnel hshort
    · have hlong : ¬d.length - (tunnelOffsets d ip true).innerBaseOff ≤ meridianStripMaxLen := by
        show ¬d.length - genevePayload d ip ≤ _
        omega
      rw [if_pos hports, if_neg fun h => hshort h.2, stripScript]
      exact congrArg (fun calls => applyAll (id :: calls) d) (if_neg hlong)
  · rw [if_neg hports, if_neg fun h => hports h.1]

/-- `d'` is the tunnel frame `d` without its options: the option length is zero, both lengths are lower by the bytes
    removed, and up to the new total length `d'` is the old outer headers, patched in these fields, and then the old
    payload. -/
structure Decapsulable (d d' : List UInt8) (ip : Nat) : Prop where
  options : geneveWords d' ip = 0
  total : ipTotLen d' ip + geneveWords d ip * 4 = ipTotLen d ip
  udp : udpLen d' (ipPayload d ip) + geneveWords d ip * 4 = udpLen d (ipPayload d ip)
  bytes : ∃ head, SameOff (PatchedField ip (ipPayload d ip)) (d.take (ipPayload d ip + 16)) head ∧
    d'.take (ip + ipTotLen d' ip) = head ++ (d.take (ip + ipTotLen d ip)).drop (genevePayload d ip)

theorem Stripped.decapsulable_iff {d' : List UInt8} {ip : Nat} (h : Stripped d d' ip) (ht : TunnelFrame d ip)
    (hwords : 2 ≤ geneveWords d ip) : Decapsulable d d' ip ↔ geneveWords d ip = 2 ∧ genevePayload d ip ≤ ip + ipTotLen d ip ∧
      ip + ipTotLen d ip ≤ d.length ∧ 8 ≤ udpLen d (ipPayload d ip) := by
  have hudp := ht.udp_ge
  have hinside := ht.inside
  have hlen := ht.length
  have hL : ipTotLen d ip < 65536 := UInt16.toNat_lt _
  have hU : udpLen d (ipPayload d ip) < 65536 := UInt16.toNat_lt _
  have hbase : genevePayload d ip = ipPayload d ip + 16 + geneveWords d ip * 4 := rfl
  have htotal := h.total
  have hudpLen := h.udp
  constructor
  · rintro ⟨-, hL', hU', head, hhead, hbytes⟩
    have hlengths := congrArg List.length hbytes
    have hhead := hhead.length
    rw [List.length_take] at hhead
    rw [List.length_append, List.length_drop, List.length_take, List.length_take, h.length] at hlengths
    refine ⟨by omega, by omega, by omega, by omega⟩
  · rintro ⟨htwo, hstart, hend, hU8⟩
    refine ⟨?_, by omega, by omega, d'.take (ipPayload d ip + 16), ⟨?_, fun i hi => ?_⟩, ?_⟩
    · rw [geneveWords, h.ipPayload_eq ht, h.options, clearedOptions]
    · rw [List.length_take, List.length_take, h.length]
    · by_cases hlt : i < ipPayload d ip + 16
      · rw [byteAt_take hlt, byteAt_take hlt, h.head i hlt hi]
      · have hend : ∀ l : List UInt8, byteAt (l.take (ipPayload d ip + 16)) i = 0 := by
          intro l
          rw [byteAt, List.getD_eq_getElem?_getD, List.getElem?_eq_none (by rw [List.length_take]; omega), Option.getD_none]
        rw [hend, hend]
    · -- The payload up to the old total length stands behind the headers.
      have hL' : ip + ipTotLen d' ip = ipPayload d ip + 16 + (ip + ipTotLen d ip - genevePayload d ip) := by omega
      have hdrop := h.payload
      rw [show genevePayload d ip - 8 = ipPayload d ip + 16 by omega] at hdrop
      rw [hL', List.take_add, hdrop, List.take_append_of_le_length (by rw [List.length_drop]; omega), List.drop_take]

/-- An allowed frame with the option is decapsulable exactly when the identity option is its only one, its payload is
    at most 256 bytes, its inner ports can be read, and its lengths fit the frame. -/
theorem allowed_decapsulable_iff {env : Env} {maps : Maps} {skb : Skb} {ip inner : Nat} {srcId : UInt32}
    (hworks : ∀ n, env.skbFails n = false) (hparse : ingressParse skb.data = .tunnel ip ⟨inner, some srcId⟩)
    (hok : (meridianTcIngress env maps skb).1.action = .ok) :
    Decapsulable skb.data (meridianTcIngress env maps skb).2.skb.data ip ↔
      geneveWords skb.data ip = 2 ∧ skb.data.length ≤ genevePayload skb.data ip + meridianStripMaxLen ∧
        (parseL4Ports skb.data inner).isSome ∧ genevePayload skb.data ip ≤ ip + ipTotLen skb.data ip ∧
        ip + ipTotLen skb.data ip ≤ skb.data.length ∧ 8 ≤ udpLen skb.data (ipPayload skb.data ip) := by
  obtain ⟨htunnel, hinner⟩ := ingressParse_tunnel hparse
  have hwords := htunnel.two_words hinner
  have hdata : (meridianTcIngress env maps skb).2.skb.data = passedData env.skbFails skb.data := by
    rcases meridianTcIngress_cases env maps skb with ⟨haction, -⟩ | ⟨-, hdata, -⟩
    · exact absurd hok haction
    · exact hdata
  rw [hdata, passedData_working hworks hparse]
  by_cases hstrips : (parseL4Ports skb.data inner).isSome ∧ skb.data.length ≤ genevePayload skb.data ip + meridianStripMaxLen
  · rw [if_pos hstrips, (stripped_stripped htunnel hwords).decapsulable_iff htunnel hwords]
    constructor
    · rintro ⟨htwo, hlengths⟩
      exact ⟨htwo, hstrips.2, hstrips.1, hlengths⟩
    · rintro ⟨htwo, -, -, hlengths⟩
      exact ⟨htwo, hlengths⟩
  · -- The frame is passed with its options.
    rw [if_neg hstrips]
    refine iff_of_false (fun h => ?_) fun h => hstrips ⟨h.2.2.1, h.2.1⟩
    have := h.options
    omega

theorem allowed_decapsulable_syn :
    Decapsulable (taggedFrame 84 64 [] (synPacket 64))
      (meridianTcIngress quietEnv openMaps ⟨taggedFrame 84 64 [] (synPacket 64), 0⟩).2.skb.data 14 :=
  (@allowed_decapsulable_iff quietEnv openMaps ⟨taggedFrame 84 64 [] (synPacket 64), 0⟩ 14 58 7 (fun _ => rfl)
    (by decide +kernel) (by decide +kernel)).mpr (by decide +kernel)

/-- Three frames that ingress allows: with a second option, eight bytes too much stay behind the headers; with 290 bytes
    of payload, or with an inner header cut off before its ports, the option stays. -/
theorem allowed_not_decapsulable :
    (ingressParse (taggedFrame 92 72 [1, 2, 3, 1, 0, 0, 0, 0] (synPacket 64)) = .tunnel 14 ⟨66, some 7⟩ ∧
      (meridianTcIngress quietEnv openMaps ⟨taggedFrame 92 72 [1, 2, 3, 1, 0, 0, 0, 0] (synPacket 64), 0⟩).1.action = .ok ∧
      ¬Decapsulable (taggedFrame 92 72 [1, 2, 3, 1, 0, 0, 0, 0] (synPacket 64))
        (meridianTcIngress quietEnv openMaps
          ⟨taggedFrame 92 72 [1, 2, 3, 1, 0, 0, 0, 0] (synPacket 64), 0⟩).2.skb.data 14) ∧
    (ingressParse (taggedFrame 334 314 [] (synPacket 64 ++ List.replicate 250 0)) = .tunnel 14 ⟨58, some 7⟩ ∧
      (meridianTcIngress quietEnv openMaps
        ⟨taggedFrame 334 314 [] (synPacket 64 ++ List.replicate 250 0), 0⟩).1.action = .ok ∧
      ¬Decapsulable (taggedFrame 334 314 [] (synPacket 64 ++ List.replicate 250 0))
        (meridianTcIngress quietEnv openMaps
          ⟨taggedFrame 334 314 [] (synPacket 64 ++ List.replicate 250 0), 0⟩).2.skb.data 14) ∧
    (ingressParse (taggedFrame 66 46 [] ((synPacket 64).take 22)) = .tunnel 14 ⟨58, some 7⟩ ∧
      (meridianTcIngress quietEnv openMaps ⟨taggedFrame 66 46 [] ((synPacket 64).take 22), 0⟩).1.action = .ok ∧
      ¬Decapsulable (taggedFrame 66 46 [] ((synPacket 64).take 22))
        (meridianTcIngress quietEnv openMaps ⟨taggedFrame 66 46 [] ((synPacket 64).take 22), 0⟩).2.skb.data 14) := by
  refine ⟨⟨by decide +kernel, by decide +kernel, fun h => ?_⟩, ⟨by decide +kernel, by decide +kernel, fun h => ?_⟩,
    ⟨by decide +kernel, by decide +kernel, fun h => ?_⟩⟩
  · exact absurd h.total (by decide +kernel)
  · exact absurd h.options (by decide +kernel)
  · exact absurd h.options (by decide +kernel)

end Meridian.Bpf
