import Meridian.Theorems.Decapsulation
import Meridian.Theorems.EgressRun
import Meridian.Theorems.Transport

/-! Insertion at egress and stripping at ingress are inverse to each other, on frames without options whose lengths are
    those of the frame and whose payload is short enough to be stripped. -/

namespace Meridian.Bpf
open Lib

/-! ### The inserted frame -/

/-- The length fields and the source port of the frame that insertion leaves. -/
structure InsertedFields (d d' : List UInt8) (g : EgressGeneve) : Prop where
  length : d'.length = d.length + 8
  total : loadU16 d' (g.outerIp + 2) = lengthField (d.length + 8 - g.outerIp)
  udp : loadU16 d' (g.udp + 4) = lengthField (d.length + 8 - g.udp)
  srcPort : loadU16 d' g.udp =
    if loadU16 d (g.udp + 6) = 0 then loadU16 d g.udp
    else csumReplace2 (loadU16 d g.udp) (loadU16 d (g.udp + 4)) (lengthField (d.length + 8 - g.udp))

theorem loadU16_setWord_self {d : List UInt8} {off : Nat} (x : UInt16) (h : off + 2 ≤ d.length) :
    loadU16 (setWord off x d) off = x :=
  loadU16_overwrite_self x h

section
variable {d : List UInt8} {g : EgressGeneve}

theorem bumped_fields {m : List UInt8} (hudp : g.outerIp + 20 ≤ g.udp) (hlen : g.udp + 8 ≤ m.length) :
    (applyAll (bumpCalls m g.outerIp g.udp) m).length = m.length ∧
      loadU16 (applyAll (bumpCalls m g.outerIp g.udp) m) (g.outerIp + 2) = lengthField (m.length - g.outerIp) ∧
      loadU16 (applyAll (bumpCalls m g.outerIp g.udp) m) (g.udp + 4) = lengthField (m.length - g.udp) ∧
      loadU16 (applyAll (bumpCalls m g.outerIp g.udp) m) g.udp =
        if loadU16 m (g.udp + 6) = 0 then loadU16 m g.udp
        else csumReplace2 (loadU16 m g.udp) (loadU16 m (g.udp + 4)) (lengthField (m.length - g.udp)) := by
  let m₁ := setWord (g.outerIp + 2) (lengthField (m.length - g.outerIp)) m
  let m₂ := setWord (g.udp + 4) (lengthField (m.length - g.udp)) m₁
  have hlen₁ : m₁.length = m.length := length_setWord _ (by omega)
  have hlen₂ : m₂.length = m.length := (length_setWord _ (by omega)).trans hlen₁
  have htotal : loadU16 m₂ (g.outerIp + 2) = lengthField (m.length - g.outerIp) :=
    (loadU16_setWord_of_disjoint _ (by omega) (by omega)).trans (loadU16_setWord_self _ (by omega))
  have hlength : loadU16 m₂ (g.udp + 4) = lengthField (m.length - g.udp) := loadU16_setWord_self _ (by omega)
  have hport : loadU16 m₂ g.udp = loadU16 m g.udp :=
    (loadU16_setWord_of_disjoint _ (by omega) (by omega)).trans (loadU16_setWord_of_disjoint _ (by omega) (by omega))
  rw [bumpCalls, applyAll_append]
  change (applyAll _ m₂).length = _ ∧ loadU16 (applyAll _ m₂) _ = _ ∧ loadU16 (applyAll _ m₂) _ = _ ∧
    loadU16 (applyAll _ m₂) _ = _
  by_cases hcheck : loadU16 m (g.udp + 6) = 0
  · rw [if_neg (not_not.mpr hcheck), if_pos hcheck, applyAll_nil]
    exact ⟨hlen₂, htotal, hlength, hport⟩
  · -- The update overwrites the first word of the UDP header, and nothing else.
    have hin : g.udp + 2 ≤ m₂.length := by omega
    have hsame : ∀ {i}, i + 2 ≤ g.udp ∨ g.udp + 2 ≤ i → loadU16 (updateAt g.udp (loadU16 m (g.udp + 4))
        (lengthField (m.length - g.udp)) m₂) i = loadU16 m₂ i := fun hi => loadU16_setWord_of_disjoint _ hin hi
    rw [if_pos hcheck, if_neg hcheck, applyAll_cons, applyAll_nil]
    refine ⟨(length_overwrite hin).trans hlen₂, (hsame (by omega)).trans htotal, (hsame (by omega)).trans hlength, ?_⟩
    rw [updateAt, loadU16_overwrite_self _ hin, hport]

/-- Writing the option and its length leaves the words below the Geneve header. -/
theorem applyAll_stampCalls_words {b : List UInt8} {stampOff geneveOff : Nat} (words : Nat) (s : UInt32)
    (hstamp : stampOff + 8 ≤ b.length) (hgeneve : geneveOff < stampOff) :
    (applyAll (stampCalls stampOff geneveOff words s) b).length = b.length ∧
      ∀ i, i + 2 ≤ geneveOff → loadU16 (applyAll (stampCalls stampOff geneveOff words s) b) i = loadU16 b i := by
  have hoption : stampOff + (identityTlv s).length ≤ b.length := hstamp
  have hlen : (writeOption stampOff s b).length = b.length := length_overwrite hoption
  have hbyte : geneveOff + 1 ≤ (writeOption stampOff s b).length := by omega
  refine ⟨(length_overwrite hbyte).trans hlen, fun i hi => ?_⟩
  have h₂ : loadU16 (setOptionLength geneveOff (words + meridianGeneveOptWords) (writeOption stampOff s b)) i =
      loadU16 (writeOption stampOff s b) i := loadU16_overwrite_of_disjoint hbyte (Or.inl hi)
  have h₁ : loadU16 (writeOption stampOff s b) i = loadU16 b i :=
    loadU16_overwrite_of_disjoint hoption (Or.inl (by omega))
  exact h₂.trans h₁

theorem insertedData_fields (t : Tunnel d g) (s : UInt32) : InsertedFields d (insertedData d g s) g := by
  have hudp := t.udp_ge
  have hgeneve := t.geneve
  have hbase := t.base
  have hinside := t.inside
  have hlen := length_movedHead hinside
  have hmoved : ∀ {i}, i + 2 ≤ g.innerBase → loadU16 (movedHead d g.innerBase) i = loadU16 d i := fun hi =>
    loadU16_congr (byteAt_movedHead_lt hinside (by omega)) (byteAt_movedHead_lt hinside (by omega))
  obtain ⟨hlength, htotal, hudpLen, hport⟩ := @bumped_fields g (movedHead d g.innerBase) hudp (by omega)
  rw [hmoved (by omega), hmoved (by omega), hmoved (by omega), hlen] at hport
  rw [hlen] at hlength htotal hudpLen
  obtain ⟨hstamped, hword⟩ := applyAll_stampCalls_words g.optWords s
    (show g.innerBase + 8 ≤ (applyAll (bumpCalls (movedHead d g.innerBase) g.outerIp g.udp) _).length by
      rw [hlength]; omega) (show g.geneve < g.innerBase by omega)
  exact ⟨hstamped.trans hlength, (hword _ (by omega)).trans htotal, (hword _ (by omega)).trans hudpLen,
    (hword _ (by omega)).trans hport⟩

theorem ipTotLen_of_field {ip n : Nat} (h : loadU16 d (ip + 2) = lengthField n) : ipTotLen d ip = n % 65536 := by
  rw [ipTotLen, h, lengthField]
  exact (congrArg UInt16.toNat (swapU16_swapU16 _)).trans UInt16.toNat_ofNat'

theorem udpLen_of_field {udp n : Nat} (h : loadU16 d (udp + 4) = lengthField n) : udpLen d udp = n % 65536 := by
  rw [udpLen, h, lengthField]
  exact (congrArg UInt16.toNat (swapU16_swapU16 _)).trans UInt16.toNat_ofNat'

end

/-! ### The inverse law -/

/-- On the other node, the frame parses as a tunnel frame with the new option. -/
theorem Stamped.tunnelFrame {d d' : List UInt8} {g : EgressGeneve} {s : UInt32} (st : Stamped d d' g s) (t : Tunnel d g)
    (hcount : g.optionCount < 4) (hwords : g.optWords + 2 ≤ 8) :
    ∃ gi, ingressParse d' = .tunnel g.outerIp gi := by
  obtain ⟨ip, r, hinner, -⟩ := st.inner t
  rw [ingressParse_of_header (st.outer t), st.tryParseGeneveInner_eq t hcount, if_pos hwords, hinner]
  exact ⟨_, rfl⟩

section
variable {d d' r : List UInt8} {g : EgressGeneve} {s : UInt32}

section
variable (t : Tunnel d g) (hwords : g.optWords = 0) (htotal : ipTotLen d g.outerIp = d.length - g.outerIp)
  (hudpLen : udpLen d g.udp = d.length - g.udp) (st : Stamped d d' g s) (hfields : InsertedFields d d' g)
  (hr : Stripped d' r g.outerIp)
include t hwords htotal hudpLen st hfields hr

/-- The fields that insertion and stripping patch come back to what they were, in a frame without options. -/
theorem stripped_patched {i : Nat} (hi : PatchedField g.outerIp g.udp i) : byteAt r i = byteAt d i := by
  have hudp := t.udp_ge
  have hgeneve := t.geneve
  have hbase := t.base
  have hinside := t.inside
  have hpayload := st.ipPayload_eq t
  have hL : ipTotLen d g.outerIp < 65536 := UInt16.toNat_lt _
  have hU : udpLen d g.udp < 65536 := UInt16.toNat_lt _
  have hfield : ∀ {x y : UInt16}, (bpfNtohs x).toNat = (bpfNtohs y).toNat → x = y := fun h =>
    swapU16_inj (UInt16.toNat_inj.mp h)
  obtain ⟨htot0, htot1⟩ : byteAt r (g.outerIp + 2) = byteAt d (g.outerIp + 2) ∧
      byteAt r (g.outerIp + 2 + 1) = byteAt d (g.outerIp + 2 + 1) := by
    refine byteAt_of_loadU16_eq (hfield ?_)
    have hlowered := hr.total
    rw [ipTotLen_of_field hfields.total] at hlowered
    exact hlowered.trans (Eq.trans (by omega) htotal.symm)
  obtain ⟨hlen0, hlen1⟩ : byteAt r (g.udp + 4) = byteAt d (g.udp + 4) ∧
      byteAt r (g.udp + 4 + 1) = byteAt d (g.udp + 4 + 1) := by
    refine byteAt_of_loadU16_eq (hfield ?_)
    have hlowered := hr.udp
    rw [hpayload, udpLen_of_field hfields.udp] at hlowered
    exact hlowered.trans (Eq.trans (by omega) hudpLen.symm)
  have hoptions : byteAt r g.geneve = byteAt d g.geneve := by
    have hversion := t.version
    have hzero := t.words
    have hcleared := hr.options
    rw [hpayload, ← hgeneve, st.words, hwords] at hcleared
    rw [hcleared]
    apply UInt8.toNat_inj.mp
    rw [show (byteAt d g.geneve).toNat = 0 by omega]
    rfl
  rcases hi with rfl | rfl | rfl | rfl | rfl
  · exact htot0
  · exact htot1
  · exact hlen0
  · exact hlen1
  · rw [← hgeneve]
    exact hoptions

/-- The headers of a frame without options after insertion and stripping. -/
theorem stripped_head (hcheck : loadU16 d (g.udp + 6) = 0) : ∀ i < g.innerBase, byteAt r i = byteAt d i := by
  have hgeneve := t.geneve
  have hbase := t.base
  have hpayload := st.ipPayload_eq t
  have hport := hfields.srcPort
  rw [if_pos hcheck] at hport
  obtain ⟨hport0, hport1⟩ := byteAt_of_loadU16_eq hport
  intro i hi
  by_cases hpatched : PatchedField g.outerIp g.udp i
  · exact stripped_patched t hwords htotal hudpLen st hfields hr hpatched
  · have hsame : byteAt r i = byteAt d' i := hr.head i (by omega) (by rw [hpayload]; exact hpatched)
    rw [hsame]
    by_cases hp0 : i = g.udp
    · rw [hp0]
      exact hport0
    by_cases hp1 : i = g.udp + 1
    · rw [hp1]
      exact hport1
    · refine st.head i hi ?_ ?_
      · unfold PatchedField at hpatched
        unfold LengthField
        omega
      · unfold PatchedField at hpatched
        omega

/-- Up to its total length, the stripped frame is the frame before insertion. -/
theorem stripped_inserted (hres : g.reservedHeadroom = 0) (hcheck : loadU16 d (g.udp + 6) = 0) :
    r.take (g.outerIp + ipTotLen r g.outerIp) = d := by
  have hudp := t.udp_ge
  have hgeneve := t.geneve
  have hbase := t.base
  have hinside := t.inside
  have hL : ipTotLen d g.outerIp < 65536 := UInt16.toNat_lt _
  have hlen : r.length = d.length + 8 := hr.length.trans hfields.length
  have hgp : genevePayload d' g.outerIp = g.innerBase + 8 := by
    rw [genevePayload, geneveWords, st.ipPayload_eq t, st.words_eq t]
    omega
  have hend : g.outerIp + ipTotLen r g.outerIp = g.innerBase + (d.length - g.innerBase) := by
    have hlowered := hr.total
    rw [ipTotLen_of_field hfields.total] at hlowered
    omega
  -- The payload: what stripping moved back is what insertion had moved on.
  have hpayload := hr.payload
  rw [hgp, Nat.add_sub_cancel, st.payload, hres, Nat.add_zero] at hpayload
  have hhead : r.take g.innerBase = d.take g.innerBase := by
    refine ext_byteAt (by rw [List.length_take, List.length_take]; omega) fun i hi => ?_
    rw [List.length_take] at hi
    rw [byteAt_take (by omega), byteAt_take (by omega)]
    exact stripped_head t hwords htotal hudpLen st hfields hr hcheck i (by omega)
  have htail : (d.drop g.innerBase).take (d.length - g.innerBase) = d.drop g.innerBase :=
    List.take_of_length_le (by rw [List.length_drop])
  rw [hend, List.take_add, hpayload, List.take_append_of_le_length (by rw [List.length_drop]), hhead, htail,
    List.take_append_drop]

end

end

/-- Ingress recognises a frame that egress stamped by insertion, and stripping it with the offsets of ingress gives the
    frame back. -/
theorem strip_undoes_insertion {env env' : Env} {maps : Maps} {skb : Skb} {g : EgressGeneve} {s : UInt32}
    (hworks : ∀ n, env.skbFails n = false) (hworks' : ∀ n, env'.skbFails n = false)
    (hparse : egressParse skb.data = .tunnel g) (hinserted : g.reservedHeadroom = 0)
    (hrun : (meridianTcEgress env maps skb).1 = .stamped s) (hwords : g.optWords = 0)
    (hcheck : loadU16 skb.data (g.udp + 6) = 0) (htotal : ipTotLen skb.data g.outerIp = skb.data.length - g.outerIp)
    (hudpLen : udpLen skb.data g.udp = skb.data.length - g.udp)
    (hshort : skb.data.length ≤ g.innerBase + meridianStripMaxLen) :
    ∃ gi, ingressParse (meridianTcEgress env maps skb).2.skb.data = .tunnel g.outerIp gi ∧
      ∀ c c' : Ctx, c.skb.data = (meridianTcEgress env maps skb).2.skb.data → c'.skb.data = c.skb.data →
        (stripMeridianTlv env' c' (stripOffsets env' c c.skb.data g.outerIp).1).1 = false ∧
          (stripMeridianTlv env' c' (stripOffsets env' c c.skb.data g.outerIp).1).2.skb.data.take
            (g.outerIp + ipTotLen (stripMeridianTlv env' c' (stripOffsets env' c c.skb.data g.outerIp).1).2.skb.data
              g.outerIp) = skb.data := by
  have t := egressParse_tunnel hparse
  obtain ⟨-, hdata⟩ := meridianTcEgress_inserted hworks hparse hinserted hrun
  obtain ⟨g', hparse', -, -, hcount, st⟩ := meridianTcEgress_stamped (Prod.ext hrun rfl)
  cases hparse'.symm.trans hparse
  have hfields : InsertedFields skb.data (meridianTcEgress env maps skb).2.skb.data g := hdata ▸ insertedData_fields t s
  obtain ⟨gi, hgi⟩ := st.tunnelFrame t hcount (by omega)
  refine ⟨gi, hgi, fun c c' hc hc' => ?_⟩
  obtain ⟨htunnel, -⟩ := ingressParse_tunnel hgi
  generalize (meridianTcEgress env maps skb).2.skb.data = d' at st hfields hc htunnel
  have hgw : geneveWords d' g.outerIp = 2 := by
    rw [geneveWords, st.ipPayload_eq t, st.words_eq t]
    omega
  have hgp : genevePayload d' g.outerIp = g.innerBase + 8 := by
    have hbase := t.base
    have hgeneve := t.geneve
    rw [genevePayload, hgw, st.ipPayload_eq t]
    omega
  have hlen := hfields.length
  have hdata' : c'.skb.data = d' := hc'.trans hc
  have hoffs : (stripOffsets env' c d' g.outerIp).1 = tunnelOffsets d' g.outerIp true := by
    have heq := @stripOffsets_eq env' c g.outerIp (hc ▸ htunnel.toGeneveHeader)
    rw [hc, hworks'] at heq
    rw [heq]
    rfl
  have hfits : d'.length - (tunnelOffsets d' g.outerIp true).innerBaseOff ≤ meridianStripMaxLen := by
    show d'.length - genevePayload d' g.outerIp ≤ _
    omega
  have hstrip : stripMeridianTlv env' c' (tunnelOffsets d' g.outerIp true) =
      c'.attempt env' (stripScript d' (tunnelOffsets d' g.outerIp true)) := by
    rw [stripMeridianTlv_eq_attempt (hdata' ▸ htunnel.strippable hfits), hdata', stripScript, if_pos hfits]
  rw [hc, hoffs, hstrip, attempt_of_working hworks', Ctx.after_data, hdata', applyAll_stripScript htunnel (by omega)]
  exact ⟨rfl, stripped_inserted t hwords htotal hudpLen st hfields
    (stripped_stripped htunnel (by omega)) hinserted hcheck⟩

theorem strip_undoes_insertion_syn :
    ∃ gi, ingressParse (meridianTcEgress quietEnv senderMaps
        ⟨geneveFrame 76 56 0 ethPIp [] (synPacket 64), 0⟩).2.skb.data = .tunnel 14 gi ∧
      ∀ c c' : Ctx, c.skb.data = (meridianTcEgress quietEnv senderMaps
          ⟨geneveFrame 76 56 0 ethPIp [] (synPacket 64), 0⟩).2.skb.data → c'.skb.data = c.skb.data →
        (stripMeridianTlv quietEnv c' (stripOffsets quietEnv c c.skb.data 14).1).1 = false ∧
          (stripMeridianTlv quietEnv c' (stripOffsets quietEnv c c.skb.data 14).1).2.skb.data.take
            (14 + ipTotLen (stripMeridianTlv quietEnv c' (stripOffsets quietEnv c c.skb.data 14).1).2.skb.data 14) =
          geneveFrame 76 56 0 ethPIp [] (synPacket 64) :=
  @strip_undoes_insertion quietEnv quietEnv senderMaps ⟨geneveFrame 76 56 0 ethPIp [] (synPacket 64), 0⟩
    ⟨14, 34, 42, 0, 0, 50, 50, 0⟩ 7 (fun _ => rfl) (fun _ => rfl) (by decide +kernel) rfl (by decide +kernel) rfl
    (by decide +kernel) (by decide +kernel) (by decide +kernel) (by decide +kernel)

end Meridian.Bpf
