import Meridian.Bpf.Ingress
import Meridian.Theorems.EgressStamp

/-! Transport of the identity between two nodes: what ingress reads from a packet that egress stamped.
    The two option walks agree as long as the option list, grown by one option, stays within the limit
    of ingress; and both guess the inner header, egress before and ingress after the slot is filled. -/

namespace Meridian.Bpf
open Lib

/-! ### The option walk over the grown list -/

variable {d : List UInt8}

theorem parseGeneveOptionCountLoop_le {opts optBytes n offset count m : Nat}
    (h : parseGeneveOptionCountLoop d opts optBytes n offset count = some m) : offset ≤ optBytes := by
  cases n with
  | zero =>
    unfold parseGeneveOptionCountLoop at h
    split at h
    · cases h
    · omega
  | succ n =>
    unfold parseGeneveOptionCountLoop at h
    split at h
    · omega
    · split at h
      · cases h
      · omega

theorem parseGeneveOptionCountLoop_succ {opts optBytes n offset count m : Nat}
    (h : parseGeneveOptionCountLoop d opts optBytes (n + 1) offset count = some m) : offset = optBytes ∨
      (offset < optBytes ∧ opts + offset + 4 ≤ d.length ∧
        offset + (4 + (byteAt d (opts + offset + 3)).toNat % 32 * 4) ≤ optBytes ∧
        parseGeneveOptionCountLoop d opts optBytes n
          (offset + (4 + (byteAt d (opts + offset + 3)).toNat % 32 * 4)) (count + 1) = some m) := by
  unfold parseGeneveOptionCountLoop at h
  split at h
  · exact Or.inl ‹_›
  · split at h
    · cases h
    · dsimp only at h
      split at h
      · cases h
      · split at h
        · cases h
        · exact Or.inr ⟨by omega, by omega, parseGeneveOptionCountLoop_le h, h⟩

def isIdentityOption (d : List UInt8) (opt : Nat) : Bool :=
  loadU16 d opt = bpfHtons meridianGeneveClass && byteAt d (opt + 2) = meridianOptIdentity &&
    (byteAt d (opt + 3)).toNat % 32 = meridianGeneveIdentityLenWords

theorem bodyWords_of_isIdentityOption {opt : Nat} (h : isIdentityOption d opt = true) :
    (byteAt d (opt + 3)).toNat % 32 = 1 := by
  simp only [isIdentityOption, Bool.and_eq_true, decide_eq_true_eq] at h
  exact h.2

theorem parseGeneveIdentityLoop_succ {opts optBytes offset : Nat} (n : Nat) (hlt : offset < optBytes)
    (hsize : offset + (4 + (byteAt d (opts + offset + 3)).toNat % 32 * 4) ≤ optBytes) (hd : opts + optBytes ≤ d.length) :
    parseGeneveIdentityLoop d opts optBytes (n + 1) offset =
      if isIdentityOption d (opts + offset) then some (bpfNtohl (loadU32 d (opts + offset + 4)))
      else parseGeneveIdentityLoop d opts optBytes n
        (offset + (4 + (byteAt d (opts + offset + 3)).toNat % 32 * 4)) := by
  rw [parseGeneveIdentityLoop, if_neg (by omega)]
  dsimp only
  rw [if_neg (by omega), if_neg (by simp only [Bool.or_eq_true, decide_eq_true_eq]; omega)]
  change (if isIdentityOption d (opts + offset) = true then
    if opts + offset + meridianGeneveOptBytes > d.length then none else some _ else _) = _
  by_cases hid : isIdentityOption d (opts + offset) = true
  · have hlen := bodyWords_of_isIdentityOption hid
    rw [if_pos hid, if_pos hid, if_neg (by simp only [meridianGeneveOptBytes]; omega)]
  · rw [if_neg hid, if_neg hid]

theorem identityOption_of_bytes {opt : Nat} {s : UInt32} (h : ∀ i, i < 8 → byteAt d (opt + i) = byteAt (identityTlv s) i) :
    isIdentityOption d opt = true ∧ (byteAt d (opt + 3)).toNat % 32 = 1 ∧ bpfNtohl (loadU32 d (opt + 4)) = s := by
  have hclass : loadU16 d opt = loadU16 (identityTlv s) 0 := loadU16_congr (h 0 (by omega)) (h 1 (by omega))
  have hlen : (byteAt d (opt + 3)).toNat % 32 = 1 := by
    rw [h 3 (by omega)]
    rfl
  have hvalue : loadU32 d (opt + 4) = bpfHtonl s := by
    apply loadU32_of_bytes
    intro j hj
    rw [Nat.add_assoc, h (4 + j) (by omega), identityTlv, byteAt_append_right (Nat.le_add_right 4 j)]
    change byteAt (bytesU32 (bpfHtonl s)) (4 + j - 4) = byteAt (bytesU32 (bpfHtonl s)) j
    rw [Nat.add_sub_cancel_left]
  refine ⟨?_, hlen, ?_⟩
  · simp only [isIdentityOption, Bool.and_eq_true, decide_eq_true_eq]
    exact ⟨⟨hclass, h 2 (by omega)⟩, hlen⟩
  · rw [hvalue]
    exact swapU32_swapU32 s

/-- The walk of ingress over the options of `d` followed by the identity option finds the first Meridian
    option of `d`, and the new one if there is none. By induction on the rounds left; the count leaves one
    round for the new option. -/
theorem parseGeneveIdentityLoop_grown {d' : List UInt8} {opts optBytes : Nat} {s : UInt32}
    (hold : ∀ i, opts ≤ i → i < opts + optBytes → byteAt d' i = byteAt d i)
    (hnew : ∀ i, i < 8 → byteAt d' (opts + optBytes + i) = byteAt (identityTlv s) i) (hd : opts + optBytes ≤ d.length)
    (hd' : opts + (optBytes + 8) ≤ d'.length) {n offset count m : Nat}
    (hcount : parseGeneveOptionCountLoop d opts optBytes n offset count = some m) (hspare : m < count + n) :
    parseGeneveIdentityLoop d' opts (optBytes + 8) n offset =
      some ((parseGeneveIdentityLoop d opts optBytes n offset).getD s) := by
  induction n generalizing offset count with
  | zero =>
    unfold parseGeneveOptionCountLoop at hcount
    split at hcount
    · cases hcount
    · cases hcount
      omega
  | succ n ih =>
    rcases parseGeneveOptionCountLoop_succ hcount with rfl | ⟨hlt, hopt, hsize, hrest⟩
    · -- The old options end here: the next one is the option just written.
      obtain ⟨hid, hlen, hvalue⟩ := identityOption_of_bytes hnew
      have hend : parseGeneveIdentityLoop d opts offset (n + 1) offset = none := by
        rw [parseGeneveIdentityLoop, if_pos (Nat.le_refl _)]
      rw [hend, Option.getD_none, parseGeneveIdentityLoop_succ n (by omega) (by omega) hd', if_pos hid, hvalue]
    · have hsame : ∀ j, j < 4 → byteAt d' (opts + offset + j) = byteAt d (opts + offset + j) :=
        fun j hj => hold _ (by omega) (by omega)
      have hid : isIdentityOption d' (opts + offset) = isIdentityOption d (opts + offset) := by
        have hclass : loadU16 d' (opts + offset) = loadU16 d (opts + offset) :=
          loadU16_congr (hsame 0 (by omega)) (hsame 1 (by omega))
        simp only [isIdentityOption, hsame 2 (by omega), hsame 3 (by omega), hclass]
      have h3 := hsame 3 (by omega)
      rw [parseGeneveIdentityLoop_succ n hlt hsize hd, parseGeneveIdentityLoop_succ n (by omega) (by rw [h3]; omega) hd',
        hid, h3]
      by_cases hm : isIdentityOption d (opts + offset) = true
      · have hlen := bodyWords_of_isIdentityOption hm
        rw [if_pos hm, if_pos hm, Option.getD_some,
          loadU32_congr (d := d') (fun j hj => hold _ (by omega) (by omega))]
      · rw [if_neg hm, if_neg hm, ih hrest (by omega)]

/-! ### The stamped packet on the other node -/

section
variable {d d' : List UInt8} {g : EgressGeneve} {s : UInt32}

theorem Stamped.outer_bytes (st : Stamped d d' g s) (t : Tunnel d g) {i : Nat} (hi : i < g.outerIp + 20)
    (h2 : i ≠ g.outerIp + 2) (h3 : i ≠ g.outerIp + 3) : byteAt d' i = byteAt d i := by
  have hudp := t.udp_ge
  have hgeneve := t.geneve
  have hbase := t.base
  apply st.head i (by omega)
  · unfold LengthField
    omega
  · omega

theorem Stamped.outer (st : Stamped d d' g s) (t : Tunnel d g) : parseIpv4AfterEth d' 0 = some g.outerIp := by
  obtain ⟨hl3, hlooks⟩ := parseIpv4AfterEth_eq_some_iff.mp t.outer
  have hroom := st.room
  have hudp := t.udp_ge
  have hgeneve := t.geneve
  have hbase := t.base
  have same {i : Nat} (hi : i < g.outerIp + 2) : byteAt d' i = byteAt d i :=
    st.outer_bytes t (by omega) (by omega) (by omega)
  rw [parseIpv4AfterEth_eq_some_iff]
  constructor
  · rw [l3AfterEth_eq_some_iff] at hl3 ⊢
    have hproto {i : Nat} (hi : i + 2 ≤ g.outerIp) : loadU16 d' i = loadU16 d i :=
      loadU16_congr (same (by omega)) (same (by omega))
    rcases hl3 with ⟨-, hp, hip⟩ | ⟨-, hq, hin, hip⟩
    · exact Or.inl ⟨by omega, (hproto (by omega)).trans hp, hip⟩
    · exact Or.inr ⟨by omega, (hproto (by omega)).trans hq, (hproto (by omega)).trans hin, hip⟩
  · rw [looksLikeIpv4_iff] at hlooks ⊢
    simp only [ipVersion, ipIhl, sizeofIphdr, same (Nat.lt_add_of_pos_right (Nat.zero_lt_two))] at hlooks ⊢
    exact ⟨by omega, hlooks.2⟩

section
variable (st : Stamped d d' g s)
include st

theorem Stamped.ipPayload_eq (t : Tunnel d g) : ipPayload d' g.outerIp = g.udp := by
  rw [t.udp]
  simp only [ipPayload, ipIhl, st.outer_bytes t (i := g.outerIp) (by omega) (by omega) (by omega)]

theorem Stamped.words_eq (t : Tunnel d g) : (byteAt d' (g.udp + 8)).toNat = g.optWords + 2 := by
  have hgeneve := t.geneve
  have hmax := t.wordsMax
  rw [← hgeneve, st.words, UInt8.toNat_ofNat']
  omega

/-- The tunnel headers are still those of Geneve. -/
theorem Stamped.geneveHeader (t : Tunnel d g) : GeneveHeader d' g.outerIp := by
  have hroom := st.room
  have hudp := t.udp_ge
  have hgeneve := t.geneve
  have hbase := t.base
  have hmax := t.wordsMax
  have hproto : ipProtocol d' g.outerIp = ipprotoUdp :=
    (st.outer_bytes t (by omega) (by omega) (by omega)).trans t.proto
  have hport : udpDest d' g.udp = bpfHtons meridianGeneveUdpPort := by
    rw [← t.port]
    apply loadU16_congr <;> apply st.head <;> first | omega | (unfold LengthField; omega)
  refine ⟨hproto, by rw [st.ipPayload_eq t]; exact hport, by rw [st.ipPayload_eq t]; omega, ?_⟩
  rw [st.ipPayload_eq t, st.words_eq t]
  omega

/-- The identity in the options: an older one first, else the one just written. -/
theorem Stamped.parseGeneveIdentity_eq (t : Tunnel d g) (hcount : g.optionCount < 4) :
    parseGeneveIdentity d' (g.geneve + 8) (g.optWords * 4 + 8) =
      some ((parseGeneveIdentity d (g.geneve + 8) (g.optWords * 4)).getD s) := by
  have hroom := st.room
  have hudp := t.udp_ge
  have hgeneve := t.geneve
  have hbase := t.base
  refine parseGeneveIdentityLoop_grown (fun i hlo hhi => ?_) (fun i hi => ?_) (by rw [← hbase]; exact t.inside)
    (by omega) t.count (by omega)
  · apply st.head i (by omega)
    · unfold LengthField
      omega
    · omega
  · rw [← hbase]
    exact st.option i hi

/-- What ingress makes of the tunnel headers of a stamped packet. -/
theorem Stamped.tryParseGeneveInner_eq (t : Tunnel d g) (hcount : g.optionCount < 4) : tryParseGeneveInner d' g.outerIp =
      if g.optWords + 2 ≤ 8 then
        (parseIpv4InGenevePayload d' (g.innerBase + 8)).map fun r =>
          { innerIp := r.1, identity := some ((parseGeneveIdentity d (g.geneve + 8) (g.optWords * 4)).getD s) }
      else none := by
  have hroom := st.room
  have hgeneve := t.geneve
  have hbase := t.base
  have hpayload := st.ipPayload_eq t
  have hgw : geneveWords d' g.outerIp = g.optWords + 2 := by
    have hmax := t.wordsMax
    rw [geneveWords, hpayload, st.words_eq t]
    omega
  have hgp : genevePayload d' g.outerIp = g.innerBase + 8 := by
    rw [genevePayload, hgw, hpayload]
    omega
  have hopts : ipPayload d' g.outerIp + 16 = g.geneve + 8 := by omega
  by_cases hmax : g.optWords + 2 ≤ 8
  · rw [if_pos hmax, tryParseGeneveInner_of_header (st.geneveHeader t) (by omega) (by omega), hgp, hgw, hopts, Nat.add_mul,
      st.parseGeneveIdentity_eq t hcount]
  · rw [if_neg hmax]
    cases hparse : tryParseGeneveInner d' g.outerIp with
    | none => rfl
    | some gi =>
      have := (tryParseGeneveInner_eq_some hparse).2.1
      omega

end

/-- Ingress guesses an inner header in the payload behind the new option. It is the one that egress
    found, unless that one was behind a reserved slot and a second header seems to start eight bytes
    into it. -/
theorem Stamped.inner (st : Stamped d d' g s) (t : Tunnel d g) :
    ∃ ip r, parseIpv4InGenevePayload d' (g.innerBase + 8) = some (ip, r) ∧
      (d'.drop ip = d.drop g.innerIp ↔ ¬(g.reservedHeadroom = 8 ∧ looksLikeIpv4 d (g.innerIp + 8) = true)) := by
  have hparse := parseIpv4InGenevePayload_of_drop_eq st.payload.symm
  have hdrop (k : Nat) : d'.drop (g.innerBase + 8 + k) = d.drop (g.innerBase + g.reservedHeadroom + k) := by
    rw [← List.drop_drop, st.payload, List.drop_drop]
  obtain ⟨hlooks, ⟨hres, hip⟩ | ⟨hres, hip⟩⟩ := t.inner_bounds
  · rw [hres, ← hip] at hparse hdrop
    rw [← hip]
    by_cases hsecond : looksLikeIpv4 d (g.innerIp + 8) = true
    · -- The drop of eight more bytes is strictly shorter.
      have hfound : parseIpv4InGenevePayload d g.innerIp = some (g.innerIp + 8, 8) := if_pos hsecond
      rw [hfound, Option.map_some, Nat.add_sub_cancel_left] at hparse
      refine ⟨_, _, hparse, iff_of_false (fun h => ?_) (fun h => h ⟨hres, hsecond⟩)⟩
      rw [hdrop] at h
      have hlen := congrArg List.length h
      have hin := (looksLikeIpv4_iff.mp hsecond).1
      simp only [List.length_drop, sizeofIphdr] at hlen hin
      omega
    · have hfound : parseIpv4InGenevePayload d g.innerIp = some (g.innerIp, 0) := by
        unfold parseIpv4InGenevePayload
        exact (if_neg hsecond).trans (if_pos hlooks)
      rw [hfound, Option.map_some, Nat.sub_self] at hparse
      exact ⟨_, _, hparse, iff_of_true (hdrop 0) (fun h => hsecond h.2)⟩
  · simp only [hres, Nat.add_zero] at hparse hdrop
    rw [t.inner, Option.map_some] at hparse
    refine ⟨_, _, hparse, iff_of_true ?_ (fun h => by omega)⟩
    rw [hdrop, Nat.add_sub_cancel' hip]

/-- Ingress recognises `d'` as a tunnel packet, takes `s` from its option, whatever its identity map
    says, and judges the packet whose bytes are `inner`. -/
def Recovers (d' : List UInt8) (s : UInt32) (inner : List UInt8) : Prop :=
  ∃ outerIp gi, ingressParse d' = .tunnel outerIp gi ∧ gi.identity = some s ∧
    (∀ m, sourceIdentity m (some gi.identity) (ipSaddr d' gi.innerIp) = s) ∧ d'.drop gi.innerIp = inner

/-- What a tunnel packet must satisfy for the identity to arrive: room for two more words of options, no
    Meridian option with another identity, and no second guess in a reserved-slot payload. -/
def Transportable (d : List UInt8) (g : EgressGeneve) (s : UInt32) : Prop :=
  g.optWords + 2 ≤ 8 ∧ (∀ v, parseGeneveIdentity d (g.geneve + 8) (g.optWords * 4) = some v → v = s) ∧
    ¬(g.reservedHeadroom = 8 ∧ looksLikeIpv4 d (g.innerIp + 8) = true)

theorem Stamped.recovers_iff (st : Stamped d d' g s) (t : Tunnel d g) (hcount : g.optionCount < 4) :
    Recovers d' s (d.drop g.innerIp) ↔ Transportable d g s := by
  have hparse := ingressParse_of_header (st.outer t)
  rw [st.tryParseGeneveInner_eq t hcount] at hparse
  obtain ⟨ip, r, hinner, hsame⟩ := st.inner t
  unfold Recovers Transportable
  rw [← hsame, hparse, hinner]
  by_cases hwords : g.optWords + 2 ≤ 8
  · simp only [hwords, if_true, Option.map_some, true_and]
    constructor
    · rintro ⟨_, _, h, hid, -, hdrop⟩
      cases h
      refine ⟨fun v hv => ?_, hdrop⟩
      simpa only [hv, Option.getD_some, Option.some.injEq] using hid
    · rintro ⟨hold, hdrop⟩
      have hid : (parseGeneveIdentity d (g.geneve + 8) (g.optWords * 4)).getD s = s := by
        cases hv : parseGeneveIdentity d (g.geneve + 8) (g.optWords * 4) with
        | none => rfl
        | some v => exact hold v hv
      exact ⟨_, _, rfl, congrArg some hid, fun _ => hid, hdrop⟩
  · simp only [hwords, if_false, false_and, iff_false]
    rintro ⟨_, _, h, -⟩
    split at h <;> cases h

end

/-- The identity that egress stamps is the one that ingress enforces, for the packet that egress looked
    at, exactly on the transportable packets. -/
theorem stamped_identity_recovered_iff {env : Env} {maps : Maps} {skb : Skb} {s : UInt32}
    (h : (meridianTcEgress env maps skb).1 = .stamped s) :
    ∃ g, egressParse skb.data = .tunnel g ∧ s = mappedIdentity maps (ipSaddr skb.data g.innerIp) ∧ s ≠ 0 ∧
      (Recovers (meridianTcEgress env maps skb).2.skb.data s (skb.data.drop g.innerIp) ↔
        Transportable skb.data g s) := by
  obtain ⟨g, hparse, hs, hne, hcount, st⟩ := meridianTcEgress_stamped (Prod.ext h rfl)
  exact ⟨g, hparse, hs, hne, st.recovers_iff (egressParse_tunnel hparse) hcount⟩

/-- A frame between two nodes: Ethernet, IPv4 and UDP to port 6081, a Geneve header with the given options,
    then `slot` and a TCP SYN from 10.0.0.1 to 10.0.0.2 with the given TTL. -/
def tunnelFrame (opts slot : List UInt8) (ttl : UInt8) : List UInt8 :=
  [2, 0, 0, 0, 0, 2, 2, 0, 0, 0, 0, 1, 8, 0] ++
  [0x45, 0, 0, 0, 0, 0, 0, 0, 64, 17, 0, 0, 172, 31, 0, 1, 172, 31, 0, 2] ++ [0x30, 0x39, 0x17, 0xc1, 0, 0, 0, 0] ++
  [UInt8.ofNat (opts.length / 4), 0, 0x65, 0x58, 0, 0, 100, 0] ++ opts ++ slot ++
  [0x45, 0, 0, 0, 0, 0, 0, 0, ttl, 6, 0, 0, 10, 0, 0, 1, 10, 0, 0, 2] ++
  [0x9c, 0x40, 0x1f, 0x90, 0, 0, 0, 0, 0, 0, 0, 0, 0x50, 0x02]

def senderMaps : Maps := Maps.fresh (Table.put (fun _ => none) (loadU32 [10, 0, 0, 1] 0) 7) (fun _ => none) none

/-- A packet with an option of its own. -/
theorem stamped_identity_recovered_option :
    ∃ g, egressParse (tunnelFrame [1, 2, 3, 0] [] 64) = .tunnel g ∧
      Recovers (meridianTcEgress quietEnv senderMaps ⟨tunnelFrame [1, 2, 3, 0] [] 64, 0⟩).2.skb.data 7
        ((tunnelFrame [1, 2, 3, 0] [] 64).drop g.innerIp) := by
  obtain ⟨g, hparse, -, -, hiff⟩ :=
    @stamped_identity_recovered_iff quietEnv senderMaps ⟨tunnelFrame [1, 2, 3, 0] [] 64, 0⟩ 7 (by decide +kernel)
  cases hparse.symm.trans (show _ = EgressParse.tunnel ⟨14, 34, 42, 1, 1, 54, 54, 0⟩ by decide +kernel)
  refine ⟨_, hparse, hiff.mpr ⟨by decide, fun v hv => ?_, by decide⟩⟩
  cases hv.symm.trans (show _ = none by decide +kernel)

/-- Three packets that egress stamps with 7: a seven-word option, which ingress no longer parses; a Meridian
    option already there, which ingress reads instead; and a reserved slot before a packet whose TTL is 0x45,
    where ingress takes the header to start at the TTL. -/
theorem stamped_identity_not_recovered :
    ((meridianTcEgress quietEnv senderMaps ⟨tunnelFrame ([1, 2, 3, 6] ++ List.replicate 24 0) [] 64, 0⟩).1 = .stamped 7 ∧
      ∀ inner, ¬Recovers (meridianTcEgress quietEnv senderMaps
        ⟨tunnelFrame ([1, 2, 3, 6] ++ List.replicate 24 0) [] 64, 0⟩).2.skb.data 7 inner) ∧
    ((meridianTcEgress quietEnv senderMaps ⟨tunnelFrame [0x4d, 0x52, 1, 1, 0, 0, 0, 9] [] 64, 0⟩).1 = .stamped 7 ∧
      ∀ inner, ¬Recovers (meridianTcEgress quietEnv senderMaps
        ⟨tunnelFrame [0x4d, 0x52, 1, 1, 0, 0, 0, 9] [] 64, 0⟩).2.skb.data 7 inner) ∧
    ((meridianTcEgress quietEnv senderMaps ⟨tunnelFrame [] (List.replicate 8 0) 0x45, 0⟩).1 = .stamped 7 ∧
      ∃ g, egressParse (tunnelFrame [] (List.replicate 8 0) 0x45) = .tunnel g ∧
        ¬Recovers (meridianTcEgress quietEnv senderMaps ⟨tunnelFrame [] (List.replicate 8 0) 0x45, 0⟩).2.skb.data 7
          ((tunnelFrame [] (List.replicate 8 0) 0x45).drop g.innerIp)) := by
  have hseven : ingressParse (meridianTcEgress quietEnv senderMaps
      ⟨tunnelFrame ([1, 2, 3, 6] ++ List.replicate 24 0) [] 64, 0⟩).2.skb.data = .geneveUnparsed := by decide +kernel
  have hother : ingressParse (meridianTcEgress quietEnv senderMaps
      ⟨tunnelFrame [0x4d, 0x52, 1, 1, 0, 0, 0, 9] [] 64, 0⟩).2.skb.data = .tunnel 14 ⟨66, some 9⟩ := by decide +kernel
  have hslot : ingressParse (meridianTcEgress quietEnv senderMaps
      ⟨tunnelFrame [] (List.replicate 8 0) 0x45, 0⟩).2.skb.data = .tunnel 14 ⟨66, some 7⟩ := by decide +kernel
  refine ⟨⟨by decide +kernel, ?_⟩, ⟨by decide +kernel, ?_⟩,
    ⟨by decide +kernel, ⟨14, 34, 42, 0, 0, 50, 58, 8⟩, by decide +kernel, ?_⟩⟩
  · rintro inner ⟨_, _, h, -⟩
    rw [hseven] at h
    cases h
  · rintro inner ⟨_, _, h, hid, -⟩
    rw [hother] at h
    cases h
    exact absurd hid (by decide +kernel)
  · rintro ⟨_, _, h, -, -, hdrop⟩
    rw [hslot] at h
    cases h
    exact absurd hdrop (by decide +kernel)

end Meridian.Bpf
