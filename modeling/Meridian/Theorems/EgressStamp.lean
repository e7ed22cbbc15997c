import Meridian.Bpf.Egress

/-! What egress leaves in a packet that it stamps (whatever helper calls failed on
    the way): the outer headers up to the
    length fields and the UDP source port, the old options, then the identity option, then the payload
    behind the reserved slot, or the whole payload when room was inserted. -/

namespace Meridian.Bpf
open Lib

/-! ### The parsed tunnel packet -/

/-- What egress has checked of a packet when it has located the inner header. -/
structure Tunnel (d : List UInt8) (g : EgressGeneve) : Prop where
  outer : parseIpv4AfterEth d 0 = some g.outerIp
  proto : ipProtocol d g.outerIp = ipprotoUdp
  udp : g.udp = ipPayload d g.outerIp
  port : udpDest d g.udp = bpfHtons meridianGeneveUdpPort
  geneve : g.geneve = g.udp + 8
  version : (byteAt d g.geneve).toNat / 64 = 0
  words : g.optWords = (byteAt d g.geneve).toNat % 64
  wordsMax : g.optWords ≤ 8
  base : g.innerBase = g.geneve + 8 + g.optWords * 4
  inside : g.innerBase ≤ d.length
  count : parseGeneveOptionCount d (g.geneve + 8) (g.optWords * 4) = some g.optionCount
  inner : parseIpv4InGenevePayload d g.innerBase = some (g.innerIp, g.reservedHeadroom)

variable {d : List UInt8} {g : EgressGeneve} {n : Nat}

theorem parseTunnel_eq_tunnel {outerIp udp : Nat} (h : parseTunnel d outerIp udp = .tunnel g) :
    g.outerIp = outerIp ∧ g.udp = udp ∧ g.geneve = udp + 8 ∧ (byteAt d g.geneve).toNat / 64 = 0 ∧
      g.optWords = (byteAt d g.geneve).toNat % 64 ∧ g.optWords ≤ 8 ∧ g.innerBase = g.geneve + 8 + g.optWords * 4 ∧
      g.innerBase ≤ d.length ∧ parseGeneveOptionCount d (g.geneve + 8) (g.optWords * 4) = some g.optionCount ∧
      parseIpv4InGenevePayload d g.innerBase = some (g.innerIp, g.reservedHeadroom) := by
  unfold parseTunnel at h
  dsimp only at h
  split at h
  · cases h
  · split at h
    · cases h
    · rename_i hversion
      split at h
      · cases h
      · rename_i hwords
        split at h
        · cases h
        · rename_i hinside
          split at h
          · cases h
          · rename_i count hcount
            split at h
            · cases h
            · rename_i innerIp reserved hinner
              cases h
              exact ⟨rfl, rfl, rfl, not_not.mp hversion, rfl, Nat.not_lt.mp hwords, rfl, Nat.not_lt.mp hinside, hcount, hinner⟩

theorem egressParse_tunnel (h : egressParse d = .tunnel g) : Tunnel d g := by
  unfold egressParse at h
  split at h
  · cases h
  · rename_i outerIp houter
    split at h
    · cases h
    · dsimp only at h
      split at h
      · cases h
      · rename_i hplain
        simp only [Bool.or_eq_true, decide_eq_true_eq, not_or, not_not] at hplain
        obtain ⟨⟨hproto, -⟩, hport⟩ := hplain
        obtain ⟨rfl, hudp, hgeneve, hversion, hwords, hmax, hbase, hinside, hcount, hinner⟩ := parseTunnel_eq_tunnel h
        exact ⟨houter, hproto, hudp, hudp ▸ hport, hudp ▸ hgeneve, hversion, hwords, hmax, hbase, hinside, hcount, hinner⟩

theorem Tunnel.outer_looks (t : Tunnel d g) : looksLikeIpv4 d g.outerIp = true :=
  (parseIpv4AfterEth_eq_some_iff.mp t.outer).2

theorem Tunnel.udp_ge (t : Tunnel d g) : g.outerIp + 20 ≤ g.udp := by
  obtain ⟨-, -, hmin, -⟩ := looksLikeIpv4_iff.mp t.outer_looks
  have := t.udp
  simp only [ipPayload, ipv4WordBytes, ipv4IhlMin] at this hmin
  omega

theorem Tunnel.inner_bounds (t : Tunnel d g) : looksLikeIpv4 d g.innerIp = true ∧
      ((g.reservedHeadroom = 8 ∧ g.innerIp = g.innerBase + 8) ∨ (g.reservedHeadroom = 0 ∧ g.innerBase ≤ g.innerIp)) :=
  parseIpv4InGenevePayload_bounds t.inner

/-! ### Making room -/

/-- The packet grown at its head, with its first `n` bytes moved back to the front. -/
def movedHead (d : List UInt8) (n : Nat) : List UInt8 :=
  d.take n ++ (List.replicate meridianGeneveOptBytes 0 ++ d).drop n

theorem length_movedHead (h : n ≤ d.length) : (movedHead d n).length = d.length + 8 := by
  simp only [movedHead, List.length_append, List.length_take, List.length_drop, List.length_replicate,
    meridianGeneveOptBytes]
  omega

theorem byteAt_movedHead_lt {i : Nat} (h : n ≤ d.length) (hi : i < n) : byteAt (movedHead d n) i = byteAt d i := by
  have hlen : i < (d.take n).length := by
    rw [List.length_take]
    omega
  rw [movedHead, byteAt_append_left hlen, byteAt_take hi]

theorem drop_movedHead (h : n ≤ d.length) : (movedHead d n).drop (n + 8) = d.drop n := by
  have hlen : (d.take n).length = n := by
    rw [List.length_take]
    omega
  rw [movedHead, List.drop_append, List.drop_eq_nil_of_le (by omega), List.nil_append, hlen, Nat.add_sub_cancel_left,
    List.drop_drop, List.drop_append, List.length_replicate, List.drop_eq_nil_of_le (by simp [meridianGeneveOptBytes]),
    List.nil_append]
  rfl

theorem movedHead_succ (h : n < d.length) :
    overwrite (movedHead d n) n (((movedHead d n).drop (meridianGeneveOptBytes + n)).take 1) = movedHead d (n + 1) := by
  have hlen : (d.take n).length = n := by
    rw [List.length_take]
    omega
  have hbyte : ((movedHead d n).drop (meridianGeneveOptBytes + n)).take 1 = [d.get ⟨n, h⟩] := by
    rw [Nat.add_comm]
    show ((movedHead d n).drop (n + 8)).take 1 = _
    rw [drop_movedHead (by omega), List.drop_eq_getElem_cons h]
    rfl
  rw [hbyte, overwrite]
  have hhead : (movedHead d n).take n = d.take n := by
    rw [movedHead, List.take_append_of_le_length (by omega), List.take_take, Nat.min_self]
  have htail : (movedHead d n).drop (n + 1) = (List.replicate meridianGeneveOptBytes 0 ++ d).drop (n + 1) := by
    rw [movedHead, List.drop_append, List.drop_eq_nil_of_le (by omega), List.nil_append, hlen, List.drop_drop]
    congr 1
    omega
  rw [hhead, List.length_singleton, htail, movedHead]
  congr 1
  exact List.take_append_getElem h

theorem copyHeadLoop_done (env : Env) (roomOff n i : Nat) (c : Ctx) (hi : roomOff ≤ i) :
    copyHeadLoop env roomOff n i c = (false, c) := by
  induction n generalizing i with
  | zero => rfl
  | succ n ih => rw [copyHeadLoop, if_neg (by omega), ih (i + 1) (by omega)]

section
variable {env : Env} {c c' : Ctx}

/-- The copy loop moves the outer headers: by induction on the rounds left, `i` bytes are moved. -/
theorem copyHeadLoop_moves {roomOff i : Nat} (h : copyHeadLoop env roomOff n i c = (false, c'))
    (hc : c.skb.data = movedHead d i) (hroom : roomOff ≤ d.length) (hi : i ≤ roomOff) (hn : roomOff ≤ i + n) :
    c'.skb.data = movedHead d roomOff := by
  induction n generalizing i c with
  | zero =>
    cases h
    rw [hc, show i = roomOff by omega]
  | succ n ih =>
    by_cases hlt : i < roomOff
    · rw [copyHeadLoop, if_pos hlt] at h
      obtain ⟨b, c₁, hload, h⟩ := orFailLoad_eq_false h
      obtain ⟨c₂, hstore, h⟩ := orFail_eq_false h
      obtain ⟨hb, hc₁⟩ := bpfSkbLoadBytes_eq_some hload
      obtain ⟨-, hc₂⟩ := bpfSkbStoreBytes_eq_false hstore
      refine ih h ?_ (by omega) (by omega)
      rw [hc₂, hc₁, hb, hc, movedHead_succ (by omega)]
    · rw [copyHeadLoop_done env roomOff (n + 1) i c (by omega)] at h
      cases h
      rw [hc, show i = roomOff by omega]

theorem insertInnerTlvRoom_moves {roomOff outerIpOff : Nat}
    (h : insertInnerTlvRoom env c roomOff outerIpOff = (false, c')) :
    c'.skb.data = movedHead c.skb.data roomOff := by
  obtain ⟨c₁, hpull, h⟩ := orFail_eq_false h
  have hc₁ := bpfSkbPullData_eq_false hpull
  split at h
  · cases h
  · rename_i hroom
    simp only [Bool.or_eq_true, decide_eq_true_eq, not_or] at hroom
    split at h
    · cases h
    · split at h
      · cases h
      · rename_i h80
        obtain ⟨c₂, hgrow, h⟩ := orFail_eq_false h
        obtain ⟨c₃, hpull', h⟩ := orFail_eq_false h
        have hc₂ := bpfSkbChangeHead_eq_false hgrow
        rw [bpfSkbPullData_eq_false hpull'] at h
        rw [hc₁, Ctx.after_data] at hroom hc₂
        exact copyHeadLoop_moves (d := c.skb.data) (i := 0) h hc₂ (by omega) (by omega) (by omega)

/-! ### Length fields -/

/-- The bytes that the length update writes: the outer total length, the UDP length, and the UDP source
    port, which stands where the checksum update is applied. -/
def LengthField (outerIp udp i : Nat) : Prop :=
  i = outerIp + 2 ∨ i = outerIp + 3 ∨ i = udp ∨ i = udp + 1 ∨ i = udp + 4 ∨ i = udp + 5

/-- The length update may stop at any of its calls; it never touches other bytes. -/
theorem bumpUdpGeneveLengths_sameOff (env : Env) (c : Ctx) (outerIp udp : Nat) :
    SameOff (LengthField outerIp udp) c.skb.data (bumpUdpGeneveLengths env c outerIp udp).2.skb.data := by
  have hip : ∀ i, outerIp + 2 ≤ i → i < outerIp + 2 + 2 → LengthField outerIp udp i := by
    unfold LengthField
    omega
  have hlen : ∀ i, udp + 4 ≤ i → i < udp + 4 + 2 → LengthField outerIp udp i := by
    unfold LengthField
    omega
  have hport : ∀ i, udp ≤ i → i < udp + 2 → LengthField outerIp udp i := by
    unfold LengthField
    omega
  unfold bumpUdpGeneveLengths
  let P : Ctx → Prop := fun c' => SameOff (LengthField outerIp udp) c.skb.data c'.skb.data
  refine orFail_invariant (P := P) (SameOff.refl _ _) fun c₁ h₁ => ?_
  refine orFailLoad_invariant (P := P) (h₁.trans bpfSkbLoadBytes_sameOff) fun _ c₂ h₂ => ?_
  refine orFail_invariant (P := P) (h₂.trans (bpfSkbStoreBytes_sameOff hip)) fun c₃ h₃ => ?_
  refine orFailLoad_invariant (P := P) (h₃.trans bpfSkbLoadBytes_sameOff) fun _ c₄ h₄ => ?_
  refine orFail_invariant (P := P) (h₄.trans (bpfSkbStoreBytes_sameOff hlen)) fun c₅ h₅ => ?_
  refine orFailLoad_invariant (P := P) (h₅.trans bpfSkbLoadBytes_sameOff) fun _ c₆ h₆ => ?_
  split
  · exact h₆.trans (bpfL4CsumReplace_sameOff hport)
  · exact h₆

/-! ### The option -/

theorem versionBits_eq_zero {b : UInt8} (h : b.toNat / 64 = 0) : b &&& 0xc0 = 0 := by
  have hall : ∀ n : Fin 64, UInt8.ofNat n.val &&& 0xc0 = 0 := by decide
  have hb := hall ⟨b.toNat, by omega⟩
  rwa [UInt8.ofNat_toNat] at hb

theorem stampIdentityTlv_writes {stampOff geneveOff optWords : Nat} {srcId : UInt32}
    (h : stampIdentityTlv env c stampOff geneveOff optWords srcId = (false, c')) (hgeneve : geneveOff < stampOff)
    (hversion : (byteAt c.skb.data geneveOff).toNat / 64 = 0) :
    c'.skb.data = overwrite (overwrite c.skb.data stampOff (identityTlv srcId)) geneveOff
      [UInt8.ofNat (optWords + 2)] := by
  obtain ⟨c₁, hstore, h⟩ := orFail_eq_false h
  obtain ⟨b, c₂, hload, h⟩ := orFailLoad_eq_false h
  obtain ⟨htlv, hc₁⟩ := bpfSkbStoreBytes_eq_false hstore
  obtain ⟨hb, hc₂⟩ := bpfSkbLoadBytes_eq_some hload
  obtain ⟨-, hc'⟩ := bpfSkbStoreBytes_eq_false h
  have hbyte : byteAt b 0 = byteAt c.skb.data geneveOff := by
    rw [hb, hc₁, byteAt_take (by omega), byteAt_drop, Nat.add_zero, byteAt_overwrite_lt htlv hgeneve]
  rw [hc', hc₂, hc₁, hbyte, versionBits_eq_zero hversion, UInt8.zero_or]
  rfl

/-! ### The stamped packet -/

/-- `d'` is the packet that stamping `s` into the tunnel packet `d` leaves. -/
structure Stamped (d d' : List UInt8) (g : EgressGeneve) (s : UInt32) : Prop where
  head : ∀ i, i < g.innerBase → ¬LengthField g.outerIp g.udp i → i ≠ g.geneve → byteAt d' i = byteAt d i
  words : byteAt d' g.geneve = UInt8.ofNat (g.optWords + 2)
  room : g.innerBase + 8 ≤ d'.length
  option : ∀ i, i < 8 → byteAt d' (g.innerBase + i) = byteAt (identityTlv s) i
  payload : d'.drop (g.innerBase + 8) = d.drop (g.innerBase + g.reservedHeadroom)

variable {g : EgressGeneve}

/-- Writing the option into an open slot: `m` is `d` with the slot made, by reserve or by insertion. -/
theorem stamped_of_slot {m : List UInt8} (s : UInt32) (t : Tunnel d g) (hroom : g.innerBase + 8 ≤ m.length)
    (hhead : ∀ i, i < g.innerBase → ¬LengthField g.outerIp g.udp i → byteAt m i = byteAt d i)
    (hpayload : m.drop (g.innerBase + 8) = d.drop (g.innerBase + g.reservedHeadroom)) :
    Stamped d (overwrite (overwrite m g.innerBase (identityTlv s)) g.geneve [UInt8.ofNat (g.optWords + 2)]) g s := by
  have htlv : g.innerBase + (identityTlv s).length ≤ m.length := hroom
  have hlen := length_overwrite htlv
  have hbase := t.base
  have hgeneve : g.geneve + [UInt8.ofNat (g.optWords + 2)].length ≤
      (overwrite m g.innerBase (identityTlv s)).length := by
    rw [hlen, List.length_singleton]
    omega
  refine ⟨fun i hi hfield hne => ?_, ?_, ?_, fun i hi => ?_, ?_⟩
  · rw [(SameOff.overwrite hgeneve).bytes i (by simp only [List.length_singleton]; omega),
      byteAt_overwrite_lt htlv hi, hhead i hi hfield]
  · exact byteAt_overwrite_mid hgeneve (i := 0) (by simp)
  · rw [length_overwrite hgeneve, hlen]
    exact hroom
  · rw [byteAt_overwrite_ge hgeneve (by simp only [List.length_singleton]; omega), byteAt_overwrite_mid htlv hi]
  · rw [drop_overwrite hgeneve (by simp only [List.length_singleton]; omega),
      drop_overwrite htlv (n := g.innerBase + 8) (Nat.le_refl _), hpayload]

theorem Tunnel.not_lengthField_geneve (t : Tunnel d g) : ¬LengthField g.outerIp g.udp g.geneve := by
  have := t.udp_ge
  have := t.geneve
  unfold LengthField
  omega

theorem egressStamp_slot (hslot : g.reservedHeadroom = meridianGeneveOptBytes) (s : UInt32) :
    egressStamp env c g s = stampIdentityTlv env c g.innerBase g.geneve g.optWords s :=
  if_pos hslot

/-- Without a slot, room is inserted, the lengths are updated and the option is written. -/
theorem egressStamp_noSlot (hres : g.reservedHeadroom = 0) (s : UInt32) :
    egressStamp env c g s = orFail (insertInnerTlvRoom env c g.innerBase g.outerIp) fun c₁ =>
      stampIdentityTlv env (bumpUdpGeneveLengths env c₁ g.outerIp g.udp).2 g.innerBase g.geneve g.optWords s := by
  rw [egressStamp, if_neg (by rw [hres]; decide), if_pos hres]

theorem egressStamp_insertFailed (hres : g.reservedHeadroom = 0)
    (hfailed : (insertInnerTlvRoom env c g.innerBase g.outerIp).1 = true) (s : UInt32) :
    egressStamp env c g s = insertInnerTlvRoom env c g.innerBase g.outerIp := by
  rw [egressStamp_noSlot hres, orFail_of_failed hfailed]

theorem egressStamp_stamped {s : UInt32} (t : Tunnel c.skb.data g) (h : egressStamp env c g s = (false, c')) :
    Stamped c.skb.data c'.skb.data g s := by
  obtain ⟨hinnerLen, -⟩ := looksLikeIpv4_iff.mp t.inner_bounds.1
  simp only [sizeofIphdr] at hinnerLen
  have hbase := t.base
  have hgeneve := t.geneve
  have hudp := t.udp_ge
  rcases t.inner_bounds.2 with ⟨hres, hip⟩ | ⟨hres, hip⟩
  · rw [egressStamp_slot hres] at h
    rw [stampIdentityTlv_writes h (by omega) t.version]
    exact stamped_of_slot s t (by omega) (fun _ _ _ => rfl) (by rw [hres])
  · rw [egressStamp_noSlot hres] at h
    obtain ⟨c₁, hroom, h⟩ := orFail_eq_false h
    have hc₁ := insertInnerTlvRoom_moves hroom
    have hsame := bumpUdpGeneveLengths_sameOff env c₁ g.outerIp g.udp
    rw [hc₁] at hsame
    have hhead : ∀ i, i < g.innerBase → ¬LengthField g.outerIp g.udp i →
        byteAt (bumpUdpGeneveLengths env c₁ g.outerIp g.udp).2.skb.data i = byteAt c.skb.data i :=
      fun i hi hfield => (hsame.bytes i hfield).trans (byteAt_movedHead_lt t.inside hi)
    have hlen := hsame.length.trans (length_movedHead t.inside)
    have hbehind : ∀ i, g.innerBase + 8 ≤ i → ¬LengthField g.outerIp g.udp i := by
      unfold LengthField
      omega
    rw [stampIdentityTlv_writes h (by omega)
      (by rw [hhead _ (by omega) t.not_lengthField_geneve]; exact t.version)]
    refine stamped_of_slot s t (by omega) hhead ?_
    rw [hsame.drop_eq hbehind, drop_movedHead t.inside, hres, Nat.add_zero]

theorem encapFail_ne_stamped (packetBytes : UInt32) (flow : Option (FlowKey × UInt32 × UInt32)) (s : UInt32) :
    encapFail env c packetBytes flow ≠ (.stamped s, c') := by
  unfold encapFail
  dsimp only
  split
  · simp
  · split <;> simp

/-- A run of egress that ends by stamping: it parsed a tunnel packet, the inner source is known, there
    was an option to spare, and the packet is stamped. -/
theorem meridianTcEgress_stamped {maps : Maps} {skb : Skb} {s : UInt32}
    (h : meridianTcEgress env maps skb = (.stamped s, c')) :
    ∃ g, egressParse skb.data = .tunnel g ∧ s = mappedIdentity maps (ipSaddr skb.data g.innerIp) ∧ s ≠ 0 ∧
      g.optionCount < 4 ∧ Stamped skb.data c'.skb.data g s := by
  unfold meridianTcEgress at h
  dsimp only at h
  split at h
  · cases h
  · rename_i c₁ hpull
    obtain rfl := bpfSkbPullData_eq_false hpull
    split at h
    · cases h
    · cases h
    · unfold egressPlain at h
      dsimp only at h
      split at h
      · cases h
      · split at h <;> cases h
    · exact absurd h (encapFail_ne_stamped _ _ _)
    · cases h
    · rename_i g hparse
      unfold egressInner at h
      split at h
      · exact absurd h (encapFail_ne_stamped _ _ _)
      · dsimp only at h
        split at h
        · exact absurd h (encapFail_ne_stamped _ _ _)
        · rename_i hsrc
          split at h
          · cases h
          · split at h
            · exact absurd h (encapFail_ne_stamped _ _ _)
            · rename_i hcount
              split at h
              · exact absurd h (encapFail_ne_stamped _ _ _)
              · rename_i c₂ hstamp
                cases h
                exact ⟨g, hparse, rfl, hsrc, Nat.not_le.mp hcount,
                  egressStamp_stamped (egressParse_tunnel hparse) hstamp⟩

end

end Meridian.Bpf
