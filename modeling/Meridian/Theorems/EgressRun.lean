import Meridian.Theorems.Calls
import Meridian.Theorems.EgressRules

/-! One run of egress as a whole: which frames it starts to rewrite, and how the run ends then. A frame that it does not
    start to rewrite keeps its bytes. -/

namespace Meridian.Bpf
open Lib

/-- The tunnel frame that egress starts to rewrite, and the identity that it stamps: the inner ports can be read, the
    source is known, no entry denies the flow, and there is an option to spare. -/
def egressRewrites (m : Maps) (d : List UInt8) : Option (EgressGeneve × UInt32) :=
  match egressParse d with
  | .tunnel g =>
    match parseL4Ports d g.innerIp with
    | none => none
    | some (_, dstPort) =>
      let srcId := mappedIdentity m (ipSaddr d g.innerIp)
      if srcId = 0 then none
      else if egressDenied m srcId (mappedIdentity m (ipDaddr d g.innerIp)) dstPort (ipProtocol d g.innerIp) then none
      else if g.optionCount ≥ meridianMaxGeneveOpts then none
      else some (g, srcId)
  | _ => none

theorem egressRewrites_tunnel {m : Maps} {d : List UInt8} {g : EgressGeneve} {s : UInt32}
    (h : egressRewrites m d = some (g, s)) : egressParse d = .tunnel g := by
  unfold egressRewrites at h
  split at h
  · rename_i g' hparse
    split at h
    · cases h
    · dsimp only at h
      split at h
      · cases h
      · split at h
        · cases h
        · split at h
          · cases h
          · cases h
            exact hparse
  · cases h

/-- The exit by the label. -/
def failExit (m : Maps) : EgressExit := if failopenUnknownEnabled m then .encapFailOpen else .encapFail

theorem encapFail_exit (env : Env) (c : Ctx) (packetBytes : UInt32) (flow : Option (FlowKey × UInt32 × UInt32)) :
    (encapFail env c packetBytes flow).1 = failExit c.maps ∧ (encapFail env c packetBytes flow).2.skb = c.skb := by
  have hopen : failopenUnknownEnabled (metricAdd c .geneveEncapFail 1).maps = failopenUnknownEnabled c.maps := rfl
  unfold encapFail failExit
  dsimp only
  rw [hopen]
  split
  · exact ⟨rfl, rfl⟩
  · split
    · exact ⟨rfl, recordDeny_skb ..⟩
    · exact ⟨rfl, rfl⟩

/-- Not a frame to rewrite: its bytes stay, and it is not stamped. -/
def LeftAlone (skb : Skb) (r : EgressExit × Ctx) : Prop := r.2.skb.data = skb.data ∧ ∀ s, r.1 ≠ .stamped s

theorem encapFail_leftAlone {env : Env} {c : Ctx} {skb : Skb} (packetBytes : UInt32)
    (flow : Option (FlowKey × UInt32 × UInt32)) (h : c.skb = skb) : LeftAlone skb (encapFail env c packetBytes flow) := by
  obtain ⟨hexit, hskb⟩ := encapFail_exit env c packetBytes flow
  refine ⟨by rw [hskb, h], fun s hs => ?_⟩
  rw [hexit, failExit] at hs
  split at hs <;> cases hs

theorem egressPlain_leftAlone (env : Env) (c : Ctx) (d : List UInt8) (ip : Nat) (packetBytes : UInt32) :
    LeftAlone c.skb (egressPlain env c d ip packetBytes) := by
  unfold egressPlain
  dsimp only
  split
  · exact ⟨rfl, nofun⟩
  · split
    · exact ⟨by rw [recordDeny_skb], nofun⟩
    · exact ⟨rfl, nofun⟩

theorem meridianTcEgress_cases (env : Env) (maps : Maps) (skb : Skb) :
    ((env.skbFails 0 = false → egressRewrites maps skb.data = none) ∧ LeftAlone skb (meridianTcEgress env maps skb)) ∨
      ∃ g s, env.skbFails 0 = false ∧ egressRewrites maps skb.data = some (g, s) ∧
        (((egressStamp env (egressStart maps skb) g s).1 = true ∧ (meridianTcEgress env maps skb).1 = failExit maps ∧
            (meridianTcEgress env maps skb).2.skb = (egressStamp env (egressStart maps skb) g s).2.skb) ∨
          ((egressStamp env (egressStart maps skb) g s).1 = false ∧
            meridianTcEgress env maps skb = (.stamped s, (egressStamp env (egressStart maps skb) g s).2))) := by
  cases hpull : env.skbFails 0 with
  | true =>
    refine Or.inl ⟨nofun, ?_⟩
    unfold meridianTcEgress bpfSkbPullData Ctx.start
    dsimp only
    rw [hpull]
    exact ⟨rfl, nofun⟩
  | false =>
    rw [meridianTcEgress_eq maps skb hpull, egressRewrites]
    cases hparse : egressParse skb.data with
    | notIpv4 => exact Or.inl ⟨fun _ => rfl, rfl, nofun⟩
    | badIhl => exact Or.inl ⟨fun _ => rfl, rfl, nofun⟩
    | innerNotIpv4 => exact Or.inl ⟨fun _ => rfl, rfl, nofun⟩
    | malformed => exact Or.inl ⟨fun _ => rfl, encapFail_leftAlone _ _ rfl⟩
    | plain ip =>
      exact Or.inl ⟨fun _ => rfl, egressPlain_leftAlone env (egressStart maps skb) skb.data ip _⟩
    | tunnel g =>
      dsimp only
      unfold egressInner
      cases hports : parseL4Ports skb.data g.innerIp with
      | none => exact Or.inl ⟨fun _ => rfl, encapFail_leftAlone _ _ rfl⟩
      | some ports =>
        obtain ⟨srcPort, dstPort⟩ := ports
        have hmaps : (egressStart maps skb).maps = maps := rfl
        dsimp only
        rw [hmaps]
        by_cases hsrc : mappedIdentity maps (ipSaddr skb.data g.innerIp) = 0
        · rw [if_pos hsrc, if_pos hsrc]
          exact Or.inl ⟨fun _ => rfl, encapFail_leftAlone _ _ rfl⟩
        · rw [if_neg hsrc, if_neg hsrc]
          split
          · exact Or.inl ⟨fun _ => rfl, by rw [recordDeny_skb]; rfl, nofun⟩
          · split
            · exact Or.inl ⟨fun _ => rfl, encapFail_leftAlone _ _ rfl⟩
            · refine Or.inr ⟨g, _, rfl, rfl, ?_⟩
              have hstampMaps := egressStamp_maps env (egressStart maps skb) g (mappedIdentity maps (ipSaddr skb.data g.innerIp))
              generalize egressStamp env (egressStart maps skb) g (mappedIdentity maps (ipSaddr skb.data g.innerIp)) = stamp
                at hstampMaps ⊢
              obtain ⟨failed, c'⟩ := stamp
              cases failed with
              | true =>
                obtain ⟨hexit, hskb⟩ := encapFail_exit env c' (UInt32.ofNat skb.data.length)
                  (some (⟨ipSaddr skb.data g.innerIp, ipDaddr skb.data g.innerIp, srcPort, dstPort,
                    ipProtocol skb.data g.innerIp⟩, mappedIdentity maps (ipSaddr skb.data g.innerIp),
                    mappedIdentity maps (ipDaddr skb.data g.innerIp)))
                have hmaps' : c'.maps = maps := hstampMaps
                rw [hmaps'] at hexit
                exact Or.inl ⟨rfl, hexit, hskb⟩
              | false => exact Or.inr ⟨rfl, rfl⟩

/-! ### Inserting the option -/

theorem Tunnel.udp_even {d : List UInt8} {g : EgressGeneve} (t : Tunnel d g) : g.udp % 2 = 0 := by
  have hudp := t.udp
  have houter : g.outerIp = 14 ∨ g.outerIp = 18 := by
    rcases l3AfterEth_eq_some_iff.mp (parseIpv4AfterEth_eq_some_iff.mp t.outer).1 with ⟨-, -, h⟩ | ⟨-, -, -, h⟩
    · exact Or.inl (by omega)
    · exact Or.inr (by omega)
  simp only [ipPayload, ipv4WordBytes] at hudp
  omega

section
variable {env : Env} {c : Ctx} {g : EgressGeneve}

theorem orFail_congr {r : Bool × Ctx} {rest rest' : Ctx → Bool × Ctx} (h : ∀ c', r = (false, c') → rest c' = rest' c') :
    orFail r rest = orFail r rest' := by
  obtain ⟨failed, c'⟩ := r
  cases failed with
  | true => rfl
  | false => exact h c' rfl

/-- Insertion as three scripts. The result of the second is discarded, so that the third runs wherever it stopped. -/
theorem egressStamp_inserted (t : Tunnel c.skb.data g) (hres : g.reservedHeadroom = 0)
    (hfits : RoomFits c.skb.data g.innerBase g.outerIp) (s : UInt32) :
    egressStamp env c g s = orFail (c.attempt env (insertCalls g.innerBase)) fun c₁ =>
      (c₁.attempt env (bumpCalls (movedHead c.skb.data g.innerBase) g.outerIp g.udp)).2.attempt env
        (stampCalls g.innerBase g.geneve g.optWords s) := by
  have hudp := t.udp_ge
  have hgeneve := t.geneve
  have hbase := t.base
  have hinside := t.inside
  have hroom := @insertInnerTlvRoom_eq_attempt env c g.innerBase g.outerIp hfits
  rw [egressStamp_noSlot hres, ← hroom]
  refine orFail_congr fun c₁ hc₁ => ?_
  have hd₁ := insertInnerTlvRoom_moves hc₁
  have hlen₁ := length_movedHead t.inside
  have hbump : bumpUdpGeneveLengths env c₁ g.outerIp g.udp =
      c₁.attempt env (bumpCalls (movedHead c.skb.data g.innerBase) g.outerIp g.udp) := by
    rw [← hd₁]
    exact bumpUdpGeneveLengths_eq_attempt hudp t.udp_even (by rw [hd₁]; omega)
  have hlen₂ := (bumpUdpGeneveLengths_sameOff env c₁ g.outerIp g.udp).length
  rw [hd₁] at hlen₂
  rw [hbump] at hlen₂ ⊢
  exact stampIdentityTlv_eq_attempt _ _ (by omega) (by omega)

/-- The frame that insertion leaves when every helper works. -/
def insertedData (d : List UInt8) (g : EgressGeneve) (s : UInt32) : List UInt8 :=
  applyAll (stampCalls g.innerBase g.geneve g.optWords s)
    (applyAll (bumpCalls (movedHead d g.innerBase) g.outerIp g.udp) (movedHead d g.innerBase))

theorem egressStamp_working (hworks : ∀ n, env.skbFails n = false) (t : Tunnel c.skb.data g)
    (hres : g.reservedHeadroom = 0) (hfits : RoomFits c.skb.data g.innerBase g.outerIp) (s : UInt32) :
    (egressStamp env c g s).1 = false ∧ (egressStamp env c g s).2.skb.data = insertedData c.skb.data g s := by
  rw [egressStamp_inserted t hres hfits s, attempt_of_working hworks]
  dsimp only [orFail]
  rw [attempt_of_working hworks, attempt_of_working hworks, Ctx.after_data, Ctx.after_data, Ctx.after_data,
    applyAll_insertCalls t.inside]
  exact ⟨rfl, rfl⟩

end

/-- A frame that egress stamps by insertion: its headers could be moved, and it leaves as `insertedData`. -/
theorem meridianTcEgress_inserted {env : Env} {maps : Maps} {skb : Skb} {g : EgressGeneve} {s : UInt32}
    (hworks : ∀ n, env.skbFails n = false) (hparse : egressParse skb.data = .tunnel g) (hres : g.reservedHeadroom = 0)
    (hrun : (meridianTcEgress env maps skb).1 = .stamped s) :
    RoomFits skb.data g.innerBase g.outerIp ∧ (meridianTcEgress env maps skb).2.skb.data = insertedData skb.data g s := by
  have t := egressParse_tunnel hparse
  rcases meridianTcEgress_cases env maps skb with ⟨-, -, hnot⟩ | ⟨g', s', -, hrewrites, hend⟩
  · exact absurd hrun (hnot s)
  · cases (egressRewrites_tunnel hrewrites).symm.trans hparse
    rcases hend with ⟨-, hexit, -⟩ | ⟨hstamp, heq⟩
    · rw [hexit, failExit] at hrun
      split at hrun <;> cases hrun
    · rw [heq] at hrun ⊢
      cases hrun
      have hfits : RoomFits skb.data g.innerBase g.outerIp := by
        by_contra hunfit
        have hfail := (@insertInnerTlvRoom_unfit env (egressStart maps skb) _ _ hunfit).1
        rw [egressStamp_insertFailed hres hfail, hfail] at hstamp
        cases hstamp
      exact ⟨hfits, (egressStamp_working (c := egressStart maps skb) hworks t hres hfits s).2⟩

end Meridian.Bpf
