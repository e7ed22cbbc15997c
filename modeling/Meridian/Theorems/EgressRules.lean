import Meridian.Theorems.EgressStamp
import Meridian.Theorems.IngressVerdict

/-! Which policy entries decide on egress. Both branches of the program look the flow up under the ingress
    direction, so that the egress entries are never read. -/

namespace Meridian.Bpf
open Lib

/-! ### Rewriting the packet does not read the maps -/

def Ctx.withMaps (c : Ctx) (m : Maps) : Ctx := { c with maps := m }

/-- The same result and packet on other maps. -/
def MapFree {α : Type} (f : Ctx → α × Ctx) : Prop := ∀ c m, f (c.withMaps m) = ((f c).1, (f c).2.withMaps m)

section
variable {env : Env}

theorem MapFree.ite {α : Type} {P : Ctx → Prop} [DecidablePred P] {f g : Ctx → α × Ctx}
    (hP : ∀ c m, P (c.withMaps m) ↔ P c) (hf : MapFree f) (hg : MapFree g) : MapFree fun c => if P c then f c else g c := by
  intro c m
  dsimp only
  by_cases hp : P c
  · rw [if_pos ((hP c m).mpr hp), if_pos hp]
    exact hf c m
  · rw [if_neg (mt (hP c m).mp hp), if_neg hp]
    exact hg c m

theorem MapFree.orFail {f g : Ctx → Bool × Ctx} (hf : MapFree f) (hg : MapFree g) :
    MapFree fun c => orFail (f c) g := by
  intro c m
  dsimp only
  rw [hf c m]
  rcases hfc : f c with ⟨failed, c'⟩
  cases failed with
  | true => rfl
  | false => exact hg c' m

theorem mapFree_loadBytes (off len : Nat) : MapFree fun c => bpfSkbLoadBytes env c off len :=
  .ite (fun _ _ => Iff.rfl) (fun _ _ => rfl) fun _ _ => rfl

theorem MapFree.orFailLoad {off len : Nat} {g : List UInt8 → Ctx → Bool × Ctx} (hg : ∀ b, MapFree (g b)) :
    MapFree fun c => orFailLoad (bpfSkbLoadBytes env c off len) g := by
  intro c m
  dsimp only
  have hload := @mapFree_loadBytes env off len c m
  dsimp only at hload
  rw [hload]
  rcases hc : bpfSkbLoadBytes env c off len with ⟨b, c'⟩
  cases b with
  | none => rfl
  | some b => exact hg b c' m

theorem mapFree_pullData : MapFree (bpfSkbPullData env) := fun _ _ => rfl

theorem mapFree_storeBytes (off : Nat) (src : List UInt8) : MapFree fun c => bpfSkbStoreBytes env c off src :=
  .ite (fun _ _ => Iff.rfl) (fun _ _ => rfl) fun _ _ => rfl

theorem mapFree_changeHead (n : Nat) : MapFree fun c => bpfSkbChangeHead env c n :=
  .ite (fun _ _ => Iff.rfl) (fun _ _ => rfl) fun _ _ => rfl

theorem mapFree_l4CsumReplace (off : Nat) (old new : UInt16) : MapFree fun c => bpfL4CsumReplace env c off old new :=
  .ite (fun _ _ => Iff.rfl) (fun _ _ => rfl) fun _ _ => rfl

theorem mapFree_copyHeadLoop (roomOff n i : Nat) : MapFree fun c => copyHeadLoop env roomOff n i c := by
  induction n generalizing i with
  | zero => exact fun _ _ => rfl
  | succ n ih =>
    by_cases hi : i < roomOff
    · have hstep : (fun c => copyHeadLoop env roomOff (n + 1) i c) = fun c =>
          orFailLoad (bpfSkbLoadBytes env c (meridianGeneveOptBytes + i) 1) fun b c =>
          orFail (bpfSkbStoreBytes env c i b) fun c => copyHeadLoop env roomOff n (i + 1) c := by
        funext c
        rw [copyHeadLoop, if_pos hi]
      rw [hstep]
      exact .orFailLoad fun b => .orFail (mapFree_storeBytes i b) (ih (i + 1))
    · have hskip : (fun c => copyHeadLoop env roomOff (n + 1) i c) = fun c => copyHeadLoop env roomOff n (i + 1) c := by
        funext c
        rw [copyHeadLoop, if_neg hi]
      rw [hskip]
      exact ih (i + 1)

theorem mapFree_insertInnerTlvRoom (roomOff outerIpOff : Nat) :
    MapFree fun c => insertInnerTlvRoom env c roomOff outerIpOff := by
  refine .orFail mapFree_pullData (.ite (fun _ _ => Iff.rfl) (fun _ _ => rfl) ?_)
  refine .ite (fun _ _ => Iff.rfl) (fun _ _ => rfl) (.ite (fun _ _ => Iff.rfl) (fun _ _ => rfl) ?_)
  exact .orFail (mapFree_changeHead _) (.orFail mapFree_pullData (mapFree_copyHeadLoop roomOff 80 0))

theorem mapFree_bumpUdpGeneveLengths (outerIpOff udpOff : Nat) :
    MapFree fun c => bumpUdpGeneveLengths env c outerIpOff udpOff := by
  unfold bumpUdpGeneveLengths
  refine .orFail mapFree_pullData fun c m => ?_
  -- The new lengths are read from the packet of this state, which both runs have.
  refine MapFree.orFailLoad (fun _ => .orFail (mapFree_storeBytes _ _) fun c m => ?_) c m
  refine MapFree.orFailLoad (fun oldUdpLen => .orFail (mapFree_storeBytes _ _) (.orFailLoad fun udpCheck => ?_)) c m
  exact .ite (fun _ _ => Iff.rfl) (mapFree_l4CsumReplace _ _ _) fun _ _ => rfl

theorem mapFree_stampIdentityTlv (stampOff geneveOff optWords : Nat) (srcId : UInt32) :
    MapFree fun c => stampIdentityTlv env c stampOff geneveOff optWords srcId :=
  .orFail (mapFree_storeBytes _ _) (.orFailLoad fun _ => mapFree_storeBytes _ _)

theorem mapFree_egressStamp (g : EgressGeneve) (srcId : UInt32) : MapFree fun c => egressStamp env c g srcId := by
  intro c m
  simp only [egressStamp]
  split
  · exact mapFree_stampIdentityTlv _ _ _ _ c m
  split
  · refine MapFree.orFail (mapFree_insertInnerTlvRoom _ _) (fun c m => ?_) c m
    have hbump := @mapFree_bumpUdpGeneveLengths env g.outerIp g.udp c m
    dsimp only at hbump ⊢
    rw [hbump]
    exact mapFree_stampIdentityTlv _ _ _ _ _ m
  · rfl

end

/-! ### The return value -/

/-- The flow that egress judges: the addresses' identities, the destination port in network order, which is zero
    outside the tunnel when the ports cannot be read, and the protocol. -/
structure EgressFlow where
  srcId : UInt32
  dstId : UInt32
  dstPort : UInt16
  proto : UInt8
  deriving DecidableEq, Repr

def egressFlow (m : Maps) (d : List UInt8) : Option EgressFlow :=
  match egressParse d with
  | .plain ip =>
    some ⟨mappedIdentity m (ipSaddr d ip), mappedIdentity m (ipDaddr d ip), ((parseL4Ports d ip).map (·.2)).getD 0,
      ipProtocol d ip⟩
  | .tunnel g =>
    (parseL4Ports d g.innerIp).map fun ports =>
      ⟨mappedIdentity m (ipSaddr d g.innerIp), mappedIdentity m (ipDaddr d g.innerIp), ports.2, ipProtocol d g.innerIp⟩
  | _ => none

/-- Both identities are known and the entry of this direction denies the flow. -/
def EgressFlow.deniedBy (f : EgressFlow) (m : Maps) (direction : UInt8) : Bool :=
  f.srcId ≠ 0 && (f.dstId ≠ 0 &&
    match m.policyMap ⟨f.srcId, f.dstId, bpfNtohs f.dstPort, f.proto, direction⟩ with
    | some verdict => verdict.action = flowVerdictDeny
    | none => false)

def egressStart (maps : Maps) (skb : Skb) : Ctx := { Ctx.start skb maps with skbCalls := 1 }

/-- A tunnel frame that cannot take the identity option: it has four options, or writing it fails. -/
def unstampable (env : Env) (maps : Maps) (skb : Skb) (srcId : UInt32) : Bool :=
  match egressParse skb.data with
  | .tunnel g => g.optionCount ≥ meridianMaxGeneveOpts || (egressStamp env (egressStart maps skb) g srcId).1
  | _ => false

def encapFailAction (m : Maps) : TcAct := if failopenUnknownEnabled m then .ok else .shot

theorem encapFail_action (env : Env) (c : Ctx) (packetBytes : UInt32) (flow : Option (FlowKey × UInt32 × UInt32)) :
    (encapFail env c packetBytes flow).1.action = encapFailAction c.maps := by
  have hopen : failopenUnknownEnabled (metricAdd c .geneveEncapFail 1).maps = failopenUnknownEnabled c.maps := rfl
  unfold encapFail encapFailAction
  dsimp only
  rw [hopen]
  split
  · rfl
  · split <;> rfl

theorem egressStamp_maps (env : Env) (c : Ctx) (g : EgressGeneve) (srcId : UInt32) :
    (egressStamp env c g srcId).2.maps = c.maps := by
  have hsame : egressStamp env c g srcId = ((egressStamp env c g srcId).1, (egressStamp env c g srcId).2.withMaps c.maps) :=
    mapFree_egressStamp g srcId c c.maps
  rw [hsame]
  rfl

variable {env : Env} {maps : Maps} {skb : Skb}

theorem meridianTcEgress_eq (maps : Maps) (skb : Skb) (hpull : env.skbFails 0 = false) : meridianTcEgress env maps skb =
      match egressParse skb.data with
      | .notIpv4 => (.notIpv4, egressStart maps skb)
      | .badIhl => (.badIhl, egressStart maps skb)
      | .plain ip => egressPlain env (egressStart maps skb) skb.data ip (UInt32.ofNat skb.data.length)
      | .malformed => encapFail env (egressStart maps skb) (UInt32.ofNat skb.data.length) none
      | .innerNotIpv4 => (.innerNotIpv4, egressStart maps skb)
      | .tunnel g => egressInner env (egressStart maps skb) skb.data g (UInt32.ofNat skb.data.length) := by
  have hpulled : bpfSkbPullData env (Ctx.start skb maps) = (false, egressStart maps skb) := by
    rw [bpfSkbPullData, show env.skbFails (Ctx.start skb maps).skbCalls = false from hpull]
    rfl
  unfold meridianTcEgress
  rw [hpulled]
  rfl

theorem egressPlain_action (env : Env) (c : Ctx) (d : List UInt8) (ip : Nat) (packetBytes : UInt32) :
    (egressPlain env c d ip packetBytes).1.action =
      if mappedIdentity c.maps (ipSaddr d ip) = 0 then .ok
      else if egressDenied c.maps (mappedIdentity c.maps (ipSaddr d ip)) (mappedIdentity c.maps (ipDaddr d ip))
        (((parseL4Ports d ip).map (·.2)).getD 0) (ipProtocol d ip) then .stolen
      else .ok := by
  unfold egressPlain
  dsimp only
  split
  · rfl
  · split <;> rfl

theorem egressInner_action {c : Ctx} {d : List UInt8} {g : EgressGeneve} {ports : UInt16 × UInt16}
    (hports : parseL4Ports d g.innerIp = some ports) (packetBytes : UInt32) : (egressInner env c d g packetBytes).1.action =
      if mappedIdentity c.maps (ipSaddr d g.innerIp) = 0 then encapFailAction c.maps
      else if egressDenied c.maps (mappedIdentity c.maps (ipSaddr d g.innerIp))
        (mappedIdentity c.maps (ipDaddr d g.innerIp)) ports.2 (ipProtocol d g.innerIp) then .stolen
      else if g.optionCount ≥ meridianMaxGeneveOpts ||
        (egressStamp env c g (mappedIdentity c.maps (ipSaddr d g.innerIp))).1 then encapFailAction c.maps
      else .ok := by
  unfold egressInner
  rw [hports]
  dsimp only
  split
  · exact encapFail_action ..
  split
  · rfl
  by_cases hcount : g.optionCount ≥ meridianMaxGeneveOpts
  · rw [if_pos hcount, encapFail_action, if_pos (by simp [hcount])]
  · have hmaps := egressStamp_maps env c g (mappedIdentity c.maps (ipSaddr d g.innerIp))
    rw [if_neg hcount, decide_eq_false hcount, Bool.false_or]
    generalize egressStamp env c g (mappedIdentity c.maps (ipSaddr d g.innerIp)) = stamp at hmaps ⊢
    obtain ⟨failed, c'⟩ := stamp
    cases failed with
    | true =>
      dsimp only at hmaps ⊢
      rw [encapFail_action, hmaps]
      rfl
    | false => rfl

/-- The return value on a flow: the entry that is looked up is the ingress one. -/
theorem egress_action {f : EgressFlow} (hpull : env.skbFails 0 = false) (hflow : egressFlow maps skb.data = some f) :
    (meridianTcEgress env maps skb).1.action =
      if f.srcId = 0 then
        match egressParse skb.data with
        | .tunnel _ => encapFailAction maps
        | _ => .ok
      else if f.deniedBy maps policyDirIngress then .stolen
      else if unstampable env maps skb f.srcId then encapFailAction maps
      else .ok := by
  have hdenied : ∀ {srcId dstId dstPort proto}, srcId ≠ 0 → egressDenied maps srcId dstId dstPort proto =
      EgressFlow.deniedBy ⟨srcId, dstId, dstPort, proto⟩ maps policyDirIngress := by
    intro srcId dstId dstPort proto hsrc
    have hflow : EgressFlow.deniedBy ⟨srcId, dstId, dstPort, proto⟩ maps policyDirIngress =
        (decide (srcId ≠ 0) && egressDenied maps srcId dstId dstPort proto) := rfl
    rw [hflow, decide_eq_true hsrc, Bool.true_and]
  rw [meridianTcEgress_eq maps skb hpull]
  unfold egressFlow at hflow
  unfold unstampable
  cases hparse : egressParse skb.data with
  | plain ip =>
    rw [hparse] at hflow
    cases hflow
    refine (egressPlain_action ..).trans (ite_congr rfl (fun _ => rfl) fun hsrc => ?_)
    exact ite_congr (congrArg (· = true) (hdenied hsrc)) (fun _ => rfl) fun _ => rfl
  | tunnel g =>
    rw [hparse] at hflow
    obtain ⟨ports, hports, rfl⟩ := Option.map_eq_some_iff.mp hflow
    refine (egressInner_action hports _).trans (ite_congr rfl (fun _ => rfl) fun hsrc => ?_)
    exact ite_congr (congrArg (· = true) (hdenied hsrc)) (fun _ => rfl) fun _ => rfl
  | _ => rw [hparse] at hflow; cases hflow

/-! ### Egress entries -/

/-- The same node with another policy map. -/
def Maps.withPolicy (maps : Maps) (policyMap : Table PolicyKey PolicyVerdict) : Maps := { maps with policyMap }

theorem egressFlow_withPolicy (maps : Maps) (policyMap : Table PolicyKey PolicyVerdict) (d : List UInt8) :
    egressFlow (maps.withPolicy policyMap) d = egressFlow maps d := rfl

theorem unstampable_withPolicy (env : Env) (maps : Maps) (policyMap : Table PolicyKey PolicyVerdict) (skb : Skb)
    (srcId : UInt32) : unstampable env (maps.withPolicy policyMap) skb srcId = unstampable env maps skb srcId := by
  unfold unstampable
  cases egressParse skb.data with
  | tunnel g =>
    have hfree : MapFree fun c => egressStamp env c g srcId := mapFree_egressStamp g srcId
    have hstamp := congrArg Prod.fst (hfree (egressStart maps skb) (maps.withPolicy policyMap))
    exact congrArg (decide (g.optionCount ≥ meridianMaxGeneveOpts) || ·) hstamp
  | _ => rfl

/-- A frame without a flow to judge has the same return value under every policy map. -/
theorem egress_action_no_flow (hpull : env.skbFails 0 = false) (hflow : egressFlow maps skb.data = none)
    (policyMap : Table PolicyKey PolicyVerdict) :
    (meridianTcEgress env (maps.withPolicy policyMap) skb).1.action = (meridianTcEgress env maps skb).1.action := by
  rw [meridianTcEgress_eq _ skb hpull, meridianTcEgress_eq _ skb hpull]
  unfold egressFlow at hflow
  cases hparse : egressParse skb.data with
  | plain ip =>
    rw [hparse] at hflow
    cases hflow
  | tunnel g =>
    rw [hparse] at hflow
    have hports := Option.map_eq_none_iff.mp hflow
    dsimp only
    unfold egressInner
    rw [hports]
    dsimp only
    rw [encapFail_action, encapFail_action]
    rfl
  | malformed =>
    dsimp only
    rw [encapFail_action, encapFail_action]
    rfl
  | _ => rfl

/-! ### Room for the option -/

/-- The tunnel headers leave no room for another option: there are four already, or there is no reserved slot and
    the headers are too long to be moved. -/
def noRoom (d : List UInt8) : Bool :=
  match egressParse d with
  | .tunnel g =>
    g.optionCount ≥ meridianMaxGeneveOpts ||
      (g.reservedHeadroom = 0 && (g.innerBase - g.outerIp > 64 || g.innerBase > 80))
  | _ => false

theorem quiet_loadBytes (c : Ctx) (off len : Nat) (h : off + len ≤ c.skb.data.length) :
    ∃ c', bpfSkbLoadBytes quietEnv c off len = (some ((c.skb.data.drop off).take len), c') ∧
      c'.skb.data.length = c.skb.data.length := by
  refine ⟨{ c with skbCalls := c.skbCalls + 1 }, ?_, rfl⟩
  rw [bpfSkbLoadBytes, if_neg (by simpa [quietEnv] using h)]

theorem quiet_storeBytes (c : Ctx) (off : Nat) (src : List UInt8) (h : off + src.length ≤ c.skb.data.length) :
    ∃ c', bpfSkbStoreBytes quietEnv c off src = (false, c') ∧ c'.skb.data.length = c.skb.data.length := by
  refine ⟨c.after (overwrite c.skb.data off src) 1, ?_, length_overwrite h⟩
  rw [bpfSkbStoreBytes, if_neg (by simpa [quietEnv] using h)]

theorem quiet_copyHeadLoop (roomOff n i : Nat) (c : Ctx) (h : roomOff + 8 ≤ c.skb.data.length) :
    ∃ c', copyHeadLoop quietEnv roomOff n i c = (false, c') ∧ c'.skb.data.length = c.skb.data.length := by
  induction n generalizing i c with
  | zero => exact ⟨c, rfl, rfl⟩
  | succ n ih =>
    by_cases hlt : i < roomOff
    · have hload : meridianGeneveOptBytes + i + 1 ≤ c.skb.data.length := by
        simp only [meridianGeneveOptBytes]
        omega
      obtain ⟨c₁, hc₁, hlen₁⟩ := quiet_loadBytes c _ _ hload
      have hone : ((c.skb.data.drop (meridianGeneveOptBytes + i)).take 1).length = 1 := by
        rw [List.length_take, List.length_drop]
        omega
      obtain ⟨c₂, hc₂, hlen₂⟩ := quiet_storeBytes c₁ i ((c.skb.data.drop (meridianGeneveOptBytes + i)).take 1) (by omega)
      obtain ⟨c₃, hc₃, hlen₃⟩ := ih (i + 1) c₂ (by omega)
      refine ⟨c₃, ?_, by omega⟩
      rw [copyHeadLoop, if_pos hlt, hc₁, orFailLoad, hc₂, orFail, hc₃]
    · exact ⟨c, copyHeadLoop_done _ _ _ _ _ (by omega), rfl⟩

theorem quiet_stampIdentityTlv {c : Ctx} {stampOff geneveOff : Nat} (optWords : Nat) (srcId : UInt32)
    (hstamp : stampOff + 8 ≤ c.skb.data.length) (hgeneve : geneveOff < stampOff) :
    (stampIdentityTlv quietEnv c stampOff geneveOff optWords srcId).1 = false := by
  obtain ⟨c₁, hc₁, hlen₁⟩ := quiet_storeBytes c stampOff (identityTlv srcId) hstamp
  obtain ⟨c₂, hc₂, hlen₂⟩ := quiet_loadBytes c₁ geneveOff 1 (by omega)
  have hlast : ∀ b : UInt8, (bpfSkbStoreBytes quietEnv c₂ geneveOff [b]).1 = false := by
    intro b
    obtain ⟨c₃, hc₃, -⟩ := quiet_storeBytes c₂ geneveOff [b]
      (by rw [List.length_singleton]; omega)
    rw [hc₃]
  rw [stampIdentityTlv, hc₁, orFail, hc₂, orFailLoad]
  exact hlast _

/-- Making room fails whatever the helpers do when the headers are too long. -/
theorem insertInnerTlvRoom_tooLong (env : Env) (c : Ctx) {roomOff outerIpOff : Nat}
    (h : roomOff - outerIpOff > 64 ∨ roomOff > 80) : (insertInnerTlvRoom env c roomOff outerIpOff).1 = true := by
  unfold insertInnerTlvRoom orFail
  split
  · rfl
  · dsimp only
    split
    · rfl
    · split
      · rfl
      · rename_i hshort
        rw [if_pos (h.resolve_left hshort)]

theorem quiet_insertInnerTlvRoom (c : Ctx) (roomOff outerIpOff : Nat) (hin : roomOff < c.skb.data.length)
    (houter : outerIpOff < roomOff) (hshort : roomOff - outerIpOff ≤ 64) (hmax : roomOff ≤ 80) :
    ∃ c', insertInnerTlvRoom quietEnv c roomOff outerIpOff = (false, c') ∧
      c'.skb.data.length = c.skb.data.length + 8 := by
  -- The run up to the copy: linearised, grown at its head, linearised again.
  let grown := ((c.after c.skb.data 1).after (List.replicate meridianGeneveOptBytes 0 ++ c.skb.data) 1)
  have hlen : grown.skb.data.length = c.skb.data.length + 8 := by
    simp only [grown, Ctx.after_data, List.length_append, List.length_replicate, meridianGeneveOptBytes]
    omega
  obtain ⟨c', hcopy, hcopied⟩ := quiet_copyHeadLoop roomOff 80 0 (grown.after grown.skb.data 1)
    (by rw [Ctx.after_data, hlen]; omega)
  refine ⟨c', ?_, hcopied.trans hlen⟩
  rw [insertInnerTlvRoom, bpfSkbPullData, show quietEnv.skbFails c.skbCalls = false from rfl, orFail]
  rw [if_neg (by simp only [Bool.or_eq_true, decide_eq_true_eq]; omega), if_neg (by omega), if_neg (by omega)]
  exact hcopy

/-- With working helpers a tunnel frame takes the option unless its headers leave no room. -/
theorem unstampable_quiet (srcId : UInt32) : unstampable quietEnv maps skb srcId = noRoom skb.data := by
  unfold unstampable noRoom
  cases hparse : egressParse skb.data with
  | tunnel g =>
    have t := egressParse_tunnel hparse
    obtain ⟨hinnerLen, -⟩ := looksLikeIpv4_iff.mp t.inner_bounds.1
    have hbase := t.base
    have hgeneve := t.geneve
    have hudp := t.udp_ge
    simp only [sizeofIphdr] at hinnerLen
    refine congrArg (decide (g.optionCount ≥ meridianMaxGeneveOpts) || ·) ?_
    rcases t.inner_bounds.2 with ⟨hres, hip⟩ | ⟨hres, hip⟩
    · rw [egressStamp_slot hres, hres]
      exact quiet_stampIdentityTlv _ _ (show g.innerBase + 8 ≤ skb.data.length by omega) (by omega)
    · rw [hres]
      by_cases hlong : g.innerBase - g.outerIp > 64 ∨ g.innerBase > 80
      · have hfail := insertInnerTlvRoom_tooLong quietEnv (egressStart maps skb) hlong
        rw [egressStamp_insertFailed hres hfail, hfail]
        simpa using hlong
      · obtain ⟨c', hroom, hlen⟩ := quiet_insertInnerTlvRoom (egressStart maps skb) g.innerBase
          g.outerIp (show g.innerBase < skb.data.length by omega) (by omega) (by omega) (by omega)
        have hbump := (bumpUdpGeneveLengths_sameOff quietEnv c' g.outerIp g.udp).length
        have hstart : (egressStart maps skb).skb.data.length = skb.data.length := rfl
        rw [egressStamp_noSlot hres, hroom, orFail]
        rw [quiet_stampIdentityTlv _ _ (by omega) (by omega)]
        simpa using hlong
  | _ => rfl

theorem unstampable_of_noRoom (srcId : UInt32) (h : noRoom skb.data = true) : unstampable env maps skb srcId = true := by
  unfold noRoom at h
  unfold unstampable
  cases hparse : egressParse skb.data with
  | tunnel g =>
    rw [hparse] at h
    dsimp only at h ⊢
    rcases Bool.or_eq_true_iff.mp h with hcount | hlong
    · rw [hcount, Bool.true_or]
    · simp only [Bool.and_eq_true, Bool.or_eq_true, decide_eq_true_eq] at hlong
      have hfail := insertInnerTlvRoom_tooLong env (egressStart maps skb) hlong.2
      rw [egressStamp_insertFailed hlong.1 hfail, hfail, Bool.or_true]
  | _ =>
    rw [hparse] at h
    cases h

section
variable {env : Env} {maps : Maps} {skb : Skb} {f : EgressFlow}

/-- An unknown source is never looked up. -/
theorem EgressFlow.deniedBy_unknown (hsrc : f.srcId = 0) (m : Maps) (direction : UInt8) :
    f.deniedBy m direction = false := by
  simp [EgressFlow.deniedBy, hsrc]

theorem EgressFlow.known_of_deniedBy {m : Maps} {direction : UInt8} (h : f.deniedBy m direction = true) :
    f.srcId ≠ 0 := by
  intro hsrc
  rw [f.deniedBy_unknown hsrc] at h
  cases h

/-- A flow of a known source passes exactly when no ingress entry denies it and the frame can be stamped. -/
theorem egress_ok_iff (hpull : env.skbFails 0 = false) (hclosed : failopenUnknownEnabled maps = false)
    (hflow : egressFlow maps skb.data = some f) (hsrc : f.srcId ≠ 0) :
    (meridianTcEgress env maps skb).1.action = .ok ↔
      f.deniedBy maps policyDirIngress = false ∧ unstampable env maps skb f.srcId = false := by
  rw [egress_action hpull hflow, if_neg hsrc, encapFailAction, hclosed]
  cases f.deniedBy maps policyDirIngress <;> cases unstampable env maps skb f.srcId <;> decide

theorem egress_stolen_iff (hpull : env.skbFails 0 = false) (hflow : egressFlow maps skb.data = some f) :
    (meridianTcEgress env maps skb).1.action = .stolen ↔ f.deniedBy maps policyDirIngress = true := by
  have hencap : encapFailAction maps ≠ .stolen := by
    unfold encapFailAction
    split <;> decide
  rw [egress_action hpull hflow]
  by_cases hsrc : f.srcId = 0
  · rw [if_pos hsrc, f.deniedBy_unknown hsrc]
    cases egressParse skb.data with
    | tunnel g => simpa using hencap
    | _ => simp
  · rw [if_neg hsrc]
    cases f.deniedBy maps policyDirIngress with
    | true => simp
    | false =>
      cases unstampable env maps skb f.srcId with
      | true => simpa using hencap
      | false => simp

/-- Two policy maps give one return value exactly when both deny the flow on ingress or neither does. -/
theorem egress_action_withPolicy_iff (hpull : env.skbFails 0 = false) (hflow : egressFlow maps skb.data = some f)
    (policyMap : Table PolicyKey PolicyVerdict) :
    (meridianTcEgress env (maps.withPolicy policyMap) skb).1.action = (meridianTcEgress env maps skb).1.action ↔
      f.deniedBy (maps.withPolicy policyMap) policyDirIngress = f.deniedBy maps policyDirIngress := by
  have hflow' := (egressFlow_withPolicy maps policyMap skb.data).trans hflow
  constructor
  · intro hsame
    rw [Bool.eq_iff_iff, ← egress_stolen_iff hpull hflow, ← egress_stolen_iff hpull hflow', hsame]
  · intro hsame
    rw [egress_action hpull hflow, egress_action hpull hflow', hsame, unstampable_withPolicy]
    rfl

end

/-- The two policy maps have the same egress entries. -/
def EgressEntriesAgree (maps : Maps) (policyMap : Table PolicyKey PolicyVerdict) : Prop :=
  ∀ key : PolicyKey, key.direction = policyDirEgress → policyMap key = maps.policyMap key

/-- Egress entries decide on a linear frame exactly when the ingress entries say the same: a flow that an egress
    entry denies is also denied on ingress, or the frame has no room for the identity option; and a policy map
    with the same egress entries agrees on whether the flow is denied on ingress. -/
theorem egress_entries_enforced_iff (maps : Maps) (policyMap : Table PolicyKey PolicyVerdict) (skb : Skb) :
    (∀ env : Env, env.skbFails 0 = false →
        (failopenUnknownEnabled maps = false → ∀ f, egressFlow maps skb.data = some f →
          f.deniedBy maps policyDirEgress = true → (meridianTcEgress env maps skb).1.action ≠ .ok) ∧
        (EgressEntriesAgree maps policyMap →
          (meridianTcEgress env (maps.withPolicy policyMap) skb).1.action =
            (meridianTcEgress env maps skb).1.action)) ↔
      ∀ f, egressFlow maps skb.data = some f →
        (failopenUnknownEnabled maps = false → f.deniedBy maps policyDirEgress = true →
          f.deniedBy maps policyDirIngress = true ∨ noRoom skb.data = true) ∧
        (EgressEntriesAgree maps policyMap →
          f.deniedBy (maps.withPolicy policyMap) policyDirIngress = f.deniedBy maps policyDirIngress) := by
  constructor
  · -- The frame is judged with working helpers.
    intro h f hflow
    obtain ⟨hdeny, hagree⟩ := h quietEnv rfl
    refine ⟨fun hclosed hegress => ?_, fun hsame => (egress_action_withPolicy_iff rfl hflow policyMap).mp (hagree hsame)⟩
    have hstop := hdeny hclosed f hflow hegress
    rw [ne_eq, egress_ok_iff rfl hclosed hflow (f.known_of_deniedBy hegress), unstampable_quiet] at hstop
    cases hingress : f.deniedBy maps policyDirIngress with
    | true => exact .inl rfl
    | false =>
      right
      simpa [hingress] using hstop
  · intro h env hpull
    refine ⟨fun hclosed f hflow hegress => ?_, fun hsame => ?_⟩
    · rw [ne_eq, egress_ok_iff hpull hclosed hflow (f.known_of_deniedBy hegress)]
      rintro ⟨hingress, hstamp⟩
      rcases (h f hflow).1 hclosed hegress with hdenied | hroom
      · rw [hingress] at hdenied
        cases hdenied
      · rw [unstampable_of_noRoom f.srcId hroom] at hstamp
        cases hstamp
    · cases hflow : egressFlow maps skb.data with
      | none => exact egress_action_no_flow hpull hflow policyMap
      | some f => exact (egress_action_withPolicy_iff hpull hflow policyMap).mpr ((h f hflow).2 hsame)

/-- A node that denies the flow of `plainFrame` on egress. -/
def egressDenyMaps : Maps :=
  Maps.fresh (Table.put (Table.put (fun _ => none) (loadU32 [10, 0, 0, 1] 0) 7) (loadU32 [10, 0, 0, 2] 0) 8)
    (Table.put (fun _ => none) ⟨7, 8, 8080, ipprotoTcp, policyDirEgress⟩ ⟨flowVerdictDeny, 0⟩) none

/-- The same node with an ingress entry added. -/
def bothDenyPolicy : Table PolicyKey PolicyVerdict :=
  Table.put egressDenyMaps.policyMap ⟨7, 8, 8080, ipprotoTcp, policyDirIngress⟩ ⟨flowVerdictDeny, 0⟩

/-- The egress entry does not stop the flow, and an added ingress entry does. -/
theorem egress_entry_not_read :
    failopenUnknownEnabled egressDenyMaps = false ∧
      egressFlow egressDenyMaps plainFrame = some ⟨7, 8, bpfHtons 8080, ipprotoTcp⟩ ∧
      EgressFlow.deniedBy ⟨7, 8, bpfHtons 8080, ipprotoTcp⟩ egressDenyMaps policyDirEgress = true ∧
      (meridianTcEgress quietEnv egressDenyMaps ⟨plainFrame, 0⟩).1.action = .ok ∧
      EgressEntriesAgree egressDenyMaps bothDenyPolicy ∧
      (meridianTcEgress quietEnv (egressDenyMaps.withPolicy bothDenyPolicy) ⟨plainFrame, 0⟩).1.action = .stolen := by
  refine ⟨rfl, by decide, by decide, by decide, fun key hkey => ?_, by decide⟩
  refine Table.put_of_ne fun heq => ?_
  rw [← heq] at hkey
  cases hkey

end Meridian.Bpf
