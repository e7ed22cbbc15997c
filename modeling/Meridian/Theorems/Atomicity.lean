import Meridian.Theorems.Decapsulation
import Meridian.Theorems.EgressRun
import Meridian.Theorems.Transport

/-! Which failures of helper calls let a damaged packet through. A rewrite that fails leaves a prefix of its writes;
    with the fail-open bit set egress passes such a packet, it passes a packet whose lengths could not all be
    updated, and ingress passes what a failed strip leaves. -/

namespace Meridian.Bpf
open Lib

/-! ### The calls of egress -/

/-- `bump_udp_geneve_lengths` in the run on a frame that is rewritten, if it is called. -/
def bumpCall (env : Env) (maps : Maps) (skb : Skb) (g : EgressGeneve) : Option (Bool × Ctx) :=
  if g.reservedHeadroom = 0 then
    match insertInnerTlvRoom env (egressStart maps skb) g.innerBase g.outerIp with
    | (true, _) => none
    | (false, c) => some (bumpUdpGeneveLengths env c g.outerIp g.udp)
  else none

/-- `stamp_identity_tlv` in the run on a frame that is rewritten, if it is called. -/
def stampCall (env : Env) (maps : Maps) (skb : Skb) (g : EgressGeneve) (s : UInt32) : Option (Bool × Ctx) :=
  if g.reservedHeadroom = meridianGeneveOptBytes then
    some (stampIdentityTlv env (egressStart maps skb) g.innerBase g.geneve g.optWords s)
  else (bumpCall env maps skb g).map fun r => stampIdentityTlv env r.2 g.innerBase g.geneve g.optWords s

/-- One of the two calls fails. -/
def RewriteCallFails (env : Env) (maps : Maps) (skb : Skb) : Prop :=
  ∃ g s, env.skbFails 0 = false ∧ egressRewrites maps skb.data = some (g, s) ∧
    ((∃ c, bumpCall env maps skb g = some (true, c)) ∨ ∃ c, stampCall env maps skb g s = some (true, c))

/-- A packet that leaves by the label under the fail-open bit is as it came, and a packet for which the length update
    or the stamp failed is not passed in another form. -/
structure EgressUndamaged (env : Env) (maps : Maps) (skb : Skb) : Prop where
  failOpen : (meridianTcEgress env maps skb).1 = .encapFailOpen →
    (meridianTcEgress env maps skb).2.skb.data = skb.data
  rewrite : RewriteCallFails env maps skb →
    ¬((meridianTcEgress env maps skb).1.action = .ok ∧ (meridianTcEgress env maps skb).2.skb.data ≠ skb.data)

theorem failExit_action (maps : Maps) : (failExit maps).action = .ok ↔ failopenUnknownEnabled maps = true := by
  unfold failExit
  cases failopenUnknownEnabled maps with
  | true => exact iff_of_true rfl rfl
  | false => exact iff_of_false (by decide) Bool.false_ne_true

theorem failExit_eq_open (maps : Maps) : failExit maps = .encapFailOpen ↔ failopenUnknownEnabled maps = true := by
  unfold failExit
  cases failopenUnknownEnabled maps with
  | true => exact iff_of_true rfl rfl
  | false => exact iff_of_false (by decide) Bool.false_ne_true

/-- A frame that is not rewritten is not damaged. -/
theorem egressUndamaged_leftAlone {env : Env} {maps : Maps} {skb : Skb}
    (h : env.skbFails 0 = false → egressRewrites maps skb.data = none) : EgressUndamaged env maps skb := by
  rcases meridianTcEgress_cases env maps skb with ⟨-, hdata, -⟩ | ⟨g, s, hpull, hrewrites, -⟩
  · exact ⟨fun _ => hdata, fun _ hbad => hbad.2 hdata⟩
  · cases (h hpull).symm.trans hrewrites

section
variable {env : Env} {maps : Maps} {skb : Skb} {g : EgressGeneve} {s : UInt32}

/-- The two requirements in terms of the rewrite alone. -/
theorem egressUndamaged_rewritten (hpull : env.skbFails 0 = false) (hrewrites : egressRewrites maps skb.data = some (g, s)) :
    EgressUndamaged env maps skb ↔
      ((egressStamp env (egressStart maps skb) g s).1 = true → failopenUnknownEnabled maps = true →
        (egressStamp env (egressStart maps skb) g s).2.skb.data = skb.data) ∧
      (((∃ c, bumpCall env maps skb g = some (true, c)) ∨ ∃ c, stampCall env maps skb g s = some (true, c)) →
        (egressStamp env (egressStart maps skb) g s).2.skb.data ≠ skb.data →
          (egressStamp env (egressStart maps skb) g s).1 = true ∧ failopenUnknownEnabled maps = false) := by
  have hfails : RewriteCallFails env maps skb ↔
      ((∃ c, bumpCall env maps skb g = some (true, c)) ∨ ∃ c, stampCall env maps skb g s = some (true, c)) := by
    constructor
    · rintro ⟨g', s', -, hrewrites', hcall⟩
      cases hrewrites.symm.trans hrewrites'
      exact hcall
    · exact fun hcall => ⟨g, s, hpull, hrewrites, hcall⟩
  rcases meridianTcEgress_cases env maps skb with ⟨hnone, -⟩ | ⟨g', s', -, hrewrites', hend⟩
  · cases (hnone hpull).symm.trans hrewrites
  · cases hrewrites.symm.trans hrewrites'
    rcases hend with ⟨hfailed, hexit, hskb⟩ | ⟨hstamped, heq⟩
    · constructor
      · rintro ⟨hopen, hrewrite⟩
        rw [hexit, failExit_eq_open, hskb] at hopen
        rw [hfails, hexit, failExit_action, hskb] at hrewrite
        refine ⟨fun _ => hopen, fun hcall hne => ⟨hfailed, ?_⟩⟩
        exact Bool.eq_false_iff.mpr fun hset => hrewrite hcall ⟨hset, hne⟩
      · rintro ⟨hopen, hrewrite⟩
        refine ⟨?_, ?_⟩
        · rw [hexit, failExit_eq_open, hskb]
          exact hopen hfailed
        · rw [hfails, hexit, failExit_action, hskb]
          rintro hcall ⟨hset, hne⟩
          exact Bool.eq_false_iff.mp (hrewrite hcall hne).2 hset
    · constructor
      · rintro ⟨-, hrewrite⟩
        rw [hfails, heq] at hrewrite
        refine ⟨fun hfailed => absurd (hstamped.symm.trans hfailed) Bool.false_ne_true, fun hcall hne => ?_⟩
        exact absurd ⟨rfl, hne⟩ (hrewrite hcall)
      · rintro ⟨-, hrewrite⟩
        refine ⟨fun hexit => ?_, ?_⟩
        · rw [heq] at hexit
          cases hexit
        · rw [hfails, heq]
          rintro hcall ⟨-, hne⟩
          exact absurd (hstamped.symm.trans (hrewrite hcall hne).1) Bool.false_ne_true

/-- Where a call fails exactly when the rewrite does, only the fail-open bit matters. -/
theorem egressUndamaged_iff_failOpen (hpull : env.skbFails 0 = false)
    (hrewrites : egressRewrites maps skb.data = some (g, s))
    (hcall : ((∃ c, bumpCall env maps skb g = some (true, c)) ∨ ∃ c, stampCall env maps skb g s = some (true, c)) →
      (egressStamp env (egressStart maps skb) g s).1 = true) :
    EgressUndamaged env maps skb ↔
      ((egressStamp env (egressStart maps skb) g s).1 = true → failopenUnknownEnabled maps = true →
        (egressStamp env (egressStart maps skb) g s).2.skb.data = skb.data) := by
  rw [egressUndamaged_rewritten hpull hrewrites]
  refine ⟨fun h => h.1, fun h => ⟨h, fun hfails hne => ⟨hcall hfails, ?_⟩⟩⟩
  exact Bool.eq_false_iff.mpr fun hset => hne (h (hcall hfails) hset)

/-! ### A reserved slot -/

/-- What a failed stamp leaves of the packet: nothing is written, or the option alone. -/
theorem stampCalls_prefix_eq_self_iff {fails : Nat → Bool} {n base geneve words : Nat} {d : List UInt8} (s : UInt32)
    (h : ¬AllSucceed fails n 3) :
    applyAll ((stampCalls base geneve words s).take (successes fails n 3)) d = d ↔
      fails n = true ∨ (d.drop base).take 8 = identityTlv s := by
  have hwrite : writeOption base s d = d ↔ (d.drop base).take 8 = identityTlv s :=
    overwrite_eq_self_iff.trans eq_comm
  rw [allSucceed_succ] at h
  rw [successes]
  cases hfirst : fails n with
  | true => exact iff_of_true rfl (Or.inl rfl)
  | false =>
    have hle : successes fails (n + 1) 2 < 2 := by
      have hrest : successes fails (n + 1) 2 ≠ 2 := fun heq => h ⟨hfirst, successes_eq_iff.mp heq⟩
      have := successes_le fails (n + 1) 2
      omega
    have hdata : applyAll ((stampCalls base geneve words s).take (successes fails (n + 1) 2 + 1)) d =
        writeOption base s d := by
      generalize successes fails (n + 1) 2 = k at hle
      rcases k with _ | _ | k
      · rfl
      · rfl
      · omega
    rw [if_neg Bool.false_ne_true, hdata, hwrite]
    simp

/-- With a reserved slot: under the fail-open bit the first call must fail, or none, unless the slot already holds the
    option. -/
theorem egressUndamaged_slot_iff (hpull : env.skbFails 0 = false) (hrewrites : egressRewrites maps skb.data = some (g, s))
    (hslot : g.reservedHeadroom = meridianGeneveOptBytes) :
    EgressUndamaged env maps skb ↔
      (failopenUnknownEnabled maps = true → env.skbFails 1 = true ∨ AllSucceed env.skbFails 2 2 ∨
        (skb.data.drop g.innerBase).take 8 = identityTlv s) := by
  have t := egressParse_tunnel (egressRewrites_tunnel hrewrites)
  have hstamp : egressStamp env (egressStart maps skb) g s =
      stampIdentityTlv env (egressStart maps skb) g.innerBase g.geneve g.optWords s := egressStamp_slot hslot s
  have hcall : ((∃ c, bumpCall env maps skb g = some (true, c)) ∨ ∃ c, stampCall env maps skb g s = some (true, c)) →
      (egressStamp env (egressStart maps skb) g s).1 = true := by
    rw [hstamp, stampCall, if_pos hslot, bumpCall, if_neg (by rw [hslot]; decide)]
    rintro (⟨c, hc⟩ | ⟨c, hc⟩)
    · cases hc
    · rw [Option.some.inj hc]
  have hattempt : egressStamp env (egressStart maps skb) g s =
      (egressStart maps skb).attempt env (stampCalls g.innerBase g.geneve g.optWords s) := by
    have hgeneve := t.geneve
    have hbase := t.base
    obtain ⟨hlen, -⟩ := looksLikeIpv4_iff.mp t.inner_bounds.1
    have hinner := t.inner_bounds.2
    simp only [sizeofIphdr] at hlen
    rw [hslot] at hinner
    rw [hstamp]
    refine stampIdentityTlv_eq_attempt _ _ (show g.innerBase + 8 ≤ skb.data.length from ?_) (by omega)
    rcases hinner with ⟨-, hip⟩ | ⟨hzero, -⟩
    · omega
    · cases hzero
  rw [egressUndamaged_iff_failOpen hpull hrewrites hcall, hattempt]
  by_cases hall : AllSucceed env.skbFails 1 3
  · rw [@Ctx.attempt_succeed env (egressStart maps skb) (stampCalls g.innerBase g.geneve g.optWords s) hall]
    exact iff_of_true (fun hno => absurd hno Bool.false_ne_true) fun _ => Or.inr (Or.inl (allSucceed_succ.mp hall).2)
  · have hleft := @stampCalls_prefix_eq_self_iff env.skbFails 1 g.innerBase g.geneve g.optWords skb.data s hall
    rw [@Ctx.attempt_fail env (egressStart maps skb) (stampCalls g.innerBase g.geneve g.optWords s) hall]
    constructor
    · intro h hopen
      rcases hleft.mp (h rfl hopen) with hfirst | hheld
      · exact Or.inl hfirst
      · exact Or.inr (Or.inr hheld)
    · intro h _ hopen
      refine hleft.mpr ?_
      rcases h hopen with hfirst | hrest | hheld
      · exact Or.inl hfirst
      · refine Or.inl (Bool.of_not_eq_false fun hfirst => ?_)
        exact hall (allSucceed_succ.mpr ⟨hfirst, hrest⟩)
      · exact Or.inr hheld

/-! ### Insertion -/

/-- Once the packet has grown it stays longer by the option, however far the headers are moved. -/
theorem length_insertCalls_prefix {d : List UInt8} {room k : Nat} (hroom : room ≤ d.length) (hk : k ≤ 1 + 2 * room) :
    (applyAll ((insertCalls room).take (k + 2)) d).length = d.length + 8 := by
  have hgrown : (growHead d).length = d.length + 8 := by
    rw [growHead, List.length_append, List.length_replicate]
    exact Nat.add_comm _ _
  cases k with
  | zero => exact hgrown
  | succ k =>
    have hpart : (insertCalls room).take (k + 1 + 2) = [id, growHead, id] ++ (moveCalls 8 0 room).take k := rfl
    rw [hpart, applyAll_append, applyAll_take_moveCalls (by omega)]
    change (applyAll (moveCalls 8 0 (k / 2)) (growHead d)).length = _
    rw [length_applyAll_moveCalls (Nat.zero_le _) (by omega), hgrown]

theorem insertCalls_prefix_eq_self_iff {fails : Nat → Bool} {n room : Nat} {d : List UInt8} (hroom : room ≤ d.length) :
    applyAll ((insertCalls room).take (successes fails n (3 + 2 * room))) d = d ↔ fails n = true ∨ fails (n + 1) = true := by
  have hcount : 3 + 2 * room = 1 + 2 * room + 1 + 1 := by omega
  rw [hcount, successes, successes]
  cases hfirst : fails n with
  | true => exact iff_of_true rfl (Or.inl rfl)
  | false =>
    cases hsecond : fails (n + 1) with
    | true => exact iff_of_true rfl (Or.inr rfl)
    | false =>
      refine iff_of_false (fun heq => ?_) (by simp)
      have hlen := congrArg List.length heq
      rw [if_neg Bool.false_ne_true, if_neg Bool.false_ne_true,
        length_insertCalls_prefix hroom (successes_le _ _ _)] at hlen
      omega

@[simp] theorem length_insertCalls (room : Nat) : (insertCalls room).length = 3 + 2 * room := by
  rw [insertCalls, List.length_append, length_moveCalls]
  rfl

/-- How many calls the length update makes. -/
def bumpCount (d : List UInt8) (udp : Nat) : Nat := if loadU16 d (udp + 6) = 0 then 6 else 7

theorem length_bumpCalls (m : List UInt8) (outerIp udp : Nat) : (bumpCalls m outerIp udp).length = bumpCount m udp := by
  unfold bumpCalls bumpCount
  by_cases hcheck : loadU16 m (udp + 6) = 0
  · rw [if_pos hcheck, if_neg (not_not.mpr hcheck)]
    rfl
  · rw [if_neg hcheck, if_pos hcheck]
    rfl

theorem stampIdentityTlv_length (env : Env) (c : Ctx) (stampOff geneveOff optWords : Nat) (s : UInt32) :
    (stampIdentityTlv env c stampOff geneveOff optWords s).2.skb.data.length = c.skb.data.length := by
  let P : Ctx → Prop := fun c' => SameOff (fun _ => True) c.skb.data c'.skb.data
  have hstore : ∀ (c' : Ctx) (off : Nat) (src : List UInt8), P c' → P (bpfSkbStoreBytes env c' off src).2 :=
    fun c' off src h =>
    h.trans (bpfSkbStoreBytes_sameOff fun _ _ _ => trivial)
  have hall : P (stampIdentityTlv env c stampOff geneveOff optWords s).2 := by
    refine orFail_invariant (P := P) (hstore c _ _ (SameOff.refl _ _)) fun c₁ h₁ => ?_
    exact orFailLoad_invariant (P := P) (h₁.trans bpfSkbLoadBytes_sameOff) fun _ c₂ h₂ => hstore c₂ _ _ h₂
  exact hall.length

/-- The patterns of failures that an insertion survives, for a slot at `room` and `updates` calls of the length update:
    one of the first two calls fails, before the packet grows; or, under the fail-open bit, no call fails; or, without
    it, the headers cannot all be moved, the length update succeeds, or the stamp behind it fails too. -/
def InsertionSafe (fails : Nat → Bool) (opened : Bool) (room updates : Nat) : Prop :=
  fails 1 = true ∨ fails 2 = true ∨
    if opened then AllSucceed fails 3 (1 + 2 * room + (updates + 3))
    else ¬AllSucceed fails 3 (1 + 2 * room) ∨ AllSucceed fails (4 + 2 * room) updates ∨
      ¬AllSucceed fails (5 + 2 * room + successes fails (4 + 2 * room) updates) 3

/-- The insertion fails: the length update and the stamp are not reached. -/
theorem egressUndamaged_insertFailed (hpull : env.skbFails 0 = false) (hrewrites : egressRewrites maps skb.data = some (g, s))
    (hres : g.reservedHeadroom = 0)
    (hfailed : (insertInnerTlvRoom env (egressStart maps skb) g.innerBase g.outerIp).1 = true) :
    EgressUndamaged env maps skb ↔ (failopenUnknownEnabled maps = true →
      (insertInnerTlvRoom env (egressStart maps skb) g.innerBase g.outerIp).2.skb.data = skb.data) := by
  have hbump : bumpCall env maps skb g = none := by
    rw [bumpCall, if_pos hres]
    generalize insertInnerTlvRoom env (egressStart maps skb) g.innerBase g.outerIp = r at hfailed
    obtain ⟨failed, c⟩ := r
    cases hfailed
    rfl
  have hstamp : egressStamp env (egressStart maps skb) g s =
      insertInnerTlvRoom env (egressStart maps skb) g.innerBase g.outerIp := egressStamp_insertFailed hres hfailed s
  rw [egressUndamaged_iff_failOpen hpull hrewrites fun _ => hstamp ▸ hfailed, hstamp]
  exact ⟨fun h => h hfailed, fun h _ => h⟩

/-- The insertion succeeds: from here on the packet differs from the one that came. -/
theorem egressUndamaged_insertDone {c₁ : Ctx} (hpull : env.skbFails 0 = false)
    (hrewrites : egressRewrites maps skb.data = some (g, s)) (hres : g.reservedHeadroom = 0)
    (hdone : insertInnerTlvRoom env (egressStart maps skb) g.innerBase g.outerIp = (false, c₁)) :
    EgressUndamaged env maps skb ↔
      ((stampIdentityTlv env (bumpUdpGeneveLengths env c₁ g.outerIp g.udp).2 g.innerBase g.geneve g.optWords s).1 = true →
        failopenUnknownEnabled maps = false) ∧
      (¬(stampIdentityTlv env (bumpUdpGeneveLengths env c₁ g.outerIp g.udp).2 g.innerBase g.geneve g.optWords s).1 = true →
        (bumpUdpGeneveLengths env c₁ g.outerIp g.udp).1 = false) := by
  have t := egressParse_tunnel (egressRewrites_tunnel hrewrites)
  have hne : ¬g.reservedHeadroom = meridianGeneveOptBytes := by
    rw [hres]
    decide
  have hstamp : egressStamp env (egressStart maps skb) g s =
      stampIdentityTlv env (bumpUdpGeneveLengths env c₁ g.outerIp g.udp).2 g.innerBase g.geneve g.optWords s := by
    rw [egressStamp_noSlot hres, hdone]
    rfl
  have hbump : bumpCall env maps skb g = some (bumpUdpGeneveLengths env c₁ g.outerIp g.udp) := by
    rw [bumpCall, if_pos hres, hdone]
  have hcall : stampCall env maps skb g s = some (egressStamp env (egressStart maps skb) g s) := by
    rw [stampCall, if_neg hne, hbump, hstamp]
    rfl
  have hdata : (egressStamp env (egressStart maps skb) g s).2.skb.data ≠ skb.data := by
    intro heq
    have hmoved : (movedHead (egressStart maps skb).skb.data g.innerBase).length = skb.data.length + 8 :=
      length_movedHead t.inside
    have hlen := congrArg List.length heq
    rw [hstamp, stampIdentityTlv_length, (bumpUdpGeneveLengths_sameOff env c₁ g.outerIp g.udp).length,
      insertInnerTlvRoom_moves hdone, hmoved] at hlen
    omega
  rw [egressUndamaged_rewritten hpull hrewrites, hbump, hcall]
  rw [hstamp] at hdata ⊢
  generalize bumpUdpGeneveLengths env c₁ g.outerIp g.udp = bump at hdata
  generalize stampIdentityTlv env bump.2 g.innerBase g.geneve g.optWords s = stamp at hdata
  obtain ⟨bumpFailed, c₂⟩ := bump
  obtain ⟨stampFailed, c₃⟩ := stamp
  cases stampFailed with
  | true =>
    constructor
    · rintro ⟨-, hrewrite⟩
      exact ⟨fun _ => (hrewrite (Or.inr ⟨c₃, rfl⟩) hdata).2, fun hno => absurd rfl hno⟩
    · rintro ⟨hclosed, -⟩
      exact ⟨fun _ hopen => absurd hopen (Bool.eq_false_iff.mp (hclosed rfl)), fun _ _ => ⟨rfl, hclosed rfl⟩⟩
  | false =>
    constructor
    · rintro ⟨-, hrewrite⟩
      refine ⟨fun hno => absurd hno Bool.false_ne_true, fun _ => Bool.eq_false_iff.mpr fun hfailed => ?_⟩
      cases hfailed
      exact absurd (hrewrite (Or.inl ⟨c₂, rfl⟩) hdata).1 Bool.false_ne_true
    · rintro ⟨-, hok⟩
      cases hok Bool.false_ne_true
      refine ⟨fun hno => absurd hno Bool.false_ne_true, ?_⟩
      rintro (⟨c, hc⟩ | ⟨c, hc⟩) <;> cases hc

/-! The patterns, by how far the calls get. -/

section
variable {fails : Nat → Bool} {opened : Bool} {room updates : Nat}

theorem allSucceed_insert_iff : AllSucceed fails 1 (3 + 2 * room) ↔
    fails 1 = false ∧ fails 2 = false ∧ AllSucceed fails 3 (1 + 2 * room) := by
  rw [show 3 + 2 * room = 1 + 2 * room + 1 + 1 by omega, allSucceed_succ, allSucceed_succ]

theorem allSucceed_insertion_iff : AllSucceed fails 3 (1 + 2 * room + (updates + 3)) ↔
    AllSucceed fails 3 (1 + 2 * room) ∧ AllSucceed fails (4 + 2 * room) updates ∧
      AllSucceed fails (4 + 2 * room + updates) 3 := by
  rw [allSucceed_add, show 3 + (1 + 2 * room) = 4 + 2 * room by omega, @allSucceed_add _ (4 + 2 * room) updates 3]

/-- The headers are not all moved. -/
theorem insertionSafe_notMoved (h : ¬AllSucceed fails 1 (3 + 2 * room)) :
    InsertionSafe fails opened room updates ↔ (opened = true → fails 1 = true ∨ fails 2 = true) := by
  unfold InsertionSafe
  rw [allSucceed_insert_iff] at h
  rw [allSucceed_insertion_iff]
  cases h1 : fails 1 with
  | true => simp
  | false =>
    cases h2 : fails 2 with
    | true => simp
    | false =>
      have hmoves : ¬AllSucceed fails 3 (1 + 2 * room) := fun h3 => h ⟨h1, h2, h3⟩
      cases opened <;> simp [hmoves]

/-- The lengths are updated: only the stamp can fail. -/
theorem insertionSafe_updated (hmoved : AllSucceed fails 1 (3 + 2 * room)) (h : AllSucceed fails (4 + 2 * room) updates) :
    InsertionSafe fails opened room updates ↔ (¬AllSucceed fails (4 + 2 * room + updates) 3 → opened = false) := by
  obtain ⟨h1, h2, h3⟩ := allSucceed_insert_iff.mp hmoved
  unfold InsertionSafe
  rw [allSucceed_insertion_iff]
  by_cases hlast : AllSucceed fails (4 + 2 * room + updates) 3 <;> cases opened <;> simp [h1, h2, h3, h, hlast]

/-- A call of the length update fails: the packet must not pass. -/
theorem insertionSafe_notUpdated (hmoved : AllSucceed fails 1 (3 + 2 * room))
    (h : ¬AllSucceed fails (4 + 2 * room) updates) :
    InsertionSafe fails opened room updates ↔
      ¬AllSucceed fails (5 + 2 * room + successes fails (4 + 2 * room) updates) 3 ∧ opened = false := by
  obtain ⟨h1, h2, h3⟩ := allSucceed_insert_iff.mp hmoved
  unfold InsertionSafe
  rw [allSucceed_insertion_iff]
  cases opened <;> simp [h1, h2, h3, h]

end

/-- The length update on a packet whose headers were moved: whether it fails, and how many calls were made then. -/
theorem bumpUdpGeneveLengths_moved (t : Tunnel skb.data g) {c₁ : Ctx} (hc₁ : c₁.skb.data = movedHead skb.data g.innerBase) :
    (AllSucceed env.skbFails c₁.skbCalls (bumpCount skb.data g.udp) →
      (bumpUdpGeneveLengths env c₁ g.outerIp g.udp).1 = false ∧
        (bumpUdpGeneveLengths env c₁ g.outerIp g.udp).2.skbCalls = c₁.skbCalls + bumpCount skb.data g.udp) ∧
    (¬AllSucceed env.skbFails c₁.skbCalls (bumpCount skb.data g.udp) →
      (bumpUdpGeneveLengths env c₁ g.outerIp g.udp).1 = true ∧
        (bumpUdpGeneveLengths env c₁ g.outerIp g.udp).2.skbCalls =
          c₁.skbCalls + (successes env.skbFails c₁.skbCalls (bumpCount skb.data g.udp) + 1)) := by
  have hgeneve := t.geneve
  have hbase := t.base
  have hinside := t.inside
  have hlen₁ : c₁.skb.data.length = skb.data.length + 8 := hc₁ ▸ length_movedHead hinside
  have hcheck : loadU16 c₁.skb.data (g.udp + 6) = loadU16 skb.data (g.udp + 6) := by
    rw [hc₁]
    exact loadU16_congr (byteAt_movedHead_lt hinside (by omega)) (byteAt_movedHead_lt hinside (by omega))
  have hcount : (bumpCalls c₁.skb.data g.outerIp g.udp).length = bumpCount skb.data g.udp := by
    rw [length_bumpCalls, bumpCount, bumpCount, hcheck]
  rw [@bumpUdpGeneveLengths_eq_attempt env c₁ g.outerIp g.udp t.udp_ge t.udp_even (by omega)]
  constructor
  · intro hall
    rw [Ctx.attempt_succeed (by rw [hcount]; exact hall), hcount]
    exact ⟨rfl, rfl⟩
  · intro hfail
    rw [Ctx.attempt_fail (by rw [hcount]; exact hfail), hcount]
    exact ⟨rfl, rfl⟩

/-- The stamp behind the length update fails exactly when one of its three calls does. -/
theorem stampIdentityTlv_failed_iff (t : Tunnel skb.data g) {c₁ : Ctx}
    (hc₁ : c₁.skb.data = movedHead skb.data g.innerBase) :
    (stampIdentityTlv env (bumpUdpGeneveLengths env c₁ g.outerIp g.udp).2 g.innerBase g.geneve g.optWords s).1 = true ↔
      ¬AllSucceed env.skbFails (bumpUdpGeneveLengths env c₁ g.outerIp g.udp).2.skbCalls 3 := by
  have hgeneve := t.geneve
  have hbase := t.base
  have hinside := t.inside
  have hlen₁ : c₁.skb.data.length = skb.data.length + 8 := hc₁ ▸ length_movedHead hinside
  have hlen₂ := (bumpUdpGeneveLengths_sameOff env c₁ g.outerIp g.udp).length
  rw [stampIdentityTlv_eq_attempt _ _ (by omega) (by omega)]
  exact attempt_failed_iff

/-- Insertion is safe exactly under these patterns of failures. -/
theorem egressUndamaged_inserted_iff (hpull : env.skbFails 0 = false)
    (hrewrites : egressRewrites maps skb.data = some (g, s)) (hres : g.reservedHeadroom = 0)
    (hfits : RoomFits skb.data g.innerBase g.outerIp) :
    EgressUndamaged env maps skb ↔
      InsertionSafe env.skbFails (failopenUnknownEnabled maps) g.innerBase (bumpCount skb.data g.udp) := by
  have t := egressParse_tunnel (egressRewrites_tunnel hrewrites)
  have hinside := t.inside
  have hinsert := @insertInnerTlvRoom_eq_attempt env (egressStart maps skb) g.innerBase g.outerIp hfits
  by_cases hall : AllSucceed env.skbFails 1 (3 + 2 * g.innerBase)
  · let c₁ := (egressStart maps skb).after (movedHead skb.data g.innerBase) (3 + 2 * g.innerBase)
    have hdone : insertInnerTlvRoom env (egressStart maps skb) g.innerBase g.outerIp = (false, c₁) := by
      rw [hinsert, Ctx.attempt_succeed (by rw [length_insertCalls]; exact hall), length_insertCalls,
        show (egressStart maps skb).skb.data = skb.data from rfl, applyAll_insertCalls hinside]
    have hn₁ : c₁.skbCalls = 4 + 2 * g.innerBase := by
      show 1 + (3 + 2 * g.innerBase) = _
      omega
    obtain ⟨hupdates, hfails⟩ := @bumpUdpGeneveLengths_moved env skb g t c₁ rfl
    rw [hn₁] at hupdates hfails
    rw [egressUndamaged_insertDone hpull hrewrites hres hdone, @stampIdentityTlv_failed_iff env skb g s t c₁ rfl, not_not]
    by_cases hupdate : AllSucceed env.skbFails (4 + 2 * g.innerBase) (bumpCount skb.data g.udp)
    · obtain ⟨hok, hcalls⟩ := hupdates hupdate
      rw [insertionSafe_updated hall hupdate, hok, hcalls]
      simp
    · obtain ⟨hfailed, hcalls⟩ := hfails hupdate
      rw [insertionSafe_notUpdated hall hupdate, hfailed, hcalls,
        show 4 + 2 * g.innerBase + (successes env.skbFails (4 + 2 * g.innerBase) (bumpCount skb.data g.udp) + 1) =
          5 + 2 * g.innerBase + successes env.skbFails (4 + 2 * g.innerBase) (bumpCount skb.data g.udp) by omega]
      tauto
  · have hfailed : (insertInnerTlvRoom env (egressStart maps skb) g.innerBase g.outerIp).1 = true := by
      rw [hinsert, Ctx.attempt_fail (by rw [length_insertCalls]; exact hall)]
    rw [insertionSafe_notMoved hall, egressUndamaged_insertFailed hpull hrewrites hres hfailed, hinsert,
      Ctx.attempt_fail (by rw [length_insertCalls]; exact hall), length_insertCalls]
    have hleft := @insertCalls_prefix_eq_self_iff env.skbFails 1 g.innerBase skb.data hinside
    exact imp_congr_right fun _ => hleft

/-- The patterns of failures under which egress passes no damaged packet. -/
def EgressSafe (env : Env) (maps : Maps) (skb : Skb) : Prop :=
  ∀ g s, env.skbFails 0 = false → egressRewrites maps skb.data = some (g, s) →
    (g.reservedHeadroom = meridianGeneveOptBytes → failopenUnknownEnabled maps = true →
      env.skbFails 1 = true ∨ AllSucceed env.skbFails 2 2 ∨ (skb.data.drop g.innerBase).take 8 = identityTlv s) ∧
    (g.reservedHeadroom = 0 → RoomFits skb.data g.innerBase g.outerIp →
      InsertionSafe env.skbFails (failopenUnknownEnabled maps) g.innerBase (bumpCount skb.data g.udp))

theorem egressUndamaged_iff (env : Env) (maps : Maps) (skb : Skb) :
    EgressUndamaged env maps skb ↔ EgressSafe env maps skb := by
  by_cases hstarts : env.skbFails 0 = false → egressRewrites maps skb.data = none
  · refine iff_of_true (egressUndamaged_leftAlone hstarts) fun g s hpull hrewrites => ?_
    cases (hstarts hpull).symm.trans hrewrites
  · rw [Classical.not_imp] at hstarts
    obtain ⟨hpull, hsome⟩ := hstarts
    obtain ⟨⟨g, s⟩, hrewrites⟩ := Option.ne_none_iff_exists'.mp hsome
    have t := egressParse_tunnel (egressRewrites_tunnel hrewrites)
    have hsafe : EgressSafe env maps skb ↔
        (g.reservedHeadroom = meridianGeneveOptBytes → failopenUnknownEnabled maps = true →
          env.skbFails 1 = true ∨ AllSucceed env.skbFails 2 2 ∨ (skb.data.drop g.innerBase).take 8 = identityTlv s) ∧
        (g.reservedHeadroom = 0 → RoomFits skb.data g.innerBase g.outerIp →
          InsertionSafe env.skbFails (failopenUnknownEnabled maps) g.innerBase (bumpCount skb.data g.udp)) := by
      refine ⟨fun h => h g s hpull hrewrites, fun h g' s' _ hrewrites' => ?_⟩
      cases hrewrites.symm.trans hrewrites'
      exact h
    rw [hsafe]
    rcases t.inner_bounds.2 with ⟨hslot, -⟩ | ⟨hres, -⟩
    · rw [egressUndamaged_slot_iff hpull hrewrites hslot]
      refine ⟨fun h => ⟨fun _ => h, fun hzero => ?_⟩, fun h => h.1 hslot⟩
      cases hslot.symm.trans hzero
    · by_cases hfits : RoomFits skb.data g.innerBase g.outerIp
      · rw [egressUndamaged_inserted_iff hpull hrewrites hres hfits]
        refine ⟨fun h => ⟨fun hslot => ?_, fun _ _ => h⟩, fun h => h.2 hres hfits⟩
        cases hres.symm.trans hslot
      · obtain ⟨hfailed, hdata⟩ := @insertInnerTlvRoom_unfit env (egressStart maps skb) _ _ hfits
        rw [egressUndamaged_insertFailed hpull hrewrites hres hfailed]
        refine iff_of_true (fun _ => hdata) ⟨fun hslot => ?_, fun _ h => absurd h hfits⟩
        cases hres.symm.trans hslot

end

/-! ### Stripping -/

/-- The tunnel frame that ingress strips: it has the option, its inner ports can be read, and it is passed. -/
def ingressStrips (m : Maps) (d : List UInt8) : Option Nat :=
  match ingressParse d with
  | .tunnel outerIp ⟨innerIp, some srcId⟩ =>
    if (parseL4Ports d innerIp).isSome ∧ (flowExit m d innerIp (some (some srcId))).action = .ok then some outerIp else none
  | _ => none

/-- `strip_meridian_tlv` in the run of ingress, if it is called. The maps, which it does not read, are those at the
    start. -/
def stripCall (env : Env) (maps : Maps) (skb : Skb) : Option (Bool × Ctx) :=
  (ingressStrips maps skb.data).map fun outerIp =>
    match stripOffsets env (ingressStart maps skb) skb.data outerIp with
    | (offs, c) => stripMeridianTlv env c offs

/-- A packet on which the strip fails is as it came, or it is not passed. -/
def IngressUndamaged (env : Env) (maps : Maps) (skb : Skb) : Prop :=
  env.skbFails 0 = false → (∃ c, stripCall env maps skb = some (true, c)) →
    (meridianTcIngress env maps skb).2.skb.data = skb.data ∨ (meridianTcIngress env maps skb).1.action ≠ .ok

theorem take_drop_eq_iff {d : List UInt8} {i i' m : Nat} (h : i + m ≤ d.length) (h' : i' + m ≤ d.length) :
    (d.drop i).take m = (d.drop i').take m ↔ ∀ j < m, byteAt d (i + j) = byteAt d (i' + j) := by
  have hbyte : ∀ {k j}, j < m → byteAt ((d.drop k).take m) j = byteAt d (k + j) := fun hj => by
    rw [byteAt_take hj, byteAt_drop]
  constructor
  · intro heq j hj
    rw [← hbyte hj, heq, hbyte hj]
  · intro hall
    refine ext_byteAt (by simp only [List.length_take, List.length_drop]; omega) fun j hj => ?_
    rw [List.length_take] at hj
    rw [hbyte (by omega), hbyte (by omega), hall j (by omega)]

/-- The first moves of the strip leave the packet as it was exactly when the bytes moved equal those eight before. -/
theorem moveCalls_eq_self_iff {d : List UInt8} {base m : Nat} (hbase : 8 ≤ base) (h : base + m ≤ d.length) :
    applyAll (moveCalls base (base - 8) m) d = d ↔ ∀ j < m, byteAt d (base + j) = byteAt d (base - 8 + j) := by
  have hlen : ((d.drop base).take m).length = m := by
    rw [List.length_take, List.length_drop]
    omega
  rw [applyAll_moveCalls (by omega) h, overwrite_eq_self_iff, hlen, take_drop_eq_iff h (by omega)]

section
variable {d : List UInt8} {outerIp : Nat} {loaded : Bool}

/-- Before the option length is cleared only bytes have been moved. -/
theorem stripCalls_prefix_moves {o : StripOffsets} {innerLen j : Nat} (hj : j < 2 * innerLen + 2) :
    applyAll ((stripCalls o innerLen).take j) d =
      applyAll (moveCalls o.innerBaseOff (o.innerBaseOff - 8) (j / 2)) d := by
  by_cases hmoves : j ≤ 2 * innerLen
  · rw [stripCalls, List.take_append_of_le_length (by rw [length_moveCalls]; exact hmoves), applyAll_take_moveCalls hmoves]
  · have hlast : j = (moveCalls o.innerBaseOff (o.innerBaseOff - 8) innerLen).length + 1 := by
      rw [length_moveCalls]
      omega
    rw [stripCalls, hlast, List.take_length_add_append, applyAll_append, length_moveCalls,
      show (2 * innerLen + 1) / 2 = innerLen by omega]
    rfl

/-- Once the option length is cleared it stays zero. -/
theorem stripCalls_prefix_cleared (h : TunnelFrame d outerIp) {innerLen j : Nat}
    (hinner : (tunnelOffsets d outerIp loaded).innerBaseOff + innerLen ≤ d.length) (hj : 2 * innerLen + 2 ≤ j) :
    (byteAt (applyAll ((stripCalls (tunnelOffsets d outerIp loaded) innerLen).take j) d)
      (ipPayload d outerIp + 8)).toNat % 64 = 0 := by
  have hudp := h.udp_ge
  have hlen := h.length
  obtain ⟨k, rfl⟩ : ∃ k, j = (moveCalls (tunnelOffsets d outerIp loaded).innerBaseOff
      ((tunnelOffsets d outerIp loaded).innerBaseOff - 8) innerLen).length + (k + 2) :=
    ⟨j - (2 * innerLen + 2), by rw [length_moveCalls]; omega⟩
  rw [stripCalls, List.take_length_add_append, applyAll_append]
  have hmoved := @length_applyAll_moveCalls d _ _ innerLen (Nat.sub_le (tunnelOffsets d outerIp loaded).innerBaseOff 8) hinner
  generalize applyAll (moveCalls _ _ innerLen) d = moved at hmoved
  change (byteAt (applyAll ([id, lowerWord (outerIp + 2), id, lowerWord (ipPayload d outerIp + 4)].take k)
    (clearOptionLength (ipPayload d outerIp + 8) moved)) (ipPayload d outerIp + 8)).toNat % 64 = 0
  have hlength := @length_clearOptionLength (ipPayload d outerIp + 8) moved (by omega)
  have hclear : (byteAt (clearOptionLength (ipPayload d outerIp + 8) moved) (ipPayload d outerIp + 8)).toNat % 64 = 0 := by
    have hbyte := @byteAt_overwrite_mid moved [byteAt moved (ipPayload d outerIp + 8) &&& 0xc0] (ipPayload d outerIp + 8) 0
      (show ipPayload d outerIp + 8 + 1 ≤ _ by omega) Nat.one_pos
    rw [clearOptionLength, hbyte]
    exact clearedOptions _
  -- The two length fields stand before the Geneve header.
  have hlower : ∀ {x : List UInt8} {off : Nat}, x.length = d.length → off + 2 ≤ ipPayload d outerIp + 8 →
      byteAt (lowerWord off x) (ipPayload d outerIp + 8) = byteAt x (ipPayload d outerIp + 8) := fun hx hoff =>
    byteAt_overwrite_ge (show _ + 2 ≤ _ by omega) hoff
  generalize clearOptionLength (ipPayload d outerIp + 8) moved = cleared at hlength hclear
  have htotal := @length_lowerWord (outerIp + 2) cleared (by omega)
  have hone : byteAt (lowerWord (outerIp + 2) cleared) (ipPayload d outerIp + 8) = byteAt cleared (ipPayload d outerIp + 8) :=
    hlower (by omega) (by omega)
  rcases k with _ | _ | _ | _ | k
  · exact hclear
  · exact hclear
  · exact hone ▸ hclear
  · exact hone ▸ hclear
  · rw [List.take_of_length_le (Nat.le_add_left 4 k)]
    change (byteAt (lowerWord (ipPayload d outerIp + 4) (lowerWord (outerIp + 2) cleared)) _).toNat % 64 = 0
    rw [hlower (by omega) (by omega), hone, hclear]

/-- What a failed strip leaves is the packet that came exactly when only bytes were moved, onto equal ones. -/
theorem stripCalls_prefix_eq_self_iff (h : TunnelFrame d outerIp) (hwords : 2 ≤ geneveWords d outerIp) {innerLen j : Nat}
    (hinner : (tunnelOffsets d outerIp loaded).innerBaseOff + innerLen ≤ d.length) :
    applyAll ((stripCalls (tunnelOffsets d outerIp loaded) innerLen).take j) d = d ↔
      j < 2 * innerLen + 2 ∧ ∀ i < j / 2, byteAt d ((tunnelOffsets d outerIp loaded).innerBaseOff + i) =
        byteAt d ((tunnelOffsets d outerIp loaded).innerBaseOff - 8 + i) := by
  by_cases hj : j < 2 * innerLen + 2
  · have hbase : 8 ≤ (tunnelOffsets d outerIp loaded).innerBaseOff := by
      simp only [tunnelOffsets]
      omega
    rw [stripCalls_prefix_moves hj, moveCalls_eq_self_iff hbase (by omega), and_iff_right hj]
  · refine iff_of_false (fun heq => ?_) fun hand => hj hand.1
    have hcleared := stripCalls_prefix_cleared h hinner (Nat.le_of_not_lt hj)
    rw [heq] at hcleared
    change geneveWords d outerIp = 0 at hcleared
    omega

@[simp] theorem length_stripCalls (o : StripOffsets) (innerLen : Nat) : (stripCalls o innerLen).length = 2 * innerLen + 6 := by
  rw [stripCalls, List.length_append, length_moveCalls]
  rfl

/-- The patterns of failures that a strip survives, for a payload from `base` on: it is too long to be moved, the first
    call fails, no call fails, or a call fails before the option length is cleared and every byte moved until then was
    equal to the one eight before. -/
def StripSafe (fails : Nat → Bool) (d : List UInt8) (base : Nat) : Prop :=
  d.length - base ≤ meridianStripMaxLen →
    fails 2 = true ∨ AllSucceed fails 3 (2 * (d.length - base) + 6) ∨
      (successes fails 3 (2 * (d.length - base) + 6) < 2 * (d.length - base) + 2 ∧
        ∀ i < successes fails 3 (2 * (d.length - base) + 6) / 2, byteAt d (base + i) = byteAt d (base - 8 + i))

/-- A strip that fails leaves the packet as it came exactly under these patterns. -/
theorem stripScript_undamaged_iff {fails : Nat → Bool} (h : TunnelFrame d outerIp) (hwords : 2 ≤ geneveWords d outerIp) :
    ((d.length - (tunnelOffsets d outerIp loaded).innerBaseOff ≤ meridianStripMaxLen →
        (attempt fails (stripScript d (tunnelOffsets d outerIp loaded)) 2 d).1 = true) →
      (attempt fails (stripScript d (tunnelOffsets d outerIp loaded)) 2 d).2.2 = d) ↔
      StripSafe fails d (tunnelOffsets d outerIp loaded).innerBaseOff := by
  have hinside := h.base_le loaded
  unfold stripScript StripSafe
  by_cases hshort : d.length - (tunnelOffsets d outerIp loaded).innerBaseOff ≤ meridianStripMaxLen
  · rw [if_pos hshort, attempt]
    simp only [hshort, true_imp_iff]
    cases fails 2 with
    | true => exact iff_of_true (fun _ => rfl) (Or.inl rfl)
    | false =>
      rw [if_neg Bool.false_ne_true]
      have hself := @stripCalls_prefix_eq_self_iff d outerIp loaded h hwords
        (d.length - (tunnelOffsets d outerIp loaded).innerBaseOff)
        (successes fails 3 (2 * (d.length - (tunnelOffsets d outerIp loaded).innerBaseOff) + 6)) (by omega)
      by_cases hall : AllSucceed fails 3
          (stripCalls (tunnelOffsets d outerIp loaded) (d.length - (tunnelOffsets d outerIp loaded).innerBaseOff)).length
      · rw [attempt_of_succeed hall]
        rw [length_stripCalls] at hall
        exact iff_of_true (fun hfalse => absurd hfalse Bool.false_ne_true) (Or.inr (Or.inl hall))
      · rw [attempt_of_fail hall]
        rw [length_stripCalls] at hall ⊢
        simp only [hall, false_or, Bool.false_eq_true, true_imp_iff]
        exact hself
  · have hleft : (attempt fails [(id : Call)] 2 d).2.2 = d := by
      rw [attempt]
      cases fails 2 <;> rfl
    rw [if_neg hshort]
    exact iff_of_true (fun _ => hleft) fun hle => absurd hle hshort

end

/-- The patterns of failures under which ingress passes no damaged packet. -/
def IngressSafe (env : Env) (maps : Maps) (skb : Skb) : Prop :=
  ∀ outerIp, env.skbFails 0 = false → ingressStrips maps skb.data = some outerIp →
    StripSafe env.skbFails skb.data (tunnelOffsets skb.data outerIp (!env.skbFails 1)).innerBaseOff

theorem ingressStrips_eq_some {m : Maps} {d : List UInt8} {outerIp : Nat} (h : ingressStrips m d = some outerIp) :
    ∃ innerIp srcId, ingressParse d = .tunnel outerIp ⟨innerIp, some srcId⟩ ∧ (parseL4Ports d innerIp).isSome = true ∧
      (flowExit m d innerIp (some (some srcId))).action = .ok := by
  unfold ingressStrips at h
  split at h
  · next ip innerIp srcId hparse =>
    by_cases hpassed : (parseL4Ports d innerIp).isSome ∧ (flowExit m d innerIp (some (some srcId))).action = .ok
    · rw [if_pos hpassed] at h
      cases h
      exact ⟨innerIp, srcId, hparse, hpassed⟩
    · rw [if_neg hpassed] at h
      cases h
  · cases h

section
variable {env : Env} {maps : Maps} {skb : Skb} {outerIp : Nat}

/-- A frame that is stripped is passed, with what the strip leaves of it. -/
theorem meridianTcIngress_strips (hpull : env.skbFails 0 = false) (hstrips : ingressStrips maps skb.data = some outerIp) :
    (meridianTcIngress env maps skb).1.action = .ok ∧ (meridianTcIngress env maps skb).2.skb.data =
      (attempt env.skbFails (stripScript skb.data (tunnelOffsets skb.data outerIp (!env.skbFails 1))) 2 skb.data).2.2 := by
  obtain ⟨innerIp, srcId, hparse, hports, hok⟩ := ingressStrips_eq_some hstrips
  have haction : (meridianTcIngress env maps skb).1.action = .ok := by
    rw [meridianTcIngress_exit maps skb hpull, ingressExit, hparse]
    exact hok
  refine ⟨haction, ?_⟩
  rcases meridianTcIngress_cases env maps skb with ⟨hdropped, -⟩ | ⟨-, hdata, -⟩
  · exact absurd haction hdropped
  · rw [hdata, passedData, hpull, hparse]
    exact if_pos hports

/-- The strip starts after two calls, the pull and the load of the option length. -/
theorem stripCall_eq (hstrips : ingressStrips maps skb.data = some outerIp) (htunnel : TunnelFrame skb.data outerIp) :
    stripCall env maps skb = some (stripMeridianTlv env { ingressStart maps skb with skbCalls := 2 }
      (tunnelOffsets skb.data outerIp (!env.skbFails 1))) := by
  have hoffs : stripOffsets env (ingressStart maps skb) skb.data outerIp =
      (tunnelOffsets skb.data outerIp (!env.skbFails 1), { ingressStart maps skb with skbCalls := 2 }) :=
    stripOffsets_eq htunnel.toGeneveHeader
  rw [stripCall, hstrips, Option.map_some, hoffs]

end

theorem ingressUndamaged_iff (env : Env) (maps : Maps) (skb : Skb) :
    IngressUndamaged env maps skb ↔ IngressSafe env maps skb := by
  cases hpull : env.skbFails 0 with
  | true =>
    refine iff_of_true (fun hno => ?_) fun _ hno => ?_ <;> cases hpull.symm.trans hno
  | false =>
    cases hstrips : ingressStrips maps skb.data with
    | none =>
      refine iff_of_true (fun _ hcall => ?_) fun _ _ hsome => ?_
      · obtain ⟨c, hcall⟩ := hcall
        rw [stripCall, hstrips] at hcall
        cases hcall
      · cases hstrips.symm.trans hsome
    | some outerIp =>
      obtain ⟨innerIp, srcId, hparse, -⟩ := ingressStrips_eq_some hstrips
      obtain ⟨htunnel, hinner⟩ := ingressParse_tunnel hparse
      obtain ⟨haction, hdata⟩ := meridianTcIngress_strips hpull hstrips
      have hcall := @stripCall_eq env maps skb outerIp hstrips htunnel
      obtain ⟨-, hfailed⟩ := @TunnelFrame.stripMeridianTlv_eq env { ingressStart maps skb with skbCalls := 2 } outerIp
        (!env.skbFails 1) htunnel
      have hundamaged := @stripScript_undamaged_iff skb.data outerIp (!env.skbFails 1) env.skbFails htunnel
        (htunnel.two_words hinner)
      constructor
      · intro h ip _ hip
        cases hstrips.symm.trans hip
        refine hundamaged.mp fun hfails => ?_
        rcases h hpull ⟨_, hcall.trans (congrArg some (Prod.ext (hfailed.mpr hfails) rfl))⟩ with hsame | hdropped
        · exact hdata.symm.trans hsame
        · exact absurd haction hdropped
      · rintro h - ⟨c, hc⟩
        have hfails := hfailed.mp (congrArg Prod.fst (Option.some.inj (hcall.symm.trans hc)))
        exact Or.inl (hdata.trans (hundamaged.mpr (h outerIp hpull hstrips) hfails))

/-- The programs pass no damaged packet under exactly these patterns of failures. -/
theorem failed_rewrite_undamaged_iff (env : Env) (maps : Maps) (skb : Skb) :
    (EgressUndamaged env maps skb ∧ IngressUndamaged env maps skb) ↔
      (EgressSafe env maps skb ∧ IngressSafe env maps skb) := by
  rw [egressUndamaged_iff, ingressUndamaged_iff]

/-- Every helper works but for one call. -/
def failingAt (n : Nat) : Env := ⟨0, fun k => k = n, fun _ => false⟩

/-- Three damaged packets that are passed: with the fail-open bit set, a packet that has grown when the next call fails;
    without it, a packet whose lengths were not updated after the insertion; and one of which ingress moved one byte. -/
theorem failed_rewrite_damaged :
    ¬EgressUndamaged (failingAt 3) { senderMaps with runtimeConfigMap := some meridianCfgFallopenUnknown }
        ⟨geneveFrame 76 56 0 ethPIp [] (synPacket 64), 0⟩ ∧
      ¬EgressUndamaged (failingAt 104) senderMaps ⟨geneveFrame 76 56 0 ethPIp [] (synPacket 64), 0⟩ ∧
      ¬IngressUndamaged (failingAt 6) openMaps ⟨taggedFrame 84 64 [] (synPacket 64), 0⟩ := by
  refine ⟨fun h => ?_, fun h => ?_, fun h => ?_⟩
  · exact absurd (h.failOpen (by decide +kernel)) (by decide +kernel)
  · have hrewrites : egressRewrites senderMaps (geneveFrame 76 56 0 ethPIp [] (synPacket 64)) =
        some (⟨14, 34, 42, 0, 0, 50, 50, 0⟩, 7) := by decide +kernel
    have hbump : (bumpCall (failingAt 104) senderMaps ⟨geneveFrame 76 56 0 ethPIp [] (synPacket 64), 0⟩
        ⟨14, 34, 42, 0, 0, 50, 50, 0⟩).map Prod.fst = some true := by decide +kernel
    obtain ⟨⟨failed, c⟩, hcall, hfailed⟩ := Option.map_eq_some_iff.mp hbump
    cases hfailed
    refine h.rewrite ⟨_, _, rfl, hrewrites, Or.inl ⟨c, hcall⟩⟩ ⟨?_, ?_⟩ <;> decide +kernel
  · have hstrip : (stripCall (failingAt 6) openMaps ⟨taggedFrame 84 64 [] (synPacket 64), 0⟩).map Prod.fst = some true := by
      decide +kernel
    obtain ⟨⟨failed, c⟩, hcall, hfailed⟩ := Option.map_eq_some_iff.mp hstrip
    cases hfailed
    rcases h rfl ⟨c, hcall⟩ with hsame | hdropped
    · exact absurd hsame (by decide +kernel)
    · exact hdropped (by decide +kernel)

end Meridian.Bpf
