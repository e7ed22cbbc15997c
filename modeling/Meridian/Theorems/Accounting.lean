import Mathlib.Algebra.BigOperators.Group.Finset.Piecewise
import Mathlib.Data.FinEnum
import Mathlib.Data.Fintype.Prod
import Mathlib.Data.Nat.ModEq
import Meridian.Lib.Tally
import Meridian.Theorems.IngressRun

/-! The accounts of denied flows over a sequence of packets at ingress. Between two packets the control plane may have
    changed the tables, and the map of seen UDP flows may have lost entries; the accounts are those that the packets
    before have left. -/

namespace Meridian.Bpf
open Lib

/-! ### Packets in sequence -/

/-- A packet, with the environment of its run and the maps that its run finds apart from the accounts. -/
structure Arrival where
  env : Env
  skb : Skb
  identityMap : Table UInt32 UInt32
  policyMap : Table PolicyKey PolicyVerdict
  runtimeConfigMap : Option UInt32
  udpSeenFlowsMap : Table FlowKey UInt8

namespace Arrival

def maps (a : Arrival) (m : Maps) : Maps :=
  { m with identityMap := a.identityMap, policyMap := a.policyMap, runtimeConfigMap := a.runtimeConfigMap,
           udpSeenFlowsMap := a.udpSeenFlowsMap }

def ingress (a : Arrival) (m : Maps) : IngressExit × Ctx := meridianTcIngress a.env (a.maps m) a.skb

/-- `TC_ACT_SHOT` or `TC_ACT_STOLEN`. -/
def dropped (a : Arrival) (m : Maps) : Bool :=
  (a.ingress m).1.action = .shot || (a.ingress m).1.action = .stolen

end Arrival

def ingressStep (m : Maps) (a : Arrival) : Maps := (a.ingress m).2.maps

def drops (m : Maps) (a : Arrival) : Nat := if a.dropped m then 1 else 0

/-- The failed reservations that a dropped packet adds to the counter. -/
def lostEvents (m : Maps) (a : Arrival) : Nat :=
  if a.dropped m then ((ingressStep m a).metricsMap .ringbufDropped - m.metricsMap .ringbufDropped).toNat else 0

/-- The packet is dropped in the flow `key`. -/
def dropsOf (key : FlowKey) (m : Maps) (a : Arrival) : Nat :=
  if a.dropped m && (ingressDenial (a.maps m) a.skb.data).any (·.1 = key) then 1 else 0

theorem Arrival.dropped_iff (a : Arrival) (m : Maps) : a.dropped m = true ↔ (a.ingress m).1.action ≠ .ok := by
  unfold Arrival.dropped
  cases (a.ingress m).1.action <;> simp

/-- What one packet does to the accounts. -/
theorem ingressStep_cases (m : Maps) (a : Arrival) :
    (a.dropped m = true ∧ ∃ flow reason, ingressDenial (a.maps m) a.skb.data = some (flow, reason) ∧
        DenyRecorded a.env.ktimeNs flow reason m (ingressStep m a)) ∨
      (a.dropped m = false ∧ DenyFree m (ingressStep m a)) := by
  -- The accounts are the same in `m` and in the maps that the run finds.
  have hfound : SameAccounts m (a.maps m) := ⟨rfl, rfl, rfl, rfl⟩
  rcases meridianTcIngress_cases a.env (a.maps m) a.skb with ⟨haction, -, flow, reason, hdenial, hrecord⟩ | ⟨haction, -, hfree⟩
  · exact Or.inl ⟨(a.dropped_iff m).mpr haction, flow, reason, hdenial, hfound.denyRecorded hrecord⟩
  · refine Or.inr ⟨Bool.eq_false_iff.mpr fun hdropped => ?_, hfound.denyFree hfree⟩
    exact (a.dropped_iff m).mp hdropped haction

/-! ### The accounts over a run -/

theorem flowsDenied_step (m : Maps) (a : Arrival) :
    (ingressStep m a).metricsMap .flowsDenied = m.metricsMap .flowsDenied + UInt64.ofNat (drops m a) := by
  rcases ingressStep_cases m a with ⟨hdropped, flow, reason, -, hrecord⟩ | ⟨hdropped, hfree⟩
  · rw [hrecord.flowsDenied, drops, hdropped]
    rfl
  · rw [hfree.flowsDenied, drops, hdropped]
    exact (UInt64.add_zero _).symm

theorem flowsDenied_run (m : Maps) (as : List Arrival) :
    (execute ingressStep m as).metricsMap .flowsDenied =
      m.metricsMap .flowsDenied + UInt64.ofNat (tally ingressStep drops m as) := by
  refine execute_tally (R := fun m m' n => m'.metricsMap .flowsDenied = m.metricsMap .flowsDenied + UInt64.ofNat n)
    (fun m => (UInt64.add_zero _).symm) (fun m a m' n h => ?_) m as
  rw [h, flowsDenied_step, UInt64.ofNat_add, UInt64.add_assoc]

theorem deniedCount_step (key : FlowKey) (m : Maps) (a : Arrival) :
    deniedCount (ingressStep m a) key = deniedCount m key + UInt32.ofNat (dropsOf key m a) := by
  rcases ingressStep_cases m a with ⟨hdropped, flow, reason, hdenial, hrecord⟩ | ⟨hdropped, hfree⟩
  · rw [deniedCount, hrecord.deniedFlowsMap, dropsOf, hdropped, hdenial]
    by_cases hkey : flow = key
    · subst hkey
      simp
    · rw [Table.put_of_ne hkey]
      simp [hkey, deniedCount]
  · rw [deniedCount, hfree.deniedFlowsMap, dropsOf, hdropped]
    exact (UInt32.add_zero _).symm

theorem deniedCount_run (key : FlowKey) (m : Maps) (as : List Arrival) :
    deniedCount (execute ingressStep m as) key =
      deniedCount m key + UInt32.ofNat (tally ingressStep (dropsOf key) m as) := by
  refine execute_tally (R := fun m m' n => deniedCount m' key = deniedCount m key + UInt32.ofNat n)
    (fun m => (UInt32.add_zero _).symm) (fun m a m' n h => ?_) m as
  rw [h, deniedCount_step, UInt32.ofNat_add, UInt32.add_assoc]

instance : Fintype FlowKey :=
  Fintype.ofEquiv (UInt32 × UInt32 × UInt16 × UInt16 × UInt8)
    { toFun := fun (srcIp, dstIp, srcPort, dstPort, proto) => { srcIp, dstIp, srcPort, dstPort, proto }
      invFun := fun key => (key.srcIp, key.dstIp, key.srcPort, key.dstPort, key.proto)
      left_inv := fun _ => rfl
      right_inv := fun _ => rfl }

theorem sum_dropsOf (m : Maps) (a : Arrival) : ∑ key, dropsOf key m a = drops m a := by
  rcases ingressStep_cases m a with ⟨hdropped, flow, reason, hdenial, -⟩ | ⟨hdropped, -⟩
  · simp [dropsOf, drops, hdropped, hdenial]
  · simp [dropsOf, drops, hdropped]

/-- The increases of all counts add up to the drops, modulo the width of a count. -/
theorem deniedCount_total (m : Maps) (as : List Arrival) :
    ∑ key, (deniedCount (execute ingressStep m as) key - deniedCount m key).toNat ≡ tally ingressStep drops m as
      [MOD 2 ^ 32] := by
  have hkey : ∀ key, (deniedCount (execute ingressStep m as) key - deniedCount m key).toNat =
      tally ingressStep (dropsOf key) m as % 2 ^ 32 := by
    intro key
    rw [deniedCount_run, UInt32.add_comm, UInt32.add_sub_cancel, UInt32.toNat_ofNat']
  have htotal : ∑ key, tally ingressStep (dropsOf key) m as = tally ingressStep drops m as := by
    have hsum : (fun m a => ∑ key, dropsOf key m a) = drops := funext fun m => funext fun a => sum_dropsOf m a
    exact (tally_sum _ _ m as).trans (congrArg (fun f => tally ingressStep f m as) hsum)
  rw [Finset.sum_congr rfl fun key _ => hkey key, ← htotal]
  exact (Finset.sum_nat_mod _ _ _).symm

theorem denyEvents_step (m : Maps) (a : Arrival) :
    ∃ submitted, (ingressStep m a).flowEvents = m.flowEvents ++ submitted ∧
      drops m a = submitted.countP FlowEvent.isDeny + lostEvents m a := by
  rcases ingressStep_cases m a with ⟨hdropped, flow, reason, -, hrecord⟩ | ⟨hdropped, hfree⟩
  · rcases hrecord.event with ⟨e, -, hdeny, hevents, hring⟩ | ⟨hevents, hring⟩
    · refine ⟨[e], hevents, ?_⟩
      rw [drops, lostEvents, hdropped, hring, UInt64.sub_self]
      simp [hdeny]
    · refine ⟨[], by rw [hevents, List.append_nil], ?_⟩
      rw [drops, lostEvents, hdropped, hring, UInt64.add_comm, UInt64.add_sub_cancel]
      rfl
  · obtain ⟨es, hes, hcount⟩ := hfree.flowEvents
    refine ⟨es, hes, ?_⟩
    rw [drops, lostEvents, hdropped, hcount]
    rfl

theorem denyEvents_run (m : Maps) (as : List Arrival) :
    ∃ submitted, (execute ingressStep m as).flowEvents = m.flowEvents ++ submitted ∧
      tally ingressStep drops m as = submitted.countP FlowEvent.isDeny + tally ingressStep lostEvents m as := by
  induction as generalizing m with
  | nil => exact ⟨[], (List.append_nil _).symm, rfl⟩
  | cons a as ih =>
    obtain ⟨es, hes, hcount⟩ := denyEvents_step m a
    obtain ⟨es', hes', hcount'⟩ := ih (ingressStep m a)
    refine ⟨es ++ es', by rw [execute_cons, hes', hes, List.append_assoc], ?_⟩
    rw [tally, tally, hcount, hcount', List.countP_append]
    omega

/-! ### Verdicts do not depend on telemetry -/

theorem SameTables.ingressExit_eq {m m' : Maps} (h : SameTables m m') (d : List UInt8) :
    ingressExit m' d = ingressExit m d := by
  unfold ingressExit
  simp only [h.flowExit_eq]

theorem SameTables.meridianTcIngress_eq {m m' : Maps} (h : SameTables m m') {env env' : Env}
    (hfails : env'.skbFails = env.skbFails) (skb : Skb) :
    (meridianTcIngress env' m' skb).1 = (meridianTcIngress env m skb).1 ∧
      (meridianTcIngress env' m' skb).2.skb.data = (meridianTcIngress env m skb).2.skb.data := by
  have hexit : (meridianTcIngress env' m' skb).1 = (meridianTcIngress env m skb).1 := by
    cases hpull : env.skbFails 0 with
    | true =>
      have hfailed : ∀ {env : Env} (m : Maps), env.skbFails 0 = true → (meridianTcIngress env m skb).1 = .pullFailed := by
        intro env m hpull
        unfold meridianTcIngress bpfSkbPullData
        dsimp only [metricAdd, Ctx.start]
        rw [hpull]
      rw [hfailed m hpull, hfailed m' (hfails ▸ hpull)]
    | false => rw [meridianTcIngress_exit m skb hpull, meridianTcIngress_exit m' skb (hfails ▸ hpull), h.ingressExit_eq]
  refine ⟨hexit, ?_⟩
  rcases meridianTcIngress_cases env m skb with ⟨haction, hdata, -⟩ | ⟨haction, hdata, -⟩
  · rcases meridianTcIngress_cases env' m' skb with ⟨-, hdata', -⟩ | ⟨haction', -⟩
    · rw [hdata, hdata']
    · exact absurd (hexit ▸ haction') haction
  · rcases meridianTcIngress_cases env' m' skb with ⟨haction', -⟩ | ⟨-, hdata', -⟩
    · exact absurd haction (hexit ▸ haction')
    · rw [hdata, hdata', hfails]

/-- The same packet under other accounts, other UDP flows seen, another clock and other reservations. -/
def Arrival.withTelemetry (a : Arrival) (ktimeNs : UInt64) (reserveFails : Nat → Bool) (seen : Table FlowKey UInt8) :
    Arrival :=
  { a with env := { a.env with ktimeNs, reserveFails }, udpSeenFlowsMap := seen }

/-- Over every sequence of packets: the drops are counted exactly by the counter of denied flows, by the counts of all
    flows together, and by the DENY events with the reservations that failed for dropped packets; each drop is counted
    in its own flow, with its reason, and no other packet touches that map; and no packet's return value or bytes
    depend on the telemetry. -/
theorem ingress_deny_accounting (m : Maps) (as : List Arrival) :
    (execute ingressStep m as).metricsMap .flowsDenied =
        m.metricsMap .flowsDenied + UInt64.ofNat (tally ingressStep drops m as) ∧
      ∑ key, (deniedCount (execute ingressStep m as) key - deniedCount m key).toNat ≡ tally ingressStep drops m as
        [MOD 2 ^ 32] ∧
      (∃ submitted, (execute ingressStep m as).flowEvents = m.flowEvents ++ submitted ∧
        tally ingressStep drops m as = submitted.countP FlowEvent.isDeny + tally ingressStep lostEvents m as) ∧
      Steps ingressStep (fun m a =>
        if a.dropped m then
          ∃ flow reason, ingressDenial (a.maps m) a.skb.data = some (flow, reason) ∧
            (ingressStep m a).deniedFlowsMap =
              Table.put m.deniedFlowsMap flow ⟨a.env.ktimeNs, deniedCount m flow + 1, reason⟩
        else (ingressStep m a).deniedFlowsMap = m.deniedFlowsMap) m as ∧
      Steps ingressStep (fun m a => ∀ m' ktimeNs reserveFails seen,
        ((a.withTelemetry ktimeNs reserveFails seen).ingress m').1 = (a.ingress m).1 ∧
          ((a.withTelemetry ktimeNs reserveFails seen).ingress m').2.skb.data = (a.ingress m).2.skb.data) m as := by
  refine ⟨flowsDenied_run m as, deniedCount_total m as, denyEvents_run m as, ?_, ?_⟩
  · refine steps_of_mem fun m a _ => ?_
    rcases ingressStep_cases m a with ⟨hdropped, flow, reason, hdenial, hrecord⟩ | ⟨hdropped, hfree⟩
    · rw [if_pos hdropped]
      exact ⟨flow, reason, hdenial, hrecord.deniedFlowsMap⟩
    · rw [if_neg (Bool.eq_false_iff.mp hdropped)]
      exact hfree.deniedFlowsMap
  · refine steps_of_mem fun m a _ m' ktimeNs reserveFails seen => ?_
    have htables : SameTables (a.maps m) ((a.withTelemetry ktimeNs reserveFails seen).maps m') := ⟨rfl, rfl, rfl⟩
    exact @SameTables.meridianTcIngress_eq _ _ htables a.env { a.env with ktimeNs, reserveFails } rfl a.skb

end Meridian.Bpf
