import Meridian.Bpf.Parse

/-! One run of a TC program: the packet, the node's maps and the kernel helpers. A helper call may
    fail; which calls do is given by the environment, per call. A failed helper has no effect. -/

namespace Meridian.Bpf
open Lib

structure Skb where
  data : List UInt8
  mark : UInt32
  deriving DecidableEq, Repr

/-- What a run of a program does not control: the clock, and which calls of a skb helper and which
    ring buffer reservations fail, by the number of calls before. -/
structure Env where
  ktimeNs : UInt64
  skbFails : Nat → Bool
  reserveFails : Nat → Bool

/-- No helper call fails. -/
def quietEnv : Env := ⟨0, fun _ => false, fun _ => false⟩

/-- The state of a run: the packet, the maps, and how many helper calls were made. -/
structure Ctx where
  skb : Skb
  maps : Maps
  skbCalls : Nat
  reserves : Nat

def Ctx.start (skb : Skb) (maps : Maps) : Ctx := ⟨skb, maps, 0, 0⟩

def Ctx.after (c : Ctx) (d : List UInt8) (n : Nat) : Ctx :=
  { c with skb := { c.skb with data := d }, skbCalls := c.skbCalls + n }

/-! ### Map helpers -/

def failopenUnknownEnabled (m : Maps) : Bool :=
  match m.runtimeConfigMap with
  | none => false
  | some cfg => cfg &&& meridianCfgFallopenUnknown ≠ 0

def mappedIdentity (m : Maps) (addr : UInt32) : UInt32 := (m.identityMap addr).getD 0

/-- The policy that both programs consult, in the ingress direction. -/
def policyKeyOf (srcId dstId : UInt32) (dstPort : UInt16) (proto : UInt8) : PolicyKey :=
  { srcId, dstId, dstPort := bpfNtohs dstPort, proto, direction := policyDirIngress }

def metricAdd (c : Ctx) (id : MetricId) (delta : UInt64) : Ctx :=
  { c with maps := { c.maps with metricsMap := Function.update c.maps.metricsMap id (c.maps.metricsMap id + delta) } }

def emitFlowEvent (env : Env) (c : Ctx) (flow : FlowKey) (verdict : UInt8) (srcIdentity dstIdentity bytes : UInt32) :
    Ctx :=
  let failed := env.reserveFails c.reserves
  let c := { c with reserves := c.reserves + 1 }
  if failed then metricAdd c .ringbufDropped 1
  else
    { c with maps := { c.maps with flowEvents := c.maps.flowEvents ++
        [{ timestampNs := env.ktimeNs, srcIp := flow.srcIp, dstIp := flow.dstIp, srcPort := flow.srcPort,
           dstPort := flow.dstPort, proto := flow.proto, verdict, srcIdentity, dstIdentity, bytes }] } }

def deniedCount (m : Maps) (key : FlowKey) : UInt32 := ((m.deniedFlowsMap key).map (·.count)).getD 0

def deniedFlowUpsert (env : Env) (c : Ctx) (key : FlowKey) (reason : DropReason) : Ctx :=
  let info : DenyInfo := { lastNs := env.ktimeNs, count := deniedCount c.maps key + 1, reason }
  { c with maps := { c.maps with deniedFlowsMap := Table.put c.maps.deniedFlowsMap key info } }

/-- The three records of a denied flow: its entry in `denied_flows_map`, the counter, and an event. -/
def recordDeny (env : Env) (c : Ctx) (flow : FlowKey) (reason : DropReason) (srcId dstId bytes : UInt32) : Ctx :=
  let c := deniedFlowUpsert env c flow reason
  let c := metricAdd c .flowsDenied 1
  emitFlowEvent env c flow flowVerdictDeny srcId dstId bytes

/-! ### Packet helpers

The Boolean is the helper's return code: true for an error. -/

def bpfSkbPullData (env : Env) (c : Ctx) : Bool × Ctx :=
  (env.skbFails c.skbCalls, { c with skbCalls := c.skbCalls + 1 })

def bpfSkbLoadBytes (env : Env) (c : Ctx) (off len : Nat) : Option (List UInt8) × Ctx :=
  if env.skbFails c.skbCalls || off + len > c.skb.data.length then (none, { c with skbCalls := c.skbCalls + 1 })
  else (some ((c.skb.data.drop off).take len), { c with skbCalls := c.skbCalls + 1 })

def bpfSkbStoreBytes (env : Env) (c : Ctx) (off : Nat) (src : List UInt8) : Bool × Ctx :=
  if env.skbFails c.skbCalls || off + src.length > c.skb.data.length then
    (true, { c with skbCalls := c.skbCalls + 1 })
  else (false, c.after (overwrite c.skb.data off src) 1)

/-- Grows the packet at its head by `headRoom` zero bytes. -/
def bpfSkbChangeHead (env : Env) (c : Ctx) (headRoom : Nat) : Bool × Ctx :=
  if env.skbFails c.skbCalls then (true, { c with skbCalls := c.skbCalls + 1 })
  else (false, c.after (List.replicate headRoom 0 ++ c.skb.data) 1)

/-- `if (helper(..)) return 1;`, before the rest of a function that returns 0 or 1. -/
def orFail (r : Bool × Ctx) (rest : Ctx → Bool × Ctx) : Bool × Ctx :=
  match r with
  | (true, c) => (true, c)
  | (false, c) => rest c

def orFailLoad (r : Option (List UInt8) × Ctx) (rest : List UInt8 → Ctx → Bool × Ctx) : Bool × Ctx :=
  match r with
  | (none, c) => (true, c)
  | (some b, c) => rest b c

def csumAdd (a b : Nat) : Nat :=
  let s := (a + b) % 0x100000000
  (s + if s < b then 1 else 0) % 0x100000000

def csumFold (s : Nat) : Nat :=
  let s := s % 65536 + s / 65536
  let s := s % 65536 + s / 65536
  65535 - s % 65536

def csumReplace2 (sum old new : UInt16) : UInt16 :=
  UInt16.ofNat (csumFold (csumAdd (csumAdd (0xffffffff - sum.toNat) (0xffffffff - old.toNat)) new.toNat))

/-- Updates the 16-bit checksum stored at `off`. Odd offsets are refused. -/
def bpfL4CsumReplace (env : Env) (c : Ctx) (off : Nat) (old new : UInt16) : Bool × Ctx :=
  if env.skbFails c.skbCalls || off % 2 = 1 || off + 2 > c.skb.data.length then
    (true, { c with skbCalls := c.skbCalls + 1 })
  else (false, c.after (overwrite c.skb.data off (bytesU16 (csumReplace2 (loadU16 c.skb.data off) old new))) 1)

/-! ### The packet under the map helpers -/

@[simp] theorem metricAdd_skb (c : Ctx) (id : MetricId) (delta : UInt64) : (metricAdd c id delta).skb = c.skb := rfl

@[simp] theorem emitFlowEvent_skb (env : Env) (c : Ctx) (flow : FlowKey) (verdict : UInt8) (s d b : UInt32) :
    (emitFlowEvent env c flow verdict s d b).skb = c.skb := by
  unfold emitFlowEvent
  simp only
  split <;> rfl

@[simp] theorem recordDeny_skb (env : Env) (c : Ctx) (flow : FlowKey) (reason : DropReason) (s d b : UInt32) :
    (recordDeny env c flow reason s d b).skb = c.skb := by
  simp [recordDeny, deniedFlowUpsert]

/-! ### What a helper call leaves -/

@[simp] theorem Ctx.after_data (c : Ctx) (d : List UInt8) (n : Nat) : (c.after d n).skb.data = d := rfl

section
variable {env : Env} {r : Bool × Ctx} {rest : Ctx → Bool × Ctx} {c c' : Ctx} {b src : List UInt8} {off len n : Nat}

theorem orFail_eq_false (h : orFail r rest = (false, c')) : ∃ c, r = (false, c) ∧ rest c = (false, c') := by
  obtain ⟨failed, c⟩ := r
  cases failed with
  | true => cases h
  | false => exact ⟨c, rfl, h⟩

theorem orFail_of_failed (h : r.1 = true) : orFail r rest = r := by
  obtain ⟨failed, c⟩ := r
  cases h
  rfl

theorem orFailLoad_eq_false {r : Option (List UInt8) × Ctx} {rest : List UInt8 → Ctx → Bool × Ctx}
    (h : orFailLoad r rest = (false, c')) : ∃ b c, r = (some b, c) ∧ rest b c = (false, c') := by
  obtain ⟨b, c⟩ := r
  cases b with
  | none => cases h
  | some b => exact ⟨b, c, rfl, h⟩

/-- What holds after a call and is kept by the rest holds at the end, whether the call fails or not. -/
theorem orFail_invariant {P : Ctx → Prop} (hr : P r.2) (hrest : ∀ c, P c → P (rest c).2) : P (orFail r rest).2 := by
  obtain ⟨failed, c⟩ := r
  cases failed with
  | true => exact hr
  | false => exact hrest c hr

theorem orFailLoad_invariant {P : Ctx → Prop} {r : Option (List UInt8) × Ctx} {rest : List UInt8 → Ctx → Bool × Ctx}
    (hr : P r.2) (hrest : ∀ b c, P c → P (rest b c).2) : P (orFailLoad r rest).2 := by
  obtain ⟨b, c⟩ := r
  cases b with
  | none => exact hr
  | some b => exact hrest b c hr

theorem bpfSkbPullData_eq_false (h : bpfSkbPullData env c = (false, c')) : c' = c.after c.skb.data 1 :=
  (Prod.ext_iff.mp h).2.symm

theorem bpfSkbLoadBytes_eq_some (h : bpfSkbLoadBytes env c off len = (some b, c')) :
    b = (c.skb.data.drop off).take len ∧ c'.skb.data = c.skb.data := by
  unfold bpfSkbLoadBytes at h
  split at h
  · cases h
  · cases h
    exact ⟨rfl, rfl⟩

theorem bpfSkbStoreBytes_eq_false (h : bpfSkbStoreBytes env c off src = (false, c')) :
    off + src.length ≤ c.skb.data.length ∧ c'.skb.data = overwrite c.skb.data off src := by
  unfold bpfSkbStoreBytes at h
  split at h
  · cases h
  · rename_i hok
    simp only [Bool.or_eq_true, decide_eq_true_eq, not_or] at hok
    cases h
    exact ⟨Nat.not_lt.mp hok.2, rfl⟩

theorem bpfSkbChangeHead_eq_false (h : bpfSkbChangeHead env c n = (false, c')) :
    c'.skb.data = List.replicate n 0 ++ c.skb.data := by
  unfold bpfSkbChangeHead at h
  split at h
  · cases h
  · cases h
    rfl

variable {S : Nat → Prop}

theorem bpfSkbLoadBytes_sameOff : SameOff S c.skb.data (bpfSkbLoadBytes env c off len).2.skb.data := by
  unfold bpfSkbLoadBytes
  split <;> exact SameOff.refl _ _

theorem sameOff_overwrite {d : List UInt8} (hfits : ¬off + src.length > d.length)
    (hS : ∀ i, off ≤ i → i < off + src.length → S i) : SameOff S d (overwrite d off src) :=
  (SameOff.overwrite (Nat.not_lt.mp hfits)).mono fun i hi => hS i hi.1 hi.2

/-- A store that fails changes nothing. -/
theorem bpfSkbStoreBytes_sameOff (hS : ∀ i, off ≤ i → i < off + src.length → S i) :
    SameOff S c.skb.data (bpfSkbStoreBytes env c off src).2.skb.data := by
  unfold bpfSkbStoreBytes
  split
  · exact SameOff.refl _ _
  · rename_i hok
    simp only [Bool.or_eq_true, decide_eq_true_eq, not_or] at hok
    exact sameOff_overwrite hok.2 hS

theorem bpfL4CsumReplace_sameOff {old new : UInt16} (hS : ∀ i, off ≤ i → i < off + 2 → S i) :
    SameOff S c.skb.data (bpfL4CsumReplace env c off old new).2.skb.data := by
  unfold bpfL4CsumReplace
  split
  · exact SameOff.refl _ _
  · rename_i hok
    simp only [Bool.or_eq_true, decide_eq_true_eq, not_or] at hok
    exact sameOff_overwrite hok.2 hS

end

end Meridian.Bpf
