import Meridian.Agent.Sockhash
import Meridian.Control.Cc2
import Meridian.Control.Rest
import Meridian.Lib.Run

/-! The SOCKHASH map over whole runs: which rules can put a socket into it, and which socket a redirect
    reaches. -/

namespace Meridian.Sockhash
open Lib Wire Bpf

/-! ### Ports -/

@[simp] theorem lower16_hostPort (port : UInt16) : lower16 (hostPort port) = port := by
  have := port.toNat_lt
  apply UInt16.toNat_inj.mp
  simp only [lower16, hostPort, UInt32.toNat_ofNat', UInt16.toNat_ofNat']
  omega

@[simp] theorem upper16_netPort (port : UInt16) : upper16 (netPort port) = bpfHtons port := by
  have := (bpfHtons port).toNat_lt
  apply UInt16.toNat_inj.mp
  simp only [upper16, netPort, UInt32.toNat_ofNat', UInt16.toNat_ofNat']
  omega

@[simp] theorem bpfNtohs_bpfHtons (port : UInt16) : bpfNtohs (bpfHtons port) = port := swapU16_swapU16 port

/-! ### From admission to insertion -/

section Gate
variable {σ : Type}

/-- A rule that the writer may be given: one that the REST handler accepted among those in `P`, after the
    codec. -/
def Reaches (P : PolicyRule → Prop) (rule : PolicyRule) : Prop :=
  ∃ putPolicy body admitted, Rest.handleCreatePolicy putPolicy body = .ok admitted ∧ P admitted ∧
    Cc2.decodePolicyRule (Cc2.encodePolicyRule admitted) = .ok rule

def GateEvent.Admissible (P : PolicyRule → Prop) : GateEvent σ → Prop
  | .upserts rules _ => ∀ rule ∈ rules, Reaches P rule
  | _ => True

/-- The flow of `ctx` is between known identities and its entry is a plain L4 ALLOW: eligible for the fast
    path, with neither L7 nor mTLS required. -/
def PlainL4Allow (w : Datapath.Writer) (ctx : BpfSockOps) : Prop :=
  ∃ flow v, sockFlow w.identityMap ctx = some flow ∧ flow.srcId ≠ 0 ∧ flow.dstId ≠ 0 ∧
    meridianPolicyLookup w.policyMap flow.srcId flow.dstId flow.dstPortHost ipprotoTcp flow.direction = some v ∧
    v.action = flowVerdictAllow ∧ v.flags &&& Bpf.policyFlagSockmapEligible ≠ 0 ∧
    v.flags &&& Bpf.policyFlagL7Required = 0 ∧ v.flags &&& policyFlagMtlsRequired = 0

/-- In state `s` an established connection changes `sockhash` only for a plain L4 ALLOW. -/
def Gated (s : GateState σ) (ctx : BpfSockOps) (sk : σ) (updateFails : Bool) : Prop :=
  (s.step (.established ctx sk updateFails)).sockhash ≠ s.sockhash → PlainL4Allow s.writer ctx

/-- A TCP rule that asks for the fast path and for L7 or mTLS handling at once. -/
def Conflicting (rule : PolicyRule) : Prop :=
  rule.key.protocol = ipprotoTcp ∧ rule.verdict.action = flowVerdictAllow ∧
    rule.verdict.flags &&& Bpf.policyFlagSockmapEligible ≠ 0 ∧
    ¬(rule.verdict.flags &&& Bpf.policyFlagL7Required = 0 ∧ rule.verdict.flags &&& policyFlagMtlsRequired = 0)

/-! ### The entries of policy_map -/

def EntriesFrom (R : PolicyRule → Prop) (policyMap : Table PolicyKey Bpf.PolicyVerdict) : Prop :=
  ∀ k v, policyMap k = some v →
    ∃ rule, R rule ∧ k = Datapath.translatePolicyRuleKey rule.key ∧ v = Datapath.translatePolicyVerdict rule.verdict

theorem EntriesFrom.put {R : PolicyRule → Prop} {t : Table PolicyKey Bpf.PolicyVerdict} (h : EntriesFrom R t)
    {rule : PolicyRule} (hr : R rule) :
    EntriesFrom R (Table.put t (Datapath.translatePolicyRuleKey rule.key)
      (Datapath.translatePolicyVerdict rule.verdict)) := by
  intro k v hk
  rcases Table.of_put hk with ⟨rfl, rfl⟩ | ⟨-, hk⟩
  · exact ⟨rule, hr, rfl, rfl⟩
  · exact h k v hk

variable {R : PolicyRule → Prop} {P : PolicyRule → Prop} {s : GateState σ} {rule : PolicyRule}

theorem EntriesFrom.erase {t : Table PolicyKey Bpf.PolicyVerdict} (h : EntriesFrom R t) (key : PolicyKey) :
    EntriesFrom R (Table.erase t key) :=
  fun k v hk => h k v (Table.of_erase hk).2

theorem applyPolicyUpserts_entriesFrom (fails : Nat → Bool) {rules : List PolicyRule} (hR : ∀ rule ∈ rules, R rule)
    {s : Datapath.ApplyState} (h : EntriesFrom R s.writer.policyMap) :
    EntriesFrom R (Datapath.applyPolicyUpserts fails rules s).2.writer.policyMap := by
  induction rules generalizing s with
  | nil => exact h
  | cons rule rest ih =>
    rw [List.forall_mem_cons] at hR
    unfold Datapath.applyPolicyUpserts Datapath.mapUpdate
    cases fails s.ops with
    | true => exact h
    | false => exact ih hR.2 (h.put hR.1)

theorem applyPolicyDeletes_entriesFrom (fails : Nat → Bool) {keys : List PolicyRuleKey} {s : Datapath.ApplyState}
    (h : EntriesFrom R s.writer.policyMap) :
    EntriesFrom R (Datapath.applyPolicyDeletes fails keys s).2.writer.policyMap := by
  induction keys generalizing s with
  | nil => exact h
  | cons key rest ih =>
    unfold Datapath.applyPolicyDeletes Datapath.mapDelete
    cases fails s.ops with
    | true => exact h
    | false =>
      cases hk : (s.writer.policyMap (Datapath.translatePolicyRuleKey key)).isNone with
      | true => exact ih h
      | false => exact ih (h.erase _)

theorem GateState.step_entriesFrom {e : GateEvent σ} (he : e.Admissible P) (h : EntriesFrom (Reaches P) s.writer.policyMap) :
    EntriesFrom (Reaches P) (s.step e).writer.policyMap := by
  cases e with
  | upserts rules fails => exact applyPolicyUpserts_entriesFrom fails he h
  | deletes keys fails => exact applyPolicyDeletes_entriesFrom fails h
  | identities identityMap => exact h
  | established ctx sk updateFails => exact h

theorem GateState.run_entriesFrom {es : List (GateEvent σ)} (hes : ∀ e ∈ es, e.Admissible P)
    (h : EntriesFrom (Reaches P) s.writer.policyMap) :
    EntriesFrom (Reaches P) (execute GateState.step s es).writer.policyMap :=
  execute_inv_of_steps (I := fun s : GateState σ => EntriesFrom (Reaches P) s.writer.policyMap)
    (fun _ _ h he => step_entriesFrom he h) h (steps_of_mem fun _ => hes)

theorem codec_of_valid (h : Rest.validatePolicyRule rule = none) :
    Cc2.decodePolicyRule (Cc2.encodePolicyRule rule) = .ok rule := by
  obtain ⟨-, -, -, hdir, hact⟩ := Rest.validatePolicyRule_eq_none_iff.mp h
  apply Cc2.decodePolicyRule_encodePolicyRule
  · rcases hdir with h | h <;> rw [h] <;> decide
  · rcases hact with h | h | h <;> rw [h] <;> decide

theorem reaches_iff : Reaches P rule ↔ P rule ∧ Rest.validatePolicyRule rule = none := by
  constructor
  · rintro ⟨putPolicy, body, admitted, hadmit, hP, hcodec⟩
    have hvalid := Rest.handleCreatePolicy_eq_ok hadmit
    rw [codec_of_valid hvalid] at hcodec
    cases hcodec
    exact ⟨hP, hvalid⟩
  · rintro ⟨hP, hvalid⟩
    exact ⟨_, _, rule, Rest.handleCreatePolicy_requestBody hvalid, hP, codec_of_valid hvalid⟩

/-! ### The gate -/

/-- While every entry comes from a rule without a conflict, insertions are plain L4 ALLOWs. -/
theorem gated_of_entriesFrom (h : EntriesFrom R s.writer.policyMap) (hR : ∀ rule, R rule → ¬Conflicting rule)
    (ctx : BpfSockOps) (sk : σ) (updateFails : Bool) : Gated s ctx sk updateFails := by
  intro hchange
  rcases meridianSockOps_cases (σ := σ) with hsame | ⟨flow, hflow, hsrc, hdst, helig, -⟩
  · exact absurd hsame hchange
  · obtain ⟨v, hlookup, hallow, hflag⟩ := meridianVerdictSockmapEligible_iff.mp helig
    obtain ⟨rule, hrule, hkey, rfl⟩ := h _ v hlookup
    have hproto : rule.key.protocol = ipprotoTcp := (congrArg PolicyKey.proto hkey).symm
    have hplain := not_not.mp fun hne => hR rule hrule ⟨hproto, hallow, hflag, hne⟩
    exact ⟨flow, _, hflow, hsrc, hdst, hlookup, hallow, hflag, hplain⟩

def twoPods (rule : PolicyRule) : Table UInt32 UInt32 := fun addr =>
  if addr = 1 then some rule.key.srcIdentity else if addr = 2 then some rule.key.dstIdentity else none

/-- The connection between the two pods that a rule is about, at the end where its direction applies. -/
def ruleConnection (rule : PolicyRule) : BpfSockOps :=
  if rule.key.direction = policyDirIngress then
    { family := afInet, op := bpfSockOpsPassiveEstablishedCb, localIp4 := 2, remoteIp4 := 1,
      localPort := hostPort rule.key.dstPort, remotePort := 0 }
  else
    { family := afInet, op := bpfSockOpsActiveEstablishedCb, localIp4 := 1, remoteIp4 := 2, localPort := 0,
      remotePort := netPort rule.key.dstPort }

theorem sockFlow_ruleConnection (hdir : rule.key.direction = directionIngress ∨ rule.key.direction = directionEgress) :
    sockFlow (twoPods rule) (ruleConnection rule) =
      some ⟨rule.key.srcIdentity, rule.key.dstIdentity, rule.key.dstPort, rule.key.direction⟩ := by
  have hne : (2 : UInt32) ≠ 1 := by decide
  have hop : bpfSockOpsPassiveEstablishedCb ≠ bpfSockOpsActiveEstablishedCb := by decide
  rcases hdir with h | h
  · have hin : rule.key.direction = policyDirIngress := h
    simp [sockFlow, ruleConnection, hin, twoPods, meridianIdentityOf, hne, hop]
  · have hout : rule.key.direction ≠ policyDirIngress := by rw [h]; decide
    have hdir : policyDirEgress = rule.key.direction := h.symm
    simp [sockFlow, ruleConnection, hout, twoPods, meridianIdentityOf, hne, hdir]

def admitRun (rule : PolicyRule) : List (GateEvent σ) :=
  [.upserts [rule] fun _ => false, .identities (twoPods rule)]

theorem not_gated_of_conflicting (hvalid : Rest.validatePolicyRule rule = none) (h : Conflicting rule) (sk : σ) :
    ¬Gated (execute GateState.step (GateState.empty (σ := σ)) (admitRun rule)) (ruleConnection rule) sk false := by
  obtain ⟨hsrc, hdst, -, hdir, -⟩ := Rest.validatePolicyRule_eq_none_iff.mp hvalid
  obtain ⟨hproto, hallow, hflag, hreq⟩ := h
  have hflow := sockFlow_ruleConnection hdir
  have hkey : (⟨rule.key.srcIdentity, rule.key.dstIdentity, rule.key.dstPort, ipprotoTcp, rule.key.direction⟩ : PolicyKey)
      = Datapath.translatePolicyRuleKey rule.key := by
    rw [← hproto]
    rfl
  have hlookup : meridianPolicyLookup (execute GateState.step (GateState.empty (σ := σ)) (admitRun rule)).writer.policyMap
      rule.key.srcIdentity rule.key.dstIdentity rule.key.dstPort ipprotoTcp rule.key.direction =
        some (Datapath.translatePolicyVerdict rule.verdict) := by
    rw [meridianPolicyLookup, hkey]
    exact Table.put_same _ _ _
  intro hgated
  have hinsert := meridianSockOps_inserts sk (fun _ => none) hflow hsrc hdst
    (meridianVerdictSockmapEligible_iff.mpr ⟨_, hlookup, hallow, hflag⟩)
  obtain ⟨flow, v, hflow', -, -, hlookup', -, -, hplain⟩ := hgated fun hsame => by
    have := congrFun (hinsert.symm.trans hsame) (sockKeyOf (ruleConnection rule))
    rw [Table.put_same] at this
    cases this
  cases hflow.symm.trans hflow'
  cases hlookup.symm.trans hlookup'
  exact hreq hplain

end Gate

/-- Sockets enter the map only by plain L4 ALLOW entries, in every run over rules in `P`, exactly when `P`
    has no admissible rule with the fast path and a requirement at once. -/
theorem sockhash_gated_iff {σ : Type} [Inhabited σ] (P : PolicyRule → Prop) :
    (∀ (s : GateState σ) (es : List (GateEvent σ)), s.writer.policyMap = (fun _ => none) →
        (∀ e ∈ es, e.Admissible P) → ∀ ctx sk updateFails, Gated (execute GateState.step s es) ctx sk updateFails) ↔
      ∀ rule, P rule → Rest.validatePolicyRule rule = none → ¬Conflicting rule := by
  constructor
  · intro h rule hP hvalid hconf
    refine not_gated_of_conflicting hvalid hconf (default : σ) (h GateState.empty (admitRun rule) rfl ?_ _ _ _)
    have hreach : ∀ r ∈ [rule], Reaches P r := fun r hr => by
      rw [List.mem_singleton.mp hr]
      exact reaches_iff.mpr ⟨hP, hvalid⟩
    intro e he
    rcases List.mem_cons.mp he with rfl | he
    · exact hreach
    · rw [List.mem_singleton.mp he]
      exact trivial
  · intro h s es hempty hes ctx sk updateFails
    have hstart : EntriesFrom (Reaches P) s.writer.policyMap := by
      intro k v hk
      rw [hempty] at hk
      cases hk
    refine gated_of_entriesFrom (GateState.run_entriesFrom hes hstart) (fun rule hrule => ?_) ctx sk updateFails
    obtain ⟨hP, hvalid⟩ := reaches_iff.mp hrule
    exact h rule hP hvalid

def eligibleL7Rule : PolicyRule := ⟨⟨7, 8, 8080, 6, directionIngress⟩, ⟨policyActionAllow, 3⟩⟩

theorem sockhash_not_gated :
    Rest.handleCreatePolicy (fun _ => none) (Rest.requestBody eligibleL7Rule) = .ok eligibleL7Rule ∧
      Cc2.decodePolicyRule (Cc2.encodePolicyRule eligibleL7Rule) = .ok eligibleL7Rule ∧
      ¬Gated (execute GateState.step (GateState.empty (σ := Nat)) (admitRun eligibleL7Rule)) (ruleConnection eligibleL7Rule)
        0 false := by
  have hvalid : Rest.validatePolicyRule eligibleL7Rule = none := by decide
  refine ⟨Rest.handleCreatePolicy_requestBody hvalid, codec_of_valid hvalid, not_gated_of_conflicting hvalid ?_ 0⟩
  unfold Conflicting
  decide

/-! ### Redirects -/

section Redirect

variable {ι : Type} (conns : ι → Conn)

def endpointKey (e : Endpoint) : SockKey := ⟨e.ip, bpfHtons e.port⟩

theorem endpointKey_inj {e e' : Endpoint} (h : endpointKey e = endpointKey e') : e = e' := by
  obtain ⟨ip, port⟩ := e
  obtain ⟨ip', port'⟩ := e'
  simp only [endpointKey, SockKey.mk.injEq] at h
  rw [h.1, swapU16_inj h.2]

@[simp] theorem sockKeyOf_opsCtx (sk : Sock ι) : sockKeyOf (sk.opsCtx conns) = endpointKey (sk.localEnd conns) := by
  simp [sockKeyOf, Sock.opsCtx, endpointKey]

theorem peer_localEnd (sk : Sock ι) : sk.peer.localEnd conns = sk.remoteEnd conns := by
  cases h : sk.active <;> simp [Sock.peer, Sock.localEnd, Sock.remoteEnd, h]

theorem peer_remoteEnd (sk : Sock ι) : sk.peer.remoteEnd conns = sk.localEnd conns := by
  cases h : sk.active <;> simp [Sock.peer, Sock.localEnd, Sock.remoteEnd, h]

theorem peer_peer (sk : Sock ι) : sk.peer.peer = sk := by
  simp [Sock.peer]

theorem redirect_eq (s : HostState ι) (sk : Sock ι) :
    s.redirect conns sk = s.sockhash (endpointKey (sk.remoteEnd conns)) := by
  have hkey : skMsgKey (sk.msg conns) = endpointKey (sk.remoteEnd conns) := by
    simp [skMsgKey, Sock.msg, endpointKey]
  unfold HostState.redirect meridianSkMsg bpfMsgRedirectHash
  rw [if_neg (by simp [Sock.msg]), hkey]
  cases s.sockhash (endpointKey (sk.remoteEnd conns)) <;> rfl

def StoredLocally (t : Table SockKey (Sock ι)) : Prop := ∀ k sk, t k = some sk → k = endpointKey (sk.localEnd conns)

theorem step_storedLocally {s : HostState ι} (h : StoredLocally conns s.sockhash) (e : HostEvent ι) :
    StoredLocally conns (s.step conns e).sockhash := by
  cases e with
  | send sk => exact h
  | established sk identityMap policyMap updateFails =>
    have hcases : (s.step conns (.established sk identityMap policyMap updateFails)).sockhash = s.sockhash ∨
        (s.step conns (.established sk identityMap policyMap updateFails)).sockhash =
          Table.put s.sockhash (endpointKey (sk.localEnd conns)) sk := by
      rcases meridianSockOps_cases (σ := Sock ι) with hsame | ⟨_, -, -, -, -, hput⟩
      · exact Or.inl hsame
      · exact Or.inr (by rw [← sockKeyOf_opsCtx]; exact hput)
    rcases hcases with hsame | hput
    · rw [hsame]
      exact h
    · rw [hput]
      intro k sk' hk
      rcases Table.of_put hk with ⟨rfl, rfl⟩ | ⟨-, hk⟩
      · rfl
      · exact h k sk' hk

theorem run_storedLocally (es : List (HostEvent ι)) :
    StoredLocally conns (execute (HostState.step conns) .start es).sockhash :=
  execute_inv (I := fun s : HostState ι => StoredLocally conns s.sockhash) (fun _ e h => step_storedLocally conns h e)
    (fun _ _ h => by cases h) es

theorem established_inserts (s : HostState ι) (sk : Sock ι) :
    (s.step conns (.established sk (fun _ => some 1) (fun _ => some ⟨0, 1⟩) false)).sockhash =
      Table.put s.sockhash (endpointKey (sk.localEnd conns)) sk := by
  rw [← sockKeyOf_opsCtx]
  have hop : bpfSockOpsPassiveEstablishedCb ≠ bpfSockOpsActiveEstablishedCb := by decide
  have hflow : ∃ port dir, sockFlow (fun _ => some 1) (sk.opsCtx conns) = some ⟨1, 1, port, dir⟩ := by
    cases h : sk.active with
    | true => exact ⟨(sk.remoteEnd conns).port, policyDirEgress, by simp [sockFlow, Sock.opsCtx, h, meridianIdentityOf]⟩
    | false =>
      exact ⟨(sk.localEnd conns).port, policyDirIngress, by simp [sockFlow, Sock.opsCtx, h, hop, meridianIdentityOf]⟩
  obtain ⟨port, dir, hflow⟩ := hflow
  have helig : meridianVerdictSockmapEligible (some ⟨0, 1⟩) = true := by decide
  exact meridianSockOps_inserts sk _ hflow (show (1 : UInt32) ≠ 0 by decide) (show (1 : UInt32) ≠ 0 by decide) helig

end Redirect

/-- On a host with the connections `conns`, a message never leaves its connection, whatever the policies,
    the order of establishment and the sends, exactly when no two sockets have the same local end. -/
theorem redirect_reaches_peer_iff {ι : Type} (conns : ι → Conn) :
    (∀ (es : List (HostEvent ι)) (sk target : Sock ι),
        (execute (HostState.step conns) .start es).redirect conns sk = some target → target = sk.peer) ↔
      ∀ a b : Sock ι, a.localEnd conns = b.localEnd conns → a = b := by
  constructor
  · intro h a b hab
    rw [← peer_peer b]
    apply h [.established a (fun _ => some 1) (fun _ => some ⟨0, 1⟩) false]
    rw [redirect_eq, peer_remoteEnd, ← hab]
    exact (congrFun (established_inserts conns HostState.start a) _).trans (Table.put_same _ _ _)
  · intro h es sk target hhit
    rw [redirect_eq, ← peer_localEnd] at hhit
    exact (h _ _ (endpointKey_inj (run_storedLocally conns es _ _ hhit))).symm

/-- Two clients of one server: 10.0.0.1:40000 and 10.0.0.2:40001 at 10.0.0.3:8080. -/
def twoClients (i : Bool) : Conn :=
  { client := if i then ⟨0x0200000a, 40001⟩ else ⟨0x0100000a, 40000⟩, server := ⟨0x0300000a, 8080⟩ }

/-- The server's ends of both connections are inserted, the second over the first; then a message of the
    first client reaches the socket that serves the second. -/
theorem redirect_misses_peer :
    (execute (HostState.step twoClients) .start
        [.established ⟨false, false⟩ (fun _ => some 1) (fun _ => some ⟨0, 1⟩) false,
         .established ⟨true, false⟩ (fun _ => some 1) (fun _ => some ⟨0, 1⟩) false]).redirect twoClients ⟨false, true⟩ =
      some ⟨true, false⟩ ∧ (⟨true, false⟩ : Sock Bool) ≠ Sock.peer ⟨false, true⟩ := by
  decide

end Meridian.Sockhash
