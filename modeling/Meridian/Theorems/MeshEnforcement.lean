import Meridian.Control.Conformance
import Meridian.Theorems.KernelReference
import Meridian.Theorems.Reconnect

/-! From the store to the verdict. When the agent's stream is at rest, its node's kernel decides a packet as the reference
    evaluator does over the rules and identities in the store, as long as no update on the way was one that the writer
    does not carry over. -/

namespace Meridian.Ads
open Lib Wire Cc2 Xds Datapath Meridian.Store

namespace Mesh

/-- The response is well formed and its update clean. -/
def CleanEvent (m : Mesh) : Event → Prop
  | .recv fails sendFails _ => ∀ resp, m.control.handler.bind (·.sent[m.received]?) = some resp →
    WellFormed resp ∧ CleanStep m.agent.client ⟨resp, fails, sendFails⟩
  | _ => True

theorem goOn_client (m : Mesh) (a : Agent) (sent : List DiscoveryRequest) : (m.goOn a sent).agent = a := by
  unfold Mesh.goOn
  split <;> rfl

/-- The agent's client changes with a response only. -/
theorem step_client (m : Mesh) (e : Event) : (m.step e).agent.client = m.agent.client ∨
    ∃ fails sendFails draw resp, e = .recv fails sendFails draw ∧
      m.control.handler.bind (·.sent[m.received]?) = some resp ∧
      (m.step e).agent.client = (m.agent.client.handle fails sendFails resp).client := by
  cases e with
  | control e =>
    left
    simp only [Mesh.step, Mesh.controlStep]
    split <;> rfl
  | accept =>
    left
    simp only [Mesh.step, Mesh.accept]
    split <;> rfl
  | request =>
    left
    simp only [Mesh.step, Mesh.request]
    split <;> rfl
  | dial fails draw =>
    left
    simp only [Mesh.step, goOn_client, Agent.dial]
    split
    · split <;> rfl
    · rfl
  | subscribe fails draw =>
    left
    simp only [Mesh.step, Mesh.subscribe, Agent.subscribe]
    split <;> simp only [goOn_client, *]
    split <;> rfl
  | recv fails sendFails draw =>
    simp only [Mesh.step, Mesh.recv]
    split
    · rename_i p resp hphase hnext
      refine .inr ⟨fails, sendFails, draw, resp, rfl, hnext, ?_⟩
      rw [goOn_client]
      simp only [Agent.recv, hphase]
      split <;> rfl
    · exact .inl rfl
  | recvError draw =>
    left
    simp only [Mesh.step, goOn_client, Agent.recvError]
    split <;> rfl
  | timer =>
    left
    simp only [Mesh.step, goOn_client, Agent.timer]
    split <;> rfl
  | cancel =>
    left
    simp only [Mesh.step, goOn_client, Agent.cancel]

theorem inSync_step (m : Mesh) (e : Event) (h : InSync m.agent.client) (hclean : m.CleanEvent e) :
    InSync (m.step e).agent.client := by
  rcases step_client m e with heq | ⟨fails, sendFails, draw, resp, rfl, hnext, heq⟩
  · rw [heq]
    exact h
  · obtain ⟨hwf, hstep⟩ := hclean resp hnext
    rw [heq]
    have hwf : WellFormed (Push.mk resp fails sendFails).resp := hwf
    exact h.handle hwf hstep

end Mesh

end Meridian.Ads

namespace Meridian.Bpf
open Lib Wire Datapath Compiler

/-! ### Maps that hold a listing -/

theorem holdsRules_perm {t : Table PolicyKey PolicyVerdict} {rules rules' : List PolicyRule} (hperm : rules.Perm rules')
    (h : HoldsRules t rules) : HoldsRules t rules' := by
  intro key verdict
  rw [h key verdict]
  simp only [hperm.mem_iff]

theorem holdsIdentities_perm {t : Table UInt32 UInt32} {identities identities' : List Identity}
    (hperm : identities.Perm identities') (h : HoldsIdentities t identities) : HoldsIdentities t identities' := by
  intro key id
  rw [h key id]
  simp only [hperm.mem_iff]

/-- A map that holds the rules an evaluator was made from answers as the evaluator's table. -/
theorem policyMap_eq_rules {t : Table PolicyKey PolicyVerdict} {rules : List PolicyRule} (h : HoldsRules t rules)
    {mode : Reference.UnknownIdentityMode} {e : Reference.MapEvaluator}
    (hnew : newReferenceEvaluatorFromCompiled rules mode = .ok e) (key : Reference.RuleKey) :
    t (kernelKey key) = (e.rules key).map translatePolicyVerdict := by
  obtain ⟨-, -, hkeys, rfl⟩ := Reference.newEvaluator_eq_ok_iff.mp hnew
  refine Option.ext fun v => ?_
  rw [h, Option.map_eq_some_iff]
  constructor
  · rintro ⟨r, hr, hkey, rfl⟩
    refine ⟨r.verdict, (Reference.writes_ruleWrites_eq_some_iff hkeys).mpr ⟨referenceRule r, List.mem_map_of_mem hr, ?_, rfl⟩,
      rfl⟩
    exact kernelKey_injective hkey
  · rintro ⟨u, hu, rfl⟩
    obtain ⟨_, hrule, rfl, rfl⟩ := (Reference.writes_ruleWrites_eq_some_iff hkeys).mp hu
    obtain ⟨r, hr, rfl⟩ := List.mem_map.mp hrule
    exact ⟨r, hr, rfl, rfl⟩

/-- Outside the tunnel, on maps that hold the rules and identities, the kernel decides as the evaluator does. -/
theorem verdict_of_holds {identities : List Identity} {rules : List PolicyRule} {mode : Reference.UnknownIdentityMode}
    {e : Reference.MapEvaluator} {env : Env} {maps : Maps} {skb : Skb} {ip : Nat}
    (hidentities : HoldsIdentities maps.identityMap identities) (hrules : HoldsRules maps.policyMap rules)
    (hnew : newReferenceEvaluatorFromCompiled rules mode = .ok e)
    (hposture : failopenUnknownEnabled maps = decide (mode = Reference.unknownIdentityFailOpen))
    (hpull : env.skbFails 0 = false) (hip : parseIpv4AfterEth skb.data 0 = some ip)
    (hpresent : hasPorts skb.data ip → ipPayload skb.data ip + l4PortsBytes ≤ skb.data.length)
    (hnot : ¬(ipProtocol skb.data ip = ipprotoUdp ∧
      udpDest skb.data (ipPayload skb.data ip) = bpfHtons meridianGeneveUdpPort)) :
    ∃ v, e.evaluate .live (flowInput identities skb.data ip) = .ok v ∧
      ∃ redirects, (meridianTcIngress env maps skb).2.skb = marked skb redirects ∧
        Agrees v.action (meridianTcIngress env maps skb).1.action redirects := by
  obtain ⟨v, heval, hagree⟩ :=
    enforce_agrees hnew hposture (policyMap_eq_rules hrules hnew) (flowInput identities skb.data ip)
  obtain ⟨haction, hskb⟩ := ingress_plain hpull hip hpresent hnot (hidentities.getD_eq _) (hidentities.getD_eq _)
  refine ⟨v, heval, _, hskb, ?_⟩
  rw [haction]
  exact hagree

end Meridian.Bpf

namespace Meridian.Ads
open Lib Wire Cc2 Xds Datapath Bpf Compiler Meridian.Store

/-- After any run of clean updates, over any number of streams: when the agent's stream is at rest and accepted, ingress
    on its node decides a packet outside the tunnel as the reference evaluator does over what is in the store. -/
theorem settled_mesh_enforces_store (events : List Mesh.Event) {h : Handler} {w : Nat} {m : Mesh}
    (hm : execute Mesh.step (.start (Writer.new (fun _ => none) fun _ => none)) events = m)
    (hclean : Steps Mesh.step Mesh.CleanEvent (.start (Writer.new (fun _ => none) fun _ => none)) events)
    (hset : m.Settled h w) (hack : m.Accepted) {mode : Reference.UnknownIdentityMode} {e : Reference.MapEvaluator}
    (hnew : newReferenceEvaluatorFromCompiled m.control.memory.contents.listPolicies mode = .ok e) (env : Env) (maps : Maps)
    (skb : Skb) {ip : Nat} (hidentityMap : maps.identityMap = m.agent.client.writer.identityMap)
    (hpolicyMap : maps.policyMap = m.agent.client.writer.policyMap)
    (hposture : failopenUnknownEnabled maps = decide (mode = Reference.unknownIdentityFailOpen))
    (hpull : env.skbFails 0 = false) (hip : parseIpv4AfterEth skb.data 0 = some ip)
    (hpresent : hasPorts skb.data ip → ipPayload skb.data ip + l4PortsBytes ≤ skb.data.length)
    (hnot : ¬(ipProtocol skb.data ip = ipprotoUdp ∧
      udpDest skb.data (ipPayload skb.data ip) = bpfHtons meridianGeneveUdpPort)) :
    ∃ v, e.evaluate .live (flowInput m.control.memory.contents.listIdentities skb.data ip) = .ok v ∧
      ∃ redirects, (meridianTcIngress env maps skb).2.skb = marked skb redirects ∧
        Agrees v.action (meridianTcIngress env maps skb).1.action redirects := by
  have hlinked := Mesh.linked_run (Writer.new (fun _ => none) fun _ => none) events
  have hsync := execute_inv_of_steps (I := fun m : Mesh => InSync m.agent.client) Mesh.inSync_step inSync_start hclean
  rw [hm] at hlinked hsync
  refine verdict_of_holds ?_ ?_ hnew hposture hpull hip hpresent hnot
  · rw [hidentityMap]
    exact holdsIdentities_perm (hlinked.identities_of_settled hset hack) hsync.identities
  · rw [hpolicyMap]
    exact holdsRules_perm (hlinked.policies_of_settled hset hack) hsync.rules

/-- A change of the store with no stream to notify. -/
def stored (mutation : Mutation) : List Mesh.Event :=
  [.control (.store (.mutate mutation)), .control (.store (.notifyLock 0 [])), .control (.store (.notifyUnlock 0))]

def frameRule : PolicyRule := ⟨⟨7, 8, 8080, ipprotoTcp, directionIngress⟩, ⟨policyActionRedirectProxy, 0⟩⟩

/-- Two pods and a rule between them are put, and a stream brings them. -/
def frameRun : List Mesh.Event :=
  framePods.flatMap (fun pod => stored (.putIdentity pod)) ++ stored (.putPolicy frameRule) ++ taken [frameRule] framePods ++
    [.recv (fun _ => false) false 0, .recv (fun _ => false) false 0, .request, .request]

def frameMesh : Mesh := execute Mesh.step (.start (Writer.new (fun _ => none) fun _ => none)) frameRun

theorem frameRun_clean :
    Steps Mesh.step Mesh.CleanEvent (.start (Writer.new (fun _ => none) fun _ => none)) frameRun := by
  refine ⟨trivial, trivial, trivial, trivial, trivial, trivial, trivial, trivial, trivial, trivial, trivial, trivial,
    trivial, trivial, trivial, trivial, trivial, trivial, trivial, trivial, trivial, trivial, ?_, ?_, trivial, trivial,
    trivial⟩
  · intro resp hresp
    cases hresp
    refine ⟨⟨fun _ => ⟨[frameRule], by decide +kernel, by decide⟩, fun h => absurd h (by decide)⟩, ?_⟩
    exact cleanStep_of_ok ⟨[frameRule], []⟩ (by decide +kernel) (by decide +kernel) ⟨by decide, by decide⟩
  · intro resp hresp
    cases hresp
    refine ⟨⟨fun h => absurd h (by decide), fun _ => ⟨framePods, by decide +kernel, by decide, by decide⟩⟩, ?_⟩
    exact cleanStep_of_ok ⟨[frameRule], framePods⟩ (by decide +kernel) (by decide +kernel) ⟨by decide, by decide⟩

def frameKernel : Maps := .fresh frameMesh.agent.client.writer.identityMap frameMesh.agent.client.writer.policyMap none

theorem settled_mesh_enforces_store_redirect :
    ∃ e v, newReferenceEvaluatorFromCompiled frameMesh.control.memory.contents.listPolicies
        Reference.unknownIdentityFailClosed = .ok e ∧
      e.evaluate .live (flowInput frameMesh.control.memory.contents.listIdentities plainFrame 14) = .ok v ∧
      ∃ redirects, (meridianTcIngress quietEnv frameKernel ⟨plainFrame, 0⟩).2.skb = marked ⟨plainFrame, 0⟩ redirects ∧
        Agrees v.action (meridianTcIngress quietEnv frameKernel ⟨plainFrame, 0⟩).1.action redirects := by
  have hset : frameMesh.Settled _ 0 := ⟨⟨rfl, rfl, rfl, rfl⟩, ⟨_, rfl, rfl⟩, rfl, ⟨true, rfl⟩, rfl, rfl⟩
  have hack : frameMesh.Accepted := by
    intro t ht x hx
    rcases List.mem_pair.mp ht with rfl | rfl <;> cases hx <;> rfl
  have hnew : newReferenceEvaluatorFromCompiled frameMesh.control.memory.contents.listPolicies
      Reference.unknownIdentityFailClosed =
        .ok ⟨Reference.unknownIdentityFailClosed, Table.writes (fun _ => none) (Reference.ruleWrites [redirectRule])⟩ := rfl
  have hip : parseIpv4AfterEth plainFrame 0 = some 14 := by decide
  obtain ⟨v, hv⟩ := settled_mesh_enforces_store frameRun rfl frameRun_clean hset hack hnew quietEnv frameKernel
    ⟨plainFrame, 0⟩ rfl rfl (by decide) rfl hip (by decide) (by decide)
  exact ⟨_, v, hnew, hv⟩

end Meridian.Ads
