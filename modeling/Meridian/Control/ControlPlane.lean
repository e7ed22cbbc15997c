import Meridian.Agent.XdsRun
import Meridian.Control.Handle
import Meridian.Control.PodInformer

/-! The system as a whole: the control plane with its store and one stream, the agent at the other end, and the informers
    of pods and of policies, which write to the store through calls. -/

namespace Meridian.K8s
open Lib Wire Meridian.Store

/-! ### The calls of an event -/

/-- The store calls of a policy event: its rules are put, then the keys that are no longer produced are deleted. -/
def PolicyWatcher.calls (w : PolicyWatcher) : InformerEvent → List Mutation
  | .upsert obj resolver =>
    match policyFromObject obj with
    | none => []
    | some pol =>
      match compilePolicyRules pol resolver with
      | .error _ => []
      | .ok rules => rules.map .putPolicy ++ (w.deletes (.upsert obj resolver)).map .deletePolicy
  | .delete obj resolver => (w.deletes (.delete obj resolver)).map .deletePolicy

/-- The store call of a pod event. -/
def Watcher.calls (w : Watcher) : PodEvent → List Mutation
  | .upsert pod =>
    match pod.meshed with
    | none => []
    | some spiffeID =>
      match w.registry.allocate pod.name with
      | none => []
      | some (id, _) => [.putIdentity (pod.identity spiffeID id)]
  | .delete pod tombstone =>
    if tombstone then []
    else
      match w.registry.lookupByName pod.name with
      | none => []
      | some id => [.deleteIdentity id]

end Meridian.K8s

namespace Meridian.Ads
open Lib Xds Datapath K8s Meridian.Store

/-! ### The control plane and an agent -/

/-- The control plane with its end of the agent's stream, the agent, its requests under way, and the number of responses
    on the stream that it received. Other streams, and what is left of earlier ones, take part as watches of the store. -/
structure Mesh where
  control : System
  agent : Agent
  requests : List DiscoveryRequest
  received : Nat

namespace Mesh

def start (writer : Writer) : Mesh := ⟨.start, .start writer, [], 0⟩

inductive Event where
  | control (e : System.Event)
  | accept
  | request
  | dial (fails : Bool) (draw : Nat)
  | subscribe (fails : Bool) (draw : Nat)
  | recv (fails : Nat → Bool) (sendFails : Bool) (draw : Nat)
  | recvError (draw : Nat)
  | timer
  | cancel

/-- The agent took a step and sent requests. The stream is gone if the step ended it. -/
def goOn (m : Mesh) (a : Agent) (sent : List DiscoveryRequest) : Mesh :=
  if a.streaming then { m with agent := a, requests := m.requests ++ sent }
  else ⟨{ m.control with handler := none }, a, [], 0⟩

/-- Of the control plane's steps, those that do not come from the agent. -/
def controlStep (m : Mesh) : System.Event → Mesh
  | .connect | .request _ => m
  | e => { m with control := m.control.step e }

/-- The server takes up the agent's stream. -/
def accept (m : Mesh) : Mesh := if m.agent.streaming then { m with control := m.control.step .connect } else m

def request (m : Mesh) : Mesh :=
  match m.requests, m.control.handler.map Handler.loop with
  | req :: rest, some .select => { m with control := m.control.step (.request req), requests := rest }
  | _, _ => m

def subscribe (m : Mesh) (fails : Bool) (draw : Nat) : Mesh :=
  match m.agent.phase with
  | .subscribing (typeUrl :: _) => m.goOn (m.agent.subscribe fails draw) [⟨typeUrl, "", "", none⟩]
  | .subscribing [] => m.goOn (m.agent.subscribe fails draw) []
  | _ => m

def recv (m : Mesh) (fails : Nat → Bool) (sendFails : Bool) (draw : Nat) : Mesh :=
  match m.agent.phase, m.control.handler.bind (·.sent[m.received]?) with
  | .receiving _, some resp =>
    { m with received := m.received + 1 }.goOn (m.agent.recv resp fails sendFails draw)
      [(m.agent.client.handle fails sendFails resp).request]
  | _, _ => m

def step (m : Mesh) : Event → Mesh
  | .control e => m.controlStep e
  | .accept => m.accept
  | .request => m.request
  | .dial fails draw => m.goOn (m.agent.dial fails draw) []
  | .subscribe fails draw => m.subscribe fails draw
  | .recv fails sendFails draw => m.recv fails sendFails draw
  | .recvError draw => m.goOn (m.agent.recvError draw) []
  | .timer => m.goOn m.agent.timer []
  | .cancel => m.goOn m.agent.cancel []

end Mesh

/-! ### The control plane of a cluster -/

/-- The store and the agent with its streams, and the two informers with the calls that the event each one is about has
    still to make. -/
structure ControlPlane where
  mesh : Mesh
  policies : Mirror
  policyCalls : List Mutation
  pods : K8s.Cluster
  podCalls : List Mutation

namespace ControlPlane

def start : ControlPlane := ⟨.start (.new (fun _ => none) fun _ => none), .start, [], .start, []⟩

inductive Event where
  | policy (e : InformerEvent)
  | policyCall
  | pod (e : PodEvent)
  | podCall
  | mesh (e : Mesh.Event)

/-- The first call waits for the lock of the store. -/
def call (m : Mesh) : List Mutation → Mesh × List Mutation
  | [] => (m, [])
  | mutation :: rest =>
    if m.control.memory.panicked || !m.control.memory.unlocked then (m, mutation :: rest)
    else (m.step (.control (.store (.mutate mutation))), rest)

/-- An informer takes its next event when it is through with the last one. -/
def step (c : ControlPlane) : Event → ControlPlane
  | .policy e =>
    if c.policyCalls = [] then { c with policies := c.policies.step e, policyCalls := c.policies.watcher.calls e } else c
  | .policyCall => { c with mesh := (call c.mesh c.policyCalls).1, policyCalls := (call c.mesh c.policyCalls).2 }
  | .pod e => if c.podCalls = [] then { c with pods := c.pods.step e, podCalls := c.pods.watcher.calls e } else c
  | .podCall => { c with mesh := (call c.mesh c.podCalls).1, podCalls := (call c.mesh c.podCalls).2 }
  | .mesh e => { c with mesh := c.mesh.step e }

end ControlPlane

end Meridian.Ads
