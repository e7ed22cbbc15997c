import Meridian.Control.Ads
import Meridian.Control.Store

/-! The loop of one ADS stream (`handle` in `internal/control/ads`) over the in-memory store. A push reads the store and
    sends in two steps, and everything else may happen in between. -/

namespace Meridian.Ads
open Lib Wire Cc2 Xds Meridian.Store

/-- Where the loop is: at its `select`, with types left to push as far as they are subscribed, with the resources of a
    type read and not yet sent, or at its end. -/
inductive Loop where
  | select
  | pushing (todo : List String)
  | sending (typeUrl : String) (resources : List AnyMsg) (todo : List String)
  | returned

/-- A stream: the number of its watch, until the loop finds the channel closed, and the responses it has sent. -/
structure Handler where
  watch : Option Nat
  server : Server
  loop : Loop
  sent : List DiscoveryResponse

/-- The last response of a type. -/
def Handler.lastSent (h : Handler) (typeUrl : String) : Option DiscoveryResponse :=
  h.sent.reverse.find? fun resp => resp.typeUrl = typeUrl

def Handler.onRequest (h : Handler) (req : DiscoveryRequest) : Handler :=
  if req.typeUrl = "" then h
  else
    match h.server.state.classify req.typeUrl req.responseNonce req.errorDetail.isSome with
    | (.initial, state) =>
      { h with
        server := { h.server with state, subscribed := Function.update h.server.subscribed req.typeUrl true }
        loop := .pushing [req.typeUrl] }
    | (_, state) => { h with server := { h.server with state } }

structure System where
  memory : Memory
  handler : Option Handler

namespace System

def start : System := ⟨.new, none⟩

/-- A listing comes in any order of the values. -/
inductive Event where
  | store (e : Memory.Event)
  | connect
  | request (req : DiscoveryRequest)
  | wake
  | read (policies : List PolicyRule) (identities : List Identity)
  | send (fails : Bool)
  | done
  | recvError

/-- The stream alone receives from its watch. -/
def store (s : System) (e : Memory.Event) : System :=
  match e, s.handler.bind (·.watch) with
  | .recv i, some w => if i = w then s else { s with memory := s.memory.step e }
  | _, _ => { s with memory := s.memory.step e }

def connect (s : System) : System :=
  if s.handler.isNone && s.memory.unlocked then
    ⟨s.memory.watch, some { watch := some s.memory.chans.length, server := .start, loop := .select, sent := [] }⟩
  else s

def request (s : System) (req : DiscoveryRequest) : System :=
  match s.handler with
  | none => s
  | some h =>
    match h.loop with
    | .select => { s with handler := some (h.onRequest req) }
    | _ => s

/-- A notification makes the loop push every subscribed type. -/
def wake (s : System) : System :=
  match s.handler with
  | none => s
  | some h =>
    match h.loop, h.watch with
    | .select, some w =>
      match s.memory.chans[w]?.bind (·.recv) with
      | none => s
      | some (some _, ch) =>
        ⟨{ s.memory with chans := s.memory.chans.set w ch }, some { h with loop := .pushing pushOrder }⟩
      | some (none, _) => { s with handler := some { h with watch := none } }
    | _, _ => s

/-- The next type of a push: its resources are read under the read lock. -/
def read (s : System) (policies : List PolicyRule) (identities : List Identity) : System :=
  match s.handler with
  | none => s
  | some h =>
    match h.loop with
    | .pushing [] => { s with handler := some { h with loop := .select } }
    | .pushing (typeUrl :: todo) =>
      if !h.server.subscribed typeUrl then { s with handler := some { h with loop := .pushing todo } }
      else if s.memory.writeLocked || !policies.isPerm s.memory.contents.listPolicies ||
          !identities.isPerm s.memory.contents.listIdentities then s
      else
        match resourcesFor ⟨some policies, some identities⟩ typeUrl with
        | none => { s with handler := some { h with loop := .returned } }
        | some resources => { s with handler := some { h with loop := .sending typeUrl resources todo } }
    | _ => s

def send (s : System) (fails : Bool) : System :=
  match s.handler with
  | none => s
  | some h =>
    match h.loop with
    | .sending typeUrl resources todo =>
      match h.server.state.preparePush typeUrl with
      | (versionInfo, nonce, state) =>
        let h := { h with server := { h.server with state } }
        if fails then { s with handler := some { h with loop := .returned } }
        else
          { s with
            handler := some { h with
              loop := .pushing todo
              sent := h.sent ++ [⟨typeUrl, versionInfo, nonce, resources⟩] } }
    | _ => s

/-- The stream's context is done once its goroutine no longer waits for it. -/
def done (s : System) : System :=
  match s.handler with
  | none => s
  | some h =>
    match h.loop, h.watch with
    | .select, some w =>
      if s.memory.routines[w]? = some .waiting then s else { s with handler := some { h with loop := .returned } }
    | .select, none => { s with handler := some { h with loop := .returned } }
    | _, _ => s

def recvError (s : System) : System :=
  match s.handler with
  | none => s
  | some h =>
    match h.loop with
    | .select => { s with handler := some { h with loop := .returned } }
    | _ => s

def step (s : System) (e : Event) : System :=
  if s.memory.panicked then s
  else
    match e with
    | .store e => s.store e
    | .connect => s.connect
    | .request req => s.request req
    | .wake => s.wake
    | .read policies identities => s.read policies identities
    | .send fails => s.send fails
    | .done => s.done
    | .recvError => s.recvError

/-- A read and a send with nothing in between are one `push` of the server. -/
theorem handler_read_send {s : System} {h : Handler} {typeUrl : String} {todo : List String} {policies : List PolicyRule}
    {identities : List Identity} {resources : List AnyMsg} (hs : s.handler = some h)
    (hloop : h.loop = .pushing (typeUrl :: todo)) (hsub : h.server.subscribed typeUrl = true)
    (hlock : s.memory.writeLocked = false) (hp : policies.isPerm s.memory.contents.listPolicies = true)
    (hi : identities.isPerm s.memory.contents.listIdentities = true)
    (hres : resourcesFor ⟨some policies, some identities⟩ typeUrl = some resources) :
    ((s.read policies identities).send false).handler =
      some { h with
        server := { h.server with state := (h.server.push ⟨some policies, some identities⟩ false typeUrl).1.state }
        loop := .pushing todo
        sent := h.sent ++ (h.server.push ⟨some policies, some identities⟩ false typeUrl).2.toList } := by
  have hread : s.read policies identities = { s with handler := some { h with loop := .sending typeUrl resources todo } } := by
    simp only [read, hs, hloop, hsub, hlock, hp, hi, hres]
    rfl
  rw [hread, Server.push, hres]
  rfl

end System

end Meridian.Ads
