import Meridian.Agent.Xds
import Meridian.Lib.Text

/-! The control plane's ADS server (`internal/control/ads`): the versions and nonces of one stream, and what a request
    or a change of the store makes the server push. -/

namespace Meridian.Ads
open Lib Wire Cc2 Xds

/-! ### Versions and nonces -/

inductive AckKind where
  | initial
  | ack
  | nack
  | stale
  deriving DecidableEq, Repr

structure TypeState where
  sentVersion : UInt64
  ackedVersion : UInt64
  lastNonce : String
  hasOutstanding : Bool
  deriving DecidableEq, Repr

structure StreamState where
  byType : Table String TypeState
  nonceSeq : UInt64

namespace StreamState

def new : StreamState := ⟨fun _ => none, 0⟩

/-- The state of a type, the zero one before its first use. -/
def get (s : StreamState) (typeUrl : String) : TypeState := (s.byType typeUrl).getD ⟨0, 0, "", false⟩

def put (s : StreamState) (typeUrl : String) (ts : TypeState) : StreamState :=
  { s with byType := Table.put s.byType typeUrl ts }

/-- The version and the nonce to stamp, and the state with the push outstanding. -/
def preparePush (s : StreamState) (typeUrl : String) : String × String × StreamState :=
  let ts := s.get typeUrl
  let sentVersion := ts.sentVersion + 1
  let nonceSeq := s.nonceSeq + 1
  let nonce := decimal nonceSeq.toNat
  (decimal sentVersion.toNat, nonce,
    { s with nonceSeq }.put typeUrl { ts with sentVersion, lastNonce := nonce, hasOutstanding := true })

def classify (s : StreamState) (typeUrl responseNonce : String) (hasError : Bool) : AckKind × StreamState :=
  let ts := s.get typeUrl
  if responseNonce = "" then (.initial, s)
  else if !ts.hasOutstanding || responseNonce ≠ ts.lastNonce then (.stale, s)
  else
    let ts := { ts with hasOutstanding := false, lastNonce := "" }
    if hasError then (.nack, s.put typeUrl ts)
    else (.ack, s.put typeUrl { ts with ackedVersion := ts.sentVersion })

def acceptedVersion (s : StreamState) (typeUrl : String) : UInt64 := (s.get typeUrl).ackedVersion

def sentVersionOf (s : StreamState) (typeUrl : String) : UInt64 := (s.get typeUrl).sentVersion

theorem put_get (s : StreamState) (typeUrl : String) (ts : TypeState) (t : String) :
    (s.put typeUrl ts).get t = if t = typeUrl then ts else s.get t := by
  unfold get put
  by_cases h : t = typeUrl
  · subst h
    simp
  · simp [Table.put_of_ne (Ne.symm h), h]

theorem preparePush_get (s : StreamState) (typeUrl t : String) :
    (s.preparePush typeUrl).2.2.get t =
      if t = typeUrl then
        { s.get typeUrl with
          sentVersion := (s.get typeUrl).sentVersion + 1, lastNonce := decimal (s.nonceSeq + 1).toNat, hasOutstanding := true }
      else s.get t :=
  put_get { s with nonceSeq := s.nonceSeq + 1 } typeUrl _ t

end StreamState

/-! ### The server -/

/-- What the store returns when it is asked, nothing for an error. -/
structure Store where
  listPolicies : Option (List PolicyRule)
  listIdentities : Option (List Identity)

def resourcesFor (store : Store) (typeUrl : String) : Option (List AnyMsg) :=
  if typeUrl = clusterType then store.listPolicies.map fun policies => policies.map encodePolicyRule
  else if typeUrl = endpointType then store.listIdentities.map fun identities => identities.map encodeIdentity
  else some []

def listenerType : String := "type.googleapis.com/envoy.config.listener.v3.Listener"
def routeType : String := "type.googleapis.com/envoy.config.route.v3.RouteConfiguration"

/-- Make before break: clusters before endpoints, listeners before routes. -/
def pushOrder : List String := [clusterType, endpointType, listenerType, routeType]

/-- The server's side of a stream; an error of the handler ends it. -/
structure Server where
  state : StreamState
  subscribed : String → Bool
  running : Bool

namespace Server

def start : Server := ⟨.new, fun _ => false, true⟩

/-- The server after a push, and the response that it stamped. A failed send comes after the stamp. -/
def push (store : Store) (sendFails : Bool) (srv : Server) (typeUrl : String) : Server × Option DiscoveryResponse :=
  match resourcesFor store typeUrl with
  | none => ({ srv with running := false }, none)
  | some resources =>
    match srv.state.preparePush typeUrl with
    | (versionInfo, nonce, state) =>
      ({ srv with state, running := !sendFails }, some { typeUrl, versionInfo, nonce, resources })

def onRequest (store : Store) (sendFails : Bool) (srv : Server) (req : DiscoveryRequest) :
    Server × Option DiscoveryResponse :=
  if req.typeUrl = "" then (srv, none)
  else
    match srv.state.classify req.typeUrl req.responseNonce req.errorDetail.isSome with
    | (.initial, state) =>
      push store sendFails { srv with state, subscribed := Function.update srv.subscribed req.typeUrl true } req.typeUrl
    | (_, state) => ({ srv with state }, none)

end Server

/-! ### The stream -/

/-- A response that the client handled: the client before, and what failed. -/
structure Exchange where
  client : Client
  resp : DiscoveryResponse
  fails : Nat → Bool
  sendFails : Bool

def Exchange.result (e : Exchange) : Handled := e.client.handle e.fails e.sendFails e.resp

/-- The client decoded the resources of the response and applied them. -/
def Exchange.Applied (e : Exchange) : Prop :=
  ∃ candidate writer, e.client.candidateFor e.resp = .ok candidate ∧
    Datapath.apply e.fails (diff e.client.applied candidate) e.client.writer = (none, writer)

/-- Both ends, the messages under way, and what was stamped and handled so far, oldest first. -/
structure Stream where
  server : Server
  client : Client
  clientRunning : Bool
  toClient : List DiscoveryResponse
  toServer : List DiscoveryRequest
  issued : List DiscoveryResponse
  handled : List Exchange

inductive Event where
  | subscribe (typeUrl : String)
  | request (store : Store) (sendFails : Bool)
  | push (typeUrl : String) (store : Store) (sendFails : Bool)
  | response (fails : Nat → Bool) (sendFails : Bool)

namespace Stream

def start (client : Client) : Stream := ⟨.start, client, true, [], [], [], []⟩

/-- A response is under way once it is sent, which leaves the server running. -/
def served (s : Stream) (r : Server × Option DiscoveryResponse) : Stream :=
  { s with
    server := r.1
    issued := s.issued ++ r.2.toList
    toClient := if r.1.running then s.toClient ++ r.2.toList else s.toClient }

def answered (s : Stream) (e : Exchange) (rest : List DiscoveryResponse) : Stream :=
  { s with
    client := e.result.client
    clientRunning := !e.sendFails
    toClient := rest
    toServer := if e.sendFails then s.toServer else s.toServer ++ [e.result.request]
    handled := s.handled ++ [e] }

def step (s : Stream) : Event → Stream
  | .subscribe typeUrl =>
    if s.clientRunning then { s with toServer := s.toServer ++ [⟨typeUrl, "", "", none⟩] } else s
  | .request store sendFails =>
    match s.toServer with
    | [] => s
    | req :: rest =>
      if s.server.running then { s with toServer := rest }.served (s.server.onRequest store sendFails req) else s
  | .push typeUrl store sendFails =>
    if s.server.running then s.served (s.server.push store sendFails typeUrl) else s
  | .response fails sendFails =>
    match s.toClient with
    | [] => s
    | resp :: rest => if s.clientRunning then s.answered ⟨s.client, resp, fails, sendFails⟩ rest else s

def acked (s : Stream) (typeUrl : String) : UInt64 := s.server.state.acceptedVersion typeUrl

def sent (s : Stream) (typeUrl : String) : UInt64 := s.server.state.sentVersionOf typeUrl

end Stream

end Meridian.Ads
