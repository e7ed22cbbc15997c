import Meridian.Agent.Datapath
import Meridian.Control.Cc2
import Meridian.Lib.Diff
import Meridian.Lib.Loop

/-! The agent's ADS client (`internal/agent/xds`): it decodes each push, applies its difference to the last
    applied snapshot through the datapath writer, and answers with an ACK or a NACK. -/

namespace Meridian.Xds
open Lib Wire Cc2 Datapath

structure Snapshot where
  policies : List PolicyRule
  identities : List Identity
  deriving DecidableEq, Repr

/-- The plan that turns the old applied snapshot into the next desired one. -/
def diff (old next : Snapshot) : CommitPlan :=
  { identityUpserts := upserts (·.id) old.identities next.identities
    identityDeletes := (gone (·.id) old.identities next.identities).map (·.id)
    policyUpserts := upserts (·.key) old.policies next.policies
    policyDeletes := (gone (·.key) old.policies next.policies).map (·.key) }

/-! ### Messages -/

def clusterType : String := "type.googleapis.com/envoy.config.cluster.v3.Cluster"
def endpointType : String := "type.googleapis.com/envoy.config.endpoint.v3.ClusterLoadAssignment"

structure DiscoveryResponse where
  typeUrl : String
  versionInfo : String
  nonce : String
  resources : List AnyMsg

inductive PushError where
  | clusterResource (index : Nat) (err : Cc2Error)
  | endpointResource (index : Nat) (err : Cc2Error)
  | unexpectedResources (count : Nat) (typeUrl : String)
  | applyFailed (err : ApplyError)
  deriving DecidableEq, Repr

structure DiscoveryRequest where
  typeUrl : String
  versionInfo : String
  responseNonce : String
  errorDetail : Option PushError
  deriving DecidableEq, Repr

/-! ### The client -/

structure Client where
  writer : Writer
  applied : Snapshot
  accepted : Table String String

def Client.new (writer : Writer) : Client := ⟨writer, ⟨[], []⟩, fun _ => none⟩

def Client.acceptedVersion (c : Client) (typeUrl : String) : String := (c.accepted typeUrl).getD ""

def decodeResources {ρ : Type} (decode : AnyMsg → Except Cc2Error ρ) (err : Nat → Cc2Error → PushError)
    (resources : List AnyMsg) : Except PushError (List ρ) :=
  rangeLoop (fun i res out =>
    match decode res with
    | .error e => .error (err i e)
    | .ok r => .ok (out ++ [r])) resources 0 []

/-- The desired snapshot that a push leads to, merged with the current state. -/
def Client.candidateFor (c : Client) (resp : DiscoveryResponse) : Except PushError Snapshot :=
  if resp.typeUrl = clusterType then
    match decodeResources decodePolicyRule .clusterResource resp.resources with
    | .error e => .error e
    | .ok policies => .ok { c.applied with policies }
  else if resp.typeUrl = endpointType then
    match decodeResources decodeIdentity .endpointResource resp.resources with
    | .error e => .error e
    | .ok identities => .ok { c.applied with identities }
  else if resp.resources.length ≠ 0 then .error (.unexpectedResources resp.resources.length resp.typeUrl)
  else .ok c.applied

def Client.commit (c : Client) (typeUrl version : String) (snap : Snapshot) : Client :=
  { c with applied := snap, accepted := Table.put c.accepted typeUrl version }

/-- What handling a push does: the client afterwards, the request it sends, and the plan that the post-apply
    hook sees, if it runs. -/
structure Handled where
  client : Client
  request : DiscoveryRequest
  announced : Option CommitPlan

def Client.nack (c : Client) (resp : DiscoveryResponse) (err : PushError) : DiscoveryRequest :=
  { typeUrl := resp.typeUrl, versionInfo := c.acceptedVersion resp.typeUrl, responseNonce := resp.nonce,
    errorDetail := some err }

def DiscoveryResponse.ack (resp : DiscoveryResponse) : DiscoveryRequest :=
  { typeUrl := resp.typeUrl, versionInfo := resp.versionInfo, responseNonce := resp.nonce, errorDetail := none }

/-- `fails` says which map operations fail, `sendFails` whether the request is lost. -/
def Client.handle (fails : Nat → Bool) (sendFails : Bool) (c : Client) (resp : DiscoveryResponse) : Handled :=
  match c.candidateFor resp with
  | .error e => { client := c, request := c.nack resp e, announced := none }
  | .ok candidate =>
    let plan := diff c.applied candidate
    match apply fails plan c.writer with
    -- Hold last-known-good: the applied snapshot and the accepted version stay.
    | (some e, writer) => { client := { c with writer }, request := c.nack resp (.applyFailed e), announced := none }
    | (none, writer) =>
      { client := { c with writer }.commit resp.typeUrl resp.versionInfo candidate, request := resp.ack
        announced := if sendFails then none else some plan }

/-! ### Sessions -/

structure Push where
  resp : DiscoveryResponse
  fails : Nat → Bool
  sendFails : Bool

/-- A client with the responses it handled and its answers, oldest first. -/
structure Session where
  client : Client
  log : List (DiscoveryResponse × DiscoveryRequest)

def Session.step (s : Session) (push : Push) : Session :=
  { client := (s.client.handle push.fails push.sendFails push.resp).client
    log := s.log ++ [(push.resp, (s.client.handle push.fails push.sendFails push.resp).request)] }

def Session.start : Session := ⟨Client.new (Writer.new (fun _ => none) fun _ => none), []⟩

end Meridian.Xds
