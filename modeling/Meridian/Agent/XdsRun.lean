import Meridian.Agent.Xds
import Meridian.Proxy.SpiffeResolver

/-! The agent's ADS client over one stream after another (`Run` and `runStream` in `internal/agent/xds`), the delays
    between the streams, and the hook that refreshes the proxy's table after an ACK (`cmd/meridian-agent/adswire.go`). -/

namespace Meridian.Xds
open Lib Wire Cc2 Datapath Proxy

/-! ### Delays -/

def millisecond : Int := 1000000

/-- What a signed word of 64 bits keeps. -/
def int64 (x : Int) : Int := x.bmod (2 ^ 64)

def reconnectBase : Int := 200 * millisecond
def reconnectJitter : Int := 200 * millisecond
def reconnectMax : Int := 30000 * millisecond

/-- The rounds that are left of the loop, from the lower end and the width of the window. -/
def backoffLoop : Nat → Int → Int → Int × Int
  | 0, lo, jitter => (lo, jitter)
  | n + 1, lo, jitter => if lo ≥ reconnectMax then (lo, jitter) else backoffLoop n (int64 (lo * 2)) (int64 (jitter * 2))

def reconnectBackoffRange (attempt : Int) : Int × Int :=
  let attempt := if attempt < 0 then 0 else attempt
  match backoffLoop attempt.toNat reconnectBase reconnectJitter with
  | (lo, jitter) =>
    if lo ≥ reconnectMax then (reconnectMax, reconnectMax)
    else
      let hi := int64 (lo + jitter)
      (lo, if hi > reconnectMax then reconnectMax else hi)

/-- `draw` is the random number, before it is cut to the width of the window. -/
def reconnectDelay (attempt : Int) (draw : Nat) : Int :=
  match reconnectBackoffRange attempt with
  | (lo, hi) => if hi ≤ lo then lo else int64 (lo + (draw : Int) % int64 (hi - lo))

def reconnectAttemptAfter (attempt : Int) (progressed : Bool) : Int := if progressed then 0 else attempt

/-! ### The loop -/

def subscribeTypes : List String := [clusterType, endpointType]

/-- Where `Run` is: at the head of its loop, with types left to subscribe to, receiving on a stream that did or did not
    bring a response yet, or between two streams. -/
inductive Phase where
  | dialing
  | subscribing (todo : List String)
  | receiving (progressed : Bool)
  | sleeping (delay : Int)
  | returned
  deriving DecidableEq, Repr

/-- A response that was handled, the answer to it, and whether the answer was sent. -/
structure Answer where
  resp : DiscoveryResponse
  request : DiscoveryRequest
  sent : Bool

def Answer.accepted (a : Answer) : Bool := a.request.errorDetail.isNone

/-- The agent's process: what outlives a stream, and where its loop is. It also keeps its answers, and for each stream that
    ended whether it made progress and the delay after it, oldest first. -/
structure Agent where
  client : Client
  resolver : MapSpiffeIDResolver
  attempt : Int
  phase : Phase
  answers : List Answer
  ended : List (Bool × Int)

namespace Agent

def start (writer : Writer) : Agent := ⟨.new writer, .new, 0, .dialing, [], []⟩

/-- `runStream` returned. -/
def endStream (a : Agent) (progressed : Bool) (draw : Nat) : Agent :=
  let attempt := reconnectAttemptAfter a.attempt progressed
  let delay := reconnectDelay attempt draw
  { a with attempt, phase := .sleeping delay, ended := a.ended ++ [(progressed, delay)] }

/-- The hook of `newPostApply` takes over all identities that are applied. -/
def handle (a : Agent) (fails : Nat → Bool) (sendFails : Bool) (resp : DiscoveryResponse) : Agent :=
  let handled := a.client.handle fails sendFails resp
  { a with
    client := handled.client
    resolver :=
      match handled.announced with
      | none => a.resolver
      | some _ => .update handled.client.applied.identities
    answers := a.answers ++ [⟨resp, handled.request, !sendFails⟩] }

/-- `draw` is the random number of the delay, if the stream ends here. -/
inductive Event where
  | dial (fails : Bool) (draw : Nat)
  | subscribe (fails : Bool) (draw : Nat)
  | recv (resp : DiscoveryResponse) (fails : Nat → Bool) (sendFails : Bool) (draw : Nat)
  | recvError (draw : Nat)
  | timer
  | cancel

def dial (a : Agent) (fails : Bool) (draw : Nat) : Agent :=
  match a.phase with
  | .dialing => if fails then a.endStream false draw else { a with phase := .subscribing subscribeTypes }
  | _ => a

/-- The next round of the loop over the types, or its end. -/
def subscribe (a : Agent) (fails : Bool) (draw : Nat) : Agent :=
  match a.phase with
  | .subscribing [] => { a with phase := .receiving false }
  | .subscribing (_ :: todo) => if fails then a.endStream false draw else { a with phase := .subscribing todo }
  | _ => a

def recv (a : Agent) (resp : DiscoveryResponse) (fails : Nat → Bool) (sendFails : Bool) (draw : Nat) : Agent :=
  match a.phase with
  | .receiving _ =>
    let a := a.handle fails sendFails resp
    if sendFails then a.endStream true draw else { a with phase := .receiving true }
  | _ => a

def recvError (a : Agent) (draw : Nat) : Agent :=
  match a.phase with
  | .receiving progressed => a.endStream progressed draw
  | _ => a

def timer (a : Agent) : Agent :=
  match a.phase with
  | .sleeping _ => { a with attempt := int64 (a.attempt + 1), phase := .dialing }
  | _ => a

def cancel (a : Agent) : Agent := { a with phase := .returned }

def step (a : Agent) : Event → Agent
  | .dial fails draw => a.dial fails draw
  | .subscribe fails draw => a.subscribe fails draw
  | .recv resp fails sendFails draw => a.recv resp fails sendFails draw
  | .recvError draw => a.recvError draw
  | .timer => a.timer
  | .cancel => a.cancel

end Agent

/-- The agent has a stream. -/
def Agent.streaming (a : Agent) : Bool :=
  match a.phase with
  | .subscribing _ | .receiving _ => true
  | _ => false

end Meridian.Xds
