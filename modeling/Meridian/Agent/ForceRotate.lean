import Meridian.Agent.SvidManager

/-! Requests to rotate at once (`ForceRotate` in `internal/agent/svid`): any number of calls meet the one rotation loop,
    which replies to the call that it took. -/

namespace Meridian.Svid
open Lib

inductive ForceError where
  | notAccepting
  | rotate (err : IssueError)
  | cancelled
  deriving DecidableEq, Repr

/-- A call offers its request, waits for the reply, or has returned. -/
inductive CallState where
  | offering
  | awaiting
  | returned (result : Except ForceError Int)

/-- A call and the channel of its request. -/
structure Call where
  state : CallState
  reply : Chan (Except IssueError Int)

/-- What a call returns for a reply. -/
def forceResult : Except IssueError Int → Except ForceError Int
  | .error err => .error (.rotate err)
  | .ok expiry => .ok expiry

/-- The loop, the call whose request it rotates for, the reply that it is about to send, and the calls. It also keeps the
    issuances that are over, with the call that each was for. -/
structure Rotator where
  manager : Manager
  forced : Option Nat
  replying : Option (Nat × Except IssueError Int)
  calls : List Call
  issuances : List (Option Nat × Except IssueError Entry)

namespace Rotator

def start : Rotator := ⟨.start, none, none, [], []⟩

inductive Event where
  | call
  | take (i : Nat)
  | timer (now : Int)
  | issued (now : Int) (result : Except IssueError Entry)
  | reply
  | receive (i : Nat)
  | giveUp (i : Nat)
  | cancel

def call (r : Rotator) : Rotator := { r with calls := r.calls ++ [⟨.offering, .make 1⟩] }

/-- The request channel has no buffer: the loop takes a request while it waits for its timer. -/
def take (r : Rotator) (i : Nat) : Rotator :=
  match r.replying, r.manager.phase, r.calls[i]? with
  | none, .waiting _ _, some ⟨.offering, reply⟩ =>
    { r with manager := r.manager.force, forced := some i, calls := r.calls.set i ⟨.awaiting, reply⟩ }
  | _, _, _ => r

def timer (r : Rotator) (now : Int) : Rotator :=
  match r.replying with
  | none => { r with manager := r.manager.timer now }
  | some _ => r

/-- The signer has answered; the entry is in the store before the reply is sent. -/
def issued (r : Rotator) (now : Int) (result : Except IssueError Entry) : Rotator :=
  match r.replying, r.manager.phase with
  | none, .issuing _ =>
    { r with
      manager := r.manager.issued now result
      forced := none
      replying := r.forced.map fun i => (i, result.map (·.expiresAt))
      issuances := r.issuances ++ [(r.forced, result)] }
  | _, _ => r

/-- A send that waits for room in the buffer. -/
def reply (r : Rotator) : Rotator :=
  match r.replying with
  | none => r
  | some (i, res) =>
    match r.calls[i]? with
    | none => r
    | some c =>
      if c.reply.buffer.length < c.reply.cap then
        { r with
          replying := none
          calls := r.calls.set i { c with reply := { c.reply with buffer := c.reply.buffer ++ [res] } } }
      else r

def receive (r : Rotator) (i : Nat) : Rotator :=
  match r.calls[i]? with
  | some ⟨.awaiting, reply⟩ =>
    match reply.recv with
    | some (some res, rest) => { r with calls := r.calls.set i ⟨.returned (forceResult res), rest⟩ }
    | _ => r
  | _ => r

/-- The context of a call is done. -/
def giveUp (r : Rotator) (i : Nat) : Rotator :=
  match r.calls[i]? with
  | some ⟨.offering, reply⟩ => { r with calls := r.calls.set i ⟨.returned (.error .notAccepting), reply⟩ }
  | some ⟨.awaiting, reply⟩ => { r with calls := r.calls.set i ⟨.returned (.error .cancelled), reply⟩ }
  | _ => r

/-- The context of the loop is done. -/
def cancel (r : Rotator) : Rotator :=
  match r.replying with
  | none => { r with manager := r.manager.cancel }
  | some _ => r

def step (r : Rotator) : Event → Rotator
  | .call => r.call
  | .take i => r.take i
  | .timer now => r.timer now
  | .issued now result => r.issued now result
  | .reply => r.reply
  | .receive i => r.receive i
  | .giveUp i => r.giveUp i
  | .cancel => r.cancel

end Rotator

end Meridian.Svid
