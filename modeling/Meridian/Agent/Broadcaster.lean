import Meridian.Agent.Telemetry
import Meridian.Lib.Chan
import Meridian.Lib.Slice

/-! The broadcaster of flow events (`internal/agent/telemetry/broadcaster.go`). Subscribers are known by their address.
    `Handle` walks the slice of subscribers and compacts it in place under the lock, one subscriber after the other, while
    the receivers take lines from their channels without it. -/

namespace Meridian.Telemetry
open Lib

def broadcasterBufSize : Nat := 64
def broadcasterMaxDrops : Nat := 8

structure Subscriber where
  ch : Chan String
  drops : Nat
  deriving DecidableEq, Repr

/-- A `Handle` that holds the lock: its line, the loop over the first `n` cells at `i`, and the length of `alive`, which
    shares the array. -/
structure Handling where
  line : String
  i : Nat
  n : Nat
  alive : Nat
  deriving DecidableEq, Repr

structure Broadcaster where
  subs : Slice Nat
  heap : Table Nat Subscriber
  handling : Option Handling

namespace Broadcaster

def new : Broadcaster := ⟨.empty, fun _ => none, none⟩

/-- `Subscribe`, with the address of the new subscriber; it waits while a `Handle` has the lock. -/
def subscribe (b : Broadcaster) (id spare : Nat) : Broadcaster :=
  match b.handling with
  | some _ => b
  | none =>
    { b with
      subs := b.subs.append id spare
      heap := Table.put b.heap id ⟨.make broadcasterBufSize, 0⟩ }

/-- `Handle` from its start to the loop; it waits while another one has the lock. -/
def handle (b : Broadcaster) (line : String) : Broadcaster :=
  match b.handling with
  | some _ => b
  | none => { b with handling := some ⟨line, 0, b.subs.len, 0⟩ }

/-- The subscriber of the next round of the loop. -/
def current (b : Broadcaster) : Option (Handling × Nat × Subscriber) :=
  match b.handling with
  | none => none
  | some h =>
    if h.i < h.n then
      match b.subs.cells h.i with
      | none => none
      | some id =>
        match b.heap id with
        | none => none
        | some sub => some (h, id, sub)
    else none

/-- `alive = append(alive, sub)`. There is always a cell for it, as no more are kept than were read. -/
def keep (b : Broadcaster) (h : Handling) (id : Nat) : Broadcaster :=
  { b with
    subs := { b.subs with cells := Table.put b.subs.cells h.alive id }
    handling := some { h with i := h.i + 1, alive := h.alive + 1 } }

/-- One round of the loop for the subscriber it is at. -/
def round (b : Broadcaster) (h : Handling) (id : Nat) (sub : Subscriber) : Broadcaster :=
  if sub.ch.buffer.length < sub.ch.cap then
    { b with heap := Table.put b.heap id ⟨{ sub.ch with buffer := sub.ch.buffer ++ [h.line] }, 0⟩ }.keep h id
  else
    let drops := sub.drops + 1
    let b := { b with heap := Table.put b.heap id { sub with drops } }
    if drops < broadcasterMaxDrops then b.keep h id
    else { b with handling := some { h with i := h.i + 1 } }

/-- The next round of the loop, and after the last one `b.subs = alive` with the release of the lock. -/
def next (b : Broadcaster) : Broadcaster :=
  match b.handling with
  | none => b
  | some h =>
    if h.i < h.n then
      match b.current with
      | none => b
      | some (h, id, sub) => b.round h id sub
    else { b with subs := { b.subs with len := h.alive }, handling := none }

/-- What a receive from the channel of `id` takes, and what it leaves. -/
def takes (b : Broadcaster) (id : Nat) : Option (String × Subscriber) :=
  match b.heap id with
  | none => none
  | some sub =>
    match sub.ch.recv with
    | some (some line, rest) => some (line, { sub with ch := rest })
    | _ => none

end Broadcaster

/-- A broadcaster with its history: the subscribers so far, what each has received, the lines handled since it subscribed,
    and for each round that it was looked at whether its channel was full, all oldest first. -/
structure Broadcast where
  state : Broadcaster
  subscribed : Nat
  received : Nat → List String
  since : Nat → List String
  found : Nat → List Bool

inductive BroadcastEvent where
  | subscribe (spare : Nat)
  | handle (ev : Event)
  | next
  | receive (id : Nat)

namespace Broadcast

def start : Broadcast := ⟨.new, 0, fun _ => [], fun _ => [], fun _ => []⟩

def subscribe (s : Broadcast) (spare : Nat) : Broadcast :=
  match s.state.handling with
  | some _ => s
  | none => { s with state := s.state.subscribe s.subscribed spare, subscribed := s.subscribed + 1 }

def handle (s : Broadcast) (line : String) : Broadcast :=
  match s.state.handling with
  | some _ => s
  | none =>
    { s with
      state := s.state.handle line
      since := fun id => if id < s.subscribed then s.since id ++ [line] else s.since id }

def next (s : Broadcast) : Broadcast :=
  match s.state.current with
  | none => { s with state := s.state.next }
  | some (_, id, sub) =>
    { s with
      state := s.state.next
      found := Function.update s.found id (s.found id ++ [!decide (sub.ch.buffer.length < sub.ch.cap)]) }

def receive (s : Broadcast) (id : Nat) : Broadcast :=
  match s.state.takes id with
  | none => s
  | some (line, sub) =>
    { s with
      state := { s.state with heap := Table.put s.state.heap id sub }
      received := Function.update s.received id (s.received id ++ [line]) }

/-- A step of one of the goroutines; one that waits does nothing. -/
def step (encodeLine : Event → String) (s : Broadcast) : BroadcastEvent → Broadcast
  | .subscribe spare => s.subscribe spare
  | .handle ev => s.handle (encodeLine ev)
  | .next => s.next
  | .receive id => s.receive id

end Broadcast

end Meridian.Telemetry
