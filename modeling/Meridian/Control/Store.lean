import Mathlib.Data.List.AList
import Meridian.Lib.Chan
import Meridian.Lib.Run
import Meridian.Wire

/-! The backends of the control plane's store (`internal/control/store`) with their threads: mutations, the notification
    of watchers, and the goroutine of each `Watch`. A lock is no field of its own: it is held by the threads that are
    between taking and releasing it. A step that is not possible leaves the state as it is. -/

namespace Meridian.Store
open Lib Wire

inductive StoreEvent where
  | identityChanged
  | policyChanged
  deriving DecidableEq, Repr

inductive Mutation where
  | putIdentity (identity : Identity)
  | deleteIdentity (id : IdentityID)
  | putPolicy (rule : PolicyRule)
  | deletePolicy (key : PolicyRuleKey)
  deriving DecidableEq, Repr

def Mutation.event : Mutation → StoreEvent
  | .putIdentity _ | .deleteIdentity _ => .identityChanged
  | .putPolicy _ | .deletePolicy _ => .policyChanged

/-! ### The in-memory store -/

structure Contents where
  identities : AList fun _ : IdentityID => Identity
  policies : AList fun _ : PolicyRuleKey => PolicyRule

namespace Contents

def empty : Contents := ⟨∅, ∅⟩

def commit (c : Contents) : Mutation → Contents
  | .putIdentity identity => { c with identities := c.identities.insert identity.id identity }
  | .deleteIdentity id => { c with identities := c.identities.erase id }
  | .putPolicy rule => { c with policies := c.policies.insert rule.key rule }
  | .deletePolicy key => { c with policies := c.policies.erase key }

/-- The values of the map, in one of the orders in which they can be listed. -/
def listIdentities (c : Contents) : List Identity := c.identities.entries.map (·.2)

def listPolicies (c : Contents) : List PolicyRule := c.policies.entries.map (·.2)

end Contents

/-- A mutation whose lock is released again, and which has still to notify the watchers or is about it: those in
    `todo` are left. -/
inductive Mutator where
  | committed (ev : StoreEvent)
  | notifying (ev : StoreEvent) (todo : List Nat)
  deriving DecidableEq, Repr

def Mutator.isNotifying : Mutator → Bool
  | .committed _ => false
  | .notifying _ _ => true

/-- The goroutine of a watch: it waits for its context to be done, then takes the lock, and releases it after closing
    the channel. -/
inductive Routine where
  | waiting
  | cancelled
  | locked
  | leaving
  | returned
  deriving DecidableEq, Repr

def Routine.holdsLock : Routine → Bool
  | .locked | .leaving => true
  | _ => false

/-- The channel and the goroutine of a watch have the number of the `Watch` call. -/
structure Memory where
  contents : Contents
  chans : List (Chan StoreEvent)
  watchers : List Nat
  routines : List Routine
  mutators : List Mutator
  panicked : Bool

def watchBuffer : Nat := 1

namespace Memory

def new : Memory := ⟨.empty, [], [], [], [], false⟩

def readLocked (m : Memory) : Bool := m.mutators.any (·.isNotifying)

def writeLocked (m : Memory) : Bool := m.routines.any (·.holdsLock)

/-- Nothing keeps a writer from the lock. -/
def unlocked (m : Memory) : Bool := !m.readLocked && !m.writeLocked

inductive Event where
  | mutate (mutation : Mutation)
  | notifyLock (j : Nat) (order : List Nat)
  | notifySend (j : Nat)
  | notifyUnlock (j : Nat)
  | watch
  | cancel (i : Nat)
  | routineLock (i : Nat)
  | routineClose (i : Nat)
  | routineUnlock (i : Nat)
  | recv (i : Nat)

/-- The locked part of a mutation. -/
def mutate (m : Memory) (mutation : Mutation) : Memory :=
  if m.unlocked then
    { m with contents := m.contents.commit mutation, mutators := m.mutators ++ [.committed mutation.event] }
  else m

/-- `notify` takes the read lock and ranges over the watchers in some order. -/
def notifyLock (m : Memory) (j : Nat) (order : List Nat) : Memory :=
  match m.mutators[j]? with
  | some (.committed ev) =>
    if !m.writeLocked && order.isPerm m.watchers then { m with mutators := m.mutators.set j (.notifying ev order) } else m
  | _ => m

def notifySend (m : Memory) (j : Nat) : Memory :=
  match m.mutators[j]? with
  | some (.notifying ev (i :: todo)) =>
    match m.chans[i]? with
    | none => m
    | some ch =>
      match ch.trySend ev with
      | none => { m with panicked := true }
      | some ch => { m with chans := m.chans.set i ch, mutators := m.mutators.set j (.notifying ev todo) }
  | _ => m

def notifyUnlock (m : Memory) (j : Nat) : Memory :=
  match m.mutators[j]? with
  | some (.notifying _ []) => { m with mutators := m.mutators.eraseIdx j }
  | _ => m

def watch (m : Memory) : Memory :=
  if m.unlocked then
    { m with
      chans := m.chans ++ [.make watchBuffer], watchers := m.watchers ++ [m.chans.length],
      routines := m.routines ++ [.waiting] }
  else m

def cancel (m : Memory) (i : Nat) : Memory :=
  match m.routines[i]? with
  | some .waiting => { m with routines := m.routines.set i .cancelled }
  | _ => m

def routineLock (m : Memory) (i : Nat) : Memory :=
  match m.routines[i]? with
  | some .cancelled => if m.unlocked then { m with routines := m.routines.set i .locked } else m
  | _ => m

def routineClose (m : Memory) (i : Nat) : Memory :=
  match m.routines[i]? with
  | some .locked =>
    if i ∈ m.watchers then
      match m.chans[i]? with
      | none => m
      | some ch =>
        match ch.close with
        | none => { m with panicked := true }
        | some ch =>
          { m with
            chans := m.chans.set i ch, watchers := m.watchers.filter (· ≠ i), routines := m.routines.set i .leaving }
    else { m with routines := m.routines.set i .leaving }
  | _ => m

def routineUnlock (m : Memory) (i : Nat) : Memory :=
  match m.routines[i]? with
  | some .leaving => { m with routines := m.routines.set i .returned }
  | _ => m

/-- A subscriber takes an event from its channel. -/
def recv (m : Memory) (i : Nat) : Memory :=
  match m.chans[i]? with
  | none => m
  | some ch =>
    match ch.recv with
    | none => m
    | some (_, ch) => { m with chans := m.chans.set i ch }

def step (m : Memory) (e : Event) : Memory :=
  if m.panicked then m
  else
    match e with
    | .mutate mutation => m.mutate mutation
    | .notifyLock j order => m.notifyLock j order
    | .notifySend j => m.notifySend j
    | .notifyUnlock j => m.notifyUnlock j
    | .watch => m.watch
    | .cancel i => m.cancel i
    | .routineLock i => m.routineLock i
    | .routineClose i => m.routineClose i
    | .routineUnlock i => m.routineUnlock i
    | .recv i => m.recv i

end Memory

/-! ### The store in etcd -/

/-- The goroutine of a watch: at its `select`, forwarding the events of a response of etcd, or at its end. -/
inductive EtcdRoutine where
  | selecting
  | forwarding (kinds : List StoreEvent)
  | returned
  deriving DecidableEq, Repr

/-- The store's own state; its contents are in etcd. A local write that etcd has accepted has still to notify, or is about
    it. -/
structure Etcd where
  chans : List (Chan StoreEvent)
  subs : List Nat
  routines : List EtcdRoutine
  cancelled : List Bool
  writers : List Mutator
  panicked : Bool

namespace Etcd

def new : Etcd := ⟨[], [], [], [], [], false⟩

/-- `e.mu` is held by a `notify` under way. -/
def locked (e : Etcd) : Bool := e.writers.any (·.isNotifying)

/-- A response of the etcd watch: an error, or the kinds of its events. -/
inductive Event where
  | write (ev : StoreEvent)
  | notifyLock (j : Nat)
  | notifySend (j : Nat)
  | notifyUnlock (j : Nat)
  | watch
  | cancel (i : Nat)
  | done (i : Nat)
  | watchClosed (i : Nat)
  | response (i : Nat) (kinds : Option (List StoreEvent))
  | forward (i : Nat)
  | recv (i : Nat)

def write (e : Etcd) (ev : StoreEvent) : Etcd := { e with writers := e.writers ++ [.committed ev] }

def notifyLock (e : Etcd) (j : Nat) : Etcd :=
  match e.writers[j]? with
  | some (.committed ev) => if e.locked then e else { e with writers := e.writers.set j (.notifying ev e.subs) }
  | _ => e

/-- A send to channel `i` that must not block. -/
def send (e : Etcd) (i : Nat) (ev : StoreEvent) : Etcd :=
  match e.chans[i]? with
  | none => e
  | some ch =>
    match ch.trySend ev with
    | none => { e with panicked := true }
    | some ch => { e with chans := e.chans.set i ch }

def notifySend (e : Etcd) (j : Nat) : Etcd :=
  match e.writers[j]? with
  | some (.notifying ev (i :: todo)) => { e with writers := e.writers.set j (.notifying ev todo) }.send i ev
  | _ => e

def notifyUnlock (e : Etcd) (j : Nat) : Etcd :=
  match e.writers[j]? with
  | some (.notifying _ []) => { e with writers := e.writers.eraseIdx j }
  | _ => e

def watch (e : Etcd) : Etcd :=
  if e.locked then e
  else
    { e with
      chans := e.chans ++ [.make 16], subs := e.subs ++ [e.chans.length], routines := e.routines ++ [.selecting],
      cancelled := e.cancelled ++ [false] }

def cancel (e : Etcd) (i : Nat) : Etcd := { e with cancelled := e.cancelled.set i true }

/-- The goroutine closes its channel and returns. -/
def finish (e : Etcd) (i : Nat) : Etcd :=
  match e.chans[i]? with
  | none => e
  | some ch =>
    match ch.close with
    | none => { e with panicked := true }
    | some ch => { e with chans := e.chans.set i ch, routines := e.routines.set i .returned }

def done (e : Etcd) (i : Nat) : Etcd :=
  if e.routines[i]? = some .selecting && e.cancelled[i]? = some true then e.finish i else e

def watchClosed (e : Etcd) (i : Nat) : Etcd := if e.routines[i]? = some .selecting then e.finish i else e

def response (e : Etcd) (i : Nat) (kinds : Option (List StoreEvent)) : Etcd :=
  match e.routines[i]?, kinds with
  | some .selecting, some kinds => { e with routines := e.routines.set i (.forwarding kinds) }
  | _, _ => e

def forward (e : Etcd) (i : Nat) : Etcd :=
  match e.routines[i]? with
  | some (.forwarding (kind :: kinds)) => { e with routines := e.routines.set i (.forwarding kinds) }.send i kind
  | some (.forwarding []) => { e with routines := e.routines.set i .selecting }
  | _ => e

def recv (e : Etcd) (i : Nat) : Etcd :=
  match e.chans[i]? with
  | none => e
  | some ch =>
    match ch.recv with
    | none => e
    | some (_, ch) => { e with chans := e.chans.set i ch }

def step (e : Etcd) (event : Event) : Etcd :=
  if e.panicked then e
  else
    match event with
    | .write ev => e.write ev
    | .notifyLock j => e.notifyLock j
    | .notifySend j => e.notifySend j
    | .notifyUnlock j => e.notifyUnlock j
    | .watch => e.watch
    | .cancel i => e.cancel i
    | .done i => e.done i
    | .watchClosed i => e.watchClosed i
    | .response i kinds => e.response i kinds
    | .forward i => e.forward i
    | .recv i => e.recv i

end Etcd

end Meridian.Store
