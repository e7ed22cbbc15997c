import Meridian.Agent.SvidManager
import Meridian.Lib.Table

/-! The circuit breaker of the outbound proxy (`internal/proxy`) and the requests that call it. Every method runs under
    the breaker's lock and reads the clock there, so that the calls are in one order and the clock never goes back. -/

namespace Meridian.Proxy
open Lib

inductive CBState where
  | cbClosed
  | cbOpen
  | cbHalfOpen
  deriving DecidableEq, Repr

structure CircuitBreaker where
  state : CBState
  consecutiveErrors : Int
  openedAt : Int
  threshold : Int
  resetAfter : Int
  deriving DecidableEq, Repr

namespace CircuitBreaker

def new (threshold resetAfter : Int) : CircuitBreaker := ⟨.cbClosed, 0, 0, threshold, resetAfter⟩

/-- Whether a request is permitted. -/
def allow (cb : CircuitBreaker) (now : Int) : Bool × CircuitBreaker :=
  match cb.state with
  | .cbClosed => (true, cb)
  | .cbOpen => if Svid.sub now cb.openedAt ≥ cb.resetAfter then (true, { cb with state := .cbHalfOpen }) else (false, cb)
  | .cbHalfOpen => (false, cb)

def recordSuccess (cb : CircuitBreaker) : CircuitBreaker := { cb with consecutiveErrors := 0, state := .cbClosed }

def recordFailure (cb : CircuitBreaker) (now : Int) : CircuitBreaker :=
  let cb := { cb with consecutiveErrors := cb.consecutiveErrors + 1 }
  if cb.state = .cbHalfOpen || cb.consecutiveErrors ≥ cb.threshold then
    { cb with state := .cbOpen, openedAt := now, consecutiveErrors := 0 }
  else cb

end CircuitBreaker

/-! ### Requests -/

/-- How the first of the two copies of a tunnel ends; some errors only say that the connection was closed. -/
inductive CopyEnd where
  | eof
  | closedErr
  | otherErr
  deriving DecidableEq, Repr

/-- How `handle` ends for a connection that the breaker has admitted. -/
inductive Outcome where
  | dialError
  | notSpiffe
  | peerMismatch
  | copied (copyEnd : CopyEnd)
  deriving DecidableEq, Repr

def Outcome.succeeded : Outcome → Bool
  | .copied .eof | .copied .closedErr => true
  | .dialError | .notSpiffe | .peerMismatch | .copied .otherErr => false

/-- Each way to end makes one record. -/
def CircuitBreaker.record (cb : CircuitBreaker) (now : Int) (outcome : Outcome) : CircuitBreaker :=
  if outcome.succeeded then cb.recordSuccess else cb.recordFailure now

inductive RequestState where
  | inFlight
  | finished
  deriving DecidableEq, Repr

inductive BreakerCall where
  | allow (id : Nat)
  | finish (id : Nat) (outcome : Outcome)
  deriving DecidableEq, Repr

/-- A call, and how much time has passed since the one before. -/
structure BreakerEvent where
  elapsed : Nat
  call : BreakerCall
  deriving DecidableEq, Repr

structure Traffic where
  breaker : CircuitBreaker
  clock : Int
  requests : Table Nat RequestState

namespace Traffic

def start (threshold resetAfter clock : Int) : Traffic := ⟨.new threshold resetAfter, clock, fun _ => none⟩

def now (s : Traffic) (e : BreakerEvent) : Int := s.clock + e.elapsed

/-- The request that the event admits. -/
def admits (s : Traffic) (e : BreakerEvent) : Option Nat :=
  match e.call with
  | .allow id => if s.requests id = none && (s.breaker.allow (s.now e)).1 then some id else none
  | .finish _ _ => none

/-- A request asks once, and one that was admitted makes its record once. -/
def step (s : Traffic) (e : BreakerEvent) : Traffic :=
  match e.call with
  | .allow id =>
    match s.requests id with
    | none =>
      match s.breaker.allow (s.now e) with
      | (permitted, breaker) =>
        ⟨breaker, s.now e, Table.put s.requests id (if permitted then .inFlight else .finished)⟩
    | some _ => { s with clock := s.now e }
  | .finish id outcome =>
    match s.requests id with
    | some .inFlight => ⟨s.breaker.record (s.now e) outcome, s.now e, Table.put s.requests id .finished⟩
    | _ => { s with clock := s.now e }

end Traffic

end Meridian.Proxy
