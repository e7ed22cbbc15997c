import Meridian.Agent.Startup

/-! Concurrent calls of `Startup` and `Close` (`internal/agent/supervisor/runner.go`). The flag `started` is tested in one
    critical section and set in another; between the two a call opens its own resources and goes through the fallible
    steps. Calls of the dependencies are the steps of an interleaving. A runtime is known by its resources, of which each
    successful `openResources` makes a new one. -/

namespace Meridian.Supervisor
open Lib

/-- Where a call of `Startup` is; it has opened the resources that it names. -/
inductive StartupCall where
  | idle
  | opening
  | loading (res : Nat)
  | makingWriter (res : Nat)
  | applying (res : Nat)
  | attaching (res : Nat)
  | publishing (res : Nat) (attached : Bool)
  | detaching (res : Nat)
  | closing (res : Nat)
  | failed
  | returned (runtime : Option Nat)
  deriving DecidableEq, Repr

/-- Where a call of `Close` on a runtime is. -/
inductive CloseCall where
  | idle
  | detaching (runtime : Nat)
  | closing (runtime : Nat)
  | returned (runtime : Nat)
  deriving DecidableEq, Repr

structure RuntimeFlags where
  attached : Bool
  closed : Bool
  deriving DecidableEq, Repr

/-- The runner with its calls and its runtimes, and what was done to the resources: how many were opened, and how often
    each was closed and detached. -/
structure StartupCalls where
  started : Bool
  runtime : Option Nat
  runtimes : Table Nat RuntimeFlags
  calls : Nat → StartupCall
  closers : Nat → CloseCall
  opens : Nat
  closes : Nat → Nat
  detaches : Nat → Nat

/-- The calls, and the answers of the dependencies. -/
inductive StartupEvent where
  | startup (t : Nat)
  | openResources (t : Nat) (resources : Option StartupResources)
  | loadSnapshot (t : Nat) (ok : Bool)
  | newWriter (t : Nat) (ok : Bool)
  | apply (t : Nat) (ok : Bool)
  | ensureAttached (t : Nat) (ok : Bool)
  | publish (t : Nat)
  | cleanup (t : Nat)
  | close (c : Nat) (runtime : Nat)
  | closeNext (c : Nat)

namespace StartupCalls

def start : StartupCalls :=
  ⟨false, none, fun _ => none, fun _ => .idle, fun _ => .idle, 0, fun _ => 0, fun _ => 0⟩

def setCall (s : StartupCalls) (t : Nat) (c : StartupCall) : StartupCalls := { s with calls := Function.update s.calls t c }

def setCloser (s : StartupCalls) (c : Nat) (k : CloseCall) : StartupCalls :=
  { s with closers := Function.update s.closers c k }

def closeResources (s : StartupCalls) (res : Nat) : StartupCalls :=
  { s with closes := Function.update s.closes res (s.closes res + 1) }

def detach (s : StartupCalls) (res : Nat) : StartupCalls :=
  { s with detaches := Function.update s.detaches res (s.detaches res + 1) }

/-- The first critical section. -/
def startup (s : StartupCalls) (t : Nat) : StartupCalls :=
  s.setCall t (if s.started then .returned s.runtime else .opening)

/-- A handle is missing. -/
def missing (iface : String) (resources : StartupResources) : Bool :=
  !resources.identityMap || !resources.policyMap || (iface ≠ "" && !resources.attachProgram)

def openResources (iface : String) (s : StartupCalls) (t : Nat) (resources : Option StartupResources) : StartupCalls :=
  match resources with
  | none => s.setCall t .failed
  | some resources =>
    { s with opens := s.opens + 1 }.setCall t (if missing iface resources then .closing s.opens else .loading s.opens)

/-- The answer of a dependency: on to the next step, or to the cleanup. -/
def answer (s : StartupCalls) (t : Nat) (ok : Bool) (next cleanup : StartupCall) : StartupCalls :=
  s.setCall t (if ok then next else cleanup)

/-- The last critical section. -/
def publish (s : StartupCalls) (t res : Nat) (attached : Bool) : StartupCalls :=
  { s with started := true, runtime := some res, runtimes := Table.put s.runtimes res ⟨attached, false⟩ }.setCall t
    (.returned (some res))

/-- `Close` up to the release of the lock. -/
def close (iface : String) (s : StartupCalls) (c runtime : Nat) : StartupCalls :=
  match s.runtimes runtime with
  | none => s
  | some r =>
    if r.closed then s.setCloser c (.returned runtime)
    else
      { s with runtimes := Table.put s.runtimes runtime { r with closed := true } }.setCloser c
        (if r.attached && iface ≠ "" then .detaching runtime else .closing runtime)

/-- A step of one call; a call that is not there or not so far does nothing. -/
def step (iface : String) (s : StartupCalls) : StartupEvent → StartupCalls
  | .startup t => if s.calls t = .idle then s.startup t else s
  | .openResources t resources => if s.calls t = .opening then s.openResources iface t resources else s
  | .loadSnapshot t ok =>
    match s.calls t with
    | .loading res => s.answer t ok (.makingWriter res) (.closing res)
    | _ => s
  | .newWriter t ok =>
    match s.calls t with
    | .makingWriter res => s.answer t ok (.applying res) (.closing res)
    | _ => s
  | .apply t ok =>
    match s.calls t with
    | .applying res => s.answer t ok (if iface ≠ "" then .attaching res else .publishing res false) (.closing res)
    | _ => s
  | .ensureAttached t ok =>
    match s.calls t with
    | .attaching res => s.answer t ok (.publishing res true) (.detaching res)
    | _ => s
  | .publish t =>
    match s.calls t with
    | .publishing res attached => s.publish t res attached
    | _ => s
  | .cleanup t =>
    match s.calls t with
    | .detaching res => (s.detach res).setCall t (.closing res)
    | .closing res => (s.closeResources res).setCall t .failed
    | _ => s
  | .close c runtime => if s.closers c = .idle then s.close iface c runtime else s
  | .closeNext c =>
    match s.closers c with
    | .detaching runtime => (s.detach runtime).setCloser c (.closing runtime)
    | .closing runtime => (s.closeResources runtime).setCloser c (.returned runtime)
    | _ => s

end StartupCalls

end Meridian.Supervisor
