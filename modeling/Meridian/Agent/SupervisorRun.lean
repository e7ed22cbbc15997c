import Meridian.Agent.Attach

/-! `StartupRunner.Run` (`internal/agent/supervisor/runner.go`): the goroutine that calls `linkwatch.Run` again whenever its
    event channel closes, and `Close` at the end. The host changes, a call of the kernel may fail and the netlink
    subscription may be reset between any two steps. -/

namespace Meridian.Supervisor
open Lib Linkwatch Attach

inductive WatchError where
  | reconcile
  | subscribe
  deriving DecidableEq, Repr

/-- Where the goroutine is in `linkwatch.Run`, or with what it has stopped. -/
inductive WatchPhase where
  | list
  | attach (todo : List String)
  | wait
  | stopped (err : Option WatchError)
  deriving DecidableEq, Repr

structure Watch where
  kernel : Kernel
  /-- The updates that the subscription has not delivered yet, oldest first. -/
  updates : List LinkUpdate
  /-- The netlink library has closed its channel: what is in it is still delivered. -/
  reset : Bool
  phase : WatchPhase
  cancelled : Bool
  closed : Bool
  /-- The calls of `LinkWatchOnError`. -/
  reports : List (String × String × AttachError)

inductive WatchEvent where
  | add (link : Link)
  | remove (name kind : String)
  | reset
  | cancel
  /-- The goroutine's next step; `ok` says whether the listing or the subscription works. -/
  | run (ok : Bool) (faults : Faults)
  /-- `ctx.Done` is chosen while the goroutine waits. -/
  | done
  | close (faults : Faults)

namespace Watch

def start (kernel : Kernel) : Watch := ⟨kernel, [], false, .list, false, false, []⟩

/-- A change is reported to the subscription, if there is one. -/
def report (w : Watch) (u : LinkUpdate) : List LinkUpdate :=
  if w.phase = .wait ∧ w.reset = false then w.updates ++ [u] else w.updates

def add (w : Watch) (link : Link) : Watch :=
  if link.name ∈ w.kernel.devs.map (·.link.name) then w
  else { w with kernel := { w.kernel with devs := w.kernel.devs ++ [⟨link, none⟩] }, updates := w.report ⟨.newLink, link⟩ }

def remove (w : Watch) (name kind : String) : Watch :=
  if name ∈ w.kernel.devs.map (·.link.name) then
    { w with kernel := { w.kernel with devs := w.kernel.devs.filter (·.link.name ≠ name) },
             updates := w.report ⟨.delLink, ⟨name, kind⟩⟩ }
  else w

/-- An error of the attacher is reported, and the loop goes on. -/
def reported (w : Watch) (op ifName : String) (r : Option AttachError × Kernel) : Watch :=
  { w with kernel := r.2, reports := w.reports ++ (r.1.map fun err => (op, ifName, err)).toList }

def dispatch (m : TCManager) (faults : Faults) (w : Watch) (ev : Event) : Watch :=
  match ev.type with
  | .added => w.reported "attach" ev.ifName (m.ensureAttached faults w.cancelled w.kernel ev.ifName)
  | .removed => w.reported "detach" ev.ifName (m.detach faults w.cancelled w.kernel ev.ifName)

def run (m : TCManager) (sel : Selector) (w : Watch) (ok : Bool) (faults : Faults) : Watch :=
  match w.phase with
  | .list =>
    if ok then { w with phase := .attach (reconcile sel (w.kernel.devs.map (·.link))) }
    else { w with phase := .stopped (some .reconcile) }
  | .attach (ifName :: todo) =>
    { w with phase := .attach todo }.reported "attach" ifName (m.ensureAttached faults w.cancelled w.kernel ifName)
  | .attach [] => if ok then { w with phase := .wait } else { w with phase := .stopped (some .subscribe) }
  | .wait =>
    match w.updates with
    | u :: rest =>
      match classify sel u with
      | some ev => { w with updates := rest }.dispatch m faults ev
      | none => { w with updates := rest }
    | [] =>
      if w.reset then { w with reset := false, phase := if w.cancelled then .stopped none else .list } else w
  | .stopped _ => w

/-- `Run` leaves its `select` when the context is done or the goroutine has stopped, and closes the runtime. -/
def close (m : TCManager) (iface : String) (w : Watch) (faults : Faults) : Watch :=
  match w.phase, w.cancelled, w.closed with
  | .stopped _, _, false | _, true, false =>
    { w with closed := true, kernel := if iface = "" then w.kernel else (m.detach faults false w.kernel iface).2 }
  | _, _, _ => w

def step (m : TCManager) (sel : Selector) (iface : String) (w : Watch) : WatchEvent → Watch
  | .add link => w.add link
  | .remove name kind => w.remove name kind
  | .reset => if w.phase = .wait then { w with reset := true } else w
  | .cancel => { w with cancelled := true }
  | .run ok faults => w.run m sel ok faults
  | .done =>
    if w.phase = .wait ∧ w.cancelled = true then { w with phase := .stopped none, updates := [], reset := false } else w
  | .close faults => w.close m iface faults

/-- `Run` waits for events and none is undelivered. -/
def Idle (w : Watch) : Prop := w.phase = .wait ∧ w.updates = [] ∧ w.reset = false

end Watch

end Meridian.Supervisor
