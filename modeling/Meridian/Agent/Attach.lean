import Meridian.Agent.Linkwatch
import Meridian.Lib.Table

/-! The attachment of the datapath to an interface (`internal/agent/attach/manager_linux.go`), over the part of the kernel
    that it talks to: the interfaces of the host with their `clsact` qdisc and filters, and the pinned programs. -/

namespace Meridian.Attach
open Lib Linkwatch

/-! ### The kernel -/

/-- The errors that the manager tells apart. -/
inductive Errno where
  | enoent
  | eexist
  | einval
  | other
  deriving DecidableEq, Repr

/-- `netlink.BpfFilter`, or a filter of another kind. Filters for one hook are known by priority and handle. -/
structure Filter where
  bpf : Bool
  name : String
  priority : Nat
  handle : Nat
  program : Nat
  directAction : Bool
  deriving DecidableEq, Repr

/-- A `clsact` qdisc has the filters of both hooks, which go with it. -/
structure Clsact where
  ingress : List Filter
  egress : List Filter
  deriving DecidableEq, Repr

/-- An interface. Its qdisc goes with it. -/
structure Dev where
  link : Link
  clsact : Option Clsact
  deriving DecidableEq, Repr

structure Kernel where
  devs : List Dev
  pins : Table String Nat

/-- The calls of the manager, each of which may also fail for a reason of its own. -/
inductive Call where
  | linkByName
  | mkdirAll
  | pin
  | remove
  | rePin
  | qdiscReplace
  | filterReplace
  | filterList
  | filterDel (i : Nat)
  | qdiscDel
  deriving DecidableEq, Repr

abbrev Faults := Call → Option Errno

namespace Kernel

def linkByName (k : Kernel) (ifName : String) : Option Dev := k.devs.find? (·.link.name = ifName)

def setClsact (k : Kernel) (ifName : String) (f : Option Clsact → Option Clsact) : Kernel :=
  { k with devs := k.devs.map fun d => if d.link.name = ifName then { d with clsact := f d.clsact } else d }

/-- A new filter replaces the one with its priority and handle. -/
def replaceIn (f : Filter) (filters : List Filter) : List Filter :=
  if filters.any fun g => g.priority = f.priority && g.handle = f.handle then
    filters.map fun g => if g.priority = f.priority && g.handle = f.handle then f else g
  else filters ++ [f]

end Kernel

/-! ### The manager -/

structure ProgramRef where
  fd : Int
  program : Nat
  deriving DecidableEq, Repr

structure TCManager where
  program : Option ProgramRef
  programPin : String
  filterName : String
  priority : Nat
  handle : Nat
  deriving DecidableEq, Repr

def newManager (program : Option ProgramRef) (programPin : String) : TCManager :=
  ⟨program, programPin, "meridian-ingress", 1, 1⟩

inductive AttachError where
  | ctx
  | linkLookup (ifName : String) (err : Errno)
  | programNil
  | pinPathEmpty
  | pinDir (err : Errno)
  | pin (path : String) (err : Errno)
  | removeStalePin (path : String) (err : Errno)
  | rePin (path : String) (err : Errno)
  | ensureClsact (ifName : String) (err : Errno)
  | invalidFD (ifName : String) (fd : Int)
  | ensureFilter (ifName : String) (err : Errno)
  | deleteFilter (ifName : String) (err : Errno)
  | deleteClsact (ifName : String) (err : Errno)
  deriving DecidableEq, Repr

namespace TCManager
variable (m : TCManager) (faults : Faults)

/-- `Pin` of a program fails when the path is taken. -/
def pin (call : Call) (pins : Table String Nat) (program : Nat) : Except Errno (Table String Nat) :=
  match faults call with
  | some err => .error err
  | none => if (pins m.programPin).isSome then .error .eexist else .ok (Table.put pins m.programPin program)

def replacePinnedProgram (pins : Table String Nat) : Except AttachError ProgramRef × Table String Nat :=
  match m.program with
  | none => (.error .programNil, pins)
  | some p =>
    if m.programPin = "" then (.error .pinPathEmpty, pins)
    else
      match faults .mkdirAll with
      | some err => (.error (.pinDir err), pins)
      | none =>
        match m.pin faults .pin pins p.program with
        | .ok pins => (.ok p, pins)
        | .error .eexist =>
          match faults .remove with
          | none | some .enoent =>
            let pins := if faults .remove = none then Table.erase pins m.programPin else pins
            match m.pin faults .rePin pins p.program with
            | .ok pins => (.ok p, pins)
            | .error err => (.error (.rePin m.programPin err), pins)
          | some err => (.error (.removeStalePin m.programPin err), pins)
        | .error err => (.error (.pin m.programPin err), pins)

/-- The filter of the manager. -/
def filter (p : ProgramRef) : Filter := ⟨true, m.filterName, m.priority, m.handle, p.program, true⟩

def replaceFilter (k : Kernel) (ifName : String) (p : ProgramRef) : Option AttachError × Kernel :=
  if p.fd ≤ 0 then (some (.invalidFD ifName p.fd), k)
  else
    match faults .filterReplace with
    | some err => (some (.ensureFilter ifName err), k)
    | none =>
      (none, k.setClsact ifName fun c => c.map fun c => { c with ingress := Kernel.replaceIn (m.filter p) c.ingress })

/-- A qdisc that is there stays as it is. -/
def ensureClsact (k : Kernel) (ifName : String) : Kernel := k.setClsact ifName fun c => some (c.getD ⟨[], []⟩)

def ensureAttached (cancelled : Bool) (k : Kernel) (ifName : String) : Option AttachError × Kernel :=
  if cancelled then (some .ctx, k)
  else
    match faults .linkByName with
    | some err => (some (.linkLookup ifName err), k)
    | none =>
      match k.linkByName ifName with
      | none => (some (.linkLookup ifName .enoent), k)
      | some _ =>
        match m.replacePinnedProgram faults k.pins with
        | (.error err, pins) => (some err, { k with pins })
        | (.ok p, pins) =>
          match faults .qdiscReplace with
          | some err => (some (.ensureClsact ifName err), { k with pins })
          | none => m.replaceFilter faults (ensureClsact { k with pins } ifName) ifName p

/-- Filters with the manager's name go, whatever their priority and handle. -/
def managed (f : Filter) : Bool := f.bpf && f.name = m.filterName

/-- The loop over the listed filters: what is left of them, and the error that ended it. -/
def deleteLoop (i : Nat) : List Filter → Option Errno × List Filter
  | [] => (none, [])
  | f :: rest =>
    if m.managed f then
      match faults (.filterDel i) with
      | none => deleteLoop (i + 1) rest
      | some .enoent => ((deleteLoop (i + 1) rest).1, f :: (deleteLoop (i + 1) rest).2)
      | some err => (some err, f :: rest)
    else ((deleteLoop (i + 1) rest).1, f :: (deleteLoop (i + 1) rest).2)

/-- A listing that fails because there is no qdisc is an empty one. -/
def deleteManagedFilters (k : Kernel) (d : Dev) : Option AttachError × Kernel :=
  match faults .filterList with
  | some .enoent | some .einval => (none, k)
  | some err => (some (.deleteFilter d.link.name err), k)
  | none =>
    match d.clsact with
    | none => (none, k)
    | some c =>
      ((m.deleteLoop faults 0 c.ingress).1.map (.deleteFilter d.link.name),
        k.setClsact d.link.name fun _ => some { c with ingress := (m.deleteLoop faults 0 c.ingress).2 })

def detach (cancelled : Bool) (k : Kernel) (ifName : String) : Option AttachError × Kernel :=
  if cancelled then (some .ctx, k)
  else
    match faults .linkByName with
    | some .enoent => (none, k)
    | some err => (some (.linkLookup ifName err), k)
    | none =>
      match k.linkByName ifName with
      | none => (none, k)
      | some d =>
        match m.deleteManagedFilters faults k d with
        | (some err, k) => (some err, k)
        | (none, k) =>
          match faults .qdiscDel with
          | some .enoent => (none, k)
          | some err => (some (.deleteClsact ifName err), k)
          | none => (none, k.setClsact ifName fun _ => none)

end TCManager

end Meridian.Attach
