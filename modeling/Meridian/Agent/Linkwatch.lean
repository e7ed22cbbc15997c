import Mathlib.Data.Finset.Basic

/-! The watcher of pod interfaces (`internal/agent/linkwatch`). `Run` lists the links of the host, attaches the datapath to
    the listed ones, subscribes to link changes, and then attaches and detaches as the changes come in. The host changes
    between any two of these steps. -/

namespace Meridian.Linkwatch

structure Link where
  name : String
  kind : String
  deriving DecidableEq, Repr

def vethKind : String := "veth"

abbrev Selector := String → Bool

/-- An empty prefix selects nothing. -/
def prefixSelector (pre : String) : Selector := fun ifName => pre != "" && pre.toList.isPrefixOf ifName.toList

/-! ### The netlink watcher -/

def reconcile (sel : Selector) (links : List Link) : List String :=
  (links.filter fun link => link.kind == vethKind && sel link.name).map (·.name)

inductive EventType where
  | added
  | removed
  deriving DecidableEq, Repr

structure Event where
  ifName : String
  type : EventType
  deriving DecidableEq, Repr

inductive Header where
  | newLink
  | delLink
  | other
  deriving DecidableEq, Repr

structure LinkUpdate where
  header : Header
  link : Link
  deriving DecidableEq, Repr

/-- A removal is matched by its name alone: its message may carry no kind. -/
def classify (sel : Selector) (u : LinkUpdate) : Option Event :=
  if sel u.link.name then
    match u.header with
    | .newLink => if u.link.kind = vethKind then some ⟨u.link.name, .added⟩ else none
    | .delLink => some ⟨u.link.name, .removed⟩
    | .other => none
  else none

/-! ### The lifecycle loop -/

def ensureAttached (attached : Finset String) (ifName : String) : Finset String := insert ifName attached

def detach (attached : Finset String) (ifName : String) : Finset String := attached.erase ifName

def dispatch (attached : Finset String) (ev : Event) : Finset String :=
  match ev.type with
  | .added => ensureAttached attached ev.ifName
  | .removed => detach attached ev.ifName

/-- What becomes of the attached interfaces when an update is delivered. -/
def deliver (sel : Selector) (attached : Finset String) (u : LinkUpdate) : Finset String :=
  match classify sel u with
  | some ev => dispatch attached ev
  | none => attached

inductive Phase where
  | list
  /-- `ifaces` were listed; `todo` of them are still to be attached. Then comes the subscription. -/
  | attach (ifaces todo : List String)
  | wait
  deriving DecidableEq, Repr

/-- The links of the host, and `Run` with its subscription: the updates that it has not delivered yet, oldest first. -/
structure System where
  links : List Link
  attached : Finset String
  phase : Phase
  updates : List LinkUpdate
  deriving DecidableEq

/-- A link of the host appears or disappears, or `Run` takes its next step. The message of a removal has any kind. -/
inductive Step where
  | add (link : Link)
  | remove (name kind : String)
  | run
  deriving DecidableEq, Repr

namespace System

def start (links : List Link) : System := ⟨links, ∅, .list, []⟩

/-- A change is reported to the subscription, if there is one. -/
def report (s : System) (u : LinkUpdate) : List LinkUpdate :=
  if s.phase = .wait then s.updates ++ [u] else s.updates

def run (sel : Selector) (s : System) : System :=
  match s.phase with
  | .list => { s with phase := .attach (reconcile sel s.links) (reconcile sel s.links) }
  | .attach ifaces (ifName :: todo) =>
    { s with attached := ensureAttached s.attached ifName, phase := .attach ifaces todo }
  | .attach _ [] => { s with phase := .wait }
  | .wait =>
    match s.updates with
    | [] => s
    | u :: rest => { s with attached := deliver sel s.attached u, updates := rest }

/-- A name is taken once, and only what is there can be removed. -/
def step (sel : Selector) (s : System) : Step → System
  | .add link =>
    if link.name ∈ s.links.map (·.name) then s
    else { s with links := s.links ++ [link], updates := s.report ⟨.newLink, link⟩ }
  | .remove name kind =>
    if name ∈ s.links.map (·.name) then
      { s with links := s.links.filter (·.name ≠ name), updates := s.report ⟨.delLink, ⟨name, kind⟩⟩ }
    else s
  | .run => s.run sel

/-- `Run` waits for events and none is undelivered. -/
def Idle (s : System) : Prop := s.phase = .wait ∧ s.updates = []

instance (s : System) : Decidable s.Idle := inferInstanceAs (Decidable (_ ∧ _))

end System

end Meridian.Linkwatch
