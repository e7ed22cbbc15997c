import Mathlib.Data.List.Sort
import Meridian.Agent.Metrics
import Meridian.Lib.Run

/-! Counters of flow events for pairs of identities (`internal/agent/telemetry`): a bounded number of pairs is kept, the one
    seen least recently goes first, and an export adds up the pairs whose identities have the same names. -/

namespace Meridian.Telemetry
open Lib Wire Metrics

/-- `flowKey`. -/
structure FlowPair where
  src : UInt32
  dst : UInt32
  deriving DecidableEq, Repr

structure Aggregate where
  srcIdentity : UInt32
  dstIdentity : UInt32
  allowCount : UInt64
  denyCount : UInt64
  byteCount : UInt64
  deriving DecidableEq, Repr

structure AggregateEntry where
  key : FlowPair
  value : Aggregate
  deriving DecidableEq, Repr

def Event.pair (e : Event) : FlowPair := ⟨e.srcIdentity, e.dstIdentity⟩

/-- An entry without events. -/
def AggregateEntry.new (key : FlowPair) : AggregateEntry := ⟨key, ⟨key.src, key.dst, 0, 0, 0⟩⟩

def defaultPairCapacity : Int := 1024

/-- The elements of the list have addresses: `lru` has them in the order of the list, `heap` has their entries, and `next` is
    the address of the next element. -/
structure Aggregator where
  capacity : Int
  entries : AList fun _ : FlowPair => Nat
  lru : List Nat
  heap : Nat → AggregateEntry
  next : Nat

namespace Aggregator

def new (capacity : Int) : Aggregator where
  capacity := if capacity ≤ 0 then defaultPairCapacity else capacity
  entries := ∅
  lru := []
  heap := fun _ => .new ⟨0, 0⟩
  next := 0

def size (a : Aggregator) : Nat := a.entries.entries.length

/-! ### Handling an event -/

def evictOldest (a : Aggregator) : Aggregator :=
  match a.lru.getLast? with
  | none => a
  | some oldest => { a with entries := a.entries.erase (a.heap oldest).key, lru := a.lru.erase oldest }

def pushFront (a : Aggregator) (key : FlowPair) : Aggregator :=
  { a with
    entries := a.entries.insert key a.next
    lru := a.next :: a.lru
    heap := Function.update a.heap a.next (.new key)
    next := a.next + 1 }

def moveToFront (a : Aggregator) (element : Nat) : Aggregator := { a with lru := element :: a.lru.erase element }

end Aggregator

def Aggregate.count (value : Aggregate) (e : Event) : Aggregate :=
  { value with
    allowCount := if e.verdict = verdictAllow then value.allowCount + 1 else value.allowCount
    denyCount := if e.verdict = verdictDeny then value.denyCount + 1 else value.denyCount
    byteCount := value.byteCount + e.bytes.toUInt64 }

/-- The order of a snapshot. -/
def Aggregate.less (x y : Aggregate) : Bool :=
  if x.srcIdentity ≠ y.srcIdentity then x.srcIdentity < y.srcIdentity else x.dstIdentity < y.dstIdentity

namespace Aggregator

def count (a : Aggregator) (element : Nat) (e : Event) : Aggregator :=
  { a with heap := Function.update a.heap element ⟨(a.heap element).key, (a.heap element).value.count e⟩ }

def handle (a : Aggregator) (e : Event) : Aggregator :=
  match a.entries.lookup e.pair with
  | none =>
    let a := if a.capacity ≤ a.size then a.evictOldest else a
    (a.pushFront e.pair).count a.next e
  | some element => (a.moveToFront element).count element e

/-! ### Reading -/

/-- The map is read in some order and then sorted. -/
def snapshot (a : Aggregator) : List Aggregate :=
  (a.entries.entries.map fun x => (a.heap x.2).value).insertionSort fun x y => y.less x = false

end Aggregator

/-! ### The collector -/

structure LabelKey where
  src : String
  dst : String
  deriving DecidableEq, Repr

structure AggregateValue where
  allow : UInt64
  deny : UInt64
  bytes : UInt64
  deriving DecidableEq, Repr

/-- The three families: `meridian_flow_allow_total`, `meridian_flow_deny_total` and `meridian_flow_bytes_total`. -/
inductive Counter where
  | allow
  | deny
  | bytes
  deriving DecidableEq, Repr

/-- A counter that is sent; the value is the one before its conversion to a float. -/
structure FlowMetric where
  desc : Counter
  labels : LabelKey
  value : UInt64
  deriving DecidableEq, Repr

/-- The reserved identity has no rule of its own here. -/
def resolveLabel (resolver : Option Resolver) (rawID : UInt32) : String :=
  match resolver with
  | none => unknownLabelValue
  | some resolve =>
    match resolve rawID with
    | .failed | .missing => unknownLabelValue
    | .found identity => if Compiler.isBlank identity.spiffeID then unknownLabelValue else identity.spiffeID

def labelsOf (resolver : Option Resolver) (x : Aggregate) : LabelKey :=
  ⟨resolveLabel resolver x.srcIdentity, resolveLabel resolver x.dstIdentity⟩

def mergeOne (resolver : Option Resolver) (merged : AList fun _ : LabelKey => AggregateValue) (x : Aggregate) :
    AList fun _ : LabelKey => AggregateValue :=
  let value := (merged.lookup (labelsOf resolver x)).getD ⟨0, 0, 0⟩
  merged.insert (labelsOf resolver x)
    ⟨value.allow + x.allowCount, value.deny + x.denyCount, value.bytes + x.byteCount⟩

def merge (resolver : Option Resolver) (aggregates : List Aggregate) : AList fun _ : LabelKey => AggregateValue :=
  aggregates.foldl (mergeOne resolver) ∅

def metricsOf (x : Sigma fun _ : LabelKey => AggregateValue) : List FlowMetric :=
  [⟨.allow, x.1, x.2.allow⟩, ⟨.deny, x.1, x.2.deny⟩, ⟨.bytes, x.1, x.2.bytes⟩]

/-- `Collect`; a collector without an aggregator sends nothing. -/
def collect (resolver : Option Resolver) (aggregator : Option Aggregator) : List FlowMetric :=
  match aggregator with
  | none => []
  | some a => (merge resolver a.snapshot).entries.flatMap metricsOf

end Meridian.Telemetry
