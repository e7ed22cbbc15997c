/-! The loaders of pinned maps (`internal/agent/bpfobj`). A loader opens the maps of its collection one by one, under their
    names: a map that is pinned is opened again, one that is not is created and pinned. The primary loaders then compare
    the schema sentinel with the version of their build. Pins outlive the process. -/

namespace Meridian.Bpfobj

def schemaSentinelMap : String := "schema_sentinel_map"

/-- The pinned maps, each with the schema version of the build that created it, and the value of the sentinel. -/
structure PinDir where
  pins : List (String × UInt32)
  sentinel : UInt32
  deriving DecidableEq, Repr

namespace PinDir

def empty : PinDir := ⟨[], 0⟩

def creator (d : PinDir) (name : String) : Option UInt32 := d.pins.lookup name

end PinDir

def pinDirPopulated (d : PinDir) : Bool := d.pins.length > 0

/-- A sentinel that is created reads 0. -/
def openMap (version : UInt32) (d : PinDir) (name : String) : PinDir :=
  match d.creator name with
  | some _ => d
  | none => ⟨d.pins ++ [(name, version)], if name = schemaSentinelMap then 0 else d.sentinel⟩

def loadMaps (version : UInt32) (maps : List String) (d : PinDir) : PinDir := maps.foldl (openMap version) d

inductive LoadError where
  | missingMap (name : String)
  | partialPinSet
  | schemaVersion (current want : UInt32)
  deriving DecidableEq, Repr

/-- What is written to the sentinel, if anything. -/
def reconcileSchema (current : UInt32) (preExisting : Bool) (want : UInt32) : Except LoadError (Option UInt32) :=
  if !preExisting then .ok (some want)
  else if current = want then .ok none
  else if current = 0 then .error .partialPinSet
  else .error (.schemaVersion current want)

/-- A build: the schema version, which starts at 1, and the pinned maps of a collection, in the order of loading. -/
structure Build where
  version : UInt32
  maps : List String
  version_ne_zero : version ≠ 0

/-- A call returns, or its process dies when so many maps are open, or after the sentinel was reconciled. -/
inductive Ending where
  | returns
  | diesLoading (count : Nat)
  | diesReconciled
  deriving DecidableEq, Repr

/-- The directory afterwards, whether the sentinel was written, and what the call returned, if it did. -/
structure Outcome where
  dir : PinDir
  stamped : Bool
  result : Option (Except LoadError (List String))

/-- The maps that the call opens. -/
def Ending.opened (ending : Ending) (b : Build) : List String :=
  match ending with
  | .diesLoading count => b.maps.take count
  | .returns | .diesReconciled => b.maps

def Ending.result (ending : Ending) (r : Except LoadError (List String)) : Option (Except LoadError (List String)) :=
  if ending = .returns then some r else none

/-- The end of a primary load, with its maps open; a collection without a sentinel is not assigned. -/
def reconcile (b : Build) (ending : Ending) (preExisting : Bool) (loaded : PinDir) : Outcome :=
  if schemaSentinelMap ∉ b.maps then ⟨loaded, false, ending.result (.error (.missingMap schemaSentinelMap))⟩
  else
    match reconcileSchema loaded.sentinel preExisting b.version with
    | .error e => ⟨loaded, false, ending.result (.error e)⟩
    | .ok none => ⟨loaded, false, ending.result (.ok b.maps)⟩
    | .ok (some version) => ⟨{ loaded with sentinel := version }, true, ending.result (.ok b.maps)⟩

def loadPrimary (b : Build) (ending : Ending) (d : PinDir) : Outcome :=
  let preExisting := pinDirPopulated d
  let loaded := loadMaps b.version (ending.opened b) d
  match ending with
  | .diesLoading _ => ⟨loaded, false, none⟩
  | .returns | .diesReconciled => reconcile b ending preExisting loaded

def loadSecondary (b : Build) (ending : Ending) (d : PinDir) : Outcome :=
  ⟨loadMaps b.version (ending.opened b) d, false, ending.result (.ok b.maps)⟩

def loadCounter : Build → Ending → PinDir → Outcome := loadPrimary
def loadTcIngress : Build → Ending → PinDir → Outcome := loadPrimary
def loadSockOps : Build → Ending → PinDir → Outcome := loadSecondary
def loadSkMsg : Build → Ending → PinDir → Outcome := loadSecondary

inductive Loader where
  | counter
  | tcIngress
  | sockOps
  | skMsg
  deriving DecidableEq, Repr

structure Call where
  loader : Loader
  build : Build
  ending : Ending

namespace Call

def isPrimary (c : Call) : Bool := c.loader = .counter || c.loader = .tcIngress

def run (c : Call) (d : PinDir) : Outcome :=
  match c.loader with
  | .counter => loadCounter c.build c.ending d
  | .tcIngress => loadTcIngress c.build c.ending d
  | .sockOps => loadSockOps c.build c.ending d
  | .skMsg => loadSkMsg c.build c.ending d

end Call

def PinDir.step (d : PinDir) (c : Call) : PinDir := (c.run d).dir

end Meridian.Bpfobj
