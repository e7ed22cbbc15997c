import Mathlib.Data.List.Sort
import Meridian.Control.PolicyInformer

/-! Pods and their identities (`internal/control/identity`, `internal/control/k8s`): the registry that allocates
    identities, the pod watcher that registers annotated pods, and the resolver that answers the policy compiler from the
    pod lister. -/

namespace Meridian.K8s
open Lib Wire

/-! ### The registry -/

def firstID : IdentityID := 1

structure Registry where
  next : IdentityID
  byName : Table String IdentityID
  byID : Table IdentityID String

namespace Registry

def new : Registry := ⟨firstID, fun _ => none, fun _ => none⟩

def lookupByName (r : Registry) (name : String) : Option IdentityID := r.byName name

def lookupByID (r : Registry) (id : IdentityID) : Option String := r.byID id

/-- A known name keeps its identity; the counter of a new one wraps like every `uint32`. Nothing for the empty name. -/
def allocate (r : Registry) (name : String) : Option (IdentityID × Registry) :=
  if name = "" then none
  else
    match r.byName name with
    | some id => some (id, r)
    | none => some (r.next, ⟨r.next + 1, Table.put r.byName name r.next, Table.put r.byID r.next name⟩)

/-- The name is free again; the counter does not go back. -/
def release (r : Registry) (name : String) : Registry :=
  match r.byName name with
  | none => r
  | some id => { r with byName := Table.erase r.byName name, byID := Table.erase r.byID id }

end Registry

/-! ### The watcher -/

def spiffeIDAnnotation : String := "meridian.io/spiffe-id"

structure Pod where
  ns : String
  name : String
  labels : Table String String
  annotations : Table String String
  podIP : String

/-- What the pod informer delivers. -/
inductive PodObject where
  | pod (pod : Pod)
  | deletedFinalStateUnknown (pod : Pod)
  | other

/-- The pod watcher, with the identities of its store. -/
structure Watcher where
  registry : Registry
  store : Table IdentityID Identity

/-- The SPIFFE ID of a meshed pod: annotated and with an address. -/
def Pod.meshed (pod : Pod) : Option String :=
  match pod.annotations spiffeIDAnnotation with
  | none => none
  | some spiffeID => if spiffeID = "" then none else if pod.podIP = "" then none else some spiffeID

/-- The identity that a pod is stored under. -/
def Pod.identity (pod : Pod) (spiffeID : String) (id : IdentityID) : Identity :=
  ⟨id, pod.podIP, spiffeID, pod.ns, pod.name⟩

namespace Watcher

def new : Watcher := ⟨.new, fun _ => none⟩

def podIdentity (w : Watcher) : Option Pod → Option IdentityID
  | none => none
  | some pod => w.registry.lookupByName pod.name

def onPodAdd (w : Watcher) : PodObject → Watcher
  | .deletedFinalStateUnknown _ | .other => w
  | .pod pod =>
    match pod.meshed with
    | none => w
    | some spiffeID =>
      match w.registry.allocate pod.name with
      | none => w
      | some (id, registry) => ⟨registry, Table.put w.store id (pod.identity spiffeID id)⟩

def onPodDelete (w : Watcher) : PodObject → Watcher
  | .deletedFinalStateUnknown _ | .other => w
  | .pod pod =>
    match w.registry.lookupByName pod.name with
    | none => w
    | some id => { w with store := Table.erase w.store id }

end Watcher

/-! ### The resolver -/

/-- A label selector that is made from a set asks for every one of its labels. -/
def WorkloadSelector.matchesLabels (sel : WorkloadSelector) (pod : Pod) : Bool :=
  sel.labels.all fun (key, value) => pod.labels key = some value

/-- The lister's pods of a namespace with the selector's labels; the empty namespace is every namespace. -/
def WorkloadSelector.select (sel : WorkloadSelector) (pods : List Pod) : List Pod :=
  pods.filter fun pod => (sel.ns = "" || pod.ns = sel.ns) && sel.matchesLabels pod

def addIdentity (identify : Pod → Option IdentityID) (ids : List IdentityID) (pod : Pod) : List IdentityID :=
  match identify pod with
  | none => ids
  | some id => if id ∈ ids then ids else ids ++ [id]

/-- The identities of the pods, each once, in the order of the pods. -/
def identities (identify : Pod → Option IdentityID) (pods : List Pod) : List IdentityID :=
  pods.foldl (addIdentity identify) []

def resolveSelector (identify : Pod → Option IdentityID) (pods : List Pod) (sel : WorkloadSelector) :
    Option (List IdentityID) :=
  let ids := identities identify (sel.select pods)
  if ids.length = 0 then none else some (ids.insertionSort (· ≤ ·))

/-- The first pod with the annotation and an identity; a pod without the annotation reads as the empty text. -/
def resolveSpiffeID (identify : Pod → Option IdentityID) (pods : List Pod) (spiffeID : String) : Option IdentityID :=
  pods.findSome? fun pod =>
    if (pod.annotations spiffeIDAnnotation).getD "" ≠ spiffeID then none else identify pod

/-- The pods in the order in which the lister gives them: in each call for a source, and in the one for the selector. -/
structure Listings where
  source : Nat → List Pod
  selector : List Pod

/-- The resolver of the policy informer. -/
def podResolver (w : Watcher) (listings : Listings) : IdentityResolver where
  resolveSelector := resolveSelector (fun pod => w.podIdentity (some pod)) listings.selector
  resolveSpiffeID i := resolveSpiffeID (fun pod => w.podIdentity (some pod)) (listings.source i)

/-! ### Events -/

def Pod.objectKey (pod : Pod) : String × String := (pod.ns, pod.name)

/-- Adds and updates have one handler; a deletion may come as a tombstone. -/
inductive PodEvent where
  | upsert (pod : Pod)
  | delete (pod : Pod) (tombstone : Bool)

/-- The watcher, the live pods, and the pods of the events so far. -/
structure Cluster where
  watcher : Watcher
  live : Table (String × String) Pod
  seen : List Pod

namespace Cluster

def start : Cluster := ⟨.new, fun _ => none, []⟩

def step (s : Cluster) : PodEvent → Cluster
  | .upsert pod => ⟨s.watcher.onPodAdd (.pod pod), Table.put s.live pod.objectKey pod, pod :: s.seen⟩
  | .delete pod tombstone =>
    ⟨s.watcher.onPodDelete (if tombstone then .deletedFinalStateUnknown pod else .pod pod),
      Table.erase s.live pod.objectKey, pod :: s.seen⟩

end Cluster

end Meridian.K8s
