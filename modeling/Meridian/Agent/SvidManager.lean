import Meridian.Agent.Svid
import Meridian.Lib.Assoc
import Meridian.Lib.Chan
import Meridian.Lib.Float64

/-! The store of the current SVID and the loop that rotates it (`internal/agent/svid`). Certificates carry whole seconds;
    the clock and durations are in nanoseconds. -/

namespace Meridian.Svid
open Lib Url Ca

/-! ### Durations -/

def second : Int := 1000000000

/-- `t.Sub(u)`, which saturates. -/
def sub (t u : Int) : Int := max (-2 ^ 63) (min (t - u) (2 ^ 63 - 1))

def rotateFraction : Float64 := .round (2 / 3)

def nearExpiryFraction : Float64 := .round (1 / 6)

/-- `time.Duration(float64(d) * fraction)` -/
def scale (d : Int) (fraction : Float64) : Int := ((Float64.ofInt d).mul fraction).toInt

/-- The entry has less than the fraction of its lifetime left; also when there is none. -/
def nearExpiry (now : Int) : Option Entry → Bool
  | none => true
  | some e =>
    let total := sub (e.leaf.notAfter * second) (e.leaf.notBefore * second)
    if total ≤ 0 then true else sub (e.expiresAt * second) now < scale total nearExpiryFraction

def nextRotateDelay (now : Int) (e : Entry) : Int :=
  let remaining := sub (e.expiresAt * second) now
  if remaining ≤ 0 then 0
  else
    let d := scale remaining rotateFraction
    if d < 0 then 0 else d

inductive GetSvidError where
  | notIssued (spiffeID : List UInt8)
  | nearExpiry (spiffeID : List UInt8) (expiresAt : Int)
  deriving DecidableEq, Repr

/-- `GetSVID` from the entry that it reads in the store. -/
def getSVID (spiffeID : List UInt8) (now : Int) : Option Entry → Except GetSvidError Entry
  | none => .error (.notIssued spiffeID)
  | some e => if nearExpiry now (some e) then .error (.nearExpiry spiffeID e.expiresAt) else .ok e

/-! ### The store -/

structure Store where
  current : Option Entry
  subs : List (Nat × Chan Entry)
  deriving DecidableEq, Repr

namespace Store

def new : Store := ⟨none, []⟩

/-- A subscriber whose buffer is full is skipped. -/
def set (s : Store) (e : Entry) : Store := ⟨some e, s.subs.map fun (id, ch) => (id, (ch.trySend e).getD ch)⟩

def subscribe (s : Store) (id : Nat) : Store :=
  let ch : Chan Entry := .make 1
  match s.current with
  | none => { s with subs := s.subs ++ [(id, ch)] }
  | some e => { s with subs := s.subs ++ [(id, (ch.trySend e).getD ch)] }

def unsubscribe (s : Store) (id : Nat) : Store := { s with subs := s.subs.eraseP (·.1 == id) }

theorem ids_set (s : Store) (e : Entry) : (s.set e).subs.map (·.1) = s.subs.map (·.1) := by
  rw [set, List.map_map]
  rfl

theorem lookup_set (s : Store) (e : Entry) (id : Nat) :
    (s.set e).subs.lookup id = (s.subs.lookup id).map fun ch => (ch.trySend e).getD ch :=
  Assoc.lookup_map_snd (fun ch : Chan Entry => (ch.trySend e).getD ch) s.subs id

theorem subscribe_eq (s : Store) (id : Nat) :
    s.subscribe id = { s with subs := s.subs ++ [(id, ⟨1, s.current.toList, false⟩)] } := by
  unfold subscribe
  cases s.current <;> rfl

theorem nodup_subscribe {s : Store} {id : Nat} (h : s.subs.lookup id = none) (hids : (s.subs.map (·.1)).Nodup) :
    ((s.subscribe id).subs.map (·.1)).Nodup := by
  rw [subscribe_eq, List.map_append, List.map_singleton, ← List.concat_eq_append]
  exact (List.nodup_concat _ _).mpr ⟨Assoc.lookup_eq_none.mp h, hids⟩

end Store

/-! ### The rotation loop -/

inductive Phase where
  /-- Waits for the signer; the entry to rotate, none at the first issuance. -/
  | issuing (entry : Option Entry)
  | waiting (entry : Entry) (delay : Int)
  | backoff (entry : Entry) (delay : Int)
  | stopped (err : Option IssueError)
  deriving DecidableEq, Repr

structure Manager where
  phase : Phase
  store : Store
  deriving DecidableEq, Repr

namespace Manager

def start : Manager := ⟨.issuing none, .new⟩

def retryDelay : Int := 30 * second

/-- The signer has answered, with an entry or not. -/
def issued (m : Manager) (now : Int) (result : Except IssueError Entry) : Manager :=
  match m.phase, result with
  | .issuing none, .error err => { m with phase := .stopped (some err) }
  | .issuing (some entry), .error _ => { m with phase := .backoff entry retryDelay }
  | .issuing _, .ok next => ⟨.waiting next (nextRotateDelay now next), m.store.set next⟩
  | _, _ => m

def timer (m : Manager) (now : Int) : Manager :=
  match m.phase with
  | .waiting entry _ => { m with phase := .issuing (some entry) }
  | .backoff entry _ => { m with phase := .waiting entry (nextRotateDelay now entry) }
  | _ => m

/-- A request of `ForceRotate` is taken. -/
def force (m : Manager) : Manager :=
  match m.phase with
  | .waiting entry _ => { m with phase := .issuing (some entry) }
  | _ => m

def cancel (m : Manager) : Manager :=
  match m.phase with
  | .waiting _ _ | .backoff _ _ => { m with phase := .stopped none }
  | _ => m

@[simp] theorem store_timer (m : Manager) (now : Int) : (m.timer now).store = m.store := by
  unfold timer
  split <;> rfl

@[simp] theorem store_force (m : Manager) : m.force.store = m.store := by
  unfold force
  split <;> rfl

@[simp] theorem store_cancel (m : Manager) : m.cancel.store = m.store := by
  unfold cancel
  split <;> rfl

end Manager

end Meridian.Svid
