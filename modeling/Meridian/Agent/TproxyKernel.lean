import Meridian.Agent.Tproxy
import Meridian.Lib.Run

/-! The installer of the steering rules against the tables of the kernel: what is shown is what is there. The commands
    behave normally: a listing prints one line for each entry, a route that exists cannot be added again, and `iptables -C`
    finds a rule exactly when it is there. -/

namespace Meridian.Tproxy
open Lib

/-- A policy rule: all packets, or those with a mark, are looked up in a table. -/
structure PolicyRule where
  mark : Option UInt32
  table : Nat
  deriving DecidableEq, Repr

/-- The tables with a name of their own. -/
def tableName (table : Nat) : String :=
  if table = 255 then "local" else if table = 254 then "main" else if table = 253 then "default" else decimal table

def PolicyRule.line (r : PolicyRule) : String :=
  match r.mark with
  | none => "from all lookup " ++ tableName r.table
  | some mark => "from all fwmark " ++ hex mark ++ " lookup " ++ tableName r.table

structure Route where
  table : Nat
  isLocal : Bool
  dst : String
  dev : String
  deriving DecidableEq, Repr

/-- The route to everything is shown as `default`. -/
def Route.line (r : Route) : String :=
  (if r.isLocal then "local " else "") ++ (if r.dst = "0.0.0.0/0" then "default" else r.dst) ++ " dev " ++ r.dev

structure Kernel where
  rules : List PolicyRule
  routes : List Route
  prerouting : List (List String)
  deriving DecidableEq, Repr

/-- The output of a listing, line by line. -/
def listing (lines : List String) : String := String.ofList (lines.flatMap fun line => line.toList ++ ['\n'])

namespace Kernel
variable (i : LinuxInstaller)

def ruleShow (k : Kernel) : String := listing (k.rules.map PolicyRule.line)

def routeShow (k : Kernel) (table : Nat) : String := listing ((k.routes.filter (·.table = table)).map Route.line)

def installIPRule (k : Kernel) : Bool × Kernel :=
  if contains k.ruleShow ("fwmark " ++ hex i.mark ++ " lookup " ++ decimal i.table) then (true, k)
  else (true, { k with rules := k.rules ++ [⟨some i.mark, i.table⟩] })

def localRoute : Route := ⟨i.table, true, "0.0.0.0/0", "lo"⟩

def installLocalRoute (k : Kernel) : Bool × Kernel :=
  if contains (k.routeShow i.table) "local 0.0.0.0/0" then (true, k)
  else if localRoute i ∈ k.routes then (false, k)
  else (true, { k with routes := k.routes ++ [localRoute i] })

def installIPTables (port : Nat) (k : Kernel) : Bool × Kernel :=
  if k.prerouting.contains (i.rule port) then (true, k)
  else (true, { k with prerouting := k.prerouting ++ [i.rule port] })

/-- The steps of `Install` after the feature probe, which changes nothing. Only the last command of a step changes
    anything, so a run that is cut off leaves what some number of whole steps leave. -/
def steps : List (InstallError × (Kernel → Bool × Kernel)) :=
  [(.ipRule, installIPRule i), (.localRoute, installLocalRoute i), (.outbound i.outPort, installIPTables i i.outPort),
    (.inbound i.inPort, installIPTables i i.inPort)]

/-- The first step that fails ends the run. -/
def runSteps : List (InstallError × (Kernel → Bool × Kernel)) → Kernel → Option InstallError × Kernel
  | [], k => (none, k)
  | (err, step) :: rest, k =>
    match step k with
    | (false, k) => (some err, k)
    | (true, k) => runSteps rest k

def install (k : Kernel) : Option InstallError × Kernel := runSteps (steps i) k

/-- A run that is cut off after some steps. -/
def interrupted (k : Kernel) (n : Nat) : Kernel := (runSteps ((steps i).take n) k).2

/-- What is left after some runs, each given by the steps it came to. -/
def after (k : Kernel) (runs : List Nat) : Kernel := execute (interrupted i) k runs

end Kernel

end Meridian.Tproxy
