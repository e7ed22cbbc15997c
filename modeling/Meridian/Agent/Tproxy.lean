import Mathlib.Data.List.Infix
import Meridian.Lib.Text

/-! The steering rules for the transparent proxy (`internal/agent/tproxy`), and how `iptables` reads them. -/

namespace Meridian.Tproxy
open Lib

def tproxyMark : UInt32 := 0x1
def tproxyTable : Nat := 100
def outboundPort : Nat := 15001
def inboundPort : Nat := 15008

/-! ### Commands -/

/-- A command of the installer; a rule is the arguments after the chain `PREROUTING`. -/
inductive Command where
  | listMangle
  | modprobe
  | check (rule : List String)
  | append (rule : List String)
  | ip (args : List String)
  deriving DecidableEq, Repr

/-- What the commands act on: the rules of the mangle chain `PREROUTING` in order, and the policy rules and routes that
    were added. -/
structure Host where
  prerouting : List (List String)
  ip : List (List String)
  calls : Nat
  deriving DecidableEq, Repr

/-- How the commands answer: which calls fail, whether `modprobe` fails for want of the module, and what the two `show`
    commands print, nothing for an error. -/
structure Shell where
  fails : Nat → Bool
  moduleNotFound : Bool
  ruleShow : Option String
  routeShow : Option String

/-- Whether a command succeeds, and what it leaves. A check succeeds on a rule that is there. -/
def Shell.run (sh : Shell) (host : Host) (cmd : Command) : Bool × Host :=
  let next := { host with calls := host.calls + 1 }
  if sh.fails host.calls then (false, next)
  else
    match cmd with
    | .check rule => (decide (rule ∈ host.prerouting), next)
    | .append rule => (true, { next with prerouting := host.prerouting ++ [rule] })
    | .ip args => (true, { next with ip := host.ip ++ [args] })
    | _ => (true, next)

/-! ### The installer -/

inductive ProbeError where
  | mangleUnavailable
  | moduleNotAvailable
  deriving DecidableEq, Repr

inductive InstallError where
  | probe (err : ProbeError)
  | ipRule
  | localRoute
  | outbound (port : Nat)
  | inbound (port : Nat)
  deriving DecidableEq, Repr

structure LinuxInstaller where
  mark : UInt32
  table : Nat
  outPort : Nat
  inPort : Nat
  deriving DecidableEq, Repr

def newInstaller : LinuxInstaller := ⟨tproxyMark, tproxyTable, outboundPort, inboundPort⟩

/-- `0x%x` -/
def hex (n : UInt32) : String := "0x" ++ String.ofList (Nat.toDigits 16 n.toNat)

/-- `strings.Contains` -/
def contains (s sub : String) : Bool := sub.toList <:+: s.toList

def probeTPROXY (sh : Shell) (host : Host) : Option ProbeError × Host :=
  match sh.run host .listMangle with
  | (false, host) => (some .mangleUnavailable, host)
  | (true, host) =>
    match sh.run host .modprobe with
    | (true, host) => (none, host)
    | (false, host) =>
      match sh.run host (.check ["-t", "mangle", "-p", "tcp", "--dport", "1", "-j", "TPROXY", "--tproxy-mark", "0x1",
          "--on-port", "1"]) with
      | (true, host) => (none, host)
      | (false, host) => (if sh.moduleNotFound then some .moduleNotAvailable else none, host)

namespace LinuxInstaller
variable (i : LinuxInstaller)

def installIPRule (sh : Shell) (host : Host) : Bool × Host :=
  match sh.ruleShow with
  | none => (false, host)
  | some out =>
    if contains out ("fwmark " ++ hex i.mark ++ " lookup " ++ decimal i.table) then (true, host)
    else sh.run host (.ip ["rule", "add", "fwmark", hex i.mark, "lookup", decimal i.table])

def installLocalRoute (sh : Shell) (host : Host) : Bool × Host :=
  if sh.routeShow.any fun out => contains out "local 0.0.0.0/0" then (true, host)
  else sh.run host (.ip ["route", "add", "local", "0.0.0.0/0", "dev", "lo", "table", decimal i.table])

/-- The arguments of the rule for a port. -/
def rule (port : Nat) : List String :=
  ["-t", "mangle", "-p", "tcp", "--destination-port", decimal port, "-j", "TPROXY", "--tproxy-mark", hex i.mark,
    "--on-port", decimal port]

def installIPTables (sh : Shell) (host : Host) (port : Nat) : Bool × Host :=
  match sh.run host (.check (i.rule port)) with
  | (true, host) => (true, host)
  | (false, host) => sh.run host (.append (i.rule port))

def install (sh : Shell) (host : Host) : Option InstallError × Host :=
  match probeTPROXY sh host with
  | (some e, host) => (some (.probe e), host)
  | (none, host) =>
    match i.installIPRule sh host with
    | (false, host) => (some .ipRule, host)
    | (true, host) =>
      match i.installLocalRoute sh host with
      | (false, host) => (some .localRoute, host)
      | (true, host) =>
        match i.installIPTables sh host i.outPort with
        | (false, host) => (some (.outbound i.outPort), host)
        | (true, host) =>
          match i.installIPTables sh host i.inPort with
          | (false, host) => (some (.inbound i.inPort), host)
          | (true, host) => (none, host)

end LinuxInstaller

/-! ### How a chain is evaluated -/

/-- What the match options of a rule look at, and the mark. -/
structure Packet where
  protocol : UInt8
  daddr : UInt32
  dport : UInt16
  mark : UInt32
  deriving DecidableEq, Repr

inductive Match where
  | protocol (name : String)
  | destinationPort (port : Nat)
  deriving DecidableEq, Repr

/-- A rule as its arguments say: the table, the match options, the target and its parameters. -/
structure Rule where
  table : String
  options : List Match
  target : String
  tproxyMark : String
  onPort : Option Nat
  deriving DecidableEq, Repr

def readOption (r : Rule) (flag value : String) : Option Rule :=
  if flag = "-t" then some { r with table := value }
  else if flag = "-p" then some { r with options := r.options ++ [.protocol value] }
  else if flag = "--destination-port" then
    (readDecimal value).map fun port => { r with options := r.options ++ [.destinationPort port] }
  else if flag = "-j" then some { r with target := value }
  else if flag = "--tproxy-mark" then some { r with tproxyMark := value }
  else if flag = "--on-port" then (readDecimal value).map fun port => { r with onPort := some port }
  else none

def readOptions (r : Rule) : List String → Option Rule
  | [] => some r
  | [_] => none
  | flag :: value :: rest => (readOption r flag value).bind fun r => readOptions r rest

def readRule (args : List String) : Option Rule := readOptions ⟨"filter", [], "", "", none⟩ args

def Match.holds (p : Packet) : Match → Bool
  | .protocol name => name = "tcp" && p.protocol = 6
  | .destinationPort port => p.dport.toNat = port

/-- A rule applies when all its match options hold. -/
def Rule.applies (r : Rule) (p : Packet) : Bool := r.options.all (Match.holds p)

/-- The first rule of a chain that applies to a packet. -/
def evaluate (chain : List (List String)) (p : Packet) : Option Rule :=
  (chain.filterMap readRule).find? fun r => r.applies p

/-- The packet is handed to the proxy socket on `port`. -/
def SteeredTo (chain : List (List String)) (p : Packet) (port : Nat) : Prop :=
  ∃ r, evaluate chain p = some r ∧ r.target = "TPROXY" ∧ r.onPort = some port

end Meridian.Tproxy
