import Mathlib.Data.List.Infix
import Meridian.Lib.JsonDecoder
import Meridian.Lib.Text

/-! The gate checker (`test/tools/checkgateskips/main.go`): the armed gates of the manifest are grouped by build tags and
    package, each group is one run of `go test -json`, and its output is read event by event. -/

namespace Meridian.GateCheck
open Lib

structure GateEntry where
  armed : Bool
  tags : String
  pkg : String
  testName : String
  deriving DecidableEq, Repr

structure GateGroup where
  tags : String
  pkg : String
  gates : List GateEntry
  deriving DecidableEq, Repr

structure GateResult where
  ran : Bool
  skips : Nat
  failed : Bool
  deriving DecidableEq, Repr

structure JsonEvent where
  action : String
  test : String
  output : String
  deriving DecidableEq, Repr

/-! ### The manifest -/

/-- `strings.Fields` -/
def splitFields : List Char → List Char → List String
  | word, [] => if word = [] then [] else [String.ofList word]
  | word, c :: rest =>
    if isSpace c then (if word = [] then [] else [String.ofList word]) ++ splitFields [] rest
    else splitFields (word ++ [c]) rest

structure ManifestError where
  line : Nat
  fields : Nat
  deriving DecidableEq, Repr

/-- Nothing for an empty line or a comment. -/
def parseLine (lineNo : Nat) (text : List Char) : Except ManifestError (Option GateEntry) :=
  match trimSpace text with
  | [] => .ok none
  | c :: rest =>
    if c = '#' then .ok none
    else
      match splitFields [] (c :: rest) with
      | armed :: tags :: pkg :: testName :: _ =>
        .ok (some ⟨foldName armed = foldName "yes", if tags = "''" then "" else tags, pkg, testName⟩)
      | fields => .error ⟨lineNo, fields.length⟩

def parseLines : Nat → List (List Char) → Except ManifestError (List GateEntry)
  | _, [] => .ok []
  | lineNo, text :: rest =>
    match parseLine lineNo text with
    | .error e => .error e
    | .ok none => parseLines (lineNo + 1) rest
    | .ok (some entry) =>
      match parseLines (lineNo + 1) rest with
      | .error e => .error e
      | .ok entries => .ok (entry :: entries)

def parseManifest (lines : List (List Char)) : Except ManifestError (List GateEntry) := parseLines 1 lines

/-! ### Groups -/

/-- The gate goes to the group of its tags and package, or starts one. -/
def addGate (entry : GateEntry) : List GateGroup → List GateGroup
  | [] => [⟨entry.tags, entry.pkg, [entry]⟩]
  | group :: rest =>
    if group.tags = entry.tags && group.pkg = entry.pkg then { group with gates := group.gates ++ [entry] } :: rest
    else group :: addGate entry rest

def groupGates (entries : List GateEntry) : List GateGroup :=
  entries.foldl (fun groups entry => if !entry.armed || entry.pkg = "" then groups else addGate entry groups) []

def isPrivileged (tags : String) : Bool := tags = "bpf" || tags = "integration"

def goTestArgs (group : GateGroup) : List String :=
  ["test", "-json", "-count=1", "-parallel", "1"] ++
    (if group.tags ≠ "" then ["-tags=" ++ group.tags] else []) ++
    (if isPrivileged group.tags then ["-exec=sudo", "-timeout=10m"] else []) ++ [group.pkg]

/-! ### The output of a group -/

def jsonEventFields : List (JsonField JsonEvent) :=
  [stringField "Action" fun s ev => { ev with action := s }, stringField "Test" fun s ev => { ev with test := s },
    stringField "Output" fun s ev => { ev with output := s }]

/-- One call of `Decode`. -/
def decodeEvent : Reader JsonEvent := decodeNext jsonEventFields ⟨"", "", ""⟩

/-- The test of the name, or one of its subtests. -/
def isOf (test name : String) : Bool := test = name || (name ++ "/").toList <+: test.toList

def GateResult.note (action : String) (gr : GateResult) : GateResult :=
  if action = "run" then { gr with ran := true }
  else if action = "skip" then { gr with skips := gr.skips + 1 }
  else if action = "fail" then { gr with failed := true }
  else gr

/-- An event counts for every gate it belongs to; an event of the whole package for none. -/
def credit (names : List String) (res : String → GateResult) (ev : JsonEvent) : String → GateResult :=
  if ev.test = "" then res
  else
    names.foldl (fun res n => if isOf ev.test n then Function.update res n ((res n).note ev.action) else res) res

/-- The reading ends with the first event that cannot be decoded. -/
def classifyGroup (out : List UInt8) (names : List String) : String → GateResult :=
  (decodeStream decodeEvent out).foldl (credit names) fun _ => ⟨false, 0, false⟩

/-- What `go test` returns: whether it failed, and its output with its errors in it. -/
structure GoRun where
  failed : Bool
  out : List UInt8

/-- A run that failed is an error only when no gate ran. -/
def runGroup (run : GoRun) (names : List String) : Option (String → GateResult) :=
  let results := classifyGroup run.out names
  if run.failed && !names.any fun n => (results n).ran then none else some results

/-! ### The report -/

inductive Verdict where
  | didNotRun
  | skips (n : Nat)
  | failed
  | ok
  deriving DecidableEq, Repr

def GateResult.verdict (res : GateResult) : Verdict :=
  if !res.ran then .didNotRun else if res.skips > 0 then .skips res.skips else if res.failed then .failed else .ok

/-- The lines for a group, and how many failures it adds. -/
def checkGroup (run : GoRun) (group : GateGroup) : List (GateEntry × Verdict) × Nat :=
  match runGroup run (group.gates.map (·.testName)) with
  | none => ([], group.gates.length)
  | some results =>
    let lines := group.gates.map fun entry => (entry, (results entry.testName).verdict)
    (lines, (lines.filter (·.2 ≠ .ok)).length)

/-- The lines that are printed and the exit status. -/
def checkGates (go : List String → GoRun) (entries : List GateEntry) : List (GateEntry × Verdict) × Nat :=
  let reports := (groupGates entries).map fun group => checkGroup (go (goTestArgs group)) group
  (reports.flatMap (·.1), if reports.foldl (fun failures r => failures + r.2) 0 > 0 then 1 else 0)

/-- A manifest that cannot be read is exit status 2, before any test runs. -/
def main (manifest : List (List Char)) (go : List String → GoRun) : List (GateEntry × Verdict) × Nat :=
  match parseManifest manifest with
  | .error _ => ([], 2)
  | .ok entries => checkGates go entries

end Meridian.GateCheck
