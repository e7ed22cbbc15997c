import Meridian.Lib.JsonWriter
import Meridian.Tools.GateCheck

/-! When a gate that is reported as passed has passed. The checker reads the output up to the first text that is no
    event, and it takes a gate for passed that was started, itself or a subtest, and has not skipped or failed so far. -/

namespace Meridian.GateCheck
open Lib

/-! ### Events and gates -/

/-- Some event of the test or of a subtest has the action. -/
def Shows (events : List JsonEvent) (name action : String) : Prop :=
  ∃ ev ∈ events, ev.test ≠ "" ∧ isOf ev.test name = true ∧ ev.action = action

/-- Some event of exactly this test has the action. -/
def ShowsOwn (events : List JsonEvent) (name action : String) : Prop := ∃ ev ∈ events, ev.test = name ∧ ev.action = action

theorem shows_append {events events' : List JsonEvent} {name action : String} :
    Shows (events ++ events') name action ↔ Shows events name action ∨ Shows events' name action := by
  simp only [Shows, List.mem_append, or_and_right, exists_or]

/-- A property of a result that one action brings about, and no other. -/
def Marks (mark : GateResult → Prop) (act : String) : Prop := ∀ gr action, mark (gr.note action) ↔ mark gr ∨ action = act

theorem marks_ran : Marks (·.ran = true) "run" := by
  intro gr action
  unfold GateResult.note
  split_ifs <;> simp [*]

theorem marks_skips : Marks (0 < ·.skips) "skip" := by
  intro gr action
  unfold GateResult.note
  split_ifs <;> simp [*]

theorem marks_failed : Marks (·.failed = true) "fail" := by
  intro gr action
  unfold GateResult.note
  split_ifs <;> simp [*]

section
variable {mark : GateResult → Prop} {act : String}

theorem Marks.credit_iff (h : Marks mark act) (names : List String) (res : String → GateResult) (ev : JsonEvent) (n : String) :
    mark (credit names res ev n) ↔ mark (res n) ∨ n ∈ names ∧ ev.test ≠ "" ∧ isOf ev.test n = true ∧ ev.action = act := by
  unfold credit
  split
  · simp [*]
  · rename_i htest
    induction names generalizing res with
    | nil => simp
    | cons m names ih =>
      rw [List.foldl_cons, ih]
      by_cases hof : isOf ev.test m = true
      · rw [if_pos hof]
        by_cases hm : n = m
        · subst hm
          rw [Function.update_self, h]
          simp only [List.mem_cons, true_or, true_and, hof, ne_eq, htest, not_false_eq_true]
          tauto
        · rw [Function.update_of_ne hm]
          simp [hm]
      · rw [if_neg hof]
        by_cases hm : n = m
        · subst hm
          simp [hof]
        · simp [hm]

/-- What the results of a group show of a gate, event by event. -/
theorem Marks.foldl_iff (h : Marks mark act) {names : List String} {n : String} (hn : n ∈ names) (events : List JsonEvent)
    (res : String → GateResult) : mark (events.foldl (credit names) res n) ↔ mark (res n) ∨ Shows events n act := by
  induction events generalizing res with
  | nil => simp [Shows]
  | cons ev events ih =>
    rw [List.foldl_cons, ih, h.credit_iff, or_assoc]
    refine or_congr_right ?_
    simp [Shows, hn]

end

/-! ### The output in pieces -/

/-- The text of an event: it is read as the event whatever follows. -/
structure EventText where
  event : JsonEvent
  bytes : List UInt8
  reads : ∀ rest, decodeEvent (bytes ++ rest) = some (event, rest)

inductive Piece where
  | event (e : EventText)
  | text (bytes : List UInt8)

def output : List Piece → List UInt8
  | [] => []
  | .event e :: rest => e.bytes ++ output rest
  | .text bytes :: rest => bytes ++ output rest

/-- The texts between the events are space, or are read as no event where they stand. -/
def Foreign : List Piece → Prop
  | [] => True
  | .event _ :: rest => Foreign rest
  | .text bytes :: rest => (skipSpace bytes = [] ∨ decodeEvent (bytes ++ output rest) = none) ∧ Foreign rest

def events : List Piece → List JsonEvent
  | [] => []
  | .event e :: rest => e.event :: events rest
  | .text _ :: rest => events rest

/-- The events before the first text that is not space, and those behind it. -/
def seen : List Piece → List JsonEvent
  | [] => []
  | .event e :: rest => e.event :: seen rest
  | .text bytes :: rest => if skipSpace bytes = [] then seen rest else []

def unseen : List Piece → List JsonEvent
  | [] => []
  | .event _ :: rest => unseen rest
  | .text bytes :: rest => if skipSpace bytes = [] then unseen rest else events rest

theorem events_eq (pieces : List Piece) : events pieces = seen pieces ++ unseen pieces := by
  induction pieces with
  | nil => rfl
  | cons piece rest ih =>
    cases piece with
    | event e => exact congrArg (e.event :: ·) ih
    | text bytes =>
      rw [events, seen, unseen]
      split
      · exact ih
      · rfl

theorem decodeStream_output {pieces : List Piece} (h : Foreign pieces) :
    decodeStream decodeEvent (output pieces) = seen pieces := by
  have hshortens : Shortens decodeEvent := decodeNext_shortens _ _
  induction pieces with
  | nil => exact decodeStream_of_none rfl
  | cons piece rest ih =>
    cases piece with
    | event e => rw [output, decodeStream_of_some hshortens (e.reads _), ih h, seen]
    | text bytes =>
      obtain ⟨hbytes, hrest⟩ := h
      rw [output, seen]
      by_cases hspace : skipSpace bytes = []
      · rw [if_pos hspace, ← ih hrest]
        exact decodeStream_congr hshortens (decodeNext_space _ _ hspace _)
      · rw [if_neg hspace]
        exact decodeStream_of_none (hbytes.resolve_left hspace)

/-! ### The report -/

theorem verdict_eq_ok_iff {res : GateResult} : res.verdict = .ok ↔ res.ran = true ∧ ¬0 < res.skips ∧ ¬res.failed = true := by
  unfold GateResult.verdict
  split
  · simp_all
  · split
    · simp_all
    · split <;> simp_all

theorem classify_eq_ok_iff {out : List UInt8} {names : List String} {n : String} (hn : n ∈ names) :
    (classifyGroup out names n).verdict = .ok ↔ Shows (decodeStream decodeEvent out) n "run" ∧
      ¬Shows (decodeStream decodeEvent out) n "skip" ∧ ¬Shows (decodeStream decodeEvent out) n "fail" := by
  rw [verdict_eq_ok_iff, classifyGroup, marks_ran.foldl_iff hn, marks_skips.foldl_iff hn, marks_failed.foldl_iff hn]
  simp

variable {entry : GateEntry}

/-- A gate that is reported as passed was started, and has not skipped or failed in what was read. How `go test` ended
    does not count, since a gate ran. -/
theorem mem_checkGroup_iff {run : GoRun} {group : GateGroup} :
    (entry, .ok) ∈ (checkGroup run group).1 ↔ entry ∈ group.gates ∧
      Shows (decodeStream decodeEvent run.out) entry.testName "run" ∧
      ¬Shows (decodeStream decodeEvent run.out) entry.testName "skip" ∧
      ¬Shows (decodeStream decodeEvent run.out) entry.testName "fail" := by
  have hname : entry ∈ group.gates → entry.testName ∈ group.gates.map (·.testName) := List.mem_map_of_mem
  rw [checkGroup, runGroup]
  split
  · rename_i hnone
    refine iff_of_false List.not_mem_nil ?_
    rintro ⟨hmem, hran, -⟩
    -- The gate itself ran, so the group is not an error.
    have hsome := (marks_ran.foldl_iff (hname hmem) _ fun _ => ⟨false, 0, false⟩).mpr (.inr hran)
    have hany : (group.gates.map (·.testName)).any
        (fun n => (classifyGroup run.out (group.gates.map (·.testName)) n).ran) = true :=
      List.any_eq_true.mpr ⟨_, hname hmem, hsome⟩
    simp [hany] at hnone
  · rename_i results hresults
    have heq : results = classifyGroup run.out (group.gates.map (·.testName)) := by
      split at hresults
      · cases hresults
      · cases hresults
        rfl
    rw [heq]
    simp only [List.mem_map, Prod.mk.injEq]
    constructor
    · rintro ⟨e, hmem, rfl, hok⟩
      exact ⟨hmem, (classify_eq_ok_iff (hname hmem)).mp hok⟩
    · rintro ⟨hmem, hok⟩
      exact ⟨entry, hmem, rfl, (classify_eq_ok_iff (hname hmem)).mpr hok⟩

/-! ### The exit status -/

theorem mem_addGate_iff {e : GateEntry} {groups : List GateGroup} :
    (∃ group ∈ addGate e groups, entry ∈ group.gates) ↔ (∃ group ∈ groups, entry ∈ group.gates) ∨ entry = e := by
  induction groups with
  | nil => simp [addGate]
  | cons group groups ih =>
    rw [addGate]
    split
    · simp only [List.exists_mem_cons_iff, List.mem_append, List.mem_singleton]
      exact or_right_comm
    · rw [List.exists_mem_cons_iff, List.exists_mem_cons_iff, ih, or_assoc]

/-- The gates of the groups are the armed ones that name a package. -/
theorem mem_groupGates_iff {entries : List GateEntry} :
    (∃ group ∈ groupGates entries, entry ∈ group.gates) ↔ entry ∈ entries ∧ entry.armed = true ∧ entry.pkg ≠ "" := by
  induction entries using List.reverseRecOn with
  | nil => simp [groupGates]
  | append_singleton entries e ih =>
    rw [groupGates, List.foldl_append, List.foldl_cons, List.foldl_nil, ← groupGates, List.mem_append, List.mem_singleton,
      or_and_right, ← ih]
    split
    · rename_i hleft
      refine (or_iff_left ?_).symm
      rintro ⟨rfl, harmed, hpkg⟩
      simp [harmed, hpkg] at hleft
    · rename_i htaken
      rw [mem_addGate_iff]
      refine or_congr_right ⟨?_, And.left⟩
      rintro rfl
      simpa using htaken

theorem mem_checkGates_iff {go : List String → GoRun} {entries : List GateEntry} : (entry, .ok) ∈ (checkGates go entries).1 ↔
      ∃ group ∈ groupGates entries, (entry, .ok) ∈ (checkGroup (go (goTestArgs group)) group).1 := by
  simp [checkGates, List.mem_flatMap]

/-- A group without failures has reported every gate as passed. -/
theorem ok_of_checkGroup_eq_zero {run : GoRun} {group : GateGroup} (h : (checkGroup run group).2 = 0)
    (hmem : entry ∈ group.gates) : (entry, .ok) ∈ (checkGroup run group).1 := by
  unfold checkGroup at h ⊢
  split at h
  · rw [List.eq_nil_of_length_eq_zero h] at hmem
    cases hmem
  · rename_i results _
    dsimp only at h ⊢
    have hline : (entry, (results entry.testName).verdict) ∈
        group.gates.map fun entry => (entry, (results entry.testName).verdict) := List.mem_map_of_mem hmem
    have hok := List.filter_eq_nil_iff.mp (List.eq_nil_of_length_eq_zero h) _ hline
    simp only [ne_eq, decide_not, Bool.not_eq_true', decide_eq_false_iff_not, not_not] at hok
    rwa [hok] at hline

theorem failures_eq_zero {reports : List (List (GateEntry × Verdict) × Nat)} {n : Nat}
    (h : reports.foldl (fun failures r => failures + r.2) n = 0) : n = 0 ∧ ∀ r ∈ reports, r.2 = 0 := by
  induction reports generalizing n with
  | nil => exact ⟨h, nofun⟩
  | cons r reports ih =>
    obtain ⟨hsum, hrest⟩ := ih h
    exact ⟨Nat.eq_zero_of_add_eq_zero_right hsum,
      List.forall_mem_cons.mpr ⟨Nat.eq_zero_of_add_eq_zero_left hsum, hrest⟩⟩

/-- With exit status 0 the manifest was read, and each armed gate of it that names a package is reported as passed. -/
theorem reported_of_exit_zero {manifest : List (List Char)} {go : List String → GoRun} (h : (main manifest go).2 = 0) :
    ∃ entries, parseManifest manifest = .ok entries ∧
      ∀ entry ∈ entries, entry.armed = true → entry.pkg ≠ "" → (entry, .ok) ∈ (main manifest go).1 := by
  unfold main at h ⊢
  cases hm : parseManifest manifest with
  | error e =>
    rw [hm] at h
    cases h
  | ok entries =>
    rw [hm] at h
    refine ⟨entries, rfl, fun entry hmem harmed hpkg => ?_⟩
    obtain ⟨group, hgroup, hgate⟩ := mem_groupGates_iff.mpr ⟨hmem, harmed, hpkg⟩
    have hnone : ∀ r ∈ (groupGates entries).map fun group => checkGroup (go (goTestArgs group)) group, r.2 = 0 := by
      by_contra hsome
      have hpos : (checkGates go entries).2 = 1 := if_pos (Nat.pos_of_ne_zero fun hzero => hsome (failures_eq_zero hzero).2)
      rw [hpos] at h
      cases h
    exact mem_checkGates_iff.mpr ⟨group, hgroup, ok_of_checkGroup_eq_zero (hnone _ (List.mem_map_of_mem hgroup)) hgate⟩

/-! ### What the report means -/

/-- What the report of a gate says: the test was started and has passed, so it had ended before `go test` did, and
    neither it nor a subtest has skipped or failed. -/
structure Passed (events : List JsonEvent) (name : String) : Prop where
  run : ShowsOwn events name "run"
  pass : ShowsOwn events name "pass"
  noSkip : ¬Shows events name "skip"
  noFail : ¬Shows events name "fail"

theorem gate_ok_iff {pieces : List Piece} (hforeign : Foreign pieces) (failed : Bool) (group : GateGroup) :
    (∀ entry, (entry, .ok) ∈ (checkGroup ⟨failed, output pieces⟩ group).1 → Passed (events pieces) entry.testName) ↔
    ∀ entry ∈ group.gates, Shows (seen pieces) entry.testName "run" → ¬Shows (seen pieces) entry.testName "skip" →
      ¬Shows (seen pieces) entry.testName "fail" →
      ShowsOwn (events pieces) entry.testName "run" ∧ ShowsOwn (events pieces) entry.testName "pass" ∧
      ¬Shows (unseen pieces) entry.testName "skip" ∧ ¬Shows (unseen pieces) entry.testName "fail" := by
  simp only [mem_checkGroup_iff, decodeStream_output hforeign]
  constructor
  · intro h entry hmem hrun hskip hfail
    obtain ⟨hown, hpass, hnoSkip, hnoFail⟩ := h entry ⟨hmem, hrun, hskip, hfail⟩
    rw [events_eq, shows_append, not_or] at hnoSkip hnoFail
    exact ⟨hown, hpass, hnoSkip.2, hnoFail.2⟩
  · rintro h entry ⟨hmem, hrun, hskip, hfail⟩
    obtain ⟨hown, hpass, hnoSkip, hnoFail⟩ := h entry hmem hrun hskip hfail
    refine ⟨hown, hpass, ?_, ?_⟩
    · rw [events_eq, shows_append, not_or]
      exact ⟨hskip, hnoSkip⟩
    · rw [events_eq, shows_append, not_or]
      exact ⟨hfail, hnoFail⟩

/-! ### Written events -/

/-- An event as `go test -json` writes it, with the members that are read. -/
def writeEvent (action test : String) : List UInt8 :=
  writeObject [("Action", writeString action), ("Test", writeString test)]

theorem decodeEvent_write (action test : String) (rest : List UInt8) :
    decodeEvent (writeEvent action test ++ rest) = some (⟨action, test, ""⟩, rest) := by
  have hread := readValue_writeObject (maxNestingDepth - 1)
    [("Action", writeString action, .str action), ("Test", writeString test, .str test)]
    (by
      simp only [List.forall_mem_cons, List.not_mem_nil, false_implies, implies_true, and_true]
      exact ⟨readsBack_writeString _ _, readsBack_writeString _ _⟩) rest
  have hjson : readJson (writeEvent action test ++ rest) =
      some (.obj [("Action", .str action), ("Test", .str test)], rest) := hread
  rw [decodeEvent, decodeNext, hjson]
  rfl

def eventText (action test : String) : EventText :=
  ⟨⟨action, test, ""⟩, writeEvent action test, decodeEvent_write action test⟩

def sampleGate : GateEntry := ⟨true, "", "./pkg", "TestGate"⟩

def sampleGroup : GateGroup := ⟨"", "./pkg", [sampleGate]⟩

/-- A gate that passes. -/
def passingRun : List Piece :=
  [.event (eventText "run" "TestGate"), .text [0x0a], .event (eventText "pass" "TestGate"), .text [0x0a]]

theorem gate_ok_passing :
    (sampleGate, .ok) ∈ (checkGroup ⟨false, output passingRun⟩ sampleGroup).1 ∧
      Passed (events passingRun) sampleGate.testName := by
  have hforeign : Foreign passingRun := ⟨.inl rfl, .inl rfl, trivial⟩
  have hno : ∀ action, action ≠ "run" → action ≠ "pass" → ¬Shows (seen passingRun) "TestGate" action := by
    rintro action hrun hpass ⟨ev, hev, -, -, rfl⟩
    obtain rfl | rfl : ev = ⟨"run", "TestGate", ""⟩ ∨ ev = ⟨"pass", "TestGate", ""⟩ := by
      simpa [seen, passingRun, eventText, skipSpace, isJsonSpace] using hev
    · exact hrun rfl
    · exact hpass rfl
  have hok : (sampleGate, .ok) ∈ (checkGroup ⟨false, output passingRun⟩ sampleGroup).1 := by
    rw [mem_checkGroup_iff, decodeStream_output hforeign]
    exact ⟨List.mem_singleton_self _, ⟨_, List.mem_cons_self, by decide, by decide, rfl⟩,
      hno "skip" (by decide) (by decide), hno "fail" (by decide) (by decide)⟩
  refine ⟨hok, (gate_ok_iff hforeign false sampleGroup).mpr ?_ sampleGate hok⟩
  intro entry hmem _ _ _
  cases List.mem_singleton.mp hmem
  refine ⟨⟨_, List.mem_cons_self, rfl, rfl⟩, ⟨_, List.mem_cons_of_mem _ List.mem_cons_self, rfl, rfl⟩, ?_, ?_⟩
  · rintro ⟨ev, hev, -⟩
    cases hev
  · rintro ⟨ev, hev, -⟩
    cases hev

/-- A gate that fails behind a line which is no event. -/
def interleavedRun : List Piece :=
  [.event (eventText "run" "TestGate"), .text (utf8 "exit status 2"), .event (eventText "fail" "TestGate")]

theorem failed_gate_reported_ok :
    Foreign interleavedRun ∧ (sampleGate, .ok) ∈ (checkGroup ⟨true, output interleavedRun⟩ sampleGroup).1 ∧
      ¬Passed (events interleavedRun) sampleGate.testName := by
  have hforeign : Foreign interleavedRun := ⟨.inr rfl, trivial⟩
  refine ⟨hforeign, ?_, fun h => ?_⟩
  · rw [mem_checkGroup_iff, decodeStream_output hforeign]
    refine ⟨List.mem_singleton_self _, ⟨_, List.mem_cons_self, by decide, by decide, rfl⟩, ?_, ?_⟩
    · rintro ⟨ev, hev, -, -, hact⟩
      cases List.mem_singleton.mp hev
      exact absurd hact (by decide)
    · rintro ⟨ev, hev, -, -, hact⟩
      cases List.mem_singleton.mp hev
      exact absurd hact (by decide)
  · exact h.noFail ⟨_, List.mem_cons_of_mem _ List.mem_cons_self, by decide, by decide, rfl⟩

end Meridian.GateCheck
