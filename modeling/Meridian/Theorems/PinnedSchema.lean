import Meridian.Agent.Bpfobj
import Meridian.Lib.Run

/-! Pinned maps and schema versions. The sentinel is compared after the maps are open, so a call that is refused leaves
    the maps that it created. What a load adopts is then decided by the sets of maps: a load with the version of the
    stamp adopts whatever is pinned under its names. -/

namespace Meridian.Bpfobj
open Lib

/-! ### Opening maps -/

section
variable {d : PinDir} {version : UInt32} {maps : List String}

theorem creator_openMap (version : UInt32) (d : PinDir) (name other : String) :
    (openMap version d name).creator other = (d.creator other).or (if other = name then some version else none) := by
  unfold openMap
  cases hname : d.creator name with
  | some v =>
    by_cases hother : other = name
    · subst hother
      simp [hname]
    · simp [hother]
  | none =>
    simp only [PinDir.creator, List.lookup_append]
    by_cases hother : other = name
    · simp [hother]
    · have hbeq : (other == name) = false := beq_false_of_ne hother
      simp [hother, List.lookup_cons, hbeq]

/-- A map keeps its creator, and one that was not pinned has the build that loads it. -/
theorem creator_loadMaps (version : UInt32) (maps : List String) (d : PinDir) (name : String) :
    (loadMaps version maps d).creator name = (d.creator name).or (if name ∈ maps then some version else none) := by
  unfold loadMaps
  induction maps generalizing d with
  | nil => simp
  | cons m rest ih =>
    rw [List.foldl_cons, ih, creator_openMap]
    cases d.creator name with
    | some v => rfl
    | none =>
      by_cases hm : name = m
      · simp [hm]
      · simp [hm]

/-- Loading touches the value of the sentinel only when it creates the sentinel. -/
theorem sentinel_loadMaps (h : d.sentinel ≠ 0 → d.creator schemaSentinelMap ≠ none) :
    (loadMaps version maps d).sentinel = d.sentinel := by
  unfold loadMaps
  induction maps generalizing d with
  | nil => rfl
  | cons m rest ih =>
    have hopen : (openMap version d m).sentinel = d.sentinel := by
      unfold openMap
      cases hm : d.creator m with
      | some v => rfl
      | none =>
        by_cases hname : m = schemaSentinelMap
        · simp only [hname, if_true]
          by_contra hne
          exact h (Ne.symm hne) (hname ▸ hm)
        · simp [hname]
    rw [List.foldl_cons, ih, hopen]
    intro hne
    rw [hopen] at hne
    rw [creator_openMap]
    cases hs : d.creator schemaSentinelMap with
    | none => exact absurd hs (h hne)
    | some v => simp

theorem pins_ne_nil {name : String} (h : d.creator name ≠ none) : d.pins ≠ [] := by
  intro hnil
  exact h (by simp [PinDir.creator, hnil])

theorem pinDirPopulated_eq_true (h : d.pins ≠ []) : pinDirPopulated d = true := by
  simpa [pinDirPopulated] using List.length_pos_iff.mpr h

end

/-! ### Calls -/

namespace Call

/-- The maps that the call opens before it ends. -/
def opened (c : Call) : List String := c.ending.opened c.build

/-- The call is a primary load that returns and may succeed on a directory with the stamp. -/
def Reopens (c : Call) (stamp : UInt32) : Prop :=
  c.isPrimary = true ∧ c.ending = .returns ∧ schemaSentinelMap ∈ c.build.maps ∧ c.build.version = stamp

end Call

/-- A stamped directory holds the sentinel. -/
def PinDir.Stamped (d : PinDir) : Prop := d.sentinel ≠ 0 → d.creator schemaSentinelMap ≠ none

/-- What a call does: the pins are those of the maps that it opens; the sentinel is written by a primary load of an empty
    directory only; and a primary load of a directory that is not empty succeeds when the sentinel has its version. -/
structure Effect (d : PinDir) (c : Call) : Prop where
  creator : ∀ name, (c.run d).dir.creator name =
    (d.creator name).or (if name ∈ c.opened then some c.build.version else none)
  stamped : (c.run d).stamped = true → d.pins = []
  sentinel : (c.run d).dir.sentinel = d.sentinel ∨
    d.pins = [] ∧ c.isPrimary = true ∧ c.opened = c.build.maps ∧ schemaSentinelMap ∈ c.build.maps ∧
      (c.run d).dir.sentinel = c.build.version
  result : ∀ maps, c.isPrimary = true → ((c.run d).result = some (.ok maps) ↔ c.ending = .returns ∧
    schemaSentinelMap ∈ c.build.maps ∧ maps = c.build.maps ∧ (d.pins = [] ∨ d.sentinel = c.build.version))

section
variable {d : PinDir} {c : Call}

/-- A call that does not write the sentinel. -/
theorem Effect.of_not_stamped (hd : d.Stamped) {r : Option (Except LoadError (List String))}
    (hout : c.run d = ⟨loadMaps c.build.version c.opened d, false, r⟩)
    (hr : c.isPrimary = true → ∀ maps, r = some (.ok maps) ↔ c.ending = .returns ∧ schemaSentinelMap ∈ c.build.maps ∧
      maps = c.build.maps ∧ (d.pins = [] ∨ d.sentinel = c.build.version)) : Effect d c where
  creator name := by
    rw [hout]
    exact creator_loadMaps _ _ d name
  stamped h := by
    rw [hout] at h
    cases h
  sentinel := by
    rw [hout]
    exact .inl (sentinel_loadMaps hd)
  result maps hprimary := by
    rw [hout]
    exact hr hprimary maps

/-- A reconciled sentinel: written on an empty directory, and compared on another one. -/
theorem reconcileSchema_eq {b : Build} :
    reconcileSchema d.sentinel (pinDirPopulated d) b.version = .ok (some b.version) ∧ d.pins = [] ∨
    reconcileSchema d.sentinel (pinDirPopulated d) b.version = .ok none ∧ d.pins ≠ [] ∧ d.sentinel = b.version ∨
    (∃ e, reconcileSchema d.sentinel (pinDirPopulated d) b.version = .error e) ∧ d.pins ≠ [] ∧ d.sentinel ≠ b.version := by
  by_cases hpins : d.pins = []
  · exact .inl ⟨by simp [reconcileSchema, pinDirPopulated, hpins], hpins⟩
  · have hpopulated := pinDirPopulated_eq_true hpins
    by_cases hversion : d.sentinel = b.version
    · exact .inr (.inl ⟨by simp [reconcileSchema, hpopulated, hversion], hpins, hversion⟩)
    · refine .inr (.inr ⟨?_, hpins, hversion⟩)
      by_cases hzero : d.sentinel = 0
      · exact ⟨.partialPinSet, by simp [reconcileSchema, hpopulated, hzero, Ne.symm b.version_ne_zero]⟩
      · exact ⟨.schemaVersion d.sentinel b.version, by simp [reconcileSchema, hpopulated, hversion, hzero]⟩

theorem result_eq_ok {ending : Ending} {r : Except LoadError (List String)} {maps : List String} :
    ending.result r = some (.ok maps) ↔ ending = .returns ∧ r = .ok maps := by
  unfold Ending.result
  by_cases h : ending = .returns <;> simp [h]

theorem Effect.of_reconcile (hd : d.Stamped) (hprimary : c.isPrimary = true) (hopened : c.opened = c.build.maps)
    (hout : c.run d = reconcile c.build c.ending (pinDirPopulated d) (loadMaps c.build.version c.opened d)) :
    Effect d c := by
  unfold reconcile at hout
  by_cases hin : schemaSentinelMap ∈ c.build.maps
  · rw [if_neg (not_not.mpr hin), sentinel_loadMaps hd] at hout
    rcases reconcileSchema_eq (d := d) (b := c.build) with ⟨hschema, hpins⟩ | ⟨hschema, hpins, hversion⟩ |
      ⟨⟨e, hschema⟩, hpins, hversion⟩
    · rw [hschema] at hout
      constructor
      · intro name
        rw [hout]
        exact creator_loadMaps _ _ d name
      · exact fun _ => hpins
      · rw [hout]
        exact .inr ⟨hpins, hprimary, hopened, hin, rfl⟩
      · intro maps _
        rw [hout, result_eq_ok]
        simp [hin, hpins, eq_comm]
    · rw [hschema] at hout
      refine .of_not_stamped hd hout fun _ maps => ?_
      rw [result_eq_ok]
      simp [hin, hversion, eq_comm]
    · rw [hschema] at hout
      refine .of_not_stamped hd hout fun _ maps => ?_
      rw [result_eq_ok]
      simp [hpins, hversion]
  · rw [if_pos hin] at hout
    refine .of_not_stamped hd hout fun _ maps => ?_
    rw [result_eq_ok]
    simp [hin]

theorem effect_loadPrimary (hd : d.Stamped) (hrun : c.run d = loadPrimary c.build c.ending d)
    (hprimary : c.isPrimary = true) : Effect d c := by
  cases hending : c.ending with
  | diesLoading count =>
    refine .of_not_stamped (r := none) hd ?_ fun _ maps => by simp [hending]
    rw [hrun, Call.opened, hending]
    rfl
  | returns =>
    exact .of_reconcile hd hprimary (by rw [Call.opened, hending]; rfl) (by rw [hrun, Call.opened, hending]; rfl)
  | diesReconciled =>
    exact .of_reconcile hd hprimary (by rw [Call.opened, hending]; rfl) (by rw [hrun, Call.opened, hending]; rfl)

theorem effect_loadSecondary (hd : d.Stamped) (hrun : c.run d = loadSecondary c.build c.ending d)
    (hnot : c.isPrimary = false) : Effect d c :=
  .of_not_stamped hd hrun fun hprimary => by
    rw [hnot] at hprimary
    cases hprimary

theorem effect_run (hd : d.Stamped) (c : Call) : Effect d c := by
  cases hloader : c.loader with
  | counter => exact effect_loadPrimary hd (by rw [Call.run, hloader]; rfl) (by rw [Call.isPrimary, hloader]; rfl)
  | tcIngress => exact effect_loadPrimary hd (by rw [Call.run, hloader]; rfl) (by rw [Call.isPrimary, hloader]; rfl)
  | sockOps => exact effect_loadSecondary hd (by rw [Call.run, hloader]; rfl) (by rw [Call.isPrimary, hloader]; rfl)
  | skMsg => exact effect_loadSecondary hd (by rw [Call.run, hloader]; rfl) (by rw [Call.isPrimary, hloader]; rfl)

/-- A directory that is stamped stays so. -/
theorem PinDir.Stamped.step (hd : d.Stamped) (c : Call) : (d.step c).Stamped := by
  have heffect := effect_run hd c
  intro hne
  change (c.run d).dir.creator schemaSentinelMap ≠ none
  rw [heffect.creator]
  rcases heffect.sentinel with hsame | ⟨-, -, hopened, hin, -⟩
  · have hpinned := hd (hsame ▸ hne)
    cases hcreator : d.creator schemaSentinelMap with
    | none => exact absurd hcreator hpinned
    | some v => simp
  · rw [hopened, if_pos hin]
    cases d.creator schemaSentinelMap <;> simp

end

/-! ### Adoption -/

/-- A primary load that succeeds holds maps of its own version only, and the sentinel is written in an empty directory. -/
def Adopts (d : PinDir) (c : Call) : Prop :=
  (c.isPrimary = true → ∀ maps, (c.run d).result = some (.ok maps) →
    ∀ name ∈ maps, (c.run d).dir.creator name = some c.build.version) ∧
  ((c.run d).stamped = true → d.pins = [])

/-- Once the directory is stamped, a call of another version creates no map of a later load of the stamp's version. -/
def NoForeign : PinDir → List Call → Prop
  | _, [] => True
  | d, c :: calls =>
    (d.sentinel ≠ 0 → c.build.version ≠ d.sentinel → ∀ name ∈ c.opened, d.creator name = none →
      ∀ later ∈ calls, later.Reopens d.sentinel → name ∉ later.build.maps) ∧
    NoForeign (d.step c) calls

/-- No load of the stamp's version has a map that another version created. -/
def Clean (d : PinDir) (calls : List Call) : Prop :=
  d.sentinel ≠ 0 → ∀ name version, d.creator name = some version → version ≠ d.sentinel →
    ∀ later ∈ calls, later.Reopens d.sentinel → name ∉ later.build.maps

section
variable {d : PinDir} {c : Call}

theorem Effect.reopens (h : Effect d c) (hpins : d.pins ≠ []) (hprimary : c.isPrimary = true) {maps : List String} :
    (c.run d).result = some (.ok maps) ↔ c.Reopens d.sentinel ∧ maps = c.build.maps := by
  rw [h.result maps hprimary]
  simp only [hpins, false_or, Call.Reopens, hprimary, true_and]
  exact ⟨fun ⟨hends, hin, hmaps, hversion⟩ => ⟨⟨hends, hin, hversion.symm⟩, hmaps⟩,
    fun ⟨⟨hends, hin, hversion⟩, hmaps⟩ => ⟨hends, hin, hmaps, hversion.symm⟩⟩

/-- A map keeps its creator; a map that the call opens first is its own. -/
theorem creator_step_iff (hd : d.Stamped) (name : String) (v : UInt32) : (d.step c).creator name = some v ↔
    d.creator name = some v ∨ d.creator name = none ∧ name ∈ c.opened ∧ c.build.version = v := by
  change (c.run d).dir.creator name = some v ↔ _
  rw [(effect_run hd c).creator]
  cases d.creator name with
  | some w => simp
  | none => by_cases hopen : name ∈ c.opened <;> simp [hopen]

/-- A call on a stamped directory: it adopts, and the later calls do, exactly when the maps that it creates and those that
    were there are no foreign maps of the calls that follow. -/
theorem adopts_iff_of_stamped (hd : d.Stamped) (hne : d.sentinel ≠ 0) (calls : List Call) :
    Adopts d c ∧ Clean (d.step c) calls ↔
      (c.build.version ≠ d.sentinel → ∀ name ∈ c.opened, d.creator name = none →
        ∀ later ∈ calls, later.Reopens d.sentinel → name ∉ later.build.maps) ∧ Clean d (c :: calls) := by
  have heffect := effect_run hd c
  have hpins : d.pins ≠ [] := pins_ne_nil (hd hne)
  have hsentinel : (d.step c).sentinel = d.sentinel := by
    rcases heffect.sentinel with hsame | ⟨hnil, -⟩
    · exact hsame
    · exact absurd hnil hpins
  have hopened (hre : c.Reopens d.sentinel) : c.opened = c.build.maps := by
    rw [Call.opened, hre.2.1]
    rfl
  unfold Clean
  rw [hsentinel]
  constructor
  · rintro ⟨⟨hadopts, -⟩, hclean⟩
    refine ⟨fun hversion name hopen hnone => ?_, fun _ name v hv hforeign later hlater hre => ?_⟩
    · exact hclean hne name c.build.version ((creator_step_iff hd name _).mpr (.inr ⟨hnone, hopen, rfl⟩)) hversion
    · rcases List.mem_cons.mp hlater with rfl | hlater
      · intro hmem
        have hadopted : (d.step later).creator name = some later.build.version :=
          hadopts hre.1 _ ((heffect.reopens hpins hre.1).mpr ⟨hre, rfl⟩) name hmem
        rw [(creator_step_iff hd name v).mpr (.inl hv)] at hadopted
        exact hforeign ((Option.some.inj hadopted).trans hre.2.2.2)
      · exact hclean hne name v ((creator_step_iff hd name v).mpr (.inl hv)) hforeign later hlater hre
  · rintro ⟨hcreates, hclean⟩
    refine ⟨⟨fun hprimary maps hok name hmem => ?_, heffect.stamped⟩, fun _ name v hv hforeign later hlater => ?_⟩
    · obtain ⟨hre, rfl⟩ := (heffect.reopens hpins hprimary).mp hok
      refine (creator_step_iff hd name _).mpr ?_
      cases hname : d.creator name with
      | none => exact .inr ⟨rfl, hopened hre ▸ hmem, rfl⟩
      | some v =>
        refine .inl (congrArg some ?_)
        by_contra hforeign
        exact hclean hne name v hname (hre.2.2.2 ▸ hforeign) c List.mem_cons_self hre hmem
    · rcases (creator_step_iff hd name v).mp hv with hold | ⟨hnone, hopen, rfl⟩
      · exact hclean hne name v hold hforeign later (List.mem_cons_of_mem _ hlater)
      · exact hcreates hforeign name hopen hnone later hlater

/-- A call on a directory without a stamp adopts, and leaves a clean one. -/
theorem adopts_of_not_stamped (hd : d.Stamped) (hzero : d.sentinel = 0) (calls : List Call) :
    Adopts d c ∧ Clean (d.step c) calls := by
  have heffect := effect_run hd c
  have hcreator (hpins : d.pins = []) (name : String) : d.creator name = none := by simp [PinDir.creator, hpins]
  refine ⟨⟨fun hprimary maps hok name hmem => ?_, heffect.stamped⟩, fun hne name v hv hforeign => ?_⟩
  · obtain ⟨hends, -, rfl, hpins | hversion⟩ := (heffect.result maps hprimary).mp hok
    · refine (creator_step_iff hd name _).mpr (.inr ⟨hcreator hpins name, ?_, rfl⟩)
      rw [Call.opened, hends]
      exact hmem
    · exact absurd (hversion.symm.trans hzero) c.build.version_ne_zero
  · rcases heffect.sentinel with hsame | ⟨hpins, -, -, -, hstamp⟩
    · exact absurd (hsame.trans hzero) hne
    · rcases (creator_step_iff hd name v).mp hv with hold | ⟨-, -, rfl⟩
      · rw [hcreator hpins] at hold
        cases hold
      · exact absurd hstamp.symm hforeign

end

theorem adopts_iff_noForeign (calls : List Call) {d : PinDir} (hd : d.Stamped) :
    Steps PinDir.step Adopts d calls ↔ NoForeign d calls ∧ Clean d calls := by
  induction calls generalizing d with
  | nil => simp [Steps, NoForeign, Clean]
  | cons c calls ih =>
    rw [Steps, NoForeign, ih (hd.step c), and_left_comm, and_assoc, and_left_comm (b := NoForeign (d.step c) calls)]
    refine and_congr_right fun _ => ?_
    by_cases hzero : d.sentinel = 0
    · refine iff_of_true (adopts_of_not_stamped hd hzero calls) ⟨fun hne => absurd hzero hne, fun hne => absurd hzero hne⟩
    · rw [adopts_iff_of_stamped hd hzero]
      simp [hzero]

/-- The primary loads of one version have one set of maps. -/
def OneSet (calls : List Call) : Prop :=
  ∀ c ∈ calls, ∀ c' ∈ calls, c.isPrimary = true → c'.isPrimary = true → c.build.version = c'.build.version →
    ∀ name, name ∈ c.build.maps → name ∈ c'.build.maps

theorem noForeign_of_oneSet {all calls : List Call} (hset : OneSet all) (hall : ∀ c ∈ calls, c ∈ all) {d : PinDir}
    (hd : d.Stamped) (hpinned : d.sentinel ≠ 0 → ∀ c ∈ all, c.Reopens d.sentinel → ∀ name ∈ c.build.maps,
      d.creator name ≠ none) : NoForeign d calls := by
  induction calls generalizing d with
  | nil => trivial
  | cons c calls ih =>
    have heffect := effect_run hd c
    have hrest : ∀ c' ∈ calls, c' ∈ all := fun c' hc' => hall c' (List.mem_cons_of_mem _ hc')
    refine ⟨fun hne _ name _ hnone later hlater hre hmem => ?_, ih hrest (hd.step c) ?_⟩
    · exact hpinned hne later (hrest later hlater) hre name hmem hnone
    · intro hne c' hc' hre name hmem
      change (c.run d).dir.creator name ≠ none
      rw [heffect.creator]
      rcases heffect.sentinel with hsame | ⟨-, hprimary, hopened, -, hstamp⟩
      · have hold := hpinned (hsame ▸ hne) c' hc' (hsame ▸ hre) name hmem
        cases hname : d.creator name with
        | none => exact absurd hname hold
        | some v => simp
      · have hversion : c'.build.version = c.build.version := hre.2.2.2.trans hstamp
        have hin := hset c' hc' c (hall c List.mem_cons_self) hre.1 hprimary hversion name hmem
        rw [hopened, if_pos hin]
        cases d.creator name <;> simp

/-- Every load of a run from an empty directory adopts maps of its own version only, and stamps an empty directory only,
    exactly when no call of another version than the stamp's creates a map that a later load of the stamp's version has;
    so it is when the primary loads of one version have one set of maps. -/
theorem pinned_maps_adopted (calls : List Call) :
    (Steps PinDir.step Adopts .empty calls ↔ NoForeign .empty calls) ∧
      (OneSet calls → Steps PinDir.step Adopts .empty calls) := by
  have hstart : PinDir.empty.Stamped := fun hne => absurd rfl hne
  have hclean : Clean .empty calls := fun hne => absurd rfl hne
  have hiff : Steps PinDir.step Adopts .empty calls ↔ NoForeign .empty calls := by
    rw [adopts_iff_noForeign calls hstart]
    exact and_iff_left hclean
  refine ⟨hiff, fun hset => hiff.mpr ?_⟩
  exact noForeign_of_oneSet hset (fun c hc => hc) hstart fun hne => absurd rfl hne

/-- The pinned maps of schema version 2. -/
def pinnedMaps : List String :=
  ["denied_flows_map", "flow_events", "identity_map", "metrics_map", "policy_map", "runtime_config_map",
   schemaSentinelMap, "sockhash"]

/-- A directory of version 2; a build of version 3 with one more map is refused; a build of version 2 has that map too. -/
def refusedLoad : List Call :=
  [⟨.tcIngress, ⟨2, pinnedMaps, by decide⟩, .returns⟩,
   ⟨.tcIngress, ⟨3, pinnedMaps ++ ["egress_map"], by decide⟩, .returns⟩,
   ⟨.tcIngress, ⟨2, pinnedMaps ++ ["egress_map"], by decide⟩, .returns⟩]

theorem refused_load_adopted : ¬Steps PinDir.step Adopts .empty refusedLoad := by
  rintro ⟨-, -, ⟨hadopts, -⟩, -⟩
  have hcreator := hadopts rfl (pinnedMaps ++ ["egress_map"]) (by rfl) "egress_map" (by decide)
  exact absurd hcreator (by decide +kernel)

/-- A build of version 3 with one more map is refused between two loads of version 2. -/
def refusedBetween : List Call :=
  [⟨.tcIngress, ⟨2, pinnedMaps, by decide⟩, .returns⟩,
   ⟨.tcIngress, ⟨3, pinnedMaps ++ ["egress_map"], by decide⟩, .returns⟩,
   ⟨.counter, ⟨2, pinnedMaps, by decide⟩, .returns⟩]

theorem pinned_maps_adopted_refused :
    OneSet refusedBetween ∧ Steps PinDir.step Adopts .empty refusedBetween := by
  have hset : OneSet refusedBetween := by
    intro c hc c' hc' _ _ hversion name hname
    simp only [refusedBetween, List.mem_cons, List.not_mem_nil, or_false] at hc hc'
    rcases hc with rfl | rfl | rfl <;> rcases hc' with rfl | rfl | rfl <;> first | exact hname | cases hversion
  exact ⟨hset, (pinned_maps_adopted _).2 hset⟩

end Meridian.Bpfobj
