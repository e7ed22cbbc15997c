import Meridian.Agent.SupervisorRun
import Meridian.Theorems.LinkSync

/-! Whatever an agent has been through (failed attachments, lost updates, resets of the subscription), a listing brings it
    back: from there on, as long as the calls of the kernel work and no interface appears before the subscription, every
    interface that it manages has its filter once the updates are delivered. -/

namespace Meridian.Attach
open Lib Linkwatch

/-! ### What a call touches -/

/-- Two kernels with the same interfaces, of which only the qdiscs of one name differ. -/
def Touched (ifName : String) (k k' : Kernel) : Prop :=
  ∃ f : Option Clsact → Option Clsact, k'.devs = (k.setClsact ifName f).devs

theorem touched_refl (ifName : String) (k : Kernel) (pins : Table String Nat) : Touched ifName k { k with pins } :=
  ⟨id, by simp [Kernel.setClsact]⟩

theorem touched_setClsact (ifName : String) (k : Kernel) (f : Option Clsact → Option Clsact) :
    Touched ifName k (k.setClsact ifName f) :=
  ⟨f, rfl⟩

theorem Touched.trans {ifName : String} {k k' k'' : Kernel} (h : Touched ifName k k') (h' : Touched ifName k' k'') :
    Touched ifName k k'' := by
  obtain ⟨f, hf⟩ := h
  obtain ⟨g, hg⟩ := h'
  refine ⟨g ∘ f, ?_⟩
  simp only [hg, Kernel.setClsact, hf, List.map_map]
  refine List.map_congr_left fun d _ => ?_
  by_cases hd : d.link.name = ifName <;> simp [hd]

theorem Touched.links {ifName : String} {k k' : Kernel} (h : Touched ifName k k') :
    k'.devs.map (·.link) = k.devs.map (·.link) := by
  obtain ⟨f, hf⟩ := h
  rw [hf, Kernel.setClsact, List.map_map]
  refine List.map_congr_left fun d _ => ?_
  by_cases hd : d.link.name = ifName <;> simp [hd]

theorem linkByName_name {k : Kernel} {ifName : String} {d : Dev} (h : k.linkByName ifName = some d) : d.link.name = ifName := by
  simpa using List.find?_some h

section
variable {m : TCManager} {faults : Faults} {k : Kernel} {ifName : String}

theorem replaceFilter_touched (p : ProgramRef) : Touched ifName k (m.replaceFilter faults k ifName p).2 := by
  unfold TCManager.replaceFilter
  split
  · exact touched_refl ifName k k.pins
  · split
    · exact touched_refl ifName k k.pins
    · exact touched_setClsact ifName k _

theorem ensureAttached_touched (m : TCManager) (faults : Faults) (cancelled : Bool) (k : Kernel) (ifName : String) :
    Touched ifName k (m.ensureAttached faults cancelled k ifName).2 := by
  unfold TCManager.ensureAttached
  split
  · exact touched_refl ifName k k.pins
  split
  · exact touched_refl ifName k k.pins
  split
  · exact touched_refl ifName k k.pins
  split
  · exact touched_refl ifName k _
  split
  · exact touched_refl ifName k _
  · exact (touched_refl ifName k _).trans ((touched_setClsact ifName _ _).trans (replaceFilter_touched _))

theorem deleteManagedFilters_touched (m : TCManager) (faults : Faults) (k : Kernel) {d : Dev} (hd : d.link.name = ifName) :
    Touched ifName k (m.deleteManagedFilters faults k d).2 := by
  subst hd
  unfold TCManager.deleteManagedFilters
  split
  · exact touched_refl _ k k.pins
  · exact touched_refl _ k k.pins
  · exact touched_refl _ k k.pins
  split
  · exact touched_refl _ k k.pins
  · exact touched_setClsact _ k _

theorem detach_touched (m : TCManager) (faults : Faults) (cancelled : Bool) (k : Kernel) (ifName : String) :
    Touched ifName k (m.detach faults cancelled k ifName).2 := by
  unfold TCManager.detach
  split
  · exact touched_refl ifName k k.pins
  split
  · exact touched_refl ifName k k.pins
  · exact touched_refl ifName k k.pins
  split
  · exact touched_refl ifName k k.pins
  rename_i d hd
  have hdel := deleteManagedFilters_touched m faults k (linkByName_name hd)
  split <;> rename_i hres
  · exact hres ▸ hdel
  rw [hres] at hdel
  split
  · exact hdel
  · exact hdel
  · exact hdel.trans (touched_setClsact ifName _ _)

end

/-! ### The filter -/

/-- The manager can attach: it has a program that is loaded and a path to pin it at. -/
structure Ready (m : TCManager) (p : ProgramRef) : Prop where
  program : m.program = some p
  fd : 0 < p.fd
  pin : m.programPin ≠ ""

/-- The interface runs the manager's program on ingress. -/
def Installed (m : TCManager) (p : ProgramRef) (d : Dev) : Prop := ∃ c, d.clsact = some c ∧ m.filter p ∈ c.ingress

/-- Every interface of the name is installed. -/
def AllInstalled (m : TCManager) (p : ProgramRef) (k : Kernel) (name : String) : Prop :=
  ∀ d ∈ k.devs, d.link.name = name → Installed m p d

theorem mem_replaceIn (f : Filter) (filters : List Filter) : f ∈ Kernel.replaceIn f filters := by
  unfold Kernel.replaceIn
  split
  · rename_i hany
    obtain ⟨g, hg, hkey⟩ := List.any_eq_true.mp hany
    exact List.mem_map.mpr ⟨g, hg, if_pos hkey⟩
  · exact List.mem_append_right _ List.mem_cons_self

section
variable {m : TCManager} {p : ProgramRef} {k k' : Kernel} {ifName name : String}

theorem AllInstalled.of_touched (h : AllInstalled m p k name) (ht : Touched ifName k k') (hne : name ≠ ifName) :
    AllInstalled m p k' name := by
  obtain ⟨f, hf⟩ := ht
  intro d hd hname
  rw [hf, Kernel.setClsact] at hd
  obtain ⟨d', hd', rfl⟩ := List.mem_map.mp hd
  by_cases hd'name : d'.link.name = ifName
  · simp only [hd'name, if_true] at hname
    exact absurd hname.symm hne
  · simp only [hd'name, if_false] at hname ⊢
    exact h d' hd' hname

theorem AllInstalled.of_subset (h : AllInstalled m p k name) (hsub : ∀ d ∈ k'.devs, d.link.name = name → d ∈ k.devs) :
    AllInstalled m p k' name :=
  fun d hd hname => h d (hsub d hd hname) hname

theorem replacePinnedProgram_ready (hm : Ready m p) (pins : Table String Nat) :
    ∃ pins', m.replacePinnedProgram (fun _ => none) pins = (.ok p, pins') := by
  unfold TCManager.replacePinnedProgram
  simp only [hm.program, if_neg hm.pin, TCManager.pin]
  by_cases hpin : (pins m.programPin).isSome
  · simp [hpin]
  · simp [hpin]

/-- Where nothing fails, `EnsureAttached` leaves the filter on an interface that is there. -/
theorem ensureAttached_installs (hm : Ready m p) :
    AllInstalled m p (m.ensureAttached (fun _ => none) false k ifName).2 ifName := by
  obtain ⟨pins, hpins⟩ := replacePinnedProgram_ready hm k.pins
  have hfd : ¬p.fd ≤ 0 := not_le.mpr hm.fd
  unfold TCManager.ensureAttached
  simp only [Bool.false_eq_true, if_false, hpins]
  cases hlink : k.linkByName ifName with
  | none =>
    intro d hd hname
    exact absurd (List.find?_eq_none.mp hlink d hd) (by simp [hname])
  | some d =>
    simp only [TCManager.replaceFilter, if_neg hfd, TCManager.ensureClsact, Kernel.setClsact, List.map_map]
    intro d' hd' hname
    obtain ⟨d'', -, rfl⟩ := List.mem_map.mp hd'
    by_cases hd'' : d''.link.name = ifName
    · simp only [Function.comp_apply, hd'', if_true]
      exact ⟨_, rfl, mem_replaceIn _ _⟩
    · simp [hd''] at hname

/-- A call for one interface leaves the others as they are. -/
theorem allInstalled_ensureAttached (hm : Ready m p) (h : name = ifName ∨ AllInstalled m p k name) :
    AllInstalled m p (m.ensureAttached (fun _ => none) false k ifName).2 name := by
  by_cases hname : name = ifName
  · exact hname ▸ ensureAttached_installs hm
  · exact (h.resolve_left hname).of_touched (ensureAttached_touched m _ _ k _) hname

end

end Meridian.Attach

namespace Meridian.Supervisor
open Lib Linkwatch Attach

namespace Watch

/-! ### The updates that are due -/

/-- What an update, once delivered, makes of an interface. -/
def after (sel : Selector) (name : String) (attached : Prop) (u : LinkUpdate) : Prop :=
  match classify sel u with
  | some ev => if ev.ifName = name then ev.type = .added else attached
  | none => attached

/-- The interface is attached once the updates are delivered. -/
def LeadsTo (sel : Selector) (name : String) (attached : Prop) (updates : List LinkUpdate) : Prop :=
  updates.foldl (after sel name) attached

section
variable {sel : Selector} {name : String} {P Q : Prop} {u : LinkUpdate} {updates : List LinkUpdate}

theorem after_mono (h : P → Q) : after sel name P u → after sel name Q u := by
  unfold after
  split
  · split
    · exact id
    · exact h
  · exact h

theorem LeadsTo.mono (h : P → Q) (hP : LeadsTo sel name P updates) : LeadsTo sel name Q updates := by
  induction updates generalizing P Q with
  | nil => exact h hP
  | cons u updates ih => exact ih (after_mono h) hP

theorem leadsTo_concat : LeadsTo sel name P (updates ++ [u]) ↔ after sel name (LeadsTo sel name P updates) u := by
  rw [LeadsTo, List.foldl_append]
  rfl

theorem after_newLink {link : Link} : after sel name P ⟨.newLink, link⟩ ↔
    P ∨ (sel name = true ∧ link.name = name ∧ link.kind = vethKind) := by
  unfold after classify
  by_cases hsel : sel link.name = true <;> by_cases hkind : link.kind = vethKind <;> by_cases hname : link.name = name <;>
    simp_all

theorem after_delLink {gone kind : String} :
    after sel name P ⟨.delLink, ⟨gone, kind⟩⟩ ↔ P ∧ (sel name = true → name ≠ gone) := by
  unfold after classify
  by_cases hname : gone = name
  · subst hname
    cases sel gone <;> simp
  · cases hsel : sel gone <;> simp [hname, Ne.symm hname]

end

/-! ### The invariant -/

section
variable {m : TCManager} {p : ProgramRef} {sel : Selector} {iface : String} {w : Watch}

def links (w : Watch) : List Link := w.kernel.devs.map (·.link)

/-- An interface appears in the middle of a listing only if it is not to be managed, and the calls of the goroutine do
    not fail. -/
def Smooth (sel : Selector) (w : Watch) : WatchEvent → Prop
  | .add link => ∀ todo, w.phase = .attach todo → ¬(sel link.name = true ∧ link.kind = vethKind)
  | .run _ faults => faults = fun _ => none
  | _ => True

/-- Nothing is due while there is no subscription. -/
def Quiet (w : Watch) : Prop := w.phase ≠ .wait → w.updates = [] ∧ w.reset = false

/-- From the listing on: a managed interface is about to be attached, or it is and the updates do not change that. -/
def Tracked (m : TCManager) (p : ProgramRef) (sel : Selector) (w : Watch) : Prop :=
  match w.phase with
  | .attach todo => ∀ name, Managed sel w.links name → name ∈ todo ∨ AllInstalled m p w.kernel name
  | .wait => w.reset = true ∨
      ∀ name, Managed sel w.links name → LeadsTo sel name (AllInstalled m p w.kernel name) w.updates
  | .list | .stopped _ => True

theorem Tracked.add (ht : w.Tracked m p sel) {link : Link} (hs : Smooth sel w (.add link)) :
    (w.add link).Tracked m p sel := by
  unfold Watch.add
  split
  · exact ht
  rename_i hnew
  -- The other interfaces are those that were there.
  have hother : ∀ name, Managed sel ((w.kernel.devs ++ [Dev.mk link none]).map Dev.link) name →
      (Managed sel w.links name ∧ link.name ≠ name) ∨ (sel name = true ∧ link.name = name ∧ link.kind = vethKind) := by
    intro name hmanaged
    rw [List.map_append, List.map_cons, List.map_nil, managed_add] at hmanaged
    refine hmanaged.imp_left fun hmanaged => ⟨hmanaged, fun heq => hnew ?_⟩
    obtain ⟨d, hd, hlink⟩ := List.mem_map.mp hmanaged.2
    exact List.mem_map.mpr ⟨d, hd, by rw [hlink]; exact heq.symm⟩
  have hkeep : ∀ {name}, link.name ≠ name → AllInstalled m p w.kernel name →
      AllInstalled m p { w.kernel with devs := w.kernel.devs ++ [⟨link, none⟩] } name := by
    intro name hne h
    refine AllInstalled.of_subset h fun d hd hname => ?_
    rcases List.mem_append.mp hd with hd | hd
    · exact hd
    · obtain rfl := List.mem_singleton.mp hd
      exact absurd hname hne
  obtain ⟨kernel, updates, reset, phase, cancelled, closed, reports⟩ := w
  cases phase with
  | list | stopped => trivial
  | attach todo =>
    intro name hmanaged
    rcases hother name hmanaged with ⟨hmanaged, hne⟩ | ⟨hsel, rfl, hkind⟩
    · exact (ht name hmanaged).imp_right (hkeep hne)
    · exact absurd ⟨hsel, hkind⟩ (hs todo rfl)
  | wait =>
    rcases ht with hreset | ht
    · exact .inl hreset
    cases reset with
    | true => exact .inl rfl
    | false =>
      refine .inr fun name hmanaged => ?_
      simp only [report, and_self, if_true, leadsTo_concat, after_newLink]
      rcases hother name hmanaged with ⟨hmanaged, hne⟩ | hlink
      · exact .inl ((ht name hmanaged).mono (hkeep hne))
      · exact .inr hlink

theorem Tracked.remove (ht : w.Tracked m p sel) (gone kind : String) : (w.remove gone kind).Tracked m p sel := by
  unfold Watch.remove
  split
  swap
  · exact ht
  have hother : ∀ name, Managed sel ((w.kernel.devs.filter (·.link.name ≠ gone)).map (·.link)) name →
      Managed sel w.links name ∧ name ≠ gone := by
    intro name hmanaged
    have hlinks : (w.kernel.devs.filter (·.link.name ≠ gone)).map (·.link) = w.links.filter (·.name ≠ gone) := by
      simp only [links, List.filter_map]
      rfl
    rwa [hlinks, managed_remove] at hmanaged
  have hkeep : ∀ {name}, AllInstalled m p w.kernel name →
      AllInstalled m p { w.kernel with devs := w.kernel.devs.filter (·.link.name ≠ gone) } name :=
    fun h => AllInstalled.of_subset h fun d hd _ => (List.mem_filter.mp hd).1
  obtain ⟨kernel, updates, reset, phase, cancelled, closed, reports⟩ := w
  cases phase with
  | list | stopped => trivial
  | attach todo => exact fun name hmanaged => (ht name (hother name hmanaged).1).imp_right hkeep
  | wait =>
    rcases ht with hreset | ht
    · exact .inl hreset
    cases reset with
    | true => exact .inl rfl
    | false =>
      refine .inr fun name hmanaged => ?_
      obtain ⟨hmanaged, hne⟩ := hother name hmanaged
      simp only [report, and_self, if_true, leadsTo_concat, after_delLink]
      exact ⟨(ht name hmanaged).mono hkeep, fun _ => hne⟩

theorem Tracked.run (ht : w.Tracked m p sel) (hm : Ready m p) (hcancel : w.cancelled = false) (hq : w.Quiet) (ok : Bool) :
    (w.run m sel ok fun _ => none).Tracked m p sel := by
  obtain ⟨kernel, updates, reset, phase, cancelled, closed, reports⟩ := w
  obtain rfl : cancelled = false := hcancel
  cases phase with
  | list =>
    cases ok with
    | false => trivial
    | true => exact fun name hmanaged => .inl (mem_reconcile.mpr hmanaged)
  | stopped => trivial
  | attach todo =>
    cases todo with
    | nil =>
      cases ok with
      | false => trivial
      | true =>
        obtain ⟨rfl, -⟩ := hq (by simp)
        exact .inr fun name hmanaged => (ht name hmanaged).resolve_left List.not_mem_nil
    | cons ifName todo =>
      intro name hmanaged
      have hlinks := (ensureAttached_touched m (fun _ => none) false kernel ifName).links
      have hmanaged : Managed sel (kernel.devs.map (·.link)) name := hlinks ▸ hmanaged
      rcases ht name hmanaged with htodo | hin
      · rcases List.mem_cons.mp htodo with hname | htodo
        · exact .inr (allInstalled_ensureAttached hm (.inl hname))
        · exact .inl htodo
      · exact .inr (allInstalled_ensureAttached hm (.inr hin))
  | wait =>
    cases updates with
    | nil =>
      cases reset with
      | false => exact ht
      | true => trivial
    | cons u rest =>
      simp only [Watch.run]
      rcases ht with hreset | ht
      · cases classify sel u with
        | none => exact .inl hreset
        | some ev =>
          obtain ⟨ifName, type⟩ := ev
          cases type <;> exact .inl hreset
      cases hu : classify sel u with
      | none =>
        refine .inr fun name hmanaged => ?_
        have hlead := ht name hmanaged
        simp only [LeadsTo, List.foldl_cons, after, hu] at hlead
        exact hlead
      | some ev =>
        obtain ⟨ifName, type⟩ := ev
        have hafter : ∀ name, after sel name (AllInstalled m p kernel name) u =
            if ifName = name then type = .added else AllInstalled m p kernel name := by
          intro name
          simp only [after, hu]
        cases type with
        | added =>
          refine .inr fun name hmanaged => ?_
          have hlinks := (ensureAttached_touched m (fun _ => none) false kernel ifName).links
          have hmanaged : Managed sel (kernel.devs.map (·.link)) name := hlinks ▸ hmanaged
          refine LeadsTo.mono (fun h => allInstalled_ensureAttached hm ?_) (ht name hmanaged)
          rw [hafter] at h
          by_cases hname : ifName = name
          · exact .inl hname.symm
          · exact .inr ((if_neg hname).mp h)
        | removed =>
          refine .inr fun name hmanaged => ?_
          have htouched := detach_touched m (fun _ => none) false kernel ifName
          have hmanaged : Managed sel (kernel.devs.map (·.link)) name := htouched.links ▸ hmanaged
          refine LeadsTo.mono (fun h => ?_) (ht name hmanaged)
          rw [hafter] at h
          by_cases hname : ifName = name
          · cases (if_pos hname).mp h
          · exact ((if_neg hname).mp h).of_touched htouched (Ne.symm hname)

theorem Quiet.report (hq : w.Quiet) (u : LinkUpdate) (hphase : w.phase ≠ .wait) : w.report u = [] ∧ w.reset = false := by
  rw [Watch.report, if_neg fun h => hphase h.1]
  exact hq hphase

theorem Quiet.run (hq : w.Quiet) (ok : Bool) (faults : Faults) : (w.run m sel ok faults).Quiet := by
  obtain ⟨kernel, updates, reset, phase, cancelled, closed, reports⟩ := w
  cases phase with
  | list =>
    cases ok
    · exact fun _ => hq (by simp)
    · exact fun _ => hq (by simp)
  | attach todo =>
    cases todo with
    | nil =>
      cases ok
      · exact fun _ => hq (by simp)
      · exact fun h => absurd rfl h
    | cons => exact fun _ => hq (by simp)
  | wait =>
    cases updates with
    | nil =>
      cases reset with
      | false => exact hq
      | true => exact fun _ => ⟨rfl, rfl⟩
    | cons u rest =>
      simp only [Watch.run]
      cases classify sel u with
      | none => exact fun h => absurd rfl h
      | some ev =>
        obtain ⟨ifName, type⟩ := ev
        cases type <;> exact fun h => absurd rfl h
  | stopped => exact fun _ => hq (by simp)

theorem close_cases (m : TCManager) (iface : String) (w : Watch) (faults : Faults) :
    w.close m iface faults = w ∨ (((∃ err, w.phase = .stopped err) ∨ w.cancelled = true) ∧
      (w.close m iface faults).phase = w.phase ∧ (w.close m iface faults).cancelled = w.cancelled ∧
      (w.close m iface faults).updates = w.updates ∧ (w.close m iface faults).reset = w.reset) := by
  unfold Watch.close
  split
  · exact .inr ⟨.inl ⟨_, ‹_›⟩, rfl, rfl, rfl, rfl⟩
  · exact .inr ⟨.inr ‹_›, rfl, rfl, rfl, rfl⟩
  · exact .inl rfl

theorem Quiet.step (m : TCManager) (sel : Selector) (iface : String) (hq : w.Quiet) (e : WatchEvent) :
    (w.step m sel iface e).Quiet := by
  cases e with
  | add link =>
    simp only [Watch.step, Watch.add]
    split
    · exact hq
    · exact fun hphase => hq.report _ hphase
  | remove name kind =>
    simp only [Watch.step, Watch.remove]
    split
    · exact fun hphase => hq.report _ hphase
    · exact hq
  | reset =>
    simp only [Watch.step]
    split
    · exact fun hphase => absurd ‹_› hphase
    · exact hq
  | cancel => exact hq
  | run ok faults => exact hq.run ok faults
  | done =>
    simp only [Watch.step]
    split
    · exact fun _ => ⟨rfl, rfl⟩
    · exact hq
  | close faults =>
    rcases close_cases m iface w faults with h | ⟨-, hphase, -, hupdates, hreset⟩
    · rwa [Watch.step, h]
    · intro h
      rw [Watch.step, hphase] at h
      rw [Watch.step, hupdates, hreset]
      exact hq h

theorem cancelled_run (ok : Bool) (faults : Faults) : (w.run m sel ok faults).cancelled = w.cancelled := by
  unfold Watch.run
  split
  · split <;> rfl
  · rfl
  · split <;> rfl
  · split
    · split
      · rename_i ev _
        cases hev : ev.type <;> simp [dispatch, hev, reported]
      · rfl
    · split <;> rfl
  · rfl

/-- A context stays cancelled. -/
theorem cancelled_of_step {e : WatchEvent} (h : (w.step m sel iface e).cancelled = false) : w.cancelled = false := by
  cases e with
  | add link =>
    simp only [Watch.step, Watch.add] at h
    split at h <;> exact h
  | remove name kind =>
    simp only [Watch.step, Watch.remove] at h
    split at h <;> exact h
  | reset =>
    simp only [Watch.step] at h
    split at h <;> exact h
  | cancel => cases h
  | run ok faults => exact (cancelled_run ok faults).symm.trans h
  | done =>
    simp only [Watch.step] at h
    split at h <;> exact h
  | close faults =>
    rcases close_cases m iface w faults with heq | ⟨-, -, hcancelled, -⟩
    · rwa [Watch.step, heq] at h
    · exact hcancelled.symm.trans h

/-- The invariant of a session that is not cancelled. -/
def Sound (m : TCManager) (p : ProgramRef) (sel : Selector) (w : Watch) : Prop :=
  w.Quiet ∧ (w.cancelled = false → w.Tracked m p sel)

theorem Sound.step (iface : String) (hm : Ready m p) (h : w.Sound m p sel) {e : WatchEvent} (hs : Smooth sel w e) :
    (w.step m sel iface e).Sound m p sel := by
  obtain ⟨hq, ht⟩ := h
  refine ⟨hq.step m sel iface e, fun hcancel => ?_⟩
  have hcancel' := cancelled_of_step hcancel
  have ht := ht hcancel'
  cases e with
  | add link => exact ht.add hs
  | remove name kind => exact ht.remove name kind
  | reset =>
    simp only [Watch.step]
    split
    · rename_i hphase
      simp only [Tracked, hphase, true_or]
    · exact ht
  | cancel => cases hcancel
  | run ok faults =>
    obtain rfl : faults = fun _ => none := hs
    exact ht.run hm hcancel' hq ok
  | done =>
    simp only [Watch.step]
    split
    · rename_i hdone
      cases hdone.2.symm.trans hcancel'
    · exact ht
  | close faults =>
    rcases close_cases m iface w faults with h | ⟨⟨err, herr⟩ | hcancelled, hphase, -⟩
    · rwa [Watch.step, h]
    · simp only [Watch.step, Tracked, hphase, herr]
    · cases hcancelled.symm.trans hcancel'

end

end Watch

/-- Whatever happened before a listing: when the calls of the kernel work from there on and no interface to manage appears
    before the subscription, then once the updates are delivered every managed interface runs the manager's program. -/
theorem watch_recovers {m : TCManager} {p : ProgramRef} (hm : Ready m p) (sel : Selector) (iface : String) (kernel : Kernel)
    (before session : List WatchEvent) {w w' : Watch} (hw : execute (Watch.step m sel iface) (.start kernel) before = w)
    (hlist : w.phase = .list) (hsmooth : Steps (Watch.step m sel iface) (Watch.Smooth sel) w session)
    (hw' : execute (Watch.step m sel iface) w session = w') (hidle : w'.Idle) (hcancel : w'.cancelled = false) :
    ∀ d ∈ w'.kernel.devs, sel d.link.name = true → d.link.kind = vethKind → Installed m p d := by
  have hquiet := execute_inv (I := Watch.Quiet) (fun _ e h => h.step m sel iface e)
    (s := .start kernel) (fun _ => ⟨rfl, rfl⟩) before
  rw [hw] at hquiet
  have hsound := execute_inv_of_steps (I := Watch.Sound m p sel) (fun _ _ h hs => h.step iface hm hs)
    ⟨hquiet, fun _ => by simp only [Watch.Tracked, hlist]⟩ hsmooth
  rw [hw'] at hsound
  obtain ⟨hphase, hupdates, hreset⟩ := hidle
  have htracked := hsound.2 hcancel
  simp only [Watch.Tracked, hphase, hreset, hupdates, Bool.false_eq_true, false_or] at htracked
  intro d hd hsel hkind
  refine htracked d.link.name ⟨hsel, List.mem_map.mpr ⟨d, hd, ?_⟩⟩ d hd rfl
  rw [← hkind]

/-- A manager with a loaded program. -/
def readyManager : TCManager := newManager (some ⟨3, 42⟩) "/sys/fs/bpf/meridian/tc_ingress_prog"

/-- One pod interface is there when the agent starts. -/
def onePod : Kernel := ⟨[⟨⟨"veth0", vethKind⟩, none⟩], fun _ => none⟩

/-- The first attachment fails; then the subscription is reset, and the pod of another interface comes before the next
    listing. -/
def failedThenReset : List WatchEvent :=
  [.run true fun _ => none, .run true fun c => if c = .filterReplace then some .other else none, .run true fun _ => none,
   .reset, .add ⟨"veth1", vethKind⟩, .run true fun _ => none]

/-- A listing, the two attachments and the subscription. -/
def nextListing : List WatchEvent := List.replicate 4 (.run true fun _ => none)

theorem watch_recovers_reset :
    ∃ w, execute (Watch.step readyManager (prefixSelector "veth") "") (.start onePod) (failedThenReset ++ nextListing) = w ∧
      w.reports.length = 1 ∧ w.kernel.devs.length = 2 ∧ ∀ d ∈ w.kernel.devs, Installed readyManager ⟨3, 42⟩ d := by
  have hready : Ready readyManager ⟨3, 42⟩ := ⟨rfl, by decide, by decide⟩
  have hsmooth : Steps (Watch.step readyManager (prefixSelector "veth") "") (Watch.Smooth (prefixSelector "veth"))
      (execute (Watch.step readyManager (prefixSelector "veth") "") (.start onePod) failedThenReset) nextListing :=
    steps_of_mem fun w e he => by
      obtain rfl := List.eq_of_mem_replicate he
      rfl
  have hinstalled := watch_recovers hready (prefixSelector "veth") "" onePod failedThenReset nextListing rfl rfl hsmooth rfl
    ⟨rfl, rfl, rfl⟩ rfl
  rw [execute_append]
  refine ⟨_, rfl, rfl, rfl, fun d hd => hinstalled d hd ?_ ?_⟩
  all_goals
    rcases List.mem_pair.mp hd with rfl | rfl <;> decide

end Meridian.Supervisor
