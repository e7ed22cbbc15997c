import Meridian.Control.PodInformer

/-! Pods and their identities. The registry binds a name, not a namespace and a name, and keeps every binding; the watcher
    reads neither the tombstone of a pod nor the loss of an annotation. So the store follows the meshed pods only while
    no two pods have the name of a meshed one and none of these goes. -/

namespace Meridian.K8s
open Lib Wire

namespace Registry

variable {r r' : Registry} {name : String} {id : IdentityID}

@[simp] theorem allocate_empty (r : Registry) : r.allocate "" = none := rfl

/-- A name that is not empty is bound afterwards, and no other binding changes. -/
theorem allocate_eq_some (h : name ≠ "") : ∃ id r', r.allocate name = some (id, r') ∧
    r'.byName = Table.put r.byName name id ∧ (r.byName name = some id ∨ r.byName name = none ∧ id = r.next) := by
  unfold allocate
  rw [if_neg h]
  cases hname : r.byName name with
  | none => exact ⟨r.next, _, rfl, rfl, .inr ⟨rfl, rfl⟩⟩
  | some id => exact ⟨id, r, rfl, (Table.write_eq_self hname).symm, .inl rfl⟩

end Registry

namespace Cluster

/-- The pod is live and meshed. -/
def Runs (s : Cluster) (pod : Pod) (spiffeID : String) : Prop :=
  s.live pod.objectKey = some pod ∧ pod.meshed = some spiffeID

/-- The pod is stored under the identity. -/
def Stores (s : Cluster) (id : IdentityID) (pod : Pod) (spiffeID : String) : Prop :=
  s.watcher.store id = some (pod.identity spiffeID id)

/-- Identities and live meshed pods correspond. -/
structure OneToOne (s : Cluster) : Prop where
  stored : ∀ id ident, s.watcher.store id = some ident →
    ∃ pod spiffeID, s.Runs pod spiffeID ∧ ident = pod.identity spiffeID id
  one : ∀ pod spiffeID, s.Runs pod spiffeID → ∃! id, s.Stores id pod spiffeID
  distinct : ∀ id pod spiffeID pod' spiffeID', s.Runs pod spiffeID → s.Stores id pod spiffeID → s.Runs pod' spiffeID' →
    s.Stores id pod' spiffeID' → pod.objectKey = pod'.objectKey
  lookup : ∀ pod ∈ s.seen, ∀ id, s.watcher.podIdentity (some pod) = some id →
    ∃ current spiffeID, current.objectKey = pod.objectKey ∧ s.Runs current spiffeID ∧ s.Stores id current spiffeID

/-- The event of a meshed pod: it has a name, no other pod was seen with that name, and a new name gets an identity that is
    not taken. Every other event: the name of its pod is not registered. -/
def Keeps (s : Cluster) : PodEvent → Prop
  | .upsert pod =>
    match pod.meshed with
    | some _ => pod.name ≠ "" ∧ (∀ other ∈ s.seen, other.name = pod.name → other.objectKey = pod.objectKey) ∧
        (s.watcher.registry.byName pod.name = none →
          ∀ name, s.watcher.registry.byName name ≠ some s.watcher.registry.next)
    | none => s.watcher.registry.byName pod.name = none
  | .delete pod _ => s.watcher.registry.byName pod.name = none

/-- While every event keeps the correspondence, the registered names are those of the live meshed pods. -/
structure InStep (s : Cluster) : Prop where
  seen : ∀ key pod, s.live key = some pod → pod.objectKey = key ∧ pod ∈ s.seen
  nonempty : s.watcher.registry.byName "" = none
  registered : ∀ name id, s.watcher.registry.byName name = some id →
    ∃ pod spiffeID, pod.name = name ∧ s.Runs pod spiffeID ∧ s.Stores id pod spiffeID
  running : ∀ pod spiffeID, s.Runs pod spiffeID → ∃ id, s.watcher.registry.byName pod.name = some id
  names : ∀ pod ∈ s.seen, s.watcher.registry.byName pod.name ≠ none →
    ∀ other ∈ s.seen, other.name = pod.name → other.objectKey = pod.objectKey
  stored : ∀ id ident, s.watcher.store id = some ident → ∃ name, s.watcher.registry.byName name = some id

variable {s : Cluster} {pod pod' : Pod} {spiffeID : String}

theorem Stores.objectKey {id : IdentityID} {spiffeID' : String} (h : s.Stores id pod spiffeID)
    (h' : s.Stores id pod' spiffeID') : pod.objectKey = pod'.objectKey := by
  have hident : pod.identity spiffeID id = pod'.identity spiffeID' id := Option.some.inj (h.symm.trans h')
  exact Prod.ext (congrArg Identity.ns hident) (congrArg Identity.name hident)

theorem Runs.eq {spiffeID' : String} (h : s.Runs pod spiffeID) (h' : s.Runs pod' spiffeID')
    (hkey : pod.objectKey = pod'.objectKey) : pod = pod' ∧ spiffeID = spiffeID' := by
  have hpod : pod = pod' := by
    have hlive := h.1
    rw [hkey, h'.1] at hlive
    exact (Option.some.inj hlive).symm
  subst hpod
  exact ⟨rfl, Option.some.inj (h.2.symm.trans h'.2)⟩

namespace InStep

variable {s : Cluster}

theorem mem_seen (h : InStep s) (hruns : s.Runs pod spiffeID) : pod ∈ s.seen :=
  (h.seen _ _ hruns.1).2

theorem name_eq (h : InStep s) {name name' : String} {id : IdentityID}
    (hname : s.watcher.registry.byName name = some id) (hname' : s.watcher.registry.byName name' = some id) :
    name = name' := by
  obtain ⟨pod, _, rfl, -, hstores⟩ := h.registered name id hname
  obtain ⟨pod', _, rfl, -, hstores'⟩ := h.registered name' id hname'
  exact congrArg Prod.snd (hstores.objectKey hstores')

/-- A live meshed pod is stored under the identity of its name. -/
theorem stores (h : InStep s) {pod : Pod} {spiffeID : String} {id : IdentityID} (hruns : s.Runs pod spiffeID)
    (hname : s.watcher.registry.byName pod.name = some id) : s.Stores id pod spiffeID := by
  obtain ⟨pod', spiffeID', hsame, hruns', hstores⟩ := h.registered _ _ hname
  have hkey : pod'.objectKey = pod.objectKey :=
    h.names pod (h.mem_seen hruns) (by simp [hname]) pod' (h.mem_seen hruns') hsame
  obtain ⟨rfl, rfl⟩ := hruns'.eq hruns hkey
  exact hstores

theorem oneToOne (h : InStep s) : OneToOne s where
  stored id ident hstore := by
    obtain ⟨name, hname⟩ := h.stored id ident hstore
    obtain ⟨pod, spiffeID, -, hruns, hstores⟩ := h.registered name id hname
    exact ⟨pod, spiffeID, hruns, Option.some.inj (hstore.symm.trans hstores)⟩
  one pod spiffeID hruns := by
    obtain ⟨id, hname⟩ := h.running pod spiffeID hruns
    refine ⟨id, h.stores hruns hname, fun id' hstores' => ?_⟩
    obtain ⟨name', hname'⟩ := h.stored id' _ hstores'
    obtain ⟨pod', spiffeID', rfl, -, hother⟩ := h.registered name' id' hname'
    have hsame : pod'.name = pod.name := congrArg Prod.snd (hother.objectKey hstores')
    rw [hsame, hname] at hname'
    exact (Option.some.inj hname').symm
  distinct id pod spiffeID pod' spiffeID' _ hstores _ hstores' := hstores.objectKey hstores'
  lookup pod hseen id hid := by
    obtain ⟨current, spiffeID, hsame, hruns, hstores⟩ := h.registered pod.name id hid
    have hbound : s.watcher.registry.byName pod.name ≠ none := by
      rw [show s.watcher.registry.byName pod.name = some id from hid]
      exact Option.some_ne_none id
    exact ⟨current, spiffeID, h.names pod hseen hbound current (h.mem_seen hruns) hsame, hruns, hstores⟩

theorem start : InStep start where
  seen _ _ h := by cases h
  nonempty := rfl
  registered _ _ h := by cases h
  running _ _ h := by cases h.1
  names _ h := by cases h
  stored _ _ h := by cases h

/-- An event that leaves the watcher as it was, about a pod whose name is not registered. -/
theorem quiet (h : InStep s) {live : Table (String × String) Pod} (hname : s.watcher.registry.byName pod.name = none)
    (hpod : ∀ p, live pod.objectKey = some p → p = pod ∧ p.meshed = none)
    (hlive : ∀ key, pod.objectKey ≠ key → live key = s.live key) : InStep ⟨s.watcher, live, pod :: s.seen⟩ := by
  have hother {p : Pod} (hp : s.watcher.registry.byName p.name ≠ none) : pod.objectKey ≠ p.objectKey := by
    intro hkey
    rw [← show pod.name = p.name from congrArg Prod.snd hkey] at hp
    exact hp hname
  have hruns {p : Pod} {spiffeID : String} (hp : Runs ⟨s.watcher, live, pod :: s.seen⟩ p spiffeID) :
      s.Runs p spiffeID := by
    by_cases hkey : pod.objectKey = p.objectKey
    · have hmeshed := (hpod p (hkey ▸ hp.1)).2
      rw [hp.2] at hmeshed
      cases hmeshed
    · exact ⟨(hlive _ hkey).symm.trans hp.1, hp.2⟩
  constructor
  · intro key p hp
    by_cases hkey : pod.objectKey = key
    · subst hkey
      rw [(hpod p hp).1]
      exact ⟨rfl, List.mem_cons_self⟩
    · obtain ⟨hobj, hmem⟩ := h.seen key p ((hlive key hkey).symm.trans hp)
      exact ⟨hobj, List.mem_cons_of_mem _ hmem⟩
  · exact h.nonempty
  · intro name id hid
    change s.watcher.registry.byName name = some id at hid
    obtain ⟨p, spiffeID, rfl, hp, hstores⟩ := h.registered name id hid
    have hkey := hother (p := p) (by simp [hid])
    exact ⟨p, spiffeID, rfl, ⟨(hlive _ hkey).trans hp.1, hp.2⟩, hstores⟩
  · exact fun p spiffeID hp => h.running p spiffeID (hruns hp)
  · intro p hp hbound other hmem hsame
    have hne : ∀ q : Pod, q.name = p.name → q ∈ pod :: s.seen → q ∈ s.seen := by
      intro q hq hmem
      rcases List.mem_cons.mp hmem with rfl | hmem
      · exact absurd hname (hq ▸ hbound)
      · exact hmem
    exact h.names p (hne p rfl hp) hbound other (hne other hsame hmem) hsame
  · exact h.stored

/-- Seeing a pod under a name that no other pod has been seen with. -/
theorem names_cons (h : InStep s) {p other : Pod} (hothers : ∀ q ∈ s.seen, q.name = pod.name → q.objectKey = pod.objectKey)
    (hp : p ∈ pod :: s.seen) (hbound : pod.name ≠ p.name → s.watcher.registry.byName p.name ≠ none)
    (hother : other ∈ pod :: s.seen) (hsame : other.name = p.name) : other.objectKey = p.objectKey := by
  by_cases hpod : pod.name = p.name
  · have hkey : ∀ q ∈ pod :: s.seen, q.name = pod.name → q.objectKey = pod.objectKey := by
      intro q hq hname
      rcases List.mem_cons.mp hq with rfl | hq
      · rfl
      · exact hothers q hq hname
    rw [hkey p hp hpod.symm, hkey other hother (hsame.trans hpod.symm)]
  · have hold : ∀ q ∈ pod :: s.seen, q.name = p.name → q ∈ s.seen := by
      intro q hq hname
      rcases List.mem_cons.mp hq with rfl | hq
      · exact absurd hname hpod
      · exact hq
    exact h.names p (hold p hp rfl) (hbound hpod) other (hold other hother hsame) hsame

/-- The event of a meshed pod that is registered under an identity of its own. -/
theorem register (h : InStep s) {id : IdentityID} {registry : Registry} (hmeshed : pod.meshed = some spiffeID)
    (hnonempty : pod.name ≠ "") (hothers : ∀ other ∈ s.seen, other.name = pod.name → other.objectKey = pod.objectKey)
    (hbyName : registry.byName = Table.put s.watcher.registry.byName pod.name id)
    (hfree : ∀ name, s.watcher.registry.byName name = some id → name = pod.name)
    (hkept : ∀ old, s.watcher.registry.byName pod.name = some old → old = id) :
    InStep ⟨⟨registry, Table.put s.watcher.store id (pod.identity spiffeID id)⟩,
      Table.put s.live pod.objectKey pod, pod :: s.seen⟩ := by
  have hkeys {p : Pod} (hp : pod.name ≠ p.name) : pod.objectKey ≠ p.objectKey :=
    fun hkey => hp (congrArg Prod.snd hkey)
  have hnames {name : String} {i : IdentityID} (hname : s.watcher.registry.byName name = some i) (hpod : pod.name ≠ name) :
      registry.byName name = some i := by
    rw [hbyName, Table.put_of_ne hpod, hname]
  constructor
  · intro key p hp
    rcases Table.of_put hp with ⟨rfl, rfl⟩ | ⟨-, hp⟩
    · exact ⟨rfl, List.mem_cons_self⟩
    · obtain ⟨hobj, hmem⟩ := h.seen key p hp
      exact ⟨hobj, List.mem_cons_of_mem _ hmem⟩
  · change registry.byName "" = none
    rw [hbyName, Table.put_of_ne hnonempty]
    exact h.nonempty
  · intro name i hname
    change registry.byName name = some i at hname
    rw [hbyName] at hname
    rcases Table.of_put hname with ⟨rfl, rfl⟩ | ⟨hpod, hname⟩
    · exact ⟨pod, spiffeID, rfl, ⟨Table.put_same _ _ _, hmeshed⟩, Table.put_same _ _ _⟩
    · obtain ⟨p, sid, rfl, hruns, hstores⟩ := h.registered name i hname
      have hid : id ≠ i := by
        rintro rfl
        exact hpod (hfree _ hname).symm
      exact ⟨p, sid, rfl, ⟨(Table.put_of_ne (hkeys hpod)).trans hruns.1, hruns.2⟩, (Table.put_of_ne hid).trans hstores⟩
  · intro p sid hruns
    change ∃ i, registry.byName p.name = some i
    by_cases hpod : pod.name = p.name
    · rw [hbyName, ← hpod]
      exact ⟨id, Table.put_same _ _ _⟩
    · obtain ⟨i, hi⟩ := h.running p sid ⟨(Table.put_of_ne (hkeys hpod)).symm.trans hruns.1, hruns.2⟩
      exact ⟨i, hnames hi hpod⟩
  · intro p hp hbound other hother hsame
    refine h.names_cons hothers hp (fun hpod => ?_) hother hsame
    change registry.byName p.name ≠ none at hbound
    rwa [hbyName, Table.put_of_ne hpod] at hbound
  · intro i ident hstore
    change ∃ name, registry.byName name = some i
    rcases Table.of_put hstore with ⟨rfl, -⟩ | ⟨hid, hstore⟩
    · rw [hbyName]
      exact ⟨pod.name, Table.put_same _ _ _⟩
    · obtain ⟨name, hname⟩ := h.stored i ident hstore
      refine ⟨name, hnames hname ?_⟩
      rintro rfl
      exact hid (hkept i hname).symm

end InStep

section
variable {s : Cluster} {pod : Pod}

theorem step_upsert_of_meshed {id : IdentityID} {registry : Registry} (hmeshed : pod.meshed = some spiffeID)
    (halloc : s.watcher.registry.allocate pod.name = some (id, registry)) :
    s.step (.upsert pod) = ⟨⟨registry, Table.put s.watcher.store id (pod.identity spiffeID id)⟩,
      Table.put s.live pod.objectKey pod, pod :: s.seen⟩ := by
  simp only [step, Watcher.onPodAdd, hmeshed, halloc]

theorem step_upsert_of_not_meshed (hmeshed : pod.meshed = none) :
    s.step (.upsert pod) = ⟨s.watcher, Table.put s.live pod.objectKey pod, pod :: s.seen⟩ := by
  simp only [step, Watcher.onPodAdd, hmeshed]

/-- A deletion touches the store only. -/
theorem step_delete (s : Cluster) (pod : Pod) (tombstone : Bool) : ∃ store, s.step (.delete pod tombstone) =
    ⟨⟨s.watcher.registry, store⟩, Table.erase s.live pod.objectKey, pod :: s.seen⟩ ∧
    (s.watcher.registry.byName pod.name = none → store = s.watcher.store) := by
  cases tombstone with
  | true => exact ⟨s.watcher.store, rfl, fun _ => rfl⟩
  | false =>
    cases hname : s.watcher.registry.byName pod.name with
    | none =>
      refine ⟨s.watcher.store, ?_, fun _ => rfl⟩
      simp only [step, Watcher.onPodDelete, Registry.lookupByName, hname, Bool.false_eq_true, if_false]
    | some id =>
      refine ⟨Table.erase s.watcher.store id, ?_, fun h => by cases h⟩
      simp only [step, Watcher.onPodDelete, Registry.lookupByName, hname, Bool.false_eq_true, if_false]

end

theorem InStep.step {s : Cluster} (h : InStep s) {e : PodEvent} (hkeeps : Keeps s e) : InStep (s.step e) := by
  cases e with
  | upsert pod =>
    cases hmeshed : pod.meshed with
    | none =>
      simp only [Keeps, hmeshed] at hkeeps
      rw [step_upsert_of_not_meshed hmeshed]
      refine h.quiet hkeeps (fun p hp => ?_) fun key hkey => Table.put_of_ne hkey
      obtain ⟨-, rfl⟩ | ⟨hne, -⟩ := Table.of_put hp
      · exact ⟨rfl, hmeshed⟩
      · exact absurd rfl hne
    | some spiffeID =>
      simp only [Keeps, hmeshed] at hkeeps
      obtain ⟨hnonempty, hothers, hfresh⟩ := hkeeps
      obtain ⟨id, registry, halloc, hbyName, hid⟩ := Registry.allocate_eq_some (r := s.watcher.registry) hnonempty
      rw [step_upsert_of_meshed hmeshed halloc]
      refine h.register hmeshed hnonempty hothers hbyName (fun name hname => ?_) fun old hold => ?_
      · rcases hid with hid | ⟨hnone, rfl⟩
        · exact h.name_eq hname hid
        · exact absurd hname (hfresh hnone name)
      · rcases hid with hid | ⟨hnone, -⟩
        · rw [hold] at hid
          exact Option.some.inj hid
        · rw [hold] at hnone
          cases hnone
  | delete pod tombstone =>
    obtain ⟨store, hstep, hstore⟩ := step_delete s pod tombstone
    rw [hstep, hstore hkeeps]
    exact h.quiet hkeeps (fun p hp => absurd rfl (Table.of_erase hp).1) fun key hkey => Table.erase_of_ne hkey

/-- A seen pod that is looked up is the one that is stored. -/
theorem OneToOne.objectKey_eq (h : OneToOne s) {id : IdentityID} (hseen : pod ∈ s.seen)
    (hname : s.watcher.registry.byName pod.name = some id) (hstores : s.Stores id pod' spiffeID) :
    pod.objectKey = pod'.objectKey := by
  obtain ⟨current, _, hkey, -, hcurrent⟩ := h.lookup pod hseen id hname
  exact hkey.symm.trans (hcurrent.objectKey hstores)

/-- A seen pod with a registered name runs. -/
theorem OneToOne.meshed {s : Cluster} (h : OneToOne s) {pod current : Pod} {id : IdentityID} (hseen : pod ∈ s.seen)
    (hname : s.watcher.registry.byName pod.name = some id) (hlive : s.live pod.objectKey = some current) :
    current.meshed ≠ none := by
  obtain ⟨current', spiffeID, hkey, hruns, -⟩ := h.lookup pod hseen id hname
  have heq : current' = current := by
    rw [← hkey, hruns.1] at hlive
    exact Option.some.inj hlive
  rw [← heq, hruns.2]
  exact Option.some_ne_none spiffeID

theorem OneToOne.live {s : Cluster} (h : OneToOne s) {pod : Pod} {id : IdentityID} (hseen : pod ∈ s.seen)
    (hname : s.watcher.registry.byName pod.name = some id) : s.live pod.objectKey ≠ none := by
  obtain ⟨current, spiffeID, hkey, hruns, -⟩ := h.lookup pod hseen id hname
  rw [← hkey, hruns.1]
  exact Option.some_ne_none current

/-- A pod without a name is not registered, so nothing is stored for it. -/
theorem name_ne_empty_of_oneToOne (h : InStep s) (hmeshed : pod.meshed = some spiffeID)
    (hone : OneToOne (s.step (.upsert pod))) : pod.name ≠ "" := by
  intro hempty
  have hstep : s.step (.upsert pod) = ⟨s.watcher, Table.put s.live pod.objectKey pod, pod :: s.seen⟩ := by
    simp only [step, Watcher.onPodAdd, hmeshed, hempty, Registry.allocate_empty]
  rw [hstep] at hone
  obtain ⟨id, hstores, -⟩ := hone.one pod spiffeID ⟨Table.put_same _ _ _, hmeshed⟩
  obtain ⟨name, hname⟩ := h.stored id _ hstores
  obtain ⟨p, _, rfl, -, hother⟩ := h.registered name id hname
  rw [show p.name = "" from (congrArg Prod.snd (hother.objectKey hstores)).trans hempty, h.nonempty] at hname
  cases hname

theorem keeps_upsert_of_oneToOne (h : InStep s) (hmeshed : pod.meshed = some spiffeID)
    (hone : OneToOne (s.step (.upsert pod))) : Keeps s (.upsert pod) := by
  simp only [Keeps, hmeshed]
  have hnonempty := name_ne_empty_of_oneToOne h hmeshed hone
  obtain ⟨id, registry, halloc, hbyName, hid⟩ := Registry.allocate_eq_some (r := s.watcher.registry) hnonempty
  rw [step_upsert_of_meshed hmeshed halloc] at hone
  have hsame {p : Pod} (hp : p ∈ s.seen) (hname : registry.byName p.name = some id) : p.objectKey = pod.objectKey :=
    hone.objectKey_eq (List.mem_cons_of_mem _ hp) hname (Table.put_same _ _ _)
  refine ⟨hnonempty, fun other hseen hname => ?_, fun hnone name hname => ?_⟩
  · refine hsame hseen ?_
    rw [hbyName, hname, Table.put_same]
  · obtain ⟨p, _, rfl, hruns, -⟩ := h.registered name _ hname
    have hne : pod.name ≠ p.name := by
      intro heq
      rw [← heq, hnone] at hname
      cases hname
    have hnext : id = s.watcher.registry.next := by
      rcases hid with hid | ⟨-, hid⟩
      · rw [hnone] at hid
        cases hid
      · exact hid
    have hkey := hsame (h.mem_seen hruns) (by rw [hbyName, Table.put_of_ne hne, hname, hnext])
    exact hne (congrArg Prod.snd hkey).symm

theorem not_oneToOne_step (h : InStep s) {e : PodEvent} (hkeeps : ¬Keeps s e) : ¬OneToOne (s.step e) := by
  intro hone
  cases e with
  | upsert pod =>
    cases hmeshed : pod.meshed with
    | none =>
      simp only [Keeps, hmeshed] at hkeeps
      obtain ⟨id, hid⟩ := Option.ne_none_iff_exists'.mp hkeeps
      rw [step_upsert_of_not_meshed hmeshed] at hone
      exact hone.meshed List.mem_cons_self hid (Table.put_same _ _ _) hmeshed
    | some spiffeID => exact hkeeps (keeps_upsert_of_oneToOne h hmeshed hone)
  | delete pod tombstone =>
    obtain ⟨store, hstep, -⟩ := step_delete s pod tombstone
    obtain ⟨id, hid⟩ := Option.ne_none_iff_exists'.mp hkeeps
    rw [hstep] at hone
    exact hone.live List.mem_cons_self hid (Table.erase_same _ _)

end Cluster

/-- Identities and live meshed pods correspond after every event exactly when every event keeps to the condition. -/
theorem pod_identities_one_to_one_iff (events : List PodEvent) :
    Always Cluster.step Cluster.OneToOne .start events ↔ Steps Cluster.step Cluster.Keeps .start events :=
  always_iff_steps (I := Cluster.InStep) (fun _ h => h.oneToOne) (fun _ _ h hkeeps => h.step hkeeps)
    (fun _ _ h hkeeps => Cluster.not_oneToOne_step h hkeeps) Cluster.InStep.start events

/-- A pod of a namespace, with the address that it was given. -/
def webPod (ns podIP : String) : Pod :=
  ⟨ns, "web-0", fun _ => none, Table.put (fun _ => none) spiffeIDAnnotation ("spiffe://cluster.local/" ++ ns), podIP⟩

theorem same_name_shares_identity :
    ¬Cluster.OneToOne
      (execute Cluster.step .start [.upsert (webPod "blue" "10.0.0.1"), .upsert (webPod "green" "10.0.0.2")]) := by
  intro h
  have hblue := @Cluster.OneToOne.objectKey_eq _ (webPod "blue" "10.0.0.1") (webPod "green" "10.0.0.2")
    "spiffe://cluster.local/green" h 1 (List.mem_cons_of_mem _ List.mem_cons_self) (by decide +kernel)
    (by unfold Cluster.Stores; decide +kernel)
  exact absurd hblue (by decide)

end Meridian.K8s
