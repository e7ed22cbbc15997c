import Meridian.Agent.Linkwatch
import Meridian.Lib.Run

/-! What is attached once all updates are delivered. From the subscription on the updates say exactly what happens to the
    host, so the attached interfaces follow it; what happens between the listing and the subscription nobody reports. -/

namespace Meridian.Linkwatch
open Lib

variable {sel : Selector}

/-- The interfaces to attach: veth links that the selector accepts. -/
def Managed (sel : Selector) (links : List Link) (name : String) : Prop := sel name = true ∧ ⟨name, vethKind⟩ ∈ links

instance (sel : Selector) (links : List Link) (name : String) : Decidable (Managed sel links name) :=
  inferInstanceAs (Decidable (_ ∧ _))

variable {links : List Link} {name : String}

theorem mem_reconcile : name ∈ reconcile sel links ↔ Managed sel links name := by
  simp only [reconcile, List.mem_map, List.mem_filter, Bool.and_eq_true, beq_iff_eq, Managed]
  constructor
  · rintro ⟨⟨_, _⟩, ⟨hmem, rfl, hsel⟩, rfl⟩
    exact ⟨hsel, hmem⟩
  · rintro ⟨hsel, hmem⟩
    exact ⟨_, ⟨hmem, rfl, hsel⟩, rfl⟩

theorem managed_add {link : Link} : Managed sel (links ++ [link]) name ↔
      Managed sel links name ∨ sel name = true ∧ link.name = name ∧ link.kind = vethKind := by
  simp only [Managed, List.mem_append, List.mem_singleton, and_or_left]
  cases link
  simp only [Link.mk.injEq, eq_comm]

theorem managed_remove {gone : String} :
    Managed sel (links.filter (·.name ≠ gone)) name ↔ Managed sel links name ∧ name ≠ gone := by
  simp [Managed, and_assoc]

theorem mem_deliver_newLink {attached : Finset String} {link : Link} : name ∈ deliver sel attached ⟨.newLink, link⟩ ↔
      name ∈ attached ∨ sel name = true ∧ link.name = name ∧ link.kind = vethKind := by
  simp only [deliver, classify]
  by_cases hmatch : sel link.name = true ∧ link.kind = vethKind
  · simp only [hmatch, ↓reduceIte, dispatch, ensureAttached, Finset.mem_insert]
    grind
  · have unmatched : ¬(sel name = true ∧ link.name = name ∧ link.kind = vethKind) := by
      rintro ⟨hsel, rfl, hkind⟩
      exact hmatch ⟨hsel, hkind⟩
    simp only [unmatched, or_false]
    grind

theorem mem_deliver_delLink {attached : Finset String} {gone kind : String} :
    name ∈ deliver sel attached ⟨.delLink, ⟨gone, kind⟩⟩ ↔ name ∈ attached ∧ (sel name = true → name ≠ gone) := by
  by_cases hsel : sel gone = true
  · simp only [deliver, classify, hsel, ↓reduceIte, dispatch, detach, Finset.mem_erase]
    grind
  · simp only [deliver, classify, hsel]
    grind

namespace System

/-- What is attached once the undelivered updates are delivered. -/
def settled (sel : Selector) (s : System) : Finset String := s.updates.foldl (deliver sel) s.attached

/-- Before the subscription: the listed interfaces are attached or about to be. After it: the updates lead to the
    present links. -/
def OnTrack (sel : Selector) (s : System) : Prop :=
  match s.phase with
  | .list => s.attached = ∅ ∧ s.updates = []
  | .attach ifaces todo => (∀ name, name ∈ ifaces ↔ name ∈ s.attached ∨ name ∈ todo) ∧ s.updates = []
  | .wait => ∀ name, name ∈ s.settled sel ↔ Managed sel s.links name

/-- If the step is the subscription, a listing would still give the interfaces that were listed. -/
def SubscribesInTime (sel : Selector) (s : System) (e : Step) : Prop :=
  ∀ ifaces, s.phase = .attach ifaces [] → e = .run → ∀ name, name ∈ ifaces ↔ name ∈ reconcile sel s.links

def InSync (sel : Selector) (s : System) : Prop :=
  s.Idle → ∀ name, name ∈ s.attached ↔ Managed sel s.links name

theorem OnTrack.inSync {s : System} (h : s.OnTrack sel) : s.InSync sel := by
  rintro ⟨hphase, hupdates⟩ name
  simp only [OnTrack, hphase, settled, hupdates, List.foldl_nil] at h
  exact h name

theorem onTrack_start (links : List Link) : (start links).OnTrack sel := ⟨rfl, rfl⟩

/-! ### One step -/

/-- A change of the host that its update, once delivered, repeats. -/
theorem OnTrack.change {s : System} (h : s.OnTrack sel) {links : List Link} {u : LinkUpdate}
    (hu : ∀ attached name, (name ∈ attached ↔ Managed sel s.links name) →
      (name ∈ deliver sel attached u ↔ Managed sel links name)) :
    OnTrack sel { s with links, updates := s.report u } := by
  obtain ⟨before, attached, phase, updates⟩ := s
  cases phase with
  | list | attach => exact h
  | wait =>
    intro name
    change name ∈ (updates ++ [u]).foldl (deliver sel) attached ↔ Managed sel links name
    rw [List.foldl_append]
    exact hu _ name (h name)

theorem OnTrack.add {s : System} (h : s.OnTrack sel) (link : Link) : (s.step sel (.add link)).OnTrack sel := by
  simp only [step]
  split
  · exact h
  · refine h.change fun attached name hname => ?_
    rw [mem_deliver_newLink, managed_add, hname]

theorem OnTrack.remove {s : System} (h : s.OnTrack sel) (gone kind : String) :
    (s.step sel (.remove gone kind)).OnTrack sel := by
  simp only [step]
  split
  · refine h.change fun attached name hname => ?_
    rw [mem_deliver_delLink, managed_remove, hname]
    -- an interface that is not selected is not attached, so its removal need not be seen
    exact and_congr_right fun hmanaged => forall_prop_of_true hmanaged.1
  · exact h

theorem OnTrack.run {s : System} (h : s.OnTrack sel) (hin : s.SubscribesInTime sel .run) :
    (s.step sel .run).OnTrack sel := by
  obtain ⟨links, attached, phase, updates⟩ := s
  match phase, updates with
  | .list, _ =>
    obtain ⟨rfl, hupdates⟩ := h
    refine ⟨fun name => ?_, hupdates⟩
    change name ∈ reconcile sel links ↔ name ∈ (∅ : Finset String) ∨ name ∈ reconcile sel links
    simp only [Finset.notMem_empty, false_or]
  | .attach ifaces (ifName :: todo), _ =>
    refine ⟨fun name => ?_, h.2⟩
    change name ∈ ifaces ↔ name ∈ insert ifName attached ∨ name ∈ todo
    rw [h.1 name, List.mem_cons, Finset.mem_insert]
    exact or_left_comm.trans or_assoc.symm
  | .attach ifaces [], updates =>
    obtain ⟨hlisted, rfl⟩ := h
    intro name
    have attached_iff : name ∈ attached ↔ name ∈ ifaces := by simp [hlisted]
    exact attached_iff.trans ((hin ifaces rfl rfl name).trans mem_reconcile)
  | .wait, [] => exact h
  | .wait, _ :: _ => exact h

theorem OnTrack.step {s : System} (h : s.OnTrack sel) {e : Step} (hin : s.SubscribesInTime sel e) :
    (s.step sel e).OnTrack sel := by
  cases e with
  | add link => exact h.add link
  | remove gone kind => exact h.remove gone kind
  | run => exact h.run hin

/-- Nothing is undelivered right after the subscription. -/
theorem OnTrack.not_inSync {s : System} (h : s.OnTrack sel) {e : Step} (hlate : ¬s.SubscribesInTime sel e) :
    ¬(s.step sel e).InSync sel := by
  intro hsync
  refine hlate fun ifaces hphase he name => ?_
  subst he
  obtain ⟨links, attached, phase, updates⟩ := s
  obtain rfl : phase = .attach ifaces [] := hphase
  obtain ⟨hlisted, rfl⟩ := h
  have attached_iff : name ∈ attached ↔ name ∈ ifaces := by simp [hlisted]
  exact attached_iff.symm.trans ((hsync ⟨rfl, rfl⟩ name).trans mem_reconcile.symm)

end System

/-! ### Whole runs -/

/-- Whenever all updates are delivered, the attached interfaces are the managed ones, exactly if the subscription finds
    the links that were listed. -/
theorem attached_iff_managed (sel : Selector) (links : List Link) (steps : List Step) :
    Always (System.step sel) (System.InSync sel) (System.start links) steps ↔
      Steps (System.step sel) (System.SubscribesInTime sel) (System.start links) steps :=
  always_iff_steps (I := System.OnTrack sel) (fun _ h => h.inSync)
    (fun _ _ h hin => h.step hin) (fun _ _ h hlate => h.not_inSync hlate) (System.onTrack_start links) steps

/-- An interface that appears after the listing and before the subscription is not attached, and no update is due. -/
theorem link_added_before_subscription :
    let steps : List Step := [.run, .add ⟨"veth0", vethKind⟩, .run]
    let s := execute (System.step (prefixSelector "veth")) (System.start []) steps
    s.Idle ∧ Managed (prefixSelector "veth") s.links "veth0" ∧ "veth0" ∉ s.attached := by
  decide +kernel

end Meridian.Linkwatch
