import Mathlib.Data.Nat.ModEq
import Meridian.Agent.Metrics

/-! The series of denied flows. A series has no source port and no addresses, so several entries of the map may belong to
    one; the exporter sends a metric for each. -/

namespace Meridian.Metrics
open Lib Bpf Wire

/-! ### Labels -/

theorem decimal_ne_of_readDecimal {s : String} (h : readDecimal s = none) (n : Nat) : decimal n ≠ s := by
  rintro rfl
  rw [readDecimal_decimal] at h
  cases h

theorem protocolLabel_injective : Function.Injective protocolLabel := by
  have hcases : ∀ p : UInt8, p = 6 ∧ protocolLabel p = "tcp" ∨ p = 17 ∧ protocolLabel p = "udp" ∨
      protocolLabel p = decimal p.toNat := by
    intro p
    unfold protocolLabel
    split
    · exact .inl ⟨‹_›, rfl⟩
    · split
      · exact .inr (.inl ⟨‹_›, rfl⟩)
      · exact .inr (.inr rfl)
  have htcp := decimal_ne_of_readDecimal (s := "tcp") (by decide)
  have hudp := decimal_ne_of_readDecimal (s := "udp") (by decide)
  intro p p' h
  rcases hcases p with ⟨rfl, hp⟩ | ⟨rfl, hp⟩ | hp <;> rcases hcases p' with ⟨rfl, hp'⟩ | ⟨rfl, hp'⟩ | hp'
  · rfl
  · exact absurd h (by decide)
  · exact absurd (hp'.symm.trans (h.symm.trans hp)) (htcp _)
  · exact absurd h (by decide)
  · rfl
  · exact absurd (hp'.symm.trans (h.symm.trans hp)) (hudp _)
  · exact absurd (hp.symm.trans (h.trans hp')) (htcp _)
  · exact absurd (hp.symm.trans (h.trans hp')) (hudp _)
  · exact UInt8.toNat_inj.mp (decimal_injective (hp.symm.trans (h.trans hp')))

/-- The reasons with a name of their own are one to five. -/
def SameReason (reason reason' : UInt32) : Prop := reason = reason' ∨ reason ∉ [1, 2, 3, 4, 5] ∧ reason' ∉ [1, 2, 3, 4, 5]

theorem dropReasonLabel_eq_iff {reason reason' : UInt32} :
    dropReasonLabel reason = dropReasonLabel reason' ↔ SameReason reason reason' := by
  have hother : ∀ r : UInt32, r ∉ [1, 2, 3, 4, 5] → dropReasonLabel r = "unspecified" := by
    intro r hr
    simp only [List.mem_cons, List.not_mem_nil, or_false, not_or] at hr
    obtain ⟨h1, h2, h3, h4, h5⟩ := hr
    simp only [dropReasonLabel, h1, h2, h3, h4, h5, if_false]
  have hnamed : ∀ r ∈ [1, 2, 3, 4, 5], dropReasonLabel r ≠ "unspecified" ∧
      ∀ r' ∈ [1, 2, 3, 4, 5], dropReasonLabel r = dropReasonLabel r' → r = r' := by
    simp only [List.forall_mem_cons, List.not_mem_nil, false_imp_iff, implies_true, and_true]
    decide +kernel
  constructor
  · intro h
    by_cases hr : reason ∈ [1, 2, 3, 4, 5] <;> by_cases hr' : reason' ∈ [1, 2, 3, 4, 5]
    · exact .inl ((hnamed _ hr).2 _ hr' h)
    · exact absurd (h.trans (hother _ hr')) (hnamed _ hr).1
    · exact absurd (h.symm.trans (hother _ hr)) (hnamed _ hr').1
    · exact .inr ⟨hr, hr'⟩
  · rintro (rfl | ⟨hr, hr'⟩)
    · rfl
    · rw [hother _ hr, hother _ hr']

/-! ### Series -/

def Metric.labels : Metric → Option Labels
  | .invalid _ => none
  | .counter _ labels => some labels

section
variable (r : MapDeniedReader)

def seriesOf (key : FlowKey) (value : DeniedFlowInfo) : Labels := flowLabels (r.deniedFlow key value)

/-- The drops of all entries with these labels. -/
def dropsIn (entries : List (Sigma fun _ : FlowKey => DeniedFlowInfo)) (labels : Labels) : Nat :=
  ((entries.filter fun x => seriesOf r x.1 x.2 = labels).map fun x => x.2.count.toNat).sum

/-- Two entries that differ in the source port and in addresses with the same names only, and perhaps in reasons that
    have no name. -/
structure SameSeries (key : FlowKey) (value : DeniedFlowInfo) (key' : FlowKey) (value' : DeniedFlowInfo) : Prop where
  source : (r.deniedFlow key value).srcIdentity = (r.deniedFlow key' value').srcIdentity
  destination : (r.deniedFlow key value).dstIdentity = (r.deniedFlow key' value').dstIdentity
  dstPort : key.dstPort = key'.dstPort
  proto : key.proto = key'.proto
  reason : SameReason value.reason value'.reason

variable {r}

theorem seriesOf_eq_iff {key key' : FlowKey} {value value' : DeniedFlowInfo} :
    seriesOf r key value = seriesOf r key' value' ↔ SameSeries r key value key' value' := by
  simp only [seriesOf, flowLabels, Labels.mk.injEq]
  constructor
  · rintro ⟨hsrc, hdst, hport, hproto, hreason⟩
    refine ⟨hsrc, hdst, ?_, protocolLabel_injective hproto, dropReasonLabel_eq_iff.mp hreason⟩
    exact swapU16_inj (UInt16.toNat_inj.mp (decimal_injective hport))
  · rintro ⟨hsrc, hdst, hport, hproto, hreason⟩
    refine ⟨hsrc, hdst, ?_, congrArg protocolLabel hproto, dropReasonLabel_eq_iff.mpr hreason⟩
    exact congrArg (fun port => decimal (swapU16 port).toNat) hport

end

/-- The metrics of an export have different labels, those of every entry are among them, and each counts all drops with
    its labels. -/
structure ExactExport (r : MapDeniedReader) (entries : List (Sigma fun _ : FlowKey => DeniedFlowInfo))
    (metrics : List Metric) : Prop where
  distinct : (metrics.map Metric.labels).Nodup
  complete : ∀ x ∈ entries, ∃ value, .counter value (seriesOf r x.1 x.2) ∈ metrics
  total : ∀ value labels, .counter value labels ∈ metrics → value = dropsIn r entries labels

theorem collect_eq {r : MapDeniedReader} {entries : AList fun _ : FlowKey => DeniedFlowInfo}
    (h : r.deniedMap = some entries) :
    collect (some r) false = entries.entries.map fun x => .counter x.2.count.toNat (seriesOf r x.1 x.2) := by
  simp only [collect, MapDeniedReader.readAll, h, Bool.false_eq_true, if_false, List.map_map]
  rfl

/-- Where entries with the same labels are the same, each is alone in its series. -/
theorem dropsIn_of_injective {r : MapDeniedReader} {l : List (Sigma fun _ : FlowKey => DeniedFlowInfo)} (hnodup : l.Nodup)
    (hinj : ∀ x ∈ l, ∀ y ∈ l, seriesOf r x.1 x.2 = seriesOf r y.1 y.2 → x = y)
    {x : Sigma fun _ : FlowKey => DeniedFlowInfo} (hx : x ∈ l) : dropsIn r l (seriesOf r x.1 x.2) = x.2.count.toNat := by
  have halone : l.filter (fun y => seriesOf r y.1 y.2 = seriesOf r x.1 x.2) = l.filter (fun y => y = x) := by
    refine List.filter_congr fun y hy => ?_
    rw [decide_eq_decide]
    exact ⟨hinj y hy x hx, fun h => by rw [h]⟩
  rw [dropsIn, halone, List.filter_eq, List.count_eq_one_of_mem hnodup hx, List.replicate_one, List.map_singleton,
    List.sum_singleton]

/-- The exporter sends every series once, with all its drops, exactly when no two entries of the map belong to one
    series. -/
theorem denied_series_exact_iff (entries : AList fun _ : FlowKey => DeniedFlowInfo)
    (identityMap : Option (Table UInt32 UInt32)) (resolver : Option Resolver) :
    ExactExport ⟨some entries, identityMap, resolver⟩ entries.entries
        (collect (some ⟨some entries, identityMap, resolver⟩) false) ↔
      ∀ key value key' value', entries.lookup key = some value → entries.lookup key' = some value' →
        SameSeries ⟨some entries, identityMap, resolver⟩ key value key' value' → key = key' := by
  have hcollect := collect_eq (r := ⟨some entries, identityMap, resolver⟩) rfl
  generalize (⟨some entries, identityMap, resolver⟩ : MapDeniedReader) = r at hcollect ⊢
  have hnodup := entries.nodupKeys.nodup
  have hlabels : ((collect (some r) false).map Metric.labels).Nodup ↔
      ∀ x ∈ entries.entries, ∀ y ∈ entries.entries, seriesOf r x.1 x.2 = seriesOf r y.1 y.2 → x = y := by
    rw [hcollect, List.map_map, List.nodup_map_iff_inj_on hnodup]
    simp only [Function.comp_apply, Metric.labels, Option.some.injEq]
  have hkeys : (∀ x ∈ entries.entries, ∀ y ∈ entries.entries, seriesOf r x.1 x.2 = seriesOf r y.1 y.2 → x = y) ↔
      ∀ key value key' value', entries.lookup key = some value → entries.lookup key' = some value' →
        SameSeries r key value key' value' → key = key' := by
    constructor
    · intro h key value key' value' hkey hkey' hsame
      have hx := h ⟨key, value⟩ (AList.mem_lookup_iff.mp hkey) ⟨key', value'⟩ (AList.mem_lookup_iff.mp hkey')
        (seriesOf_eq_iff.mpr hsame)
      exact congrArg Sigma.fst hx
    · rintro h ⟨key, value⟩ hx ⟨key', value'⟩ hy hsame
      have hkey := AList.mem_lookup_iff.mpr hx
      have hkey' := AList.mem_lookup_iff.mpr hy
      obtain rfl := h key value key' value' hkey hkey' (seriesOf_eq_iff.mp hsame)
      rw [Option.mem_unique hkey hkey']
  rw [← hkeys]
  refine ⟨fun h => hlabels.mp h.distinct, fun h => ⟨hlabels.mpr h, fun x hx => ?_, fun value labels hmem => ?_⟩⟩
  · rw [hcollect]
    exact ⟨_, List.mem_map_of_mem hx⟩
  · rw [hcollect, List.mem_map] at hmem
    obtain ⟨x, hx, heq⟩ := hmem
    cases heq
    exact (dropsIn_of_injective hnodup h hx).symm

/-- Two connections of one client to the same port are dropped. -/
def twoConnections : AList fun _ : FlowKey => DeniedFlowInfo :=
  AList.insert ⟨0x0100000a, 0x0200000a, 0x409c, 0x901f, 6⟩ ⟨5, 1, 2⟩
    (AList.insert ⟨0x0100000a, 0x0200000a, 0x419c, 0x901f, 6⟩ ⟨7, 1, 2⟩ ∅)

theorem two_connections_duplicate :
    ¬ExactExport ⟨some twoConnections, none, none⟩ twoConnections.entries
        (collect (some ⟨some twoConnections, none, none⟩) false) ∧
      collect (some ⟨some twoConnections, none, none⟩) false =
        [.counter 1 ⟨"unknown", "unknown", "8080", "tcp", "policy_miss"⟩,
          .counter 1 ⟨"unknown", "unknown", "8080", "tcp", "policy_miss"⟩] := by
  have hcollect : collect (some ⟨some twoConnections, none, none⟩) false =
      [.counter 1 ⟨"unknown", "unknown", "8080", "tcp", "policy_miss"⟩,
        .counter 1 ⟨"unknown", "unknown", "8080", "tcp", "policy_miss"⟩] := by decide +kernel
  refine ⟨fun h => ?_, hcollect⟩
  have hdistinct := h.distinct
  rw [hcollect] at hdistinct
  exact absurd hdistinct (by decide)

end Meridian.Metrics
