import Meridian.Theorems.FlowHistory

/-! Snapshots and exports of the aggregator: a snapshot has the retained pairs in their order, and the export has every pair
    of names once, with nothing added and nothing lost. -/

namespace Meridian.Telemetry
open Lib Metrics

/-! ### Snapshots -/

theorem Aggregate.less_iff {x y : Aggregate} : x.less y = true ↔
    x.srcIdentity < y.srcIdentity ∨ x.srcIdentity = y.srcIdentity ∧ x.dstIdentity < y.dstIdentity := by
  by_cases h : x.srcIdentity = y.srcIdentity <;> simp [Aggregate.less, h]

theorem Aggregate.less_total (x y : Aggregate) : x.less y = true ∨ x.pair = y.pair ∨ y.less x = true := by
  simp only [Aggregate.less_iff, Aggregate.pair, FlowPair.mk.injEq, UInt32.lt_iff_toNat_lt, ← UInt32.toNat_inj]
  omega

instance : Std.Total fun x y : Aggregate => y.less x = false := ⟨fun x y => by
  simp only [← Bool.not_eq_true, Aggregate.less_iff, UInt32.lt_iff_toNat_lt, ← UInt32.toNat_inj]
  omega⟩

instance : IsTrans Aggregate fun x y => y.less x = false := ⟨fun x y z => by
  simp only [← Bool.not_eq_true, Aggregate.less_iff, UInt32.lt_iff_toNat_lt, ← UInt32.toNat_inj]
  omega⟩

namespace Aggregator

variable {cap : Nat} {a : Aggregator} {l : List (FlowPair × List Event)}

theorem Tracks.snapshot_values (h : Tracks cap a l) :
    a.snapshot.Perm (a.lru.map fun element => (a.heap element).value) := by
  have hlinks := h.links.map fun x => (a.heap x.2).value
  rw [List.map_map] at hlinks
  exact (List.perm_insertionSort _ _).trans hlinks

theorem Tracks.snapshot_perm (h : Tracks cap a l) : a.snapshot.Perm (l.map fun x => aggregateOf x.1 x.2) := by
  have hview := congrArg (List.map AggregateEntry.value) h.view
  rw [List.map_map, List.map_map] at hview
  exact h.snapshot_values.trans (.of_eq hview)

theorem Tracks.snapshot_pairs (h : Tracks cap a l) : (a.snapshot.map Aggregate.pair).Perm (Lru.keys l) := by
  have hperm := h.snapshot_perm.map Aggregate.pair
  rw [List.map_map] at hperm
  exact hperm

theorem Tracks.snapshot_sorted (h : Tracks cap a l) : a.snapshot.Pairwise fun x y => x.less y = true := by
  have hsorted : a.snapshot.Pairwise fun x y => y.less x = false := List.pairwise_insertionSort _ _
  have hdistinct : a.snapshot.Pairwise fun x y => x.pair ≠ y.pair :=
    List.pairwise_map.mp (h.snapshot_pairs.symm.nodup h.keys_nodup)
  refine hsorted.imp₂ (fun x y hle hne => ?_) hdistinct
  rcases Aggregate.less_total x y with hless | heq | hless
  · exact hless
  · exact absurd heq hne
  · exact absurd hless (Bool.eq_false_iff.mp hle)

end Aggregator

/-! ### Merging -/

def AggregateValue.get (v : AggregateValue) : Counter → UInt64
  | .allow => v.allow
  | .deny => v.deny
  | .bytes => v.bytes

/-- The value under a pair of names, zero where there is none. -/
def valueAt (merged : AList fun _ : LabelKey => AggregateValue) (c : Counter) (labels : LabelKey) : UInt64 :=
  ((merged.lookup labels).getD ⟨0, 0, 0⟩).get c

/-- The values under all names. -/
def mergedTotal (merged : AList fun _ : LabelKey => AggregateValue) (c : Counter) : Nat :=
  (merged.entries.map fun x => (x.2.get c).toNat).sum

section
variable (resolver : Option Resolver) (merged : AList fun _ : LabelKey => AggregateValue)

theorem valueAt_mergeOne (x : Aggregate) (c : Counter) (labels : LabelKey) :
    valueAt (mergeOne resolver merged x) c labels =
      valueAt merged c labels + if labelsOf resolver x = labels then x.get c else 0 := by
  by_cases h : labelsOf resolver x = labels
  · subst h
    rw [if_pos rfl, valueAt, mergeOne, AList.lookup_insert]
    cases c <;> rfl
  · rw [if_neg h, valueAt, mergeOne, AList.lookup_insert_ne (Ne.symm h), UInt64.add_zero]
    rfl

theorem mergedTotal_kerase (c : Counter) (labels : LabelKey) :
    mergedTotal merged c = (valueAt merged c labels).toNat +
      ((merged.entries.kerase labels).map fun x => (x.2.get c).toNat).sum := by
  by_cases h : labels ∈ merged
  · obtain ⟨v, l₁, l₂, hnot, hentries, hkerase⟩ := List.exists_of_kerase (AList.mem_keys.mp h)
    have hlookup : merged.lookup labels = some v := by
      refine AList.mem_lookup_iff.mpr ?_
      rw [hentries]
      exact List.mem_append_right _ List.mem_cons_self
    rw [mergedTotal, valueAt, hlookup, hkerase, hentries]
    simp only [List.map_append, List.map_cons, List.sum_append, List.sum_cons, Option.getD_some]
    omega
  · rw [mergedTotal, valueAt, AList.lookup_eq_none.mpr h, List.kerase_of_notMem_keys h]
    cases c <;> simp [AggregateValue.get]

/-- An aggregate adds its own value, up to the width of a counter. -/
theorem mergedTotal_mergeOne (x : Aggregate) (c : Counter) :
    mergedTotal (mergeOne resolver merged x) c ≡ mergedTotal merged c + (x.get c).toNat [MOD 2 ^ 64] ∧
      mergedTotal (mergeOne resolver merged x) c ≤ mergedTotal merged c + (x.get c).toNat := by
  have hbefore := mergedTotal_kerase merged c (labelsOf resolver x)
  have hvalue := valueAt_mergeOne resolver merged x c (labelsOf resolver x)
  have hafter := mergedTotal_kerase (mergeOne resolver merged x) c (labelsOf resolver x)
  have hkerase : (mergeOne resolver merged x).entries.kerase (labelsOf resolver x) =
      merged.entries.kerase (labelsOf resolver x) := by
    exact List.kerase_cons_eq rfl
  rw [hvalue, if_pos rfl, hkerase, UInt64.toNat_add] at hafter
  rw [hafter, hbefore]
  have hle := Nat.mod_le ((valueAt merged c (labelsOf resolver x)).toNat + (x.get c).toNat) (2 ^ 64)
  refine ⟨?_, by omega⟩
  rw [Nat.add_right_comm]
  exact (Nat.mod_modEq _ _).add_right _

theorem mergedTotal_foldl (xs : List Aggregate) (c : Counter) :
    mergedTotal (xs.foldl (mergeOne resolver) merged) c ≡
        mergedTotal merged c + (xs.map fun x => (x.get c).toNat).sum [MOD 2 ^ 64] ∧
      mergedTotal (xs.foldl (mergeOne resolver) merged) c ≤
        mergedTotal merged c + (xs.map fun x => (x.get c).toNat).sum := by
  induction xs generalizing merged with
  | nil => exact ⟨rfl, Nat.le_refl _⟩
  | cons x xs ih =>
    obtain ⟨hmod, hle⟩ := mergedTotal_mergeOne resolver merged x c
    obtain ⟨hmods, hles⟩ := ih (mergeOne resolver merged x)
    rw [List.foldl_cons, List.map_cons, List.sum_cons, ← Nat.add_assoc]
    exact ⟨hmods.trans (hmod.add_right _), hles.trans (Nat.add_le_add_right hle _)⟩

theorem mem_foldl_mergeOne {xs : List Aggregate} {labels : LabelKey}
    (h : labels ∈ merged ∨ ∃ x ∈ xs, labelsOf resolver x = labels) : labels ∈ xs.foldl (mergeOne resolver) merged := by
  induction xs generalizing merged with
  | nil => simpa using h
  | cons x xs ih =>
    refine ih _ ?_
    rw [mergeOne, AList.mem_insert]
    rcases h with h | ⟨y, hy, hlabels⟩
    · exact .inl (.inr h)
    · rcases List.mem_cons.mp hy with rfl | hy
      · exact .inl (.inl hlabels.symm)
      · exact .inr ⟨y, hy, hlabels⟩

end

/-! ### The export -/

/-- The values of a family. -/
def exportTotal (metrics : List FlowMetric) (c : Counter) : Nat :=
  ((metrics.filter (·.desc = c)).map (·.value.toNat)).sum

theorem mem_metricsOf {x : Sigma fun _ : LabelKey => AggregateValue} {c : Counter} {labels : LabelKey} {v : UInt64} :
    ⟨c, labels, v⟩ ∈ metricsOf x ↔ labels = x.1 ∧ v = x.2.get c := by
  cases c <;> simp [metricsOf, AggregateValue.get]

theorem exportTotal_collect (resolver : Option Resolver) (a : Aggregator) (c : Counter) :
    exportTotal (collect resolver (some a)) c = mergedTotal (merge resolver a.snapshot) c := by
  have hfamily : ∀ x, (metricsOf x).filter (·.desc = c) = [⟨c, x.1, x.2.get c⟩] := by
    intro x
    cases c <;> rfl
  rw [exportTotal, collect, List.filter_flatMap, funext hfamily, ← List.map_eq_flatMap, List.map_map]
  rfl

theorem series_nodup (resolver : Option Resolver) (a : Aggregator) :
    ((collect resolver (some a)).map fun m => (m.desc, m.labels)).Nodup := by
  rw [collect, List.map_flatMap, List.nodup_flatMap]
  constructor
  · intro x _
    simp [metricsOf]
  · have hkeys : (merge resolver a.snapshot).entries.Pairwise fun x y => x.1 ≠ y.1 :=
      List.nodupKeys_iff_pairwise.mp (merge resolver a.snapshot).nodupKeys
    refine hkeys.imp fun hne series hx hy => hne ?_
    obtain ⟨⟨c, labels, v⟩, hm, rfl⟩ := List.mem_map.mp hx
    obtain ⟨⟨c', labels', v'⟩, hm', heq⟩ := List.mem_map.mp hy
    have hlabels : labels' = labels := congrArg Prod.snd heq
    rw [← (mem_metricsOf.mp hm).1, ← (mem_metricsOf.mp hm').1, hlabels]

/-- The values of the retained pairs. -/
def Aggregator.retainedTotal (a : Aggregator) (c : Counter) : Nat :=
  (a.lru.map fun element => ((a.heap element).value.get c).toNat).sum

/-- The names of every retained pair are sent once in each family, and the values of a family are those of the retained
    pairs. -/
structure ConservingExport (resolver : Option Resolver) (a : Aggregator) (metrics : List FlowMetric) : Prop where
  once : (metrics.map fun m => (m.desc, m.labels)).Nodup
  complete : ∀ element ∈ a.lru, ∀ c, ∃ value, ⟨c, labelsOf resolver (a.heap element).value, value⟩ ∈ metrics
  total : ∀ c, exportTotal metrics c ≡ a.retainedTotal c [MOD 2 ^ 64]
  exact : ∀ c, a.retainedTotal c < 2 ^ 64 → exportTotal metrics c = a.retainedTotal c

theorem Aggregator.Tracks.conservingExport {cap : Nat} {a : Aggregator} {l : List (FlowPair × List Event)}
    (h : Tracks cap a l) (resolver : Option Resolver) : ConservingExport resolver a (collect resolver (some a)) := by
  have hsum : ∀ c, (a.snapshot.map fun x => (x.get c).toNat).sum = a.retainedTotal c := by
    intro c
    rw [(h.snapshot_values.map _).sum_eq, List.map_map]
    rfl
  have htotal : ∀ c, exportTotal (collect resolver (some a)) c ≡ a.retainedTotal c [MOD 2 ^ 64] ∧
      exportTotal (collect resolver (some a)) c ≤ a.retainedTotal c := by
    intro c
    have hfold := mergedTotal_foldl resolver ∅ a.snapshot c
    rw [hsum, show mergedTotal ∅ c = 0 from rfl, Nat.zero_add] at hfold
    rw [exportTotal_collect]
    exact hfold
  refine ⟨series_nodup resolver a, fun element hmem c => ?_, fun c => (htotal c).1, fun c hlt => ?_⟩
  · have hsnapshot := h.snapshot_values.mem_iff.mpr (List.mem_map_of_mem hmem)
    have hmerged := mem_foldl_mergeOne resolver ∅ (.inr ⟨_, hsnapshot, rfl⟩)
    obtain ⟨x, hx, hlabels⟩ := List.mem_map.mp hmerged
    exact ⟨x.2.get c, List.mem_flatMap.mpr ⟨x, hx, mem_metricsOf.mpr ⟨hlabels.symm, rfl⟩⟩⟩
  · exact (htotal c).1.eq_of_lt_of_lt ((htotal c).2.trans_lt hlt) hlt

/-! ### Runs -/

/-- The aggregator after these events. -/
def aggregatorAfter (capacity : Int) (events : List Event) : Aggregator :=
  execute Aggregator.handle (.new capacity) events

/-- The table that the aggregator keeps the counters of. -/
def historyAfter (capacity : Int) (events : List Event) : List (FlowPair × List Event) :=
  execute (Lru.note (Aggregator.new capacity).capacity.toNat Event.pair) [] events

theorem capacity_pos (capacity : Int) : 0 < (Aggregator.new capacity).capacity.toNat := by
  simp only [Aggregator.new, defaultPairCapacity]
  split <;> omega

theorem aggregatorAfter_tracks (capacity : Int) (events : List Event) :
    Aggregator.Tracks (Aggregator.new capacity).capacity.toNat (aggregatorAfter capacity events)
      (historyAfter capacity events) :=
  (Aggregator.Tracks.start capacity).run (capacity_pos capacity) (Nat.zero_le _) events

/-- The first of the later events inserted the pair, and it has been kept since. -/
structure InsertedSince (capacity : Int) (before later : List Event) (p : FlowPair) : Prop where
  absent : p ∉ (aggregatorAfter capacity before).entries
  kept : ∀ seg, seg <+: later → seg ≠ [] → p ∈ (aggregatorAfter capacity (before ++ seg)).entries

theorem insertedSince_of_putSince {capacity : Int} {before later : List Event} {p : FlowPair}
    (h : Lru.PutSince (Aggregator.new capacity).capacity.toNat Event.pair before later p) :
    InsertedSince capacity before later p where
  absent hmem := h.absent ((aggregatorAfter_tracks capacity before).mem_entries.mp hmem)
  kept seg hseg hne := (aggregatorAfter_tracks capacity (before ++ seg)).mem_entries.mpr (h.kept seg hseg hne)

theorem counted_reverse (es : List Event) (c : Counter) : counted es.reverse c = counted es c := by
  rw [counted, counted, List.map_reverse, List.sum_reverse]

/-- The counters of an element are those of the events since its pair was inserted. -/
theorem counters_since {capacity : Int} {events : List Event} {a : Aggregator} (ha : a = aggregatorAfter capacity events)
    {element : Nat} (hmem : element ∈ a.lru) :
    ∃ before later, events = before ++ later ∧ InsertedSince capacity before later (a.heap element).key ∧
      ∀ c, (a.heap element).value.get c = .ofNat (counted (later.filter (·.pair = (a.heap element).key)) c) := by
  have htracks := aggregatorAfter_tracks capacity events
  rw [← ha] at htracks
  have hentry : a.heap element ∈ (historyAfter capacity events).map entryOf := by
    rw [← htracks.view]
    exact List.mem_map_of_mem hmem
  obtain ⟨⟨p, es⟩, hp, heq⟩ := List.mem_map.mp hentry
  obtain ⟨before, later, hevents, hsince, rfl⟩ := Lru.mem_run hp
  rw [← heq]
  refine ⟨before, later, hevents, insertedSince_of_putSince hsince, fun c => ?_⟩
  rw [← counted_reverse]
  exact aggregateOf_get _ _ c

/-- The pairs of the list, the one seen last first. -/
def Aggregator.retained (a : Aggregator) : List FlowPair := a.lru.map fun element => (a.heap element).key

/-- The map and the list hold the same pairs, the most recent ones, each with its events since it was inserted; a snapshot
    has them in order. -/
structure ExactLru (capacity : Int) (events : List Event) (a : Aggregator) : Prop where
  same : a.entries.keys.Perm a.retained
  once : a.retained.Nodup
  bounded : a.size ≤ capacity
  -- the last place of each pair in the order of the events counts
  recent : a.retained = (events.map Event.pair).dedup.reverse.take capacity.toNat
  counters : ∀ element ∈ a.lru, ∃ before later, events = before ++ later ∧
    InsertedSince capacity before later (a.heap element).key ∧
    ∀ c, (a.heap element).value.get c = .ofNat (counted (later.filter (·.pair = (a.heap element).key)) c)
  snapshot : a.snapshot.Perm (a.lru.map fun element => (a.heap element).value)
  sorted : a.snapshot.Pairwise fun x y => x.less y = true

/-- After any events, the aggregator is exact and whatever it exports is conserved. -/
theorem aggregator_exact {capacity : Int} (h : 1 ≤ capacity) (events : List Event) :
    ExactLru capacity events (aggregatorAfter capacity events) ∧
      ∀ resolver, ConservingExport resolver (aggregatorAfter capacity events)
        (collect resolver (some (aggregatorAfter capacity events))) := by
  have htracks := aggregatorAfter_tracks capacity events
  have hcapacity : (Aggregator.new capacity).capacity = capacity := if_neg (by omega)
  have hretained : (aggregatorAfter capacity events).retained = Lru.keys (historyAfter capacity events) := htracks.lru_keys
  have hrecent : Lru.keys (historyAfter capacity events) = (events.map Event.pair).dedup.reverse.take capacity.toNat := by
    rw [historyAfter, Lru.keys_run (capacity_pos capacity), hcapacity]
  refine ⟨⟨?_, ?_, ?_, hretained.trans hrecent, fun _ => counters_since rfl, htracks.snapshot_values,
    htracks.snapshot_sorted⟩, htracks.conservingExport⟩
  · rw [hretained]
    exact htracks.entries_keys
  · rw [hretained]
    exact htracks.keys_nodup
  · have hlength := congrArg List.length hrecent
    rw [Lru.keys, List.length_map, List.length_take] at hlength
    rw [htracks.size_eq]
    omega

/-- An event between two identities. -/
def eventOf (src dst : UInt32) (verdict : UInt8) (bytes : UInt32) : Event :=
  ⟨none, 0, ⟨0, 0, 0, 0⟩, ⟨0, 0, 0, 0⟩, 0, 0, 6, verdict, src, dst, bytes, 0, 0⟩

/-- The second pair is evicted: the first one was seen again. -/
theorem aggregator_exact_evicting :
    ExactLru 2 [eventOf 1 2 0 10, eventOf 3 4 1 20, eventOf 1 2 1 30, eventOf 5 6 0 40]
        (aggregatorAfter 2 [eventOf 1 2 0 10, eventOf 3 4 1 20, eventOf 1 2 1 30, eventOf 5 6 0 40]) ∧
      (aggregatorAfter 2 [eventOf 1 2 0 10, eventOf 3 4 1 20, eventOf 1 2 1 30, eventOf 5 6 0 40]).snapshot =
        [⟨1, 2, 1, 1, 40⟩, ⟨5, 6, 1, 0, 40⟩] :=
  ⟨(aggregator_exact (by decide) _).1, by decide +kernel⟩

end Meridian.Telemetry
