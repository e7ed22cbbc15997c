import Meridian.Theorems.FlowExport

/-! Exported counters over time. A series is a pair of names, and several pairs of identities may share it. An eviction
    takes what the evicted pair has counted out of its series, so a counter goes back between two collections exactly when
    the evictions take more from it than the events add. -/

namespace Meridian.Telemetry
open Lib Metrics

/-! ### The value of a series -/

def pairLabels (resolver : Option Resolver) (p : FlowPair) : LabelKey :=
  ⟨resolveLabel resolver p.src, resolveLabel resolver p.dst⟩

/-- What an event adds to a counter of a series. -/
def weight (resolver : Option Resolver) (labels : LabelKey) (c : Counter) (p : FlowPair) (e : Event) : Nat :=
  if pairLabels resolver p = labels then e.adds c else 0

theorem weight_sum (resolver : Option Resolver) (labels : LabelKey) (c : Counter) (p : FlowPair) (es : List Event) :
    (es.map (weight resolver labels c p)).sum = if pairLabels resolver p = labels then counted es c else 0 := by
  by_cases h : pairLabels resolver p = labels
  · have hweight : weight resolver labels c p = fun e => e.adds c := funext fun _ => if_pos h
    rw [if_pos h, hweight]
    rfl
  · have hweight : weight resolver labels c p = fun _ => 0 := funext fun _ => if_neg h
    rw [if_neg h, hweight]
    simp

section
variable (resolver : Option Resolver) (labels : LabelKey) (c : Counter)

theorem valueAt_foldl (merged : AList fun _ : LabelKey => AggregateValue) (xs : List Aggregate) :
    valueAt (xs.foldl (mergeOne resolver) merged) c labels = valueAt merged c labels +
      .ofNat (xs.map fun x => if labelsOf resolver x = labels then (x.get c).toNat else 0).sum := by
  induction xs generalizing merged with
  | nil => exact (UInt64.add_zero _).symm
  | cons x xs ih =>
    rw [List.foldl_cons, ih, valueAt_mergeOne, List.map_cons, List.sum_cons, UInt64.ofNat_add, UInt64.add_assoc,
      apply_ite UInt64.ofNat, UInt64.ofNat_toNat]
    rfl

theorem ofNat_total (l : List (FlowPair × List Event)) :
    UInt64.ofNat ((l.map fun x => aggregateOf x.1 x.2).map fun x =>
      if labelsOf resolver x = labels then (x.get c).toNat else 0).sum =
    .ofNat (Lru.total (weight resolver labels c) l) := by
  induction l with
  | nil => rfl
  | cons x l ih =>
    obtain ⟨p, es⟩ := x
    have hlabels : labelsOf resolver (aggregateOf p es) = pairLabels resolver p := rfl
    rw [List.map_cons, List.map_cons, List.sum_cons, UInt64.ofNat_add, ih, Lru.total_cons, UInt64.ofNat_add, weight_sum,
      hlabels, aggregateOf_get, apply_ite UInt64.ofNat, apply_ite UInt64.ofNat, UInt64.ofNat_toNat]

/-- The merged value of a series is what its pairs have counted since they were inserted. -/
theorem Aggregator.Tracks.valueAt_merge {cap : Nat} {a : Aggregator} {l : List (FlowPair × List Event)}
    (h : Tracks cap a l) :
    valueAt (merge resolver a.snapshot) c labels = .ofNat (Lru.total (weight resolver labels c) l) := by
  rw [merge, valueAt_foldl, (h.snapshot_perm.map _).sum_eq, ofNat_total]
  cases c <;> exact UInt64.zero_add _

end

theorem value_of_mem_collect {resolver : Option Resolver} {a : Aggregator} {labels : LabelKey} {c : Counter} {v : UInt64}
    (h : ⟨c, labels, v⟩ ∈ collect resolver (some a)) : v = valueAt (merge resolver a.snapshot) c labels := by
  obtain ⟨⟨labels', value⟩, hmem, hm⟩ := List.mem_flatMap.mp h
  obtain ⟨rfl, rfl⟩ := mem_metricsOf.mp hm
  have hlookup : (merge resolver a.snapshot).lookup labels = some value := AList.mem_lookup_iff.mpr hmem
  rw [valueAt, hlookup]
  rfl

/-! ### Two collections -/

inductive Call where
  | handle (e : Event)
  | collect

/-- A collection only reads. -/
def Aggregator.call (a : Aggregator) : Call → Aggregator
  | .handle e => a.handle e
  | .collect => a

def handled (calls : List Call) : List Event :=
  calls.filterMap fun
    | .handle e => some e
    | .collect => none

theorem execute_call (a : Aggregator) (calls : List Call) :
    execute Aggregator.call a calls = execute Aggregator.handle a (handled calls) := by
  induction calls generalizing a with
  | nil => rfl
  | cons call calls ih => cases call <;> exact ih _

theorem handled_between (calls : List Call) (between : List Event) :
    handled (calls ++ .collect :: between.map .handle) = handled calls ++ between := by
  simp [handled, List.filterMap_map]

section
variable (capacity : Int) (resolver : Option Resolver) (labels : LabelKey) (c : Counter)

/-- What the retained pairs of a series have counted, without a bound. -/
def seriesTotal (events : List Event) : Nat := Lru.total (weight resolver labels c) (historyAfter capacity events)

/-- What the pairs of a series had counted that the later events evict. -/
def evictedFrom (before later : List Event) : Nat :=
  Lru.lost (weight resolver labels c) (Aggregator.new capacity).capacity.toNat Event.pair (historyAfter capacity before) later

/-- What events add to a series. -/
def addedTo (events : List Event) : Nat := (events.map fun e => weight resolver labels c e.pair e).sum

theorem seriesTotal_append (before later : List Event) :
    seriesTotal capacity resolver labels c (before ++ later) + evictedFrom capacity resolver labels c before later =
      seriesTotal capacity resolver labels c before + addedTo resolver labels c later := by
  have hrun := Lru.total_run (weight resolver labels c) (aggregatorAfter_tracks capacity before).keys_nodup
    (Aggregator.new capacity).capacity.toNat Event.pair later
  rw [seriesTotal, historyAfter, execute_append]
  exact hrun

end

theorem value_eq_seriesTotal {capacity : Int} {resolver : Option Resolver} {calls : List Call} {labels : LabelKey}
    {c : Counter} {v : UInt64}
    (h : ⟨c, labels, v⟩ ∈ collect resolver (some (execute Aggregator.call (.new capacity) calls)))
    (hlt : seriesTotal capacity resolver labels c (handled calls) < 2 ^ 64) :
    v.toNat = seriesTotal capacity resolver labels c (handled calls) := by
  have htracks := aggregatorAfter_tracks capacity (handled calls)
  rw [aggregatorAfter, ← execute_call] at htracks
  rw [value_of_mem_collect h, htracks.valueAt_merge]
  exact UInt64.toNat_ofNat_of_lt hlt

/-- A counter is at least as large in the next collection exactly when evictions in between took no more from its series
    than events have added. -/
theorem flow_counter_monotone_iff (capacity : Int) (resolver : Option Resolver) (calls : List Call)
    (between : List Event) (labels : LabelKey) (c : Counter) {v v' : UInt64}
    (hearlier : ⟨c, labels, v⟩ ∈ collect resolver (some (execute Aggregator.call (.new capacity) calls)))
    (hlater : ⟨c, labels, v'⟩ ∈
      collect resolver (some (execute Aggregator.call (.new capacity) (calls ++ .collect :: between.map .handle))))
    (hlt : seriesTotal capacity resolver labels c (handled calls) < 2 ^ 64)
    (hlt' : seriesTotal capacity resolver labels c (handled calls ++ between) < 2 ^ 64) :
    v ≤ v' ↔ evictedFrom capacity resolver labels c (handled calls) between ≤ addedTo resolver labels c between := by
  have hbalance := seriesTotal_append capacity resolver labels c (handled calls) between
  rw [← handled_between] at hlt' hbalance
  rw [UInt64.le_iff_toNat_le, value_eq_seriesTotal hearlier hlt, value_eq_seriesTotal hlater hlt']
  omega

/-- Names for two of the identities. -/
def twoNames : Resolver := fun id =>
  if id = 1 then .found ⟨1, "10.0.0.1", "spiffe://cluster.local/a", "default", "a"⟩
  else if id = 2 then .found ⟨2, "10.0.0.2", "spiffe://cluster.local/b", "default", "b"⟩
  else .missing

def unknownToB : LabelKey := ⟨"unknown", "spiffe://cluster.local/b"⟩

/-- One of two pairs of a series is evicted, and the other counts one more. -/
theorem flow_counter_monotone_evicted :
    evictedFrom 2 (some twoNames) unknownToB .allow [eventOf 7 2 0 10, eventOf 8 2 0 10]
        [eventOf 1 2 0 10, eventOf 8 2 0 10] = 1 ∧
      addedTo (some twoNames) unknownToB .allow [eventOf 1 2 0 10, eventOf 8 2 0 10] = 1 ∧ (2 : UInt64) ≤ 2 := by
  refine ⟨by decide +kernel, by decide +kernel, (flow_counter_monotone_iff 2 (some twoNames)
    [.handle (eventOf 7 2 0 10), .handle (eventOf 8 2 0 10)] [eventOf 1 2 0 10, eventOf 8 2 0 10] unknownToB .allow
    ?_ ?_ ?_ ?_).mpr ?_⟩
  all_goals decide +kernel

/-- Two identities without a name share a series with `b`; the pair that counted five is evicted, and the other has
    counted one. -/
theorem shared_series_goes_back :
    ⟨.allow, unknownToB, 6⟩ ∈ collect (some twoNames) (some (execute Aggregator.call (.new 2)
        (List.replicate 5 (.handle (eventOf 7 2 0 10)) ++ [.handle (eventOf 8 2 0 10)]))) ∧
      ⟨.allow, unknownToB, 1⟩ ∈ collect (some twoNames) (some (execute Aggregator.call (.new 2)
        (List.replicate 5 (.handle (eventOf 7 2 0 10)) ++ [.handle (eventOf 8 2 0 10)] ++
          .collect :: [.handle (eventOf 1 2 0 10)]))) := by
  constructor <;> decide +kernel

end Meridian.Telemetry
