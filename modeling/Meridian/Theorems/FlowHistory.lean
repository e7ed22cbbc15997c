import Meridian.Agent.Aggregate
import Meridian.Lib.Lru

/-! The aggregator keeps the counters of a table that loses the least recent pair: its map and its list hold the pairs of
    the table in the same order, and the counters of a pair are the sums over the events that the table has for it. -/

namespace Meridian.Telemetry
open Lib Metrics

/-! ### Counters of events -/

/-- What an event adds to a counter. -/
def Event.adds (e : Event) : Counter → Nat
  | .allow => if e.verdict = verdictAllow then 1 else 0
  | .deny => if e.verdict = verdictDeny then 1 else 0
  | .bytes => e.bytes.toNat

def Aggregate.get (x : Aggregate) : Counter → UInt64
  | .allow => x.allowCount
  | .deny => x.denyCount
  | .bytes => x.byteCount

def Aggregate.pair (x : Aggregate) : FlowPair := ⟨x.srcIdentity, x.dstIdentity⟩

def counted (es : List Event) (c : Counter) : Nat := (es.map (·.adds c)).sum

/-- The aggregate of a pair with these events. -/
def aggregateOf (p : FlowPair) (es : List Event) : Aggregate :=
  ⟨p.src, p.dst, .ofNat (counted es .allow), .ofNat (counted es .deny), .ofNat (counted es .bytes)⟩

theorem aggregateOf_get (p : FlowPair) (es : List Event) (c : Counter) :
    (aggregateOf p es).get c = .ofNat (counted es c) := by
  cases c <;> rfl

theorem counted_cons (e : Event) (es : List Event) (c : Counter) : counted (e :: es) c = counted es c + e.adds c := by
  rw [counted, List.map_cons, List.sum_cons, Nat.add_comm]
  rfl

theorem aggregateOf_cons (p : FlowPair) (e : Event) (es : List Event) :
    aggregateOf p (e :: es) = (aggregateOf p es).count e := by
  have hone : ∀ (P : Prop) [Decidable P] (n : Nat),
      UInt64.ofNat (n + if P then 1 else 0) = if P then UInt64.ofNat n + 1 else UInt64.ofNat n := by
    intro P _ n
    split
    · exact UInt64.ofNat_add n 1
    · rfl
  have hbytes : UInt64.ofNat e.bytes.toNat = e.bytes.toUInt64 := by
    refine UInt64.toNat_inj.mp ?_
    have hlt := e.bytes.toNat_lt
    rw [UInt64.toNat_ofNat', UInt32.toNat_toUInt64]
    omega
  simp only [aggregateOf, Aggregate.count, counted_cons, Event.adds, hone, UInt64.ofNat_add, hbytes]

/-! ### What the map and the list hold -/

def entryOf (x : FlowPair × List Event) : AggregateEntry := ⟨x.1, aggregateOf x.1 x.2⟩

namespace Aggregator

/-- The entry of the map for an element of the list. -/
def link (a : Aggregator) (element : Nat) : Sigma fun _ : FlowPair => Nat := ⟨(a.heap element).key, element⟩

/-- The list has the entries of the table, the map has its elements, and new elements get addresses of their own. -/
structure Tracks (cap : Nat) (a : Aggregator) (l : List (FlowPair × List Event)) : Prop where
  capacity : a.capacity = cap
  links : a.entries.entries.Perm (a.lru.map a.link)
  nodup : a.lru.Nodup
  allocated : ∀ element ∈ a.lru, element < a.next
  view : a.lru.map a.heap = l.map entryOf

namespace Tracks

variable {cap : Nat} {a : Aggregator} {l : List (FlowPair × List Event)} {p : FlowPair}

section
variable (h : Tracks cap a l)
include h

theorem lru_keys : (a.lru.map fun element => (a.heap element).key) = Lru.keys l := by
  have hview := congrArg (List.map AggregateEntry.key) h.view
  rw [List.map_map, List.map_map] at hview
  exact hview

theorem entries_keys : a.entries.keys.Perm (Lru.keys l) := by
  have hlinks := h.links.map Sigma.fst
  rw [List.map_map] at hlinks
  rw [← h.lru_keys]
  exact hlinks

theorem keys_nodup : (Lru.keys l).Nodup := h.entries_keys.nodup a.entries.keys_nodup

theorem mem_entries : p ∈ a.entries ↔ p ∈ Lru.keys l := h.entries_keys.mem_iff

theorem size_eq : a.size = l.length := by
  have hview := congrArg List.length h.view
  rw [List.length_map, List.length_map] at hview
  rw [Aggregator.size, h.links.length_eq, List.length_map, hview]

theorem lookup_iff {element : Nat} : a.entries.lookup p = some element ↔ element ∈ a.lru ∧ (a.heap element).key = p := by
  refine AList.mem_lookup_iff.trans ?_
  rw [h.links.mem_iff, List.mem_map]
  constructor
  · rintro ⟨id, hid, heq⟩
    cases heq
    exact ⟨hid, rfl⟩
  · rintro ⟨hid, rfl⟩
    exact ⟨element, hid, rfl⟩

theorem key_inj {i j : Nat} (hi : i ∈ a.lru) (hj : j ∈ a.lru) (hkey : (a.heap i).key = (a.heap j).key) : i = j := by
  have hnodup := h.keys_nodup
  rw [← h.lru_keys] at hnodup
  exact List.inj_on_of_nodup_map hnodup hi hj hkey

end

/-! ### One operation after the other -/

theorem start (capacity : Int) : Tracks (Aggregator.new capacity).capacity.toNat (.new capacity) [] := by
  refine ⟨?_, .nil, .nil, by simp [Aggregator.new], rfl⟩
  simp only [Aggregator.new, defaultPairCapacity]
  split <;> omega

theorem evictOldest (h : Tracks cap a l) : Tracks cap a.evictOldest l.dropLast := by
  rcases List.eq_nil_or_concat' a.lru with hnil | ⟨ids, oldest, hlru⟩
  · have hsame : a.evictOldest = a := by rw [Aggregator.evictOldest, hnil]; rfl
    have hview := h.view
    rw [hnil, List.map_nil] at hview
    rw [hsame, List.map_eq_nil_iff.mp hview.symm]
    exact ⟨h.capacity, h.links, h.nodup, h.allocated, by rw [hnil]; rfl⟩
  · have hnodup := h.nodup
    rw [hlru, List.nodup_append] at hnodup
    have hnot : oldest ∉ ids := fun hmem => hnodup.2.2 _ hmem _ (List.mem_singleton.mpr rfl) rfl
    have herase : a.lru.erase oldest = ids := by
      rw [hlru, List.erase_append_right _ hnot, List.erase_cons_head, List.append_nil]
    have hevict : a.evictOldest = { a with entries := a.entries.erase (a.heap oldest).key, lru := ids } := by
      have hback : a.lru.getLast? = some oldest := by rw [hlru, List.getLast?_concat]
      simp only [Aggregator.evictOldest, hback, herase]
    rw [hevict]
    refine ⟨h.capacity, ?_, hnodup.1, fun element hmem => ?_, ?_⟩
    · have hlast : a.entries.entries.Perm (a.link oldest :: ids.map a.link) := by
        refine h.links.trans ?_
        rw [hlru, List.map_append]
        exact List.perm_append_singleton _ _
      have hkerase := List.Perm.kerase (a := (a.heap oldest).key) a.entries.nodupKeys hlast
      rw [List.kerase_cons_eq (show (a.heap oldest).key = (a.link oldest).1 from rfl)] at hkerase
      exact hkerase
    · exact h.allocated element (hlru ▸ List.mem_append_left _ hmem)
    · have hview := congrArg List.dropLast h.view
      rw [hlru, List.map_append, List.map_singleton, List.dropLast_concat, ← List.map_dropLast] at hview
      exact hview

theorem pushFront (h : Tracks cap a l) (hp : p ∉ Lru.keys l) : Tracks cap (a.pushFront p) ((p, []) :: l) := by
  have hfresh : ∀ element ∈ a.lru, (a.pushFront p).heap element = a.heap element := fun element hmem =>
    Function.update_of_ne (h.allocated element hmem).ne _ _
  have hnew : (a.pushFront p).heap a.next = .new p := Function.update_self _ _ _
  refine ⟨h.capacity, ?_, ?_, ?_, ?_⟩
  · show (a.entries.insert p a.next).entries.Perm ((a.next :: a.lru).map (a.pushFront p).link)
    have hlink : (a.pushFront p).link a.next = ⟨p, a.next⟩ := by rw [link, hnew]; rfl
    have hlinks : a.lru.map (a.pushFront p).link = a.lru.map a.link :=
      List.map_congr_left fun element hmem => by rw [link, link, hfresh element hmem]
    rw [AList.entries_insert_of_notMem fun hmem => hp (h.mem_entries.mp hmem), List.map_cons, hlink, hlinks]
    exact h.links.cons _
  · exact List.nodup_cons.mpr ⟨fun hmem => (h.allocated _ hmem).false, h.nodup⟩
  · intro element hmem
    rcases List.mem_cons.mp hmem with rfl | hmem
    · exact Nat.lt_succ_self _
    · exact Nat.lt_succ_of_lt (h.allocated element hmem)
  · show (a.next :: a.lru).map (a.pushFront p).heap = _
    rw [List.map_cons, List.map_cons, hnew, List.map_congr_left hfresh, h.view]
    rfl

theorem moveToFront (h : Tracks cap a l) {element : Nat} {es : List Event} (hmem : element ∈ a.lru)
    (hkey : (a.heap element).key = p) (hes : l.lookup p = some es) :
    Tracks cap (a.moveToFront element) ((p, es) :: l.filter (·.1 ≠ p)) := by
  have hperm : a.lru.Perm (element :: a.lru.erase element) := List.perm_cons_erase hmem
  have hentry : a.heap element = entryOf (p, es) := by
    have hview : entryOf (p, es) ∈ a.lru.map a.heap := by
      rw [h.view]
      exact List.mem_map_of_mem (Assoc.mem_of_lookup hes)
    obtain ⟨j, hj, heq⟩ := List.mem_map.mp hview
    rw [h.key_inj hmem hj (hkey.trans (congrArg AggregateEntry.key heq).symm), heq]
  refine ⟨h.capacity, h.links.trans (hperm.map _), hperm.nodup h.nodup, fun j hj => ?_, ?_⟩
  · exact h.allocated j (hperm.mem_iff.mpr hj)
  · -- the elements other than this one are those of the other pairs
    have hrest : (a.lru.erase element).map a.heap = (l.filter (·.1 ≠ p)).map entryOf := by
      have hfilter : a.lru.erase element = a.lru.filter fun j => (a.heap j).key ≠ p := by
        rw [h.nodup.erase_eq_filter]
        refine List.filter_congr fun j hj => ?_
        rw [Bool.eq_iff_iff, bne_iff_ne, decide_eq_true_iff, ← hkey]
        exact ⟨fun hne heq => hne (h.key_inj hj hmem heq), fun hne heq => hne (by rw [heq])⟩
      have hview := congrArg (List.filter fun x : AggregateEntry => x.key ≠ p) h.view
      rw [List.filter_map, List.filter_map] at hview
      rw [hfilter]
      exact hview
    show a.heap element :: (a.lru.erase element).map a.heap = _
    rw [hentry, hrest]
    rfl

theorem count {es : List Event} {element : Nat} {rest : List Nat} (h : Tracks cap a ((p, es) :: l))
    (hlru : a.lru = element :: rest) (e : Event) : Tracks cap (a.count element e) ((p, e :: es) :: l) := by
  have hview := h.view
  rw [hlru, List.map_cons, List.map_cons, List.cons_eq_cons] at hview
  have hself : (a.count element e).heap element = ⟨(a.heap element).key, (a.heap element).value.count e⟩ :=
    Function.update_self _ _ _
  have hother : ∀ j, j ≠ element → (a.count element e).heap j = a.heap j := fun j hj => Function.update_of_ne hj _ _
  have hkey : ∀ j, ((a.count element e).heap j).key = (a.heap j).key := by
    intro j
    by_cases hj : j = element
    · rw [hj, hself]
    · rw [hother j hj]
  have hlink : (a.count element e).link = a.link := funext fun j => by rw [link, link, hkey]
  refine ⟨h.capacity, hlink.symm ▸ h.links, h.nodup, h.allocated, ?_⟩
  have hnot : ∀ j ∈ rest, (a.count element e).heap j = a.heap j := by
    intro j hj
    have hnodup := h.nodup
    rw [hlru, List.nodup_cons] at hnodup
    exact hother j fun heq => hnodup.1 (heq ▸ hj)
  show a.lru.map (a.count element e).heap = _
  rw [hlru, List.map_cons, List.map_cons, List.map_congr_left hnot, hview.2, hself, hview.1]
  simp only [entryOf, aggregateOf_cons]

theorem handle (h : Tracks cap a l) (hcap : 0 < cap) (hlen : l.length ≤ cap) (e : Event) :
    Tracks cap (a.handle e) (Lru.note cap Event.pair l e) := by
  rw [Aggregator.handle, Lru.note]
  cases hlookup : a.entries.lookup e.pair with
  | none =>
    have hnot : e.pair ∉ Lru.keys l := fun hmem => AList.lookup_eq_none.mp hlookup (h.mem_entries.mpr hmem)
    have hall : l.filter (·.1 ≠ e.pair) = l :=
      List.filter_eq_self.mpr fun x hx => decide_eq_true fun heq => hnot (heq ▸ List.mem_map_of_mem hx)
    rw [hall, Assoc.lookup_eq_none.mpr hnot, Option.getD_none]
    -- a full aggregator has made room before
    have hroom : Tracks cap (if a.capacity ≤ a.size then a.evictOldest else a) (l.take (cap - 1)) := by
      rw [h.capacity, h.size_eq]
      split
      · have hdrop : l.take (cap - 1) = l.dropLast := by
          rw [List.dropLast_eq_take, show l.length = cap by omega]
        rw [hdrop]
        exact h.evictOldest
      · rw [List.take_of_length_le (by omega)]
        exact h
    have hnot' : e.pair ∉ Lru.keys (l.take (cap - 1)) := fun hmem =>
      hnot (((List.take_sublist _ _).map _).subset hmem)
    exact (hroom.pushFront hnot').count rfl e
  | some element =>
    obtain ⟨hmem, hkey⟩ := h.lookup_iff.mp hlookup
    cases hes : l.lookup e.pair with
    | none =>
      have hpair : e.pair ∈ Lru.keys l := h.lru_keys ▸ List.mem_map.mpr ⟨element, hmem, hkey⟩
      exact absurd hpair (Assoc.lookup_eq_none.mp hes)
    | some es =>
      have hmoved := (h.moveToFront hmem hkey hes).count rfl e
      have hlt : (l.filter (·.1 ≠ e.pair)).length ≤ cap - 1 := by
        have hlt : (l.filter (·.1 ≠ e.pair)).length < l.length :=
          List.length_filter_lt_length_iff_exists.mpr ⟨_, Assoc.mem_of_lookup hes, by simp⟩
        omega
      rw [List.take_of_length_le hlt]
      exact hmoved

theorem run (h : Tracks cap a l) (hcap : 0 < cap) (hlen : l.length ≤ cap) (events : List Event) :
    Tracks cap (execute Aggregator.handle a events) (execute (Lru.note cap Event.pair) l events) := by
  induction events generalizing a l with
  | nil => exact h
  | cons e events ih => exact ih (h.handle hcap hlen e) (Lru.length_note hcap l e)

end Tracks

end Aggregator

end Meridian.Telemetry
