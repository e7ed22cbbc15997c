import Meridian.Agent.Broadcaster
import Meridian.Lib.Run

/-! Delivery to the subscribers of the broadcaster, over every interleaving of `Subscribe`, the rounds of `Handle` and the
    receives. Each subscriber gets exactly the lines that found room in its own channel, in order; it is pruned when eight
    rounds in a row found its channel full, and the compaction in place loses and repeats nobody. -/

namespace Meridian.Telemetry
open Lib

/-! ### Runs of full rounds -/

/-- Eight rounds in a row found the channel full. -/
def Stalled (found : List Bool) : Prop := List.replicate broadcasterMaxDrops true <:+: found

variable {found : List Bool}

theorem replicate_suffix_concat {k : Nat} {full : Bool} :
    List.replicate (k + 1) true <:+ found ++ [full] ↔ full = true ∧ List.replicate k true <:+ found := by
  rw [List.replicate_succ', List.suffix_concat_iff]
  constructor
  · rintro (hnil | ⟨t, heq, ht⟩)
    · simp at hnil
    · obtain ⟨rfl, hlast⟩ := List.append_inj' heq rfl
      exact ⟨(List.cons.inj hlast).1.symm, ht⟩
  · rintro ⟨rfl, h⟩
    exact .inr ⟨_, rfl, h⟩

theorem replicate_suffix_mono {k m : Nat} (hkm : k ≤ m) (h : List.replicate m true <:+ found) :
    List.replicate k true <:+ found := by
  refine List.IsSuffix.trans ?_ h
  rw [List.suffix_replicate_iff, List.length_replicate]
  exact ⟨hkm, rfl⟩

/-- With `drops` full rounds at the end and no more, the next round makes eight exactly when it is full and the eighth. -/
theorem stalled_concat_iff {drops : Nat} {full : Bool} (hdrops : List.replicate drops true <:+ found)
    (hfewer : ¬ List.replicate (drops + 1) true <:+ found) (hnot : ¬ Stalled found) :
    Stalled (found ++ [full]) ↔ full = true ∧ ¬ drops + 1 < broadcasterMaxDrops := by
  have hsuffix : List.replicate broadcasterMaxDrops true <:+ found ++ [full] ↔
      full = true ∧ List.replicate 7 true <:+ found := replicate_suffix_concat
  rw [Stalled, List.infix_concat_iff, hsuffix, or_iff_left (show ¬ List.replicate broadcasterMaxDrops true <:+: found from hnot)]
  refine and_congr_right fun _ => ⟨fun h hlt => ?_, fun h => ?_⟩
  · exact hfewer (replicate_suffix_mono (Nat.le_of_lt_succ hlt) h)
  · exact replicate_suffix_mono (Nat.le_of_succ_le_succ (Nat.not_lt.mp h)) hdrops

/-! ### One subscriber -/

/-- The lines for which there was room. -/
def passed (since : List String) (found : List Bool) : List String :=
  (since.zip found).filterMap fun p => if p.2 then none else some p.1

theorem passed_sublist (since : List String) (found : List Bool) : (passed since found).Sublist since := by
  induction since generalizing found with
  | nil => exact List.Sublist.refl []
  | cons line since ih =>
    cases found with
    | nil => exact List.nil_sublist _
    | cons full found =>
      have hrest := ih found
      cases full with
      | true => exact hrest.cons line
      | false => exact hrest.cons_cons line

/-- A line that was not looked at yet changes nothing. -/
theorem passed_concat_left {since : List String} (h : found.length ≤ since.length) (line : String) :
    passed (since ++ [line]) found = passed since found := by
  have hzip : (since ++ [line]).zip found = since.zip found := by
    induction since generalizing found with
    | nil => rw [List.eq_nil_of_length_eq_zero (Nat.le_zero.mp h), List.zip_nil_right, List.zip_nil_right]
    | cons l since ih =>
      cases found with
      | nil => rfl
      | cons full found =>
        rw [List.cons_append, List.zip_cons_cons, List.zip_cons_cons, ih (Nat.le_of_succ_le_succ h)]
  rw [passed, hzip, passed]

theorem passed_concat {since : List String} (h : found.length = since.length) (line : String) (full : Bool) :
    passed (since ++ [line]) (found ++ [full]) = passed since found ++ if full then [] else [line] := by
  rw [passed, List.zip_append h.symm, List.filterMap_append, passed]
  cases full <;> rfl

/-- What a subscriber has and what it has been sent. -/
structure Delivery (sub : Subscriber) (received since : List String) (found : List Bool) : Prop where
  cap : sub.ch.cap = broadcasterBufSize
  room : sub.ch.buffer.length ≤ broadcasterBufSize
  delivered : received ++ sub.ch.buffer = passed since found
  looked : found.length ≤ since.length
  drops : List.replicate sub.drops true <:+ found
  fewer : ¬ List.replicate (sub.drops + 1) true <:+ found

/-- The subscriber after a round. -/
def Subscriber.look (sub : Subscriber) (line : String) : Subscriber :=
  if sub.ch.buffer.length < sub.ch.cap then ⟨{ sub.ch with buffer := sub.ch.buffer ++ [line] }, 0⟩
  else { sub with drops := sub.drops + 1 }

def Subscriber.full (sub : Subscriber) : Bool := !decide (sub.ch.buffer.length < sub.ch.cap)

theorem Subscriber.full_iff {sub : Subscriber} : sub.full = true ↔ ¬ sub.ch.buffer.length < sub.ch.cap := by
  simp [full]

namespace Delivery
variable {sub : Subscriber} {received since : List String} {found : List Bool}

theorem new : Delivery ⟨.make broadcasterBufSize, 0⟩ [] [] [] where
  cap := rfl
  room := Nat.zero_le _
  delivered := rfl
  looked := Nat.le_refl _
  drops := List.suffix_refl _
  fewer := by simp

theorem handle (h : Delivery sub received since found) (line : String) :
    Delivery sub received (since ++ [line]) found where
  cap := h.cap
  room := h.room
  delivered := by rw [h.delivered, passed_concat_left h.looked]
  looked := by
    rw [List.length_append]
    exact Nat.le_add_right_of_le h.looked
  drops := h.drops
  fewer := h.fewer

theorem receive {line : String} {rest : Chan String} (h : Delivery sub received since found)
    (hrecv : sub.ch.recv = some (some line, rest)) :
    Delivery { sub with ch := rest } (received ++ [line]) since found where
  cap := (Chan.recv_eq_some hrecv).2.trans h.cap
  room := by
    have hroom := h.room
    rw [Chan.buffer_of_recv hrecv, List.length_cons] at hroom
    exact Nat.le_of_succ_le hroom
  delivered := by
    rw [← h.delivered, Chan.buffer_of_recv hrecv, List.append_assoc, List.singleton_append]
  looked := h.looked
  drops := h.drops
  fewer := h.fewer

/-- The round that looks at the last line. -/
theorem look {line : String} (h : Delivery sub received (since ++ [line]) found) (hlen : found.length = since.length) :
    Delivery (sub.look line) received (since ++ [line]) (found ++ [sub.full]) := by
  have hdelivered := h.delivered
  rw [passed_concat_left (Nat.le_of_eq hlen)] at hdelivered
  have hlooked (full : Bool) : (found ++ [full]).length ≤ (since ++ [line]).length := by simp [hlen]
  by_cases hroom : sub.ch.buffer.length < sub.ch.cap
  · have hfull : sub.full = false := by simpa using mt Subscriber.full_iff.mp (not_not_intro hroom)
    rw [Subscriber.look, if_pos hroom, hfull]
    refine ⟨h.cap, ?_, ?_, hlooked _, by simp, ?_⟩
    · rw [List.length_append, ← h.cap]
      exact hroom
    · rw [passed_concat hlen, ← List.append_assoc, hdelivered]
      rfl
    · rw [replicate_suffix_concat]
      simp
  · have hfull : sub.full = true := Subscriber.full_iff.mpr hroom
    rw [Subscriber.look, if_neg hroom, hfull]
    refine ⟨h.cap, h.room, ?_, hlooked _, ?_, ?_⟩
    · rw [passed_concat hlen, ← hdelivered]
      simp
    · exact replicate_suffix_concat.mpr ⟨rfl, h.drops⟩
    · rw [replicate_suffix_concat]
      exact fun hmore => h.fewer hmore.2

end Delivery

/-! ### The slice while it is compacted -/

namespace Broadcaster

/-- The subscribers the loop has kept, and those it has not reached; between two `Handle`s all are kept. -/
def kept (b : Broadcaster) : List Nat :=
  match b.handling with
  | none => b.subs.toList
  | some h => between b.subs.cells 0 h.alive

def pending (b : Broadcaster) : List Nat :=
  match b.handling with
  | none => []
  | some h => between b.subs.cells h.i h.n

section
variable {b : Broadcaster} (h : b.handling = none)
include h

theorem kept_of_rest : b.kept = b.subs.toList := by rw [kept, h]

theorem pending_of_rest : b.pending = [] := by rw [pending, h]

theorem subscribe_of_rest (id spare : Nat) : b.subscribe id spare =
    ⟨b.subs.append id spare, Table.put b.heap id ⟨.make broadcasterBufSize, 0⟩, none⟩ := by
  unfold subscribe
  simp only [h]

theorem handle_of_rest (line : String) : b.handle line = ⟨b.subs, b.heap, some ⟨line, 0, b.subs.len, 0⟩⟩ := by
  unfold handle
  simp only [h]

end

/-- Every cell that the loop will read holds a subscriber, and it writes behind where it reads. -/
structure Formed (b : Broadcaster) : Prop where
  rest : b.handling = none → Filled b.subs.cells 0 b.subs.len
  behind : ∀ h, b.handling = some h → h.alive ≤ h.i ∧ h.i ≤ h.n
  keptFilled : ∀ h, b.handling = some h → Filled b.subs.cells 0 h.alive
  pendingFilled : ∀ h, b.handling = some h → Filled b.subs.cells h.i h.n

/-- What a round changes: the subscriber it is at is looked at, and leaves the pending ones for the kept ones unless it
    is pruned. -/
structure Round (b b' : Broadcaster) (line : String) (id : Nat) (sub : Subscriber) : Prop where
  heap : b'.heap = Table.put b.heap id (sub.look line)
  handling : ∃ h', b'.handling = some h' ∧ h'.line = line
  pending : b.pending = id :: b'.pending
  kept : b'.kept = if sub.full = true ∧ ¬ sub.drops + 1 < broadcasterMaxDrops then b.kept else b.kept ++ [id]

variable {b : Broadcaster} {h : Handling} {id : Nat} {sub : Subscriber}

theorem current_eq_some (hc : b.current = some (h, id, sub)) :
    b.handling = some h ∧ h.i < h.n ∧ b.subs.cells h.i = some id ∧ b.heap id = some sub := by
  unfold current at hc
  split at hc
  · cases hc
  · rename_i h' hh
    split at hc
    · rename_i hlt
      split at hc
      · cases hc
      · rename_i id' hid
        split at hc
        · cases hc
        · rename_i sub' hsub
          cases hc
          exact ⟨hh, hlt, hid, hsub⟩
    · cases hc

theorem takes_eq_some {line : String} {sub' : Subscriber} (h : b.takes id = some (line, sub')) :
    ∃ sub rest, b.heap id = some sub ∧ sub.ch.recv = some (some line, rest) ∧ sub' = { sub with ch := rest } := by
  unfold takes at h
  split at h
  · cases h
  · rename_i sub hsub
    split at h
    · rename_i line' rest hrecv
      cases h
      exact ⟨sub, rest, hsub, hrecv, rfl⟩
    · cases h

theorem pending_of_current (hc : b.current = some (h, id, sub)) : b.pending = id :: between b.subs.cells (h.i + 1) h.n := by
  obtain ⟨hh, hlt, hid, -⟩ := current_eq_some hc
  simp only [pending, hh]
  exact between_cons hlt hid

/-- Keeping the subscriber overwrites a cell that was read before. -/
theorem formed_keep (hb : b.Formed) (hc : b.current = some (h, id, sub)) (b' : Broadcaster) (hsubs : b'.subs = b.subs) :
    (b'.keep h id).Formed ∧
      b.pending = id :: (b'.keep h id).pending ∧ (b'.keep h id).kept = b.kept ++ [id] := by
  obtain ⟨hh, hlt, -, -⟩ := current_eq_some hc
  have hbehind := (hb.behind h hh).1
  refine ⟨⟨nofun, ?_, ?_, ?_⟩, ?_, ?_⟩
  · rintro _ ⟨⟩
    exact ⟨Nat.succ_le_succ hbehind, hlt⟩
  · rintro _ ⟨⟩
    simp only [keep, hsubs]
    exact (hb.keptFilled h hh).put_last
  · rintro _ ⟨⟩
    simp only [keep, hsubs]
    exact (hb.pendingFilled h hh).tail.put
  · rw [pending_of_current hc]
    simp only [pending, keep, hsubs]
    rw [between_put_of_lt (Nat.lt_succ_of_le hbehind)]
  · simp only [kept, keep, hsubs, hh]
    exact between_put (Nat.zero_le _)

theorem formed_round (hb : b.Formed) (hc : b.current = some (h, id, sub)) :
    b.next.Formed ∧ Round b b.next h.line id sub := by
  obtain ⟨hh, hlt, hid, hsub⟩ := current_eq_some hc
  have hnext : b.next = b.round h id sub := by
    unfold next
    simp only [hh, if_pos hlt, hc]
  rw [hnext]
  by_cases hroom : sub.ch.buffer.length < sub.ch.cap
  · have hlook : sub.look h.line = ⟨{ sub.ch with buffer := sub.ch.buffer ++ [h.line] }, 0⟩ := if_pos hroom
    rw [round, if_pos hroom, ← hlook]
    obtain ⟨hformed, hpending, hkept⟩ :=
      formed_keep hb hc { b with heap := Table.put b.heap id (sub.look h.line) } rfl
    refine ⟨hformed, rfl, ⟨_, rfl, rfl⟩, hpending, ?_⟩
    rw [hkept, if_neg fun hfull => Subscriber.full_iff.mp hfull.1 hroom]
  · have hlook : sub.look h.line = { sub with drops := sub.drops + 1 } := if_neg hroom
    rw [round, if_neg hroom]
    dsimp only
    rw [← hlook]
    by_cases hfew : sub.drops + 1 < broadcasterMaxDrops
    · obtain ⟨hformed, hpending, hkept⟩ :=
        formed_keep hb hc { b with heap := Table.put b.heap id (sub.look h.line) } rfl
      rw [if_pos hfew]
      refine ⟨hformed, rfl, ⟨_, rfl, rfl⟩, hpending, ?_⟩
      rw [hkept, if_neg fun hpruned => hpruned.2 hfew]
    · rw [if_neg hfew]
      refine ⟨⟨nofun, ?_, ?_, ?_⟩, rfl, ⟨_, rfl, rfl⟩, pending_of_current hc, ?_⟩
      · rintro _ ⟨⟩
        exact ⟨Nat.le_succ_of_le (hb.behind h hh).1, hlt⟩
      · rintro _ ⟨⟩
        exact hb.keptFilled h hh
      · rintro _ ⟨⟩
        exact (hb.pendingFilled h hh).tail
      · rw [if_pos ⟨Subscriber.full_iff.mpr hroom, hfew⟩, kept, kept, hh]

/-- After the last round all that is left was kept. -/
theorem formed_finish (hb : b.Formed) (hh : b.handling = some h) (hdone : ¬ h.i < h.n) :
    b.next.Formed ∧ b.next.heap = b.heap ∧ b.next.handling = none ∧ b.next.kept = b.kept ∧ b.pending = [] := by
  have hnext : b.next = { b with subs := { b.subs with len := h.alive }, handling := none } := by
    unfold next
    simp only [hh, if_neg hdone]
  have hend : h.i = h.n := Nat.le_antisymm (hb.behind h hh).2 (Nat.not_lt.mp hdone)
  rw [hnext]
  refine ⟨⟨fun _ => hb.keptFilled h hh, ?_, ?_, ?_⟩, rfl, rfl, ?_, ?_⟩
  · rintro _ ⟨⟩
  · rintro _ ⟨⟩
  · rintro _ ⟨⟩
  · rw [kept, kept, hh]
    rfl
  · rw [pending, hh]
    dsimp only
    rw [hend]
    exact between_self _ _

end Broadcaster

/-! ### Every run -/

namespace Broadcast

structure Sound (s : Broadcast) : Prop where
  formed : s.state.Formed
  nodup : (s.state.kept ++ s.state.pending).Nodup
  delivery : ∀ id < s.subscribed, ∃ sub, s.state.heap id = some sub ∧
    Delivery sub (s.received id) (s.since id) (s.found id)
  member : ∀ id, id ∈ s.state.kept ++ s.state.pending ↔ id < s.subscribed ∧ ¬ Stalled (s.found id)
  looked : ∀ id ∈ s.state.kept, (s.found id).length = (s.since id).length
  waiting : ∀ h, s.state.handling = some h → ∀ id ∈ s.state.pending,
    ∃ before, s.since id = before ++ [h.line] ∧ (s.found id).length = before.length
  fresh : ∀ id, s.subscribed ≤ id → s.state.heap id = none ∧ s.received id = [] ∧ s.since id = [] ∧ s.found id = []

variable {s : Broadcast}

theorem sound_start : start.Sound where
  formed := ⟨fun _ i _ hi => absurd hi (Nat.not_lt_zero i), nofun, nofun,
    nofun⟩
  nodup := List.nodup_nil
  delivery id hid := absurd hid (Nat.not_lt_zero id)
  member id := ⟨fun hid => (by cases hid), fun hid => absurd hid.1 (Nat.not_lt_zero id)⟩
  looked _ hid := by cases hid
  waiting _ hh := by cases hh
  fresh _ _ := ⟨rfl, rfl, rfl, rfl⟩

theorem not_stalled_nil : ¬ Stalled [] := by
  rw [Stalled, List.infix_nil]
  decide

/-- Between two `Handle`s all subscribers are kept ones. -/
theorem Sound.at_rest (hs : s.Sound) (hh : s.state.handling = none) :
    s.state.kept.Nodup ∧ ∀ id, id ∈ s.state.kept ↔ id < s.subscribed ∧ ¬ Stalled (s.found id) := by
  have hnodup := hs.nodup
  have hmember := hs.member
  rw [Broadcaster.pending_of_rest hh, List.append_nil] at hnodup hmember
  exact ⟨hnodup, hmember⟩

variable {id : Nat} {sub : Subscriber} {h : Handling}

/-- A step that changes one subscriber leaves the others with what they have. -/
theorem Sound.touch (hs : s.Sound) {received : Nat → List String} {found : Nat → List Bool} (hlive : id < s.subscribed)
    (hdel : Delivery sub (received id) (s.since id) (found id)) (hreceived : ∀ k, k ≠ id → received k = s.received k)
    (hfound : ∀ k, k ≠ id → found k = s.found k) : (∀ k < s.subscribed, ∃ subk, Table.put s.state.heap id sub k = some subk ∧
      Delivery subk (received k) (s.since k) (found k)) ∧
    ∀ k, s.subscribed ≤ k → Table.put s.state.heap id sub k = none ∧ received k = [] ∧ s.since k = [] ∧ found k = [] := by
  refine ⟨fun k hk => ?_, fun k hk => ?_⟩
  · by_cases hkid : k = id
    · subst hkid
      exact ⟨sub, Table.put_same _ _ _, hdel⟩
    · rw [Table.put_of_ne (Ne.symm hkid), hreceived k hkid, hfound k hkid]
      exact hs.delivery k hk
  · have hne : k ≠ id := Nat.ne_of_gt (Nat.lt_of_lt_of_le hlive hk)
    rw [Table.put_of_ne (Ne.symm hne), hreceived k hne, hfound k hne]
    exact hs.fresh k hk

theorem Sound.subscribe (hs : s.Sound) (spare : Nat) : (s.subscribe spare).Sound := by
  unfold Broadcast.subscribe
  cases hh : s.state.handling with
  | some h => exact hs
  | none =>
    dsimp only
    have hsub := Broadcaster.subscribe_of_rest hh s.subscribed spare
    have hkept' : (s.state.subscribe s.subscribed spare).kept = s.state.kept ++ [s.subscribed] := by
      rw [hsub, Broadcaster.kept_of_rest hh]
      exact Slice.toList_append _ _ spare
    have hpending' : (s.state.subscribe s.subscribed spare).pending = [] := by
      rw [hsub]
      rfl
    obtain ⟨hnodup, hmember⟩ := hs.at_rest hh
    obtain ⟨-, hreceived, hsince, hfound⟩ := hs.fresh s.subscribed (Nat.le_refl _)
    refine ⟨?_, ?_, ?_, ?_, ?_, ?_, ?_⟩
    · rw [hsub]
      exact ⟨fun _ => Slice.filled_append (hs.formed.rest hh) _ _, nofun,
        nofun, nofun⟩
    · rw [hkept', hpending', List.append_nil]
      refine hnodup.append (List.nodup_singleton _) ?_
      rw [List.disjoint_singleton]
      exact fun hid => Nat.lt_irrefl _ ((hmember _).mp hid).1
    · intro id hid
      dsimp only at hid ⊢
      rw [hsub]
      dsimp only
      rcases Nat.lt_succ_iff_lt_or_eq.mp hid with hold | rfl
      · rw [Table.put_of_ne (Nat.ne_of_gt hold)]
        exact hs.delivery id hold
      · rw [Table.put_same, hreceived, hsince, hfound]
        exact ⟨_, rfl, Delivery.new⟩
    · intro id
      rw [hkept', hpending', List.append_nil, List.mem_append, List.mem_singleton, hmember]
      dsimp only
      constructor
      · rintro (⟨hlt, hnot⟩ | rfl)
        · exact ⟨Nat.lt_succ_of_lt hlt, hnot⟩
        · exact ⟨Nat.lt_succ_self _, hfound ▸ not_stalled_nil⟩
      · rintro ⟨hlt, hnot⟩
        rcases Nat.lt_succ_iff_lt_or_eq.mp hlt with hold | rfl
        · exact .inl ⟨hold, hnot⟩
        · exact .inr rfl
    · intro id hid
      rw [hkept', List.mem_append, List.mem_singleton] at hid
      rcases hid with hold | rfl
      · exact hs.looked id hold
      · dsimp only
        rw [hfound, hsince]
        rfl
    · intro h _ id hid
      rw [hpending'] at hid
      cases hid
    · intro id hid
      dsimp only at hid ⊢
      rw [hsub]
      refine ⟨?_, (hs.fresh id (Nat.le_of_succ_le hid)).2⟩
      exact (Table.put_of_ne (Nat.ne_of_lt hid)).trans (hs.fresh id (Nat.le_of_succ_le hid)).1

theorem Sound.handle (hs : s.Sound) (line : String) : (s.handle line).Sound := by
  unfold Broadcast.handle
  cases hh : s.state.handling with
  | some h => exact hs
  | none =>
    dsimp only
    have hstate := Broadcaster.handle_of_rest hh line
    have hkept' : (s.state.handle line).kept = [] := by
      rw [hstate]
      exact between_self _ _
    have hpending' : (s.state.handle line).pending = s.state.kept := by
      rw [hstate, Broadcaster.kept_of_rest hh]
      rfl
    obtain ⟨hnodup, hmember⟩ := hs.at_rest hh
    refine ⟨?_, ?_, ?_, ?_, ?_, ?_, ?_⟩
    · rw [hstate]
      refine ⟨nofun, ?_, ?_, ?_⟩
      · rintro _ ⟨⟩
        exact ⟨Nat.le_refl _, Nat.zero_le _⟩
      · rintro _ ⟨⟩ i - hi
        exact absurd hi (Nat.not_lt_zero i)
      · rintro _ ⟨⟩
        exact hs.formed.rest hh
    · rw [hkept', hpending', List.nil_append]
      exact hnodup
    · intro id hid
      obtain ⟨sub, hsub, hdel⟩ := hs.delivery id hid
      dsimp only
      rw [hstate, if_pos hid]
      exact ⟨sub, hsub, hdel.handle line⟩
    · intro id
      rw [hkept', hpending', List.nil_append]
      exact hmember id
    · intro id hid
      rw [hkept'] at hid
      cases hid
    · intro h hsome id hid
      rw [hpending'] at hid
      rw [hstate] at hsome
      cases hsome
      dsimp only
      rw [if_pos ((hmember id).mp hid).1]
      exact ⟨s.since id, rfl, hs.looked id hid⟩
    · intro id hid
      dsimp only at hid ⊢
      rw [if_neg (Nat.not_lt.mpr hid), hstate]
      exact hs.fresh id hid

/-- Only the end of the loop and a broadcaster at rest have no subscriber to look at. -/
theorem Sound.current_eq_none (hs : s.Sound) (hc : s.state.current = none) :
    ∀ h, s.state.handling = some h → ¬ h.i < h.n := by
  intro h hh hlt
  obtain ⟨id, hid⟩ := hs.formed.pendingFilled h hh h.i (Nat.le_refl _) hlt
  have hmem : id ∈ s.state.pending := by
    rw [Broadcaster.pending, hh]
    dsimp only
    rw [between_cons hlt hid]
    exact List.mem_cons_self
  obtain ⟨sub, hsub, -⟩ := hs.delivery id ((hs.member id).mp (List.mem_append_right _ hmem)).1
  rw [Broadcaster.current, hh] at hc
  simp only [if_pos hlt, hid, hsub] at hc
  cases hc

/-- The subscriber that a round looks at is pending, and nowhere else. -/
theorem Sound.of_current (hs : s.Sound) (hc : s.state.current = some (h, id, sub)) :
    id ∈ s.state.pending ∧ id ∉ s.state.kept ∧ id ∉ s.state.next.pending := by
  obtain ⟨-, hround⟩ := Broadcaster.formed_round hs.formed hc
  have hnodup := hs.nodup
  rw [hround.pending] at hnodup ⊢
  obtain ⟨-, hpending, hdisjoint⟩ := List.nodup_append.mp hnodup
  exact ⟨List.mem_cons_self, fun hk => hdisjoint id hk id List.mem_cons_self rfl, (List.nodup_cons.mp hpending).1⟩

/-- The kept ones are those before, and the subscriber of this round unless it is pruned. -/
theorem Sound.mem_kept_round (hs : s.Sound) (hc : s.state.current = some (h, id, sub)) (k : Nat) :
    k ∈ s.state.next.kept ↔ k ∈ s.state.kept ∨ (k = id ∧ ¬ Stalled (s.found id ++ [sub.full])) := by
  obtain ⟨-, hround⟩ := Broadcaster.formed_round hs.formed hc
  obtain ⟨hlive, hnot⟩ := (hs.member id).mp (List.mem_append_right _ (hs.of_current hc).1)
  obtain ⟨sub', hsub', hdel⟩ := hs.delivery id hlive
  cases (Broadcaster.current_eq_some hc).2.2.2.symm.trans hsub'
  rw [hround.kept, stalled_concat_iff hdel.drops hdel.fewer hnot]
  split
  · rename_i hpruned
    exact ⟨.inl, fun hk => hk.resolve_right fun hk => hk.2 hpruned⟩
  · rename_i hpruned
    rw [List.mem_append, List.mem_singleton]
    exact or_congr_right ⟨fun hk => ⟨hk, hpruned⟩, fun hk => hk.1⟩

theorem Sound.round {h : Handling} {id : Nat} {sub : Subscriber} (hs : s.Sound)
    (hc : s.state.current = some (h, id, sub)) :
    ({ s with state := s.state.next, found := Function.update s.found id (s.found id ++ [sub.full]) } : Broadcast).Sound := by
  obtain ⟨hh, -, -, hsub⟩ := Broadcaster.current_eq_some hc
  obtain ⟨hformed, hround⟩ := Broadcaster.formed_round hs.formed hc
  obtain ⟨hold, hnotKept, hnotPending⟩ := hs.of_current hc
  obtain ⟨before, hsince, hlen⟩ := hs.waiting h hh id hold
  have hlive := ((hs.member id).mp (List.mem_append_right _ hold)).1
  obtain ⟨sub', hsub', hdel⟩ := hs.delivery id hlive
  cases hsub.symm.trans hsub'
  have hself : Function.update s.found id (s.found id ++ [sub.full]) id = s.found id ++ [sub.full] :=
    Function.update_self ..
  have hother : ∀ k, k ≠ id → Function.update s.found id (s.found id ++ [sub.full]) k = s.found k :=
    fun k hk => Function.update_of_ne hk ..
  have hlook : Delivery (sub.look h.line) (s.received id) (s.since id)
      (Function.update s.found id (s.found id ++ [sub.full]) id) := by
    rw [hself]
    rw [hsince] at hdel ⊢
    exact hdel.look hlen
  obtain ⟨hdelivery, hfresh⟩ := hs.touch hlive hlook (fun _ _ => rfl) hother
  rw [← hround.heap] at hdelivery hfresh
  refine ⟨hformed, ?_, hdelivery, ?_, ?_, ?_, hfresh⟩
  · have hnodup := hs.nodup
    rw [hround.pending] at hnodup
    rw [hround.kept]
    split
    · exact hnodup.sublist ((List.sublist_cons_self _ _).append_left _)
    · rw [List.append_assoc, List.singleton_append]
      exact hnodup
  · intro k
    dsimp only
    rw [List.mem_append, hs.mem_kept_round hc]
    by_cases hkid : k = id
    · subst hkid
      rw [hself]
      simp only [hnotKept, hnotPending, hlive, true_and, false_or, or_false]
    · rw [hother k hkid, ← hs.member, hround.pending, List.mem_append, List.mem_cons]
      simp only [hkid, false_and, or_false, false_or]
  · intro k hk
    dsimp only
    rcases (hs.mem_kept_round hc k).mp hk with hk | ⟨rfl, -⟩
    · have hne : k ≠ id := fun hkid => hnotKept (hkid ▸ hk)
      rw [hother k hne]
      exact hs.looked k hk
    · rw [hself, hsince, List.length_append, List.length_append, hlen]
      rfl
  · intro h' hh' k hk
    obtain ⟨h'', hh'', hline⟩ := hround.handling
    cases hh''.symm.trans hh'
    have hne : k ≠ id := fun hkid => hnotPending (hkid ▸ hk)
    dsimp only
    rw [hother k hne, hline]
    refine hs.waiting h hh k ?_
    rw [hround.pending]
    exact List.mem_cons_of_mem _ hk

theorem Sound.next (hs : s.Sound) : s.next.Sound := by
  unfold Broadcast.next
  cases hc : s.state.current with
  | some c =>
    obtain ⟨h, id, sub⟩ := c
    exact hs.round hc
  | none =>
    dsimp only
    cases hh : s.state.handling with
    | none =>
      have hnext : s.state.next = s.state := by
        unfold Broadcaster.next
        rw [hh]
      rw [hnext]
      exact hs
    | some h =>
      obtain ⟨hformed, hheap, hrest, hkept, hpending⟩ :=
        Broadcaster.formed_finish hs.formed hh (hs.current_eq_none hc h hh)
      have hpending' := Broadcaster.pending_of_rest hrest
      refine ⟨hformed, ?_, ?_, ?_, ?_, ?_, ?_⟩
      · rw [hkept, hpending', ← hpending]
        exact hs.nodup
      · intro id hid
        dsimp only
        rw [hheap]
        exact hs.delivery id hid
      · intro id
        dsimp only
        rw [hkept, hpending', ← hpending]
        exact hs.member id
      · intro id hid
        rw [hkept] at hid
        exact hs.looked id hid
      · intro h' hh'
        exact absurd (hrest.symm.trans hh') (by simp)
      · intro id hid
        dsimp only
        rw [hheap]
        exact hs.fresh id hid

theorem Sound.receive (hs : s.Sound) (id : Nat) : (s.receive id).Sound := by
  unfold Broadcast.receive
  cases ht : s.state.takes id with
  | none => exact hs
  | some r =>
    obtain ⟨line, sub'⟩ := r
    obtain ⟨sub, rest, hsub, hrecv, rfl⟩ := Broadcaster.takes_eq_some ht
    have hlive : id < s.subscribed := by
      refine Nat.lt_of_not_le fun hle => ?_
      rw [(hs.fresh id hle).1] at hsub
      cases hsub
    obtain ⟨sub', hsub', hdel⟩ := hs.delivery id hlive
    cases hsub.symm.trans hsub'
    have hreceive : Delivery { sub with ch := rest } (Function.update s.received id (s.received id ++ [line]) id)
        (s.since id) (s.found id) := by
      rw [Function.update_self]
      exact hdel.receive hrecv
    obtain ⟨hdelivery, hfresh⟩ :=
      hs.touch hlive hreceive (fun k hk => Function.update_of_ne hk ..) (fun _ _ => rfl)
    exact ⟨⟨hs.formed.rest, hs.formed.behind, hs.formed.keptFilled, hs.formed.pendingFilled⟩, hs.nodup, hdelivery, hs.member,
      hs.looked, hs.waiting, hfresh⟩

theorem Sound.step (hs : s.Sound) (encodeLine : Event → String) (ev : BroadcastEvent) : (s.step encodeLine ev).Sound := by
  cases ev with
  | subscribe spare => exact hs.subscribe spare
  | handle ev => exact hs.handle (encodeLine ev)
  | next => exact hs.next
  | receive id => exact hs.receive id

/-- The state after an interleaving of the goroutines. -/
def run (encodeLine : Event → String) (events : List BroadcastEvent) : Broadcast := execute (step encodeLine) start events

theorem sound_run (encodeLine : Event → String) (events : List BroadcastEvent) : (run encodeLine events).Sound :=
  execute_inv (I := Sound) (fun _ ev hs => hs.step encodeLine ev) sound_start events

/-! ### A `Handle` under way ends -/

/-- The rounds that are left of a `Handle`, with the one that releases the lock. -/
def rounds (s : Broadcast) : Nat :=
  match s.state.handling with
  | none => 0
  | some _ => s.state.pending.length + 1

theorem Sound.rounds_next (hs : s.Sound) {h : Handling} (hh : s.state.handling = some h) :
    s.next.rounds + 1 = s.rounds := by
  rw [show s.rounds = s.state.pending.length + 1 by rw [rounds, hh]]
  unfold Broadcast.next
  cases hc : s.state.current with
  | some c =>
    obtain ⟨h, id, sub⟩ := c
    obtain ⟨-, hround⟩ := Broadcaster.formed_round hs.formed hc
    obtain ⟨h', hh', -⟩ := hround.handling
    rw [rounds, hh', hround.pending]
    rfl
  | none =>
    obtain ⟨-, -, hrest, -, hpending⟩ := Broadcaster.formed_finish hs.formed hh (hs.current_eq_none hc h hh)
    rw [rounds, hrest, hpending]
    rfl

def isNext : BroadcastEvent → Bool
  | .next => true
  | _ => false

/-- The other goroutines wait or take lines: they neither add rounds nor make them. -/
theorem Sound.rounds_step (hs : s.Sound) {h : Handling} (hh : s.state.handling = some h) (encodeLine : Event → String)
    (ev : BroadcastEvent) : (s.step encodeLine ev).rounds + (if isNext ev then 1 else 0) = s.rounds := by
  cases ev with
  | next => exact hs.rounds_next hh
  | subscribe spare =>
    rw [Broadcast.step, Broadcast.subscribe, hh]
    rfl
  | handle ev =>
    rw [Broadcast.step, Broadcast.handle, hh]
    rfl
  | receive id =>
    rw [Broadcast.step, Broadcast.receive]
    split <;> rfl

/-- Whatever happens in between, as many rounds as are left release the lock. -/
theorem handle_ends (hs : s.Sound) (encodeLine : Event → String) (events : List BroadcastEvent)
    (hnext : s.rounds ≤ events.countP isNext) :
    ∃ before, before <+: events ∧ (execute (step encodeLine) s before).state.handling = none := by
  induction events generalizing s with
  | nil =>
    refine ⟨[], List.nil_prefix, ?_⟩
    rw [List.countP_nil, Nat.le_zero, rounds] at hnext
    split at hnext
    · assumption
    · cases hnext
  | cons ev events ih =>
    cases hh : s.state.handling with
    | none => exact ⟨[], List.nil_prefix, hh⟩
    | some h =>
      rw [List.countP_cons, ← hs.rounds_step hh encodeLine ev] at hnext
      obtain ⟨before, hbefore, hfree⟩ := ih (hs.step encodeLine ev) (Nat.le_of_add_le_add_right hnext)
      exact ⟨ev :: before, List.cons_prefix_cons.mpr ⟨rfl, hbefore⟩, hfree⟩

/-- What a round does to the others: it looks at one subscriber, and when it prunes it, the others stay in their order. -/
theorem Sound.round_others {p : Nat} (hs : s.Sound) (hc : s.state.current = some (h, p, sub)) :
    s.next.received = s.received ∧ (∀ k, k ≠ p → s.next.state.heap k = s.state.heap k) ∧
    (p ∉ s.next.state.kept ++ s.next.state.pending →
      s.next.state.kept ++ s.next.state.pending = (s.state.kept ++ s.state.pending).erase p) := by
  obtain ⟨-, hround⟩ := Broadcaster.formed_round hs.formed hc
  obtain ⟨-, hnotKept, -⟩ := hs.of_current hc
  have hnext : s.next.state = s.state.next := by
    unfold Broadcast.next
    rw [hc]
  have hreceived : s.next.received = s.received := by
    unfold Broadcast.next
    rw [hc]
  rw [hnext]
  refine ⟨hreceived, fun k hk => ?_, fun hpruned => ?_⟩
  · rw [hround.heap, Table.put_of_ne (Ne.symm hk)]
  · rw [hround.kept] at hpruned ⊢
    rw [hround.pending, List.erase_append_right _ hnotKept, List.erase_cons_head]
    split at hpruned
    · rw [if_pos ‹_›]
    · simp at hpruned

/-- How the broadcaster serves one subscriber. -/
structure Serves (s : Broadcast) (id : Nat) (sub : Subscriber) : Prop where
  subscriber : s.state.heap id = some sub
  /-- What it received and what waits for it are lines handled since it subscribed, in their order. -/
  ordered : (s.received id ++ sub.ch.buffer).Sublist (s.since id)
  /-- They are exactly the lines that found room in its own channel. -/
  complete : s.received id ++ sub.ch.buffer = passed (s.since id) (s.found id)
  bounded : sub.ch.buffer.length ≤ 64
  /-- It is gone exactly when eight rounds in a row found its channel full. -/
  pruned : s.state.handling = none → (id ∉ s.state.subs.toList ↔ Stalled (s.found id))
  /-- Until then each `Handle` looked at it once. -/
  looked : s.state.handling = none → id ∈ s.state.subs.toList → (s.found id).length = (s.since id).length
  /-- A round for another subscriber takes nothing from this one, and pruning the other leaves the rest in place. -/
  isolated : ∀ h p other, s.state.current = some (h, p, other) → p ≠ id →
    s.next.state.heap id = some sub ∧ s.next.received id = s.received id ∧
    (p ∉ s.next.state.kept ++ s.next.state.pending →
      s.next.state.kept ++ s.next.state.pending = (s.state.kept ++ s.state.pending).erase p)

theorem broadcast_delivery (encodeLine : Event → String) (events : List BroadcastEvent) (id : Nat)
    (hid : id < (run encodeLine events).subscribed) : ∃ sub, (run encodeLine events).Serves id sub := by
  have hs := sound_run encodeLine events
  obtain ⟨sub, hsub, hdel⟩ := hs.delivery id hid
  refine ⟨sub, hsub, ?_, hdel.delivered, hdel.room, fun hrest => ?_, fun hrest => ?_, fun h p other hc hne => ?_⟩
  · rw [hdel.delivered]
    exact passed_sublist _ _
  · rw [← Broadcaster.kept_of_rest hrest, (hs.at_rest hrest).2 id]
    simp only [hid, true_and, not_not]
  · rw [← Broadcaster.kept_of_rest hrest]
    exact hs.looked id
  · obtain ⟨hreceived, hheap, hpruned⟩ := hs.round_others hc
    rw [hreceived, hheap id (Ne.symm hne)]
    exact ⟨hsub, rfl, hpruned⟩

def sampleEvent : Event where
  timestamp := none
  monotonicNs := 0
  srcIP := ⟨10, 0, 0, 1⟩
  dstIP := ⟨10, 0, 0, 2⟩
  srcPort := 1000
  dstPort := 80
  proto := 6
  verdict := 0
  srcIdentity := 1
  dstIdentity := 2
  bytes := 60
  latencyNs := 0
  l7StatusCode := 0

/-- The first of two subscribers never reads. -/
def oneReader : List BroadcastEvent :=
  [.subscribe 0, .subscribe 0] ++ (List.replicate 72 [.handle sampleEvent, .next, .next, .next, .receive 1]).flatten

/-- The other one is served on when the first is pruned. -/
theorem broadcast_delivery_pruned :
    (run (fun _ => "line") oneReader).state.subs.toList = [1] ∧ ∃ sub, (run (fun _ => "line") oneReader).Serves 1 sub :=
  ⟨by decide +kernel, broadcast_delivery _ _ 1 (by decide +kernel)⟩

end Broadcast

end Meridian.Telemetry
