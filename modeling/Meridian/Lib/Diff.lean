import Mathlib.Data.List.Induction
import Meridian.Lib.Table

/-! Diffs of keyed lists, and the maps they are applied to. A diff upserts what is new or changed and deletes the
    keys that are gone. On a map with the key of the diff, it turns the entries of the old list into those of the
    next one if the keys are distinct, and else exactly when no repeated key has the same last element in both lists.
    On a map with another key, say an address, it does so exactly when every address that an element moved away from
    is taken again, and none that a deleted element had is. -/

namespace Meridian.Lib

variable {A K L V : Type}

theorem eq_of_key {key : A → K} {xs : List A} (hnd : (xs.map key).Nodup) {a b : A} (ha : a ∈ xs) (hb : b ∈ xs)
    (h : key a = key b) : a = b :=
  List.inj_on_of_nodup_map hnd ha hb h

/-! ### Diffs -/

section
variable [DecidableEq K] {key : A → K} {xs : List A} {a : A} {k : K}

/-- The elements by key; of several with one key, the last. -/
def byKey (key : A → K) (xs : List A) : Table K A := Table.writes (fun _ => none) (xs.map fun a => (key a, some a))

def upserts [DecidableEq A] (key : A → K) (old next : List A) : List A :=
  next.filter fun a => byKey key old (key a) ≠ some a

def gone (key : A → K) (old next : List A) : List A := old.filter fun a => (byKey key next (key a)).isNone

theorem byKey_eq_some_iff (hnd : (xs.map key).Nodup) : byKey key xs k = some a ↔ a ∈ xs ∧ key a = k := by
  refine (Table.writes_puts_eq_some_iff fun _ ha _ hb => eq_of_key hnd ha hb).trans ?_
  simp [and_comm]

theorem byKey_eq_none_iff : byKey key xs k = none ↔ ∀ a ∈ xs, key a ≠ k := by
  rw [byKey, Table.writes_apply]
  constructor
  · intro h a ha hk
    cases hl : Table.lastWrite (xs.map fun a => (key a, some a)) k with
    | none => exact Table.lastWrite_eq_none_iff.mp hl _ (List.mem_map_of_mem ha) hk
    | some o =>
      obtain ⟨b, -, heq⟩ := List.mem_map.mp (Table.mem_of_lastWrite hl)
      rw [hl, Option.getD_some, ← (Prod.mk.inj heq).2] at h
      cases h
  · intro h
    rw [Table.lastWrite_eq_none_iff.mpr]
    · rfl
    · intro w hw
      obtain ⟨a, ha, rfl⟩ := List.mem_map.mp hw
      exact h a ha

theorem mem_of_byKey (h : byKey key xs k = some a) : a ∈ xs ∧ key a = k := by
  obtain ⟨b, hb, hk, rfl⟩ := Table.exists_of_writes_puts h
  exact ⟨hb, hk⟩

theorem byKey_snoc (xs : List A) (a : A) : byKey key (xs ++ [a]) k = if key a = k then some a else byKey key xs k := by
  rw [byKey, List.map_append, Table.writes_append]
  exact Table.write_apply _ _ _

/-- The last element with a key is still the last one after others are dropped. -/
theorem byKey_filter {p : A → Bool} (h : byKey key xs k = some a) (hp : p a = true) : byKey key (xs.filter p) k = some a := by
  induction xs using List.reverseRecOn with
  | nil => cases h
  | append_singleton xs b ih =>
    rw [byKey_snoc] at h
    rw [List.filter_append, List.filter_singleton]
    by_cases hb : key b = k
    · rw [if_pos hb] at h
      cases h
      rw [hp, cond_true, byKey_snoc, if_pos hb]
    · rw [if_neg hb] at h
      cases p b with
      | true => rw [cond_true, byKey_snoc, if_neg hb, ih h]
      | false => rw [cond_false, List.append_nil, ih h]

variable {old next : List A}

theorem mem_upserts [DecidableEq A] (hnd : (old.map key).Nodup) : a ∈ upserts key old next ↔ a ∈ next ∧ a ∉ old := by
  simp [upserts, byKey_eq_some_iff hnd]

theorem mem_gone : a ∈ gone key old next ↔ a ∈ old ∧ ∀ b ∈ next, key b ≠ key a := by
  simp [gone, byKey_eq_none_iff]

/-- A write of a diff is that of a new or changed element, or deletes the key of one that is gone. -/
theorem mem_diff_writes [DecidableEq A] (hold : (old.map key).Nodup) {f : K → L} {g : A → V} {l : L} {o : Option V}
    (h : (l, o) ∈ (upserts key old next).map (fun a => (f (key a), some (g a))) ++
      (gone key old next).map fun a => (f (key a), none)) :
    (∃ a ∈ next, a ∉ old ∧ f (key a) = l ∧ o = some (g a)) ∨
      ∃ a ∈ old, (∀ b ∈ next, key b ≠ key a) ∧ f (key a) = l ∧ o = none := by
  rcases List.mem_append.mp h with hput | hdel
  · obtain ⟨a, ha, heq⟩ := List.mem_map.mp hput
    obtain ⟨hl, ho⟩ := Prod.mk.inj heq
    exact Or.inl ⟨a, ((mem_upserts hold).mp ha).1, ((mem_upserts hold).mp ha).2, hl, ho.symm⟩
  · obtain ⟨a, ha, heq⟩ := List.mem_map.mp hdel
    obtain ⟨hl, ho⟩ := Prod.mk.inj heq
    exact Or.inr ⟨a, (mem_gone.mp ha).1, (mem_gone.mp ha).2, hl, ho.symm⟩

/-- A diff writes one thing to a key. -/
theorem agreeing_diff [DecidableEq A] (hold : (old.map key).Nodup) (hnext : (next.map key).Nodup) {f : K → L}
    (hf : Function.Injective f) (g : A → V) :
    Table.Agreeing ((upserts key old next).map (fun a => (f (key a), some (g a))) ++
      (gone key old next).map fun a => (f (key a), none)) := by
  intro l o o' ho ho'
  rcases mem_diff_writes hold ho with ⟨a, ha, -, rfl, rfl⟩ | ⟨a, -, hgone, rfl, rfl⟩ <;>
    rcases mem_diff_writes hold ho' with ⟨b, hb, -, hl, rfl⟩ | ⟨b, -, hgone', hl, rfl⟩
  · rw [eq_of_key hnext ha hb (hf hl.symm)]
  · exact absurd (hf hl.symm) (hgone' a ha)
  · exact absurd (hf hl) (hgone b hb)
  · rfl

@[simp] theorem upserts_nil [DecidableEq A] (xs : List A) : upserts key [] xs = xs := by
  simp [upserts, byKey]

@[simp] theorem gone_nil (xs : List A) : gone key [] xs = [] := rfl

theorem upserts_self [DecidableEq A] (hnd : (xs.map key).Nodup) : upserts key xs xs = [] :=
  List.eq_nil_iff_forall_not_mem.mpr fun _ ha =>
    absurd ((mem_upserts hnd).mp ha).1 ((mem_upserts hnd).mp ha).2

theorem gone_self (xs : List A) : gone key xs xs = [] :=
  List.eq_nil_iff_forall_not_mem.mpr fun a ha => (mem_gone.mp ha).2 a (mem_gone.mp ha).1 rfl

theorem writes_elements (t : Table K A) (xs : List A) (k : K) :
    Table.writes t (xs.map fun a => (key a, some a)) k = (byKey key xs k).or (t k) := by
  rw [byKey, Table.writes_apply, Table.writes_apply]
  cases hl : Table.lastWrite (xs.map fun a => (key a, some a)) k with
  | none => rfl
  | some o =>
    obtain ⟨a, -, heq⟩ := List.mem_map.mp (Table.mem_of_lastWrite hl)
    cases heq
    rfl

/-- What a diff leaves under a key, of lists that may repeat it. -/
theorem writes_diff_apply [DecidableEq A] (old next : List A) (k : K) :
    Table.writes (byKey key old) ((upserts key old next).map (fun a => (key a, some a)) ++
      (gone key old next).map fun a => (key a, none)) k =
      if byKey key next k = none then none else (byKey key (upserts key old next) k).or (byKey key old k) := by
  rw [Table.writes_append, Table.writes_apply, writes_elements]
  cases hl : Table.lastWrite ((gone key old next).map fun a => (key a, (none : Option A))) k with
  | some o =>
    obtain ⟨a, ha, heq⟩ := List.mem_map.mp (Table.mem_of_lastWrite hl)
    cases heq
    rw [if_pos (byKey_eq_none_iff.mpr (mem_gone.mp ha).2)]
    rfl
  | none =>
    by_cases hnext : byKey key next k = none
    · have hups : byKey key (upserts key old next) k = none := byKey_eq_none_iff.mpr fun a ha =>
        byKey_eq_none_iff.mp hnext a (List.mem_filter.mp ha).1
      have hold : byKey key old k = none := byKey_eq_none_iff.mpr fun a ha hk => by
        have hgone : a ∈ gone key old next := mem_gone.mpr ⟨ha, fun b hb => hk ▸ byKey_eq_none_iff.mp hnext b hb⟩
        exact Table.lastWrite_eq_none_iff.mp hl _ (List.mem_map_of_mem hgone) hk
      rw [if_pos hnext, hups, hold]
      rfl
    · rw [if_neg hnext]
      rfl

/-- A diff of lists that may repeat keys leaves the last elements of the next list, unless one of these was there before
    and the list has another element with its key. -/
theorem byKey_diff_iff [DecidableEq A] (old next : List A) :
    Table.writes (byKey key old) ((upserts key old next).map (fun a => (key a, some a)) ++
      (gone key old next).map fun a => (key a, none)) = byKey key next ↔
      ∀ a ∈ next, byKey key old (key a) = byKey key next (key a) → byKey key next (key a) = some a := by
  constructor
  · intro h a ha hsame
    by_contra hother
    have hleft := congrFun h (key a)
    have hsome : byKey key next (key a) ≠ none := fun hnone => byKey_eq_none_iff.mp hnone a ha rfl
    have hups : byKey key (upserts key old next) (key a) ≠ none := fun hnone =>
      byKey_eq_none_iff.mp hnone a (List.mem_filter.mpr ⟨ha, by simpa [hsame] using hother⟩) rfl
    obtain ⟨b, hb⟩ := Option.ne_none_iff_exists'.mp hups
    obtain ⟨hbmem, hbkey⟩ := mem_of_byKey hb
    rw [writes_diff_apply, if_neg hsome, hb, Option.some_or, ← hsame, ← hbkey] at hleft
    have hdiffers := (List.mem_filter.mp hbmem).2
    rw [← hleft] at hdiffers
    simp at hdiffers
  · intro h
    funext k
    rw [writes_diff_apply]
    cases hnext : byKey key next k with
    | none => rfl
    | some z =>
      obtain ⟨hz, rfl⟩ := mem_of_byKey hnext
      rw [if_neg (Option.some_ne_none z)]
      by_cases hold : byKey key old (key z) = some z
      · -- The last element was there before: no element with its key is written.
        have hups : byKey key (upserts key old next) (key z) = none := byKey_eq_none_iff.mpr fun a ha hk => by
          obtain ⟨hanext, hnew⟩ := List.mem_filter.mp ha
          have heq := h a hanext (by rw [hk, hold, hnext])
          rw [hk, hnext] at heq
          cases heq
          simp [hold] at hnew
        rw [hups, hold]
        rfl
      · have hups : byKey key (upserts key old next) (key z) = some z := byKey_filter hnext (by simpa using hold)
        rw [hups]
        rfl

end

/-! ### Maps -/

/-- The map has the entry of each element and no other. -/
def Entries (t : Table L V) (f : A → L) (g : A → V) (xs : List A) : Prop :=
  ∀ l v, t l = some v ↔ ∃ a ∈ xs, f a = l ∧ g a = v

variable {g : A → V} {before after : Table L V}

theorem writes_puts_erases [DecidableEq L] {t : Table L V} {f : A → L} {us ds : List A} {l : L} {v : V}
    (hf : ∀ a ∈ us, ∀ b ∈ us, f a = f b → a = b) :
    Table.writes t (us.map (fun a => (f a, some (g a))) ++ ds.map fun a => (f a, none)) l = some v ↔
      (∀ d ∈ ds, f d ≠ l) ∧ ((∃ a ∈ us, f a = l ∧ g a = v) ∨ (∀ a ∈ us, f a ≠ l) ∧ t l = some v) := by
  rw [Table.writes_apply, Table.lastWrite_append]
  cases hd : Table.lastWrite (ds.map fun a => (f a, (none : Option V))) l with
  | some o =>
    obtain ⟨d, hmem, heq⟩ := List.mem_map.mp (Table.mem_of_lastWrite hd)
    obtain ⟨hl, rfl⟩ := Prod.mk.inj heq
    exact iff_of_false (by simp) fun h => h.1 d hmem hl
  | none =>
    have hds : ∀ d ∈ ds, f d ≠ l := fun d hmem => Table.lastWrite_eq_none_iff.mp hd _ (List.mem_map_of_mem hmem)
    cases hu : Table.lastWrite (us.map fun a => (f a, some (g a))) l with
    | some o =>
      obtain ⟨a, ha, heq⟩ := List.mem_map.mp (Table.mem_of_lastWrite hu)
      obtain ⟨rfl, rfl⟩ := Prod.mk.inj heq
      simp only [Option.none_or, Option.getD_some, Option.some.injEq]
      constructor
      · rintro rfl
        exact ⟨hds, Or.inl ⟨a, ha, rfl, rfl⟩⟩
      · rintro ⟨-, ⟨b, hb, hkey, rfl⟩ | ⟨hnone, -⟩⟩
        · rw [hf b hb a ha hkey]
        · exact absurd rfl (hnone a ha)
    | none =>
      have hus : ∀ a ∈ us, f a ≠ l := fun a ha => Table.lastWrite_eq_none_iff.mp hu _ (List.mem_map_of_mem ha)
      simp only [Option.none_or, Option.getD_none]
      constructor
      · intro h
        exact ⟨hds, Or.inr ⟨hus, h⟩⟩
      · rintro ⟨-, ⟨a, ha, hkey, -⟩ | ⟨-, h⟩⟩
        · exact absurd hkey (hus a ha)
        · exact h

/-- The entries of `xs` written over a map: a location of an element holds an entry of one at that location, and
    every other location is as before. -/
structure Overlay (before after : Table L V) (at_ : A → L → Prop) (g : A → V) (xs : List A) : Prop where
  written : ∀ a ∈ xs, ∀ l, at_ a l → ∃ b ∈ xs, at_ b l ∧ after l = some (g b)
  kept : ∀ l, (∀ a ∈ xs, ¬at_ a l) → after l = before l

theorem Overlay.congr {at_ at' : A → L → Prop} {xs : List A} (h : Overlay before after at' g xs)
    (hat : ∀ a ∈ xs, ∀ l, at_ a l ↔ at' a l) : Overlay before after at_ g xs where
  written a ha l hl := by
    obtain ⟨b, hb, hbl, hv⟩ := h.written a ha l ((hat a ha l).mp hl)
    exact ⟨b, hb, (hat b hb l).mpr hbl, hv⟩
  kept l hfree := h.kept l fun a ha hl => hfree a ha ((hat a ha l).mpr hl)

theorem Overlay.eq_of_nil {at_ : A → L → Prop} (h : Overlay before after at_ g []) : after = before :=
  funext fun l => h.kept l (by simp)

/-- The same elements in another order, or fewer of them that still cover every location. -/
theorem Overlay.of_subset {at_ : A → L → Prop} {xs ys : List A} (h : Overlay before after at_ g xs) (hsub : xs ⊆ ys)
    (hcover : ∀ a ∈ ys, ∀ l, at_ a l → ∃ b ∈ xs, at_ b l) : Overlay before after at_ g ys where
  written a ha l hl := by
    obtain ⟨b, hb, hbl⟩ := hcover a ha l hl
    obtain ⟨c, hc, hcl, hv⟩ := h.written b hb l hbl
    exact ⟨c, hsub hc, hcl, hv⟩
  kept l hfree := h.kept l fun a ha => hfree a (hsub ha)

theorem overlay_writes [DecidableEq L] (t : Table L V) (f : A → L) (g : A → V) (xs : List A) :
    Overlay t (Table.writes t (xs.map fun a => (f a, some (g a)))) (fun a l => f a = l) g xs := by
  constructor
  · rintro a ha l rfl
    rw [Table.writes_apply]
    cases hl : Table.lastWrite (xs.map fun a => (f a, some (g a))) (f a) with
    | none => exact absurd rfl (Table.lastWrite_eq_none_iff.mp hl _ (List.mem_map_of_mem ha))
    | some o =>
      obtain ⟨b, hb, heq⟩ := List.mem_map.mp (Table.mem_of_lastWrite hl)
      obtain ⟨hkey, rfl⟩ := Prod.mk.inj heq
      exact ⟨b, hb, hkey, rfl⟩
  · intro l hfree
    have hnone : Table.lastWrite (xs.map fun a => (f a, some (g a))) l = none := by
      refine Table.lastWrite_eq_none_iff.mpr fun w hw => ?_
      obtain ⟨a, ha, rfl⟩ := List.mem_map.mp hw
      exact hfree a ha
    rw [Table.writes_apply, hnone]
    rfl

section
variable [DecidableEq A] [DecidableEq K] [DecidableEq L] {key : A → K} {old next : List A}
  (hold : (old.map key).Nodup)
include hold

/-- On a map with the key of the diff, the entries of the old list become those of the next one. -/
theorem entries_diff (hnext : (next.map key).Nodup) {t : Table L V} {f : K → L} (hf : Function.Injective f)
    (h : Entries t (fun a => f (key a)) g old) :
    Entries (Table.writes t ((upserts key old next).map (fun a => (f (key a), some (g a))) ++
      (gone key old next).map fun a => (f (key a), none))) (fun a => f (key a)) g next := by
  intro l v
  have hups : ∀ {a}, a ∈ upserts key old next ↔ a ∈ next ∧ a ∉ old := mem_upserts hold
  rw [writes_puts_erases fun a ha b hb hab => eq_of_key hnext (hups.mp ha).1 (hups.mp hb).1 (hf hab)]
  simp only [hups, mem_gone]
  constructor
  · rintro ⟨hkept, ⟨a, ⟨ha, -⟩, hl, hv⟩ | ⟨hfree, hv⟩⟩
    · exact ⟨a, ha, hl, hv⟩
    · -- An old entry that stays: its key is in `next`, and there it is unchanged.
      obtain ⟨a, ha, rfl, rfl⟩ := (h l v).mp hv
      obtain ⟨b, hb, hkey⟩ : ∃ b ∈ next, key b = key a := by
        by_contra hnone
        push Not at hnone
        exact hkept a ⟨ha, hnone⟩ rfl
      have hbold : b ∈ old := by
        by_contra hnew
        exact hfree b ⟨hb, hnew⟩ (congrArg f hkey)
      exact ⟨b, hb, congrArg f hkey, congrArg g (eq_of_key hold hbold ha hkey)⟩
  · rintro ⟨a, ha, rfl, rfl⟩
    refine ⟨fun d hd heq => hd.2 a ha (hf heq.symm), ?_⟩
    by_cases haold : a ∈ old
    · refine Or.inr ⟨fun b hb heq => ?_, (h _ _).mpr ⟨a, haold, rfl, rfl⟩⟩
      exact hb.2 (eq_of_key hnext hb.1 ha (hf heq) ▸ haold)
    · exact Or.inl ⟨a, ⟨ha, haold⟩, rfl, rfl⟩

/-- A diff by key that suits a map by address: an address that an element moved away from is taken again, and
    one that a deleted element had is not. -/
structure Clean (key : A → K) (addr : A → L) (old next : List A) : Prop where
  moved : ∀ a ∈ old, ∀ b ∈ next, key b = key a → addr b ≠ addr a → ∃ c ∈ next, addr c = addr a
  deleted : ∀ a ∈ old, (∀ b ∈ next, key b ≠ key a) → ∀ c ∈ next, addr c ≠ addr a

/-- On a map with another key, the entries become those of the next list exactly when the diff suits it. -/
theorem entries_diff_iff_clean {addr : A → L} (hoaddr : (old.map addr).Nodup) (hnaddr : (next.map addr).Nodup)
    {t : Table L K} (h : Entries t addr key old) :
    Entries (Table.writes t ((upserts key old next).map (fun a => (addr a, some (key a))) ++
      (gone key old next).map fun a => (addr a, none))) addr key next ↔ Clean key addr old next := by
  have hups : ∀ {a}, a ∈ upserts key old next ↔ a ∈ next ∧ a ∉ old := mem_upserts hold
  unfold Entries
  simp only [writes_puts_erases fun a ha b hb => eq_of_key hnaddr (hups.mp ha).1 (hups.mp hb).1]
  simp only [hups, mem_gone]
  constructor
  · intro hexact
    constructor
    · intro a ha b hb hkey hmoved
      by_contra hnone
      push Not at hnone
      -- The entry at the old address is neither deleted nor overwritten.
      have hstale := (hexact (addr a) (key a)).mp ⟨?_, Or.inr ⟨fun c hc => hnone c hc.1, (h _ _).mpr ⟨a, ha, rfl, rfl⟩⟩⟩
      · obtain ⟨c, hc, haddr, -⟩ := hstale
        exact hnone c hc haddr
      · intro d hd heq
        exact hd.2 b hb (eq_of_key hoaddr hd.1 ha heq ▸ hkey)
    · intro a ha hgone c hc heq
      exact ((hexact (addr c) (key c)).mpr ⟨c, hc, rfl, rfl⟩).1 a ⟨ha, hgone⟩ heq.symm
  · intro hclean l v
    constructor
    · rintro ⟨hkept, ⟨a, ⟨ha, -⟩, hl, hv⟩ | ⟨hfree, hv⟩⟩
      · exact ⟨a, ha, hl, hv⟩
      · obtain ⟨a, ha, rfl, rfl⟩ := (h l v).mp hv
        obtain ⟨b, hb, hkey⟩ : ∃ b ∈ next, key b = key a := by
          by_contra hnone
          push Not at hnone
          exact hkept a ⟨ha, hnone⟩ rfl
        -- Whoever of `next` has the address was there before, so that it is `a` itself.
        obtain ⟨c, hc, haddr⟩ : ∃ c ∈ next, addr c = addr a := by
          by_cases hmoved : addr b = addr a
          · exact ⟨b, hb, hmoved⟩
          · exact hclean.moved a ha b hb hkey hmoved
        have hcold : c ∈ old := by
          by_contra hnew
          exact hfree c ⟨hc, hnew⟩ haddr
        exact ⟨c, hc, haddr, congrArg key (eq_of_key hoaddr hcold ha haddr)⟩
    · rintro ⟨a, ha, rfl, rfl⟩
      refine ⟨fun d hd heq => hclean.deleted d hd.1 hd.2 a ha heq.symm, ?_⟩
      by_cases haold : a ∈ old
      · refine Or.inr ⟨fun b hb heq => ?_, (h _ _).mpr ⟨a, haold, rfl, rfl⟩⟩
        exact hb.2 (eq_of_key hnaddr hb.1 ha heq ▸ haold)
      · exact Or.inl ⟨a, ⟨ha, haold⟩, rfl, rfl⟩

end

end Meridian.Lib
