import Mathlib.Data.List.Forall2
import Mathlib.Data.List.Nodup
import Mathlib.Data.List.Perm.Basic
import Meridian.Lib.Json

/-! Shapes of JSON records, and what the strict decoder makes of members. The decoder stores every member that names a
    field and whose value has the field's type, so what it keeps of a field is the last value that is not `null`; a record
    that has each field once, under its own name and with a value, is a special case. -/

namespace Meridian.Lib

/-- The type of a field: a number of so many bits, of which those below a limit are valid, a string, or anything. -/
inductive FieldType where
  | uint (bits limit : Nat)
  | string
  | any
  deriving DecidableEq, Repr

/-- The fields of a record: names and types. -/
abbrev Shape := List (String × FieldType)

namespace FieldType

/-- The values that a decoder stores. -/
def Storable : FieldType → Json → Prop
  | .uint bits _, v => v = .null ∨ ∃ n < 2 ^ bits, v = .num n
  | .string, v => v = .null ∨ ∃ s, v = .str s
  | .any, _ => True

/-- The valid values. -/
def Holds : FieldType → Json → Prop
  | .uint _ limit, v => ∃ n < limit, v = .num n
  | .string, v => ∃ s, v = .str s
  | .any, _ => True

/-- Every valid number is one that can be stored. -/
def Fits : FieldType → Bool
  | .uint bits limit => limit ≤ 2 ^ bits
  | .string | .any => true

theorem Holds.storable {t : FieldType} {v : Json} (hfits : t.Fits = true) (h : t.Holds v) : t.Storable v := by
  cases t with
  | uint bits limit =>
    obtain ⟨n, hn, rfl⟩ := h
    exact .inr ⟨n, Nat.lt_of_lt_of_le hn (of_decide_eq_true hfits), rfl⟩
  | string => exact .inr h
  | any => trivial

end FieldType

def Json.isNull : Json → Bool
  | .null => true
  | _ => false

/-! ### The last member of a name -/

/-- The last value of those to be kept, among the members with a name, without regard to case. -/
def lastMember (keep : Json → Bool) (name : String) : List (String × Json) → Option Json
  | [] => none
  | m :: rest =>
    match lastMember keep name rest with
    | some v => some v
    | none => if foldName name = foldName m.1 ∧ keep m.2 = true then some m.2 else none

/-- The last value that is not `null`. -/
def lastSet : String → List (String × Json) → Option Json := lastMember fun v => !v.isNull

section
variable {keep : Json → Bool} {name : String} {members : List (String × Json)} {v : Json}

theorem exists_of_lastMember (h : lastMember keep name members = some v) :
    ∃ m ∈ members, foldName name = foldName m.1 ∧ m.2 = v ∧ keep v = true := by
  induction members with
  | nil => cases h
  | cons m rest ih =>
    rw [lastMember] at h
    cases hrest : lastMember keep name rest with
    | some w =>
      rw [hrest] at h
      cases h
      obtain ⟨m', hm', hfold, hv⟩ := ih hrest
      exact ⟨m', List.mem_cons_of_mem _ hm', hfold, hv⟩
    | none =>
      rw [hrest] at h
      dsimp only at h
      split at h
      · rename_i hm
        cases h
        exact ⟨m, List.mem_cons_self, hm.1, rfl, hm.2⟩
      · cases h

theorem lastMember_ne_none {m : String × Json} (hm : m ∈ members) (hfold : foldName name = foldName m.1)
    (hkeep : keep m.2 = true) : ∃ v, lastMember keep name members = some v := by
  induction members with
  | nil => cases hm
  | cons m' rest ih =>
    rw [lastMember]
    cases hrest : lastMember keep name rest with
    | some v => exact ⟨v, rfl⟩
    | none =>
      rcases List.mem_cons.mp hm with rfl | hm
      · exact ⟨m.2, if_pos ⟨hfold, hkeep⟩⟩
      · obtain ⟨v, hv⟩ := ih hm
        rw [hrest] at hv
        cases hv

end

/-! ### Decoding -/

section
variable {ρ γ : Type} {fields : List (JsonField ρ)} {shape : Shape} {name : String} {v : Json} {r r' : ρ} {get : ρ → γ}
  {val : Json → γ}

theorem foldName_of_find {f : JsonField ρ} (h : (fields.find? fun f => foldName f.name = foldName name) = some f) :
    foldName f.name = foldName name := by
  simpa using List.find?_some h

theorem decodeMembers_cons_eq_ok {rest : List (String × Json)} : decodeMembers fields ((name, v) :: rest) r = .ok r' ↔
      ∃ f mid, (fields.find? fun f => foldName f.name = foldName name) = some f ∧ f.store v r = .ok mid ∧
        decodeMembers fields rest mid = .ok r' := by
  rw [decodeMembers]
  cases fields.find? fun f => foldName f.name = foldName name with
  | none => simp
  | some f =>
    cases hstore : f.store v r with
    | error e => simp [hstore]
    | ok mid => simp [hstore]

/-- A field of the decoder and a field of the shape. -/
def FieldOf (f : JsonField ρ) (t : String × FieldType) : Prop :=
  f.name = t.1 ∧ ∀ v r, (∃ r', f.store v r = .ok r') ↔ t.2.Storable v

/-- No two names of the shape are the same without regard to case. -/
def FoldDistinct (shape : Shape) : Prop := (shape.map fun t => foldName t.1).Nodup

theorem FoldDistinct.eq (h : FoldDistinct shape) {t t' : String × FieldType} (ht : t ∈ shape) (ht' : t' ∈ shape)
    (hfold : foldName t.1 = foldName t'.1) : t = t' := List.inj_on_of_nodup_map h ht ht' hfold

theorem FoldDistinct.names (h : FoldDistinct shape) : (shape.map (·.1)).Nodup := by
  refine List.Nodup.of_map foldName ?_
  rw [List.map_map]
  exact h

/-- Every member names a field and has a value that the field stores. -/
def Stores (shape : Shape) (members : List (String × Json)) : Prop :=
  ∀ m ∈ members, ∃ t ∈ shape, foldName t.1 = foldName m.1 ∧ t.2.Storable m.2

theorem exists_of_forall₂ {A B : Type} {R : A → B → Prop} {as : List A} {bs : List B} (h : List.Forall₂ R as bs) {a : A}
    (ha : a ∈ as) : ∃ b ∈ bs, R a b := by
  induction h with
  | nil => cases ha
  | cons hR _ ih =>
    rcases List.mem_cons.mp ha with rfl | ha
    · exact ⟨_, List.mem_cons_self, hR⟩
    · obtain ⟨b, hb, hR⟩ := ih ha
      exact ⟨b, List.mem_cons_of_mem _ hb, hR⟩

theorem decodeMembers_isOk_iff (h : List.Forall₂ FieldOf fields shape) (hdistinct : FoldDistinct shape)
    (members : List (String × Json)) (r : ρ) :
    (∃ r', decodeMembers fields members r = .ok r') ↔ Stores shape members := by
  induction members generalizing r with
  | nil => exact ⟨fun _ m hm => (List.not_mem_nil hm).elim, fun _ => ⟨r, rfl⟩⟩
  | cons m rest ih =>
    constructor
    · rintro ⟨r', hr'⟩
      obtain ⟨f, mid, hfind, hmid, hrest⟩ := decodeMembers_cons_eq_ok.mp hr'
      obtain ⟨t, ht, hname, hstorable⟩ := exists_of_forall₂ h (List.mem_of_find?_eq_some hfind)
      have hfold : foldName f.name = foldName m.1 := foldName_of_find hfind
      intro m' hm'
      rcases List.mem_cons.mp hm' with rfl | hm'
      · exact ⟨t, ht, hname ▸ hfold, (hstorable _ r).mp ⟨mid, hmid⟩⟩
      · exact (ih mid).mp ⟨r', hrest⟩ m' hm'
    · intro hall
      obtain ⟨t, ht, hfold, hstorable⟩ := hall m List.mem_cons_self
      obtain ⟨f₀, hf₀, hname₀, -⟩ := exists_of_forall₂ (List.Forall₂.flip (R := flip FieldOf) h) ht
      obtain ⟨f, hfind⟩ : ∃ f, (fields.find? fun f => foldName f.name = foldName m.1) = some f := by
        refine Option.isSome_iff_exists.mp (List.find?_isSome.mpr ⟨f₀, hf₀, ?_⟩)
        rw [hname₀]
        exact decide_eq_true hfold
      obtain ⟨t', ht', hname', hstorable'⟩ := exists_of_forall₂ h (List.mem_of_find?_eq_some hfind)
      have hsame : t' = t := by
        refine hdistinct.eq ht' ht ?_
        rw [hfold, ← hname']
        exact foldName_of_find hfind
      obtain ⟨mid, hmid⟩ := (hstorable' m.2 r).mpr (hsame ▸ hstorable)
      obtain ⟨r', hr'⟩ := (ih mid).mpr fun m' hm' => hall m' (List.mem_cons_of_mem _ hm')
      exact ⟨r', decodeMembers_cons_eq_ok.mpr ⟨f, mid, hfind, hmid, hr'⟩⟩

/-! ### The fields of a decoder -/

theorem uintField_eq_ok {bits : Nat} {set : Nat → ρ → ρ} : (uintField name bits set).store v r = .ok r' ↔
      v = .null ∧ r' = r ∨ ∃ n < 2 ^ bits, v = .num n ∧ r' = set n r := by
  cases v with
  | num n =>
    by_cases hn : n < 2 ^ bits <;> simp [uintField, hn, eq_comm]
  | _ => simp [uintField, eq_comm]

theorem stringField_eq_ok {set : String → ρ → ρ} :
    (stringField name set).store v r = .ok r' ↔ v = .null ∧ r' = r ∨ ∃ s, v = .str s ∧ r' = set s r := by
  cases v <;> simp [stringField, eq_comm]

/-- What storing into a field means for what is read from the record: the value is read when the field is the one that is
    read, and nothing changes otherwise. -/
def Reads (get : ρ → γ) (name : String) (keep : Json → Bool) (val : Json → γ) (f : JsonField ρ) : Prop :=
  ∀ v r r', f.store v r = .ok r' → get r' = if foldName name = foldName f.name ∧ keep v = true then val v else get r

theorem reads_uint {bits : Nat} {set : Nat → ρ → ρ} (h : ∀ n r, get (set n r) = val (.num n)) :
    Reads get name (fun v => !v.isNull) val (uintField name bits set) := by
  intro v r r' hstore
  rcases uintField_eq_ok.mp hstore with ⟨rfl, rfl⟩ | ⟨n, -, rfl, rfl⟩
  · simp [Json.isNull]
  · rw [h, if_pos ⟨rfl, rfl⟩]

theorem reads_string {set : String → ρ → ρ} (h : ∀ s r, get (set s r) = val (.str s)) :
    Reads get name (fun v => !v.isNull) val (stringField name set) := by
  intro v r r' hstore
  rcases stringField_eq_ok.mp hstore with ⟨rfl, rfl⟩ | ⟨s, rfl, rfl⟩
  · simp [Json.isNull]
  · rw [h, if_pos ⟨rfl, rfl⟩]

theorem reads_raw {set : Json → ρ → ρ} (h : ∀ v r, get (set v r) = val v) :
    Reads get name (fun _ => true) val (rawField name set) := by
  intro v r r' hstore
  cases hstore
  rw [h, if_pos ⟨rfl, rfl⟩]

section
variable {get : ρ → γ} {name other : String} {keep : Json → Bool} {val : Json → γ}

section
variable (hname : foldName name ≠ foldName other)
include hname

theorem reads_uint_other {bits : Nat} {set : Nat → ρ → ρ} (h : ∀ n r, get (set n r) = get r) :
    Reads get name keep val (uintField other bits set) := by
  intro v r r' hstore
  rw [if_neg fun hand => hname hand.1]
  rcases uintField_eq_ok.mp hstore with ⟨-, rfl⟩ | ⟨n, -, -, rfl⟩
  · rfl
  · exact h n r

theorem reads_string_other {set : String → ρ → ρ} (h : ∀ s r, get (set s r) = get r) :
    Reads get name keep val (stringField other set) := by
  intro v r r' hstore
  rw [if_neg fun hand => hname hand.1]
  rcases stringField_eq_ok.mp hstore with ⟨-, rfl⟩ | ⟨s, -, rfl⟩
  · rfl
  · exact h s r

theorem reads_raw_other {set : Json → ρ → ρ} (h : ∀ v r, get (set v r) = get r) :
    Reads get name keep val (rawField other set) := by
  intro v r r' hstore
  rw [if_neg fun hand => hname hand.1]
  cases hstore
  exact h v r

end

end

/-- What a field holds afterwards is the last value stored into it. -/
theorem decodeMembers_get (get : ρ → γ) (name : String) (keep : Json → Bool) (val : Json → γ)
    (hreads : ∀ f ∈ fields, Reads get name keep val f) {members : List (String × Json)}
    (h : decodeMembers fields members r = .ok r') : get r' = ((lastMember keep name members).map val).getD (get r) := by
  induction members generalizing r with
  | nil =>
    cases h
    rfl
  | cons m rest ih =>
    obtain ⟨f, mid, hfind, hmid, hrest⟩ := decodeMembers_cons_eq_ok.mp h
    have hfold : foldName f.name = foldName m.1 := foldName_of_find hfind
    rw [ih hrest, lastMember, hreads f (List.mem_of_find?_eq_some hfind) _ _ _ hmid, hfold]
    cases lastMember keep name rest with
    | some v => rfl
    | none =>
      by_cases hm : foldName name = foldName m.1 ∧ keep m.2 = true <;> simp [hm]

theorem fieldOf_uint (name : String) (bits limit : Nat) (set : Nat → ρ → ρ) :
    FieldOf (uintField name bits set) (name, .uint bits limit) := by
  refine ⟨rfl, fun v r => ?_⟩
  simp only [uintField_eq_ok, FieldType.Storable]
  constructor
  · rintro ⟨r', ⟨hnull, -⟩ | ⟨n, hn, hv, -⟩⟩
    · exact .inl hnull
    · exact .inr ⟨n, hn, hv⟩
  · rintro (hnull | ⟨n, hn, hv⟩)
    · exact ⟨r, .inl ⟨hnull, rfl⟩⟩
    · exact ⟨set n r, .inr ⟨n, hn, hv, rfl⟩⟩

theorem fieldOf_string (name : String) (set : String → ρ → ρ) : FieldOf (stringField name set) (name, .string) := by
  refine ⟨rfl, fun v r => ?_⟩
  simp only [stringField_eq_ok, FieldType.Storable]
  constructor
  · rintro ⟨r', ⟨hnull, -⟩ | ⟨s, hv, -⟩⟩
    · exact .inl hnull
    · exact .inr ⟨s, hv⟩
  · rintro (hnull | ⟨s, hv⟩)
    · exact ⟨r, .inl ⟨hnull, rfl⟩⟩
    · exact ⟨set s r, .inr ⟨s, hv, rfl⟩⟩

theorem fieldOf_raw (name : String) (set : Json → ρ → ρ) : FieldOf (rawField name set) (name, .any) :=
  ⟨rfl, fun v r => ⟨fun _ => trivial, fun _ => ⟨set v r, rfl⟩⟩⟩

end

/-! ### Exact records -/

/-- The members have the names of the shape, each once. -/
def SameNames (shape : Shape) (members : List (String × Json)) : Prop :=
  (members.map (·.1)).Perm (shape.map (·.1))

/-- Each field once, under its own name, with a valid value. -/
def Exact (shape : Shape) (members : List (String × Json)) : Prop :=
  SameNames shape members ∧ ∀ t ∈ shape, ∀ v, (t.1, v) ∈ members → t.2.Holds v

/-- What a decoder keeps of every field is valid. -/
def LastHold (shape : Shape) (members : List (String × Json)) : Prop :=
  ∀ t ∈ shape, ∀ v, lastSet t.1 members = some v → t.2.Holds v

def NoNull (members : List (String × Json)) : Prop := ∀ m ∈ members, m.2 ≠ .null

section
variable {shape : Shape} {members : List (String × Json)}

section
variable (hdistinct : FoldDistinct shape) (h : SameNames shape members)
include hdistinct h

/-- Under the names of the shape, a member is found by its folded name. -/
theorem SameNames.mem {m : String × Json} (hm : m ∈ members) :
    ∃ t ∈ shape, t.1 = m.1 ∧ ∀ t' ∈ shape, foldName t'.1 = foldName m.1 → t' = t := by
  obtain ⟨t, ht, hname⟩ := List.mem_map.mp (h.mem_iff.mp (List.mem_map_of_mem hm))
  refine ⟨t, ht, hname, fun t' ht' hfold => hdistinct.eq ht' ht ?_⟩
  rw [hfold, ← hname]

theorem SameNames.value_unique {name : String} {v v' : Json} (hv : (name, v) ∈ members) (hv' : (name, v') ∈ members) :
    v = v' := by
  have hnodup : (members.map (·.1)).Nodup := h.nodup_iff.mpr hdistinct.names
  have heq := List.inj_on_of_nodup_map hnodup hv hv' rfl
  exact congrArg Prod.snd heq

/-- With each name once and every value kept, the last value of a field is its only one. -/
theorem SameNames.lastMember_iff {t : String × FieldType} (ht : t ∈ shape) {keep : Json → Bool}
    (hkeep : ∀ m ∈ members, keep m.2 = true) (v : Json) : lastMember keep t.1 members = some v ↔ (t.1, v) ∈ members := by
  have hof {v : Json} (hlast : lastMember keep t.1 members = some v) : (t.1, v) ∈ members := by
    obtain ⟨m, hm, hfold, rfl, -⟩ := exists_of_lastMember hlast
    obtain ⟨t', -, hname, hunique⟩ := h.mem hdistinct hm
    rw [hunique t ht hfold, hname]
    exact hm
  refine ⟨hof, fun hmem => ?_⟩
  obtain ⟨w, hw⟩ := lastMember_ne_none hmem rfl (hkeep _ hmem)
  rw [hw, h.value_unique hdistinct hmem (hof hw)]

end

theorem NoNull.kept (h : NoNull members) : ∀ m ∈ members, (!m.2.isNull) = true := by
  intro m hm
  have hne := h m hm
  cases hv : m.2 with
  | null => exact absurd hv hne
  | _ => rfl

/-- Exact members are those that a decoder stores, keeps valid, and that stand once under their names, not as `null`. -/
theorem exact_iff (hdistinct : FoldDistinct shape) (hfits : ∀ t ∈ shape, t.2.Fits = true)
    (htyped : ∀ t ∈ shape, t.2 ≠ .any) :
    Exact shape members ↔ (Stores shape members ∧ LastHold shape members) ∧ SameNames shape members ∧ NoNull members := by
  constructor
  · rintro ⟨hnames, hholds⟩
    have hmem {m : String × Json} (hm : m ∈ members) : ∃ t ∈ shape, t.1 = m.1 ∧ t.2.Holds m.2 := by
      obtain ⟨t, ht, hname, -⟩ := hnames.mem hdistinct hm
      exact ⟨t, ht, hname, hholds t ht m.2 (hname ▸ hm)⟩
    have hnull : NoNull members := by
      intro m hm hnull
      obtain ⟨t, ht, -, hv⟩ := hmem hm
      rw [hnull] at hv
      cases htype : t.2 with
      | uint bits limit =>
        rw [htype] at hv
        obtain ⟨_, -, h⟩ := hv
        cases h
      | string =>
        rw [htype] at hv
        obtain ⟨_, h⟩ := hv
        cases h
      | any => exact htyped t ht htype
    refine ⟨⟨fun m hm => ?_, fun t ht v hlast => ?_⟩, hnames, hnull⟩
    · obtain ⟨t, ht, hname, hv⟩ := hmem hm
      exact ⟨t, ht, congrArg foldName hname, hv.storable (hfits t ht)⟩
    · exact hholds t ht v ((hnames.lastMember_iff hdistinct ht hnull.kept v).mp hlast)
  · rintro ⟨⟨-, hlast⟩, hnames, hnull⟩
    exact ⟨hnames, fun t ht v hv => hlast t ht v ((hnames.lastMember_iff hdistinct ht hnull.kept v).mpr hv)⟩

end

end Meridian.Lib
