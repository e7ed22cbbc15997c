import Meridian.Control.EtcdStore
import Meridian.Lib.Keyspace

/-! The store in etcd lists what the in-memory store lists. -/

namespace Meridian.Store
open Lib Wire

/-! ### Keys -/

theorem identityKey_injective : Function.Injective identityKey := by
  intro a b h
  have hid : decimal a.toNat = decimal b.toNat := by
    rw [← String.toList_inj] at h ⊢
    simpa only [identityKey, String.toList_append, List.append_cancel_left_eq] using h
  exact UInt32.toNat_inj.mp (decimal_injective hid)

theorem policyKey_injective : Function.Injective policyKey := by
  intro a b h
  rw [← String.toList_inj] at h
  have hsep : "_".toList = ['_'] := rfl
  simp only [policyKey, String.toList_append, hsep, List.append_assoc, List.singleton_append,
    List.append_cancel_left_eq] at h
  obtain ⟨hsrc, h⟩ := decimal_append_cons_inj rfl h
  obtain ⟨hdst, h⟩ := decimal_append_cons_inj rfl h
  obtain ⟨hport, h⟩ := decimal_append_cons_inj rfl h
  obtain ⟨hprotocol, h⟩ := decimal_append_cons_inj rfl h
  have hdirection := decimal_injective (String.toList_inj.mp h)
  obtain ⟨src, dst, port, protocol, direction⟩ := a
  obtain ⟨src', dst', port', protocol', direction'⟩ := b
  rw [PolicyRuleKey.mk.injEq]
  exact ⟨UInt32.toNat_inj.mp hsrc, UInt32.toNat_inj.mp hdst, UInt16.toNat_inj.mp hport, UInt8.toNat_inj.mp hprotocol,
    UInt8.toNat_inj.mp hdirection⟩

theorem start_identityKey (id : IdentityID) : identityPrefix.toList <+: (identityKey id).toList := by
  rw [identityKey, String.toList_append]
  exact List.prefix_append _ _

theorem start_policyKey (k : PolicyRuleKey) : policyPrefix.toList <+: (policyKey k).toList := by
  simp only [policyKey, String.toList_append, List.append_assoc]
  exact List.prefix_append _ _

theorem starts_disjoint {s : List Char} (hid : identityPrefix.toList <+: s) : ¬ policyPrefix.toList <+: s := by
  intro hpolicy
  rcases List.prefix_or_prefix_of_prefix hid hpolicy with h | h
  · exact absurd h (by decide)
  · exact absurd h (by decide)

theorem identityKey_ne_policyKey (id : IdentityID) (k : PolicyRuleKey) : identityKey id ≠ policyKey k := by
  intro h
  exact starts_disjoint (start_identityKey id) (h ▸ start_policyKey k)

/-! ### Simulation -/

namespace KeyValues

variable {V : Type} {codec : Codec V} {c : Contents} {kv : KeyValues V}

/-- What etcd holds while the in-memory store has the contents `c`. -/
structure Mirrors (codec : Codec V) (c : Contents) (kv : KeyValues V) : Prop where
  identities : Keyspace.Holds identityKey codec.marshalIdentity c.identities kv
  policies : Keyspace.Holds policyKey codec.marshalPolicy c.policies kv
  keys : ∀ key ∈ kv, (∃ id, key = identityKey id) ∨ ∃ k, key = policyKey k

theorem Mirrors.commit (h : Mirrors codec c kv) (m : Mutation) : Mirrors codec (c.commit m) (commit codec kv m) := by
  cases m with
  | putIdentity identity =>
    refine ⟨h.identities.insert identityKey_injective _ _, h.policies.insert_other (fun k => ?_) _, fun key hkey => ?_⟩
    · exact (identityKey_ne_policyKey _ k).symm
    · rcases (AList.mem_insert kv).mp hkey with rfl | hkey
      · exact .inl ⟨_, rfl⟩
      · exact h.keys key hkey
  | deleteIdentity id =>
    refine ⟨h.identities.erase identityKey_injective _, h.policies.erase_other fun k => ?_, fun key hkey => ?_⟩
    · exact (identityKey_ne_policyKey _ k).symm
    · exact h.keys key (AList.mem_erase.mp hkey).2
  | putPolicy rule =>
    refine ⟨h.identities.insert_other (fun id => ?_) _, h.policies.insert policyKey_injective _ _, fun key hkey => ?_⟩
    · exact identityKey_ne_policyKey id _
    · rcases (AList.mem_insert kv).mp hkey with rfl | hkey
      · exact .inr ⟨_, rfl⟩
      · exact h.keys key hkey
  | deletePolicy key =>
    refine ⟨h.identities.erase_other fun id => ?_, h.policies.erase policyKey_injective _, fun key hkey => ?_⟩
    · exact identityKey_ne_policyKey id _
    · exact h.keys key (AList.mem_erase.mp hkey).2

theorem mirrors_execute (codec : Codec V) (mutations : List Mutation) :
    Mirrors codec (execute Contents.commit .empty mutations) (execute (commit codec) ∅ mutations) := by
  have hrun : ∀ c kv, Mirrors codec c kv →
      Mirrors codec (execute Contents.commit c mutations) (execute (KeyValues.commit codec) kv mutations) := by
    induction mutations with
    | nil => exact fun c kv h => h
    | cons m mutations ih => exact fun c kv h => ih _ _ (h.commit m)
  refine hrun _ _ ⟨.empty _ _, .empty _ _, fun key hkey => ?_⟩
  exact absurd hkey (AList.notMem_empty key)

/-! ### Listings -/

variable {K A : Type} [DecidableEq K] {key : K → String} {enc : A → V} {dec : V → Option A} {m : AList fun _ : K => A}
  {start : String}

theorem mem_withPrefix {k : String} {v : V} :
    (k, v) ∈ kv.withPrefix start ↔ kv.lookup k = some v ∧ start.toList <+: k.toList := by
  rw [withPrefix, List.mem_map, ← Option.mem_def, AList.mem_lookup_iff]
  constructor
  · rintro ⟨⟨k', v'⟩, hmem, heq⟩
    cases heq
    rw [List.mem_filter, List.isPrefixOf_iff_prefix] at hmem
    exact hmem
  · intro hmem
    exact ⟨⟨k, v⟩, List.mem_filter.mpr ⟨hmem.1, List.isPrefixOf_iff_prefix.mpr hmem.2⟩, rfl⟩

theorem mem_values_iff {a : A} : a ∈ m.entries.map (·.2) ↔ ∃ k, m.lookup k = some a := by
  rw [List.mem_map]
  constructor
  · rintro ⟨⟨k, a⟩, hmem, rfl⟩
    exact ⟨k, AList.mem_lookup_iff.mpr hmem⟩
  · rintro ⟨k, hk⟩
    exact ⟨⟨k, a⟩, AList.mem_lookup_iff.mp hk, rfl⟩

/-- A listing of a part of the keys of etcd has the values of the map that this part holds. -/
theorem list_of_holds (h : Keyspace.Holds key enc m kv) (hdec : ∀ a, dec (enc a) = some a)
    (hstart : ∀ k, start.toList <+: (key k).toList)
    (hkeys : ∀ s ∈ kv, start.toList <+: s.toList → ∃ k, s = key k) (err : String → ListError) :
    ∃ l, kv.list start dec err = .ok l ∧ ∀ a, a ∈ l ↔ a ∈ m.entries.map (·.2) := by
  have hentry : ∀ x ∈ kv.withPrefix start, ∃ k a, x = (key k, enc a) ∧ m.lookup k = some a := by
    rintro ⟨s, v⟩ hx
    obtain ⟨hlookup, hpre⟩ := mem_withPrefix.mp hx
    obtain ⟨k, rfl⟩ := hkeys s (AList.lookup_isSome.mp (by rw [hlookup]; rfl)) hpre
    rw [h k] at hlookup
    obtain ⟨a, ha, rfl⟩ := Option.map_eq_some_iff.mp hlookup
    exact ⟨k, a, rfl, ha⟩
  have hread : ∀ k a, read dec err (key k, enc a) = .ok a := by
    intro k a
    simp only [read, hdec]
  obtain ⟨l, hl, hmem⟩ := Keyspace.mapM_ok (f := read dec err) (l := kv.withPrefix start) fun x hx => by
    obtain ⟨k, a, rfl, -⟩ := hentry x hx
    exact ⟨a, hread k a⟩
  refine ⟨l, hl, fun a => ?_⟩
  rw [hmem, mem_values_iff]
  constructor
  · rintro ⟨x, hx, ha⟩
    obtain ⟨k, a', rfl, hk⟩ := hentry x hx
    rw [hread, Except.ok.injEq] at ha
    exact ⟨k, ha ▸ hk⟩
  · rintro ⟨k, hk⟩
    refine ⟨(key k, enc a), mem_withPrefix.mpr ⟨?_, hstart k⟩, hread k a⟩
    rw [h k, hk, Option.map_some]

end KeyValues

/-- After the same mutations the store in etcd lists the same identities and policies as the in-memory store. Different
    policy keys have different keys in etcd, and no key of one kind is listed with the other. -/
theorem etcd_refines_memory {V : Type} (codec : Codec V) (mutations : List Mutation) :
    (∃ identities, (execute (KeyValues.commit codec) ∅ mutations).listIdentities codec = .ok identities ∧
        ∀ identity, identity ∈ identities ↔ identity ∈ (execute Contents.commit .empty mutations).listIdentities) ∧
      (∃ policies, (execute (KeyValues.commit codec) ∅ mutations).listPolicies codec = .ok policies ∧
        ∀ rule, rule ∈ policies ↔ rule ∈ (execute Contents.commit .empty mutations).listPolicies) ∧
      Function.Injective policyKey ∧
      (∀ k, ¬ identityPrefix.toList <+: (policyKey k).toList) ∧ ∀ id, ¬ policyPrefix.toList <+: (identityKey id).toList := by
  have hmirrors := KeyValues.mirrors_execute codec mutations
  refine ⟨?_, ?_, policyKey_injective, fun k h => starts_disjoint h (start_policyKey k),
    fun id => starts_disjoint (start_identityKey id)⟩
  · refine KeyValues.list_of_holds hmirrors.identities codec.unmarshal_identity start_identityKey (fun s hs hpre => ?_) _
    rcases hmirrors.keys s hs with hid | ⟨k, rfl⟩
    · exact hid
    · exact absurd (start_policyKey k) (starts_disjoint hpre)
  · refine KeyValues.list_of_holds hmirrors.policies codec.unmarshal_policy start_policyKey (fun s hs hpre => ?_) _
    rcases hmirrors.keys s hs with ⟨id, rfl⟩ | hk
    · exact absurd hpre (starts_disjoint (start_identityKey id))
    · exact hk

end Meridian.Store
