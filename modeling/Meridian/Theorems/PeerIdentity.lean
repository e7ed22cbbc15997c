import Meridian.Proxy.SpiffeResolver
import Meridian.Theorems.Inbound

/-! The identity of a peer against the order in which the identities are listed. The last identity with a SPIFFE ID wins,
    so the order does not matter exactly when a SPIFFE ID names one identity. -/

namespace Meridian.Proxy
open Lib Url Wire Ca

namespace MapSpiffeIDResolver

/-- The identities that `Update` takes. -/
def named (identities : List Identity) : List Identity := identities.filter fun i => i.spiffeID ≠ ""

/-- The loop as two logs of writes. -/
theorem foldl_add (r : MapSpiffeIDResolver) (identities : List Identity) :
    identities.foldl add r =
      ⟨Table.writes r.byURI ((named identities).map fun i => (utf8 i.spiffeID, some i.id)),
       Table.writes r.byID ((named identities).map fun i => (i.id, some (utf8 i.spiffeID)))⟩ := by
  induction identities generalizing r with
  | nil => rfl
  | cons i identities ih =>
    rw [List.foldl_cons, ih, add]
    by_cases hi : i.spiffeID = ""
    · simp [named, hi]
    · simp [named, hi, Table.put]

theorem resolveSpiffeID_update (identities : List Identity) :
    (update identities).resolveSpiffeID =
      Table.writes (fun _ => none) ((named identities).map fun i => (utf8 i.spiffeID, some i.id)) := by
  rw [update, foldl_add]
  rfl

theorem lookupID_update (identities : List Identity) :
    (update identities).lookupID =
      Table.writes (fun _ => none) ((named identities).map fun i => (i.id, some (utf8 i.spiffeID))) := by
  rw [update, foldl_add]
  rfl

variable {identities : List Identity} {identities listed : List Identity}

theorem mem_named {i : Identity} : i ∈ named identities ↔ i ∈ identities ∧ i.spiffeID ≠ "" := by
  simp [named]

/-- No two identities share a SPIFFE ID. -/
def Unshared (identities : List Identity) : Prop :=
  ∀ a ∈ identities, ∀ b ∈ identities, a.spiffeID ≠ "" → a.spiffeID = b.spiffeID → a.id = b.id

theorem resolveSpiffeID_eq_some_iff (h : Unshared identities) {uri : List UInt8} {id : IdentityID} :
    (update identities).resolveSpiffeID uri = some id ↔
      ∃ i ∈ named identities, utf8 i.spiffeID = uri ∧ i.id = id := by
  rw [resolveSpiffeID_update]
  refine Table.writes_puts_eq_some_iff fun a ha b hb heq => ?_
  obtain ⟨ha, hne⟩ := mem_named.mp ha
  exact h a ha b (mem_named.mp hb).1 hne (utf8_injective heq)

theorem lookupID_eq_some_iff (h : (identities.map (·.id)).Nodup) {uri : List UInt8} {id : IdentityID} :
    (update identities).lookupID id = some uri ↔
      ∃ i ∈ named identities, i.id = id ∧ utf8 i.spiffeID = uri := by
  rw [lookupID_update]
  refine Table.writes_puts_eq_some_iff fun a ha b hb heq => ?_
  rw [List.inj_on_of_nodup_map h (mem_named.mp ha).1 (mem_named.mp hb).1 heq]

theorem resolveSpiffeID_concat (identities : List Identity) {i : Identity} (hi : i.spiffeID ≠ "") :
    (update (identities ++ [i])).resolveSpiffeID (utf8 i.spiffeID) = some i.id := by
  rw [update, List.foldl_append, List.foldl_cons, List.foldl_nil, add, if_pos hi]
  exact Table.put_same _ (utf8 i.spiffeID) i.id

theorem named_perm (h : identities.Perm listed) : (named identities).Perm (named listed) := h.filter _

theorem resolveSpiffeID_perm (h : Unshared identities) (hperm : identities.Perm listed) :
    (update listed).resolveSpiffeID = (update identities).resolveSpiffeID := by
  have hlisted : Unshared listed := fun a ha b hb => h a (hperm.mem_iff.mpr ha) b (hperm.mem_iff.mpr hb)
  funext uri
  refine Option.ext fun id => ?_
  rw [resolveSpiffeID_eq_some_iff hlisted, resolveSpiffeID_eq_some_iff h]
  simp only [(named_perm hperm).mem_iff]

theorem lookupID_perm (h : (identities.map (·.id)).Nodup) (hperm : identities.Perm listed) :
    (update listed).lookupID = (update identities).lookupID := by
  have hlisted : (listed.map (·.id)).Nodup := (hperm.map _).nodup_iff.mp h
  funext id
  refine Option.ext fun uri => ?_
  rw [lookupID_eq_some_iff hlisted, lookupID_eq_some_iff h]
  simp only [(named_perm hperm).mem_iff]

/-- Two identities that share a SPIFFE ID answer for it in two orders of the list. -/
theorem unshared_of_resolveSpiffeID
    (h : ∀ listed, identities.Perm listed → (update listed).resolveSpiffeID = (update identities).resolveSpiffeID) :
    Unshared identities := by
  have hlast : ∀ i ∈ identities, i.spiffeID ≠ "" →
      (update identities).resolveSpiffeID (utf8 i.spiffeID) = some i.id := by
    intro i hi hne
    have hperm : identities.Perm (identities.erase i ++ [i]) :=
      (List.perm_cons_erase hi).trans (List.perm_append_singleton i _).symm
    rw [← h _ hperm]
    exact resolveSpiffeID_concat _ hne
  intro a ha b hb hne heq
  have hb' := hlast b hb (heq ▸ hne)
  rw [← heq, hlast a ha hne] at hb'
  exact Option.some.inj hb'

end MapSpiffeIDResolver

open MapSpiffeIDResolver in
/-- The order of the listing is seen nowhere, neither in the answers of the resolver nor in what becomes of a connection,
    exactly when no two identities share a SPIFFE ID. -/
theorem peer_identity_order_iff {identities : List Identity} (hids : (identities.map (·.id)).Nodup) :
    (∀ listed, identities.Perm listed →
      (∀ uri, (update listed).resolveSpiffeID uri = (update identities).resolveSpiffeID uri) ∧
      (∀ id, (update listed).lookupID id = (update identities).lookupID id) ∧
      ∀ (h : InboundHandler) (peer : Peer) (raw : Conn),
        { h with spiffeResolver := some (update listed).resolveSpiffeID }.handle peer raw =
          { h with spiffeResolver := some (update identities).resolveSpiffeID }.handle peer raw) ↔
    Unshared identities := by
  constructor
  · intro h
    exact unshared_of_resolveSpiffeID fun listed hperm => funext (h listed hperm).1
  · intro h listed hperm
    rw [resolveSpiffeID_perm h hperm, lookupID_perm hids hperm]
    exact ⟨fun _ => rfl, fun _ => rfl, fun _ _ _ => rfl⟩

/-- A pod of `svc-a`. -/
def replica (id : IdentityID) (ip : String) : Identity :=
  ⟨id, ip, "spiffe://cluster.local/default/svc-a", "default", "svc-a"⟩

open MapSpiffeIDResolver in
theorem peer_identity_order_single :
    (update [replica 9 "", ⟨7, "10.0.0.2", "", "default", "svc-b"⟩]).resolveSpiffeID =
      (update [⟨7, "10.0.0.2", "", "default", "svc-b"⟩, replica 9 ""]).resolveSpiffeID := by
  have hone : Unshared [⟨7, "10.0.0.2", "", "default", "svc-b"⟩, replica 9 ""] := by
    intro a ha b hb hne heq
    simp only [List.mem_cons, List.not_mem_nil, or_false] at ha hb
    obtain rfl | rfl := ha
    · exact absurd rfl hne
    · obtain rfl | rfl := hb
      · exact absurd heq hne
      · rfl
  exact funext ((peer_identity_order_iff (by decide)).mpr hone _ (List.Perm.swap ..)).1

open MapSpiffeIDResolver in
/-- Two replicas in two orders: the peer is let through in one and denied in the other. -/
theorem replicas_order_decides :
    [replica 7 "10.0.0.1", replica 9 "10.0.0.3"].Perm [replica 9 "10.0.0.3", replica 7 "10.0.0.1"] ∧
    ({ svcHandler 0 none fun _ => none with
        spiffeResolver := some (update [replica 7 "10.0.0.1", replica 9 "10.0.0.3"]).resolveSpiffeID }.handle
      (svcPeer ⟨[], true⟩) (.tcp (.tcp [10, 0, 0, 2] 8080))).exit = .deny ∧
    ({ svcHandler 0 none fun _ => none with
        spiffeResolver := some (update [replica 9 "10.0.0.3", replica 7 "10.0.0.1"]).resolveSpiffeID }.handle
      (svcPeer ⟨[], true⟩) (.tcp (.tcp [10, 0, 0, 2] 8080))).exit = .streamed :=
  ⟨List.Perm.swap .., by decide +kernel, by decide +kernel⟩

end Meridian.Proxy
