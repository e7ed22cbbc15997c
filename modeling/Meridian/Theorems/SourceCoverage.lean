import Meridian.Control.PodInformer
import Meridian.Theorems.PolicyMirror

/-! Sources and replicas. A SPIFFE ID is the annotation of any number of pods, each with an identity of its own, but a
    source resolves to one identity: that of the first pod in the lister's order. -/

namespace Meridian.K8s
open Lib Wire

/-! ### Validation and resolution -/

theorem checkEach_eq_ok {A : Type} {ok : A → Bool} {err : Nat → A → SpecError} {xs : List A} :
    checkEach ok err xs = .ok () ↔ ∀ x ∈ xs, ok x = true := by
  suffices h : ∀ i, rangeLoop (fun i x (_ : Unit) => if ok x then .ok () else .error (err i x)) xs i () = .ok () ↔
      ∀ x ∈ xs, ok x = true from h 0
  induction xs with
  | nil => simp [rangeLoop]
  | cons x rest ih =>
    intro i
    rw [rangeLoop_cons_eq_ok, List.forall_mem_cons]
    by_cases hx : ok x = true
    · simp [hx, ih]
    · simp [hx]

/-- What a valid spec has. -/
theorem validatePolicySpec_eq_ok {spec : MeridianPolicySpec} (h : validatePolicySpec spec = .ok ()) :
    spec.selector.ns ≠ "" ∧ spec.sources ≠ [] ∧ spec.ports ≠ [] ∧ ∀ src ∈ spec.sources, isSpiffeURI src = true := by
  unfold validatePolicySpec at h
  split at h
  · cases h
  · split at h
    · cases h
    · rename_i hns
      split at h
      · cases h
      · rename_i hsome
        split at h
        · cases h
        · split at h
          · cases h
          · rename_i hsources
            split at h
            · cases h
            · rename_i hports
              exact ⟨hns, fun hnil => hsome (by rw [hnil]; rfl), fun hnil => hports (by rw [hnil]; rfl),
                checkEach_eq_ok.mp hsources⟩

theorem resolveSources_eq_ok {resolver : IdentityResolver} {sources : List String} {ids : List IdentityID} :
    resolveSources resolver sources = .ok ids ↔ ids.length = sources.length ∧
      ∀ i src, sources[i]? = some src → ∃ id, resolver.resolveSpiffeID i src = some id ∧ ids[i]? = some id := by
  unfold resolveSources
  rw [rangeLoop_collect (R := fun i src id => resolver.resolveSpiffeID i src = some id)]
  · simp
  · intro i src out out'
    cases resolver.resolveSpiffeID i src <;> simp [eq_comm]

theorem mem_of_resolveSources {resolver : IdentityResolver} {sources : List String} {ids : List IdentityID}
    (h : resolveSources resolver sources = .ok ids) (id : IdentityID) :
    id ∈ ids ↔ ∃ i src, sources[i]? = some src ∧ resolver.resolveSpiffeID i src = some id := by
  obtain ⟨hlen, hall⟩ := resolveSources_eq_ok.mp h
  constructor
  · intro hmem
    obtain ⟨i, hget⟩ := List.mem_iff_getElem?.mp hmem
    obtain ⟨src, hsrc⟩ : ∃ src, sources[i]? = some src := by
      obtain ⟨hi, -⟩ := List.getElem?_eq_some_iff.mp hget
      exact ⟨_, List.getElem?_eq_getElem (hlen ▸ hi)⟩
    obtain ⟨id', hid', hget'⟩ := hall i src hsrc
    rw [hget] at hget'
    cases hget'
    exact ⟨i, src, hsrc, hid'⟩
  · rintro ⟨i, src, hsrc, hid⟩
    obtain ⟨id', hid', hget⟩ := hall i src hsrc
    rw [hid] at hid'
    cases hid'
    exact List.mem_of_getElem? hget

/-! ### Pods -/

section
variable {identify : Pod → Option IdentityID} {pods : List Pod} {id : IdentityID} {ids : List IdentityID} {pod : Pod}
  {spiffeID : String}

theorem mem_addIdentity : id ∈ addIdentity identify ids pod ↔ id ∈ ids ∨ identify pod = some id := by
  unfold addIdentity
  cases identify pod with
  | none => simp
  | some new =>
    by_cases hnew : new ∈ ids
    · simp only [hnew, if_true, Option.some.injEq]
      refine ⟨.inl, fun h => h.elim (fun hmem => hmem) fun heq => ?_⟩
      rw [← heq]
      exact hnew
    · simp [hnew, eq_comm]

theorem nodup_addIdentity (h : ids.Nodup) (pod : Pod) : (addIdentity identify ids pod).Nodup := by
  unfold addIdentity
  cases identify pod with
  | none => exact h
  | some new =>
    by_cases hnew : new ∈ ids
    · simpa [hnew] using h
    · simpa [hnew] using h.concat hnew

theorem nodup_identities (pods : List Pod) : (identities identify pods).Nodup :=
  List.foldlRecOn pods (addIdentity identify) List.nodup_nil fun _ h pod _ => nodup_addIdentity h pod

theorem mem_identities : id ∈ identities identify pods ↔ ∃ pod ∈ pods, identify pod = some id := by
  suffices h : ∀ ids : List IdentityID, id ∈ pods.foldl (addIdentity identify) ids ↔
      id ∈ ids ∨ ∃ pod ∈ pods, identify pod = some id from (h []).trans (by simp)
  induction pods with
  | nil => simp
  | cons pod rest ih =>
    intro ids
    rw [List.foldl_cons, ih, mem_addIdentity, List.exists_mem_cons_iff, or_assoc]

/-- The pods that a selector asks for. -/
def WorkloadSelector.Selects (sel : WorkloadSelector) (pod : Pod) : Prop :=
  (sel.ns = "" ∨ pod.ns = sel.ns) ∧ sel.matchesLabels pod = true

theorem resolveSelector_eq_some {sel : WorkloadSelector} (h : resolveSelector identify pods sel = some ids) :
    ids ≠ [] ∧ ∀ id, id ∈ ids ↔ ∃ pod ∈ pods, sel.Selects pod ∧ identify pod = some id := by
  unfold resolveSelector at h
  dsimp only at h
  split at h
  · cases h
  · rename_i hnil
    cases h
    refine ⟨fun hsort => hnil ?_, fun id => ?_⟩
    · rw [← List.length_insertionSort (· ≤ ·), hsort]
      rfl
    · rw [List.mem_insertionSort, mem_identities]
      simp [WorkloadSelector.select, WorkloadSelector.Selects, and_assoc]

/-- Another order of the pods resolves as many identities. -/
theorem resolveSelector_perm {pods' : List Pod} {sel : WorkloadSelector} (hperm : pods'.Perm pods)
    (h : resolveSelector identify pods sel = some ids) :
    ∃ ids', resolveSelector identify pods' sel = some ids' ∧ ids'.length = ids.length := by
  have hids : (identities identify (sel.select pods')).Perm (identities identify (sel.select pods)) := by
    rw [List.perm_ext_iff_of_nodup (nodup_identities _) (nodup_identities _)]
    intro id
    rw [mem_identities, mem_identities]
    simp only [(hperm.filter _).mem_iff, WorkloadSelector.select]
  unfold resolveSelector at h ⊢
  dsimp only at h ⊢
  rw [hids.length_eq]
  split at h
  · cases h
  · rename_i hnil
    cases h
    rw [if_neg hnil]
    exact ⟨_, rfl, by rw [List.length_insertionSort, List.length_insertionSort, hids.length_eq]⟩

theorem exists_of_resolveSpiffeID (hne : spiffeID ≠ "") (h : resolveSpiffeID identify pods spiffeID = some id) :
    ∃ pod ∈ pods, pod.annotations spiffeIDAnnotation = some spiffeID ∧ identify pod = some id := by
  obtain ⟨pod, hpod, hfound⟩ := List.exists_of_findSome?_eq_some h
  split at hfound
  · cases hfound
  · rename_i hannotated
    refine ⟨pod, hpod, ?_, hfound⟩
    rw [not_not] at hannotated
    cases hget : pod.annotations spiffeIDAnnotation with
    | none => exact absurd (by rw [← hannotated, hget]; rfl) hne
    | some value =>
      rw [hget] at hannotated
      exact congrArg some hannotated

theorem resolveSpiffeID_cons (rest : List Pod) (hannotated : pod.annotations spiffeIDAnnotation = some spiffeID)
    (hid : identify pod = some id) : resolveSpiffeID identify (pod :: rest) spiffeID = some id := by
  simp [resolveSpiffeID, hannotated, hid]

theorem resolveSpiffeID_isSome (hpod : pod ∈ pods) (hannotated : pod.annotations spiffeIDAnnotation = some spiffeID)
    (hid : identify pod = some id) : ∃ id, resolveSpiffeID identify pods spiffeID = some id := by
  refine Option.isSome_iff_exists.mp (List.findSome?_isSome_iff.mpr ⟨pod, hpod, ?_⟩)
  simp [hannotated, hid]

end

/-! ### Coverage -/

/-- The listings are orders of the same pods. -/
structure Listings.Of (listings : Listings) (pods : List Pod) : Prop where
  source : ∀ i, (listings.source i).Perm pods
  selector : listings.selector.Perm pods

/-- The pod carries the SPIFFE ID and is registered under the identity. -/
def Watcher.Carries (w : Watcher) (pod : Pod) (spiffeID : String) (id : IdentityID) : Prop :=
  pod.annotations spiffeIDAnnotation = some spiffeID ∧ w.podIdentity (some pod) = some id

/-- Every pod with a listed source may reach every selected pod, on every port and protocol of the policy. -/
def Covers (w : Watcher) (pods : List Pod) (spec : MeridianPolicySpec) (rules : List PolicyRule) : Prop :=
  ∀ p ∈ pods, ∀ source ∈ spec.sources, ∀ src, w.Carries p source src →
    ∀ q ∈ pods, q.ns = spec.selector.ns → spec.selector.matchesLabels q = true →
      ∀ dst, w.podIdentity (some q) = some dst → ∀ port ∈ spec.ports,
      ∀ protocols, protocolNumbers spec.protocols = .ok protocols →
        ∀ proto ∈ protocols, ∀ verdict, verdictForAction spec.action = .ok verdict →
          ⟨⟨src, dst, port, proto, directionIngress⟩, verdict⟩ ∈ rules

/-- Each identity of a pod with a listed source is the only one of the pods with some listed source. -/
def Pinned (w : Watcher) (pods : List Pod) (sources : List String) : Prop :=
  ∀ p ∈ pods, ∀ source ∈ sources, ∀ src, w.Carries p source src →
    ∃ pin ∈ sources, ∀ q ∈ pods, ∀ id, w.Carries q pin id → id = src

section
variable {w : Watcher} {pods : List Pod} {pol : MeridianPolicy} {listings : Listings} {rules : List PolicyRule}

/-- What a policy compiles to, in one order of the pods. -/
structure Compiled (w : Watcher) (pods : List Pod) (spec : MeridianPolicySpec) (listings : Listings)
    (rules : List PolicyRule) (protocols : List UInt8) (verdict : PolicyVerdict) : Prop where
  namespaced : spec.selector.ns ≠ ""
  ports : spec.ports ≠ []
  named : ∀ src ∈ spec.sources, src ≠ ""
  numbers : protocolNumbers spec.protocols = .ok protocols
  action : verdictForAction spec.action = .ok verdict
  resolved : ∀ i source, spec.sources[i]? = some source →
    ∃ src, (podResolver w listings).resolveSpiffeID i source = some src
  selected : ∃ q ∈ pods, q.ns = spec.selector.ns ∧ spec.selector.matchesLabels q = true ∧
    ∃ dst, w.podIdentity (some q) = some dst
  mem : ∀ rule, rule ∈ rules ↔
    ∃ i source src, spec.sources[i]? = some source ∧ (podResolver w listings).resolveSpiffeID i source = some src ∧
    ∃ q ∈ pods, q.ns = spec.selector.ns ∧ spec.selector.matchesLabels q = true ∧
    ∃ dst, w.podIdentity (some q) = some dst ∧ ∃ port ∈ spec.ports, ∃ proto ∈ protocols,
      rule = ⟨⟨src, dst, port, proto, directionIngress⟩, verdict⟩

theorem isSpiffeURI_ne_empty {src : String} (h : isSpiffeURI src = true) : src ≠ "" := by
  rintro rfl
  exact absurd h (by decide)

theorem Compiled.of_eq_ok (hof : listings.Of pods) (h : compilePolicyRules pol (podResolver w listings) = .ok rules) :
    ∃ protocols verdict, Compiled w pods pol.spec listings rules protocols verdict := by
  obtain ⟨srcIDs, dstIDs, protocols, verdict, hvalid, hsrc, hdst, hproto, hverdict, -, rfl⟩ :=
    compileSpec_eq_ok.mp (compilePolicyRules_eq_ok.mp h)
  obtain ⟨hns, -, hports, hsources⟩ := validatePolicySpec_eq_ok hvalid
  obtain ⟨hnonempty, hmem⟩ := resolveSelector_eq_some hdst
  have hselected (dst : IdentityID) : dst ∈ dstIDs ↔ ∃ q ∈ pods, q.ns = pol.spec.selector.ns ∧
      pol.spec.selector.matchesLabels q = true ∧ w.podIdentity (some q) = some dst := by
    rw [hmem]
    simp only [hof.selector.mem_iff, WorkloadSelector.Selects, hns, false_or, and_assoc]
  refine ⟨protocols, verdict, hns, hports, fun src hmem => isSpiffeURI_ne_empty (hsources src hmem), hproto, hverdict,
    fun i source hi => ?_, ?_, fun rule => ?_⟩
  · obtain ⟨src, hsrc, -⟩ := (resolveSources_eq_ok.mp hsrc).2 i source hi
    exact ⟨src, hsrc⟩
  · obtain ⟨dst, hd⟩ := List.exists_mem_of_ne_nil _ hnonempty
    obtain ⟨q, hq, hqns, hlabels, hid⟩ := (hselected dst).mp hd
    exact ⟨q, hq, hqns, hlabels, dst, hid⟩
  · rw [mem_expand]
    constructor
    · rintro ⟨src, hs, dst, hd, port, hport, proto, hpr, rfl⟩
      obtain ⟨i, source, hi, hres⟩ := (mem_of_resolveSources hsrc src).mp hs
      obtain ⟨q, hq, hqns, hlabels, hid⟩ := (hselected dst).mp hd
      exact ⟨i, source, src, hi, hres, q, hq, hqns, hlabels, dst, hid, port, hport, proto, hpr, rfl⟩
    · rintro ⟨i, source, src, hi, hres, q, hq, hqns, hlabels, dst, hid, port, hport, proto, hpr, rfl⟩
      exact ⟨src, (mem_of_resolveSources hsrc src).mpr ⟨i, source, hi, hres⟩, dst,
        (hselected dst).mpr ⟨q, hq, hqns, hlabels, hid⟩, port, hport, proto, hpr, rfl⟩

/-- The number of rules, so whether the policy compiles, does not depend on the order. -/
theorem compilePolicyRules_of_listings {listings' : Listings} {rules' : List PolicyRule} (hof : listings.Of pods)
    (hof' : listings'.Of pods) (h : compilePolicyRules pol (podResolver w listings') = .ok rules') :
    ∃ rules, compilePolicyRules pol (podResolver w listings) = .ok rules := by
  obtain ⟨srcIDs, dstIDs, protocols, verdict, hvalid, hsrc, hdst, hproto, hverdict, hbound, -⟩ :=
    compileSpec_eq_ok.mp (compilePolicyRules_eq_ok.mp h)
  obtain ⟨-, -, -, hsources⟩ := validatePolicySpec_eq_ok hvalid
  obtain ⟨dst, hdst', hlen⟩ := resolveSelector_perm (hof.selector.trans hof'.selector.symm) hdst
  obtain ⟨hcount, hresolved⟩ := resolveSources_eq_ok.mp hsrc
  have hany (i : Nat) (source : String) (hi : pol.spec.sources[i]? = some source) :
      ∃ src, (podResolver w listings).resolveSpiffeID i source = some src := by
    obtain ⟨src, hsrc, -⟩ := hresolved i source hi
    have hne := isSpiffeURI_ne_empty (hsources source (List.mem_of_getElem? hi))
    obtain ⟨pod, hpod, hannotated, hid⟩ := exists_of_resolveSpiffeID hne hsrc
    exact resolveSpiffeID_isSome ((hof.source i).mem_iff.mpr ((hof'.source i).mem_iff.mp hpod)) hannotated hid
  obtain ⟨src, hsrc'⟩ : ∃ ids, resolveSources (podResolver w listings) pol.spec.sources = .ok ids := by
    refine ⟨pol.spec.sources.mapIdx fun i source => ((podResolver w listings).resolveSpiffeID i source).getD 0, ?_⟩
    refine resolveSources_eq_ok.mpr ⟨List.length_mapIdx, fun i source hi => ?_⟩
    obtain ⟨src, hs⟩ := hany i source hi
    exact ⟨src, hs, by rw [List.getElem?_mapIdx, hi, Option.map_some, hs]; rfl⟩
  refine ⟨_, compilePolicyRules_eq_ok.mpr (compileSpec_eq_ok.mpr
    ⟨src, dst, protocols, verdict, hvalid, hsrc', hdst', hproto, hverdict, ?_, rfl⟩)⟩
  rw [(resolveSources_eq_ok.mp hsrc').1, hlen, ← hcount]
  exact hbound

variable {protocols : List UInt8} {verdict : PolicyVerdict} {src : IdentityID}

theorem protocolNumbers_eq_ok {names : List String} (h : protocolNumbers names = .ok protocols) :
    names = [] ∧ protocols = [protocolTCP] ∨
      names ≠ [] ∧ protocols.length = names.length ∧ ∀ (i : Nat) name, names[i]? = some name →
        ∃ proto, ((name = protocolNameTCP ∧ proto = protocolTCP) ∨
          (name ≠ protocolNameTCP ∧ name = protocolNameUDP ∧ proto = protocolUDP)) ∧ protocols[i]? = some proto := by
  unfold protocolNumbers at h
  split at h
  · rename_i hnames
    cases h
    exact .inl ⟨List.length_eq_zero_iff.mp hnames, rfl⟩
  · rename_i hnames
    rw [rangeLoop_collect (R := fun _ name proto =>
      (name = protocolNameTCP ∧ proto = protocolTCP) ∨
        (name ≠ protocolNameTCP ∧ name = protocolNameUDP ∧ proto = protocolUDP))] at h
    · obtain ⟨bs, rfl, hlen, hall⟩ := h
      exact .inr ⟨fun hnil => hnames (by rw [hnil]; rfl), hlen, hall⟩
    · intro i name out out'
      by_cases htcp : name = protocolNameTCP
      · simp [htcp, eq_comm]
      · by_cases hudp : name = protocolNameUDP
        · simp [hudp, show protocolNameUDP ≠ protocolNameTCP by decide, eq_comm]
        · simp [htcp, hudp]

theorem protocolNumbers_ne_nil {names : List String} (h : protocolNumbers names = .ok protocols) : protocols ≠ [] := by
  rcases protocolNumbers_eq_ok h with ⟨-, rfl⟩ | ⟨hnames, hlen, -⟩
  · exact List.cons_ne_nil _ _
  · rintro rfl
    exact hnames (List.length_eq_zero_iff.mp hlen.symm)

/-- A resolved source is the identity of a pod that carries it. -/
theorem Compiled.exists_carries (hof : listings.Of pods) (h : Compiled w pods pol.spec listings rules protocols verdict)
    {i : Nat} {source : String} (hi : pol.spec.sources[i]? = some source)
    (hsrc : (podResolver w listings).resolveSpiffeID i source = some src) : ∃ p ∈ pods, w.Carries p source src := by
  obtain ⟨p, hp, hannotated, hid⟩ := exists_of_resolveSpiffeID (h.named source (List.mem_of_getElem? hi)) hsrc
  exact ⟨p, (hof.source i).mem_iff.mp hp, hannotated, hid⟩

theorem Compiled.covers {protocols : List UInt8} {verdict : PolicyVerdict} (hof : listings.Of pods)
    (h : Compiled w pods pol.spec listings rules protocols verdict) (hpinned : Pinned w pods pol.spec.sources) :
    Covers w pods pol.spec rules := by
  intro p hp source hsource src hcarries q hq hns hlabels dst hdst port hport protos hprotos proto hproto verd hverd
  obtain rfl : protocols = protos := Except.ok.inj (h.numbers.symm.trans hprotos)
  obtain rfl : verdict = verd := Except.ok.inj (h.action.symm.trans hverd)
  obtain ⟨pin, hpin, honly⟩ := hpinned p hp source hsource src hcarries
  obtain ⟨i, hi⟩ := List.mem_iff_getElem?.mp hpin
  obtain ⟨id, hid⟩ := h.resolved i pin hi
  obtain ⟨p', hp', hcarries'⟩ := h.exists_carries hof hi hid
  rw [honly p' hp' id hcarries'] at hid
  exact (h.mem _).mpr ⟨i, pin, src, hi, hid, q, hq, hns, hlabels, dst, hdst, port, hport, proto, hproto, rfl⟩

/-- Rules that cover the pods of a policy hold all the rules that any order gives. -/
theorem Compiled.mem_of_covers (hof : listings.Of pods) (h : Compiled w pods pol.spec listings rules protocols verdict)
    {covering : List PolicyRule} (hcovers : Covers w pods pol.spec covering) {rule : PolicyRule} (hrule : rule ∈ rules) :
    rule ∈ covering := by
  obtain ⟨i, source, src, hi, hsrc, q, hq, hns, hlabels, dst, hdst, port, hport, proto, hproto, rfl⟩ := (h.mem _).mp hrule
  obtain ⟨p, hp, hcarries⟩ := h.exists_carries hof hi hsrc
  exact hcovers p hp source (List.mem_of_getElem? hi) src hcarries q hq hns hlabels dst hdst port hport protocols
    h.numbers proto hproto verdict h.action

theorem exists_perm_cons {pod : Pod} (hpod : pod ∈ pods) : ∃ rest, (pod :: rest).Perm pods := by
  obtain ⟨before, after, rfl⟩ := List.append_of_mem hpod
  exact ⟨before ++ after, List.perm_middle.symm⟩

/-- When no source is carried by pods of the identity only, some orders resolve every source to another one. -/
theorem exists_listings_without {sources : List String}
    (hfree : ∀ pin ∈ sources, ∃ q ∈ pods, ∃ id, w.Carries q pin id ∧ id ≠ src) :
    ∃ listed : Nat → List Pod, (∀ i, (listed i).Perm pods) ∧ ∀ i pin, sources[i]? = some pin →
      ∃ id, id ≠ src ∧ resolveSpiffeID (fun pod => w.podIdentity (some pod)) (listed i) pin = some id := by
  have hone (i : Nat) : ∃ listed : List Pod, listed.Perm pods ∧ ∀ pin, sources[i]? = some pin →
      ∃ id, id ≠ src ∧ resolveSpiffeID (fun pod => w.podIdentity (some pod)) listed pin = some id := by
    cases hi : sources[i]? with
    | none => exact ⟨pods, .refl _, fun _ h => by cases h⟩
    | some pin =>
      obtain ⟨q, hq, id, hcarried, hne⟩ := hfree pin (List.mem_of_getElem? hi)
      obtain ⟨rest, hperm⟩ := exists_perm_cons hq
      refine ⟨q :: rest, hperm, fun pin' hpin' => ?_⟩
      cases hpin'
      exact ⟨id, hne, resolveSpiffeID_cons rest hcarried.1 hcarried.2⟩
  choose listed hperm hlisted using hone
  exact ⟨listed, hperm, hlisted⟩

/-- A pod that comes first has a rule for its identity. -/
theorem Compiled.exists_rule (h : Compiled w pods pol.spec listings rules protocols verdict) {source : String}
    (hsource : source ∈ pol.spec.sources) (hsrc : ∀ i, (podResolver w listings).resolveSpiffeID i source = some src) :
    ∃ rule ∈ rules, rule.key.srcIdentity = src := by
  obtain ⟨q, hq, hns, hlabels, dst, hdst⟩ := h.selected
  obtain ⟨port, hport⟩ := List.exists_mem_of_ne_nil _ h.ports
  obtain ⟨proto, hproto⟩ := List.exists_mem_of_ne_nil _ (protocolNumbers_ne_nil h.numbers)
  obtain ⟨i, hi⟩ := List.mem_iff_getElem?.mp hsource
  refine ⟨⟨⟨src, dst, port, proto, directionIngress⟩, verdict⟩, (h.mem _).mpr ?_, rfl⟩
  exact ⟨i, source, src, hi, hsrc i, q, hq, hns, hlabels, dst, hdst, port, hport, proto, hproto, rfl⟩

end

/-- In every order of the pods, a policy that compiles covers every pod with a listed source, and its rules do not depend
    on the order, exactly when each identity of such a pod is the only one of the pods with some listed source. -/
theorem source_covers_iff (w : Watcher) (pods : List Pod) (pol : MeridianPolicy) {given : List PolicyRule}
    (hok : compilePolicyRules pol (podResolver w ⟨fun _ => pods, pods⟩) = .ok given) :
    (∀ listings rules, Listings.Of listings pods → compilePolicyRules pol (podResolver w listings) = .ok rules →
      Covers w pods pol.spec rules ∧
      ∀ listings' rules', Listings.Of listings' pods → compilePolicyRules pol (podResolver w listings') = .ok rules' →
        ∀ rule, rule ∈ rules ↔ rule ∈ rules') ↔
    Pinned w pods pol.spec.sources := by
  have hgiven : Listings.Of ⟨fun _ => pods, pods⟩ pods := ⟨fun _ => .refl _, .refl _⟩
  constructor
  · intro hall p hp source hsource src hcarries
    by_contra hpin
    have hfree : ∀ pin ∈ pol.spec.sources, ∃ q ∈ pods, ∃ id, w.Carries q pin id ∧ id ≠ src := by
      intro pin hmem
      by_contra hnone
      refine hpin ⟨pin, hmem, fun q hq id hcarried => ?_⟩
      by_contra hne
      exact hnone ⟨q, hq, id, hcarried, hne⟩
    -- One order finds the pod first, another a pod with another identity for every source.
    obtain ⟨rest, hrest⟩ := exists_perm_cons hp
    obtain ⟨listed, hperm, hlisted⟩ := exists_listings_without hfree
    have hof : Listings.Of ⟨fun _ => p :: rest, pods⟩ pods := ⟨fun _ => hrest, .refl _⟩
    have hof' : Listings.Of ⟨listed, pods⟩ pods := ⟨hperm, .refl _⟩
    obtain ⟨rules, hrules⟩ := compilePolicyRules_of_listings hof hgiven hok
    obtain ⟨rules', hrules'⟩ := compilePolicyRules_of_listings hof' hgiven hok
    obtain ⟨protocols, verdict, hc⟩ := Compiled.of_eq_ok hof hrules
    obtain ⟨protocols', verdict', hc'⟩ := Compiled.of_eq_ok hof' hrules'
    obtain ⟨rule, hrule, hsrc⟩ := hc.exists_rule hsource fun _ =>
      @resolveSpiffeID_cons (fun pod => w.podIdentity (some pod)) _ _ _ rest hcarries.1 hcarries.2
    obtain ⟨j, pin, src', hj, hres, q', -, -, -, dst', -, port', -, proto', -, rfl⟩ :=
      (hc'.mem _).mp (((hall _ _ hof hrules).2 _ _ hof' hrules' _).mp hrule)
    obtain ⟨id, hne, hid⟩ := hlisted j pin hj
    exact hne (Option.some.inj (hid.symm.trans (hres.trans (congrArg some hsrc))))
  · intro hpinned listings rules hof hrules
    obtain ⟨protocols, verdict, hc⟩ := Compiled.of_eq_ok hof hrules
    have hcovers := hc.covers hof hpinned
    refine ⟨hcovers, fun listings' rules' hof' hrules' rule => ?_⟩
    obtain ⟨protocols', verdict', hc'⟩ := Compiled.of_eq_ok hof' hrules'
    exact ⟨hc.mem_of_covers hof (hc'.covers hof' hpinned), hc'.mem_of_covers hof' hcovers⟩

/-- A replica of the one workload that a policy names and selects. -/
def replica (name podIP : String) : Pod :=
  ⟨"default", name, fun _ => none, Table.put (fun _ => none) spiffeIDAnnotation "spiffe://cluster.local/a", podIP⟩

/-- The watcher that has seen the pods. -/
def watching (pods : List Pod) : Watcher := (pods.map PodObject.pod).foldl Watcher.onPodAdd .new

def twoWorkloads : List Pod :=
  [replica "a-0" "10.0.0.1",
   { replica "b-0" "10.0.0.2" with
     annotations := Table.put (fun _ => none) spiffeIDAnnotation "spiffe://cluster.local/b" }]

def twoSources : MeridianPolicy :=
  { allowPolicy "a" with
    spec := { (allowPolicy "a").spec with sources := ["spiffe://cluster.local/a", "spiffe://cluster.local/b"] } }

def twoSourceRules : List PolicyRule :=
  [⟨⟨1, 1, 80, 6, 0⟩, ⟨0, 0⟩⟩, ⟨⟨1, 2, 80, 6, 0⟩, ⟨0, 0⟩⟩, ⟨⟨2, 1, 80, 6, 0⟩, ⟨0, 0⟩⟩, ⟨⟨2, 2, 80, 6, 0⟩, ⟨0, 0⟩⟩]

theorem source_covers_iff_two_sources :
    compilePolicyRules twoSources (podResolver (watching twoWorkloads) ⟨fun _ => twoWorkloads, twoWorkloads⟩) =
      .ok twoSourceRules ∧
    Covers (watching twoWorkloads) twoWorkloads twoSources.spec twoSourceRules := by
  have hok : compilePolicyRules twoSources (podResolver (watching twoWorkloads) ⟨fun _ => twoWorkloads, twoWorkloads⟩) =
      .ok twoSourceRules := by
    decide +kernel
  refine ⟨hok, ((source_covers_iff _ _ _ hok).mpr ?_ _ _ ⟨fun _ => .refl _, .refl _⟩ hok).1⟩
  intro p hp source hsource src hcarries
  refine ⟨source, hsource, fun q hq id hcarried => ?_⟩
  rcases List.mem_pair.mp hp with rfl | rfl <;> rcases List.mem_pair.mp hq with rfl | rfl
  · exact Option.some.inj (hcarried.2.symm.trans hcarries.2)
  · exact absurd (hcarried.1.trans hcarries.1.symm) (by decide)
  · exact absurd (hcarried.1.trans hcarries.1.symm) (by decide)
  · exact Option.some.inj (hcarried.2.symm.trans hcarries.2)

theorem second_replica_not_covered :
    compilePolicyRules (allowPolicy "a") (podResolver (watching [replica "a-0" "10.0.0.1", replica "a-1" "10.0.0.2"])
      ⟨fun _ => [replica "a-0" "10.0.0.1", replica "a-1" "10.0.0.2"],
        [replica "a-0" "10.0.0.1", replica "a-1" "10.0.0.2"]⟩) =
      .ok [⟨⟨1, 1, 80, 6, 0⟩, ⟨0, 0⟩⟩, ⟨⟨1, 2, 80, 6, 0⟩, ⟨0, 0⟩⟩] ∧
    ¬Covers (watching [replica "a-0" "10.0.0.1", replica "a-1" "10.0.0.2"])
      [replica "a-0" "10.0.0.1", replica "a-1" "10.0.0.2"] (allowPolicy "a").spec
      [⟨⟨1, 1, 80, 6, 0⟩, ⟨0, 0⟩⟩, ⟨⟨1, 2, 80, 6, 0⟩, ⟨0, 0⟩⟩] := by
  refine ⟨by decide +kernel, fun h => ?_⟩
  have hrule := h (replica "a-1" "10.0.0.2") (List.mem_cons_of_mem _ List.mem_cons_self) "spiffe://cluster.local/a"
    List.mem_cons_self 2 ⟨rfl, by decide +kernel⟩ (replica "a-0" "10.0.0.1") List.mem_cons_self rfl rfl 1
    (by decide +kernel) 80 List.mem_cons_self [6] rfl 6 List.mem_cons_self ⟨0, 0⟩ rfl
  exact absurd hrule (by decide)

end Meridian.K8s
