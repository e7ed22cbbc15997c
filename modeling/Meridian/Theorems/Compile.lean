import Meridian.Control.Conformance

/-! What the compiler accepts and what it then compiles: every loop of it is followed by the relation between
    keys and verdicts that the rules done so far stand for. -/

namespace Meridian.Compiler
open Lib Wire

/-! ### Names -/

structure NamesOk (identities : List Identity) : Prop where
  known : ∀ i ∈ identities, i.id ≠ identityUnknown
  named : ∀ i ∈ identities, i.spiffeID ≠ ""
  unique : ∀ i ∈ identities, ∀ j ∈ identities, i.spiffeID = j.spiffeID → i.id = j.id

theorem spiffeTable_snoc (identities : List Identity) (identity : Identity) :
    spiffeTable (identities ++ [identity]) = Table.put (spiffeTable identities) identity.spiffeID identity.id := by
  rw [spiffeTable, List.map_append, Table.writes_append]
  rfl

theorem spiffeTable_eq_some_iff {identities : List Identity} (hnames : NamesOk identities) {name : String}
    {id : IdentityID} : spiffeTable identities name = some id ↔ ∃ i ∈ identities, i.spiffeID = name ∧ i.id = id :=
  Table.writes_puts_eq_some_iff hnames.unique

theorem bindIdentity_eq_ok {i : Nat} {identity : Identity} {t t' : Table String IdentityID} :
    bindIdentity i identity t = .ok t' ↔
      identity.id ≠ identityUnknown ∧ identity.spiffeID ≠ "" ∧
        (∀ prior, t identity.spiffeID = some prior → prior = identity.id) ∧
        t' = Table.put t identity.spiffeID identity.id := by
  unfold bindIdentity
  by_cases hid : identity.id = identityUnknown
  · simp [hid]
  by_cases hname : identity.spiffeID = ""
  · simp [hid, hname]
  rw [if_neg hid, if_neg hname]
  cases ht : t identity.spiffeID with
  | none => simp [hid, hname, eq_comm]
  | some prior => by_cases hp : prior = identity.id <;> simp [hid, hname, hp, eq_comm]

theorem bindIdentity_names {done : List Identity} {identity : Identity} {i : Nat} {t t' : Table String IdentityID}
    (hinv : NamesOk done ∧ t = spiffeTable done) (h : bindIdentity i identity t = .ok t') :
    NamesOk (done ++ [identity]) ∧ t' = spiffeTable (done ++ [identity]) := by
  obtain ⟨hnames, rfl⟩ := hinv
  obtain ⟨hid, hname, hprior, rfl⟩ := bindIdentity_eq_ok.mp h
  have hsame : ∀ j ∈ done, j.spiffeID = identity.spiffeID → j.id = identity.id := fun j hj heq =>
    hprior j.id ((spiffeTable_eq_some_iff hnames).mpr ⟨j, hj, heq, rfl⟩)
  refine ⟨⟨?_, ?_, ?_⟩, (spiffeTable_snoc done identity).symm⟩
  · simpa [or_imp, forall_and] using ⟨hnames.known, hid⟩
  · simpa [or_imp, forall_and] using ⟨hnames.named, hname⟩
  · intro j hj k hk heq
    rcases List.mem_append.mp hj with hj | hj <;> rcases List.mem_append.mp hk with hk | hk
    · exact hnames.unique j hj k hk heq
    · rw [List.mem_singleton.mp hk] at heq ⊢
      exact hsame j hj heq
    · rw [List.mem_singleton.mp hj] at heq ⊢
      exact (hsame k hk heq.symm).symm
    · rw [List.mem_singleton.mp hj, List.mem_singleton.mp hk]

/-- The name table is built exactly when every identity is known and named and no name has two IDs. -/
theorem bindIdentities_eq_ok {identities : List Identity} {t : Table String IdentityID} :
    rangeLoop bindIdentity identities 0 (fun _ => none) = .ok t ↔
      NamesOk identities ∧ t = spiffeTable identities := by
  have hstart : NamesOk [] ∧ (fun _ => none : Table String IdentityID) = spiffeTable [] :=
    ⟨⟨by simp, by simp, by simp⟩, rfl⟩
  have hinv : ∀ {t}, rangeLoop bindIdentity identities 0 (fun _ => none) = .ok t →
      NamesOk identities ∧ t = spiffeTable identities :=
    fun h => rangeLoop_inv (I := fun done t => NamesOk done ∧ t = spiffeTable done)
      (fun _ _ _ _ _ => bindIdentity_names) [] hstart h
  refine ⟨hinv, ?_⟩
  rintro ⟨hnames, rfl⟩
  have hok : ∃ t, rangeLoop bindIdentity identities 0 (fun _ => none) = .ok t := by
    refine (rangeLoop_ok_iff (I := fun done t => NamesOk done ∧ t = spiffeTable done)
      (C := fun done identity => identity.id ≠ identityUnknown ∧ identity.spiffeID ≠ "" ∧
        ∀ prior, spiffeTable done identity.spiffeID = some prior → prior = identity.id)
      (fun _ _ _ _ _ => bindIdentity_names) ?_ [] hstart).mpr ?_
    · rintro done identity i _ ⟨-, rfl⟩
      simp [bindIdentity_eq_ok]
    · rintro before identity after hsplit
      have hmem : identity ∈ identities := by simp [hsplit]
      refine ⟨hnames.known identity hmem, hnames.named identity hmem, fun prior hprior => ?_⟩
      obtain ⟨j, hj, heq, rfl⟩ := Table.exists_of_writes_puts hprior
      exact hnames.unique j (by rw [hsplit]; exact List.mem_append_left _ hj) identity hmem heq
  obtain ⟨t, ht⟩ := hok
  rw [ht, (hinv ht).2]

def Resolvable (bySpiffe : Table String IdentityID) (names : List String) : Prop :=
  names ≠ [] ∧ ∀ name ∈ names, isBlank name = false ∧ ∃ id, bySpiffe name = some id ∧ id ≠ identityUnknown

section
variable {bySpiffe : Table String IdentityID} {rulePath selectorName : String} {names : List String}

theorem resolveIdentityName_eq_ok {i : Nat} {name : String} {ids ids' : List IdentityID} :
    resolveIdentityName rulePath selectorName bySpiffe i name ids = .ok ids' ↔
      isBlank name = false ∧ ∃ id, bySpiffe name = some id ∧ id ≠ identityUnknown ∧
        ids' = if ids.contains id then ids else ids ++ [id] := by
  unfold resolveIdentityName
  cases isBlank name with
  | true => simp
  | false =>
    cases bySpiffe name with
    | none => simp
    | some id =>
      by_cases hid : id = identityUnknown
      · simp [hid]
      · by_cases hc : id ∈ ids <;> simp [hid, hc, eq_comm]

theorem resolveIdentityName_resolved {i : Nat} {name : String} {done : List String} {ids ids' : List IdentityID}
    (hinv : Resolved bySpiffe done ids) (h : resolveIdentityName rulePath selectorName bySpiffe i name ids = .ok ids') :
    Resolved bySpiffe (done ++ [name]) ids' := by
  obtain ⟨-, id, hname, -, rfl⟩ := resolveIdentityName_eq_ok.mp h
  exact hinv.snoc hname

theorem resolved_nil : Resolved bySpiffe [] [] := by simp [Resolved]

theorem resolveIdentityNames_resolved {ids : List IdentityID}
    (h : resolveIdentityNames rulePath selectorName names bySpiffe = .ok ids) : Resolved bySpiffe names ids := by
  unfold resolveIdentityNames at h
  split at h
  · cases h
  · exact rangeLoop_inv (I := Resolved bySpiffe) (fun _ _ _ _ _ => resolveIdentityName_resolved) [] resolved_nil h

theorem resolveIdentityNames_ok_iff (rulePath selectorName : String) :
    (∃ ids, resolveIdentityNames rulePath selectorName names bySpiffe = .ok ids) ↔ Resolvable bySpiffe names := by
  unfold resolveIdentityNames Resolvable
  cases names with
  | nil => simp
  | cons name rest =>
    rw [if_neg (by simp), rangeLoop_ok_iff (I := Resolved bySpiffe)
      (C := fun _ name => isBlank name = false ∧ ∃ id, bySpiffe name = some id ∧ id ≠ identityUnknown)
      (fun _ _ _ _ _ => resolveIdentityName_resolved) ?_ [] resolved_nil]
    · refine ⟨fun h => ⟨by simp, fun n hn => ?_⟩, fun h before n after hsplit => h.2 n (by simp [hsplit])⟩
      obtain ⟨before, after, hsplit⟩ := List.append_of_mem hn
      exact h before n after hsplit
    · intro done n i ids _
      simp [resolveIdentityName_eq_ok]

end

/-! ### Rules -/

def Holds (rulesByKey : RuleMap) (R : PolicyRuleKey → PolicyVerdict → Prop) : Prop :=
  ∀ key v, rulesByKey.lookup key = some v ↔ R key v

theorem holds_congr {m : RuleMap} {R R' : PolicyRuleKey → PolicyVerdict → Prop} (h : Holds m R)
    (hiff : ∀ key v, R key v ↔ R' key v) : Holds m R' := fun key v => (h key v).trans (hiff key v)

theorem addKey_eq_ok {rulePath : String} {verdict : PolicyVerdict} {i : Nat} {key : PolicyRuleKey} {m m' : RuleMap} :
    addKey rulePath verdict i key m = .ok m' ↔
      validateRule ⟨key, verdict⟩ = none ∧
        ((m.lookup key = some verdict ∧ m' = m) ∨ (m.lookup key = none ∧ m' = m.insert key verdict)) := by
  unfold addKey
  cases validateRule ⟨key, verdict⟩ with
  | some err => simp
  | none =>
    cases m.lookup key with
    | none => simp [eq_comm]
    | some existing =>
      by_cases hv : existing = verdict
      · simp [hv, eq_comm]
      · simp [hv]

section
variable {rulePath : String} {verdict : PolicyVerdict} {m m' : RuleMap} {R : PolicyRuleKey → PolicyVerdict → Prop}

theorem addKey_holds {done : List PolicyRuleKey} {key : PolicyRuleKey} {i : Nat}
    (hinv : Holds m fun k v => R k v ∨ k ∈ done ∧ v = verdict) (h : addKey rulePath verdict i key m = .ok m') :
    Holds m' fun k v => R k v ∨ k ∈ done ++ [key] ∧ v = verdict := by
  intro k v
  obtain ⟨-, ⟨hsome, rfl⟩ | ⟨hnone, rfl⟩⟩ := addKey_eq_ok.mp h
  · rw [hinv k v]
    simp only [List.mem_append, List.mem_singleton]
    constructor
    · rintro (hR | ⟨hk, hv⟩)
      · exact Or.inl hR
      · exact Or.inr ⟨Or.inl hk, hv⟩
    · rintro (hR | ⟨hk | rfl, rfl⟩)
      · exact Or.inl hR
      · exact Or.inr ⟨hk, rfl⟩
      · exact (hinv k v).mp hsome
  · simp only [List.mem_append, List.mem_singleton]
    by_cases hk : k = key
    · subst hk
      have hfree : ¬(R k v ∨ k ∈ done ∧ v = verdict) := fun hR => by
        rw [(hinv k v).mpr hR] at hnone
        cases hnone
      rw [AList.lookup_insert, Option.some.injEq]
      constructor
      · rintro rfl
        exact Or.inr ⟨Or.inr rfl, rfl⟩
      · rintro (hR | ⟨-, rfl⟩)
        · exact absurd (Or.inl hR) hfree
        · rfl
    · rw [AList.lookup_insert_ne hk, hinv k v]
      simp [hk]

theorem addKeys_holds {keys : List PolicyRuleKey} (hinv : Holds m R)
    (h : rangeLoop (addKey rulePath verdict) keys 0 m = .ok m') : Holds m' fun k v => R k v ∨ k ∈ keys ∧ v = verdict :=
  rangeLoop_inv (I := fun done m => Holds m fun k v => R k v ∨ k ∈ done ∧ v = verdict)
    (fun _ _ _ _ _ => addKey_holds) [] (holds_congr hinv (by simp)) h

/-- The keys of a rule are added exactly when each makes a valid rule and has no other verdict yet. -/
theorem addKeys_ok_iff (rulePath : String) (keys : List PolicyRuleKey) (hinv : Holds m R) :
    (∃ m', rangeLoop (addKey rulePath verdict) keys 0 m = .ok m') ↔
      ∀ key ∈ keys, validateRule ⟨key, verdict⟩ = none ∧ ∀ v, R key v → v = verdict := by
  rw [rangeLoop_ok_iff (I := fun done m => Holds m fun k v => R k v ∨ k ∈ done ∧ v = verdict)
    (C := fun _ key => validateRule ⟨key, verdict⟩ = none ∧ ∀ v, R key v → v = verdict)
    (fun _ _ _ _ _ => addKey_holds) ?_ [] (holds_congr hinv (by simp))]
  · refine ⟨fun h key hkey => ?_, fun h before key after hsplit => h key (by simp [hsplit])⟩
    obtain ⟨before, after, hsplit⟩ := List.append_of_mem hkey
    exact h before key after hsplit
  · intro done key i m hm
    simp only [addKey_eq_ok, exists_and_left]
    refine and_congr_right fun _ => ⟨?_, fun hR => ?_⟩
    · rintro ⟨m', ⟨hsome, -⟩ | ⟨hnone, -⟩⟩ v hv
      · have := (hm key v).mpr (Or.inl hv)
        exact Option.some.inj (this.symm.trans hsome)
      · rw [(hm key v).mpr (Or.inl hv)] at hnone
        cases hnone
    · cases hl : m.lookup key with
      | none => exact ⟨_, Or.inr ⟨rfl, rfl⟩⟩
      | some v =>
        have hv : v = verdict := ((hm key v).mp hl).elim (hR v) And.right
        exact ⟨m, Or.inl ⟨congrArg some hv, rfl⟩⟩

end

def Standing (bySpiffe : Table String IdentityID) (rules : List PolicyRuleSelector) (key : PolicyRuleKey)
    (v : PolicyVerdict) : Prop := ∃ rule ∈ rules, selects bySpiffe rule key = true ∧ rule.verdict = v

/-- Selectors that can be expanded, where their names can be resolved. -/
structure SelectorsOk (resolvable : List String → Prop) (rule : PolicyRuleSelector) : Prop where
  sources : resolvable rule.sources
  destinations : resolvable rule.destinations
  ports : rule.ports ≠ []
  protocols : rule.protocols ≠ []
  directions : rule.directions ≠ []
  supported : ∀ d ∈ rule.directions, d = directionIngress ∨ d = directionEgress

/-- A rule fits behind others: it can be expanded, and has the verdict of each that shares a key with it. -/
structure Fits (bySpiffe : Table String IdentityID) (done : List PolicyRuleSelector) (rule : PolicyRuleSelector) : Prop where
  selectors : SelectorsOk (Resolvable bySpiffe) rule
  verdict : validateVerdict rule.verdict = none
  agrees : ∀ r ∈ done, ∀ key, selects bySpiffe r key = true → selects bySpiffe rule key = true → r.verdict = rule.verdict

theorem validateRule_eq_none_iff {rule : PolicyRule} : validateRule rule = none ↔
    rule.key.srcIdentity ≠ identityUnknown ∧ rule.key.dstIdentity ≠ identityUnknown ∧
      (rule.key.direction = directionIngress ∨ rule.key.direction = directionEgress) ∧
      validateVerdict rule.verdict = none := by
  unfold validateRule
  by_cases hids : rule.key.srcIdentity = identityUnknown ∨ rule.key.dstIdentity = identityUnknown
  · rw [if_pos (by simpa using hids)]
    refine iff_of_false (by simp) ?_
    rintro ⟨hs, ht, -⟩
    exact hids.elim hs ht
  · rw [if_neg (by simpa using hids)]
    obtain ⟨hs, ht⟩ := not_or.mp hids
    by_cases hdir : rule.key.direction = directionIngress ∨ rule.key.direction = directionEgress
    · rw [if_neg (by simpa [imp_iff_not_or] using hdir), Option.map_eq_none_iff]
      simp [hs, ht, hdir]
    · rw [if_pos (by simpa [not_or] using hdir)]
      simp [hdir]

section
variable {policyName : String} {bySpiffe : Table String IdentityID} {i : Nat} {rule : PolicyRuleSelector} {m m' : RuleMap}
  {done : List PolicyRuleSelector}

theorem compileRule_eq_ok : compileRule policyName bySpiffe i rule m = .ok m' ↔
    ∃ srcIDs dstIDs,
      resolveIdentityNames (policyName ++ "/" ++ nameOr "rule" i rule.name) "sources" rule.sources bySpiffe = .ok srcIDs ∧
      resolveIdentityNames (policyName ++ "/" ++ nameOr "rule" i rule.name) "destinations" rule.destinations bySpiffe =
        .ok dstIDs ∧
      rule.ports ≠ [] ∧ rule.protocols ≠ [] ∧ rule.directions ≠ [] ∧ validateVerdict rule.verdict = none ∧
      rangeLoop (addKey (policyName ++ "/" ++ nameOr "rule" i rule.name) rule.verdict) (expand srcIDs dstIDs rule) 0 m =
        .ok m' := by
  unfold compileRule
  dsimp only
  cases resolveIdentityNames (policyName ++ "/" ++ nameOr "rule" i rule.name) "sources" rule.sources bySpiffe with
  | error e => simp
  | ok srcIDs =>
    cases resolveIdentityNames (policyName ++ "/" ++ nameOr "rule" i rule.name) "destinations" rule.destinations
      bySpiffe with
    | error e => simp
    | ok dstIDs =>
      by_cases hports : rule.ports = []
      · simp [hports]
      by_cases hprotos : rule.protocols = []
      · simp [hports, hprotos]
      by_cases hdirs : rule.directions = []
      · simp [hports, hprotos, hdirs]
      cases hv : validateVerdict rule.verdict <;> simp [hports, hprotos, hdirs]

theorem compileRule_holds (hinv : Holds m (Standing bySpiffe done)) (h : compileRule policyName bySpiffe i rule m = .ok m') :
    Holds m' (Standing bySpiffe (done ++ [rule])) := by
  obtain ⟨srcIDs, dstIDs, hsrc, hdst, -, -, -, -, hloop⟩ := compileRule_eq_ok.mp h
  refine holds_congr (addKeys_holds hinv hloop) fun key v => ?_
  rw [mem_expand (resolveIdentityNames_resolved hsrc) (resolveIdentityNames_resolved hdst)]
  simp only [Standing, List.mem_append, List.mem_singleton, or_and_right, exists_or, exists_eq_left, eq_comm (a := v)]

theorem validateRule_of_selects (hrule : SelectorsOk (Resolvable bySpiffe) rule)
    (hverdict : validateVerdict rule.verdict = none) {key : PolicyRuleKey} (hsel : selects bySpiffe rule key = true) :
    validateRule ⟨key, rule.verdict⟩ = none := by
  obtain ⟨⟨src, hsrcMem, hs⟩, ⟨dst, hdstMem, ht⟩, -, -, hd⟩ := selects_iff.mp hsel
  obtain ⟨-, s, hs', hsne⟩ := hrule.sources.2 src hsrcMem
  obtain ⟨-, t, ht', htne⟩ := hrule.destinations.2 dst hdstMem
  rw [hs, Option.some.injEq] at hs'
  rw [ht, Option.some.injEq] at ht'
  exact validateRule_eq_none_iff.mpr ⟨hs' ▸ hsne, ht' ▸ htne, hrule.supported _ hd, hverdict⟩

theorem selects_direction (hsrc : Resolvable bySpiffe rule.sources) (hdst : Resolvable bySpiffe rule.destinations)
    (hports : rule.ports ≠ []) (hprotos : rule.protocols ≠ []) {d : Direction} (hd : d ∈ rule.directions) :
    ∃ key, selects bySpiffe rule key = true ∧ key.direction = d := by
  obtain ⟨src, hsrcMem⟩ := List.exists_mem_of_ne_nil _ hsrc.1
  obtain ⟨dst, hdstMem⟩ := List.exists_mem_of_ne_nil _ hdst.1
  obtain ⟨port, hport⟩ := List.exists_mem_of_ne_nil _ hports
  obtain ⟨proto, hproto⟩ := List.exists_mem_of_ne_nil _ hprotos
  obtain ⟨-, s, hs, -⟩ := hsrc.2 src hsrcMem
  obtain ⟨-, t, ht, -⟩ := hdst.2 dst hdstMem
  exact ⟨⟨s, t, port, proto, d⟩, selects_iff.mpr ⟨⟨src, hsrcMem, hs⟩, ⟨dst, hdstMem, ht⟩, hport, hproto, hd⟩, rfl⟩

theorem compileRule_ok_iff (hinv : Holds m (Standing bySpiffe done)) :
    (∃ m', compileRule policyName bySpiffe i rule m = .ok m') ↔ Fits bySpiffe done rule := by
  simp only [compileRule_eq_ok]
  constructor
  · rintro ⟨m', srcIDs, dstIDs, hsrc, hdst, hports, hprotos, hdirs, hverdict, hloop⟩
    have hall := (addKeys_ok_iff _ _ hinv).mp ⟨m', hloop⟩
    have hsrcOk := (resolveIdentityNames_ok_iff _ _).mp ⟨srcIDs, hsrc⟩
    have hdstOk := (resolveIdentityNames_ok_iff _ _).mp ⟨dstIDs, hdst⟩
    have hexpand : ∀ key, key ∈ expand srcIDs dstIDs rule ↔ selects bySpiffe rule key = true := fun _ =>
      mem_expand (resolveIdentityNames_resolved hsrc) (resolveIdentityNames_resolved hdst)
    refine ⟨⟨hsrcOk, hdstOk, hports, hprotos, hdirs, fun d hd => ?_⟩, hverdict, fun r hr key hrkey hkey => ?_⟩
    · obtain ⟨key, hkey, rfl⟩ := selects_direction hsrcOk hdstOk hports hprotos hd
      exact (validateRule_eq_none_iff.mp (hall key ((hexpand key).mpr hkey)).1).2.2.1
    · exact (hall key ((hexpand key).mpr hkey)).2 _ ⟨r, hr, hrkey, rfl⟩
  · rintro ⟨hrule, hverdict, hagrees⟩
    let path := policyName ++ "/" ++ nameOr "rule" i rule.name
    obtain ⟨srcIDs, hsrc⟩ := (resolveIdentityNames_ok_iff path "sources").mpr hrule.sources
    obtain ⟨dstIDs, hdst⟩ := (resolveIdentityNames_ok_iff path "destinations").mpr hrule.destinations
    obtain ⟨m', hloop⟩ := (addKeys_ok_iff path (expand srcIDs dstIDs rule) hinv).mpr fun key hkey => by
      have hsel := (mem_expand (resolveIdentityNames_resolved hsrc) (resolveIdentityNames_resolved hdst)).mp hkey
      refine ⟨validateRule_of_selects hrule hverdict hsel, ?_⟩
      rintro v ⟨r, hr, hrkey, rfl⟩
      exact hagrees r hr key hrkey hsel
    exact ⟨m', srcIDs, dstIDs, hsrc, hdst, hrule.ports, hrule.protocols, hrule.directions, hverdict, hloop⟩

end

/-! ### The whole spec -/

section
variable {bySpiffe : Table String IdentityID}

theorem compilePolicy_holds {before : List Policy} {policy : Policy} {i : Nat} {m m' : RuleMap}
    (hinv : Holds m (Standing bySpiffe (specRules ⟨before⟩))) (h : compilePolicy bySpiffe i policy m = .ok m') :
    Holds m' (Standing bySpiffe (specRules ⟨before ++ [policy]⟩)) := by
  have hrules : specRules ⟨before ++ [policy]⟩ = specRules ⟨before⟩ ++ policy.rules := by simp [specRules]
  rw [hrules]
  exact rangeLoop_inv (I := fun done m => Holds m (Standing bySpiffe done)) (fun _ _ _ _ _ => compileRule_holds) _ hinv h

/-- Rules that all expand, with one verdict a key. -/
structure RulesOk (bySpiffe : Table String IdentityID) (rules : List PolicyRuleSelector) : Prop where
  selectors : ∀ rule ∈ rules, SelectorsOk (Resolvable bySpiffe) rule
  verdicts : ∀ rule ∈ rules, validateVerdict rule.verdict = none
  consistent : ∀ r ∈ rules, ∀ rule ∈ rules, ∀ key, selects bySpiffe r key = true → selects bySpiffe rule key = true →
    r.verdict = rule.verdict

theorem compilePolicies_holds {policies : List Policy} {m : RuleMap}
    (h : rangeLoop (compilePolicy bySpiffe) policies 0 ∅ = .ok m) : Holds m (Standing bySpiffe (specRules ⟨policies⟩)) :=
  rangeLoop_inv (I := fun done m => Holds m (Standing bySpiffe (specRules ⟨done⟩))) (fun _ _ _ _ _ => compilePolicy_holds)
    [] (by simp [Holds, Standing, specRules]) h

theorem compilePolicies_ok_iff {policies : List Policy} :
    (∃ m, rangeLoop (compilePolicy bySpiffe) policies 0 ∅ = .ok m) ↔ RulesOk bySpiffe (specRules ⟨policies⟩) := by
  have hpositions : (∃ m, rangeLoop (compilePolicy bySpiffe) policies 0 ∅ = .ok m) ↔
      ∀ before policy after, policies = before ++ policy :: after →
        ∀ done rule rest, policy.rules = done ++ rule :: rest → Fits bySpiffe (specRules ⟨before⟩ ++ done) rule :=
    rangeLoop_ok_iff (I := fun done m => Holds m (Standing bySpiffe (specRules ⟨done⟩)))
      (C := fun before policy => ∀ done rule rest, policy.rules = done ++ rule :: rest →
        Fits bySpiffe (specRules ⟨before⟩ ++ done) rule)
      (fun _ _ _ _ _ => compilePolicy_holds)
      (fun _ _ _ _ hinv => rangeLoop_ok_iff (I := fun done m => Holds m (Standing bySpiffe done)) (C := Fits bySpiffe)
        (fun _ _ _ _ _ => compileRule_holds) (fun _ _ _ _ => compileRule_ok_iff) _ hinv)
      [] (by simp [Holds, Standing, specRules])
  constructor
  · intro hok
    have hfits : ∀ rule ∈ specRules ⟨policies⟩, ∃ done, Fits bySpiffe done rule := by
      intro rule hrule
      obtain ⟨policy, hpolicy, hmem⟩ := List.mem_flatMap.mp hrule
      obtain ⟨before, after, hsplit⟩ := List.append_of_mem hpolicy
      obtain ⟨done, rest, hsplitRule⟩ := List.append_of_mem hmem
      exact ⟨_, hpositions.mp hok before policy after hsplit done rule rest hsplitRule⟩
    obtain ⟨m, hm⟩ := hok
    have hholds := compilePolicies_holds hm
    refine ⟨fun rule hrule => ?_, fun rule hrule => ?_, fun r hr rule hrule key hrkey hkey => ?_⟩
    · obtain ⟨_, hfit⟩ := hfits rule hrule
      exact hfit.selectors
    · obtain ⟨_, hfit⟩ := hfits rule hrule
      exact hfit.verdict
    · -- Both verdicts are what the finished map has under the key.
      have h1 := (hholds key _).mpr ⟨r, hr, hrkey, rfl⟩
      have h2 := (hholds key _).mpr ⟨rule, hrule, hkey, rfl⟩
      exact Option.some.inj (h1.symm.trans h2)
  · intro hrules
    refine hpositions.mpr fun before policy after hsplit done rule rest hsplitRule => ?_
    have hmem : ∀ r ∈ specRules ⟨before⟩ ++ done ++ [rule], r ∈ specRules ⟨policies⟩ := by
      intro r hr
      simp only [specRules, hsplit, hsplitRule, List.flatMap_append, List.flatMap_cons, List.mem_append, List.mem_cons] at hr ⊢
      tauto
    have hrule := hmem rule (by simp)
    exact ⟨hrules.selectors rule hrule, hrules.verdicts rule hrule, fun r hr key =>
      hrules.consistent r (hmem r (List.mem_append_left _ hr)) rule hrule key⟩

end

end Meridian.Compiler
