import Meridian.Agent.Svid
import Meridian.Control.Credential

/-! Which identities the issuance endpoint signs. It looks for `/node/` in the text of the requested SPIFFE ID,
    while the checks for a node identity look at the decoded path; a text with an escape in it passes as a workload
    and is a node. The agent asks for its own node identity, which is refused unless it is written so. -/

namespace Meridian.Ca
open Lib Url

variable {x : X509}

/-! ### Names in certificates -/

variable {u : URL} {spiffeID : List UInt8}

theorem X509.readURI_eq_some {san : List UInt8} : x.readURI san = some u ↔
    (∀ c ∈ san, isAscii c = true) ∧ parse x.authority san = some u ∧
      (u.authority.host = [] ∨ x.validHost u.authority.host = true) := by
  unfold X509.readURI
  cases hascii : san.all isAscii with
  | false =>
    have hnot : ¬∀ c ∈ san, isAscii c = true := by
      simpa using hascii
    simp [hnot]
  | true =>
    have hall := List.all_eq_true.mp hascii
    cases hparse : parse x.authority san with
    | none => simp
    | some v =>
      by_cases hhost : v.authority.host = [] ∨ x.validHost v.authority.host = true
      · simp only [Bool.not_true, Bool.false_eq_true, if_false]
        rw [if_neg (by simpa [or_iff_not_imp_left] using hhost)]
        constructor
        · intro h
          cases h
          exact ⟨hall, rfl, hhost⟩
        · rintro ⟨-, h, -⟩
          exact h
      · simp only [Bool.not_true, Bool.false_eq_true, if_false]
        rw [if_pos (by simpa [or_iff_not_imp_left] using hhost)]
        refine iff_of_false (by simp) ?_
        rintro ⟨-, h, hu⟩
        cases h
        exact hhost hu

theorem X509.writeURI_eq_some {san : List UInt8} : x.writeURI u = some san ↔
    (∀ c ∈ u.string x.authority, isAscii c = true) ∧ san = u.string x.authority := by
  unfold X509.writeURI
  cases hascii : (u.string x.authority).all isAscii with
  | false =>
    have hnot : ¬∀ c ∈ u.string x.authority, isAscii c = true := by
      simpa using hascii
    simp [hnot]
  | true =>
    have hall := List.all_eq_true.mp hascii
    simp only [if_true, Option.some.injEq, eq_comm (a := u.string x.authority)]
    exact ⟨fun h => ⟨hall, h⟩, fun h => h.2⟩

/-- The name in a certificate that was signed for a SPIFFE ID is that ID, read, written and read again. -/
theorem sign_eq_ok {now ttl : Int} {csr : Request URL} {leaf : Certificate (List UInt8) × Certificate URL} :
    Authority.sign x now csr spiffeID ttl = .ok leaf ↔
      ∃ u v, parse x.authority spiffeID = some u ∧ (∀ c ∈ u.string x.authority, isAscii c = true) ∧
        x.readURI (u.string x.authority) = some v ∧
        leaf = (⟨csr.publicKey, spiffeID, [u.string x.authority], now - clockSkew, now + ttl⟩,
          ⟨csr.publicKey, spiffeID, [v], now - clockSkew, now + ttl⟩) := by
  unfold Authority.sign
  cases hparse : parse x.authority spiffeID with
  | none => simp
  | some u =>
    simp only [X509.createCertificate, mapM_singleton]
    cases hwrite : x.writeURI u with
    | none =>
      refine iff_of_false (by simp) ?_
      rintro ⟨u', v, hu, hascii, -, -⟩
      cases hu
      rw [X509.writeURI_eq_some.mpr ⟨hascii, rfl⟩] at hwrite
      cases hwrite
    | some san =>
      obtain ⟨hascii, rfl⟩ := X509.writeURI_eq_some.mp hwrite
      simp only [Option.map_some, X509.parseCertificate, mapM_singleton]
      cases hread : x.readURI (u.string x.authority) with
      | none =>
        refine iff_of_false (by simp) ?_
        rintro ⟨u', v, hu, -, hv, -⟩
        cases hu
        rw [hread] at hv
        cases hv
      | some v =>
        constructor
        · intro h
          cases h
          exact ⟨u, v, rfl, hascii, hread, rfl⟩
        · rintro ⟨u', v', hu, -, hv, rfl⟩
          cases hu
          rw [hread] at hv
          cases hv
          rfl

theorem signWorkloadSVID_eq_ok {a : Authority} {now : Int} {csr : Request URL} {chain : List (Certificate URL)} :
    a.signWorkloadSVID x now csr spiffeID = .ok chain ↔
      a.validateWorkloadCSR x csr spiffeID = none ∧
        ∃ leaf, Authority.sign x now csr spiffeID svidTTL = .ok leaf ∧ chain = [leaf.2, a.interCert] := by
  unfold Authority.signWorkloadSVID Authority.signChecked
  cases a.validateWorkloadCSR x csr spiffeID with
  | some err => simp [Except.map]
  | none =>
    cases Authority.sign x now csr spiffeID svidTTL with
    | error e => simp [Except.map]
    | ok leaf => simp [Except.map, eq_comm]

/-! ### The text of a SPIFFE ID -/

def spiffe : List UInt8 := ascii "spiffe"

theorem schemeName_spiffe : SchemeName spiffe where
  bytes := List.all_eq_true.mp (by decide)
  first := ⟨_, _, rfl, rfl⟩
  lower := by decide

/-- A SPIFFE ID that starts as it should has a scheme and an authority. -/
theorem read_spiffe {P : UInt8 → Prop} (hP : ∀ c ∈ spiffeID, P c) (hstart : (ascii "spiffe://").isPrefixOf spiffeID = true)
    (hparse : parse x.authority spiffeID = some u) : u.scheme = spiffe ∧ Read x.authority P u := by
  obtain ⟨rest, rfl⟩ := List.isPrefixOf_iff_prefix.mp hstart
  have hslashes : parse x.authority (spiffe ++ colon :: slash :: slash :: rest) = some u := hparse
  obtain ⟨hscheme, hrootless, homit⟩ := parse_slashes schemeName_spiffe hslashes
  exact ⟨hscheme, parse_read hparse hP (by rw [hscheme]; decide) hrootless homit⟩

end Meridian.Ca

namespace Meridian.Rest
open Lib Url Ca

variable {x : X509}

theorem assertWorkloadSpiffeID_eq_none {spiffeID : List UInt8} : assertWorkloadSpiffeID spiffeID = none ↔
    ¬ascii "/node/" <:+: spiffeID ∧ (ascii "spiffe://").isPrefixOf spiffeID = true := by
  unfold assertWorkloadSpiffeID
  by_cases hnode : ascii "/node/" <:+: spiffeID
  · simp [hnode]
  · cases (ascii "spiffe://").isPrefixOf spiffeID <;> simp [hnode]

/-! ### Node identities by issuance -/

/-- None of the three checks takes the certificate for a node's. -/
def RejectedAsNode (x : X509) (cert : Certificate URL) : Prop :=
  (∃ e, nodeIDFromTLS x (some [cert]) = .error e) ∧ (∃ e, validateNodeCert cert = some e) ∧
    ∃ e, extractNodeSPIFFEID x cert = .error e

theorem rejectedAsNode_iff {cert : Certificate URL} : RejectedAsNode x cert ↔ ∃ e, checkNodeCert cert = .error e := by
  unfold RejectedAsNode nodeIDFromTLS validateNodeCert extractNodeSPIFFEID
  cases hcheck : checkNodeCert cert with
  | error e => simp [Except.map, hcheck]
  | ok u => simp [Except.map, hcheck]

theorem checkNodeCert_singleton {cert : Certificate URL} {u : URL} (huris : cert.uris = [u]) (hscheme : u.scheme = spiffe) :
    (∃ e, checkNodeCert cert = .error e) ↔ isNodePath u.path.decoded = false := by
  unfold checkNodeCert
  rw [huris]
  dsimp only
  rw [if_neg (not_not.mpr (show u.scheme = ascii "spiffe" from hscheme))]
  cases isNodePath u.path.decoded <;> simp

/-- What the endpoint signs is no node identity exactly when the decoded path of the requested SPIFFE ID is no
    node's, provided that the authority's own certificate is none. -/
theorem issued_rejected_iff {auth : Ca.Authority} {now : Int} {tls : Option (List (Certificate URL))} {req : SignRequest}
    {resp : SignResponse} (h : handleSignSVID x (some auth) now tls (.ok req) = .ok resp) :
    (∀ cert ∈ resp.chain, RejectedAsNode x cert) ↔
      (∀ u, parse x.authority req.spiffeID = some u → isNodePath u.path.decoded = false) ∧
        RejectedAsNode x auth.interCert := by
  obtain ⟨_, pem, csr, hbody, -, -, hassert, hsign⟩ := handleSignSVID_eq_ok x h
  cases hbody
  obtain ⟨-, leaf, hleaf, hchain⟩ := signWorkloadSVID_eq_ok.mp hsign
  obtain ⟨u, v, hu, -, hv, rfl⟩ := sign_eq_ok.mp hleaf
  obtain ⟨-, hstart⟩ := assertWorkloadSpiffeID_eq_none.mp hassert
  obtain ⟨hscheme, hread⟩ := read_spiffe (P := fun _ => True) (fun _ _ => trivial) hstart hu
  -- The name in the certificate has the path of the request.
  obtain ⟨v', hv', hschemeV, -, hpath, -⟩ := hread.parse_string
  obtain ⟨-, hparseV, -⟩ := X509.readURI_eq_some.mp hv
  rw [hparseV] at hv'
  cases hv'
  rw [hchain, List.forall_mem_cons, List.forall_mem_singleton, rejectedAsNode_iff,
    checkNodeCert_singleton rfl (hschemeV.trans hscheme), hpath]
  simp [hu]

/-! An authority that issues for `cluster.local`, where an authority is a plain host name. -/

def isHostByte (c : UInt8) : Bool := isAlpha c || isDigit c || c = 45 || c = 46

theorem isHostByte_clean : ∀ c : UInt8, isHostByte c = true →
    c ≠ slash ∧ c ≠ question ∧ c ≠ hash ∧ isCTL c = false ∧ isAscii c = true :=
  forall_byte (by decide +kernel)

def hostNames : AuthoritySyntax where
  parse t := if t.all isHostByte then some ⟨none, t⟩ else none
  text a := a.host
  text_empty := rfl
  text_clean h c hc := by
    obtain ⟨hall, ⟨⟩⟩ := Option.ite_none_right_eq_some.mp h
    obtain ⟨hslash, hquestion, hhash, hctl, -⟩ := isHostByte_clean c (List.all_eq_true.mp hall c hc)
    exact ⟨hslash, hquestion, hhash, hctl⟩
  text_ascii h c hc := by
    obtain ⟨hall, ⟨⟩⟩ := Option.ite_none_right_eq_some.mp h
    exact (isHostByte_clean c (List.all_eq_true.mp hall c hc)).2.2.2.2
  parse_text h := by
    obtain ⟨hall, ⟨⟩⟩ := Option.ite_none_right_eq_some.mp h
    exact if_pos hall

def hostX509 : X509 := ⟨hostNames, fun _ => true⟩

def clusterAuthority : Ca.Authority := ⟨ascii "cluster.local", ⟨.ecdsa .p384 1, ascii "Intermediate", [], 0, 0⟩⟩

/-- A URL of `cluster.local` with a path and, when it is not the default one, its encoding. -/
def clusterURL (path raw : List UInt8) : URL :=
  ⟨ascii "spiffe", [], ⟨none, ascii "cluster.local"⟩, false, ⟨path, raw⟩, false, [], ⟨[], []⟩⟩

def workerCert : Certificate URL := ⟨.ecdsa .p384 2, ascii "worker-1", [clusterURL (ascii "/node/worker-1") []], 0, 604800⟩

def csrFor (spiffeID : List UInt8) : SignRequest :=
  ⟨some [⟨"CERTIFICATE REQUEST", [], .request ⟨true, .ecdsa .p256 3, [], [], [], [spiffeID]⟩⟩], spiffeID⟩

def leafFor (spiffeID : List UInt8) (u : URL) : Certificate URL := ⟨.ecdsa .p256 3, spiffeID, [u], -300, 86400⟩

theorem issued_rejected_workload :
    handleSignSVID hostX509 (some clusterAuthority) 0 (some [workerCert])
        (.ok (csrFor (ascii "spiffe://cluster.local/default/svc-a"))) =
      .ok ⟨[leafFor (ascii "spiffe://cluster.local/default/svc-a") (clusterURL (ascii "/default/svc-a") []),
        clusterAuthority.interCert], 86400⟩ ∧
      RejectedAsNode hostX509
        (leafFor (ascii "spiffe://cluster.local/default/svc-a") (clusterURL (ascii "/default/svc-a") [])) := by
  have hissued : handleSignSVID hostX509 (some clusterAuthority) 0 (some [workerCert])
        (.ok (csrFor (ascii "spiffe://cluster.local/default/svc-a"))) =
      .ok ⟨[leafFor (ascii "spiffe://cluster.local/default/svc-a") (clusterURL (ascii "/default/svc-a") []),
        clusterAuthority.interCert], 86400⟩ := by decide +kernel
  have hparse : parse hostX509.authority (ascii "spiffe://cluster.local/default/svc-a") =
      some (clusterURL (ascii "/default/svc-a") []) := by decide +kernel
  refine ⟨hissued, (issued_rejected_iff hissued).mpr ⟨fun u hu => ?_, rejectedAsNode_iff.mpr ⟨_, rfl⟩⟩ _
    List.mem_cons_self⟩
  cases hparse.symm.trans hu
  decide

/-- A workload request with an escape in the path gets a certificate that all three checks take for a node's. -/
theorem issued_escaped_node :
    ∃ leaf, handleSignSVID hostX509 (some clusterAuthority) 0 (some [workerCert])
        (.ok (csrFor (ascii "spiffe://cluster.local/%6eode/worker-2"))) =
      .ok ⟨[leaf, clusterAuthority.interCert], 86400⟩ ∧
      nodeIDFromTLS hostX509 (some [leaf]) = .ok (ascii "spiffe://cluster.local/%6eode/worker-2") ∧
      validateNodeCert leaf = none ∧
      extractNodeSPIFFEID hostX509 leaf = .ok (ascii "spiffe://cluster.local/%6eode/worker-2") :=
  ⟨leafFor (ascii "spiffe://cluster.local/%6eode/worker-2")
      (clusterURL (ascii "/node/worker-2") (ascii "/%6eode/worker-2")),
    by decide +kernel, by decide +kernel, by decide +kernel, by decide +kernel⟩

end Meridian.Rest

namespace Meridian.Svid
open Lib Url Ca Rest

variable {x : X509}

/-! ### The agent's own request -/

theorem parseCertChainPEM_head {pem : List PemBlock} {leaf : Certificate URL} {rest : List (Certificate URL)}
    (h : parseCertChainPEM x pem = some (leaf :: rest)) : ∃ der, x.parseCertificate der = some leaf := by
  induction pem with
  | nil => cases h
  | cons block pem ih =>
    rw [parseCertChainPEM] at h
    split at h
    · exact ih h
    · split at h
      · rename_i der _
        split at h
        · cases h
        · rename_i cert hcert
          obtain ⟨_, -, heq⟩ := Option.map_eq_some_iff.mp h
          cases heq
          exact ⟨der, hcert⟩
      · cases h

/-- The name in a node credential. -/
structure NodeName (x : X509) (boot : Bootstrap) (u : URL) : Prop where
  uris : boot.cert.uris = [u]
  cert : checkNodeCert boot.cert = .ok u
  text : boot.nodeSpiffeID = u.string x.authority
  chain : ∃ rest, boot.chain = boot.cert :: rest
  scheme : u.scheme = spiffe
  path : isNodePath u.path.decoded = true
  read : ∃ san, x.readURI san = some u

theorem checkNodeCert_eq_ok {cert : Certificate URL} {u : URL} (h : checkNodeCert cert = .ok u) :
    cert.uris = [u] ∧ u.scheme = spiffe ∧ isNodePath u.path.decoded = true := by
  unfold checkNodeCert at h
  split at h
  · rename_i v huris
    split at h
    · cases h
    · rename_i hscheme
      split at h
      · cases h
      · rename_i hpath
        cases h
        exact ⟨huris, not_not.mp hscheme, by simpa using hpath⟩
  · cases h

theorem extractNodeSPIFFEID_eq_ok {cert : Certificate URL} {text : List UInt8} (h : extractNodeSPIFFEID x cert = .ok text) :
    ∃ u, checkNodeCert cert = .ok u ∧ text = u.string x.authority := by
  unfold extractNodeSPIFFEID at h
  cases hcheck : checkNodeCert cert with
  | error e =>
    rw [hcheck] at h
    cases h
  | ok u =>
    rw [hcheck] at h
    cases h
    exact ⟨u, rfl, rfl⟩

theorem loadBootstrap_nodeName {certPEM keyPEM : List PemBlock} {boot : Bootstrap}
    (h : loadBootstrap x certPEM keyPEM = .ok boot) : ∃ u, NodeName x boot u := by
  obtain ⟨rest, hpem, hchain, hextract, -⟩ := loadBootstrap_eq_ok h
  obtain ⟨u, hcheck, htext⟩ := extractNodeSPIFFEID_eq_ok hextract
  obtain ⟨huris, hscheme, hpath⟩ := checkNodeCert_eq_ok hcheck
  -- The URI was read from the certificate, so it can be read again from the same bytes.
  obtain ⟨der, hder⟩ := parseCertChainPEM_head hpem
  obtain ⟨uris, hread, hcert⟩ := Option.map_eq_some_iff.mp hder
  rw [← hcert] at huris
  cases huris
  obtain ⟨san, -, hsan⟩ := mapM_eq_singleton.mp hread
  exact ⟨u, by rw [← hcert], hcheck, htext, ⟨rest, hchain⟩, hscheme, hpath, ⟨san, hsan⟩⟩

/-- The trust domain of a SPIFFE ID; one without an authority has none. -/
def trustDomain (u : URL) : Option (List UInt8) := if u.omitHost then none else some u.authority.host

section
variable {boot : Bootstrap} {u : URL} {auth : Ca.Authority}

/-- What the control plane sees of the agent's request: the name, read back, is again written as the node's SPIFFE
    ID, in ASCII and with an authority. -/
theorem NodeName.read_back (n : NodeName x boot u) (htd : trustDomain u = some auth.td) :
    ∃ v, x.readURI boot.nodeSpiffeID = some v ∧ v.string x.authority = boot.nodeSpiffeID ∧
      (∀ c ∈ boot.nodeSpiffeID, isAscii c = true) ∧ v.scheme = spiffe ∧ v.authority.host = auth.td ∧
      v.path.decoded = u.path.decoded ∧ (ascii "spiffe://").isPrefixOf boot.nodeSpiffeID = true := by
  obtain ⟨san, hsan⟩ := n.read
  obtain ⟨hascii, hparse, hhost⟩ := X509.readURI_eq_some.mp hsan
  have hpath : u.path.decoded ≠ [] := fun hnil => by
    have hnode := n.path
    rw [hnil] at hnode
    cases hnode
  obtain ⟨homit, htd⟩ : u.omitHost = false ∧ u.authority.host = auth.td := by
    unfold trustDomain at htd
    split at htd
    · cases htd
    · rename_i homit
      exact ⟨by simpa using homit, Option.some.inj htd⟩
  have hread := parse_read hparse hascii (by rw [n.scheme]; decide) (parse_rootless hparse hpath) homit
  obtain ⟨v, hv, hscheme, hauth, hdecoded, hstring⟩ := hread.parse_string
  have hnodeAscii : ∀ c ∈ boot.nodeSpiffeID, isAscii c = true := by
    rw [n.text]
    exact hread.string_ascii
  rw [n.text] at hnodeAscii ⊢
  refine ⟨v, X509.readURI_eq_some.mpr ⟨hnodeAscii, hv, by rw [hauth]; exact hhost⟩, hstring, hnodeAscii,
    hscheme.trans n.scheme, by rw [hauth]; exact htd, hdecoded, ?_⟩
  rw [hread.string_eq, hierarchyText, if_pos (.inr hpath), n.scheme]
  exact List.isPrefixOf_iff_prefix.mpr ⟨_, by simp only [List.append_assoc, List.cons_append]; rfl⟩

theorem isNodePath_rooted {path : List UInt8} (h : isNodePath path = true) : path.head? = some slash ∧ 2 ≤ path.length := by
  unfold isNodePath at h
  simp only [Bool.and_eq_true, decide_eq_true_eq] at h
  obtain ⟨rest, rfl⟩ := List.isPrefixOf_iff_prefix.mp h.1
  exact ⟨rfl, Nat.le_trans (by decide) (Nat.le_of_lt h.2)⟩

/-- Every check behind the text check lets the agent's request pass. -/
theorem NodeName.signed (n : NodeName x boot u) (htd : trustDomain u = some auth.td) (now : Int) (point : Nat) :
    ∃ v chain, x.readURI boot.nodeSpiffeID = some v ∧ chain ≠ [] ∧
      auth.signWorkloadSVID x now ⟨true, .ecdsa .p256 point, [], [], [], [v]⟩ boot.nodeSpiffeID = .ok chain := by
  obtain ⟨v, hv, hstring, hascii, hscheme, hhost, hdecoded, -⟩ := n.read_back htd
  obtain ⟨hroot, hlong⟩ := isNodePath_rooted (hdecoded ▸ n.path)
  refine ⟨v, _, hv, List.cons_ne_nil _ _, signWorkloadSVID_eq_ok.mpr ⟨?_, _, sign_eq_ok.mpr ⟨v, v, ?_, ?_, ?_, rfl⟩, rfl⟩⟩
  · unfold Authority.validateWorkloadCSR Authority.validateCSR Authority.validateSPIFFESAN
    simp only [Bool.not_true, Bool.false_eq_true, if_false, ne_eq, not_true_eq_false, List.length_nil, gt_iff_lt,
      Nat.lt_irrefl, hstring, hhost, hroot, decide_false, Bool.false_or, decide_eq_true_eq]
    rw [if_neg (not_not.mpr (show v.scheme = ascii "spiffe" from hscheme)), if_neg (Nat.not_lt.mpr hlong)]
  · exact (X509.readURI_eq_some.mp hv).2.1
  · rw [hstring]
    exact hascii
  · rw [hstring]
    exact hv

/-- The endpoint's answer to the agent is decided by the check of the text. -/
theorem NodeName.handled (n : NodeName x boot u) (htd : trustDomain u = some auth.td) (now : Int) (point : Nat) :
    ∃ resp : SignResponse, resp.chain ≠ [] ∧
      handleSignSVID x (some auth) now (some boot.chain)
          (.ok ⟨some [⟨"CERTIFICATE REQUEST", [], .request ⟨true, .ecdsa .p256 point, [], [], [], [boot.nodeSpiffeID]⟩⟩],
            boot.nodeSpiffeID⟩) =
        if ascii "/node/" <:+: boot.nodeSpiffeID then .error (.unauthorized boot.nodeSpiffeID .nodePath) else .ok resp := by
  obtain ⟨-, -, -, -, -, -, -, hstart⟩ := n.read_back htd
  obtain ⟨v, chain, hv, hchain, hsign⟩ := n.signed htd now point
  obtain ⟨rest, hrest⟩ := n.chain
  refine ⟨⟨chain, (chain.head?.map (·.notAfter)).getD 0⟩, hchain, ?_⟩
  have hnode : nodeIDFromTLS x (some boot.chain) = .ok boot.nodeSpiffeID := by
    rw [hrest, nodeIDFromTLS, n.cert, n.text]
  have hcsr : parseCSRPEM x
      [⟨"CERTIFICATE REQUEST", [], .request ⟨true, .ecdsa .p256 point, [], [], [], [boot.nodeSpiffeID]⟩⟩] =
      .ok ⟨true, .ecdsa .p256 point, [], [], [], [v]⟩ := by
    simp [parseCSRPEM, X509.parseCertificateRequest, hv]
  have hne : boot.nodeSpiffeID ≠ [] := fun hnil => by
    rw [hnil] at hstart
    cases hstart
  unfold handleSignSVID
  simp only [hnode, hcsr, if_neg hne]
  unfold assertWorkloadSpiffeID
  by_cases hcontains : ascii "/node/" <:+: boot.nodeSpiffeID
  · rw [if_pos hcontains, if_pos hcontains]
  · rw [if_neg hcontains, if_neg hcontains, hstart]
    simp [hsign]

/-- The agent's first request is granted exactly when the SPIFFE ID of its node credential, as it is written, does
    not contain `/node/`. -/
theorem first_issuance_iff {certPEM keyPEM : List PemBlock} (hload : loadBootstrap x certPEM keyPEM = .ok boot)
    (htd : ∀ u, boot.cert.uris = [u] → trustDomain u = some auth.td) (now : Int) (point : Nat) :
    (∃ entry, firstIssuance x auth now boot point = .ok entry) ↔ ¬ascii "/node/" <:+: boot.nodeSpiffeID := by
  obtain ⟨u, n⟩ := loadBootstrap_nodeName hload
  have htd := htd u n.uris
  obtain ⟨v, hv, hstring, hascii, -⟩ := n.read_back htd
  obtain ⟨resp, hchain, hhandled⟩ := n.handled htd now point
  have hparse := (X509.readURI_eq_some.mp hv).2.1
  have hwrite : x.writeURI v = some boot.nodeSpiffeID :=
    X509.writeURI_eq_some.mpr ⟨by rw [hstring]; exact hascii, hstring.symm⟩
  unfold firstIssuance issue
  simp only [hparse, X509.createCertificateRequest, mapM_singleton, hwrite, Option.map_some, PrivateKey.publicKey,
    remoteSign, hhandled]
  by_cases hcontains : ascii "/node/" <:+: boot.nodeSpiffeID
  · rw [if_pos hcontains]
    simp [hcontains]
  · rw [if_neg hcontains]
    obtain ⟨leaf, rest, hleaf⟩ := List.exists_cons_of_ne_nil hchain
    simp [hcontains, hleaf]

end

/-- The PEM texts of a credential for a SPIFFE ID, and what is loaded from them. -/
def credentialPEM (spiffeID : List UInt8) : List PemBlock :=
  [⟨"CERTIFICATE", [], .certificate ⟨.ecdsa .p384 2, spiffeID, [spiffeID], 0, 604800⟩⟩]

def keyPEM : List PemBlock := [⟨"EC PRIVATE KEY", [], .ecPrivateKey ⟨.p384, 2⟩⟩]

def credential (spiffeID : List UInt8) (u : URL) : Bootstrap :=
  ⟨⟨.ecdsa .p384 2, spiffeID, [u], 0, 604800⟩, ⟨.p384, 2⟩, [⟨.ecdsa .p384 2, spiffeID, [u], 0, 604800⟩], spiffeID⟩

def escapedWorker : Bootstrap :=
  credential (ascii "spiffe://cluster.local/%6eode/worker-1")
    (clusterURL (ascii "/node/worker-1") (ascii "/%6eode/worker-1"))

theorem first_issuance_escaped :
    loadBootstrap hostX509 (credentialPEM escapedWorker.nodeSpiffeID) keyPEM = .ok escapedWorker ∧
      ∃ entry, firstIssuance hostX509 clusterAuthority 0 escapedWorker 3 = .ok entry := by
  have hload : loadBootstrap hostX509 (credentialPEM escapedWorker.nodeSpiffeID) keyPEM = .ok escapedWorker := by
    decide +kernel
  refine ⟨hload, (first_issuance_iff hload ?_ 0 3).mpr (by decide +kernel)⟩
  rintro u ⟨⟩
  rfl

/-- An agent with the usual credential is refused. -/
theorem first_issuance_refused :
    loadBootstrap hostX509 (credentialPEM (ascii "spiffe://cluster.local/node/worker-1")) keyPEM =
        .ok (credential (ascii "spiffe://cluster.local/node/worker-1") (clusterURL (ascii "/node/worker-1") [])) ∧
      trustDomain (clusterURL (ascii "/node/worker-1") []) = some clusterAuthority.td ∧
      firstIssuance hostX509 clusterAuthority 0
          (credential (ascii "spiffe://cluster.local/node/worker-1") (clusterURL (ascii "/node/worker-1") [])) 3 =
        .error (.signer (.server (.unauthorized (ascii "spiffe://cluster.local/node/worker-1") .nodePath))) :=
  ⟨by decide +kernel, rfl, by decide +kernel⟩

end Meridian.Svid
