import Meridian.Control.BootstrapRpc
import Meridian.Theorems.NodeBootstrap

/-! The bootstrap endpoint and the agent that calls it. Whatever a client sends, the certificate that it gets names the node
    that its token is bound to, and is for the key of its request; and an agent gets its credential exactly when its token
    is bound to its own node. -/

namespace Meridian.Ca
open Lib Url

variable {x : X509} {now : Int} {csr : Request URL} {td nodeID spiffeID : List UInt8}

/-! ### What is signed -/

/-- What the check of a node's request asks for. -/
structure NodeRequest (x : X509) (a : Authority) (csr : Request URL) (nodeSpiffeID : List UInt8) (u : URL) : Prop where
  signed : csr.signatureValid = true
  key : ∃ point, csr.publicKey = .ecdsa .p384 point
  names : csr.dnsNames = [] ∧ csr.ipAddresses = [] ∧ csr.emailAddresses = []
  uris : csr.uris = [u]
  string : u.string x.authority = nodeSpiffeID
  scheme : u.scheme = spiffe
  host : u.authority.host = a.td
  path : u.path.decoded.head? = some slash ∧ 2 ≤ u.path.decoded.length

variable {a : Authority} {leaf : Certificate URL}

theorem validateNodeCSR_eq_none (h : a.validateNodeCSR x csr spiffeID = none) : ∃ u, NodeRequest x a csr spiffeID u := by
  unfold Authority.validateNodeCSR Authority.validateCSR at h
  split at h
  · cases h
  rename_i hsigned
  split at h
  swap
  · cases h
  rename_i curve point hkey
  split at h
  · cases h
  rename_i hcurve
  unfold Authority.validateSPIFFESAN at h
  split at h
  · cases h
  rename_i hdns
  split at h
  · cases h
  rename_i hip
  split at h
  · cases h
  rename_i hemail
  split at h
  swap
  · cases h
  rename_i u huris
  split at h
  · cases h
  rename_i hstring
  split at h
  · cases h
  rename_i hscheme
  split at h
  · cases h
  rename_i hhost
  split at h
  · cases h
  rename_i hpath
  simp only [Bool.or_eq_true, decide_eq_true_eq, not_or, not_not, Nat.not_lt, ne_eq] at hpath
  refine ⟨u, by simpa using hsigned, ⟨point, ?_⟩, ⟨?_, ?_, ?_⟩, huris, not_not.mp hstring, not_not.mp hscheme,
    not_not.mp hhost, hpath⟩
  · rw [hkey, not_not.mp hcurve]
  · exact List.length_eq_zero_iff.mp (Nat.eq_zero_of_not_pos hdns)
  · exact List.length_eq_zero_iff.mp (Nat.eq_zero_of_not_pos hip)
  · exact List.length_eq_zero_iff.mp (Nat.eq_zero_of_not_pos hemail)

theorem NodeRequest.validateNodeCSR {u : URL} (n : NodeRequest x a csr spiffeID u) :
    a.validateNodeCSR x csr spiffeID = none := by
  obtain ⟨point, hkey⟩ := n.key
  obtain ⟨hdns, hip, hemail⟩ := n.names
  have hscheme : u.scheme = ascii "spiffe" := n.scheme
  simp [Authority.validateNodeCSR, Authority.validateCSR, Authority.validateSPIFFESAN, n.signed, hkey, hdns, hip, hemail,
    n.uris, n.string, hscheme, n.host, n.path.1, Nat.not_lt.mpr n.path.2]

/-- A name that was read from a request and is accepted for a node can be read again, and is written the same. -/
theorem NodeRequest.reads_back {u v : URL} (n : NodeRequest x a csr spiffeID u) (htd : a.td ≠ [])
    (hread : ∃ san, x.readURI san = some u) (hv : parse x.authority spiffeID = some v) :
    v.string x.authority = spiffeID := by
  obtain ⟨san, hsan⟩ := hread
  obtain ⟨hascii, hparse, -⟩ := X509.readURI_eq_some.mp hsan
  have hscheme : u.scheme ≠ [] := by
    rw [n.scheme]
    decide
  have hpath : u.path.decoded ≠ [] := fun hnil => by
    have hroot := n.path.1
    rw [hnil] at hroot
    cases hroot
  have homit : u.omitHost = false := by
    by_contra hne
    have hempty := parse_omitHost hparse hscheme (by simpa using hne)
    exact htd (by rw [← n.host, hempty]; rfl)
  obtain ⟨u', hu', -, -, -, hstring⟩ := (parse_read hparse hascii hscheme (parse_rootless hparse hpath) homit).parse_string
  rw [n.string] at hu' hstring
  cases hu'.symm.trans hv
  exact hstring

theorem parseCSRPEM_read {pem : List PemBlock} (h : Rest.parseCSRPEM x pem = .ok csr) {u : URL} (huris : csr.uris = [u]) :
    ∃ san, x.readURI san = some u := by
  unfold Rest.parseCSRPEM at h
  split at h
  · cases h
  split at h
  · cases h
  split at h
  swap
  · cases h
  split at h
  · cases h
  rename_i hparse
  cases h
  obtain ⟨uris, hread, rfl⟩ := Option.map_eq_some_iff.mp hparse
  obtain rfl : uris = [u] := huris
  obtain ⟨san, -, hsan⟩ := mapM_eq_singleton.mp hread
  exact ⟨san, hsan⟩

/-! ### What is granted -/

variable {s : Issuer x} {reviews : TokenReviews} {audience : List Char}

theorem Issuer.signNodeCert_eq_ok {chain : List (Certificate (List UInt8))}
    (h : s.signNodeCert now csr spiffeID = .ok (chain, leaf)) :
    ∃ u raw, NodeRequest x s.authority csr spiffeID u ∧ Authority.sign x now csr spiffeID nodeCertTTL = .ok (raw, leaf) ∧
      chain = [raw, s.interRaw] := by
  unfold Issuer.signNodeCert Authority.signChecked at h
  split at h
  · cases h
  rename_i hvalid
  obtain ⟨u, n⟩ := validateNodeCSR_eq_none hvalid
  cases hsign : Authority.sign x now csr spiffeID nodeCertTTL with
  | error e =>
    rw [hsign] at h
    cases h
  | ok signed =>
    rw [hsign] at h
    cases h
    exact ⟨u, signed.1, n, rfl, rfl⟩

theorem parseCertificate_of_sign {ttl : Int} {raw : Certificate (List UInt8)}
    (h : Authority.sign x now csr spiffeID ttl = .ok (raw, leaf)) : x.parseCertificate raw = some leaf := by
  obtain ⟨u, v, -, -, hread, heq⟩ := sign_eq_ok.mp h
  cases heq
  rw [X509.parseCertificate, mapM_singleton, hread]
  rfl

theorem parseCertChainPEM_pair {raw : Certificate (List UInt8)} (hraw : x.parseCertificate raw = some leaf) :
    parseCertChainPEM x (encodeCertPEM [raw, s.interRaw]) = some [leaf, s.authority.interCert] := by
  simp [encodeCertPEM, parseCertChainPEM, hraw, s.parses]

theorem Issuer.bootstrapWithToken_eq_ok {req : BootstrapTokenRequest} {resp : NodeCert}
    (h : s.bootstrapWithToken reviews audience now req = .ok resp) :
    ∃ nodeID csr chain leaf, validateToken reviews req.token audience = .ok nodeID ∧
      Rest.parseCSRPEM x req.csrPEM = .ok csr ∧
      s.signNodeCert now csr (nodeSPIFFEID s.authority.td nodeID) = .ok (chain, leaf) ∧
      resp = ⟨bootstrapWireVersion, nodeSPIFFEID s.authority.td nodeID, encodeCertPEM chain, leaf.notAfter⟩ := by
  unfold Issuer.bootstrapWithToken at h
  split at h
  · cases h
  split at h
  · cases h
  rename_i csr hcsr
  split at h
  · cases h
  rename_i nodeID htoken
  dsimp only at h
  split at h
  · cases h
  rename_i chain leaf hsign
  cases h
  exact ⟨nodeID, csr, chain, leaf, htoken, hcsr, hsign, rfl⟩

/-- The leaf of an answer: its one name is that of the token's node, and its key that of the request. -/
theorem Issuer.bootstrapWithToken_leaf (htd : s.authority.td ≠ []) {req : BootstrapTokenRequest} {resp : NodeCert}
    (h : s.bootstrapWithToken reviews audience now req = .ok resp) :
    ∃ nodeID csr leaf v, validateToken reviews req.token audience = .ok nodeID ∧ Rest.parseCSRPEM x req.csrPEM = .ok csr ∧
      parseCertChainPEM x resp.certChainPEM = some [leaf, s.authority.interCert] ∧ leaf.publicKey = csr.publicKey ∧
      leaf.uris = [v] ∧ v.string x.authority = nodeSPIFFEID s.authority.td nodeID ∧ leaf.notAfter = now + nodeCertTTL := by
  obtain ⟨nodeID, csr, chain, leaf, htoken, hcsr, hsign, rfl⟩ := bootstrapWithToken_eq_ok h
  obtain ⟨u, raw, n, hsigned, rfl⟩ := Issuer.signNodeCert_eq_ok hsign
  have hraw := parseCertificate_of_sign hsigned
  obtain ⟨u', v, hu', -, hv, heq⟩ := sign_eq_ok.mp hsigned
  cases heq
  have hu'string := n.reads_back htd (parseCSRPEM_read hcsr n.uris) hu'
  rw [hu'string] at hv
  have hvstring := n.reads_back htd (parseCSRPEM_read hcsr n.uris) (X509.readURI_eq_some.mp hv).2.1
  exact ⟨nodeID, csr, _, v, htoken, hcsr, parseCertChainPEM_pair hraw, rfl, rfl, hvstring, rfl⟩

/-- The version of an answer is the one that the client expects. -/
theorem clientBootstrapWithToken_eq (token : List Char) (csrPEM : List PemBlock) :
    clientBootstrapWithToken (s.handleBootstrapRaw reviews audience now) token csrPEM =
      (s.bootstrapWithToken reviews audience now ⟨bootstrapWireVersion, token, csrPEM⟩).toOption := by
  simp only [clientBootstrapWithToken, Issuer.handleBootstrapRaw, ne_eq, not_true_eq_false, if_false]
  cases hresp : s.bootstrapWithToken reviews audience now ⟨bootstrapWireVersion, token, csrPEM⟩ with
  | error e => rfl
  | ok resp =>
    obtain ⟨nodeID, csr, chain, leaf, -, -, -, rfl⟩ := Issuer.bootstrapWithToken_eq_ok hresp
    simp [Except.toOption]

/-- Whatever a client sends: who loads the answer has the identity of the node that the token of the request is bound to,
    and the private key of the request. -/
theorem bootstrap_issues_own_node (s : Issuer x) (htd : s.authority.td ≠ []) (reviews : TokenReviews) (audience : List Char)
    (now : Int) (req : Option BootstrapTokenRequest) {resp : NodeCert}
    (hgrant : s.handleBootstrapRaw reviews audience now req = .ok resp) {keyPEM : List PemBlock} {boot : Bootstrap}
    (hload : loadBootstrap x resp.certChainPEM keyPEM = .ok boot) :
    ∃ r nodeID csr, req = some r ∧ validateToken reviews r.token audience = .ok nodeID ∧
      parseCSRPEMBlock x r.csrPEM = .ok csr ∧ boot.nodeSpiffeID = nodeSPIFFEID s.authority.td nodeID ∧
      boot.key.publicKey = csr.publicKey := by
  unfold Issuer.handleBootstrapRaw at hgrant
  split at hgrant
  · cases hgrant
  rename_i r
  split at hgrant
  · cases hgrant
  obtain ⟨nodeID, csr, leaf, v, htoken, hcsr, hchain, hkey, huris, hstring, -⟩ := Issuer.bootstrapWithToken_leaf htd hgrant
  obtain ⟨rest, hparse, -, hextract, -, hmatch⟩ := loadBootstrap_eq_ok hload
  cases hchain.symm.trans hparse
  obtain ⟨u, hcheck, htext⟩ := Svid.extractNodeSPIFFEID_eq_ok hextract
  obtain ⟨huris', -⟩ := Svid.checkNodeCert_eq_ok hcheck
  cases huris.symm.trans huris'
  exact ⟨r, nodeID, csr, rfl, htoken, hcsr, htext.trans hstring, hmatch.symm.trans hkey⟩

/-- The authority of `cluster.local`, and a review that binds one token to a worker. -/
def clusterIssuer : Issuer Rest.hostX509 := ⟨Rest.clusterAuthority, ⟨.ecdsa .p384 1, ascii "Intermediate", [], 0, 0⟩, rfl⟩

def workerReviews : TokenReviews := fun token _ =>
  if token = ['t'] then
    some ⟨[], true, ["meridian-control".toList], "system:serviceaccount:meridian:agent".toList, some [ascii "worker-1"]⟩
  else none

/-- A request for the worker with its token, and the answer to it. -/
def workerRequest : BootstrapTokenRequest :=
  ⟨1, ['t'], [⟨"CERTIFICATE REQUEST", [],
    .request ⟨true, .ecdsa .p384 2, [], [], [], [ascii "spiffe://cluster.local/node/worker-1"]⟩⟩]⟩

def workerAnswer : NodeCert :=
  ⟨1, ascii "spiffe://cluster.local/node/worker-1", encodeCertPEM
    [⟨.ecdsa .p384 2, ascii "spiffe://cluster.local/node/worker-1", [ascii "spiffe://cluster.local/node/worker-1"], -300,
      604800⟩, clusterIssuer.interRaw], 604800⟩

theorem bootstrap_issues_own_node_worker :
    ∃ r nodeID csr, some workerRequest = some r ∧ validateToken workerReviews r.token "meridian-control".toList = .ok nodeID ∧
      parseCSRPEMBlock Rest.hostX509 r.csrPEM = .ok csr ∧
      ascii "spiffe://cluster.local/node/worker-1" = nodeSPIFFEID (ascii "cluster.local") nodeID ∧
      (⟨.p384, 2⟩ : PrivateKey).publicKey = csr.publicKey := by
  have hgrant : clusterIssuer.handleBootstrapRaw workerReviews "meridian-control".toList 0 (some workerRequest) =
      .ok workerAnswer := by decide +kernel
  have hload : ∃ boot, loadBootstrap Rest.hostX509 workerAnswer.certChainPEM (encodeKeyPEM ⟨.p384, 2⟩) = .ok boot ∧
      boot.nodeSpiffeID = ascii "spiffe://cluster.local/node/worker-1" ∧ boot.key = ⟨.p384, 2⟩ :=
    ⟨⟨⟨.ecdsa .p384 2, ascii "spiffe://cluster.local/node/worker-1", [Rest.clusterURL (ascii "/node/worker-1") []], -300,
      604800⟩, ⟨.p384, 2⟩, [⟨.ecdsa .p384 2, ascii "spiffe://cluster.local/node/worker-1",
        [Rest.clusterURL (ascii "/node/worker-1") []], -300, 604800⟩, Rest.clusterAuthority.interCert],
      ascii "spiffe://cluster.local/node/worker-1"⟩, by decide +kernel, rfl, rfl⟩
  obtain ⟨boot, hload, hnode, hkey⟩ := hload
  have h := bootstrap_issues_own_node clusterIssuer (by decide) workerReviews "meridian-control".toList 0 _ hgrant hload
  rw [hnode, hkey] at h
  exact h

end Meridian.Ca

namespace Meridian.TokenBootstrap
open Lib Url Ca Rest

/-! ### The agent and the endpoint -/

variable {x : X509} {s : Issuer x} {reviews : TokenReviews} {audience : List Char} {now : Int} {h : Host}
  {caBundlePath : String} {nodeID : List UInt8} {u : URL}

/-- The agent's node identity is written as `crypto/x509` reads it. -/
structure NodeText (x : X509) (td nodeID : List UInt8) (u : URL) : Prop where
  read : x.readURI (nodeSPIFFEID td nodeID) = some u
  string : u.string x.authority = nodeSPIFFEID td nodeID
  host : u.authority.host = td
  path : isNodePath u.path.decoded = true

/-- The host of an agent that can read its token and reach the control plane, which is the issuer. -/
structure Reaches (s : Issuer x) (reviews : TokenReviews) (audience : List Char) (now : Int) (h : Host) (caBundlePath : String)
    (token : List Char) : Prop where
  reads : h.token.map trimSpace = some token
  nonempty : token ≠ []
  transport : bootstrapTransportCreds x caBundlePath h.caBundle = none
  dial : h.dial = true
  rpc : h.bootstrapWithToken = fun token csrPEM =>
    (clientBootstrapWithToken (s.handleBootstrapRaw reviews audience now) token csrPEM).map (·.certChainPEM)

section
variable {td : List UInt8}

theorem nodeSPIFFEID_injective {other : List UInt8} (heq : nodeSPIFFEID td nodeID = nodeSPIFFEID td other) : nodeID = other :=
  List.append_cancel_left heq

section
variable (n : NodeText x td nodeID u)
include n

theorem NodeText.all_ascii : ∀ c ∈ nodeSPIFFEID td nodeID, isAscii c = true :=
  (X509.readURI_eq_some.mp n.read).1

theorem NodeText.parses : Url.parse x.authority (nodeSPIFFEID td nodeID) = some u :=
  (X509.readURI_eq_some.mp n.read).2.1

theorem NodeText.scheme : u.scheme = spiffe := by
  have hstart : (ascii "spiffe://").isPrefixOf (nodeSPIFFEID td nodeID) = true := by
    simp only [nodeSPIFFEID, List.append_assoc]
    exact List.isPrefixOf_iff_prefix.mpr (List.prefix_append _ _)
  exact (read_spiffe (P := fun _ => True) (fun _ _ => trivial) hstart n.parses).1

theorem NodeText.buildCSR (key : PrivateKey) : TokenBootstrap.buildCSR x key (nodeSPIFFEID td nodeID) =
      some ⟨true, key.publicKey, [], [], [], [nodeSPIFFEID td nodeID]⟩ := by
  have hwrite : x.writeURI u = some (nodeSPIFFEID td nodeID) :=
    X509.writeURI_eq_some.mpr ⟨by rw [n.string]; exact n.all_ascii, n.string.symm⟩
  simp [TokenBootstrap.buildCSR, n.parses, X509.createCertificateRequest, hwrite,
    X509.parseCertificateRequest, n.read]

theorem NodeText.parseCSRPEM (key : PrivateKey) :
    Rest.parseCSRPEM x (encodeCSRPEM ⟨true, key.publicKey, [], [], [], [nodeSPIFFEID td nodeID]⟩) =
      .ok ⟨true, key.publicKey, [], [], [], [u]⟩ := by
  simp [Rest.parseCSRPEM, encodeCSRPEM, X509.parseCertificateRequest, n.read]

end

end

/-- What the agent's call comes to. -/
theorem Reaches.bootstrapFromToken {token : List Char} (hr : Reaches s reviews audience now h caBundlePath token)
    (n : NodeText x s.authority.td nodeID u) :
    bootstrapFromToken x h caBundlePath s.authority.td nodeID =
      match s.bootstrapWithToken reviews audience now ⟨bootstrapWireVersion, token,
          encodeCSRPEM ⟨true, .ecdsa .p384 h.point, [], [], [], [nodeSPIFFEID s.authority.td nodeID]⟩⟩ with
      | .error _ => .error .rpc
      | .ok resp => acceptChain x ⟨.p384, h.point⟩ (nodeSPIFFEID s.authority.td nodeID) resp.certChainPEM := by
  obtain ⟨bytes, hbytes, rfl⟩ := Option.map_eq_some_iff.mp hr.reads
  have hcsr := n.buildCSR ⟨.p384, h.point⟩
  simp only [PrivateKey.publicKey] at hcsr
  simp only [TokenBootstrap.bootstrapFromToken, hbytes, if_neg hr.nonempty, hcsr, hr.transport, hr.dial, hr.rpc,
    clientBootstrapWithToken_eq, Bool.not_true, Bool.false_eq_true, if_false]
  cases s.bootstrapWithToken reviews audience now ⟨bootstrapWireVersion, trimSpace bytes,
    encodeCSRPEM ⟨true, .ecdsa .p384 h.point, [], [], [], [nodeSPIFFEID s.authority.td nodeID]⟩⟩ <;> rfl

/-- The answer to an agent whose token is bound to its node. -/
theorem NodeText.granted (n : NodeText x s.authority.td nodeID u) {token : List Char} (hne : token ≠ [])
    (htoken : validateToken reviews token audience = .ok nodeID) (now : Int) (point : Nat) :
    ∃ raw, x.parseCertificate raw = some ⟨.ecdsa .p384 point, nodeSPIFFEID s.authority.td nodeID, [u], now - clockSkew,
        now + nodeCertTTL⟩ ∧
      s.bootstrapWithToken reviews audience now ⟨bootstrapWireVersion, token,
          encodeCSRPEM ⟨true, .ecdsa .p384 point, [], [], [], [nodeSPIFFEID s.authority.td nodeID]⟩⟩ =
        .ok ⟨bootstrapWireVersion, nodeSPIFFEID s.authority.td nodeID, encodeCertPEM [raw, s.interRaw],
          now + nodeCertTTL⟩ := by
  have hcsr := n.parseCSRPEM ⟨.p384, point⟩
  have hrequest : NodeRequest x s.authority ⟨true, .ecdsa .p384 point, [], [], [], [u]⟩
    (nodeSPIFFEID s.authority.td nodeID) u :=
    ⟨rfl, ⟨point, rfl⟩, ⟨rfl, rfl, rfl⟩, rfl, n.string, n.scheme, n.host, Svid.isNodePath_rooted n.path⟩
  have hsign : Authority.sign x now ⟨true, .ecdsa .p384 point, [], [], [], [u]⟩ _ nodeCertTTL = .ok _ :=
    sign_eq_ok.mpr ⟨u, u, n.parses, by rw [n.string]; exact n.all_ascii, by rw [n.string]; exact n.read, rfl⟩
  refine ⟨_, parseCertificate_of_sign hsign, ?_⟩
  simp only [PrivateKey.publicKey] at hcsr
  simp [Issuer.bootstrapWithToken, hne, parseCSRPEMBlock, hcsr, htoken, Issuer.signNodeCert, Authority.signChecked,
    hrequest.validateNodeCSR, hsign, Except.map]

/-- An agent that reaches the control plane gets a credential exactly when its token is bound to its own node. -/
theorem token_bootstrap_iff {token : List Char} (hr : Reaches s reviews audience now h caBundlePath token)
    (n : NodeText x s.authority.td nodeID u) :
    (∃ cred : Credential x, bootstrapFromToken x h caBundlePath s.authority.td nodeID = .ok cred ∧
        cred.boot.nodeSpiffeID = nodeSPIFFEID s.authority.td nodeID ∧ cred.boot.key = ⟨.p384, h.point⟩ ∧
        cred.boot.cert.notAfter = now + nodeCertTTL) ↔
      validateToken reviews token audience = .ok nodeID := by
  rw [hr.bootstrapFromToken n]
  constructor
  · rintro ⟨cred, hcred, -⟩
    split at hcred
    · cases hcred
    rename_i resp hresp
    obtain ⟨hload, hnode⟩ := acceptChain_eq_ok_iff.mp hcred
    obtain ⟨other, csr, chain, leaf, htoken, hcsr, hsign, -⟩ := Issuer.bootstrapWithToken_eq_ok hresp
    cases (n.parseCSRPEM ⟨.p384, h.point⟩).symm.trans hcsr
    obtain ⟨u', raw, hrequest, -⟩ := Issuer.signNodeCert_eq_ok hsign
    cases hrequest.uris
    have heq : nodeID = other := nodeSPIFFEID_injective (n.string.symm.trans hrequest.string)
    rw [heq]
    exact htoken
  · intro htoken
    obtain ⟨raw, hraw, hgranted⟩ := n.granted hr.nonempty htoken now h.point
    have hchain := parseCertChainPEM_pair (s := s) hraw
    have hscheme : u.scheme = ascii "spiffe" := n.scheme
    have hload : loadBootstrap x (encodeCertPEM [raw, s.interRaw]) (encodeKeyPEM ⟨.p384, h.point⟩) =
        .ok ⟨⟨.ecdsa .p384 h.point, nodeSPIFFEID s.authority.td nodeID, [u], now - clockSkew, now + nodeCertTTL⟩,
          ⟨.p384, h.point⟩, [⟨.ecdsa .p384 h.point, nodeSPIFFEID s.authority.td nodeID, [u], now - clockSkew,
            now + nodeCertTTL⟩, s.authority.interCert], nodeSPIFFEID s.authority.td nodeID⟩ := by
      simp [loadBootstrap, hchain, decodeKeyPEM, encodeKeyPEM, PrivateKey.publicKey, extractNodeSPIFFEID, checkNodeCert,
        hscheme, n.path, n.string, Except.map]
    refine ⟨⟨_, _, loadBootstrap_encode hload⟩, ?_, rfl, rfl, rfl⟩
    rw [hgranted]
    exact acceptChain_eq_ok_iff.mpr ⟨loadCredential_eq_ok_iff.mpr ⟨hload, rfl⟩, rfl⟩

theorem workerText :
    NodeText hostX509 clusterIssuer.authority.td (ascii "worker-1") (clusterURL (ascii "/node/worker-1") []) :=
  ⟨by decide +kernel, by decide +kernel, rfl, by decide +kernel⟩

/-- The worker's host, where the control plane is the issuer. -/
def issuerHost : Host where
  now := 0
  token := some ['t', '\n']
  caBundle := none
  point := 2
  dial := true
  bootstrapWithToken token csrPEM :=
    (clientBootstrapWithToken (clusterIssuer.handleBootstrapRaw workerReviews "meridian-control".toList 0) token csrPEM).map
      (·.certChainPEM)
  mkdirAll := true
  save := ⟨.written, true, .written⟩

theorem token_bootstrap_worker :
    ∃ cred : Credential hostX509,
      bootstrapFromToken hostX509 issuerHost "" (ascii "cluster.local") (ascii "worker-1") = .ok cred ∧
        cred.boot.nodeSpiffeID = workerName ∧ cred.boot.key = ⟨.p384, 2⟩ ∧ cred.boot.cert.notAfter = 604800 :=
  have hreaches : Reaches clusterIssuer workerReviews "meridian-control".toList 0 issuerHost "" ['t'] :=
    ⟨by decide, by decide, rfl, rfl, rfl⟩
  (token_bootstrap_iff hreaches workerText).mpr (by decide +kernel)

end Meridian.TokenBootstrap
