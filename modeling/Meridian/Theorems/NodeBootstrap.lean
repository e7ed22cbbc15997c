import Meridian.Agent.TokenBootstrap
import Meridian.Theorems.Issuance

/-! The credential that `obtainNodeBootstrap` returns: it always is for its key. A persisted one is not compared with the
    node that was asked for, and a new one is not checked to be in date. -/

namespace Meridian.TokenBootstrap
open Lib Url Ca Rest
variable {x : X509} {h : Host} {files files' : Files} {caBundlePath certPath keyPath : String}
  {trustDomain nodeID : List UInt8} {cred : Credential x}

/-- What the caller relies on. -/
structure Usable (x : X509) (now : Int) (files : Files) (trustDomain nodeID : List UInt8) (certPath keyPath : String)
    (cred : Credential x) : Prop where
  key : cred.boot.cert.publicKey = cred.boot.key.publicKey
  unexpired : now < cred.boot.cert.notAfter
  node : cred.boot.nodeSpiffeID = nodeSPIFFEID trustDomain nodeID
  reloads : loadBootstrapFiles x files certPath keyPath = .ok cred

/-- The persisted credential is in date. -/
def Persisted (x : X509) (now : Int) (files : Files) (certPath keyPath : String) (cred : Credential x) : Prop :=
  loadBootstrapFiles x files certPath keyPath = .ok cred ∧ now < cred.boot.cert.notAfter

/-- What the control plane answers to the request that the call makes. -/
def answer (x : X509) (h : Host) (trustDomain nodeID : List UInt8) : Option (List PemBlock) :=
  h.token.bind fun token => (buildCSR x ⟨.p384, h.point⟩ (nodeSPIFFEID trustDomain nodeID)).bind fun csr =>
    h.bootstrapWithToken (trimSpace token) (encodeCSRPEM csr)

theorem loadCredential_key {certPEM keyPEM : List PemBlock} (hload : loadCredential x certPEM keyPEM = .ok cred) :
    cred.boot.cert.publicKey = cred.boot.key.publicKey := by
  obtain ⟨rest, -, -, -, -, hkey⟩ := loadBootstrap_eq_ok (loadCredential_eq_ok_iff.mp hload).1
  exact hkey

theorem acceptChain_eq_ok_iff {key : PrivateKey} {nodeSpiffeID : List UInt8} {certChainPEM : List PemBlock} :
    acceptChain x key nodeSpiffeID certChainPEM = .ok cred ↔
      loadCredential x certChainPEM (encodeKeyPEM key) = .ok cred ∧ cred.boot.nodeSpiffeID = nodeSpiffeID := by
  unfold acceptChain
  split
  · rename_i e he
    simp [he]
  · rename_i loaded hloaded
    split
    · rename_i hne
      refine iff_of_false nofun ?_
      rintro ⟨hload, hid⟩
      cases hloaded.symm.trans hload
      exact hne hid
    · rename_i hid
      constructor
      · rintro ⟨⟩
        exact ⟨hloaded, not_not.mp hid⟩
      · rintro ⟨hload, -⟩
        cases hloaded.symm.trans hload
        rfl

/-- A new credential is the answer of the control plane, for the node that was asked for. -/
theorem bootstrapFromToken_eq_ok (hok : bootstrapFromToken x h caBundlePath trustDomain nodeID = .ok cred) :
    ∃ pem, answer x h trustDomain nodeID = some pem ∧ loadCredential x pem (encodeKeyPEM ⟨.p384, h.point⟩) = .ok cred ∧
      cred.boot.nodeSpiffeID = nodeSPIFFEID trustDomain nodeID := by
  unfold bootstrapFromToken at hok
  split at hok
  · cases hok
  · rename_i bytes htoken
    simp only at hok
    split at hok
    · cases hok
    · split at hok
      · cases hok
      · rename_i csr hcsr
        split at hok
        · cases hok
        · split at hok
          · cases hok
          · split at hok
            · cases hok
            · rename_i pem hpem
              refine ⟨pem, ?_, acceptChain_eq_ok_iff.mp hok⟩
              rw [answer, htoken, Option.bind_some, hcsr, Option.bind_some, hpem]

theorem obtainNew_eq_ok (hok : obtainNew x h files caBundlePath trustDomain nodeID certPath keyPath = (.ok cred, files')) :
    bootstrapFromToken x h caBundlePath trustDomain nodeID = .ok cred ∧
      cred.save h.save files certPath keyPath = (none, files') := by
  unfold obtainNew at hok
  split at hok
  · cases hok
  · rename_i new hnew
    split at hok
    · cases hok
    · split at hok
      · cases hok
      · rename_i hsave
        cases hok
        exact ⟨hnew, hsave⟩

/-- The two ways to a credential. -/
theorem obtainNodeBootstrap_eq_ok
    (hok : obtainNodeBootstrap x h files caBundlePath trustDomain nodeID certPath keyPath = (.ok cred, files')) :
    Persisted x h.now files certPath keyPath cred ∧ files' = files ∨
    (∀ old, ¬Persisted x h.now files certPath keyPath old) ∧
      bootstrapFromToken x h caBundlePath trustDomain nodeID = .ok cred ∧
      cred.save h.save files certPath keyPath = (none, files') := by
  unfold obtainNodeBootstrap at hok
  split at hok
  · rename_i old hold
    split at hok
    · rename_i hnow
      cases hok
      exact .inl ⟨⟨hold, hnow⟩, rfl⟩
    · rename_i hnow
      refine .inr ⟨?_, obtainNew_eq_ok hok⟩
      rintro other ⟨hother, hother'⟩
      cases hold.symm.trans hother
      exact hnow hother'
  · rename_i e he
    refine .inr ⟨?_, obtainNew_eq_ok hok⟩
    rintro other ⟨hother, -⟩
    cases he.symm.trans hother

theorem obtainNodeBootstrap_persisted (hold : Persisted x h.now files certPath keyPath cred) :
    obtainNodeBootstrap x h files caBundlePath trustDomain nodeID certPath keyPath = (.ok cred, files) := by
  unfold obtainNodeBootstrap
  rw [hold.1]
  exact if_pos hold.2

/-- The answer's first certificate is in date. -/
def AnswerInDate (x : X509) (h : Host) (trustDomain nodeID : List UInt8) : Prop :=
  ∀ pem leaf rest, answer x h trustDomain nodeID = some pem → parseCertChainPEM x pem = some (leaf :: rest) →
    h.now < leaf.notAfter

theorem answerInDate_iff (hok : bootstrapFromToken x h caBundlePath trustDomain nodeID = .ok cred) :
    AnswerInDate x h trustDomain nodeID ↔ h.now < cred.boot.cert.notAfter := by
  obtain ⟨pem, hanswer, hload, -⟩ := bootstrapFromToken_eq_ok hok
  obtain ⟨rest, hparse, -⟩ := loadBootstrap_eq_ok (loadCredential_eq_ok_iff.mp hload).1
  constructor
  · intro hin
    exact hin pem _ rest hanswer hparse
  · intro hnow pem' leaf rest' hanswer' hparse'
    cases hanswer.symm.trans hanswer'
    cases hparse.symm.trans hparse'
    exact hnow

theorem node_bootstrap_iff
    (hok : obtainNodeBootstrap x h files caBundlePath trustDomain nodeID certPath keyPath = (.ok cred, files')) :
    cred.boot.cert.publicKey = cred.boot.key.publicKey ∧
    (Usable x h.now files' trustDomain nodeID certPath keyPath cred ↔
      (∀ old, Persisted x h.now files certPath keyPath old → old.boot.nodeSpiffeID = nodeSPIFFEID trustDomain nodeID) ∧
      ((∀ old, ¬Persisted x h.now files certPath keyPath old) →
        AnswerInDate x h trustDomain nodeID ∧ certPath ≠ keyPath)) := by
  obtain ⟨hold, rfl⟩ | ⟨hnone, hnew, hsave⟩ := obtainNodeBootstrap_eq_ok hok
  · obtain ⟨certPEM, keyPEM, -, -, hload⟩ := loadBootstrapFiles_eq_ok_iff.mp hold.1
    have hkey := loadCredential_key hload
    refine ⟨hkey, fun husable => ⟨fun old hother => ?_, fun hnone => absurd hold (hnone cred)⟩, fun ⟨hnode, _⟩ => ?_⟩
    · cases hold.1.symm.trans hother.1
      exact husable.node
    · exact ⟨hkey, hold.2, hnode cred hold, hold.1⟩
  · obtain ⟨pem, hanswer, hload, hnode⟩ := bootstrapFromToken_eq_ok hnew
    have hkey := loadCredential_key hload
    refine ⟨hkey, fun husable => ⟨fun old hold => absurd hold (hnone old), fun _ => ?_⟩, fun ⟨_, hfresh⟩ => ?_⟩
    · exact ⟨(answerInDate_iff hnew).mpr husable.unexpired, (Credential.load_save_iff hsave).mp husable.reloads⟩
    · obtain ⟨hin, hne⟩ := hfresh hnone
      exact ⟨hkey, (answerInDate_iff hnew).mp hin, hnode, (Credential.load_save_iff hsave).mpr hne⟩

def workerName : List UInt8 := ascii "spiffe://cluster.local/node/worker-1"

def workerBoot : Bootstrap := Svid.credential workerName (clusterURL (ascii "/node/worker-1") [])

/-- The credential of a node, valid until a week after time 0, in two files. -/
def workerFiles : Files :=
  Table.put (Table.put (fun _ => none) "node.key" Svid.keyPEM) "node.crt" (Svid.credentialPEM workerName)

theorem workerBoot_loads : loadBootstrap hostX509 (Svid.credentialPEM workerName) Svid.keyPEM = .ok workerBoot := by
  decide +kernel

def workerCredential : Credential hostX509 where
  boot := workerBoot
  raw := rawCertificates (Svid.credentialPEM workerName)
  reloads := loadBootstrap_encode workerBoot_loads

theorem workerFiles_persisted : Persisted hostX509 0 workerFiles "node.crt" "node.key" workerCredential :=
  ⟨loadBootstrapFiles_eq_ok_iff.mpr ⟨_, _, rfl, rfl, loadCredential_eq_ok_iff.mpr ⟨workerBoot_loads, rfl⟩⟩, by decide⟩

/-- A host whose control plane answers with the chain of the worker, whatever the time is. -/
def workerHost (now : Int) : Host where
  now
  token := some ['t']
  caBundle := none
  point := 2
  dial := true
  bootstrapWithToken _ _ := some (Svid.credentialPEM workerName)
  mkdirAll := true
  save := ⟨.written, true, .written⟩

theorem node_bootstrap_worker :
    Usable hostX509 0 workerFiles (ascii "cluster.local") (ascii "worker-1") "node.crt" "node.key" workerCredential := by
  have hok : obtainNodeBootstrap hostX509 (workerHost 0) workerFiles "" (ascii "cluster.local") (ascii "worker-1") "node.crt"
      "node.key" = (.ok workerCredential, workerFiles) := obtainNodeBootstrap_persisted workerFiles_persisted
  refine (node_bootstrap_iff hok).2.mpr ⟨fun old hold => ?_, fun hnone => absurd workerFiles_persisted (hnone _)⟩
  cases workerFiles_persisted.1.symm.trans hold.1
  decide

theorem workerHost_bootstrapFromToken (now : Int) :
    bootstrapFromToken hostX509 (workerHost now) "" (ascii "cluster.local") (ascii "worker-1") = .ok workerCredential := by
  have hsome : (buildCSR hostX509 ⟨.p384, 2⟩ (nodeSPIFFEID (ascii "cluster.local") (ascii "worker-1"))).isSome = true := by
    decide +kernel
  obtain ⟨csr, hcsr⟩ := Option.isSome_iff_exists.mp hsome
  have haccept : acceptChain hostX509 ⟨.p384, 2⟩ (nodeSPIFFEID (ascii "cluster.local") (ascii "worker-1"))
      (Svid.credentialPEM workerName) = .ok workerCredential :=
    acceptChain_eq_ok_iff.mpr ⟨loadCredential_eq_ok_iff.mpr ⟨workerBoot_loads, rfl⟩, by decide⟩
  have htoken : trimSpace ['t'] ≠ [] := by decide
  simp [bootstrapFromToken, workerHost, bootstrapTransportCreds, hcsr, haccept, htoken]

/-- The agent of another node reuses the worker's credential; and a new credential can be one that has expired. -/
theorem node_bootstrap_unchecked :
    obtainNodeBootstrap hostX509 (workerHost 0) workerFiles "" (ascii "cluster.local") (ascii "worker-2") "node.crt"
        "node.key" = (.ok workerCredential, workerFiles) ∧
    workerCredential.boot.nodeSpiffeID ≠ nodeSPIFFEID (ascii "cluster.local") (ascii "worker-2") ∧
    ∃ cred files', obtainNodeBootstrap hostX509 (workerHost 604801) (fun _ => none) "" (ascii "cluster.local")
        (ascii "worker-1") "node.crt" "node.key" = (.ok cred, files') ∧ cred.boot.cert.notAfter < 604801 := by
  refine ⟨obtainNodeBootstrap_persisted workerFiles_persisted, by decide, workerCredential, ?_⟩
  refine ⟨(workerCredential.save ⟨.written, true, .written⟩ (fun _ => none) "node.crt" "node.key").2, ?_, by decide⟩
  rw [obtainNodeBootstrap, loadBootstrapFiles, obtainNew, workerHost_bootstrapFromToken]
  rfl

end Meridian.TokenBootstrap
