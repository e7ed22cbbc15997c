import Meridian.Control.Ca
import Meridian.Lib.Loop
import Meridian.Lib.Table

/-! The node credential on disk (`internal/control/ca/bootstrap.go`). A parsed certificate keeps its DER form, which is
    what is written. The content of a file is the list of the PEM blocks found in it. -/

namespace Meridian.Ca
open Lib Url
variable {x : X509}

def nodeSPIFFEID (trustDomain nodeID : List UInt8) : List UInt8 :=
  ascii "spiffe://" ++ trustDomain ++ ascii "/node/" ++ nodeID

def encodeCertPEM (raws : List (Certificate (List UInt8))) : List PemBlock :=
  raws.map fun raw => ⟨"CERTIFICATE", [], .certificate raw⟩

def encodeKeyPEM (key : PrivateKey) : List PemBlock := [⟨"EC PRIVATE KEY", [], .ecPrivateKey key⟩]

/-- The DER form of each certificate of a text. -/
def rawCertificates : List PemBlock → List (Certificate (List UInt8))
  | [] => []
  | block :: rest =>
    if block.type ≠ "CERTIFICATE" then rawCertificates rest
    else
      match block.der with
      | .certificate der => der :: rawCertificates rest
      | _ => rawCertificates rest

theorem rawCertificates_encode (raws : List (Certificate (List UInt8))) : rawCertificates (encodeCertPEM raws) = raws := by
  induction raws with
  | nil => rfl
  | cons raw raws ih => exact congrArg (raw :: ·) ih

/-- A chain that parses is parsed again from what is written of it. -/
theorem parseCertChainPEM_encode {pem : List PemBlock} {chain : List (Certificate URL)}
    (h : parseCertChainPEM x pem = some chain) :
    parseCertChainPEM x (encodeCertPEM (rawCertificates pem)) = some chain := by
  induction pem generalizing chain with
  | nil => exact h
  | cons block rest ih =>
    rw [parseCertChainPEM] at h
    rw [rawCertificates]
    split at h
    · rename_i htype
      rw [if_pos htype]
      exact ih h
    · rename_i htype
      rw [if_neg htype]
      cases hder : block.der with
      | certificate der =>
        rw [hder] at h
        cases hparse : x.parseCertificate der with
        | none => simp [hparse] at h
        | some cert =>
          simp only [hparse, Option.map_eq_some_iff] at h
          obtain ⟨certs, hrest, rfl⟩ := h
          show parseCertChainPEM x (⟨"CERTIFICATE", [], .certificate der⟩ :: encodeCertPEM (rawCertificates rest)) = _
          simp [parseCertChainPEM, hparse, ih hrest]
      | request | ecPrivateKey | malformed => simp [hder] at h

/-- A credential that loads is the first certificate of its text, which is for its key and names a node. -/
theorem loadBootstrap_eq_ok {certPEM keyPEM : List PemBlock} {boot : Bootstrap}
    (h : loadBootstrap x certPEM keyPEM = .ok boot) :
    ∃ rest, parseCertChainPEM x certPEM = some (boot.cert :: rest) ∧ boot.chain = boot.cert :: rest ∧
      extractNodeSPIFFEID x boot.cert = .ok boot.nodeSpiffeID ∧ decodeKeyPEM keyPEM = .ok boot.key ∧
      boot.cert.publicKey = boot.key.publicKey := by
  unfold loadBootstrap at h
  split at h
  · cases h
  · cases h
  · rename_i leaf rest hchain
    split at h
    · cases h
    · rename_i key hkey
      split at h
      · cases h
      · rename_i curve point hpublic
        split at h
        · cases h
        · rename_i hmatch
          split at h
          · cases h
          · rename_i nodeSpiffeID hextract
            cases h
            exact ⟨rest, hchain, rfl, hextract, hkey, hpublic.trans (not_not.mp hmatch)⟩

/-- Only what is parsed from the two texts counts. -/
theorem loadBootstrap_congr {certPEM certPEM' keyPEM keyPEM' : List PemBlock}
    (hcert : parseCertChainPEM x certPEM = parseCertChainPEM x certPEM') (hkey : decodeKeyPEM keyPEM = decodeKeyPEM keyPEM') :
    loadBootstrap x certPEM keyPEM = loadBootstrap x certPEM' keyPEM' := by
  rw [loadBootstrap, loadBootstrap, hcert, hkey]

theorem loadBootstrap_encode {certPEM keyPEM : List PemBlock} {boot : Bootstrap}
    (h : loadBootstrap x certPEM keyPEM = .ok boot) :
    loadBootstrap x (encodeCertPEM (rawCertificates certPEM)) (encodeKeyPEM boot.key) = .ok boot := by
  obtain ⟨rest, hchain, -, -, hkey, -⟩ := loadBootstrap_eq_ok h
  rw [← h]
  exact loadBootstrap_congr ((parseCertChainPEM_encode hchain).trans hchain.symm) hkey.symm

/-- A loaded credential with the DER form of its chain: what is written of it loads as the same credential. -/
@[ext] structure Credential (x : X509) where
  boot : Bootstrap
  raw : List (Certificate (List UInt8))
  reloads : loadBootstrap x (encodeCertPEM raw) (encodeKeyPEM boot.key) = .ok boot

/-- `LoadBootstrap` with the DER form kept. -/
def loadCredential (x : X509) (certPEM keyPEM : List PemBlock) : Except BootstrapError (Credential x) :=
  match h : loadBootstrap x certPEM keyPEM with
  | .error e => .error e
  | .ok boot => .ok ⟨boot, rawCertificates certPEM, loadBootstrap_encode h⟩

theorem loadCredential_eq_ok_iff {certPEM keyPEM : List PemBlock} {cred : Credential x} :
    loadCredential x certPEM keyPEM = .ok cred ↔
      loadBootstrap x certPEM keyPEM = .ok cred.boot ∧ rawCertificates certPEM = cred.raw := by
  unfold loadCredential
  split
  · rename_i e he
    simp [he]
  · rename_i boot hboot
    simp only [hboot, Except.ok.injEq, Credential.ext_iff]

/-! ### Files -/

/-- What the files hold; a file that cannot be read is absent. -/
abbrev Files := Table String (List PemBlock)

inductive LoadFilesError where
  | readCert
  | readKey
  | load (err : BootstrapError)
  deriving DecidableEq, Repr

def loadBootstrapFiles (x : X509) (files : Files) (certFile keyFile : String) : Except LoadFilesError (Credential x) :=
  match files certFile with
  | none => .error .readCert
  | some certPEM =>
    match files keyFile with
    | none => .error .readKey
    | some keyPEM => (loadCredential x certPEM keyPEM).mapError .load

/-- What `os.WriteFile` does: a write that fails can leave anything. -/
inductive WriteResult where
  | written
  | failed (left : Option (List PemBlock))

inductive SaveError where
  | writeKey
  | chmodKey
  | writeCert
  deriving DecidableEq, Repr

structure SaveResults where
  key : WriteResult
  chmodKey : Bool
  cert : WriteResult

/-- The key is written first. -/
def Credential.save (cred : Credential x) (results : SaveResults) (files : Files) (certFile keyFile : String) :
    Option SaveError × Files :=
  match results.key with
  | .failed left => (some .writeKey, Table.write files (keyFile, left))
  | .written =>
    let files := Table.put files keyFile (encodeKeyPEM cred.boot.key)
    if !results.chmodKey then (some .chmodKey, files)
    else
      match results.cert with
      | .failed left => (some .writeCert, Table.write files (certFile, left))
      | .written => (none, Table.put files certFile (encodeCertPEM cred.raw))

theorem Credential.save_eq_none {cred : Credential x} {results : SaveResults} {files files' : Files}
    {certFile keyFile : String}
    (h : cred.save results files certFile keyFile = (none, files')) :
    files' = Table.put (Table.put files keyFile (encodeKeyPEM cred.boot.key)) certFile (encodeCertPEM cred.raw) := by
  rw [save] at h
  split at h
  · cases h
  · simp only at h
    split at h
    · cases h
    · split at h
      · cases h
      · exact (Prod.ext_iff.mp h).2.symm

theorem loadBootstrapFiles_eq_ok_iff {files : Files} {certFile keyFile : String} {cred : Credential x} :
    loadBootstrapFiles x files certFile keyFile = .ok cred ↔
      ∃ certPEM keyPEM, files certFile = some certPEM ∧ files keyFile = some keyPEM ∧
        loadCredential x certPEM keyPEM = .ok cred := by
  unfold loadBootstrapFiles
  split
  · rename_i hcert
    simp [hcert]
  · rename_i certPEM hcert
    split
    · rename_i hkey
      simp [hkey]
    · rename_i keyPEM hkey
      simp [hcert, hkey, mapError_eq_ok]

/-- After a save the two files load as the credential, unless they are one file: then the certificates have taken the
    place of the key. -/
theorem Credential.load_save_iff {cred : Credential x} {results : SaveResults} {files files' : Files}
    {certFile keyFile : String} (h : cred.save results files certFile keyFile = (none, files')) :
    loadBootstrapFiles x files' certFile keyFile = .ok cred ↔ certFile ≠ keyFile := by
  obtain rfl := save_eq_none h
  rw [loadBootstrapFiles_eq_ok_iff]
  constructor
  · rintro ⟨certPEM, keyPEM, hcert, hkey, hload⟩ rfl
    cases (Table.put_same _ _ _).symm.trans hcert
    cases (Table.put_same _ _ _).symm.trans hkey
    obtain ⟨rest, -, -, -, hdecode, -⟩ := loadBootstrap_eq_ok (loadCredential_eq_ok_iff.mp hload).1
    cases hraw : cred.raw <;> simp [hraw, encodeCertPEM, decodeKeyPEM] at hdecode
  · intro hne
    refine ⟨_, _, Table.put_same _ _ _, (Table.put_of_ne hne).trans (Table.put_same _ _ _), ?_⟩
    exact loadCredential_eq_ok_iff.mpr ⟨cred.reloads, rawCertificates_encode _⟩

end Meridian.Ca
