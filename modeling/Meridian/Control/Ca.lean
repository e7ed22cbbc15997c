import Meridian.Lib.Url

/-! The certificate authority and the node credential (`internal/control/ca`). A certificate or request in DER form is
    given by its fields, with its URI names as texts; `crypto/x509` turns them into URLs when it parses it. -/

namespace Meridian.Ca
open Lib Url

/-! ### Certificates -/

inductive Curve where
  | p256
  | p384
  | other
  deriving DecidableEq, Repr

inductive PublicKey where
  | ecdsa (curve : Curve) (point : Nat)
  | other
  deriving DecidableEq, Repr

structure PrivateKey where
  curve : Curve
  point : Nat
  deriving DecidableEq, Repr

def PrivateKey.publicKey (key : PrivateKey) : PublicKey := .ecdsa key.curve key.point

/-- A certificate request; in DER form its URI names are texts. -/
structure Request (URI : Type) where
  signatureValid : Bool
  publicKey : PublicKey
  dnsNames : List (List UInt8)
  ipAddresses : List (List UInt8)
  emailAddresses : List (List UInt8)
  uris : List URI
  deriving DecidableEq, Repr

structure Certificate (URI : Type) where
  publicKey : PublicKey
  commonName : List UInt8
  uris : List URI
  notBefore : Int
  notAfter : Int
  deriving DecidableEq, Repr

/-- The parts of `crypto/x509` that are left open: the syntax of an authority, and which hosts it takes for
    domain names. -/
structure X509 where
  authority : AuthoritySyntax
  validHost : List UInt8 → Bool

section
variable (x : X509)

def X509.readURI (san : List UInt8) : Option URL :=
  if !san.all isAscii then none
  else
    match parse x.authority san with
    | none => none
    | some u => if u.authority.host ≠ [] && !x.validHost u.authority.host then none else some u

def X509.writeURI (u : URL) : Option (List UInt8) :=
  if (u.string x.authority).all isAscii then some (u.string x.authority) else none

def X509.parseCertificateRequest (der : Request (List UInt8)) : Option (Request URL) :=
  (der.uris.mapM x.readURI).map fun uris => { der with uris }

def X509.createCertificateRequest (tmpl : Request URL) : Option (Request (List UInt8)) :=
  (tmpl.uris.mapM x.writeURI).map fun uris => { tmpl with uris }

def X509.parseCertificate (der : Certificate (List UInt8)) : Option (Certificate URL) :=
  (der.uris.mapM x.readURI).map fun uris => { der with uris }

def X509.createCertificate (tmpl : Certificate URL) : Option (Certificate (List UInt8)) :=
  (tmpl.uris.mapM x.writeURI).map fun uris => { tmpl with uris }

/-! ### PEM -/

inductive Der where
  | request (der : Request (List UInt8))
  | certificate (der : Certificate (List UInt8))
  | ecPrivateKey (key : PrivateKey)
  | malformed
  deriving DecidableEq, Repr

/-- One block of a PEM text. A text is the list of the blocks that `pem.Decode` finds in it. -/
structure PemBlock where
  type : String
  headers : List (String × String)
  der : Der
  deriving DecidableEq, Repr

/-! ### Signing -/

/-- Times are in seconds. -/
def svidTTL : Int := 24 * 3600
def nodeCertTTL : Int := 7 * 24 * 3600
def clockSkew : Int := 300

structure Authority where
  td : List UInt8
  interCert : Certificate URL

inductive CSRValidationError where
  | signatureInvalid
  | keyNotECDSA
  | keyCurve (want : Curve)
  | dnsSANs
  | ipSANs
  | emailSANs
  | uriCount (n : Nat)
  | uriMismatch (got want : List UInt8)
  | uriScheme (scheme : List UInt8)
  | trustDomain (host td : List UInt8)
  | emptyPath
  deriving DecidableEq, Repr

def Authority.validateSPIFFESAN (a : Authority) (csr : Request URL) (wantSpiffeID : List UInt8) :
    Option CSRValidationError :=
  if csr.dnsNames.length > 0 then some .dnsSANs
  else if csr.ipAddresses.length > 0 then some .ipSANs
  else if csr.emailAddresses.length > 0 then some .emailSANs
  else
    match csr.uris with
    | [u] =>
      if u.string x.authority ≠ wantSpiffeID then some (.uriMismatch (u.string x.authority) wantSpiffeID)
      else if u.scheme ≠ ascii "spiffe" then some (.uriScheme u.scheme)
      else if u.authority.host ≠ a.td then some (.trustDomain u.authority.host a.td)
      else if u.path.decoded.head? ≠ some slash || u.path.decoded.length < 2 then some .emptyPath
      else none
    | uris => some (.uriCount uris.length)

/-- The check of a request; workloads and nodes differ in the curve of the key. -/
def Authority.validateCSR (a : Authority) (want : Curve) (csr : Request URL) (spiffeID : List UInt8) :
    Option CSRValidationError :=
  if !csr.signatureValid then some .signatureInvalid
  else
    match csr.publicKey with
    | .ecdsa curve _ => if curve ≠ want then some (.keyCurve want) else a.validateSPIFFESAN x csr spiffeID
    | .other => some .keyNotECDSA

def Authority.validateWorkloadCSR (a : Authority) (csr : Request URL) (spiffeID : List UInt8) :
    Option CSRValidationError :=
  a.validateCSR x .p256 csr spiffeID

def Authority.validateNodeCSR (a : Authority) (csr : Request URL) (nodeSpiffeID : List UInt8) :
    Option CSRValidationError :=
  a.validateCSR x .p384 csr nodeSpiffeID

inductive SignError where
  | csr (err : CSRValidationError)
  | parseSpiffeID
  | createCertificate
  | parseCertificate
  deriving DecidableEq, Repr

/-- The new leaf, in DER form and parsed. -/
def Authority.sign (now : Int) (csr : Request URL) (spiffeID : List UInt8) (ttl : Int) :
    Except SignError (Certificate (List UInt8) × Certificate URL) :=
  match parse x.authority spiffeID with
  | none => .error .parseSpiffeID
  | some spiffeURI =>
    match x.createCertificate
        { publicKey := csr.publicKey, commonName := spiffeID, uris := [spiffeURI], notBefore := now - clockSkew,
          notAfter := now + ttl } with
    | none => .error .createCertificate
    | some der =>
      match x.parseCertificate der with
      | none => .error .parseCertificate
      | some cert => .ok (der, cert)

/-- The leaf for a request that was checked. -/
def Authority.signChecked (check : Option CSRValidationError) (now : Int) (csr : Request URL) (spiffeID : List UInt8)
    (ttl : Int) : Except SignError (Certificate (List UInt8) × Certificate URL) :=
  match check with
  | some err => .error (.csr err)
  | none => Authority.sign x now csr spiffeID ttl

def Authority.signWorkloadSVID (a : Authority) (now : Int) (csr : Request URL) (spiffeID : List UInt8) :
    Except SignError (List (Certificate URL)) :=
  (Authority.signChecked x (a.validateWorkloadCSR x csr spiffeID) now csr spiffeID svidTTL).map fun leaf =>
    [leaf.2, a.interCert]

/-! ### Node identities -/

inductive NodeCertError where
  | uriCount (n : Nat)
  | uriScheme (scheme : List UInt8)
  | notNode (path : List UInt8)
  deriving DecidableEq, Repr

def isNodePath (path : List UInt8) : Bool :=
  (ascii "/node/").isPrefixOf path && path.length > (ascii "/node/").length

/-- The check that a certificate names a node, which the credential loader, the ADS server and the issuance
    endpoint share. -/
def checkNodeCert (cert : Certificate URL) : Except NodeCertError URL :=
  match cert.uris with
  | [u] =>
    if u.scheme ≠ ascii "spiffe" then .error (.uriScheme u.scheme)
    else if !isNodePath u.path.decoded then .error (.notNode u.path.decoded)
    else .ok u
  | uris => .error (.uriCount uris.length)

def extractNodeSPIFFEID (cert : Certificate URL) : Except NodeCertError (List UInt8) :=
  (checkNodeCert cert).map (·.string x.authority)

/-- The check of the ADS server (`internal/control/ads/mtls.go`). -/
def validateNodeCert (cert : Certificate URL) : Option NodeCertError :=
  match checkNodeCert cert with
  | .error e => some e
  | .ok _ => none

/-! ### The node credential -/

structure Bootstrap where
  cert : Certificate URL
  key : PrivateKey
  chain : List (Certificate URL)
  nodeSpiffeID : List UInt8
  deriving DecidableEq, Repr

inductive BootstrapError where
  | parseCerts
  | noCertificate
  | noKeyBlock
  | parseKey
  | leafNotECDSA
  | keyMismatch
  | node (err : NodeCertError)
  deriving DecidableEq, Repr

/-- Every certificate block must parse; blocks of another type are skipped. -/
def parseCertChainPEM : List PemBlock → Option (List (Certificate URL))
  | [] => some []
  | block :: rest =>
    if block.type ≠ "CERTIFICATE" then parseCertChainPEM rest
    else
      match block.der with
      | .certificate der =>
        match x.parseCertificate der with
        | none => none
        | some cert => (parseCertChainPEM rest).map (cert :: ·)
      | _ => none

/-- The type of the block is not looked at. -/
def decodeKeyPEM (pem : List PemBlock) : Except BootstrapError PrivateKey :=
  match pem with
  | [] => .error .noKeyBlock
  | block :: _ =>
    match block.der with
    | .ecPrivateKey key => .ok key
    | _ => .error .parseKey

def loadBootstrap (certPEM keyPEM : List PemBlock) : Except BootstrapError Bootstrap :=
  match parseCertChainPEM x certPEM with
  | none => .error .parseCerts
  | some [] => .error .noCertificate
  | some (leaf :: rest) =>
    match decodeKeyPEM keyPEM with
    | .error e => .error e
    | .ok key =>
      match leaf.publicKey with
      | .other => .error .leafNotECDSA
      | .ecdsa curve point =>
        if PublicKey.ecdsa curve point ≠ key.publicKey then .error .keyMismatch
        else
          match extractNodeSPIFFEID x leaf with
          | .error e => .error (.node e)
          | .ok nodeSpiffeID => .ok { cert := leaf, key, chain := leaf :: rest, nodeSpiffeID }

end

end Meridian.Ca
