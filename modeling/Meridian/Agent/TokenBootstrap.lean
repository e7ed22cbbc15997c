import Meridian.Control.Credential
import Meridian.Lib.Text

/-! How the agent obtains its node credential (`cmd/meridian-agent/token_bootstrap.go`): a persisted one is reused, and
    otherwise the control plane signs a new one against the service account token. -/

namespace Meridian.TokenBootstrap
open Lib Url Ca

/-- What a call of `obtainNodeBootstrap` meets besides the credential files. A file that cannot be read is absent, and so
    is the answer of a call that fails. -/
structure Host where
  now : Int
  token : Option (List Char)
  caBundle : Option (List PemBlock)
  /-- The public point of the generated key. -/
  point : Nat
  dial : Bool
  /-- The chain that the control plane returns for a token and a request. -/
  bootstrapWithToken : List Char → List PemBlock → Option (List PemBlock)
  mkdirAll : Bool
  save : SaveResults

inductive BootstrapTokenError where
  | readToken
  | emptyToken
  | generateCSR (nodeSpiffeID : List UInt8)
  | readCABundle
  | noCABundle
  | dial
  | rpc
  | unusable (err : BootstrapError)
  | issuedFor (got want : List UInt8)
  | createDir
  | persist (err : SaveError)
  deriving DecidableEq, Repr

section
variable (x : X509)

def buildCSR (key : PrivateKey) (spiffeID : List UInt8) : Option (Request (List UInt8)) :=
  match parse x.authority spiffeID with
  | none => none
  | some u =>
    match x.createCertificateRequest
        { signatureValid := true, publicKey := key.publicKey, dnsNames := [], ipAddresses := [], emailAddresses := [],
          uris := [u] } with
    | none => none
    | some der => (x.parseCertificateRequest der).map fun _ => der

def encodeCSRPEM (csr : Request (List UInt8)) : List PemBlock := [⟨"CERTIFICATE REQUEST", [], .request csr⟩]

/-- Some certificate of the bundle parses; blocks with headers are skipped. -/
def appendCertsFromPEM (pem : List PemBlock) : Bool :=
  pem.any fun block => block.type == "CERTIFICATE" && block.headers.isEmpty &&
    match block.der with
    | .certificate der => (x.parseCertificate der).isSome
    | _ => false

/-- Without a bundle the channel is not authenticated, which is allowed. -/
def bootstrapTransportCreds (caBundlePath : String) (caBundle : Option (List PemBlock)) : Option BootstrapTokenError :=
  if caBundlePath = "" then none
  else
    match caBundle with
    | none => some .readCABundle
    | some bundle => if appendCertsFromPEM x bundle then none else some .noCABundle

/-- The checks of the answer: it loads with the generated key, and it is for the node that was asked for. -/
def acceptChain (key : PrivateKey) (nodeSpiffeID : List UInt8) (certChainPEM : List PemBlock) :
    Except BootstrapTokenError (Credential x) :=
  match loadCredential x certChainPEM (encodeKeyPEM key) with
  | .error e => .error (.unusable e)
  | .ok cred =>
    if cred.boot.nodeSpiffeID ≠ nodeSpiffeID then .error (.issuedFor cred.boot.nodeSpiffeID nodeSpiffeID)
    else .ok cred

def bootstrapFromToken (h : Host) (caBundlePath : String) (trustDomain nodeID : List UInt8) :
    Except BootstrapTokenError (Credential x) :=
  match h.token with
  | none => .error .readToken
  | some bytes =>
    let token := trimSpace bytes
    if token = [] then .error .emptyToken
    else
      let nodeSpiffeID := nodeSPIFFEID trustDomain nodeID
      let key : PrivateKey := ⟨.p384, h.point⟩
      match buildCSR x key nodeSpiffeID with
      | none => .error (.generateCSR nodeSpiffeID)
      | some csr =>
        match bootstrapTransportCreds x caBundlePath h.caBundle with
        | some e => .error e
        | none =>
          if !h.dial then .error .dial
          else
            match h.bootstrapWithToken token (encodeCSRPEM csr) with
            | none => .error .rpc
            | some certChainPEM => acceptChain x key nodeSpiffeID certChainPEM

/-- A new credential is persisted before it is returned. -/
def obtainNew (h : Host) (files : Files) (caBundlePath : String) (trustDomain nodeID : List UInt8)
    (certPath keyPath : String) : Except BootstrapTokenError (Credential x) × Files :=
  match bootstrapFromToken x h caBundlePath trustDomain nodeID with
  | .error e => (.error e, files)
  | .ok cred =>
    if !h.mkdirAll then (.error .createDir, files)
    else
      match cred.save h.save files certPath keyPath with
      | (some e, files') => (.error (.persist e), files')
      | (none, files') => (.ok cred, files')

/-- Which node a persisted credential is for is not looked at. -/
def obtainNodeBootstrap (h : Host) (files : Files) (caBundlePath : String) (trustDomain nodeID : List UInt8)
    (certPath keyPath : String) : Except BootstrapTokenError (Credential x) × Files :=
  match loadBootstrapFiles x files certPath keyPath with
  | .ok cred =>
    if h.now < cred.boot.cert.notAfter then (.ok cred, files)
    else obtainNew x h files caBundlePath trustDomain nodeID certPath keyPath
  | .error _ => obtainNew x h files caBundlePath trustDomain nodeID certPath keyPath

end

end Meridian.TokenBootstrap
