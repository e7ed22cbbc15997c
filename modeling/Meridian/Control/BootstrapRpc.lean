import Meridian.Control.Credential
import Meridian.Control.Issuance

/-! The bootstrap endpoint of the control plane (`internal/control/ca/bootstrap_rpc.go`, `tokenreview.go`): a node without a
    certificate presents a service account token, and gets one for the node that the token is bound to. The messages are
    given by their fields; a certificate keeps the DER form it was parsed from. -/

namespace Meridian.Ca
open Lib Url

/-! ### The token -/

/-- The status of a `TokenReview`, with the values of the claim `authentication.kubernetes.io/node-name`. -/
structure TokenReviewStatus where
  error : List Char
  authenticated : Bool
  audiences : List (List Char)
  username : List Char
  nodeNames : Option (List (List UInt8))
  deriving DecidableEq, Repr

/-- The answer of the API server to a token and an audience, if it answers. -/
abbrev TokenReviews := List Char → List Char → Option TokenReviewStatus

inductive TokenError where
  | emptyToken
  | emptyAudience
  | apiCall
  | rejected (reason : List Char)
  | notAuthenticated
  | audience (audiences : List (List Char))
  | notServiceAccount (username : List Char)
  | noNodeName
  deriving DecidableEq, Repr

def serviceAccountUsernamePrefix : List Char := "system:serviceaccount:".toList

def nodeNameFromUserInfo (status : TokenReviewStatus) : Except TokenError (List UInt8) :=
  match status.nodeNames with
  | none | some [] => .error .noNodeName
  | some (name :: _) => if name = [] then .error .noNodeName else .ok name

def validateToken (reviews : TokenReviews) (token audience : List Char) : Except TokenError (List UInt8) :=
  if token = [] then .error .emptyToken
  else if audience = [] then .error .emptyAudience
  else
    match reviews token audience with
    | none => .error .apiCall
    | some status =>
      if status.error ≠ [] then .error (.rejected status.error)
      else if !status.authenticated then .error .notAuthenticated
      else if !status.audiences.contains audience then .error (.audience status.audiences)
      else if !serviceAccountUsernamePrefix.isPrefixOf status.username then .error (.notServiceAccount status.username)
      else nodeNameFromUserInfo status

/-! ### Signing -/

section
variable (x : X509)

/-- An authority with its intermediate certificate in DER form. -/
structure Issuer where
  authority : Authority
  interRaw : Certificate (List UInt8)
  parses : x.parseCertificate interRaw = some authority.interCert

end

/-! ### The endpoint -/

def bootstrapWireVersion : Int := 1

structure BootstrapTokenRequest where
  v : Int
  token : List Char
  csrPEM : List PemBlock
  deriving DecidableEq, Repr

structure NodeCert where
  v : Int
  nodeSpiffeID : List UInt8
  certChainPEM : List PemBlock
  expiresAt : Int
  deriving DecidableEq, Repr

inductive BootstrapRpcError where
  | decodeRequest
  | version (v : Int)
  | emptyToken
  | csr (err : Rest.CSRParseError)
  | token (err : TokenError)
  | sign (nodeSpiffeID : List UInt8) (err : SignError)
  deriving DecidableEq, Repr

section
variable {x : X509}

def parseCSRPEMBlock (x : X509) (csrPEM : List PemBlock) : Except Rest.CSRParseError (Request URL) := Rest.parseCSRPEM x csrPEM

/-- The chain in DER form, and the leaf. -/
def Issuer.signNodeCert (s : Issuer x) (now : Int) (csr : Request URL) (nodeSpiffeID : List UInt8) :
    Except SignError (List (Certificate (List UInt8)) × Certificate URL) :=
  (Authority.signChecked x (s.authority.validateNodeCSR x csr nodeSpiffeID) now csr nodeSpiffeID nodeCertTTL).map fun leaf =>
    ([leaf.1, s.interRaw], leaf.2)

/-- The method of the server. -/
def Issuer.bootstrapWithToken (s : Issuer x) (reviews : TokenReviews) (audience : List Char) (now : Int)
    (req : BootstrapTokenRequest) : Except BootstrapRpcError NodeCert :=
  if req.token = [] then .error .emptyToken
  else
    match parseCSRPEMBlock x req.csrPEM with
    | .error e => .error (.csr e)
    | .ok csr =>
      match validateToken reviews req.token audience with
      | .error e => .error (.token e)
      | .ok nodeID =>
        let nodeSpiffeID := nodeSPIFFEID s.authority.td nodeID
        match s.signNodeCert now csr nodeSpiffeID with
        | .error e => .error (.sign nodeSpiffeID e)
        | .ok (chain, leaf) => .ok ⟨bootstrapWireVersion, nodeSpiffeID, encodeCertPEM chain, leaf.notAfter⟩

/-- A request that cannot be decoded is absent. -/
def Issuer.handleBootstrapRaw (s : Issuer x) (reviews : TokenReviews) (audience : List Char) (now : Int)
    (req : Option BootstrapTokenRequest) : Except BootstrapRpcError NodeCert :=
  match req with
  | none => .error .decodeRequest
  | some req =>
    if req.v ≠ bootstrapWireVersion then .error (.version req.v) else s.bootstrapWithToken reviews audience now req

/-- The client's function of the same name: the answer counts if its version is right. -/
def clientBootstrapWithToken (invoke : Option BootstrapTokenRequest → Except BootstrapRpcError NodeCert) (token : List Char)
    (csrPEM : List PemBlock) : Option NodeCert :=
  match invoke (some ⟨bootstrapWireVersion, token, csrPEM⟩) with
  | .error _ => none
  | .ok resp => if resp.v ≠ bootstrapWireVersion then none else some resp

end

end Meridian.Ca
