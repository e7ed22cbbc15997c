import Meridian.Control.Issuance

/-! First issuance of the agent's certificate (`internal/agent/svid`): the manager makes a key and a request, and the
    remote signer posts it to the control plane. -/

namespace Meridian.Svid
open Lib Url Ca Rest

inductive SignerError where
  | post
  | server (err : IssuanceError)
  | emptyChain
  deriving DecidableEq, Repr

abbrev Signer := Request (List UInt8) → List UInt8 → Except SignerError (List (Certificate URL))

/-- The signer, given what a POST of a request returns; nothing when the endpoint is not reached. A chain without
    certificates is an empty text. -/
def remoteSign (post : SignRequest → Option (Except IssuanceError SignResponse)) (csrDER : Request (List UInt8))
    (spiffeID : List UInt8) : Except SignerError (List (Certificate URL)) :=
  match post { csrPEM := some [⟨"CERTIFICATE REQUEST", [], .request csrDER⟩], spiffeID } with
  | none => .error .post
  | some (.error e) => .error (.server e)
  | some (.ok resp) => if resp.chain = [] then .error .emptyChain else .ok resp.chain

structure Entry where
  spiffeID : List UInt8
  leaf : Certificate URL
  key : PrivateKey
  chain : List (Certificate URL)
  expiresAt : Int
  deriving DecidableEq, Repr

inductive IssueError where
  | parseSpiffeID
  | createCSR
  | signer (err : SignerError)
  | emptyChain
  deriving DecidableEq, Repr

/-- `issue` with the key it generates, on the curve P-256. -/
def issue (x : X509) (sign : Signer) (point : Nat) (spiffeID : List UInt8) : Except IssueError Entry :=
  let key : PrivateKey := ⟨.p256, point⟩
  match parse x.authority spiffeID with
  | none => .error .parseSpiffeID
  | some u =>
    match x.createCertificateRequest
        { signatureValid := true, publicKey := key.publicKey, dnsNames := [], ipAddresses := [], emailAddresses := [],
          uris := [u] } with
    | none => .error .createCSR
    | some csrDER =>
      match sign csrDER spiffeID with
      | .error e => .error (.signer e)
      | .ok [] => .error .emptyChain
      | .ok (leaf :: rest) => .ok { spiffeID, leaf, key, chain := leaf :: rest, expiresAt := leaf.notAfter }

/-- Remote mode with the control plane in reach: the manager asks for the SPIFFE ID of the node credential, over a
    connection on which it presents that credential. -/
def firstIssuance (x : X509) (auth : Ca.Authority) (now : Int) (boot : Bootstrap) (point : Nat) : Except IssueError Entry :=
  issue x (remoteSign fun req => some (handleSignSVID x (some auth) now (some boot.chain) (.ok req))) point
    boot.nodeSpiffeID

end Meridian.Svid
