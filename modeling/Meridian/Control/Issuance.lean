import Mathlib.Data.List.Infix
import Meridian.Control.Ca
import Meridian.Lib.Json

/-! The issuance endpoint `POST /svid/sign` (`internal/control/rest/issuance.go`). -/

namespace Meridian.Rest
open Lib Url Ca

/-- The decoded body. An empty `csr_pem` is `none`, any other text the blocks in it. -/
structure SignRequest where
  csrPEM : Option (List PemBlock)
  spiffeID : List UInt8
  deriving DecidableEq, Repr

structure SignResponse where
  chain : List (Certificate URL)
  expiresAt : Int
  deriving DecidableEq, Repr

inductive NodeIDError where
  | noPeerCertificate
  | cert (err : NodeCertError)
  deriving DecidableEq, Repr

inductive CSRParseError where
  | noBlock
  | blockType (type : String)
  | malformed
  deriving DecidableEq, Repr

inductive WorkloadIDError where
  | nodePath
  | scheme
  deriving DecidableEq, Repr

inductive IssuanceError where
  | noCA
  | unauthenticated (err : NodeIDError)
  | invalidBody (err : JsonError)
  | csrRequired
  | spiffeIDRequired
  | invalidCSR (err : CSRParseError)
  | unauthorized (node : List UInt8) (err : WorkloadIDError)
  | signFailed (err : SignError)
  deriving DecidableEq, Repr

section
variable (x : X509)

/-- The state of the connection is its peer certificates; there is none without TLS. -/
def nodeIDFromTLS (state : Option (List (Certificate URL))) : Except NodeIDError (List UInt8) :=
  match state with
  | none | some [] => .error .noPeerCertificate
  | some (leaf :: _) =>
    match checkNodeCert leaf with
    | .error e => .error (.cert e)
    | .ok u => .ok (u.string x.authority)

def parseCSRPEM (pem : List PemBlock) : Except CSRParseError (Request URL) :=
  match pem with
  | [] => .error .noBlock
  | block :: _ =>
    if block.type ≠ "CERTIFICATE REQUEST" then .error (.blockType block.type)
    else
      match block.der with
      | .request der =>
        match x.parseCertificateRequest der with
        | none => .error .malformed
        | some csr => .ok csr
      | _ => .error .malformed

/-- The check is on the text of the request, before any decoding. -/
def assertWorkloadSpiffeID (spiffeID : List UInt8) : Option WorkloadIDError :=
  if ascii "/node/" <:+: spiffeID then some .nodePath
  else if !(ascii "spiffe://").isPrefixOf spiffeID then some .scheme
  else none

def handleSignSVID (auth : Option Ca.Authority) (now : Int) (tls : Option (List (Certificate URL)))
    (body : Except JsonError SignRequest) : Except IssuanceError SignResponse :=
  match auth with
  | none => .error .noCA
  | some auth =>
    match nodeIDFromTLS x tls with
    | .error e => .error (.unauthenticated e)
    | .ok nodeSpiffeID =>
      match body with
      | .error e => .error (.invalidBody e)
      | .ok req =>
        match req.csrPEM with
        | none => .error .csrRequired
        | some pem =>
          if req.spiffeID = [] then .error .spiffeIDRequired
          else
            match parseCSRPEM x pem with
            | .error e => .error (.invalidCSR e)
            | .ok csr =>
              match assertWorkloadSpiffeID req.spiffeID with
              | some e => .error (.unauthorized nodeSpiffeID e)
              | none =>
                match auth.signWorkloadSVID x now csr req.spiffeID with
                | .error e => .error (.signFailed e)
                | .ok chain => .ok { chain, expiresAt := (chain.head?.map (·.notAfter)).getD 0 }

/-- What a request that got a certificate has passed. -/
theorem handleSignSVID_eq_ok {auth : Ca.Authority} {now : Int} {tls : Option (List (Certificate URL))}
    {body : Except JsonError SignRequest} {resp : SignResponse}
    (h : handleSignSVID x (some auth) now tls body = .ok resp) :
    ∃ req pem csr, body = .ok req ∧ req.csrPEM = some pem ∧ parseCSRPEM x pem = .ok csr ∧
      assertWorkloadSpiffeID req.spiffeID = none ∧ auth.signWorkloadSVID x now csr req.spiffeID = .ok resp.chain := by
  unfold handleSignSVID at h
  dsimp only at h
  split at h
  · cases h
  · split at h
    · cases h
    · rename_i req
      split at h
      · cases h
      · rename_i pem hpem
        split at h
        · cases h
        · split at h
          · cases h
          · rename_i csr hcsr
            split at h
            · cases h
            · rename_i hassert
              split at h
              · cases h
              · rename_i chain hchain
                cases h
                exact ⟨req, pem, csr, rfl, hpem, hcsr, hassert, hchain⟩

end

end Meridian.Rest
