import Meridian.Control.Ca
import Meridian.Proxy.Authz
import Meridian.Proxy.L7

/-! The inbound side of the node proxy (`internal/proxy/inbound.go`, `orig_dest.go`): one accepted connection from the
    handshake to the stream. -/

namespace Meridian.Proxy
open Lib Url Wire Ca

/-! ### Connections -/

/-- `net.Addr`: the address of a TCP connection, or another one with the address and port its text stands for. -/
inductive NetAddr where
  | tcp (ip : List UInt8) (port : Nat)
  | other (parsed : Option AddrPort)
  deriving DecidableEq, Repr

inductive Conn where
  | tcp (localAddr : NetAddr)
  | tls (raw : Conn)
  deriving DecidableEq, Repr

/-! ### The original destination -/

inductive ResolveError where
  | connType
  | parseIP (ip : List UInt8)
  | parseAddr
  deriving DecidableEq, Repr

def mappedPrefix : List UInt8 := [0, 0, 0, 0, 0, 0, 0, 0, 0, 0, 0xff, 0xff]

/-- `netip.Addr.Unmap` -/
def unmap (ip : List UInt8) : List UInt8 :=
  if ip.length = 16 && mappedPrefix.isPrefixOf ip then ip.drop 12 else ip

def addrPortFrom (addr : NetAddr) : Except ResolveError AddrPort :=
  match addr with
  | .tcp ip port =>
    if ip.length = 4 || ip.length = 16 then .ok ⟨unmap ip, UInt16.ofNat port⟩ else .error (.parseIP ip)
  | .other (some ap) => .ok ap
  | .other none => .error .parseAddr

/-- `TPROXYResolver.Resolve`: the destination, the source identity, which it never knows, and the destination
    identity. Only a plain TCP connection is accepted. -/
def tproxyResolve (identityLookup : Option (List UInt8 → Option IdentityID)) (conn : Conn) :
    Except ResolveError (AddrPort × IdentityID × IdentityID) :=
  match conn with
  | .tls _ => .error .connType
  | .tcp addr =>
    match addrPortFrom addr with
    | .error e => .error e
    | .ok ap => .ok (ap, identityUnknown, ((identityLookup.bind (· ap.addr))).getD identityUnknown)

/-! ### The handler -/

structure InboundHandler where
  authority : AuthoritySyntax
  resolver : Conn → Except ResolveError (AddrPort × IdentityID × IdentityID)
  /-- What `Current` and `CurrentL7` return, nothing for an error. -/
  policy : Option ProxyPolicySnapshot
  l7Policy : Option (Option L7PolicySnapshot)
  l7Events : Bool
  spiffeResolver : Option (List UInt8 → Option IdentityID)
  readRequest : List UInt8 → Option HttpRequest

/-- What happens on a connection besides the handler: the peer certificates after a handshake, if it succeeds, whether
    a dial succeeds, and what the client sends. -/
structure Peer where
  certificates : Option (List (Certificate URL))
  dials : AddrPort → Bool
  client : Client

inductive HandshakeError where
  | tls
  | noCertificate
  | uriCount (n : Nat)
  | uriScheme (scheme : List UInt8)
  deriving DecidableEq, Repr

def spiffeIDFromCert (A : AuthoritySyntax) (cert : Certificate URL) : Except HandshakeError (List UInt8) :=
  match cert.uris with
  | [u] => if u.scheme ≠ ascii "spiffe" then .error (.uriScheme u.scheme) else .ok (u.string A)
  | uris => .error (.uriCount uris.length)

/-- The TLS connection over the accepted one, and the SPIFFE ID of the peer. -/
def InboundHandler.handshake (h : InboundHandler) (peer : Peer) (raw : Conn) : Except HandshakeError (Conn × List UInt8) :=
  match peer.certificates with
  | none => .error .tls
  | some [] => .error .noCertificate
  | some (cert :: _) =>
    match spiffeIDFromCert h.authority cert with
    | .error e => .error e
    | .ok spiffeID => .ok (.tls raw, spiffeID)

structure L7Event where
  srcIdentity : IdentityID
  dstIdentity : IdentityID
  dstPort : UInt16
  method : String
  path : List UInt8
  verdict : String
  deriving DecidableEq, Repr

inductive InboundExit where
  | handshake (err : HandshakeError)
  | resolve (err : ResolveError)
  | policySnapshot
  | deny
  | l7Waiting
  | l7Deny
  | dial
  | streamed
  deriving DecidableEq, Repr

/-- What a connection leaves: how it ended, the destination that was dialled, the bytes that were sent there, the
    HTTP event, and the identities and port in its span. -/
structure InboundRun where
  exit : InboundExit
  dialled : Option AddrPort
  upstream : List UInt8
  event : Option L7Event
  srcID : IdentityID
  dstID : IdentityID
  dstPort : UInt16
  deriving DecidableEq, Repr

def InboundHandler.l7Event (h : InboundHandler) (req : Option HttpRequest) (srcID dstID : IdentityID) (dstPort : UInt16)
    (action : PolicyAction) : Option L7Event :=
  if !h.l7Events then none
  else req.map fun req => ⟨srcID, dstID, dstPort, req.method, req.path, if action = policyActionDeny then "deny" else "allow"⟩

/-- The rules that HTTP policy applies to: the first rule for the two identities that has the flag is enough. -/
def requiresL7 (snap : ProxyPolicySnapshot) (srcID dstID : IdentityID) : Bool :=
  snap.policies.any fun rule =>
    rule.key.srcIdentity = srcID && rule.key.dstIdentity = dstID && rule.verdict.flags &&& policyFlagL7Required ≠ 0

inductive L7Check where
  | skipped
  | waiting
  | matched (action : PolicyAction) (req : Option HttpRequest)
  deriving DecidableEq, Repr

/-- The step between authorisation and the dial. An error of the policy source and an empty rule list skip it. -/
def InboundHandler.checkL7 (h : InboundHandler) (snap : ProxyPolicySnapshot) (client : Client) (srcID dstID : IdentityID) :
    L7Check :=
  match h.l7Policy with
  | none => .skipped
  | some current =>
    if !requiresL7 snap srcID dstID then .skipped
    else
      match current with
      | none => .skipped
      | some l7Snap =>
        if l7Snap.rules = [] then .skipped
        else
          match client.peek with
          | none => .waiting
          | some peeked =>
            .matched (peekAndMatchL7 h.readRequest peeked l7Snap.rules).1
              (peekAndMatchL7 h.readRequest peeked l7Snap.rules).2

def InboundHandler.srcIdentity (h : InboundHandler) (spiffeID : List UInt8) : IdentityID :=
  (h.spiffeResolver.bind (· spiffeID)).getD identityUnknown

/-- The dial and the stream: everything that the client sends is copied, also what was peeked. -/
def dialAndStream (peer : Peer) (origDst : AddrPort) (event : Option L7Event) (srcID dstID : IdentityID) : InboundRun :=
  if peer.dials origDst then ⟨.streamed, some origDst, peer.client.sent, event, srcID, dstID, origDst.port⟩
  else ⟨.dial, some origDst, [], event, srcID, dstID, origDst.port⟩

def InboundHandler.handle (h : InboundHandler) (peer : Peer) (raw : Conn) : InboundRun :=
  match h.handshake peer raw with
  | .error e => ⟨.handshake e, none, [], none, identityUnknown, identityUnknown, 0⟩
  | .ok (tlsConn, srcSpiffeID) =>
    match h.resolver tlsConn with
    | .error e => ⟨.resolve e, none, [], none, identityUnknown, identityUnknown, 0⟩
    | .ok (origDst, _, dstID) =>
      let srcID := h.srcIdentity srcSpiffeID
      match h.policy with
      | none => ⟨.policySnapshot, none, [], none, srcID, dstID, origDst.port⟩
      | some snap =>
        if evalPolicy snap srcID dstID origDst 6 = .deny then ⟨.deny, none, [], none, srcID, dstID, origDst.port⟩
        else
          match h.checkL7 snap peer.client srcID dstID with
          | .skipped => dialAndStream peer origDst none srcID dstID
          | .waiting => ⟨.l7Waiting, none, [], none, srcID, dstID, origDst.port⟩
          | .matched action req =>
            let event := h.l7Event req srcID dstID origDst.port action
            if action = policyActionDeny then ⟨.l7Deny, none, [], event, srcID, dstID, origDst.port⟩
            else dialAndStream peer origDst event srcID dstID

end Meridian.Proxy
