import Meridian.Proxy.CircuitBreaker
import Meridian.Proxy.Inbound
import Meridian.Proxy.SpiffeResolver

/-! The outbound side of the node proxy (`internal/proxy/outbound.go`): all the connections that `Serve` has accepted, each
    in a goroutine of its own, over one table of breakers. A step is what a goroutine does up to its next lock, call or
    blocking read, so that a run is any interleaving. -/

namespace Meridian.Proxy
open Lib Url Wire Ca

def remoteProxyPort : UInt16 := 15008

/-! ### The dialler -/

/-- The leaf that a server presents, with the IP names that `Certificate` leaves out. -/
structure ServerLeaf where
  cert : Certificate URL
  ipAddresses : List (List UInt8)
  deriving DecidableEq, Repr

/-- The fields of `tls.Config` that decide what a client accepts. Without roots the host's own ones count. -/
structure TlsConfig where
  rootCAs : Option (List (Certificate URL))
  clientCAs : List (Certificate URL)
  insecureSkipVerify : Bool
  serverName : List UInt8
  deriving DecidableEq, Repr

/-- `storeSource.TLSConfig`: the pool is that for the certificates of clients. -/
def storeSourceTLSConfig (trustPool : List (Certificate URL)) : TlsConfig :=
  { rootCAs := none, clientCAs := trustPool, insecureSkipVerify := false, serverName := [] }

/-- `x509.Certificate.VerifyHostname` for a host that is an IP address. -/
def verifyHostname (leaf : ServerLeaf) (ip : List UInt8) : Bool :=
  leaf.ipAddresses.any fun candidate => unmap candidate = unmap ip

/-- What happens on the wire when a remote proxy is dialled: whether it accepts, whether there is an SVID to present, the
    leaf it presents, and the pools under which its chain is complete. -/
structure Remote where
  accepts : Bool
  hasSVID : Bool
  leaf : ServerLeaf
  chainsTo : Option (List (Certificate URL)) → Bool

/-- `HandshakeContext` of a client. -/
def clientHandshake (cfg : TlsConfig) (r : Remote) : Bool :=
  r.hasSVID && (cfg.insecureSkipVerify || (r.chainsTo cfg.rootCAs && verifyHostname r.leaf cfg.serverName))

/-- What the handler sees of a connection that was dialled. -/
inductive Upstream where
  | plain
  | tls (peerCertificates : List (Certificate URL))
  deriving DecidableEq, Repr

/-- `MTLSDialer.Dial`; nothing for an error. -/
def mtlsDial (trustPool : List (Certificate URL)) (addr : AddrPort) (r : Remote) : Option Upstream :=
  let cfg := { storeSourceTLSConfig trustPool with insecureSkipVerify := false, serverName := addr.addr }
  if !r.accepts then none
  else if !clientHandshake cfg r then none
  else some (.tls [r.leaf.cert])

/-! ### The handler -/

structure OutboundHandler where
  authority : AuthoritySyntax
  resolver : Conn → Except ResolveError (AddrPort × IdentityID × IdentityID)
  cbTemplate : Option CircuitBreaker

inductive OutboundExit where
  | resolve (err : ResolveError)
  | circuitOpen
  | ended (outcome : Outcome)
  deriving DecidableEq, Repr

/-- Where the goroutine of a connection is: before `cbFor`, before `Allow`, in the dial, in the copy, or at its end. -/
inductive OutboundPhase where
  | lookup
  | check
  | dial
  | copying
  | returned (exit : OutboundExit)
  deriving DecidableEq, Repr

structure OutboundConn where
  origDst : AddrPort
  srcID : IdentityID
  dstID : IdentityID
  phase : OutboundPhase
  /-- The address that was dialled. -/
  dialled : Option AddrPort
  /-- The connection to which the client's bytes are copied. -/
  upstream : Option Upstream
  deriving DecidableEq, Repr

def OutboundConn.remoteProxy (c : OutboundConn) : AddrPort := ⟨c.origDst.addr, remoteProxyPort⟩

structure Outbound where
  clock : Int
  cbs : Table (List UInt8) CircuitBreaker
  conns : Table Nat OutboundConn
  /-- The table of `spiffeLookup`, which the agent replaces. -/
  spiffeLookup : Option MapSpiffeIDResolver

inductive OutboundCall where
  | accept (id : Nat)
  | cbFor (id : Nat)
  | allow (id : Nat)
  | dial (id : Nat) (result : Option Upstream)
  | copied (id : Nat) (copyEnd : CopyEnd)
  | update (identities : List Identity)
  | wait
  deriving DecidableEq, Repr

/-- The connection whose goroutine makes the step. -/
def OutboundCall.conn? : OutboundCall → Option Nat
  | .accept id | .cbFor id | .allow id | .dial id _ | .copied id _ => some id
  | .update _ | .wait => none

/-- A step, and how much time has passed since the one before. -/
structure OutboundEvent where
  elapsed : Nat
  call : OutboundCall
  deriving DecidableEq, Repr

namespace OutboundHandler

/-- The connection after `Resolve`. -/
def resolved (h : OutboundHandler) (conn : Conn) : OutboundConn :=
  match h.resolver conn with
  | .error e => ⟨⟨[], 0⟩, identityUnknown, identityUnknown, .returned (.resolve e), none, none⟩
  | .ok (origDst, srcID, dstID) => ⟨origDst, srcID, dstID, .lookup, none, none⟩

/-- The breaker for an address, made from the template at the first access. -/
def cbFor (h : OutboundHandler) (cbs : Table (List UInt8) CircuitBreaker) (addr : List UInt8) :
    Option (CircuitBreaker × Table (List UInt8) CircuitBreaker) :=
  match h.cbTemplate with
  | none => none
  | some template =>
    match cbs addr with
    | some cb => some (cb, cbs)
    | none => some (.new template.threshold template.resetAfter,
      Table.put cbs addr (.new template.threshold template.resetAfter))

/-- The check of the remote proxy: nothing when the tunnel may go on. A connection without a certificate is not checked,
    and an identity that the table does not know has no SPIFFE ID to compare with. -/
def verifyPeer (h : OutboundHandler) (spiffeLookup : Option MapSpiffeIDResolver) (dstID : IdentityID) (upstream : Upstream) :
    Option Outcome :=
  match upstream with
  | .plain | .tls [] => none
  | .tls (cert :: _) =>
    match spiffeIDFromCert h.authority cert with
    | .error _ => some .notSpiffe
    | .ok peerID =>
      match spiffeLookup.bind (·.lookupID dstID) with
      | none => none
      | some expected => if expected ≠ peerID then some .peerMismatch else none

end OutboundHandler

namespace Outbound

def start (clock : Int) (spiffeLookup : Option MapSpiffeIDResolver) : Outbound :=
  ⟨clock, fun _ => none, fun _ => none, spiffeLookup⟩

def now (s : Outbound) (e : OutboundEvent) : Int := s.clock + e.elapsed

/-- A connection has no breaker when there is no template. -/
def record (s : Outbound) (addr : List UInt8) (outcome : Outcome) : Outbound :=
  match s.cbs addr with
  | none => s
  | some cb => { s with cbs := Table.put s.cbs addr (cb.record s.clock outcome) }

def setConn (s : Outbound) (id : Nat) (c : OutboundConn) : Outbound := { s with conns := Table.put s.conns id c }

def finish (s : Outbound) (id : Nat) (c : OutboundConn) (outcome : Outcome) : Outbound :=
  (s.record c.origDst.addr outcome).setConn id { c with phase := .returned (.ended outcome) }

def lookup (h : OutboundHandler) (s : Outbound) (id : Nat) (c : OutboundConn) : Outbound :=
  match h.cbFor s.cbs c.origDst.addr with
  | none => s.setConn id { c with phase := .dial }
  | some (_, cbs) => { s with cbs }.setConn id { c with phase := .check }

def allow (s : Outbound) (id : Nat) (c : OutboundConn) : Outbound :=
  match s.cbs c.origDst.addr with
  | none => s
  | some cb =>
    match cb.allow s.clock with
    | (permitted, cb) =>
      { s with cbs := Table.put s.cbs c.origDst.addr cb }.setConn id
        { c with phase := if permitted then .dial else .returned .circuitOpen }

def dial (h : OutboundHandler) (s : Outbound) (id : Nat) (c : OutboundConn) (result : Option Upstream) : Outbound :=
  let c := { c with dialled := some c.remoteProxy }
  match result with
  | none => s.finish id c .dialError
  | some upstream =>
    match h.verifyPeer s.spiffeLookup c.dstID upstream with
    | some outcome => s.finish id c outcome
    | none => s.setConn id { c with phase := .copying, upstream := some upstream }

/-- A step of the goroutine of a connection, which is where the call says. -/
def connStep (h : OutboundHandler) (s : Outbound) (id : Nat) (c : OutboundConn) (call : OutboundCall) : Outbound :=
  match c.phase, call with
  | .lookup, .cbFor _ => s.lookup h id c
  | .check, .allow _ => s.allow id c
  | .dial, .dial _ result => s.dial h id c result
  | .copying, .copied _ copyEnd => s.finish id c (.copied copyEnd)
  | _, _ => s

/-- Connection `id` came in on `socket id`. -/
def step (h : OutboundHandler) (socket : Nat → Conn) (s : Outbound) (e : OutboundEvent) : Outbound :=
  let s := { s with clock := s.now e }
  match e.call.conn? with
  | none =>
    match e.call with
    | .update identities => { s with spiffeLookup := s.spiffeLookup.map fun _ => .update identities }
    | _ => s
  | some id =>
    match s.conns id with
    | none =>
      match e.call with
      | .accept _ => s.setConn id (h.resolved (socket id))
      | _ => s
    | some c => s.connStep h id c e.call

end Outbound

/-- The handler as `startPhase4` makes it. -/
def phase4Outbound (authority : AuthoritySyntax) : OutboundHandler :=
  ⟨authority, tproxyResolve none, some (.new 5 30000000000)⟩

end Meridian.Proxy
