import Meridian.Agent.SvidManager
import Meridian.Lib.Table

/-! Who reads the store of SVIDs: `GetSVID` of the manager, the callbacks of the TLS configuration, and the subscribers
    (`internal/agent/svid`, `internal/agent/workloadapi`), of which the streams of `FetchX509SVID` send a response for each
    entry before they receive the next. A reader first takes an entry and hands it out later; the rotation loop and other
    readers go on in between. -/

namespace Meridian.Workloadapi
open Lib Url Ca Svid

/-! ### What is handed out -/

structure TlsCertificate where
  certificate : List (Certificate URL)
  privateKey : PrivateKey
  leaf : Certificate URL
  deriving DecidableEq, Repr

inductive Error where
  | noSVID
  | noRootCertificate
  deriving DecidableEq, Repr

def getCert : Option Entry → Except Error TlsCertificate
  | none => .error .noSVID
  | some e => .ok ⟨e.chain, e.key, e.leaf⟩

structure X509SVID where
  spiffeID : List UInt8
  x509SVID : List (Certificate URL)
  x509SVIDKey : PrivateKey
  bundle : Certificate URL
  deriving DecidableEq, Repr

/-- The response for an entry; its P-256 key always has a PKCS#8 form. -/
def svidResponse (rootCert : Option (Certificate URL)) (e : Entry) : Except Error X509SVID :=
  match rootCert with
  | none => .error .noRootCertificate
  | some root => .ok ⟨e.spiffeID, e.chain, e.key, root⟩

/-! ### The subscribers -/

/-- The store, what each subscriber has received and each stream has sent (newest first), and the entry that a stream has
    taken and not sent. -/
structure Feed where
  store : Store
  streams : Nat → Bool
  received : Nat → List Entry
  sending : Table Nat Entry
  sent : Nat → List X509SVID

inductive FeedEvent where
  | set (e : Entry)
  | subscribe (id : Nat)
  | fetchX509SVID (id : Nat) (securityHeader : Bool)
  | unsubscribe (id : Nat)
  | receive (id : Nat)
  | send (id : Nat)

namespace Feed

def start : Feed := ⟨.new, fun _ => false, fun _ => [], fun _ => none, fun _ => []⟩

def channel (s : Feed) (id : Nat) : Option (Chan Entry) := s.store.subs.lookup id

/-- A new subscriber has a number of its own. -/
def subscribe (s : Feed) (id : Nat) (stream : Bool) : Feed :=
  match s.channel id with
  | some _ => s
  | none =>
    { store := s.store.subscribe id
      streams := Function.update s.streams id stream
      received := Function.update s.received id []
      sending := Table.erase s.sending id
      sent := Function.update s.sent id [] }

/-- The end of a subscription; for a stream also when its client leaves or a send fails. -/
def unsubscribe (s : Feed) (id : Nat) : Feed :=
  { s with store := s.store.unsubscribe id, sending := Table.erase s.sending id }

/-- What a receive takes from the channel, and what it leaves there; nothing while it blocks. -/
def takes (s : Feed) (id : Nat) : Option (Entry × Chan Entry) :=
  match s.sending id, s.channel id with
  | none, some ch =>
    match ch.recv with
    | some (some e, rest) => some (e, rest)
    | _ => none
  | _, _ => none

def receive (s : Feed) (id : Nat) : Feed :=
  match s.takes id with
  | none => s
  | some (e, rest) =>
    { s with
      store := { s.store with subs := s.store.subs.map fun sub => if sub.1 = id then (id, rest) else sub }
      received := Function.update s.received id (e :: s.received id)
      sending := if s.streams id then Table.put s.sending id e else s.sending }

def send (rootCert : Option (Certificate URL)) (s : Feed) (id : Nat) : Feed :=
  match s.sending id with
  | none => s
  | some e =>
    match svidResponse rootCert e with
    | .ok resp => { s with sending := Table.erase s.sending id, sent := Function.update s.sent id (resp :: s.sent id) }
    | .error _ => s.unsubscribe id

def step (rootCert : Option (Certificate URL)) (s : Feed) : FeedEvent → Feed
  | .set e => { s with store := s.store.set e }
  | .subscribe id => s.subscribe id false
  | .fetchX509SVID id securityHeader => if securityHeader then s.subscribe id true else s
  | .unsubscribe id => s.unsubscribe id
  | .receive id => s.receive id
  | .send id => s.send rootCert id

end Feed

/-! ### The manager and its readers -/

inductive Getter where
  | getSVID
  | getCertificate
  | getClientCertificate
  deriving DecidableEq, Repr

/-- Where the rotation loop is, the store with its streams, and the calls that have read the store and not returned. -/
structure System where
  phase : Phase
  feed : Feed
  calls : Table Nat (Getter × Entry)

/-- Every event reads the clock anew, if at all. -/
inductive Event where
  | issue (sign : Signer) (point : Nat) (now : Int)
  | timer (now : Int)
  | force
  | cancel
  | call (id : Nat) (getter : Getter)
  | answer (id : Nat) (now : Int)
  | fetch (id : Nat) (securityHeader : Bool)
  | receive (id : Nat)
  | send (id : Nat) (now : Int)
  | hangUp (id : Nat)

namespace System

def start : System := ⟨.issuing none, .start, fun _ => none⟩

def manager (s : System) : Manager := ⟨s.phase, s.feed.store⟩

def withManager (s : System) (m : Manager) : System := { s with phase := m.phase, feed := { s.feed with store := m.store } }

/-- A call finds an entry in the store, or returns its error at once. -/
def call (s : System) (id : Nat) (getter : Getter) : System :=
  match s.calls id, s.feed.store.current with
  | none, some e => { s with calls := s.calls.put id (getter, e) }
  | _, _ => s

def step (x : X509) (rootCert : Option (Certificate URL)) (spiffeID : List UInt8) (s : System) : Event → System
  | .issue sign point now => s.withManager (s.manager.issued now (Svid.issue x sign point spiffeID))
  | .timer now => s.withManager (s.manager.timer now)
  | .force => s.withManager s.manager.force
  | .cancel => s.withManager s.manager.cancel
  | .call id getter => s.call id getter
  | .answer id _ => { s with calls := s.calls.erase id }
  | .fetch id securityHeader => { s with feed := s.feed.step rootCert (.fetchX509SVID id securityHeader) }
  | .receive id => { s with feed := s.feed.receive id }
  | .send id _ => { s with feed := s.feed.send rootCert id }
  | .hangUp id => { s with feed := s.feed.unsubscribe id }

/-- The leaf certificate that an event hands out, and when. -/
def handedOut (rootCert : Option (Certificate URL)) (spiffeID : List UInt8) (s : System) :
    Event → Option (Certificate URL × Int)
  | .answer id now =>
    match s.calls id with
    | none => none
    | some (.getSVID, e) => (getSVID spiffeID now (some e)).toOption.map fun e => (e.leaf, now)
    | some (.getCertificate, e) | some (.getClientCertificate, e) =>
      (getCert (some e)).toOption.map fun cert => (cert.leaf, now)
  | .send id now =>
    match s.feed.sending id with
    | none => none
    | some e => (svidResponse rootCert e).toOption.bind fun resp => resp.x509SVID.head?.map (·, now)
  | _ => none

end System

end Meridian.Workloadapi
