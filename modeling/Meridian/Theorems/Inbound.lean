import Meridian.Proxy.Inbound
import Meridian.Theorems.Issuance

/-! What an inbound connection lets through. The resolver for transparent connections takes plain TCP connections only,
    and is given the TLS connection, so that nothing is dialled. With another resolver, HTTP policy looks at the first
    request as far as it was peeked, and at nothing when the policy source fails or has no rules. -/

namespace Meridian.Proxy
open Lib Url Wire Ca

/-! ### The original destination of a TLS connection -/

section
variable {h : InboundHandler} {peer : Peer} {raw tlsConn : Conn} {spiffeID : List UInt8}

theorem handshake_eq_ok (hshake : h.handshake peer raw = .ok (tlsConn, spiffeID)) : tlsConn = .tls raw := by
  unfold InboundHandler.handshake at hshake
  split at hshake
  · cases hshake
  · cases hshake
  · split at hshake
    · cases hshake
    · cases hshake
      rfl

/-- The handler with the resolver for transparent connections. -/
def InboundHandler.withTproxy (h : InboundHandler) (lookup : Option (List UInt8 → Option IdentityID)) : InboundHandler :=
  { h with resolver := tproxyResolve lookup }

theorem tproxy_nothing_dialled (h : InboundHandler) (lookup : Option (List UInt8 → Option IdentityID)) (peer : Peer)
    (raw : Conn) : ((h.withTproxy lookup).handle peer raw).dialled = none := by
  unfold InboundHandler.handle
  cases hshake : (h.withTproxy lookup).handshake peer raw with
  | error e => rfl
  | ok result =>
    obtain ⟨tlsConn, spiffeID⟩ := result
    obtain rfl := handshake_eq_ok hshake
    rfl

end

/-- The destination that is to be dialled for an accepted TCP connection: its local address, when the handshake
    succeeds and the policy does not deny the flow between the two identities. -/
def authorisedDial (h : InboundHandler) (lookup : Option (List UInt8 → Option IdentityID)) (peer : Peer) (addr : NetAddr) :
    Option AddrPort :=
  match h.handshake peer (.tcp addr), addrPortFrom addr, h.policy with
  | .ok (_, spiffeID), .ok dst, some snap =>
    if evalPolicy snap (h.srcIdentity spiffeID) ((lookup.bind (· dst.addr)).getD identityUnknown) dst 6 = .deny then none
    else some dst
  | _, _, _ => none

/-- What is dialled is what should be exactly when nothing should be: after a handshake, the first rule with a known
    action that covers the flow is a DENY rule, or there is none. -/
theorem tproxy_dials_as_authorised_iff (h : InboundHandler) (lookup : Option (List UInt8 → Option IdentityID))
    (peer : Peer) (addr : NetAddr) :
    ((h.withTproxy lookup).handle peer (.tcp addr)).dialled = authorisedDial h lookup peer addr ↔
      ∀ tlsConn spiffeID dst snap rule, h.handshake peer (.tcp addr) = .ok (tlsConn, spiffeID) →
        addrPortFrom addr = .ok dst → h.policy = some snap →
        snap.policies.find? (decides (h.srcIdentity spiffeID) ((lookup.bind (· dst.addr)).getD identityUnknown) dst.port 6) =
          some rule →
        rule.verdict.action = policyActionDeny := by
  rw [tproxy_nothing_dialled]
  unfold authorisedDial
  split
  · rename_i tlsConn spiffeID dst snap hshake hdst hpolicy
    have hdeny : evalPolicy snap (h.srcIdentity spiffeID) ((lookup.bind (· dst.addr)).getD identityUnknown) dst 6 = .deny ↔
        _ := evalRules_eq_deny_iff
    constructor
    · intro hnone tlsConn' spiffeID' dst' snap' rule hshake' hdst' hpolicy' hrule
      cases hshake.symm.trans hshake'
      cases hdst.symm.trans hdst'
      cases hpolicy.symm.trans hpolicy'
      refine hdeny.mp ?_ rule hrule
      split at hnone
      · assumption
      · cases hnone
    · intro hrules
      rw [if_pos (hdeny.mpr fun rule hrule => hrules _ _ _ _ rule hshake hdst hpolicy hrule)]
  · rename_i hnot
    refine iff_of_true rfl fun tlsConn spiffeID dst snap rule hshake hdst hpolicy _ => ?_
    exact absurd hpolicy (hnot tlsConn spiffeID dst snap hshake hdst)

/-- A peer with the SPIFFE ID of `svc-a`; every dial succeeds. -/
def svcPeer (client : Client) : Peer :=
  ⟨some [Rest.leafFor [] (Rest.clusterURL (ascii "/default/svc-a") [])], fun _ => true, client⟩

/-- A proxy whose one rule lets identity 7, which is `svc-a`, reach port 8080 of identity 8. -/
def svcHandler (flags : PolicyFlags) (l7 : Option (Option L7PolicySnapshot)) (read : List UInt8 → Option HttpRequest) :
    InboundHandler where
  authority := Rest.hostNames
  resolver := fun _ => .ok (⟨[10, 0, 0, 2], 8080⟩, identityUnknown, 8)
  policy := some ⟨"v1", [⟨⟨7, 8, 8080, 6, directionIngress⟩, ⟨policyActionAllow, flags⟩⟩]⟩
  l7Policy := l7
  l7Events := false
  spiffeResolver := some fun spiffeID => if spiffeID = ascii "spiffe://cluster.local/default/svc-a" then some 7 else none
  readRequest := read

/-- The policy allows the connection, and nothing is dialled. -/
theorem tproxy_allowed_not_dialled :
    authorisedDial (svcHandler 0 none fun _ => none) (some fun _ => some 8) (svcPeer ⟨[], true⟩)
        (.tcp [10, 0, 0, 2] 8080) = some ⟨[10, 0, 0, 2], 8080⟩ ∧
      (((svcHandler 0 none fun _ => none).withTproxy (some fun _ => some 8)).handle (svcPeer ⟨[], true⟩)
        (.tcp (.tcp [10, 0, 0, 2] 8080))).dialled = none :=
  ⟨by decide +kernel, tproxy_nothing_dialled _ _ _ _⟩

/-! ### HTTP policy -/

/-- A complete HTTP/1.x request as `readRequest` reads it: its head, which is enough to parse it and of which no part
    is, and its body. -/
structure Http1 (readRequest : List UInt8 → Option HttpRequest) where
  head : List UInt8
  body : List UInt8
  req : HttpRequest
  nonempty : head ≠ []
  complete : ∀ rest, readRequest (head ++ rest) = some req
  incomplete : ∀ p, p <+: head → p ≠ head → readRequest p = none
  notHttp2 : ∀ rest, ¬http2Preface <+: head ++ rest

section
variable {readRequest : List UInt8 → Option HttpRequest}

def Http1.text (r : Http1 readRequest) : List UInt8 := r.head ++ r.body

def stream (requests : List (Http1 readRequest)) : List UInt8 := requests.flatMap Http1.text

/-- The action that the rules have for a request. -/
def Http1.action (r : Http1 readRequest) (rules : List CompiledL7Rule) : PolicyAction := (matchL7 rules r.req).action

/-- What is peeked is the start of what is sent. -/
theorem peek_eq_some {client : Client} {peeked : List UInt8} (h : client.peek = some peeked) :
    peeked = client.sent.take peekSize := by
  unfold Client.peek at h
  split at h
  · exact (Option.some.inj h).symm
  · rename_i hshort
    split at h
    · cases h
      exact (List.take_of_length_le (Nat.le_of_not_le hshort)).symm
    · cases h

/-- What peeking sees of a stream of requests: the first one if its head was peeked as a whole, and nothing else. -/
theorem peekAndMatchL7_stream (first : Http1 readRequest) (rest : List (Http1 readRequest)) (rules : List CompiledL7Rule) :
    (peekAndMatchL7 readRequest ((stream (first :: rest)).take peekSize) rules).1 =
      if first.head.length ≤ peekSize then first.action rules else policyActionAllow := by
  have hstream : stream (first :: rest) = first.head ++ (first.body ++ stream rest) := by
    rw [stream, List.flatMap_cons, Http1.text, List.append_assoc]
    rfl
  rw [hstream, List.take_append]
  by_cases hfits : first.head.length ≤ peekSize
  · rw [if_pos hfits, List.take_of_length_le hfits, peekAndMatchL7, if_neg (by simp [first.nonempty]),
      if_neg (fun h => first.notHttp2 _ (List.isPrefixOf_iff_prefix.mp h)), first.complete]
    rfl
  · -- Only a part of the head is peeked, and cannot be parsed.
    have hnone : peekSize - first.head.length = 0 := by omega
    have hne : first.head.take peekSize ≠ first.head := by
      intro heq
      have hlen := congrArg List.length heq
      rw [List.length_take] at hlen
      omega
    rw [if_neg hfits, hnone, List.take_zero, List.append_nil]
    unfold peekAndMatchL7
    split
    · rfl
    · split
      · rfl
      · rw [first.incomplete _ (List.take_prefix _ _) hne]

/-- Every request that was sent upstream has `P`. -/
def ForwardedOnly (requests : List (Http1 readRequest)) (upstream : List UInt8) (P : Http1 readRequest → Prop) : Prop :=
  ∀ before r after, requests = before ++ r :: after → stream before ++ r.text <+: upstream → P r

theorem forwardedOnly_nil (requests : List (Http1 readRequest)) (P : Http1 readRequest → Prop) :
    ForwardedOnly requests [] P := by
  intro before r after _ hprefix
  have hnil := List.prefix_nil.mp hprefix
  simp only [Http1.text, List.append_eq_nil_iff] at hnil
  exact absurd hnil.2.1 r.nonempty

theorem forwardedOnly_stream {requests : List (Http1 readRequest)} {P : Http1 readRequest → Prop} :
    ForwardedOnly requests (stream requests) P ↔ ∀ r ∈ requests, P r := by
  constructor
  · intro h r hr
    obtain ⟨before, after, rfl⟩ := List.append_of_mem hr
    refine h before r after rfl ?_
    rw [stream, stream, List.flatMap_append, List.flatMap_cons, ← List.append_assoc]
    exact List.prefix_append _ _
  · rintro h before r after rfl -
    exact h r (List.mem_append_right _ List.mem_cons_self)

end

/-- A connection to `dst` that the policy does not deny, by a rule that requires HTTP policy. -/
structure L7Connection (h : InboundHandler) (peer : Peer) (raw : Conn) (dst : AddrPort) : Prop where
  allowed : ∃ tlsConn spiffeID other dstID snap rule, h.handshake peer raw = .ok (tlsConn, spiffeID) ∧
    h.resolver tlsConn = .ok (dst, other, dstID) ∧ h.policy = some snap ∧
    evalPolicy snap (h.srcIdentity spiffeID) dstID dst 6 ≠ .deny ∧
    snap.policies.find? (decides (h.srcIdentity spiffeID) dstID dst.port 6) = some rule ∧
    rule.verdict.flags &&& policyFlagL7Required ≠ 0

section
variable {h : InboundHandler} {peer : Peer} {raw : Conn} {dst : AddrPort} {current : Option L7PolicySnapshot}

/-- The deciding rule is among those that make HTTP policy apply. -/
theorem requiresL7_of_decides {snap : ProxyPolicySnapshot} {srcID dstID : IdentityID} {port : UInt16} {rule : PolicyRule}
    (hrule : snap.policies.find? (decides srcID dstID port 6) = some rule)
    (hflag : rule.verdict.flags &&& policyFlagL7Required ≠ 0) : requiresL7 snap srcID dstID = true := by
  have hdecides := List.find?_some hrule
  simp only [decides, Bool.and_eq_true] at hdecides
  obtain ⟨hsrc, hdst, -, -⟩ := covers_iff.mp hdecides.1
  exact List.any_eq_true.mpr ⟨rule, List.mem_of_find?_eq_some hrule, by simpa [hsrc, hdst] using hflag⟩

/-- What is sent upstream on such a connection: all or nothing. -/
theorem L7Connection.upstream_eq (hconn : L7Connection h peer raw dst) (hl7 : h.l7Policy = some current) :
    (h.handle peer raw).upstream =
      if peer.dials dst = false then []
      else
        match current with
        | none => peer.client.sent
        | some l7 =>
          if l7.rules = [] then peer.client.sent
          else
            match peer.client.peek with
            | none => []
            | some peeked =>
              if (peekAndMatchL7 h.readRequest peeked l7.rules).1 = policyActionDeny then [] else peer.client.sent := by
  obtain ⟨tlsConn, spiffeID, other, dstID, snap, rule, hshake, hresolve, hpolicy, hpass, hrule, hflag⟩ := hconn.allowed
  have hrequires := requiresL7_of_decides hrule hflag
  have hstream : ∀ event srcID dstID, (dialAndStream peer dst event srcID dstID).upstream =
      if peer.dials dst = false then [] else peer.client.sent := by
    intro event srcID dstID
    unfold dialAndStream
    cases peer.dials dst <;> rfl
  unfold InboundHandler.handle
  simp only [hshake, hresolve, hpolicy, if_neg hpass, InboundHandler.checkL7, hl7, hrequires, Bool.not_true,
    Bool.false_eq_true, if_false]
  cases current with
  | none => exact hstream _ _ _
  | some l7 =>
    dsimp only
    by_cases hempty : l7.rules = []
    · rw [if_pos hempty, if_pos hempty]
      exact hstream _ _ _
    · rw [if_neg hempty, if_neg hempty]
      cases peer.client.peek with
      | none => exact (ite_self _).symm
      | some peeked =>
        dsimp only
        by_cases hdeny : (peekAndMatchL7 h.readRequest peeked l7.rules).1 = policyActionDeny
        · rw [if_pos hdeny, if_pos hdeny]
          exact (ite_self _).symm
        · rw [if_neg hdeny, if_neg hdeny]
          exact hstream _ _ _

/-- The proxy forwards nothing: it cannot dial, or it has rules and waits for the bytes to peek, or they deny the first
    request within those bytes. -/
def Stops (h : InboundHandler) (peer : Peer) (dst : AddrPort) (current : Option L7PolicySnapshot)
    (requests : List (Http1 h.readRequest)) : Prop :=
  peer.dials dst = false ∨ ∃ l7, current = some l7 ∧ l7.rules ≠ [] ∧
    (peer.client.peek = none ∨ ∃ first rest, requests = first :: rest ∧
      first.head.length ≤ peekSize ∧ first.action l7.rules = policyActionDeny)

variable {requests : List (Http1 h.readRequest)}

/-- The verdict on the peeked bytes of a stream. -/
theorem denied_iff (hsent : peer.client.sent = stream requests) {peeked : List UInt8}
    (hpeek : peer.client.peek = some peeked) (rules : List CompiledL7Rule) :
    (peekAndMatchL7 h.readRequest peeked rules).1 = policyActionDeny ↔ ∃ first rest, requests = first :: rest ∧
      first.head.length ≤ peekSize ∧ first.action rules = policyActionDeny := by
  rw [peek_eq_some hpeek, hsent]
  rcases requests with _ | ⟨first, rest⟩
  · refine iff_of_false (show policyActionAllow ≠ policyActionDeny by decide) ?_
    rintro ⟨first, rest, hcons, -⟩
    cases hcons
  · rw [peekAndMatchL7_stream]
    constructor
    · intro hdeny
      split at hdeny
      · exact ⟨first, rest, rfl, ‹_›, hdeny⟩
      · cases hdeny
    · rintro ⟨_, _, hcons, hfits, hdeny⟩
      cases hcons
      rw [if_pos hfits]
      exact hdeny

theorem L7Connection.upstream_of_stops (hconn : L7Connection h peer raw dst) (hl7 : h.l7Policy = some current)
    (hsent : peer.client.sent = stream requests) (hstops : Stops h peer dst current requests) :
    (h.handle peer raw).upstream = [] := by
  rw [hconn.upstream_eq hl7]
  rcases hstops with hdial | ⟨l7, rfl, hrules, hnone | hdenied⟩
  · rw [if_pos hdial]
  · simp only [hnone, if_neg hrules]
    exact ite_self _
  · cases hpeek : peer.client.peek with
    | none =>
      simp only [if_neg hrules]
      exact ite_self _
    | some peeked =>
      simp only [if_neg hrules, if_pos ((denied_iff hsent hpeek l7.rules).mpr hdenied)]
      exact ite_self _

theorem L7Connection.upstream_of_not_stops (hconn : L7Connection h peer raw dst) (hl7 : h.l7Policy = some current)
    (hsent : peer.client.sent = stream requests) (hstops : ¬Stops h peer dst current requests) :
    (h.handle peer raw).upstream = stream requests := by
  have hdial : ¬peer.dials dst = false := fun hdial => hstops (.inl hdial)
  rw [hconn.upstream_eq hl7, if_neg hdial, hsent]
  cases current with
  | none => rfl
  | some l7 =>
    by_cases hrules : l7.rules = []
    · exact if_pos hrules
    · refine (if_neg hrules).trans ?_
      cases hpeek : peer.client.peek with
      | none => exact absurd (.inr ⟨l7, rfl, hrules, .inl hpeek⟩) hstops
      | some peeked =>
        refine if_neg fun hdeny => hstops (.inr ⟨l7, rfl, hrules, .inr ?_⟩)
        exact (denied_iff hsent hpeek l7.rules).mp hdeny

/-- HTTP policy holds for every request on the connection exactly when there is none, nothing is dialled, or the policy
    source has rules and they deny no request, or deny the first one within the peeked bytes, or the proxy is
    still waiting for those bytes. -/
theorem l7_enforced_iff (hconn : L7Connection h peer raw dst) (hl7 : h.l7Policy = some current)
    {requests : List (Http1 h.readRequest)} (hsent : peer.client.sent = stream requests) :
    ForwardedOnly requests (h.handle peer raw).upstream
        (fun r => ∃ l7, current = some l7 ∧ r.action l7.rules ≠ policyActionDeny) ↔
      requests = [] ∨ peer.dials dst = false ∨ ∃ l7, current = some l7 ∧
        ((∀ r ∈ requests, r.action l7.rules ≠ policyActionDeny) ∨
          (l7.rules ≠ [] ∧ (peer.client.peek = none ∨ ∃ first rest, requests = first :: rest ∧
            first.head.length ≤ peekSize ∧ first.action l7.rules = policyActionDeny))) := by
  have hcondition : (requests = [] ∨ peer.dials dst = false ∨ ∃ l7, current = some l7 ∧
      ((∀ r ∈ requests, r.action l7.rules ≠ policyActionDeny) ∨
        (l7.rules ≠ [] ∧ (peer.client.peek = none ∨ ∃ first rest, requests = first :: rest ∧
          first.head.length ≤ peekSize ∧ first.action l7.rules = policyActionDeny)))) ↔
      Stops h peer dst current requests ∨ requests = [] ∨
        ∃ l7, current = some l7 ∧ ∀ r ∈ requests, r.action l7.rules ≠ policyActionDeny := by
    constructor
    · rintro (hnil | hdial | ⟨l7, hcurrent, hall | hdenied⟩)
      · exact .inr (.inl hnil)
      · exact .inl (.inl hdial)
      · exact .inr (.inr ⟨l7, hcurrent, hall⟩)
      · exact .inl (.inr ⟨l7, hcurrent, hdenied⟩)
    · rintro ((hdial | ⟨l7, hcurrent, hdenied⟩) | hnil | ⟨l7, hcurrent, hall⟩)
      · exact .inr (.inl hdial)
      · exact .inr (.inr ⟨l7, hcurrent, .inr hdenied⟩)
      · exact .inl hnil
      · exact .inr (.inr ⟨l7, hcurrent, .inl hall⟩)
  rw [hcondition]
  by_cases hstops : Stops h peer dst current requests
  · rw [hconn.upstream_of_stops hl7 hsent hstops]
    exact iff_of_true (forwardedOnly_nil _ _) (.inl hstops)
  · rw [hconn.upstream_of_not_stops hl7 hsent hstops, forwardedOnly_stream]
    constructor
    · intro hall
      rcases requests with _ | ⟨first, rest⟩
      · exact .inr (.inl rfl)
      · obtain ⟨l7, rfl, -⟩ := hall first List.mem_cons_self
        refine .inr (.inr ⟨l7, rfl, fun r hr => ?_⟩)
        obtain ⟨l7', hcurrent, hpass⟩ := hall r hr
        cases hcurrent
        exact hpass
    · rintro (hstopped | rfl | ⟨l7, hcurrent, hall⟩)
      · exact absurd hstopped hstops
      · intro r hr
        cases hr
      · exact fun r hr => ⟨l7, hcurrent, hall r hr⟩

end

/-! ### A connection with two requests -/

def getHead (path : List UInt8) : List UInt8 := ascii "GET " ++ path ++ ascii " HTTP/1.1\r\n\r\n"

/-- A reader of `GET` requests for `/a` and `/b` without headers. -/
def readGet (bytes : List UInt8) : Option HttpRequest :=
  ([ascii "/a", ascii "/b"].find? fun path => getHead path <+: bytes).map fun path => ⟨"GET", path, []⟩

theorem getHead_head (path rest : List UInt8) : (getHead path ++ rest).head? = some 71 := rfl

theorem getHead_length {p q : List UInt8} (hlen : p.length = q.length) : (getHead p).length = (getHead q).length := by
  simp [getHead, hlen]

theorem getHead_prefix_iff {p q : List UInt8} (hlen : p.length = q.length) (rest : List UInt8) :
    getHead p <+: getHead q ++ rest ↔ p = q := by
  constructor
  · intro hprefix
    have hheads := getHead_length hlen
    have heq := (List.prefix_of_prefix_length_le hprefix (List.prefix_append _ _) hheads.le).eq_of_length hheads
    exact List.append_cancel_left (List.append_cancel_right heq)
  · rintro rfl
    exact List.prefix_append _ _

theorem readGet_complete {path : List UInt8} (hpath : path = ascii "/a" ∨ path = ascii "/b") (rest : List UInt8) :
    readGet (getHead path ++ rest) = some ⟨"GET", path, []⟩ := by
  rcases hpath with rfl | rfl
  · simp [readGet]
  · have hother := getHead_prefix_iff (p := ascii "/a") (q := ascii "/b") (by decide) rest
    simp [readGet, hother, show ascii "/a" ≠ ascii "/b" by decide]

/-- A part of a head is shorter than either. -/
theorem readGet_incomplete {path p : List UInt8} (hpath : path = ascii "/a" ∨ path = ascii "/b")
    (hpart : p <+: getHead path) (hne : p ≠ getHead path) : readGet p = none := by
  have hlen : p.length < (getHead path).length :=
    lt_of_le_of_ne hpart.length_le fun heq => hne (hpart.eq_of_length heq)
  have hlength : ∀ q, q = ascii "/a" ∨ q = ascii "/b" → q.length = 2 := by
    rintro q (rfl | rfl)
    · rfl
    · rfl
  have hshort : ∀ other ∈ [ascii "/a", ascii "/b"], ¬getHead other <+: p := by
    intro other hother hwhole
    have hlens : other.length = path.length :=
      (hlength other (List.mem_pair.mp hother)).trans (hlength path hpath).symm
    have hfits := hwhole.length_le
    rw [getHead_length hlens] at hfits
    exact absurd hlen (Nat.not_lt.mpr hfits)
  simp only [readGet, Option.map_eq_none_iff, List.find?_eq_none, decide_eq_true_eq]
  exact hshort

/-- The request for one of the two paths. -/
def getHttp1 (path : List UInt8) (hpath : path = ascii "/a" ∨ path = ascii "/b") : Http1 readGet where
  head := getHead path
  body := []
  req := ⟨"GET", path, []⟩
  nonempty := by
    intro hempty
    have hfirst := getHead_head path []
    rw [hempty] at hfirst
    cases hfirst
  complete := readGet_complete hpath
  incomplete := fun _ => readGet_incomplete hpath
  notHttp2 := by
    rintro rest ⟨more, heq⟩
    have hfirst := getHead_head path rest
    rw [← heq] at hfirst
    exact absurd hfirst (show some 80 ≠ some 71 by decide)

def getA : Http1 readGet := getHttp1 (ascii "/a") (.inl rfl)

def getB : Http1 readGet := getHttp1 (ascii "/b") (.inr rfl)

/-- Rules that allow `GET /a`. -/
def onlyA : L7PolicySnapshot := ⟨"v1", [⟨"GET", ascii "/a", [], [], ⟨policyActionAllow, 0⟩⟩]⟩

theorem svc_l7Connection :
    L7Connection (svcHandler policyFlagL7Required (some (some onlyA)) readGet) (svcPeer ⟨stream [getB, getA], true⟩)
      (.tcp (.tcp [10, 0, 0, 2] 8080)) ⟨[10, 0, 0, 2], 8080⟩ where
  allowed :=
    ⟨.tls (.tcp (.tcp [10, 0, 0, 2] 8080)), ascii "spiffe://cluster.local/default/svc-a", identityUnknown, 8,
      ⟨"v1", [⟨⟨7, 8, 8080, 6, directionIngress⟩, ⟨policyActionAllow, policyFlagL7Required⟩⟩]⟩,
      ⟨⟨7, 8, 8080, 6, directionIngress⟩, ⟨policyActionAllow, policyFlagL7Required⟩⟩,
      by decide +kernel, rfl, rfl, by decide +kernel, by decide +kernel, by decide⟩

/-- A denied first request keeps both from being forwarded. -/
theorem l7_enforced_first_denied :
    ForwardedOnly [getB, getA] ((svcHandler policyFlagL7Required (some (some onlyA)) readGet).handle
        (svcPeer ⟨stream [getB, getA], true⟩) (.tcp (.tcp [10, 0, 0, 2] 8080))).upstream
      (fun r => ∃ l7, some onlyA = some l7 ∧ r.action l7.rules ≠ policyActionDeny) :=
  (l7_enforced_iff svc_l7Connection rfl rfl).mpr
    (.inr (.inr ⟨onlyA, rfl, .inr ⟨by decide, .inr ⟨getB, [getA], rfl, by decide, by decide⟩⟩⟩))

/-- A denied request is forwarded after an allowed one, and also when the policy source fails. -/
theorem l7_later_request_forwarded :
    getB.action onlyA.rules = policyActionDeny ∧
      ((svcHandler policyFlagL7Required (some (some onlyA)) readGet).handle
        (svcPeer ⟨getA.text ++ getB.text, true⟩) (.tcp (.tcp [10, 0, 0, 2] 8080))).upstream = getA.text ++ getB.text ∧
      ((svcHandler policyFlagL7Required (some none) readGet).handle
        (svcPeer ⟨getB.text, true⟩) (.tcp (.tcp [10, 0, 0, 2] 8080))).upstream = getB.text := by
  refine ⟨by decide, ?_, ?_⟩
  · decide +kernel
  · decide +kernel

end Meridian.Proxy
