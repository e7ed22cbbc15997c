import Meridian.Lib.Run
import Meridian.Proxy.Outbound
import Meridian.Theorems.Issuance

/-! The outbound proxy over any interleaving of its connections. A step of a connection reads and writes its own breaker
    only; so what an upstream's breaker and connections do does not depend on those of other upstreams, and each upstream
    has the traffic of one breaker. -/

namespace Meridian.Proxy
open Lib Url Wire Ca

variable {h : OutboundHandler} {socket : Nat → Conn} {s t : Outbound} {id : Nat} {c : OutboundConn} {call : OutboundCall}
  {addr : List UInt8}

/-! ### What a step does -/

/-- The breaker and the connection after a step of the connection. -/
def OutboundConn.move (h : OutboundHandler) (now : Int) (spiffeLookup : Option MapSpiffeIDResolver)
    (cb : Option CircuitBreaker) (c : OutboundConn) (call : OutboundCall) : Option CircuitBreaker × OutboundConn :=
  match c.phase, call with
  | .lookup, .cbFor _ =>
    match h.cbTemplate with
    | none => (cb, { c with phase := .dial })
    | some template => (some (cb.getD (.new template.threshold template.resetAfter)), { c with phase := .check })
  | .check, .allow _ =>
    match cb with
    | none => (none, c)
    | some cb =>
      (some (cb.allow now).2, { c with phase := if (cb.allow now).1 then .dial else .returned .circuitOpen })
  | .dial, .dial _ result =>
    match result with
    | none =>
      (cb.map (·.record now .dialError), { c with dialled := some c.remoteProxy, phase := .returned (.ended .dialError) })
    | some upstream =>
      match h.verifyPeer spiffeLookup c.dstID upstream with
      | some outcome =>
        (cb.map (·.record now outcome), { c with dialled := some c.remoteProxy, phase := .returned (.ended outcome) })
      | none => (cb, { c with dialled := some c.remoteProxy, phase := .copying, upstream := some upstream })
  | .copying, .copied _ copyEnd =>
    (cb.map (·.record now (.copied copyEnd)), { c with phase := .returned (.ended (.copied copyEnd)) })
  | _, _ => (cb, c)

theorem OutboundConn.move_origDst (now : Int) (lookup : Option MapSpiffeIDResolver) (cb : Option CircuitBreaker)
    (c : OutboundConn) (call : OutboundCall) : (c.move h now lookup cb call).2.origDst = c.origDst := by
  unfold OutboundConn.move
  repeat' split
  all_goals rfl

namespace Outbound

/-- The state with a breaker and a connection replaced. -/
def place (s : Outbound) (id : Nat) (addr : List UInt8) (p : Option CircuitBreaker × OutboundConn) : Outbound :=
  { s with cbs := Table.write s.cbs (addr, p.1), conns := Table.put s.conns id p.2 }

theorem write_self (s : Outbound) (addr : List UInt8) : Table.write s.cbs (addr, s.cbs addr) = s.cbs := by
  simp [Table.write]

theorem put_self (hc : s.conns id = some c) : Table.put s.conns id c = s.conns := by
  simp [Table.put, Table.write, ← hc]

theorem record_eq (s : Outbound) (addr : List UInt8) (outcome : Outcome) :
    s.record addr outcome = { s with cbs := Table.write s.cbs (addr, (s.cbs addr).map (·.record s.clock outcome)) } := by
  unfold record
  cases hcb : s.cbs addr with
  | none =>
    have hself := write_self s addr
    rw [hcb] at hself
    rw [Option.map_none, hself]
  | some cb => rfl

theorem finish_eq (s : Outbound) (id : Nat) (c : OutboundConn) (outcome : Outcome) :
    s.finish id c outcome = s.place id c.origDst.addr
      ((s.cbs c.origDst.addr).map (·.record s.clock outcome), { c with phase := .returned (.ended outcome) }) := by
  rw [finish, record_eq]
  rfl

theorem setConn_eq (s : Outbound) (id : Nat) (addr : List UInt8) (c : OutboundConn) :
    s.setConn id c = s.place id addr (s.cbs addr, c) := by
  rw [place, write_self]
  rfl

/-- Locality: only the connection and the breaker of its address change, and as these two say. -/
theorem connStep_eq (hc : s.conns id = some c) (call : OutboundCall) :
    s.connStep h id c call =
      s.place id c.origDst.addr (c.move h s.clock s.spiffeLookup (s.cbs c.origDst.addr) call) := by
  have hself : s = s.place id c.origDst.addr (s.cbs c.origDst.addr, c) := by
    rw [place, write_self, put_self hc]
  obtain ⟨origDst, srcID, dstID, phase, dialled, upstream⟩ := c
  cases phase with
  | lookup =>
    cases call with
    | cbFor =>
      simp only [connStep, OutboundConn.move, lookup, OutboundHandler.cbFor]
      cases h.cbTemplate with
      | none => exact setConn_eq s id _ _
      | some template =>
        cases hcb : s.cbs origDst.addr with
        | none => rfl
        | some cb =>
          dsimp only
          rw [Option.getD_some, ← hcb]
          exact setConn_eq s id _ _
    | _ => exact hself
  | check =>
    cases call with
    | allow =>
      simp only [connStep, OutboundConn.move, allow]
      cases hcb : s.cbs origDst.addr with
      | none => exact hself.trans (by simp only [hcb])
      | some cb => rfl
    | _ => exact hself
  | dial =>
    cases call with
    | dial _ result =>
      simp only [connStep, OutboundConn.move, dial]
      cases result with
      | none => exact finish_eq s id _ _
      | some upstream =>
        dsimp only
        cases h.verifyPeer s.spiffeLookup dstID upstream with
        | none => exact setConn_eq s id _ _
        | some outcome => exact finish_eq s id _ _
    | _ => exact hself
  | copying =>
    cases call with
    | copied _ copyEnd => exact finish_eq s id _ _
    | _ => exact hself
  | returned => exact hself

/-- What a step does, once: it is no step of a connection, it accepts one, or it moves one. -/
theorem step_cases (h : OutboundHandler) (socket : Nat → Conn) (s : Outbound) (e : OutboundEvent) :
    (e.call.conn? = none ∧ (s.step h socket e).clock = s.now e ∧ (s.step h socket e).cbs = s.cbs ∧
        (s.step h socket e).conns = s.conns) ∨
      ∃ id, e.call.conn? = some id ∧
        ((s.conns id = none ∧ s.step h socket e = { s with clock := s.now e }) ∨
          (s.conns id = none ∧ s.step h socket e = { s with clock := s.now e }.setConn id (h.resolved (socket id))) ∨
          ∃ c, s.conns id = some c ∧ s.step h socket e = { s with clock := s.now e }.place id c.origDst.addr
            (c.move h (s.now e) s.spiffeLookup (s.cbs c.origDst.addr) e.call)) := by
  obtain ⟨elapsed, call⟩ := e
  cases hconn : call.conn? with
  | none => cases call <;> first | exact .inl ⟨rfl, rfl, rfl, rfl⟩ | cases hconn
  | some id =>
    refine .inr ⟨id, rfl, ?_⟩
    simp only [step, hconn]
    cases hc : s.conns id with
    | none =>
      cases call with
      | accept => exact .inr (.inl ⟨rfl, rfl⟩)
      | _ => exact .inl ⟨rfl, rfl⟩
    | some c => exact .inr (.inr ⟨c, rfl, connStep_eq (s := { s with clock := s.now ⟨elapsed, call⟩ }) hc call⟩)

/-! ### Isolation -/

/-- The upstream that a connection is for, when its destination can be resolved. -/
def upstreamOf (h : OutboundHandler) (conn : Conn) : Option (List UInt8) := (h.resolver conn).toOption.map (·.1.addr)

/-- What an upstream sees of a run: its own connections and the updates of the table. The rest is time that passes. -/
def seenBy (h : OutboundHandler) (socket : Nat → Conn) (addr : List UInt8) (e : OutboundEvent) : OutboundEvent :=
  match e.call.conn? with
  | none => e
  | some id => if upstreamOf h (socket id) = some addr then e else { e with call := .wait }

theorem resolved_upstream (hup : upstreamOf h (socket id) = some addr) : (h.resolved (socket id)).origDst.addr = addr := by
  unfold upstreamOf at hup
  unfold OutboundHandler.resolved
  cases hres : h.resolver (socket id) with
  | error e => simp [hres, Except.toOption] at hup
  | ok r =>
    obtain ⟨origDst, srcID, dstID⟩ := r
    simpa [hres, Except.toOption] using hup

theorem resolved_not_upstream (hup : upstreamOf h (socket id) = none) :
    ∃ err, (h.resolved (socket id)).phase = .returned (.resolve err) := by
  unfold upstreamOf at hup
  unfold OutboundHandler.resolved
  cases hres : h.resolver (socket id) with
  | error e => exact ⟨e, rfl⟩
  | ok r => simp [hres, Except.toOption] at hup

/-- Every connection stands where its socket says; one whose destination cannot be resolved is at its end. -/
def Placed (h : OutboundHandler) (socket : Nat → Conn) (s : Outbound) : Prop :=
  ∀ id c, s.conns id = some c →
    upstreamOf h (socket id) = some c.origDst.addr ∨
      (upstreamOf h (socket id) = none ∧ ∃ err, c.phase = .returned (.resolve err))

theorem move_returned {exit : OutboundExit} (hc : c.phase = .returned exit) (now : Int)
    (lookup : Option MapSpiffeIDResolver) (cb : Option CircuitBreaker) (call : OutboundCall) :
    c.move h now lookup cb call = (cb, c) := by
  unfold OutboundConn.move
  rw [hc]

theorem Placed.step (hp : Placed h socket s) (e : OutboundEvent) : Placed h socket (s.step h socket e) := by
  rcases step_cases h socket s e with ⟨-, -, -, hconns⟩ | ⟨id, -, ⟨-, hs⟩ | ⟨-, hs⟩ | ⟨c, hc, hs⟩⟩
  · exact fun id c hc => hp id c (hconns ▸ hc)
  · exact hs ▸ hp
  · rw [hs]
    intro id' c' hc'
    obtain ⟨rfl, rfl⟩ | ⟨-, hc'⟩ := Table.of_put hc'
    · cases hup : upstreamOf h (socket id) with
      | none => exact .inr ⟨rfl, resolved_not_upstream hup⟩
      | some addr => exact .inl (by rw [resolved_upstream hup])
    · exact hp id' c' hc'
  · rw [hs]
    intro id' c' hc'
    obtain ⟨rfl, rfl⟩ | ⟨-, hc'⟩ := Table.of_put hc'
    · rcases hp id c hc with hup | ⟨hup, err, hphase⟩
      · exact .inl (by rw [OutboundConn.move_origDst, hup])
      · exact .inr ⟨hup, err, by rw [move_returned hphase, hphase]⟩
    · exact hp id' c' hc'

/-- Two states in which an upstream sees the same. -/
structure SameView (h : OutboundHandler) (socket : Nat → Conn) (addr : List UInt8) (s t : Outbound) : Prop where
  clock : s.clock = t.clock
  lookup : s.spiffeLookup = t.spiffeLookup
  breaker : s.cbs addr = t.cbs addr
  conns : ∀ id, upstreamOf h (socket id) = some addr → s.conns id = t.conns id

section
variable (hv : SameView h socket addr s t)
include hv

theorem SameView.setConn (id : Nat) (c : OutboundConn) : SameView h socket addr (s.setConn id c) (t.setConn id c) where
  clock := hv.clock
  lookup := hv.lookup
  breaker := hv.breaker
  conns id' hid' := by
    simp only [Outbound.setConn, Table.put, Table.write_apply]
    rw [hv.conns id' hid']

theorem SameView.place (id : Nat) (p : Option CircuitBreaker × OutboundConn) :
    SameView h socket addr (s.place id addr p) (t.place id addr p) where
  clock := hv.clock
  lookup := hv.lookup
  breaker := by simp [Outbound.place]
  conns := (hv.setConn id p.2).conns

theorem SameView.advance {now : Int} : SameView h socket addr { s with clock := now } { t with clock := now } :=
  ⟨rfl, hv.lookup, hv.breaker, hv.conns⟩

/-- A step of one of the upstream's connections. -/
theorem SameView.step_own (hp : Placed h socket s) {e : OutboundEvent} (hid : e.call.conn? = some id)
    (hup : upstreamOf h (socket id) = some addr) : SameView h socket addr (s.step h socket e) (t.step h socket e) := by
  have hnow : s.now e = t.now e := by simp [now, hv.clock]
  have hconn := hv.conns id hup
  simp only [step, hid, ← hconn, ← hnow]
  cases hc : s.conns id with
  | none =>
    cases e.call with
    | accept => exact hv.advance.setConn id _
    | _ => exact hv.advance
  | some c =>
    have haddr : c.origDst.addr = addr := by
      rcases hp id c hc with h' | ⟨h', -⟩ <;> simp_all
    dsimp only
    rw [connStep_eq (s := { s with clock := s.now e }) hc, connStep_eq (s := { t with clock := s.now e }) (hconn ▸ hc), haddr]
    have hmove : c.move h (s.now e) t.spiffeLookup (t.cbs addr) e.call =
        c.move h (s.now e) s.spiffeLookup (s.cbs addr) e.call := by
      rw [hv.breaker, hv.lookup]
    dsimp only
    rw [hmove]
    exact hv.advance.place id _

/-- A step of a connection of another upstream, beside which the other state only waits. -/
theorem SameView.step_other (hp : Placed h socket s) {e : OutboundEvent} (hid : e.call.conn? = some id)
    (hup : upstreamOf h (socket id) ≠ some addr) :
    SameView h socket addr (s.step h socket e) { t with clock := t.now e } := by
  have hnow : s.now e = t.now e := by simp [now, hv.clock]
  have hother : ∀ id', upstreamOf h (socket id') = some addr → id ≠ id' := fun id' hid' heq => hup (heq ▸ hid')
  rw [← hnow]
  rcases step_cases h socket s e with ⟨hnone, -⟩ | ⟨id', hid', hcases⟩
  · rw [hid] at hnone
    cases hnone
  rw [hid] at hid'
  obtain rfl := Option.some.inj hid'
  rcases hcases with ⟨-, hs⟩ | ⟨-, hs⟩ | ⟨c, hc, hs⟩ <;> rw [hs]
  · exact hv.advance
  · refine ⟨rfl, hv.lookup, hv.breaker, fun id' hid' => ?_⟩
    exact (Table.put_of_ne (hother id' hid')).trans (hv.conns id' hid')
  · refine ⟨rfl, hv.lookup, ?_, fun id' hid' => (Table.put_of_ne (hother id' hid')).trans (hv.conns id' hid')⟩
    rcases hp id c hc with hplace | ⟨-, err, hphase⟩
    · have hne : c.origDst.addr ≠ addr := fun heq => hup (heq ▸ hplace)
      exact (Table.write_of_ne hne).trans hv.breaker
    · rw [move_returned hphase, Outbound.place, write_self]
      exact hv.breaker

end

theorem SameView.step (hv : SameView h socket addr s t) (hp : Placed h socket s) (e : OutboundEvent) :
    SameView h socket addr (s.step h socket e) (t.step h socket (seenBy h socket addr e)) := by
  unfold seenBy
  cases hid : e.call.conn? with
  | none =>
    have hnow : s.now e = t.now e := by simp [now, hv.clock]
    simp only [Outbound.step, hid, hnow, hv.lookup]
    cases e.call with
    | update => exact ⟨rfl, rfl, hv.breaker, hv.conns⟩
    | _ => exact ⟨rfl, rfl, hv.breaker, hv.conns⟩
  | some id =>
    dsimp only
    split
    · exact hv.step_own hp hid ‹_›
    · exact hv.step_other hp hid ‹_›

/-! ### One breaker for each upstream -/

/-- How the request of a connection stands with the breaker: before `Allow` there is none. -/
def requestState (c : OutboundConn) : Option RequestState :=
  match c.phase with
  | .lookup | .check | .returned (.resolve _) => none
  | .dial | .copying => some .inFlight
  | .returned .circuitOpen | .returned (.ended _) => some .finished

/-- The requests that an upstream has had. -/
def requestsTo (h : OutboundHandler) (socket : Nat → Conn) (addr : List UInt8) (s : Outbound) (id : Nat) : Option RequestState :=
  if upstreamOf h (socket id) = some addr then (s.conns id).bind requestState else none

/-- A connection that is past `cbFor` has its breaker. -/
def Equipped (s : Outbound) : Prop :=
  ∀ id c, s.conns id = some c → c.phase = .lookup ∨ (∃ err, c.phase = .returned (.resolve err)) ∨ s.cbs c.origDst.addr ≠ none

section
variable {template : CircuitBreaker} {cb : Option CircuitBreaker}

/-- The breaker that the template gives. -/
def fresh (template : CircuitBreaker) : CircuitBreaker := .new template.threshold template.resetAfter

/-- What a step does with a connection that has a breaker past `cbFor`: nothing, it gets the breaker, asks it, ends with an
    outcome that the breaker records, or starts to copy. -/
inductive Moves (template : CircuitBreaker) (now : Int) (call : OutboundCall) (cb : Option CircuitBreaker) (c : OutboundConn) :
    Option CircuitBreaker × OutboundConn → Prop where
  | stay : Moves template now call cb c (cb, c)
  | lookup (hphase : c.phase = .lookup) :
    Moves template now call cb c (some (cb.getD (fresh template)), { c with phase := .check })
  | allow {b : CircuitBreaker} (hcb : cb = some b) (hphase : c.phase = .check) : Moves template now call cb c
      (some (b.allow now).2, { c with phase := if (b.allow now).1 then .dial else .returned .circuitOpen })
  | finish {b : CircuitBreaker} {outcome : Outcome} {dialled : Option AddrPort} (hcb : cb = some b)
    (hphase : c.phase = .copying ∨
      c.phase = .dial ∧ ∃ id result, call = .dial id result ∧ (result = none → outcome = .dialError)) :
    Moves template now call cb c (some (b.record now outcome), { c with dialled, phase := .returned (.ended outcome) })
  | copy {b : CircuitBreaker} {id : Nat} {upstream : Upstream} (hcb : cb = some b) (hphase : c.phase = .dial)
    (hcall : call = .dial id (some upstream)) : Moves template now call cb c
      (cb, { c with dialled := some c.remoteProxy, phase := .copying, upstream := some upstream })

theorem move_moves (now : Int) (spiffeLookup : Option MapSpiffeIDResolver) (call : OutboundCall)
    (ht : h.cbTemplate = some template)
    (hcb : c.phase = .lookup ∨ (∃ err, c.phase = .returned (.resolve err)) ∨ cb ≠ none) :
    Moves template now call cb c (c.move h now spiffeLookup cb call) := by
  have hsome : c.phase ≠ .lookup → (∀ err, c.phase ≠ .returned (.resolve err)) → ∃ b, cb = some b := by
    rintro hlookup hresolve
    rcases hcb with hcb | ⟨err, hcb⟩ | hcb
    · exact absurd hcb hlookup
    · exact absurd hcb (hresolve err)
    · exact Option.ne_none_iff_exists'.mp hcb
  unfold OutboundConn.move
  split <;> rename_i hphase
  · rw [ht]
    exact .lookup hphase
  · obtain ⟨b, rfl⟩ := hsome (by simp [hphase]) (by simp [hphase])
    exact .allow rfl hphase
  · obtain ⟨b, rfl⟩ := hsome (by simp [hphase]) (by simp [hphase])
    split
    · exact .finish rfl (.inr ⟨hphase, _, none, rfl, fun _ => rfl⟩)
    · split
      · exact .finish rfl (.inr ⟨hphase, _, some _, rfl, nofun⟩)
      · exact .copy rfl hphase rfl
  · obtain ⟨b, rfl⟩ := hsome (by simp [hphase]) (by simp [hphase])
    exact .finish rfl (.inl hphase)
  · exact .stay

/-- A connection gets past `cbFor` only with a breaker, and keeps it. -/
theorem Moves.equipped {now : Int} {p : Option CircuitBreaker × OutboundConn} (hm : Moves template now call cb c p) :
    (p.1 = cb ∧ p.2 = c) ∨ p.1 ≠ none := by
  cases hm with
  | stay => exact .inl ⟨rfl, rfl⟩
  | lookup | allow | finish => exact .inr (Option.some_ne_none _)
  | copy hcb => exact .inr (hcb ▸ Option.some_ne_none _)

theorem Equipped.step (socket : Nat → Conn) (ht : h.cbTemplate = some template) (heq : Equipped s) (e : OutboundEvent) :
    Equipped (s.step h socket e) := by
  rcases step_cases h socket s e with ⟨-, -, hcbs, hconns⟩ | ⟨id, -, ⟨-, hs⟩ | ⟨-, hs⟩ | ⟨c, hc, hs⟩⟩
  · intro id c hc
    rw [hcbs]
    exact heq id c (hconns ▸ hc)
  · exact hs ▸ heq
  · rw [hs]
    intro id' c' hc'
    obtain ⟨rfl, rfl⟩ | ⟨-, hc'⟩ := Table.of_put hc'
    · unfold OutboundHandler.resolved
      cases h.resolver (socket id) with
      | error err => exact .inr (.inl ⟨err, rfl⟩)
      | ok r => exact .inl rfl
    · exact heq id' c' hc'
  · have hmove := (move_moves (s.now e) s.spiffeLookup e.call ht (heq id c hc)).equipped
    rw [hs]
    intro id' c' hc'
    obtain ⟨rfl, rfl⟩ | ⟨-, hc'⟩ := Table.of_put hc'
    · simp only [place, OutboundConn.move_origDst, Table.write_same]
      rcases hmove with ⟨hcb, hsame⟩ | hmove
      · rw [hcb, hsame]
        exact heq id c hc
      · exact .inr (.inr hmove)
    · refine (heq id' c' hc').imp_right (Or.imp_right fun hne => ?_)
      simp only [place, Table.write_apply]
      split
      · rcases hmove with ⟨hcb, -⟩ | hmove
        · rwa [hcb, ‹c.origDst.addr = c'.origDst.addr›]
        · exact hmove
      · exact hne

/-- The state of an upstream is that of a breaker with its traffic. -/
structure Mirrors (h : OutboundHandler) (socket : Nat → Conn) (addr : List UInt8) (template : CircuitBreaker) (s : Outbound)
    (tr : Traffic) : Prop where
  clock : tr.clock ≤ s.clock
  breaker : (s.cbs addr).getD (fresh template) = tr.breaker
  requests : ∀ id, tr.requests id = requestsTo h socket addr s id

theorem Mirrors.of_sameView {tr : Traffic} (hm : Mirrors h socket addr template s tr) (hv : SameView h socket addr t s) :
    Mirrors h socket addr template t tr where
  clock := hv.clock ▸ hm.clock
  breaker := hv.breaker ▸ hm.breaker
  requests id := by
    rw [hm.requests, requestsTo, requestsTo]
    split
    · rw [hv.conns id ‹_›]
    · rfl

theorem Mirrors.advance {tr : Traffic} (hm : Mirrors h socket addr template s tr) (e : OutboundEvent) :
    Mirrors h socket addr template { s with clock := s.now e } tr :=
  ⟨hm.clock.trans (Int.le_add_of_nonneg_right (Int.natCast_nonneg _)), hm.breaker, hm.requests⟩

/-- A connection of the upstream that is where its breaker and request are those of the traffic. -/
theorem Mirrors.place {tr tr' : Traffic} (hm : Mirrors h socket addr template s tr) (hup : upstreamOf h (socket id) = some addr)
    {p : Option CircuitBreaker × OutboundConn} (hclock : tr'.clock ≤ s.clock)
    (hbreaker : p.1.getD (fresh template) = tr'.breaker) (hsame : ∀ id', id ≠ id' → tr'.requests id' = tr.requests id')
    (hown : tr'.requests id = requestState p.2) : Mirrors h socket addr template (s.place id addr p) tr' where
  clock := hclock
  breaker := by simpa [Outbound.place] using hbreaker
  requests id' := by
    by_cases hid : id = id'
    · subst hid
      simp [requestsTo, Outbound.place, hup, hown]
    · rw [hsame id' hid, hm.requests, requestsTo, requestsTo, Outbound.place]
      simp only [Table.put_of_ne hid]

/-- A call that the traffic makes at the time of the outbound step. -/
def callAt (s : Outbound) (e : OutboundEvent) (tr : Traffic) (call : BreakerCall) : BreakerEvent :=
  ⟨(s.now e - tr.clock).toNat, call⟩

theorem Mirrors.now_callAt {tr : Traffic} (hm : Mirrors h socket addr template s tr) (e : OutboundEvent) (call : BreakerCall) :
    tr.now (callAt s e tr call) = s.now e := by
  have hle : tr.clock ≤ s.now e := (hm.advance e).clock
  simp only [Traffic.now, callAt]
  omega

/-- A call of the connection to its breaker, which the traffic makes too. -/
theorem Mirrors.calls {tr : Traffic} (hm : Mirrors h socket addr template s tr) (hup : upstreamOf h (socket id) = some addr)
    (e : OutboundEvent) {call : BreakerCall} {cb : CircuitBreaker} {state : RequestState}
    (htr : tr.step (callAt s e tr call) = ⟨cb, s.now e, Table.put tr.requests id state⟩)
    {p : Option CircuitBreaker × OutboundConn} (hcb : p.1 = some cb) (hstate : requestState p.2 = some state) :
    Mirrors h socket addr template ({ s with clock := s.now e }.place id addr p)
      (execute Traffic.step tr [callAt s e tr call]) := by
  rw [execute_cons, execute_nil, htr]
  refine (hm.advance e).place hup le_rfl (by rw [hcb]; rfl) (fun id' hid' => Table.put_of_ne hid') ?_
  exact (Table.put_same _ _ _).trans hstate.symm

theorem Mirrors.step {tr : Traffic} (ht : h.cbTemplate = some template) (hp : Placed h socket s) (heq : Equipped s)
    (hm : Mirrors h socket addr template s tr) (e : OutboundEvent) :
    ∃ calls, Mirrors h socket addr template (s.step h socket e) (execute Traffic.step tr calls) := by
  have hadvance := hm.advance e
  rcases step_cases h socket s e with ⟨-, hclock, hcbs, hconns⟩ | ⟨id, hid, ⟨-, hs⟩ | ⟨hnone, hs⟩ | ⟨c, hc, hs⟩⟩
  · refine ⟨[], hclock ▸ hadvance.clock, by rw [hcbs]; exact hm.breaker, fun id => ?_⟩
    rw [execute_nil, hm.requests, requestsTo, requestsTo, hconns]
  · exact ⟨[], hs ▸ hadvance⟩
  · refine ⟨[], hs ▸ ⟨hadvance.clock, hm.breaker, fun id' => ?_⟩⟩
    -- A connection has no request before `Allow`.
    have hresolved : requestState (h.resolved (socket id)) = none := by
      unfold OutboundHandler.resolved
      cases h.resolver (socket id) <;> rfl
    rw [execute_nil, hm.requests, requestsTo, requestsTo, setConn]
    by_cases heq : id = id'
    · subst heq
      simp [hnone, hresolved]
    · simp only [Table.put_of_ne heq]
  · by_cases hup : upstreamOf h (socket id) = some addr
    swap
    · have hrefl : SameView h socket addr s s := ⟨rfl, rfl, rfl, fun _ _ => rfl⟩
      exact ⟨[], hadvance.of_sameView (hrefl.step_other hp hid hup)⟩
    have haddr : c.origDst.addr = addr := by
      rcases hp id c hc with h' | ⟨h', -⟩ <;> simp_all
    have hreq : tr.requests id = requestState c := by
      simp [hm.requests, requestsTo, hup, hc]
    have hequipped := heq id c hc
    rw [haddr] at hs hequipped
    have hbreaker {b : CircuitBreaker} (hb : s.cbs addr = some b) : tr.breaker = b := by
      rw [← hm.breaker, hb, Option.getD_some]
    have hkeep {p : Option CircuitBreaker × OutboundConn}
        (hcb : p.1.getD (fresh template) = (s.cbs addr).getD (fresh template)) (hstate : requestState p.2 = requestState c) :
        ∃ calls, Mirrors h socket addr template ({ s with clock := s.now e }.place id addr p) (execute Traffic.step tr calls) :=
      ⟨[], hadvance.place hup hadvance.clock (hcb.trans hm.breaker) (fun _ _ => rfl) (hreq.trans hstate.symm)⟩
    have hmoves := move_moves (s.now e) s.spiffeLookup e.call ht hequipped
    rw [hs]
    generalize c.move h (s.now e) s.spiffeLookup (s.cbs addr) e.call = p at hmoves ⊢
    cases hmoves with
    | stay => exact hkeep rfl rfl
    | lookup hphase => exact hkeep rfl (by simp [requestState, hphase])
    | copy _ hphase => exact hkeep rfl (by simp [requestState, hphase])
    | @allow b hcb hphase =>
      have hnow := hm.now_callAt e (.allow id)
      have hstate : requestState c = none := by simp [requestState, hphase]
      have htr : tr.step (callAt s e tr (.allow id)) = ⟨(b.allow (s.now e)).2, s.now e,
          Table.put tr.requests id (if (b.allow (s.now e)).1 then .inFlight else .finished)⟩ := by
        rw [Traffic.step, hnow, hbreaker hcb]
        simp only [callAt, hreq, hstate]
      refine ⟨_, hm.calls hup e htr rfl ?_⟩
      cases (b.allow (s.now e)).1 <;> rfl
    | @finish b outcome _ hcb hphase =>
      have hnow := hm.now_callAt e (.finish id outcome)
      have hstate : requestState c = some .inFlight := by
        rcases hphase with hphase | ⟨hphase, -⟩ <;> simp [requestState, hphase]
      have htr : tr.step (callAt s e tr (.finish id outcome)) =
          ⟨b.record (s.now e) outcome, s.now e, Table.put tr.requests id .finished⟩ := by
        rw [Traffic.step, hnow, hbreaker hcb]
        simp only [callAt, hreq, hstate]
      exact ⟨_, hm.calls hup e htr rfl rfl⟩

end

end Outbound

/-- A connection that reaches `dial`, which fails. -/
def failedConn (id : Nat) : List OutboundEvent :=
  [⟨1, .accept id⟩, ⟨1, .cbFor id⟩, ⟨1, .allow id⟩, ⟨1, .dial id none⟩]

/-- Five connections to one upstream fail, then there is one to another. -/
def oneUpstreamDown : List OutboundEvent :=
  (List.range 5).flatMap failedConn ++ [⟨1, .accept 5⟩, ⟨1, .cbFor 5⟩, ⟨1, .allow 5⟩]

def twoUpstreams (id : Nat) : Conn := .tcp (.tcp [10, 0, 0, if id < 5 then 1 else 2] 80)

namespace Outbound

/-- A step of the agent's handler against remote proxies whose certificates have no IP names, as the authority issues
    them. -/
def WiredStep (trustPool : List (Certificate URL)) (s : Outbound) (e : OutboundEvent) : Prop :=
  ∀ id result, e.call = .dial id result → ∀ c, s.conns id = some c →
    ∃ remote : Remote, remote.leaf.ipAddresses = [] ∧ result = mtlsDial trustPool c.remoteProxy remote

theorem mtlsDial_no_ip_names {trustPool : List (Certificate URL)} {ap : AddrPort} {remote : Remote}
    (hip : remote.leaf.ipAddresses = []) : mtlsDial trustPool ap remote = none := by
  simp [mtlsDial, clientHandshake, verifyHostname, hip, storeSourceTLSConfig]

/-- The dial of the connection failed. -/
def DialFailed (s : Outbound) (addr : List UInt8) (id : Nat) : Prop :=
  ∃ c, s.conns id = some c ∧ c.origDst.addr = addr ∧ c.phase = .returned (.ended .dialError)

/-- No tunnel, and a closed breaker has counted every failure. -/
structure Refused (threshold : Int) (s : Outbound) : Prop where
  equipped : Equipped s
  conns : ∀ id c, s.conns id = some c → c.upstream = none ∧ c.phase ≠ .copying
  limit : ∀ addr cb, s.cbs addr = some cb → cb.threshold = threshold
  counted : ∀ addr cb, s.cbs addr = some cb → cb.state = .cbClosed → cb.consecutiveErrors < threshold ∧
    ∀ ids : List Nat, ids.Nodup → (∀ id ∈ ids, s.DialFailed addr id) → (ids.length : Int) ≤ cb.consecutiveErrors

section
variable {template : CircuitBreaker} {trustPool : List (Certificate URL)} {now : Int}
  {spiffeLookup : Option MapSpiffeIDResolver} {cb : Option CircuitBreaker}

/-- A breaker that no failure was recorded in: its count is that of the other, and it is not newly closed. -/
def Calm (b b' : CircuitBreaker) : Prop :=
  b'.threshold = b.threshold ∧ b'.consecutiveErrors = b.consecutiveErrors ∧ (b'.state = .cbClosed → b.state = .cbClosed)

theorem calm_allow (b : CircuitBreaker) (now : Int) : Calm b (b.allow now).2 := by
  unfold CircuitBreaker.allow
  cases hstate : b.state with
  | cbClosed => exact ⟨rfl, rfl, fun _ => hstate⟩
  | cbOpen =>
    dsimp only
    split
    · exact ⟨rfl, rfl, fun hclosed => by cases hclosed⟩
    · exact ⟨rfl, rfl, id⟩
  | cbHalfOpen => exact ⟨rfl, rfl, id⟩

theorem DialFailed.of_put (hconns : t.conns = Table.put s.conns id c) {id' : Nat} (hfailed : t.DialFailed addr id')
    (hne : id = id' → c.origDst.addr = addr → c.phase ≠ .returned (.ended .dialError)) : s.DialFailed addr id' := by
  obtain ⟨c', hc', haddr, hphase⟩ := hfailed
  obtain ⟨rfl, rfl⟩ | ⟨-, hc'⟩ := Table.of_put (hconns ▸ hc')
  · exact absurd hphase (hne rfl haddr)
  · exact ⟨c', hc', haddr, hphase⟩

theorem recordFailure_closed {b : CircuitBreaker} (hclosed : (b.recordFailure now).state = .cbClosed) :
    b.state = .cbClosed ∧ (b.recordFailure now).consecutiveErrors = b.consecutiveErrors + 1 ∧
      (b.recordFailure now).consecutiveErrors < b.threshold := by
  unfold CircuitBreaker.recordFailure at hclosed ⊢
  dsimp only at hclosed ⊢
  split at hclosed
  · cases hclosed
  · rename_i hnot
    rw [if_neg hnot]
    simp only [Bool.or_eq_true, decide_eq_true_eq, not_or, not_le, ge_iff_le] at hnot
    exact ⟨hclosed, rfl, hnot.2⟩

theorem threshold_recordFailure (b : CircuitBreaker) (now : Int) : (b.recordFailure now).threshold = b.threshold := by
  unfold CircuitBreaker.recordFailure
  dsimp only
  split <;> rfl

theorem Refused.advance {threshold : Int} (hr : Refused threshold s) (now : Int) : Refused threshold { s with clock := now } :=
  ⟨hr.equipped, hr.conns, hr.limit, hr.counted⟩

/-- Only the breaker of the address has to be looked at. -/
theorem Refused.place {threshold : Int} {b' : CircuitBreaker} {c' : OutboundConn} (hr : Refused threshold s)
    (heq : Equipped (s.place id addr (some b', c'))) (haddr : c'.origDst.addr = addr)
    (hc' : c'.upstream = none ∧ c'.phase ≠ .copying) (hlimit : b'.threshold = threshold)
    (hcounted : b'.state = .cbClosed → b'.consecutiveErrors < threshold ∧ ∀ ids : List Nat, ids.Nodup →
      (∀ id' ∈ ids, (s.place id addr (some b', c')).DialFailed addr id') → (ids.length : Int) ≤ b'.consecutiveErrors) :
    Refused threshold (s.place id addr (some b', c')) where
  equipped := heq
  conns id' c'' hc'' := by
    obtain ⟨rfl, rfl⟩ | ⟨-, hc''⟩ := Table.of_put hc''
    · exact hc'
    · exact hr.conns id' c'' hc''
  limit addr' cb hcb := by
    obtain ⟨rfl, rfl⟩ | ⟨-, hcb⟩ := Table.of_put hcb
    · exact hlimit
    · exact hr.limit addr' cb hcb
  counted addr' cb hcb := by
    obtain ⟨rfl, rfl⟩ | ⟨hne, hcb⟩ := Table.of_put hcb
    · exact hcounted
    · intro hclosed
      obtain ⟨hlt, hids⟩ := hr.counted addr' cb hcb hclosed
      refine ⟨hlt, fun ids hnodup hall => hids ids hnodup fun id' hid' => ?_⟩
      exact (hall id' hid').of_put rfl fun _ haddr' => absurd (haddr.symm.trans haddr') hne

theorem DialFailed.equipped (hfailed : s.DialFailed addr id) (heq : Equipped s) : s.cbs addr ≠ none := by
  obtain ⟨c, hc, haddr, hphase⟩ := hfailed
  rcases heq id c hc with h' | ⟨err, h'⟩ | h'
  · cases hphase.symm.trans h'
  · cases hphase.symm.trans h'
  · exact haddr ▸ h'

/-- The count of a breaker that is not there yet: no dial was made. -/
theorem Refused.counted_getD (hpos : 0 < template.threshold) (hr : Refused template.threshold s)
    (hclosed : ((s.cbs addr).getD (fresh template)).state = .cbClosed) :
    ((s.cbs addr).getD (fresh template)).consecutiveErrors < template.threshold ∧
      ∀ ids : List Nat, ids.Nodup → (∀ id ∈ ids, s.DialFailed addr id) →
        (ids.length : Int) ≤ ((s.cbs addr).getD (fresh template)).consecutiveErrors := by
  cases hcb : s.cbs addr with
  | some cb => exact hr.counted addr cb hcb (by rwa [hcb] at hclosed)
  | none =>
    refine ⟨hpos, fun ids _ hall => ?_⟩
    cases ids with
    | nil => exact le_rfl
    | cons id ids => exact absurd hcb ((hall id List.mem_cons_self).equipped hr.equipped)

theorem Refused.limit_getD (hr : Refused template.threshold s) (addr : List UInt8) :
    ((s.cbs addr).getD (fresh template)).threshold = template.threshold := by
  cases hcb : s.cbs addr with
  | some cb => exact hr.limit addr cb hcb
  | none => rfl

theorem Refused.move {e : OutboundEvent} (ht : h.cbTemplate = some template) (hpos : 0 < template.threshold)
    (hr : Refused template.threshold s) (hdial : ∀ id result, e.call = .dial id result → result = none)
    (hc : s.conns id = some c) (hs : s.step h socket e = { s with clock := s.now e }.place id c.origDst.addr
      (c.move h (s.now e) s.spiffeLookup (s.cbs c.origDst.addr) e.call)) :
    Refused template.threshold (s.step h socket e) := by
  have heq := hr.equipped.step socket ht e
  have hr' := hr.advance (s.now e)
  have hmoves := move_moves (s.now e) s.spiffeLookup e.call ht (hr.equipped id c hc)
  rw [hs] at heq ⊢
  generalize c.move h (s.now e) s.spiffeLookup (s.cbs c.origDst.addr) e.call = p at *
  -- No failure is recorded, and none is new.
  have hcalm {b' : CircuitBreaker} {c' : OutboundConn} (hcalm : Calm ((s.cbs c.origDst.addr).getD (fresh template)) b')
      (hp : p = (some b', c')) (hmoved : c'.origDst = c.origDst ∧ c'.upstream = c.upstream)
      (hphase : c'.phase ≠ .copying ∧ c'.phase ≠ .returned (.ended .dialError)) :
      Refused template.threshold ({ s with clock := s.now e }.place id c.origDst.addr p) := by
    subst hp
    obtain ⟨hlimit, herrors, hclosed⟩ := hcalm
    refine hr'.place heq (by rw [hmoved.1]) ⟨hmoved.2.trans (hr.conns id c hc).1, hphase.1⟩
      (hlimit.trans (hr.limit_getD _)) fun hstate => ?_
    obtain ⟨hlt, hids⟩ := hr.counted_getD hpos (hclosed hstate)
    rw [herrors]
    exact ⟨hlt, fun ids hnodup hall => hids ids hnodup fun id' hid' => (hall id' hid').of_put rfl fun _ _ => hphase.2⟩
  cases hmoves with
  | stay =>
    rw [Outbound.place, write_self (s := { s with clock := s.now e }), put_self (s := { s with clock := s.now e }) hc]
    exact hr'
  | lookup => exact hcalm ⟨rfl, rfl, fun hclosed => hclosed⟩ rfl ⟨rfl, rfl⟩ (by simp)
  | @allow b hcb =>
    refine hcalm (hcb ▸ calm_allow b _) rfl ⟨rfl, rfl⟩ ?_
    cases (b.allow (s.now e)).1 <;> simp
  | @finish b outcome _ hcb hphase =>
    obtain ⟨-, _, result, hcall, hout⟩ := hphase.resolve_left (hr.conns id c hc).2
    obtain rfl := hout (hdial _ _ hcall)
    refine hr'.place heq rfl ⟨(hr.conns id c hc).1, by simp⟩
      ((threshold_recordFailure b _).trans (hr.limit _ b hcb)) fun hstate => ?_
    obtain ⟨hclosed, herrors, hlt⟩ := recordFailure_closed hstate
    obtain ⟨-, hids⟩ := hr.counted _ b hcb hclosed
    refine ⟨hr.limit _ b hcb ▸ hlt, fun ids hnodup hall => ?_⟩
    -- One of the failures is new.
    have hold := hids (ids.erase id) (hnodup.erase id) fun id' hid' => by
      obtain ⟨hne, hid'⟩ := (hnodup.mem_erase_iff).mp hid'
      exact (hall id' hid').of_put rfl fun hid _ => absurd hid.symm hne
    have hlen : ids.length ≤ (ids.erase id).length + 1 := by
      rw [List.length_erase]
      split <;> omega
    exact (Int.ofNat_le.mpr hlen).trans (herrors ▸ Int.add_le_add_right hold 1)
  | copy _ _ hcall => cases hdial _ _ hcall

theorem Refused.step (socket : Nat → Conn) {e : OutboundEvent} (ht : h.cbTemplate = some template)
    (hpos : 0 < template.threshold) (hr : Refused template.threshold s) (hwired : WiredStep trustPool s e) :
    Refused template.threshold (s.step h socket e) := by
  have heq := hr.equipped.step socket ht e
  rcases step_cases h socket s e with ⟨-, -, hcbs, hconns⟩ | ⟨id, hid, ⟨-, hs⟩ | ⟨hnone, hs⟩ | ⟨c, hc, hs⟩⟩
  · refine ⟨heq, by rw [hconns]; exact hr.conns, by rw [hcbs]; exact hr.limit, ?_⟩
    simp only [hcbs, DialFailed, hconns]
    exact hr.counted
  · exact hs ▸ hr.advance _
  · have hresolved : (h.resolved (socket id)).upstream = none ∧
        (h.resolved (socket id)).phase ∉ [.copying, .returned (.ended .dialError)] := by
      unfold OutboundHandler.resolved
      cases h.resolver (socket id) <;> simp
    rw [hs] at heq ⊢
    simp only [List.mem_cons, List.not_mem_nil, or_false, not_or] at hresolved
    refine ⟨heq, fun id' c' hc' => ?_, hr.limit, fun addr cb hcb hclosed => ?_⟩
    · obtain ⟨rfl, rfl⟩ | ⟨-, hc'⟩ := Table.of_put hc'
      · exact ⟨hresolved.1, hresolved.2.1⟩
      · exact hr.conns id' c' hc'
    · obtain ⟨hlt, hids⟩ := hr.counted addr cb hcb hclosed
      exact ⟨hlt, fun ids hnodup hall => hids ids hnodup fun id' hid' => (hall id' hid').of_put rfl fun _ _ => hresolved.2.2⟩
  · refine hr.move ht hpos (fun id' result hcall => ?_) hc hs
    rw [hcall] at hid
    obtain rfl := Option.some.inj hid
    obtain ⟨remote, hip, rfl⟩ := hwired id' result hcall c hc
    exact mtlsDial_no_ip_names hip

end

end Outbound

open Outbound in
/-- The agent's handler, against remote proxies with certificates that its authority issues: whatever connections there
    are, none is ever tunnelled; and once five dials to an upstream have failed, its breaker is no longer closed. -/
theorem wired_outbound_never_tunnels (authority : AuthoritySyntax) (trustPool : List (Certificate URL)) (clock : Int)
    (spiffeLookup : Option MapSpiffeIDResolver) (events : List OutboundEvent)
    (hwired : Steps (Outbound.step (phase4Outbound authority) socket) (WiredStep trustPool) (.start clock spiffeLookup) events)
    {s : Outbound} (hs : execute (Outbound.step (phase4Outbound authority) socket) (.start clock spiffeLookup) events = s) :
    (∀ id c, s.conns id = some c → c.upstream = none) ∧
      ∀ addr (ids : List Nat), ids.Nodup → 5 ≤ ids.length → (∀ id ∈ ids, s.DialFailed addr id) →
        ∃ cb, s.cbs addr = some cb ∧ cb.state ≠ .cbClosed := by
  have htemplate : (phase4Outbound authority).cbTemplate = some (.new 5 30000000000) := rfl
  have hr := execute_inv_of_steps (I := Refused 5) (fun s e hr hw => hr.step socket htemplate (by decide) hw)
    ⟨fun id c hc => (by cases hc), fun id c hc => (by cases hc), fun addr cb hcb => (by cases hcb),
      fun addr cb hcb => (by cases hcb)⟩ hwired
  rw [hs] at hr
  refine ⟨fun id c hc => (hr.conns id c hc).1, fun addr ids hnodup hlen hall => ?_⟩
  obtain ⟨id, hid⟩ := List.exists_mem_of_length_pos (Nat.lt_of_lt_of_le (by decide) hlen)
  obtain ⟨cb, hcb⟩ := Option.ne_none_iff_exists'.mp ((hall id hid).equipped hr.equipped)
  refine ⟨cb, hcb, fun hclosed => ?_⟩
  obtain ⟨hlt, hids⟩ := hr.counted addr cb hcb hclosed
  have := hids ids hnodup hall
  omega

/-- A remote proxy that accepts, with a certificate of the authority and a chain that is complete under any pool. -/
def meshRemote : Remote :=
  ⟨true, true, ⟨⟨.ecdsa .p256 3, [], [Rest.clusterURL (ascii "/ns/default") []], -300, 86400⟩, []⟩, fun _ => true⟩

theorem oneUpstreamDown_wired (s : Outbound) {e : OutboundEvent} (he : e ∈ oneUpstreamDown) : s.WiredStep [] e := by
  intro id result hcall c _
  have hresult : result = none := by
    simp only [oneUpstreamDown, failedConn, List.mem_append, List.mem_flatMap, List.mem_cons, List.not_mem_nil, or_false] at he
    rcases he with ⟨_, _, rfl | rfl | rfl | rfl⟩ | rfl | rfl | rfl <;> cases hcall
    rfl
  exact ⟨meshRemote, rfl, hresult.trans (Outbound.mtlsDial_no_ip_names rfl).symm⟩

theorem wired_outbound_never_tunnels_down :
    ∃ s, execute (Outbound.step (phase4Outbound Rest.hostNames) twoUpstreams) (.start 0 none) oneUpstreamDown = s ∧
      ∃ cb, s.cbs [10, 0, 0, 1] = some cb ∧ cb.state ≠ .cbClosed := by
  have hwired : Steps (Outbound.step (phase4Outbound Rest.hostNames) twoUpstreams) (Outbound.WiredStep []) (.start 0 none)
      oneUpstreamDown := steps_of_mem fun s e he => oneUpstreamDown_wired s he
  refine ⟨_, rfl, (wired_outbound_never_tunnels Rest.hostNames [] 0 none _ hwired rfl).2 [10, 0, 0, 1] [0, 1, 2, 3, 4]
    (by decide) (by decide) ?_⟩
  simp only [List.forall_mem_cons, List.not_mem_nil, false_imp_iff, implies_true, and_true]
  exact ⟨⟨_, rfl, rfl, rfl⟩, ⟨_, rfl, rfl, rfl⟩, ⟨_, rfl, rfl, rfl⟩, ⟨_, rfl, rfl, rfl⟩, ⟨_, rfl, rfl, rfl⟩⟩

end Meridian.Proxy
