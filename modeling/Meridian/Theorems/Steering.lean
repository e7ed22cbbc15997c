import Meridian.Agent.Tproxy
import Meridian.Theorems.Mediation

/-! From a REDIRECT verdict to the proxy: ingress sets the mark, and the rules that the agent installs look at the
    destination port and not at the mark. -/

namespace Meridian.Bpf
open Lib

/-! ### The mark -/

section
variable {env : Env} {c : Ctx}

theorem bpfSkbLoadBytes_skb (off len : Nat) : (bpfSkbLoadBytes env c off len).2.skb = c.skb := by
  unfold bpfSkbLoadBytes
  split <;> rfl

theorem bpfSkbStoreBytes_mark (off : Nat) (src : List UInt8) :
    (bpfSkbStoreBytes env c off src).2.skb.mark = c.skb.mark := by
  unfold bpfSkbStoreBytes
  split <;> rfl

theorem orFail_mark {r : Bool × Ctx} {rest : Ctx → Bool × Ctx} {mark : UInt32} (hr : r.2.skb.mark = mark)
    (hrest : ∀ c, c.skb.mark = mark → (rest c).2.skb.mark = mark) : (orFail r rest).2.skb.mark = mark :=
  orFail_invariant (P := fun c => c.skb.mark = mark) hr hrest

theorem orFailLoad_mark {off len : Nat} {rest : List UInt8 → Ctx → Bool × Ctx} {mark : UInt32} (hc : c.skb.mark = mark)
    (hrest : ∀ b c, c.skb.mark = mark → (rest b c).2.skb.mark = mark) :
    (orFailLoad (bpfSkbLoadBytes env c off len) rest).2.skb.mark = mark := by
  refine orFailLoad_invariant (P := fun c => c.skb.mark = mark) ?_ hrest
  rw [bpfSkbLoadBytes_skb]
  exact hc

theorem stripShiftLoop_mark (innerBaseOff innerLen n i : Nat) (c : Ctx) :
    (stripShiftLoop env innerBaseOff innerLen n i c).2.skb.mark = c.skb.mark := by
  induction n generalizing i c with
  | zero => rfl
  | succ n ih =>
    unfold stripShiftLoop
    split
    · rfl
    · refine orFailLoad_mark rfl fun b c' hload => ?_
      refine orFail_mark ((bpfSkbStoreBytes_mark _ _).trans hload) fun c'' hstore => ?_
      exact (ih _ _).trans hstore

theorem lowerLength_mark (c : Ctx) (off : Nat) : (lowerLength env c off).2.skb.mark = c.skb.mark :=
  orFailLoad_mark rfl fun _ _ hload => (bpfSkbStoreBytes_mark _ _).trans hload

/-- Taking the option out of a packet leaves its mark. -/
theorem stripMeridianTlv_mark (o : StripOffsets) : (stripMeridianTlv env c o).2.skb.mark = c.skb.mark := by
  refine orFail_mark rfl fun c₁ h₁ => ?_
  split
  · exact h₁
  · split
    · exact h₁
    · dsimp only
      split
      · exact h₁
      · refine orFail_mark ((stripShiftLoop_mark _ _ _ _ _).trans h₁) fun c₂ h₂ => ?_
        refine orFailLoad_mark h₂ fun b c₃ h₃ => ?_
        refine orFail_mark ((bpfSkbStoreBytes_mark _ _).trans h₃) fun c₄ h₄ => ?_
        refine orFail_mark ((lowerLength_mark _ _).trans h₄) fun c₅ h₅ => ?_
        exact (lowerLength_mark _ _).trans h₅

theorem stripOffsets_skb (d : List UInt8) (outerIp : Nat) : (stripOffsets env c d outerIp).2.skb = c.skb := by
  unfold stripOffsets
  exact bpfSkbLoadBytes_skb _ _

theorem countDecodeFail_skb (geneve : Option (Option UInt32)) (saddr : UInt32) :
    (countDecodeFail c geneve saddr).skb = c.skb := by
  unfold countDecodeFail
  split
  · split <;> rfl
  · rfl

end

/-- The packet that ingress judges in a frame, and the option's identity when it came through a tunnel. -/
def judgedPacket (d : List UInt8) : Option (Nat × Option (Option UInt32)) :=
  match ingressParse d with
  | .plain ip => some (ip, none)
  | .tunnel _ g => some (g.innerIp, some g.identity)
  | _ => none

/-- Ingress applies a REDIRECT entry to the packet at `ip`, which goes to `dstPort`. -/
def RedirectApplied (m : Maps) (d : List UInt8) (ip : Nat) (dstPort : UInt16) : Prop :=
  ∃ option srcPort, judgedPacket d = some (ip, option) ∧ parseL4Ports d ip = some (srcPort, dstPort) ∧
    ¬MidConnection m d ip option ∧
    enforceRedirects m (sourceIdentity m option (ipSaddr d ip)) (mappedIdentity m (ipDaddr d ip))
      (policyKeyOf (sourceIdentity m option (ipSaddr d ip)) (mappedIdentity m (ipDaddr d ip)) dstPort
        (ipProtocol d ip)) = true

theorem SameTables.enforceRedirects_eq {m m' : Maps} (h : SameTables m m') (srcId dstId : UInt32) (key : PolicyKey) :
    enforceRedirects m' srcId dstId key = enforceRedirects m srcId dstId key := by
  unfold enforceRedirects
  rw [h.policyMap]

theorem ingressFlow_redirect_mark (env : Env) {c : Ctx} {m : Maps} {d : List UInt8} {ip : Nat} {srcPort dstPort : UInt16}
    (packetBytes : UInt32) {geneve : Option (Option UInt32 × StripOffsets)} (hsame : SameTables m c.maps)
    (hports : parseL4Ports d ip = some (srcPort, dstPort)) (hopen : ¬MidConnection m d ip (geneve.map (·.1)))
    (hredirects : enforceRedirects m (sourceIdentity m (geneve.map (·.1)) (ipSaddr d ip)) (mappedIdentity m (ipDaddr d ip))
      (policyKeyOf (sourceIdentity m (geneve.map (·.1)) (ipSaddr d ip)) (mappedIdentity m (ipDaddr d ip)) dstPort
        (ipProtocol d ip)) = true) :
    (ingressFlow env c d ip packetBytes geneve).2.skb.mark = c.skb.mark ||| meridianMarkRedirectPlaceholder := by
  have hcount := countDecodeFail_sameTables c (geneve.map (·.1)) (ipSaddr d ip)
  have hcond : ¬(geneve.isSome && decide (ipProtocol d ip = ipprotoTcp) &&
      decide (sourceIdentity m (geneve.map (·.1)) (ipSaddr d ip) ≠ 0) && !isTcpConnectionOpen d ip) = true := by
    intro h
    simp only [Bool.and_eq_true, decide_eq_true_eq, Bool.not_eq_true'] at h
    exact hopen ⟨by rw [Option.isSome_map]; exact h.1.1.1, h.1.1.2, h.2, h.1.2⟩
  unfold ingressFlow
  rw [hports]
  dsimp only
  rw [hsame.sourceIdentity_eq, hsame.mappedIdentity_eq, if_neg hcond]
  have hspec := (enforceFlow_spec env (countDecodeFail c (geneve.map (·.1)) (ipSaddr d ip)) d ip packetBytes srcPort dstPort
    (sourceIdentity m (geneve.map (·.1)) (ipSaddr d ip)) (mappedIdentity m (ipDaddr d ip))
    (if geneve.isSome then .stolen else .shot)).2
  rw [(hsame.trans hcount).enforceRedirects_eq, hredirects, countDecodeFail_skb] at hspec
  generalize enforceFlow env _ d ip packetBytes srcPort dstPort _ _ _ = result at hspec ⊢
  obtain ⟨verdict, c'⟩ := result
  have hmark : c'.skb.mark = c.skb.mark ||| meridianMarkRedirectPlaceholder := congrArg Skb.mark hspec
  dsimp only
  -- Whether the packet is stripped makes no difference to the mark.
  split
  · split
    · exact (stripMeridianTlv_mark _).trans hmark
    · exact hmark
  · exact hmark

theorem redirect_mark {env : Env} {maps : Maps} {skb : Skb} {ip : Nat} {dstPort : UInt16} (hpull : env.skbFails 0 = false)
    (happlied : RedirectApplied maps skb.data ip dstPort) :
    (meridianTcIngress env maps skb).2.skb.mark = skb.mark ||| meridianMarkRedirectPlaceholder := by
  obtain ⟨option, srcPort, hjudged, hports, hopen, hredirects⟩ := happlied
  rw [meridianTcIngress_eq maps skb hpull]
  unfold judgedPacket at hjudged
  split at hjudged
  · rename_i hparse
    cases hjudged
    simp only [hparse]
    exact ingressFlow_redirect_mark env _ (ingressStart_sameTables maps skb) hports hopen hredirects
  · rename_i outerIp g hparse
    cases hjudged
    simp only [hparse]
    refine (ingressFlow_redirect_mark env _ ?_ hports hopen hredirects).trans ?_
    · rw [stripOffsets_maps]
      exact ingressStart_sameTables maps skb
    · rw [stripOffsets_skb]
      rfl
  · cases hjudged

end Meridian.Bpf

namespace Meridian.Tproxy
open Lib Bpf

/-! ### What the installer leaves in the chain -/

section
variable {sh : Shell} {host host' : Host} {i : LinuxInstaller}

/-- Only an append changes the chain. -/
theorem run_prerouting {cmd : Command} {ok : Bool} (h : ∀ rule, cmd ≠ .append rule) (hrun : sh.run host cmd = (ok, host')) :
    host'.prerouting = host.prerouting := by
  unfold Shell.run at hrun
  dsimp only at hrun
  split at hrun
  · cases hrun
    rfl
  · cases cmd with
    | append rule => exact absurd rfl (h rule)
    | _ =>
      cases hrun
      rfl

theorem run_check {rule : List String} (h : sh.run host (.check rule) = (true, host')) : rule ∈ host.prerouting := by
  unfold Shell.run at h
  dsimp only at h
  split at h
  · cases h
  · exact of_decide_eq_true (Prod.ext_iff.mp h).1

theorem run_append {rule : List String} (h : sh.run host (.append rule) = (true, host')) :
    host'.prerouting = host.prerouting ++ [rule] := by
  unfold Shell.run at h
  dsimp only at h
  split at h <;> cases h
  rfl

theorem probeTPROXY_prerouting {err : Option ProbeError} (h : probeTPROXY sh host = (err, host')) :
    host'.prerouting = host.prerouting := by
  unfold probeTPROXY at h
  split at h
  · rename_i hlist
    cases h
    exact run_prerouting (by simp) hlist
  · rename_i host₁ hlist
    rw [← run_prerouting (by simp) hlist]
    split at h
    · rename_i hmodprobe
      cases h
      exact run_prerouting (by simp) hmodprobe
    · rename_i host₂ hmodprobe
      rw [← run_prerouting (by simp) hmodprobe]
      split at h <;> rename_i hcheck <;> cases h <;> exact run_prerouting (by simp) hcheck

theorem installIPRule_prerouting {ok : Bool} (h : i.installIPRule sh host = (ok, host')) :
    host'.prerouting = host.prerouting := by
  unfold LinuxInstaller.installIPRule at h
  split at h
  · cases h
    rfl
  · split at h
    · cases h
      rfl
    · exact run_prerouting (by simp) h

theorem installLocalRoute_prerouting {ok : Bool} (h : i.installLocalRoute sh host = (ok, host')) :
    host'.prerouting = host.prerouting := by
  unfold LinuxInstaller.installLocalRoute at h
  split at h
  · cases h
    rfl
  · exact run_prerouting (by simp) h

theorem installIPTables_ok {port : Nat} (h : i.installIPTables sh host port = (true, host')) (rule : List String) :
    rule ∈ host'.prerouting ↔ rule ∈ host.prerouting ∨ rule = i.rule port := by
  unfold LinuxInstaller.installIPTables at h
  split at h
  · rename_i host₁ hcheck
    cases h
    rw [run_prerouting (by simp) hcheck]
    exact ⟨.inl, fun h => h.elim id fun heq => heq ▸ run_check hcheck⟩
  · rename_i host₁ hcheck
    rw [run_append h, run_prerouting (by simp) hcheck, List.mem_append, List.mem_singleton]

/-- After an installation the chain has the rules for the two ports, and no others besides those it had. -/
theorem install_ok (h : i.install sh host = (none, host')) (rule : List String) :
    rule ∈ host'.prerouting ↔ rule ∈ host.prerouting ∨ rule = i.rule i.outPort ∨ rule = i.rule i.inPort := by
  unfold LinuxInstaller.install at h
  split at h
  · cases h
  rename_i hprobe
  split at h
  · cases h
  rename_i hrule
  split at h
  · cases h
  rename_i hroute
  split at h
  · cases h
  rename_i hout
  split at h
  · cases h
  rename_i hin
  cases h
  rw [installIPTables_ok hin, installIPTables_ok hout, installLocalRoute_prerouting hroute,
    installIPRule_prerouting hrule, probeTPROXY_prerouting hprobe, or_assoc]

/-! ### Evaluating the chain -/

theorem readOptions_cons (r : Rule) (flag value : String) (rest : List String) :
    readOptions r (flag :: value :: rest) = (readOption r flag value).bind fun r => readOptions r rest := rfl

theorem readOption_table (r : Rule) (value : String) : readOption r "-t" value = some { r with table := value } := rfl

theorem readOption_protocol (r : Rule) (value : String) :
    readOption r "-p" value = some { r with options := r.options ++ [.protocol value] } := rfl

theorem readOption_destinationPort (r : Rule) (port : Nat) :
    readOption r "--destination-port" (decimal port) = some { r with options := r.options ++ [.destinationPort port] } :=
  congrArg (Option.map _) (readDecimal_decimal port)

theorem readOption_target (r : Rule) (value : String) : readOption r "-j" value = some { r with target := value } := rfl

theorem readOption_tproxyMark (r : Rule) (value : String) :
    readOption r "--tproxy-mark" value = some { r with tproxyMark := value } := rfl

theorem readOption_onPort (r : Rule) (port : Nat) :
    readOption r "--on-port" (decimal port) = some { r with onPort := some port } :=
  congrArg (Option.map _) (readDecimal_decimal port)

theorem readRule_rule (i : LinuxInstaller) (port : Nat) :
    readRule (i.rule port) =
      some ⟨"mangle", [.protocol "tcp", .destinationPort port], "TPROXY", hex i.mark, some port⟩ := by
  unfold readRule LinuxInstaller.rule
  rw [readOptions_cons, readOption_table, Option.bind_some, readOptions_cons, readOption_protocol, Option.bind_some,
    readOptions_cons, readOption_destinationPort, Option.bind_some, readOptions_cons, readOption_target, Option.bind_some,
    readOptions_cons, readOption_tproxyMark, Option.bind_some, readOptions_cons, readOption_onPort, Option.bind_some]
  rfl

/-- In a chain of rules of the installer a TCP packet is steered by its destination port. -/
theorem steeredTo_iff {chain : List (List String)} {p : Packet} (htcp : p.protocol = 6)
    (hown : ∀ rule ∈ chain, ∃ port, rule = i.rule port) (port : Nat) :
    SteeredTo chain p port ↔ i.rule port ∈ chain ∧ p.dport.toNat = port := by
  have happlies : ∀ q mark, Rule.applies ⟨"mangle", [.protocol "tcp", .destinationPort q], "TPROXY", mark, some q⟩ p = true ↔
      p.dport.toNat = q := by
    intro q mark
    simp [Rule.applies, Match.holds, htcp]
  constructor
  · rintro ⟨r, heval, -, hport⟩
    obtain ⟨rule, hrule, hread⟩ := List.mem_filterMap.mp (List.mem_of_find?_eq_some heval)
    obtain ⟨q, rfl⟩ := hown rule hrule
    rw [readRule_rule] at hread
    cases hread
    cases hport
    exact ⟨hrule, (happlies _ _).mp (List.find?_some (p := fun r => Rule.applies r p) heval)⟩
  · rintro ⟨hrule, hdport⟩
    have hfound : ((chain.filterMap readRule).find? fun r => r.applies p).isSome := by
      refine List.find?_isSome.mpr ⟨_, List.mem_filterMap.mpr ⟨_, hrule, readRule_rule i port⟩, ?_⟩
      exact (happlies _ _).mpr hdport
    obtain ⟨r, heval⟩ := Option.isSome_iff_exists.mp hfound
    obtain ⟨rule, hrule', hread⟩ := List.mem_filterMap.mp (List.mem_of_find?_eq_some heval)
    obtain ⟨q, rfl⟩ := hown rule hrule'
    rw [readRule_rule] at hread
    cases hread
    have hq := (happlies _ _).mp (List.find?_some (p := fun r => Rule.applies r p) heval)
    exact ⟨_, heval, rfl, by rw [← hq, hdport]⟩

end

/-- The packet at `ip` as netfilter sees it after ingress. -/
def packetOf (d : List UInt8) (ip : Nat) (dstPort : UInt16) (mark : UInt32) : Packet :=
  ⟨ipProtocol d ip, ipDaddr d ip, bpfNtohs dstPort, mark⟩

/-- A TCP packet with a REDIRECT verdict has the mark, and is steered to one of the proxy ports exactly when it is
    already sent to one of them. -/
theorem redirect_steered_iff {env : Env} {maps : Maps} {skb : Skb} {ip : Nat} {dstPort : UInt16} {i : LinuxInstaller}
    {sh : Shell} {host host' : Host} (hpull : env.skbFails 0 = false) (happlied : RedirectApplied maps skb.data ip dstPort)
    (htcp : ipProtocol skb.data ip = ipprotoTcp) (hinstall : i.install sh host = (none, host'))
    (hown : ∀ rule ∈ host.prerouting, rule = i.rule i.outPort ∨ rule = i.rule i.inPort) :
    let mark := (meridianTcIngress env maps skb).2.skb.mark
    mark &&& tproxyMark ≠ 0 ∧
        (∃ port, (port = i.outPort ∨ port = i.inPort) ∧
          SteeredTo host'.prerouting (packetOf skb.data ip dstPort mark) port) ↔
      (bpfNtohs dstPort).toNat = i.outPort ∨ (bpfNtohs dstPort).toNat = i.inPort := by
  intro mark
  have hbit : mark &&& tproxyMark ≠ 0 := by
    have hmark : mark = skb.mark ||| 1 := redirect_mark hpull happlied
    have hone : (skb.mark ||| 1) &&& 1 = 1 := by
      rw [UInt32.and_comm]
      exact UInt32.toBitVec_inj.mp (by ext; simp; tauto)
    rw [hmark]
    exact fun h => absurd (hone.symm.trans h) (by decide)
  have hrules := install_ok hinstall
  have hown' : ∀ rule ∈ host'.prerouting, ∃ port, rule = i.rule port := by
    intro rule hrule
    rcases (hrules rule).mp hrule with hold | rfl | rfl
    · rcases hown rule hold with rfl | rfl
      · exact ⟨_, rfl⟩
      · exact ⟨_, rfl⟩
    · exact ⟨_, rfl⟩
    · exact ⟨_, rfl⟩
  constructor
  · rintro ⟨-, port, hport, hsteered⟩
    obtain ⟨-, hdport⟩ := (steeredTo_iff htcp hown' port).mp hsteered
    rcases hport with rfl | rfl
    · exact .inl hdport
    · exact .inr hdport
  · rintro (hdport | hdport)
    · refine ⟨hbit, i.outPort, .inl rfl, (steeredTo_iff htcp hown' _).mpr ⟨?_, hdport⟩⟩
      exact (hrules _).mpr (.inr (.inl rfl))
    · refine ⟨hbit, i.inPort, .inr rfl, (steeredTo_iff htcp hown' _).mpr ⟨?_, hdport⟩⟩
      exact (hrules _).mpr (.inr (.inr rfl))

/-- A host without rules, on which every command succeeds. -/
def emptyHost : Host := ⟨[], [], 0⟩

def quietShell : Shell := ⟨fun _ => false, false, some "", none⟩

/-- Identity 7 everywhere, and every flow is redirected. -/
def redirectMaps : Maps := Maps.fresh (fun _ => some 7) (fun _ => some ⟨flowVerdictRedirect, 0⟩) none

/-- `plainFrame` to the inbound port of the proxy. -/
def inboundFrame : List UInt8 := plainFrame.take 36 ++ [0x3a, 0xa0] ++ plainFrame.drop 38

theorem redirect_steered_inbound :
    ∃ port, (port = outboundPort ∨ port = inboundPort) ∧
      SteeredTo [newInstaller.rule outboundPort, newInstaller.rule inboundPort]
        (packetOf inboundFrame 14 0xa03a (meridianTcIngress quietEnv redirectMaps ⟨inboundFrame, 0⟩).2.skb.mark) port :=
  have happlied : RedirectApplied redirectMaps inboundFrame 14 0xa03a :=
    ⟨none, 0x409c, by decide, by decide, fun h => absurd h.1 (by decide), by decide⟩
  have hinstall : newInstaller.install quietShell emptyHost =
      (none, ⟨[newInstaller.rule outboundPort, newInstaller.rule inboundPort],
        [["rule", "add", "fwmark", hex tproxyMark, "lookup", decimal tproxyTable],
          ["route", "add", "local", "0.0.0.0/0", "dev", "lo", "table", decimal tproxyTable]], 8⟩) := by
    decide +kernel
  ((@redirect_steered_iff quietEnv redirectMaps ⟨inboundFrame, 0⟩ 14 0xa03a newInstaller quietShell emptyHost _ rfl happlied
    (by decide) hinstall (fun _ h => absurd h List.not_mem_nil)).mpr (.inr (by decide))).2

/-- A packet to port 8080 with a REDIRECT verdict and the mark is not steered. -/
theorem redirect_not_steered :
    RedirectApplied redirectMaps plainFrame 14 0x901f ∧
      (newInstaller.install quietShell emptyHost).1 = none ∧
      (meridianTcIngress quietEnv redirectMaps ⟨plainFrame, 0⟩).2.skb.mark = tproxyMark ∧
      evaluate (newInstaller.install quietShell emptyHost).2.prerouting (packetOf plainFrame 14 0x901f tproxyMark) = none :=
  ⟨⟨none, 0x409c, by decide, by decide, fun h => absurd h.1 (by decide), by decide⟩, by decide +kernel,
    by decide +kernel, by decide +kernel⟩

end Meridian.Tproxy
