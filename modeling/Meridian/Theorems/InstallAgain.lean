import Meridian.Agent.TproxyKernel

/-! Installing the steering rules again. The own policy rule is found by a search that also finds a rule whose table number
    only begins with the same digits; the local route is never found, since it is shown as `local default`. -/

namespace Meridian.Tproxy
open Lib

/-! ### Searching a listing -/

theorem contains_listing {lines : List String} {w : String} (hnl : '\n' ∉ w.toList) (hw : w.toList ≠ []) :
    contains (listing lines) w = true ↔ ∃ line ∈ lines, w.toList <:+: line.toList := by
  rw [contains, decide_eq_true_iff, listing, String.toList_ofList]
  induction lines with
  | nil => simp [hw]
  | cons line lines ih =>
    rw [List.flatMap_cons, List.append_assoc, List.singleton_append, infix_append_cons_iff hnl, ih]
    simp

/-! ### The line of a rule -/

theorem mem_toDigits {n : Nat} {c : Char} (hc : c ∈ Nat.toDigits 16 n) : ∃ d < 16, c = Nat.digitChar d := by
  induction n using Nat.strongRecOn with
  | _ n ih =>
    by_cases hn : n < 16
    · rw [Nat.toDigits_of_lt_base hn, List.mem_singleton] at hc
      exact ⟨n, hn, hc⟩
    · rw [Nat.toDigits_of_base_le (by omega) (by omega), List.mem_append, List.mem_singleton] at hc
      obtain hc | hc := hc
      · exact ih (n / 16) (by omega) hc
      · exact ⟨n % 16, by omega, hc⟩

theorem hex_toList (m : UInt32) : (hex m).toList = '0' :: 'x' :: Nat.toDigits 16 m.toNat := by
  simp [hex]

theorem notMem_hex {c : Char} (hc : ∀ d < 16, c ≠ Nat.digitChar d) (hx : c ≠ 'x') (m : UInt32) : c ∉ (hex m).toList := by
  intro hmem
  rw [hex_toList, List.mem_cons, List.mem_cons] at hmem
  obtain h0 | h | hmem := hmem
  · exact hc 0 (by omega) h0
  · exact hx h
  · obtain ⟨d, hd, rfl⟩ := mem_toDigits hmem
    exact hc d hd rfl

theorem hex_eq_iff {m : UInt32} : (hex m).toList = ['0', 'x', '1'] ↔ m = 1 := by
  refine ⟨fun h => ?_, fun h => h ▸ rfl⟩
  have hdigits : Nat.toDigits 16 m.toNat = ['1'] := by simpa [hex_toList] using h
  have hlt : m.toNat < 16 := by
    refine (Nat.length_toDigits_le_iff (b := 16) (k := 1) (by omega) (by omega)).mp ?_
    rw [hdigits]
    rfl
  have hall : ∀ n < 16, Nat.digitChar n = '1' → n = 1 := by decide
  rw [Nat.toDigits_of_lt_base hlt, List.cons.injEq] at hdigits
  exact UInt32.toNat_inj.mp (hall _ hlt hdigits.1)

theorem notMem_decimal {c : Char} (hc : c.isDigit = false) (n : Nat) : c ∉ (decimal n).toList := by
  intro hmem
  rw [decimal, String.toList_ofList] at hmem
  have := Nat.isDigit_of_mem_toDigits (by omega) (by omega) hmem
  rw [hc] at this
  cases this

theorem notMem_tableName (n : Nat) : 'w' ∉ (tableName n).toList := by
  unfold tableName
  split
  · decide
  · split
    · decide
    · split
      · decide
      · exact notMem_decimal rfl n

theorem line_toList_some {r : PolicyRule} {m : UInt32} (hm : r.mark = some m) :
    r.line.toList = "from all f".toList ++ 'w' :: ("mark ".toList ++ ((hex m).toList ++ ' ' :: ("lookup ".toList ++
      (tableName r.table).toList))) := by
  simp [PolicyRule.line, hm]

/-- The search for the own rule in the line of a rule. -/
theorem infix_line_iff {r : PolicyRule} :
    "fwmark 0x1 lookup 100".toList <:+: r.line.toList ↔ r.mark = some 1 ∧ "100".toList <+: (tableName r.table).toList := by
  cases hm : r.mark with
  | none =>
    -- The line holds no `w`.
    refine iff_of_false (fun h => ?_) (by simp)
    have hw : 'w' ∈ r.line.toList := h.subset (by decide)
    simp [PolicyRule.line, hm, notMem_tableName] at hw
  | some m =>
    rw [line_toList_some hm]
    constructor
    · rintro ⟨a, b, h⟩
      have hline : (a ++ ['f']) ++ 'w' :: ("mark ".toList ++ (['0', 'x', '1'] ++ ' ' :: ("lookup ".toList ++
          ("100".toList ++ b)))) = "from all f".toList ++ 'w' :: ("mark ".toList ++ ((hex m).toList ++ ' ' ::
          ("lookup ".toList ++ (tableName r.table).toList))) := by
        rw [← h]
        simp
      have hw : 'w' ∉ "mark ".toList ++ ((hex m).toList ++ ' ' :: ("lookup ".toList ++ (tableName r.table).toList)) := by
        have hhex := notMem_hex (c := 'w') (by decide) (by decide) m
        simp [hhex, notMem_tableName]
      obtain ⟨-, -, hrest⟩ := (List.append_cons_inj_of_notMem (by decide) hw).mp hline.symm
      have hspace := notMem_hex (c := ' ') (by decide) (by decide) m
      obtain ⟨hhex, hname⟩ := append_cons_inj hspace (by decide) (List.append_cancel_left hrest)
      exact ⟨congrArg some (hex_eq_iff.mp hhex), b, (List.append_cancel_left hname).symm⟩
    · rintro ⟨hone, b, hb⟩
      cases hone
      refine ⟨"from all ".toList, b, ?_⟩
      rw [← hb]
      rfl

/-! ### The same installer on the commands -/

namespace Kernel

section
variable {i : LinuxInstaller} {sh : Shell} {host : Host} {k : Kernel}

/-- The shell that answers as the kernel does: when the local route is there and is not found, the command that adds it
    fails, which is the first call after the probe, or the second when the policy rule is added. -/
def shell (i : LinuxInstaller) (k : Kernel) : Shell where
  fails n := !contains (k.routeShow i.table) "local 0.0.0.0/0" && decide (localRoute i ∈ k.routes) &&
    n == if contains k.ruleShow ("fwmark " ++ hex i.mark ++ " lookup " ++ decimal i.table) then 2 else 3
  moduleNotFound := false
  ruleShow := some k.ruleShow
  routeShow := some (k.routeShow i.table)

/-- The local route is there, and the installer does not see it. -/
def Hidden (i : LinuxInstaller) (k : Kernel) : Prop :=
  contains (k.routeShow i.table) "local 0.0.0.0/0" = false ∧ localRoute i ∈ k.routes

theorem shell_fails_of_not_hidden (h : ¬k.Hidden i) (n : Nat) : (k.shell i).fails n = false := by
  by_cases hroute : localRoute i ∈ k.routes
  · have hshown : contains (k.routeShow i.table) "local 0.0.0.0/0" = true := by
      by_contra hnot
      exact h ⟨Bool.eq_false_iff.mpr hnot, hroute⟩
    simp [shell, hshown]
  · simp [shell, hroute]

theorem probeTPROXY_shell : probeTPROXY (k.shell i) ⟨k.prerouting, [], 0⟩ = (none, ⟨k.prerouting, [], 2⟩) := by
  have hfails : ∀ n < 2, (k.shell i).fails n = false := by
    intro n hn
    have hne : n ≠ if contains k.ruleShow ("fwmark " ++ hex i.mark ++ " lookup " ++ decimal i.table) then 2 else 3 := by
      split <;> omega
    simp [shell, beq_eq_false_iff_ne.mpr hne]
  simp [probeTPROXY, Shell.run, hfails]

theorem installIPRule_shell :
    ∃ host, i.installIPRule (k.shell i) ⟨k.prerouting, [], 2⟩ = (true, host) ∧ host.prerouting = k.prerouting ∧
      ((k.shell i).fails host.calls = true ↔ k.Hidden i) := by
  by_cases hrule : contains k.ruleShow ("fwmark " ++ hex i.mark ++ " lookup " ++ decimal i.table) = true
  · exact ⟨⟨k.prerouting, [], 2⟩, by simp [LinuxInstaller.installIPRule, shell, hrule], rfl, by simp [shell, hrule, Hidden]⟩
  · have hfails : (k.shell i).fails 2 = false := by simp [shell, hrule]
    refine ⟨⟨k.prerouting, [["rule", "add", "fwmark", hex i.mark, "lookup", decimal i.table]], 3⟩, ?_, rfl,
      by simp [shell, hrule, Hidden]⟩
    rw [LinuxInstaller.installIPRule]
    show (if contains k.ruleShow _ = true then _ else _) = _
    rw [if_neg hrule, Shell.run]
    simp [hfails]

theorem installLocalRoute_shell (hchain : host.prerouting = k.prerouting)
    (hfails : (k.shell i).fails host.calls = true ↔ k.Hidden i) :
    ∃ host', i.installLocalRoute (k.shell i) host = ((installLocalRoute i k).1, host') ∧ host'.prerouting = k.prerouting ∧
      ((installLocalRoute i k).1 = true → ¬k.Hidden i) := by
  have hrun : i.installLocalRoute (k.shell i) host =
      if contains (k.routeShow i.table) "local 0.0.0.0/0" = true then (true, host)
      else (k.shell i).run host (.ip ["route", "add", "local", "0.0.0.0/0", "dev", "lo", "table", decimal i.table]) := rfl
  rw [hrun]
  by_cases hshown : contains (k.routeShow i.table) "local 0.0.0.0/0" = true
  · have hhidden : ¬k.Hidden i := fun h => by simp [h.1] at hshown
    exact ⟨host, by simp [installLocalRoute, hshown], hchain, fun _ => hhidden⟩
  · rw [if_neg hshown, Shell.run]
    by_cases hroute : localRoute i ∈ k.routes
    · have hyes := hfails.mpr ⟨Bool.eq_false_iff.mpr hshown, hroute⟩
      exact ⟨{ host with calls := host.calls + 1 }, by simp [installLocalRoute, hshown, hroute, hyes], hchain,
        by simp [installLocalRoute, hshown, hroute]⟩
    · have hno := shell_fails_of_not_hidden (fun h => hroute h.2) host.calls
      exact ⟨⟨host.prerouting, _, host.calls + 1⟩, by simp [installLocalRoute, hshown, hroute, hno]; rfl, hchain,
        fun _ h => hroute h.2⟩

theorem installIPTables_shell (hfails : ∀ n, sh.fails n = false) (hchain : host.prerouting = k.prerouting) (port : Nat) :
    ∃ host', i.installIPTables sh host port = (true, host') ∧
      host'.prerouting = (installIPTables i port k).2.prerouting := by
  by_cases hmem : i.rule port ∈ k.prerouting
  · refine ⟨⟨k.prerouting, host.ip, host.calls + 1⟩, ?_, by simp [installIPTables, hmem]⟩
    simp [LinuxInstaller.installIPTables, Shell.run, hfails, hchain, hmem]
  · refine ⟨⟨k.prerouting ++ [i.rule port], host.ip, host.calls + 2⟩, ?_, by simp [installIPTables, hmem]⟩
    simp [LinuxInstaller.installIPTables, Shell.run, hfails, hchain, hmem]

theorem installIPRule_frame (i : LinuxInstaller) (k : Kernel) :
    ∃ k', installIPRule i k = (true, k') ∧ k'.routes = k.routes ∧ k'.prerouting = k.prerouting := by
  rw [installIPRule]
  split
  · exact ⟨k, rfl, rfl, rfl⟩
  · exact ⟨_, rfl, rfl, rfl⟩

theorem installLocalRoute_frame {k' : Kernel} (h : k'.routes = k.routes) :
    (installLocalRoute i k').1 = (installLocalRoute i k).1 ∧ (installLocalRoute i k').2.prerouting = k'.prerouting := by
  have hshow : k'.routeShow i.table = k.routeShow i.table := by rw [routeShow, routeShow, h]
  rw [installLocalRoute, installLocalRoute, hshow, h]
  by_cases hshown : contains (k.routeShow i.table) "local 0.0.0.0/0" = true
  · simp [hshown]
  · by_cases hroute : localRoute i ∈ k.routes <;> simp [hshown, hroute]

theorem installIPTables_ok (i : LinuxInstaller) (port : Nat) (k : Kernel) : ∃ k', installIPTables i port k = (true, k') := by
  rw [installIPTables]
  split <;> exact ⟨_, rfl⟩

/-- On this shell the installer does what it does on the kernel. -/
theorem install_shell (i : LinuxInstaller) (k : Kernel) :
    (i.install (k.shell i) ⟨k.prerouting, [], 0⟩).1 = (k.install i).1 ∧
      (i.install (k.shell i) ⟨k.prerouting, [], 0⟩).2.prerouting = (k.install i).2.prerouting := by
  obtain ⟨host₁, hrule, hchain₁, hfails⟩ := installIPRule_shell (i := i) (k := k)
  obtain ⟨host₂, hroute, hchain₂, hok⟩ := installLocalRoute_shell hchain₁ hfails
  obtain ⟨k₁, hk₁, hroutes, hprerouting⟩ := installIPRule_frame i k
  obtain ⟨hsame, hchain⟩ := installLocalRoute_frame (i := i) hroutes
  rw [hprerouting] at hchain
  rw [LinuxInstaller.install, probeTPROXY_shell, install, steps, runSteps, hk₁]
  simp only [hrule, hroute, runSteps]
  generalize installLocalRoute i k₁ = result at hsame hchain ⊢
  obtain ⟨ok, k₂⟩ := result
  rw [← hsame] at hok ⊢
  cases ok with
  | false => exact ⟨rfl, hchain₂.trans hchain.symm⟩
  | true =>
    have hno := shell_fails_of_not_hidden (hok rfl)
    obtain ⟨k₃, hk₃⟩ := installIPTables_ok i i.outPort k₂
    obtain ⟨k₄, hk₄⟩ := installIPTables_ok i i.inPort k₃
    obtain ⟨host₃, hout, hchain₃⟩ := installIPTables_shell (i := i) hno (hchain₂.trans hchain.symm) i.outPort
    rw [hk₃] at hchain₃
    obtain ⟨host₄, hin, hchain₄⟩ := installIPTables_shell (i := i) hno hchain₃ i.inPort
    rw [hk₄] at hchain₄
    simp only [hout, hin, hk₃, hk₄]
    exact ⟨trivial, hchain₄⟩

end

end Kernel

/-! ### One installer after another -/

def ownRule : PolicyRule := ⟨some tproxyMark, tproxyTable⟩

def ownRoute : Route := Kernel.localRoute newInstaller

namespace Kernel
variable {k : Kernel}

/-- A rule for the mark whose table number begins with the digits of the own one. -/
def Found (k : Kernel) : Prop :=
  ∃ r ∈ k.rules, r.mark = some tproxyMark ∧ (decimal tproxyTable).toList <+: (tableName r.table).toList

instance : Decidable k.Found :=
  inferInstanceAs (Decidable (∃ r ∈ k.rules, r.mark = some tproxyMark ∧
    (decimal tproxyTable).toList <+: (tableName r.table).toList))

/-- Nothing of the installer is there; the table holds no routes. -/
structure Clean (k : Kernel) : Prop where
  rules : ownRule ∉ k.rules
  routes : ∀ r ∈ k.routes, r.table ≠ tproxyTable
  outbound : newInstaller.rule outboundPort ∉ k.prerouting
  inbound : newInstaller.rule inboundPort ∉ k.prerouting

structure Installed (k : Kernel) : Prop where
  rules : k.rules.count ownRule = 1
  routes : k.routes.count ownRoute = 1
  outbound : k.prerouting.count (newInstaller.rule outboundPort) = 1
  inbound : k.prerouting.count (newInstaller.rule inboundPort) = 1

/-- What every run keeps. -/
structure AtMostOnce (k : Kernel) : Prop where
  rules : k.rules.count ownRule ≤ 1
  table : ∀ r ∈ k.routes, r.table = tproxyTable → r = ownRoute
  outbound : k.prerouting.count (newInstaller.rule outboundPort) ≤ 1
  inbound : k.prerouting.count (newInstaller.rule inboundPort) ≤ 1

theorem Clean.atMostOnce (h : k.Clean) : k.AtMostOnce where
  rules := by
    rw [List.count_eq_zero_of_not_mem h.rules]
    omega
  table r hr htable := absurd htable (h.routes r hr)
  outbound := by
    rw [List.count_eq_zero_of_not_mem h.outbound]
    omega
  inbound := by
    rw [List.count_eq_zero_of_not_mem h.inbound]
    omega

theorem contains_ruleShow_iff : contains k.ruleShow "fwmark 0x1 lookup 100" = true ↔ k.Found := by
  rw [ruleShow, contains_listing (by decide) (by decide)]
  simp only [List.mem_map, exists_exists_and_eq_and, infix_line_iff]
  rfl

theorem found_of_mem (h : ownRule ∈ k.rules) : k.Found := ⟨ownRule, h, rfl, by decide⟩

/-- The own route is not found in what is shown of its table. -/
theorem contains_routeShow (h : k.AtMostOnce) : contains (k.routeShow newInstaller.table) "local 0.0.0.0/0" = false := by
  rw [← Bool.not_eq_true, routeShow, contains_listing (by decide) (by decide)]
  rintro ⟨line, hline, hin⟩
  obtain ⟨r, hr, rfl⟩ := List.mem_map.mp hline
  rw [List.mem_filter, decide_eq_true_iff] at hr
  rw [h.table r hr.1 hr.2] at hin
  exact absurd hin (by decide)

theorem installIPRule_eq (k : Kernel) :
    installIPRule newInstaller k = (true, if k.Found then k else { k with rules := k.rules ++ [ownRule] }) := by
  have hiff := contains_ruleShow_iff (k := k)
  show (if contains k.ruleShow "fwmark 0x1 lookup 100" = true then _ else _) = _
  by_cases hfound : k.Found
  · rw [if_pos hfound, if_pos (hiff.mpr hfound)]
  · rw [if_neg hfound, if_neg (mt hiff.mp hfound)]
    rfl

theorem installLocalRoute_eq (h : k.AtMostOnce) :
    installLocalRoute newInstaller k =
      if ownRoute ∈ k.routes then (false, k) else (true, { k with routes := k.routes ++ [ownRoute] }) := by
  rw [installLocalRoute, if_neg (by rw [contains_routeShow h]; exact Bool.false_ne_true)]
  rfl

/-- A rule is appended unless it is there. -/
def appended (chain : List (List String)) (rule : List String) : List (List String) :=
  if chain.contains rule then chain else chain ++ [rule]

theorem count_appended_self {chain : List (List String)} {rule : List String} (h : chain.count rule ≤ 1) :
    (appended chain rule).count rule = 1 := by
  rw [appended]
  simp only [List.contains_iff_mem]
  split
  · rename_i hmem
    have := List.count_pos_iff.mpr hmem
    omega
  · rename_i hmem
    rw [List.count_append, List.count_eq_zero_of_not_mem hmem, List.count_singleton_self]

theorem count_appended_of_ne {chain : List (List String)} {rule other : List String} (h : rule ≠ other) :
    (appended chain rule).count other = chain.count other := by
  rw [appended]
  split
  · rfl
  · rw [List.count_append, List.count_eq_zero_of_not_mem (l := [rule]) (by simpa using h.symm), Nat.add_zero]

theorem outbound_ne_inbound : newInstaller.rule outboundPort ≠ newInstaller.rule inboundPort := by decide

theorem installIPTables_eq (port : Nat) (k : Kernel) :
    installIPTables newInstaller port k = (true, { k with prerouting := appended k.prerouting (newInstaller.rule port) }) := by
  rw [installIPTables, appended]
  split <;> rfl

theorem AtMostOnce.installIPRule (h : k.AtMostOnce) : (installIPRule newInstaller k).2.AtMostOnce := by
  rw [installIPRule_eq]
  show AtMostOnce (ite _ _ _)
  split
  · exact h
  · rename_i hfound
    refine ⟨?_, h.table, h.outbound, h.inbound⟩
    rw [List.count_append, List.count_eq_zero_of_not_mem fun hmem => hfound (found_of_mem hmem)]
    simp

theorem AtMostOnce.installLocalRoute (h : k.AtMostOnce) : (installLocalRoute newInstaller k).2.AtMostOnce := by
  rw [installLocalRoute_eq h]
  split
  · exact h
  · refine ⟨h.rules, fun r hr htable => ?_, h.outbound, h.inbound⟩
    obtain hr | hr := List.mem_append.mp hr
    · exact h.table r hr htable
    · exact List.mem_singleton.mp hr

theorem AtMostOnce.installOutbound (h : k.AtMostOnce) : (installIPTables newInstaller outboundPort k).2.AtMostOnce := by
  rw [installIPTables_eq]
  refine ⟨h.rules, h.table, (count_appended_self h.outbound).le, ?_⟩
  rw [count_appended_of_ne outbound_ne_inbound]
  exact h.inbound

theorem AtMostOnce.installInbound (h : k.AtMostOnce) : (installIPTables newInstaller inboundPort k).2.AtMostOnce := by
  rw [installIPTables_eq]
  refine ⟨h.rules, h.table, ?_, (count_appended_self h.inbound).le⟩
  rw [count_appended_of_ne outbound_ne_inbound.symm]
  exact h.outbound

/-- A run keeps what each of its steps keeps. -/
theorem runSteps_inv {I : Kernel → Prop} {steps : List (InstallError × (Kernel → Bool × Kernel))}
    (hsteps : ∀ step ∈ steps, ∀ k, I k → I (step.2 k).2) (h : I k) : I (runSteps steps k).2 := by
  induction steps generalizing k with
  | nil => exact h
  | cons step rest ih =>
    have hstep := hsteps step List.mem_cons_self k h
    rw [runSteps]
    split
    · rename_i k' heq
      rw [heq] at hstep
      exact hstep
    · rename_i k' heq
      rw [heq] at hstep
      exact ih (fun s hs => hsteps s (List.mem_cons_of_mem _ hs)) hstep

theorem AtMostOnce.step (h : k.AtMostOnce) {step : InstallError × (Kernel → Bool × Kernel)}
    (hstep : step ∈ steps newInstaller) : (step.2 k).2.AtMostOnce := by
  simp only [steps, List.mem_cons, List.not_mem_nil, or_false] at hstep
  obtain rfl | rfl | rfl | rfl := hstep
  · exact h.installIPRule
  · exact h.installLocalRoute
  · exact h.installOutbound
  · exact h.installInbound

theorem AtMostOnce.after (h : k.AtMostOnce) (runs : List Nat) : (k.after newInstaller runs).AtMostOnce :=
  execute_inv (fun _ _ hk => runSteps_inv (fun _ hstep _ hk => hk.step (List.mem_of_mem_take hstep)) hk) h runs

/-- The run that is not cut off. -/
theorem install_eq (h : k.AtMostOnce) :
    k.install newInstaller =
      if ownRoute ∈ k.routes then (some .localRoute, (Kernel.installIPRule newInstaller k).2)
      else (none, ⟨if k.Found then k.rules else k.rules ++ [ownRule], k.routes ++ [ownRoute],
        appended (appended k.prerouting (newInstaller.rule outboundPort)) (newInstaller.rule inboundPort)⟩) := by
  obtain ⟨k', hk', hrules, hroutes, hchain⟩ : ∃ k', Kernel.installIPRule newInstaller k = (true, k') ∧
      k'.rules = (if k.Found then k.rules else k.rules ++ [ownRule]) ∧ k'.routes = k.routes ∧
      k'.prerouting = k.prerouting := by
    refine ⟨_, installIPRule_eq k, ?_⟩
    split <;> exact ⟨rfl, rfl, rfl⟩
  have honce := h.installIPRule
  rw [hk'] at honce
  have hroute := installLocalRoute_eq honce
  rw [hroutes] at hroute
  rw [install, steps, runSteps, hk']
  simp only [runSteps, hroute]
  by_cases hmem : ownRoute ∈ k.routes
  · simp only [hmem, if_true]
  · simp only [hmem, if_false, installIPTables_eq, hrules, hchain]
    rfl

/-- The own rule is there, or the next run adds it. -/
def RuleDue (k : Kernel) : Prop := ownRule ∈ k.rules ∨ ¬k.Found

/-- A run that is not cut off, from a state that earlier runs have left. -/
theorem AtMostOnce.install_iff (h : k.AtMostOnce) :
    ((k.install newInstaller).1 = none ∧ (k.install newInstaller).2.Installed) ↔ ownRoute ∉ k.routes ∧ k.RuleDue := by
  rw [install_eq h]
  by_cases hroute : ownRoute ∈ k.routes
  · rw [if_pos hroute]
    exact iff_of_false (by simp) (by simp [hroute])
  · rw [if_neg hroute]
    simp only [true_and, hroute, not_false_eq_true]
    constructor
    · rintro ⟨hrules, -, -, -⟩
      by_cases hfound : k.Found
      · rw [if_pos hfound] at hrules
        have hone : k.rules.count ownRule = 1 := hrules
        exact .inl (List.count_pos_iff.mp (by omega))
      · exact .inr hfound
    · intro hdue
      refine ⟨?_, ?_, ?_, ?_⟩
      · show (ite _ _ _ : List PolicyRule).count ownRule = 1
        split
        · rename_i hfound
          have := List.count_pos_iff.mpr (hdue.resolve_right (not_not.mpr hfound))
          have := h.rules
          omega
        · rename_i hfound
          rw [List.count_append, List.count_eq_zero_of_not_mem fun hmem => hfound (found_of_mem hmem)]
          simp
      · show (k.routes ++ [ownRoute]).count ownRoute = 1
        rw [List.count_append, List.count_eq_zero_of_not_mem hroute]
        simp
      · show (appended (appended _ _) _).count _ = 1
        rw [count_appended_of_ne outbound_ne_inbound.symm]
        exact count_appended_self h.outbound
      · show (appended (appended _ _) _).count _ = 1
        refine count_appended_self ?_
        rw [count_appended_of_ne outbound_ne_inbound]
        exact h.inbound

/-! ### What the runs leave -/

theorem interrupted_succ (k : Kernel) (n : Nat) :
    k.interrupted newInstaller (n + 1) =
      (runSteps (((steps newInstaller).drop 1).take n) (Kernel.installIPRule newInstaller k).2).2 := by
  rw [interrupted, steps, List.take_succ_cons, runSteps, installIPRule_eq]
  rfl

theorem installIPRule_routes (k : Kernel) : (Kernel.installIPRule newInstaller k).2.routes = k.routes := by
  rw [Kernel.installIPRule]
  split <;> rfl

theorem installLocalRoute_rules (k : Kernel) : (Kernel.installLocalRoute newInstaller k).2.rules = k.rules := by
  rw [Kernel.installLocalRoute]
  split
  · rfl
  · split <;> rfl

theorem installIPTables_rest (port : Nat) (k : Kernel) :
    (installIPTables newInstaller port k).2.rules = k.rules ∧ (installIPTables newInstaller port k).2.routes = k.routes := by
  rw [installIPTables_eq]
  exact ⟨rfl, rfl⟩

/-- Only the first step changes the policy rules. -/
theorem interrupted_rules (k : Kernel) (n : Nat) :
    (k.interrupted newInstaller (n + 1)).rules = (Kernel.installIPRule newInstaller k).2.rules := by
  rw [interrupted_succ]
  refine runSteps_inv (I := fun k' => k'.rules = (Kernel.installIPRule newInstaller k).2.rules) ?_ rfl
  intro step hstep k' hk'
  rw [← hk']
  have hmem := List.mem_of_mem_take hstep
  simp only [steps, List.drop_succ_cons, List.drop_zero, List.mem_cons, List.not_mem_nil, or_false] at hmem
  obtain rfl | rfl | rfl := hmem
  · exact installLocalRoute_rules k'
  · exact (installIPTables_rest _ k').1
  · exact (installIPTables_rest _ k').1

theorem interrupted_ruleDue (k : Kernel) (n : Nat) : (k.interrupted newInstaller n).RuleDue ↔ k.RuleDue := by
  cases n with
  | zero => rfl
  | succ n =>
    have hrules := interrupted_rules k n
    rw [installIPRule_eq] at hrules
    by_cases hfound : k.Found
    · simp only [hfound, if_true] at hrules
      rw [RuleDue, RuleDue, Found, Found, hrules]
    · simp only [hfound, if_false] at hrules
      refine iff_of_true (.inl ?_) (.inr hfound)
      rw [hrules]
      simp

theorem interrupted_route (h : k.AtMostOnce) (n : Nat) :
    ownRoute ∈ (k.interrupted newInstaller n).routes ↔ ownRoute ∈ k.routes ∨ 2 ≤ n := by
  match n with
  | 0 => simp [interrupted, runSteps]
  | 1 =>
    rw [interrupted_succ, List.take_zero, runSteps, installIPRule_routes]
    simp
  | n + 2 =>
    refine iff_of_true ?_ (.inr (by omega))
    rw [interrupted_succ, steps, List.drop_succ_cons, List.drop_zero, List.take_succ_cons, runSteps,
      installLocalRoute_eq h.installIPRule]
    split
    · rename_i heq
      split at heq
      · rename_i hmem
        cases heq
        exact hmem
      · cases heq
    · rename_i k' heq
      have hmem : ownRoute ∈ k'.routes := by
        split at heq
        · cases heq
        · cases heq
          simp
      refine runSteps_inv (I := fun k' => ownRoute ∈ k'.routes) ?_ hmem
      intro step hstep k'' hk''
      have hrest := List.mem_of_mem_take hstep
      simp only [List.mem_cons, List.not_mem_nil, or_false] at hrest
      obtain rfl | rfl := hrest
      · exact (installIPTables_rest _ k'').2 ▸ hk''
      · exact (installIPTables_rest _ k'').2 ▸ hk''

theorem after_ruleDue (k : Kernel) (runs : List Nat) : (k.after newInstaller runs).RuleDue ↔ k.RuleDue := by
  induction runs generalizing k with
  | nil => rfl
  | cons n runs ih => exact (ih (k.interrupted newInstaller n)).trans (interrupted_ruleDue k n)

theorem after_route (h : k.AtMostOnce) (runs : List Nat) :
    ownRoute ∈ (k.after newInstaller runs).routes ↔ ownRoute ∈ k.routes ∨ ∃ n ∈ runs, 2 ≤ n := by
  induction runs generalizing k with
  | nil => simp [after]
  | cons n runs ih =>
    have hnext : (k.interrupted newInstaller n).AtMostOnce := h.after [n]
    show ownRoute ∈ ((k.interrupted newInstaller n).after newInstaller runs).routes ↔ _
    rw [ih hnext, interrupted_route h n]
    simp [or_assoc]

theorem install_again_iff {k : Kernel} (hclean : k.Clean) (runs : List Nat) :
    (((k.after newInstaller runs).install newInstaller).1 = none ∧
      ((k.after newInstaller runs).install newInstaller).2.Installed) ↔ (∀ n ∈ runs, n < 2) ∧ ¬k.Found := by
  have hroute : ownRoute ∉ k.routes := fun hmem => hclean.routes _ hmem rfl
  rw [(hclean.atMostOnce.after runs).install_iff, after_route hclean.atMostOnce, after_ruleDue, RuleDue]
  simp [hroute, hclean.rules]

def emptyKernel : Kernel := ⟨[], [], []⟩

theorem emptyKernel_clean : emptyKernel.Clean := ⟨by decide, by decide, by decide, by decide⟩

/-- After a run that was cut off behind the policy rule. -/
theorem install_again_after_rule :
    ((emptyKernel.after newInstaller [1]).install newInstaller).1 = none ∧
      ((emptyKernel.after newInstaller [1]).install newInstaller).2.Installed :=
  (install_again_iff emptyKernel_clean [1]).mpr ⟨by decide, by decide⟩

/-- The second of two runs fails; and a rule for another table keeps the own one from being added. -/
theorem second_install_fails :
    emptyKernel.Clean ∧ ((emptyKernel.after newInstaller [4]).install newInstaller).1 = some .localRoute ∧
    (⟨[⟨some 1, 1001⟩], [], []⟩ : Kernel).Clean ∧
    ((⟨[⟨some 1, 1001⟩], [], []⟩ : Kernel).install newInstaller).2.rules = [⟨some 1, 1001⟩] := by
  refine ⟨emptyKernel_clean, by decide +kernel, ⟨by decide, by decide, by decide, by decide⟩, by decide +kernel⟩

end Kernel

end Meridian.Tproxy
