import Mqvpn.Platform.KillSwitch
import Mqvpn.Platform.PfAnchor
import Mqvpn.Platform.Wfp

/-!
# One policy, three filters

Kill switches for the same server let out the same packets, if they could be set up: that of
Linux and that of macOS all of them, though their rules are in another order; that of Windows
those of a family which the tunnel carries, but for the port of the server, which it opens for
every protocol (`killswitches_agree`).
-/

namespace Mqvpn.Platform

open FirstMatch

variable {p : Platform} {env : Env}

/-! ## Linux -/

/-- What the kill switch that is set up now is for. -/
def switch (p : Platform) : Switch := ⟨p.serverAddr, p.serverPort, "lo", p.tunName, p.hasV6⟩

/-- The chains after a command that works. -/
def put (chain : Family → List Rule) (cmd : Command) : Family → List Rule :=
  Function.update chain cmd.tool
    (match cmd.op with
    | .insert => cmd.rule :: chain cmd.tool
    | .append => chain cmd.tool ++ [cmd.rule]
    | .delete => (chain cmd.tool).erase cmd.rule)

/-- The command adds a rule that can be added. -/
def Addable (cmd : Command) : Prop := cmd.op ≠ .delete ∧ cmd.rule.valid = true

theorem runIptablesCmd_of_ok (hok : ∀ cmd n, env.ok cmd n = true) {cmd : Command} (h : Addable cmd) (p : Platform) (n : Nat) :
    p.runIptablesCmd env cmd n = ({ p with chain := put p.chain cmd }, true) := by
  obtain ⟨tool, op, r⟩ := cmd
  obtain ⟨hop, hvalid⟩ := h
  rw [runIptablesCmd, if_pos (hok _ _), Command.apply, put]
  cases op with
  | insert => simp only [show r.valid = true from hvalid, if_true]
  | append => simp only [show r.valid = true from hvalid, if_true]
  | delete => exact absurd rfl hop

theorem runAll_of_ok (hok : ∀ cmd n, env.ok cmd n = true) {cmds : List Command} (h : ∀ cmd ∈ cmds, Addable cmd)
    (p : Platform) : runAll env cmds p = ({ p with chain := cmds.foldl put p.chain }, true) := by
  induction cmds generalizing p with
  | nil => rfl
  | cons cmd cmds ih =>
    obtain ⟨hcmd, hcmds⟩ := List.forall_mem_cons.1 h
    rw [runAll, runIptablesCmd_of_ok hok hcmd]
    exact ih hcmds _

/-- The rules of `setup_killswitch` for a tunnel with IPv6. -/
def rulesTunnel6 (p : Platform) : List Command :=
  if p.hasV6 then
    ⟨.v6, .insert, p.acceptOut p.tunName⟩ ::
      if p.serverAddr.family = .v6 then [] else [⟨.v6, .insert, p.acceptOut "lo"⟩, ⟨.v6, .append, p.dropAll⟩]
  else []

theorem setupTunnel6_of_ok (hok : ∀ cmd n, env.ok cmd n = true) (p : Platform) :
    p.setupTunnel6 env = { p with chain := p.rulesTunnel6.foldl put p.chain } := by
  have hop {op : Op} (h : op ≠ .delete) (r : Rule) (hr : r.valid = true) : Addable ⟨.v6, op, r⟩ := ⟨h, hr⟩
  rw [setupTunnel6, rulesTunnel6]
  by_cases hv6 : p.hasV6 = true
  · rw [if_pos hv6, if_pos hv6, runIptablesCmd_of_ok hok (hop (by decide) _ rfl)]
    dsimp only
    by_cases hserver : p.serverAddr.family = .v6
    · rw [if_pos hserver, if_pos hserver]
      rfl
    · rw [if_neg hserver, if_neg hserver, runIptablesCmd_of_ok hok (hop (by decide) _ rfl)]
      dsimp only
      rw [runIptablesCmd_of_ok hok (hop (by decide) _ rfl)]
      rfl
  · rw [if_neg hv6, if_neg hv6]
    rfl

/-- With commands that work, all the rules are added. -/
theorem setupKillswitch_of_ok (hok : ∀ cmd n, env.ok cmd n = true) (he : p.killswitchEnabled = true)
    (ha : p.killswitchActive = false) (hserver : p.serverIpStr = some p.serverAddr) :
    p.setupKillswitch env = ({ p with
      killswitchActive := true
      chain := (p.rules4 ++ p.rulesServer ++ p.rulesTunnel6).foldl put p.chain }, true) := by
  have hvalid : p.acceptServer.valid = true := by
    rw [acceptServer, hserver]
    rfl
  have hout (iface : String) : (p.acceptOut iface).valid = true := rfl
  have hdrop : p.dropAll.valid = true := rfl
  have hrules4 : ∀ cmd ∈ p.rules4, Addable cmd := by simp [rules4, Addable, hout, hdrop]
  have hrulesServer : ∀ cmd ∈ p.rulesServer, Addable cmd := by
    rw [rulesServer]
    split_ifs <;> simp [Addable, hvalid, hout, hdrop]
  rw [setupKillswitch, if_neg (by rw [he, ha]; simp), runAll_of_ok hok hrules4]
  dsimp only
  have hsame (chain : Family → List Rule) : rulesServer { p with chain } = p.rulesServer := rfl
  rw [hsame, runAll_of_ok hok hrulesServer]
  dsimp only
  rw [setupTunnel6_of_ok hok, List.foldl_append, List.foldl_append]
  rfl

/-- The rules before the last one of a family, which drops. -/
def passes (p : Platform) : Family → List Rule
  | .v4 => (if p.serverAddr.family = .v6 then [] else [p.acceptServer]) ++ [p.acceptOut "lo", p.acceptOut p.tunName]
  | .v6 =>
    if p.serverAddr.family = .v6 then
      (if p.hasV6 then [p.acceptOut p.tunName] else []) ++ [p.acceptOut "lo", p.acceptServer]
    else [p.acceptOut "lo", p.acceptOut p.tunName]

/-- Whatever their order, they are three. -/
theorem mem_passes {tool : Family} (h : p.switch.covers tool = true) (r : Rule) :
    r ∈ p.passes tool ↔ r = p.acceptOut "lo" ∨ (p.switch.carries tool = true ∧ r = p.acceptOut p.tunName) ∨
      (p.serverAddr.family = tool ∧ r = p.acceptServer) := by
  cases tool <;> cases hserver : p.serverAddr.family <;> cases hv6 : p.hasV6 <;>
    simp_all [passes, Switch.covers, Switch.carries, switch, or_assoc, or_comm, or_left_comm]

/-- The chains that the rules make up. -/
theorem foldl_put (p : Platform) (tool : Family) :
    (p.rules4 ++ p.rulesServer ++ p.rulesTunnel6).foldl put (fun _ => []) tool =
      if p.switch.covers tool then p.passes tool ++ [p.dropAll] else [] := by
  cases tool <;> cases hserver : p.serverAddr.family <;> cases hv6 : p.hasV6 <;>
    simp [rules4, rulesServer, rulesTunnel6, passes, put, Switch.covers, switch, hserver, hv6]

/-- After a set-up where nothing fails and there were no rules, what goes out is what the policy lets. -/
theorem verdict_setupKillswitch (hok : ∀ cmd n, env.ok cmd n = true) (he : p.killswitchEnabled = true)
    (ha : p.killswitchActive = false) (hserver : p.serverIpStr = some p.serverAddr) (hempty : p.chain = fun _ => [])
    (x : Packet) : (p.setupKillswitch env).1.verdict x = .accept ↔ p.switch.lets x = true := by
  rw [setupKillswitch_of_ok hok he ha hserver, Platform.verdict]
  dsimp only
  rw [hempty, foldl_put]
  cases hcovers : p.switch.covers x.dst.family with
  | false =>
    rw [if_neg Bool.false_ne_true, Switch.lets, hcovers]
    exact iff_of_true rfl rfl
  | true =>
    rw [if_pos rfl, Switch.lets_iff hcovers, verdict_append_cons_eq_iff]
    · simp only [mem_passes hcovers, or_and_right, exists_or, and_assoc, exists_eq_left, exists_and_left]
      have hout (iface : String) : (p.acceptOut iface).hits x = true ↔ x.iface = iface := decide_eq_true_iff
      have hto : p.acceptServer.hits x = true ↔ p.switch.toServer x = true := by
        rw [acceptServer, hserver, Switch.toServer_iff]
        exact decide_eq_true_iff
      have hfamily : p.switch.toServer x = true → p.serverAddr.family = x.dst.family := fun h =>
        congrArg Addr.family (Switch.toServer_iff.1 h).2.1.symm
      rw [hout, hout, hto, and_iff_right_of_imp hfamily, and_comm (b := x.iface = p.tunName)]
      rfl
    · intro r hr
      rcases (mem_passes hcovers r).1 hr with rfl | ⟨-, rfl⟩ | ⟨-, rfl⟩ <;> rfl
    · rfl
    · exact fun heq => by cases heq

/-! ## The three of them -/

theorem Target.eq_of_accept_iff {t t' : Target} (h : t = .accept ↔ t' = .accept) : t = t' := by
  cases t <;> cases t' <;> simp_all

namespace Switch

variable {k k' : Switch} {x y : Packet}

/-- A packet and its counterpart on another platform. -/
structure Counterpart (k k' : Switch) (x y : Packet) : Prop where
  dst : y.dst = x.dst
  udp : y.udp = x.udp
  dport : y.dport = x.dport
  lo : y.iface = k'.lo ↔ x.iface = k.lo
  tun : y.iface = k'.tun ↔ x.iface = k.tun

theorem lets_congr (h : Counterpart k k' x y) (hs : k'.server = k.server) (hp : k'.port = k.port)
    (h6 : k'.hasV6 = k.hasV6) : k'.lets y = k.lets x := by
  rw [Bool.eq_iff_iff]
  simp only [lets, covers, carries, toServer, hs, hp, h6, h.dst, h.udp, h.dport, Bool.or_eq_true, Bool.and_eq_true,
    Bool.not_eq_true', decide_eq_true_eq, h.lo, h.tun]

/-- Where the tunnel carries the family, the two policies differ about the port of the server only. -/
theorem letsWfp_congr (h : Counterpart k k' x y) (hs : k'.server = k.server) (hp : k'.port = k.port)
    (hcarries : k.carries x.dst.family = true) (hudp : x.dst = k.server → x.dport = k.port → x.udp = true) :
    k'.letsWfp y = k.lets x := by
  have hcovers : k.covers x.dst.family = true := by
    rw [carries, decide_eq_true_eq] at hcarries
    rw [covers, decide_eq_true_eq]
    exact hcarries.imp_right .inr
  rw [Bool.eq_iff_iff, letsWfp_iff, lets_iff hcovers, toServer_iff, hs, hp, h.dst, h.dport, h.lo, h.tun,
    and_iff_left hcarries]
  refine or_congr_right (or_congr_right ⟨fun hto => ⟨hudp hto.1 hto.2, hto⟩, And.right⟩)

end Switch

theorem killswitches_agree
    -- Linux, with chains that were empty
    {p : Platform} {env : Env} (hp : p.killswitchEnabled = true) (hp' : p.killswitchActive = false)
    (hempty : p.chain = fun _ => []) (hserver : p.serverIpStr = some p.serverAddr) (hok : ∀ cmd n, env.ok cmd n = true)
    -- macOS
    {m m' : DarwinPlatform} {ntop : Addr → List Char} {pfEnv : PfEnv} {pf pf' : Pf} (hm : m.killswitchEnabled = true)
    (hm' : m.killswitchActive = false) (hresolved : m.Resolved)
    (hpf : m.setupKillswitch ntop pfEnv pf = ((m', pf'), true))
    -- Windows, with no sublayer that stayed behind
    {w w' : WinPlatform} {wfpEnv : WfpEnv} {wfp : Wfp} (hw : w.killswitchEnabled = true)
    (hw' : w.killswitchActive = false) (hwfp : w.winSetupKillswitch wfpEnv [] = ((w', wfp), true))
    -- the same server
    (hserverM : m.serverAddr = p.serverAddr) (hserverW : w.serverAddr = p.serverAddr)
    (hportM : m.serverPort = p.serverPort) (hportW : w.serverPort = p.serverPort) (hv6 : m.hasV6 = p.hasV6)
    {x y z : Packet} (hy : Switch.Counterpart p.switch m.switch x y) (hz : Switch.Counterpart p.switch w.switch x z) :
    pf'.verdict y = (p.setupKillswitch env).1.verdict x ∧
      (p.switch.carries x.dst.family = true → (x.dst = p.serverAddr → x.dport = p.serverPort → x.udp = true) →
        wfp.verdict z = (p.setupKillswitch env).1.verdict x) := by
  have hlinux := verdict_setupKillswitch hok hp hp' hserver hempty x
  have hdarwin := DarwinPlatform.verdict_pfRules hresolved (DarwinPlatform.anchor_setupKillswitch hm hm' hpf) y
  refine ⟨Target.eq_of_accept_iff ?_, fun hcarries hudp => Target.eq_of_accept_iff ?_⟩
  · rw [hdarwin, hlinux, Switch.lets_congr hy hserverM hportM hv6]
  · rw [WinPlatform.wfp_winSetupKillswitch hw hw' hwfp, hlinux, ← Switch.letsWfp_congr hz hserverW hportW hcarries hudp,
      ← WinPlatform.arbitrate_filters, Wfp.verdict]
    simp

/-- A datagram to the server, which all of them let out. -/
theorem killswitches_agree_server :
    let p : Platform :=
      { killswitchEnabled := true, noRoutes := false, serverAddr := ⟨.v4, [192, 0, 2, 1]⟩, serverPort := 443, pid := 7
        tunName := "mqvpn0", serverIpStr := some ⟨.v4, [192, 0, 2, 1]⟩ }
    let m : DarwinPlatform := { DarwinPlatform.init true true ⟨.v4, [192, 0, 2, 1]⟩ 443 with tunName := "utun4" }
    let w : WinPlatform :=
      { killswitchEnabled := true, serverAddr := ⟨.v4, [192, 0, 2, 1]⟩, serverPort := 443, luid := "Wintun" }
    let pfEnv : PfEnv := { enable := .ok "5".toList "Token : 5\n".toList }
    let packet : String → Packet := fun iface => ⟨iface, ⟨.v4, [192, 0, 2, 1]⟩, true, 443⟩
    (m.setupKillswitch (fun _ => "192.0.2.1".toList) pfEnv {}).1.2.verdict (packet "en0") =
        (p.setupKillswitch {}).1.verdict (packet "eth0") ∧
      (w.winSetupKillswitch { key := 1 } []).1.2.verdict (packet "Ethernet") =
        (p.setupKillswitch {}).1.verdict (packet "eth0") := by
  intro p m w pfEnv packet
  have hpf : m.setupKillswitch (fun _ => "192.0.2.1".toList) pfEnv {} =
      (((m.setupKillswitch (fun _ => "192.0.2.1".toList) pfEnv {}).1.1,
        (m.setupKillswitch (fun _ => "192.0.2.1".toList) pfEnv {}).1.2), true) :=
    Prod.ext rfl (by decide +kernel)
  have hwfp : w.winSetupKillswitch { key := 1 } [] =
      (((w.winSetupKillswitch { key := 1 } []).1.1, (w.winSetupKillswitch { key := 1 } []).1.2), true) := rfl
  have hy : Switch.Counterpart p.switch m.switch (packet "eth0") (packet "en0") :=
    ⟨rfl, rfl, rfl, by decide, by decide⟩
  have hz : Switch.Counterpart p.switch w.switch (packet "eth0") (packet "Ethernet") :=
    ⟨rfl, rfl, rfl, by decide, by decide⟩
  have hlinux : ∀ cmd n, ({} : Env).ok cmd n = true := fun _ _ => rfl
  have hresolved : m.Resolved := rfl
  have hserver : p.serverIpStr = some p.serverAddr := rfl
  have h := killswitches_agree rfl rfl rfl hserver hlinux rfl rfl hresolved hpf rfl rfl hwfp rfl rfl rfl rfl rfl hy hz
  exact ⟨h.1, h.2 rfl fun _ _ => rfl⟩

end Mqvpn.Platform
