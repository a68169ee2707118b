import Mqvpn.Client.Model
import Mqvpn.Lib.FirstMatch

/-!
# The Linux platform and its kill switch

The callbacks with which the Linux platform serves the client, as far as they are
about the kill switch: the rules that it adds to the OUTPUT chains of iptables and
ip6tables, and the packets that these chains let out.

A `Callback` is an output of the client with what the callback meets while it runs:
the devices, routes and events that it sets up, and the commands that it runs, may
all fail. Routes and DNS are left out but for whether they could be set up.
-/

namespace Mqvpn.Platform

/-! ## Rules -/

/-- An address family, and the tool for its chains: iptables or ip6tables. -/
inductive Family
  | v4
  | v6
  deriving DecidableEq

/-- An IP address. -/
structure Addr where
  family : Family
  ip : Reorder.Bytes
  deriving DecidableEq

/-- What the filter sees of an outgoing packet; `udp` is whether it is a UDP
    datagram, and `dport` then its port. -/
structure Packet where
  iface : String
  dst : Addr
  udp : Bool
  dport : Nat

/-- What a rule matches. -/
inductive Matching
  | all
  /-- `-o iface` -/
  | out (iface : String)
  /-- `-p udp -d addr --dport port`, with the prefix length of a host. Without an
      address, the command that has it is refused. -/
  | udpTo (addr : Option Addr) (port : Nat)
  deriving DecidableEq

inductive Target
  | accept
  | drop
  deriving DecidableEq

/-- A rule; its comment `mqvpn-ks:<pid>` is given by the process id. -/
structure Rule where
  matching : Matching
  target : Target
  pid : Nat
  deriving DecidableEq

/-- The rule matches the packet. -/
def Rule.hits (r : Rule) (x : Packet) : Bool :=
  match r.matching with
  | .all => true
  | .out iface => x.iface = iface
  | .udpTo (some addr) port => x.udp ∧ x.dst = addr ∧ x.dport = port
  | .udpTo none _ => false

/-! ## Commands -/

/-- `-I`, `-A` and `-D` -/
inductive Op
  | insert
  | append
  | delete
  deriving DecidableEq

/-- A call of iptables or ip6tables on the OUTPUT chain. -/
structure Command where
  tool : Family
  op : Op
  rule : Rule
  deriving DecidableEq

/-- What a callback meets. -/
structure Env where
  /-- Whether a command works, where it can, given how often it was already run in the
      callback. -/
  ok : Command → Nat → Bool := fun _ _ => true
  /-- `mqvpn_tun_create`: the name of the device. -/
  tunCreate : Option String := some "mqvpn0"
  /-- The device gets its address and MTU, and is up. -/
  tunConfigured : Bool := true
  /-- `setup_routes` succeeds. -/
  routes : Bool := true
  /-- There is an event for the device. -/
  eventNew : Bool := true
  /-- `mqvpn_resolve_host`: the address of the server. -/
  resolved : Option Addr := none

/-- The part of `mqvpn_client_cfg_t` that matters. -/
structure Config where
  killSwitch : Bool := true
  noRoutes : Bool := false
  tunName : Option String := none
  serverAddr : Addr
  serverPort : Nat
  pid : Nat

end Platform

open Platform Client

/-- `platform_ctx_t`, with the OUTPUT chains. The field `ready` is kept for the
    statements. -/
structure Platform where
  killswitchEnabled : Bool
  noRoutes : Bool
  serverAddr : Addr
  serverPort : Nat
  pid : Nat
  tunName : String
  killswitchActive : Bool := false
  hasV6 : Bool := false
  /-- `server_ip_str`; only `setup_routes` writes it. -/
  serverIpStr : Option Addr := none
  chain : Family → List Rule := fun _ => []
  /-- A `cb_tunnel_config_ready` has succeeded. -/
  ready : Bool := false

namespace Platform

/-- The rule can be added. -/
def Rule.valid (r : Rule) : Bool :=
  match r.matching with
  | .udpTo none _ => false
  | .all | .out _ | .udpTo (some _) _ => true

/-- The chain after a command; nothing if the command fails. -/
def Command.apply (cmd : Command) (chain : List Rule) : Option (List Rule) :=
  match cmd.op with
  | .insert => if cmd.rule.valid then some (cmd.rule :: chain) else none
  | .append => if cmd.rule.valid then some (chain ++ [cmd.rule]) else none
  | .delete => if cmd.rule ∈ chain then some (chain.erase cmd.rule) else none

/-- `run_iptables_cmd`, for the command that was run `n` times before. -/
def runIptablesCmd (p : Platform) (env : Env) (cmd : Command) (n : Nat) : Platform × Bool :=
  if env.ok cmd n then
    match cmd.apply (p.chain cmd.tool) with
    | some chain => ({ p with chain := Function.update p.chain cmd.tool chain }, true)
    | none => (p, false)
  else (p, false)

/-- Commands one after the other, up to the first that fails. -/
def runAll (env : Env) : List Command → Platform → Platform × Bool
  | [], p => (p, true)
  | cmd :: cmds, p =>
    match p.runIptablesCmd env cmd 0 with
    | (p, true) => runAll env cmds p
    | (p, false) => (p, false)

/-- A loop that runs a command until it fails. -/
def runLoop (env : Env) (cmd : Command) : (rounds : Nat) → (n : Nat) → Platform → Platform
  | 0, _, p => p
  | rounds + 1, n, p =>
    match p.runIptablesCmd env cmd n with
    | (p, true) => runLoop env cmd rounds (n + 1) p
    | (p, false) => p

/-- Delete a rule until there is none left. -/
def deleteAll (p : Platform) (env : Env) (tool : Family) (rule : Rule) : Platform :=
  runLoop env ⟨tool, .delete, rule⟩ (p.chain tool).length 0 p

/-! ## The kill switch -/

variable (p : Platform)

/-- The packets that go out on an interface. -/
def acceptOut (iface : String) : Rule := ⟨.out iface, .accept, p.pid⟩

/-- The datagrams to the server. -/
def acceptServer : Rule := ⟨.udpTo p.serverIpStr p.serverPort, .accept, p.pid⟩

def dropAll : Rule := ⟨.all, .drop, p.pid⟩

/-- `cleanup_killswitch` -/
def cleanupKillswitch (env : Env) : Platform :=
  if p.killswitchActive = false then p
  else
    let tun := p.acceptOut p.tunName
    let lo := p.acceptOut "lo"
    let server := p.acceptServer
    let drop := p.dropAll
    let isV6 := p.serverAddr.family = .v6
    let p := ((p.deleteAll env .v4 tun).deleteAll env .v4 lo).deleteAll env .v4 drop
    let p :=
      if isV6 then ((p.deleteAll env .v6 server).deleteAll env .v6 lo).deleteAll env .v6 drop
      else p.deleteAll env .v4 server
    let p := p.deleteAll env .v6 tun
    let p := if isV6 then p else (p.deleteAll env .v6 lo).deleteAll env .v6 drop
    { p with killswitchActive := false }

/-- The IPv4 rules of `setup_killswitch`. -/
def rules4 : List Command :=
  [⟨.v4, .insert, p.acceptOut p.tunName⟩, ⟨.v4, .insert, p.acceptOut "lo"⟩, ⟨.v4, .append, p.dropAll⟩]

/-- The rules of `setup_killswitch` for the server. -/
def rulesServer : List Command :=
  if p.serverAddr.family = .v6 then
    [⟨.v6, .insert, p.acceptServer⟩, ⟨.v6, .insert, p.acceptOut "lo"⟩, ⟨.v6, .append, p.dropAll⟩]
  else [⟨.v4, .insert, p.acceptServer⟩]

/-- The rules of `setup_killswitch` for a tunnel with IPv6; the results of the
    commands are not looked at. -/
def setupTunnel6 (env : Env) : Platform :=
  if p.hasV6 then
    let p := (p.runIptablesCmd env ⟨.v6, .insert, p.acceptOut p.tunName⟩ 0).1
    if p.serverAddr.family = .v6 then p
    else
      let p := (p.runIptablesCmd env ⟨.v6, .insert, p.acceptOut "lo"⟩ 0).1
      (p.runIptablesCmd env ⟨.v6, .append, p.dropAll⟩ 0).1
  else p

/-- `setup_killswitch`, and whether it succeeds. -/
def setupKillswitch (env : Env) : Platform × Bool :=
  if p.killswitchEnabled = false ∨ p.killswitchActive then (p, true)
  else
    match runAll env p.rules4 p with
    | (p, false) => ({ p with killswitchActive := true }.cleanupKillswitch env, false)
    | (p, true) =>
      match runAll env p.rulesServer { p with killswitchActive := true } with
      | (p, false) => (p.cleanupKillswitch env, false)
      | (p, true) => (p.setupTunnel6 env, true)

/-! ## Callbacks -/

/-- `setup_routes`: the server's address as a text, and whether the routes could be
    set up. -/
def setupRoutes (env : Env) : Platform × Bool := ({ p with serverIpStr := some p.serverAddr }, env.routes)

/-- `cb_tunnel_config_ready`, and whether it succeeds. Where it fails, it also
    disconnects the client. -/
def cbTunnelConfigReady (env : Env) (info : TunnelInfo) : Platform × Bool :=
  match env.tunCreate with
  | none => ({ p with tunName := "" }.cleanupKillswitch env, false)
  | some tunName =>
    let p := { p with tunName }
    if env.tunConfigured = false then (p.cleanupKillswitch env, false)
    else
      let p := { p with hasV6 := p.hasV6 || info.assigned6.isSome }
      match if p.noRoutes then (p, true) else p.setupRoutes env with
      | (p, false) => (p.cleanupKillswitch env, false)
      | (p, true) =>
        match p.setupKillswitch env with
        | (p, false) => (p.cleanupKillswitch env, false)
        | (p, true) =>
          if env.eventNew then ({ p with ready := true }, true) else (p.cleanupKillswitch env, false)

/-- `cb_state_changed` -/
def cbStateChanged (env : Env) (new : State) : Platform :=
  if new = .reconnecting ∨ new = .closed then p.cleanupKillswitch env else p

/-- `cb_reconnect_scheduled`: the server's name is resolved again. -/
def cbReconnectScheduled (env : Env) : Platform :=
  match env.resolved with
  | none => p
  | some serverAddr => { p with serverAddr }

/-- An output of the client, and what its callback meets. -/
structure Callback where
  output : Output
  env : Env := {}

def step (cb : Callback) : Platform :=
  match cb.output with
  | .tunnelConfigReady info => (p.cbTunnelConfigReady cb.env info).1
  | .stateChanged _ new => p.cbStateChanged cb.env new
  | .reconnectScheduled _ => p.cbReconnectScheduled cb.env
  | .tunnelClosed | .readyForTun | .mtuUpdated _ => p

def run (cbs : List Callback) : Platform := cbs.foldl step p

/-- The start of `linux_platform_run_client`. -/
def init (cfg : Config) : Platform where
  killswitchEnabled := cfg.killSwitch
  noRoutes := cfg.noRoutes
  serverAddr := cfg.serverAddr
  serverPort := cfg.serverPort
  pid := cfg.pid
  tunName := cfg.tunName.getD ""

/-! ## Packets -/

/-- What the chain of its family does to an outgoing packet. -/
def verdict (x : Packet) : Target :=
  FirstMatch.verdict Rule.hits Rule.target .accept (p.chain x.dst.family) x

/-- The packets that the kill switch lets out: those on the loopback and the tunnel
    device, and the datagrams to the server. -/
def Allowed (x : Packet) : Prop :=
  x.iface = "lo" ∨ x.iface = p.tunName ∨ (x.udp = true ∧ x.dst = p.serverAddr ∧ x.dport = p.serverPort)

instance (x : Packet) : Decidable (p.Allowed x) := inferInstanceAs (Decidable (_ ∨ _))

/-- All other packets are dropped. -/
def Blocks : Prop := ∀ x, ¬p.Allowed x → p.verdict x = .drop

end Platform

end Mqvpn
