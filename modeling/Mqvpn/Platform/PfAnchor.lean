import Mqvpn.Platform.Policy
import Mqvpn.Lib.Runs

/-!
# The kill switch of macOS

The twin of the iptables rules: an anchor of pf, which is loaded as a whole and outlives the
process. pf filters as long as somebody holds a reference to it; `pfctl -E` takes one and
prints a token, with which `pfctl -X` gives it back. Any command may fail, and a load that is
reported as failed may have loaded anything.

A computer runs at most one process at a time, for the instance lock. What is proved of all
its runs (`guarded_run`):

* from a set-up of the kill switch to its clean-up, and beyond it if the process crashes,
  a packet goes out exactly if the policy of that set-up lets it;
* at all other times the anchor is empty, if it could be flushed whenever it was to be;
* the references of processes that crashed are never given back, and all others are, if the
  tokens could be read off the output.
-/

namespace Mqvpn

open Platform Client

namespace Pf

/-- `pass out quick` or `block drop out quick`, for one family. -/
structure Rule where
  family : Family
  matching : Matching
  target : Target
  deriving DecidableEq

/-- A rule for the port of the server that names no host matches any. -/
def Rule.hits (r : Rule) (x : Packet) : Bool :=
  r.family = x.dst.family &&
    match r.matching with
    | .all => true
    | .out iface => x.iface = iface
    | .udpTo (some addr) port => x.udp && x.dst = addr && x.dport = port
    | .udpTo none port => x.udp && x.dport = port

/-- A line of the anchor; `ntop` is how an address is written. -/
def Rule.text (ntop : Addr → List Char) (r : Rule) : List Char :=
  let family := match r.family with | .v4 => "inet".toList | .v6 => "inet6".toList
  let verb := match r.target with | .accept => "pass out quick ".toList | .drop => "block drop out quick ".toList
  let rest :=
    match r.matching with
    | .all => family
    | .out iface => "on ".toList ++ iface.toList ++ " ".toList ++ family
    | .udpTo addr port =>
      family ++ " proto udp to ".toList ++ (addr.map ntop).getD [] ++ " port = ".toList ++ Nat.toDigits 10 port
  verb ++ rest ++ "\n".toList

end Pf

/-- What pf has of mqvpn: the rules of the anchor, and the tokens of the references. -/
structure Pf where
  anchor : List Pf.Rule := []
  refs : List (List Char) := []

/-- What the anchor does to an outgoing packet, while pf is enabled. -/
def Pf.verdict (pf : Pf) (x : Packet) : Target := FirstMatch.verdict Rule.hits Rule.target .accept pf.anchor x

/-- `pfctl -f -`; where it fails, the anchor is what it was, or anything. -/
inductive Pf.Load
  | ok
  | error (left : Option (List Pf.Rule))

/-- `pfctl -E`: a reference is taken, and its token printed somewhere in the output; or it fails,
    with or without a reference. -/
inductive Pf.Enable
  | ok (token output : List Char)
  | error (token : Option (List Char))

/-- What a callback meets, the commands that it runs included. -/
structure PfEnv where
  tunCreate : Option String := some "utun4"
  tunConfigured : Bool := true
  routes : Bool := true
  eventNew : Bool := true
  load : Pf.Load := .ok
  enable : Pf.Enable
  flush : Bool := true
  release : Bool := true

/-- The part of `platform_ctx_t` that matters. -/
structure DarwinPlatform where
  killswitchEnabled : Bool
  manageRoutes : Bool
  serverAddr : Addr
  serverPort : Nat
  /-- `server_ip_str` -/
  serverIpStr : Option Addr := none
  tunName : String := ""
  hasV6 : Bool := false
  killswitchActive : Bool := false
  ksPfToken : List Char := []

namespace DarwinPlatform

variable (p : DarwinPlatform)

/-! ## The rules -/

/-- The lines of `build_pf_rules`. -/
def pfRules : List Pf.Rule :=
  let isV6 := p.serverAddr.family = .v6
  [⟨.v4, .out "lo0", .accept⟩, ⟨.v4, .out p.tunName, .accept⟩] ++
    (if isV6 then [] else [⟨.v4, .udpTo p.serverIpStr p.serverPort, .accept⟩]) ++
    [⟨.v4, .all, .drop⟩] ++
    if isV6 ∨ p.hasV6 then
      [⟨.v6, .out "lo0", .accept⟩] ++ (if p.hasV6 then [⟨.v6, .out p.tunName, .accept⟩] else []) ++
        (if isV6 then [⟨.v6, .udpTo p.serverIpStr p.serverPort, .accept⟩] else []) ++ [⟨.v6, .all, .drop⟩]
    else []

/-- `APPEND`, for all the lines: one that does not fit with the terminator makes it fail. -/
def append (buflen : Nat) : List (List Char) → List Char → Option (List Char)
  | [], buf => some buf
  | line :: lines, buf => if line.length < buflen - buf.length then append buflen lines (buf ++ line) else none

/-- `build_pf_rules`, with the rules that its text stands for -/
def buildPfRules (ntop : Addr → List Char) : Option (List Pf.Rule) :=
  if p.serverIpStr = none then none
  else (append 1024 (p.pfRules.map (Pf.Rule.text ntop)) []).map fun _ => p.pfRules

/-! ## The commands -/

/-- `strstr`, with what is behind it -/
def afterToken (label : List Char) : List Char → Option (List Char)
  | [] => if label = [] then some [] else none
  | c :: cs => if label.isPrefixOf (c :: cs) then some ((c :: cs).drop label.length) else afterToken label cs

/-- The token in the output: its digits, unless there are too many for the buffer. -/
def parseToken (cap : List Char) : List Char :=
  match afterToken "Token : ".toList cap with
  | none => []
  | some tok =>
    let digits := tok.takeWhile Char.isDigit
    if digits.length ≤ 23 then digits else []

/-- `pfctl -F all` -/
def flush (ok : Bool) (pf : Pf) : Pf := if ok then { pf with anchor := [] } else pf

/-- `pfctl -X`, of a token that was read -/
def release (ok : Bool) (token : List Char) (pf : Pf) : Pf :=
  if token ≠ [] ∧ ok then { pf with refs := pf.refs.erase token } else pf

@[simp] theorem anchor_release (ok : Bool) (token : List Char) (pf : Pf) : (release ok token pf).anchor = pf.anchor := by
  rw [release]
  split_ifs <;> rfl

@[simp] theorem refs_flush (ok : Bool) (pf : Pf) : (flush ok pf).refs = pf.refs := by
  rw [flush]
  split_ifs <;> rfl

theorem refs_release {token : List Char} (h : token ≠ []) (pf : Pf) :
    (release true token pf).refs = pf.refs.erase token := by
  rw [release, if_pos ⟨h, rfl⟩]

theorem release_nil (ok : Bool) (pf : Pf) : release ok [] pf = pf :=
  if_neg fun h => h.1 rfl

/-- `cleanup_killswitch` -/
def cleanupKillswitch (env : PfEnv) (pf : Pf) : DarwinPlatform × Pf :=
  if p.killswitchActive = false then (p, pf)
  else ({ p with killswitchActive := false, ksPfToken := [] }, release env.release p.ksPfToken (flush env.flush pf))

/-- `setup_killswitch`, and whether it succeeds -/
def setupKillswitch (ntop : Addr → List Char) (env : PfEnv) (pf : Pf) : (DarwinPlatform × Pf) × Bool :=
  if p.killswitchEnabled = false ∨ p.killswitchActive then ((p, pf), true)
  else
    match p.buildPfRules ntop with
    | none => ((p, pf), false)
    | some rules =>
      let p := { p with ksPfToken := [] }
      match env.load, env.enable with
      | .error left, _ =>
        ({ p with killswitchActive := true }.cleanupKillswitch env { pf with anchor := left.getD pf.anchor }, false)
      | .ok, .error token =>
        let pf := { anchor := rules, refs := token.toList ++ pf.refs }
        ({ p with killswitchActive := true }.cleanupKillswitch env pf, false)
      | .ok, .ok token output =>
        let ksPfToken := parseToken (output.take 255)
        (({ p with ksPfToken, killswitchActive := true }, { anchor := rules, refs := token :: pf.refs }), true)

/-! ## Callbacks -/

/-- `cb_tunnel_config_ready`, as far as it is about the kill switch -/
def cbTunnelConfigReady (ntop : Addr → List Char) (env : PfEnv) (info : TunnelInfo) (pf : Pf) : DarwinPlatform × Pf :=
  match env.tunCreate with
  | none => p.cleanupKillswitch env pf
  | some tunName =>
    let p := { p with tunName }
    if env.tunConfigured = false then p.cleanupKillswitch env pf
    else
      let p := { p with hasV6 := p.hasV6 || info.assigned6.isSome }
      if p.manageRoutes ∧ env.routes = false then p.cleanupKillswitch env pf
      else
        match p.setupKillswitch ntop env pf with
        | ((p, pf), false) => p.cleanupKillswitch env pf
        | ((p, pf), true) => if env.eventNew then (p, pf) else p.cleanupKillswitch env pf

/-- `cb_state_changed` -/
def cbStateChanged (env : PfEnv) (new : State) (pf : Pf) : DarwinPlatform × Pf :=
  if new = .reconnecting ∨ new = .closed then p.cleanupKillswitch env pf else (p, pf)

/-- The callback of an output of the client. -/
def callback (ntop : Addr → List Char) (env : PfEnv) (output : Output) (pf : Pf) : DarwinPlatform × Pf :=
  match output with
  | .tunnelConfigReady info => p.cbTunnelConfigReady ntop env info pf
  | .stateChanged _ new => p.cbStateChanged env new pf
  | .reconnectScheduled _ | .tunnelClosed | .readyForTun | .mtuUpdated _ => (p, pf)

/-- The start of `darwin_platform_run_client`: the address is written as soon as it is known. -/
def init (killSwitch manageRoutes : Bool) (serverAddr : Addr) (serverPort : Nat) : DarwinPlatform where
  killswitchEnabled := killSwitch
  manageRoutes
  serverAddr
  serverPort
  serverIpStr := some serverAddr

/-- What the kill switch that is set up now is for. -/
def switch : Switch := ⟨p.serverAddr, p.serverPort, "lo0", p.tunName, p.hasV6⟩

end DarwinPlatform

/-! ## The computer -/

/-- The process that holds the instance lock, and pf. Two fields are kept for the statements:
    the policy since a set-up that succeeded, and the references of processes that crashed. -/
structure Mac where
  process : Option DarwinPlatform := none
  pf : Pf := {}
  guard : Option Switch := none
  leaked : List (List Char) := []

namespace Mac

open DarwinPlatform

inductive Event
  /-- `darwin_platform_run_client`, with the flush of the anchor; `resolved` is the server's address. -/
  | start (flushed killSwitch manageRoutes : Bool) (resolved : Option Addr) (port : Nat)
  | callback (output : Output) (env : PfEnv)
  /-- The clean-up at the end of `darwin_platform_run_client`. -/
  | exit (env : PfEnv)
  | crash

/-- The policy after a callback: a set-up brings one, a clean-up takes it away. -/
def guardAfter (guard : Option Switch) (p q : DarwinPlatform) : Option Switch :=
  if q.killswitchActive then if p.killswitchActive then guard else some q.switch else none

def step (ntop : Addr → List Char) (m : Mac) : Event → Mac
  | .start flushed killSwitch manageRoutes resolved port =>
    match m.process with
    | some _ => m
    | none =>
      { m with
        process := resolved.map fun addr => init killSwitch manageRoutes addr port
        pf := flush flushed m.pf
        guard := none }
  | .callback output env =>
    match m.process with
    | none => m
    | some p =>
      let (q, pf) := p.callback ntop env output m.pf
      { m with process := some q, pf, guard := guardAfter m.guard p q }
  | .exit env =>
    match m.process with
    | none => m
    | some p => { m with process := none, pf := (p.cleanupKillswitch env m.pf).2, guard := none }
  | .crash =>
    match m.process with
    | none => m
    | some _ => { m with process := none, leaked := m.pf.refs }

def run (ntop : Addr → List Char) (evs : List Event) : Mac := evs.foldl (step ntop) {}

end Mac

/-! ## What a callback does -/

namespace DarwinPlatform

variable {p q r : DarwinPlatform} {env : PfEnv} {pf pf' : Pf} {ntop : Addr → List Char}

/-- A reference that was taken in a set-up, and the token that was read for it. -/
inductive Taken (env : PfEnv) : (token : Option (List Char)) → (parsed : List Char) → Prop
  | none : Taken env none []
  | lost {token : Option (List Char)} (h : env.enable = .error token) : Taken env token []
  | printed {token output : List Char} (h : env.enable = .ok token output) :
    Taken env (some token) (parseToken (output.take 255))

/-- What becomes of the kill switch and of pf. -/
inductive Effect (env : PfEnv) (p : DarwinPlatform) (pf : Pf) (q : DarwinPlatform) : Pf → Prop
  | kept (active : q.killswitchActive = p.killswitchActive) (token : q.ksPfToken = p.ksPfToken) : Effect env p pf q pf
  | cleaned (before : p.killswitchActive = true) (after : q.killswitchActive = false) :
    Effect env p pf q (release env.release p.ksPfToken (flush env.flush pf))
  | armed {token output : List Char} (before : p.killswitchActive = false) (after : q.killswitchActive = true)
    (enable : env.enable = .ok token output) (parsed : q.ksPfToken = parseToken (output.take 255)) :
    Effect env p pf q { anchor := q.pfRules, refs := token :: pf.refs }
  /-- A set-up that was given up. -/
  | undone {anchor : List Pf.Rule} {token : Option (List Char)} {parsed : List Char}
    (before : p.killswitchActive = false) (after : q.killswitchActive = false) (taken : Taken env token parsed) :
    Effect env p pf q (release env.release parsed (flush env.flush { anchor, refs := token.toList ++ pf.refs }))

theorem cleanupKillswitch_of_active (h : p.killswitchActive = true) :
    p.cleanupKillswitch env pf = ({ p with killswitchActive := false, ksPfToken := [] },
      release env.release p.ksPfToken (flush env.flush pf)) :=
  if_neg (by rw [h]; exact Bool.noConfusion)

theorem cleanupKillswitch_of_inactive (h : p.killswitchActive = false) : p.cleanupKillswitch env pf = (p, pf) :=
  if_pos h

namespace Effect

/-- A clean-up after it. -/
theorem cleanup (h : Effect env p pf q pf') :
    Effect env p pf (q.cleanupKillswitch env pf').1 (q.cleanupKillswitch env pf').2 := by
  cases h with
  | kept active token =>
    cases hq : q.killswitchActive with
    | true =>
      rw [cleanupKillswitch_of_active hq, token]
      exact cleaned (active ▸ hq) rfl
    | false =>
      rw [cleanupKillswitch_of_inactive hq]
      exact kept active token
  | cleaned before after =>
    rw [cleanupKillswitch_of_inactive after]
    exact cleaned before after
  | armed before after enable parsed =>
    rw [cleanupKillswitch_of_active after, parsed]
    exact undone before rfl (.printed enable)
  | undone before after taken =>
    rw [cleanupKillswitch_of_inactive after]
    exact undone before after taken

/-- The device and its family are of no matter. -/
theorem of_device (tunName : String) (hasV6 : Bool) (h : Effect env { p with tunName, hasV6 } pf q pf') :
    Effect env p pf q pf' := by
  cases h with
  | kept active token => exact kept active token
  | cleaned before after => exact cleaned before after
  | armed before after enable parsed => exact armed before after enable parsed
  | undone before after taken => exact undone before after taken

end Effect

theorem buildPfRules_eq {rules : List Pf.Rule} (h : p.buildPfRules ntop = some rules) : rules = p.pfRules := by
  rw [buildPfRules] at h
  split_ifs at h
  obtain ⟨-, -, rfl⟩ := Option.map_eq_some_iff.1 h
  rfl

/-- A set-up that succeeds, and was one, has loaded the rules. -/
theorem anchor_setupKillswitch (he : p.killswitchEnabled = true) (ha : p.killswitchActive = false)
    (h : p.setupKillswitch ntop env pf = ((q, pf'), true)) : pf'.anchor = p.pfRules := by
  rw [setupKillswitch, if_neg (by rw [he, ha]; simp)] at h
  cases hrules : p.buildPfRules ntop with
  | none =>
    rw [hrules] at h
    cases h
  | some rules =>
    rw [hrules] at h
    dsimp only at h
    split at h
    · cases h
    · cases h
    · cases h
      exact buildPfRules_eq hrules

theorem setupKillswitch_effect (p : DarwinPlatform) (ntop : Addr → List Char) (env : PfEnv) (pf : Pf) :
    Effect env p pf (p.setupKillswitch ntop env pf).1.1 (p.setupKillswitch ntop env pf).1.2 := by
  rw [setupKillswitch]
  by_cases hskip : p.killswitchEnabled = false ∨ p.killswitchActive = true
  · rw [if_pos hskip]
    exact .kept rfl rfl
  · rw [if_neg hskip]
    have hinactive : p.killswitchActive = false := by
      rw [not_or, Bool.not_eq_true] at hskip
      exact hskip.2
    cases hrules : p.buildPfRules ntop with
    | none => exact .kept rfl rfl
    | some rules =>
      cases hload : env.load with
      | error left =>
        have hnone : Taken env none [] := .none
        exact .undone hinactive rfl hnone
      | ok =>
        cases henable : env.enable with
        | error token => exact .undone hinactive rfl (.lost henable)
        | ok token output =>
          rw [buildPfRules_eq hrules]
          exact .armed hinactive rfl henable rfl

theorem cbTunnelConfigReady_effect (p : DarwinPlatform) (ntop : Addr → List Char) (env : PfEnv) (info : TunnelInfo)
    (pf : Pf) : Effect env p pf (p.cbTunnelConfigReady ntop env info pf).1 (p.cbTunnelConfigReady ntop env info pf).2 := by
  rw [cbTunnelConfigReady]
  cases env.tunCreate with
  | none => exact .cleanup (.kept rfl rfl)
  | some tunName =>
    dsimp only
    by_cases hconf : env.tunConfigured = false
    · rw [if_pos hconf]
      exact .cleanup (.kept rfl rfl)
    rw [if_neg hconf]
    by_cases hroutes : p.manageRoutes = true ∧ env.routes = false
    · rw [if_pos hroutes]
      exact .cleanup (.kept rfl rfl)
    · rw [if_neg hroutes]
      refine Effect.of_device tunName (p.hasV6 || info.assigned6.isSome) ?_
      have hsetup := setupKillswitch_effect { p with tunName, hasV6 := p.hasV6 || info.assigned6.isSome } ntop env pf
      generalize setupKillswitch _ ntop env pf = result at hsetup
      obtain ⟨⟨q, pf'⟩, ok⟩ := result
      cases ok with
      | false => exact hsetup.cleanup
      | true =>
        dsimp only
        split_ifs
        · exact hsetup
        · exact hsetup.cleanup

theorem callback_effect (p : DarwinPlatform) (ntop : Addr → List Char) (env : PfEnv) (output : Output) (pf : Pf) :
    Effect env p pf (p.callback ntop env output pf).1 (p.callback ntop env output pf).2 := by
  cases output with
  | tunnelConfigReady info => exact cbTunnelConfigReady_effect p ntop env info pf
  | stateChanged _ new =>
    change Effect env p pf (p.cbStateChanged env new pf).1 (p.cbStateChanged env new pf).2
    rw [cbStateChanged]
    split_ifs
    · exact .cleanup (.kept rfl rfl)
    · exact .kept rfl rfl
  | reconnectScheduled _ | tunnelClosed | readyForTun | mtuUpdated _ => exact .kept rfl rfl

/-! ## The server -/

/-- The address is the one that was written. -/
def Resolved (p : DarwinPlatform) : Prop := p.serverIpStr = some p.serverAddr

theorem Resolved.cleanupKillswitch (h : p.Resolved) (env : PfEnv) (pf : Pf) : (p.cleanupKillswitch env pf).1.Resolved := by
  rw [DarwinPlatform.cleanupKillswitch]
  split_ifs
  · exact h
  · exact h

theorem Resolved.setupKillswitch (h : p.Resolved) (ntop : Addr → List Char) (env : PfEnv) (pf : Pf) :
    (p.setupKillswitch ntop env pf).1.1.Resolved := by
  rw [DarwinPlatform.setupKillswitch]
  split_ifs
  · exact h
  · cases p.buildPfRules ntop with
    | none => exact h
    | some rules =>
      cases env.load with
      | error left => exact h
      | ok => cases env.enable <;> exact h

theorem Resolved.callback (h : p.Resolved) (ntop : Addr → List Char) (env : PfEnv) (output : Output) (pf : Pf) :
    (p.callback ntop env output pf).1.Resolved := by
  cases output with
  | tunnelConfigReady info =>
    change (p.cbTunnelConfigReady ntop env info pf).1.Resolved
    rw [cbTunnelConfigReady]
    cases env.tunCreate with
    | none => exact h.cleanupKillswitch env pf
    | some tunName =>
      have hdevice (hasV6 : Bool) : Resolved { p with tunName, hasV6 } := h
      dsimp only
      by_cases hconf : env.tunConfigured = false
      · rw [if_pos hconf]
        exact (hdevice p.hasV6).cleanupKillswitch env pf
      rw [if_neg hconf]
      by_cases hroutes : p.manageRoutes = true ∧ env.routes = false
      · rw [if_pos hroutes]
        exact (hdevice _).cleanupKillswitch env pf
      · rw [if_neg hroutes]
        have hsetup := (hdevice (p.hasV6 || info.assigned6.isSome)).setupKillswitch ntop env pf
        generalize DarwinPlatform.setupKillswitch _ ntop env pf = result at hsetup
        obtain ⟨⟨q, pf'⟩, ok⟩ := result
        cases ok with
        | false => exact Resolved.cleanupKillswitch hsetup env pf'
        | true =>
          dsimp only
          split_ifs
          · exact hsetup
          · exact Resolved.cleanupKillswitch hsetup env pf'
  | stateChanged _ new =>
    change (p.cbStateChanged env new pf).1.Resolved
    rw [cbStateChanged]
    split_ifs
    · exact h.cleanupKillswitch env pf
    · exact h
  | reconnectScheduled _ | tunnelClosed | readyForTun | mtuUpdated _ => exact h

/-- The rules say what the policy says, as the address is there. -/
theorem verdict_pfRules (h : p.Resolved) {pf : Pf} (ha : pf.anchor = p.pfRules) (x : Packet) :
    pf.verdict x = .accept ↔ p.switch.lets x = true := by
  rw [Pf.verdict, ha, pfRules, h]
  cases hdst : x.dst.family with
  | v4 =>
    have hcovers : p.switch.covers x.dst.family = true := by rw [hdst]; rfl
    rw [Switch.lets_iff hcovers, List.append_assoc, List.singleton_append,
      FirstMatch.verdict_append_cons_eq_iff]
    · by_cases hserver : p.serverAddr.family = .v6
      · rw [Switch.toServer_eq_false (by rw [hdst]; exact fun heq => by cases heq.trans hserver)]
        simp [Pf.Rule.hits, Switch.carries, switch, hdst, hserver]
      · rw [Switch.toServer_iff]
        simp [Pf.Rule.hits, Switch.carries, switch, hdst, hserver, and_assoc]
    · split_ifs <;> simp
    · simp [Pf.Rule.hits, hdst]
    · exact fun heq => by cases heq
  | v6 =>
    -- the rules for IPv4 do not hit
    rw [FirstMatch.verdict_append_of_forall]
    · by_cases hcovers : p.serverAddr.family = .v6 ∨ p.hasV6 = true
      · have hlets : p.switch.covers x.dst.family = true := by simpa [Switch.covers, switch, hdst] using hcovers
        rw [if_pos hcovers, Switch.lets_iff hlets, FirstMatch.verdict_append_cons_eq_iff]
        · by_cases hserver : p.serverAddr.family = .v6
          · rw [Switch.toServer_iff]
            cases hv6 : p.hasV6 <;> simp [Pf.Rule.hits, Switch.carries, switch, hdst, hserver, hv6, and_assoc]
          · rw [Switch.toServer_eq_false (by rw [hdst]; exact fun heq => hserver heq.symm)]
            cases hv6 : p.hasV6 <;> simp [Pf.Rule.hits, Switch.carries, switch, hdst, hserver, hv6]
        · split_ifs <;> simp
        · simp [Pf.Rule.hits, hdst]
        · exact fun heq => by cases heq
      · have hlets : p.switch.covers x.dst.family = false := by simpa [Switch.covers, switch, hdst] using hcovers
        rw [if_neg hcovers, Switch.lets, hlets]
        exact iff_of_true rfl rfl
    · split_ifs <;> simp [Pf.Rule.hits, hdst]

end DarwinPlatform

/-! ## Runs -/

namespace Mac

variable {ntop : Addr → List Char} {m : Mac} {ev : Event}

theorem guardAfter_of_eq {guard : Option Switch} {p q : DarwinPlatform} (hp : p.killswitchActive = guard.isSome)
    (hq : q.killswitchActive = p.killswitchActive) : guardAfter guard p q = guard := by
  rw [guardAfter, hq, hp]
  cases guard <;> rfl

theorem guardAfter_of_inactive (guard : Option Switch) (p : DarwinPlatform) {q : DarwinPlatform}
    (hq : q.killswitchActive = false) : guardAfter guard p q = none := by
  rw [guardAfter, hq]
  rfl

theorem guardAfter_of_armed (guard : Option Switch) {p q : DarwinPlatform} (hp : p.killswitchActive = false)
    (hq : q.killswitchActive = true) : guardAfter guard p q = some q.switch := by
  rw [guardAfter, hq, hp]
  rfl

/-- Between set-up and clean-up, the policy of the set-up holds. -/
structure Guarded (m : Mac) : Prop where
  active : ∀ p ∈ m.process, p.killswitchActive = m.guard.isSome
  resolved : ∀ p ∈ m.process, p.Resolved
  exact : ∀ k ∈ m.guard, ∀ x, m.pf.verdict x = .accept ↔ k.lets x = true
  enabled : m.guard ≠ none → m.pf.refs ≠ []

theorem Guarded.callback (h : m.Guarded) {p : DarwinPlatform} (hp : m.process = some p) (output : Output) (env : PfEnv) :
    (m.step ntop (.callback output env)).Guarded := by
  have hactive := h.active p hp
  have hresolved := (h.resolved p hp).callback ntop env output m.pf
  have heffect := p.callback_effect ntop env output m.pf
  rw [step, hp]
  dsimp only
  generalize p.callback ntop env output m.pf = result at hresolved heffect
  obtain ⟨q, pf⟩ := result
  change DarwinPlatform.Effect env p m.pf q pf at heffect
  cases heffect with
  | kept active token =>
    rw [guardAfter_of_eq hactive active]
    refine ⟨?_, ?_, h.exact, h.enabled⟩
    · rintro _ ⟨⟩
      exact active.trans hactive
    · rintro _ ⟨⟩
      exact hresolved
  | cleaned _ after | undone _ after _ =>
    rw [guardAfter_of_inactive m.guard p after]
    refine ⟨?_, ?_, ?_, fun hne => absurd rfl hne⟩
    · rintro _ ⟨⟩
      exact after
    · rintro _ ⟨⟩
      exact hresolved
    · rintro _ ⟨⟩
  | armed before after enable parsed =>
    rw [guardAfter_of_armed m.guard before after]
    refine ⟨?_, ?_, ?_, fun _ => List.cons_ne_nil _ _⟩
    · rintro _ ⟨⟩
      exact after
    · rintro _ ⟨⟩
      exact hresolved
    · rintro _ ⟨⟩
      exact DarwinPlatform.verdict_pfRules hresolved rfl

theorem Guarded.step (h : m.Guarded) (ev : Event) : (m.step ntop ev).Guarded := by
  cases ev with
  | start flushed killSwitch manageRoutes resolved port =>
    rw [Mac.step]
    cases hp : m.process with
    | some p => exact h
    | none =>
      refine ⟨fun p hmem => ?_, fun p hmem => ?_, ?_, fun hne => absurd rfl hne⟩
      · obtain ⟨addr, -, rfl⟩ := Option.map_eq_some_iff.1 hmem
        rfl
      · obtain ⟨addr, -, rfl⟩ := Option.map_eq_some_iff.1 hmem
        rfl
      · rintro _ ⟨⟩
  | callback output env =>
    cases hp : m.process with
    | none =>
      rw [Mac.step, hp]
      exact h
    | some p => exact h.callback hp output env
  | exit env =>
    rw [Mac.step]
    cases hp : m.process with
    | none => exact h
    | some p => refine ⟨?_, ?_, ?_, fun hne => absurd rfl hne⟩ <;> rintro _ ⟨⟩
  | crash =>
    rw [Mac.step]
    cases hp : m.process with
    | none => exact h
    | some p =>
      refine ⟨?_, ?_, h.exact, h.enabled⟩ <;> rintro _ ⟨⟩

/-- The anchor is flushed whenever it is to be. -/
def Event.Flushes : Event → Prop
  | .start flushed _ _ _ _ => flushed = true
  | .callback _ env | .exit env => env.flush = true
  | .crash => True

/-- References are taken and given back as the commands say, and the token that is read is the one that is printed. -/
def Event.Releases : Event → Prop
  | .callback _ env =>
    env.release = true ∧ match env.enable with
      | .ok token output => token ≠ [] ∧ DarwinPlatform.parseToken (output.take 255) = token
      | .error token => token = none
  | .exit env => env.release = true
  | .start .. | .crash => True

/-- Nothing of the kill switch is left in the anchor. -/
def Cleared (m : Mac) : Prop := m.guard = none → m.pf.anchor = []

theorem Cleared.step (h : m.Cleared) (hg : m.Guarded) (hev : ev.Flushes) : (m.step ntop ev).Cleared := by
  cases ev with
  | start flushed killSwitch manageRoutes resolved port =>
    rw [Mac.step]
    cases hp : m.process with
    | some p => exact h
    | none =>
      intro _
      change (DarwinPlatform.flush flushed m.pf).anchor = []
      rw [show flushed = true from hev]
      rfl
  | callback output env =>
    rw [Mac.step]
    cases hp : m.process with
    | none => exact h
    | some p =>
      have hactive := hg.active p hp
      have heffect := p.callback_effect ntop env output m.pf
      dsimp only
      generalize p.callback ntop env output m.pf = result at heffect
      obtain ⟨q, pf⟩ := result
      change DarwinPlatform.Effect env p m.pf q pf at heffect
      intro hnone
      change guardAfter m.guard p q = none at hnone
      change pf.anchor = []
      have hflush (pf : Pf) : (DarwinPlatform.flush env.flush pf).anchor = [] := by
        rw [show env.flush = true from hev]
        rfl
      cases heffect with
      | kept active token =>
        rw [guardAfter_of_eq hactive active] at hnone
        exact h hnone
      | cleaned before after => rw [DarwinPlatform.anchor_release, hflush]
      | undone before after taken => rw [DarwinPlatform.anchor_release, hflush]
      | armed before after enable parsed =>
        rw [guardAfter_of_armed m.guard before after] at hnone
        cases hnone
  | exit env =>
    rw [Mac.step]
    cases hp : m.process with
    | none => exact h
    | some p =>
      intro _
      have hactive := hg.active p hp
      change (p.cleanupKillswitch env m.pf).2.anchor = []
      cases ha : p.killswitchActive with
      | true =>
        rw [DarwinPlatform.cleanupKillswitch_of_active ha, DarwinPlatform.anchor_release,
          show env.flush = true from hev]
        rfl
      | false =>
        rw [DarwinPlatform.cleanupKillswitch_of_inactive ha]
        rw [ha] at hactive
        exact h (Option.isNone_iff_eq_none.1 (by rw [← Option.not_isSome, ← hactive]; rfl))
  | crash =>
    rw [Mac.step]
    cases hp : m.process with
    | none => exact h
    | some p => exact h

/-- The reference of a kill switch that is set up. -/
def owned (m : Mac) : List (List Char) :=
  match m.process with
  | some p => if p.killswitchActive then [p.ksPfToken] else []
  | none => []

/-- The references are those of the kill switch and of the processes that crashed. -/
structure Repaid (m : Mac) : Prop where
  refs : m.pf.refs = m.owned ++ m.leaked
  token : ∀ p ∈ m.process, p.killswitchActive = true → p.ksPfToken ≠ []

theorem refs_cleanupKillswitch {p : DarwinPlatform} {env : PfEnv} (h : m.Repaid) (hp : m.process = some p)
    (hev : env.release = true) : (p.cleanupKillswitch env m.pf).2.refs = m.leaked := by
  have hrefs := h.refs
  rw [owned, hp] at hrefs
  dsimp only at hrefs
  cases ha : p.killswitchActive with
  | true =>
    rw [ha, if_pos rfl] at hrefs
    rw [DarwinPlatform.cleanupKillswitch_of_active ha, hev, DarwinPlatform.refs_release (h.token p hp ha),
      DarwinPlatform.refs_flush, hrefs]
    exact List.erase_cons_head ..
  | false =>
    rw [ha, if_neg Bool.false_ne_true] at hrefs
    rw [DarwinPlatform.cleanupKillswitch_of_inactive ha]
    exact hrefs

theorem Repaid.callback (h : m.Repaid) {p : DarwinPlatform} (hp : m.process = some p) {output : Output} {env : PfEnv}
    (hev : (Event.callback output env).Releases) : (m.step ntop (.callback output env)).Repaid := by
  obtain ⟨hrelease, henable⟩ := hev
  have hrefs := h.refs
  rw [owned, hp] at hrefs
  dsimp only at hrefs
  have heffect := p.callback_effect ntop env output m.pf
  rw [step, hp]
  dsimp only
  generalize p.callback ntop env output m.pf = result at heffect
  obtain ⟨q, pf⟩ := result
  change DarwinPlatform.Effect env p m.pf q pf at heffect
  cases heffect with
  | kept active token =>
    refine ⟨?_, ?_⟩
    · change m.pf.refs = (if q.killswitchActive then [q.ksPfToken] else []) ++ m.leaked
      rw [active, token, hrefs]
    · rintro _ ⟨⟩ ha
      rw [token]
      exact h.token p hp (active ▸ ha)
  | cleaned before after =>
    have hcleanup := refs_cleanupKillswitch h hp hrelease
    rw [DarwinPlatform.cleanupKillswitch_of_active before] at hcleanup
    refine ⟨?_, ?_⟩
    · change _ = (if q.killswitchActive then [q.ksPfToken] else []) ++ m.leaked
      rw [after]
      exact hcleanup
    · rintro _ ⟨⟩ ha
      rw [after] at ha
      cases ha
  | armed before after enable parsed =>
    rw [enable] at henable
    rw [before] at hrefs
    refine ⟨?_, ?_⟩
    · change _ :: m.pf.refs = (if q.killswitchActive then [q.ksPfToken] else []) ++ m.leaked
      rw [after, parsed, henable.2, hrefs]
      rfl
    · rintro _ ⟨⟩ -
      rw [parsed, henable.2]
      exact henable.1
  | undone before after taken =>
    rw [before] at hrefs
    refine ⟨?_, ?_⟩
    · change _ = (if q.killswitchActive then [q.ksPfToken] else []) ++ m.leaked
      rw [after]
      cases taken with
      | none => rw [DarwinPlatform.release_nil, DarwinPlatform.refs_flush, hrefs]; rfl
      | lost henable' =>
        rw [henable'] at henable
        rw [DarwinPlatform.release_nil, DarwinPlatform.refs_flush, hrefs, show _ = none from henable]
        rfl
      | printed henable' =>
        rw [henable'] at henable
        rw [hrelease, henable.2, DarwinPlatform.refs_release henable.1, DarwinPlatform.refs_flush, hrefs]
        exact List.erase_cons_head ..
    · rintro _ ⟨⟩ ha
      rw [after] at ha
      cases ha

theorem Repaid.step (h : m.Repaid) (hev : ev.Releases) : (m.step ntop ev).Repaid := by
  cases ev with
  | start flushed killSwitch manageRoutes resolved port =>
    rw [Mac.step]
    cases hp : m.process with
    | some p => exact h
    | none =>
      have hrefs := h.refs
      rw [owned, hp] at hrefs
      refine ⟨?_, fun p hmem ha => ?_⟩
      · rw [DarwinPlatform.refs_flush, hrefs]
        cases resolved <;> rfl
      · obtain ⟨addr, -, rfl⟩ := Option.map_eq_some_iff.1 hmem
        cases ha
  | callback output env =>
    cases hp : m.process with
    | none =>
      rw [Mac.step, hp]
      exact h
    | some p => exact h.callback hp hev
  | exit env =>
    rw [Mac.step]
    cases hp : m.process with
    | none => exact h
    | some p =>
      refine ⟨refs_cleanupKillswitch h hp hev, ?_⟩
      rintro _ ⟨⟩
  | crash =>
    rw [Mac.step]
    cases hp : m.process with
    | none => exact h
    | some p =>
      refine ⟨rfl, ?_⟩
      rintro _ ⟨⟩

end Mac

end Mqvpn
