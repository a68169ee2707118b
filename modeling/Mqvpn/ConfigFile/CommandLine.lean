import Mqvpn.ConfigFile.Loaders

/-!
# The command line over the file

What `main` makes of the command line and of the configuration file: the mode, and the
authentication key and control endpoint that it hands to the platform.

A value of the command line should go before the value of the file for the role, and that before
the default (`intended`), and the control endpoint should not depend on the mode. Both modes
have a merge of their own for the endpoint, each of which leaves out one spelling of it in the
file, and the one for clients takes a port of 0 for none; and the key of a server goes first
in both. `asIntended_iff` says when the values are right all the same.
-/

namespace Mqvpn.ConfigFile

open Text

/-! ## Endpoints -/

/-- `atoi`: what `strtol` reads, in 32 bits. -/
def atoi (s : List Char) : Int :=
  match strtol s with
  | some (v, _) => Int.bmod v 4294967296
  | none => 0

/-- The parts of a text around its last colon. -/
def splitLastColon (s : List Char) : Option (List Char × List Char) :=
  match s.reverse.dropWhile (· ≠ ':') with
  | [] => none
  | _ :: host => some (host.reverse, (s.reverse.takeWhile (· ≠ ':')).reverse)

/-- The host between brackets, and what follows the colon behind them. -/
def splitBrackets (s : List Char) : Option (List Char × List Char) :=
  match s.dropWhile (· ≠ ']') with
  | ']' :: ':' :: port => some ((s.takeWhile (· ≠ ']')).tail, port)
  | _ => none

/-- `parse_host_port` -/
def parseHostPort (str : List Char) (hostLen : Nat) : Option (List Char × Int) :=
  match if str.head? = some '[' then splitBrackets str else splitLastColon str with
  | none => none
  | some (host, port) => if 0 < atoi port ∧ atoi port ≤ 65535 then some (host.take (hostLen - 1), atoi port) else none

/-- `split_addr_port` -/
def splitAddrPort (str : List Char) (hostLen : Nat) : Option (List Char × Int) :=
  match if str.head? = some '[' then splitBrackets str else splitLastColon str with
  | none => none
  | some (host, portStart) =>
    if host.length = 0 ∨ hostLen ≤ host.length then none
    else if startsWithDigit portStart = false then none
    else
      match strtol portStart with
      | some (p, []) => if 0 < p ∧ p ≤ 65535 then some (host, p) else none
      | _ => none

/-- `mqvpn_resolve_control_endpoint`; `cliPort` is the port that was set. -/
def resolveControlEndpoint (fileListen : List Char) (cliAddr : Option (List Char)) (cliPort : Option Int)
    (addrBufLen : Nat) : Option (Option (List Char) × Int) :=
  if fileListen = [] then some (cliAddr, cliPort.getD 0)
  else
    match splitAddrPort fileListen addrBufLen with
    | none => none
    | some (addr, port) => some (cliAddr.or (some addr), cliPort.getD port)

/-! ## The command line -/

/-- The command line, as `getopt_long` leaves it, with the text of the file behind `--config`. -/
structure Options where
  config : Option (List Char) := none
  mode : Option (List Char) := none
  server : Option (List Char) := none
  listen : Option (List Char) := none
  authKey : Option (List Char) := none
  /-- `cli_user_names` and `cli_user_keys` -/
  users : List (List Char × List Char) := []
  controlPort : Option Int := none
  controlAddr : Option (List Char) := none
  scheduler : Option (List Char) := none
  cc : Option (List Char) := none
  reinjectionMode : Option (List Char) := none
  fecScheme : Option (List Char) := none
  genkey : Bool := false
  status : Bool := false

/-- The two roles of `main`. -/
inductive Role
  | client
  | server
  deriving DecidableEq

/-- What `mqvpn_client_cfg_t` or `mqvpn_server_cfg_t` has for the key and the control endpoint. -/
@[ext] structure Handed where
  authKey : Option (List Char)
  controlAddr : Option (List Char)
  controlPort : Int
  deriving DecidableEq

/-- A text, unless it is empty. -/
def nonEmpty (s : List Char) : Option (List Char) := if s = [] then none else some s

/-- `file_cfg`: the defaults without a file; nothing if the file does not load. -/
def Options.fileCfg (o : Options) : Option FileConfig :=
  match o.config with
  | none => some defaults
  | some text => if (configLoad defaults text).2 then some (configLoad defaults text).1 else none

namespace Options

variable (o : Options) (file : FileConfig)

/-- `eff_auth_key` -/
def effAuthKey : Option (List Char) :=
  o.authKey.or ((nonEmpty (file.str .serverAuthKey)).or (nonEmpty (file.str .authKey)))

/-- `eff_user_names` and `eff_user_keys` -/
def effUsers : List (List Char × List Char) := if o.users = [] then file.users else o.users

/-- `eff_mode` -/
def effMode : Option (List Char) :=
  match o.mode, o.config with
  | some mode, _ => some mode
  | none, none => none
  | none, some _ =>
    if file.isServer then some "server".toList
    else if file.str .serverAddr = [] then none
    else some "client".toList

/-- The names for which `main` does not give up. `unlimited` is whether xquic was built with
    `XQC_ENABLE_UNLIMITED`. -/
def namesKnown (unlimited : Bool) : Bool :=
  (["wlb", "backup", "wlb_udp_pin", "backup_fec", "rap", "wrtt", "minrtt"].map String.toList).contains
      (o.scheduler.getD (file.str .scheduler)) &&
    ((["bbr", "cubic", "new_reno", "copa", "unlimited", "bbr2"] ++ if unlimited then ["none"] else []).map
      String.toList).contains (o.cc.getD (file.str .cc)) &&
    (["deadline", "dgram", "default"].map String.toList).contains (o.reinjectionMode.getD (file.str .reinjectionMode)) &&
    (["xor", "packet_mask", "packet_maskn", "galois_calculation", "reed_solomon"].map String.toList).contains
      (o.fecScheme.getD (file.str .fecScheme))

/-- The client that `main` runs, if it does. -/
def runClient : Option Handed :=
  let effServer := o.server.getD (file.str .serverAddr)
  if effServer = [] then none
  else
    match parseHostPort effServer 256 with
    | none => none
    | some _ => some {
        authKey := (o.effAuthKey file).or ((o.effUsers file).head?.map Prod.snd)
        controlAddr := o.controlAddr.or (nonEmpty (file.str .controlAddr))
        controlPort := if o.controlPort.getD 0 ≠ 0 then o.controlPort.getD 0 else file.int .controlPort }

/-- The server that `main` runs, if it does, for the endpoint that was resolved. -/
def runServer (effControlAddr : Option (List Char)) (effControlPort : Int) : Option Handed :=
  if ((o.effAuthKey file).getD [] = []) ∧ o.effUsers file = [] then none
  else
    match parseHostPort (o.listen.getD (file.str .listen)) 256 with
    | none => none
    | some _ => some { authKey := o.effAuthKey file, controlAddr := effControlAddr, controlPort := effControlPort }

/-- `main`, up to the call of the platform: the role, and what it hands over. -/
def main (unlimited : Bool) : Option (Role × Handed) :=
  if o.genkey then none
  else
    match o.fileCfg with
    | none => none
    | some file =>
      match resolveControlEndpoint (file.str .controlListen) o.controlAddr o.controlPort 256 with
      | none => none
      | some (effControlAddr, effControlPort) =>
        if o.status then none
        else
          match o.effMode file with
          | none => none
          | some mode =>
            if o.namesKnown file unlimited = false then none
            else if mode = "client".toList then (o.runClient file).map (.client, ·)
            else if mode = "server".toList then (o.runServer file effControlAddr effControlPort).map (.server, ·)
            else none

end Options

/-! ## What is intended -/

/-- The field of the file for the key of a role, and the field of the other role. -/
def Role.keyField : Role → StrField
  | .client => .authKey
  | .server => .serverAuthKey

def Role.other : Role → Role
  | .client => .server
  | .server => .client

/-- The address and port of `[Control] Listen`, if it is there. -/
def FileConfig.listenEndpoint (file : FileConfig) : Option (List Char × Int) :=
  if file.str .controlListen = [] then none else splitAddrPort (file.str .controlListen) 256

/-- The values by the order of the command line, the file and the default. A client without
    a key has the key of the first user. -/
def intended (o : Options) (file : FileConfig) (role : Role) : Handed where
  authKey := o.authKey.or ((nonEmpty (file.str role.keyField)).or ((nonEmpty (file.str role.other.keyField)).or
    (match role with
      | .client => (o.effUsers file).head?.map Prod.snd
      | .server => none)))
  controlAddr := o.controlAddr.or ((file.listenEndpoint.map Prod.fst).or (nonEmpty (file.str .controlAddr)))
  controlPort := o.controlPort.getD ((file.listenEndpoint.map Prod.snd).getD (file.int .controlPort))

/-- The keys of the roles are not in each other's way. -/
def SameKey (o : Options) (file : FileConfig) : Prop :=
  o.authKey.isSome = true ∨ file.str .authKey = [] ∨ file.str .serverAuthKey = [] ∨
    file.str .authKey = file.str .serverAuthKey

/-- For a client, `Listen` says what `Addr` and `Port` say, where it matters, and there is no port
    in the file if the command line has a 0. -/
structure ClientAgrees (o : Options) (file : FileConfig) : Prop where
  key : SameKey o file
  addr : o.controlAddr = none → ∀ e ∈ file.listenEndpoint, e.1 = file.str .controlAddr
  port : o.controlPort = none → ∀ e ∈ file.listenEndpoint, e.2 = file.int .controlPort
  zero : o.controlPort = some 0 → file.int .controlPort = 0

/-- For a server, there is no `Addr` and `Port` without a `Listen`, where it matters. -/
structure ServerAgrees (o : Options) (file : FileConfig) : Prop where
  addr : o.controlAddr = none → file.str .controlListen = [] → file.str .controlAddr = []
  port : o.controlPort = none → file.str .controlListen = [] → file.int .controlPort = 0

/-- The condition of a role. -/
def Agrees (o : Options) (file : FileConfig) : Role → Prop
  | .client => ClientAgrees o file
  | .server => ServerAgrees o file

/-! ## When they are the same -/

variable {o : Options} {file : FileConfig} {unlimited : Bool} {role : Role} {h : Handed}

theorem nonEmpty_eq_none {s : List Char} : nonEmpty s = none ↔ s = [] := by
  by_cases hs : s = []
  · rw [nonEmpty, if_pos hs]
    exact iff_of_true rfl hs
  · rw [nonEmpty, if_neg hs]
    exact iff_of_false (Option.some_ne_none _) hs

theorem nonEmpty_eq_some {s t : List Char} (ht : t ≠ []) : nonEmpty s = some t ↔ t = s := by
  by_cases hs : s = []
  · rw [nonEmpty, if_pos hs]
    exact iff_of_false (Option.some_ne_none _).symm fun heq => ht (heq.trans hs)
  · rw [nonEmpty, if_neg hs]
    exact Option.some_inj.trans eq_comm

theorem host_ne_nil {str : List Char} {hostLen : Nat} {e : List Char × Int} (he : splitAddrPort str hostLen = some e) :
    e.1 ≠ [] := by
  rw [splitAddrPort] at he
  cases hsplit : if str.head? = some '[' then splitBrackets str else splitLastColon str with
  | none =>
    rw [hsplit] at he
    cases he
  | some parts =>
    rw [hsplit] at he
    dsimp only at he
    split_ifs at he with hlen hdigit
    split at he
    · split_ifs at he
      obtain rfl := Option.some.inj he
      exact fun hnil => hlen (.inl (congrArg List.length hnil))
    · cases he

theorem FileConfig.host_ne_nil {e : List Char × Int} (he : file.listenEndpoint = some e) : e.1 ≠ [] := by
  rw [listenEndpoint] at he
  split_ifs at he
  exact ConfigFile.host_ne_nil he

theorem key_client_iff : (o.effAuthKey file).or ((o.effUsers file).head?.map Prod.snd) = (intended o file .client).authKey ↔
    SameKey o file := by
  rw [Options.effAuthKey, SameKey]
  change _ = o.authKey.or ((nonEmpty (file.str .authKey)).or ((nonEmpty (file.str .serverAuthKey)).or _)) ↔ _
  cases o.authKey with
  | some key => exact iff_of_true rfl (.inl rfl)
  | none =>
    rw [Option.none_or, Option.none_or, Option.isSome_none]
    by_cases hclient : file.str .authKey = []
    · rw [nonEmpty_eq_none.2 hclient, Option.or_none, Option.none_or]
      exact iff_of_true rfl (.inr (.inl hclient))
    by_cases hserver : file.str .serverAuthKey = []
    · rw [nonEmpty_eq_none.2 hserver, Option.none_or, Option.none_or]
      exact iff_of_true rfl (.inr (.inr (.inl hserver)))
    -- both are there, and each side has its own first
    rw [(nonEmpty_eq_some hclient).2 rfl, (nonEmpty_eq_some hserver).2 rfl]
    simp only [Option.some_or, Option.some_inj, Bool.false_eq_true, hclient, hserver, false_or]
    exact eq_comm

theorem addr_client_iff : o.controlAddr.or (nonEmpty (file.str .controlAddr)) = (intended o file .client).controlAddr ↔
    (o.controlAddr = none → ∀ e ∈ file.listenEndpoint, e.1 = file.str .controlAddr) := by
  rw [intended]
  dsimp only
  cases o.controlAddr with
  | some addr => exact iff_of_true rfl fun hnone => absurd hnone (Option.some_ne_none _)
  | none =>
    rw [Option.none_or, Option.none_or]
    cases he : file.listenEndpoint with
    | none => exact iff_of_true rfl fun _ e hmem => absurd hmem (Option.not_mem_none e)
    | some e =>
      rw [Option.map_some, Option.some_or, nonEmpty_eq_some (FileConfig.host_ne_nil he)]
      exact ⟨fun heq _ e' hmem => Option.some.inj hmem ▸ heq, fun hall => hall rfl e rfl⟩

theorem port_client_iff :
    (if o.controlPort.getD 0 ≠ 0 then o.controlPort.getD 0 else file.int .controlPort) =
        (intended o file .client).controlPort ↔
      (o.controlPort = none → ∀ e ∈ file.listenEndpoint, e.2 = file.int .controlPort) ∧
        (o.controlPort = some 0 → file.int .controlPort = 0) := by
  rw [intended]
  dsimp only
  cases o.controlPort with
  | some port =>
    rw [Option.getD_some, Option.getD_some, Option.some_inj]
    by_cases hport : port = 0
    · rw [if_neg (not_not_intro hport), hport]
      exact ⟨fun heq => ⟨fun hnone => absurd hnone (Option.some_ne_none _), fun _ => heq⟩, fun hall => hall.2 rfl⟩
    · rw [if_pos hport]
      exact iff_of_true rfl ⟨fun hnone => absurd hnone (Option.some_ne_none _), fun hzero => absurd hzero hport⟩
  | none =>
    rw [Option.getD_none, if_neg (not_not_intro rfl), Option.getD_none]
    have hnot : (none : Option Int) = some 0 → file.int .controlPort = 0 := fun hnone => absurd hnone.symm (Option.some_ne_none _)
    cases file.listenEndpoint with
    | none => exact iff_of_true rfl ⟨fun _ e hmem => absurd hmem (Option.not_mem_none e), hnot⟩
    | some e =>
      rw [Option.map_some, Option.getD_some]
      exact ⟨fun heq => ⟨fun _ e' hmem => Option.some.inj hmem ▸ heq.symm, hnot⟩, fun hall => (hall.1 rfl e rfl).symm⟩

theorem handed_client_iff (hrun : o.runClient file = some h) : h = intended o file .client ↔ ClientAgrees o file := by
  rw [Options.runClient] at hrun
  have hserver : ¬o.server.getD (file.str .serverAddr) = [] := fun hpos => by
    rw [if_pos hpos] at hrun
    cases hrun
  rw [if_neg hserver] at hrun
  split at hrun
  · cases hrun
  · obtain rfl := Option.some.inj hrun
    rw [Handed.ext_iff, key_client_iff, addr_client_iff, port_client_iff]
    exact ⟨fun ⟨hkey, haddr, hport, hzero⟩ => ⟨hkey, haddr, hport, hzero⟩,
      fun hagrees => ⟨hagrees.key, hagrees.addr, hagrees.port, hagrees.zero⟩⟩

/-- The endpoint that a server is handed is the one of `Listen`. -/
theorem resolveControlEndpoint_eq {e : Option (List Char) × Int}
    (he : resolveControlEndpoint (file.str .controlListen) o.controlAddr o.controlPort 256 = some e) :
    e.1 = o.controlAddr.or (file.listenEndpoint.map Prod.fst) ∧
      e.2 = o.controlPort.getD ((file.listenEndpoint.map Prod.snd).getD 0) ∧
      (file.listenEndpoint = none ↔ file.str .controlListen = []) := by
  rw [resolveControlEndpoint] at he
  rw [FileConfig.listenEndpoint]
  by_cases hlisten : file.str .controlListen = []
  · rw [if_pos hlisten] at he
    rw [if_pos hlisten]
    obtain rfl := Option.some.inj he
    exact ⟨Option.or_none.symm, rfl, iff_of_true rfl hlisten⟩
  · rw [if_neg hlisten] at he
    rw [if_neg hlisten]
    cases hsplit : splitAddrPort (file.str .controlListen) 256 with
    | none =>
      rw [hsplit] at he
      cases he
    | some parts =>
      rw [hsplit] at he
      obtain rfl := Option.some.inj he
      exact ⟨rfl, rfl, iff_of_false (Option.some_ne_none _) hlisten⟩

theorem handed_server_iff {e : Option (List Char) × Int}
    (he : resolveControlEndpoint (file.str .controlListen) o.controlAddr o.controlPort 256 = some e)
    (hrun : o.runServer file e.1 e.2 = some h) : h = intended o file .server ↔ ServerAgrees o file := by
  obtain ⟨haddr, hport, hlisten⟩ := resolveControlEndpoint_eq he
  rw [Options.runServer] at hrun
  split_ifs at hrun
  split at hrun
  · cases hrun
  obtain rfl := Option.some.inj hrun
  have hkey : o.effAuthKey file = (intended o file .server).authKey := by
    change _ = o.authKey.or ((nonEmpty (file.str .serverAuthKey)).or ((nonEmpty (file.str .authKey)).or none))
    rw [Option.or_none]
    rfl
  have haddrIff : e.1 = (intended o file .server).controlAddr ↔
      (o.controlAddr = none → file.str .controlListen = [] → file.str .controlAddr = []) := by
    rw [haddr, intended, ← hlisten]
    dsimp only
    cases o.controlAddr with
    | some addr => exact iff_of_true rfl fun hnone => absurd hnone (Option.some_ne_none _)
    | none =>
      rw [Option.none_or, Option.none_or]
      cases file.listenEndpoint with
      | some e => exact iff_of_true rfl fun _ hnone => absurd hnone (Option.some_ne_none _)
      | none =>
        rw [Option.map_none, Option.none_or, eq_comm, nonEmpty_eq_none]
        exact ⟨fun hnil _ _ => hnil, fun hall => hall rfl rfl⟩
  have hportIff : e.2 = (intended o file .server).controlPort ↔
      (o.controlPort = none → file.str .controlListen = [] → file.int .controlPort = 0) := by
    rw [hport, intended, ← hlisten]
    dsimp only
    cases o.controlPort with
    | some port => exact iff_of_true rfl fun hnone => absurd hnone (Option.some_ne_none _)
    | none =>
      rw [Option.getD_none, Option.getD_none]
      cases file.listenEndpoint with
      | some e => exact iff_of_true rfl fun _ hnone => absurd hnone (Option.some_ne_none _)
      | none =>
        rw [Option.map_none, Option.getD_none, Option.getD_none]
        exact ⟨fun heq _ _ => heq.symm, fun hall => (hall rfl rfl).symm⟩
  rw [Handed.ext_iff, haddrIff, hportIff]
  exact ⟨fun ⟨_, haddr, hport⟩ => ⟨haddr, hport⟩, fun hagrees => ⟨hkey, hagrees.addr, hagrees.port⟩⟩

/-- Whenever `main` gets as far as the platform, it hands over what is intended exactly if the
    settings of the role agree. -/
theorem handed_intended_iff (hfile : o.fileCfg = some file) (hmain : o.main unlimited = some (role, h)) :
    h = intended o file role ↔ Agrees o file role := by
  rw [Options.main] at hmain
  have hgenkey : ¬o.genkey = true := fun hpos => by
    rw [if_pos hpos] at hmain
    cases hmain
  rw [if_neg hgenkey, hfile] at hmain
  dsimp only at hmain
  cases he : resolveControlEndpoint (file.str .controlListen) o.controlAddr o.controlPort 256 with
  | none =>
    rw [he] at hmain
    cases hmain
  | some e =>
    have hstatus : ¬o.status = true := fun hpos => by
      rw [he] at hmain
      dsimp only at hmain
      rw [if_pos hpos] at hmain
      cases hmain
    rw [he] at hmain
    dsimp only at hmain
    rw [if_neg hstatus] at hmain
    split at hmain
    · cases hmain
    · split_ifs at hmain
      · obtain ⟨h', hrun, heq⟩ := Option.map_eq_some_iff.1 hmain
        obtain ⟨rfl, rfl⟩ := Prod.mk.inj heq
        exact handed_client_iff hrun
      · obtain ⟨h', hrun, heq⟩ := Option.map_eq_some_iff.1 hmain
        obtain ⟨rfl, rfl⟩ := Prod.mk.inj heq
        exact handed_server_iff he hrun

/-- If `main` gets as far as the platform, it hands over what is intended. -/
def AsIntended (o : Options) (unlimited : Bool) : Prop :=
  ∀ file ∈ o.fileCfg, ∀ r ∈ o.main unlimited, r.2 = intended o file r.1

instance (o : Options) (unlimited : Bool) : Decidable (AsIntended o unlimited) :=
  inferInstanceAs (Decidable (∀ file ∈ o.fileCfg, ∀ r ∈ o.main unlimited, _))

/-- For every file and every command line. -/
theorem asIntended_iff (o : Options) (unlimited : Bool) :
    AsIntended o unlimited ↔ ∀ file ∈ o.fileCfg, ∀ r ∈ o.main unlimited, Agrees o file r.1 :=
  forall₂_congr fun _ hfile => forall₂_congr fun _ hr => handed_intended_iff hfile hr

/-- What an endpoint of the file is for both modes; a port of 0 on the command line is no
    endpoint in either. -/
theorem intended_port (role : Role) : (intended o file role).controlPort = (intended o file role.other).controlPort ∧
    (o.controlPort = some 0 → (intended o file role).controlPort = 0) :=
  ⟨rfl, fun hzero => by
    change o.controlPort.getD _ = 0
    rw [hzero]
    rfl⟩

/-! ### Files -/

/-- A client with a file. -/
def clientOf (text : String) : Options where
  config := some text.toList
  mode := some "client".toList
  server := some "vpn:443".toList

/-- Its file has a `Listen`. -/
def listening : Options := clientOf "[Control]\nListen=127.0.0.1:9090"

/-- Its file has a `Port`, and the command line has `--control-port 0`. -/
def switchedOff : Options := { clientOf "[Control]\nPort=9090" with controlPort := some 0 }

/-- Its file has the keys of both roles. -/
def twoKeys : Options := clientOf "\x7b\"auth_key\":\"c\",\"server_auth_key\":\"s\"\x7d"

/-- A server whose file has a `Port`. -/
def ported : Options where
  config := some "[Control]\nPort=9090".toList
  mode := some "server".toList
  authKey := some "k".toList

/-- None of them is handed what is intended: the first has no control API, the second has one,
    the third has the key of the server, and the fourth has no control API. -/
theorem not_asIntended : ¬AsIntended listening false ∧ ¬AsIntended switchedOff false ∧ ¬AsIntended twoKeys false ∧
    ¬AsIntended ported false :=
  ⟨by decide +kernel, by decide +kernel, by decide +kernel, by decide +kernel⟩

end Mqvpn.ConfigFile
