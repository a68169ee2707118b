import Mqvpn.ConfigFile.Json
import Mqvpn.Hybrid.Routing
import Mathlib.Data.List.DropRight

/-!
# The configuration file

`config.c` reads a configuration from an INI or a JSON file into a
`mqvpn_file_config_t`. Keys with one value are described in a table, `cfgKeys`, that both
loaders walk; for the others (lists, users, reorder rules) each loader has code of its own.

The table refers to the fields of the configuration by their offsets. Here the fields of
one type are a function on their names, so that a row of the table names its field. The
fields that are lists, and those that no row writes, are fields of the structure.

Only the return codes that decide what happens next are part of the model, and not the
warnings. What a JSON array that breaks off leaves in the slots of its list is left out:
the load fails.
-/

namespace Mqvpn.ConfigFile

open Text Json Reorder

/-! ## The configuration -/

/-- The `char` arrays of `mqvpn_file_config_t` that the table refers to. -/
inductive StrField
  | tunName | logLevel | listen | subnet | subnet6 | serverAddr | tlsServerName | authKey | authUsername
  | certFile | keyFile | tlsCiphers | serverAuthKey | controlListen | controlAddr | scheduler
  | reinjectionMode | fecScheme | cc
  deriving DecidableEq

/-- The size of an array. -/
def StrField.size : StrField → Nat
  | .listen | .serverAddr | .controlListen => 280
  | .tlsServerName | .authKey | .certFile | .keyFile | .tlsCiphers | .serverAuthKey => 256
  | .subnet6 | .authUsername | .controlAddr => 64
  | .tunName | .subnet | .fecScheme => 32
  | .logLevel | .scheduler | .reinjectionMode | .cc => 16

/-- The fields of type `int`. -/
inductive IntField
  | insecure | maxClients | reinjectionControl | fecEnable | reconnect | reconnectInterval | killSwitch
  | routeViaServer | noRoutes | controlPort | tunMtu | hybridEnabled
  deriving DecidableEq

/-- The fields of an unsigned type. -/
inductive NatField
  | initMaxPathId | maxWaitMs | capPacketsPerFlow | maxBufferBytesPerFlow | classifyWindow
  | ackDemoteMaxLargePackets | smallPacketThresholdBytes | resetMarkPackets | resetIdleGraceMs | maxFlows
  | globalMaxBufferBytes | ingressIdleTimeoutSec | egressIdleTimeoutSec | tcpMaxFlows | tcpIdleTimeoutSec
  | tcpConnectTimeoutSec | tcpMaxGlobalFlows
  deriving DecidableEq

/-- The fields that the rows of the table write. -/
structure Scalars where
  str : StrField → List Char
  int : IntField → Int
  nat : NatField → Nat
  reorderMode : Mode
  hasExplicitWait : Bool
  hasExplicitCap : Bool
  tcpMode : Hybrid.TcpMode
  isServer : Bool

/-- `mqvpn_file_config_t`; the arrays with a count are lists. -/
structure FileConfig extends Scalars where
  dnsServers : List (List Char)
  /-- `user_names` and `user_keys` -/
  users : List (List Char × List Char)
  /-- `user_fixed_ips`, which is never shortened. -/
  userFixedIps : Nat → List Char
  paths : List (List Char)
  backupPaths : List (List Char)
  datagramRedundancy : Nat
  rules : List Rule
  egressAllow : List Hybrid.Cidr
  egressDeny : List Hybrid.Cidr

/-- `MQVPN_CONFIG_MAX_DNS` -/
def maxDns : Nat := 4

/-- `MQVPN_CONFIG_MAX_PATHS` -/
def maxPaths : Nat := 8

/-- `MQVPN_CONFIG_MAX_USERS` -/
def maxUsers : Nat := 64

/-- `MQVPN_REORDER_MAX_RULES` -/
def maxRules : Nat := 16

/-- `MQVPN_EGRESS_ACL_MAX` -/
def egressAclMax : Nat := 32

/-- `mqvpn_config_defaults` -/
def defaults : FileConfig where
  str
    | .tunName => "mqvpn0".toList
    | .logLevel => "info".toList
    | .listen => "0.0.0.0:443".toList
    | .subnet => "10.0.0.0/24".toList
    | .certFile => "server.crt".toList
    | .keyFile => "server.key".toList
    | .scheduler => "wlb".toList
    | .reinjectionMode => "default".toList
    | .fecScheme => "reed_solomon".toList
    | .cc => "bbr2".toList
    | _ => []
  int
    | .maxClients => 64
    | .reconnect => 1
    | .reconnectInterval => 5
    | _ => 0
  nat
    | .initMaxPathId => 0
    | .maxWaitMs => Config.default.maxWaitMs
    | .capPacketsPerFlow => Config.default.capPacketsPerFlow
    | .maxBufferBytesPerFlow => Config.default.maxBufferBytesPerFlow
    | .classifyWindow => Config.default.classifyWindow
    | .ackDemoteMaxLargePackets => Config.default.ackDemoteMaxLargePackets
    | .smallPacketThresholdBytes => Config.default.smallPacketThresholdBytes
    | .resetMarkPackets => Config.default.resetMarkPackets
    | .resetIdleGraceMs => Config.default.resetIdleGraceMs
    | .maxFlows => Config.default.maxFlows
    | .globalMaxBufferBytes => Config.default.globalMaxBufferBytes
    | .ingressIdleTimeoutSec => Config.default.ingressIdleTimeoutSec
    | .egressIdleTimeoutSec => Config.default.egressIdleTimeoutSec
    | .tcpMaxFlows => 256
    | .tcpIdleTimeoutSec => 300
    | .tcpConnectTimeoutSec => 10
    | .tcpMaxGlobalFlows => 4096
  reorderMode := Config.default.mode
  hasExplicitWait := Config.default.hasExplicitWait
  hasExplicitCap := Config.default.hasExplicitCap
  tcpMode := .auto
  isServer := false
  dnsServers := []
  users := []
  userFixedIps := fun _ => []
  paths := []
  backupPaths := []
  datagramRedundancy := 0
  rules := Config.default.rules
  egressAllow := []
  egressDeny := []

/-! ## Reading values -/

/-- `trim` -/
def trim (s : List Char) : List Char := (s.dropWhile isSpace).rdropWhile isSpace

/-- `parse_bool` -/
def parseBool (val : List Char) : Bool := val = "true".toList ∨ val = "yes".toList ∨ val = "1".toList

/-- `INT_MIN` -/
def intMin : Int := -2 ^ 31

/-- `parse_int_strict`: what overflows a `long` is outside the range of an `int` too. -/
def parseIntStrict (val : List Char) : Option Int :=
  match strtol val with
  | some (v, []) => if intMin ≤ v ∧ v < 2 ^ 31 then some v else none
  | _ => none

/-- `parse_u64_strict` -/
def parseU64Strict (val : List Char) : Option Nat :=
  if startsWithDigit val then
    match strtoull val with
    | some (v, []) => some v
    | _ => none
  else none

/-- `parse_u32_strict` -/
def parseU32Strict (val : List Char) : Option Nat := (parseU64Strict val).filter fun v => v ≤ 0xffffffff

/-- `parse_reorder_enabled` -/
def parseReorderEnabled (val : List Char) : Option Mode :=
  if eqIgnoreCase val "off".toList ∨ eqIgnoreCase val "false".toList then some .off
  else if eqIgnoreCase val "on".toList ∨ eqIgnoreCase val "true".toList then some .on
  else if eqIgnoreCase val "auto".toList then some .on
  else none

/-- `parse_hybrid_tcp_mode` -/
def parseHybridTcpMode (val : List Char) : Option Hybrid.TcpMode :=
  if eqIgnoreCase val "stream".toList then some .stream
  else if eqIgnoreCase val "raw".toList then some .raw
  else if eqIgnoreCase val "auto".toList then some .auto
  else none

/-- `parse_reorder_proto` -/
def parseReorderProto (val : List Char) : Option UInt8 :=
  if eqIgnoreCase val "udp".toList then some 17
  else
    match parseIntStrict val with
    | some v => if 0 ≤ v ∧ v ≤ 255 then some (UInt8.ofNat v.toNat) else none
    | none => none

/-- `parse_reorder_profile` -/
def parseReorderProfile (val : List Char) : Option Profile :=
  if eqIgnoreCase val "quic_bulk".toList then some .quicBulk
  else if eqIgnoreCase val "low_latency".toList then some .lowLatency
  else if eqIgnoreCase val "default_udp".toList then some .defaultUdp
  else if eqIgnoreCase val "cellular_bond".toList then some .cellularBond
  else if eqIgnoreCase val "fiber_lte".toList then some .fiberLte
  else none

/-- `mqvpn_cidr_mask_from_prefix` -/
def cidrMaskFromPrefix (prefixLen : Nat) : Nat :=
  if prefixLen = 0 then 0
  else if 32 ≤ prefixLen then 0xffffffff
  else (0xffffffff <<< (32 - prefixLen)) % 2 ^ 32

/-- `mqvpn_parse_cidr_v4` -/
def parseCidrV4 (s : List Char) : Option Hybrid.Cidr :=
  if s.length = 0 ∨ 32 ≤ s.length then none
  else
    match s.dropWhile (· ≠ '/') with
    | [] => none
    | _ :: prefixStr =>
      match inetPton4 (s.takeWhile (· ≠ '/')) with
      | none => none
      | some addr =>
        if startsWithDigit prefixStr then
          match strtol prefixStr with
          | some (n, []) =>
            if 0 ≤ n ∧ n ≤ 32 then
              let mask := cidrMaskFromPrefix n.toNat
              some ⟨UInt32.ofNat (addr &&& mask), UInt32.ofNat mask⟩
            else none
          | _ => none
        else none

/-! ## The table of keys -/

/-- `SEC_*` -/
inductive Section
  | none | interface | server | tls | auth | multipath | control | reorder | reorderRule | hybrid
  deriving DecidableEq

/-- The `int_ok` gates: `cfgk_int_positive` and `cfgk_int_mtu`. -/
inductive IntGate
  | positive | mtu
  deriving DecidableEq

def IntGate.ok : IntGate → Int → Bool
  | .positive, v => 0 < v
  | .mtu, v => v = 0 ∨ (1280 ≤ v ∧ v ≤ 9000)

/-- The `post_set` hooks: `cfgk_post_mark_server` and so on. -/
inductive PostSet
  | markServer | mirrorAuthKey | explicitWait | explicitCap
  deriving DecidableEq

/-- `cfg_key_type_t`, with the field that a row of the type writes, and its bounds; the
    last of `int` is the value for an invalid one, if the row has one. -/
inductive KeyType
  | str (field : StrField)
  | bool (field : IntField)
  | int (field : IntField) (intOk : IntGate) (invalidFallback : Option Int)
  | u32 (field : NatField)
  | u16 (field : NatField)
  | u64 (field : NatField) (max : Nat)
  | reorderMode
  | hybridTcpMode
  deriving DecidableEq

/-- `cfg_key_desc_t` -/
structure KeyDesc where
  sec : Section
  iniKey : Option (List Char)
  jsonKey : Option (List Char)
  type : KeyType
  postSet : Option PostSet
  deriving DecidableEq

/-- A row for a key with both spellings. -/
def row (sec : Section) (iniKey jsonKey : String) (type : KeyType) (postSet : Option PostSet) : KeyDesc :=
  ⟨sec, some iniKey.toList, some jsonKey.toList, type, postSet⟩

/-- A row for a key that only INI files have. -/
def iniRow (sec : Section) (iniKey : String) (type : KeyType) (postSet : Option PostSet) : KeyDesc :=
  ⟨sec, some iniKey.toList, none, type, postSet⟩

/-- A row for a key that only JSON files have. -/
def jsonRow (sec : Section) (jsonKey : String) (type : KeyType) : KeyDesc :=
  ⟨sec, none, some jsonKey.toList, type, none⟩

/-- `cfg_keys` -/
def cfgKeys : List KeyDesc := [
  row .interface "TunName" "tun_name" (.str .tunName) none,
  row .interface "Listen" "listen" (.str .listen) (some .markServer),
  row .interface "Subnet" "subnet" (.str .subnet) none,
  row .interface "Subnet6" "subnet6" (.str .subnet6) none,
  row .interface "LogLevel" "log_level" (.str .logLevel) none,
  row .interface "KillSwitch" "kill_switch" (.bool .killSwitch) none,
  row .interface "RouteViaServer" "route_via_server" (.bool .routeViaServer) none,
  row .interface "NoRoutes" "no_routes" (.bool .noRoutes) none,
  row .interface "Reconnect" "reconnect" (.bool .reconnect) none,
  row .interface "ReconnectInterval" "reconnect_interval" (.int .reconnectInterval .positive none) none,
  row .interface "MTU" "mtu" (.int .tunMtu .mtu none) none,
  row .server "Address" "server_addr" (.str .serverAddr) none,
  row .server "ServerName" "tls_server_name" (.str .tlsServerName) none,
  row .server "Insecure" "insecure" (.bool .insecure) none,
  row .tls "Cert" "cert_file" (.str .certFile) none,
  row .tls "Key" "key_file" (.str .keyFile) none,
  jsonRow .tls "tls_ciphers" (.str .tlsCiphers),
  row .tls "Cipher" "cipher" (.str .tlsCiphers) none,
  row .tls "Ciphers" "ciphers" (.str .tlsCiphers) none,
  iniRow .auth "Key" (.str .authKey) (some .mirrorAuthKey),
  jsonRow .auth "auth_key" (.str .authKey),
  jsonRow .auth "server_auth_key" (.str .serverAuthKey),
  row .auth "Username" "auth_username" (.str .authUsername) none,
  row .auth "MaxClients" "max_clients" (.int .maxClients .positive (some 64)) none,
  row .control "Listen" "control_listen" (.str .controlListen) none,
  row .control "Port" "control_port" (.int .controlPort .positive none) none,
  iniRow .control "ControlPort" (.int .controlPort .positive none) none,
  row .control "Addr" "control_addr" (.str .controlAddr) none,
  iniRow .control "ControlAddr" (.str .controlAddr) none,
  row .multipath "Scheduler" "scheduler" (.str .scheduler) none,
  row .multipath "CC" "cc" (.str .cc) none,
  row .multipath "CongestionControl" "congestion_control" (.str .cc) none,
  row .multipath "InitMaxPathId" "init_max_path_id" (.u64 .initMaxPathId 0xffffffff) none,
  row .multipath "ReinjectionControl" "reinjection_control" (.bool .reinjectionControl) none,
  row .multipath "ReinjectionMode" "reinjection_mode" (.str .reinjectionMode) none,
  row .multipath "ReinjCtl" "reinj_ctl" (.str .reinjectionMode) none,
  row .multipath "Fec" "fec" (.bool .fecEnable) none,
  row .multipath "FecEnable" "fec_enable" (.bool .fecEnable) none,
  row .multipath "FecScheme" "fec_scheme" (.str .fecScheme) none,
  row .reorder "Enabled" "enabled" .reorderMode none,
  row .reorder "MaxWaitMs" "max_wait_ms" (.u32 .maxWaitMs) (some .explicitWait),
  row .reorder "CapPackets" "cap_packets" (.u32 .capPacketsPerFlow) (some .explicitCap),
  row .reorder "MaxBytesPerFlow" "max_bytes_per_flow" (.u64 .maxBufferBytesPerFlow 0xffffffffffffffff) none,
  row .reorder "ClassifyWindow" "classify_window" (.u16 .classifyWindow) none,
  row .reorder "AckDemoteMaxLarge" "ack_demote_max_large" (.u16 .ackDemoteMaxLargePackets) none,
  row .reorder "SmallPacketThreshold" "small_packet_threshold" (.u32 .smallPacketThresholdBytes) none,
  row .reorder "ResetMarkPackets" "reset_mark_packets" (.u32 .resetMarkPackets) none,
  row .reorder "ResetIdleGraceMs" "reset_idle_grace_ms" (.u32 .resetIdleGraceMs) none,
  row .reorder "MaxFlows" "max_flows" (.u32 .maxFlows) none,
  row .reorder "GlobalMaxBytes" "global_max_bytes" (.u64 .globalMaxBufferBytes 0xffffffffffffffff) none,
  row .reorder "IngressIdleSec" "ingress_idle_sec" (.u32 .ingressIdleTimeoutSec) none,
  row .reorder "EgressIdleSec" "egress_idle_sec" (.u32 .egressIdleTimeoutSec) none,
  row .hybrid "Enabled" "enabled" (.bool .hybridEnabled) none,
  row .hybrid "Tcp" "tcp" .hybridTcpMode none,
  row .hybrid "TcpMaxFlows" "tcp_max_flows" (.u32 .tcpMaxFlows) none,
  row .hybrid "TcpIdleTimeoutSec" "tcp_idle_timeout_sec" (.u32 .tcpIdleTimeoutSec) none,
  row .hybrid "TcpConnectTimeoutSec" "tcp_connect_timeout_sec" (.u32 .tcpConnectTimeoutSec) none,
  row .hybrid "TcpMaxGlobalFlows" "tcp_max_global_flows" (.u32 .tcpMaxGlobalFlows) none]

/-! ## Storing a value -/

namespace Scalars

variable (cfg : Scalars)

def setStr (f : StrField) (v : List Char) : Scalars := { cfg with str := Function.update cfg.str f v }

def setInt (f : IntField) (v : Int) : Scalars := { cfg with int := Function.update cfg.int f v }

def setNat (f : NatField) (v : Nat) : Scalars := { cfg with nat := Function.update cfg.nat f v }

def postSet : Option PostSet → Scalars
  | some .markServer => { cfg with isServer := true }
  | some .mirrorAuthKey => cfg.setStr .serverAuthKey ((cfg.str .authKey).take (StrField.size .serverAuthKey - 1))
  | some .explicitWait => { cfg with hasExplicitWait := true }
  | some .explicitCap => { cfg with hasExplicitCap := true }
  | none => cfg

/-- `cfg_key_store`; `INT_MIN` stands for an `int` that could not be read. -/
def cfgKeyStore (d : KeyDesc) (vStr : List Char) (vInt : Int) (vUll : Nat) : Scalars :=
  match d.type with
  | .str f => (cfg.setStr f (vStr.take (f.size - 1))).postSet d.postSet
  | .bool f => (cfg.setInt f vInt).postSet d.postSet
  | .int f intOk invalidFallback =>
    if vInt = intMin ∨ intOk.ok vInt = false then
      match invalidFallback with
      | some fallback => cfg.setInt f fallback
      | none => cfg
    else (cfg.setInt f vInt).postSet d.postSet
  | .u32 f => if 0xffffffff < vUll then cfg else (cfg.setNat f vUll).postSet d.postSet
  | .u16 f => if 0xffff < vUll then cfg else (cfg.setNat f vUll).postSet d.postSet
  | .u64 f max => if max < vUll then cfg else (cfg.setNat f vUll).postSet d.postSet
  | .reorderMode =>
    match parseReorderEnabled vStr with
    | some m => ({ cfg with reorderMode := m } : Scalars).postSet d.postSet
    | none => cfg
  | .hybridTcpMode =>
    match parseHybridTcpMode vStr with
    | some m => ({ cfg with tcpMode := m } : Scalars).postSet d.postSet
    | none => cfg

/-- The part of `cfg_key_apply_ini` for the row that a key is found at. -/
def readIni (d : KeyDesc) (val : List Char) : Scalars :=
  match d.type with
  | .str _ | .reorderMode | .hybridTcpMode => cfg.cfgKeyStore d val 0 0
  | .bool _ => cfg.cfgKeyStore d [] (if parseBool val then 1 else 0) 0
  | .int _ _ invalidFallback =>
    match parseIntStrict val with
    | some v => cfg.cfgKeyStore d [] v 0
    | none => if invalidFallback.isSome then cfg.cfgKeyStore d [] intMin 0 else cfg
  | .u32 _ | .u16 _ =>
    match parseU32Strict val with
    | some v => cfg.cfgKeyStore d [] 0 v
    | none => cfg
  | .u64 _ _ =>
    match parseU64Strict val with
    | some v => cfg.cfgKeyStore d [] 0 v
    | none => cfg

/-- The part of `cfg_key_apply_json` for a row whose key is found, where its value is. -/
def readJson (d : KeyDesc) (v : List Char) : Scalars :=
  match d.type with
  | .str _ | .reorderMode | .hybridTcpMode =>
    match readString v 280 with
    | some sbuf => cfg.cfgKeyStore d sbuf 0 0
    | none => cfg
  | .bool _ =>
    match readBool v with
    | some iv => cfg.cfgKeyStore d [] (if iv then 1 else 0) 0
    | none => cfg
  | .int _ _ invalidFallback =>
    match readInt v with
    | some iv => cfg.cfgKeyStore d [] iv 0
    | none => if invalidFallback.isSome then cfg.cfgKeyStore d [] intMin 0 else cfg
  | .u32 _ | .u16 _ | .u64 _ _ =>
    match readU64Strict v with
    | some uv => cfg.cfgKeyStore d [] 0 uv
    | none => cfg

/-- `cfg_key_apply_ini`: nothing if the table has no such key. -/
def cfgKeyApplyIni (sec : Section) (key val : List Char) : Option Scalars :=
  (cfgKeys.find? fun d => d.sec = sec ∧ d.iniKey.any (eqIgnoreCase key)).map fun d => cfg.readIni d val

end Scalars

/-- Where `cfg_key_apply_json` finds the value of a row, given the objects `"reorder"` and
    `"hybrid"` with their ends. -/
def KeyDesc.locate (d : KeyDesc) (jsonText : List Char) (ro hy : Option (List Char × List Char))
    (key : List Char) : Option (List Char) :=
  match d.sec with
  | .reorder => ro.bind fun (raw, stop) => findKeyBounded raw stop key
  | .hybrid => hy.bind fun (raw, stop) => findKeyBounded raw stop key
  | _ => findKey key jsonText

/-- `cfg_key_apply_json` -/
def Scalars.cfgKeyApplyJson (cfg : Scalars) (jsonText : List Char) (ro hy : Option (List Char × List Char)) :
    Scalars :=
  cfgKeys.foldl
    (fun cfg d =>
      match d.jsonKey.bind (d.locate jsonText ro hy) with
      | some v => cfg.readJson d v
      | none => cfg)
    cfg

end Mqvpn.ConfigFile
