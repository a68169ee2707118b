import Mqvpn.ConfigFile.Model

/-!
# The loaders

`mqvpn_config_load` for INI files, with one function for each of the keys that the table
does not have (`handleKv`), and `mqvpn_config_load_json_filecfg`. The text of a file has no
zero bytes. Where a C array is filled in place, the list is the filled part.
-/

namespace Mqvpn.ConfigFile

open Text Json Reorder

/-! ## Users -/

namespace FileConfig

variable (cfg : FileConfig)

/-- `snprintf` into a slot of `user_fixed_ips`, if there is an address. -/
def setFixedIp (i : Nat) (fixedIp : Option (List Char)) : FileConfig :=
  match fixedIp with
  | some ip => { cfg with userFixedIps := Function.update cfg.userFixedIps i (ip.take 19) }
  | none => cfg

/-- `add_user_entry` -/
def addUserEntry (name key : List Char) (fixedIp : Option (List Char)) : FileConfig :=
  if name = [] ∨ key = [] then cfg
  else if name.any fun c => c = '"' ∨ c = '\\' ∨ c.toNat < 0x20 then cfg
  else
    match cfg.users.findIdx? fun u => u.1 = name with
    | some i => { cfg with users := cfg.users.modify i fun u => (u.1, key.take 255) }.setFixedIp i fixedIp
    | none =>
      if maxUsers ≤ cfg.users.length then cfg
      else
        { cfg with users := cfg.users ++ [(name.take 63, key.take 255)] }.setFixedIp cfg.users.length fixedIp

/-- `parse_user_pair` -/
def parseUserPair (val : List Char) : FileConfig :=
  let pair := val.take 383
  match pair.dropWhile (· ≠ ':') with
  | [] =>
    let name := trim pair
    if name = [] then cfg else { cfg with toScalars := cfg.setStr .authUsername (name.take 63) }
  | _ :: rest =>
    let name := trim (pair.takeWhile (· ≠ ':'))
    match rest.dropWhile (· ≠ ':') with
    | [] => cfg.addUserEntry name (trim rest) none
    | _ :: ip =>
      let fixedIp := trim ip
      cfg.addUserEntry name (trim (rest.takeWhile (· ≠ ':'))) (if fixedIp = [] then none else some fixedIp)

end FileConfig

/-! ## INI files -/

theorem length_dropWhile_entry {p entry : List Char} {c : Char}
    (h : p.dropWhile (fun c => c = ',' ∨ isSpace c) = c :: entry) :
    ((c :: entry).dropWhile (· ≠ ',')).length < p.length := by
  have hc := List.head?_dropWhile_not (fun c => decide (c = ',' ∨ isSpace c = true)) p
  rw [h, List.head?_cons] at hc
  have hlen := (List.dropWhile_sublist (fun c => decide (c = ',' ∨ isSpace c = true)) (l := p)).length_le
  rw [h, List.length_cons] at hlen
  rw [List.dropWhile_cons_of_pos]
  · have := (List.dropWhile_sublist (· ≠ ',') (l := entry)).length_le
    omega
  · simp only [decide_eq_false_iff_not, not_or] at hc
    simpa using hc.1

/-- The loop of `parse_dns_list`, with the entries so far. -/
def dnsLoop (servers : List (List Char)) (p : List Char) : List (List Char) :=
  if servers.length < maxDns then
    match _h : p.dropWhile (fun c => c = ',' ∨ isSpace c) with
    | [] => servers
    | c :: rest =>
      let entry := (((c :: rest).takeWhile (· ≠ ',')).take 63).rdropWhile isSpace
      dnsLoop (if entry = [] then servers else servers ++ [entry]) ((c :: rest).dropWhile (· ≠ ','))
  else servers
termination_by p.length
decreasing_by exact length_dropWhile_entry _h

/-- `parse_dns_list` -/
def parseDnsList (val : List Char) : List (List Char) := dnsLoop [] val

/-- `reorder_rule_begin`: nothing if there are as many rules as fit. -/
def reorderRuleBegin (rules : List Rule) : Option (List Rule) :=
  if maxRules ≤ rules.length then none
  else
    some (rules ++ [{ proto := 17, port := 0, profile := .quicBulk, explicitWaitMs := 0, explicitCap := 0,
                      resolvedWaitMs := 0, resolvedCap := 0 }])

/-- A key of `[ReorderRule]`. -/
def ruleKv (rule : Rule) (key val : List Char) : Rule :=
  if eqIgnoreCase key "Proto".toList then
    match parseReorderProto val with
    | some proto => { rule with proto }
    | none => rule
  else if eqIgnoreCase key "Port".toList then
    match parseU32Strict val with
    | some v => if 0xffff < v then rule else { rule with port := UInt16.ofNat v }
    | none => rule
  else if eqIgnoreCase key "Profile".toList then
    match parseReorderProfile val with
    | some profile => { rule with profile }
    | none => rule
  else if eqIgnoreCase key "MaxWaitMs".toList then
    match parseU32Strict val with
    | some v => if v = 0 then rule else { rule with explicitWaitMs := v }
    | none => rule
  else if eqIgnoreCase key "CapPackets".toList then
    match parseU32Strict val with
    | some v => if Config.capIsValid v then { rule with explicitCap := v } else rule
    | none => rule
  else rule

/-- A list with one more entry, if it fits. -/
def pushCapped {α : Type} (max : Nat) (l : List α) (a : α) : List α := if l.length < max then l ++ [a] else l

namespace FileConfig

variable (cfg : FileConfig)

/-- The end of `handle_kv`: the keys of the table. -/
def scalarKv (sec : Section) (key val : List Char) : FileConfig :=
  match cfg.cfgKeyApplyIni sec key val with
  | some toScalars => { cfg with toScalars }
  | none => cfg

/-- `handle_kv` -/
def handleKv (sec : Section) (key val : List Char) : FileConfig :=
  match sec with
  | .interface =>
    if eqIgnoreCase key "DNS".toList then { cfg with dnsServers := parseDnsList val }
    else cfg.scalarKv sec key val
  | .auth =>
    if eqIgnoreCase key "User".toList then cfg.parseUserPair val
    else cfg.scalarKv sec key val
  | .multipath =>
    if eqIgnoreCase key "Redundancy".toList ∨ eqIgnoreCase key "DatagramRedundancy".toList then
      if eqIgnoreCase val "multipath".toList ∨ val = "2".toList then { cfg with datagramRedundancy := 2 }
      else if eqIgnoreCase val "rap".toList ∨ val = "1".toList then { cfg with datagramRedundancy := 1 }
      else if eqIgnoreCase val "off".toList ∨ val = "0".toList then { cfg with datagramRedundancy := 0 }
      else cfg
    else if eqIgnoreCase key "Path".toList then
      { cfg with paths := pushCapped maxPaths cfg.paths (val.take 31) }
    else if eqIgnoreCase key "BackupPath".toList then
      { cfg with backupPaths := pushCapped maxPaths cfg.backupPaths (val.take 31) }
    else cfg.scalarKv sec key val
  | .reorderRule => { cfg with rules := cfg.rules.modify (cfg.rules.length - 1) (ruleKv · key val) }
  | .hybrid =>
    if eqIgnoreCase key "EgressAllow".toList then
      match parseCidrV4 val with
      | some entry => { cfg with egressAllow := pushCapped egressAclMax cfg.egressAllow entry }
      | none => cfg
    else if eqIgnoreCase key "EgressDeny".toList then
      match parseCidrV4 val with
      | some entry => { cfg with egressDeny := pushCapped egressAclMax cfg.egressDeny entry }
      | none => cfg
    else cfg.scalarKv sec key val
  | .none => cfg
  | sec => cfg.scalarKv sec key val

end FileConfig

/-- `parse_section` -/
def parseSection (name : List Char) : Option Section :=
  if eqIgnoreCase name "Interface".toList then some .interface
  else if eqIgnoreCase name "Server".toList then some .server
  else if eqIgnoreCase name "TLS".toList then some .tls
  else if eqIgnoreCase name "Auth".toList then some .auth
  else if eqIgnoreCase name "Multipath".toList then some .multipath
  else if eqIgnoreCase name "Control".toList then some .control
  else if eqIgnoreCase name "Reorder".toList then some .reorder
  else if eqIgnoreCase name "ReorderRule".toList then some .reorderRule
  else if eqIgnoreCase name "Hybrid".toList then some .hybrid
  else none

/-- The section that a header opens; a rule that does not fit is no section. -/
def openSection (cfg : FileConfig) (name : List Char) : FileConfig × Section :=
  match parseSection name with
  | some .reorderRule =>
    match reorderRuleBegin cfg.rules with
    | some rules => ({ cfg with rules }, .reorderRule)
    | none => (cfg, .none)
  | some sec => (cfg, sec)
  | none => (cfg, .none)

/-- A line of an INI file, in the section it stands in. -/
def iniLine (st : FileConfig × Section) (line : List Char) : FileConfig × Section :=
  match trim line with
  | [] | '#' :: _ | ';' :: _ => st
  | '[' :: t => if ']' ∈ t then openSection st.1 (t.takeWhile (· ≠ ']')) else st
  | t =>
    match t.dropWhile (· ≠ '=') with
    | [] => st
    | _ :: val => (st.1.handleKv st.2 (trim (t.takeWhile (· ≠ '='))) (trim val), st.2)

/-- `mqvpn_config_load` for an INI file. -/
def loadIni (cfg : FileConfig) (text : List Char) : FileConfig :=
  ((strtok (· = '\n') text).foldl iniLine (cfg, .none)).1

/-! ## JSON files -/

/-- The loop of `json_read_string_array` and `json_read_cidr_array`: the strings up to the
    closing bracket. -/
def stringArrayLoop (p : List Char) : Option (List (List Char)) :=
  match p with
  | ']' :: _ => some []
  | '"' :: cs =>
    match _h : literal cs with
    | none => none
    | some (s, rest) =>
      match _hws : skipWs rest with
      | ',' :: q => (stringArrayLoop (skipWs q)).map (unescape s :: ·)
      | ']' :: _ => some [unescape s]
      | _ => none
  | _ => none
termination_by p.length
decreasing_by
  have := literal_length _h
  have hle := length_skipWs_le rest
  rw [_hws, List.length_cons] at hle
  have := length_skipWs_le q
  simp only [List.length_cons]
  omega

/-- An array of strings. -/
def stringArray (p : List Char) : Option (List (List Char)) :=
  match p with
  | '[' :: cs => stringArrayLoop (skipWs cs)
  | _ => none

/-- `json_read_string_array` -/
def readStringArray (p : List Char) (maxItems : Nat) : Option (List (List Char)) :=
  (stringArray p).map fun l => (l.take maxItems).map (·.take 63)

/-- `json_read_cidr_array` -/
def readCidrArray (p : List Char) : Option (List Hybrid.Cidr) :=
  (stringArray p).map fun l => ((l.map (·.take 31)).filterMap parseCidrV4).take egressAclMax

/-- The keys of an object in `"reorder_rules"`, which ends at `stop`. -/
def ruleJson (obj stop : List Char) (rule : Rule) : Rule :=
  let rule :=
    match ((findKeyBounded obj stop "proto".toList).bind (readString · 32)).bind parseReorderProto with
    | some proto => { rule with proto }
    | none => rule
  let rule :=
    match (findKeyBounded obj stop "port".toList).bind readIntStrict with
    | some pv => if 0 ≤ pv ∧ pv ≤ 0xffff then { rule with port := UInt16.ofNat pv.toNat } else rule
    | none => rule
  let rule :=
    match ((findKeyBounded obj stop "profile".toList).bind (readString · 32)).bind parseReorderProfile with
    | some profile => { rule with profile }
    | none => rule
  let rule :=
    match (findKeyBounded obj stop "max_wait_ms".toList).bind readU64Strict with
    | some wv => if 0xffffffff < wv ∨ wv = 0 then rule else { rule with explicitWaitMs := wv }
    | none => rule
  match (findKeyBounded obj stop "cap_packets".toList).bind readU64Strict with
  | some cv => if 0xffffffff < cv ∨ Config.capIsValid cv = false then rule else { rule with explicitCap := cv }
  | none => rule

/-- The rules with one more, as the object says, if it fits. -/
def addRuleJson (obj stop : List Char) (rules : List Rule) : List Rule :=
  match reorderRuleBegin rules with
  | some rules => rules.modify (rules.length - 1) (ruleJson obj stop)
  | none => rules

/-- The loop of `json_read_reorder_rules`, and whether the array is well formed. -/
def rulesLoop (rules : List Rule) (p : List Char) : List Rule × Bool :=
  match p with
  | ']' :: _ => (rules, true)
  | '{' :: cs =>
    match _h : objectEnd ('{' :: cs) with
    | none => (rules, false)
    | some stop =>
      match _hws : skipWs (stop.drop 1) with
      | ',' :: q => rulesLoop (addRuleJson ('{' :: cs) stop rules) (skipWs q)
      | ']' :: _ => (addRuleJson ('{' :: cs) stop rules, true)
      | _ => (addRuleJson ('{' :: cs) stop rules, false)
  | _ => (rules, false)
termination_by p.length
decreasing_by
  have := objectEnd_length _h
  have hle := length_skipWs_le (stop.drop 1)
  rw [_hws, List.length_cons, List.length_drop] at hle
  have := length_skipWs_le q
  omega

/-- `json_read_reorder_rules` -/
def readReorderRules (rules : List Rule) (p : List Char) : List Rule × Bool :=
  match p with
  | '[' :: cs => rulesLoop rules (skipWs cs)
  | _ => (rules, false)

/-- An entry of `"users"` that is an object, with the part of the text up to its brace. -/
def userObject (cfg : FileConfig) (obj : List Char) : Option FileConfig :=
  if 512 ≤ obj.length then none
  else
    match (findKey "name".toList obj).bind (readString · 64), (findKey "key".toList obj).bind (readString · 256) with
    | some name, some key =>
      let fixedIp := ((findKey "fixed_ip".toList obj).map (stringBuf · 20)).getD []
      some (cfg.addUserEntry name key (if fixedIp = [] then none else some fixedIp))
    | _, _ => none

/-- An entry of `"users"` that is a string, a name and a key. -/
def userString (cfg : FileConfig) (s : List Char) : Option FileConfig :=
  let pair := (unescape s).take 359
  match pair.dropWhile (· ≠ ':') with
  | [] => none
  | _ :: key => some (cfg.addUserEntry ((pair.takeWhile (· ≠ ':')).take 63) (key.take 255) none)

/-- The loop of `json_read_users`, and whether the array is well formed. -/
def usersLoop (cfg : FileConfig) (p : List Char) : FileConfig × Bool :=
  match p with
  | ']' :: _ => (cfg, true)
  | '"' :: cs =>
    match _h : literal cs with
    | none => (cfg, false)
    | some (s, rest) =>
      match userString cfg s with
      | none => (cfg, false)
      | some cfg =>
        match _hws : skipWs rest with
        | ',' :: q => usersLoop cfg (skipWs q)
        | ']' :: _ => (cfg, true)
        | _ => (cfg, false)
  | '{' :: cs =>
    match _h : cs.dropWhile (· ≠ '}') with
    | [] => (cfg, false)
    | _ :: rest =>
      match userObject cfg ('{' :: cs.takeWhile (· ≠ '}') ++ ['}']) with
      | none => (cfg, false)
      | some cfg =>
        match _hws : skipWs rest with
        | ',' :: q => usersLoop cfg (skipWs q)
        | ']' :: _ => (cfg, true)
        | _ => (cfg, false)
  | _ => (cfg, false)
termination_by p.length
decreasing_by
  · have := literal_length _h
    have hle := length_skipWs_le rest
    rw [_hws, List.length_cons] at hle
    have := length_skipWs_le q
    simp only [List.length_cons]
    omega
  · have hcs := (List.dropWhile_sublist (· ≠ '}') (l := cs)).length_le
    rw [_h, List.length_cons] at hcs
    have hle := length_skipWs_le rest
    rw [_hws, List.length_cons] at hle
    have := length_skipWs_le q
    simp only [List.length_cons]
    omega

/-- `json_read_users` -/
def readUsers (cfg : FileConfig) (p : List Char) : FileConfig × Bool :=
  match p with
  | '[' :: cs => usersLoop { cfg with users := [] } (skipWs cs)
  | _ => (cfg, false)

/-- An object of the text with its end. -/
def objectSpan (jsonText key : List Char) : Option (List Char × List Char) :=
  (findKey key jsonText).bind fun raw => (objectEnd raw).map fun stop => (raw, stop)

/-- The list of an array of strings, each cut to the size of its slot. -/
def stringList (jsonText key : List Char) (maxItems size : Nat) (old : List (List Char)) : List (List Char) :=
  match (findKey key jsonText).bind (readStringArray · maxItems) with
  | some l => l.map (·.take (size - 1))
  | none => old

/-- A list of the object `"hybrid"`; nothing if its array is malformed. -/
def egressList (hy : Option (List Char × List Char)) (key : List Char) (old : List Hybrid.Cidr) :
    Option (List Hybrid.Cidr) :=
  match hy.bind fun (raw, stop) => findKeyBounded raw stop key with
  | some v => readCidrArray v
  | none => some old

/-- The key `"mode"`, which INI files do not have. -/
def readMode (cfg : FileConfig) (jsonText : List Char) : FileConfig :=
  match (findKey "mode".toList jsonText).bind (readString · 32) with
  | some s =>
    if eqIgnoreCase s "server".toList then { cfg with isServer := true }
    else if eqIgnoreCase s "client".toList then { cfg with isServer := false }
    else cfg
  | none => cfg

/-- `mqvpn_config_load_json_filecfg`, and whether it succeeds. -/
def loadJson (cfg : FileConfig) (jsonText : List Char) : FileConfig × Bool :=
  let cfg := readMode cfg jsonText
  let ro := objectSpan jsonText "reorder".toList
  let hy := objectSpan jsonText "hybrid".toList
  let cfg := { cfg with toScalars := cfg.cfgKeyApplyJson jsonText ro hy }
  match egressList hy "egress_allow".toList cfg.egressAllow with
  | none => (cfg, false)
  | some egressAllow =>
    let cfg := { cfg with egressAllow }
    match egressList hy "egress_deny".toList cfg.egressDeny with
    | none => (cfg, false)
    | some egressDeny =>
      let cfg :=
        { cfg with
          egressDeny
          dnsServers := stringList jsonText "dns".toList maxDns 64 cfg.dnsServers
          paths := stringList jsonText "paths".toList maxPaths 32 cfg.paths
          backupPaths := stringList jsonText "backup_paths".toList maxPaths 32 cfg.backupPaths }
      match (findKey "users".toList jsonText).map (readUsers cfg) with
      | some (cfg, false) => (cfg, false)
      | users =>
        let cfg := (users.map (·.1)).getD cfg
        match (findKey "reorder_rules".toList jsonText).map (readReorderRules cfg.rules) with
        | some (rules, ok) => ({ cfg with rules }, ok)
        | none => (cfg, true)

/-- `mqvpn_config_load` of a file with this text, and whether it succeeds. -/
def configLoad (cfg : FileConfig) (text : List Char) : FileConfig × Bool :=
  if (skipWs text).head? = some '{' then loadJson cfg (skipWs text) else (loadIni cfg text, true)

end Mqvpn.ConfigFile
