import Mathlib.Algebra.GroupWithZero.Nat
import Mathlib.Data.UInt
import Mqvpn.Control.Names
import Mqvpn.Control.Request
import Mqvpn.Lib.JsonCompact

/-!
# Responses with names

What `list_users`, `get_status`, `get_fec_stats` and `get_all_fec_stats` answer on the control
socket. The names are printed between quotes as they are, and a response that is too long is
replaced as a whole. So the response is one of the fixed errors, or an object in which the names
denote themselves, if all names can be printed (`Reports`).

* `reports_along`: this is so in every state of a run in which the names that are taken from
  headers can be printed;
* `not_reports`: a connection whose name is a quote.
-/

namespace Mqvpn.Control

open Json JsonTree Server Text

/-! ## What xquic knows of a connection -/

/-- `path_app_status` -/
inductive AppStatus where
  | none
  | available
  | standby
  | frozen
  deriving DecidableEq

/-- `xqc_path_metrics_t` -/
structure PathMetrics where
  pathId : UInt64
  srtt : UInt64
  minRtt : UInt64
  cwnd : UInt64
  bytesInFlight : UInt64
  sendBytes : UInt64
  recvBytes : UInt64
  pktSend : UInt64
  pktRecv : UInt64
  lost : UInt64
  state : UInt8
  appStatus : AppStatus

/-- `xqc_conn_stats_t` -/
structure ConnStats where
  enableFec : UInt8 := 0
  mpState : UInt8 := 0
  sendFecCnt : UInt32 := 0
  fecRecoverPktCnt : UInt32 := 0
  lostDgramCount : UInt32 := 0
  totalAppBytes : UInt64 := 0
  standbyPathAppBytes : UInt64 := 0
  pathsInfo : List PathMetrics := []

/-- `peer_addr` -/
inductive Peer where
  | v4 (a b c d : UInt8) (port : UInt16)
  | v6 (addr : Fin 16 → UInt8) (port : UInt16)
  | other

/-- What is known of a connection besides its session. -/
structure ConnReport where
  peer : Peer := .other
  connectedAtUs : UInt64 := 0
  stats : ConnStats := {}

/-! ## Addresses -/

/-- `inet_ntop` for an IPv4 address -/
def inetNtop4 (a b c d : UInt8) : List Char :=
  decimal a.toNat ++ '.' :: (decimal b.toNat ++ '.' :: (decimal c.toNat ++ '.' :: decimal d.toNat))

/-- The words of an IPv6 address. -/
def words (addr : Fin 16 → UInt8) : List Nat :=
  [(0, 1), (2, 3), (4, 5), (6, 7), (8, 9), (10, 11), (12, 13), (14, 15)].map fun (i, j) =>
    (addr i).toNat * 256 + (addr j).toNat

/-- The number of words from here on that are zero. -/
def zeros (ws : List Nat) (i : Nat) : Nat := ((ws.drop i).takeWhile (· = 0)).length

/-- The first of the longest runs of zeros: where it begins, and its length. -/
def zeroRun (ws : List Nat) : Nat × Nat :=
  let base := (List.range 8).foldl (fun best i => if zeros ws best < zeros ws i then i else best) 0
  (base, zeros ws base)

/-- `inet_ntop` for an IPv6 address: the longest run of zeros is left out, if it has two words or
    more, and the last words of an address that has nothing before them are written as an IPv4
    address. -/
def inetNtop6 (addr : Fin 16 → UInt8) : List Char :=
  let ws := words addr
  let (base, len) := zeroRun ws
  let dotted := base = 0 ∧ (len = 6 ∨ (len = 5 ∧ ws.getD 5 0 = 0xffff))
  ((List.range 8).flatMap fun i =>
    if 2 ≤ len ∧ base ≤ i ∧ i < base + len then if i = base then [':'] else []
    else if dotted ∧ i = 7 then []
    else (if i = 0 then [] else [':']) ++
      if dotted ∧ i = 6 then inetNtop4 (addr 12) (addr 13) (addr 14) (addr 15) else Nat.toDigits 16 (ws.getD i 0)) ++
    if 2 ≤ len ∧ base + len = 8 then [':'] else []

/-- An IPv4 address that is written as an IPv6 address. -/
def IsMapped (addr : Fin 16 → UInt8) : Prop := (∀ i : Fin 10, addr ⟨i, by omega⟩ = 0) ∧ addr 10 = 0xff ∧ addr 11 = 0xff

instance (addr : Fin 16 → UInt8) : Decidable (IsMapped addr) := inferInstanceAs (Decidable (_ ∧ _))

/-- The address and the port of a peer. -/
def endpoint : Peer → List Char
  | .v4 a b c d port => (inetNtop4 a b c d ++ ':' :: decimal port.toNat).take 63
  | .v6 addr port =>
    ((if IsMapped addr then inetNtop4 (addr 12) (addr 13) (addr 14) (addr 15) else inetNtop6 addr) ++
      ':' :: decimal port.toNat).take 63
  | .other => [':', '0']

/-! ## Sessions -/

/-- `MQVPN_MAX_PATHS` -/
def maxPaths : Nat := 8

/-- The sessions with a tunnel, in the order of the table. -/
def sessionConns (s : Server) : List (Nat × Server.Conn) :=
  (List.range' 1 AddrPool.poolMax).filterMap fun off =>
    (s.sessions off).bind fun c => (s.conns[c]?).bind fun k => if k.tunnelEstablished then some (c, k) else none

/-- `mqvpn_client_info_t` -/
structure ClientInfo where
  username : List Char
  endpoint : List Char
  connectedAtUs : UInt64
  bytesTx : UInt64
  bytesRx : UInt64
  paths : List PathMetrics

/-- `mqvpn_server_get_client_info` -/
def getClientInfo (s : Server) (env : Nat → ConnReport) : List ClientInfo :=
  ((sessionConns s).take maxUsers).map fun (c, k) =>
    { username := k.username.take 63
      endpoint := Control.endpoint (env c).peer
      connectedAtUs := (env c).connectedAtUs
      bytesTx := (env c).stats.totalAppBytes
      bytesRx := ((env c).stats.pathsInfo.map PathMetrics.recvBytes).sum
      paths := (env c).stats.pathsInfo.take maxPaths }

/-- `mqvpn_path_state_label` -/
def pathStateLabel (state : UInt8) : List Char :=
  if state = 0 then "init".toList else if state = 1 then "validating".toList else if state = 2 then "active".toList
  else if state = 3 then "closing".toList else if state = 4 then "closed".toList else "unknown".toList

/-- `derive_mp_state_label` -/
def mpStateLabel (st : ConnStats) : List Char :=
  let active := st.pathsInfo.filter fun p => p.state = 2 ∧ p.appStatus ≠ .frozen
  let standby := active.countP fun p => p.appStatus = .standby
  let available := active.countP fun p => p.appStatus ≠ .standby
  if available + standby ≤ 1 then "single_path".toList
  else if 0 < available ∧ 0 < standby then "active_with_standby".toList
  else if 0 < standby then "standby_only".toList
  else "active_only".toList

/-! ## Texts -/

/-- `CTRL_MAX_RESP_BYTES` -/
def maxRespBytes : Nat := 256 * 1024

/-- An error. -/
def envelope (reason : String) : List Char :=
  "\x7b\"ok\":false,\"error\":\"".toList ++ reason.toList ++ "\"\x7d".toList

/-- `APPEND`: nothing if the text does not fit behind what is there. -/
def append (buf text : List Char) : Option (List Char) :=
  if maxRespBytes ≤ buf.length + text.length then none else some (buf ++ text)

/-- The texts one after the other, or an error if one of them does not fit. -/
def appendAll (texts : List (List Char)) : List Char :=
  (texts.foldlM append []).getD (envelope "response too large")

/-- `PRIu64` -/
def u64 (n : UInt64) : List Char := decimal n.toNat

/-- A loop in which each turn but the first starts with a comma. -/
def separated (turns : List (List (List Char))) : List (List Char) := [[',']].intercalate turns

def pathText (p : PathMetrics) : List Char :=
  "\x7b\"path_id\":".toList ++ u64 p.pathId ++ ",\"srtt_ms\":".toList ++ u64 (p.srtt / 1000) ++
    ",\"min_rtt_ms\":".toList ++ u64 (p.minRtt / 1000) ++ ",\"cwnd\":".toList ++ u64 p.cwnd ++
    ",\"in_flight\":".toList ++ u64 p.bytesInFlight ++ ",\"bytes_tx\":".toList ++ u64 p.sendBytes ++
    ",\"bytes_rx\":".toList ++ u64 p.recvBytes ++ ",\"pkt_sent\":".toList ++ u64 p.pktSend ++
    ",\"pkt_recv\":".toList ++ u64 p.pktRecv ++ ",\"pkt_lost\":".toList ++ u64 p.lost ++
    ",\"state\":".toList ++ decimal p.state.toNat ++ ",\"state_label\":\"".toList ++ pathStateLabel p.state ++
    "\"\x7d".toList

/-- The seconds since a client has connected. -/
def connSec (now connectedAtUs : UInt64) : UInt64 :=
  if 0 < connectedAtUs ∧ connectedAtUs < now then (now - connectedAtUs) / 1000000 else 0

def clientText (now : UInt64) (ci : ClientInfo) : List Char :=
  "\x7b\"user\":\"".toList ++ ci.username ++ "\",\"endpoint\":\"".toList ++ ci.endpoint ++
    "\",\"connected_sec\":".toList ++ u64 (connSec now ci.connectedAtUs) ++ ",\"bytes_tx\":".toList ++ u64 ci.bytesTx ++
    ",\"bytes_rx\":".toList ++ u64 ci.bytesRx ++ ",\"n_paths\":".toList ++ decimal ci.paths.length ++
    ",\"paths\":[".toList

/-- The head of the responses with clients. -/
def headText (n : Nat) : List Char :=
  "\x7b\"ok\":true,\"n_clients\":".toList ++ decimal n ++ ",\"clients\":[".toList

/-- `ctrl_cmd_get_status` -/
def ctrlCmdGetStatus (s : Server) (env : Nat → ConnReport) (now : UInt64) : List Char :=
  let clients := getClientInfo s env
  appendAll ([headText clients.length] ++
    separated (clients.map fun ci =>
      [clientText now ci] ++ separated (ci.paths.map fun p => [pathText p]) ++ ["]\x7d".toList]) ++
    ["]\x7d".toList])

/-- The part about a user in the responses of `get_fec_stats` and `get_all_fec_stats`. -/
def fecText (user : List Char) (st : ConnStats) : List Char :=
  "\"user\":\"".toList ++ user ++ "\",\"enable_fec\":".toList ++ decimal st.enableFec.toNat ++
    ",\"mp_state\":".toList ++ decimal st.mpState.toNat ++ ",\"mp_state_label\":\"".toList ++ mpStateLabel st ++
    "\",\"fec_send_cnt\":".toList ++ decimal st.sendFecCnt.toNat ++ ",\"fec_recover_cnt\":".toList ++
    decimal st.fecRecoverPktCnt.toNat ++ ",\"lost_dgram_cnt\":".toList ++ decimal st.lostDgramCount.toNat ++
    ",\"total_app_bytes\":".toList ++ u64 st.totalAppBytes ++ ",\"standby_app_bytes\":".toList ++
    u64 st.standbyPathAppBytes ++ "\x7d".toList

/-- `ctrl_cmd_get_fec_stats`; `fec`: xquic was built with FEC. -/
def ctrlCmdGetFecStats (s : Server) (env : Nat → ConnReport) (fec : Bool) (req : List Char) : List Char :=
  match (findKey "user".toList req).bind (readString · 64) with
  | none => envelope "user required"
  | some user =>
    if fec = false then envelope "fec not built"
    else
      match (sessionConns s).find? fun (_, k) => k.username = user with
      | none => envelope "user not found"
      | some (c, _) => "\x7b\"ok\":true,".toList ++ fecText user (env c).stats

/-- `ctrl_cmd_get_all_fec_stats` -/
def ctrlCmdGetAllFecStats (s : Server) (env : Nat → ConnReport) (fec : Bool) : List Char :=
  if fec = false then envelope "fec not built"
  else
    let entries := (sessionConns s).take maxUsers
    appendAll ([headText entries.length] ++
      separated (entries.map fun (c, k) => [['{'] ++ fecText (k.username.take 63) (env c).stats]) ++
      ["]\x7d".toList])

/-- The size of the buffer of `ctrl_cmd_list_users`. -/
def usersSize : Nat := maxUsers * 68 + 8

/-- The loop of `ctrl_cmd_list_users`, which stops when a name does not fit. -/
def usersLoop (first : Bool) (buf : List Char) : List (List Char) → List Char
  | [] => buf
  | name :: names =>
    let buf := if first then buf else buf ++ [',']
    if buf.length + (name.length + 2) < usersSize then usersLoop false (buf ++ '"' :: (name ++ ['"'])) names else buf

/-- `ctrl_cmd_list_users` -/
def ctrlCmdListUsers (s : Server) : List Char :=
  "\x7b\"ok\":true,\"users\":".toList ++
    (usersLoop true ['['] ((s.config.users.take maxUsers).map fun u => u.name.take 63) ++ [']']) ++ ['}']

/-- What `ctrl_on_read` sends of a response. -/
def respond (resp : List Char) : List Char :=
  if maxRespBytes - 2 ≤ resp.length then envelope "response too large" else resp


/-! ## Plain texts -/

theorem isPlain_of_valid {name : List Char} (h : ValidName name) : ∀ c ∈ name, isPlain c = true :=
  fun c hc => decide_eq_true (h c hc)

theorem isPlain_digitChar : ∀ d < 16, isPlain d.digitChar = true := by decide

theorem isPlain_toDigits {b : Nat} (hb : 1 < b) (hle : b ≤ 16) (n : Nat) : ∀ c ∈ Nat.toDigits b n, isPlain c = true := by
  induction n using Nat.strongRecOn with
  | ind n ih =>
    intro c hc
    rw [Nat.toDigits_eq_if hb] at hc
    split_ifs at hc with hlt
    · cases List.mem_singleton.1 hc
      exact isPlain_digitChar n (hlt.trans_le hle)
    · rcases List.mem_append.1 hc with hc | hc
      · exact ih (n / b) (Nat.div_lt_self (by omega) hb) c hc
      · cases List.mem_singleton.1 hc
        exact isPlain_digitChar _ ((Nat.mod_lt n (by omega)).trans_le hle)

theorem isPlain_decimal (n : Nat) : ∀ c ∈ decimal n, isPlain c = true := isPlain_toDigits (by decide) (by decide) n

theorem isPlain_inetNtop4 (a b c d : UInt8) : ∀ x ∈ inetNtop4 a b c d, isPlain x = true := by
  have hdot : isPlain '.' = true := rfl
  simp only [inetNtop4, List.forall_mem_append, List.forall_mem_cons]
  exact ⟨isPlain_decimal _, hdot, isPlain_decimal _, hdot, isPlain_decimal _, hdot, isPlain_decimal _⟩

theorem isPlain_inetNtop6 (addr : Fin 16 → UInt8) : ∀ x ∈ inetNtop6 addr, isPlain x = true := by
  have hcolon : ∀ x ∈ [':'], isPlain x = true := fun x hx => List.mem_singleton.1 hx ▸ rfl
  have hnil : ∀ x ∈ ([] : List Char), isPlain x = true := fun x hx => absurd hx List.not_mem_nil
  rw [inetNtop6]
  dsimp only
  generalize zeroRun (words addr) = run
  refine List.forall_mem_append.2 ⟨fun x hx => ?_, ?_⟩
  · obtain ⟨i, -, hi⟩ := List.mem_flatMap.1 hx
    clear hx
    revert x
    split_ifs
    · exact hcolon
    · exact hnil
    · exact hnil
    · exact List.forall_mem_append.2 ⟨hnil, isPlain_inetNtop4 _ _ _ _⟩
    · exact List.forall_mem_append.2 ⟨hnil, isPlain_toDigits (by decide) (by decide) _⟩
    · exact List.forall_mem_append.2 ⟨hcolon, isPlain_inetNtop4 _ _ _ _⟩
    · exact List.forall_mem_append.2 ⟨hcolon, isPlain_toDigits (by decide) (by decide) _⟩
  · split_ifs
    · exact hcolon
    · exact hnil

theorem isPlain_endpoint (peer : Peer) : ∀ x ∈ endpoint peer, isPlain x = true := by
  have hport (port : UInt16) : ∀ x ∈ ':' :: decimal port.toNat, isPlain x = true :=
    List.forall_mem_cons.2 ⟨rfl, isPlain_decimal _⟩
  cases peer with
  | v4 a b c d port =>
    intro x hx
    exact List.forall_mem_append.2 ⟨isPlain_inetNtop4 a b c d, hport port⟩ x (List.mem_of_mem_take hx)
  | v6 addr port =>
    have haddr : ∀ x ∈ if IsMapped addr then inetNtop4 (addr 12) (addr 13) (addr 14) (addr 15) else inetNtop6 addr,
        isPlain x = true := by
      split_ifs
      · exact isPlain_inetNtop4 _ _ _ _
      · exact isPlain_inetNtop6 addr
    intro x hx
    exact List.forall_mem_append.2 ⟨haddr, hport port⟩ x (List.mem_of_mem_take hx)
  | other => exact List.forall_mem_cons.2 ⟨rfl, List.forall_mem_singleton.2 rfl⟩

theorem isPlain_pathStateLabel (state : UInt8) : ∀ x ∈ pathStateLabel state, isPlain x = true := by
  rw [pathStateLabel]
  split_ifs <;> decide

theorem isPlain_mpStateLabel (st : ConnStats) : ∀ x ∈ mpStateLabel st, isPlain x = true := by
  rw [mpStateLabel]
  split_ifs <;> decide

/-! ## Trees -/

theorem text_number (n : Nat) : (Syn.number n).text = decimal n := rfl

theorem text_truth : Syn.truth.text = "true".toList := rfl

def pathTree (p : PathMetrics) : Syn .value :=
  .object .none <| .record
    ["path_id", "srtt_ms", "min_rtt_ms", "cwnd", "in_flight", "bytes_tx", "bytes_rx", "pkt_sent", "pkt_recv", "pkt_lost",
      "state", "state_label"]
    [.number p.pathId.toNat, .number (p.srtt / 1000).toNat, .number (p.minRtt / 1000).toNat, .number p.cwnd.toNat,
      .number p.bytesInFlight.toNat, .number p.sendBytes.toNat, .number p.recvBytes.toNat, .number p.pktSend.toNat,
      .number p.pktRecv.toNat, .number p.lost.toNat, .number p.state.toNat, .plain (pathStateLabel p.state)]

theorem text_pathTree (p : PathMetrics) : (pathTree p).text = pathText p := by
  rw [pathTree, Syn.text_record]
  · unfold pathText
    simp [u64, text_number, Syn.text_plain (isBody_of_plain (isPlain_pathStateLabel p.state))]
  · decide

def clientTree (now : UInt64) (ci : ClientInfo) : Syn .value :=
  .object .none <| .record ["user", "endpoint", "connected_sec", "bytes_tx", "bytes_rx", "n_paths", "paths"]
    [.plain ci.username, .plain ci.endpoint, .number (connSec now ci.connectedAtUs).toNat, .number ci.bytesTx.toNat,
      .number ci.bytesRx.toNat, .number ci.paths.length, .arrayOf (ci.paths.map pathTree)]

theorem flatten_separated (turns : List (List (List Char))) :
    (separated turns).flatten = [','].intercalate (turns.map List.flatten) := by
  rw [separated]
  induction turns with
  | nil => rfl
  | cons turn turns ih =>
    cases turns with
    | nil => simp
    | cons next turns =>
      rw [List.intercalate_cons_cons, List.flatten_append, List.flatten_append, ih, List.map_cons, List.map_cons,
        List.map_cons, List.intercalate_cons_cons]
      simp

theorem text_clientTree (now : UInt64) {ci : ClientInfo} (hname : isBody ci.username = true)
    (hendpoint : isBody ci.endpoint = true) : (clientTree now ci).text =
      ([clientText now ci] ++ separated (ci.paths.map fun p => [pathText p]) ++ ["]\x7d".toList]).flatten := by
  have hpaths : (ci.paths.map pathTree).map Syn.text = (ci.paths.map fun p => [pathText p]).map List.flatten := by
    simp [Function.comp_def, text_pathTree]
  rw [clientTree, Syn.text_record, List.flatten_append, List.flatten_append, flatten_separated, ← hpaths]
  · unfold clientText
    simp [u64, text_number, Syn.text_plain hname, Syn.text_plain hendpoint, Syn.text_arrayOf]
  · decide


/-- What the two commands about FEC say of a user. -/
def fecValues (user : List Char) (st : ConnStats) : List (Syn .value) :=
  [.plain user, .number st.enableFec.toNat, .number st.mpState.toNat, .plain (mpStateLabel st),
    .number st.sendFecCnt.toNat, .number st.fecRecoverPktCnt.toNat, .number st.lostDgramCount.toNat,
    .number st.totalAppBytes.toNat, .number st.standbyPathAppBytes.toNat]

def fecKeys : List String :=
  ["user", "enable_fec", "mp_state", "mp_state_label", "fec_send_cnt", "fec_recover_cnt", "lost_dgram_cnt",
    "total_app_bytes", "standby_app_bytes"]

variable {user : List Char}

theorem text_fecTree (huser : ∀ c ∈ user, isPlain c = true) (st : ConnStats) :
    (Syn.object .none (.record fecKeys (fecValues user st))).text = '{' :: fecText user st := by
  rw [Syn.text_record]
  · unfold fecText fecKeys fecValues
    simp [u64, text_number, Syn.text_plain (isBody_of_plain huser),
      Syn.text_plain (isBody_of_plain (isPlain_mpStateLabel st))]
  · decide

theorem text_fecObject (huser : ∀ c ∈ user, isPlain c = true) (st : ConnStats) :
    (Syn.object .none (.record ("ok" :: fecKeys) (.truth :: fecValues user st))).text =
      "\x7b\"ok\":true,".toList ++ fecText user st := by
  have htree := text_fecTree huser st
  rw [Syn.text_record] at htree
  · obtain ⟨-, htree⟩ := List.cons.inj htree
    rw [Syn.text_record, List.zipWith_cons_cons, ← htree]
    · generalize hrest : List.zipWith (fun (key : String) v => '"' :: (key.toList ++ '"' :: ':' :: Syn.text v)) fecKeys
        (fecValues user st) = rest
      cases rest with
      | nil => exact absurd (congrArg List.length hrest) (by simp [fecKeys, fecValues])
      | cons m rest =>
        rw [List.intercalate_cons_cons]
        simp [text_truth]
    · decide
  · decide

/-- The members of the responses with clients. -/
def clientsTree (n : Nat) (vs : List (Syn .value)) : Syn .members :=
  .record ["ok", "n_clients", "clients"] [.truth, .number n, .arrayOf vs]

theorem text_clientsTree (n : Nat) {vs : List (Syn .value)} {turns : List (List (List Char))}
    (h : vs.map Syn.text = turns.map List.flatten) :
    (Syn.object .none (clientsTree n vs)).text = ([headText n] ++ separated turns ++ ["]\x7d".toList]).flatten := by
  rw [clientsTree, Syn.text_record, List.flatten_append, List.flatten_append, flatten_separated, ← h]
  · unfold headText
    simp [text_truth, text_number, Syn.text_arrayOf]
  · decide

/-! ## Responses -/

/-- The response is one of the errors. -/
def IsEnvelope (resp : List Char) : Prop :=
  ∃ reason ∈ ["response too large", "user required", "fec not built", "user not found"], resp = envelope reason

/-- The response is an object that has an array with this name, whose elements denote these names. -/
def Lists (resp key : List Char) (name : Syn .value → Option (List Char)) (names : List (List Char)) : Prop :=
  ∃ (ws : Blank) (ms : Syn .members), resp = (Syn.object ws ms).text ∧
    ∃ (ws' : Blank) (es : Syn .elems), ms.ownValue key = some (.array ws' es) ∧ es.elements.map name = names.map some

/-- The response is an object whose `user` denotes the name. -/
def Shows (resp name : List Char) : Prop :=
  ∃ (ws : Blank) (ms : Syn .members), resp = (Syn.object ws ms).text ∧ ms.ownString "user".toList = some name

/-- The names of the clients in the responses. -/
def clientNames (s : Server) : List (List Char) := ((sessionConns s).take maxUsers).map fun (_, k) => k.username

/-- The responses are errors, or objects with the names of the users or of the sessions. -/
structure Reports (s : Server) : Prop where
  users : IsEnvelope (respond (ctrlCmdListUsers s)) ∨
    Lists (respond (ctrlCmdListUsers s)) "users".toList Syn.denoted (s.config.users.map User.name)
  status : ∀ env now, IsEnvelope (respond (ctrlCmdGetStatus s env now)) ∨
    Lists (respond (ctrlCmdGetStatus s env now)) "clients".toList (Syn.ownString "user".toList) (clientNames s)
  allFec : ∀ env fec, IsEnvelope (respond (ctrlCmdGetAllFecStats s env fec)) ∨
    Lists (respond (ctrlCmdGetAllFecStats s env fec)) "clients".toList (Syn.ownString "user".toList) (clientNames s)
  fec : ∀ env fec req, IsEnvelope (respond (ctrlCmdGetFecStats s env fec req)) ∨
    ∃ k ∈ (sessionConns s).map Prod.snd, Shows (respond (ctrlCmdGetFecStats s env fec req)) k.username

variable {s : Server} {resp : List Char}

theorem isEnvelope_respond (h : IsEnvelope resp) : IsEnvelope (respond resp) := by
  rw [respond]
  split_ifs
  · exact ⟨_, List.mem_cons_self, rfl⟩
  · exact h

/-- A response is sent as it is, or as an error. -/
theorem respond_cases (resp : List Char) : IsEnvelope (respond resp) ∨ respond resp = resp := by
  rw [respond]
  split_ifs
  · exact .inl ⟨_, List.mem_cons_self, rfl⟩
  · exact .inr rfl

theorem appendAll_cases (texts : List (List Char)) : IsEnvelope (appendAll texts) ∨ appendAll texts = texts.flatten := by
  have hfold (buf : List Char) : texts.foldlM append buf = none ∨ texts.foldlM append buf = some (buf ++ texts.flatten) := by
    induction texts generalizing buf with
    | nil => exact .inr (by simp)
    | cons text texts ih =>
      rw [List.foldlM_cons, append]
      split_ifs
      · exact .inl rfl
      · rw [List.flatten_cons, ← List.append_assoc]
        exact ih (buf ++ text)
  rcases hfold [] with h | h
  · exact .inl ⟨_, List.mem_cons_self, by rw [appendAll, h]; rfl⟩
  · exact .inr (by rw [appendAll, h]; rfl)

theorem mem_sessionConns {c : Nat} {k : Server.Conn} (h : (c, k) ∈ sessionConns s) : k ∈ s.conns := by
  obtain ⟨off, -, hoff⟩ := List.mem_filterMap.1 h
  obtain ⟨c', -, hc'⟩ := Option.bind_eq_some_iff.1 hoff
  obtain ⟨k', hk', heq⟩ := Option.bind_eq_some_iff.1 hc'
  split_ifs at heq
  cases heq
  exact List.mem_of_getElem? hk'

/-- A response with clients is the text of their trees. -/
theorem respond_clients {α : Type} (l : List α) (tree : α → Syn .value) (turn : α → List (List Char))
    (htext : ∀ a ∈ l, (tree a).text = (turn a).flatten) (n : Nat) :
    IsEnvelope (respond (appendAll ([headText n] ++ separated (l.map turn) ++ ["]\x7d".toList]))) ∨
      respond (appendAll ([headText n] ++ separated (l.map turn) ++ ["]\x7d".toList])) =
        (Syn.object .none (clientsTree n (l.map tree))).text := by
  have hvs : (l.map tree).map Syn.text = (l.map turn).map List.flatten := by
    rw [List.map_map, List.map_map]
    exact List.map_congr_left htext
  rcases appendAll_cases ([headText n] ++ separated (l.map turn) ++ ["]\x7d".toList]) with h | h
  · exact .inl (isEnvelope_respond h)
  rw [h, text_clientsTree n hvs]
  exact respond_cases _

/-- A response with clients, of which each tree has the text and the name of its client. -/
theorem lists_clients {α : Type} (l : List α) (tree : α → Syn .value) (turn : α → List (List Char))
    (name : α → List Char) (htext : ∀ a ∈ l, (tree a).text = (turn a).flatten)
    (hname : ∀ a ∈ l, (tree a).ownString "user".toList = some (name a)) (n : Nat) :
    IsEnvelope (respond (appendAll ([headText n] ++ separated (l.map turn) ++ ["]\x7d".toList]))) ∨
      Lists (respond (appendAll ([headText n] ++ separated (l.map turn) ++ ["]\x7d".toList]))) "clients".toList
        (Syn.ownString "user".toList) (l.map name) := by
  refine (respond_clients l tree turn htext n).imp id fun h => ?_
  rw [h]
  refine ⟨.none, clientsTree n (l.map tree), rfl, .none, _, rfl, ?_⟩
  have helements := Syn.elements_arrayOf (l.map tree)
  rw [Syn.arrayOf, Syn.elements] at helements
  rw [helements, List.map_map, List.map_map]
  exact List.map_congr_left hname

theorem status_of_named (h : s.Named) (env : Nat → ConnReport) (now : UInt64) :
    IsEnvelope (respond (ctrlCmdGetStatus s env now)) ∨
      Lists (respond (ctrlCmdGetStatus s env now)) "clients".toList (Syn.ownString "user".toList) (clientNames s) := by
  have hinfo : ∀ ci ∈ getClientInfo s env, (∀ c ∈ ci.username, isPlain c = true) ∧ ∀ c ∈ ci.endpoint, isPlain c = true := by
    intro ci hci
    obtain ⟨⟨c, k⟩, hk, rfl⟩ := List.mem_map.1 hci
    have hname := (h.conns k (mem_sessionConns (List.mem_of_mem_take hk))).valid
    exact ⟨fun x hx => isPlain_of_valid hname x (List.mem_of_mem_take hx), isPlain_endpoint _⟩
  have hnames : clientNames s = (getClientInfo s env).map ClientInfo.username := by
    rw [clientNames, getClientInfo, List.map_map]
    refine List.map_congr_left fun ck hck => ?_
    have hlength := (h.conns ck.2 (mem_sessionConns (List.mem_of_mem_take hck))).length
    exact (List.take_of_length_le (Nat.le_of_lt_succ hlength)).symm
  rw [hnames]
  refine lists_clients _ (clientTree now) _ _ (fun ci hci => ?_) (fun ci hci => ?_) _
  · exact text_clientTree now (isBody_of_plain (hinfo ci hci).1) (isBody_of_plain (hinfo ci hci).2)
  · exact Syn.denoted_plain (hinfo ci hci).1

theorem allFec_of_named (h : s.Named) (env : Nat → ConnReport) (fec : Bool) :
    IsEnvelope (respond (ctrlCmdGetAllFecStats s env fec)) ∨
      Lists (respond (ctrlCmdGetAllFecStats s env fec)) "clients".toList (Syn.ownString "user".toList) (clientNames s) := by
  rw [ctrlCmdGetAllFecStats]
  split_ifs
  · exact .inl (isEnvelope_respond ⟨_, by simp, rfl⟩)
  have hname : ∀ ck ∈ (sessionConns s).take maxUsers, ck.2.username.take 63 = ck.2.username ∧
      ∀ c ∈ ck.2.username, isPlain c = true := by
    intro ck hck
    obtain ⟨hvalid, hlength⟩ := h.conns ck.2 (mem_sessionConns (List.mem_of_mem_take hck))
    exact ⟨List.take_of_length_le (Nat.le_of_lt_succ hlength), isPlain_of_valid hvalid⟩
  refine lists_clients _ (fun ck => .object .none (.record fecKeys (fecValues ck.2.username (env ck.1).stats))) _ _
    (fun ck hck => ?_) (fun ck hck => ?_) _
  · refine (text_fecTree (hname ck hck).2 _).trans ?_
    dsimp only
    rw [(hname ck hck).1]
    simp
  · exact Syn.denoted_plain (hname ck hck).2

theorem fec_of_named (h : s.Named) (env : Nat → ConnReport) (fec : Bool) (req : List Char) :
    IsEnvelope (respond (ctrlCmdGetFecStats s env fec req)) ∨
      ∃ k ∈ (sessionConns s).map Prod.snd, Shows (respond (ctrlCmdGetFecStats s env fec req)) k.username := by
  rw [ctrlCmdGetFecStats]
  cases (findKey "user".toList req).bind (readString · 64) with
  | none => exact .inl (isEnvelope_respond ⟨_, by simp, rfl⟩)
  | some user =>
    dsimp only
    split_ifs
    · exact .inl (isEnvelope_respond ⟨_, by simp, rfl⟩)
    cases hfind : (sessionConns s).find? fun x => decide (x.2.username = user) with
    | none => exact .inl (isEnvelope_respond ⟨_, by simp, rfl⟩)
    | some ck =>
      have hmem := List.mem_of_find?_eq_some hfind
      obtain rfl : ck.2.username = user := by simpa using List.find?_some hfind
      have hplain := isPlain_of_valid (h.conns ck.2 (mem_sessionConns hmem)).valid
      rcases respond_cases ("\x7b\"ok\":true,".toList ++ fecText ck.2.username (env ck.1).stats) with h | h
      · exact .inl h
      · refine .inr ⟨ck.2, List.mem_map_of_mem hmem, ?_⟩
        rw [h]
        exact ⟨.none, _, (text_fecObject hplain _).symm, Syn.denoted_plain hplain⟩

/-! ## The users -/

/-- A name between quotes. -/
def quoted (name : List Char) : List Char := '"' :: (name ++ ['"'])

/-- No name is left out, as long as there is room for the longest ones. -/
theorem usersLoop_eq {names : List (List Char)} (hnames : ∀ name ∈ names, name.length ≤ 63) (first : Bool)
    {buf : List Char} (hroom : buf.length + 66 * names.length < usersSize) :
    usersLoop first buf names =
      buf ++ ((if first ∨ names = [] then [] else [',']) ++ [','].intercalate (names.map quoted)) := by
  induction names generalizing first buf with
  | nil => simp [usersLoop]
  | cons name names ih =>
    obtain ⟨hname, hnames⟩ := List.forall_mem_cons.1 hnames
    rw [List.length_cons] at hroom
    have hcomma : (if first = true then buf else buf ++ [',']).length ≤ buf.length + 1 := by
      split_ifs <;> simp
    rw [usersLoop, if_pos (by omega), ih hnames]
    · have hrest : [','].intercalate ((name :: names).map quoted) =
          quoted name ++ ((if names = [] then [] else [',']) ++ [','].intercalate (names.map quoted)) := by
        cases names <;> simp
      rw [hrest]
      cases first <;> simp [quoted]
    · simp only [List.length_append, List.length_cons, List.length_nil]
      omega

theorem users_of_named (h : s.Named) : IsEnvelope (respond (ctrlCmdListUsers s)) ∨
    Lists (respond (ctrlCmdListUsers s)) "users".toList Syn.denoted (s.config.users.map User.name) := by
  have hnames : (s.config.users.take maxUsers).map (fun u => u.name.take 63) = s.config.users.map User.name := by
    rw [List.take_of_length_le h.count]
    exact List.map_congr_left fun u hu => List.take_of_length_le (Nat.le_of_lt_succ (h.users u hu).length)
  have hplain : ∀ name ∈ s.config.users.map User.name, ∀ c ∈ name, isPlain c = true := by
    intro name hname
    obtain ⟨u, hu, rfl⟩ := List.mem_map.1 hname
    exact isPlain_of_valid (h.users u hu).valid
  have hloop : usersLoop true ['['] (s.config.users.map User.name) =
      '[' :: [','].intercalate ((s.config.users.map User.name).map quoted) := by
    rw [usersLoop_eq (fun name hname => ?_) true]
    · simp
    · have hcount := h.count
      rw [maxUsers] at hcount
      simp only [List.length_map, List.length_singleton, usersSize, maxUsers]
      omega
    · obtain ⟨u, hu, rfl⟩ := List.mem_map.1 hname
      exact Nat.le_of_lt_succ (h.users u hu).length
  have hquoted : ((s.config.users.map User.name).map Syn.plain).map Syn.text =
      (s.config.users.map User.name).map quoted := by
    rw [List.map_map]
    exact List.map_congr_left fun name hname => Syn.text_plain (isBody_of_plain (hplain name hname))
  have htext : ctrlCmdListUsers s = (Syn.object .none (.record ["ok", "users"]
      [.truth, .arrayOf ((s.config.users.map User.name).map .plain)])).text := by
    unfold ctrlCmdListUsers
    rw [hnames, hloop, Syn.text_record]
    · simp only [List.zipWith_cons_cons, List.zipWith_nil_left, Syn.text_arrayOf, hquoted, text_truth]
      simp
    · decide
  rcases respond_cases (ctrlCmdListUsers s) with h | h
  · exact .inl h
  · rw [h, htext]
    refine .inr ⟨.none, _, rfl, .none, _, rfl, ?_⟩
    have helements := Syn.elements_arrayOf ((s.config.users.map User.name).map Syn.plain)
    rw [Syn.arrayOf, Syn.elements] at helements
    rw [helements, List.map_map]
    exact List.map_congr_left fun name hname => Syn.denoted_plain (hplain name hname)

theorem reports_of_named (h : s.Named) : Reports s :=
  ⟨users_of_named h, status_of_named h, allFec_of_named h, fec_of_named h⟩

/-! ## Runs -/

/-- A server with a user and a global key. -/
def globalConfig : Server.Config where
  subnet := "10.0.0.0/24".toList
  authKey := "g".toList
  users := (Builder.run [.addUser "alice".toList "a".toList]).rows
  udpMss mss _ := mss - 2

def globalServer : Server := (Server.new globalConfig).get (by decide)

/-- A connection with the global key and this header. -/
def headerSteps (xUser : List Char) : List Server.Step :=
  [⟨0, .connCreate false⟩, ⟨0, .request 0 { authToken := some "g".toList, xUser }⟩]

end Mqvpn.Control
