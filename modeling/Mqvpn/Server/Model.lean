import Mqvpn.Server.AddrPool
import Mqvpn.Client.Model

/-!
# The server

The server: its connections, the addresses that it assigns to them, its table of
sessions, its users, and the packets it reads from the tunnel. A `Step` is a call into
the server, with what its environment answers while it runs; a run is a list of steps.

A connection is known by the order in which it was created. It stays in the list of
connections when it is closed, as `freed`: the table of sessions holds pointers, and a
slot of the table that still points to a connection that is gone reads what is left of
it. Two more fields of a connection are kept for the statements: that the server has
asked xquic to close it (`closing`), and that a datagram got EAGAIN after the last
notification that datagrams may be written again (`blocked`).

What is left out: log lines, statistics, ICMP messages, the receiving side, the TCP
lane, and the answers to ADDRESS_REQUEST capsules. How a request is parsed is left out
as well: a `Request` is what the server finds in it.
-/

namespace Mqvpn.Server

open Client Reorder

/-! ## Data -/

/-- `MQVPN_MAX_USERS` -/
def maxUsers : Nat := 64

/-- A user of the configuration; no address in `fixedIp` means a dynamic one. -/
structure User where
  name : List Char
  key : List Char
  fixedIp : List Char := []

/-- The part of `mqvpn_config_t` that the server reads. -/
structure Config where
  subnet : List Char
  subnet6 : List Char := []
  authKey : List Char := []
  users : List User := []
  maxClients : Int := 64
  reorder : Reorder.Config := .default
  /-- `xqc_h3_ext_masque_udp_mss`: what is left of a datagram MSS for an inner
      packet, on a stream. -/
  udpMss : Nat → Nat → Nat

/-- `svr_conn_t`; the address 0 is none. -/
structure Conn where
  username : List Char := []
  masqueStreamId : Nat := 0
  assignedIp : Nat := 0
  assignedIp6 : Nat := 0
  hasV6 : Bool := false
  tunnelEstablished : Bool := false
  dgramMss : Nat := 0
  reorderTx : Option Tx := none
  peerReorderSupported : Bool := false
  /-- The streams of the connection with the role of the tunnel. -/
  tunnelStreams : Nat := 0
  /-- The connection is gone. -/
  freed : Bool := false
  closing : Bool := false
  blocked : Bool := false

/-- An entry of `leases`; the offset 0 is an unused entry. -/
structure Lease where
  username : List Char := []
  offset : Nat := 0

/-- An entry of `pinned_ips`. -/
structure Pin where
  username : List Char
  offset : Nat
  ip : Nat

end Server

open Server Client Reorder

/-- `mqvpn_server_t` -/
structure Server where
  config : Server.Config
  pool : AddrPool
  sessions : Nat → Option Nat := fun _ => none
  nSessions : Int := 0
  maxClients : Int
  leases : List Lease := List.replicate maxUsers {}
  pinnedIps : List Pin := []
  tunPaused : Bool := false
  conns : List Server.Conn := []

namespace Server

variable (s : Server)

/-! ## Connections -/

/-- The connection is there. -/
def IsOpen (c : Nat) (k : Server.Conn) : Prop := s.conns[c]? = some k ∧ k.freed = false

def setConn (c : Nat) (k : Server.Conn) : Server := { s with conns := s.conns.set c k }

/-- A slot of the table of sessions. -/
def InTable (off : Nat) : Prop := 0 < off ∧ off ≤ AddrPool.poolMax

instance (off : Nat) : Decidable (InTable off) := inferInstanceAs (Decidable (_ ∧ _))

/-- `cb_h3_conn_create`; `reorderAlloc` is whether the reorder engines could be
    created. -/
def cbH3ConnCreate (nowUs : Nat) (reorderAlloc : Bool) : Server :=
  let reorderTx :=
    if s.config.reorder.mode ≠ .off ∧ reorderAlloc then
      some (txNew s.config.reorder (UInt64.ofNat nowUs))
    else none
  { s with conns := s.conns ++ [{ reorderTx }] }

/-- The lease of a user in `cb_h3_conn_close`: the first entry that is unused or its
    own, if there is one. -/
def saveLease (username : List Char) (offset : Nat) : Server :=
  match s.leases.findIdx? fun l => l.offset = 0 ∨ l.username = username with
  | some i => { s with leases := s.leases.set i { username, offset } }
  | none => s

/-- The slot of a session in `cb_h3_conn_close`. -/
def removeSession (c off : Nat) : Server :=
  if InTable off ∧ s.sessions off = some c then
    { s with sessions := Function.update s.sessions off none, nSessions := s.nSessions - 1 }
  else s

/-- The address of a connection in `cb_h3_conn_close`. -/
def giveBack (k : Server.Conn) (off : Nat) : Server :=
  if ∃ pin ∈ s.pinnedIps, pin.offset = off then s
  else
    let s := if k.username ≠ [] then s.saveLease k.username off else s
    { s with pool := s.pool.release k.assignedIp }

/-- `cb_h3_conn_close` -/
def cbH3ConnClose (c : Nat) (k : Server.Conn) : Server :=
  let s :=
    if k.assignedIp ≠ 0 then
      let off := s.pool.offset k.assignedIp
      (s.removeSession c off).giveBack k off
    else s
  s.setConn c { k with freed := true }

/-! ## Requests -/

/-- What the server finds in the headers of a CONNECT-IP request, and what it meets
    while it answers. -/
structure Request where
  /-- The scheme, the path and the capsule protocol are as required. -/
  valid : Bool := true
  authToken : Option (List Char) := none
  xUser : List Char := []
  /-- The client advertises the reorder shim. -/
  reorder : Bool := false
  streamId : Nat := 0
  /-- The answers to the sends of the response, and of the capsules with the addresses
      and routes of each family. -/
  sent200 : Bool := true
  sentAddr : Bool := true
  sentAddr6 : Bool := true
  sentRoute : Bool := true
  sentRoute6 : Bool := true

/-- `svr_auth_required` -/
def AuthRequired : Prop := s.config.authKey ≠ [] ∨ s.config.users ≠ []

instance : Decidable s.AuthRequired := inferInstanceAs (Decidable (_ ∨ _))

/-- `svr_auth_check`: the name that goes with a token. -/
def authCheck (authToken : Option (List Char)) : Option (List Char) :=
  match authToken with
  | none => none
  | some token =>
    if s.config.authKey ≠ [] ∧ token = s.config.authKey then some "(global)".toList
    else (s.config.users.find? fun u => u.key ≠ [] ∧ token = u.key).map User.name

/-- The name that the connection gets in `svr_connect_ip_on_request`: nothing if the
    request is rejected. -/
def authenticate (k : Server.Conn) (r : Request) : Option (List Char) :=
  if r.valid = false then none
  else if s.AuthRequired then
    (s.authCheck r.authToken).map fun username =>
      if username = "(global)".toList ∧ r.xUser ≠ [] then r.xUser.take 63 else username
  else some k.username

/-- The pin of a user, if it has a name. -/
def pinOf (username : List Char) : Option Pin :=
  if username = [] then none else s.pinnedIps.find? fun pin => pin.username = username

/-- The address that the lease of a user still gets, with the pool after it. -/
def restoreLease (username : List Char) : Option (AddrPool × Nat) :=
  if username = [] then none
  else
    match s.leases.find? fun l => l.offset ≠ 0 ∧ l.username = username with
    | some l => s.pool.allocAt l.offset
    | none => none

/-- The address for a user in `svr_masque_send_response`, with the pool after it. -/
def assignIp (username : List Char) : Option (AddrPool × Nat) :=
  match s.pinOf username with
  | some pin => some (s.pool, pin.ip)
  | none =>
    match s.restoreLease username with
    | some r => some r
    | none => s.pool.alloc

/-- The request gets as far as the assignment of an address. -/
def Admits (r : Request) : Prop := s.nSessions < s.maxClients ∧ r.sent200 = true

instance (r : Request) : Decidable (s.Admits r) := inferInstanceAs (Decidable (_ ∧ _))

/-- All capsules could be sent. -/
def Request.Delivered (r : Request) (v6 connV6 : Bool) : Prop :=
  r.sentAddr = true ∧ (v6 = true → r.sentAddr6 = true) ∧ r.sentRoute = true ∧
    (connV6 = true → r.sentRoute6 = true)

instance (r : Request) (v6 connV6 : Bool) : Decidable (r.Delivered v6 connV6) :=
  inferInstanceAs (Decidable (_ ∧ _))

/-- The slot of a session in `svr_masque_send_response`. -/
def addSession (c off : Nat) : Server :=
  if InTable off then
    { s with sessions := Function.update s.sessions off (some c), nSessions := s.nSessions + 1 }
  else s

/-- The end of `svr_masque_send_response`, with an address for the connection. -/
def establish (c : Nat) (k : Server.Conn) (r : Request) (ip : Nat) : Server :=
  let off := s.pool.offset ip
  let hasV6 := k.hasV6 || s.pool.hasV6
  if r.Delivered s.pool.hasV6 hasV6 then
    let assignedIp6 := if s.pool.hasV6 then s.pool.get6 off else k.assignedIp6
    (s.addSession c off).setConn c
      { k with assignedIp := ip, assignedIp6, hasV6, tunnelEstablished := true }
  else
    -- `fail_release_ip`
    { s with pool := s.pool.release ip }.setConn c
      { k with assignedIp := 0, assignedIp6 := 0, hasV6 := false, masqueStreamId := 0 }

/-- `svr_masque_send_response` -/
def svrMasqueSendResponse (c : Nat) (k : Server.Conn) (r : Request) : Server :=
  if s.Admits r then
    let k := { k with masqueStreamId := r.streamId }
    match s.assignIp k.username with
    | some (pool, ip) => { s with pool }.establish c k r ip
    | none => s.setConn c k
  else s.setConn c k

/-- `cb_request_read` for the headers of a CONNECT-IP request. -/
def svrConnectIpOnRequest (c : Nat) (k : Server.Conn) (r : Request) : Server :=
  let k := { k with
    tunnelStreams := k.tunnelStreams + 1
    peerReorderSupported := k.peerReorderSupported || r.reorder }
  match s.authenticate k r with
  | some username => s.svrMasqueSendResponse c { k with username } r
  | none => s.setConn c k

/-- `cb_request_close` for a stream with the role of the tunnel. -/
def cbRequestClose (c : Nat) (k : Server.Conn) : Server :=
  if k.tunnelStreams = 0 then s
  else s.setConn c { k with tunnelStreams := k.tunnelStreams - 1, tunnelEstablished := false }

/-! ## Packets from the tunnel -/

/-- `cb_dgram_write` -/
def cbDgramWrite (c : Nat) (k : Server.Conn) : Server :=
  { s with tunPaused := false }.setConn c { k with blocked := false }

/-- `cb_dgram_mss_updated` -/
def cbDgramMssUpdated (c : Nat) (k : Server.Conn) (mss : Nat) : Server :=
  s.setConn c { k with dgramMss := mss }

/-- A number in network order. -/
def ofBytes (l : Bytes) : Nat := l.foldl (fun a b => a * 256 + b.toNat) 0

/-- The offset of the destination of a packet. -/
def dstOffset (pkt : Bytes) : Option Nat :=
  if ipVersion pkt = 4 ∧ 20 ≤ pkt.length then some (s.pool.offset (ofBytes ((pkt.drop 16).take 4)))
  else if ipVersion pkt = 6 ∧ 40 ≤ pkt.length ∧ s.pool.hasV6 then
    some (s.pool.offset6 (ofBytes ((pkt.drop 24).take 16)))
  else none

/-- The session that a packet is for. -/
def target (pkt : Bytes) : Option Nat :=
  match s.dstOffset pkt with
  | some off => if InTable off then s.sessions off else none
  | none => none

/-- The `udp_mss` of a connection: 0 as long as there is no datagram MSS. -/
def Conn.udpMss (k : Server.Conn) (cfg : Server.Config) : Nat :=
  if 0 < k.dgramMss then cfg.udpMss k.dgramMss k.masqueStreamId else 0

/-- What the reorder sender has for a packet, and whether the packet may go on, with the
    sender after it. -/
def Conn.peek (k : Server.Conn) (cfg : Server.Config) (nowUs : Nat) (t : TunPacket) : Bool × TxPeek × Option Tx :=
  let udpMss := k.udpMss cfg
  let raw := ¬(0 < udpMss ∧ udpMss < t.pkt.length)
  match k.reorderTx with
  | some tx =>
    if k.peerReorderSupported ∧ cfg.reorder.mode ≠ .off ∧ 0 < udpMss then
      let (pk, tx) := tx.peek t.pkt nowUs (udpMss % 2 ^ 32) t.alloc
      match pk.action with
      | .stamp => (true, pk, some tx)
      | .dropMtu => (false, pk, some tx)
      | .raw => (raw, pk, some tx)
    else (raw, { action := .raw }, some tx)
  | none => (raw, { action := .raw }, none)

/-- The TTL or hop limit of a packet. -/
def ttl (pkt : Bytes) : UInt8 := if ipVersion pkt = 4 then pkt.getD 8 0 else pkt.getD 7 0

/-- The datagram of `mqvpn_server_on_tun_packet`. -/
def sendDatagram (c : Nat) (k : Server.Conn) (nowUs : Nat) (t : TunPacket) (pk : TxPeek) : Server × Code :=
  if packetBufSize < t.pkt.length then (s, .invalidArg)
  else if ttl t.pkt ≤ 1 then (s, .ok)
  else if t.framed = false then (s, .engine)
  else
    match t.send with
    | .again => ({ s with tunPaused := true }.setConn c { k with blocked := true }, .again)
    | .error => (s, .ok)
    | .ok => (s.setConn c { k with reorderTx := k.reorderTx.map (·.commit pk nowUs) }, .ok)

/-- `mqvpn_server_on_tun_packet` -/
def onTunPacket (nowUs : Nat) (t : TunPacket) : Server × Code :=
  if t.pkt.length = 0 then (s, .invalidArg)
  else if s.nSessions = 0 then (s, .ok)
  else if s.tunPaused then (s, .again)
  else
    match s.target t.pkt with
    | none => (s, .ok)
    | some c =>
      match s.conns[c]? with
      | none => (s, .ok)
      | some k =>
        if k.tunnelEstablished = false then (s, .ok)
        else
          let (go, pk, reorderTx) := k.peek s.config nowUs t
          let k := { k with reorderTx }
          let s := s.setConn c k
          if go then s.sendDatagram c k nowUs t pk else (s, .ok)

/-! ## Users -/

/-- The name can stand in the answers of the control API. -/
def ValidName (name : List Char) : Prop := ∀ c ∈ name, c ≠ '"' ∧ c ≠ '\\' ∧ 0x20 ≤ c.toNat

instance (name : List Char) : Decidable (ValidName name) := List.decidableBAll _ name

/-- `mqvpn_server_add_user` -/
def addUser (name key : List Char) : Server :=
  if name = [] ∨ key = [] ∨ ¬ValidName name then s
  else
    match s.config.users.findIdx? fun u => u.name = name with
    | some i =>
      { s with config := { s.config with
          users := s.config.users.modify i fun u => { u with key := key.take 255 } } }
    | none =>
      if maxUsers ≤ s.config.users.length then s
      else
        { s with config := { s.config with
            users := s.config.users ++ [{ name := name.take 63, key := key.take 255 }] } }

/-- The user has a session: `is_connected` -/
def IsConnected (name : List Char) : Prop :=
  ∃ off ∈ List.range' 1 AddrPool.poolMax, ∃ c ∈ s.sessions off, ∃ k ∈ s.conns[c]?, k.username = name

instance (name : List Char) : Decidable (s.IsConnected name) :=
  inferInstanceAs (Decidable (∃ off ∈ List.range' 1 AddrPool.poolMax, _))

/-- The first pin of a user is taken away; its address goes back to the pool unless the
    user is connected. -/
def unpin (name : List Char) : Server :=
  match s.pinnedIps.findIdx? fun pin => pin.username = name with
  | none => s
  | some i =>
    match s.pinnedIps[i]? with
    | none => s
    | some pin =>
      let pool := if s.IsConnected name then s.pool else s.pool.release pin.ip
      { s with pool, pinnedIps := s.pinnedIps.eraseIdx i }

/-- The sessions of a user are closed: `xqc_h3_conn_close` -/
def disconnect (name : List Char) : Server :=
  { s with conns := s.conns.mapIdx fun c k =>
      if k.username = name ∧ ∃ off ∈ List.range' 1 AddrPool.poolMax, s.sessions off = some c then
        { k with closing := true }
      else k }

/-- `mqvpn_server_remove_user` -/
def removeUser (name : List Char) : Server :=
  if name = [] then s
  else
    match s.config.users.findIdx? fun u => u.name = name with
    | none => s
    | some i =>
      ({ s with config := { s.config with users := s.config.users.eraseIdx i } }.unpin name).disconnect name

/-- The offset that `mqvpn_server_set_user_fixed_ip` reads from a text. -/
def fixedOffset (ip : List Char) : Option Nat :=
  match Text.inetPton4 ip with
  | none => none
  | some addr =>
    if addr ≤ s.pool.base ∨ s.pool.poolSize < addr - s.pool.base then none else some (addr - s.pool.base)

/-- A pin is added, if its offset is vacant and there is room for it. -/
def pin (name : List Char) (off : Nat) : Option Server :=
  match s.pool.allocAt off with
  | none => none
  | some (pool, ip) =>
    if maxUsers ≤ s.pinnedIps.length then none
    else some { s with pool, pinnedIps := s.pinnedIps ++ [{ username := name.take 63, offset := off, ip }] }

/-- The text of the fixed address of a user. -/
def setFixedIp (i : Nat) (ip : List Char) : Server :=
  { s with config := { s.config with
      users := s.config.users.modify i fun u => { u with fixedIp := ip.take 19 } } }

/-- `mqvpn_server_set_user_fixed_ip` -/
def setUserFixedIp (name ip : List Char) : Server :=
  if name = [] then s
  else
    match s.config.users.findIdx? fun u => u.name = name with
    | none => s
    | some i =>
      if ip = [] then (s.unpin name).setFixedIp i []
      else
        match s.fixedOffset ip with
        | none => s
        | some off =>
          match (s.unpin name).pin name off with
          | none => s.unpin name
          | some s => s.setFixedIp i ip

/-! ## Steps -/

/-- A call into the server, with the answers that it gets. -/
inductive Call
  | connCreate (reorderAlloc : Bool)
  | connClose (c : Nat)
  | request (c : Nat) (r : Request)
  | requestClose (c : Nat)
  | dgramWrite (c : Nat)
  | dgramMssUpdated (c : Nat) (mss : Nat)
  | onTunPacket (t : TunPacket)
  | addUser (name key : List Char)
  | removeUser (name : List Char)
  | setUserFixedIp (name ip : List Char)

/-- A call and the time at which it is made. -/
structure Step where
  nowUs : Nat
  call : Call

/-- A callback of xquic for a connection; once it is gone, there is none. -/
def callback (c : Nat) (f : Server.Conn → Server) : Server :=
  match s.conns[c]? with
  | some k => if k.freed then s else f k
  | none => s

def step (st : Step) : Server :=
  match st.call with
  | .connCreate reorderAlloc => s.cbH3ConnCreate st.nowUs reorderAlloc
  | .connClose c => s.callback c fun k => s.cbH3ConnClose c k
  | .request c r => s.callback c fun k => s.svrConnectIpOnRequest c k r
  | .requestClose c => s.callback c fun k => s.cbRequestClose c k
  | .dgramWrite c => s.callback c fun k => s.cbDgramWrite c k
  | .dgramMssUpdated c mss => s.callback c fun k => s.cbDgramMssUpdated c k mss
  | .onTunPacket t => (s.onTunPacket st.nowUs t).1
  | .addUser name key => s.addUser name key
  | .removeUser name => s.removeUser name
  | .setUserFixedIp name ip => s.setUserFixedIp name ip

def run (steps : List Step) : Server := steps.foldl step s

/-- The pin of a user in `mqvpn_server_new`, where its address can be had. -/
def reserve (u : User) : Server :=
  if u.fixedIp = [] then s
  else
    match s.fixedOffset u.fixedIp with
    | none => s
    | some off =>
      match s.pool.allocAt off with
      | none => s
      | some (pool, ip) =>
        { s with pool, pinnedIps := s.pinnedIps ++ [{ username := u.name, offset := off, ip }] }

/-- `mqvpn_server_new` -/
def new (cfg : Server.Config) : Option Server :=
  match AddrPool.init cfg.subnet with
  | none => none
  | some pool =>
    match if cfg.subnet6 = [] then some pool else pool.init6 cfg.subnet6 with
    | none => none
    | some pool =>
      let maxClients := if 0 < cfg.maxClients then cfg.maxClients else 64
      some (cfg.users.foldl reserve { config := cfg, pool, maxClients })

/-! ## Samples -/

/-- A server with two users, of which one has a fixed address. -/
def sampleConfig : Server.Config where
  subnet := "10.0.0.0/24".toList
  users := [{ name := "alice".toList, key := "a".toList, fixedIp := "10.0.0.5".toList },
    { name := "bob".toList, key := "b".toList }]
  udpMss mss _ := mss - 2

/-- The first state of this server. -/
def sample : Server := (new sampleConfig).get (by decide)

theorem new_sample : new sampleConfig = some sample := (Option.some_get _).symm

/-- A request of each of the two. -/
def alice : Request := { authToken := some "a".toList }
def bob : Request := { authToken := some "b".toList }

end Server

end Mqvpn
