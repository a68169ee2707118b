import Mqvpn.Client.Table
import Mqvpn.Path.Rotation
import Mqvpn.Reorder.Tx

/-!
# The client

The client: its state machine, its path table, its connection and the packets it
reads from the tunnel. A `Step` is a call into the client, with what its
environment answers while it runs (memory, xquic's answers, one reading of the
clock); a run is a list of steps.

The callbacks of xquic are steps like the calls of the platform. A tick is the
steps `tickHandshakeWatchdog`, `tickPathRecovery` and `tickReconnect`; the
engine runs between them and in a disconnect, and what it calls back there comes
as steps of its own. That covers a disconnect too: once the client has closed a
connection, xquic only calls back that it is gone, which finds the same client
before and after the last line of the disconnect.

xquic is not modelled, only what the client gets from it. Of a connection, the
fields `handshaken`, `closing`, `mp` and `blocked` are kept for the statements: no
function of the client reads them. The outputs of the client are recorded in the
same way (`Output`). What is left out: log lines, statistics, ICMP replies, the
receiving side, and the choice of the TCP lane, which is an input.
-/

namespace Mqvpn.Client

open Mqvpn.Path Reorder

/-! ## Data -/

/-- `mqvpn_client_state_t` -/
inductive State
  | idle
  | connecting
  | authenticating
  | tunnelReady
  | established
  | reconnecting
  | closed
  deriving DecidableEq

/-- `state_transitions` -/
def stateTransitions : State → State → Bool
  | .idle, .connecting => true
  | .connecting, .authenticating | .connecting, .reconnecting | .connecting, .closed => true
  | .authenticating, .tunnelReady | .authenticating, .reconnecting | .authenticating, .closed => true
  | .tunnelReady, .established | .tunnelReady, .closed => true
  | .established, .reconnecting | .established, .closed => true
  | .reconnecting, .connecting | .reconnecting, .closed => true
  | _, _ => false

/-- The part of `mqvpn_config_t` that the client reads. -/
structure Config where
  multipath : Bool := true
  /-- The scheduler is `MQVPN_SCHED_BACKUP_FEC`. -/
  backupFec : Bool := false
  reconnectEnable : Bool := true
  reconnectIntervalSec : Int := 5
  tunMtu : Int := 0
  reorder : Reorder.Config := .default
  /-- `xqc_h3_ext_masque_udp_mss`: what is left of a datagram MSS for an inner
      packet, on a stream. -/
  udpMss : Nat → Nat → Nat
  udpMss_le : ∀ mss streamId, udpMss mss streamId ≤ mss

/-- An address that the server assigns: `assigned_ip` and `assigned_prefix`. -/
structure Address where
  ip : Bytes
  prefixLen : Nat

/-- `cli_conn_t`; an address is absent as long as it is not assigned. -/
structure Conn where
  dgramMss : Nat
  masqueStreamId : Nat := 0
  tunnelOk : Bool := false
  addr : Option Address := none
  addr6 : Option Address := none
  reorderTx : Option Tx := none
  peerReorderSupported : Bool := false
  /-- The handshake is finished. -/
  handshaken : Bool := false
  /-- The client has asked xquic to close the connection. -/
  closing : Bool := false
  mp : Mp := {}
  /-- A datagram got EAGAIN after the last notification that datagrams may be
      written again. -/
  blocked : Bool := false

/-- `mqvpn_tunnel_info_t` -/
structure TunnelInfo where
  assigned : Address
  serverIp : Bytes
  serverPrefixLen : Nat
  mtu : Int
  assigned6 : Option Address

/-- A call of the platform's callbacks. -/
inductive Output
  | stateChanged (old new : State)
  | tunnelConfigReady (info : TunnelInfo)
  | tunnelClosed
  | readyForTun
  | mtuUpdated (mtu : Int)
  | reconnectScheduled (delaySec : Int)

end Client

open Client Mqvpn.Path Reorder

/-- `mqvpn_client_t`, as `client_init_handle` leaves it unless told otherwise. -/
structure Client where
  config : Client.Config
  state : State := .idle
  conn : Option Conn := none
  mtu : Int := 0
  tunActive : Bool := false
  backpressure : Bool := false
  lastNotifiedMtu : Int := 0
  paths : List Entry := []
  nextPathHandle : Int := 1
  multipathReady : Bool := false
  primaryPathIdx : Nat := 0
  reconnectAttempts : Nat := 0
  reconnectScheduledUs : Nat := 0
  shuttingDown : Bool := false
  connId : Nat := 0
  handshakeStartedUs : Nat := 0
  trace : List Output := []

namespace Client

/-! ## State changes -/

/-- `RECONNECT_BACKOFF_MAX_SEC` -/
def reconnectBackoffMaxSec : Int := 60

/-- `HANDSHAKE_STALL_TIMEOUT_MS` -/
def handshakeStallTimeoutMs : Nat := 5000

def emit (c : Client) (o : Output) : Client := { c with trace := c.trace ++ [o] }

/-- `client_set_state`, past its assertion. -/
def setState (c : Client) (nowUs : Nat) (new : State) : Client :=
  if c.state = new then c
  else
    let startedUs :=
      if new = .connecting then nowUs
      else if c.state = .connecting then 0
      else c.handshakeStartedUs
    { c with handshakeStartedUs := startedUs, state := new }.emit (.stateChanged c.state new)

/-- `client_handshake_stalled` -/
def HandshakeStalled (c : Client) (nowUs : Nat) : Prop :=
  c.state = .connecting ∧ c.handshakeStartedUs ≠ 0 ∧ c.handshakeStartedUs < nowUs ∧
    handshakeStallTimeoutMs * 1000 ≤ nowUs - c.handshakeStartedUs

instance (c : Client) (nowUs : Nat) : Decidable (c.HandshakeStalled nowUs) :=
  inferInstanceAs (Decidable (_ ∧ _))

/-- The loop of `client_reconnect_delay_sec`. -/
def reconnectDelayLoop : (rounds : Nat) → (delay : Int) → Int
  | 0, delay => delay
  | rounds + 1, delay =>
    if delay < reconnectBackoffMaxSec then reconnectDelayLoop rounds (delay * 2) else delay

/-- `client_reconnect_delay_sec` -/
def reconnectDelaySec (c : Client) : Int :=
  let base := if c.config.reconnectIntervalSec ≤ 0 then 5 else c.config.reconnectIntervalSec
  min (reconnectDelayLoop c.reconnectAttempts base) reconnectBackoffMaxSec

/-- `client_arm_reconnect_timer`, without the delay it returns. -/
def armReconnectTimer (c : Client) (nowUs : Nat) : Client :=
  { c with
    reconnectAttempts := c.reconnectAttempts + 1
    reconnectScheduledUs := (nowUs + c.reconnectDelaySec.toNat * 1000000) % 2 ^ 64 }

/-! ## Connections -/

/-- What the environment answers to `cli_start_connection`. -/
structure Start where
  alloc : Bool := true
  /-- `xqc_h3_connect`: the datagram MSS of the new connection. -/
  h3Connect : Option Nat
  /-- The reorder engines could both be created. -/
  reorderAlloc : Bool := true

/-- `xqc_conn_close` and `xqc_h3_conn_close` -/
def Conn.close (k : Conn) : Conn := { k with closing := true }

/-- The seed of the reorder engines of a connection. -/
def seedBase (c : Client) (nowUs : Nat) : UInt64 :=
  UInt64.ofNat nowUs ^^^ (UInt64.ofNat c.connId <<< 32)

/-- `cli_start_connection`, and whether it succeeds. -/
def startConnection (c : Client) (nowUs : Nat) (start : Start) : Bool × Client :=
  let c := { c with connId := (c.connId + 1) % 2 ^ 32 }
  if start.alloc = false then (false, c)
  else if ∃ p ∈ c.paths[c.primaryPathIdx]?, ¬p.Ready then (false, c)
  else
    match start.h3Connect with
    | none => (false, c)
    | some dgramMss =>
      let reorderTx :=
        if c.config.reorder.mode ≠ .off ∧ start.reorderAlloc then
          some (txNew c.config.reorder (c.seedBase nowUs))
        else none
      (true, { c with
        paths := c.paths.modify c.primaryPathIdx (bootstrap nowUs)
        conn := some { dgramMss, reorderTx } })

/-- `mqvpn_client_connect` -/
def connect (c : Client) (nowUs : Nat) (start : Start) : Client :=
  if stateTransitions c.state .connecting = false then c
  else
    match c.startConnection nowUs start with
    | (false, c) => c
    | (true, c) => c.setState nowUs .connecting

/-- `mqvpn_client_disconnect` -/
def disconnect (c : Client) (nowUs : Nat) : Client :=
  if c.state = .closed ∨ c.state = .idle then c
  else { c with shuttingDown := true, conn := c.conn.map Conn.close }.setState nowUs .closed

/-- `cb_h3_conn_close` -/
def cbH3ConnClose (c : Client) (nowUs : Nat) : Client :=
  let c := { c with conn := none }.emit .tunnelClosed
  if c.shuttingDown = false ∧ c.config.reconnectEnable then
    ((c.armReconnectTimer nowUs).setState nowUs .reconnecting).emit
      (.reconnectScheduled c.reconnectDelaySec)
  else c.setState nowUs .closed

/-- `tick_handshake_watchdog` -/
def tickHandshakeWatchdog (c : Client) (nowUs : Nat) : Client :=
  if c.shuttingDown then c
  else if ¬c.HandshakeStalled nowUs then c
  else
    let c := { c with handshakeStartedUs := 0 }
    match c.conn with
    | some k => { c with conn := some k.close }
    | none => (c.armReconnectTimer nowUs).setState nowUs .reconnecting

/-- `client_reset_paths_for_reconnect` -/
def resetPathsForReconnect (c : Client) (nowUs : Nat) : Client :=
  { c with multipathReady := false, paths := c.paths.map (resetPathRuntime nowUs) }

/-- The client that `tick_reconnect` starts a connection for: its paths are reset
    and its primary path is rotated. -/
def prepareReconnect (c : Client) (nowUs : Nat) : Client :=
  let c := { c with reconnectScheduledUs := 0 }.resetPathsForReconnect nowUs
  { c with primaryPathIdx := (selectPrimary c.primaryPathIdx c.paths).getD c.primaryPathIdx }

/-- `tick_reconnect` -/
def tickReconnect (c : Client) (nowUs : Nat) (start : Start) : Client :=
  if c.state ≠ .reconnecting ∨ c.reconnectScheduledUs = 0 then c
  else if nowUs < c.reconnectScheduledUs then c
  else
    match (c.prepareReconnect nowUs).startConnection nowUs start with
    | (false, c) => (c.armReconnectTimer nowUs).emit (.reconnectScheduled c.reconnectDelaySec)
    | (true, c) => c.setState nowUs .connecting

/-- `cb_h3_conn_handshake_finished`; `streamId` is the id of the request stream,
    if `cli_masque_start_tunnel` could open it. -/
def cbH3ConnHandshakeFinished (c : Client) (k : Conn) (nowUs dgramMss : Nat) (streamId : Option Nat) :
    Client :=
  { c with conn := some { k with
      dgramMss
      masqueStreamId := streamId.getD k.masqueStreamId
      handshaken := true } }.setState nowUs .authenticating

/-! ## The tunnel -/

/-- `IPV6_MIN_MTU` -/
def ipv6MinMtu : Int := 1280

/-- `apply_mtu_cap` -/
def applyMtuCap (cfgMtu negotiated : Int) : Int :=
  if 0 < cfgMtu ∧ cfgMtu < negotiated then cfgMtu else negotiated

/-- The floor of an MTU where IPv6 is in play. -/
def floor6 (v6 : Bool) (mtu : Int) : Int := if v6 ∧ mtu < ipv6MinMtu then ipv6MinMtu else mtu

/-- The conversion of a `size_t` to an `int`. -/
def toInt (n : Nat) : Int := Int.bmod n (2 ^ 32)

/-- The `udp_mss` of a connection: 0 as long as there is no datagram MSS. -/
def Conn.udpMss (k : Conn) (cfg : Client.Config) : Nat :=
  if 0 < k.dgramMss then cfg.udpMss k.dgramMss k.masqueStreamId else 0

/-- The MTU computation of `cli_connect_ip_on_body`. -/
def tunMtu (cfg : Client.Config) (udpMss : Nat) (v6 : Bool) : Int :=
  let mtu := if 68 ≤ udpMss then toInt udpMss else ipv6MinMtu
  let mtu := applyMtuCap cfg.tunMtu (floor6 v6 mtu)
  if cfg.reorder.mode ≠ .off then floor6 v6 (mtu - hdrLen) else mtu

/-- An address in an ADDRESS_ASSIGN capsule. -/
structure Assigned extends Address where
  ipVersion : Nat

/-- What a capsule of the tunnel stream holds. -/
inductive Capsule
  | addressAssign (entries : List Assigned)
  | routeAdvertisement (valid : Bool)
  | other

/-- The first address of each family is kept. -/
def Conn.assign (k : Conn) (a : Assigned) : Conn :=
  if a.ipVersion = 4 ∧ k.addr.isNone then { k with addr := some a.toAddress }
  else if a.ipVersion = 6 ∧ k.addr6.isNone then { k with addr6 := some a.toAddress }
  else k

/-- `process_capsules` on the capsules that are complete. A bad route
    advertisement stays in the buffer, and with it all that follows. -/
def Conn.processCapsules (k : Conn) : List Capsule → Conn
  | [] => k
  | .addressAssign entries :: rest => (entries.foldl Conn.assign k).processCapsules rest
  | .routeAdvertisement true :: rest | .other :: rest => k.processCapsules rest
  | .routeAdvertisement false :: _ => k

/-- What the platform is told of the tunnel; the server is the first host of the
    assigned subnet. -/
def Conn.tunnelInfo (k : Conn) (addr : Address) (mtu : Int) : TunnelInfo where
  assigned := addr
  serverIp := addr.ip.take 3 ++ [1]
  serverPrefixLen := addr.prefixLen
  mtu
  assigned6 := k.addr6

/-- The primary path is validated by the handshake. -/
def validatePrimary (nowUs : Nat) (p : Entry) : Entry :=
  if p.platformAttached ∧ p.state = .validating then
    (p.onEvent nowUs .validationOk (some { validatedTarget := .active, nowUs })).1
  else p

/-- The platform hears of the tunnel: the end of `cli_connect_ip_on_body`. -/
def setUpTunnel (c : Client) (k : Conn) (addr : Address) (nowUs : Nat) : Client :=
  let mtu := tunMtu c.config (k.udpMss c.config) k.addr6.isSome
  let c := { c with
    conn := some k
    mtu
    paths := c.paths.modify c.primaryPathIdx (validatePrimary nowUs) }
  let c := (c.setState nowUs .tunnelReady).emit (.tunnelConfigReady (k.tunnelInfo addr mtu))
  { c with reconnectAttempts := 0 }

/-- `cli_connect_ip_on_body`: `capsules` are those that the new bytes complete,
    and `buffered` is whether there was room for all the bytes. -/
def connectIpOnBody (c : Client) (k : Conn) (nowUs : Nat) (capsules : List Capsule) (buffered : Bool) :
    Client :=
  let k := k.processCapsules capsules
  match k.addr with
  | some addr =>
    if buffered ∧ c.state ≠ .established ∧ c.state ≠ .tunnelReady then c.setUpTunnel k addr nowUs
    else { c with conn := some k }
  | none => { c with conn := some k }

/-- `cli_connect_ip_on_headers`, for a response with or without the status 200
    and the reorder header. -/
def connectIpOnHeaders (c : Client) (k : Conn) (ok reorder : Bool) : Client :=
  { c with conn := some { k with
      tunnelOk := k.tunnelOk || ok
      peerReorderSupported := k.peerReorderSupported || reorder } }

/-- `cb_request_close` -/
def cbRequestClose (c : Client) (k : Conn) : Client := { c with conn := some { k with tunnelOk := false } }

/-- `mqvpn_client_set_tun_active` -/
def setTunActive (c : Client) (nowUs : Nat) (active : Bool) : Client :=
  let c := { c with tunActive := active }
  if active ∧ c.state = .tunnelReady then c.setState nowUs .established else c

/-- The MTU computation of `cb_dgram_mss_updated`. -/
def updatedMtu (cfg : Client.Config) (udpMss : Nat) (v6 : Bool) : Int :=
  applyMtuCap cfg.tunMtu (floor6 v6 (toInt udpMss))

/-- `cb_dgram_mss_updated` -/
def cbDgramMssUpdated (c : Client) (k : Conn) (mss : Nat) : Client :=
  let k := { k with dgramMss := mss }
  let c := { c with conn := some k }
  let udpMss := c.config.udpMss mss k.masqueStreamId
  if c.tunActive ∧ 68 ≤ udpMss then
    let mtu := updatedMtu c.config udpMss k.addr6.isSome
    if mtu ≠ c.lastNotifiedMtu then
      { c with mtu, lastNotifiedMtu := mtu }.emit (.mtuUpdated mtu)
    else c
  else c

/-- `cb_dgram_write` -/
def cbDgramWrite (c : Client) (k : Conn) : Client :=
  let c := { c with conn := some { k with blocked := false } }
  if c.backpressure then { c with backpressure := false }.emit .readyForTun else c

/-! ## Packets from the tunnel -/

/-- The error codes of `mqvpn_client_on_tun_packet`. -/
inductive Code
  | ok
  | invalidArg
  | engine
  | again
  deriving DecidableEq

/-- The outcome of `tun_decide_lane`; a drop says which test the packet failed. -/
inductive Verdict
  | proceed
  | tcpLane
  | dropMtu
  | overMtu
  deriving DecidableEq

/-- What `xqc_h3_ext_datagram_send` answers. -/
inductive Send
  | ok
  | again
  | error
  deriving DecidableEq

/-- A packet read from the tunnel, with what its handling meets. -/
structure TunPacket where
  pkt : Bytes
  /-- The hybrid classifier hands the packet to the TCP lane. -/
  tcpLane : Bool := false
  /-- There is memory for a new send flow. -/
  alloc : Bool := true
  /-- `xqc_h3_ext_masque_frame_udp` succeeds. -/
  framed : Bool := true
  send : Send := .ok

/-- `IPV4_MIN_HDR` -/
def ipv4MinHdr : Nat := 20

/-- `IPV6_MIN_HDR` -/
def ipv6MinHdr : Nat := 40

/-- `PACKET_BUF_SIZE` -/
def packetBufSize : Nat := 65536

/-- The IP version of a packet. -/
def ipVersion (pkt : Bytes) : UInt8 := pkt.headD 0 >>> 4

/-- `tun_validate_src` -/
def Conn.validateSrc (k : Conn) (pkt : Bytes) : Bool :=
  if ipVersion pkt = 4 then k.addr.all fun a => (pkt.drop 12).take 4 = a.ip
  else if ipVersion pkt = 6 then
    ipv6MinHdr ≤ pkt.length ∧ k.addr6.any fun a => (pkt.drop 8).take 16 = a.ip
  else false

/-- `tun_decide_lane`: the verdict, what the reorder sender has for the packet,
    and the sender after it. -/
def Conn.decideLane (k : Conn) (cfg : Client.Config) (nowUs : Nat) (t : TunPacket) :
    Verdict × TxPeek × Option Tx :=
  if t.tcpLane then (.tcpLane, { action := .raw }, k.reorderTx)
  else
    let udpMss := k.udpMss cfg
    let raw : Verdict := if 0 < udpMss ∧ udpMss < t.pkt.length then .overMtu else .proceed
    match k.reorderTx with
    | some tx =>
      if k.peerReorderSupported ∧ cfg.reorder.mode ≠ .off ∧ 0 < udpMss then
        let (pk, tx) := tx.peek t.pkt nowUs (udpMss % 2 ^ 32) t.alloc
        match pk.action with
        | .stamp => (.proceed, pk, some tx)
        | .dropMtu => (.dropMtu, pk, some tx)
        | .raw => (raw, pk, some tx)
      else (raw, { action := .raw }, some tx)
    | none => (raw, { action := .raw }, none)

/-- `tun_send_datagram` -/
def sendDatagram (c : Client) (k : Conn) (nowUs : Nat) (t : TunPacket) (pk : TxPeek) : Client × Code :=
  if pk.action = .stamp ∧ packetBufSize < t.pkt.length then (c, .invalidArg)
  else if t.framed = false then (c, .engine)
  else
    match t.send with
    | .again => ({ c with backpressure := true, conn := some { k with blocked := true } }, .again)
    | .error => (c, .engine)
    | .ok => ({ c with conn := some { k with reorderTx := k.reorderTx.map (·.commit pk nowUs) } }, .ok)

/-- `mqvpn_client_on_tun_packet` -/
def onTunPacket (c : Client) (nowUs : Nat) (t : TunPacket) : Client × Code :=
  if t.pkt.length = 0 then (c, .invalidArg)
  else
    match c.conn with
    | none => (c, .invalidArg)
    | some k =>
      if k.tunnelOk = false then (c, .invalidArg)
      else if c.backpressure then (c, .again)
      else if ipVersion t.pkt = 4 ∧ t.pkt.length < ipv4MinHdr then (c, .invalidArg)
      else if k.validateSrc t.pkt = false then (c, .ok)
      else
        let (verdict, pk, reorderTx) := k.decideLane c.config nowUs t
        let k := { k with reorderTx }
        let c := { c with conn := some k }
        if verdict = .proceed then c.sendDatagram k nowUs t pk else (c, .ok)

/-! ## Paths -/

/-- `find_path_by_xqc_id`, as an index. -/
def findPathByXqcId (c : Client) (xqcPathId : Nat) : Option Nat :=
  c.paths.findIdx? fun p => p.xquicPathLive ∧ p.xqcPathId = xqcPathId

/-- `find_path_by_handle`, as an index. -/
def findPathByHandle (c : Client) (handle : Int) : Option Nat :=
  c.paths.findIdx? fun p => p.handle = handle

/-- The client after its slots went through a loop against the paths of its
    connection. -/
def withPaths (c : Client) (k : Conn) (r : List Entry × Mp) : Client :=
  { c with paths := r.1, conn := some { k with mp := r.2 } }

/-- A path event for the slot at an index. -/
def pathEvent (c : Client) (nowUs : Nat) (i : Nat) (ev : Path.Event) : Client :=
  { c with paths := c.paths.modify i fun p => (p.onEvent nowUs ev (some { nowUs })).1 }

/-- `mqvpn_client_add_path_fd_with_outcome` -/
def addPathFd (c : Client) (nowUs : Nat) (fd : Int) (desc : Option Desc) (xq : Xquic) : Client :=
  if fd < 0 then c
  else
    match addPath c.paths (newPath nowUs c.nextPathHandle fd desc) with
    | none => c
    | some paths =>
      let c := { c with paths, nextPathHandle := c.nextPathHandle + 1 }
      match c.conn with
      | some k =>
        if c.multipathReady ∧ c.config.multipath then
          c.withPaths k (activatePendingPaths nowUs xq c.paths k.mp)
        else c
      | none => c

/-- `mqvpn_client_set_path_weight` -/
def setPathWeight (c : Client) (handle : Int) (weight : Nat) : Client :=
  match c.findPathByHandle handle with
  | none => c
  | some i =>
    let c := { c with paths := c.paths.modify i fun p => { p with weight } }
    match c.conn, c.paths[i]? with
    | some k, some p =>
      if p.xquicPathLive then { c with conn := some { k with mp := k.mp.setPathWeight p.xqcPathId weight } }
      else c
    | _, _ => c

/-- `mqvpn_client_remove_path`; `closed` is whether `xqc_conn_close_path`
    succeeds. -/
def removePath (c : Client) (nowUs : Nat) (handle : Int) (closed : Bool) : Client :=
  match c.findPathByHandle handle with
  | none => c
  | some i =>
    match c.paths[i]? with
    | none => c
    | some p =>
      if p.state = .closedFree then c
      else
        let closes := p.xquicPathLive ∧ (p.xqcPathId = 0 ∨ closed = false)
        let c := if closes then { c with conn := c.conn.map Conn.close } else c
        c.pathEvent nowUs i .removeApi

/-- `mqvpn_client_on_platform_path_dropped` -/
def onPlatformPathDropped (c : Client) (nowUs : Nat) (handle : Int) : Client :=
  match c.findPathByHandle handle with
  | none => c
  | some i => c.pathEvent nowUs i .platformDrop

/-- `mqvpn_client_on_platform_fd_closed` -/
def onPlatformFdClosed (c : Client) (nowUs : Nat) (handle : Int) : Client :=
  match c.findPathByHandle handle with
  | none => c
  | some i => c.pathEvent nowUs i .fdClosed

/-- `mqvpn_client_reactivate_path` -/
def reactivatePath (c : Client) (nowUs : Nat) (handle : Int) (xq : Xquic) : Client :=
  if c.state ≠ .established ∨ c.multipathReady = false then c
  else
    match c.findPathByHandle handle, c.conn with
    | some i, some k =>
      match c.paths[i]? with
      | none => c
      | some p =>
        if ReactivateSlotEligible p then
          let r := reactivate nowUs xq i p k.mp
          c.withPaths k (c.paths.set i r.1, r.2)
        else c
    | _, _ => c

/-- `cb_ready_to_create_path` -/
def cbReadyToCreatePath (c : Client) (k : Conn) (nowUs : Nat) (xq : Xquic) : Client :=
  let c := { c with multipathReady := true }
  if c.config.multipath then c.withPaths k (activatePendingPaths nowUs xq c.paths k.mp) else c

/-- `cb_path_removed` -/
def cbPathRemoved (c : Client) (nowUs pathId : Nat) : Client :=
  match c.findPathByXqcId pathId with
  | none => c
  | some i => c.pathEvent nowUs i .xquicRemoved

/-- `tick_check_all_validations` -/
def checkAllValidations (c : Client) (nowUs : Nat) (validated : Nat → Bool) : List Entry :=
  if c.multipathReady then
    c.paths.map (checkValidation nowUs (if c.config.backupFec then .standby else .active) validated)
  else c.paths

/-- `tick_path_recovery` -/
def tickPathRecovery (c : Client) (nowUs : Nat) (validated : Nat → Bool) (xq : Xquic) : Client :=
  if c.state ≠ .established ∨ c.config.multipath = false then c
  else
    match c.conn with
    | none => c
    | some k => c.withPaths k (recoverPaths nowUs xq (c.checkAllValidations nowUs validated) k.mp)

/-! ## Steps -/

/-- A call into the client, with the answers that it gets. -/
inductive Call
  | connect (start : Start)
  | disconnect
  | addPathFd (fd : Int) (desc : Option Desc) (xq : Xquic)
  | setPathWeight (handle : Int) (weight : Nat)
  | removePath (handle : Int) (closed : Bool)
  | onPlatformPathDropped (handle : Int)
  | onPlatformFdClosed (handle : Int)
  | reactivatePath (handle : Int) (xq : Xquic)
  | setTunActive (active : Bool)
  | onTunPacket (t : TunPacket)
  | tickHandshakeWatchdog
  | tickPathRecovery (validated : Nat → Bool) (xq : Xquic)
  | tickReconnect (start : Start)
  | handshakeFinished (dgramMss : Nat) (streamId : Option Nat)
  | requestHeaders (ok reorder : Bool)
  | requestBody (capsules : List Capsule) (buffered : Bool)
  | requestClose
  | dgramWrite
  | dgramMssUpdated (mss : Nat)
  | readyToCreatePath (xq : Xquic)
  | pathRemoved (pathId : Nat)
  | connClose

/-- A call and the time at which it is made. -/
structure Step where
  nowUs : Nat
  call : Call

/-- A callback of xquic for the connection; without one, there is none. -/
def callback (c : Client) (f : Conn → Client) : Client :=
  match c.conn with
  | some k => f k
  | none => c

def step (c : Client) (s : Step) : Client :=
  match s.call with
  | .connect start => c.connect s.nowUs start
  | .disconnect => c.disconnect s.nowUs
  | .addPathFd fd desc xq => c.addPathFd s.nowUs fd desc xq
  | .setPathWeight handle weight => c.setPathWeight handle weight
  | .removePath handle closed => c.removePath s.nowUs handle closed
  | .onPlatformPathDropped handle => c.onPlatformPathDropped s.nowUs handle
  | .onPlatformFdClosed handle => c.onPlatformFdClosed s.nowUs handle
  | .reactivatePath handle xq => c.reactivatePath s.nowUs handle xq
  | .setTunActive active => c.setTunActive s.nowUs active
  | .onTunPacket t => (c.onTunPacket s.nowUs t).1
  | .tickHandshakeWatchdog => c.tickHandshakeWatchdog s.nowUs
  | .tickPathRecovery validated xq => c.tickPathRecovery s.nowUs validated xq
  | .tickReconnect start => c.tickReconnect s.nowUs start
  | .handshakeFinished dgramMss streamId =>
    c.callback fun k => c.cbH3ConnHandshakeFinished k s.nowUs dgramMss streamId
  | .requestHeaders ok reorder => c.callback fun k => c.connectIpOnHeaders k ok reorder
  | .requestBody capsules buffered => c.callback fun k => c.connectIpOnBody k s.nowUs capsules buffered
  | .requestClose => c.callback fun k => c.cbRequestClose k
  | .dgramWrite => c.callback fun k => c.cbDgramWrite k
  | .dgramMssUpdated mss => c.callback fun k => c.cbDgramMssUpdated k mss
  | .readyToCreatePath xq => c.callback fun k => c.cbReadyToCreatePath k s.nowUs xq
  | .pathRemoved pathId => c.callback fun _ => c.cbPathRemoved s.nowUs pathId
  | .connClose => c.callback fun _ => c.cbH3ConnClose s.nowUs

def run (c : Client) (steps : List Step) : Client := steps.foldl step c

/-- `client_init_handle` -/
def init (config : Client.Config) : Client := { config }

/-! ## Samples -/

/-- A configuration whose datagrams lose two bytes to the framing. -/
def sampleConfig : Client.Config where
  udpMss mss _ := mss - 2
  udpMss_le mss _ := Nat.sub_le mss 2

/-- xquic grants every path, under the least id above all those it used. -/
def sampleXquic : Xquic where
  result _ := .ok
  newId _ used := used.foldr (fun id m => max (id + 1) m) 0
  newId_notMem _ used := by
    have hlt : ∀ id ∈ used, id < used.foldr (fun id m => max (id + 1) m) 0 := by
      induction used with
      | nil => simp
      | cons a l ih =>
        intro id hid
        rw [List.foldr_cons]
        rcases List.mem_cons.1 hid with rfl | hid
        · exact Nat.lt_of_lt_of_le (Nat.lt_succ_self id) (Nat.le_max_left _ _)
        · exact Nat.lt_of_lt_of_le (ih id hid) (Nat.le_max_right _ _)
    intro hmem
    exact Nat.lt_irrefl _ (hlt _ hmem)

/-- An IPv4 address for the tunnel. -/
def sampleAddress : Assigned where
  ipVersion := 4
  ip := [10, 0, 0, 2]
  prefixLen := 24

/-- A connection with the path of socket 3 comes up, to the point where the
    platform hears of the tunnel. -/
def sampleSetUp : List Step :=
  [⟨1, .addPathFd 3 none sampleXquic⟩, ⟨2, .connect { h3Connect := some 1200 }⟩,
    ⟨3, .handshakeFinished 1202 (some 0)⟩, ⟨4, .requestHeaders true false⟩,
    ⟨5, .requestBody [.addressAssign [sampleAddress]] true⟩]

end Client

end Mqvpn
