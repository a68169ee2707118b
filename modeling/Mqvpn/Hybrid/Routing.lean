import Mqvpn.Client.Model
import Mqvpn.Hybrid.Lane

/-!
# The choice of a lane

With the hybrid mode a packet from the tunnel goes one of three ways: TCP is fed to the TCP
stack of the lane, UDP goes as a datagram, and the rest goes as a datagram too, on the raw lane
(`classifier.c`, `tun_decide_lane`). For TCP the table of the lane decides, and for a SYN the
number of paths.

`Ingress` is a client with the lane of its connection. What the client does with a packet after
its lane was chosen is `Client.onTunPacket`, for which the choice is an input
(`client_onTunPacket`).
-/

namespace Mqvpn.Hybrid

open Reorder Mqvpn.Client Mqvpn.Path

/-! ## The classifier -/

/-- `mqvpn_hybrid_tcp_mode_t` -/
inductive TcpMode where
  | stream
  | raw
  | auto
  deriving DecidableEq

/-- `mqvpn_cidr_entry_t` -/
structure Cidr where
  net : UInt32
  mask : UInt32

/-- The part of `mqvpn_hybrid_config_t` that a client reads. -/
structure Policy where
  enabled : Bool := false
  tcpMode : TcpMode := .auto
  tcpMaxFlows : UInt32 := 256
  tcpIdleTimeoutSec : UInt32 := 300
  clientTunnelSubnet : Cidr := ⟨0, 0⟩

/-- `mqvpn_hybrid_lane_t`, with the key that is written for TCP. -/
inductive LaneVerdict where
  | tcp (key : FlowKey)
  | dgram
  | raw
  deriving DecidableEq

/-- `mqvpn_cidr_match` -/
def cidrMatch (e : Cidr) (hostOrderIp : UInt32) : Bool := hostOrderIp &&& e.mask = e.net

/-- The 32-bit big-endian field at `off`. -/
def field32 (pkt : Bytes) (off : Nat) : UInt32 :=
  UInt32.ofNat (byteAt pkt off) <<< 24 ||| UInt32.ofNat (byteAt pkt (off + 1)) <<< 16 |||
    UInt32.ofNat (byteAt pkt (off + 2)) <<< 8 ||| UInt32.ofNat (byteAt pkt (off + 3))

/-- `mqvpn_hybrid_classify` -/
def hybridClassify (pol : Policy) (pkt : Bytes) : LaneVerdict :=
  match parseL3L4 pkt with
  | .udp _ => .dgram
  | .tcp key =>
    if key.ipVersion ≠ 4 then .raw
    else if !pol.enabled ∨ pol.tcpMode = .raw then .raw
    -- without a subnet the mask is 0, which would match everything
    else if pol.clientTunnelSubnet.mask ≠ 0 ∧ cidrMatch pol.clientTunnelSubnet (field32 key.dstIp.1 0) then .raw
    else .tcp key
  | _ => .raw

/-- `mqvpn_tcp_syn_flag` -/
def tcpSynFlag (pkt : Bytes) : Bool :=
  if pkt.length < 20 ∨ byteAt pkt 0 >>> 4 ≠ 4 then false
  else
    let ihl := (byteAt pkt 0 &&& 0x0f) * 4
    if ihl < 20 ∨ pkt.length < ihl + 14 then false
    else byteAt pkt (ihl + 13) &&& 0x12 = 0x02

/-- `mqvpn_tcp_syn_isn` -/
def tcpSynIsn (pkt : Bytes) : UInt32 := field32 pkt ((byteAt pkt 0 &&& 0x0f) * 4 + 4)

/-! ## What the table says -/

namespace Lane

/-- The flow of a key. -/
def entry (s : Lane) (key : FlowKey) : Option Flow := (s.findFlow key).bind s.flows.get

/-- `mqvpn_tcp_lane_lookup`: whether a flow was found, and whether it is a raw or a closed one. -/
def lookup (s : Lane) (key : FlowKey) : Bool × Bool × Bool :=
  match s.entry key with
  | none => (false, false, false)
  | some f => (true, f.state = .stickyRaw, f.state = .closing)

/-- `mqvpn_tcp_lane_marker_isn` -/
def markerIsn (s : Lane) (key : FlowKey) : UInt32 :=
  match s.entry key with
  | none => 0
  | some f => if f.state = .stickyRaw then f.synIsn else 0

end Lane

/-! ## Packets -/

/-- A client, the lane of its connection, and what it counts. -/
structure Ingress where
  client : Mqvpn.Client
  policy : Policy
  lane : Option Lane
  pktsLaneTcp : Nat := 0
  pktsLaneDgram : Nat := 0
  pktsLaneRaw : Nat := 0
  tcpFlowsRejected : Nat := 0
  pktsLaneTcpDropped : Nat := 0
  /-- For the statements: the packets that `mqvpn_lwip_input` was called with. -/
  fed : List Bytes := []
  /-- For the statements: the packets that `tun_send_datagram` was called with. -/
  sent : List Bytes := []

/-- What the lane meets while it handles a packet. -/
structure LaneAnswer where
  /-- There is memory for a flow. -/
  alloc : Bool := true
  /-- The clock, when a flow is stamped. -/
  now : Nat := 0
  /-- `mqvpn_lwip_input` succeeds. -/
  input : Bool := true

namespace Ingress

variable (s : Ingress)

/-- `active_paths_count` -/
def activePathsCount : Nat := s.client.paths.countP fun p => p.state = .active

/-- `hybrid_tcp_syn_policy` -/
def tcpSynPolicy : Bool :=
  match s.policy.tcpMode with
  | .stream => true
  | .raw => false
  | .auto => 2 ≤ s.activePathsCount

/-- A SYN for which no entry counts: the verdict on a new flow, and whether the SYN is fed. -/
def newFlow (lane : Lane) (key : FlowKey) (isn : UInt32) (a : LaneAnswer) : Ingress × Bool :=
  let wantTcp := s.tcpSynPolicy
  let r := lane.onSyn key wantTcp isn a.alloc a.now
  let s := { s with lane := some r.1 }
  if r.2 then (s, wantTcp)
  else ({ s with tcpFlowsRejected := if wantTcp then s.tcpFlowsRejected + 1 else s.tcpFlowsRejected }, false)

/-- The case of a TCP packet in `tun_decide_lane`, with a lane: whether the packet is fed. -/
def routeTcp (lane : Lane) (key : FlowKey) (pkt : Bytes) (a : LaneAnswer) : Ingress × Bool :=
  let (found, isRaw, isClosing) := lane.lookup key
  let isSyn := (!found || isClosing || isRaw) && (ipVersion pkt == 4 && tcpSynFlag pkt)
  let pktIsn := if isSyn then tcpSynIsn pkt else 0
  -- a SYN for a closed flow, or with another number than that of a raw one, is for a new flow
  let found := found && !(isSyn && (isClosing || isRaw && pktIsn != lane.markerIsn key))
  if !found then
    if !isSyn then (s, false) else s.newFlow lane key pktIsn a
  else (s, !isRaw)

/-- A TCP packet is counted, and fed if it is for the TCP lane. -/
def countTcp (pkt : Bytes) (a : LaneAnswer) (fed : Bool) : Ingress × Bool :=
  match fed with
  | true =>
    ({ s with
      pktsLaneTcp := s.pktsLaneTcp + 1
      pktsLaneTcpDropped := if a.input then s.pktsLaneTcpDropped else s.pktsLaneTcpDropped + 1
      fed := pkt :: s.fed }, true)
  | false => ({ s with pktsLaneRaw := s.pktsLaneRaw + 1 }, false)

/-- The hybrid part of `tun_decide_lane`, and whether the packet was fed. -/
def chooseLane (pkt : Bytes) (a : LaneAnswer) : Ingress × Bool :=
  if !s.policy.enabled then (s, false)
  else
    match hybridClassify s.policy pkt with
    | .tcp key =>
      match s.lane with
      | some lane =>
        let r := s.routeTcp lane key pkt a
        r.1.countTcp pkt a r.2
      | none => s.countTcp pkt a false
    | .dgram => ({ s with pktsLaneDgram := s.pktsLaneDgram + 1 }, false)
    | .raw => ({ s with pktsLaneRaw := s.pktsLaneRaw + 1 }, false)

/-- A packet with the lane that was chosen for it. -/
abbrev withLane (t : TunPacket) (fed : Bool) : TunPacket := { t with tcpLane := fed }

/-- `mqvpn_client_on_tun_packet` -/
def onTunPacket (nowUs : Nat) (t : TunPacket) (a : LaneAnswer) : Ingress × Code :=
  if t.pkt.length = 0 then (s, .invalidArg)
  else
    match s.client.conn with
    | none => (s, .invalidArg)
    | some k =>
      if k.tunnelOk = false then (s, .invalidArg)
      else if s.client.backpressure then (s, .again)
      else if ipVersion t.pkt = 4 ∧ t.pkt.length < ipv4MinHdr then (s, .invalidArg)
      else if k.validateSrc t.pkt = false then (s, .ok)
      else
        let (s, fed) := s.chooseLane t.pkt a
        let t := withLane t fed
        let (verdict, pk, reorderTx) := k.decideLane s.client.config nowUs t
        let k := { k with reorderTx }
        let c := { s.client with conn := some k }
        if verdict = .proceed then
          let r := c.sendDatagram k nowUs t pk
          ({ s with client := r.1, sent := t.pkt :: s.sent }, r.2)
        else ({ s with client := c }, .ok)

/-- The packet passes the tests that come before the choice of a lane. -/
def Admits (pkt : Bytes) : Prop :=
  pkt.length ≠ 0 ∧ s.client.backpressure = false ∧ ¬(ipVersion pkt = 4 ∧ pkt.length < ipv4MinHdr) ∧
    ∃ k ∈ s.client.conn, k.tunnelOk = true ∧ k.validateSrc pkt = true

instance (pkt : Bytes) : Decidable (s.Admits pkt) := inferInstanceAs (Decidable (_ ∧ _ ∧ _ ∧ _))

/-! ## Runs -/

/-- What can happen while a connection lasts. -/
inductive Step where
  | packet (nowUs : Nat) (t : TunPacket) (a : LaneAnswer)
  /-- The paths change, in any way. -/
  | paths (paths : List Entry)
  | dgramWrite
  | dgramMssUpdated (mss : Nat)
  /-- Anything that happens to the lane; a new flow comes with a packet. -/
  | lane (e : Lane.Step)

def step : Step → Ingress
  | .packet nowUs t a => (s.onTunPacket nowUs t a).1
  | .paths paths => { s with client := { s.client with paths } }
  | .dgramWrite => { s with client := s.client.callback fun k => s.client.cbDgramWrite k }
  | .dgramMssUpdated mss => { s with client := s.client.callback fun k => s.client.cbDgramMssUpdated k mss }
  | .lane e => if e.isSyn then s else { s with lane := s.lane.map (·.step e) }

/-- The lane is told only of what can be. -/
def Proper : Step → Prop
  | .lane e => ∀ lane ∈ s.lane, lane.Proper e
  | _ => True

instance decidableProper : ∀ e, Decidable (s.Proper e)
  | .lane e => inferInstanceAs (Decidable (∀ lane ∈ s.lane, lane.Proper e))
  | .packet _ _ _ => .isTrue trivial
  | .paths _ => .isTrue trivial
  | .dgramWrite => .isTrue trivial
  | .dgramMssUpdated _ => .isTrue trivial

/-- A connection gets its lane, if there is memory for it. -/
def start (client : Mqvpn.Client) (policy : Policy) (hashSeed : UInt64) (reenters : Nat → Bool) (alloc : Bool) : Ingress where
  client
  policy
  lane :=
    if policy.enabled ∧ policy.tcpMode ≠ .raw ∧ alloc then
      some (Lane.start policy.tcpMaxFlows policy.tcpIdleTimeoutSec hashSeed reenters)
    else none

def run (steps : List Step) : Ingress := steps.foldl step s

end Ingress

end Mqvpn.Hybrid
