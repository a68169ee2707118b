import Mqvpn.Client.Mtu
import Mqvpn.Lib.Limits
import Mqvpn.Server.Datagrams
import Mqvpn.Server.Gateway
import Mqvpn.Server.Icmp

/-!
# Path MTU signalling

A packet from the TUN that does not fit a datagram is dropped, and an ICMP error tells its
sender the MTU. On each side there are two guards: one for a packet sent raw, which has all of
the MSS, and one for a packet that the reorder sender would stamp, which has 8 bytes less.
Which of them a packet of a flow meets depends on the flow table, and may change from packet to
packet.

Each guard tells an MTU that is below the length of the packet, so a flow that listens is
refused at most once by each guard (`pathMtu_converges`). Three kinds of packets are apart
(`not_pathMtu_converges`): an IPv4 packet whose header length is wrong is not answered; an MSS
of `2 ^ 32` or more is cut when the reorder sender is asked; and what the TCP lane of the client
takes is not measured.
-/

namespace Mqvpn

open Reorder Client

/-! ## ICMP errors -/

/-- What the sending of an ICMP error meets: the answer of `ptb_rate_allow`, and what the
    buffers on the stack hold. -/
structure IcmpEnv where
  rateAllow : Bool
  stack4 : Vector UInt8 128
  stack6 : Vector UInt8 1280

/-- An address, as its bytes. -/
def addressOf (n : Nat) (ip : Bytes) : Vector UInt8 n := Vector.ofFn fun i => ip.getD i 0

/-- The bytes of an IPv6 address. -/
def octets6 (addr : Nat) : Bytes := (List.range 16).map fun i => UInt8.ofNat (addr >>> (8 * (15 - i)))

/-- The error that an IPv4 packet needs to be fragmented, if the rate limit allows it. -/
def fragNeeded (env : IcmpEnv) (srcIp : Bytes) (mtu : Nat) (pkt : Bytes) : Option Bytes :=
  if env.rateAllow then
    (Icmp.icmpSendV4 env.stack4 (addressOf 4 srcIp) 3 4 (if 0xffff < mtu then 0xffff else UInt16.ofNat mtu) pkt).join
  else none

/-- The error that an IPv6 packet is too big, if the rate limit allows it. -/
def packetTooBig (env : IcmpEnv) (srcIp6 : Bytes) (mtu : Nat) (pkt : Bytes) : Option Bytes :=
  if env.rateAllow then (Icmp.icmpSendV6 env.stack6 (addressOf 16 srcIp6) 2 0 (UInt32.ofNat mtu) pkt).join
  else none

/-- The MTU that an ICMP error tells. -/
def toldMtu (out : Bytes) : Nat :=
  if ipVersion out = 4 then Server.ofBytes ((out.drop 26).take 2) else Server.ofBytes ((out.drop 44).take 4)

theorem ofBytes_be16 {v : Nat} (h : v < 2 ^ 16) : Server.ofBytes (Icmp.be16 v) = v := by
  have hand : v &&& 0xff = v % 2 ^ 8 := Nat.and_two_pow_sub_one_eq_mod v 8
  rw [Server.ofBytes, Icmp.be16, List.foldl_cons, List.foldl_cons, List.foldl_nil, UInt8.toNat_ofNat', UInt8.toNat_ofNat',
    hand, Nat.shiftRight_eq_div_pow]
  omega

theorem ofBytes_mtuField (mtu : UInt32) : Server.ofBytes (Icmp.mtuField mtu) = mtu.toNat := by
  have hlt := mtu.toNat_lt
  have hand (v : Nat) : v &&& 0xff = v % 2 ^ 8 := Nat.and_two_pow_sub_one_eq_mod v 8
  rw [Server.ofBytes, Icmp.mtuField]
  simp only [List.foldl_cons, List.foldl_nil, UInt8.toNat_ofNat', hand, Nat.shiftRight_eq_div_pow]
  omega

theorem toldMtu_v4 {src dst data : Bytes} (hsrc : src.length = 4) (hdst : dst.length = 4) (n ck ck' : Nat) (mtu : UInt16) :
    toldMtu (Icmp.v4Header n ck src dst ++ Icmp.v4Message 3 4 mtu ck' data) = mtu.toNat := by
  obtain ⟨s₀, s₁, s₂, s₃, rfl⟩ := Icmp.exists_four hsrc
  obtain ⟨d₀, d₁, d₂, d₃, rfl⟩ := Icmp.exists_four hdst
  have hversion : ipVersion (Icmp.v4Header n ck [s₀, s₁, s₂, s₃] [d₀, d₁, d₂, d₃] ++ Icmp.v4Message 3 4 mtu ck' data) = 4 := by
    change (0x45 : UInt8) >>> 4 = 4
    decide
  rw [toldMtu, if_pos hversion]
  exact ofBytes_be16 mtu.toNat_lt

theorem toldMtu_v6 {src dst data : Bytes} (hsrc : src.length = 16) (hdst : dst.length = 16) (n ck : Nat) (mtu : UInt32) :
    toldMtu (Icmp.v6Header n src dst ++ Icmp.v6Message 2 0 mtu ck data) = mtu.toNat := by
  have hversion : ipVersion (Icmp.v6Header n src dst ++ Icmp.v6Message 2 0 mtu ck data) ≠ 4 := by
    change (0x60 : UInt8) >>> 4 ≠ 4
    decide
  have hfield : ((Icmp.v6Header n src dst ++ Icmp.v6Message 2 0 mtu ck data).drop 44).take 4 = Icmp.mtuField mtu := by
    rw [show 44 = 40 + 4 from rfl, ← List.drop_drop, ← Icmp.length_v6Header n hsrc hdst, List.drop_left]
    rfl
  rw [toldMtu, if_neg hversion, hfield, ofBytes_mtuField]

/-- The header of an IPv4 packet is at least 20 bytes, and within the packet. -/
def SoundHeader (pkt : Bytes) : Prop := ipVersion pkt = 4 → 20 ≤ Icmp.ihl pkt ∧ Icmp.ihl pkt ≤ pkt.length

section Errors

variable {env : IcmpEnv} {src pkt out : Bytes} {mtu : Nat}

theorem toldMtu_fragNeeded (h : fragNeeded env src mtu pkt = some out) : toldMtu out = min 0xffff mtu := by
  rw [fragNeeded] at h
  by_cases hrate : env.rateAllow = true
  case neg =>
    rw [if_neg hrate] at h
    cases h
  rw [if_pos hrate] at h
  by_cases hihl : 20 ≤ Icmp.ihl pkt ∧ Icmp.ihl pkt ≤ pkt.length
  · have hdst : ((pkt.drop 12).take 4).length = 4 := by
      rw [List.length_take, List.length_drop]
      omega
    rw [Icmp.icmpSendV4_eq _ _ _ _ _ hihl.1 hihl.2] at h
    obtain rfl := Option.some.inj h
    rw [toldMtu_v4 Vector.length_toList hdst]
    split_ifs with hbig
    · exact (min_eq_left (Nat.le_of_lt hbig)).symm
    · rw [UInt16.toNat_ofNat', min_eq_right (Nat.not_lt.1 hbig)]
      exact Nat.mod_eq_of_lt (by omega)
  · rw [Icmp.icmpSendV4_of_bad _ _ _ _ _ hihl] at h
    cases h

theorem isSome_fragNeeded (hrate : env.rateAllow = true) (hihl : 20 ≤ Icmp.ihl pkt ∧ Icmp.ihl pkt ≤ pkt.length) :
    (fragNeeded env src mtu pkt).isSome = true := by
  rw [fragNeeded, if_pos hrate, Icmp.icmpSendV4_eq _ _ _ _ _ hihl.1 hihl.2]
  rfl

theorem toldMtu_packetTooBig (h : packetTooBig env src mtu pkt = some out) : toldMtu out = mtu % 2 ^ 32 := by
  rw [packetTooBig] at h
  split_ifs at h
  by_cases hlen : 40 ≤ pkt.length
  · have hdst : ((pkt.drop 8).take 16).length = 16 := by
      rw [List.length_take, List.length_drop]
      omega
    rw [Icmp.icmpSendV6_eq _ _ _ _ _ hlen] at h
    obtain rfl := Option.some.inj h
    rw [toldMtu_v6 Vector.length_toList hdst, UInt32.toNat_ofNat']
  · rw [Icmp.icmpSendV6, if_pos (by rw [Icmp.ipv6MinHdr]; omega)] at h
    cases h

theorem isSome_packetTooBig (hrate : env.rateAllow = true) (hlen : 40 ≤ pkt.length) :
    (packetTooBig env src mtu pkt).isSome = true := by
  rw [packetTooBig, if_pos hrate, Icmp.icmpSendV6_eq _ _ _ _ _ hlen]
  rfl

end Errors

/-! ## The guards -/

/-- `eff_mtu`: the MTU that goes with a drop of the reorder sender -/
def effMtu (udpMss : Nat) : Nat := if hdrLen < udpMss then udpMss - hdrLen else 0

namespace Client

/-- The MTU that `tun_decide_lane` has for a packet it drops for its size. -/
def Conn.tooBig (k : Client.Conn) (cfg : Client.Config) (nowUs : Nat) (t : TunPacket) : Option Nat :=
  match (k.decideLane cfg nowUs t).1 with
  | .dropMtu => some (effMtu (k.udpMss cfg))
  | .overMtu => some (k.udpMss cfg)
  | .proceed | .tcpLane => none

/-- The ICMP error of `tun_decide_lane` -/
def Conn.signal (k : Client.Conn) (env : IcmpEnv) (mtu : Nat) (pkt : Bytes) : Option Bytes :=
  if ipVersion pkt = 4 then k.addr.bind fun a => fragNeeded env a.ip mtu pkt
  else k.addr6.bind fun a => packetTooBig env a.ip mtu pkt

/-- The connection for which `mqvpn_client_on_tun_packet` decides the lane of a packet. -/
def deciding (c : Client) (t : TunPacket) : Option Client.Conn :=
  if t.pkt.length = 0 then none
  else c.conn.filter fun k =>
    k.tunnelOk && !c.backpressure && !decide (ipVersion t.pkt = 4 ∧ t.pkt.length < ipv4MinHdr) && k.validateSrc t.pkt

/-- The packet that a step reads from the tunnel. -/
def Step.tunPacket (st : Client.Step) : Option TunPacket :=
  match st.call with
  | .onTunPacket t => some t
  | _ => none

end Client

namespace Server

/-- The MTU that `mqvpn_server_on_tun_packet` has for a packet it drops for its size. -/
def Conn.tooBig (k : Server.Conn) (cfg : Server.Config) (nowUs : Nat) (t : TunPacket) : Option Nat :=
  let (go, pk, _) := k.peek cfg nowUs t
  if go then none else some (if pk.action = .dropMtu then effMtu (k.udpMss cfg) else k.udpMss cfg)

/-- The ICMP error of `mqvpn_server_on_tun_packet` -/
def signal (s : Server) (env : IcmpEnv) (mtu : Nat) (pkt : Bytes) : Option Bytes :=
  if ipVersion pkt = 4 then fragNeeded env (octets s.pool.serverAddr) mtu pkt
  else if s.pool.hasV6 then packetTooBig env (octets6 (s.pool.get6 1)) mtu pkt
  else none

/-- The connection that `mqvpn_server_on_tun_packet` measures a packet for. -/
def deciding (s : Server) (t : TunPacket) : Option Server.Conn :=
  if t.pkt.length = 0 ∨ s.nSessions = 0 ∨ s.tunPaused then none
  else ((s.target t.pkt).bind fun c => s.conns[c]?).filter (·.tunnelEstablished)

/-- The packet that a step reads from the tunnel. -/
def Step.tunPacket (st : Server.Step) : Option TunPacket :=
  match st.call with
  | .onTunPacket t => some t
  | _ => none

end Server

/-! ## The two sides -/

/-- A side of the tunnel: its steps, and what it has for the packet of a step. -/
structure Side where
  State : Type
  Input : Type
  step : State → Input → State
  packet : Input → Bytes
  /-- The usable MSS of the connection that the packet is for. -/
  udpMss : State → Input → Nat
  /-- The packet is dropped for its size, and this is the MTU. -/
  tooBig : State → Input → Option Nat
  /-- The ICMP error. -/
  answer : State → Input → Option Bytes
  /-- The rate limit permits an answer, and there is an address to send it from. -/
  Able : State → Input → Prop

@[reducible] def clientSide : Side where
  State := Client
  Input := Client.Step × IcmpEnv
  step c a := c.step a.1
  packet a := (a.1.tunPacket.map TunPacket.pkt).getD []
  udpMss c _ := (c.conn.map (·.udpMss c.config)).getD 0
  tooBig c a := a.1.tunPacket.bind fun t => (c.deciding t).bind fun k => k.tooBig c.config a.1.nowUs t
  answer c a := a.1.tunPacket.bind fun t => (c.deciding t).bind fun k =>
    (k.tooBig c.config a.1.nowUs t).bind fun mtu => k.signal a.2 mtu t.pkt
  Able c a := a.2.rateAllow = true ∧ ∀ t ∈ a.1.tunPacket, ∀ k ∈ c.conn,
    if ipVersion t.pkt = 4 then k.addr.isSome = true else k.addr6.isSome = true

@[reducible] def serverSide : Side where
  State := Server
  Input := Server.Step × IcmpEnv
  step s a := s.step a.1
  packet a := (a.1.tunPacket.map TunPacket.pkt).getD []
  udpMss s a := ((a.1.tunPacket.bind s.deciding).map (·.udpMss s.config)).getD 0
  tooBig s a := a.1.tunPacket.bind fun t => (s.deciding t).bind fun k => k.tooBig s.config a.1.nowUs t
  answer s a := a.1.tunPacket.bind fun t => (s.deciding t).bind fun k =>
    (k.tooBig s.config a.1.nowUs t).bind fun mtu => s.signal a.2 mtu t.pkt
  Able _ a := a.2.rateAllow = true

namespace Side

variable (S : Side)

/-- A packet that is dropped for its size is answered with an MTU below its length. -/
def Answers (mss : Nat) : Prop :=
  ∀ s a, S.udpMss s a = mss → (S.tooBig s a).isSome = true → S.Able s a → SoundHeader (S.packet a) →
    ∃ out ∈ S.answer s a, toldMtu out < (S.packet a).length

/-- The MTU that the sender of a packet is told; `⊤` if there is no answer. -/
def told (s : S.State) (a : S.Input) : WithTop ℕ := ((S.answer s a).map fun out => WithTop.some (toldMtu out)).getD ⊤

/-- As long as the MSS stays and its packets that are dropped for their size are answered, a
    flow that keeps within the smallest MTU it was told meets at most two such drops; in
    between, anything may happen. -/
def Converges (mss : Nat) : Prop :=
  ∀ (flow : Bytes → Bool) (s : S.State) (as : List S.Input),
    Runs.Along S.step (fun s a => flow (S.packet a) = true → S.udpMss s a = mss ∧
      ((S.tooBig s a).isSome = true → (S.answer s a).isSome = true)) s as →
    Limits.Obeys S.step (fun a => flow (S.packet a)) (fun a => (S.packet a).length) S.told ⊤ s as →
      Limits.refusals S.step (fun a => flow (S.packet a)) (fun s a => (S.tooBig s a).isSome) s as ≤ 2

end Side

/-! ## What the guards refuse -/

/-- What the reorder sender has for a packet, where it is asked. -/
def asked (tx : Option Tx) (gate : Bool) (udpMss nowUs : Nat) (t : TunPacket) : Option TxAction :=
  if gate then tx.map fun tx => (tx.peek t.pkt nowUs (udpMss % 2 ^ 32) t.alloc).1.action else none

/-- The two guards, in one: the MTU for a packet that does not fit. -/
def guards (udpMss len : Nat) : Option TxAction → Option Nat
  | some .stamp => none
  | some .dropMtu => some (effMtu udpMss)
  | some .raw | none => if 0 < udpMss ∧ udpMss < len then some udpMss else none

section Guards

variable {nowUs mtu : Nat} {t : TunPacket}

theorem Client.Conn.tooBig_eq (k : Client.Conn) (cfg : Client.Config) (hlane : t.tcpLane = false) :
    k.tooBig cfg nowUs t = guards (k.udpMss cfg) t.pkt.length
      (asked k.reorderTx (k.peerReorderSupported ∧ cfg.reorder.mode ≠ .off ∧ 0 < k.udpMss cfg) (k.udpMss cfg) nowUs t) := by
  rw [tooBig, decideLane, if_neg (by rw [hlane]; exact Bool.false_ne_true), asked]
  have hraw : (match (if 0 < k.udpMss cfg ∧ k.udpMss cfg < t.pkt.length then Verdict.overMtu else .proceed) with
      | .dropMtu => some (effMtu (k.udpMss cfg))
      | .overMtu => some (k.udpMss cfg)
      | .proceed | .tcpLane => none) =
      if 0 < k.udpMss cfg ∧ k.udpMss cfg < t.pkt.length then some (k.udpMss cfg) else none := by
    by_cases hlong : 0 < k.udpMss cfg ∧ k.udpMss cfg < t.pkt.length
    · rw [if_pos hlong, if_pos hlong]
    · rw [if_neg hlong, if_neg hlong]
  cases k.reorderTx with
  | none =>
    rw [Option.map_none, ite_self]
    exact hraw
  | some tx =>
    by_cases hgate : k.peerReorderSupported ∧ cfg.reorder.mode ≠ .off ∧ 0 < k.udpMss cfg
    · rw [decide_eq_true hgate, if_pos rfl, Option.map_some]
      dsimp only
      rw [if_pos hgate]
      cases (tx.peek t.pkt nowUs (k.udpMss cfg % 2 ^ 32) t.alloc).1.action with
      | stamp => rfl
      | dropMtu => rfl
      | raw => exact hraw
    · rw [decide_eq_false hgate, if_neg Bool.false_ne_true]
      dsimp only
      rw [if_neg hgate]
      exact hraw

theorem Server.Conn.tooBig_eq (k : Server.Conn) (cfg : Server.Config) :
    k.tooBig cfg nowUs t = guards (k.udpMss cfg) t.pkt.length
      (asked k.reorderTx (k.peerReorderSupported ∧ cfg.reorder.mode ≠ .off ∧ 0 < k.udpMss cfg) (k.udpMss cfg) nowUs t) := by
  have hraw (mtu : Nat) : (if (decide ¬(0 < k.udpMss cfg ∧ k.udpMss cfg < t.pkt.length)) = true then none else some mtu) =
      if 0 < k.udpMss cfg ∧ k.udpMss cfg < t.pkt.length then some mtu else none := by
    by_cases hlong : 0 < k.udpMss cfg ∧ k.udpMss cfg < t.pkt.length
    · rw [decide_eq_false (not_not_intro hlong), if_neg Bool.false_ne_true, if_pos hlong]
    · rw [decide_eq_true hlong, if_pos rfl, if_neg hlong]
  rw [tooBig, peek, asked]
  cases k.reorderTx with
  | none =>
    rw [Option.map_none, ite_self]
    exact hraw _
  | some tx =>
    by_cases hgate : k.peerReorderSupported ∧ cfg.reorder.mode ≠ .off ∧ 0 < k.udpMss cfg
    · rw [decide_eq_true hgate, if_pos rfl, Option.map_some]
      dsimp only
      rw [if_pos hgate]
      cases hact : (tx.peek t.pkt nowUs (k.udpMss cfg % 2 ^ 32) t.alloc).1.action with
      | stamp => rfl
      | dropMtu =>
        dsimp only
        rw [if_neg Bool.false_ne_true, if_pos hact]
        rfl
      | raw =>
        have hne : (tx.peek t.pkt nowUs (k.udpMss cfg % 2 ^ 32) t.alloc).1.action ≠ .dropMtu := by
          rw [hact]
          exact TxAction.noConfusion
        dsimp only
        rw [if_neg hne]
        exact hraw _
    · rw [decide_eq_false hgate, if_neg Bool.false_ne_true]
      dsimp only
      rw [if_neg hgate]
      exact hraw _

/-- The MTU of a guard is below the length of the packet that it refuses. -/
theorem lt_of_guards {tx : Option Tx} {gate : Bool} {udpMss : Nat} (h8 : hdrLen < udpMss) (h32 : udpMss < 2 ^ 32)
    (h : guards udpMss t.pkt.length (asked tx gate udpMss nowUs t) = some mtu) :
    mtu ∈ ({udpMss, effMtu udpMss} : Finset Nat) ∧ mtu < t.pkt.length := by
  rw [Finset.mem_insert, Finset.mem_singleton]
  have hraw (hover : (if 0 < udpMss ∧ udpMss < t.pkt.length then some udpMss else none) = some mtu) :
      (mtu = udpMss ∨ mtu = effMtu udpMss) ∧ mtu < t.pkt.length := by
    split_ifs at hover with hlong
    obtain rfl := Option.some.inj hover
    exact ⟨.inl rfl, hlong.2⟩
  cases hask : asked tx gate udpMss nowUs t with
  | none =>
    rw [hask] at h
    exact hraw h
  | some action =>
    rw [hask] at h
    cases action with
    | stamp => cases h
    | raw => exact hraw h
    | dropMtu =>
      obtain rfl := Option.some.inj h
      refine ⟨.inr rfl, ?_⟩
      rw [asked] at hask
      split_ifs at hask
      obtain ⟨tx', -, hdrop⟩ := Option.map_eq_some_iff.1 hask
      have hlt := lt_of_peek_dropMtu hdrop
      rw [Nat.mod_eq_of_lt h32] at hlt
      rw [effMtu, if_pos h8]
      omega

end Guards

/-! ## Convergence -/

namespace Side

/-- What is known of the guards and the answers of a side. -/
structure Guarded (S : Side) : Prop where
  within : ∀ s a mtu, S.tooBig s a = some mtu → hdrLen < S.udpMss s a → S.udpMss s a < 2 ^ 32 →
    mtu ∈ ({S.udpMss s a, effMtu (S.udpMss s a)} : Finset Nat) ∧ mtu < (S.packet a).length
  told : ∀ s a mtu out, S.tooBig s a = some mtu → S.answer s a = some out → toldMtu out ≤ mtu
  answered : ∀ s a, (S.tooBig s a).isSome = true → S.Able s a → SoundHeader (S.packet a) → (S.answer s a).isSome = true

variable {S : Side} {mss : Nat}

theorem Guarded.answers (h : S.Guarded) (h8 : hdrLen < mss) (h32 : mss < 2 ^ 32) : S.Answers mss := by
  rintro s a rfl hbig hable hsound
  obtain ⟨mtu, hmtu⟩ := Option.isSome_iff_exists.1 hbig
  obtain ⟨out, hout⟩ := Option.isSome_iff_exists.1 (h.answered s a hbig hable hsound)
  exact ⟨out, hout, Nat.lt_of_le_of_lt (h.told s a mtu out hmtu hout) (h.within s a mtu hmtu h8 h32).2⟩

theorem Guarded.converges (h : S.Guarded) (h8 : hdrLen < mss) (h32 : mss < 2 ^ 32) : S.Converges mss := by
  intro flow s as hsteps hobeys
  refine (Limits.refusals_le_card (T := {mss, effMtu mss}) ?_ hobeys).trans Finset.card_le_two
  refine (Runs.along_mono (fun s a hstep => ?_) s as) hsteps
  intro hflow hbig
  obtain ⟨rfl, hanswer⟩ := hstep hflow
  obtain ⟨mtu, hmtu⟩ := Option.isSome_iff_exists.1 hbig
  obtain ⟨out, hout⟩ := Option.isSome_iff_exists.1 (hanswer hbig)
  obtain ⟨hmem, hlt⟩ := h.within s a mtu hmtu h8 h32
  refine ⟨mtu, hmem, ?_, hlt⟩
  rw [Side.told, hout]
  exact WithTop.coe_le_coe.2 (h.told s a mtu out hmtu hout)

end Side

/-- What is left of an MTU in the field of the error. -/
def fieldMtu (pkt : Bytes) (mtu : Nat) : Nat := if ipVersion pkt = 4 then min 0xffff mtu else mtu % 2 ^ 32

theorem fieldMtu_le (pkt : Bytes) (mtu : Nat) : fieldMtu pkt mtu ≤ mtu := by
  rw [fieldMtu]
  split_ifs
  · exact min_le_right _ _
  · exact Nat.mod_le _ _

/-! ### The client -/

namespace Client

variable {c : Client} {k : Client.Conn} {cfg : Client.Config} {env : IcmpEnv} {nowUs mtu : Nat} {t : TunPacket}
  {pkt out : Bytes}

theorem deciding_eq_some (h : c.deciding t = some k) : c.conn = some k ∧ k.validateSrc t.pkt = true := by
  rw [deciding] at h
  split_ifs at h
  obtain ⟨hconn, hk⟩ := Option.filter_eq_some_iff.1 h
  rw [Bool.and_eq_true] at hk
  exact ⟨hconn, hk.2⟩

/-- What the TCP lane takes is not measured. -/
theorem Conn.tcpLane_of_tooBig (h : k.tooBig cfg nowUs t = some mtu) : t.tcpLane = false := by
  by_contra hlane
  rw [tooBig, decideLane, if_pos (by simpa using hlane)] at h
  cases h

theorem Conn.toldMtu_signal (h : k.signal env mtu pkt = some out) : toldMtu out = fieldMtu pkt mtu := by
  rw [signal] at h
  rw [fieldMtu]
  split_ifs at h ⊢
  · obtain ⟨a, -, h⟩ := Option.bind_eq_some_iff.1 h
    exact toldMtu_fragNeeded h
  · obtain ⟨a, -, h⟩ := Option.bind_eq_some_iff.1 h
    exact toldMtu_packetTooBig h

/-- An IPv6 packet passes the check of its source only if it has a header, and with an address. -/
theorem Conn.length_of_validateSrc (h : k.validateSrc pkt = true) (h4 : ipVersion pkt ≠ 4) :
    40 ≤ pkt.length := by
  rw [validateSrc, if_neg h4] at h
  split_ifs at h
  exact (of_decide_eq_true h).1

/-- A packet that is dropped for its size is not sent; all it changes is the flow table. -/
theorem onTunPacket_of_tooBig (hk : c.deciding t = some k) (h : k.tooBig c.config nowUs t = some mtu) :
    c.onTunPacket nowUs t =
      ({ c with conn := some { k with reorderTx := (k.decideLane c.config nowUs t).2.2 } }, .ok) := by
  have hverdict : (k.decideLane c.config nowUs t).1 ≠ .proceed := by
    intro hproceed
    rw [Conn.tooBig, hproceed] at h
    cases h
  rw [deciding] at hk
  split_ifs at hk with hlen
  obtain ⟨hconn, hk⟩ := Option.filter_eq_some_iff.1 hk
  simp only [Bool.and_eq_true, Bool.not_eq_true', decide_eq_false_iff_not] at hk
  obtain ⟨⟨⟨htunnel, hpressure⟩, hshort⟩, hvalid⟩ := hk
  have htunnel' : ¬k.tunnelOk = false := fun h => Bool.false_ne_true (h.symm.trans htunnel)
  have hpressure' : ¬c.backpressure = true := fun h => Bool.false_ne_true (hpressure.symm.trans h)
  have hvalid' : ¬k.validateSrc t.pkt = false := fun h => Bool.false_ne_true (h.symm.trans hvalid)
  rw [onTunPacket, if_neg hlen, hconn]
  dsimp only
  rw [if_neg htunnel', if_neg hpressure', if_neg hshort, if_neg hvalid', if_neg hverdict]

end Client

theorem guarded_clientSide : clientSide.Guarded where
  within := by
    rintro c ⟨st, env⟩ mtu h h8 h32
    obtain ⟨t, ht, hbig⟩ := Option.bind_eq_some_iff.1 h
    obtain ⟨k, hk, hbig⟩ := Option.bind_eq_some_iff.1 hbig
    have hmss : clientSide.udpMss c (st, env) = k.udpMss c.config := by
      change (c.conn.map _).getD 0 = _
      rw [(Client.deciding_eq_some hk).1]
      rfl
    have hpkt : clientSide.packet (st, env) = t.pkt := by
      change (st.tunPacket.map TunPacket.pkt).getD [] = _
      rw [ht]
      rfl
    rw [hmss] at h8 h32
    rw [hmss, hpkt]
    rw [Client.Conn.tooBig_eq k c.config (Client.Conn.tcpLane_of_tooBig hbig)] at hbig
    exact lt_of_guards h8 h32 hbig
  told := by
    rintro c ⟨st, env⟩ mtu out h hout
    obtain ⟨t, ht, hbig⟩ := Option.bind_eq_some_iff.1 h
    obtain ⟨k, hk, hbig⟩ := Option.bind_eq_some_iff.1 hbig
    change (st.tunPacket.bind fun t => (c.deciding t).bind fun k =>
      (k.tooBig c.config st.nowUs t).bind fun mtu => k.signal env mtu t.pkt) = some out at hout
    rw [ht, Option.bind_some, hk, Option.bind_some, hbig, Option.bind_some] at hout
    rw [Client.Conn.toldMtu_signal hout]
    exact fieldMtu_le t.pkt mtu
  answered := by
    rintro c ⟨st, env⟩ h hable hsound
    obtain ⟨mtu, h⟩ := Option.isSome_iff_exists.1 h
    obtain ⟨t, ht, hbig⟩ := Option.bind_eq_some_iff.1 h
    obtain ⟨k, hk, hbig⟩ := Option.bind_eq_some_iff.1 hbig
    obtain ⟨hconn, hvalid⟩ := Client.deciding_eq_some hk
    have hassigned := hable.2 t ht k hconn
    change SoundHeader ((st.tunPacket.map TunPacket.pkt).getD []) at hsound
    change (st.tunPacket.bind fun t => (c.deciding t).bind fun k =>
      (k.tooBig c.config st.nowUs t).bind fun mtu => k.signal env mtu t.pkt).isSome = true
    rw [ht] at hsound
    rw [ht, Option.bind_some, hk, Option.bind_some, hbig, Option.bind_some, Client.Conn.signal]
    split_ifs at hassigned ⊢ with h4
    · obtain ⟨a, ha⟩ := Option.isSome_iff_exists.1 hassigned
      rw [ha, Option.bind_some]
      exact isSome_fragNeeded hable.1 (hsound h4)
    · obtain ⟨a, ha⟩ := Option.isSome_iff_exists.1 hassigned
      rw [ha, Option.bind_some]
      exact isSome_packetTooBig hable.1 (Client.Conn.length_of_validateSrc hvalid h4)

/-! ### The server -/

namespace Server

variable {s : Server} {k : Server.Conn} {env : IcmpEnv} {mtu : Nat} {t : TunPacket} {pkt out : Bytes}

theorem toldMtu_signal (h : s.signal env mtu pkt = some out) : toldMtu out = fieldMtu pkt mtu := by
  rw [signal] at h
  rw [fieldMtu]
  split_ifs at h ⊢
  · exact toldMtu_fragNeeded h
  · exact toldMtu_packetTooBig h

/-- A packet that is not IPv4 has a target only if it has an IPv6 header, and the pool has addresses. -/
theorem hasV6_of_deciding (h : s.deciding t = some k) (h4 : ipVersion t.pkt ≠ 4) :
    40 ≤ t.pkt.length ∧ s.pool.hasV6 = true := by
  rw [deciding] at h
  split_ifs at h
  obtain ⟨htarget, -⟩ := Option.filter_eq_some_iff.1 h
  obtain ⟨c, hc, -⟩ := Option.bind_eq_some_iff.1 htarget
  rw [target, dstOffset, if_neg fun h => h4 h.1] at hc
  by_cases h6 : ipVersion t.pkt = 6 ∧ 40 ≤ t.pkt.length ∧ s.pool.hasV6 = true
  · exact h6.2
  · rw [if_neg h6] at hc
    cases hc

/-- A packet that is dropped for its size is not sent; all it changes is the flow table. -/
theorem onTunPacket_of_tooBig {nowUs : Nat} (hk : s.deciding t = some k) (h : k.tooBig s.config nowUs t = some mtu) :
    ∃ c, s.target t.pkt = some c ∧
      s.onTunPacket nowUs t = (s.setConn c { k with reorderTx := (k.peek s.config nowUs t).2.2 }, .ok) := by
  have hgo : ¬(k.peek s.config nowUs t).1 = true := by
    intro hgo
    change (if (k.peek s.config nowUs t).1 = true then none else _) = some mtu at h
    rw [if_pos hgo] at h
    cases h
  rw [deciding] at hk
  split_ifs at hk with hguard
  obtain ⟨htarget, hestablished⟩ := Option.filter_eq_some_iff.1 hk
  obtain ⟨c, hc, hconn⟩ := Option.bind_eq_some_iff.1 htarget
  obtain ⟨hlen, hsessions, hpaused⟩ : ¬t.pkt.length = 0 ∧ ¬s.nSessions = 0 ∧ ¬s.tunPaused = true := by
    rwa [not_or, not_or] at hguard
  have hestablished' : ¬k.tunnelEstablished = false := fun h => Bool.false_ne_true (h.symm.trans hestablished)
  refine ⟨c, hc, ?_⟩
  rw [onTunPacket, if_neg hlen, if_neg hsessions, if_neg hpaused, hc]
  dsimp only
  rw [hconn]
  dsimp only
  rw [if_neg hestablished', if_neg hgo]

end Server

theorem guarded_serverSide : serverSide.Guarded where
  within := by
    rintro s ⟨st, env⟩ mtu h h8 h32
    obtain ⟨t, ht, hbig⟩ := Option.bind_eq_some_iff.1 h
    obtain ⟨k, hk, hbig⟩ := Option.bind_eq_some_iff.1 hbig
    have hmss : serverSide.udpMss s (st, env) = k.udpMss s.config := by
      change ((st.tunPacket.bind s.deciding).map _).getD 0 = _
      rw [ht, Option.bind_some, hk]
      rfl
    have hpkt : serverSide.packet (st, env) = t.pkt := by
      change (st.tunPacket.map TunPacket.pkt).getD [] = _
      rw [ht]
      rfl
    rw [hmss] at h8 h32
    rw [hmss, hpkt]
    rw [Server.Conn.tooBig_eq k s.config] at hbig
    exact lt_of_guards h8 h32 hbig
  told := by
    rintro s ⟨st, env⟩ mtu out h hout
    obtain ⟨t, ht, hbig⟩ := Option.bind_eq_some_iff.1 h
    obtain ⟨k, hk, hbig⟩ := Option.bind_eq_some_iff.1 hbig
    change (st.tunPacket.bind fun t => (s.deciding t).bind fun k =>
      (k.tooBig s.config st.nowUs t).bind fun mtu => s.signal env mtu t.pkt) = some out at hout
    rw [ht, Option.bind_some, hk, Option.bind_some, hbig, Option.bind_some] at hout
    rw [Server.toldMtu_signal hout]
    exact fieldMtu_le t.pkt mtu
  answered := by
    rintro s ⟨st, env⟩ h hable hsound
    obtain ⟨mtu, h⟩ := Option.isSome_iff_exists.1 h
    obtain ⟨t, ht, hbig⟩ := Option.bind_eq_some_iff.1 h
    obtain ⟨k, hk, hbig⟩ := Option.bind_eq_some_iff.1 hbig
    change SoundHeader ((st.tunPacket.map TunPacket.pkt).getD []) at hsound
    change (st.tunPacket.bind fun t => (s.deciding t).bind fun k =>
      (k.tooBig s.config st.nowUs t).bind fun mtu => s.signal env mtu t.pkt).isSome = true
    rw [ht] at hsound
    rw [ht, Option.bind_some, hk, Option.bind_some, hbig, Option.bind_some]
    unfold Server.signal
    by_cases h4 : ipVersion t.pkt = 4
    · rw [if_pos h4]
      exact isSome_fragNeeded hable (hsound h4)
    · obtain ⟨hlen, hv6⟩ := Server.hasV6_of_deciding hk h4
      rw [if_neg h4, if_pos hv6]
      exact isSome_packetTooBig hable hlen

/-! ## The two sides together -/

/-- For the same MSS and the same flow table, the two sides drop the same packets for their
    size, and tell the same MTU. -/
def SidesAgree : Prop :=
  ∀ (k : Client.Conn) (cfg : Client.Config) (k' : Server.Conn) (cfg' : Server.Config) (nowUs : Nat) (t : TunPacket),
    t.tcpLane = false → k.udpMss cfg = k'.udpMss cfg' → k.reorderTx = k'.reorderTx →
    k.peerReorderSupported = k'.peerReorderSupported → cfg.reorder.mode = cfg'.reorder.mode →
      k.tooBig cfg nowUs t = k'.tooBig cfg' nowUs t ∧
      ∀ (s : Server) (env env' : IcmpEnv), ∀ mtu ∈ k.tooBig cfg nowUs t, ∀ out ∈ k.signal env mtu t.pkt,
        ∀ out' ∈ s.signal env' mtu t.pkt, toldMtu out = toldMtu out'

theorem sidesAgree : SidesAgree := by
  intro k cfg k' cfg' nowUs t hlane hmss htx hpeer hmode
  refine ⟨?_, fun s env env' mtu _ out hout out' hout' => ?_⟩
  · rw [Client.Conn.tooBig_eq k cfg hlane, Server.Conn.tooBig_eq k' cfg']
    simp only [hmss, htx, hpeer, hmode]
  · rw [Client.Conn.toldMtu_signal hout, Server.toldMtu_signal hout']

/-- For every usable MSS above 8 that fits 32 bits, whatever the reorder configuration and the
    flow table are. -/
theorem pathMtu_converges {mss : Nat} (h8 : 8 < mss) (h32 : mss < 2 ^ 32) :
    (clientSide.Answers mss ∧ clientSide.Converges mss) ∧ (serverSide.Answers mss ∧ serverSide.Converges mss) ∧
      SidesAgree :=
  ⟨⟨guarded_clientSide.answers h8 h32, guarded_clientSide.converges h8 h32⟩,
    ⟨guarded_serverSide.answers h8 h32, guarded_serverSide.converges h8 h32⟩, sidesAgree⟩

/-! ## Samples -/

/-- A client that sends under reorder headers, with room for one flow in its table. -/
def stamping (dgramMss : Nat) : Client where
  config := reorderConfig
  conn := some { dgramMss, tunnelOk := true, addr := some ⟨[10, 0, 0, 1], 24⟩, peerReorderSupported := true,
                 reorderTx := some (txNew reorderConfig.reorder 0) }

/-- The rate limit permits an answer. -/
def permitted : IcmpEnv where
  rateAllow := true
  stack4 := .replicate 128 0
  stack6 := .replicate 1280 0

/-- A packet is read from the TUN. -/
def reads (nowUs : Nat) (pkt : Bytes) : Client.Step × IcmpEnv := (⟨nowUs, .onTunPacket { pkt }⟩, permitted)

/-- A flow meets both guards: first the table is full, then there is room. The flow of the
    port 9 is in between. -/
def bothGuards : List (Client.Step × IcmpEnv) :=
  [reads 1 (udpPacket 9 28), reads 2 (udpPacket 7 41), reads 1000000000000 (udpPacket 7 40),
    reads 1000000000001 (udpPacket 7 32)]

theorem pathMtu_converges_sample :
    (∃ out ∈ clientSide.answer (stamping 42) (reads 1 (udpPacket 7 41)), toldMtu out < 41) ∧
    Limits.refusals clientSide.step (fun a => (clientSide.packet a).getD 21 0 = 7)
      (fun c a => (clientSide.tooBig c a).isSome) (stamping 42) bothGuards ≤ 2 := by
  have h := @pathMtu_converges 40 (by decide) (by decide)
  refine ⟨?_, ?_⟩
  · exact h.1.1 (stamping 42) (reads 1 (udpPacket 7 41)) rfl (by decide +kernel)
      ⟨rfl, fun t ht k hk => by cases ht; cases hk; rfl⟩ fun _ => by decide +kernel
  · refine h.1.2 (fun pkt => pkt.getD 21 0 = 7) (stamping 42) bothGuards ?_ ?_
    · decide +kernel
    · decide +kernel

/-- The bound is reached. -/
example : Limits.refusals clientSide.step (fun a => (clientSide.packet a).getD 21 0 = 7)
    (fun c a => (clientSide.tooBig c a).isSome) (stamping 42) bothGuards = 2 := by decide +kernel

/-- An IPv4 packet whose header length is 0. -/
def headless : Bytes := 0x40 :: (udpPacket 7 60).tail

/-- A connection of the server that sends raw. -/
def rawConn (dgramMss : Nat) : Server.Conn := { dgramMss, tunnelEstablished := true }

/-- A packet with a wrong header length is dropped for its size without an answer; an MSS of
    `2 ^ 32 + 16` is taken for 16, and the MTU that is told for a packet of 28 bytes is 65535;
    and the client measures no packet that goes to its TCP lane. -/
theorem not_pathMtu_converges :
    ((clientSide.tooBig (stamping 42) (reads 1 headless) = some 40 ∧ clientSide.Able (stamping 42) (reads 1 headless)) ∧
      clientSide.answer (stamping 42) (reads 1 headless) = none) ∧
    (clientSide.udpMss (stamping (2 ^ 32 + 18)) (reads 1 (udpPacket 7 28)) = 2 ^ 32 + 16 ∧
      ∃ out ∈ clientSide.answer (stamping (2 ^ 32 + 18)) (reads 1 (udpPacket 7 28)), 28 ≤ toldMtu out) ∧
    ({ dgramMss := 42 } : Client.Conn).tooBig sampleConfig 1 { pkt := (udpPacket 7 60).set 9 6, tcpLane := true } = none ∧
      (rawConn 42).tooBig Server.sampleConfig 1 { pkt := (udpPacket 7 60).set 9 6, tcpLane := true } = some 40 := by
  refine ⟨⟨⟨by decide +kernel, rfl, fun t ht k hk => ?_⟩, by decide +kernel⟩, ⟨by decide, ?_⟩, by decide, by decide⟩
  · cases ht
    cases hk
    rfl
  · refine ⟨(clientSide.answer (stamping (2 ^ 32 + 18)) (reads 1 (udpPacket 7 28))).get (by decide +kernel),
      Option.some_get _ |>.symm, by decide +kernel⟩

end Mqvpn
