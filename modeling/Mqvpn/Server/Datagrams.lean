import Mqvpn.Reorder.Dispatch
import Mqvpn.Server.Model

/-!
# Datagrams, from one side to the other

What the two sides hand to the connection for a packet of their tunnel. Both check
the IP version of the packet first, so whatever they send starts with an IP header
or with a reorder header, and the other side tells which (`datagrams_dispatched`).
-/

namespace Mqvpn

open Reorder Client

variable {nowUs : Nat} {t : TunPacket} {rxOn : Bool} {action : TxAction} {payload : Bytes}

theorem startsIp_of_ipVersion {pkt : Bytes} (hne : pkt.length ≠ 0)
    (hv : ipVersion pkt = 4 ∨ ipVersion pkt = 6) : StartsIp pkt := by
  cases pkt with
  | nil => exact absurd rfl hne
  | cons b0 rest => exact ⟨b0, rest, rfl, hv⟩

/-- What was sent under a header goes to the reorder receiver, with the packet behind
    it; and what was sent raw is forwarded. -/
def TakenFor (rxOn : Bool) (action : TxAction) (payload : Bytes) : Prop :=
  match action with
  | .stamp => dispatch rxOn payload = (if rxOn then .rxOnPacket payload else .drop) ∧
      ∃ flags seq, wireDecode payload = some (typeV1, flags, seq) ∧ StartsIp (payload.drop hdrLen)
  | .raw | .dropMtu => dispatch rxOn payload = .forwardInnerIp payload

theorem takenFor_frameSrc {pk : TxPeek} {pkt : Bytes} (hip : StartsIp pkt)
    (hhdr : pk.action = .stamp → ∃ flags seq, pk.hdr = wireEncode typeV1 flags seq) (rxOn : Bool) :
    TakenFor rxOn pk.action (frameSrc pk pkt) := by
  obtain ⟨hstamp, hraw⟩ := dispatch_frameSrc hip hhdr rxOn
  cases hact : pk.action with
  | stamp =>
    obtain ⟨flags, seq, heq⟩ := hhdr hact
    refine ⟨hstamp hact, flags, seq % 2 ^ 48, ?_, ?_⟩
    · rw [frameSrc, if_pos hact, heq]
      exact wireDecode_wireEncode typeV1 flags seq pkt
    · rw [frameSrc, if_pos hact, heq]
      exact hip
  | raw =>
    have hne : pk.action ≠ .stamp := by simp [hact]
    rw [TakenFor, hraw hne, frameSrc, if_neg hne]
  | dropMtu =>
    have hne : pk.action ≠ .stamp := by simp [hact]
    rw [TakenFor, hraw hne, frameSrc, if_neg hne]

/-! ## The client -/

namespace Client

/-- What `mqvpn_client_on_tun_packet` hands to the connection. -/
def outgoing (c : Client) (nowUs : Nat) (t : TunPacket) : Option (TxAction × Bytes) :=
  if t.pkt.length = 0 then none
  else
    match c.conn with
    | none => none
    | some k =>
      if k.tunnelOk = false then none
      else if c.backpressure then none
      else if ipVersion t.pkt = 4 ∧ t.pkt.length < ipv4MinHdr then none
      else if k.validateSrc t.pkt = false then none
      else
        let (verdict, pk, _) := k.decideLane c.config nowUs t
        if verdict ≠ .proceed then none
        else if pk.action = .stamp ∧ packetBufSize < t.pkt.length then none
        else if t.framed = false then none
        else some (pk.action, frameSrc pk t.pkt)

theorem version_of_validateSrc {k : Conn} {pkt : Bytes} (h : k.validateSrc pkt ≠ false) :
    ipVersion pkt = 4 ∨ ipVersion pkt = 6 := by
  rw [Conn.validateSrc] at h
  split_ifs at h with h4 h6
  exacts [.inl h4, .inr h6, absurd rfl h]

/-- What `tun_decide_lane` has for a packet is what the reorder sender peeked, if
    it was asked. -/
theorem peeked_decideLane (k : Conn) (cfg : Client.Config) (nowUs : Nat) (t : TunPacket) :
    (k.decideLane cfg nowUs t).2.1 = { action := .raw } ∨
      ∃ (tx : Tx) (maxInner : Nat),
        (k.decideLane cfg nowUs t).2.1 = (tx.peek t.pkt nowUs maxInner t.alloc).1 := by
  rw [Conn.decideLane]
  by_cases hlane : t.tcpLane = true
  · rw [if_pos hlane]
    exact .inl rfl
  rw [if_neg hlane]
  cases k.reorderTx with
  | none => exact .inl rfl
  | some tx =>
    dsimp only
    by_cases hgate : k.peerReorderSupported ∧ cfg.reorder.mode ≠ .off ∧ 0 < k.udpMss cfg
    · rw [if_pos hgate]
      refine .inr ⟨tx, k.udpMss cfg % 2 ^ 32, ?_⟩
      cases (tx.peek t.pkt nowUs (k.udpMss cfg % 2 ^ 32) t.alloc).1.action <;> rfl
    · rw [if_neg hgate]
      exact .inl rfl

end Client

theorem hdr_of_peeked {pk : TxPeek} (h : pk = { action := .raw } ∨
      ∃ (tx : Tx) (maxInner : Nat), pk = (tx.peek t.pkt nowUs maxInner t.alloc).1)
    (hact : pk.action = .stamp) : ∃ flags seq, pk.hdr = wireEncode typeV1 flags seq := by
  rcases h with rfl | ⟨tx, maxInner, rfl⟩
  · exact absurd hact (by simp)
  · exact Tx.hdr_of_stamp hact

theorem Client.takenFor_outgoing {c : Client} (h : c.outgoing nowUs t = some (action, payload))
    (rxOn : Bool) : TakenFor rxOn action payload := by
  rw [outgoing] at h
  by_cases hne : t.pkt.length = 0
  · rw [if_pos hne] at h
    exact absurd h.symm (Option.some_ne_none _)
  rw [if_neg hne] at h
  cases hconn : c.conn with
  | none =>
    rw [hconn] at h
    exact absurd h.symm (Option.some_ne_none _)
  | some k =>
    rw [hconn] at h
    dsimp only at h
    by_cases hvalid : k.validateSrc t.pkt = false
    · rw [if_pos hvalid] at h
      split_ifs at h
    rw [if_neg hvalid] at h
    split_ifs at h
    have hpk := peeked_decideLane k c.config nowUs t
    obtain ⟨rfl, rfl⟩ := Prod.mk.inj (Option.some.inj h)
    exact takenFor_frameSrc (startsIp_of_ipVersion hne (version_of_validateSrc hvalid))
      (hdr_of_peeked hpk) rxOn

/-! ## The server -/

namespace Server

variable {s : Server} {c : Nat}

/-- The TTL or hop limit, one less, with the checksum of an IPv4 header. -/
def decrementTtl (pkt : Bytes) : Bytes :=
  if ipVersion pkt = 4 then
    let sum := (byteAt pkt 10 <<< 8 ||| byteAt pkt 11) + 0x0100
    let sum := (sum &&& 0xffff) + (sum >>> 16)
    ((pkt.set 8 (pkt.getD 8 0 - 1)).set 10 (UInt8.ofNat (sum >>> 8 &&& 0xff))).set 11
      (UInt8.ofNat (sum &&& 0xff))
  else pkt.set 7 (pkt.getD 7 0 - 1)

/-- What `mqvpn_server_on_tun_packet` hands to a connection. -/
def outgoing (s : Server) (nowUs : Nat) (t : TunPacket) : Option (TxAction × Bytes) :=
  if t.pkt.length = 0 then none
  else if s.nSessions = 0 then none
  else if s.tunPaused then none
  else
    match s.target t.pkt with
    | none => none
    | some c =>
      match s.conns[c]? with
      | none => none
      | some k =>
        if k.tunnelEstablished = false then none
        else
          let (go, pk, _) := k.peek s.config nowUs t
          if go = false then none
          else if packetBufSize < t.pkt.length then none
          else if ttl t.pkt ≤ 1 then none
          else if t.framed = false then none
          else some (pk.action, frameSrc pk (decrementTtl t.pkt))

theorem version_of_target {pkt : Bytes} (h : s.target pkt = some c) :
    ipVersion pkt = 4 ∨ ipVersion pkt = 6 := by
  rw [target, dstOffset] at h
  by_cases h4 : ipVersion pkt = 4
  · exact .inl h4
  by_cases h6 : ipVersion pkt = 6
  · exact .inr h6
  · rw [if_neg fun hc => h4 hc.1, if_neg fun hc => h6 hc.1] at h
    exact absurd h.symm (Option.some_ne_none c)

theorem peeked_peek (k : Server.Conn) (cfg : Server.Config) (nowUs : Nat) (t : TunPacket) :
    (k.peek cfg nowUs t).2.1 = { action := .raw } ∨
      ∃ (tx : Tx) (maxInner : Nat), (k.peek cfg nowUs t).2.1 = (tx.peek t.pkt nowUs maxInner t.alloc).1 := by
  rw [Conn.peek]
  dsimp only
  cases k.reorderTx with
  | none => exact .inl rfl
  | some tx =>
    dsimp only
    by_cases hgate : k.peerReorderSupported ∧ cfg.reorder.mode ≠ .off ∧ 0 < k.udpMss cfg
    · rw [if_pos hgate]
      refine .inr ⟨tx, k.udpMss cfg % 2 ^ 32, ?_⟩
      cases (tx.peek t.pkt nowUs (k.udpMss cfg % 2 ^ 32) t.alloc).1.action <;> rfl
    · rw [if_neg hgate]
      exact .inl rfl

/-- The first byte of a packet stays. -/
theorem startsIp_decrementTtl {pkt : Bytes} (h : StartsIp pkt) : StartsIp (decrementTtl pkt) := by
  obtain ⟨b0, rest, rfl, hv⟩ := h
  rw [decrementTtl]
  split_ifs
  exacts [⟨b0, _, rfl, hv⟩, ⟨b0, _, rfl, hv⟩]

/-- What a packet that goes out has been checked for, and what it goes out as. -/
theorem outgoing_cases (h : s.outgoing nowUs t = some (action, payload)) :
    ∃ (c : Nat) (pk : TxPeek), t.pkt.length ≠ 0 ∧ s.target t.pkt = some c ∧ t.pkt.length ≤ packetBufSize ∧
      (pk.action = .stamp → ∃ flags seq, pk.hdr = wireEncode typeV1 flags seq) ∧
        action = pk.action ∧ payload = frameSrc pk (decrementTtl t.pkt) := by
  rw [outgoing] at h
  by_cases hne : t.pkt.length = 0
  · rw [if_pos hne] at h
    exact absurd h.symm (Option.some_ne_none _)
  rw [if_neg hne] at h
  cases htarget : s.target t.pkt with
  | none =>
    rw [htarget] at h
    split_ifs at h
  | some c =>
    rw [htarget] at h
    dsimp only at h
    cases hconn : s.conns[c]? with
    | none =>
      rw [hconn] at h
      split_ifs at h
    | some k =>
      rw [hconn] at h
      dsimp only at h
      split_ifs at h
      have hpk := peeked_peek k s.config nowUs t
      obtain ⟨rfl, rfl⟩ := Prod.mk.inj (Option.some.inj h)
      refine ⟨c, (k.peek s.config nowUs t).2.1, hne, rfl, ?_, hdr_of_peeked hpk, rfl, rfl⟩
      omega

theorem takenFor_outgoing (h : s.outgoing nowUs t = some (action, payload)) (rxOn : Bool) :
    TakenFor rxOn action payload := by
  obtain ⟨c, pk, hne, htarget, -, hhdr, rfl, rfl⟩ := outgoing_cases h
  exact takenFor_frameSrc (startsIp_decrementTtl (startsIp_of_ipVersion hne (version_of_target htarget))) hhdr rxOn

end Server

/-! ## Both directions -/

/-- Under a header, a packet that a peek stamps is taken for a reordered one, and the
    fields of the header and the packet behind it come back, for any flags and any
    sequence number of 48 bits. A packet that starts with an IP header is taken for
    a raw one. The bytes of a header are those of its fields. And whatever either side
    sends is taken by the other one for what it was sent as. -/
theorem datagrams_dispatched :
    (∀ (tx : Tx) pkt nowUs maxInner alloc, (tx.peek pkt nowUs maxInner alloc).1.action = .stamp →
      (∃ flags seq, (tx.peek pkt nowUs maxInner alloc).1.hdr = wireEncode typeV1 flags seq) ∧
      ∀ flags seq, seq < 2 ^ 48 →
        ((wireEncode typeV1 flags seq ++ pkt).head?.map classifyByte) = some .reorderV1 ∧
        wireDecode (wireEncode typeV1 flags seq ++ pkt) = some (typeV1, flags, seq) ∧
        (wireEncode typeV1 flags seq ++ pkt).drop hdrLen = pkt) ∧
    (∀ pkt, StartsIp pkt → pkt.head?.map classifyByte = some .raw) ∧
    (∀ hdr : Bytes, hdr.length = hdrLen → ∃ type flags seq,
      wireDecode hdr = some (type, flags, seq) ∧ wireEncode type flags seq = hdr) ∧
    (∀ (c : Client) nowUs t rxOn action payload, c.outgoing nowUs t = some (action, payload) →
      TakenFor rxOn action payload) ∧
    ∀ (s : Server) nowUs t rxOn action payload, s.outgoing nowUs t = some (action, payload) →
      TakenFor rxOn action payload := by
  refine ⟨fun tx pkt nowUs maxInner alloc hact => ⟨Tx.hdr_of_stamp hact, fun flags seq hseq => ?_⟩, ?_,
    fun hdr => wireEncode_wireDecode, ?_, ?_⟩
  · refine ⟨by rw [wireEncode]; rfl, ?_, rfl⟩
    rw [wireDecode_wireEncode, Nat.mod_eq_of_lt hseq]
  · rintro pkt ⟨b0, rest, rfl, hv⟩
    exact congrArg some (classifyByte_of_version hv)
  · exact fun c nowUs t rxOn action payload h => Client.takenFor_outgoing h rxOn
  · exact fun s nowUs t rxOn action payload h => Server.takenFor_outgoing h rxOn

end Mqvpn
