import Mqvpn.Reorder.Headers

/-!
# Flow pinning

The hash of an inner packet by which the scheduler pins a flow to a path (`flowHashPkt`). It reads
the headers on its own, with other length rules than `parseL3L4`, and passes over no extension
headers. Where the parser finds TCP, or UDP that is to be pinned, the hash is nevertheless one of
the flow key (`flowHashPkt_of_pinned`), and fragments of a datagram hash alike
(`flowHashPkt_of_fragment`); neither gives one of the two reserved values.
-/

namespace Mqvpn.Reorder

/-- `FNV1A_OFFSET` -/
def fnv1aOffset : UInt32 := 2166136261

/-- `FNV1A_PRIME` -/
def fnv1aPrime : UInt32 := 16777619

/-- `MQVPN_FLOW_HASH_UNPINNED` -/
def flowHashUnpinned : UInt32 := 0xFFFFFFFF

/-- `flow_hash_update_byte` -/
def flowHashUpdateByte (h : UInt32) (b : UInt8) : UInt32 := (h ^^^ b.toUInt32) * fnv1aPrime

/-- `flow_hash_finish` -/
def flowHashFinish (h : UInt32) : UInt32 :=
  let h := if h = 0 then 1 else h
  if h = flowHashUnpinned then flowHashUnpinned - 1 else h

/-- The loop over the `n` bytes at `off`. -/
def flowHashBytes (h : UInt32) (pkt : Bytes) (off n : Nat) : UInt32 := (copyBytes pkt off n).foldl flowHashUpdateByte h

/-- `should_pin` -/
def shouldPin (proto : Nat) (udpPin : Bool) : Bool := proto = 6 ∨ proto = 17 ∧ udpPin

/-- The IPv4 branch of `flow_hash_pkt`. -/
def flowHashV4 (pkt : Bytes) (udpPin : Bool) : UInt32 :=
  if pkt.length < 20 then 0
  else
    let proto := byteAt pkt 9
    let ihl := (byteAt pkt 0 &&& 0x0f) * 4
    if ihl < 20 ∨ pkt.length < ihl then 0
    else if !shouldPin proto udpPin then flowHashUnpinned
    else
      let h := flowHashUpdateByte (flowHashBytes fnv1aOffset pkt 12 8) (UInt8.ofNat proto)
      -- fragments have no ports, and go by their Identification
      if field16 pkt 6 &&& 0x3fff ≠ 0 then flowHashFinish (flowHashBytes h pkt 4 2)
      else if pkt.length < ihl + 4 then flowHashUnpinned
      else flowHashFinish (flowHashBytes h pkt ihl 4)

/-- The IPv6 branch of `flow_hash_pkt`. -/
def flowHashV6 (pkt : Bytes) (udpPin : Bool) : UInt32 :=
  if pkt.length < 40 then 0
  else
    let nextHdr := byteAt pkt 6
    if !shouldPin nextHdr udpPin then flowHashUnpinned
    else if pkt.length < 44 then flowHashUnpinned
    else
      let h := flowHashUpdateByte (flowHashBytes fnv1aOffset pkt 8 32) (UInt8.ofNat nextHdr)
      flowHashFinish (flowHashBytes h pkt 40 4)

/-- `flow_hash_pkt` -/
def flowHashPkt (pkt : Bytes) (udpPin : Bool) : UInt32 :=
  if pkt.length < 1 then 0
  else
    let version := byteAt pkt 0 >>> 4
    if version = 4 then flowHashV4 pkt udpPin
    else if version = 6 then flowHashV6 pkt udpPin
    else 0

/-! ## The hash of a flow -/

/-- The bytes of a port on the wire. -/
def portWire (p : UInt16) : Bytes := [UInt8.ofNat (p.toNat / 256), UInt8.ofNat (p.toNat % 256)]

/-- The length of the addresses in a key. -/
def FlowKey.addrLen (key : FlowKey) : Nat := if key.ipVersion = 4 then 4 else 16

/-- What of a flow goes into its hash. -/
def FlowKey.wire (key : FlowKey) : Bytes :=
  key.srcIp.1.take key.addrLen ++ key.dstIp.1.take key.addrLen ++ [key.proto] ++ portWire key.srcPort ++
    portWire key.dstPort

/-- The hash of a pinned flow. -/
def FlowKey.pinHash (key : FlowKey) : UInt32 := flowHashFinish (key.wire.foldl flowHashUpdateByte fnv1aOffset)

/-- What of an IPv4 fragment goes into its hash: the addresses, the protocol and the
    Identification. -/
def fragmentWire (pkt : Bytes) : Bytes :=
  (pkt.drop 12).take 4 ++ (pkt.drop 16).take 4 ++ [UInt8.ofNat (byteAt pkt 9)] ++ (pkt.drop 4).take 2

section Pinning

variable {pkt : Bytes} {udpPin : Bool} {key : FlowKey}

/-- The two reserved values are never the hash of a flow. -/
theorem flowHashFinish_ne (h : UInt32) : flowHashFinish h ≠ 0 ∧ flowHashFinish h ≠ flowHashUnpinned := by
  rw [flowHashFinish]
  by_cases hzero : h = 0
  · rw [if_pos hzero]
    decide
  · rw [if_neg hzero]
    by_cases hunpinned : h = flowHashUnpinned
    · rw [if_pos hunpinned]
      decide
    · rw [if_neg hunpinned]
      exact ⟨hzero, hunpinned⟩

/-- The ports of a packet, as its key has them. -/
theorem copyBytes_ports {l : Layout} {proto off : Nat} (h : KeyAt pkt l proto off key) :
    copyBytes pkt off 4 = portWire key.srcPort ++ portWire key.dstPort := by
  have hhi (i : Nat) : UInt8.ofNat (wordAt pkt i / 256) = pkt.getD i 0 := by
    have hlo := byteAt_lt pkt (i + 1)
    have hdiv : wordAt pkt i / 256 = byteAt pkt i := by
      rw [wordAt]
      omega
    rw [hdiv]
    exact UInt8.ofNat_toNat
  have hlo (i : Nat) : UInt8.ofNat (wordAt pkt i % 256) = pkt.getD (i + 1) 0 := by
    have hlo := byteAt_lt pkt (i + 1)
    have hmod : wordAt pkt i % 256 = byteAt pkt (i + 1) := by
      rw [wordAt]
      omega
    rw [hmod]
    exact UInt8.ofNat_toNat
  rw [portWire, portWire, h.srcPort, h.dstPort, hhi, hlo, hhi, hlo]
  rfl

/-- The bytes of a packet that go into the hash are those of its key. -/
theorem wire_eq {l : Layout} {proto off : Nat} (h : KeyAt pkt l proto off key) (hl : l = .v4 ∨ l = .v6)
    (hfits : l.src + (l.n + l.n) ≤ pkt.length) :
    key.wire = copyBytes pkt l.src (l.n + l.n) ++ [UInt8.ofNat proto] ++ copyBytes pkt off 4 := by
  have hdst : l.dst = l.src + l.n := by
    rcases hl with rfl | rfl <;> rfl
  have hlen : key.addrLen = l.n := by
    have hversion := h.ipVersion
    rw [FlowKey.addrLen]
    rcases hl with rfl | rfl
    · exact if_pos (UInt8.toNat_inj.1 hversion)
    · refine if_neg fun hfour => ?_
      rw [hfour] at hversion
      cases hversion
  have haddr {at' : Nat} (hat : at' + l.n ≤ pkt.length) : (l.addr pkt at').take l.n = (pkt.drop at').take l.n := by
    refine List.take_left' ?_
    rw [List.length_take, List.length_drop]
    omega
  have hproto : key.proto = UInt8.ofNat proto := by
    rw [← h.proto]
    exact UInt8.ofNat_toNat.symm
  rw [FlowKey.wire, hlen, h.srcIp, h.dstIp, haddr (by omega), haddr (by omega), hproto, hdst, copyBytes_eq hfits,
    copyBytes_ports h, List.take_add, List.drop_drop]
  simp only [List.append_assoc]

/-- A packet with an IPv4 header that is to be pinned. -/
theorem flowHashPkt_v4 (h : HasV4 pkt) (hpin : shouldPin (byteAt pkt 9) udpPin = true) :
    flowHashPkt pkt udpPin =
      let bs := copyBytes pkt 12 8 ++ [UInt8.ofNat (byteAt pkt 9)]
      if field16 pkt 6 &&& 0x3fff ≠ 0 then
        flowHashFinish ((bs ++ copyBytes pkt 4 2).foldl flowHashUpdateByte fnv1aOffset)
      else if pkt.length < 4 * ihl pkt + 4 then flowHashUnpinned
      else flowHashFinish ((bs ++ copyBytes pkt (4 * ihl pkt) 4).foldl flowHashUpdateByte fnv1aOffset) := by
  obtain ⟨hversion, hlen, hihl, hhdr⟩ := h
  rw [flowHashPkt, if_neg (by omega), shiftRight_eq_version, hversion, if_pos rfl, flowHashV4,
    if_neg (Nat.not_lt_of_le hlen), and_eq_ihl, Nat.mul_comm]
  dsimp only
  rw [if_neg (by omega), hpin, if_neg (by decide)]
  simp only [List.foldl_append, List.foldl_cons, List.foldl_nil, flowHashBytes]

/-- A packet with an IPv6 header that is to be pinned. -/
theorem flowHashPkt_v6 (hversion : version pkt = 6) (hlen : 44 ≤ pkt.length)
    (hpin : shouldPin (byteAt pkt 6) udpPin = true) :
    flowHashPkt pkt udpPin =
      flowHashFinish ((copyBytes pkt 8 32 ++ [UInt8.ofNat (byteAt pkt 6)] ++ copyBytes pkt 40 4).foldl
        flowHashUpdateByte fnv1aOffset) := by
  rw [flowHashPkt, if_neg (by omega), shiftRight_eq_version, hversion, if_neg (by decide), if_pos rfl, flowHashV6,
    if_neg (by omega)]
  dsimp only
  rw [hpin, if_neg (by decide), if_neg (by omega)]
  simp only [List.foldl_append, List.foldl_cons, List.foldl_nil, flowHashBytes]

/-- The parser finds TCP in a packet, or UDP that is to be pinned; for IPv6 without extension
    headers. -/
structure Pinned (udpPin : Bool) (pkt : Bytes) (key : FlowKey) : Prop where
  verdict : parseL3L4 pkt = .tcp key ∨ udpPin = true ∧ parseL3L4 pkt = .udp key
  direct : version pkt = 6 → byteAt pkt 6 = 6 ∨ byteAt pkt 6 = 17

/-- An IPv4 fragment of a TCP datagram, or of a UDP datagram that is to be pinned. -/
structure PinnedFragment (udpPin : Bool) (pkt : Bytes) : Prop where
  verdict : parseL3L4 pkt = .fragment
  version : version pkt = 4
  proto : byteAt pkt 9 = 6 ∨ udpPin = true ∧ byteAt pkt 9 = 17

/-- The fields that IPv4 goes by to put a datagram together again. -/
structure SameDatagram (p q : Bytes) : Prop where
  src : (p.drop 12).take 4 = (q.drop 12).take 4
  dst : (p.drop 16).take 4 = (q.drop 16).take 4
  proto : byteAt p 9 = byteAt q 9
  ident : (p.drop 4).take 2 = (q.drop 4).take 2

theorem shouldPin_eq_true {proto : Nat} (h : proto = 6 ∨ udpPin = true ∧ proto = 17) : shouldPin proto udpPin = true :=
  decide_eq_true (h.imp_right And.symm)

/-- An L4 header that the parser takes, of a packet that is to be pinned. -/
theorem Pinned.atL4 (h : Pinned udpPin pkt key) {l : Layout} {proto off : Nat} {v : L4Verdict}
    (hl4 : AtL4 pkt l proto off v) (hv : parseL3L4 pkt = v) :
    KeyAt pkt l proto off key ∧ off + 8 ≤ pkt.length ∧ shouldPin proto udpPin = true := by
  subst hv
  rcases h.verdict with htcp | ⟨hudpPin, hudp⟩
  · rw [htcp] at hl4
    cases hl4 with
    | tcp hproto hfits hkey => exact ⟨hproto ▸ hkey, by omega, shouldPin_eq_true (.inl hproto)⟩
  · rw [hudp] at hl4
    obtain ⟨hproto, hfits, hkey⟩ := AtL4.udp_iff.1 hl4
    exact ⟨hproto ▸ hkey, hfits, shouldPin_eq_true (.inr ⟨hudpPin, hproto⟩)⟩

/-- A packet that is pinned hashes as its flow does. -/
theorem flowHashPkt_of_pinned (h : Pinned udpPin pkt key) : flowHashPkt pkt udpPin = key.pinHash := by
  have hclass := classified_parseL3L4 pkt
  have hne {v : L4Verdict} (hv : parseL3L4 pkt = v) : v ≠ .malformed ∧ v ≠ .fragment ∧ v ≠ .other := by
    subst hv
    rcases h.verdict with hv | ⟨-, hv⟩ <;>
      · rw [hv]
        exact ⟨L4Verdict.noConfusion, L4Verdict.noConfusion, L4Verdict.noConfusion⟩
  generalize hv : parseL3L4 pkt = v at hclass
  obtain ⟨hmalformed, hfragment, hother⟩ := hne hv
  cases hclass with
  | v4 hv4 hfrag hl4 =>
    obtain ⟨hkey, hfits, hpin⟩ := h.atL4 hl4 hv
    have hlen := hv4.2.1
    rw [flowHashPkt_v4 hv4 hpin, FlowKey.pinHash, wire_eq hkey (.inl rfl) (show 12 + (4 + 4) ≤ _ by omega)]
    exact (if_neg ((isFragment_iff pkt).not.2 hfrag)).trans (if_neg (by omega))
  | v6 hchain hn hl4 =>
    obtain ⟨hkey, hfits, hpin⟩ := h.atL4 hl4 hv
    have hversion := hchain.header.1
    have hlen := hchain.header.2.1.trans hchain.header.2.2
    -- without extension headers the walk ends where it begins
    have hext : ¬IsExt (byteAt pkt 6) := by
      intro hext
      obtain ⟨hudp, htcp, -⟩ := hext.ne
      exact (h.direct hversion).elim htcp hudp
    have hbase : Chain pkt 0 (byteAt pkt 6) 40 := .base hversion hlen
    obtain rfl := Nat.le_zero.1 (hbase.le hext hchain)
    obtain ⟨rfl, rfl⟩ := hchain.unique hbase
    rw [flowHashPkt_v6 hversion (by omega) hpin, FlowKey.pinHash, wire_eq hkey (.inr rfl) (show 8 + (16 + 16) ≤ _ by omega)]
    rfl
  | _ => first | exact absurd rfl hmalformed | exact absurd rfl hfragment | exact absurd rfl hother

/-- An IPv4 fragment hashes by the fields that put its datagram together. -/
theorem flowHashPkt_of_fragment (h : PinnedFragment udpPin pkt) :
    flowHashPkt pkt udpPin = flowHashFinish ((fragmentWire pkt).foldl flowHashUpdateByte fnv1aOffset) := by
  have hclass := classified_parseL3L4 pkt
  rw [h.verdict] at hclass
  have hversion := h.version
  cases hclass with
  | v4 _ _ hl4 => cases hl4
  | v6 hchain _ hl4 => cases hl4
  | v6Fragment hchain _ =>
    rw [hchain.header.1] at hversion
    cases hversion
  | v4Fragment hv4 hfrag =>
    have hlen := hv4.2.1
    have haddr : copyBytes pkt 12 8 = (pkt.drop 12).take 4 ++ (pkt.drop 16).take 4 := by
      rw [copyBytes_eq (by omega), show 8 = 4 + 4 from rfl, List.take_add, List.drop_drop]
    have hident : copyBytes pkt 4 2 = (pkt.drop 4).take 2 := copyBytes_eq (by omega)
    rw [flowHashPkt_v4 hv4 (shouldPin_eq_true h.proto), haddr, hident]
    exact if_pos ((isFragment_iff pkt).2 hfrag)

/-- The hash that pins packets follows the flow key: packets of one flow, as the parser finds it,
    hash alike, so do the fragments of a datagram, and the hash is none of the reserved values. -/
theorem flowHashPkt_follows_key (udpPin : Bool) :
    (∀ p q key, Pinned udpPin p key → Pinned udpPin q key →
      flowHashPkt p udpPin = flowHashPkt q udpPin ∧ flowHashPkt p udpPin ≠ 0 ∧ flowHashPkt p udpPin ≠ flowHashUnpinned) ∧
    ∀ p q, PinnedFragment udpPin p → PinnedFragment udpPin q → SameDatagram p q →
      flowHashPkt p udpPin = flowHashPkt q udpPin ∧ flowHashPkt p udpPin ≠ 0 ∧ flowHashPkt p udpPin ≠ flowHashUnpinned := by
  refine ⟨fun p q key hp hq => ?_, fun p q hp hq hsame => ?_⟩
  · rw [flowHashPkt_of_pinned hp, flowHashPkt_of_pinned hq]
    exact ⟨rfl, flowHashFinish_ne _⟩
  · have hwire : fragmentWire p = fragmentWire q := by
      rw [fragmentWire, fragmentWire, hsame.src, hsame.dst, hsame.proto, hsame.ident]
    rw [flowHashPkt_of_fragment hp, flowHashPkt_of_fragment hq, hwire]
    exact ⟨rfl, flowHashFinish_ne _⟩

/-- A TCP packet with options in its IPv4 header, of whole words. -/
def tcpPacket (options : Bytes) : Bytes :=
  [UInt8.ofNat (0x45 + options.length / 4), 0, 0, 0, 0, 0, 0, 0, 64, 6, 0, 0, 10, 0, 0, 1, 10, 0, 0, 2] ++ options ++
    [0, 80, 0, 53] ++ List.replicate 16 0

theorem flowHashPkt_follows_key_sample :
    flowHashPkt (tcpPacket []) false = flowHashPkt (tcpPacket [1, 1, 1, 1]) false ∧
      flowHashPkt (tcpPacket []) false ≠ 0 ∧ flowHashPkt (tcpPacket []) false ≠ flowHashUnpinned := by
  have hverdict (options : Bytes) (h : options = [] ∨ options = [1, 1, 1, 1]) :
      parseL3L4 (tcpPacket options) = .tcp { udpKey 80 with proto := 6 } := by
    rcases h with rfl | rfl <;> decide +kernel
  have hdirect (options : Bytes) (h : options = [] ∨ options = [1, 1, 1, 1]) :
      version (tcpPacket options) = 6 → byteAt (tcpPacket options) 6 = 6 ∨ byteAt (tcpPacket options) 6 = 17 := by
    rcases h with rfl | rfl <;> decide +kernel
  exact (flowHashPkt_follows_key false).1 _ _ _ ⟨.inl (hverdict _ (.inl rfl)), hdirect _ (.inl rfl)⟩
    ⟨.inl (hverdict _ (.inr rfl)), hdirect _ (.inr rfl)⟩

end Pinning

end Mqvpn.Reorder
