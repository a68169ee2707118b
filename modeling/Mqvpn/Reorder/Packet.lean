import Mqvpn.Reorder.Wire

/-!
# Inner packets and flow keys

The flow of an inner IP packet is its 5-tuple (`FlowKey`), compared field by
field (`flowKeyEq`) and hashed with a per-process seed (`flowKeyHash`, FNV-1a
over the bytes of the struct). `parseL3L4` walks a bare IP packet once and
classifies it; both ends of the reorder shim use it through `parse5tuple`, which
accepts unfragmented UDP only.
-/

namespace Mqvpn.Reorder

/-! ## Flow keys -/

/-- An address field of the key: 16 bytes, of which IPv4 uses the first four. -/
abbrev Addr := {b : Bytes // b.length = 16}

/-- `mqvpn_flow_key_t` -/
structure FlowKey where
  ipVersion : UInt8
  proto : UInt8
  srcPort : UInt16
  dstPort : UInt16
  srcIp : Addr
  dstIp : Addr

/-- `mqvpn_flow_key_eq` -/
def flowKeyEq (a b : FlowKey) : Bool :=
  a.ipVersion == b.ipVersion && a.proto == b.proto && a.srcPort == b.srcPort &&
    a.dstPort == b.dstPort && a.srcIp == b.srcIp && a.dstIp == b.dstIp

/-- The field-by-field comparison is equality. -/
theorem flowKeyEq_iff {a b : FlowKey} : flowKeyEq a b = true ↔ a = b := by
  cases a
  cases b
  simp [flowKeyEq, and_assoc, Subtype.ext_iff]

instance : DecidableEq FlowKey := fun _ _ => decidable_of_iff _ flowKeyEq_iff

/-- The two bytes of a port in memory (little-endian host). -/
def portBytes (p : UInt16) : Bytes := [UInt8.ofNat p.toNat, UInt8.ofNat (p.toNat >>> 8)]

/-- The bytes of the (padding-free) struct. -/
def FlowKey.bytes (k : FlowKey) : Bytes :=
  [k.ipVersion, k.proto] ++ portBytes k.srcPort ++ portBytes k.dstPort ++ k.srcIp ++ k.dstIp

/-- `mqvpn_flow_key_hash` -/
def flowKeyHash (k : FlowKey) (seed : UInt64) : UInt64 :=
  k.bytes.foldl (fun h b => (h ^^^ b.toUInt64) * 1099511628211) (14695981039346656037 ^^^ seed)

/-- `hash & (n_buckets - 1)` -/
def bucketOf (seed : UInt64) (nBuckets : Nat) (k : FlowKey) : Nat :=
  (flowKeyHash k seed).toNat &&& (nBuckets - 1)

theorem bucketOf_lt (seed : UInt64) {nBuckets : Nat} (h : 0 < nBuckets) (k : FlowKey) :
    bucketOf seed nBuckets k < nBuckets :=
  Nat.lt_of_le_of_lt Nat.and_le_right (Nat.sub_one_lt_of_lt h)

/-! ## The L3/L4 parser -/

/-- `mqvpn_l4_verdict_t`, with the key that is written for UDP and TCP. -/
inductive L4Verdict
  | udp (key : FlowKey)
  | tcp (key : FlowKey)
  | fragment
  | other
  | malformed
  deriving DecidableEq

def ipprotoUdp : Nat := 17
def ipprotoTcp : Nat := 6

/-- The bytes `pkt[off .. off + n)`. -/
def copyBytes (pkt : Bytes) (off n : Nat) : Bytes := (List.range n).map fun i => pkt.getD (off + i) 0

@[simp]
theorem length_copyBytes (pkt : Bytes) (off n : Nat) : (copyBytes pkt off n).length = n := by
  simp [copyBytes]

/-- The 16-bit big-endian field at `off`. -/
def field16 (pkt : Bytes) (off : Nat) : Nat := byteAt pkt off <<< 8 ||| byteAt pkt (off + 1)

/-- The L4 header that must fit: 8 bytes for UDP, the fixed 20 for TCP. -/
def l4Min (proto : Nat) : Nat := if proto = ipprotoTcp then 20 else 8

/-- The verdict on an L4 header of protocol `proto` at `off`, all of it in the
    packet. -/
def l4Found (pkt : Bytes) (ipVersion : UInt8) (proto off : Nat) (srcIp dstIp : Addr) : L4Verdict :=
  let key : FlowKey :=
    { ipVersion := ipVersion
      proto := UInt8.ofNat proto
      srcPort := UInt16.ofNat (field16 pkt off)
      dstPort := UInt16.ofNat (field16 pkt (off + 2))
      srcIp := srcIp
      dstIp := dstIp }
  if proto = ipprotoTcp then .tcp key else .udp key

/-- An IPv4 address in the first 4 of the 16 bytes. -/
def addr4 (pkt : Bytes) (off : Nat) : Addr := ⟨copyBytes pkt off 4 ++ List.replicate 12 0, by simp⟩

def addr6 (pkt : Bytes) (off : Nat) : Addr := ⟨copyBytes pkt off 16, by simp⟩

/-- The IPv4 branch of `mqvpn_parse_l3l4`. -/
def parseV4 (pkt : Bytes) : L4Verdict :=
  if pkt.length < 20 then .malformed
  else
    let ihl := byteAt pkt 0 &&& 0x0f
    let hdrLen := ihl * 4
    if ihl < 5 ∨ pkt.length < hdrLen then .malformed
    else if field16 pkt 6 &&& 0x3fff ≠ 0 then .fragment
    else
      let proto := byteAt pkt 9
      if proto ≠ ipprotoUdp ∧ proto ≠ ipprotoTcp then .other
      else if pkt.length < hdrLen + l4Min proto then .malformed
      else l4Found pkt 4 proto hdrLen (addr4 pkt 12) (addr4 pkt 16)

/-- The extension-header walk of `mqvpn_parse_l3l4`, `fuel` headers at most. -/
def walkV6 (pkt : Bytes) : (fuel next off : Nat) → L4Verdict
  | 0, _, _ => .other
  | fuel + 1, next, off =>
    if next = ipprotoUdp ∨ next = ipprotoTcp then
      if pkt.length < off + l4Min next then .malformed
      else l4Found pkt 6 next off (addr6 pkt 8) (addr6 pkt 24)
    else if next = 44 then .fragment
    else if next = 0 ∨ next = 43 ∨ next = 60 then
      if pkt.length < off + 2 then .malformed
      else
        let extBytes := (byteAt pkt (off + 1) + 1) * 8
        if pkt.length < off + extBytes then .malformed
        else walkV6 pkt fuel (byteAt pkt off) (off + extBytes)
    else .other

/-- `mqvpn_parse_l3l4` -/
def parseL3L4 (pkt : Bytes) : L4Verdict :=
  if pkt.length < 1 then .malformed
  else
    let version := byteAt pkt 0 >>> 4
    if version = 4 then parseV4 pkt
    else if version = 6 then
      if pkt.length < 40 then .malformed
      else walkV6 pkt 16 (byteAt pkt 6) 40
    else .malformed

/-- `mqvpn_reorder_parse_5tuple` -/
def parse5tuple (pkt : Bytes) : Option FlowKey :=
  match parseL3L4 pkt with
  | .udp key => some key
  | _ => none

/-- `inner_udp_payload_len`: what the ACK classifier measures. -/
def innerUdpPayloadLen (pkt : Bytes) : Nat :=
  if pkt.length < 1 then 0
  else
    let version := byteAt pkt 0 >>> 4
    if version = 4 then
      if pkt.length < 20 then 0 else pkt.length - ((byteAt pkt 0 &&& 0x0f) * 4 + 8)
    else if version = 6 then pkt.length - (40 + 8)
    else 0

/-! ## Sample packets -/

/-- A UDP packet of `len` bytes (at least 28) of the flow from `port`. -/
def udpPacket (port : UInt8) (len : Nat) : Bytes :=
  [0x45, 0, 0, 0, 0, 0, 0, 0, 64, 17, 0, 0, 10, 0, 0, 1, 10, 0, 0, 2, 0, port, 0, 53] ++
    List.replicate (len - 24) 0

/-- The key of its flow. -/
def udpKey (port : UInt8) : FlowKey where
  ipVersion := 4
  proto := 17
  srcPort := port.toUInt16
  dstPort := 53
  srcIp := ⟨[10, 0, 0, 1, 0, 0, 0, 0, 0, 0, 0, 0, 0, 0, 0, 0], rfl⟩
  dstIp := ⟨[10, 0, 0, 2, 0, 0, 0, 0, 0, 0, 0, 0, 0, 0, 0, 0], rfl⟩

theorem length_udpPacket (port : UInt8) {len : Nat} (h : 28 ≤ len) :
    (udpPacket port len).length = len := by
  simp only [udpPacket, List.length_append, List.length_replicate, List.length_cons, List.length_nil]
  omega

/-- A sample packet is of its flow, however long. -/
theorem parse5tuple_udpPacket (port : UInt8) {len : Nat} (h : 28 ≤ len) :
    parse5tuple (udpPacket port len) = some (udpKey port) := by
  have hlen := length_udpPacket port h
  have h0 : byteAt (udpPacket port len) 0 = 0x45 := by simp [byteAt, udpPacket]
  have h6 : field16 (udpPacket port len) 6 = 0 := by simp [field16, byteAt, udpPacket]
  have h9 : byteAt (udpPacket port len) 9 = ipprotoUdp := by simp [byteAt, udpPacket, ipprotoUdp]
  have hfound : l4Found (udpPacket port len) 4 ipprotoUdp 20 (addr4 (udpPacket port len) 12)
      (addr4 (udpPacket port len) 16) = .udp (udpKey port) := by
    simp [l4Found, field16, byteAt, addr4, copyBytes, udpPacket, udpKey, ipprotoUdp, ipprotoTcp,
      List.range_succ, List.replicate_succ]
  have hv4 : parseV4 (udpPacket port len) = .udp (udpKey port) := by
    have hihl : (0x45 &&& 0x0f) * 4 = 20 := rfl
    have hmin : 20 + l4Min ipprotoUdp = 28 := rfl
    rw [parseV4, h0, h6, h9, hlen]
    dsimp only
    rw [hihl, hmin, if_neg (by omega), if_neg (by simp; omega), if_neg (by decide),
      if_neg (by decide), if_neg (not_lt.2 h), hfound]
  rw [parse5tuple, parseL3L4, if_neg (by omega), h0]
  simp [hv4]

end Mqvpn.Reorder
