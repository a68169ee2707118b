import Mqvpn.Reorder.Config

/-!
# What the header walk finds

`Classified` says what an inner packet is, by the bytes it has and without a walk: for IPv6, the
extension headers that lie in the packet form a chain (`Chain`), and what comes after them
decides.

* `parseL3L4_iff`: the verdict of `parseL3L4` is the one that `Classified` gives, and there is no
  other;
* `readL3L4_eq`: the walk reads no byte outside the packet;
* `innerUdpPayloadLen_agrees_iff`: what the ACK classifier measures is the payload after the UDP
  header, but for extension headers, which count as payload.
-/

namespace Mqvpn.Reorder

/-! ## Checked reads -/

/-- `pkt[i]`, of a packet that has this byte -/
def readByte (pkt : Bytes) (i : Nat) : Option Nat := (pkt[i]?).map UInt8.toNat

/-- The 16-bit field at `off`, byte by byte. -/
def readField16 (pkt : Bytes) (off : Nat) : Option Nat := do
  let hi ← readByte pkt off
  let lo ← readByte pkt (off + 1)
  return hi <<< 8 ||| lo

/-- An address of `n` bytes is copied from `off`. -/
def readAddr (pkt : Bytes) (off n : Nat) (addr : Bytes → Nat → Addr) : Option Addr :=
  if off + n ≤ pkt.length then some (addr pkt off) else none

/-- The end of `mqvpn_parse_l3l4` for UDP and TCP: the key is written. -/
def readKey (pkt : Bytes) (ipVersion : UInt8) (proto src dst n off : Nat) (addr : Bytes → Nat → Addr) :
    Option L4Verdict := do
  let srcIp ← readAddr pkt src n addr
  let dstIp ← readAddr pkt dst n addr
  let srcPort ← readField16 pkt off
  let dstPort ← readField16 pkt (off + 2)
  let key : FlowKey :=
    { ipVersion, proto := UInt8.ofNat proto, srcPort := UInt16.ofNat srcPort, dstPort := UInt16.ofNat dstPort, srcIp, dstIp }
  return if proto = ipprotoTcp then .tcp key else .udp key

/-- The IPv4 branch, with every read checked. -/
def readV4 (pkt : Bytes) : Option L4Verdict :=
  if pkt.length < 20 then some .malformed
  else do
    let first ← readByte pkt 0
    let hdrLen := (first &&& 0x0f) * 4
    if first &&& 0x0f < 5 ∨ pkt.length < hdrLen then return .malformed
    let frag ← readField16 pkt 6
    if frag &&& 0x3fff ≠ 0 then return .fragment
    let proto ← readByte pkt 9
    if proto ≠ ipprotoUdp ∧ proto ≠ ipprotoTcp then return .other
    if pkt.length < hdrLen + l4Min proto then return .malformed
    readKey pkt 4 proto 12 16 4 hdrLen addr4

/-- The walk over the extension headers, with every read checked. -/
def readWalkV6 (pkt : Bytes) : (fuel next off : Nat) → Option L4Verdict
  | 0, _, _ => some .other
  | fuel + 1, next, off =>
    if next = ipprotoUdp ∨ next = ipprotoTcp then
      if pkt.length < off + l4Min next then some .malformed
      else readKey pkt 6 next 8 24 16 off addr6
    else if next = 44 then some .fragment
    else if next = 0 ∨ next = 43 ∨ next = 60 then
      if pkt.length < off + 2 then some .malformed
      else do
        let extLen ← readByte pkt (off + 1)
        let next ← readByte pkt off
        if pkt.length < off + (extLen + 1) * 8 then return .malformed
        readWalkV6 pkt fuel next (off + (extLen + 1) * 8)
    else some .other

/-- `mqvpn_parse_l3l4`, with every read checked. -/
def readL3L4 (pkt : Bytes) : Option L4Verdict :=
  if pkt.length < 1 then some .malformed
  else do
    let first ← readByte pkt 0
    if first >>> 4 = 4 then readV4 pkt
    else if first >>> 4 = 6 then
      if pkt.length < 40 then return .malformed
      let next ← readByte pkt 6
      readWalkV6 pkt 16 next 40
    else return .malformed

section Reads

variable {pkt : Bytes} {i off n : Nat}

theorem readByte_eq (h : i < pkt.length) : readByte pkt i = some (byteAt pkt i) := by
  rw [readByte, byteAt, List.getElem?_eq_getElem h, List.getD_eq_getElem _ _ h]
  rfl

theorem readField16_eq (h : off + 1 < pkt.length) : readField16 pkt off = some (field16 pkt off) := by
  rw [readField16, readByte_eq (Nat.lt_of_succ_lt h), readByte_eq h]
  rfl

theorem readAddr_eq (addr : Bytes → Nat → Addr) (h : off + n ≤ pkt.length) :
    readAddr pkt off n addr = some (addr pkt off) :=
  if_pos h

/-- The addresses lie before the L4 header, and the ports in it. -/
theorem readKey_eq {ipVersion : UInt8} {proto src dst : Nat} {addr : Bytes → Nat → Addr} (hsrc : src + n ≤ pkt.length)
    (hdst : dst + n ≤ pkt.length) (hl4 : off + l4Min proto ≤ pkt.length) :
    readKey pkt ipVersion proto src dst n off addr =
      some (l4Found pkt ipVersion proto off (addr pkt src) (addr pkt dst)) := by
  have hmin : 8 ≤ l4Min proto := by
    rw [l4Min]
    split <;> decide
  rw [readKey, readAddr_eq addr hsrc, readAddr_eq addr hdst, readField16_eq (by omega), readField16_eq (by omega)]
  rfl

theorem readV4_eq (pkt : Bytes) : readV4 pkt = some (parseV4 pkt) := by
  rw [readV4, parseV4]
  by_cases hlen : pkt.length < 20
  · rw [if_pos hlen, if_pos hlen]
  rw [if_neg hlen, if_neg hlen, readByte_eq (by omega), readField16_eq (by omega), readByte_eq (by omega)]
  dsimp only [Option.bind_eq_bind, Option.bind_some]
  split
  · rfl
  · split
    · rfl
    · split
      · rfl
      · split
        · rfl
        · exact readKey_eq (by omega) (by omega) (by omega)

theorem readWalkV6_eq (hlen : 40 ≤ pkt.length) (fuel next : Nat) (off : Nat) :
    readWalkV6 pkt fuel next off = some (walkV6 pkt fuel next off) := by
  induction fuel generalizing next off with
  | zero => rfl
  | succ fuel ih =>
    rw [readWalkV6, walkV6]
    split
    · split
      · rfl
      · exact readKey_eq (by omega) (by omega) (by omega)
    · split
      · rfl
      · split
        · split
          · rfl
          · rw [readByte_eq (by omega), readByte_eq (by omega)]
            dsimp only [Option.bind_eq_bind, Option.bind_some]
            split
            · rfl
            · exact ih _ _
        · rfl

/-- Every byte that the walk reads is in the packet. -/
theorem readL3L4_eq (pkt : Bytes) : readL3L4 pkt = some (parseL3L4 pkt) := by
  rw [readL3L4, parseL3L4]
  split
  · rfl
  · rw [readByte_eq (by omega)]
    dsimp only [Option.bind_eq_bind, Option.bind_some]
    split
    · exact readV4_eq pkt
    · split
      · split
        · rfl
        · rw [readByte_eq (by omega)]
          exact readWalkV6_eq (by omega) ..
      · rfl

end Reads

/-! ## What a packet is -/

/-- The version of a packet. -/
def version (pkt : Bytes) : Nat := byteAt pkt 0 / 16

/-- The length of an IPv4 header, in words. -/
def ihl (pkt : Bytes) : Nat := byteAt pkt 0 % 16

/-- The number in the two bytes at `off`. -/
def wordAt (pkt : Bytes) (off : Nat) : Nat := byteAt pkt off * 256 + byteAt pkt (off + 1)

/-- The IPv4 header lies in the packet. -/
def HasV4 (pkt : Bytes) : Prop := version pkt = 4 ∧ 20 ≤ pkt.length ∧ 5 ≤ ihl pkt ∧ 4 * ihl pkt ≤ pkt.length

/-- More fragments are to come, or the packet does not begin its datagram. -/
def IsFragment (pkt : Bytes) : Prop := byteAt pkt 6 / 32 % 2 = 1 ∨ wordAt pkt 6 % 2 ^ 13 ≠ 0

/-- The types of the hop-by-hop options, the routing header and the destination options. -/
def IsExt (type : Nat) : Prop := type = 0 ∨ type = 43 ∨ type = 60

/-- The length of the extension header at `off`, as it says. -/
def extLen (pkt : Bytes) (off : Nat) : Nat := 8 * (byteAt pkt (off + 1) + 1)

/-- The IPv6 header and `n` extension headers lie in the packet, and a header of the type `type`
    is to come at `off`. -/
inductive Chain (pkt : Bytes) : (n type off : Nat) → Prop
  | base : version pkt = 6 → 40 ≤ pkt.length → Chain pkt 0 (byteAt pkt 6) 40
  | ext {n type off : Nat} : Chain pkt n type off → IsExt type → off + extLen pkt off ≤ pkt.length →
      Chain pkt (n + 1) (byteAt pkt off) (off + extLen pkt off)

/-- The header with the addresses: its version, where they are, and their length. -/
structure Layout where
  ipVersion : Nat
  src : Nat
  dst : Nat
  n : Nat

def Layout.v4 : Layout := ⟨4, 12, 16, 4⟩

def Layout.v6 : Layout := ⟨6, 8, 24, 16⟩

/-- The `n` bytes of an address at `off`, in the 16 bytes of the key. -/
def Layout.addr (l : Layout) (pkt : Bytes) (off : Nat) : Bytes :=
  (pkt.drop off).take l.n ++ List.replicate (16 - l.n) 0

/-- The key is made of the addresses of the packet, and the ports at `off`. -/
structure KeyAt (pkt : Bytes) (l : Layout) (proto off : Nat) (key : FlowKey) : Prop where
  ipVersion : key.ipVersion.toNat = l.ipVersion
  proto : key.proto.toNat = proto
  srcIp : key.srcIp.1 = l.addr pkt l.src
  dstIp : key.dstIp.1 = l.addr pkt l.dst
  srcPort : key.srcPort.toNat = wordAt pkt off
  dstPort : key.dstPort.toNat = wordAt pkt (off + 2)

/-- What a packet is with an L4 header of the type `proto` at `off`. -/
inductive AtL4 (pkt : Bytes) (l : Layout) (proto off : Nat) : L4Verdict → Prop
  | udp {key : FlowKey} : proto = 17 → off + 8 ≤ pkt.length →
      KeyAt pkt l 17 off key → AtL4 pkt l proto off (.udp key)
  | tcp {key : FlowKey} : proto = 6 → off + 20 ≤ pkt.length →
      KeyAt pkt l 6 off key → AtL4 pkt l proto off (.tcp key)
  | udpShort : proto = 17 → pkt.length < off + 8 → AtL4 pkt l proto off .malformed
  | tcpShort : proto = 6 → pkt.length < off + 20 → AtL4 pkt l proto off .malformed

/-- What a packet is. -/
inductive Classified (pkt : Bytes) : L4Verdict → Prop
  | empty : pkt = [] → Classified pkt .malformed
  | unknown : version pkt ≠ 4 → version pkt ≠ 6 → Classified pkt .malformed
  | v4Short : version pkt = 4 → ¬HasV4 pkt → Classified pkt .malformed
  | v4Fragment : HasV4 pkt → IsFragment pkt → Classified pkt .fragment
  | v4Other : HasV4 pkt → ¬IsFragment pkt → byteAt pkt 9 ≠ 17 → byteAt pkt 9 ≠ 6 → Classified pkt .other
  | v4 {v : L4Verdict} : HasV4 pkt → ¬IsFragment pkt → AtL4 pkt .v4 (byteAt pkt 9) (4 * ihl pkt) v → Classified pkt v
  | v6Short : version pkt = 6 → pkt.length < 40 → Classified pkt .malformed
  | v6Overrun {n type off : Nat} : Chain pkt n type off → n < 16 → IsExt type →
      pkt.length < off + 2 ∨ pkt.length < off + extLen pkt off → Classified pkt .malformed
  | v6Fragment {n off : Nat} : Chain pkt n 44 off → n < 16 → Classified pkt .fragment
  | v6Other {n type off : Nat} : Chain pkt n type off → n < 16 → type ≠ 17 → type ≠ 6 → type ≠ 44 → ¬IsExt type →
      Classified pkt .other
  | v6 {n type off : Nat} {v : L4Verdict} : Chain pkt n type off → n < 16 → AtL4 pkt .v6 type off v → Classified pkt v
  | v6Long {type off : Nat} : Chain pkt 16 type off → Classified pkt .other

/-! ## The walk finds it -/

section Classified

variable {pkt : Bytes} {v : L4Verdict}

theorem shiftRight_eq_version (pkt : Bytes) : byteAt pkt 0 >>> 4 = version pkt := Nat.shiftRight_eq_div_pow ..

theorem and_eq_ihl (pkt : Bytes) : byteAt pkt 0 &&& 0x0f = ihl pkt := Nat.and_two_pow_sub_one_eq_mod _ 4

theorem field16_eq_wordAt (pkt : Bytes) (off : Nat) : field16 pkt off = wordAt pkt off :=
  shiftLeft_or_byte 0 (byteAt_lt pkt (off + 1))

theorem wordAt_lt (pkt : Bytes) (off : Nat) : wordAt pkt off < 2 ^ 16 := by
  have hhi := byteAt_lt pkt off
  have hlo := byteAt_lt pkt (off + 1)
  rw [wordAt]
  omega

theorem isFragment_iff (pkt : Bytes) : field16 pkt 6 &&& 0x3fff ≠ 0 ↔ IsFragment pkt := by
  have hmod : wordAt pkt 6 &&& 0x3fff = wordAt pkt 6 % 2 ^ 14 := Nat.and_two_pow_sub_one_eq_mod _ 14
  have hlo := byteAt_lt pkt (6 + 1)
  rw [field16_eq_wordAt, hmod, IsFragment, wordAt]
  omega

theorem copyBytes_eq {off n : Nat} (h : off + n ≤ pkt.length) : copyBytes pkt off n = (pkt.drop off).take n := by
  refine List.ext_getElem ?_ fun i hi _ => ?_
  · rw [length_copyBytes, List.length_take, List.length_drop]
    omega
  · rw [length_copyBytes] at hi
    simp only [copyBytes, List.getElem_map, List.getElem_range, List.getElem_take, List.getElem_drop]
    exact List.getD_eq_getElem _ _ (by omega)

theorem addr4_eq {off : Nat} (h : off + 4 ≤ pkt.length) : (addr4 pkt off).1 = Layout.v4.addr pkt off :=
  congrArg (· ++ List.replicate 12 0) (copyBytes_eq h)

theorem addr6_eq {off : Nat} (h : off + 16 ≤ pkt.length) : (addr6 pkt off).1 = Layout.v6.addr pkt off :=
  (copyBytes_eq h).trans (List.append_nil _).symm

/-- The bytes of a packet determine its key. -/
theorem KeyAt.eq {l : Layout} {proto off : Nat} {key key' : FlowKey} (h : KeyAt pkt l proto off key)
    (h' : KeyAt pkt l proto off key') : key = key' := by
  cases key
  cases key'
  have hversion := UInt8.toNat_inj.1 (h.ipVersion.trans h'.ipVersion.symm)
  have hproto := UInt8.toNat_inj.1 (h.proto.trans h'.proto.symm)
  have hsrcPort := UInt16.toNat_inj.1 (h.srcPort.trans h'.srcPort.symm)
  have hdstPort := UInt16.toNat_inj.1 (h.dstPort.trans h'.dstPort.symm)
  have hsrc := Subtype.ext (h.srcIp.trans h'.srcIp.symm)
  have hdst := Subtype.ext (h.dstIp.trans h'.dstIp.symm)
  dsimp only at *
  rw [hversion, hproto, hsrcPort, hdstPort, hsrc, hdst]

/-- The key that is written is the one of the packet. -/
theorem keyAt_found {l : Layout} {ipVersion : UInt8} {proto : Nat} {srcIp dstIp : Addr} (off : Nat)
    (hversion : ipVersion.toNat = l.ipVersion) (hproto : proto < 2 ^ 8) (hsrc : srcIp.1 = l.addr pkt l.src)
    (hdst : dstIp.1 = l.addr pkt l.dst) :
    KeyAt pkt l proto off
      { ipVersion
        proto := UInt8.ofNat proto
        srcPort := UInt16.ofNat (field16 pkt off)
        dstPort := UInt16.ofNat (field16 pkt (off + 2))
        srcIp
        dstIp } where
  ipVersion := hversion
  proto := UInt8.toNat_ofNat_of_lt' hproto
  srcIp := hsrc
  dstIp := hdst
  srcPort := (UInt16.toNat_ofNat_of_lt' (field16_eq_wordAt pkt off ▸ wordAt_lt pkt off)).trans (field16_eq_wordAt pkt off)
  dstPort :=
    (UInt16.toNat_ofNat_of_lt' (field16_eq_wordAt pkt (off + 2) ▸ wordAt_lt pkt (off + 2))).trans
      (field16_eq_wordAt pkt (off + 2))

/-- The end of both branches of the parser. -/
theorem atL4_iff {l : Layout} {ipVersion : UInt8} {proto off : Nat} {srcIp dstIp : Addr}
    (hversion : ipVersion.toNat = l.ipVersion) (hsrc : srcIp.1 = l.addr pkt l.src) (hdst : dstIp.1 = l.addr pkt l.dst)
    (hproto : proto = ipprotoUdp ∨ proto = ipprotoTcp) :
    (if pkt.length < off + l4Min proto then .malformed else l4Found pkt ipVersion proto off srcIp dstIp) = v ↔
      AtL4 pkt l proto off v := by
  rcases hproto with rfl | rfl
  · have hbyte : ipprotoUdp < 2 ^ 8 := by decide
    have hkey := keyAt_found off hversion hbyte hsrc hdst
    constructor
    · rintro rfl
      split
      · exact .udpShort rfl ‹_›
      · exact .udp rfl (Nat.le_of_not_lt ‹_›) hkey
    · rintro (⟨-, hfits, hkey'⟩ | ⟨hne, -, -⟩ | ⟨-, hshort⟩ | ⟨hne, -⟩)
      · have hmin : off + l4Min ipprotoUdp ≤ pkt.length := hfits
        rw [if_neg (Nat.not_lt_of_le hmin), hkey'.eq hkey]
        rfl
      · exact absurd hne (by decide)
      · exact if_pos hshort
      · exact absurd hne (by decide)
  · have hbyte : ipprotoTcp < 2 ^ 8 := by decide
    have hkey := keyAt_found off hversion hbyte hsrc hdst
    constructor
    · rintro rfl
      split
      · exact .tcpShort rfl ‹_›
      · exact .tcp rfl (Nat.le_of_not_lt ‹_›) hkey
    · rintro (⟨hne, -, -⟩ | ⟨-, hfits, hkey'⟩ | ⟨hne, -⟩ | ⟨-, hshort⟩)
      · exact absurd hne (by decide)
      · have hmin : off + l4Min ipprotoTcp ≤ pkt.length := hfits
        rw [if_neg (Nat.not_lt_of_le hmin), hkey'.eq hkey]
        rfl
      · exact absurd hne (by decide)
      · exact if_pos hshort

/-! ### IPv4 -/

theorem atL4_v4_iff (h : 20 ≤ pkt.length) {proto off : Nat} (hproto : proto = ipprotoUdp ∨ proto = ipprotoTcp) :
    (if pkt.length < off + l4Min proto then .malformed
      else l4Found pkt 4 proto off (addr4 pkt 12) (addr4 pkt 16)) = v ↔ AtL4 pkt .v4 proto off v :=
  atL4_iff rfl (addr4_eq (by omega)) (addr4_eq (by omega)) hproto

theorem AtL4.proto {l : Layout} {proto off : Nat} (h : AtL4 pkt l proto off v) : proto = ipprotoUdp ∨ proto = ipprotoTcp := by
  cases h with
  | udp h => exact .inl h
  | tcp h => exact .inr h
  | udpShort h => exact .inl h
  | tcpShort h => exact .inr h

/-- The verdict on a packet with an IPv4 header. -/
theorem parseV4_of_hasV4 (h : HasV4 pkt) :
    parseV4 pkt =
      if field16 pkt 6 &&& 0x3fff ≠ 0 then .fragment
      else if byteAt pkt 9 ≠ ipprotoUdp ∧ byteAt pkt 9 ≠ ipprotoTcp then .other
      else if pkt.length < 4 * ihl pkt + l4Min (byteAt pkt 9) then .malformed
      else l4Found pkt 4 (byteAt pkt 9) (4 * ihl pkt) (addr4 pkt 12) (addr4 pkt 16) := by
  obtain ⟨-, hlen, hihl, hhdr⟩ := h
  rw [parseV4, if_neg (Nat.not_lt_of_le hlen), and_eq_ihl, Nat.mul_comm]
  exact if_neg (by omega)

theorem parseV4_of_not_hasV4 (hversion : version pkt = 4) (h : ¬HasV4 pkt) : parseV4 pkt = .malformed := by
  rw [parseV4]
  by_cases hlen : pkt.length < 20
  · exact if_pos hlen
  · rw [if_neg hlen, and_eq_ihl]
    refine if_pos ?_
    by_contra hhdr
    exact h ⟨hversion, by omega, by omega, by omega⟩

theorem Chain.header {n type off : Nat} (h : Chain pkt n type off) :
    version pkt = 6 ∧ 40 ≤ off ∧ off ≤ pkt.length := by
  induction h with
  | base hversion hlen => exact ⟨hversion, le_rfl, hlen⟩
  | ext _ _ hfits ih => exact ⟨ih.1, by omega, hfits⟩

theorem parseV4_iff (hversion : version pkt = 4) : parseV4 pkt = v ↔ Classified pkt v := by
  have hnot {n type off : Nat} : ¬Chain pkt n type off := fun h => by
    rw [h.header.1] at hversion
    cases hversion
  constructor
  · rintro rfl
    by_cases h : HasV4 pkt
    · rw [parseV4_of_hasV4 h]
      split
      · exact .v4Fragment h ((isFragment_iff pkt).1 ‹_›)
      · rename_i hfrag
        rw [isFragment_iff] at hfrag
        split
        · rename_i hproto
          exact .v4Other h hfrag hproto.1 hproto.2
        · rename_i hproto
          exact .v4 h hfrag ((atL4_v4_iff h.2.1 (by omega)).1 rfl)
    · rw [parseV4_of_not_hasV4 hversion h]
      exact .v4Short hversion h
  · rintro (rfl | ⟨hne, -⟩ | ⟨-, h⟩ | ⟨h, hfrag⟩ | ⟨h, hfrag, hudp, htcp⟩ | ⟨h, hfrag, hl4⟩ | ⟨hsix, -⟩ |
      ⟨h, -, -, -⟩ | ⟨h, -⟩ | ⟨h, -, -, -, -, -⟩ | ⟨h, -, -⟩ | h)
    · cases hversion
    · exact absurd hversion hne
    · exact parseV4_of_not_hasV4 hversion h
    · rw [parseV4_of_hasV4 h, if_pos ((isFragment_iff pkt).2 hfrag)]
    · rw [parseV4_of_hasV4 h, if_neg ((isFragment_iff pkt).not.2 hfrag), if_pos ⟨hudp, htcp⟩]
    · have hproto := hl4.proto
      rw [parseV4_of_hasV4 h, if_neg ((isFragment_iff pkt).not.2 hfrag), if_neg (by omega)]
      exact (atL4_v4_iff h.2.1 hproto).2 hl4
    · rw [hversion] at hsix
      cases hsix
    all_goals exact absurd h hnot

/-! ### IPv6 -/

theorem atL4_v6_iff (h : 40 ≤ pkt.length) {proto off : Nat} (hproto : proto = ipprotoUdp ∨ proto = ipprotoTcp) :
    (if pkt.length < off + l4Min proto then .malformed
      else l4Found pkt 6 proto off (addr6 pkt 8) (addr6 pkt 24)) = v ↔ AtL4 pkt .v6 proto off v :=
  atL4_iff rfl (addr6_eq (by omega)) (addr6_eq (by omega)) hproto

/-- The types that the walk tells apart. -/
theorem IsExt.ne {type : Nat} (h : IsExt type) : type ≠ ipprotoUdp ∧ type ≠ ipprotoTcp ∧ type ≠ 44 := by
  rcases h with rfl | rfl | rfl <;> decide

/-- A step of the walk, over an extension header. -/
theorem walkV6_ext {type : Nat} (h : IsExt type) (fuel off : Nat) :
    walkV6 pkt (fuel + 1) type off =
      if pkt.length < off + 2 ∨ pkt.length < off + extLen pkt off then .malformed
      else walkV6 pkt fuel (byteAt pkt off) (off + extLen pkt off) := by
  obtain ⟨hudp, htcp, hfrag⟩ := h.ne
  have hmul : (byteAt pkt (off + 1) + 1) * 8 = extLen pkt off := Nat.mul_comm ..
  have hext : type = 0 ∨ type = 43 ∨ type = 60 := h
  rw [walkV6, if_neg (not_or.2 ⟨hudp, htcp⟩), if_neg hfrag, if_pos hext, hmul]
  by_cases hshort : pkt.length < off + 2
  · rw [if_pos hshort, if_pos (.inl hshort)]
  · by_cases hlong : pkt.length < off + extLen pkt off
    · rw [if_neg hshort, if_pos hlong, if_pos (.inr hlong)]
    · rw [if_neg hshort, if_neg hlong, if_neg (not_or.2 ⟨hshort, hlong⟩)]

/-- The walk stands at the end of a chain. -/
theorem classified_walkV6 {fuel n type off : Nat} (h : Chain pkt n type off) (hn : n + fuel = 16) :
    Classified pkt (walkV6 pkt fuel type off) := by
  induction fuel generalizing n type off with
  | zero =>
    obtain rfl : n = 16 := hn
    exact .v6Long h
  | succ fuel ih =>
    have hless : n < 16 := by omega
    have hlen : 40 ≤ pkt.length := h.header.2.1.trans h.header.2.2
    rw [walkV6]
    split
    · rename_i hproto
      exact .v6 h hless ((atL4_v6_iff hlen hproto).1 rfl)
    · rename_i hproto
      split
      · rename_i hfrag
        exact .v6Fragment (hfrag ▸ h) hless
      · rename_i hfrag
        split
        · rename_i hext
          have hstep : walkV6 pkt (fuel + 1) _ off = _ := walkV6_ext hext fuel off
          rw [walkV6, if_neg hproto, if_neg hfrag, if_pos hext] at hstep
          rw [hstep]
          split
          · rename_i hshort
            exact .v6Overrun h hless hext hshort
          · rename_i hfits
            exact ih (h.ext hext (Nat.le_of_not_lt (not_or.1 hfits).2)) (by omega)
        · rename_i hext
          exact .v6Other h hless (fun heq => hproto (.inl heq)) (fun heq => hproto (.inr heq)) hfrag hext

/-- The walk goes along the chain. -/
theorem walkV6_chain {n type off : Nat} (h : Chain pkt n type off) {fuel : Nat} :
    walkV6 pkt (n + fuel) (byteAt pkt 6) 40 = walkV6 pkt fuel type off := by
  induction h generalizing fuel with
  | base => rw [Nat.zero_add]
  | @ext n type off hchain hext hfits ih =>
    have htwo : off + 2 ≤ off + extLen pkt off := by
      rw [extLen]
      omega
    rw [Nat.add_right_comm, Nat.add_assoc, ih, walkV6_ext hext]
    exact if_neg (by omega)

/-- At the end of a chain the walk decides. -/
theorem parseL3L4_chain {n type off : Nat} (h : Chain pkt n type off) (hn : n ≤ 16) :
    parseL3L4 pkt = walkV6 pkt (16 - n) type off := by
  obtain ⟨hversion, hoff, hlen⟩ := h.header
  have hwalk : walkV6 pkt (n + (16 - n)) (byteAt pkt 6) 40 = _ := walkV6_chain h
  rw [Nat.add_sub_cancel' hn] at hwalk
  rw [parseL3L4, if_neg (by omega), shiftRight_eq_version, hversion, if_neg (by decide), if_pos rfl, if_neg (by omega)]
  exact hwalk

/-- There is a step left. -/
theorem exists_left {n : Nat} (h : n < 16) : ∃ fuel, 16 - n = fuel + 1 := ⟨15 - n, by omega⟩

/-! ### All packets -/

theorem classified_parseL3L4 (pkt : Bytes) : Classified pkt (parseL3L4 pkt) := by
  rw [parseL3L4, shiftRight_eq_version]
  split
  · rename_i hlen
    exact .empty (List.length_eq_zero_iff.1 (by omega))
  · dsimp only
    split
    · rename_i hversion
      exact (parseV4_iff hversion).1 rfl
    · rename_i hfour
      split
      · rename_i hversion
        split
        · exact .v6Short hversion ‹_›
        · rename_i hlen
          exact classified_walkV6 (.base hversion (Nat.le_of_not_lt hlen)) rfl
      · rename_i hsix
        exact .unknown hfour hsix

theorem parseL3L4_of_classified (h : Classified pkt v) : parseL3L4 pkt = v := by
  by_cases hversion : version pkt = 4
  · have hlen : ¬pkt.length < 1 := by
      intro hlen
      rw [List.length_eq_zero_iff.1 (by omega : pkt.length = 0)] at hversion
      cases hversion
    rw [parseL3L4, if_neg hlen, shiftRight_eq_version, if_pos hversion]
    exact (parseV4_iff hversion).2 h
  · rcases h with rfl | ⟨-, hsix⟩ | ⟨hfour, -⟩ | ⟨hv4, -⟩ | ⟨hv4, -, -, -⟩ | ⟨hv4, -, -⟩ | ⟨hsix, hlen⟩ |
      ⟨h, hn, hext, hshort⟩ | ⟨h, hn⟩ | ⟨h, hn, hudp, htcp, hfrag, hext⟩ | ⟨h, hn, hl4⟩ | h
    · rfl
    · rw [parseL3L4, shiftRight_eq_version, if_neg hversion, if_neg hsix]
      exact ite_self _
    · exact absurd hfour hversion
    · exact absurd hv4.1 hversion
    · exact absurd hv4.1 hversion
    · exact absurd hv4.1 hversion
    · rw [parseL3L4, shiftRight_eq_version, if_neg hversion, if_pos hsix, if_pos hlen]
      exact ite_self _
    · obtain ⟨fuel, hfuel⟩ := exists_left hn
      rw [parseL3L4_chain h hn.le, hfuel, walkV6_ext hext]
      exact if_pos hshort
    · obtain ⟨fuel, hfuel⟩ := exists_left hn
      rw [parseL3L4_chain h hn.le, hfuel, walkV6, if_neg (by decide), if_pos rfl]
    · obtain ⟨fuel, hfuel⟩ := exists_left hn
      rw [parseL3L4_chain h hn.le, hfuel, walkV6]
      exact (if_neg (not_or.2 ⟨hudp, htcp⟩)).trans ((if_neg hfrag).trans (if_neg hext))
    · obtain ⟨fuel, hfuel⟩ := exists_left hn
      have hlen : 40 ≤ pkt.length := h.header.2.1.trans h.header.2.2
      rw [parseL3L4_chain h hn.le, hfuel, walkV6, if_pos hl4.proto]
      exact (atL4_v6_iff hlen hl4.proto).2 hl4
    · rw [parseL3L4_chain h le_rfl]
      rfl

/-- The walk ends, reads nothing but the packet, and finds what the packet is. -/
theorem parseL3L4_spec (pkt : Bytes) :
    readL3L4 pkt = some (parseL3L4 pkt) ∧ ∀ v, parseL3L4 pkt = v ↔ Classified pkt v := by
  refine ⟨readL3L4_eq pkt, fun v => ⟨?_, parseL3L4_of_classified⟩⟩
  rintro rfl
  exact classified_parseL3L4 pkt

theorem parseL3L4_iff : parseL3L4 pkt = v ↔ Classified pkt v := (parseL3L4_spec pkt).2 v

/-! ## What the ACK classifier measures -/

/-- A packet has a UDP header at `off`, not all of which need be there. -/
inductive UdpAt (pkt : Bytes) : Layout → Nat → Prop
  | v4 : HasV4 pkt → ¬IsFragment pkt → byteAt pkt 9 = 17 → UdpAt pkt .v4 (4 * ihl pkt)
  | v6 {n off : Nat} : Chain pkt n 17 off → n < 16 → UdpAt pkt .v6 off

theorem AtL4.udp_iff {l : Layout} {proto off : Nat} {key : FlowKey} :
    AtL4 pkt l proto off (.udp key) ↔ proto = 17 ∧ off + 8 ≤ pkt.length ∧ KeyAt pkt l 17 off key :=
  ⟨fun | .udp hproto hfits hkey => ⟨hproto, hfits, hkey⟩, fun h => .udp h.1 h.2.1 h.2.2⟩

/-- The packets that the reorder shim takes, and their keys. -/
theorem parse5tuple_iff {key : FlowKey} :
    parse5tuple pkt = some key ↔ ∃ l off, UdpAt pkt l off ∧ off + 8 ≤ pkt.length ∧ KeyAt pkt l 17 off key := by
  have hudp : parse5tuple pkt = some key ↔ parseL3L4 pkt = .udp key := by
    rw [parse5tuple]
    cases parseL3L4 pkt with
    | udp key' => exact ⟨fun h => congrArg L4Verdict.udp (Option.some.inj h), fun h => congrArg some (L4Verdict.udp.inj h)⟩
    | _ => exact ⟨fun h => Option.noConfusion rfl (heq_of_eq h), fun h => L4Verdict.noConfusion h⟩
  rw [hudp, parseL3L4_iff]
  constructor
  · intro h
    cases h with
    | v4 h hfrag hl4 =>
      obtain ⟨hproto, hfits, hkey⟩ := AtL4.udp_iff.1 hl4
      exact ⟨_, _, .v4 h hfrag hproto, hfits, hkey⟩
    | v6 h hn hl4 =>
      obtain ⟨rfl, hfits, hkey⟩ := AtL4.udp_iff.1 hl4
      exact ⟨_, _, .v6 h hn, hfits, hkey⟩
  · rintro ⟨l, off, hat, hfits, hkey⟩
    cases hat with
    | v4 h hfrag hproto => exact .v4 h hfrag (AtL4.udp_iff.2 ⟨hproto, hfits, hkey⟩)
    | v6 h hn => exact .v6 h hn (AtL4.udp_iff.2 ⟨rfl, hfits, hkey⟩)

theorem Chain.unique {n type off type' off' : Nat} (h : Chain pkt n type off) (h' : Chain pkt n type' off') :
    type = type' ∧ off = off' := by
  induction h generalizing type' off' with
  | base =>
    cases h'
    exact ⟨rfl, rfl⟩
  | ext _ _ _ ih =>
    cases h' with
    | ext h' =>
      obtain ⟨rfl, rfl⟩ := ih h'
      exact ⟨rfl, rfl⟩

/-- A chain ends at a header that is not an extension. -/
theorem Chain.le {n type off n' type' off' : Nat} (h : Chain pkt n type off) (hext : ¬IsExt type)
    (h' : Chain pkt n' type' off') : n' ≤ n := by
  induction h' with
  | base => exact Nat.zero_le n
  | ext hchain hext' _ ih =>
    refine Nat.lt_of_le_of_ne ih fun heq => ?_
    subst heq
    rw [(h.unique hchain).1] at hext
    exact hext hext'

/-- There is one UDP header at most. -/
theorem UdpAt.unique {l l' : Layout} {off off' : Nat} (h : UdpAt pkt l off) (h' : UdpAt pkt l' off') :
    l = l' ∧ off = off' := by
  have hudp : ¬IsExt 17 := by
    rintro (h | h | h) <;> cases h
  cases h with
  | v4 h =>
    cases h' with
    | v4 => exact ⟨rfl, rfl⟩
    | v6 h' =>
      have hversion := h.1.symm.trans h'.header.1
      cases hversion
  | v6 h =>
    cases h' with
    | v4 h' =>
      have hversion := h'.1.symm.trans h.header.1
      cases hversion
    | v6 h' =>
      obtain rfl := Nat.le_antisymm (h'.le hudp h) (h.le hudp h')
      exact ⟨rfl, (h.unique h').2⟩

/-- The bytes after a UDP header at `off`. -/
def payloadLen (pkt : Bytes) (off : Nat) : Nat := pkt.length - (off + 8)

/-- The bytes of the extension headers before an L4 header at `off`. -/
def extBytes (l : Layout) (off : Nat) : Nat := if l.ipVersion = 6 then off - 40 else 0

/-- Extension headers are counted as payload. -/
theorem innerUdpPayloadLen_eq {l : Layout} {off : Nat} (h : UdpAt pkt l off) (hfits : off + 8 ≤ pkt.length) :
    innerUdpPayloadLen pkt = payloadLen pkt off + extBytes l off := by
  rw [innerUdpPayloadLen, if_neg (by omega), shiftRight_eq_version]
  cases h with
  | v4 h =>
    obtain ⟨hversion, hlen, -⟩ := h
    rw [hversion, if_pos rfl, if_neg (Nat.not_lt_of_le hlen), and_eq_ihl, Nat.mul_comm]
    rfl
  | v6 h =>
    obtain ⟨hversion, hoff, -⟩ := h.header
    have hext : extBytes .v6 off = off - 40 := if_pos rfl
    rw [hversion, if_neg (by decide), if_pos rfl, payloadLen, hext]
    omega

/-- The ACK classifier takes a packet for a large one as its payload has it, unless extension
    headers make up the difference. -/
theorem innerUdpPayloadLen_agrees_iff {key : FlowKey} {l : Layout} {off : Nat} (h : parse5tuple pkt = some key)
    (hat : UdpAt pkt l off) :
    (∀ threshold, (threshold ≤ innerUdpPayloadLen pkt ↔ threshold ≤ payloadLen pkt off) ↔
      threshold ≤ payloadLen pkt off ∨ payloadLen pkt off + extBytes l off < threshold) ∧
    ((∀ threshold, threshold ≤ innerUdpPayloadLen pkt ↔ threshold ≤ payloadLen pkt off) ↔ extBytes l off = 0) := by
  obtain ⟨l', off', hat', hfits, -⟩ := parse5tuple_iff.1 h
  obtain ⟨rfl, rfl⟩ := hat'.unique hat
  rw [innerUdpPayloadLen_eq hat hfits]
  refine ⟨fun threshold => by omega, fun hall => ?_, fun hnone threshold => by rw [hnone, Nat.add_zero]⟩
  have hlast := (hall _).1 le_rfl
  omega

/-- An IPv6 packet with 256 bytes of destination options, and a UDP header without payload. -/
def paddedPacket : Bytes :=
  [0x60, 0, 0, 0, 1, 8, 60, 64] ++ List.replicate 31 0 ++ [1] ++ [17, 31] ++ List.replicate 254 0 ++
    [0, 1, 0, 53, 0, 8, 0, 0]

theorem paddedPacket_udpAt : UdpAt paddedPacket .v6 296 := by
  have hbase : Chain paddedPacket 0 60 40 := .base (by decide +kernel) (by decide +kernel)
  exact .v6 (hbase.ext (.inr (.inr rfl)) (by decide +kernel)) (by decide)

theorem innerUdpPayloadLen_agrees_iff_padded :
    (∀ threshold, threshold ≤ innerUdpPayloadLen paddedPacket ↔ threshold ≤ payloadLen paddedPacket 296) ↔
      extBytes .v6 296 = 0 := by
  have hkey : (parse5tuple paddedPacket).isSome = true := by decide +kernel
  obtain ⟨key, hkey⟩ := Option.isSome_iff_exists.1 hkey
  exact (innerUdpPayloadLen_agrees_iff hkey paddedPacket_udpAt).2

/-- Options make a packet without payload a large one. -/
theorem not_innerUdpPayloadLen_agrees :
    ¬∀ pkt key l off threshold, parse5tuple pkt = some key → UdpAt pkt l off →
      (threshold ≤ innerUdpPayloadLen pkt ↔ threshold ≤ payloadLen pkt off) := by
  intro hall
  have hkey : (parse5tuple paddedPacket).isSome = true := by decide +kernel
  obtain ⟨key, hkey⟩ := Option.isSome_iff_exists.1 hkey
  have hlarge := hall _ key _ _ Config.default.smallPacketThresholdBytes hkey paddedPacket_udpAt
  exact absurd (hlarge.1 (by decide +kernel)) (by decide +kernel)

end Classified

end Mqvpn.Reorder
