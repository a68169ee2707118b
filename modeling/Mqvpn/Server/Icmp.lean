import Mqvpn.Lib.Buffer
import Mqvpn.Lib.OnesComplement
import Mqvpn.Reorder.Wire

/-!
# ICMP errors

`mqvpn_icmp_send_v4` and `mqvpn_icmp_send_v6` build the packet of an ICMP error in a buffer on
the stack, from the packet that caused it. Reads and writes are those of `Buffer`, which stop
the function where they leave a buffer; sums are 32-bit words.

No access leaves a buffer, and what is built is a valid packet, with the checksums right,
whatever the original packet is (`icmpSendV4_valid`, `icmpSendV6_valid`).
-/

namespace Mqvpn.Icmp

open Reorder Buffer OnesComplement

/-! ## Checksums -/

/-- `IPV4_MIN_HDR` -/
def ipv4MinHdr : Nat := 20

/-- `IPV6_MIN_HDR` -/
def ipv6MinHdr : Nat := 40

/-- `IPV6_MIN_MTU` -/
def ipv6MinMtu : Nat := 1280

/-- `MQVPN_ICMP_TTL` -/
def icmpTtl : UInt8 := 64

/-- The loop of `ipv4_checksum` over what is left of the header, and of its length. -/
def sumPairs : Bytes → Nat → Nat → Option Nat
  | _, 0, cksum => some cksum
  | a :: b :: hdr, len + 1, cksum => sumPairs hdr (len - 1) ((cksum + (a.toNat <<< 8 ||| b.toNat)) % 2 ^ 32)
  | _, _ + 1, _ => none

/-- The loop over an ICMP message; the last word may lack its low byte. -/
def sumMessage : Bytes → Nat → Nat → Option Nat
  | _, 0, cksum => some cksum
  | a :: _, 1, cksum => some ((cksum + a.toNat <<< 8) % 2 ^ 32)
  | a :: b :: icmp, len + 2, cksum =>
    sumMessage icmp len (((cksum + a.toNat <<< 8) % 2 ^ 32 + b.toNat) % 2 ^ 32)
  | _, _, _ => none

/-- `~(uint16_t)cksum`, after the carries were added back in. -/
def complement (cksum : Nat) : Nat := 0xffff - fold cksum % 2 ^ 16

/-- `ipv4_checksum` -/
def ipv4Checksum (hdr : Bytes) (len : Nat) : Option Nat := do
  let cksum ← sumPairs hdr len 0
  return complement cksum

/-- `icmpv6_checksum` -/
def icmpv6Checksum (src6 dst6 icmp : Bytes) (icmpv6Len : Nat) : Option Nat := do
  let cksum ← sumPairs src6 16 0
  let cksum ← sumPairs dst6 16 cksum
  let cksum := (cksum + icmpv6Len >>> 16) % 2 ^ 32
  let cksum := (cksum + (icmpv6Len &&& 0xffff)) % 2 ^ 32
  let cksum := (cksum + 58) % 2 ^ 32
  let cksum ← sumMessage icmp icmpv6Len cksum
  return complement cksum

/-- A 16-bit number is written. -/
def write16 (pkt : Bytes) (i v : Nat) : Option Bytes := do
  let pkt ← write pkt i (UInt8.ofNat (v >>> 8))
  write pkt (i + 1) (UInt8.ofNat (v &&& 0xff))

/-! ## Packets -/

/-- The IPv4 header in `mqvpn_icmp_send_v4` -/
def ipv4Header (pkt : Bytes) (total : Nat) (srcIp orig : Bytes) : Option Bytes := do
  let pkt ← write pkt 0 0x45
  let pkt ← write pkt 1 0xc0
  let pkt ← write16 pkt 2 total
  let pkt ← write pkt 8 icmpTtl
  let pkt ← write pkt 9 1
  let pkt ← copy pkt 12 (← slice srcIp 0 4)
  let pkt ← copy pkt 16 (← slice orig 12 4)
  let ipCk ← ipv4Checksum pkt ipv4MinHdr
  write16 pkt 10 ipCk

/-- The ICMP header and data in `mqvpn_icmp_send_v4` -/
def icmpv4Message (pkt : Bytes) (type code : UInt8) (mtu : UInt16) (orig : Bytes) (icmpDataLen : Nat) : Option Bytes := do
  let icmp := ipv4MinHdr
  let pkt ← write pkt (icmp + 0) type
  let pkt ← write pkt (icmp + 1) code
  let pkt ← write16 pkt (icmp + 6) mtu.toNat
  let pkt ← copy pkt (icmp + 8) (← slice orig 0 icmpDataLen)
  let cksum ← sumMessage (pkt.drop icmp) (8 + icmpDataLen) 0
  write16 pkt (icmp + 2) (complement cksum)

/-- `mqvpn_icmp_send_v4`: the packet that is handed to the callback, if there is one. `stack`
    is what the buffer holds before. -/
def icmpSendV4 (stack : Vector UInt8 128) (srcIp : Vector UInt8 4) (type code : UInt8) (mtu : UInt16) (orig : Bytes) :
    Option (Option Bytes) :=
  if orig.length < ipv4MinHdr then some none
  else do
    let ihl := ((← orig[0]?).toNat &&& 0x0f) * 4
    if ihl < ipv4MinHdr ∨ orig.length < ihl then some none
    else
      let icmpDataLen := if orig.length < ihl + 8 then orig.length else ihl + 8
      let total := ipv4MinHdr + 8 + icmpDataLen
      if stack.toList.length < total then some none
      else do
        let pkt ← copy stack.toList 0 (List.replicate total 0)
        let pkt ← ipv4Header pkt total srcIp.toList orig
        let pkt ← icmpv4Message pkt type code mtu orig icmpDataLen
        let out ← slice pkt 0 total
        return some out

/-- The IPv6 header in `mqvpn_icmp_send_v6` -/
def ipv6Header (pkt : Bytes) (icmpv6Len : Nat) (srcIp6 orig : Bytes) : Option Bytes := do
  let pkt ← write pkt 0 0x60
  let pkt ← write16 pkt 4 icmpv6Len
  let pkt ← write pkt 6 58
  let pkt ← write pkt 7 icmpTtl
  let pkt ← copy pkt 8 (← slice srcIp6 0 16)
  copy pkt 24 (← slice orig 8 16)

/-- The ICMPv6 header and data in `mqvpn_icmp_send_v6` -/
def icmpv6Message (pkt : Bytes) (type code : UInt8) (mtu : UInt32) (orig : Bytes) (icmpv6DataLen : Nat) :
    Option Bytes := do
  let icmp := ipv6MinHdr
  let pkt ← write pkt (icmp + 0) type
  let pkt ← write pkt (icmp + 1) code
  let pkt ← write pkt (icmp + 4) (UInt8.ofNat (mtu.toNat >>> 24 &&& 0xff))
  let pkt ← write pkt (icmp + 5) (UInt8.ofNat (mtu.toNat >>> 16 &&& 0xff))
  let pkt ← write pkt (icmp + 6) (UInt8.ofNat (mtu.toNat >>> 8 &&& 0xff))
  let pkt ← write pkt (icmp + 7) (UInt8.ofNat (mtu.toNat &&& 0xff))
  let pkt ← copy pkt (icmp + 8) (← slice orig 0 icmpv6DataLen)
  let ic ← icmpv6Checksum (pkt.drop 8) (pkt.drop 24) (pkt.drop icmp) (8 + icmpv6DataLen)
  write16 pkt (icmp + 2) ic

/-- `mqvpn_icmp_send_v6` -/
def icmpSendV6 (stack : Vector UInt8 1280) (srcIp6 : Vector UInt8 16) (type code : UInt8) (mtu : UInt32) (orig : Bytes) :
    Option (Option Bytes) :=
  if orig.length < ipv6MinHdr then some none
  else do
    let icmpv6DataLen :=
      if ipv6MinMtu < ipv6MinHdr + 8 + orig.length then ipv6MinMtu - ipv6MinHdr - 8 else orig.length
    let icmpv6Len := 8 + icmpv6DataLen
    let total := ipv6MinHdr + icmpv6Len
    let pkt ← copy stack.toList 0 (List.replicate total 0)
    let pkt ← ipv6Header pkt icmpv6Len srcIp6.toList orig
    let pkt ← icmpv6Message pkt type code mtu orig icmpv6DataLen
    let out ← slice pkt 0 total
    return some out

/-! ## Sums -/

section Sums

variable {hdr icmp : Bytes} {len cksum : Nat}

/-- The sum of words at even offsets, as long as it fits in 32 bits. -/
theorem sumPairs_eq (hlen : len ≤ hdr.length) (heven : len % 2 = 0) (hfits : cksum + total (hdr.take len) < 2 ^ 32) :
    sumPairs hdr len cksum = some (cksum + total (hdr.take len)) := by
  induction hdr, len, cksum using sumPairs.induct with
  | case1 hdr cksum =>
    rw [sumPairs, List.take_zero]
    rfl
  | case2 a b hdr len cksum ih =>
    obtain ⟨len, rfl⟩ : ∃ n, len = n + 1 := ⟨len - 1, by omega⟩
    have hor : a.toNat <<< 8 ||| b.toNat = a.toNat * 256 + b.toNat := by
      rw [← Nat.shiftLeft_add_eq_or_of_lt b.toNat_lt, Nat.shiftLeft_eq]
    rw [List.take_succ_cons, List.take_succ_cons, total] at hfits ⊢
    have hword : cksum + (a.toNat * 256 + b.toNat) < 2 ^ 32 :=
      Nat.lt_of_le_of_lt (Nat.add_le_add_left (Nat.le_add_right _ _) _) hfits
    rw [List.length_cons, List.length_cons] at hlen
    rw [hor, Nat.add_sub_cancel, Nat.mod_eq_of_lt hword] at ih
    rw [sumPairs, hor, Nat.add_sub_cancel, Nat.mod_eq_of_lt hword, ih (by omega) (by omega) (by omega), Nat.add_assoc]
  | case3 hdr len cksum hshort =>
    rcases hdr with _ | ⟨a, _ | ⟨b, hdr⟩⟩
    · rw [List.length_nil] at hlen
      omega
    · rw [List.length_singleton] at hlen
      omega
    · exact absurd rfl (hshort a b hdr)

theorem sumMessage_eq (hlen : len ≤ icmp.length) (hfits : cksum + total (icmp.take len) < 2 ^ 32) :
    sumMessage icmp len cksum = some (cksum + total (icmp.take len)) := by
  induction icmp, len, cksum using sumMessage.induct with
  | case1 icmp cksum =>
    rw [sumMessage, List.take_zero]
    rfl
  | case2 a icmp cksum =>
    rw [List.take_succ_cons, List.take_zero, total] at hfits ⊢
    rw [sumMessage, Nat.shiftLeft_eq, Nat.mod_eq_of_lt hfits]
  | case3 a b icmp len cksum ih =>
    rw [List.take_succ_cons, List.take_succ_cons, total] at hfits ⊢
    have hword : cksum + a.toNat * 2 ^ 8 + b.toNat < 2 ^ 32 := by
      rw [Nat.add_assoc]
      exact Nat.lt_of_le_of_lt (Nat.add_le_add_left (Nat.le_add_right _ _) _) hfits
    have hhigh : cksum + a.toNat * 2 ^ 8 < 2 ^ 32 := Nat.lt_of_le_of_lt (Nat.le_add_right _ _) hword
    rw [List.length_cons, List.length_cons] at hlen
    rw [Nat.shiftLeft_eq, Nat.mod_eq_of_lt hhigh, Nat.mod_eq_of_lt hword] at ih
    rw [sumMessage, Nat.shiftLeft_eq, Nat.mod_eq_of_lt hhigh, Nat.mod_eq_of_lt hword, ih (by omega) (by omega)]
    congr 1
    omega
  | case4 icmp len cksum hzero hone hmore =>
    rcases len with _ | _ | len
    · exact absurd rfl hzero
    · rcases icmp with _ | ⟨a, icmp⟩
      · cases hlen
      · exact absurd rfl (hone a icmp rfl)
    · rcases icmp with _ | ⟨a, _ | ⟨b, icmp⟩⟩
      · cases hlen
      · rw [List.length_singleton] at hlen
        omega
      · exact absurd rfl (hmore a b icmp len rfl)

theorem complement_eq (n : Nat) : complement n = 0xffff - fold n := by
  rw [complement, Nat.mod_eq_of_lt (fold_lt n)]

/-- The two bytes of a number. -/
def be16 (v : Nat) : Bytes := [UInt8.ofNat (v >>> 8), UInt8.ofNat (v &&& 0xff)]

theorem total_be16 {v : Nat} (h : v < 2 ^ 16) (bytes : Bytes) : total (be16 v ++ bytes) = v + total bytes := by
  rw [be16, List.cons_append, List.cons_append, List.nil_append, total, UInt8.toNat_ofNat', UInt8.toNat_ofNat',
    show (0xff : Nat) = 2 ^ 8 - 1 from rfl, Nat.and_two_pow_sub_one_eq_mod, Nat.shiftRight_eq_div_pow]
  omega

/-- A message whose checksum field lies between two parts verifies once the field holds what
    the sum of the message with 0 in it lacks. -/
theorem verifies_checksum (front back : Bytes) (h : front.length % 2 = 0) :
    Verifies (front ++ be16 (complement (total (front ++ be16 0 ++ back))) ++ back) := by
  have hlt : complement (total (front ++ be16 0 ++ back)) < 2 ^ 16 := by
    rw [complement]
    omega
  rw [Verifies, List.append_assoc, total_append h, total_be16 hlt, complement_eq, List.append_assoc, total_append h,
    total_be16 (by decide), Nat.zero_add, Nat.add_left_comm]
  rw [Nat.add_comm (_ - _)]
  exact fold_add_checksum _

end Sums

/-! ## IPv4 -/

section V4

variable {srcIp dst orig : Bytes} {n : Nat}

theorem exists_four {l : Bytes} (h : l.length = 4) : ∃ a b c d, l = [a, b, c, d] :=
  List.length_eq_four.1 h

/-- The header of an IPv4 packet with an ICMP message, with its checksum. -/
def v4Header (n ck : Nat) (src dst : Bytes) : Bytes :=
  [0x45, 0xc0] ++ be16 n ++ [0, 0, 0, 0, icmpTtl, 1] ++ be16 ck ++ (src ++ dst)

theorem ipv4Header_eq (hsrc : srcIp.length = 4) (hdst : dst.length = 4) (horig : slice orig 12 4 = some dst) (rest : Bytes) :
    ipv4Header (List.replicate 20 0 ++ rest) n srcIp orig =
      some (v4Header n (complement (total (v4Header n 0 srcIp dst))) srcIp dst ++ rest) := by
  obtain ⟨s₀, s₁, s₂, s₃, rfl⟩ := exists_four hsrc
  obtain ⟨d₀, d₁, d₂, d₃, rfl⟩ := exists_four hdst
  have hsum : sumPairs (v4Header n 0 [s₀, s₁, s₂, s₃] [d₀, d₁, d₂, d₃] ++ rest) 20 0 =
      some (total (v4Header n 0 [s₀, s₁, s₂, s₃] [d₀, d₁, d₂, d₃])) := by
    have htake : (v4Header n 0 [s₀, s₁, s₂, s₃] [d₀, d₁, d₂, d₃] ++ rest).take 20 =
        v4Header n 0 [s₀, s₁, s₂, s₃] [d₀, d₁, d₂, d₃] := rfl
    have hle := total_le (v4Header n 0 [s₀, s₁, s₂, s₃] [d₀, d₁, d₂, d₃])
    have hbound : total (v4Header n 0 [s₀, s₁, s₂, s₃] [d₀, d₁, d₂, d₃]) < 2 ^ 32 :=
      Nat.lt_of_le_of_lt hle (by decide : 0xffff * ((20 + 1) / 2) < 2 ^ 32)
    rw [sumPairs_eq (by rw [List.length_append]; exact Nat.le_add_right _ _) rfl (by rw [htake, Nat.zero_add]; exact hbound),
      htake, Nat.zero_add]
  rw [ipv4Header, horig]
  change ((ipv4Checksum (v4Header n 0 [s₀, s₁, s₂, s₃] [d₀, d₁, d₂, d₃] ++ rest) 20).bind fun ipCk =>
    write16 (v4Header n 0 [s₀, s₁, s₂, s₃] [d₀, d₁, d₂, d₃] ++ rest) 10 ipCk) = _
  rw [ipv4Checksum, hsum]
  rfl

/-- An ICMP message with its checksum. -/
def v4Message (type code : UInt8) (mtu : UInt16) (ck : Nat) (data : Bytes) : Bytes :=
  [type, code] ++ be16 ck ++ ([0, 0] ++ be16 mtu.toNat ++ data)

theorem total_lt {bytes : Bytes} (h : bytes.length ≤ 131072) : total bytes < 2 ^ 32 := by
  have := total_le bytes
  omega

theorem icmpv4Message_eq {data : Bytes} (hsrc : srcIp.length = 4) (hdst : dst.length = 4)
    (horig : slice orig 0 data.length = some data) (hdata : data.length ≤ 100) (ck : Nat) (type code : UInt8)
    (mtu : UInt16) (rest : Bytes) :
    icmpv4Message (v4Header n ck srcIp dst ++ (List.replicate 8 0 ++ (List.replicate data.length 0 ++ rest))) type code mtu
        orig data.length =
      some (v4Header n ck srcIp dst ++
        (v4Message type code mtu (complement (total (v4Message type code mtu 0 data))) data ++ rest)) := by
  obtain ⟨s₀, s₁, s₂, s₃, rfl⟩ := exists_four hsrc
  obtain ⟨d₀, d₁, d₂, d₃, rfl⟩ := exists_four hdst
  generalize hH : v4Header n ck [s₀, s₁, s₂, s₃] [d₀, d₁, d₂, d₃] = header
  have hcopy : copy (header ++ (v4Message type code mtu 0 [] ++ (List.replicate data.length 0 ++ rest))) 28 data =
      some (header ++ (v4Message type code mtu 0 data ++ rest)) := by
    have := copy_append (List.length_replicate (n := data.length) (a := (0 : UInt8)))
      (header ++ v4Message type code mtu 0 []) rest
    rw [List.append_assoc, List.append_assoc] at this
    subst hH
    exact this
  have hsum : sumMessage (v4Message type code mtu 0 data ++ rest) (8 + data.length) 0 =
      some (total (v4Message type code mtu 0 data)) := by
    have hlen : (v4Message type code mtu 0 data).length = 8 + data.length := by
      simp [v4Message, be16]
      omega
    have htake : (v4Message type code mtu 0 data ++ rest).take (8 + data.length) = v4Message type code mtu 0 data := by
      rw [← hlen, List.take_left]
    rw [sumMessage_eq (by rw [List.length_append]; omega) (by rw [htake, Nat.zero_add]; exact total_lt (by omega)), htake,
      Nat.zero_add]
  have hdrop : (header ++ (v4Message type code mtu 0 data ++ rest)).drop 20 = v4Message type code mtu 0 data ++ rest := by
    subst hH
    rfl
  rw [icmpv4Message, horig]
  subst hH
  change ((copy (v4Header n ck [s₀, s₁, s₂, s₃] [d₀, d₁, d₂, d₃] ++
      (v4Message type code mtu 0 [] ++ (List.replicate data.length 0 ++ rest))) 28 data).bind fun pkt =>
    (sumMessage (pkt.drop 20) (8 + data.length) 0).bind fun cksum => write16 pkt 22 (complement cksum)) = _
  rw [hcopy, Option.bind_some, hdrop, hsum]
  rfl

/-- The length of the header of a packet, in words of 4 bytes in the packet. -/
def ihl (pkt : Bytes) : Nat := (byteAt pkt 0 &&& 0x0f) * 4

/-- A valid ICMP error for an original packet: the lengths and the checksums are right, and it
    goes to the source of the packet, with its header and 8 more bytes. -/
structure ValidV4 (srcIp orig pkt : Bytes) : Prop where
  size : pkt.length ≤ 128
  version : pkt.head? = some 0x45
  totalLen : (pkt.drop 2).take 2 = be16 pkt.length
  headerVerifies : Verifies (pkt.take 20)
  messageVerifies : Verifies (pkt.drop 20)
  source : (pkt.drop 12).take 4 = srcIp
  destination : (pkt.drop 16).take 4 = (orig.drop 12).take 4
  payload : pkt.drop 28 = orig.take (ihl orig + 8)

theorem validV4 {data : Bytes} (hsrc : srcIp.length = 4) (hdst : dst.length = 4) (horig : dst = (orig.drop 12).take 4)
    (hdata : data = orig.take (ihl orig + 8)) (hle : data.length ≤ 100) (type code : UInt8) (mtu : UInt16) :
    ValidV4 srcIp orig
      (v4Header (28 + data.length) (complement (total (v4Header (28 + data.length) 0 srcIp dst))) srcIp dst ++
        v4Message type code mtu (complement (total (v4Message type code mtu 0 data))) data) := by
  obtain ⟨s₀, s₁, s₂, s₃, rfl⟩ := exists_four hsrc
  obtain ⟨d₀, d₁, d₂, d₃, rfl⟩ := exists_four hdst
  have hmessage := verifies_checksum [type, code] ([0, 0] ++ be16 mtu.toNat ++ data)
    (rfl : 2 % 2 = 0)
  have hheader := verifies_checksum ([0x45, 0xc0] ++ be16 (28 + data.length) ++ [0, 0, 0, 0, icmpTtl, 1])
    ([s₀, s₁, s₂, s₃] ++ [d₀, d₁, d₂, d₃]) (by simp [be16])
  have hlen (ck ck' : Nat) : (v4Header (28 + data.length) ck [s₀, s₁, s₂, s₃] [d₀, d₁, d₂, d₃] ++
      v4Message type code mtu ck' data).length = 28 + data.length := by
    simp [v4Header, v4Message, be16]
    omega
  exact {
    size := by rw [hlen]; omega
    version := rfl
    totalLen := by rw [hlen]; rfl
    headerVerifies := hheader
    messageVerifies := hmessage
    source := rfl
    destination := horig
    payload := hdata }

/-- A function that stays in its buffers, and whose packet, if there is one, is valid. -/
def Sends (sent : Option (Option Bytes)) (Valid : Bytes → Prop) : Prop := ∃ out, sent = some out ∧ ∀ pkt ∈ out, Valid pkt

/-- The zeroed buffer, as its parts. -/
theorem zeros_add (m n : Nat) (rest : Bytes) :
    List.replicate (m + n) (0 : UInt8) ++ rest = List.replicate m 0 ++ (List.replicate n 0 ++ rest) := by
  rw [List.replicate_add, List.append_assoc]

theorem build_v4 {data stack : Bytes} (hsrc : srcIp.length = 4) (hdst : slice orig 12 4 = some dst) (hdst4 : dst.length = 4)
    (horig : slice orig 0 data.length = some data) (hdata : data.length ≤ 100) (hstack : 28 + data.length ≤ stack.length)
    (type code : UInt8) (mtu : UInt16) :
    (do let pkt ← copy stack 0 (List.replicate (28 + data.length) 0)
        let pkt ← ipv4Header pkt (28 + data.length) srcIp orig
        let pkt ← icmpv4Message pkt type code mtu orig data.length
        let out ← slice pkt 0 (28 + data.length)
        return some out) =
      some (some (v4Header (28 + data.length) (complement (total (v4Header (28 + data.length) 0 srcIp dst))) srcIp dst ++
        v4Message type code mtu (complement (total (v4Message type code mtu 0 data))) data)) := by
  obtain ⟨front, rest, rfl, hfront⟩ : ∃ front rest, stack = front ++ rest ∧ front.length = 28 + data.length :=
    ⟨stack.take (28 + data.length), stack.drop (28 + data.length), (List.take_append_drop _ _).symm,
      List.length_take_of_le hstack⟩
  have hzero : copy (front ++ rest) 0 (List.replicate (28 + data.length) 0) =
      some (List.replicate 20 0 ++ (List.replicate 8 0 ++ (List.replicate data.length 0 ++ rest))) := by
    rw [copy, overwrite_append (hfront.trans List.length_replicate.symm) rest, ← zeros_add, ← zeros_add]
  have hlen (ck ck' : Nat) : (v4Header (28 + data.length) ck srcIp dst ++ v4Message type code mtu ck' data).length =
      28 + data.length := by
    simp [v4Header, v4Message, be16, hsrc, hdst4]
    omega
  rw [hzero, Option.bind_eq_bind, Option.bind_some, ipv4Header_eq hsrc hdst4 hdst, Option.bind_some,
    icmpv4Message_eq hsrc hdst4 horig hdata, Option.bind_some, ← List.append_assoc,
    slice_front (hlen _ _)]
  rfl

/-- The data of an ICMP error: the header of the original packet and 8 more bytes. -/
def v4Data (orig : Bytes) : Bytes := orig.take (ihl orig + 8)

/-- A packet whose header length is right is answered. -/
theorem icmpSendV4_eq (stack : Vector UInt8 128) (srcIp : Vector UInt8 4) (type code : UInt8) (mtu : UInt16)
    (hihl : 20 ≤ ihl orig) (hlen : ihl orig ≤ orig.length) :
    icmpSendV4 stack srcIp type code mtu orig =
      some (some (v4Header (28 + (v4Data orig).length)
          (complement (total (v4Header (28 + (v4Data orig).length) 0 srcIp.toList ((orig.drop 12).take 4))))
          srcIp.toList ((orig.drop 12).take 4) ++
        v4Message type code mtu (complement (total (v4Message type code mtu 0 (v4Data orig)))) (v4Data orig))) := by
  have hpos : 0 < orig.length := by omega
  have hread : (orig[0].toNat &&& 0x0f) * 4 = ihl orig := by rw [ihl, byteAt, List.getD_eq_getElem _ _ hpos]
  have hfour : (orig[0].toNat &&& 0x0f) ≤ 15 := Nat.and_le_right
  have hmin : (if orig.length < ihl orig + 8 then orig.length else ihl orig + 8) = (v4Data orig).length := by
    rw [v4Data, List.length_take]
    split_ifs <;> omega
  have hle : (v4Data orig).length ≤ 100 := by
    rw [v4Data, List.length_take]
    omega
  have hdst : slice orig 12 4 = some ((orig.drop 12).take 4) := slice_of_le (by omega)
  have hdst4 : ((orig.drop 12).take 4).length = 4 := by
    rw [List.length_take, List.length_drop]
    omega
  have horig : slice orig 0 (v4Data orig).length = some (v4Data orig) := by
    rw [v4Data, slice_of_le (by rw [List.length_take]; omega), List.drop_zero, List.length_take, ← List.take_eq_take_min]
  have hstack : 28 + (v4Data orig).length ≤ stack.toList.length := by
    rw [Vector.length_toList]
    omega
  rw [icmpSendV4, if_neg (by rw [ipv4MinHdr]; omega), List.getElem?_eq_getElem hpos, Option.bind_eq_bind,
    Option.bind_some]
  dsimp only
  rw [hread, if_neg (by rw [ipv4MinHdr]; omega), hmin, if_neg (by rw [ipv4MinHdr]; omega)]
  exact build_v4 Vector.length_toList hdst hdst4 horig hle hstack type code mtu

/-- A packet whose header length is wrong is not answered. -/
theorem icmpSendV4_of_bad (stack : Vector UInt8 128) (srcIp : Vector UInt8 4) (type code : UInt8) (mtu : UInt16)
    (hbad : ¬(20 ≤ ihl orig ∧ ihl orig ≤ orig.length)) : icmpSendV4 stack srcIp type code mtu orig = some none := by
  rw [icmpSendV4]
  by_cases hshort : orig.length < ipv4MinHdr
  · rw [if_pos hshort]
  have hpos : 0 < orig.length := by rw [ipv4MinHdr] at hshort; omega
  have hread : (orig[0].toNat &&& 0x0f) * 4 = ihl orig := by rw [ihl, byteAt, List.getD_eq_getElem _ _ hpos]
  rw [if_neg hshort, List.getElem?_eq_getElem hpos, Option.bind_eq_bind, Option.bind_some]
  dsimp only
  rw [hread, if_pos (by rw [ipv4MinHdr]; omega)]

theorem icmpSendV4_valid (stack : Vector UInt8 128) (srcIp : Vector UInt8 4) (type code : UInt8) (mtu : UInt16)
    (orig : Bytes) : Sends (icmpSendV4 stack srcIp type code mtu orig) (ValidV4 srcIp.toList orig) := by
  by_cases hihl : 20 ≤ ihl orig ∧ ihl orig ≤ orig.length
  · have hdst4 : ((orig.drop 12).take 4).length = 4 := by
      rw [List.length_take, List.length_drop]
      omega
    have hle : (v4Data orig).length ≤ 100 := by
      have hfour : byteAt orig 0 &&& 0x0f ≤ 15 := Nat.and_le_right
      rw [v4Data, List.length_take, ihl]
      omega
    refine ⟨_, icmpSendV4_eq stack srcIp type code mtu hihl.1 hihl.2, fun pkt hpkt => ?_⟩
    cases hpkt
    exact validV4 Vector.length_toList hdst4 rfl rfl hle type code mtu
  · exact ⟨none, icmpSendV4_of_bad stack srcIp type code mtu hihl, fun _ h => by cases h⟩

end V4

/-! ## IPv6 -/

section V6

variable {srcIp6 dst orig : Bytes}

/-- The header of an IPv6 packet with an ICMPv6 message of a length. -/
def v6Header (n : Nat) (src dst : Bytes) : Bytes := [0x60, 0, 0, 0] ++ be16 n ++ [58, icmpTtl] ++ (src ++ dst)

/-- The bytes of the field for the MTU. -/
def mtuField (mtu : UInt32) : Bytes :=
  [UInt8.ofNat (mtu.toNat >>> 24 &&& 0xff), UInt8.ofNat (mtu.toNat >>> 16 &&& 0xff),
    UInt8.ofNat (mtu.toNat >>> 8 &&& 0xff), UInt8.ofNat (mtu.toNat &&& 0xff)]

/-- An ICMPv6 message with its checksum. -/
def v6Message (type code : UInt8) (mtu : UInt32) (ck : Nat) (data : Bytes) : Bytes :=
  [type, code] ++ be16 ck ++ (mtuField mtu ++ data)

/-- The pseudo-header that the checksum of an ICMPv6 message covers. -/
def pseudoHeader (src dst : Bytes) (n : Nat) : Bytes :=
  src ++ (dst ++ (be16 (n >>> 16) ++ (be16 (n &&& 0xffff) ++ [0, 0, 0, 58])))

theorem length_v6Header (n : Nat) (hsrc : srcIp6.length = 16) (hdst : dst.length = 16) :
    (v6Header n srcIp6 dst).length = 40 := by
  simp [v6Header, be16, hsrc, hdst]

theorem ipv6Header_eq (hsrc : srcIp6.length = 16) (hdst : dst.length = 16) (horig : slice orig 8 16 = some dst) (n : Nat)
    (rest : Bytes) : ipv6Header (List.replicate 40 0 ++ rest) n srcIp6 orig = some (v6Header n srcIp6 dst ++ rest) := by
  have hself : slice srcIp6 0 16 = some srcIp6 := by
    have := slice_front hsrc []
    rwa [List.append_nil] at this
  have hzeros : List.length (List.replicate 16 (0 : UInt8)) = 16 := rfl
  have hfront : ([0x60, 0, 0, 0] ++ be16 n ++ [58, icmpTtl]).length = 8 := rfl
  have hcopySrc := copy_append (hzeros.trans hsrc.symm) ([0x60, 0, 0, 0] ++ be16 n ++ [58, icmpTtl])
    (List.replicate 16 0 ++ rest)
  have hcopyDst := copy_append (hzeros.trans hdst.symm) ([0x60, 0, 0, 0] ++ be16 n ++ [58, icmpTtl] ++ srcIp6) rest
  rw [List.length_append, hfront, hsrc, List.append_assoc _ srcIp6, List.append_assoc _ srcIp6] at hcopyDst
  rw [ipv6Header, hself, horig, zeros_add 8 32, zeros_add 16 16]
  change ((copy ([0x60, 0, 0, 0] ++ be16 n ++ [58, icmpTtl] ++ (List.replicate 16 0 ++ (List.replicate 16 0 ++ rest))) 8
    srcIp6).bind fun pkt => copy pkt 24 dst) = _
  rw [hfront] at hcopySrc
  rw [hcopySrc, Option.bind_some, hcopyDst, v6Header, List.append_assoc _ (srcIp6 ++ dst), List.append_assoc srcIp6]

theorem total_pseudoHeader (hsrc : srcIp6.length = 16) (hdst : dst.length = 16) {n : Nat} (hn : n < 2 ^ 32)
    (message : Bytes) :
    total (pseudoHeader srcIp6 dst n ++ message) =
      total srcIp6 + total dst + n >>> 16 + (n &&& 0xffff) + 58 + total message := by
  have hhigh : n >>> 16 < 2 ^ 16 := by
    rw [Nat.shiftRight_eq_div_pow]
    omega
  have hlow : n &&& 0xffff < 2 ^ 16 := Nat.and_lt_two_pow _ (by decide)
  rw [pseudoHeader, List.append_assoc, total_append (by rw [hsrc]), List.append_assoc, total_append (by rw [hdst]),
    List.append_assoc, total_be16 hhigh, List.append_assoc, total_be16 hlow, total_append rfl]
  have hlast : total [0, 0, 0, 58] = 58 := rfl
  omega

theorem icmpv6Checksum_eq (hsrc : srcIp6.length = 16) (hdst : dst.length = 16) {message : Bytes}
    (hlen : message.length ≤ 2000) (a b c : Bytes) :
    icmpv6Checksum (srcIp6 ++ a) (dst ++ b) (message ++ c) message.length =
      some (complement (total (pseudoHeader srcIp6 dst message.length ++ message))) := by
  have hsrcLe := total_le srcIp6
  have hdstLe := total_le dst
  have hmessageLe := total_le message
  have hlenAnd : message.length &&& 0xffff = message.length :=
    (Nat.and_two_pow_sub_one_eq_mod _ 16).trans (Nat.mod_eq_of_lt (by omega))
  have hlenShift : message.length >>> 16 = 0 := by
    rw [Nat.shiftRight_eq_div_pow]
    omega
  have htake {l : Bytes} (h : l.length = 16) (rest : Bytes) : (l ++ rest).take 16 = l := by rw [← h, List.take_left]
  have hsrcSum : sumPairs (srcIp6 ++ a) 16 0 = some (total srcIp6) := by
    rw [sumPairs_eq (by rw [List.length_append]; omega) rfl (by rw [htake hsrc]; omega), htake hsrc, Nat.zero_add]
  have hdstSum : sumPairs (dst ++ b) 16 (total srcIp6) = some (total srcIp6 + total dst) := by
    rw [sumPairs_eq (by rw [List.length_append]; omega) rfl (by rw [htake hdst]; omega), htake hdst]
  have hmessageSum : sumMessage (message ++ c) message.length (total srcIp6 + total dst + message.length + 58) =
      some (total srcIp6 + total dst + message.length + 58 + total message) := by
    rw [sumMessage_eq (by rw [List.length_append]; omega) (by rw [List.take_left]; omega), List.take_left]
  have hmod {v : Nat} (h : v < 2 ^ 32) : v % 2 ^ 32 = v := Nat.mod_eq_of_lt h
  rw [icmpv6Checksum, hsrcSum, Option.bind_eq_bind, Option.bind_some, hdstSum, Option.bind_some]
  dsimp only
  rw [hlenShift, hlenAnd, Nat.add_zero (total srcIp6 + total dst), hmod (by omega), hmod (by omega), hmod (by omega),
    hmessageSum, Option.bind_some, total_pseudoHeader hsrc hdst (by omega), hlenShift, hlenAnd,
    Nat.add_zero (total srcIp6 + total dst)]
  rfl

theorem icmpv6Message_eq {data : Bytes} (hsrc : srcIp6.length = 16) (hdst : dst.length = 16)
    (horig : slice orig 0 data.length = some data) (hdata : data.length ≤ 1232) (n : Nat) (type code : UInt8)
    (mtu : UInt32) (rest : Bytes) :
    icmpv6Message (v6Header n srcIp6 dst ++ (List.replicate 8 0 ++ (List.replicate data.length 0 ++ rest))) type code mtu
        orig data.length =
      some (v6Header n srcIp6 dst ++ (v6Message type code mtu
        (complement (total (pseudoHeader srcIp6 dst (8 + data.length) ++ v6Message type code mtu 0 data))) data ++ rest)) := by
  have hlen (ck : Nat) : (v6Message type code mtu ck data).length = 8 + data.length := by
    simp [v6Message, be16, mtuField]
    omega
  have hmin : ipv6MinHdr = (v6Header n srcIp6 dst).length := (length_v6Header n hsrc hdst).symm
  have hcopy : copy (v6Header n srcIp6 dst ++ (v6Message type code mtu 0 [] ++ (List.replicate data.length 0 ++ rest)))
      ((v6Header n srcIp6 dst).length + 8) data =
      some (v6Header n srcIp6 dst ++ (v6Message type code mtu 0 data ++ rest)) := by
    have := copy_append (List.length_replicate (n := data.length) (a := (0 : UInt8)))
      (v6Header n srcIp6 dst ++ v6Message type code mtu 0 []) rest
    rwa [List.append_assoc, List.append_assoc, List.length_append] at this
  have hck : icmpv6Checksum ((v6Header n srcIp6 dst ++ (v6Message type code mtu 0 data ++ rest)).drop 8)
      ((v6Header n srcIp6 dst ++ (v6Message type code mtu 0 data ++ rest)).drop 24)
      ((v6Header n srcIp6 dst ++ (v6Message type code mtu 0 data ++ rest)).drop ipv6MinHdr) (8 + data.length) =
      some (complement (total (pseudoHeader srcIp6 dst (8 + data.length) ++ v6Message type code mtu 0 data))) := by
    have hfront : v6Header n srcIp6 dst ++ (v6Message type code mtu 0 data ++ rest) =
        [0x60, 0, 0, 0] ++ be16 n ++ [58, icmpTtl] ++ (srcIp6 ++ (dst ++ (v6Message type code mtu 0 data ++ rest))) := by
      rw [v6Header, List.append_assoc, List.append_assoc srcIp6]
    have h8 : (v6Header n srcIp6 dst ++ (v6Message type code mtu 0 data ++ rest)).drop 8 =
        srcIp6 ++ (dst ++ (v6Message type code mtu 0 data ++ rest)) := by
      rw [hfront]
      rfl
    have h24 : (v6Header n srcIp6 dst ++ (v6Message type code mtu 0 data ++ rest)).drop 24 =
        dst ++ (v6Message type code mtu 0 data ++ rest) := by
      rw [show 24 = 8 + 16 from rfl, ← List.drop_drop, h8, ← hsrc, List.drop_left]
    rw [h8, h24, hmin, List.drop_left, ← hlen 0]
    exact icmpv6Checksum_eq hsrc hdst (by rw [hlen]; omega) _ _ _
  -- what is written behind the header leaves it alone
  have hwrite (b' : Bytes) {b : Bytes} {i : Nat} {v : UInt8} (h : write b i v = some b') :
      write (v6Header n srcIp6 dst ++ b) (ipv6MinHdr + i) v = some (v6Header n srcIp6 dst ++ b') := by
    rw [hmin, write_append, h]
    rfl
  have hfield {b b' : Bytes} {i v : Nat} (h : write16 b i v = some b') :
      write16 (v6Header n srcIp6 dst ++ b) (ipv6MinHdr + i) v = some (v6Header n srcIp6 dst ++ b') := by
    obtain ⟨b₁, h₁, h₂⟩ := Option.bind_eq_some_iff.1 h
    rw [write16, hwrite _ h₁]
    exact hwrite _ h₂
  obtain ⟨m₀, m₁, m₂, m₃, hfour⟩ : ∃ m₀ m₁ m₂ m₃, mtuField mtu = [m₀, m₁, m₂, m₃] := ⟨_, _, _, _, rfl⟩
  have hbytes := hfour
  simp only [mtuField, List.cons.injEq, and_true] at hbytes
  obtain ⟨h₀, h₁, h₂, h₃⟩ := hbytes
  have hempty : v6Message type code mtu 0 [] = [type, code, 0, 0, m₀, m₁, m₂, m₃] := by
    rw [v6Message, hfour]
    rfl
  have hsum (ck : Nat) : v6Message type code mtu ck data = [type, code] ++ be16 ck ++ ([m₀, m₁, m₂, m₃] ++ data) := by
    rw [v6Message, hfour]
  rw [hempty] at hcopy
  rw [icmpv6Message, horig, h₀, h₁, h₂, h₃]
  simp only [Option.bind_eq_bind]
  rw [hwrite ([type, 0, 0, 0, 0, 0, 0, 0] ++ (List.replicate data.length 0 ++ rest)) rfl, Option.bind_some,
    hwrite ([type, code, 0, 0, 0, 0, 0, 0] ++ (List.replicate data.length 0 ++ rest)) rfl, Option.bind_some,
    hwrite ([type, code, 0, 0, m₀, 0, 0, 0] ++ (List.replicate data.length 0 ++ rest)) rfl, Option.bind_some,
    hwrite ([type, code, 0, 0, m₀, m₁, 0, 0] ++ (List.replicate data.length 0 ++ rest)) rfl, Option.bind_some,
    hwrite ([type, code, 0, 0, m₀, m₁, m₂, 0] ++ (List.replicate data.length 0 ++ rest)) rfl, Option.bind_some,
    hwrite ([type, code, 0, 0, m₀, m₁, m₂, m₃] ++ (List.replicate data.length 0 ++ rest)) rfl, Option.bind_some,
    Option.bind_some]
  rw [hmin, hcopy, Option.bind_some, ← hmin, hck, Option.bind_some, hsum, hsum]
  exact hfield rfl

/-- A valid ICMPv6 error for an original packet. -/
structure ValidV6 (srcIp6 orig pkt : Bytes) : Prop where
  size : pkt.length ≤ 1280
  version : pkt.head? = some 0x60
  payloadLen : (pkt.drop 4).take 2 = be16 (pkt.length - 40)
  source : (pkt.drop 8).take 16 = srcIp6
  destination : (pkt.drop 24).take 16 = (orig.drop 8).take 16
  messageVerifies : Verifies (pseudoHeader srcIp6 ((orig.drop 8).take 16) (pkt.length - 40) ++ pkt.drop 40)
  payload : pkt.drop 48 = orig.take 1232

theorem validV6 {data : Bytes} (hsrc : srcIp6.length = 16) (hdst : dst.length = 16) (horig : dst = (orig.drop 8).take 16)
    (hdata : data = orig.take 1232) (type code : UInt8) (mtu : UInt32) :
    ValidV6 srcIp6 orig (v6Header (8 + data.length) srcIp6 dst ++ v6Message type code mtu
      (complement (total (pseudoHeader srcIp6 dst (8 + data.length) ++ v6Message type code mtu 0 data))) data) := by
  have hle : data.length ≤ 1232 := by
    rw [hdata, List.length_take]
    exact Nat.min_le_left _ _
  have hfront : (pseudoHeader srcIp6 dst (8 + data.length) ++ [type, code]).length % 2 = 0 := by
    simp [pseudoHeader, be16, hsrc, hdst]
  have hmessage := verifies_checksum _ (mtuField mtu ++ data) hfront
  have hheader := length_v6Header (8 + data.length) hsrc hdst
  have hlen (ck : Nat) : (v6Header (8 + data.length) srcIp6 dst ++ v6Message type code mtu ck data).length =
      48 + data.length := by
    rw [List.length_append, hheader]
    simp [v6Message, be16, mtuField]
    omega
  have hparts (ck : Nat) : v6Header (8 + data.length) srcIp6 dst ++ v6Message type code mtu ck data =
      [0x60, 0, 0, 0] ++ be16 (8 + data.length) ++ [58, icmpTtl] ++
        (srcIp6 ++ (dst ++ v6Message type code mtu ck data)) := by
    rw [v6Header, List.append_assoc, List.append_assoc srcIp6]
  have h8 (ck : Nat) : (v6Header (8 + data.length) srcIp6 dst ++ v6Message type code mtu ck data).drop 8 =
      srcIp6 ++ (dst ++ v6Message type code mtu ck data) := by
    rw [hparts]
    rfl
  have h24 (ck : Nat) : (v6Header (8 + data.length) srcIp6 dst ++ v6Message type code mtu ck data).drop 24 =
      dst ++ v6Message type code mtu ck data := by
    rw [show 24 = 8 + 16 from rfl, ← List.drop_drop, h8, ← hsrc, List.drop_left]
  have h40 (ck : Nat) : (v6Header (8 + data.length) srcIp6 dst ++ v6Message type code mtu ck data).drop 40 =
      v6Message type code mtu ck data := by
    rw [← hheader, List.drop_left]
  exact {
    size := by rw [hlen]; omega
    version := rfl
    payloadLen := by
      rw [hlen, show 48 + data.length - 40 = 8 + data.length by omega]
      rfl
    source := by rw [h8, ← hsrc, List.take_left]
    destination := by
      have htake (rest : Bytes) : (dst ++ rest).take 16 = dst := by rw [← hdst, List.take_left]
      rw [h24, htake, horig]
    messageVerifies := by
      rw [hlen, show 48 + data.length - 40 = 8 + data.length by omega, h40, ← horig]
      rw [List.append_assoc, List.append_assoc, List.append_assoc, List.append_assoc] at hmessage
      exact hmessage
    payload := by
      rw [show 48 = 40 + 8 from rfl, ← List.drop_drop, h40]
      exact hdata }

theorem build_v6 {data stack : Bytes} (hsrc : srcIp6.length = 16) (hdst : slice orig 8 16 = some dst)
    (hdst16 : dst.length = 16) (horig : slice orig 0 data.length = some data) (hdata : data.length ≤ 1232)
    (hstack : 40 + (8 + data.length) ≤ stack.length) (type code : UInt8) (mtu : UInt32) :
    (do let pkt ← copy stack 0 (List.replicate (40 + (8 + data.length)) 0)
        let pkt ← ipv6Header pkt (8 + data.length) srcIp6 orig
        let pkt ← icmpv6Message pkt type code mtu orig data.length
        let out ← slice pkt 0 (40 + (8 + data.length))
        return some out) =
      some (some (v6Header (8 + data.length) srcIp6 dst ++ v6Message type code mtu
        (complement (total (pseudoHeader srcIp6 dst (8 + data.length) ++ v6Message type code mtu 0 data))) data)) := by
  obtain ⟨front, rest, rfl, hfront⟩ : ∃ front rest, stack = front ++ rest ∧ front.length = 40 + (8 + data.length) :=
    ⟨stack.take (40 + (8 + data.length)), stack.drop (40 + (8 + data.length)), (List.take_append_drop _ _).symm,
      List.length_take_of_le hstack⟩
  have hzero : copy (front ++ rest) 0 (List.replicate (40 + (8 + data.length)) 0) =
      some (List.replicate 40 0 ++ (List.replicate 8 0 ++ (List.replicate data.length 0 ++ rest))) := by
    rw [copy, overwrite_append (hfront.trans List.length_replicate.symm) rest, zeros_add, zeros_add]
  have hlen (ck : Nat) : (v6Header (8 + data.length) srcIp6 dst ++ v6Message type code mtu ck data).length =
      40 + (8 + data.length) := by
    rw [List.length_append, length_v6Header _ hsrc hdst16]
    simp [v6Message, be16, mtuField]
    omega
  rw [hzero, Option.bind_eq_bind, Option.bind_some, ipv6Header_eq hsrc hdst16 hdst, Option.bind_some,
    icmpv6Message_eq hsrc hdst16 horig hdata, Option.bind_some, ← List.append_assoc, slice_front (hlen _)]
  rfl

/-- A packet that is as long as an IPv6 header is answered. -/
theorem icmpSendV6_eq (stack : Vector UInt8 1280) (srcIp6 : Vector UInt8 16) (type code : UInt8) (mtu : UInt32)
    (h : 40 ≤ orig.length) :
    icmpSendV6 stack srcIp6 type code mtu orig =
      some (some (v6Header (8 + (orig.take 1232).length) srcIp6.toList ((orig.drop 8).take 16) ++
        v6Message type code mtu (complement (total (pseudoHeader srcIp6.toList ((orig.drop 8).take 16)
          (8 + (orig.take 1232).length) ++ v6Message type code mtu 0 (orig.take 1232)))) (orig.take 1232))) := by
  have hmin : (if ipv6MinMtu < ipv6MinHdr + 8 + orig.length then ipv6MinMtu - ipv6MinHdr - 8 else orig.length) =
      (orig.take 1232).length := by
    rw [List.length_take, ipv6MinMtu, ipv6MinHdr]
    split_ifs <;> omega
  have hle : (orig.take 1232).length ≤ 1232 := by
    rw [List.length_take]
    exact Nat.min_le_left _ _
  have hdst : slice orig 8 16 = some ((orig.drop 8).take 16) := slice_of_le (by omega)
  have hdst16 : ((orig.drop 8).take 16).length = 16 := by
    rw [List.length_take, List.length_drop]
    omega
  have horig : slice orig 0 (orig.take 1232).length = some (orig.take 1232) := by
    rw [slice_of_le (by rw [List.length_take]; omega), List.drop_zero, List.length_take, ← List.take_eq_take_min]
  have hstack : 40 + (8 + (orig.take 1232).length) ≤ stack.toList.length := by
    rw [Vector.length_toList]
    omega
  rw [icmpSendV6, if_neg (by rw [ipv6MinHdr]; omega), hmin]
  exact build_v6 Vector.length_toList hdst hdst16 horig hle hstack type code mtu

theorem icmpSendV6_valid (stack : Vector UInt8 1280) (srcIp6 : Vector UInt8 16) (type code : UInt8) (mtu : UInt32)
    (orig : Bytes) : Sends (icmpSendV6 stack srcIp6 type code mtu orig) (ValidV6 srcIp6.toList orig) := by
  by_cases hlong : 40 ≤ orig.length
  · have hdst16 : ((orig.drop 8).take 16).length = 16 := by
      rw [List.length_take, List.length_drop]
      omega
    refine ⟨_, icmpSendV6_eq stack srcIp6 type code mtu hlong, fun pkt hpkt => ?_⟩
    cases hpkt
    exact validV6 Vector.length_toList hdst16 rfl rfl type code mtu
  · refine ⟨none, ?_, fun _ h => by cases h⟩
    rw [icmpSendV6, if_pos (by rw [ipv6MinHdr]; omega)]

end V6

/-- Whatever the packet and the message are, no access leaves a buffer, and a packet that is
    sent is a valid ICMP error. -/
theorem icmpErrors_valid (type code : UInt8) (orig : Bytes) :
    (∀ (stack : Vector UInt8 128) (srcIp : Vector UInt8 4) (mtu : UInt16),
      Sends (icmpSendV4 stack srcIp type code mtu orig) (ValidV4 srcIp.toList orig)) ∧
    ∀ (stack : Vector UInt8 1280) (srcIp6 : Vector UInt8 16) (mtu : UInt32),
      Sends (icmpSendV6 stack srcIp6 type code mtu orig) (ValidV6 srcIp6.toList orig) :=
  ⟨fun stack srcIp mtu => icmpSendV4_valid stack srcIp type code mtu orig,
    fun stack srcIp6 mtu => icmpSendV6_valid stack srcIp6 type code mtu orig⟩

end Mqvpn.Icmp
