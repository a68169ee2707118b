import Mathlib.Algebra.Order.BigOperators.Group.Finset
import Mqvpn.Lib.OnesComplement
import Mqvpn.Server.Datagrams

/-!
# Forwarding and the TTL

A packet that is forwarded has its TTL lowered, and for IPv4 the checksum of its header
adjusted: in `forward_inner_ip` of the client, in that of the server, and in
`mqvpn_server_on_tun_packet`. The adjustment is an addition with one end-around carry. The
header still verifies after it, and the three make the same of a packet
(`forwarded_exactly`).
-/

namespace Mqvpn

open Reorder Client OnesComplement

/-- What `forward_inner_ip` makes of a packet: it goes to the TUN, it is answered with an ICMP
    message of a type, or it is dropped. -/
inductive Forwarded where
  | tunOutput (pkt : Bytes)
  | icmp (type : Nat) (pkt : Bytes)
  | dropped
  deriving DecidableEq, Repr

/-- `forward_inner_ip` of the client, for the connection `k` -/
def Client.forwardInnerIp (c : Client) (k : Client.Conn) (pkt : Bytes) : Forwarded :=
  if pkt.length < 1 then .dropped
  else if packetBufSize < pkt.length then .dropped
  else if ipVersion pkt = 4 then
    if pkt.length < ipv4MinHdr then .dropped
    else if pkt.getD 8 0 ≤ 1 then
      if c.conn.any (·.addr.isSome) then .icmp 11 pkt else .dropped
    else
      let fwd := pkt.set 8 (pkt.getD 8 0 - 1)
      let sum := (byteAt fwd 10 <<< 8 ||| byteAt fwd 11) + 0x0100
      let sum := (sum &&& 0xffff) + (sum >>> 16)
      .tunOutput ((fwd.set 10 (UInt8.ofNat (sum >>> 8 &&& 0xff))).set 11 (UInt8.ofNat (sum &&& 0xff)))
  else if ipVersion pkt = 6 then
    if pkt.length < ipv6MinHdr ∨ k.addr6 = none then .dropped
    else if pkt.getD 7 0 ≤ 1 then
      if c.conn.any (·.addr6.isSome) then .icmp 3 pkt else .dropped
    else .tunOutput (pkt.set 7 (pkt.getD 7 0 - 1))
  else .dropped

/-- `forward_inner_ip` of the server, for the connection `k`; `rateAllow`: `ptb_rate_allow`. -/
def Server.forwardInnerIp (s : Server) (k : Server.Conn) (rateAllow : Bool) (pkt : Bytes) : Forwarded :=
  if pkt.length < 1 then .dropped
  else if packetBufSize < pkt.length then .dropped
  else if ipVersion pkt = 4 then
    if pkt.length < 20 then .dropped
    else if Server.ofBytes ((pkt.drop 12).take 4) ≠ k.assignedIp then .dropped
    else if pkt.getD 8 0 ≤ 1 then if rateAllow then .icmp 11 pkt else .dropped
    else
      let fwd := pkt.set 8 (pkt.getD 8 0 - 1)
      let sum := (byteAt fwd 10 <<< 8 ||| byteAt fwd 11) + 0x0100
      let sum := (sum &&& 0xffff) + (sum >>> 16)
      .tunOutput ((fwd.set 10 (UInt8.ofNat (sum >>> 8 &&& 0xff))).set 11 (UInt8.ofNat (sum &&& 0xff)))
  else if ipVersion pkt = 6 then
    if pkt.length < 40 then .dropped
    else if k.hasV6 = false ∨ Server.ofBytes ((pkt.drop 8).take 16) ≠ k.assignedIp6 then .dropped
    else if pkt.getD 7 0 ≤ 1 then if s.pool.hasV6 && rateAllow then .icmp 3 pkt else .dropped
    else .tunOutput (pkt.set 7 (pkt.getD 7 0 - 1))
  else .dropped

/-! ## The checksum of a header -/

/-- The length of the header in bytes: IHL words of 4 bytes. -/
def headerLen (pkt : Bytes) : Nat := (byteAt pkt 0 &&& 0xf) * 4

/-- The sum in `ipv4_checksum` -/
def headerSum (hdr : Bytes) (len : Nat) : Nat := ∑ k ∈ Finset.range ((len + 1) / 2), field16 hdr (2 * k)

/-- `ipv4_checksum` -/
def ipv4Checksum (hdr : Bytes) (len : Nat) : Nat := 0xffff - fold (headerSum hdr len)

/-- The header, which has a checksum field, has the right one in it. -/
structure HeaderVerifies (pkt : Bytes) : Prop where
  covers : 12 ≤ headerLen pkt
  checksum : ipv4Checksum pkt (headerLen pkt) = 0

/-- The checksum of a header, computed anew with the field at 0. -/
def recomputed (pkt : Bytes) : Nat := ipv4Checksum ((pkt.set 10 0).set 11 0) (headerLen pkt)

/-- The two words stand for the same number, of which 0 has two words. -/
def SameWord (a b : Nat) : Prop := a = b ∨ a = 0 ∧ b = 0xffff ∨ a = 0xffff ∧ b = 0

/-- The packet `out` is `pkt` with a TTL one less and the checksum of it. -/
structure Decremented (pkt out : Bytes) : Prop where
  length : out.length = pkt.length
  ttl : byteAt out 8 + 1 = byteAt pkt 8
  verifies : HeaderVerifies out
  recomputed : SameWord (field16 out 10) (recomputed out)
  rest : ∀ i, i ≠ 8 → i ≠ 10 → i ≠ 11 → out[i]? = pkt[i]?

theorem ipv4Checksum_eq_zero_iff (hdr : Bytes) (len : Nat) :
    ipv4Checksum hdr len = 0 ↔ headerSum hdr len % 0xffff = 0 ∧ headerSum hdr len ≠ 0 := by
  rw [← fold_eq_ffff_iff, ipv4Checksum]
  have hlt := fold_lt (headerSum hdr len)
  omega

theorem byteAt_lt (pkt : Bytes) (i : Nat) : byteAt pkt i < 256 := (pkt.getD i 0).toNat_lt

theorem byteAt_set_self {pkt : Bytes} {i : Nat} (h : i < pkt.length) (b : UInt8) :
    byteAt (pkt.set i b) i = b.toNat := by
  rw [byteAt, List.getD_eq_getElem?_getD, List.getElem?_set_self h]
  rfl

theorem byteAt_set_ne {pkt : Bytes} {i j : Nat} (h : i ≠ j) (b : UInt8) : byteAt (pkt.set i b) j = byteAt pkt j := by
  rw [byteAt, List.getD_eq_getElem?_getD, List.getElem?_set_ne h, byteAt, List.getD_eq_getElem?_getD]

theorem field16_eq (pkt : Bytes) (off : Nat) : field16 pkt off = byteAt pkt off * 256 + byteAt pkt (off + 1) := by
  rw [field16, ← Nat.shiftLeft_add_eq_or_of_lt (byteAt_lt pkt (off + 1)), Nat.shiftLeft_eq]

theorem field16_lt (pkt : Bytes) (off : Nat) : field16 pkt off < 2 ^ 16 := by
  rw [field16_eq]
  have hhi := byteAt_lt pkt off
  have hlo := byteAt_lt pkt (off + 1)
  omega

/-- A word that is stored in two bytes comes back. -/
theorem word_bytes {w : Nat} (hw : w < 2 ^ 16) :
    (UInt8.ofNat (w >>> 8 &&& 0xff)).toNat * 256 + (UInt8.ofNat (w &&& 0xff)).toNat = w := by
  rw [show (0xff : Nat) = 2 ^ 8 - 1 from rfl, Nat.and_two_pow_sub_one_eq_mod, Nat.and_two_pow_sub_one_eq_mod,
    Nat.shiftRight_eq_div_pow, UInt8.toNat_ofNat', UInt8.toNat_ofNat']
  omega

/-! ## The adjustment -/

/-- The checksum for a TTL one less: `0x0100` is added, with one end-around carry. -/
def adjust (w : Nat) : Nat := (w + 0x0100 &&& 0xffff) + ((w + 0x0100) >>> 16)

/-- One carry is enough, and the result is never 0. -/
theorem adjust_spec {w : Nat} (hw : w < 2 ^ 16) :
    adjust w < 2 ^ 16 ∧ 0 < adjust w ∧ adjust w % 0xffff = (w + 0x0100) % 0xffff := by
  rw [adjust, show (0xffff : Nat) = 2 ^ 16 - 1 from rfl, Nat.and_two_pow_sub_one_eq_mod, Nat.shiftRight_eq_div_pow]
  omega

section

variable {pkt : Bytes}

theorem length_decrementTtl : (Server.decrementTtl pkt).length = pkt.length := by
  rw [Server.decrementTtl]
  split <;> simp

theorem getElem?_decrementTtl (hversion : ipVersion pkt = 4) {i : Nat} (h8 : i ≠ 8) (h10 : i ≠ 10) (h11 : i ≠ 11) :
    (Server.decrementTtl pkt)[i]? = pkt[i]? := by
  rw [Server.decrementTtl, if_pos hversion]
  dsimp only
  rw [List.getElem?_set_ne h11.symm, List.getElem?_set_ne h10.symm, List.getElem?_set_ne h8.symm]

theorem byteAt_decrementTtl (hversion : ipVersion pkt = 4) {i : Nat} (h8 : i ≠ 8) (h10 : i ≠ 10) (h11 : i ≠ 11) :
    byteAt (Server.decrementTtl pkt) i = byteAt pkt i := by
  rw [byteAt, List.getD_eq_getElem?_getD, getElem?_decrementTtl hversion h8 h10 h11, byteAt,
    List.getD_eq_getElem?_getD]

theorem byteAt_decrementTtl_ttl (hversion : ipVersion pkt = 4) (hlen : 12 ≤ pkt.length) (httl : 2 ≤ byteAt pkt 8) :
    byteAt (Server.decrementTtl pkt) 8 + 1 = byteAt pkt 8 := by
  rw [Server.decrementTtl, if_pos hversion]
  dsimp only
  rw [byteAt_set_ne (by decide), byteAt_set_ne (by decide), byteAt_set_self (by omega)]
  rw [byteAt] at httl ⊢
  have hone : (1 : UInt8) ≤ pkt.getD 8 0 := UInt8.le_iff_toNat_le.2 (Nat.le_of_succ_le httl)
  rw [UInt8.toNat_sub_of_le _ _ hone]
  exact Nat.sub_add_cancel (Nat.le_of_succ_le httl)

theorem field16_decrementTtl_checksum (hversion : ipVersion pkt = 4) (hlen : 12 ≤ pkt.length) :
    field16 (Server.decrementTtl pkt) 10 = adjust (field16 pkt 10) := by
  rw [field16_eq, Server.decrementTtl, if_pos hversion]
  dsimp only
  rw [byteAt_set_ne (by decide), byteAt_set_self (by simp; omega), byteAt_set_self (by simp; omega)]
  exact word_bytes (adjust_spec (field16_lt pkt 10)).1

theorem field16_decrementTtl_ttl (hversion : ipVersion pkt = 4) (hlen : 12 ≤ pkt.length) (httl : 2 ≤ byteAt pkt 8) :
    field16 (Server.decrementTtl pkt) 8 + 0x0100 = field16 pkt 8 := by
  have hbyte := byteAt_decrementTtl_ttl hversion hlen httl
  have hproto : byteAt (Server.decrementTtl pkt) (8 + 1) = byteAt pkt (8 + 1) :=
    byteAt_decrementTtl hversion (by decide) (by decide) (by decide)
  rw [field16_eq, field16_eq, hproto]
  omega

theorem field16_decrementTtl (hversion : ipVersion pkt = 4) {k : Nat} (h4 : k ≠ 4) (h5 : k ≠ 5) :
    field16 (Server.decrementTtl pkt) (2 * k) = field16 pkt (2 * k) := by
  rw [field16_eq, field16_eq, byteAt_decrementTtl hversion (by omega) (by omega) (by omega),
    byteAt_decrementTtl hversion (by omega) (by omega) (by omega)]

theorem headerLen_decrementTtl (hversion : ipVersion pkt = 4) :
    headerLen (Server.decrementTtl pkt) = headerLen pkt := by
  rw [headerLen, headerLen, byteAt_decrementTtl hversion (by decide) (by decide) (by decide)]

/-- What the sum of a header gains and loses with the TTL and the checksum. -/
theorem headerSum_two_changed {out : Bytes} {len : Nat} (hcovers : 12 ≤ len)
    (hsame : ∀ k, k ≠ 4 → k ≠ 5 → field16 out (2 * k) = field16 pkt (2 * k)) :
    headerSum out len + (field16 pkt 8 + field16 pkt 10) = headerSum pkt len + (field16 out 8 + field16 out 10) :=
  sum_two_changed (i := 4) (j := 5) (by omega) (by omega) (by decide) hsame

theorem field16_le_headerSum (pkt : Bytes) {len : Nat} (hcovers : 12 ≤ len) : field16 pkt 10 ≤ headerSum pkt len := by
  have hmem : 5 ∈ Finset.range ((len + 1) / 2) := Finset.mem_range.2 (by omega)
  rw [headerSum]
  generalize hf : (fun k => field16 pkt (2 * k)) = f
  have hle := Finset.single_le_sum (f := f) (fun k _ => Nat.zero_le (f k)) hmem
  rw [← hf] at hle ⊢
  exact hle

/-- The sum of the header stays the same modulo `0xffff`. -/
theorem headerSum_decrementTtl (hversion : ipVersion pkt = 4) (hlen : 12 ≤ pkt.length) (httl : 2 ≤ byteAt pkt 8)
    {len : Nat} (hcovers : 12 ≤ len) :
    headerSum (Server.decrementTtl pkt) len % 0xffff = headerSum pkt len % 0xffff ∧
      headerSum (Server.decrementTtl pkt) len ≠ 0 := by
  have hchanged := headerSum_two_changed hcovers fun k => field16_decrementTtl (k := k) hversion
  have hfield := field16_le_headerSum (Server.decrementTtl pkt) hcovers
  have httlWord := field16_decrementTtl_ttl hversion hlen httl
  rw [field16_decrementTtl_checksum hversion hlen] at hchanged hfield
  obtain ⟨-, hpos, hadjust⟩ := adjust_spec (field16_lt pkt 10)
  omega

theorem HeaderVerifies.decrementTtl (h : HeaderVerifies pkt) (hversion : ipVersion pkt = 4) (hlen : 12 ≤ pkt.length)
    (httl : 2 ≤ byteAt pkt 8) : HeaderVerifies (Server.decrementTtl pkt) where
  covers := by
    rw [headerLen_decrementTtl hversion]
    exact h.covers
  checksum := by
    obtain ⟨hmod, hne⟩ := headerSum_decrementTtl hversion hlen httl h.covers
    rw [headerLen_decrementTtl hversion, ipv4Checksum_eq_zero_iff]
    exact ⟨hmod.trans ((ipv4Checksum_eq_zero_iff pkt _).1 h.checksum).1, hne⟩

/-- Where a header verifies, its field is what would be computed anew. -/
theorem HeaderVerifies.recomputed (h : HeaderVerifies pkt) (hlen : 12 ≤ pkt.length) :
    SameWord (field16 pkt 10) (recomputed pkt) := by
  have hzero (i : Nat) (h10 : i ≠ 10) (h11 : i ≠ 11) : byteAt ((pkt.set 10 0).set 11 0) i = byteAt pkt i := by
    rw [byteAt_set_ne h11.symm, byteAt_set_ne h10.symm]
  have hchanged := @headerSum_two_changed pkt ((pkt.set 10 0).set 11 0) _ h.covers fun k h4 h5 => by
    rw [field16_eq, field16_eq, hzero _ (by omega) (by omega), hzero _ (by omega) (by omega)]
  have hfield : field16 ((pkt.set 10 0).set 11 0) 10 = 0 := by
    rw [field16_eq, byteAt_set_ne (by decide), byteAt_set_self (by omega), byteAt_set_self (by simp; omega)]
    rfl
  have httl : field16 ((pkt.set 10 0).set 11 0) 8 = field16 pkt 8 := by
    rw [field16_eq, field16_eq, hzero _ (by decide) (by decide), hzero _ (by decide) (by decide)]
  have hmod := ((ipv4Checksum_eq_zero_iff pkt _).1 h.checksum).1
  have hfold := fold_mod (headerSum ((pkt.set 10 0).set 11 0) (headerLen pkt))
  have hlt := fold_lt (headerSum ((pkt.set 10 0).set 11 0) (headerLen pkt))
  refine eq_or_zeros (field16_lt pkt 10) ?_ ?_
  · rw [Mqvpn.recomputed, ipv4Checksum]
    omega
  · rw [Mqvpn.recomputed, ipv4Checksum]
    omega

/-- The adjustment of a header that verifies. -/
theorem decremented_decrementTtl (h : HeaderVerifies pkt) (hversion : ipVersion pkt = 4) (hlen : 12 ≤ pkt.length)
    (httl : 2 ≤ byteAt pkt 8) : Decremented pkt (Server.decrementTtl pkt) where
  length := length_decrementTtl
  ttl := byteAt_decrementTtl_ttl hversion hlen httl
  verifies := h.decrementTtl hversion hlen httl
  recomputed := (h.decrementTtl hversion hlen httl).recomputed (length_decrementTtl.symm ▸ hlen)
  rest _ h8 h10 h11 := getElem?_decrementTtl hversion h8 h10 h11

/-! ## The three copies -/

/-- The length is one that all of them forward. -/
def Fits (pkt : Bytes) : Prop := 20 ≤ pkt.length ∧ pkt.length ≤ packetBufSize

instance (pkt : Bytes) : Decidable (Fits pkt) := inferInstanceAs (Decidable (_ ∧ _))

/-- The packet behind the header that the reorder sender has put before it. -/
def innerPacket (action : TxAction) (payload : Bytes) : Bytes :=
  if action = .stamp then payload.drop hdrLen else payload

theorem decrementTtl_eq (hversion : ipVersion pkt = 4) :
    Server.decrementTtl pkt =
      (((pkt.set 8 (pkt.getD 8 0 - 1)).set 10 (UInt8.ofNat (adjust (field16 pkt 10) >>> 8 &&& 0xff))).set 11
        (UInt8.ofNat (adjust (field16 pkt 10) &&& 0xff))) := by
  rw [Server.decrementTtl, if_pos hversion]
  rfl

/-- The bytes of the checksum are read after the TTL was written. -/
theorem field16_set_ttl (b : UInt8) : field16 (pkt.set 8 b) 10 = field16 pkt 10 := by
  rw [field16_eq, field16_eq, byteAt_set_ne (by decide), byteAt_set_ne (by decide)]

theorem Client.forwardInnerIp_eq (c : Client) (k : Client.Conn) (hversion : ipVersion pkt = 4)
    (httl : 2 ≤ byteAt pkt 8) :
    c.forwardInnerIp k pkt = if Fits pkt then .tunOutput (Server.decrementTtl pkt) else .dropped := by
  have hlive : ¬pkt.getD 8 0 ≤ 1 := fun hle => absurd (UInt8.le_iff_toNat_le.1 hle) (Nat.not_le_of_lt httl)
  rw [forwardInnerIp, if_pos hversion, if_neg hlive, decrementTtl_eq hversion, ← field16_set_ttl (pkt.getD 8 0 - 1)]
  by_cases hlen : 20 ≤ pkt.length
  · by_cases hbuf : pkt.length ≤ packetBufSize
    · rw [if_neg (by omega), if_neg (by omega), if_neg (show ¬pkt.length < ipv4MinHdr from Nat.not_lt.2 hlen),
        if_pos ⟨hlen, hbuf⟩]
      rfl
    · rw [if_neg (by omega), if_pos (by omega), if_neg fun hfits => hbuf hfits.2]
  · rw [if_neg fun hfits : Fits pkt => hlen hfits.1, if_pos (show pkt.length < ipv4MinHdr by rw [ipv4MinHdr]; omega)]
    split_ifs <;> rfl

theorem Server.forwardInnerIp_eq (s : Server) (k : Server.Conn) (rateAllow : Bool) (hversion : ipVersion pkt = 4)
    (httl : 2 ≤ byteAt pkt 8) :
    s.forwardInnerIp k rateAllow pkt =
      if Fits pkt ∧ ofBytes ((pkt.drop 12).take 4) = k.assignedIp then .tunOutput (decrementTtl pkt) else .dropped := by
  have hlive : ¬pkt.getD 8 0 ≤ 1 := fun hle => absurd (UInt8.le_iff_toNat_le.1 hle) (Nat.not_le_of_lt httl)
  rw [forwardInnerIp, if_pos hversion, if_neg hlive, decrementTtl_eq hversion, ← field16_set_ttl (pkt.getD 8 0 - 1)]
  by_cases hlen : 20 ≤ pkt.length
  · by_cases hbuf : pkt.length ≤ packetBufSize
    · rw [if_neg (by omega), if_neg (by omega), if_neg (Nat.not_lt.2 hlen)]
      by_cases hsrc : ofBytes ((pkt.drop 12).take 4) = k.assignedIp
      · rw [if_neg (not_not.2 hsrc), if_pos ⟨⟨hlen, hbuf⟩, hsrc⟩]
        rfl
      · rw [if_pos hsrc, if_neg fun h => hsrc h.2]
    · rw [if_neg (by omega), if_pos (by omega), if_neg fun h => hbuf h.1.2]
  · rw [if_neg fun h : Fits pkt ∧ _ => hlen h.1.1, if_pos (Nat.lt_of_not_le hlen)]
    split_ifs <;> rfl

theorem Server.innerPacket_outgoing {s : Server} {nowUs : Nat} {t : TunPacket} {action : TxAction} {payload : Bytes}
    (hversion : ipVersion t.pkt = 4) (h : s.outgoing nowUs t = some (action, payload)) :
    Fits t.pkt ∧ innerPacket action payload = decrementTtl t.pkt := by
  obtain ⟨c, pk, -, htarget, hbuf, hhdr, rfl, rfl⟩ := outgoing_cases h
  refine ⟨⟨?_, hbuf⟩, ?_⟩
  · -- a shorter packet has no destination
    by_contra hlen
    rw [target, dstOffset, if_neg fun hc => hlen hc.2, if_neg fun hc => by simp [hversion] at hc] at htarget
    exact absurd htarget.symm (Option.some_ne_none c)
  · rw [innerPacket, frameSrc]
    split
    · rename_i hstamp
      obtain ⟨flags, seq, heq⟩ := hhdr hstamp
      rw [heq]
      exact List.drop_left' (length_wireEncode typeV1 flags seq)
    · rfl

/-- There is one packet that all three copies make of an IPv4 packet with a TTL of at least 2, if
    its length is one they forward. If the header of the packet verifies, it is the packet with
    the TTL one less and a checksum that verifies, and nothing else changed. -/
theorem forwarded_exactly (hversion : ipVersion pkt = 4) (hverifies : HeaderVerifies pkt) (httl : 2 ≤ byteAt pkt 8) :
    ∃ out, (Fits pkt → Decremented pkt out) ∧
      (∀ (c : Client) k, c.forwardInnerIp k pkt = if Fits pkt then .tunOutput out else .dropped) ∧
      (∀ (s : Server) k rateAllow, s.forwardInnerIp k rateAllow pkt =
        if Fits pkt ∧ Server.ofBytes ((pkt.drop 12).take 4) = k.assignedIp then .tunOutput out else .dropped) ∧
      ∀ (s : Server) nowUs t action payload, t.pkt = pkt → s.outgoing nowUs t = some (action, payload) →
        Fits pkt ∧ innerPacket action payload = out := by
  refine ⟨Server.decrementTtl pkt, fun hfits => ?_, fun c k => c.forwardInnerIp_eq k hversion httl,
    fun s k rateAllow => s.forwardInnerIp_eq k rateAllow hversion httl, ?_⟩
  · exact decremented_decrementTtl hverifies hversion (Nat.le_trans (by decide) hfits.1) httl
  · rintro s nowUs t action payload rfl hout
    exact Server.innerPacket_outgoing hversion hout

/-- A packet of a header only, with the checksum `0xff00`: the carry comes round. -/
def sampleHeader : Bytes :=
  [0x45, 0, 0, 20, 0, 0, 0, 0, 64, 17, 0xff, 0, 10, 0, 0, 2, 0x71, 0xd5, 0, 2]

theorem forwarded_exactly_sample :
    ∃ out, Decremented sampleHeader out ∧ ∀ (c : Client) k, c.forwardInnerIp k sampleHeader = .tunOutput out := by
  have hverifies : HeaderVerifies sampleHeader := ⟨by decide, by decide +kernel⟩
  obtain ⟨out, hdecremented, hclient, -⟩ := @forwarded_exactly sampleHeader (by decide) hverifies (by decide)
  exact ⟨out, hdecremented (by decide), fun c k => (hclient c k).trans (if_pos (by decide))⟩

end

end Mqvpn
