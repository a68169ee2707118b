import Mathlib.Data.Nat.Bitwise

/-!
# The reorder header

A reordered datagram is the 8-byte header `[type][flags][seq48]` followed by
the inner IP packet. The sequence number is sent big-endian in 48 bits: only
the low 48 bits of the sender's counter reach the wire (`wireDecode_wireEncode`),
and what is decoded is always below `2 ^ 48` (`seq_lt_of_wireDecode`).
-/

namespace Mqvpn.Reorder

/-- A buffer and its length. -/
abbrev Bytes := List UInt8

/-- The byte `pkt[i]`, as the integer C promotes it to. -/
def byteAt (pkt : Bytes) (i : Nat) : Nat := (pkt.getD i 0).toNat

/-- `MQVPN_REORDER_TYPE_V1` -/
def typeV1 : UInt8 := 0x01

/-- `MQVPN_REORDER_FLAG_RESET` -/
def flagReset : UInt8 := 0x01

/-- `MQVPN_REORDER_HDR_LEN` -/
def hdrLen : Nat := 8

/-- `mqvpn_reorder_wire_encode` -/
def wireEncode (type flags : UInt8) (seq : Nat) : Bytes :=
  [type, flags, UInt8.ofNat (seq >>> 40), UInt8.ofNat (seq >>> 32), UInt8.ofNat (seq >>> 24),
    UInt8.ofNat (seq >>> 16), UInt8.ofNat (seq >>> 8), UInt8.ofNat seq]

/-- `mqvpn_reorder_wire_decode`: type, flags and sequence number, or nothing
    when the datagram is shorter than the header. -/
def wireDecode (payload : Bytes) : Option (UInt8 × UInt8 × Nat) :=
  if payload.length < hdrLen then none
  else some (payload.getD 0 0, payload.getD 1 0,
    byteAt payload 2 <<< 40 ||| byteAt payload 3 <<< 32 ||| byteAt payload 4 <<< 24 |||
      byteAt payload 5 <<< 16 ||| byteAt payload 6 <<< 8 ||| byteAt payload 7)

/-! ## Round trip -/

theorem byteAt_lt (pkt : Bytes) (i : Nat) : byteAt pkt i < 256 := UInt8.toNat_lt _

/-- Appending a big-endian byte. -/
theorem shiftLeft_or_byte {a b : Nat} (n : Nat) (hb : b < 256) :
    a <<< (n + 8) ||| b <<< n = (a * 256 + b) <<< n := by
  rw [Nat.add_comm n 8, Nat.shiftLeft_add, ← Nat.shiftLeft_or_distrib,
    ← Nat.shiftLeft_add_eq_or_of_lt (i := 8) hb, Nat.shiftLeft_eq a 8]

/-- Six bytes ORed together at their places are a big-endian number. -/
theorem or_bytes (b : Nat → Nat) (hb : ∀ i, b i < 256) :
    b 2 <<< 40 ||| b 3 <<< 32 ||| b 4 <<< 24 ||| b 5 <<< 16 ||| b 6 <<< 8 ||| b 7 =
      ((((b 2 * 256 + b 3) * 256 + b 4) * 256 + b 5) * 256 + b 6) * 256 + b 7 := by
  rw [shiftLeft_or_byte 32 (hb 3), shiftLeft_or_byte 24 (hb 4), shiftLeft_or_byte 16 (hb 5),
    shiftLeft_or_byte 8 (hb 6)]
  exact shiftLeft_or_byte 0 (hb 7)

@[simp]
theorem length_wireEncode (type flags : UInt8) (seq : Nat) :
    (wireEncode type flags seq).length = hdrLen := rfl

/-- A datagram decodes to what was encoded, the sequence number cut to 48 bits. -/
theorem wireDecode_wireEncode (type flags : UInt8) (seq : Nat) (pkt : Bytes) :
    wireDecode (wireEncode type flags seq ++ pkt) = some (type, flags, seq % 2 ^ 48) := by
  have hlen : ¬(wireEncode type flags seq ++ pkt).length < hdrLen := by
    rw [List.length_append, length_wireEncode]
    omega
  have hseq := or_bytes (byteAt (wireEncode type flags seq ++ pkt)) (byteAt_lt _)
  rw [wireDecode, if_neg hlen, hseq]
  simp only [wireEncode, byteAt, List.cons_append, List.nil_append, List.getD_cons_zero,
    List.getD_cons_succ, UInt8.toNat_ofNat', Nat.shiftRight_eq_div_pow]
  congr 3
  omega

theorem seq_lt_of_wireDecode {payload : Bytes} {type flags : UInt8} {seq : Nat}
    (h : wireDecode payload = some (type, flags, seq)) : seq < 2 ^ 48 := by
  rw [wireDecode] at h
  split_ifs at h
  obtain ⟨-, -, rfl⟩ : _ ∧ _ ∧ _ = seq := by simpa using h
  have hb := byteAt_lt payload
  rw [or_bytes (byteAt payload) hb]
  have h2 := hb 2
  have h3 := hb 3
  have h4 := hb 4
  have h5 := hb 5
  have h6 := hb 6
  have h7 := hb 7
  omega

end Mqvpn.Reorder
