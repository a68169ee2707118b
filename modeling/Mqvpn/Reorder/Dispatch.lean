import Mqvpn.Reorder.Tx

/-!
# Telling datagrams apart

A datagram carries an inner IP packet as it is, or under a reorder header. The
receiving side looks at the first byte only (`classifyByte`): the type of a header
is 1, while an IP packet begins with its version, 4 or 6.

* `dispatch_stamped`, `dispatch_raw`: what was sent under a header goes to the
  reorder receiver, and what was sent raw is forwarded;
* `wireEncode_wireDecode`: the bytes of a header are those of its fields, as much
  as the fields are those of the bytes (`wireDecode_wireEncode`).
-/

namespace Mqvpn.Reorder

/-- `mqvpn_reorder_kind_t` -/
inductive Kind
  | raw
  | reorderV1
  | unknown
  deriving DecidableEq

/-- `mqvpn_reorder_classify_byte` -/
def classifyByte (b0 : UInt8) : Kind :=
  let nibble := b0 >>> 4
  if nibble = 4 ∨ nibble = 6 then .raw
  else if b0 = typeV1 then .reorderV1
  else .unknown

/-- What becomes of a datagram that was received. -/
inductive Dispatch
  | forwardInnerIp (payload : Bytes)
  | rxOnPacket (payload : Bytes)
  | drop
  deriving DecidableEq

/-- The dispatch of `cb_dgram_read`, on both sides; `rxOn` is whether the
    connection has a reorder receiver. -/
def dispatch (rxOn : Bool) (payload : Bytes) : Dispatch :=
  match payload with
  | [] => .drop
  | b0 :: _ =>
    match classifyByte b0 with
    | .raw => .forwardInnerIp payload
    | .reorderV1 => if rxOn then .rxOnPacket payload else .drop
    | .unknown => .drop

/-- The payload that both sides frame for a packet, as the peek has decided. -/
def frameSrc (pk : TxPeek) (pkt : Bytes) : Bytes :=
  if pk.action = .stamp then pk.hdr ++ pkt else pkt

/-- The packet starts with the version of an IP header. -/
def StartsIp (pkt : Bytes) : Prop := ∃ b0 rest, pkt = b0 :: rest ∧ (b0 >>> 4 = 4 ∨ b0 >>> 4 = 6)

/-! ## The first byte -/

theorem classifyByte_typeV1 : classifyByte typeV1 = .reorderV1 := by decide

theorem classifyByte_of_version {b0 : UInt8} (h : b0 >>> 4 = 4 ∨ b0 >>> 4 = 6) :
    classifyByte b0 = .raw := if_pos h

theorem dispatch_raw {pkt : Bytes} (h : StartsIp pkt) (rxOn : Bool) :
    dispatch rxOn pkt = .forwardInnerIp pkt := by
  obtain ⟨b0, rest, rfl, hv⟩ := h
  rw [dispatch, classifyByte_of_version hv]

theorem dispatch_stamped (rxOn : Bool) (flags : UInt8) (seq : Nat) (pkt : Bytes) :
    dispatch rxOn (wireEncode typeV1 flags seq ++ pkt) =
      if rxOn then .rxOnPacket (wireEncode typeV1 flags seq ++ pkt) else .drop := by
  rw [wireEncode, List.cons_append, dispatch, classifyByte_typeV1]

/-! ## Headers -/

/-- The byte that is shifted to the end of a number. -/
theorem ofNat_shiftRight {b : UInt8} {n k : Nat} (h : n / 2 ^ k % 256 = b.toNat) :
    UInt8.ofNat (n >>> k) = b := by
  apply UInt8.toNat_inj.1
  rw [UInt8.toNat_ofNat', Nat.shiftRight_eq_div_pow]
  exact h

/-- Encoding the fields of a header gives the header. -/
theorem wireEncode_wireDecode {hdr : Bytes} (h : hdr.length = hdrLen) :
    ∃ type flags seq, wireDecode hdr = some (type, flags, seq) ∧ wireEncode type flags seq = hdr := by
  obtain ⟨b0, b1, b2, b3, b4, b5, b6, b7, rfl⟩ :
      ∃ b0 b1 b2 b3 b4 b5 b6 b7, hdr = [b0, b1, b2, b3, b4, b5, b6, b7] := by
    match hdr, h with
    | [b0, b1, b2, b3, b4, b5, b6, b7], _ => exact ⟨b0, b1, b2, b3, b4, b5, b6, b7, rfl⟩
  refine ⟨b0, b1, _, rfl, ?_⟩
  have hseq := or_bytes (byteAt [b0, b1, b2, b3, b4, b5, b6, b7]) (byteAt_lt _)
  rw [hseq]
  have h2 := b2.toNat_lt
  have h3 := b3.toNat_lt
  have h4 := b4.toNat_lt
  have h5 := b5.toNat_lt
  have h6 := b6.toNat_lt
  have h7 := b7.toNat_lt
  simp only [byteAt, List.getD_cons_zero, List.getD_cons_succ, wireEncode]
  have hlow : UInt8.ofNat (((((b2.toNat * 256 + b3.toNat) * 256 + b4.toNat) * 256 + b5.toNat) * 256 +
      b6.toNat) * 256 + b7.toNat) = b7 := by
    apply UInt8.toNat_inj.1
    rw [UInt8.toNat_ofNat']
    omega
  rw [hlow, ofNat_shiftRight (b := b2) (by omega), ofNat_shiftRight (b := b3) (by omega),
    ofNat_shiftRight (b := b4) (by omega), ofNat_shiftRight (b := b5) (by omega),
    ofNat_shiftRight (b := b6) (by omega)]

/-- What a peek stamps is a header of the one type there is. -/
theorem Tx.hdr_of_stamp {tx : Tx} {pkt : Bytes} {nowUs maxInner : Nat} {alloc : Bool}
    (h : (tx.peek pkt nowUs maxInner alloc).1.action = .stamp) :
    ∃ flags seq, (tx.peek pkt nowUs maxInner alloc).1.hdr = wireEncode typeV1 flags seq := by
  rw [peek] at h ⊢
  by_cases hmode : tx.cfg.mode = .off
  · rw [if_pos hmode] at h
    exact absurd h (by simp)
  rw [if_neg hmode] at h ⊢
  cases hp : parse5tuple pkt with
  | none =>
    rw [hp] at h
    exact absurd h (by simp)
  | some key =>
    rw [hp] at h
    dsimp only at h ⊢
    generalize tx.getOrCreate key nowUs alloc = res at h ⊢
    obtain ⟨_ | f, tx'⟩ := res
    · exact absurd h (by simp)
    · dsimp only [stamp] at h ⊢
      split_ifs at h ⊢
      exact ⟨_, _, rfl⟩

/-- A payload is taken for what it was framed as. -/
theorem dispatch_frameSrc {pk : TxPeek} {pkt : Bytes} (hip : StartsIp pkt)
    (hhdr : pk.action = .stamp → ∃ flags seq, pk.hdr = wireEncode typeV1 flags seq) (rxOn : Bool) :
    (pk.action = .stamp → dispatch rxOn (frameSrc pk pkt) =
      if rxOn then .rxOnPacket (frameSrc pk pkt) else .drop) ∧
    (pk.action ≠ .stamp → dispatch rxOn (frameSrc pk pkt) = .forwardInnerIp pkt) := by
  refine ⟨fun hact => ?_, fun hact => ?_⟩
  · obtain ⟨flags, seq, heq⟩ := hhdr hact
    rw [frameSrc, if_pos hact, heq]
    exact dispatch_stamped rxOn flags seq pkt
  · rw [frameSrc, if_neg hact]
    exact dispatch_raw hip rxOn

end Mqvpn.Reorder
