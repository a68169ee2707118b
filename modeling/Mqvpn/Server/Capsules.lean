import Mathlib.Algebra.Group.Nat.Defs
import Mqvpn.Lib.Framing
import Mqvpn.Lib.Runs
import Mqvpn.Reorder.Wire

/-!
# Capsules

The body of a CONNECT-IP stream is a sequence of capsules. Both sides read it in chunks, put
each chunk behind what they have kept of the earlier ones, handle the capsules that are there
as a whole, and keep the rest. As long as every chunk finds room the capsules that are handled
are those of all the bytes that were read, however they were cut (`reassembled`). A chunk that
finds no room is lost: the client then closes the connection, while the server goes on with
what comes behind it (`not_independent`).
-/

namespace Mqvpn

open Reorder

/-- A capsule. -/
structure Capsule where
  type : Nat
  payload : Bytes
  deriving DecidableEq

/-- `MAX_CAPSULE_BUF` -/
def maxCapsuleBuf : Nat := 65536

/-- `SIZE_MAX` -/
def sizeMax : Nat := 18446744073709551615

/-- `XQC_H3_CAPSULE_ROUTE_ADVERTISEMENT` -/
def routeAdvertisement : Nat := 3

/-- The capsules of `cli_stream_t` and of `svr_stream_t`; the buffer is the part of it that is
    in use. -/
structure CapsuleStream where
  capsuleBuf : Bytes := []
  capsuleCap : Nat := 0
  /-- The capsules that were handled. -/
  handled : List Capsule := []
  /-- The handler has returned -1: the connection is closed. -/
  closed : Bool := false
  /-- For the statements: the bytes that were read. -/
  received : Bytes := []
  /-- For the statements: how many capsules were handled when bytes were lost. -/
  lost : Option Nat := none

/-- An answer of `xqc_h3_request_recv_body` with some bytes; `alloc`: there is memory for a
    larger buffer. -/
structure BodyRead where
  chunk : Bytes
  fin : Bool
  alloc : Bool

/-! ## The format of a capsule -/

/-- A variable-length integer: two bits say how many bytes it has. -/
def varint : Bytes → Option (Nat × Nat)
  | [] => none
  | b0 :: rest =>
    let n := 2 ^ (b0 >>> 6).toNat
    if rest.length < n - 1 then none
    else some ((rest.take (n - 1)).foldl (fun v b => v * 256 + b.toNat) (b0 &&& 0x3f).toNat, n)

theorem varint_bounds {b : Bytes} {v n : Nat} (h : varint b = some (v, n)) : 0 < n ∧ n ≤ b.length := by
  cases b with
  | nil => exact absurd h.symm (Option.some_ne_none _)
  | cons b0 rest =>
    rw [varint] at h
    split at h
    · exact absurd h.symm (Option.some_ne_none _)
    · rename_i hlen
      obtain ⟨-, rfl⟩ := Prod.mk.inj (Option.some.inj h)
      have hpos : 0 < 2 ^ (b0 >>> 6).toNat := Nat.two_pow_pos _
      rw [List.length_cons]
      omega

theorem varint_extend {b : Bytes} {v n : Nat} (h : varint b = some (v, n)) (x : Bytes) :
    varint (b ++ x) = some (v, n) := by
  cases b with
  | nil => exact absurd h.symm (Option.some_ne_none _)
  | cons b0 rest =>
    rw [varint] at h
    rw [List.cons_append, varint]
    split at h
    · exact absurd h.symm (Option.some_ne_none _)
    · rename_i hlen
      rw [if_neg (by rw [List.length_append]; omega), List.take_append_of_le_length (Nat.not_lt.1 hlen)]
      exact h

/-- The capsule at the front: its type, its length and its payload. -/
def decodeCapsule (b : Bytes) : Option (Capsule × Nat) :=
  match varint b with
  | none => none
  | some (type, n) =>
    match varint (b.drop n) with
    | none => none
    | some (len, m) =>
      if b.length < n + m + len then none else some (⟨type, (b.drop (n + m)).take len⟩, n + m + len)

theorem decodeCapsule_of {b : Bytes} {type n len m : Nat} (htype : varint b = some (type, n))
    (hlen : varint (b.drop n) = some (len, m)) :
    decodeCapsule b =
      if b.length < n + m + len then none else some (⟨type, (b.drop (n + m)).take len⟩, n + m + len) := by
  rw [decodeCapsule, htype]
  dsimp only
  rw [hlen]

theorem of_decodeCapsule {b : Bytes} {c : Capsule} {k : Nat} (h : decodeCapsule b = some (c, k)) :
    ∃ type n len m, varint b = some (type, n) ∧ varint (b.drop n) = some (len, m) ∧ n + m + len ≤ b.length ∧
      c = ⟨type, (b.drop (n + m)).take len⟩ ∧ k = n + m + len := by
  rw [decodeCapsule] at h
  split at h
  · exact absurd h.symm (Option.some_ne_none _)
  · rename_i type n htype
    split at h
    · exact absurd h.symm (Option.some_ne_none _)
    · rename_i len m hlen
      split at h
      · exact absurd h.symm (Option.some_ne_none _)
      · rename_i hle
        obtain ⟨rfl, rfl⟩ := Prod.mk.inj (Option.some.inj h)
        exact ⟨type, n, len, m, htype, hlen, Nat.not_lt.1 hle, rfl, rfl⟩

/-- Capsules one behind another. -/
def capsules : Framing UInt8 Capsule where
  decode := decodeCapsule
  bounds b a k h := by
    obtain ⟨type, n, len, m, htype, -, hle, -, rfl⟩ := of_decodeCapsule h
    exact ⟨Nat.lt_of_lt_of_le (varint_bounds htype).1 (by omega), hle⟩
  extend b x a k h := by
    obtain ⟨type, n, len, m, htype, hlen, hle, rfl, rfl⟩ := of_decodeCapsule h
    have hmore : varint ((b ++ x).drop n) = some (len, m) := by
      rw [List.drop_append_of_le_length (varint_bounds htype).2]
      exact varint_extend hlen x
    rw [decodeCapsule_of (varint_extend htype x) hmore, if_neg (by rw [List.length_append]; omega),
      List.drop_append_of_le_length (by omega), List.take_append_of_le_length (by rw [List.length_drop]; omega)]

/-! ## Both sides -/

/-- The loop that doubles the capacity, from a positive one. -/
def doubleCap (need cap : Nat) : Nat :=
  if cap < need ∧ 0 < cap then if sizeMax / 2 < cap then need else doubleCap need (cap * 2) else cap
termination_by need - cap

namespace CapsuleStream

variable (F : Framing UInt8 Capsule) (accept : Capsule → Bool) (s : CapsuleStream)

/-- `stream_append_capsules`, which the server has in its loop. -/
def append (buf : Bytes) (alloc : Bool) : Option CapsuleStream :=
  if buf = [] then some s
  else
    let need := s.capsuleBuf.length + buf.length
    if maxCapsuleBuf < need then none
    else if s.capsuleCap < need then
      if alloc then
        some
          { s with
            capsuleBuf := s.capsuleBuf ++ buf
            capsuleCap := doubleCap need (if s.capsuleCap = 0 then 4096 else s.capsuleCap * 2) }
      else none
    else some { s with capsuleBuf := s.capsuleBuf ++ buf }

/-- `process_capsules`, which the server has in its loop: the capsules at the front are handled
    and taken out. One that is not accepted stays, and the request is closed. -/
def process : CapsuleStream :=
  { s with
    handled := s.handled ++ F.messages accept s.capsuleBuf
    capsuleBuf := (F.parse accept s.capsuleBuf).2 }

/-- The stream after a chunk that found no room. -/
def drop (closes : Bool) : CapsuleStream :=
  { s with lost := some (s.lost.getD s.handled.length), closed := closes }

/-- The loop over the body; `atFin`: it ends with the fin, and `closes`: with a chunk that finds
    no room it returns -1, and 0 otherwise. Behind the last answer there is nothing to read. -/
def onBody (atFin closes : Bool) (s : CapsuleStream) : List BodyRead → CapsuleStream
  | [] => s
  | r :: reads =>
    let buf := r.chunk.take 4096
    if buf = [] then s
    else
      let s := { s with received := s.received ++ buf }
      match s.append buf r.alloc with
      | none => s.drop closes
      | some s => if atFin && r.fin then s.process F accept else onBody atFin closes (s.process F accept) reads

/-- The capsule is one that `process_capsules` does not close the request for; `valid`:
    `xqc_h3_ext_connectip_validate_route_advertisement`. -/
def accepted (valid : Bytes → Bool) (c : Capsule) : Bool := c.type ≠ routeAdvertisement || valid c.payload

/-- `cli_connect_ip_on_body`, as long as the connection is there -/
def cliConnectIpOnBody (valid : Bytes → Bool) (s : CapsuleStream) (reads : List BodyRead) : CapsuleStream :=
  if s.closed then s else onBody F (accepted valid) true true s reads

/-- `svr_connect_ip_on_body` -/
def svrConnectIpOnBody (s : CapsuleStream) (reads : List BodyRead) : CapsuleStream :=
  onBody F (fun _ => true) false false s reads

/-- The calls for a stream of the client. -/
def cliRun (valid : Bytes → Bool) (calls : List (List BodyRead)) : CapsuleStream :=
  calls.foldl (cliConnectIpOnBody F valid) {}

/-- The calls for a stream of the server. -/
def svrRun (calls : List (List BodyRead)) : CapsuleStream := calls.foldl (svrConnectIpOnBody F) {}

/-! ## The condition -/

/-- The chunk finds room behind what was kept, and a larger buffer where it takes one. -/
def Fits (buf : Bytes) (alloc : Bool) : Prop :=
  s.capsuleBuf.length + buf.length ≤ maxCapsuleBuf ∧
    (s.capsuleCap < s.capsuleBuf.length + buf.length → alloc = true)

/-- Every chunk that is read in a call finds room. -/
def ReadsFit (atFin : Bool) (s : CapsuleStream) : List BodyRead → Prop
  | [] => True
  | r :: reads =>
    let buf := r.chunk.take 4096
    buf = [] ∨ s.Fits buf r.alloc ∧
      ((atFin && r.fin) = true ∨
        ∀ s' ∈ append { s with received := s.received ++ buf } buf r.alloc, ReadsFit atFin (s'.process F accept) reads)

/-! ## What is handled -/

/-- The capsules that are handled are the first ones of all that was read, all of them if none
    is larger than the buffer, and none is handled after bytes were lost. -/
structure Independent : Prop where
  inOrder : s.handled <+: F.messages accept s.received
  whole : (∀ m ∈ (F.parse accept s.received).1, m.2 ≤ maxCapsuleBuf) → s.handled = F.messages accept s.received
  stopped : ∀ n ∈ s.lost, s.handled.length = n

/-- What was handled and what is kept are what the bytes that were read are parsed into. -/
structure Exact : Prop where
  handled : s.handled = F.messages accept s.received
  kept : s.capsuleBuf = (F.parse accept s.received).2
  lost : s.lost = none

variable {F accept s}

theorem Exact.initial : Exact F accept {} := by
  have hnone : F.decode [] = none := by
    cases h : F.decode [] with
    | none => rfl
    | some found =>
      obtain ⟨hpos, hle⟩ := F.bounds [] found.1 found.2 h
      exact absurd hle (Nat.not_le_of_lt hpos)
  constructor
  · rw [Framing.messages, Framing.parse_of_none hnone]
    rfl
  · rw [Framing.parse_of_none hnone]
  · rfl

theorem Exact.independent (h : Exact F accept s) : Independent F accept s where
  inOrder := h.handled ▸ List.prefix_refl _
  whole _ := h.handled
  stopped n hn := by
    rw [h.lost] at hn
    exact absurd hn (Option.not_mem_none n)

theorem append_spec {buf : Bytes} {alloc : Bool} (hne : buf ≠ []) {s' : CapsuleStream} (h : s.append buf alloc = some s') :
    ∃ cap, s' = { s with capsuleBuf := s.capsuleBuf ++ buf, capsuleCap := cap } := by
  rw [append, if_neg hne] at h
  dsimp only at h
  by_cases hroom : maxCapsuleBuf < s.capsuleBuf.length + buf.length
  · rw [if_pos hroom] at h
    exact absurd h.symm (Option.some_ne_none s')
  rw [if_neg hroom] at h
  by_cases hgrow : s.capsuleCap < s.capsuleBuf.length + buf.length
  · rw [if_pos hgrow] at h
    cases alloc with
    | false => exact absurd h.symm (Option.some_ne_none s')
    | true => exact ⟨_, (Option.some.inj h).symm⟩
  · rw [if_neg hgrow] at h
    exact ⟨_, (Option.some.inj h).symm⟩

theorem append_of_fits {buf : Bytes} {alloc : Bool} (h : s.Fits buf alloc) : ∃ s', s.append buf alloc = some s' := by
  obtain ⟨hroom, halloc⟩ := h
  rw [append]
  split
  · exact ⟨s, rfl⟩
  · dsimp only
    rw [if_neg (Nat.not_lt.2 hroom)]
    split
    · rename_i hgrow
      rw [if_pos (halloc hgrow)]
      exact ⟨_, rfl⟩
    · exact ⟨_, rfl⟩

/-- The capsules behind a chunk are those of everything that was read. -/
theorem Exact.process (h : Exact F accept s) {buf : Bytes} {alloc : Bool} (hne : buf ≠ []) {s' : CapsuleStream}
    (happend : append { s with received := s.received ++ buf } buf alloc = some s') :
    Exact F accept (s'.process F accept) := by
  obtain ⟨cap, rfl⟩ := append_spec hne happend
  have hparse := @Framing.parse_append _ _ F accept s.received buf
  rw [← h.kept] at hparse
  constructor
  · change s.handled ++ F.messages accept (s.capsuleBuf ++ buf) = F.messages accept (s.received ++ buf)
    rw [h.handled, Framing.messages, Framing.messages, Framing.messages, hparse, List.map_append]
  · change (F.parse accept (s.capsuleBuf ++ buf)).2 = (F.parse accept (s.received ++ buf)).2
    rw [hparse]
  · exact h.lost

/-! ## Runs -/

/-- A call in which every chunk finds room. -/
theorem Exact.onBody (h : Exact F accept s) {atFin closes : Bool} {reads : List BodyRead}
    (hfit : ReadsFit F accept atFin s reads) :
    Exact F accept (CapsuleStream.onBody F accept atFin closes s reads) ∧
      (CapsuleStream.onBody F accept atFin closes s reads).closed = s.closed := by
  induction reads generalizing s with
  | nil => exact ⟨h, rfl⟩
  | cons r reads ih =>
    rw [CapsuleStream.onBody]
    dsimp only
    split
    · exact ⟨h, rfl⟩
    · rename_i hne
      rcases hfit with hnone | ⟨hroom, hrest⟩
      · exact absurd hnone hne
      obtain ⟨s', happend⟩ := append_of_fits (s := { s with received := s.received ++ r.chunk.take 4096 }) hroom
      have hclosed : s'.closed = s.closed := by
        obtain ⟨cap, rfl⟩ := append_spec hne happend
        rfl
      have hnext := h.process hne happend
      rw [happend]
      dsimp only
      split
      · exact ⟨hnext, hclosed⟩
      · rename_i hmore
        obtain ⟨hexact, hsame⟩ := ih hnext ((hrest.resolve_left hmore) s' happend)
        exact ⟨hexact, hsame.trans hclosed⟩

/-- What the client keeps to in any case: once bytes are lost, it handles nothing more. -/
structure Careful (F : Framing UInt8 Capsule) (accept : Capsule → Bool) (s : CapsuleStream) : Prop where
  inOrder : s.handled <+: F.messages accept s.received
  stopped : ∀ n ∈ s.lost, s.handled.length = n

/-- A call that closes with a chunk that finds no room. -/
theorem Exact.careful_onBody (h : Exact F accept s) (hopen : s.closed = false) {atFin : Bool} (reads : List BodyRead) :
    let s' := CapsuleStream.onBody F accept atFin true s reads
    Careful F accept s' ∧ (s'.closed = false → Exact F accept s') := by
  induction reads generalizing s with
  | nil => exact ⟨⟨h.independent.inOrder, h.independent.stopped⟩, fun _ => h⟩
  | cons r reads ih =>
    rw [CapsuleStream.onBody]
    dsimp only
    split
    · exact ⟨⟨h.independent.inOrder, h.independent.stopped⟩, fun _ => h⟩
    · rename_i hne
      split
      · -- the chunk is lost, and the connection closed
        refine ⟨⟨?_, ?_⟩, fun hopen => Bool.noConfusion hopen⟩
        · change s.handled <+: F.messages accept (s.received ++ r.chunk.take 4096)
          rw [h.handled]
          exact Framing.messages_prefix_append _ _
        · intro n hn
          change some (s.lost.getD s.handled.length) = some n at hn
          rw [h.lost] at hn
          exact Option.some.inj hn
      · rename_i s' happend
        have hnext := h.process hne happend
        have hopen' : (s'.process F accept).closed = false := by
          obtain ⟨cap, rfl⟩ := append_spec hne happend
          exact hopen
        split
        · exact ⟨⟨hnext.independent.inOrder, hnext.independent.stopped⟩, fun _ => hnext⟩
        · exact ih hnext hopen'

theorem careful_cliRun (valid : Bytes → Bool) (calls : List (List BodyRead)) :
    Careful F (accepted valid) (cliRun F valid calls) ∧
      ((cliRun F valid calls).closed = false → Exact F (accepted valid) (cliRun F valid calls)) := by
  refine List.foldlRecOn (motive := fun s : CapsuleStream =>
    Careful F (accepted valid) s ∧ (s.closed = false → Exact F (accepted valid) s)) calls _ ?_ ?_
  · have hstart : Exact F (accepted valid) {} := Exact.initial
    exact ⟨⟨hstart.independent.inOrder, hstart.independent.stopped⟩, fun _ => hstart⟩
  · rintro s ⟨hcareful, hexact⟩ reads -
    rw [cliConnectIpOnBody]
    split
    · exact ⟨hcareful, hexact⟩
    · rename_i hopen
      rw [Bool.not_eq_true] at hopen
      exact (hexact hopen).careful_onBody hopen reads

/-- In a run in which every chunk that is read finds room, the capsules that are handled are
    those of all the bytes, on both sides. The client never handles anything behind lost bytes,
    in any run. -/
theorem reassembled (F : Framing UInt8 Capsule) (valid : Bytes → Bool) (calls : List (List BodyRead)) :
    (Runs.Along (cliConnectIpOnBody F valid) (ReadsFit F (accepted valid) true) {} calls →
      Independent F (accepted valid) (cliRun F valid calls) ∧
        (cliRun F valid calls).handled = F.messages (accepted valid) (cliRun F valid calls).received) ∧
    (Runs.Along (svrConnectIpOnBody F) (ReadsFit F (fun _ => true) false) {} calls →
      Independent F (fun _ => true) (svrRun F calls) ∧
        (svrRun F calls).handled = F.messages (fun _ => true) (svrRun F calls).received) ∧
    Careful F (accepted valid) (cliRun F valid calls) := by
  refine ⟨fun hfit => ?_, fun hfit => ?_, (careful_cliRun valid calls).1⟩
  · have hrun : Exact F (accepted valid) (cliRun F valid calls) ∧ (cliRun F valid calls).closed = false := by
      refine Runs.foldl_of_along (J := fun s => Exact F (accepted valid) s ∧ s.closed = false) ?_ ⟨Exact.initial, rfl⟩ hfit
      rintro s reads ⟨hs, hopen⟩ hreads
      rw [cliConnectIpOnBody, if_neg (by rw [hopen]; exact Bool.false_ne_true)]
      obtain ⟨hnext, hsame⟩ := @Exact.onBody F _ s hs true true reads hreads
      exact ⟨hnext, hsame.trans hopen⟩
    exact ⟨hrun.1.independent, hrun.1.handled⟩
  · have hrun : Exact F (fun _ => true) (svrRun F calls) :=
      Runs.foldl_of_along (J := Exact F fun _ => true) (fun _ _ hs hreads => (hs.onBody hreads).1) Exact.initial hfit
    exact ⟨hrun.independent, hrun.handled⟩

/-- Two calls, with a capsule cut between them. -/
def cutCalls : List (List BodyRead) := [[⟨[0x3f, 2, 7], false, true⟩], [⟨[8, 0x3f], false, true⟩]]

theorem reassembled_sample :
    Independent capsules (fun _ => true) (svrRun capsules cutCalls) ∧
      (svrRun capsules cutCalls).handled = capsules.messages (fun _ => true) (svrRun capsules cutCalls).received :=
  (reassembled capsules (fun _ => true) cutCalls).2.1
    ⟨.inr ⟨⟨by decide, fun _ => rfl⟩, .inr fun _ _ => trivial⟩,
      .inr ⟨⟨by decide +kernel, fun _ => rfl⟩, .inr fun _ _ => trivial⟩, trivial⟩

/-! ## A chunk that is lost -/

/-- The header of a capsule with a payload of 61600 bytes. -/
def bigHeader : Bytes := [0x3f, 0x80, 0x00, 0xf0, 0xa0]

theorem decode_bigHeader (rest : Bytes) :
    capsules.decode (bigHeader ++ rest) =
      if rest.length < 61600 then none else some (⟨63, rest.take 61600⟩, 61605) := by
  have hdecode : decodeCapsule (bigHeader ++ rest) = _ :=
    @decodeCapsule_of _ 63 1 61600 4 rfl rfl
  rw [show capsules.decode (bigHeader ++ rest) = decodeCapsule (bigHeader ++ rest) from rfl, hdecode,
    List.length_append, show bigHeader.length = 5 from rfl, show (bigHeader ++ rest).drop (1 + 4) = rest from rfl]
  split
  · rw [if_pos (by omega)]
  · rw [if_neg (by omega)]

/-- One read that finds room. -/
theorem onBody_cons {atFin closes : Bool} {r : BodyRead} {reads : List BodyRead} (hne : r.chunk ≠ [])
    (hlen : r.chunk.length ≤ 4096) (hfits : s.Fits r.chunk r.alloc) (hmore : (atFin && r.fin) = false) :
    ∃ cap, onBody F accept atFin closes s (r :: reads) =
      onBody F accept atFin closes
        (process F accept
          { s with
            capsuleBuf := s.capsuleBuf ++ r.chunk
            capsuleCap := cap
            received := s.received ++ r.chunk }) reads := by
  obtain ⟨s', happend⟩ := append_of_fits (s := { s with received := s.received ++ r.chunk }) hfits
  obtain ⟨cap, rfl⟩ := append_spec hne happend
  refine ⟨cap, ?_⟩
  rw [onBody]
  dsimp only
  rw [List.take_of_length_le hlen, if_neg hne, happend]
  dsimp only
  rw [hmore, if_neg Bool.false_ne_true]

/-- The stream with the header and `n` bytes of the payload. -/
def waiting (n cap : Nat) : CapsuleStream where
  capsuleBuf := bigHeader ++ List.replicate n 0
  capsuleCap := cap
  received := bigHeader ++ List.replicate n 0

/-- A chunk of the payload. -/
def zerosRead (c : Nat) : BodyRead := ⟨List.replicate c 0, false, true⟩

theorem length_waiting (n cap : Nat) : (waiting n cap).capsuleBuf.length = 5 + n := by
  rw [waiting, List.length_append, List.length_replicate]
  rfl

theorem onBody_zerosRead {n c cap : Nat} (hpos : 0 < c) (hc : c ≤ 4096) (hn : n + c ≤ 61440) (reads : List BodyRead) :
    ∃ cap', onBody capsules (fun _ => true) false false (waiting n cap) (zerosRead c :: reads) =
      onBody capsules (fun _ => true) false false (waiting (n + c) cap') reads := by
  have hne : (zerosRead c).chunk ≠ [] := by
    rw [zerosRead, Ne, List.replicate_eq_nil_iff]
    exact Nat.ne_of_gt hpos
  have hlen : (zerosRead c).chunk.length = c := List.length_replicate
  have hfits : (waiting n cap).Fits (zerosRead c).chunk (zerosRead c).alloc := by
    refine ⟨?_, fun _ => rfl⟩
    rw [length_waiting, hlen, maxCapsuleBuf]
    omega
  have hnone : capsules.decode (bigHeader ++ List.replicate (n + c) 0) = none := by
    rw [decode_bigHeader, if_pos (by rw [List.length_replicate]; omega)]
  obtain ⟨cap', hcons⟩ := @onBody_cons capsules (fun _ => true) _ false false (zerosRead c) reads hne (hlen.symm ▸ hc)
    hfits (Bool.false_and _)
  refine ⟨cap', hcons.trans ?_⟩
  congr 1
  rw [process, waiting, waiting, zerosRead]
  dsimp only
  rw [List.append_assoc, ← List.replicate_add, Framing.messages, Framing.parse_of_none hnone]
  rfl

theorem onBody_zerosReads {c : Nat} (hpos : 0 < c) (hc : c ≤ 4096) (k : Nat) {n cap : Nat} (hn : n + c * k ≤ 61440)
    (reads : List BodyRead) :
    ∃ cap', onBody capsules (fun _ => true) false false (waiting n cap) (List.replicate k (zerosRead c) ++ reads) =
      onBody capsules (fun _ => true) false false (waiting (n + c * k) cap') reads := by
  induction k generalizing n cap with
  | zero => exact ⟨cap, rfl⟩
  | succ k ih =>
    rw [Nat.mul_succ] at hn
    obtain ⟨cap₁, hfirst⟩ := @onBody_zerosRead n c cap hpos hc (by omega) (List.replicate k (zerosRead c) ++ reads)
    obtain ⟨cap₂, hrest⟩ := @ih (n + c) cap₁ (by omega)
    refine ⟨cap₂, ?_⟩
    rw [List.replicate_succ, List.cons_append, hfirst, hrest, Nat.add_assoc, Nat.mul_succ, Nat.add_comm c]

theorem onBody_header (reads : List BodyRead) :
    ∃ cap, onBody capsules (fun _ => true) false false {} (⟨bigHeader, false, true⟩ :: reads) =
      onBody capsules (fun _ => true) false false (waiting 0 cap) reads := by
  obtain ⟨cap, hcons⟩ := @onBody_cons capsules (fun _ => true) {} false false ⟨bigHeader, false, true⟩ reads (by decide)
    (by decide) ⟨by decide, fun _ => rfl⟩ rfl
  have hnone : capsules.decode ([] ++ bigHeader) = none := rfl
  refine ⟨cap, hcons.trans ?_⟩
  congr 1
  rw [process]
  dsimp only
  rw [Framing.messages, Framing.parse_of_none hnone]
  rfl

theorem onBody_lost {n cap : Nat} {lost : Bytes} (hne : lost ≠ []) (hlost : lost.length ≤ 4096)
    (hover : maxCapsuleBuf < 5 + n + lost.length) :
    onBody capsules (fun _ => true) false false (waiting n cap) [⟨lost, false, true⟩] =
      { waiting n cap with received := (waiting n cap).received ++ lost, lost := some 0 } := by
  rw [onBody]
  dsimp only
  rw [List.take_of_length_le hlost, if_neg hne, append, if_neg hne]
  dsimp only
  rw [length_waiting, if_pos hover]
  rfl

/-- What the server makes of a chunk that finds no room, and of the next one, which does. -/
theorem handled_behind_lost {n cap : Nat} {lost last : Bytes} (hne : lost ≠ []) (hlost : lost.length ≤ 4096)
    (hover : maxCapsuleBuf < 5 + n + lost.length) (hne' : last ≠ []) (hlast : last.length ≤ 4096)
    (hall : n + last.length = 61600) :
    let s := onBody capsules (fun _ => true) false false
      (onBody capsules (fun _ => true) false false (waiting n cap) [⟨lost, false, true⟩]) [⟨last, false, true⟩]
    s.handled = [⟨63, List.replicate n 0 ++ last⟩] ∧ s.received = bigHeader ++ (List.replicate n 0 ++ (lost ++ last)) := by
  have hfits : Fits { waiting n cap with received := (waiting n cap).received ++ lost, lost := some 0 } last true := by
    refine ⟨?_, fun _ => rfl⟩
    rw [length_waiting, maxCapsuleBuf]
    omega
  obtain ⟨cap', hcons⟩ := @onBody_cons capsules (fun _ => true) _ false false ⟨last, false, true⟩ [] hne' hlast hfits rfl
  have hlength : (List.replicate n 0 ++ last).length = 61600 := by
    rw [List.length_append, List.length_replicate, hall]
  have hdecode : capsules.decode (bigHeader ++ (List.replicate n 0 ++ last)) =
      some (⟨63, List.replicate n 0 ++ last⟩, 61605) := by
    rw [decode_bigHeader, if_neg (by omega), List.take_of_length_le (Nat.le_of_eq hlength)]
  have hrest : (bigHeader ++ (List.replicate n 0 ++ last)).drop 61605 = [] :=
    List.drop_eq_nil_of_le (by rw [List.length_append, hlength]; decide)
  have hempty : capsules.decode [] = none := rfl
  intro s
  have hs : s = _ := (congrArg (fun t => onBody capsules (fun _ => true) false false t [⟨last, false, true⟩])
    (onBody_lost hne hlost hover)).trans hcons
  rw [hs, onBody, process, waiting]
  dsimp only
  rw [List.append_assoc, List.append_assoc, List.append_assoc, Framing.messages, Framing.parse_of_some hdecode rfl, hrest,
    Framing.parse_of_none hempty]
  exact ⟨rfl, rfl⟩

/-- A chunk with the last bytes of the payload, and the first ones of what follows. -/
def lostChunk : Bytes := List.replicate 160 0 ++ List.replicate 3936 1

/-- A capsule of 61605 bytes, with a chunk that does not fit behind the first 61445 of them. -/
def lossyCalls : List (List BodyRead) :=
  [⟨bigHeader, false, true⟩ :: (List.replicate 15 (zerosRead 4096) ++ [⟨lostChunk, false, true⟩]),
    [⟨List.replicate 160 1, false, true⟩]]

theorem length_lostChunk : lostChunk.length = 4096 := by
  rw [lostChunk, List.length_append, List.length_replicate, List.length_replicate]

theorem svrRun_lossyCalls :
    (svrRun capsules lossyCalls).handled = [⟨63, List.replicate (0 + 4096 * 15) 0 ++ List.replicate 160 1⟩] ∧
      (svrRun capsules lossyCalls).received =
        bigHeader ++ (List.replicate (0 + 4096 * 15) 0 ++ (lostChunk ++ List.replicate 160 1)) := by
  obtain ⟨cap₁, hheader⟩ := onBody_header (List.replicate 15 (zerosRead 4096) ++ [⟨lostChunk, false, true⟩])
  obtain ⟨cap₂, hzeros⟩ := @onBody_zerosReads 4096 (by decide) (by decide) 15 0 cap₁ (by decide)
    [⟨lostChunk, false, true⟩]
  have hcalls : svrRun capsules lossyCalls = onBody capsules (fun _ => true) false false
      (onBody capsules (fun _ => true) false false {}
        (⟨bigHeader, false, true⟩ :: (List.replicate 15 (zerosRead 4096) ++ [⟨lostChunk, false, true⟩])))
      [⟨List.replicate 160 1, false, true⟩] := by
    rw [svrRun, lossyCalls, List.foldl_cons, List.foldl_cons, List.foldl_nil, svrConnectIpOnBody, svrConnectIpOnBody]
  rw [hcalls, hheader, hzeros]
  refine handled_behind_lost ?_ ?_ ?_ ?_ ?_ ?_
  · exact List.ne_nil_of_length_eq_add_one length_lostChunk
  · rw [length_lostChunk]
  · rw [length_lostChunk, maxCapsuleBuf]
    decide
  · exact List.ne_nil_of_length_eq_add_one List.length_replicate
  · rw [List.length_replicate]
    decide
  · rw [List.length_replicate]

/-- The server hands on a capsule that was never sent. -/
theorem not_independent : ¬∀ calls, Independent capsules (fun _ => true) (svrRun capsules calls) := by
  intro h
  obtain ⟨hhandled, hreceived⟩ := svrRun_lossyCalls
  have hlossy := (h lossyCalls).inOrder
  have hdecode := decode_bigHeader (List.replicate (0 + 4096 * 15) 0 ++ (lostChunk ++ List.replicate 160 1))
  rw [if_neg (by rw [List.length_append, List.length_append, length_lostChunk, List.length_replicate]; omega)] at hdecode
  rw [hhandled, hreceived, Framing.messages, Framing.parse_of_some hdecode rfl, List.map_cons, List.cons_prefix_cons,
    Capsule.mk.injEq] at hlossy
  -- what was sent ends with zeros, and what is handed on with ones
  have hsent : (List.replicate (0 + 4096 * 15) 0 ++ (lostChunk ++ List.replicate 160 1)).take 61600 =
      List.replicate (0 + 4096 * 15) 0 ++ List.replicate 160 0 := by
    rw [List.take_append, List.length_replicate, List.take_of_length_le (by rw [List.length_replicate]; decide),
      lostChunk, List.append_assoc, List.take_left' (by rw [List.length_replicate])]
  have hones := List.append_cancel_left (hlossy.1.2.trans hsent)
  have hmem : (1 : UInt8) ∈ List.replicate 160 (0 : UInt8) := hones ▸ List.mem_replicate.2 ⟨by decide, rfl⟩
  exact absurd (List.eq_of_mem_replicate hmem) (by decide)

end CapsuleStream

end Mqvpn
