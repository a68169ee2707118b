import Mqvpn.Lib.Relay

/-!
# Streams

What the streams at both ends of a relay answer: the request of HTTP/3, and the connection or
the socket. The two ends of a request are joined by its stream: what one end reads is what the
other one has sent (`carry`).
-/

namespace Mqvpn.Hybrid

open Relay Direction

/-- An answer to a send: at most `n` of the bytes are taken, or nothing for now, or it fails. -/
inductive SendAnswer where
  | accept (n : Nat)
  | again
  | err

/-- An answer to a read of the body: some bytes, with or without a fin, or nothing for now, or
    it fails. -/
inductive RecvAnswer where
  | data (chunk : List UInt8) (fin : Bool)
  | again
  | err

/-- `xqc_h3_request_recv_body` into a buffer of `cap` bytes. Once the fin was reported, after
    the whole body, it is reported on every call. -/
def recvBody (cap : Nat) (fin : Bool) : RecvAnswer → RecvAnswer
  | .data chunk last => if fin then .data [] true else .data (chunk.take cap) last
  | .again => if fin then .data [] true else .again
  | .err => .err

/-! ## Bodies in flight -/

/-- A read of at most `cap` bytes of a body of which the stream has `buf` left, and then the fin
    if `fin`; what is left after it. Of the answer it is kept whether there is something to read,
    and how much. -/
def carry (cap : Nat) (fin : Bool) (buf : List UInt8) : RecvAnswer → RecvAnswer × List UInt8
  | .data chunk _ =>
    let n := min chunk.length cap
    if buf.take n = [] ∧ ¬(fin = true ∧ buf = []) then (.again, buf)
    else (.data (buf.take n) (fin && (buf.drop n).isEmpty), buf.drop n)
  | .again => (.again, buf)
  | .err => (.err, buf)

/-- The answers to the reads of a loop are those of the stream. -/
def feed {ρ : Type} (recv : ρ → RecvAnswer) (withRecv : ρ → RecvAnswer → ρ) (cap : Nat) (fin : Bool) :
    List UInt8 → List ρ → List ρ
  | _, [] => []
  | buf, a :: as =>
    withRecv a (carry cap fin buf (recv a)).1 :: feed recv withRecv cap fin (carry cap fin buf (recv a)).2 as

/-- What is read is the next part of the body, and the fin comes with the last one. -/
theorem carry_data {cap : Nat} {fin last : Bool} {buf chunk : List UInt8} {answer : RecvAnswer}
    (h : (carry cap fin buf answer).1 = .data chunk last) :
    chunk ++ (carry cap fin buf answer).2 = buf ∧ chunk.length ≤ cap ∧ (last = true → fin = true ∧ chunk = buf) := by
  cases answer with
  | again => cases h
  | err => cases h
  | data asked asLast =>
    rw [carry] at h ⊢
    by_cases hnone : buf.take (min asked.length cap) = [] ∧ ¬(fin = true ∧ buf = [])
    · rw [if_pos hnone] at h
      cases h
    · rw [if_neg hnone] at h ⊢
      cases h
      refine ⟨List.take_append_drop _ _, ?_, fun hlast => ?_⟩
      · rw [List.length_take]
        omega
      · obtain ⟨hfin, hrest⟩ := Bool.and_eq_true_iff.1 hlast
        have hall := List.take_append_drop (min asked.length cap) buf
        rw [List.isEmpty_iff.1 hrest, List.append_nil] at hall
        exact ⟨hfin, hall⟩

/-- What is not read is left. -/
theorem carry_again {cap : Nat} {fin : Bool} {buf : List UInt8} {answer : RecvAnswer}
    (h : (carry cap fin buf answer).1 = .again) : (carry cap fin buf answer).2 = buf := by
  cases answer with
  | again => rfl
  | err => cases h
  | data asked asLast =>
    rw [carry] at h ⊢
    by_cases hnone : buf.take (min asked.length cap) = [] ∧ ¬(fin = true ∧ buf = [])
    · rw [if_pos hnone]
    · rw [if_neg hnone] at h
      cases h

variable {d d' : Direction UInt8}

/-- What the stream between two ends has left. -/
def inFlight (d d' : Direction UInt8) : List UInt8 := d.sent.drop d'.input.length

/-- The direction after a read. -/
def readInto (d : Direction UInt8) (chunk : List UInt8) (fin : Bool) : Direction UInt8 :=
  if fin then (d.take chunk).sawEnd else d.take chunk

/-- A read of the body: `h3Fin` is whether the fin was reported before. -/
theorem carried_read (h : Carried d d') {h3Fin : Bool} (hfinal : d'.ended = h3Fin) {cap : Nat} {answer : RecvAnswer}
    {chunk : List UInt8} {fin : Bool}
    (hread : recvBody cap h3Fin (carry cap d.finished (inFlight d d') answer).1 = .data chunk fin) :
    Carried d (readInto d' chunk fin) ∧
      (carry cap d.finished (inFlight d d') answer).2 = inFlight d (readInto d' chunk fin) ∧
      (readInto d' chunk fin).ended = (h3Fin || fin) := by
  have hinput : (readInto d' chunk fin).input = d'.input ++ chunk := by
    rw [readInto]
    split_ifs
    · rfl
    · rfl
  have hended : (readInto d' chunk fin).ended = (h3Fin || fin) := by
    rw [readInto]
    split_ifs with hfin
    · rw [hfin, Bool.or_true]
      rfl
    · rw [Bool.eq_false_iff.2 hfin, Bool.or_false]
      exact hfinal
  -- the chunk is the next part of what is in flight, and the fin comes behind all of it
  have hnext {rest : List UInt8} (hsplit : chunk ++ rest = inFlight d d')
      (hlast : fin = true → d.finished = true ∧ chunk = inFlight d d') :
      Carried d (readInto d' chunk fin) ∧ rest = inFlight d (readInto d' chunk fin) := by
    refine ⟨?_, ?_⟩
    · have htake : Carried d (d'.take chunk) := h.take ⟨rest, hsplit⟩
      rw [readInto]
      split_ifs with hfin
      · obtain ⟨hdone, hall⟩ := hlast hfin
        refine htake.sawEnd hdone ?_
        rw [Direction.take, hall]
        exact List.prefix_iff_eq_append.1 h.input
      · exact htake
    · rw [inFlight, hinput, List.length_append, ← List.drop_drop, ← inFlight, ← hsplit, List.drop_left]
  have hempty (hfin : h3Fin = true) : d.finished = true ∧ inFlight d d' = [] := by
    obtain ⟨hdone, hall⟩ := h.ended (hfinal.trans hfin)
    exact ⟨hdone, by rw [inFlight, ← hall, List.drop_length]⟩
  have hkey : chunk ++ (carry cap d.finished (inFlight d d') answer).2 = inFlight d d' ∧
      (fin = true → d.finished = true ∧ chunk = inFlight d d') := by
    cases hc : (carry cap d.finished (inFlight d d') answer).1 with
    | err =>
      rw [hc] at hread
      cases hread
    | again =>
      -- the fin is reported again
      rw [hc, recvBody] at hread
      split_ifs at hread with hfin
      cases hread
      obtain ⟨hdone, hnone⟩ := hempty hfin
      exact ⟨carry_again hc, fun _ => ⟨hdone, hnone.symm⟩⟩
    | data c last =>
      obtain ⟨hsplit, hle, hlast⟩ := carry_data hc
      rw [hc, recvBody] at hread
      split_ifs at hread with hfin
      · cases hread
        obtain ⟨hdone, hnone⟩ := hempty hfin
        have hrest := (List.append_eq_nil_iff.1 (hsplit.trans hnone)).2
        exact ⟨hrest.trans hnone.symm, fun _ => ⟨hdone, hnone.symm⟩⟩
      · cases hread
        rw [List.take_of_length_le hle]
        exact ⟨hsplit, hlast⟩
  obtain ⟨hcarried, hrest⟩ := hnext hkey.1 hkey.2
  exact ⟨hcarried, hrest, hended⟩

end Mqvpn.Hybrid
