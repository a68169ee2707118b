import Mqvpn.Hybrid.Tunnelled

/-!
# A tunnelled connection catches up

However a tunnelled connection came to stand, with windows withheld, directions paused and
stashes full on either side: as long as no end has failed, a few notifications that each end
waits for anyway bring through all that went in, in both directions, and the ends behind it
(`tunnelled_settles`). No flag waits for something that will not come.
-/

namespace Mqvpn.Hybrid

open Relay Direction

/-! ## The client's uplink -/

/-- A request that takes what it is offered, for `n` calls. No delivery is longer than a chain
    can be. -/
def takesAll (n : Nat) : List SendAnswer := List.replicate n (.accept 65535)

theorem takesAll_succ (n : Nat) : takesAll (n + 1) = .accept 65535 :: takesAll n := List.replicate_succ

/-- A delivery of which nothing is refused is sent to its end, with at most one call for each
    byte. -/
theorem uplinkSendFrom_takesAll {p : Pbuf} {offset n : Nat} (hoffset : offset ≤ p.totLen) (hn : p.totLen - offset ≤ n) :
    ∃ m, n ≤ m + (p.totLen - offset) ∧ (uplinkSendFrom p offset (takesAll n)).offset = some p.totLen ∧
      (uplinkSendFrom p offset (takesAll n)).answers = takesAll m := by
  induction n generalizing offset with
  | zero =>
    have hall : offset = p.totLen := by omega
    subst hall
    exact ⟨0, Nat.zero_le _, rfl, rfl⟩
  | succ n ih =>
    rw [takesAll_succ, uplinkSendFrom]
    split_ifs with hdone
    · have hall : offset = p.totLen := Nat.le_antisymm hoffset hdone
      subst hall
      exact ⟨n + 1, Nat.le_add_right _ _, rfl, (takesAll_succ n).symm⟩
    · -- a call takes all that is offered, which is not empty, so the offset does not wrap
      obtain ⟨hne, rest, hrest⟩ := p.offered_spec (Nat.lt_of_not_le hdone)
      have hpos : 0 < (p.offered offset).length := List.length_pos_iff.2 hne
      have hlen : offset + (p.offered offset).length ≤ p.totLen := by
        have hle := congrArg List.length hrest
        rw [List.length_append, List.length_drop, ← Pbuf.totLen] at hle
        omega
      have htot := p.totLen_lt
      have hall : min 65535 (p.offered offset).length = (p.offered offset).length := by omega
      have hmod : (offset + (p.offered offset).length) % 2 ^ 16 = offset + (p.offered offset).length :=
        Nat.mod_eq_of_lt (by omega)
      obtain ⟨m, hm, hoff, hanswers⟩ := ih hlen (by omega)
      dsimp only
      rw [if_neg hne, hall, if_neg (Nat.lt_irrefl _), hmod]
      exact ⟨m, by omega, hoff, hanswers⟩

/-- The whole queue is sent. -/
theorem uplinkDrain_takesAll (f : Flow) {q : List UplinkNode} (hoffset : ∀ n ∈ q, n.offset < n.p.totLen) {n : Nat}
    (hn : queueTotal q ≤ n) :
    ∃ m f', n ≤ m + queueTotal q ∧ uplinkDrain f q (takesAll n) = (f', some (takesAll m)) ∧ f'.uplinkQ = [] := by
  induction q generalizing f n with
  | nil => exact ⟨n, _, Nat.le_add_right _ _, rfl, rfl⟩
  | cons node q ih =>
    have hnode := hoffset node List.mem_cons_self
    rw [queueTotal_cons] at hn ⊢
    obtain ⟨k, hk, hoff, hanswers⟩ := uplinkSendFrom_takesAll (n := n) (Nat.le_of_lt hnode) (by omega)
    rw [uplinkDrain]
    dsimp only
    rw [hoff, hanswers]
    dsimp only
    rw [if_neg (Nat.lt_irrefl _)]
    obtain ⟨m, f', hm, hdrain, hempty⟩ := ih _ (fun m hm => hoffset m (List.mem_cons_of_mem _ hm))
      (Nat.le_of_add_le_add_left (by omega : (node.p.totLen - node.offset) + queueTotal q ≤
        (node.p.totLen - node.offset) + k))
    exact ⟨m, f', by omega, hdrain, hempty⟩

/-- The FIN follows an empty queue, if it was seen. -/
theorem UplinkInv.maybeFin_takesAll {f : Flow} (h : UplinkInv f) (hactive : f.state = .active)
    (hrequest : f.h3Request ≠ none) (hempty : f.uplinkQ = []) (n : Nat) :
    (uplinkMaybeFin f (takesAll (n + 1))).2 ≠ .relayError ∧
      (uplinkMaybeFin f (takesAll (n + 1))).1.uplink.Flushed ∧
      (uplinkMaybeFin f (takesAll (n + 1))).1.uplink.input = f.uplink.input ∧
      (uplinkMaybeFin f (takesAll (n + 1))).1.uplink.ended = f.uplink.ended := by
  have hsound := h.sound
  have hunsent : unsent f.uplinkQ = [] := by rw [hempty]; rfl
  rw [hunsent] at hsound
  rw [takesAll_succ, uplinkMaybeFin]
  split_ifs with hwaits
  · refine ⟨Outcome.noConfusion, ?_, rfl, rfl⟩
    simp only [hactive, hrequest, hempty, ne_eq, not_true_eq_false, List.isEmpty_nil, Bool.not_true, Bool.false_eq_true,
      or_false, false_or, Bool.not_eq_true'] at hwaits
    rcases hwaits with hopen | hsent
    · refine .inr ⟨h.ended.trans hopen, ?_⟩
      rw [← hsound.conserves, List.append_nil]
    · exact .inl (hsound.finished_eq.trans hsent)
  · dsimp only
    split_ifs
    · exact ⟨Outcome.noConfusion, .inl (finished_close _), rfl, rfl⟩
    · exact ⟨Outcome.noConfusion, .inl (finished_close _), rfl, rfl⟩

/-- What an uplink has to give it has given. -/
theorem UplinkInv.flush_takesAll {f : Flow} (h : UplinkInv f) (hactive : f.state = .active) (hrequest : f.h3Request ≠ none)
    {n : Nat} (hn : queueTotal f.uplinkQ < n) :
    (uplinkFlush f (takesAll n)).2 ≠ .relayError ∧ (uplinkFlush f (takesAll n)).1.uplink.Flushed ∧
      (uplinkFlush f (takesAll n)).1.uplink.input = f.uplink.input ∧
      (uplinkFlush f (takesAll n)).1.uplink.ended = f.uplink.ended := by
  obtain ⟨m, f', hm, hdrain, hempty⟩ := uplinkDrain_takesAll f h.offset_lt (Nat.le_of_lt hn)
  obtain ⟨q, k, u, honly⟩ := uplinkDrain_only f f.uplinkQ (takesAll n)
  obtain ⟨-, -, hinput, hended⟩ := uplinkDrain_spec hdrain h.sound h.offset_lt h.queued
  rw [hdrain] at honly
  dsimp only at honly
  -- a call is left for the FIN
  obtain ⟨m, rfl⟩ : ∃ k, m = k + 1 := ⟨m - 1, by omega⟩
  have hfin := (h.drain hdrain).maybeFin_takesAll (by rw [honly]; exact hactive) (by rw [honly]; exact hrequest) hempty m
  rw [hinput, hended] at hfin
  rw [uplinkFlush, if_neg (by simp [hactive, hrequest]), hdrain]
  dsimp only
  split_ifs
  · exact hfin
  · rw [uplink_uplinkResume]
    exact ⟨Outcome.noConfusion, hfin.2⟩

/-! ## Reading on -/

variable {d d' : Direction UInt8}

/-- A read that asks for as much as fits. -/
def fullRead (cap : Nat) : RecvAnswer := .data (List.replicate cap 0) false

/-- A read that asks for as much as fits ends the drain, or brings something. -/
theorem fullRead_cases (h : Carried d d') {h3Fin : Bool} (hfinal : d'.ended = h3Fin) (cap : Nat) (hcap : 0 < cap) :
    inFlight d d' = [] ∧ d.finished = false ∧
        recvBody cap h3Fin (carry cap d.finished (inFlight d d') (fullRead cap)).1 = .again ∨
      ∃ chunk fin, recvBody cap h3Fin (carry cap d.finished (inFlight d d') (fullRead cap)).1 = .data chunk fin ∧
        chunk.length ≤ cap ∧ (chunk = [] → fin = true) := by
  rw [fullRead, carry, List.length_replicate, Nat.min_self]
  split_ifs with hnone
  · obtain ⟨htake, hopen⟩ := hnone
    have hempty : inFlight d d' = [] := (List.take_eq_nil_iff.1 htake).resolve_left (Nat.ne_of_gt hcap)
    have hunfinished : d.finished = false := Bool.eq_false_iff.2 fun hfin => hopen ⟨hfin, hempty⟩
    refine .inl ⟨hempty, hunfinished, ?_⟩
    rw [recvBody, if_neg]
    intro hfin
    exact absurd (hunfinished.symm.trans (h.ended (hfinal.trans hfin)).1) Bool.false_ne_true
  · rw [recvBody]
    split_ifs
    · exact .inr ⟨_, _, rfl, Nat.zero_le _, fun _ => rfl⟩
    · refine .inr ⟨_, _, rfl, List.length_take_le _ _, fun hnil => ?_⟩
      rw [List.take_take, Nat.min_self] at hnil
      obtain ⟨hfin, hempty⟩ := Classical.not_not.1 fun hopen => hnone ⟨hnil, hopen⟩
      rw [hfin, hempty, List.drop_nil]
      rfl

theorem input_readInto (d : Direction UInt8) (chunk : List UInt8) (fin : Bool) :
    (readInto d chunk fin).input = d.input ++ chunk := by
  rw [readInto]
  split <;> rfl

/-- A read that brings something leaves less in flight. -/
theorem length_inFlight_readInto {chunk : List UInt8} {fin : Bool}
    (hread : Carried d (readInto d' chunk fin)) (hchunk : chunk ≠ []) :
    (inFlight d (readInto d' chunk fin)).length < (inFlight d d').length := by
  have hpos : 0 < chunk.length := List.length_pos_iff.2 hchunk
  have hle := hread.input.length_le
  rw [input_readInto, List.length_append] at hle
  rw [inFlight, inFlight, List.length_drop, List.length_drop, input_readInto, List.length_append]
  omega

/-- A fin comes behind all that is in flight. -/
theorem inFlight_of_ended (h : Carried d d') (hended : d'.ended = true) : inFlight d d' = [] := by
  rw [inFlight, (h.ended hended).2, List.drop_length]

/-- What has read everything, and passed it on, has let everything through. -/
theorem arrived_of_inFlight (h : Carried d d') {closed : Bool} (hsound : d'.Sound [] closed) (hall : inFlight d d' = [])
    (hclosed : d.finished = true → closed = true) :
    d'.output = d.sent ∧ (d.finished = true → d'.finished = true) := by
  have hinput : d'.input ++ inFlight d d' = d.sent := List.prefix_iff_eq_append.1 h.input
  rw [hall, List.append_nil] at hinput
  refine ⟨?_, fun hfin => hsound.finished_eq.trans (hclosed hfin)⟩
  rw [← hinput, ← hsound.conserves, List.append_nil]

/-! ## The client's downlink -/

/-- A connection that takes what it is written, for `n` reads. -/
def readsFull (n : Nat) : List ReadAnswers := List.replicate n ⟨fullRead tcpMss, tcpMss, .ok, true⟩

theorem readsFull_succ (n : Nat) : readsFull (n + 1) = ⟨fullRead tcpMss, tcpMss, .ok, true⟩ :: readsFull n :=
  List.replicate_succ

/-- The client has read everything, and has shut down the connection behind it. -/
structure ReadOut (d : Direction UInt8) (f : Flow) : Prop where
  paused : f.downlinkPaused = false
  read : inFlight d f.downlink = []
  fin : d.finished = true → f.finReceivedFromH3 = true

theorem downlinkMaybeShutdown_true (f : Flow) :
    (downlinkMaybeShutdown f true).2 ≠ .relayError ∧ (downlinkMaybeShutdown f true).1.finReceivedFromH3 = true ∧
      (downlinkMaybeShutdown f true).1.downlinkPaused = f.downlinkPaused ∧
      (downlinkMaybeShutdown f true).1.downlink.input = f.downlink.input := by
  rw [downlinkMaybeShutdown]
  by_cases hseen : f.finReceivedFromH3 = true
  · rw [if_pos hseen]
    exact ⟨Outcome.noConfusion, hseen, rfl, rfl⟩
  · rw [if_neg hseen]
    by_cases hsent : f.finSentToH3 = true
    · simp [hsent, Direction.close]
    · simp [hsent, Direction.close]

/-- The shutdown behind the last read. -/
theorem readOut_maybeShutdown {f : Flow} (hpaused : f.downlinkPaused = false) (hread : inFlight d f.downlink = []) :
    (downlinkMaybeShutdown f true).2 ≠ .relayError ∧ ReadOut d (downlinkMaybeShutdown f true).1 := by
  obtain ⟨hok, hseen, hkept, hinput⟩ := downlinkMaybeShutdown_true f
  refine ⟨hok, hkept.trans hpaused, ?_, fun _ => hseen⟩
  rw [inFlight, hinput]
  exact hread

/-- The drain reads to the end of what is in flight. -/
theorem downlinkDrain_readsFull {f : Flow} (hended : f.downlink.ended = f.h3Fin) (hpaused : f.downlinkPaused = false)
    (hcarried : Carried d f.downlink) {n : Nat} (hn : (inFlight d f.downlink).length < n) :
    (downlinkDrain true f (feed ReadAnswers.recv (fun r recv => { r with recv }) tcpMss d.finished
        (inFlight d f.downlink) (readsFull n))).2 ≠ .relayError ∧
      ReadOut d (downlinkDrain true f (feed ReadAnswers.recv (fun r recv => { r with recv }) tcpMss d.finished
        (inFlight d f.downlink) (readsFull n))).1 := by
  induction n generalizing f with
  | zero => exact absurd hn (Nat.not_lt_zero _)
  | succ n ih =>
    rw [readsFull_succ, feed, downlinkDrain]
    dsimp only
    rw [h3Recv]
    rcases fullRead_cases hcarried hended tcpMss (by decide) with ⟨hempty, hopen, hagain⟩ | ⟨chunk, fin, hread, hle, hnil⟩
    · rw [hagain]
      exact ⟨Outcome.noConfusion, hpaused, hempty, fun hfin => absurd (hopen.symm.trans hfin) Bool.false_ne_true⟩
    · obtain ⟨hnext, hrest, hlast⟩ := carried_read hcarried hended hread
      rw [hread]
      dsimp only
      cases fin with
      | true =>
        have hall := inFlight_of_ended hnext (hlast.trans (Bool.or_true _))
        rw [if_neg (by simp)]
        by_cases hchunk : chunk = []
        · rw [if_pos hchunk]
          exact readOut_maybeShutdown hpaused hall
        · rw [if_neg hchunk, if_neg (Nat.not_lt.2 hle), if_pos rfl]
          exact readOut_maybeShutdown hpaused hall
      | false =>
        have hchunk : chunk ≠ [] := fun h => Bool.noConfusion (hnil h)
        rw [if_neg (fun h => hchunk h.1), if_neg hchunk, if_neg (Nat.not_lt.2 hle), if_neg Bool.false_ne_true, hrest]
        -- less is in flight, so the reads that are left are enough
        have hless := length_inFlight_readInto hnext hchunk
        exact ih (f := { afterRead f chunk false with downlink := (afterRead f chunk false).downlink.pass chunk }) hlast hpaused
          (Carried.pass hnext chunk) (Nat.lt_of_lt_of_le hless (Nat.le_of_lt_succ hn))

/-- A flow with an open downlink reads to the end of what is in flight. -/
theorem downlinkResume_readsFull {f : Flow} (hended : f.downlink.ended = f.h3Fin) (hpaused : f.downlinkPaused = false)
    (hcarried : Carried d f.downlink) (hactive : f.state = .active) (hrequest : f.h3Request ≠ none) (hpcb : f.pcb ≠ none)
    {n : Nat} (hn : (inFlight d f.downlink).length < n) {a : DownlinkAnswers} (hshutdown : a.shutdown = true)
    (hreads : a.reads = readsFull n) :
    (downlinkResume f (a.fed d f)).2 ≠ .relayError ∧ ReadOut d (downlinkResume f (a.fed d f)).1 := by
  rw [downlinkResume, if_neg (by simp [hactive, hrequest, hpcb]), DownlinkAnswers.fed]
  dsimp only
  rw [hshutdown, hreads]
  exact downlinkDrain_readsFull hended hpaused hcarried hn

/-- One notification of the body is enough, also for a flow that is paused. -/
theorem DownlinkInv.pump_readsFull {f : Flow} (h : DownlinkInv f) (hcarried : Carried d f.downlink)
    (hactive : f.state = .active) (hrequest : f.h3Request ≠ none) (hpcb : f.pcb ≠ none) {n m : Nat}
    (hn : (inFlight d f.downlink).length < n) (hm : f.downlinkStash.length ≤ m) :
    (downlinkPump f (DownlinkAnswers.fed d f ⟨m, .ok, readsFull n, true⟩)).2 ≠ .relayError ∧
      ReadOut d (downlinkPump f (DownlinkAnswers.fed d f ⟨m, .ok, readsFull n, true⟩)).1 := by
  rw [downlinkPump, if_neg (by rw [hactive]; exact FlowState.noConfusion)]
  by_cases hpaused : f.downlinkPaused = true
  · have hflushed : downlinkStashRetry f (DownlinkAnswers.fed d f ⟨m, .ok, readsFull n, true⟩) =
        ({ f with downlink := f.downlink.pass f.downlinkStash, downlinkStash := [], downlinkPaused := false }, .live) := by
      rw [downlinkStashRetry]
      exact if_neg (Nat.not_lt.2 hm)
    rw [if_pos hpaused, hflushed]
    exact downlinkResume_readsFull
      (f := { f with downlink := f.downlink.pass f.downlinkStash, downlinkStash := [], downlinkPaused := false })
      h.ended rfl (Carried.pass hcarried _) hactive hrequest hpcb hn rfl rfl
  · rw [if_neg hpaused]
    exact downlinkResume_readsFull h.ended (Bool.eq_false_iff.2 hpaused) hcarried hactive hrequest hpcb hn rfl rfl

/-! ## The server's downlink -/

namespace EgressFlow

variable {f : EgressFlow}

/-- A socket that takes what it is sent, for `n` reads. -/
def roundsFull (n : Nat) : List Round := List.replicate n ⟨fullRead egressChunk, [.accept egressChunk], true⟩

theorem roundsFull_succ (n : Nat) :
    roundsFull (n + 1) = ⟨fullRead egressChunk, [.accept egressChunk], true⟩ :: roundsFull n := List.replicate_succ

theorem sendLoop_accept {buf : List UInt8} {n : Nat} (hpos : 0 < n) (hle : buf.length ≤ n) :
    sendLoop buf [.accept n] = (buf, [], .done) := by
  cases buf with
  | nil => rfl
  | cons b buf =>
    rw [sendLoop, if_neg (Nat.ne_of_gt hpos), List.drop_of_length_le hle, List.take_of_length_le hle, sendLoop]
    · simp
    · exact List.cons_ne_nil b buf

theorem sendBodyLoop_accept {buf : List UInt8} {n : Nat} (hle : buf.length ≤ n) :
    sendBodyLoop buf [.accept n] = (buf, [], .done) := by
  cases buf with
  | nil => rfl
  | cons b buf =>
    rw [sendBodyLoop, List.drop_of_length_le hle, List.take_of_length_le hle, sendBodyLoop]
    · simp
    · exact List.cons_ne_nil b buf

/-- The server has read everything, and has shut down the socket behind it. -/
structure ReadOut (d : Direction UInt8) (f : EgressFlow) : Prop where
  paused : f.downlinkPaused = false
  read : inFlight d f.downlink = []
  fin : d.finished = true → f.downlinkShutdownDone = true

theorem ReadOut.stampIf (h : f.ReadOut d) (moved : Bool) (now : Nat) : (f.stampIf moved now).ReadOut d := by
  rw [EgressFlow.stampIf]
  split
  · exact ⟨h.paused, h.read, h.fin⟩
  · exact h

theorem readOut_gotFin (hpaused : f.downlinkPaused = false) (hread : inFlight d f.downlink = []) : f.gotFin.ReadOut d := by
  rw [gotFin, maybeShutdownDownlink]
  split_ifs with hdone
  · refine ⟨hpaused, hread, fun _ => ?_⟩
    simpa [hpaused] using hdone
  · exact ⟨hpaused, hread, fun _ => rfl⟩

/-- The drain reads to the end of what is in flight. -/
theorem drainLoop_roundsFull (hended : f.downlink.ended = f.h3Fin) (hpaused : f.downlinkPaused = false)
    (hcarried : Carried d f.downlink) {n : Nat} (hn : (inFlight d f.downlink).length < n) (now : Nat) (moved : Bool) :
    (drainLoop now f moved (fedRounds d f (roundsFull n))).2 = true ∧
      (drainLoop now f moved (fedRounds d f (roundsFull n))).1.ReadOut d := by
  rw [fedRounds]
  induction n generalizing f moved with
  | zero => exact absurd hn (Nat.not_lt_zero _)
  | succ n ih =>
    rw [roundsFull_succ, feed, drainLoop]
    dsimp only
    rcases fullRead_cases hcarried hended egressChunk (by decide) with ⟨hempty, hopen, hagain⟩ | ⟨chunk, fin, hread, hle, hnil⟩
    · rw [hagain]
      have hout : f.ReadOut d := ⟨hpaused, hempty, fun hfin => absurd (hopen.symm.trans hfin) Bool.false_ne_true⟩
      exact ⟨rfl, hout.stampIf moved now⟩
    · obtain ⟨hnext, hrest, hlast⟩ := carried_read hcarried hended hread
      rw [hread]
      dsimp only
      rw [sendLoop_accept (by decide) hle]
      dsimp only
      cases fin with
      | true =>
        have hall := inFlight_of_ended hnext (hlast.trans (Bool.or_true _))
        rw [if_pos rfl]
        have hout := readOut_gotFin
          (f := { f.afterRecv chunk true with downlink := (f.afterRecv chunk true).downlink.pass chunk }) hpaused hall
        exact ⟨rfl, hout.stampIf _ now⟩
      | false =>
        have hchunk : chunk ≠ [] := fun h => Bool.noConfusion (hnil h)
        rw [if_neg Bool.false_ne_true, if_neg hchunk, hrest]
        -- less is in flight, so the rounds that are left are enough
        have hless := length_inFlight_readInto hnext hchunk
        exact ih (f := { f.afterRecv chunk false with downlink := (f.afterRecv chunk false).downlink.pass chunk }) hlast hpaused
          (Carried.pass hnext chunk) (Nat.lt_of_lt_of_le hless (Nat.le_of_lt_succ hn)) _

/-- What the functions of the downlink leave alone. -/
def uplinkSide (f : EgressFlow) : EgressState × Direction UInt8 := (f.state, f.uplink)

@[simp] theorem uplinkSide_updateFdInterest (f : EgressFlow) : f.updateFdInterest.uplinkSide = f.uplinkSide := by
  rw [updateFdInterest]
  split <;> rfl

@[simp] theorem uplinkSide_stampIf (f : EgressFlow) (moved : Bool) (now : Nat) :
    (f.stampIf moved now).uplinkSide = f.uplinkSide := by
  rw [stampIf]
  split <;> rfl

@[simp] theorem uplinkSide_maybeShutdownDownlink (f : EgressFlow) : f.maybeShutdownDownlink.uplinkSide = f.uplinkSide := by
  rw [maybeShutdownDownlink]
  split <;> rfl

theorem uplinkSide_drainLoop (now : Nat) (f : EgressFlow) (moved : Bool) (rounds : List Round) :
    (drainLoop now f moved rounds).1.uplinkSide = f.uplinkSide := by
  induction rounds generalizing f moved with
  | nil =>
    rw [drainLoop, uplinkSide_stampIf]
    split
    · exact uplinkSide_maybeShutdownDownlink _
    · rfl
  | cons a as ih =>
    rw [drainLoop]
    split
    · exact uplinkSide_stampIf f moved now
    · rfl
    · rename_i chunk fin _
      -- what the read and the send change
      have hsent (sent : List UInt8) :
          uplinkSide { f.afterRecv chunk fin with downlink := (f.afterRecv chunk fin).downlink.pass sent } = f.uplinkSide := rfl
      dsimp only
      split
      · rfl
      · split
        · rfl
        · rw [uplinkSide_stampIf, uplinkSide_updateFdInterest]
          rfl
      · split
        · rw [uplinkSide_stampIf]
          exact uplinkSide_maybeShutdownDownlink _
        · split
          · exact uplinkSide_stampIf _ _ now
          · exact (ih _ _).trans (hsent _)

theorem uplinkSide_drainBody (f : EgressFlow) (now : Nat) (rounds : List Round) :
    (f.drainBody now rounds).1.uplinkSide = f.uplinkSide := by
  rw [drainBody]
  split
  · rfl
  · exact uplinkSide_drainLoop now f false rounds

/-! ### Notifications -/

/-- The body of an open downlink. -/
theorem drainBody_roundsFull (hended : f.downlink.ended = f.h3Fin) (hcarried : Carried d f.downlink) {n : Nat}
    (hn : (inFlight d f.downlink).length < n) (now : Nat) :
    (f.drainBody now (fedRounds d f (roundsFull n))).2 = true ∧
      (f.downlinkPaused = false → (f.drainBody now (fedRounds d f (roundsFull n))).1.ReadOut d) := by
  rw [drainBody]
  split_ifs with hpaused
  · exact ⟨rfl, fun hopen => absurd (hpaused.symm.trans hopen) Bool.noConfusion⟩
  · have hdrain := drainLoop_roundsFull hended (Bool.eq_false_iff.2 hpaused) hcarried hn now false
    exact ⟨hdrain.1, fun _ => hdrain.2⟩

/-- The socket is ready, and takes `m` bytes and what the body has. -/
def readyFull (n m : Nat) : ReadyAnswers := ⟨[.accept m], roundsFull n, [], .again⟩

/-- A socket that becomes writable connects the flow. -/
theorem ready_connects (h : f.Inv) (hcarried : Carried d f.downlink) (hconnecting : f.state = .connecting) {n : Nat}
    (hn : (inFlight d f.downlink).length < n) (m now : Nat) :
    (f.step ((Step.ready false true false now (readyFull n m)).fed d f)).2 = .alive ∧
      (f.step ((Step.ready false true false now (readyFull n m)).fed d f)).1.uplinkSide = (.active, f.uplink) := by
  have hinput : ({ f with state := .active, lastActivityUs := now } : EgressFlow).updateFdInterest.downlink = f.downlink :=
    downlink_updateFdInterest _
  have hfed : fedRounds d f (roundsFull n) =
      fedRounds d ({ f with state := .active, lastActivityUs := now } : EgressFlow).updateFdInterest (roundsFull n) :=
    (fedRounds_congr (congrArg Direction.input hinput) _).symm
  have hdrain := drainBody_roundsFull (d := d)
    (f := ({ f with state := .active, lastActivityUs := now } : EgressFlow).updateFdInterest) (n := n)
    (by rw [hinput, h3Fin_updateFdInterest]; exact h.downlinkEnded) (by rw [hinput]; exact hcarried)
    (by rw [hinput]; exact hn) now
  rw [Step.fed, step, fdReady, if_pos ⟨hconnecting, rfl⟩, if_neg Bool.false_ne_true, onConnected, readyFull]
  dsimp only
  rw [hfed]
  refine ⟨by rw [outcome, if_pos hdrain.1], ?_⟩
  rw [outcome, uplinkSide_drainBody, uplinkSide_updateFdInterest]
  rfl

/-- The retry of the stash, and the drain behind it. -/
theorem flushDownlinkRetry_roundsFull (h : f.Inv) (hcarried : Carried d f.downlink) (hstash : f.downlinkStash ≠ []) {n m : Nat}
    (hn : (inFlight d f.downlink).length < n) (hpos : 0 < m) (hm : f.downlinkStash.length ≤ m) (now : Nat) :
    (f.flushDownlinkRetry now [.accept m] (fedRounds d f (roundsFull n))).2 = true ∧
      (f.flushDownlinkRetry now [.accept m] (fedRounds d f (roundsFull n))).1.downlinkPaused = false ∧
      (f.flushDownlinkRetry now [.accept m] (fedRounds d f (roundsFull n))).1.uplinkSide = f.uplinkSide := by
  have hpass : (f.downlink.pass f.downlinkStash).Sound [] f.downlinkShutdownDone :=
    Direction.Sound.pass (by rw [List.append_nil]; exact h.downlink)
  have hflushed : Inv
      { f with
        downlink := f.downlink.pass f.downlinkStash
        lastActivityUs := now
        downlinkStash := []
        downlinkPaused := false } :=
    ⟨hpass, h.downlinkEnded, fun _ => rfl, h.fin, h.uplink, h.uplinkEnded, h.uplinkStash⟩
  have hshut := (hflushed.joined_maybeShutdownDownlink (Carried.pass hcarried _)).congr (downlink_updateFdInterest _)
    (uplink_updateFdInterest _)
  have hready := hflushed.maybeShutdownDownlink.updateFdInterest
  have hinput := (input_updateFdInterest (f := ({ f with
      downlink := f.downlink.pass f.downlinkStash
      lastActivityUs := now
      downlinkStash := []
      downlinkPaused := false } : EgressFlow).maybeShutdownDownlink)).trans input_maybeShutdownDownlink
  rw [flushDownlinkRetry, sendLoop_accept hpos hm]
  dsimp only
  rw [if_neg hstash, ← fedRounds_congr (f := f) hinput]
  obtain ⟨halive, hread⟩ := drainBody_roundsFull (n := n) hready.downlinkEnded hshut.carried
    (by rw [inFlight, hinput]; exact hn) now
  refine ⟨halive, (hread ?_).paused, ?_⟩
  · simp
  · rw [uplinkSide_drainBody, uplinkSide_updateFdInterest, uplinkSide_maybeShutdownDownlink]
    rfl

/-- A socket that becomes writable takes what was kept for it. -/
theorem ready_flushes (h : f.Inv) (hwatched : f.Watched) (hcarried : Carried d f.downlink) (hactive : f.state = .active)
    {n m : Nat} (hn : (inFlight d f.downlink).length < n) (hpos : 0 < m) (hm : f.downlinkStash.length ≤ m) (now : Nat) :
    (f.step ((Step.ready false true false now (readyFull n m)).fed d f)).2 = .alive ∧
      (f.step ((Step.ready false true false now (readyFull n m)).fed d f)).1.uplinkSide = (.active, f.uplink) ∧
      (f.step ((Step.ready false true false now (readyFull n m)).fed d f)).1.downlinkPaused = false := by
  have hconnected : ¬(f.state = .connecting ∧ true = true) := by simp [hactive]
  have hside : f.uplinkSide = (.active, f.uplink) := by rw [uplinkSide, hactive]
  rw [Step.fed, step, fdReady, if_neg hconnected, onRelayReady, onWriteReady, readyFull]
  dsimp only
  by_cases hpaused : f.downlinkPaused = true
  · -- a paused downlink has something in its stash
    obtain ⟨halive, hopen, hkept⟩ :=
      flushDownlinkRetry_roundsFull h hcarried (hwatched.downlinkStash hpaused) hn hpos hm now
    rw [hpaused, Bool.true_and, if_pos rfl, halive]
    refine ⟨rfl, ?_, ?_⟩
    · exact (uplinkSide_updateFdInterest _).trans (hkept.trans hside)
    · exact downlinkPaused_updateFdInterest.trans hopen
  · rw [Bool.eq_false_iff.2 hpaused]
    refine ⟨rfl, ?_, ?_⟩
    · exact (uplinkSide_updateFdInterest _).trans hside
    · exact downlinkPaused_updateFdInterest.trans (Bool.eq_false_iff.2 hpaused)

/-- The end follows an empty stash, if it was seen. -/
theorem pendingUplinkFin_flushed (h : f.Inv) (hstash : f.uplinkStash = []) (n : Nat) :
    (f.pendingUplinkFin (.accept n)).2 = true ∧ (f.pendingUplinkFin (.accept n)).1.uplink.Flushed ∧
      (f.pendingUplinkFin (.accept n)).1.uplink.input = f.uplink.input ∧
      (f.pendingUplinkFin (.accept n)).1.uplink.ended = f.uplink.ended ∧
      (f.pendingUplinkFin (.accept n)).1.downlinkSide = f.downlinkSide := by
  have hsound := h.uplink
  rw [hstash] at hsound
  rw [pendingUplinkFin]
  split_ifs with hpending
  · obtain ⟨-, hfirst⟩ := Bool.and_eq_true_iff.1 hpending
    rw [tryUplinkFin, if_neg (by simpa using hfirst)]
    exact ⟨rfl, .inl (finished_close _), rfl, rfl, rfl⟩
  · refine ⟨rfl, ?_, rfl, rfl, rfl⟩
    cases hsent : f.uplinkFinSent with
    | true => exact .inl (hsound.finished_eq.trans hsent)
    | false =>
      have hopen : f.egressEofSeen = false := by simpa [hsent] using hpending
      refine .inr ⟨h.uplinkEnded.trans hopen, ?_⟩
      rw [← hsound.conserves, List.append_nil]

/-- A stream that becomes writable takes what was kept for it, and the end. -/
theorem writable_flushes (h : f.Inv) {m : Nat} (hm : f.uplinkStash.length ≤ m) (now n : Nat) :
    (f.step (.writable now [.accept m] (.accept n))).2 = .alive ∧
      (f.step (.writable now [.accept m] (.accept n))).1.uplink.Flushed ∧
      (f.step (.writable now [.accept m] (.accept n))).1.uplink.input = f.uplink.input ∧
      (f.step (.writable now [.accept m] (.accept n))).1.uplink.ended = f.uplink.ended ∧
      (f.step (.writable now [.accept m] (.accept n))).1.downlinkSide = f.downlinkSide := by
  rw [step, onH3Writable]
  split_ifs with hwithheld
  · -- the stash goes out first, and the end behind it
    rw [sendBodyLoop_accept hm]
    dsimp only
    have hflushed : Inv
        { f with
          uplink := f.uplink.pass f.uplinkStash
          uplinkStash := []
          uplinkWithheld := false } :=
      ⟨h.downlink, h.downlinkEnded, h.downlinkStash, h.fin,
        Direction.Sound.pass (by rw [List.append_nil]; exact h.uplink), h.uplinkEnded, fun _ => rfl⟩
    have hready := (hflushed.stampIf (!f.uplinkStash.isEmpty) now).updateFdInterest
    have huplink : (({ f with
        uplink := f.uplink.pass f.uplinkStash
        uplinkStash := []
        uplinkWithheld := false } : EgressFlow).stampIf (!f.uplinkStash.isEmpty) now).updateFdInterest.uplink =
        f.uplink.pass f.uplinkStash := by
      rw [uplink_updateFdInterest, uplink_stampIf]
    obtain ⟨halive, hdone, hinput, hended, hside⟩ := pendingUplinkFin_flushed hready (by
      rw [updateFdInterest_uplinkStash, EgressFlow.stampIf]
      split <;> rfl) n
    rw [huplink] at hinput hended
    rw [downlinkSide_updateFdInterest, downlinkSide_stampIf] at hside
    refine ⟨?_, hdone, hinput, hended, hside⟩
    rw [outcome, if_pos halive]
  · obtain ⟨halive, hrest⟩ := pendingUplinkFin_flushed h (h.uplinkStash (Bool.eq_false_iff.2 hwithheld)) n
    refine ⟨?_, hrest⟩
    rw [outcome, if_pos halive]

/-- A notification of the body reads to the end of what is in flight. -/
theorem body_reads (h : f.Inv) (hcarried : Carried d f.downlink) (hactive : f.state = .active)
    (hpaused : f.downlinkPaused = false) {n : Nat} (hn : (inFlight d f.downlink).length < n) (now : Nat) :
    (f.step ((Step.body now (roundsFull n)).fed d f)).2 = .alive ∧
      (f.step ((Step.body now (roundsFull n)).fed d f)).1.ReadOut d ∧
      (f.step ((Step.body now (roundsFull n)).fed d f)).1.uplink = f.uplink := by
  obtain ⟨halive, hread⟩ := drainBody_roundsFull h.downlinkEnded hcarried hn now
  rw [Step.fed, step, onBody, if_neg (not_not_intro hactive)]
  refine ⟨?_, hread hpaused, congrArg Prod.snd (uplinkSide_drainBody f now (fedRounds d f (roundsFull n)))⟩
  rw [outcome, if_pos halive]

/-! ### What the flow waits for -/

/-- A stream that brings no bytes brings the fin. -/
theorem recvBody_carry_ne (cap : Nat) (h3Fin fin : Bool) (buf : List UInt8) (answer : RecvAnswer) :
    recvBody cap h3Fin (carry cap fin buf answer).1 ≠ .data [] false := by
  cases answer with
  | again =>
    rw [carry, recvBody]
    split_ifs <;> simp
  | err => exact RecvAnswer.noConfusion
  | data chunk last =>
    rw [carry]
    split_ifs with hnone
    · rw [recvBody]
      split_ifs <;> simp
    · rw [recvBody]
      split_ifs
      · simp
      · -- nothing was taken of what is in flight: then it is empty, and the fin is there
        rw [List.take_take, Nat.min_eq_right (Nat.min_le_right _ _)]
        intro hread
        obtain ⟨htake, hlast⟩ := RecvAnswer.data.inj hread
        obtain ⟨hfin, hempty⟩ := Classical.not_not.1 fun hopen => hnone ⟨htake, hopen⟩
        rw [hfin, hempty, List.drop_nil] at hlast
        exact Bool.noConfusion hlast

theorem contract_drainReads (h3Fin fin : Bool) (buf : List UInt8) (rounds : List Round) :
    Contract (drainReads h3Fin (feed Round.recv (fun r recv => { r with recv }) egressChunk fin buf rounds)) := by
  induction rounds generalizing h3Fin buf with
  | nil =>
    rw [feed, drainReads]
    split_ifs <;> simp [Contract]
  | cons a as ih =>
    have hne := recvBody_carry_ne egressChunk h3Fin fin buf a.recv
    rw [feed, drainReads]
    dsimp only
    split
    · simp [Contract]
    · simp [Contract]
    · rename_i chunk last hread
      rw [hread] at hne
      refine List.forall_mem_cons.2 ⟨hne, ?_⟩
      split
      · split_ifs
        · exact fun _ h => absurd h List.not_mem_nil
        · exact ih _ _
      · exact fun _ h => absurd h List.not_mem_nil

theorem contract_reads (f : EgressFlow) (step : Step) : Contract (f.reads (step.fed d f)) := by
  have hbody (rounds : List Round) : Contract (f.bodyReads (fedRounds d f rounds)) := by
    rw [bodyReads]
    split_ifs
    · exact fun _ h => absurd h List.not_mem_nil
    · exact contract_drainReads _ _ _ rounds
  have hflush (sends : List SendAnswer) (rounds : List Round) : Contract (f.flushReads sends (fedRounds d f rounds)) := by
    rw [flushReads]
    split
    · split_ifs
      · exact fun _ h => absurd h List.not_mem_nil
      · exact contract_drainReads _ _ _ rounds
    · exact fun _ h => absurd h List.not_mem_nil
  have hnone : Contract [] := fun _ h => absurd h List.not_mem_nil
  cases step with
  | connected now rounds =>
    rw [Step.fed, reads]
    split_ifs
    · exact hbody rounds
    · exact hnone
  | body now rounds =>
    rw [Step.fed, reads]
    split_ifs
    · exact hnone
    · exact hbody rounds
  | writable now answers fin => exact hnone
  | ready readable writable soError now a =>
    rw [Step.fed, reads, readyReads]
    split_ifs
    · exact hnone
    · exact hbody a.rounds
    · exact hflush a.sends a.rounds
    · exact hnone

end EgressFlow

/-! ## The fin at the client -/

/-- The fin that was received was the last read, and nothing is kept behind it; and a flow is
    closed cleanly behind both ends. -/
structure FinKept (r : Flow × Outcome) : Prop where
  seen : r.1.finReceivedFromH3 = true → r.1.downlinkPaused = false ∧ r.1.h3Fin = true
  closed : r.2 = .cleanClose → r.1.finSentToH3 = true ∧ r.1.finReceivedFromH3 = true

namespace FinKept

variable {f : Flow}

/-- A flow that goes on. -/
theorem live {r : Flow × Outcome} (h : FinKept r) : FinKept (r.1, .live) :=
  ⟨h.seen, fun hclosed => Outcome.noConfusion hclosed⟩

/-- A function of the uplink that does not close the flow. -/
theorem of_uplinkOnly {r : Flow × Outcome} (h : FinKept (f, .live)) (hout : r.2 ≠ .cleanClose) (honly : UplinkOnly f r.1) :
    FinKept r where
  seen hseen := by
    rw [honly] at hseen ⊢
    exact h.seen hseen
  closed hclosed := absurd hclosed hout

theorem maybeFin (h : FinKept (f, .live)) (answers : List SendAnswer) : FinKept (uplinkMaybeFin f answers) := by
  rcases uplinkMaybeFin_cases f answers with ⟨-, hout⟩ | ⟨-, -, -, -, heq⟩
  · exact h.of_uplinkOnly hout (uplinkMaybeFin_only f answers)
  · rw [heq]
    refine ⟨h.seen, fun hclosed => ?_⟩
    dsimp only at hclosed
    split_ifs at hclosed with hseen
    exact ⟨rfl, hseen⟩

theorem flush (h : FinKept (f, .live)) (answers : List SendAnswer) : FinKept (uplinkFlush f answers) := by
  obtain ⟨q, n, u, honly⟩ := uplinkDrain_only f f.uplinkQ answers
  rw [uplinkFlush]
  split_ifs
  · exact h
  · have hdrained (f' : Flow) (hf' : f' = { f with uplinkQ := q, uplinkQueuedBytes := n, uplink := u }) : UplinkOnly f f' := by
      rw [hf']
      rfl
    split
    · rename_i f' hdrain
      rw [hdrain] at honly
      exact h.of_uplinkOnly Outcome.noConfusion (hdrained f' honly)
    · rename_i f' rest hdrain
      rw [hdrain] at honly
      have hfin : FinKept (uplinkMaybeFin f' rest) :=
        (h.of_uplinkOnly (r := (f', .live)) Outcome.noConfusion (hdrained f' honly)).maybeFin rest
      dsimp only
      split_ifs
      · exact hfin
      · exact hfin.live.of_uplinkOnly Outcome.noConfusion (uplinkResume_only _)

theorem maybeShutdown (h : FinKept (f, .live)) (hpaused : f.downlinkPaused = false) (hfin : f.h3Fin = true) (shutdown : Bool) :
    FinKept (downlinkMaybeShutdown f shutdown) := by
  rw [downlinkMaybeShutdown]
  split
  · exact h
  · dsimp only
    split
    · exact ⟨fun _ => ⟨hpaused, hfin⟩, fun hclosed => Outcome.noConfusion hclosed⟩
    · split
      · rename_i hsent
        exact ⟨fun _ => ⟨hpaused, hfin⟩, fun _ => ⟨hsent, rfl⟩⟩
      · exact ⟨fun _ => ⟨hpaused, hfin⟩, fun hclosed => Outcome.noConfusion hclosed⟩

theorem drain (h : FinKept (f, .live)) (hpaused : f.downlinkPaused = false) (shutdown : Bool) (reads : List ReadAnswers) :
    FinKept (downlinkDrain shutdown f reads) := by
  induction reads generalizing f with
  | nil =>
    rw [downlinkDrain]
    split_ifs
    · have hread : FinKept (Hybrid.afterRead f [] true, .live) :=
        ⟨fun _ => ⟨hpaused, Bool.or_true _⟩, fun hclosed => Outcome.noConfusion hclosed⟩
      exact hread.maybeShutdown hpaused (Bool.or_true _) shutdown
    · exact h
  | cons a as ih =>
    rw [downlinkDrain]
    split
    · exact h
    · exact ⟨h.seen, fun hclosed => Outcome.noConfusion hclosed⟩
    · rename_i chunk fin hread
      -- behind the fin nothing is read
      have hbehind (hseen : f.finReceivedFromH3 = true) : chunk = [] := by
        rw [h3Recv, (h.seen hseen).2] at hread
        cases hrecv : a.recv with
        | data chunk' fin' =>
          rw [hrecv] at hread
          exact (RecvAnswer.data.inj hread).1.symm
        | again =>
          rw [hrecv] at hread
          exact (RecvAnswer.data.inj hread).1.symm
        | err =>
          rw [hrecv] at hread
          exact RecvAnswer.noConfusion hread
      have hafter (outcome : Outcome) (hout : outcome ≠ .cleanClose) (g : Flow)
          (hg : g.downlinkPaused = f.downlinkPaused ∧ g.h3Fin = (f.h3Fin || fin) ∧ g.finReceivedFromH3 = f.finReceivedFromH3) :
          FinKept (g, outcome) := by
        refine ⟨fun hseen => ?_, fun hclosed => absurd hclosed hout⟩
        obtain ⟨-, hfin⟩ := h.seen (hg.2.2.symm.trans hseen)
        exact ⟨hg.1.trans hpaused, hg.2.1.trans (by rw [hfin, Bool.true_or])⟩
      have hlive := hafter .live Outcome.noConfusion (Hybrid.afterRead f chunk fin) ⟨rfl, rfl, rfl⟩
      have hfailed := hafter .relayError Outcome.noConfusion (Hybrid.afterRead f chunk fin) ⟨rfl, rfl, rfl⟩
      dsimp only
      split
      · exact hfailed
      · rename_i hempty
        split
        · rename_i hnil
          have hfin : fin = true := by simpa [hnil] using hempty
          exact hlive.maybeShutdown hpaused (by change (f.h3Fin || fin) = true; rw [hfin, Bool.or_true]) shutdown
        · rename_i hnil
          split
          · exact stash hnil hbehind hfailed a.alloc
          · split
            · exact stash hnil hbehind hfailed a.alloc
            · exact hfailed
            · have hpass := hafter .live Outcome.noConfusion
                { Hybrid.afterRead f chunk fin with downlink := (Hybrid.afterRead f chunk fin).downlink.pass chunk }
                ⟨rfl, rfl, rfl⟩
              split
              · rename_i hfin
                exact hpass.maybeShutdown hpaused (by change (f.h3Fin || fin) = true; rw [hfin, Bool.or_true]) shutdown
              · exact ih hpass hpaused
where
  stash {f : Flow} {chunk : List UInt8} {fin : Bool} (hnil : chunk ≠ []) (hbehind : f.finReceivedFromH3 = true → chunk = [])
      (hfailed : FinKept (Hybrid.afterRead f chunk fin, .relayError)) (alloc : Bool) :
      FinKept (downlinkStash (Hybrid.afterRead f chunk fin) chunk alloc) := by
    rw [downlinkStash]
    split_ifs
    · exact hfailed
    · exact ⟨fun hseen => absurd (hbehind hseen) hnil, fun hclosed => Outcome.noConfusion hclosed⟩

theorem stashRetry (h : FinKept (f, .live)) (a : DownlinkAnswers) : FinKept (downlinkStashRetry f a) := by
  rw [downlinkStashRetry]
  split
  · exact h
  · split
    · exact h
    · exact ⟨h.seen, fun hclosed => Outcome.noConfusion hclosed⟩
    · exact ⟨fun hseen => ⟨rfl, (h.seen hseen).2⟩, fun hclosed => Outcome.noConfusion hclosed⟩

theorem resume (h : FinKept (f, .live)) (hpaused : f.downlinkPaused = false) (a : DownlinkAnswers) :
    FinKept (downlinkResume f a) := by
  rw [downlinkResume]
  split
  · exact h
  · exact h.drain hpaused a.shutdown a.reads

/-- A function that retries the stash, and reads on if it could be written. -/
theorem retried (h : FinKept (f, .live)) (a : DownlinkAnswers) (next : Flow → Flow × Outcome)
    (hnext : ∀ g, FinKept (g, .live) → g.downlinkPaused = false → FinKept (next g)) :
    FinKept (if (downlinkStashRetry f a).2 ≠ .live then downlinkStashRetry f a
      else if (downlinkStashRetry f a).1.downlinkPaused then ((downlinkStashRetry f a).1, .live)
      else next (downlinkStashRetry f a).1) := by
  have hretry := h.stashRetry a
  split
  · exact hretry
  · split
    · exact hretry.live
    · rename_i hflushed
      exact hnext _ hretry.live (Bool.eq_false_iff.2 hflushed)

theorem pump (h : FinKept (f, .live)) (a : DownlinkAnswers) : FinKept (downlinkPump f a) := by
  rw [downlinkPump]
  split
  · exact h
  · split
    · exact h.retried a (fun g => downlinkResume g a) fun g hg hpaused => hg.resume hpaused a
    · rename_i hpaused
      exact h.resume (Bool.eq_false_iff.2 hpaused) a

theorem tick (h : FinKept (f, .live)) (a : DownlinkAnswers) : FinKept (downlinkTick f a) := by
  rw [downlinkTick]
  split
  · exact h
  · exact h.retried a (fun g => downlinkResume g a) fun g hg hpaused => hg.resume hpaused a

theorem sent (h : FinKept (f, .live)) (now : Nat) (a : DownlinkAnswers) : FinKept (onLwipSent f now a) := by
  have hstamp : FinKept ({ f with lastActivityUs := now }, .live) := ⟨h.seen, h.closed⟩
  rw [onLwipSent]
  dsimp only
  split
  · exact hstamp
  · refine hstamp.retried a (fun g => if g.stream = none then (g, .live) else downlinkPump g a) fun g hg _ => ?_
    split
    · exact hg
    · exact hg.pump a

theorem recv (h : FinKept (f, .live)) (p : Option Pbuf) (now : Nat) (answers : List SendAnswer) (alloc : Bool) :
    FinKept (onLwipRecv f p now answers alloc) := by
  cases p with
  | none =>
    exact flush (f := { f with lastActivityUs := now, tcpFinSeen := true, uplink := f.uplink.sawEnd })
      ⟨h.seen, h.closed⟩ answers
  | some p =>
    refine h.of_uplinkOnly ?_ (onLwipRecv_only f (some p) now answers alloc)
    rw [onLwipRecv]
    dsimp only
    split
    · exact Outcome.noConfusion
    · rw [uplinkDeliver]
      dsimp only
      split
      · exact Outcome.noConfusion
      · split
        · exact Outcome.noConfusion
        · split <;> exact Outcome.noConfusion

theorem step (h : FinKept (f, .live)) (step : FlowStep) : FinKept (flowStep f step) := by
  cases step with
  | recv p now answers alloc => exact h.recv p now answers alloc
  | established now answers =>
    exact flush (f := { f with state := .active, lastActivityUs := now }) ⟨h.seen, h.closed⟩ answers
  | writable answers => exact h.flush answers
  | body a => exact h.pump a
  | sent now a => exact h.sent now a
  | tick a => exact h.tick a

end FinKept

theorem flowStep_objects (f : Flow) (step : FlowStep) :
    (flowStep f step).1.pcb = f.pcb ∧ (flowStep f step).1.h3Request = f.h3Request := by
  have huplink {e g : Flow} (hpcb : e.pcb = f.pcb) (hrequest : e.h3Request = f.h3Request) (h : UplinkOnly e g) :
      g.pcb = f.pcb ∧ g.h3Request = f.h3Request := by
    rw [h]
    exact ⟨hpcb, hrequest⟩
  have hdownlink {g : Flow} (h : DownlinkOnly f g) : g.pcb = f.pcb ∧ g.h3Request = f.h3Request := by
    rw [h]
    exact ⟨rfl, rfl⟩
  cases step with
  | recv p now answers alloc => exact huplink rfl rfl (onLwipRecv_only f p now answers alloc)
  | established now answers =>
    exact huplink (e := { f with state := .active, lastActivityUs := now }) rfl rfl (uplinkFlush_only _ answers)
  | writable answers => exact huplink rfl rfl (uplinkFlush_only f answers)
  | body a => exact hdownlink (downlinkPump_only f a)
  | sent now a => exact hdownlink (onLwipSent_only f now a)
  | tick a => exact hdownlink (downlinkTick_only f a)

/-- A response that comes while the request takes nothing. -/
theorem UplinkInv.flush_nil {f : Flow} (h : UplinkInv f) :
    (uplinkFlush f []).2 = .live ∧ (uplinkFlush f []).1.uplink.input = f.uplink.input ∧
      (uplinkFlush f []).1.uplink.ended = f.uplink.ended := by
  have hdrain : ∃ f', uplinkDrain f f.uplinkQ [] = (f', some []) := by
    cases hq : f.uplinkQ with
    | nil => exact ⟨_, rfl⟩
    | cons n q =>
      have hn := h.offset_lt n (hq ▸ List.mem_cons_self)
      rw [uplinkDrain, uplinkSendFrom]
      dsimp only
      rw [if_pos hn]
      exact ⟨_, rfl⟩
  obtain ⟨f', hdrain⟩ := hdrain
  obtain ⟨-, -, hinput, hended⟩ := uplinkDrain_spec hdrain h.sound h.offset_lt h.queued
  have hfin : uplinkMaybeFin f' [] = (f', .live) := by
    unfold uplinkMaybeFin
    split <;> rfl
  rw [uplinkFlush]
  split_ifs
  · exact ⟨rfl, rfl, rfl⟩
  · rw [hdrain]
    dsimp only
    rw [hfin, if_neg (not_not_intro rfl), uplink_uplinkResume]
    exact ⟨rfl, hinput, hended⟩

theorem UplinkOnly.downlink {f f' : Flow} (h : UplinkOnly f f') : f'.downlink = f.downlink := by
  rw [h]

theorem queueTotal_eq (q : List UplinkNode) : queueTotal q = (unsent q).length := by
  induction q with
  | nil => rfl
  | cons n q ih =>
    have hunsent : unsent (n :: q) = n.p.bytes.drop n.offset ++ unsent q := rfl
    rw [queueTotal_cons, ih, hunsent, List.length_append, List.length_drop, ← Pbuf.totLen]

namespace Tunnelled

/-! ## Going on -/

variable {s : Tunnelled}

/-- What holds in every state of a run, and lets it go on. -/
structure Going (s : Tunnelled) : Prop where
  inv : s.Inv
  pcb : s.client.1.pcb ≠ none
  request : s.client.1.h3Request ≠ none
  fin : FinKept s.client
  watched : s.server.2 = .alive → s.server.1.Watched

theorem Going.client (h : s.Going) (step : FlowStep) : (s.step (.client step)).Going := by
  have hinv := h.inv.step (.client step)
  rw [Tunnelled.step] at hinv ⊢
  by_cases hlive : s.client.2 = .live
  · have hrelay : relayStep s.client (step.fed s.server.1.uplink s.client.1) =
        flowStep s.client.1 (step.fed s.server.1.uplink s.client.1) := by rw [relayStep, hlive]
    rw [hrelay] at hinv ⊢
    obtain ⟨hpcb, hrequest⟩ := flowStep_objects s.client.1 (step.fed s.server.1.uplink s.client.1)
    exact ⟨hinv, hpcb ▸ h.pcb, hrequest ▸ h.request, h.fin.live.step _, h.watched⟩
  · have hstuck : relayStep s.client (step.fed s.server.1.uplink s.client.1) = s.client := by
      rw [relayStep]
      split
      · rename_i h'
        exact absurd h' hlive
      · rfl
    rw [hstuck] at hinv ⊢
    exact ⟨hinv, h.pcb, h.request, h.fin, h.watched⟩

theorem Going.server (h : s.Going) (step : EgressFlow.Step) : (s.step (.server step)).Going := by
  refine ⟨h.inv.step (.server step), h.pcb, h.request, h.fin, ?_⟩
  rw [Tunnelled.step]
  dsimp only
  rw [EgressFlow.relayStep]
  split
  · rename_i halive
    exact fun hok => (EgressFlow.serves_step (h.watched halive) (EgressFlow.contract_reads _ step) hok).watched
  · exact h.watched

theorem Going.step (h : s.Going) (step : EndStep) : (s.step step).Going := by
  cases step with
  | client step => exact h.client step
  | server step => exact h.server step

theorem Going.run (h : s.Going) (steps : List EndStep) : (s.run steps).Going :=
  List.foldlRecOn steps Tunnelled.step h fun _ (ht : Going _) step _ => ht.step step

theorem going_opened (key : Reorder.FlowKey) (synIsn : UInt32) (now pcb request stream : Nat)
    (fd h3Request stream' connectDeadlineUs now' : Nat) :
    (opened key synIsn now pcb request stream fd h3Request stream' connectDeadlineUs now').Going where
  inv := inv_opened key synIsn now pcb request stream fd h3Request stream' connectDeadlineUs now'
  pcb := Option.some_ne_none pcb
  request := Option.some_ne_none request
  fin := ⟨fun hseen => Bool.noConfusion hseen, fun hclosed => Outcome.noConfusion hclosed⟩
  watched _ := ⟨fun h => EgressState.noConfusion h, fun h => Bool.noConfusion h, fun h => Bool.noConfusion h⟩

/-! ## The notifications -/

theorem run_append (s : Tunnelled) (steps more : List EndStep) : s.run (steps ++ more) = (s.run steps).run more :=
  List.foldl_append

@[simp] theorem server_step_client (s : Tunnelled) (step : FlowStep) : (s.step (.client step)).server = s.server := rfl

theorem server_step_of_alive (halive : s.server.2 = .alive) (step : EgressFlow.Step) :
    (s.step (.server step)).server = s.server.1.step (step.fed s.client.1.uplink s.server.1) := by
  rw [Tunnelled.step]
  dsimp only
  rw [EgressFlow.relayStep, halive]

theorem client_step_of_live (hlive : s.client.2 = .live) (step : FlowStep) :
    (s.step (.client step)).client = flowStep s.client.1 (step.fed s.server.1.uplink s.client.1) := by
  rw [Tunnelled.step]
  dsimp only
  rw [relayStep, hlive]

theorem step_client_of_closed (hclosed : s.client.2 = .cleanClose) (step : FlowStep) : s.step (.client step) = s := by
  rw [Tunnelled.step, relayStep, hclosed]

/-- No more is in flight than went in, and no more was read. -/
theorem Sound.length_inFlight {d d' : Direction UInt8} (h : Sound d d') : (inFlight d d').length ≤ d.input.length := by
  have hle := (h.near.sent_isPrefix h.remembers).length_le
  rw [inFlight, List.length_drop]
  omega

theorem Sound.length_read {d d' : Direction UInt8} (h : Sound d d') : d'.input.length ≤ d.input.length :=
  h.carried.input.length_le.trans (h.near.sent_isPrefix h.remembers).length_le

theorem length_held_le {d : Direction UInt8} {held : List UInt8} {closed : Bool} (h : d.Sound held closed) :
    held.length ≤ d.input.length := by
  rw [← h.conserves, List.length_append]
  exact Nat.le_add_left _ _

/-- The socket of the server is writable: the flow is connected, and at the second time it has
    nothing kept for the socket. -/
theorem Going.ready (h : s.Going) (halive : s.server.2 = .alive) {n : Nat} (hn : s.client.1.uplink.input.length < n) (now : Nat) :
    let t := s.step (.server (.ready false true false now (EgressFlow.readyFull n n)))
    t.server.2 = .alive ∧ t.server.1.state = .active ∧ t.server.1.uplink = s.server.1.uplink ∧
      (s.server.1.state = .active → t.server.1.downlinkPaused = false) := by
  intro t
  have hinv := h.inv.server halive
  have hflight := Nat.lt_of_le_of_lt h.inv.up.length_inFlight hn
  have ht : t.server = _ := server_step_of_alive halive _
  rw [ht]
  cases hstate : s.server.1.state with
  | connecting =>
    obtain ⟨hok, hside⟩ := EgressFlow.ready_connects hinv h.inv.up.carried hstate hflight n now
    exact ⟨hok, congrArg Prod.fst hside, congrArg Prod.snd hside, fun hactive => EgressState.noConfusion hactive⟩
  | active =>
    have hstash := (length_held_le hinv.downlink).trans h.inv.up.length_read
    obtain ⟨hok, hside, hopen⟩ := EgressFlow.ready_flushes hinv (h.watched halive) h.inv.up.carried hstate hflight
      (Nat.zero_lt_of_lt hn) (hstash.trans (Nat.le_of_lt hn)) now
    exact ⟨hok, congrArg Prod.fst hside, congrArg Prod.snd hside, fun _ => hopen⟩

/-- The request of the server is writable. -/
theorem Going.server_writable (h : s.Going) (halive : s.server.2 = .alive) {n : Nat}
    (hn : s.server.1.uplink.input.length ≤ n) (now m : Nat) :
    let t := s.step (.server (.writable now [.accept n] (.accept m)))
    t.server.2 = .alive ∧ t.server.1.uplink.Flushed ∧ t.server.1.uplink.input = s.server.1.uplink.input ∧
      t.server.1.uplink.ended = s.server.1.uplink.ended ∧ t.server.1.downlinkSide = s.server.1.downlinkSide := by
  intro t
  have hinv := h.inv.server halive
  have ht : t.server = _ := server_step_of_alive halive _
  rw [ht]
  exact EgressFlow.writable_flushes hinv ((length_held_le hinv.uplink).trans hn) now m

/-- The response has come. -/
theorem Going.established (h : s.Going) (hok : s.client.2 ≠ .relayError) (now : Nat) :
    let t := s.run (if s.client.1.state = .active then [] else [.client (.established now [])])
    t.server = s.server ∧ t.client.2 = s.client.2 ∧ (s.client.2 = .live → t.client.1.state = .active) ∧
      t.client.1.uplink.input = s.client.1.uplink.input ∧ t.client.1.uplink.ended = s.client.1.uplink.ended := by
  intro t
  by_cases hactive : s.client.1.state = .active
  · have ht : t = s := by
      change s.run _ = s
      rw [if_pos hactive]
      rfl
    rw [ht]
    exact ⟨rfl, rfl, fun _ => hactive, rfl, rfl⟩
  · have ht : t = s.step (.client (.established now [])) := by
      change s.run _ = _
      rw [if_neg hactive]
      rfl
    rw [ht]
    cases hout : s.client.2 with
    | relayError => exact absurd hout hok
    | cleanClose =>
      rw [step_client_of_closed hout]
      exact ⟨rfl, hout, fun hlive => Outcome.noConfusion hlive, rfl, rfl⟩
    | live =>
      have hinv := (h.inv.uplink hok).2
      have hresponse : UplinkInv { s.client.1 with state := .active, lastActivityUs := now } :=
        ⟨hinv.sound, hinv.ended, hinv.offset_lt, hinv.queued⟩
      obtain ⟨hlive, hinput, hended⟩ := hresponse.flush_nil
      have hstate := (uplinkFlush_only { s.client.1 with state := .active, lastActivityUs := now } []).state
      rw [server_step_client, client_step_of_live hout]
      exact ⟨rfl, hlive, fun _ => hstate, hinput, hended⟩

/-- The client is notified of the body. -/
theorem Going.body (h : s.Going) (hok : s.client.2 ≠ .relayError) (hactive : s.client.2 = .live → s.client.1.state = .active)
    {n : Nat} (hn : s.server.1.uplink.input.length < n) :
    let t := s.step (.client (.body ⟨n, .ok, readsFull n, true⟩))
    t.client.2 ≠ .relayError ∧ (t.client.2 = .live → t.client.1.state = .active) ∧ t.client.1.uplink = s.client.1.uplink ∧
      t.client.1.downlink.output = s.server.1.uplink.sent ∧
      (s.server.1.uplink.finished = true → t.client.1.downlink.finished = true) := by
  intro t
  have hinv := h.inv.downlink hok
  cases hout : s.client.2 with
  | relayError => exact absurd hout hok
  | cleanClose =>
    -- the flow was closed behind the fin
    obtain ⟨-, hseen⟩ := h.fin.closed hout
    obtain ⟨hopen, hfin⟩ := h.fin.seen hseen
    have hsound := hinv.sound
    rw [hinv.stash hopen] at hsound
    have ht : t = s := step_client_of_closed hout _
    rw [ht]
    exact ⟨hok, hactive, rfl,
      arrived_of_inFlight h.inv.down.carried hsound (inFlight_of_ended h.inv.down.carried (hinv.ended.trans hfin)) fun _ => hseen⟩
  | live =>
    have hstash := (length_held_le hinv.sound).trans h.inv.down.length_read
    obtain ⟨hok', hread⟩ := hinv.pump_readsFull h.inv.down.carried (hactive hout) h.request h.pcb
      (Nat.lt_of_le_of_lt h.inv.down.length_inFlight hn) (hstash.trans (Nat.le_of_lt hn))
    have ht : t.client = _ := client_step_of_live hout _
    have honly := downlinkPump_only s.client.1 (DownlinkAnswers.fed s.server.1.uplink s.client.1 ⟨n, .ok, readsFull n, true⟩)
    have hnext := (h.step (.client (.body ⟨n, .ok, readsFull n, true⟩))).inv
    have hinv' := hnext.downlink (by rw [ht]; exact hok')
    have hcarried := hnext.down.carried
    rw [ht] at hinv' hcarried ⊢
    have hsound := hinv'.sound
    rw [hinv'.stash hread.paused] at hsound
    exact ⟨hok', fun _ => honly.state.trans (hactive hout), honly.uplink,
      arrived_of_inFlight hcarried hsound hread.read hread.fin⟩

/-- The request of the client is writable. -/
theorem Going.client_writable (h : s.Going) (hok : s.client.2 ≠ .relayError)
    (hactive : s.client.2 = .live → s.client.1.state = .active) {n : Nat} (hn : s.client.1.uplink.input.length < n) :
    let t := s.step (.client (.writable (takesAll n)))
    t.client.2 ≠ .relayError ∧ t.client.1.uplink.Flushed ∧ t.client.1.uplink.input = s.client.1.uplink.input ∧
      t.client.1.uplink.ended = s.client.1.uplink.ended ∧ t.client.1.downlink = s.client.1.downlink := by
  intro t
  have hinv := (h.inv.uplink hok).2
  cases hout : s.client.2 with
  | relayError => exact absurd hout hok
  | cleanClose =>
    -- a flow that was closed has sent its FIN
    obtain ⟨hsent, -⟩ := h.fin.closed hout
    have ht : t = s := step_client_of_closed hout _
    rw [ht]
    exact ⟨hok, .inl (hinv.sound.finished_eq.trans hsent), rfl, rfl, rfl⟩
  | live =>
    have hqueue : queueTotal s.client.1.uplinkQ < n := by
      rw [queueTotal_eq]
      exact Nat.lt_of_le_of_lt (length_held_le hinv.sound) hn
    obtain ⟨hok', hflushed, hinput, hended⟩ := hinv.flush_takesAll (hactive hout) h.request hqueue
    have ht : t.client = _ := client_step_of_live hout _
    rw [ht]
    exact ⟨hok', hflushed, hinput, hended, (uplinkFlush_only s.client.1 (takesAll n)).downlink⟩

/-- The server is notified of the body. -/
theorem Going.server_body (h : s.Going) (halive : s.server.2 = .alive) (hactive : s.server.1.state = .active)
    (hopen : s.server.1.downlinkPaused = false) {n : Nat} (hn : s.client.1.uplink.input.length < n) (now : Nat) :
    let t := s.step (.server (.body now (EgressFlow.roundsFull n)))
    t.server.2 = .alive ∧ t.server.1.uplink = s.server.1.uplink ∧
      t.server.1.downlink.output = s.client.1.uplink.sent ∧
      (s.client.1.uplink.finished = true → t.server.1.downlink.finished = true) := by
  intro t
  obtain ⟨hok, hread, hkept⟩ := EgressFlow.body_reads (h.inv.server halive) h.inv.up.carried hactive hopen
    (Nat.lt_of_le_of_lt h.inv.up.length_inFlight hn) now
  have ht : t.server = _ := server_step_of_alive halive _
  have hnext := (h.step (.server (.body now (EgressFlow.roundsFull n)))).inv
  have hinv := hnext.server (by rw [ht]; exact hok)
  have hcarried := hnext.up.carried
  rw [ht] at hinv hcarried ⊢
  have hsound := hinv.downlink
  rw [hinv.downlinkStash hread.paused] at hsound
  exact ⟨hok, hkept, arrived_of_inFlight hcarried hsound hread.read hread.fin⟩

/-! ## Catching up -/

/-- What both ends are notified of, when everything is taken that there is to give: the socket
    of the server is writable, once to connect and once for what is kept for it; its request is
    writable; the response has come; the client has a body to read, and may write its own; and
    so the server has a body to read. -/
def notices (s : Tunnelled) (now : Nat) : List EndStep :=
  let n := s.client.1.uplink.input.length + s.server.1.uplink.input.length + 1
  [.server (.ready false true false now (EgressFlow.readyFull n n)),
    .server (.ready false true false now (EgressFlow.readyFull n n)),
    .server (.writable now [.accept n] (.accept 0))] ++
  (if s.client.1.state = .active then [] else [.client (.established now [])]) ++
  [.client (.body ⟨n, .ok, readsFull n, true⟩),
    .client (.writable (takesAll n)),
    .server (.body now (EgressFlow.roundsFull n))]

/-- Nothing more went in, and all that went in has come out. -/
structure Settles (s t : Tunnelled) : Prop where
  client : t.client.2 ≠ .relayError
  server : t.server.2 = .alive
  clientTook : t.client.1.uplink.input = s.client.1.uplink.input ∧ t.client.1.uplink.ended = s.client.1.uplink.ended
  serverTook : t.server.1.uplink.input = s.server.1.uplink.input ∧ t.server.1.uplink.ended = s.server.1.uplink.ended
  up : CaughtUp t.client.1.uplink t.server.1.downlink
  down : CaughtUp t.server.1.uplink t.client.1.downlink

/-- The server is connected, and its socket and its request have taken what was kept for them. -/
theorem Going.server_ready (h : s.Going) (hserver : s.server.2 = .alive) {n : Nat} (hup : s.client.1.uplink.input.length < n)
    (hdown : s.server.1.uplink.input.length ≤ n) (now : Nat) :
    let t := s.run [.server (.ready false true false now (EgressFlow.readyFull n n)),
      .server (.ready false true false now (EgressFlow.readyFull n n)), .server (.writable now [.accept n] (.accept 0))]
    t.client = s.client ∧ t.server.2 = .alive ∧ t.server.1.state = .active ∧ t.server.1.downlinkPaused = false ∧
      t.server.1.uplink.Flushed ∧ t.server.1.uplink.input = s.server.1.uplink.input ∧
      t.server.1.uplink.ended = s.server.1.uplink.ended := by
  intro t
  obtain ⟨halive, hactive, huplink, -⟩ := h.ready hserver hup now
  have h₁ := h.step (.server (.ready false true false now (EgressFlow.readyFull n n)))
  obtain ⟨halive₁, hactive₁, huplink₁, hopen₁⟩ := h₁.ready halive hup now
  have h₂ := h₁.step (.server (.ready false true false now (EgressFlow.readyFull n n)))
  have hkept := huplink₁.trans huplink
  have hin := congrArg Direction.input hkept
  obtain ⟨halive₂, hflushed, hinput, hended, hside₂⟩ := h₂.server_writable (n := n) halive₁
    (Nat.le_trans (Nat.le_of_eq (congrArg List.length hin)) hdown) now 0
  refine ⟨rfl, halive₂, ?_, ?_, hflushed, hinput.trans hin, hended.trans (congrArg Direction.ended hkept)⟩
  · exact (congrArg Prod.fst hside₂).trans hactive₁
  · exact (EgressFlow.downlinkPaused_of_downlinkSide hside₂).trans (hopen₁ hactive)

/-- Neither end waits for what does not come. -/
theorem Going.settles (h : s.Going) (hclient : s.client.2 ≠ .relayError) (hserver : s.server.2 = .alive) (now : Nat) :
    Settles s (s.run (s.notices now)) := by
  have hup : s.client.1.uplink.input.length < s.client.1.uplink.input.length + s.server.1.uplink.input.length + 1 := by omega
  have hdown : s.server.1.uplink.input.length < s.client.1.uplink.input.length + s.server.1.uplink.input.length + 1 := by omega
  rw [notices]
  generalize s.client.1.uplink.input.length + s.server.1.uplink.input.length + 1 = n at hup hdown
  rw [run_append, run_append]
  -- the server gives what it holds
  obtain ⟨hclient₁, halive₁, hactive₁, hopen₁, hflushed₁, hin₁, hend₁⟩ := h.server_ready hserver hup (Nat.le_of_lt hdown) now
  have h₁ := h.run [.server (.ready false true false now (EgressFlow.readyFull n n)),
    .server (.ready false true false now (EgressFlow.readyFull n n)), .server (.writable now [.accept n] (.accept 0))]
  generalize s.run [.server (.ready false true false now (EgressFlow.readyFull n n)),
    .server (.ready false true false now (EgressFlow.readyFull n n)), .server (.writable now [.accept n] (.accept 0))] = t₁
    at hclient₁ halive₁ hactive₁ hopen₁ hflushed₁ hin₁ hend₁ h₁ ⊢
  -- the client is answered
  have hresponse : (if s.client.1.state = .active then [] else [EndStep.client (.established now [])]) =
      if t₁.client.1.state = .active then [] else [EndStep.client (.established now [])] := by rw [hclient₁]
  rw [hresponse]
  obtain ⟨hserver₂, hout₂, hactive₂, hin₂, hend₂⟩ := h₁.established (hclient₁ ▸ hclient) now
  have h₂ := h₁.run (if t₁.client.1.state = .active then [] else [EndStep.client (.established now [])])
  generalize t₁.run (if t₁.client.1.state = .active then [] else [EndStep.client (.established now [])]) = t₂
    at hserver₂ hout₂ hactive₂ hin₂ hend₂ h₂ ⊢
  -- it reads what the server gave, and gives what it holds
  obtain ⟨hok₃, hactive₃, huplink₃, hpassed₃, hfinished₃⟩ := h₂.body (n := n) (by rw [hout₂, hclient₁]; exact hclient)
    (fun hlive => hactive₂ (hout₂.symm.trans hlive)) (by rw [hserver₂, hin₁]; exact hdown)
  have h₃ := h₂.step (.client (.body ⟨n, .ok, readsFull n, true⟩))
  have hin₃ : (t₂.step (.client (.body ⟨n, .ok, readsFull n, true⟩))).client.1.uplink.input = s.client.1.uplink.input := by
    rw [huplink₃, hin₂, hclient₁]
  have hend₃ : (t₂.step (.client (.body ⟨n, .ok, readsFull n, true⟩))).client.1.uplink.ended = s.client.1.uplink.ended := by
    rw [huplink₃, hend₂, hclient₁]
  obtain ⟨hok₄, hflushed₄, hin₄, hend₄, hdownlink₄⟩ := h₃.client_writable (n := n) hok₃ hactive₃ (by rw [hin₃]; exact hup)
  have h₄ := h₃.step (.client (.writable (takesAll n)))
  have hserver₄ : ((t₂.step (.client (.body ⟨n, .ok, readsFull n, true⟩))).step (.client (.writable (takesAll n)))).server =
      t₁.server := hserver₂
  -- and the server reads it
  obtain ⟨halive₅, huplink₅, hpassed₅, hfinished₅⟩ := h₄.server_body (n := n) (by rw [hserver₄]; exact halive₁)
    (by rw [hserver₄]; exact hactive₁) (by rw [hserver₄]; exact hopen₁) (by rw [hin₄, hin₃]; exact hup) now
  have h₅ := h₄.step (.server (.body now (EgressFlow.roundsFull n)))
  rw [hserver₄] at huplink₅
  refine ⟨hok₄, halive₅, ⟨hin₄.trans hin₃, hend₄.trans hend₃⟩, ⟨?_, ?_⟩, ?_, ?_⟩
  · exact (congrArg Direction.input huplink₅).trans hin₁
  · exact (congrArg Direction.ended huplink₅).trans hend₁
  · exact hflushed₄.caughtUp h₅.inv.up.near hpassed₅ hfinished₅
  · have hnear := h₅.inv.down.near
    have hflushed : (_ : Direction UInt8).Flushed := hflushed₁
    rw [← huplink₅] at hflushed
    refine hflushed.caughtUp hnear ?_ ?_
    · rw [huplink₅, ← hserver₂]
      exact (congrArg Direction.output hdownlink₄).trans hpassed₃
    · rw [huplink₅, ← hserver₂]
      intro hfin
      exact (congrArg Direction.finished hdownlink₄).trans (hfinished₃ hfin)

/-- From every state of a run in which no end has failed, the notifications bring through all
    that went in, in both directions, and the ends behind it. -/
theorem tunnelled_settles (key : Reorder.FlowKey) (synIsn : UInt32) (now pcb request stream : Nat)
    (fd h3Request stream' connectDeadlineUs now' : Nat) (steps : List EndStep) (later : Nat) :
    let s := (opened key synIsn now pcb request stream fd h3Request stream' connectDeadlineUs now').run steps
    s.client.2 ≠ .relayError → s.server.2 = .alive → Settles s (s.run (s.notices later)) := by
  intro s hclient hserver
  have hstart := going_opened key synIsn now pcb request stream fd h3Request stream' connectDeadlineUs now'
  exact (hstart.run steps).settles hclient hserver later

/-- The request takes a part of a delivery, the socket a part of what the server reads, and the
    client has ended. -/
theorem tunnelled_settles_sample :
    let s := (opened sampleKey 7 0 1 2 3 5 1 2 9 0).run
      [.client (.recv (some ⟨[[1, 2], [3]], by decide⟩) 1 [] true), .server (.connected 1 []),
        .client (.established 2 [.accept 2]), .client (.recv none 3 [] true),
        .server (.body 4 [⟨.data [0, 0] false, [.accept 1], true⟩])]
    Settles s (s.run (s.notices 5)) :=
  tunnelled_settles sampleKey 7 0 1 2 3 5 1 2 9 0 _ 5 (by decide +kernel) (by decide +kernel)

end Tunnelled

end Mqvpn.Hybrid
