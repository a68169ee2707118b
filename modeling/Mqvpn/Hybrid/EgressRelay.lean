import Mqvpn.Hybrid.EgressFlow
import Mathlib.Data.List.Induction

/-!
# The relay of the egress

Whatever the request and the socket have to read, whatever they take, and in whatever order
they report it: what was written to the socket and what is kept for it are what was read from
the body, and what the response has accepted and what is kept for it are what was received
from the socket; and each end is passed on once, after everything before it
(`EgressFlow.relay_exact`).
-/

namespace Mqvpn.Hybrid

open Relay

namespace EgressFlow

/-- The stashes and the histories of both directions fit. -/
structure Inv (f : EgressFlow) : Prop where
  downlink : f.downlink.Sound f.downlinkStash f.downlinkShutdownDone
  downlinkEnded : f.downlink.ended = f.h3Fin
  downlinkStash : f.downlinkPaused = false → f.downlinkStash = []
  fin : f.finReceivedFromH3 = true → f.h3Fin = true
  uplink : f.uplink.Sound f.uplinkStash f.uplinkFinSent
  uplinkEnded : f.uplink.ended = f.egressEofSeen
  uplinkStash : f.uplinkWithheld = false → f.uplinkStash = []

variable {f : EgressFlow}

/-! ## The downlink -/

/-- The loop splits the chunk where it stops. -/
theorem sendLoop_spec (buf : List UInt8) (answers : List SendAnswer) :
    (sendLoop buf answers).1 ++ (sendLoop buf answers).2.1 = buf ∧
      ((sendLoop buf answers).2.2 = .done → (sendLoop buf answers).2.1 = []) := by
  fun_induction sendLoop buf answers with
  | case1 => exact ⟨rfl, fun _ => rfl⟩
  | case2 => exact ⟨rfl, fun h => SendEnd.noConfusion h⟩
  | case3 => exact ⟨rfl, fun h => SendEnd.noConfusion h⟩
  | case4 => exact ⟨rfl, fun h => SendEnd.noConfusion h⟩
  | case5 => exact ⟨rfl, fun h => SendEnd.noConfusion h⟩
  | case6 buf _ n answers _ sent rest how heq ih =>
    rw [heq] at ih
    refine ⟨?_, ih.2⟩
    rw [List.append_assoc, ih.1, List.take_append_drop]

theorem sendBodyLoop_spec (buf : List UInt8) (answers : List SendAnswer) :
    (sendBodyLoop buf answers).1 ++ (sendBodyLoop buf answers).2.1 = buf ∧
      ((sendBodyLoop buf answers).2.2 = .done → (sendBodyLoop buf answers).2.1 = []) := by
  fun_induction sendBodyLoop buf answers with
  | case1 => exact ⟨rfl, fun _ => rfl⟩
  | case2 => exact ⟨rfl, fun h => SendEnd.noConfusion h⟩
  | case3 => exact ⟨rfl, fun h => SendEnd.noConfusion h⟩
  | case4 => exact ⟨rfl, fun h => SendEnd.noConfusion h⟩
  | case5 buf _ n answers sent rest how heq ih =>
    rw [heq] at ih
    refine ⟨?_, ih.2⟩
    rw [List.append_assoc, ih.1, List.take_append_drop]

theorem Inv.updateFdInterest (h : f.Inv) : f.updateFdInterest.Inv := by
  rw [EgressFlow.updateFdInterest]
  split
  · exact h
  · exact ⟨h.downlink, h.downlinkEnded, h.downlinkStash, h.fin, h.uplink, h.uplinkEnded, h.uplinkStash⟩

theorem Inv.stampIf (h : f.Inv) (moved : Bool) (now : Nat) : (f.stampIf moved now).Inv := by
  rw [EgressFlow.stampIf]
  split
  · exact ⟨h.downlink, h.downlinkEnded, h.downlinkStash, h.fin, h.uplink, h.uplinkEnded, h.uplinkStash⟩
  · exact h

/-- The socket is shut down once the fin was seen and nothing is kept for it. -/
theorem Inv.maybeShutdownDownlink (h : f.Inv) : f.maybeShutdownDownlink.Inv := by
  rw [EgressFlow.maybeShutdownDownlink]
  split
  · exact h
  · rename_i hready
    simp only [Bool.or_eq_true, Bool.not_eq_true', not_or, Bool.not_eq_false, Bool.not_eq_true] at hready
    obtain ⟨⟨hfin, hpaused⟩, hfirst⟩ := hready
    have hdownlink := h.downlink
    rw [h.downlinkStash hpaused, hfirst] at hdownlink
    refine ⟨?_, h.downlinkEnded, h.downlinkStash, h.fin, h.uplink, h.uplinkEnded, h.uplinkStash⟩
    change f.downlink.close.Sound f.downlinkStash true
    rw [h.downlinkStash hpaused]
    exact hdownlink.close (h.downlinkEnded.trans (h.fin hfin))

theorem Inv.gotFin (h : f.Inv) (hfin : f.h3Fin = true) : f.gotFin.Inv := by
  have hseen : Inv { f with finReceivedFromH3 := true } :=
    ⟨h.downlink, h.downlinkEnded, h.downlinkStash, fun _ => hfin, h.uplink, h.uplinkEnded, h.uplinkStash⟩
  exact hseen.maybeShutdownDownlink

/-- After a read a part of the chunk is sent, and the rest is in hand. -/
theorem Inv.afterRecv (h : f.Inv) (hpaused : f.downlinkPaused = false) {chunk sent rest : List UInt8}
    (hsplit : sent ++ rest = chunk) (fin : Bool) :
    ((f.afterRecv chunk fin).downlink.pass sent).Sound rest f.downlinkShutdownDone ∧
      (f.afterRecv chunk fin).downlink.ended = (f.h3Fin || fin) := by
  have hsound := h.downlink.take chunk
  rw [h.downlinkStash hpaused, List.nil_append, ← hsplit] at hsound
  rw [EgressFlow.afterRecv]
  dsimp only
  split
  · rename_i hfin
    rw [hfin, Bool.or_true, ← hsplit]
    exact ⟨hsound.sawEnd.pass, rfl⟩
  · rename_i hfin
    rw [Bool.eq_false_iff.2 hfin, Bool.or_false, ← hsplit]
    exact ⟨hsound.pass, h.downlinkEnded⟩

/-- The drain sends each chunk before it reads the next one, or keeps the rest of it. -/
theorem Inv.drainLoop (h : f.Inv) (hpaused : f.downlinkPaused = false) {now : Nat} {moved : Bool}
    {rounds : List Round} (hok : (EgressFlow.drainLoop now f moved rounds).2 = true) :
    (EgressFlow.drainLoop now f moved rounds).1.Inv := by
  induction rounds generalizing f moved with
  | nil =>
    rw [EgressFlow.drainLoop]
    refine Inv.stampIf ?_ moved now
    split
    · -- the fin is reported again
      have hsound := (h.downlink.take []).sawEnd
      rw [List.append_nil] at hsound
      have hread : (f.afterRecv [] true).Inv :=
        ⟨hsound, (Bool.or_true _).symm, h.downlinkStash, fun _ => Bool.or_true _, h.uplink, h.uplinkEnded, h.uplinkStash⟩
      exact hread.gotFin (Bool.or_true _)
    · exact h
  | cons a as ih =>
    rw [EgressFlow.drainLoop] at hok ⊢
    split at hok
    · exact h.stampIf moved now
    · exact Bool.noConfusion hok
    · rename_i chunk fin _
      obtain ⟨hsplit, hdone⟩ := sendLoop_spec chunk a.sends
      obtain ⟨hsound, hended⟩ := h.afterRecv hpaused hsplit fin
      have hfinKept (hseen : f.finReceivedFromH3 = true) : (f.h3Fin || fin) = true := by
        rw [h.fin hseen, Bool.true_or]
      dsimp only at hok ⊢
      split at hok
      · exact Bool.noConfusion hok
      · split at hok
        · exact Bool.noConfusion hok
        · rename_i halloc
          rw [if_neg halloc]
          refine Inv.stampIf (Inv.updateFdInterest ?_) _ now
          exact ⟨hsound, hended, fun hopen => Bool.noConfusion hopen, hfinKept, h.uplink, h.uplinkEnded,
            h.uplinkStash⟩
      · rename_i hhow
        have hnext : Inv { f.afterRecv chunk fin with
            downlink := (f.afterRecv chunk fin).downlink.pass (sendLoop chunk a.sends).1 } := by
          rw [hdone hhow] at hsound
          refine ⟨?_, hended, h.downlinkStash, hfinKept, h.uplink, h.uplinkEnded, h.uplinkStash⟩
          change Direction.Sound _ f.downlinkStash _
          rw [h.downlinkStash hpaused]
          exact hsound
        split
        · rename_i hfin
          exact (hnext.gotFin (by change (f.h3Fin || fin) = true; rw [hfin, Bool.or_true])).stampIf _ now
        · rename_i hfin
          rw [if_neg hfin] at hok
          split
          · exact hnext.stampIf _ now
          · rename_i hchunk
            rw [if_neg hchunk] at hok
            exact ih hnext hpaused hok

theorem Inv.drainBody (h : f.Inv) {now : Nat} {rounds : List Round} (hok : (f.drainBody now rounds).2 = true) :
    (f.drainBody now rounds).1.Inv := by
  rw [EgressFlow.drainBody] at hok ⊢
  split
  · exact h
  · rename_i hpaused
    rw [if_neg hpaused] at hok
    exact h.drainLoop (Bool.eq_false_iff.2 hpaused) hok

theorem Inv.flushDownlinkRetry (h : f.Inv) {now : Nat} {sends : List SendAnswer} {rounds : List Round}
    (hok : (f.flushDownlinkRetry now sends rounds).2 = true) : (f.flushDownlinkRetry now sends rounds).1.Inv := by
  obtain ⟨hsplit, hdone⟩ := sendLoop_spec f.downlinkStash sends
  have hpass : (f.downlink.pass (sendLoop f.downlinkStash sends).1).Sound (sendLoop f.downlinkStash sends).2.1
      f.downlinkShutdownDone := by
    refine Direction.Sound.pass ?_
    rw [hsplit]
    exact h.downlink
  rw [EgressFlow.flushDownlinkRetry] at hok ⊢
  dsimp only at hok ⊢
  split at hok
  · exact Bool.noConfusion hok
  · split
    · exact h
    · rename_i hsome
      refine ⟨hpass, h.downlinkEnded, fun hopen => ?_, h.fin, h.uplink, h.uplinkEnded, h.uplinkStash⟩
      -- a flow that is not paused has nothing to flush
      exact (List.append_eq_nil_iff.1 (hsplit.trans (h.downlinkStash hopen))).2
  · rename_i hhow
    split
    · exact h
    · rename_i hsome
      rw [if_neg hsome] at hok
      rw [hdone hhow] at hpass
      have hflushed : Inv
          { f with
            downlink := f.downlink.pass (sendLoop f.downlinkStash sends).1
            lastActivityUs := now
            downlinkStash := []
            downlinkPaused := false } :=
        ⟨hpass, h.downlinkEnded, fun _ => rfl, h.fin, h.uplink, h.uplinkEnded, h.uplinkStash⟩
      exact hflushed.maybeShutdownDownlink.updateFdInterest.drainBody hok

/-! ## The uplink -/

/-- The end is sent with an empty stash. -/
theorem Inv.tryUplinkFin (h : f.Inv) (heof : f.egressEofSeen = true) (hstash : f.uplinkStash = []) (answer : SendAnswer) :
    (f.tryUplinkFin answer).1.Inv := by
  unfold EgressFlow.tryUplinkFin
  split
  · exact h
  · rename_i hfirst
    have huplink := h.uplink
    rw [hstash, Bool.eq_false_iff.2 hfirst] at huplink
    split
    · exact h
    · exact h
    · refine ⟨h.downlink, h.downlinkEnded, h.downlinkStash, h.fin, ?_, h.uplinkEnded, h.uplinkStash⟩
      change f.uplink.close.Sound f.uplinkStash true
      rw [hstash]
      exact huplink.close (h.uplinkEnded.trans heof)

theorem Inv.pendingUplinkFin (h : f.Inv) (hstash : f.uplinkStash = []) (answer : SendAnswer) :
    (f.pendingUplinkFin answer).1.Inv := by
  rw [EgressFlow.pendingUplinkFin]
  split
  · rename_i hpending
    exact h.tryUplinkFin (Bool.and_eq_true_iff.1 hpending).1 hstash answer
  · exact h

theorem Inv.onH3Writable (h : f.Inv) {now : Nat} {answers : List SendAnswer} {fin : SendAnswer}
    (hok : (f.onH3Writable now answers fin).2 = true) : (f.onH3Writable now answers fin).1.Inv := by
  obtain ⟨hsplit, hdone⟩ := sendBodyLoop_spec f.uplinkStash answers
  have hpass : (f.uplink.pass (sendBodyLoop f.uplinkStash answers).1).Sound (sendBodyLoop f.uplinkStash answers).2.1
      f.uplinkFinSent := by
    refine Direction.Sound.pass ?_
    rw [hsplit]
    exact h.uplink
  rw [EgressFlow.onH3Writable] at hok ⊢
  split
  · rename_i hwithheld
    rw [if_pos hwithheld] at hok
    dsimp only at hok ⊢
    split at hok
    · exact Bool.noConfusion hok
    · refine Inv.stampIf ?_ _ now
      exact ⟨h.downlink, h.downlinkEnded, h.downlinkStash, h.fin, hpass, h.uplinkEnded,
        fun hopen => absurd (hwithheld.symm.trans hopen) Bool.noConfusion⟩
    · rename_i hhow
      rw [hdone hhow] at hpass
      have hflushed : Inv
          { f with
            uplink := f.uplink.pass (sendBodyLoop f.uplinkStash answers).1
            uplinkStash := []
            uplinkWithheld := false } :=
        ⟨h.downlink, h.downlinkEnded, h.downlinkStash, h.fin, hpass, h.uplinkEnded, fun _ => rfl⟩
      have hnext := (hflushed.stampIf (!(sendBodyLoop f.uplinkStash answers).1.isEmpty) now).updateFdInterest
      refine hnext.pendingUplinkFin (hnext.uplinkStash ?_) fin
      rw [EgressFlow.updateFdInterest, EgressFlow.stampIf]
      split <;> split <;> rfl
  · rename_i hopen
    exact h.pendingUplinkFin (h.uplinkStash (Bool.eq_false_iff.2 hopen)) fin

theorem updateFdInterest_uplinkStash (f : EgressFlow) : f.updateFdInterest.uplinkStash = f.uplinkStash := by
  rw [EgressFlow.updateFdInterest]
  split <;> rfl

theorem updateFdInterest_egressEofSeen (f : EgressFlow) : f.updateFdInterest.egressEofSeen = f.egressEofSeen := by
  rw [EgressFlow.updateFdInterest]
  split <;> rfl

theorem Inv.gotEof (h : f.Inv) (hstash : f.uplinkStash = []) (fin : SendAnswer) : (f.gotEof fin).1.Inv := by
  have hseen : Inv { f with egressEofSeen := true, uplink := f.uplink.sawEnd } :=
    ⟨h.downlink, h.downlinkEnded, h.downlinkStash, h.fin, h.uplink.sawEnd, rfl, h.uplinkStash⟩
  refine hseen.updateFdInterest.tryUplinkFin ?_ ?_ fin
  · rw [updateFdInterest_egressEofSeen]
  · rw [updateFdInterest_uplinkStash]
    exact hstash

/-- What is received is accepted, or kept, before more is received. -/
theorem Inv.recvLoop (h : f.Inv) (hopen : f.uplinkWithheld = false) {now : Nat} {fin : SendAnswer}
    {recvs : List UplinkRound} (hok : (EgressFlow.recvLoop now fin f recvs).2 = true) :
    (EgressFlow.recvLoop now fin f recvs).1.Inv := by
  induction recvs generalizing f with
  | nil => exact h.updateFdInterest
  | cons a as ih =>
    have hstash := h.uplinkStash hopen
    rw [EgressFlow.recvLoop] at hok ⊢
    split at hok
    · exact h.updateFdInterest
    · exact Bool.noConfusion hok
    · exact h.gotEof hstash fin
    · rename_i data _
      dsimp only at hok ⊢
      split
      · exact h.gotEof hstash fin
      · rename_i hdata
        rw [if_neg hdata] at hok
        have htake := h.uplink.take (data.take egressChunk)
        rw [hstash, List.nil_append] at htake
        -- the part that is not accepted is kept
        have hkeep {g : EgressFlow} {rest : List UInt8} {alloc : Bool} (hg : g.uplink.Sound rest f.uplinkFinSent)
            (hsame : g = { f with lastActivityUs := now, uplink := g.uplink })
            (hended : g.uplink.ended = f.uplink.ended) (hok : (g.stashUplink rest alloc).2 = true) :
            (g.stashUplink rest alloc).1.Inv := by
          rw [EgressFlow.stashUplink] at hok ⊢
          split
          · rename_i halloc
            rw [if_pos halloc] at hok
            exact Bool.noConfusion hok
          · refine Inv.updateFdInterest ?_
            rw [hsame]
            exact ⟨h.downlink, h.downlinkEnded, h.downlinkStash, h.fin, hg, hended.trans h.uplinkEnded,
              fun hopen => Bool.noConfusion hopen⟩
        split at hok
        · exact Bool.noConfusion hok
        · exact hkeep htake rfl rfl hok
        · rename_i n _
          have hpass : ((f.uplink.take (data.take egressChunk)).pass ((data.take egressChunk).take n)).Sound
              ((data.take egressChunk).drop n) f.uplinkFinSent := by
            refine Direction.Sound.pass ?_
            rw [List.take_append_drop]
            exact htake
          split
          · rename_i hpart
            rw [if_pos hpart] at hok
            exact hkeep hpass rfl rfl hok
          · rename_i hpart
            rw [if_neg hpart] at hok
            rw [List.drop_eq_nil_of_le (Nat.le_of_not_lt hpart)] at hpass
            refine ih ⟨h.downlink, h.downlinkEnded, h.downlinkStash, h.fin, ?_, h.uplinkEnded, h.uplinkStash⟩ hopen hok
            change Direction.Sound _ f.uplinkStash _
            rw [hstash]
            exact hpass

/-! ## Runs -/

theorem Inv.onWriteReady (h : f.Inv) {writable : Bool} {now : Nat} {a : ReadyAnswers}
    (hok : (f.onWriteReady writable now a).2 = true) : (f.onWriteReady writable now a).1.Inv := by
  rw [EgressFlow.onWriteReady] at hok ⊢
  split
  · rename_i hpaused
    rw [if_pos hpaused] at hok
    exact h.flushDownlinkRetry hok
  · exact h

theorem Inv.onRelayReady (h : f.Inv) {readable writable : Bool} {now : Nat} {a : ReadyAnswers}
    (hok : (f.onRelayReady readable writable now a).2 = true) : (f.onRelayReady readable writable now a).1.Inv := by
  rw [EgressFlow.onRelayReady] at hok ⊢
  split
  · rename_i hdead
    rw [if_pos hdead] at hok
    exact h.onWriteReady hok
  · rename_i halive
    rw [if_neg halive] at hok
    rw [Bool.not_eq_true', Bool.not_eq_false] at halive
    split
    · rename_i hread
      rw [if_pos hread] at hok
      have hopen := (Bool.and_eq_true_iff.1 hread).2
      rw [Bool.not_eq_true'] at hopen
      exact (h.onWriteReady halive).recvLoop hopen hok
    · exact (h.onWriteReady halive).updateFdInterest

theorem Inv.onConnected (h : f.Inv) {now : Nat} {rounds : List Round} (hok : (f.onConnected now rounds).2 = true) :
    (f.onConnected now rounds).1.Inv := by
  have hactive : Inv { f with state := .active, lastActivityUs := now } :=
    ⟨h.downlink, h.downlinkEnded, h.downlinkStash, h.fin, h.uplink, h.uplinkEnded, h.uplinkStash⟩
  exact hactive.updateFdInterest.drainBody hok

theorem Inv.outcome {r : EgressFlow × Bool} (h : r.2 = true → r.1.Inv) (hok : (EgressFlow.outcome r).2 = .alive) :
    (EgressFlow.outcome r).1.Inv := by
  refine h ?_
  rw [EgressFlow.outcome] at hok
  split at hok
  · assumption
  · exact Outcome.noConfusion hok

/-- A flow that is alive after a step has kept its histories. -/
theorem Inv.step (h : f.Inv) {step : Step} (hok : (f.step step).2 = .alive) : (f.step step).1.Inv := by
  cases step with
  | connected now rounds =>
    rw [EgressFlow.step] at hok ⊢
    split
    · rename_i hconnecting
      rw [if_pos hconnecting] at hok
      exact Inv.outcome h.onConnected hok
    · exact h
  | body now rounds =>
    refine Inv.outcome (fun hr => ?_) hok
    rw [EgressFlow.onBody] at hr ⊢
    split
    · exact h
    · rename_i hactive
      rw [if_neg hactive] at hr
      exact h.drainBody hr
  | writable now answers fin => exact Inv.outcome h.onH3Writable hok
  | ready readable writable soError now a =>
    rw [EgressFlow.step, EgressFlow.fdReady] at hok ⊢
    split
    · rename_i hconnecting
      rw [if_pos hconnecting] at hok
      split
      · exact h
      · rename_i hfine
        rw [if_neg hfine] at hok
        exact Inv.outcome h.onConnected hok
    · rename_i hready
      rw [if_neg hready] at hok
      exact Inv.outcome h.onRelayReady hok

/-- The histories of both directions: what was sent and what is kept are what was read, and
    each end was passed on at most once, when it was seen and after everything that was read. -/
structure Exact (f : EgressFlow) : Prop where
  downlink : f.downlink.output ++ f.downlinkStash = f.downlink.input
  uplink : f.uplink.output ++ f.uplinkStash = f.uplink.input
  shutdown_once : f.downlink.closings.length ≤ 1
  shutdown_last : ∀ c ∈ f.downlink.closings, c.ended = true ∧ c.output = c.input
  fin_once : f.uplink.closings.length ≤ 1
  fin_last : ∀ c ∈ f.uplink.closings, c.ended = true ∧ c.output = c.input

/-- In every run of a flow without a relay error both directions are exact. -/
theorem relay_exact (fd h3Request stream connectDeadlineUs now : Nat) (steps : List Step) :
    let s := (connecting fd h3Request stream connectDeadlineUs now).run steps
    s.2 = .alive → s.1.Exact := by
  intro s hok
  have hstart : (connecting fd h3Request stream connectDeadlineUs now).Inv :=
    ⟨Direction.Sound.initial, rfl, fun _ => rfl, fun h => Bool.noConfusion h, Direction.Sound.initial, rfl,
      fun _ => rfl⟩
  have hrun : s.2 = .alive → s.1.Inv := by
    refine List.foldlRecOn (motive := fun t : EgressFlow × Outcome => t.2 = .alive → t.1.Inv) steps relayStep
      (fun _ => hstart) fun t ht step _ => ?_
    rw [relayStep]
    split
    · rename_i halive
      exact (ht halive).step
    · exact ht
  have hinv := hrun hok
  exact ⟨hinv.downlink.conserves, hinv.uplink.conserves, hinv.downlink.closings_le, hinv.downlink.complete,
    hinv.uplink.closings_le, hinv.uplink.complete⟩

/-- The fin comes with a chunk that the socket takes in two parts, and the socket ends while the
    request takes nothing. -/
theorem relay_exact_sample :
    ((connecting 5 1 2 9 0).run
        [.connected 1 [⟨.data [1, 2, 3] true, [.accept 2], true⟩],
          .ready true true false 2 ⟨[.accept 9], [], [⟨.data [7, 8], .accept 1, true⟩, ⟨.eof, .again, true⟩], .again⟩,
          .writable 3 [.accept 5] .again, .ready true false false 4 ⟨[], [], [⟨.eof, .again, true⟩], .again⟩,
          .writable 5 [] (.accept 0)]).1.Exact ∧
      ((connecting 5 1 2 9 0).run
        [.connected 1 [⟨.data [1, 2, 3] true, [.accept 2], true⟩],
          .ready true true false 2 ⟨[.accept 9], [], [⟨.data [7, 8], .accept 1, true⟩, ⟨.eof, .again, true⟩], .again⟩,
          .writable 3 [.accept 5] .again, .ready true false false 4 ⟨[], [], [⟨.eof, .again, true⟩], .again⟩,
          .writable 5 [] (.accept 0)]).1.downlink.closings.length = 1 :=
  ⟨relay_exact 5 1 2 9 0 _ (by decide +kernel), by decide +kernel⟩

end EgressFlow

end Mqvpn.Hybrid
