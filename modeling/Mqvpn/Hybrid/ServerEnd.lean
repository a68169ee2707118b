import Mqvpn.Hybrid.EgressInterest

/-!
# The server's end of a request

A flow of the egress whose request is joined to the other end: its reads are those of the
stream (`EgressFlow.Step.fed`). In every step, also in one that fails, what the flow has
passed on is what it took in first, in both directions.
-/

namespace Mqvpn.Hybrid

open Relay Direction

namespace EgressFlow

variable {f : EgressFlow} {d : Direction UInt8}

/-- The reads of the rounds are those of the stream of `d`. -/
def fedRounds (d : Direction UInt8) (f : EgressFlow) (rounds : List Round) : List Round :=
  feed Round.recv (fun r recv => { r with recv }) egressChunk d.finished (inFlight d f.downlink) rounds

def Step.fed (d : Direction UInt8) (f : EgressFlow) : Step → Step
  | .connected now rounds => .connected now (fedRounds d f rounds)
  | .body now rounds => .body now (fedRounds d f rounds)
  | .writable now answers fin => .writable now answers fin
  | .ready r w soError now a => .ready r w soError now { a with rounds := fedRounds d f a.rounds }

/-- What a step makes of a flow with the uplink `u`: the downlink reads what is in flight, the
    uplink goes on, and both stay faithful. -/
structure Joined (d u : Direction UInt8) (f : EgressFlow) : Prop where
  carried : Carried d f.downlink
  faithful : f.downlink.Faithful
  advances : Advances u f.uplink

theorem Joined.trans {u : Direction UInt8} {f' : EgressFlow} (h : Joined d u f) (h' : Joined d f.uplink f') :
    Joined d u f' :=
  ⟨h'.carried, h'.faithful, h.advances.trans h'.advances⟩

/-- A change that is not about the streams. -/
theorem Joined.congr {u : Direction UInt8} {f' : EgressFlow} (h : Joined d u f) (hdownlink : f'.downlink = f.downlink)
    (huplink : f'.uplink = f.uplink) : Joined d u f' :=
  ⟨hdownlink ▸ h.carried, hdownlink ▸ h.faithful, huplink ▸ h.advances⟩

theorem Inv.joined_refl (h : f.Inv) (hcarried : Carried d f.downlink) : Joined d f.uplink f :=
  ⟨hcarried, h.downlink.faithful, .refl h.uplink.faithful⟩

theorem downlink_updateFdInterest (f : EgressFlow) : f.updateFdInterest.downlink = f.downlink := by
  rw [updateFdInterest]
  split <;> rfl

theorem uplink_updateFdInterest (f : EgressFlow) : f.updateFdInterest.uplink = f.uplink := by
  rw [updateFdInterest]
  split <;> rfl

theorem downlink_stampIf (f : EgressFlow) (moved : Bool) (now : Nat) : (f.stampIf moved now).downlink = f.downlink := by
  rw [stampIf]
  split <;> rfl

theorem uplink_stampIf (f : EgressFlow) (moved : Bool) (now : Nat) : (f.stampIf moved now).uplink = f.uplink := by
  rw [stampIf]
  split <;> rfl

/-! ## The downlink -/

theorem Inv.joined_maybeShutdownDownlink (h : f.Inv) (hcarried : Carried d f.downlink) :
    Joined d f.uplink f.maybeShutdownDownlink := by
  have hshut := h.maybeShutdownDownlink.downlink.faithful
  rw [EgressFlow.maybeShutdownDownlink] at hshut ⊢
  split
  · exact h.joined_refl hcarried
  · rename_i hready
    rw [if_neg hready] at hshut
    simp only [Bool.or_eq_true, Bool.not_eq_true', not_or, Bool.not_eq_false, Bool.not_eq_true] at hready
    exact ⟨hcarried.close (h.downlinkEnded.trans (h.fin hready.1.1)), hshut, .refl h.uplink.faithful⟩

theorem Inv.joined_gotFin (h : f.Inv) (hcarried : Carried d f.downlink) (hfin : f.h3Fin = true) : Joined d f.uplink f.gotFin := by
  have hseen : Inv { f with finReceivedFromH3 := true } :=
    ⟨h.downlink, h.downlinkEnded, h.downlinkStash, fun _ => hfin, h.uplink, h.uplinkEnded, h.uplinkStash⟩
  exact hseen.joined_maybeShutdownDownlink hcarried

/-- The drain reads what is in flight. -/
theorem Inv.joined_drainLoop (h : f.Inv) (hpaused : f.downlinkPaused = false) (hcarried : Carried d f.downlink)
    (now : Nat) (moved : Bool) (rounds : List Round) :
    Joined d f.uplink (EgressFlow.drainLoop now f moved (fedRounds d f rounds)).1 := by
  rw [fedRounds]
  induction rounds generalizing f moved with
  | nil =>
    rw [feed, EgressFlow.drainLoop]
    refine Joined.congr ?_ (downlink_stampIf _ _ _) (uplink_stampIf _ _ _)
    split
    · rename_i hfin
      have hall := hcarried.ended (h.downlinkEnded.trans hfin)
      have htake : Carried d (f.downlink.take []) := hcarried.take List.nil_prefix
      have hread : Carried d (f.afterRecv [] true).downlink :=
        htake.sawEnd hall.1 ((List.append_nil f.downlink.input).trans hall.2)
      have hsound := (h.downlink.take []).sawEnd
      rw [List.append_nil] at hsound
      have hinv : (f.afterRecv [] true).Inv :=
        ⟨hsound, (Bool.or_true _).symm, h.downlinkStash, fun _ => Bool.or_true _, h.uplink, h.uplinkEnded, h.uplinkStash⟩
      exact hinv.joined_gotFin hread (Bool.or_true _)
    · exact h.joined_refl hcarried
  | cons a as ih =>
    rw [feed, EgressFlow.drainLoop]
    split
    · exact (h.joined_refl hcarried).congr (downlink_stampIf _ _ _) (uplink_stampIf _ _ _)
    · exact h.joined_refl hcarried
    · rename_i chunk fin hread
      obtain ⟨hread, hrest, -⟩ := carried_read hcarried h.downlinkEnded hread
      obtain ⟨hsplit, hdone⟩ := sendLoop_spec chunk a.sends
      obtain ⟨hsound, hended⟩ := h.afterRecv hpaused hsplit fin
      have hfinKept (hseen : f.finReceivedFromH3 = true) : (f.h3Fin || fin) = true := by
        rw [h.fin hseen, Bool.true_or]
      -- what was sent is passed on, also if the socket fails
      have hsent : Joined d f.uplink { f.afterRecv chunk fin with
          downlink := (f.afterRecv chunk fin).downlink.pass (sendLoop chunk a.sends).1 } :=
        ⟨Carried.pass hread _, hsound.faithful, .refl h.uplink.faithful⟩
      dsimp only
      split
      · exact hsent
      · split
        · exact hsent
        · refine Joined.congr hsent ?_ ?_
          · rw [downlink_stampIf, downlink_updateFdInterest]
          · rw [uplink_stampIf, uplink_updateFdInterest]
      · rename_i hhow
        have hnext : Inv { f.afterRecv chunk fin with
            downlink := (f.afterRecv chunk fin).downlink.pass (sendLoop chunk a.sends).1 } := by
          rw [hdone hhow] at hsound
          refine ⟨?_, hended, h.downlinkStash, hfinKept, h.uplink, h.uplinkEnded, h.uplinkStash⟩
          change Direction.Sound _ f.downlinkStash _
          rw [h.downlinkStash hpaused]
          exact hsound
        split
        · rename_i hfin
          have hgot := hnext.joined_gotFin hsent.carried (by change (f.h3Fin || fin) = true; rw [hfin, Bool.or_true])
          exact (hsent.trans hgot).congr (downlink_stampIf _ _ _) (uplink_stampIf _ _ _)
        · split
          · exact hsent.congr (downlink_stampIf _ _ _) (uplink_stampIf _ _ _)
          · rw [hrest]
            exact hsent.trans (ih hnext hpaused hsent.carried _)

theorem Inv.joined_drainBody (h : f.Inv) (hcarried : Carried d f.downlink) (now : Nat) (rounds : List Round) :
    Joined d f.uplink (f.drainBody now (fedRounds d f rounds)).1 := by
  rw [EgressFlow.drainBody]
  split
  · exact h.joined_refl hcarried
  · rename_i hpaused
    exact h.joined_drainLoop (Bool.eq_false_iff.2 hpaused) hcarried now false rounds

/-- Later reads are fed the same after a function that reads nothing. -/
theorem fedRounds_congr {f' : EgressFlow} (h : f'.downlink.input = f.downlink.input) (rounds : List Round) :
    fedRounds d f' rounds = fedRounds d f rounds := by
  rw [fedRounds, fedRounds, inFlight, inFlight, h]

theorem Inv.joined_flushDownlinkRetry (h : f.Inv) (hcarried : Carried d f.downlink) (now : Nat) (sends : List SendAnswer)
    (rounds : List Round) : Joined d f.uplink (f.flushDownlinkRetry now sends (fedRounds d f rounds)).1 := by
  obtain ⟨hsplit, hdone⟩ := sendLoop_spec f.downlinkStash sends
  have hpass : (f.downlink.pass (sendLoop f.downlinkStash sends).1).Sound (sendLoop f.downlinkStash sends).2.1
      f.downlinkShutdownDone := by
    refine Direction.Sound.pass ?_
    rw [hsplit]
    exact h.downlink
  have hsent : Joined d f.uplink { f with downlink := f.downlink.pass (sendLoop f.downlinkStash sends).1 } :=
    ⟨hcarried.pass _, hpass.faithful, .refl h.uplink.faithful⟩
  rw [EgressFlow.flushDownlinkRetry]
  dsimp only
  split
  · exact hsent
  · split
    · exact h.joined_refl hcarried
    · exact hsent.congr rfl rfl
  · rename_i hhow
    split
    · exact h.joined_refl hcarried
    · rw [hdone hhow] at hpass
      have hflushed : Inv
          { f with
            downlink := f.downlink.pass (sendLoop f.downlinkStash sends).1
            lastActivityUs := now
            downlinkStash := []
            downlinkPaused := false } :=
        ⟨hpass, h.downlinkEnded, fun _ => rfl, h.fin, h.uplink, h.uplinkEnded, h.uplinkStash⟩
      have hshut := hflushed.joined_maybeShutdownDownlink hsent.carried
      have hready := hshut.congr (downlink_updateFdInterest _) (uplink_updateFdInterest _)
      have hdrain := hflushed.maybeShutdownDownlink.updateFdInterest.joined_drainBody hready.carried now rounds
      rw [fedRounds_congr (f := f) (by rw [downlink_updateFdInterest, input_maybeShutdownDownlink]; rfl)] at hdrain
      exact (hsent.congr rfl rfl).trans (hready.trans hdrain)

/-! ## The uplink -/

/-- The uplink goes on, and the rest of the flow that matters to the downlink stays. -/
structure Uploads (u : Direction UInt8) (f f' : EgressFlow) : Prop where
  advances : Advances u f'.uplink
  downlink : f'.downlink = f.downlink

theorem Uploads.congr {u : Direction UInt8} {f' f'' : EgressFlow} (h : Uploads u f f')
    (hdownlink : f''.downlink = f'.downlink) (huplink : f''.uplink = f'.uplink) : Uploads u f f'' :=
  ⟨huplink ▸ h.advances, hdownlink.trans h.downlink⟩

theorem Uploads.joined {u : Direction UInt8} {f' : EgressFlow} (h : Uploads u f f') (hf : f.Inv)
    (hcarried : Carried d f.downlink) : Joined d u f' :=
  ⟨h.downlink ▸ hcarried, h.downlink ▸ hf.downlink.faithful, h.advances⟩

theorem Inv.uploads_refl (h : f.Inv) : Uploads f.uplink f f := ⟨.refl h.uplink.faithful, rfl⟩

theorem Inv.uploads_tryUplinkFin (h : f.Inv) (heof : f.egressEofSeen = true) (hstash : f.uplinkStash = [])
    (answer : SendAnswer) : Uploads f.uplink f (f.tryUplinkFin answer).1 := by
  have hfaithful := (h.tryUplinkFin heof hstash answer).uplink.faithful
  unfold EgressFlow.tryUplinkFin at hfaithful ⊢
  split
  · exact h.uploads_refl
  · rename_i hfirst
    rw [if_neg hfirst] at hfaithful
    cases answer with
    | again => exact h.uploads_refl
    | err => exact h.uploads_refl
    | accept n => exact ⟨⟨.close _, hfaithful⟩, rfl⟩

theorem Inv.uploads_pendingUplinkFin (h : f.Inv) (hstash : f.uplinkStash = []) (answer : SendAnswer) :
    Uploads f.uplink f (f.pendingUplinkFin answer).1 := by
  rw [EgressFlow.pendingUplinkFin]
  split
  · rename_i hpending
    exact h.uploads_tryUplinkFin (Bool.and_eq_true_iff.1 hpending).1 hstash answer
  · exact h.uploads_refl

theorem Inv.uploads_onH3Writable (h : f.Inv) (now : Nat) (answers : List SendAnswer) (fin : SendAnswer) :
    Uploads f.uplink f (f.onH3Writable now answers fin).1 := by
  obtain ⟨hsplit, hdone⟩ := sendBodyLoop_spec f.uplinkStash answers
  have hsent : Uploads f.uplink f { f with uplink := f.uplink.pass (sendBodyLoop f.uplinkStash answers).1 } :=
    ⟨h.uplink.advances_pass ⟨_, hsplit⟩, rfl⟩
  rw [EgressFlow.onH3Writable]
  split
  · dsimp only
    split
    · exact hsent
    · exact hsent.congr (downlink_stampIf _ _ _) (uplink_stampIf _ _ _)
    · rename_i hhow
      have hpass : (f.uplink.pass (sendBodyLoop f.uplinkStash answers).1).Sound (sendBodyLoop f.uplinkStash answers).2.1
          f.uplinkFinSent := by
        refine Direction.Sound.pass ?_
        rw [hsplit]
        exact h.uplink
      rw [hdone hhow] at hpass
      have hflushed : Inv
          { f with
            uplink := f.uplink.pass (sendBodyLoop f.uplinkStash answers).1
            uplinkStash := []
            uplinkWithheld := false } :=
        ⟨h.downlink, h.downlinkEnded, h.downlinkStash, h.fin, hpass, h.uplinkEnded, fun _ => rfl⟩
      have hnext := (hflushed.stampIf (!(sendBodyLoop f.uplinkStash answers).1.isEmpty) now).updateFdInterest
      have hfin := hnext.uploads_pendingUplinkFin (hnext.uplinkStash (by
        rw [EgressFlow.updateFdInterest, EgressFlow.stampIf]
        split <;> split <;> rfl)) fin
      rw [uplink_updateFdInterest, uplink_stampIf] at hfin
      refine ⟨hsent.advances.trans hfin.advances, hfin.downlink.trans ?_⟩
      rw [downlink_updateFdInterest, downlink_stampIf]
  · rename_i hopen
    exact h.uploads_pendingUplinkFin (h.uplinkStash (Bool.eq_false_iff.2 hopen)) fin

theorem Inv.uploads_gotEof (h : f.Inv) (hstash : f.uplinkStash = []) (fin : SendAnswer) :
    Uploads f.uplink f (f.gotEof fin).1 := by
  have hseen : Inv { f with egressEofSeen := true, uplink := f.uplink.sawEnd } :=
    ⟨h.downlink, h.downlinkEnded, h.downlinkStash, h.fin, h.uplink.sawEnd, rfl, h.uplinkStash⟩
  have hfin := hseen.updateFdInterest.uploads_tryUplinkFin (by rw [updateFdInterest_egressEofSeen])
    (by rw [updateFdInterest_uplinkStash]; exact hstash) fin
  rw [uplink_updateFdInterest] at hfin
  have hend : Advances f.uplink f.uplink.sawEnd := ⟨.sawEnd _, h.uplink.faithful.sawEnd⟩
  exact ⟨hend.trans hfin.advances, hfin.downlink.trans (downlink_updateFdInterest _)⟩

/-- What is received is accepted, or kept, or lost with the relay. -/
theorem Inv.uploads_recvLoop (h : f.Inv) (hopen : f.uplinkWithheld = false) (now : Nat) (fin : SendAnswer)
    (recvs : List UplinkRound) : Uploads f.uplink f (EgressFlow.recvLoop now fin f recvs).1 := by
  induction recvs generalizing f with
  | nil => exact h.uploads_refl.congr (downlink_updateFdInterest _) (uplink_updateFdInterest _)
  | cons a as ih =>
    have hstash := h.uplinkStash hopen
    rw [EgressFlow.recvLoop]
    split
    · exact h.uploads_refl.congr (downlink_updateFdInterest _) (uplink_updateFdInterest _)
    · exact h.uploads_refl
    · exact h.uploads_gotEof hstash fin
    · rename_i data _
      dsimp only
      split
      · exact h.uploads_gotEof hstash fin
      · have htake := h.uplink.take (data.take egressChunk)
        rw [hstash, List.nil_append] at htake
        have hgrows : Grows f.uplink (f.uplink.take (data.take egressChunk)) := .take _ _
        -- the part that is not accepted is kept, if there is memory for it
        have hkeep {g : EgressFlow} {rest : List UInt8} (alloc : Bool) (hg : Uploads f.uplink f g) :
            Uploads f.uplink f (g.stashUplink rest alloc).1 := by
          rw [EgressFlow.stashUplink]
          split
          · exact hg
          · exact hg.congr (downlink_updateFdInterest _) (uplink_updateFdInterest _)
        split
        · exact ⟨⟨hgrows, htake.faithful⟩, rfl⟩
        · exact hkeep a.alloc ⟨⟨hgrows, htake.faithful⟩, rfl⟩
        · rename_i n _
          have hpass : ((f.uplink.take (data.take egressChunk)).pass ((data.take egressChunk).take n)).Sound
              ((data.take egressChunk).drop n) f.uplinkFinSent := by
            refine Direction.Sound.pass ?_
            rw [List.take_append_drop]
            exact htake
          have hsent : Advances f.uplink ((f.uplink.take (data.take egressChunk)).pass ((data.take egressChunk).take n)) :=
            ⟨hgrows.trans (.pass _ _), hpass.faithful⟩
          split
          · exact hkeep a.alloc ⟨hsent, rfl⟩
          · rename_i hpart
            rw [List.drop_eq_nil_of_le (Nat.le_of_not_lt hpart)] at hpass
            have hnext : Inv
                { f with
                  lastActivityUs := now
                  uplink := (f.uplink.take (data.take egressChunk)).pass ((data.take egressChunk).take n) } := by
              refine ⟨h.downlink, h.downlinkEnded, h.downlinkStash, h.fin, ?_, h.uplinkEnded, h.uplinkStash⟩
              change Direction.Sound _ f.uplinkStash _
              rw [hstash]
              exact hpass
            have hrest := ih hnext hopen
            exact ⟨hsent.trans hrest.advances, hrest.downlink⟩

/-! ## Steps -/

theorem Inv.joined_onWriteReady (h : f.Inv) (hcarried : Carried d f.downlink) (writable : Bool) (now : Nat)
    (a : ReadyAnswers) :
    Joined d f.uplink (f.onWriteReady writable now { a with rounds := fedRounds d f a.rounds }).1 := by
  rw [EgressFlow.onWriteReady]
  split
  · exact h.joined_flushDownlinkRetry hcarried now a.sends a.rounds
  · exact h.joined_refl hcarried

theorem Inv.joined_onRelayReady (h : f.Inv) (hcarried : Carried d f.downlink) (readable writable : Bool) (now : Nat)
    (a : ReadyAnswers) :
    Joined d f.uplink (f.onRelayReady readable writable now { a with rounds := fedRounds d f a.rounds }).1 := by
  have hwrite := h.joined_onWriteReady hcarried writable now a
  rw [EgressFlow.onRelayReady]
  dsimp only
  split
  · exact hwrite
  · rename_i halive
    rw [Bool.not_eq_true', Bool.not_eq_false] at halive
    have hinv := h.onWriteReady halive
    split
    · rename_i hread
      have hopen := (Bool.and_eq_true_iff.1 hread).2
      rw [Bool.not_eq_true'] at hopen
      exact hwrite.trans ((hinv.uploads_recvLoop hopen now a.fin a.recvs).joined hinv hwrite.carried)
    · exact hwrite.congr (downlink_updateFdInterest _) (uplink_updateFdInterest _)

theorem Inv.joined_onConnected (h : f.Inv) (hcarried : Carried d f.downlink) (now : Nat) (rounds : List Round) :
    Joined d f.uplink (f.onConnected now (fedRounds d f rounds)).1 := by
  have hactive : Inv { f with state := .active, lastActivityUs := now } :=
    ⟨h.downlink, h.downlinkEnded, h.downlinkStash, h.fin, h.uplink, h.uplinkEnded, h.uplinkStash⟩
  have hready : Joined d f.uplink (EgressFlow.updateFdInterest { f with state := .active, lastActivityUs := now }) :=
    (h.joined_refl hcarried).congr (downlink_updateFdInterest _) (uplink_updateFdInterest _)
  have hdrain := hactive.updateFdInterest.joined_drainBody hready.carried now rounds
  rw [fedRounds_congr (f := f) (by rw [downlink_updateFdInterest])] at hdrain
  exact hready.trans hdrain

/-- Both directions go on in every step. -/
theorem Inv.joined_step (h : f.Inv) (hcarried : Carried d f.downlink) (step : Step) :
    Joined d f.uplink (f.step (step.fed d f)).1 := by
  cases step with
  | connected now rounds =>
    rw [Step.fed, EgressFlow.step]
    split
    · exact h.joined_onConnected hcarried now rounds
    · exact h.joined_refl hcarried
  | body now rounds =>
    rw [Step.fed, EgressFlow.step, EgressFlow.onBody]
    split
    · exact h.joined_refl hcarried
    · exact h.joined_drainBody hcarried now rounds
  | writable now answers fin => exact (h.uploads_onH3Writable now answers fin).joined h hcarried
  | ready readable writable soError now a =>
    rw [Step.fed, EgressFlow.step, EgressFlow.fdReady]
    split
    · split
      · exact h.joined_refl hcarried
      · exact h.joined_onConnected hcarried now a.rounds
    · exact h.joined_onRelayReady hcarried readable writable now a

end EgressFlow

end Mqvpn.Hybrid
