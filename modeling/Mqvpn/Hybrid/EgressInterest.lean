import Mqvpn.Hybrid.EgressRelay

/-!
# What wakes a flow of the egress

A flow is moved by the readiness of its socket, for which it registers an interest, and by the
notifications of its request. After each handler the interest is the one that the flags of the
flow ask for, a flag is only set with something in its stash, and a flow that is not paused has
read the body of the request up to a would-block or the fin (`EgressFlow.wake_ups_kept`). So
what waits in a stash waits for an event that is armed, and the body holds nothing that arrived
before the last notification.

The reads of the body are recorded beside the flow, in the order in which they are made
(`EgressFlow.watch`).
-/

namespace Mqvpn.Hybrid

/-- The answer ends a drain of the body: nothing is left for now, or nothing will follow. -/
def RecvAnswer.Ends : RecvAnswer → Prop
  | .again => True
  | .data _ fin => fin = true
  | .err => False

/-- The bytes of a read. -/
def RecvAnswer.bytes : RecvAnswer → List UInt8
  | .data chunk _ => chunk
  | _ => []

/-- The last of the reads has ended a drain. -/
def Drained (reads : List RecvAnswer) : Prop := ∃ answer ∈ reads.getLast?, answer.Ends

theorem Drained.append {reads : List RecvAnswer} (h : Drained reads) (earlier : List RecvAnswer) :
    Drained (earlier ++ reads) := by
  obtain ⟨answer, hlast, hends⟩ := h
  refine ⟨answer, ?_, hends⟩
  rw [List.getLast?_append, Option.mem_def.1 hlast]
  rfl

namespace EgressFlow

variable (f : EgressFlow)

/-! ## The reads of a handler -/

/-- The answers of `xqc_h3_request_recv_body` in the loop of `svr_tcp_egress_drain_body`. -/
def drainReads : Bool → List Round → List RecvAnswer
  | h3Fin, [] => [if h3Fin then .data [] true else .again]
  | h3Fin, a :: as =>
    match recvBody egressChunk h3Fin a.recv with
    | .again => [.again]
    | .err => [.err]
    | .data chunk fin =>
      .data chunk fin ::
        match (sendLoop chunk a.sends).2.2 with
        | .done => if fin || chunk.isEmpty then [] else drainReads (h3Fin || fin) as
        | _ => []

/-- Those of `svr_tcp_egress_drain_body` -/
def bodyReads (rounds : List Round) : List RecvAnswer :=
  if f.downlinkPaused then [] else drainReads f.h3Fin rounds

/-- Those of `svr_tcp_egress_flush_downlink_retry`: it drains the body once the stash is empty. -/
def flushReads (sends : List SendAnswer) (rounds : List Round) : List RecvAnswer :=
  match sendLoop f.downlinkStash sends with
  | (sent, _, .done) => if sent = [] then [] else drainReads f.h3Fin rounds
  | _ => []

/-- Those of the first part of `svr_tcp_egress_on_relay_ready`. -/
def readyReads (writable : Bool) (a : ReadyAnswers) : List RecvAnswer :=
  if writable && f.downlinkPaused then f.flushReads a.sends a.rounds else []

/-- Those of a handler. -/
def reads : Step → List RecvAnswer
  | .connected _ rounds => if f.state = .connecting then f.bodyReads rounds else []
  | .body _ rounds => if f.state ≠ .active then [] else f.bodyReads rounds
  | .writable _ _ _ => []
  | .ready _ writable soError _ a =>
    if f.state = .connecting ∧ writable then (if soError then [] else f.bodyReads a.rounds)
    else f.readyReads writable a

/-- A step of a flow that is still there, with the reads so far. -/
def watchStep (w : (EgressFlow × Outcome) × List RecvAnswer) (step : Step) :
    (EgressFlow × Outcome) × List RecvAnswer :=
  match w.1.2 with
  | .alive => (relayStep w.1 step, w.2 ++ w.1.1.reads step)
  | _ => w

/-- A run of the flow, with the reads of the body. -/
def watch (steps : List Step) : (EgressFlow × Outcome) × List RecvAnswer :=
  steps.foldl watchStep ((f, .alive), [])

/-- The record does not interfere with the flow. -/
theorem watch_run (steps : List Step) : (f.watch steps).1 = f.run steps := by
  rw [watch, run]
  refine (List.foldl_hom Prod.fst fun w step => ?_).symm
  obtain ⟨⟨g, outcome⟩, reads⟩ := w
  cases outcome <;> rfl

/-! ## What is registered -/

/-- The interest is the one that the flags ask for, and what is stopped has something to wait for. -/
structure Watched : Prop where
  interest : f.state = .active → f.interest = some (!f.uplinkWithheld && !f.egressEofSeen, f.downlinkPaused)
  downlinkStash : f.downlinkPaused = true → f.downlinkStash ≠ []
  uplinkStash : f.uplinkWithheld = true → f.uplinkStash ≠ []

/-- The part of the flow that the uplink leaves alone. -/
def downlinkSide : EgressState × Bool × Relay.Direction UInt8 := (f.state, f.downlinkPaused, f.downlink)

variable {f} {g : EgressFlow}

/-- Only the stashes matter where the interest is registered anew. -/
theorem watched_updateFdInterest (hdownlink : f.downlinkPaused = true → f.downlinkStash ≠ [])
    (huplink : f.uplinkWithheld = true → f.uplinkStash ≠ []) : f.updateFdInterest.Watched := by
  rw [updateFdInterest]
  split
  · rename_i hstate
    exact ⟨fun hactive => absurd hactive hstate, hdownlink, huplink⟩
  · exact ⟨fun _ => rfl, hdownlink, huplink⟩

theorem Watched.updateFdInterest (h : f.Watched) : f.updateFdInterest.Watched :=
  watched_updateFdInterest h.downlinkStash h.uplinkStash

theorem Watched.stampIf (h : f.Watched) (moved : Bool) (now : Nat) : (f.stampIf moved now).Watched := by
  rw [EgressFlow.stampIf]
  split
  · exact ⟨h.interest, h.downlinkStash, h.uplinkStash⟩
  · exact h

theorem Watched.maybeShutdownDownlink (h : f.Watched) : f.maybeShutdownDownlink.Watched := by
  rw [EgressFlow.maybeShutdownDownlink]
  split
  · exact h
  · exact ⟨h.interest, h.downlinkStash, h.uplinkStash⟩

theorem Watched.gotFin (h : f.Watched) : f.gotFin.Watched :=
  maybeShutdownDownlink ⟨h.interest, h.downlinkStash, h.uplinkStash⟩

@[simp] theorem downlinkSide_updateFdInterest : f.updateFdInterest.downlinkSide = f.downlinkSide := by
  rw [updateFdInterest]
  split <;> rfl

@[simp] theorem downlinkSide_stampIf (moved : Bool) (now : Nat) :
    (f.stampIf moved now).downlinkSide = f.downlinkSide := by
  rw [stampIf]
  split <;> rfl

@[simp] theorem downlinkSide_tryUplinkFin (answer : SendAnswer) :
    (f.tryUplinkFin answer).1.downlinkSide = f.downlinkSide := by
  unfold tryUplinkFin
  split
  · rfl
  · split <;> rfl

@[simp] theorem input_maybeShutdownDownlink : f.maybeShutdownDownlink.downlink.input = f.downlink.input := by
  rw [maybeShutdownDownlink]
  split <;> rfl

@[simp] theorem downlinkPaused_maybeShutdownDownlink : f.maybeShutdownDownlink.downlinkPaused = f.downlinkPaused := by
  rw [maybeShutdownDownlink]
  split <;> rfl

@[simp] theorem h3Fin_maybeShutdownDownlink : f.maybeShutdownDownlink.h3Fin = f.h3Fin := by
  rw [maybeShutdownDownlink]
  split <;> rfl

@[simp] theorem h3Fin_updateFdInterest : f.updateFdInterest.h3Fin = f.h3Fin := by
  rw [updateFdInterest]
  split <;> rfl

@[simp] theorem input_gotFin : f.gotFin.downlink.input = f.downlink.input :=
  input_maybeShutdownDownlink

theorem downlinkPaused_of_downlinkSide (h : g.downlinkSide = f.downlinkSide) : g.downlinkPaused = f.downlinkPaused :=
  congrArg (fun side => side.2.1) h

@[simp] theorem downlinkPaused_stampIf (moved : Bool) (now : Nat) :
    (f.stampIf moved now).downlinkPaused = f.downlinkPaused :=
  downlinkPaused_of_downlinkSide (downlinkSide_stampIf moved now)

@[simp] theorem downlinkPaused_updateFdInterest : f.updateFdInterest.downlinkPaused = f.downlinkPaused :=
  downlinkPaused_of_downlinkSide downlinkSide_updateFdInterest

theorem input_of_downlinkSide (h : g.downlinkSide = f.downlinkSide) : g.downlink.input = f.downlink.input :=
  congrArg (fun side => side.2.2.input) h

@[simp] theorem input_stampIf (moved : Bool) (now : Nat) :
    (f.stampIf moved now).downlink.input = f.downlink.input :=
  input_of_downlinkSide (downlinkSide_stampIf moved now)

@[simp] theorem input_updateFdInterest : f.updateFdInterest.downlink.input = f.downlink.input :=
  input_of_downlinkSide downlinkSide_updateFdInterest

@[simp] theorem input_afterRecv (chunk : List UInt8) (fin : Bool) :
    (f.afterRecv chunk fin).downlink.input = f.downlink.input ++ chunk := by
  rw [afterRecv]
  dsimp only
  split <;> rfl

/-- A loop that was blocked has something left. -/
theorem sendLoop_blocked (buf : List UInt8) (answers : List SendAnswer)
    (h : (sendLoop buf answers).2.2 = .blocked) : (sendLoop buf answers).2.1 ≠ [] := by
  fun_induction sendLoop buf answers with
  | case1 => exact SendEnd.noConfusion h
  | case2 buf hbuf => exact hbuf
  | case3 buf _ hbuf => exact hbuf
  | case4 => exact SendEnd.noConfusion h
  | case5 => exact SendEnd.noConfusion h
  | case6 buf _ n answers _ sent rest how heq ih =>
    rw [heq] at ih
    exact ih h

theorem sendBodyLoop_blocked (buf : List UInt8) (answers : List SendAnswer)
    (h : (sendBodyLoop buf answers).2.2 = .blocked) : (sendBodyLoop buf answers).2.1 ≠ [] := by
  fun_induction sendBodyLoop buf answers with
  | case1 => exact SendEnd.noConfusion h
  | case2 buf hbuf => exact hbuf
  | case3 buf _ hbuf => exact hbuf
  | case4 => exact SendEnd.noConfusion h
  | case5 buf _ n answers sent rest how heq ih =>
    rw [heq] at ih
    exact ih h

/-! ## The downlink -/

/-- What a handler makes of a flow, with its reads: a flow that is not paused has drained the
    body, in this handler or before it. -/
structure Serves (f g : EgressFlow) (reads : List RecvAnswer) : Prop where
  watched : g.Watched
  drained : g.state = .active → g.downlinkPaused = false →
    Drained reads ∨ reads = [] ∧ f.state = .active ∧ f.downlinkPaused = false
  input : g.downlink.input = f.downlink.input ++ reads.flatMap RecvAnswer.bytes

/-- A drain that begins after earlier reads. -/
theorem Serves.after {reads : List RecvAnswer} {f' : EgressFlow} (h : Serves f' g reads) (earlier : List RecvAnswer)
    (hinput : f'.downlink.input = f.downlink.input ++ earlier.flatMap RecvAnswer.bytes)
    (hreads : f'.downlinkPaused = false → reads ≠ []) : Serves f g (earlier ++ reads) where
  watched := h.watched
  drained hactive hopen := by
    rcases h.drained hactive hopen with hdrained | ⟨hnone, _, hbefore⟩
    · exact .inl (hdrained.append earlier)
    · exact absurd hnone (hreads hbefore)
  input := by rw [h.input, hinput, List.flatMap_append, List.append_assoc]

/-- A handler that leaves the downlink alone. -/
theorem Serves.of_side (h : g.Watched) (hside : g.downlinkSide = f.downlinkSide) : Serves f g [] where
  watched := h
  drained hactive hopen :=
    .inr ⟨rfl, (congrArg Prod.fst hside).symm.trans hactive, (downlinkPaused_of_downlinkSide hside).symm.trans hopen⟩
  input := (input_of_downlinkSide hside).trans (List.append_nil _).symm

/-- What follows leaves the downlink alone. -/
theorem Serves.trans_side {reads : List RecvAnswer} {g' : EgressFlow} (h : Serves f g reads) (hwatched : g'.Watched)
    (hside : g'.downlinkSide = g.downlinkSide) : Serves f g' reads where
  watched := hwatched
  drained hactive hopen :=
    h.drained ((congrArg Prod.fst hside).symm.trans hactive) ((downlinkPaused_of_downlinkSide hside).symm.trans hopen)
  input := (input_of_downlinkSide hside).trans h.input

/-- The reads obey the contract of `xqc_h3_request_recv_body`: it only returns no bytes with the
    fin. -/
def Contract (reads : List RecvAnswer) : Prop := ∀ answer ∈ reads, answer ≠ .data [] false

theorem drainReads_ne_nil (h3Fin : Bool) (rounds : List Round) : drainReads h3Fin rounds ≠ [] := by
  cases rounds with
  | nil => exact List.cons_ne_nil _ _
  | cons a as =>
    rw [drainReads]
    split <;> exact List.cons_ne_nil _ _

/-- A drain ends at a would-block or the fin, or with a part of a chunk in the stash. -/
theorem serves_drainLoop (h : f.Watched) {now : Nat} {moved : Bool} {rounds : List Round}
    (hcontract : Contract (drainReads f.h3Fin rounds)) (hok : (drainLoop now f moved rounds).2 = true) :
    Serves f (drainLoop now f moved rounds).1 (drainReads f.h3Fin rounds) := by
  induction rounds generalizing f moved with
  | nil =>
    rw [drainLoop, drainReads]
    split
    · have hread : (f.afterRecv [] true).Watched := ⟨h.interest, h.downlinkStash, h.uplinkStash⟩
      exact ⟨hread.gotFin.stampIf moved now, fun _ _ => .inl ⟨_, rfl, rfl⟩, by simp [RecvAnswer.bytes]⟩
    · exact ⟨h.stampIf moved now, fun _ _ => .inl ⟨_, rfl, trivial⟩, by simp [RecvAnswer.bytes]⟩
  | cons a as ih =>
    rw [drainLoop] at hok ⊢
    rw [drainReads] at hcontract ⊢
    cases hread : recvBody egressChunk f.h3Fin a.recv with
    | again => exact ⟨h.stampIf moved now, fun _ _ => .inl ⟨_, rfl, trivial⟩, by simp [RecvAnswer.bytes]⟩
    | err =>
      rw [hread] at hok
      exact Bool.noConfusion hok
    | data chunk fin =>
      rw [hread] at hok hcontract
      have hblocked := sendLoop_blocked chunk a.sends
      dsimp only at hok hcontract ⊢
      cases hhow : (sendLoop chunk a.sends).2.2 with
      | failed =>
        rw [hhow] at hok
        exact Bool.noConfusion hok
      | blocked =>
        -- the rest of the chunk is kept
        rw [hhow] at hok
        dsimp only at hok ⊢
        split at hok
        · exact Bool.noConfusion hok
        · rename_i halloc
          rw [if_neg halloc]
          refine ⟨Watched.stampIf (watched_updateFdInterest ?_ ?_) _ now, ?_, ?_⟩
          · exact fun _ => hblocked hhow
          · exact h.uplinkStash
          · intro _ hopen
            rw [downlinkPaused_stampIf, downlinkPaused_updateFdInterest] at hopen
            exact Bool.noConfusion hopen
          · simp [RecvAnswer.bytes]
      | done =>
        rw [hhow] at hok hcontract
        dsimp only at hok hcontract ⊢
        have hnext : Watched { f.afterRecv chunk fin with
            downlink := (f.afterRecv chunk fin).downlink.pass (sendLoop chunk a.sends).1 } :=
          ⟨h.interest, h.downlinkStash, h.uplinkStash⟩
        cases fin with
        | true => exact ⟨hnext.gotFin.stampIf _ now, fun _ _ => .inl ⟨_, rfl, rfl⟩, by simp [RecvAnswer.bytes]⟩
        | false =>
          -- a read without bytes would have come with the fin
          have hchunk : chunk ≠ [] := by
            rintro rfl
            exact hcontract _ List.mem_cons_self rfl
          have hmore : (false || chunk.isEmpty) = false := by simpa using hchunk
          rw [if_neg hchunk] at hok ⊢
          rw [hmore] at hcontract ⊢
          have hserves := ih hnext (fun answer hanswer => hcontract answer (List.mem_cons_of_mem _ hanswer)) hok
          exact hserves.after [.data chunk false] (by simp [RecvAnswer.bytes]) fun _ => drainReads_ne_nil _ _

theorem serves_drainBody (h : f.Watched) {now : Nat} {rounds : List Round}
    (hcontract : Contract (f.bodyReads rounds)) (hok : (f.drainBody now rounds).2 = true) :
    Serves f (f.drainBody now rounds).1 (f.bodyReads rounds) := by
  rw [drainBody] at hok ⊢
  rw [bodyReads] at hcontract ⊢
  split
  · exact Serves.of_side h rfl
  · rename_i hopen
    rw [if_neg hopen] at hok hcontract
    exact serves_drainLoop h hcontract hok

/-- The stash is sent; once it is empty the pause ends and the body is drained. -/
theorem serves_flushDownlinkRetry (h : f.Watched) (hpaused : f.downlinkPaused = true) {now : Nat}
    {sends : List SendAnswer} {rounds : List Round} (hcontract : Contract (f.flushReads sends rounds))
    (hok : (f.flushDownlinkRetry now sends rounds).2 = true) :
    Serves f (f.flushDownlinkRetry now sends rounds).1 (f.flushReads sends rounds) := by
  obtain ⟨sent, rest, how, hloop⟩ : ∃ sent rest how, sendLoop f.downlinkStash sends = (sent, rest, how) :=
    ⟨_, _, _, rfl⟩
  have hblocked := sendLoop_blocked f.downlinkStash sends
  rw [flushDownlinkRetry, hloop] at hok ⊢
  rw [flushReads, hloop] at hcontract ⊢
  rw [hloop] at hblocked
  cases how with
  | failed => exact Bool.noConfusion hok
  | blocked =>
    dsimp only at hok ⊢
    split
    · exact Serves.of_side h rfl
    · -- it stays paused, with what is left
      refine ⟨⟨h.interest, fun _ => hblocked rfl, h.uplinkStash⟩, fun _ hopen => ?_, ?_⟩
      · exact absurd (hpaused.symm.trans hopen) Bool.noConfusion
      · simp
  | done =>
    dsimp only at hok hcontract ⊢
    split
    · exact Serves.of_side h rfl
    · rename_i hsome
      rw [if_neg hsome] at hok hcontract
      have hflushed : EgressFlow.Watched (maybeShutdownDownlink
          { f with
            downlink := f.downlink.pass sent
            lastActivityUs := now
            downlinkStash := []
            downlinkPaused := false }).updateFdInterest := by
        rw [maybeShutdownDownlink]
        split <;> exact watched_updateFdInterest (fun hpaused => Bool.noConfusion hpaused) h.uplinkStash
      have hreads : EgressFlow.bodyReads (maybeShutdownDownlink
          { f with
            downlink := f.downlink.pass sent
            lastActivityUs := now
            downlinkStash := []
            downlinkPaused := false }).updateFdInterest rounds = drainReads f.h3Fin rounds := by
        simp [bodyReads]
      have hserves := serves_drainBody hflushed (hreads ▸ hcontract) hok
      rw [hreads] at hserves
      exact hserves.after [] (by simp) fun _ => drainReads_ne_nil _ _

/-! ## The uplink -/

theorem Watched.tryUplinkFin (h : f.Watched) (answer : SendAnswer) : (f.tryUplinkFin answer).1.Watched := by
  unfold EgressFlow.tryUplinkFin
  split
  · exact h
  · split
    · exact h
    · exact h
    · exact ⟨h.interest, h.downlinkStash, h.uplinkStash⟩

theorem Watched.gotEof (h : f.Watched) (fin : SendAnswer) : (f.gotEof fin).1.Watched := by
  refine Watched.tryUplinkFin (watched_updateFdInterest ?_ ?_) fin
  · exact h.downlinkStash
  · exact h.uplinkStash

theorem Watched.stashUplink (h : f.Watched) {rest : List UInt8} (hrest : rest ≠ []) (alloc : Bool) :
    (f.stashUplink rest alloc).1.Watched := by
  rw [EgressFlow.stashUplink]
  split
  · exact h
  · exact watched_updateFdInterest h.downlinkStash fun _ => hrest

theorem Watched.pendingUplinkFin (h : f.Watched) (answer : SendAnswer) : (f.pendingUplinkFin answer).1.Watched := by
  rw [EgressFlow.pendingUplinkFin]
  split
  · exact h.tryUplinkFin answer
  · exact h

@[simp] theorem downlinkSide_gotEof (fin : SendAnswer) : (f.gotEof fin).1.downlinkSide = f.downlinkSide := by
  rw [EgressFlow.gotEof, downlinkSide_tryUplinkFin, downlinkSide_updateFdInterest]
  rfl

@[simp] theorem downlinkSide_stashUplink (rest : List UInt8) (alloc : Bool) :
    (f.stashUplink rest alloc).1.downlinkSide = f.downlinkSide := by
  rw [EgressFlow.stashUplink]
  split
  · rfl
  · rw [downlinkSide_updateFdInterest]
    rfl

@[simp] theorem downlinkSide_pendingUplinkFin (answer : SendAnswer) :
    (f.pendingUplinkFin answer).1.downlinkSide = f.downlinkSide := by
  rw [EgressFlow.pendingUplinkFin]
  split
  · exact downlinkSide_tryUplinkFin answer
  · rfl

/-- What the request takes of the stash leaves the interest right: the flow reads its socket
    again once the stash is empty. -/
theorem serves_onH3Writable (h : f.Watched) (now : Nat) (answers : List SendAnswer) (fin : SendAnswer) :
    Serves f (f.onH3Writable now answers fin).1 [] := by
  obtain ⟨sent, rest, how, hloop⟩ : ∃ sent rest how, sendBodyLoop f.uplinkStash answers = (sent, rest, how) :=
    ⟨_, _, _, rfl⟩
  have hblocked := sendBodyLoop_blocked f.uplinkStash answers
  rw [hloop] at hblocked
  rw [onH3Writable]
  split
  · rw [hloop]
    cases how with
    | failed => exact Serves.of_side ⟨h.interest, h.downlinkStash, h.uplinkStash⟩ rfl
    | blocked =>
      refine Serves.of_side (Watched.stampIf ⟨?_, ?_, ?_⟩ _ now) ?_
      · exact h.interest
      · exact h.downlinkStash
      · exact fun _ => hblocked rfl
      · rw [downlinkSide_stampIf]
        rfl
    | done =>
      refine Serves.of_side (Watched.pendingUplinkFin (watched_updateFdInterest ?_ ?_) fin) ?_
      · rw [stampIf]
        split <;> exact h.downlinkStash
      · rw [stampIf]
        split <;> exact fun hwithheld => Bool.noConfusion hwithheld
      · rw [downlinkSide_pendingUplinkFin, downlinkSide_updateFdInterest, downlinkSide_stampIf]
        rfl
  · exact Serves.of_side (h.pendingUplinkFin fin) (downlinkSide_pendingUplinkFin fin)

/-- Whatever the socket has to read, the flow asks for more unless it keeps some of it or has
    seen the end. -/
theorem watched_recvLoop (h : f.Watched) (now : Nat) (fin : SendAnswer) (recvs : List UplinkRound) :
    (recvLoop now fin f recvs).1.Watched ∧ (recvLoop now fin f recvs).1.downlinkSide = f.downlinkSide := by
  induction recvs generalizing f with
  | nil => exact ⟨h.updateFdInterest, downlinkSide_updateFdInterest⟩
  | cons a as ih =>
    rw [recvLoop]
    split
    · exact ⟨h.updateFdInterest, downlinkSide_updateFdInterest⟩
    · exact ⟨h, rfl⟩
    · exact ⟨h.gotEof fin, downlinkSide_gotEof fin⟩
    · rename_i data _
      dsimp only
      split
      · exact ⟨h.gotEof fin, downlinkSide_gotEof fin⟩
      · rename_i hdata
        have htaken : EgressFlow.Watched
            { f with lastActivityUs := now, uplink := f.uplink.take (data.take egressChunk) } :=
          ⟨h.interest, h.downlinkStash, h.uplinkStash⟩
        split
        · exact ⟨htaken, rfl⟩
        · exact ⟨htaken.stashUplink hdata a.alloc, downlinkSide_stashUplink _ _⟩
        · rename_i n _
          have hpassed : EgressFlow.Watched
              { f with
                lastActivityUs := now
                uplink := (f.uplink.take (data.take egressChunk)).pass ((data.take egressChunk).take n) } :=
            ⟨h.interest, h.downlinkStash, h.uplinkStash⟩
          split
          · rename_i hpart
            have hrest : (data.take egressChunk).drop n ≠ [] := by
              rw [Ne, List.drop_eq_nil_iff]
              exact Nat.not_le_of_lt hpart
            exact ⟨hpassed.stashUplink hrest a.alloc, downlinkSide_stashUplink _ _⟩
          · exact ih hpassed

/-! ## Runs -/

theorem serves_onWriteReady (h : f.Watched) {writable : Bool} {now : Nat} {a : ReadyAnswers}
    (hcontract : Contract (f.readyReads writable a)) (hok : (f.onWriteReady writable now a).2 = true) :
    Serves f (f.onWriteReady writable now a).1 (f.readyReads writable a) := by
  rw [onWriteReady] at hok ⊢
  rw [readyReads] at hcontract ⊢
  split
  · rename_i hpaused
    rw [if_pos hpaused] at hok hcontract
    exact serves_flushDownlinkRetry h (Bool.and_eq_true_iff.1 hpaused).2 hcontract hok
  · exact Serves.of_side h rfl

theorem serves_onRelayReady (h : f.Watched) {readable writable : Bool} {now : Nat} {a : ReadyAnswers}
    (hcontract : Contract (f.readyReads writable a)) (hok : (f.onRelayReady readable writable now a).2 = true) :
    Serves f (f.onRelayReady readable writable now a).1 (f.readyReads writable a) := by
  rw [onRelayReady] at hok ⊢
  cases halive : (f.onWriteReady writable now a).2 with
  | false =>
    rw [halive] at hok
    exact absurd (halive.symm.trans hok) Bool.noConfusion
  | true =>
    have hserves := serves_onWriteReady h hcontract halive
    rw [if_neg (by simp)]
    split
    · obtain ⟨hwatched, hside⟩ := watched_recvLoop hserves.watched now a.fin a.recvs
      exact hserves.trans_side hwatched hside
    · exact hserves.trans_side hserves.watched.updateFdInterest downlinkSide_updateFdInterest

/-- The interest is registered for the first time, and what the client sent early is drained. -/
theorem serves_onConnected (h : f.Watched) {now : Nat} {rounds : List Round}
    (hcontract : Contract (f.bodyReads rounds)) (hok : (f.onConnected now rounds).2 = true) :
    Serves f (f.onConnected now rounds).1 (f.bodyReads rounds) := by
  have hactive : EgressFlow.Watched (updateFdInterest { f with state := .active, lastActivityUs := now }) :=
    watched_updateFdInterest h.downlinkStash h.uplinkStash
  refine (serves_drainBody hactive hcontract hok).after [] (List.append_nil _).symm fun hopen => ?_
  rw [bodyReads, if_neg (by rw [hopen]; exact Bool.false_ne_true)]
  exact drainReads_ne_nil _ _

theorem serves_outcome {r : EgressFlow × Bool} {reads : List RecvAnswer} (h : r.2 = true → Serves f r.1 reads)
    (hok : (outcome r).2 = .alive) : Serves f (outcome r).1 reads := by
  refine h ?_
  rw [outcome] at hok
  split at hok
  · assumption
  · exact Outcome.noConfusion hok

/-- A handler after which the flow is alive. -/
theorem serves_step (h : f.Watched) {step : Step} (hcontract : Contract (f.reads step))
    (hok : (f.step step).2 = .alive) : Serves f (f.step step).1 (f.reads step) := by
  cases step with
  | connected now rounds =>
    rw [EgressFlow.step] at hok ⊢
    rw [reads] at hcontract ⊢
    split
    · rename_i hconnecting
      rw [if_pos hconnecting] at hok hcontract
      exact serves_outcome (serves_onConnected h hcontract) hok
    · exact Serves.of_side h rfl
  | body now rounds =>
    refine serves_outcome (fun hr => ?_) hok
    rw [reads] at hcontract ⊢
    rw [onBody] at hr ⊢
    split
    · exact Serves.of_side h rfl
    · rename_i hactive
      rw [if_neg hactive] at hr hcontract
      exact serves_drainBody h hcontract hr
  | writable now answers fin => exact serves_outcome (fun _ => serves_onH3Writable h now answers fin) hok
  | ready readable writable soError now a =>
    rw [EgressFlow.step, fdReady] at hok ⊢
    rw [reads] at hcontract ⊢
    split
    · rename_i hconnecting
      rw [if_pos hconnecting] at hok hcontract
      cases soError with
      | true => exact Outcome.noConfusion hok
      | false => exact serves_outcome (serves_onConnected h hcontract) hok
    · rename_i hready
      rw [if_neg hready] at hok hcontract
      exact serves_outcome (serves_onRelayReady h hcontract) hok

/-- A flow with all the reads of the body so far. -/
structure Awaits (f : EgressFlow) (reads : List RecvAnswer) : Prop where
  watched : f.Watched
  drained : f.state = .active → f.downlinkPaused = false → Drained reads
  input : f.downlink.input = reads.flatMap RecvAnswer.bytes

theorem Awaits.serves {reads more : List RecvAnswer} (h : f.Awaits reads) (hserves : Serves f g more) :
    g.Awaits (reads ++ more) where
  watched := hserves.watched
  drained hactive hopen := by
    rcases hserves.drained hactive hopen with hdrained | ⟨rfl, hbefore, hopened⟩
    · exact hdrained.append reads
    · -- nothing was read since an earlier drain
      rw [List.append_nil]
      exact h.drained hbefore hopened
  input := by rw [hserves.input, h.input, List.flatMap_append]

theorem contract_append {reads more : List RecvAnswer} :
    Contract (reads ++ more) ↔ Contract reads ∧ Contract more := List.forall_mem_append

theorem awaits_watch (hstart : f.Awaits []) (steps : List Step) (hcontract : Contract (f.watch steps).2)
    (hok : (f.watch steps).1.2 = .alive) : (f.watch steps).1.1.Awaits (f.watch steps).2 := by
  refine List.foldlRecOn (motive := fun w : (EgressFlow × Outcome) × List RecvAnswer =>
    Contract w.2 → w.1.2 = .alive → w.1.1.Awaits w.2) steps watchStep (fun _ _ => hstart) ?_ hcontract hok
  intro w ih step _
  rw [watchStep]
  split
  · rename_i halive
    intro hcontract hok
    obtain ⟨hbefore, hreads⟩ := contract_append.1 hcontract
    rw [relayStep, halive] at hok ⊢
    have hw := ih hbefore halive
    exact hw.serves (serves_step hw.watched hreads hok)
  · exact ih

/-- What holds of an active flow when a handler returns: the interest that is registered last,
    what stops each direction, and how far the body was read. -/
structure Awake (f : EgressFlow) (reads : List RecvAnswer) : Prop where
  interest : f.interest = some (!f.uplinkWithheld && !f.egressEofSeen, f.downlinkPaused)
  downlinkStash : f.downlinkPaused = true → f.downlinkStash ≠ []
  uplinkStash : f.uplinkWithheld = true → f.uplinkStash ≠ []
  drained : f.downlinkPaused = false → Drained reads
  input : f.downlink.input = reads.flatMap RecvAnswer.bytes

theorem Awaits.awake {reads : List RecvAnswer} (h : f.Awaits reads) (hactive : f.state = .active) : f.Awake reads :=
  ⟨h.watched.interest hactive, h.watched.downlinkStash, h.watched.uplinkStash, h.drained hactive, h.input⟩

/-- After every handler of a run, and after the retry of the downlink in a handler that follows,
    an active flow that is alive has registered what its flags ask for, stops a direction only
    with bytes that wait, and has otherwise drained the body. -/
theorem wake_ups_kept (fd h3Request stream connectDeadlineUs now : Nat) (steps : List Step) :
    let w := (connecting fd h3Request stream connectDeadlineUs now).watch steps
    w.1 = (connecting fd h3Request stream connectDeadlineUs now).run steps ∧
      (Contract w.2 → w.1.2 = .alive →
        (w.1.1.state = .active → w.1.1.Awake w.2) ∧
          ∀ (writable : Bool) (now : Nat) (a : ReadyAnswers), Contract (w.1.1.readyReads writable a) →
            (w.1.1.onWriteReady writable now a).2 = true → (w.1.1.onWriteReady writable now a).1.state = .active →
              (w.1.1.onWriteReady writable now a).1.Awake (w.2 ++ w.1.1.readyReads writable a)) := by
  intro w
  refine ⟨watch_run _ steps, fun hcontract hok => ?_⟩
  have hstart : (connecting fd h3Request stream connectDeadlineUs now).Awaits [] :=
    ⟨⟨fun h => EgressState.noConfusion h, fun h => Bool.noConfusion h, fun h => Bool.noConfusion h⟩,
      fun h => EgressState.noConfusion h, rfl⟩
  have hw : w.1.1.Awaits w.2 := awaits_watch hstart steps hcontract hok
  refine ⟨hw.awake, fun writable now a hreads hready hactive => ?_⟩
  exact (hw.serves (serves_onWriteReady hw.watched hreads hready)).awake hactive

/-- The socket takes a part of the first chunk, then the rest; the body has more by then. -/
theorem wake_ups_kept_sample :
    ((connecting 5 1 2 9 0).watch [.connected 1 [⟨.data [1, 2, 3] false, [.accept 2], true⟩],
        .ready false true false 2 ⟨[.accept 1], [⟨.data [4] false, [.accept 1], true⟩], [], .again⟩]).1.1.Awake
      ((connecting 5 1 2 9 0).watch [.connected 1 [⟨.data [1, 2, 3] false, [.accept 2], true⟩],
        .ready false true false 2 ⟨[.accept 1], [⟨.data [4] false, [.accept 1], true⟩], [], .again⟩]).2 :=
  ((wake_ups_kept 5 1 2 9 0 _).2 (by
      intro answer hanswer
      change answer ∈ [RecvAnswer.data [1, 2, 3] false, .data [4] false, .again] at hanswer
      simp only [List.mem_cons, List.not_mem_nil, or_false] at hanswer
      rcases hanswer with rfl | rfl | rfl <;> simp) (by decide +kernel)).1 (by decide +kernel)

end EgressFlow

end Mqvpn.Hybrid
