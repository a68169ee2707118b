import Mqvpn.Hybrid.LaneEvents

/-!
# Aborts inside callbacks

A callback of the TCP stack that has aborted its own connection has to say so with `ERR_ABRT`:
after any other return the stack goes on with the connection. What a teardown did to the
connection is a status (`FlowStatus`), which the functions of `tcp_lane.c` pass on to the
callback; here the callbacks are given with what they return, next to what they do to the lane
(`Lane.step`). `tcp_abort` frees a connection, and `tcp_close` only detaches it.

* `settleStatus_spec`: the status says whether the connection of the flow was aborted;
* `recvFrame_eq_step`, `sentFrame_eq_step`, `acceptFrame_eq_step`: the callbacks are the events of
  the lane, up to what the stack does with a connection that was not accepted;
* `abrt_iff_aborted`: the callbacks return `ERR_ABRT` if and only if the connection is gone.
-/

namespace Mqvpn.Hybrid

open Reorder

/-- `tcp_lane_flow_status_t` -/
inductive FlowStatus where
  | live
  | gone
  | aborted
  deriving DecidableEq

/-- The values of `err_t` that the callbacks return. -/
inductive LwipErr where
  | ok
  | mem
  | val
  | abrt
  deriving DecidableEq

/-- What a callback makes of a status. -/
def FlowStatus.toErr : FlowStatus → LwipErr
  | .aborted => .abrt
  | _ => .ok

theorem FlowStatus.toErr_eq_abrt {st : FlowStatus} : st.toErr = .abrt ↔ st = .aborted := by
  cases st <;> decide

namespace Lane

variable (s : Lane)

/-- `tcp_lane_silent_abort_pcb`, and whether there was a connection to abort -/
def silentAbortStatus (id : Nat) : Lane × Bool :=
  (s.silentAbortPcb id, (s.flows.get id).any fun f => f.pcb.isSome)

/-- `tcp_lane_teardown_flow` -/
def teardownStatus (id : Nat) (closeH3 : Bool) : Lane × FlowStatus :=
  let s := if closeH3 then s.closeH3 id else s.forgetH3 id
  let r := s.silentAbortStatus id
  (r.1.removeOwn id, if r.2 then .aborted else .gone)

/-- A function of a flow has ended: what it returns, by way of `mqvpn_tcp_lane_on_relay_error` or
    `tcp_lane_finish_clean_close`. -/
def settleStatus (id now : Nat) (r : Flow × Outcome) : Lane × FlowStatus :=
  let s := s.setFlow id r.1
  match r.2 with
  | .live => (s, .live)
  | .relayError => s.teardownStatus id true
  | .cleanClose => (s.finishCleanClose id now, .gone)

/-! ## The callbacks -/

/-- A callback of a connection, with its argument; there is none without an argument. -/
def frame (pcb : Nat) (g : Nat → Flow → Lane × LwipErr) : Lane × LwipErr :=
  match s.pcbs.get pcb with
  | some (some id) =>
    match s.flows.get id with
    | none => (s.fail, .ok)
    | some f => g id f
  | _ => (s, .ok)

/-- `mqvpn_tcp_lane_on_lwip_recv`: `tcp_lane_uplink_flush` after a FIN, or
    `tcp_lane_uplink_deliver` -/
def recvFrame (pcb : Nat) (p : Option Pbuf) (now : Nat) (answers : List SendAnswer) (alloc : Bool) : Lane × LwipErr :=
  s.frame pcb fun id f =>
    let r := s.settleStatus id now (onLwipRecv f p now answers alloc)
    (r.1, r.2.toErr)

/-- `tcp_lane_downlink_pump_status` -/
def pumpStatus (stream : Option Nat) (now : Nat) (a : DownlinkAnswers) : Lane × FlowStatus :=
  match stream with
  | none => (s, .live)
  | some stream =>
    match s.findFlowByStream stream with
    | none => (s, .live)
    | some id =>
      match s.flows.get id with
      | none => (s.fail, .live)
      | some f => s.settleStatus id now (downlinkPump f a)

/-- `mqvpn_tcp_lane_on_lwip_sent` -/
def sentFrame (pcb now : Nat) (a : DownlinkAnswers) : Lane × LwipErr :=
  s.frame pcb fun id f =>
    let f := { f with lastActivityUs := now }
    if !f.downlinkPaused then (s.setFlow id f, .ok)
    else
      let retry := downlinkStashRetry f a
      let r := s.settleStatus id now retry
      if r.2 ≠ .live then (r.1, r.2.toErr)
      else if retry.1.downlinkPaused then (r.1, .ok)
      else
        let r := r.1.pumpStatus retry.1.stream now a
        (r.1, r.2.toErr)

/-- `mqvpn_tcp_lane_abort_pending`, and whether it returns 1 -/
def abortPendingStatus (id : Nat) : Lane × Bool :=
  let r := s.teardownStatus id false
  (r.1, r.2 = .aborted)

/-- `cli_tcp_lane_open_stream`, and whether it returns something else than 0 -/
def openStreamStatus (id : Nat) (answer : OpenAnswer) : Lane × Bool :=
  match answer with
  | .noConn => s.abortPendingStatus id
  | .noMemory => s.abortPendingStatus id
  | .noRequest => s.abortPendingStatus id
  | .sendFailed =>
    let stream := s.streams.next
    let s := { s with streams := s.streams.alloc () }
    ((s.bindH3Request id stream).requestClose stream).abortPendingStatus id
  | .sent =>
    let stream := s.streams.next
    let s := { s with streams := s.streams.alloc () }
    (s.bindH3Request id stream, false)

/-- The flow of a connection has been found, in `mqvpn_tcp_lane_lwip_accept`. -/
def acceptFlowFrame (id pcb now : Nat) (answer : OpenAnswer) : Lane × LwipErr :=
  match s.flows.get id with
  | none => (s.fail, .ok)
  | some f =>
    if f.state ≠ .pendingAccept then (s, .val)
    else if s.tcpMaxFlows.toNat < s.nTcpFlows then
      let s := { s with stats := { s.stats with flowsRejectedCap := s.stats.flowsRejectedCap + 1 } }
      (s.removeFlow id, .mem)
    else
      let s := { s with pcbs := s.pcbs.set pcb (some id) }
      let s := s.setFlow id
        { f with pcb := some pcb, state := .pendingStream, lastActivityUs := now, hasLane := true }
      let r := s.openStreamStatus id answer
      (r.1, if r.2 then .abrt else .ok)

/-- A new connection of the stack; the callbacks know it as `s.pcbs.next`. -/
def connect : Lane := { s with pcbs := s.pcbs.alloc none }

/-- `mqvpn_tcp_lane_lwip_accept`, of the connection `id` -/
def acceptFrame (newpcb : Option Pcb) (id now : Nat) (answer : OpenAnswer) : Lane × LwipErr :=
  match newpcb with
  | none => (s, .mem)
  | some pcb =>
    match s.findFlow pcb.key with
    | none => (s, .val)
    | some flow => s.acceptFlowFrame flow id now answer

/-- The stack aborts a connection itself, if the callback has refused it with another error than
    `ERR_ABRT`. -/
def afterAccept (id : Nat) (r : Lane × LwipErr) : Lane :=
  match r.2 with
  | .ok => r.1
  | .abrt => r.1
  | .mem => r.1.lwipAbort id
  | .val => r.1.lwipAbort id

variable {s} {id q : Nat}

/-! ## The callbacks are the events -/

theorem settleStatus_fst (now : Nat) (r : Flow × Outcome) : (s.settleStatus id now r).1 = s.settle id now r := by
  unfold settleStatus settle
  dsimp only
  generalize s.setFlow id r.1 = t
  cases r.2 <;> rfl

theorem openStreamStatus_fst (answer : OpenAnswer) : (s.openStreamStatus id answer).1 = s.openStream id answer := by
  cases answer <;> rfl

/-- A callback does to the lane what the event of its connection does. -/
theorem frame_fst {g : Nat → Flow → Lane × LwipErr} {g' : Nat → Flow → Lane}
    (hg : ∀ id f, s.pcbs.get q = some (some id) → s.flows.get id = some f → (g id f).1 = g' id f) :
    (s.frame q g).1 = s.onPcb q fun id => s.onFlow id (g' id) := by
  unfold frame onPcb
  cases hq : s.pcbs.get q with
  | none => rfl
  | some arg =>
    cases arg with
    | none => rfl
    | some id =>
      unfold onFlow
      dsimp only
      cases hf : s.flows.get id with
      | none => rfl
      | some f => exact hg id f hq hf

theorem recvFrame_eq_step (p : Option Pbuf) (now : Nat) (answers : List SendAnswer) (alloc : Bool) :
    (s.recvFrame q p now answers alloc).1 = s.step (.recv q p now answers alloc) :=
  frame_fst fun _ _ _ _ => settleStatus_fst now _

/-- The writes of a flow that come one after the other. -/
theorem settle_setFlow (f : Flow) (now : Nat) (r : Flow × Outcome) :
    (s.setFlow id f).settle id now r = s.settle id now r := by
  have htwice : (s.setFlow id f).setFlow id r.1 = s.setFlow id r.1 := by
    rw [setFlow, setFlow, setFlow]
    dsimp only
    rw [Heap.set_set]
  unfold settle
  dsimp only
  rw [htwice]

theorem settleStatus_of_live {now : Nat} {r : Flow × Outcome} (hlive : r.2 = .live) :
    s.settleStatus id now r = (s.setFlow id r.1, .live) := by
  unfold settleStatus
  rw [hlive]

theorem teardownStatus_ne_live (closeH3 : Bool) : (s.teardownStatus id closeH3).2 ≠ .live := by
  unfold teardownStatus
  dsimp only
  generalize silentAbortStatus _ id = r
  cases r.2 <;> decide

theorem settleStatus_ne_live {now : Nat} {r : Flow × Outcome} (hended : r.2 ≠ .live) :
    (s.settleStatus id now r).2 ≠ .live := by
  unfold settleStatus
  cases hout : r.2 with
  | live => exact absurd hout hended
  | relayError => exact teardownStatus_ne_live true
  | cleanClose => exact fun hst => FlowStatus.noConfusion hst

theorem Inv.pumpStatus_of_stream (h : s.Inv) {f : Flow} {x now : Nat} {a : DownlinkAnswers} (hf : s.flows.get id = some f)
    (hx : f.stream = some x) : s.pumpStatus (some x) now a = s.settleStatus id now (downlinkPump f a) := by
  unfold pumpStatus
  dsimp only
  rw [h.findFlowByStream_eq_some.2 ⟨f, hf, hx⟩]
  dsimp only
  rw [hf]

/-- The retry of a flow of a connection is written back. -/
theorem Inv.setRetry (h : s.Inv) {f : Flow} (hf : s.flows.get id = some f) (hq : f.pcb = some q) (now : Nat)
    (a : DownlinkAnswers) :
    Touches id s (s.setFlow id (downlinkStashRetry { f with lastActivityUs := now } a).1) ∧
      (downlinkStashRetry { f with lastActivityUs := now } a).1.pcb = some q := by
  have hstamp : DownlinkOnly f { f with lastActivityUs := now } := rfl
  have honly := hstamp.trans (downlinkStashRetry_only { f with lastActivityUs := now } a)
  refine ⟨(h.setFlow hf (population_of_relays (h.relays_of_pcb hf hq)) honly.links (.inl honly.state)).1, ?_⟩
  exact (congrArg (·.2.1) honly.links).trans hq

/-- The flow that the pump looks up by its stream is the one of the callback. -/
theorem sentFrame_eq_step (h : s.Inv) (now : Nat) (a : DownlinkAnswers) :
    (s.sentFrame q now a).1 = s.step (.sent q now a) := by
  refine frame_fst fun id f hq hf => ?_
  obtain ⟨f', hf', hpcb⟩ := h.arg hq
  rw [hf] at hf'
  cases hf'
  obtain ⟨hset, -⟩ := h.setRetry hf hpcb now a
  unfold onLwipSent
  dsimp only
  generalize downlinkStashRetry { f with lastActivityUs := now } a = r at hset ⊢
  have hself : (s.setFlow id r.1).flows.get id = some r.1 := Heap.get_set_self hf
  by_cases hidle : (!f.downlinkPaused) = true
  · rw [if_pos hidle, if_pos hidle]
    rfl
  · rw [if_neg hidle, if_neg hidle]
    by_cases hlive : r.2 = .live
    · rw [settleStatus_of_live hlive, if_neg (not_not_intro rfl), if_neg (not_not_intro hlive)]
      by_cases hpaused : r.1.downlinkPaused = true
      · rw [if_pos hpaused, if_pos hpaused]
        rfl
      · rw [if_neg hpaused, if_neg hpaused]
        cases hx : r.1.stream with
        | none => rfl
        | some x =>
          rw [if_neg (Option.some_ne_none x), hset.inv.pumpStatus_of_stream hself hx, settleStatus_fst, settle_setFlow]
    · rw [if_pos (settleStatus_ne_live hlive), if_pos hlive]
      exact settleStatus_fst now r

/-- What the stack makes of the return of an accept callback is the event of the lane. -/
theorem acceptFrame_eq_step (pcb : Pcb) (now : Nat) (answer : OpenAnswer) :
    Lane.afterAccept s.pcbs.next (s.connect.acceptFrame (some pcb) s.pcbs.next now answer) =
      s.step (.accept (some pcb) now answer) := by
  unfold acceptFrame step lwipAccept
  dsimp only
  change _ = match s.connect.findFlow pcb.key with
    | none => s.connect.lwipAbort s.pcbs.next
    | some flow => s.connect.acceptFlow flow s.pcbs.next now answer
  generalize s.connect = t
  cases t.findFlow pcb.key with
  | none => rfl
  | some id =>
    dsimp only
    unfold acceptFlowFrame acceptFlow onFlow
    cases t.flows.get id with
    | none => rfl
    | some f =>
      dsimp only
      by_cases hstate : f.state ≠ .pendingAccept
      · rw [if_pos hstate, if_pos hstate]
        rfl
      · rw [if_neg hstate, if_neg hstate]
        by_cases hover : t.tcpMaxFlows.toNat < t.nTcpFlows
        · rw [if_pos hover, if_pos hover]
          rfl
        · rw [if_neg hover, if_neg hover, ← openStreamStatus_fst]
          generalize openStreamStatus _ id answer = r
          unfold afterAccept
          cases r.2 <;> rfl

/-! ## What becomes of the connections -/

theorem forgetH3_pcbs : (s.forgetH3 id).pcbs = s.pcbs := forgetH3_keeps fun _ _ _ => rfl

theorem discount_pcbs (state : FlowState) : (s.discount state).pcbs = s.pcbs := by
  cases state <;> rfl

theorem removeFlow_pcbs : (s.removeFlow id).pcbs = s.pcbs := onFlow_keeps rfl fun _ => discount_pcbs _

theorem removeOwn_pcbs : (s.removeOwn id).pcbs = s.pcbs := by
  refine onFlow_keeps rfl fun f => ?_
  split
  · exact removeFlow_pcbs
  · rfl

theorem roomForClosing_pcbs : s.roomForClosing.pcbs = s.pcbs := by
  unfold roomForClosing evictOldestClosing
  split
  · split
    · rfl
    · exact removeFlow_pcbs
  · rfl

theorem markClosing_pcbs (now : Nat) : (s.markClosing id now).pcbs = s.pcbs := by
  unfold markClosing onFlow
  split
  · exact roomForClosing_pcbs
  · dsimp only
    split
    · exact roomForClosing_pcbs
    · exact roomForClosing_pcbs

namespace Inv

variable {f : Flow}

/-- Whether a connection was aborted is what the function says. -/
theorem silentAbortStatus_spec (h : s.Inv) (hf : s.flows.get id = some f) (hq : f.pcb = some q) :
    (s.silentAbortStatus id).2 = true ∧ (s.silentAbortStatus id).1.pcbs = s.pcbs.free q := by
  have hthere : ¬(s.pcbs.get q).isNone = true := by
    rw [h.pcb hf hq]
    exact Bool.false_ne_true
  unfold silentAbortStatus Lane.silentAbortPcb Lane.onFlow
  rw [hf]
  dsimp only
  rw [hq]
  dsimp only
  rw [if_neg hthere, Option.any_some, hq]
  exact ⟨rfl, rfl⟩

theorem teardownStatus_spec (h : s.Inv) (hdeferred : s.Deferred) (hf : s.flows.get id = some f) (hq : f.pcb = some q)
    (closeH3 : Bool) :
    (s.teardownStatus id closeH3).2 = .aborted ∧ (s.teardownStatus id closeH3).1.pcbs = s.pcbs.free q := by
  have hlive (_ : s.Deferred) : (s.flows.get id).isSome = true := Option.isSome_iff_exists.2 ⟨f, hf⟩
  have hraw (g : Flow) (hg : s.flows.get id = some g) : g.state ≠ .stickyRaw := by
    rw [hf] at hg
    cases hg
    exact not_raw_of_relays (h.relays_of_pcb hf hq)
  -- the request is closed or forgotten, and the connection is as it was
  obtain ⟨t, ht, hinv, hpcbs, g, hg, hgq⟩ : ∃ t, (if closeH3 then s.closeH3 id else s.forgetH3 id) = t ∧ t.Inv ∧
      t.pcbs = s.pcbs ∧ ∃ g, t.flows.get id = some g ∧ g.pcb = some q := by
    cases closeH3 with
    | true =>
      obtain ⟨htouches, hstill, hget⟩ := h.closeH3 hlive hraw
      obtain ⟨g, hg⟩ := Option.isSome_iff_exists.1 (hstill hdeferred)
      obtain ⟨f', hf', rfl⟩ := hget g hg
      rw [hf] at hf'
      cases hf'
      exact ⟨_, rfl, htouches.inv, closeH3_keeps hdeferred fun _ _ _ => rfl, _, hg, hq⟩
    | false =>
      obtain ⟨htouches, hget⟩ := h.forgetH3 hlive hraw
      rw [hf] at hget
      exact ⟨_, rfl, htouches.inv, forgetH3_pcbs, _, hget, hq⟩
  obtain ⟨haborted, hfreed⟩ := hinv.silentAbortStatus_spec hg hgq
  unfold teardownStatus
  rw [ht]
  dsimp only
  rw [haborted, removeOwn_pcbs, hfreed, hpcbs]
  exact ⟨if_pos rfl, rfl⟩

theorem closePcb_pcbs (h : s.Inv) (hf : s.flows.get id = some f) (hq : f.pcb = some q) :
    (s.closePcb id).pcbs = s.pcbs.set q none := by
  have hthere : ¬(s.pcbs.get q).isNone = true := by
    rw [h.pcb hf hq]
    exact Bool.false_ne_true
  unfold Lane.closePcb Lane.onFlow
  rw [hf]
  dsimp only
  rw [hq]
  dsimp only
  rw [if_neg hthere]
  rfl

/-- The status of a function of a flow says whether the connection of the flow was aborted. -/
theorem settleStatus_spec (h : s.Inv) (hdeferred : s.Deferred) (hf : s.flows.get id = some f) (hq : f.pcb = some q)
    {r : Flow × Outcome} (hlinks : r.1.links = f.links) (hstate : r.1.state = f.state) (now : Nat) :
    ((s.settleStatus id now r).2 = .aborted ↔ (s.settleStatus id now r).1.pcbs.get q = none) ∧
      ∀ q', q' ≠ q → (s.settleStatus id now r).1.pcbs.get q' = s.pcbs.get q' := by
  have hpop := population_of_relays (h.relays_of_pcb hf hq)
  obtain ⟨hset, -⟩ := h.setFlow hf hpop hlinks (.inl hstate)
  have hself : (s.setFlow id r.1).flows.get id = some r.1 := Heap.get_set_self hf
  have hpcb : r.1.pcb = some q := (congrArg (·.2.1) hlinks).trans hq
  have hsame : (s.setFlow id r.1).pcbs = s.pcbs := rfl
  unfold settleStatus
  dsimp only
  generalize s.setFlow id r.1 = t at hset hself hsame ⊢
  have hthere : t.pcbs.get q = some (some id) := hset.inv.pcb hself hpcb
  rw [← hsame]
  cases r.2 with
  | live =>
    refine ⟨⟨fun hst => FlowStatus.noConfusion hst, fun hnone => ?_⟩, fun _ _ => rfl⟩
    dsimp only at hnone
    rw [hthere] at hnone
    cases hnone
  | relayError =>
    obtain ⟨haborted, hfreed⟩ := hset.inv.teardownStatus_spec (hset.deferred.2 hdeferred) hself hpcb true
    dsimp only
    rw [hfreed]
    exact ⟨iff_of_true haborted Heap.get_free_self, fun q' hne => Heap.get_free_of_ne hne⟩
  | cleanClose =>
    have hclosed : (t.finishCleanClose id now).pcbs = t.pcbs.set q none := by
      unfold Lane.finishCleanClose
      rw [markClosing_pcbs, forgetH3_pcbs, hset.inv.closePcb_pcbs hself hpcb]
    dsimp only
    rw [hclosed]
    refine ⟨⟨fun hst => FlowStatus.noConfusion hst, fun hnone => ?_⟩, fun q' hne => Heap.get_set_of_ne hne⟩
    rw [Heap.get_set_self hthere] at hnone
    cases hnone

/-! ## What the callbacks return -/

end Inv

/-- The callback of the connection `q` says whether it was aborted, and no other one was. -/
def Tells (s : Lane) (q : Nat) (r : Lane × LwipErr) : Prop :=
  (r.2 = .abrt ↔ r.1.pcbs.get q = none) ∧ ∀ q', q' ≠ q → r.1.pcbs.get q' = s.pcbs.get q'

theorem openErr_eq_abrt {aborted : Bool} : (if aborted then LwipErr.abrt else .ok) = .abrt ↔ aborted = true := by
  cases aborted <;> decide

theorem tells_of_same {t : Lane} {err : LwipErr} (hq : (s.pcbs.get q).isSome = true) (hpcbs : t.pcbs = s.pcbs)
    (herr : err ≠ .abrt) : s.Tells q (t, err) := by
  refine ⟨iff_of_false herr fun hnone => ?_, fun q' _ => by dsimp only; rw [hpcbs]⟩
  dsimp only at hnone
  rw [hpcbs] at hnone
  rw [hnone] at hq
  cases hq

namespace Inv

variable {f : Flow}

theorem tells_settle (h : s.Inv) (hdeferred : s.Deferred) (hf : s.flows.get id = some f) (hq : f.pcb = some q)
    {r : Flow × Outcome} (hlinks : r.1.links = f.links) (hstate : r.1.state = f.state) (now : Nat) :
    s.Tells q ((s.settleStatus id now r).1, (s.settleStatus id now r).2.toErr) := by
  obtain ⟨htells, hothers⟩ := h.settleStatus_spec hdeferred hf hq hlinks hstate now
  exact ⟨FlowStatus.toErr_eq_abrt.trans htells, hothers⟩

/-- A callback that says so for its flow says so. -/
theorem tells_frame (h : s.Inv) (hq : (s.pcbs.get q).isSome = true) {g : Nat → Flow → Lane × LwipErr}
    (hg : ∀ id f, s.flows.get id = some f → f.pcb = some q → s.Tells q (g id f)) : s.Tells q (s.frame q g) := by
  have hok : LwipErr.ok ≠ .abrt := by decide
  unfold frame
  split
  · rename_i id harg
    obtain ⟨f, hf, hpcb⟩ := h.arg harg
    rw [hf]
    exact hg id f hf hpcb
  · exact tells_of_same hq rfl hok

theorem tells_recvFrame (h : s.Inv) (hdeferred : s.Deferred) (hq : (s.pcbs.get q).isSome = true) (p : Option Pbuf)
    (now : Nat) (answers : List SendAnswer) (alloc : Bool) : s.Tells q (s.recvFrame q p now answers alloc) := by
  refine h.tells_frame hq fun id f hf hpcb => ?_
  have honly := onLwipRecv_only f p now answers alloc
  exact h.tells_settle hdeferred hf hpcb honly.links honly.state now

theorem tells_sentFrame (h : s.Inv) (hdeferred : s.Deferred) (hq : (s.pcbs.get q).isSome = true) (now : Nat)
    (a : DownlinkAnswers) : s.Tells q (s.sentFrame q now a) := by
  have hok : LwipErr.ok ≠ .abrt := by decide
  refine h.tells_frame hq fun id f hf hpcb => ?_
  obtain ⟨hset, hpcb'⟩ := h.setRetry hf hpcb now a
  have honly := downlinkStashRetry_only { f with lastActivityUs := now } a
  dsimp only
  generalize downlinkStashRetry { f with lastActivityUs := now } a = r at hset hpcb' honly ⊢
  have hself : (s.setFlow id r.1).flows.get id = some r.1 := Heap.get_set_self hf
  split
  · exact tells_of_same hq rfl hok
  · by_cases hlive : r.2 = .live
    · rw [settleStatus_of_live hlive, if_neg (not_not_intro rfl)]
      split
      · exact tells_of_same hq rfl hok
      · cases hx : r.1.stream with
        | none => exact tells_of_same hq rfl hok
        | some x =>
          have hpump := downlinkPump_only r.1 a
          rw [hset.inv.pumpStatus_of_stream hself hx]
          exact hset.inv.tells_settle (hset.deferred.2 hdeferred) hself hpcb' hpump.links hpump.state now
    · rw [if_pos (settleStatus_ne_live hlive)]
      exact h.tells_settle hdeferred hf hpcb honly.links honly.state now

/-- The flow of a connection that was just attached to it: its request is opened, or it is torn
    down. -/
theorem openStreamStatus_spec (h : s.Inv) (hdeferred : s.Deferred) (hf : s.flows.get id = some f) (hq : f.pcb = some q)
    (answer : OpenAnswer) :
    ((s.openStreamStatus id answer).2 = true ↔ (s.openStreamStatus id answer).1.pcbs.get q = none) ∧
      ∀ q', q' ≠ q → (s.openStreamStatus id answer).1.pcbs.get q' = s.pcbs.get q' := by
  have habort {t : Lane} (ht : t.Inv) (hopen : t.Deferred) {g : Flow} (hg : t.flows.get id = some g) (hgq : g.pcb = some q)
      (hpcbs : t.pcbs = s.pcbs) :
      ((t.abortPendingStatus id).2 = true ↔ (t.abortPendingStatus id).1.pcbs.get q = none) ∧
        ∀ q', q' ≠ q → (t.abortPendingStatus id).1.pcbs.get q' = s.pcbs.get q' := by
    obtain ⟨haborted, hfreed⟩ := ht.teardownStatus_spec hopen hg hgq false
    unfold abortPendingStatus
    dsimp only
    rw [haborted, hfreed, ← hpcbs]
    exact ⟨iff_of_true (decide_eq_true rfl) Heap.get_free_self, fun q' hne => Heap.get_free_of_ne hne⟩
  have hrelays := h.relays_of_pcb hf hq
  obtain ⟨hbound, hget⟩ := h.openBound hf hrelays
  have hbind : (Lane.bindH3Request { s with streams := s.streams.alloc () } id s.streams.next).pcbs = s.pcbs := by
    unfold Lane.bindH3Request Lane.onFlow
    dsimp only
    rw [hf]
    rfl
  unfold openStreamStatus
  cases answer with
  | noConn => exact habort h hdeferred hf hq rfl
  | noMemory => exact habort h hdeferred hf hq rfl
  | noRequest => exact habort h hdeferred hf hq rfl
  | sendFailed =>
    dsimp only
    generalize Lane.bindH3Request { s with streams := s.streams.alloc () } id s.streams.next = t at hbound hget hbind ⊢
    have hopen := hbound.deferred.2 hdeferred
    rw [Lane.requestClose, if_neg (by rw [hopen]; exact Bool.false_ne_true)]
    exact habort hbound.inv hopen hget hq hbind
  | sent =>
    dsimp only
    rw [hbind]
    refine ⟨iff_of_false Bool.false_ne_true fun hnone => ?_, fun _ _ => rfl⟩
    rw [h.pcb hf hq] at hnone
    cases hnone

theorem tells_acceptFrame (h : s.Inv) (hdeferred : s.Deferred) (pcb : Pcb) (now : Nat) (answer : OpenAnswer) :
    s.connect.Tells s.pcbs.next (s.connect.acceptFrame (some pcb) s.pcbs.next now answer) := by
  obtain ⟨halloc, hidle⟩ := h.allocPcb
  have hval : LwipErr.val ≠ .abrt := by decide
  have hmem : LwipErr.mem ≠ .abrt := by decide
  unfold acceptFrame
  dsimp only
  change Keeps s s.connect at halloc
  change Idle s.connect s.pcbs.next at hidle
  generalize hnext : s.pcbs.next = q at hidle ⊢
  generalize s.connect = t at halloc hidle ⊢
  have hq : (t.pcbs.get q).isSome = true := Option.isSome_iff_exists.2 ⟨_, hidle.1⟩
  split
  · exact tells_of_same hq rfl hval
  · rename_i id hid
    obtain ⟨f, hf, -⟩ := halloc.inv.findFlow_eq_some.1 hid
    unfold acceptFlowFrame
    rw [hf]
    dsimp only
    split
    · exact tells_of_same hq rfl hval
    · rename_i hstate
      split
      · exact tells_of_same hq removeFlow_pcbs hmem
      · have hattach := halloc.inv.attach hidle hf (not_not.1 hstate) now
        have hself : (t.flows.set id { f with
            pcb := some q
            state := .pendingStream
            lastActivityUs := now
            hasLane := true }).get id = some _ := Heap.get_set_self hf
        obtain ⟨htells, hothers⟩ := hattach.inv.openStreamStatus_spec
          (hattach.deferred.2 (halloc.deferred.2 hdeferred)) hself rfl answer
        exact ⟨openErr_eq_abrt.trans htells, fun q' hne => (hothers q' hne).trans (Heap.get_set_of_ne hne)⟩

end Inv

/-! ## Results -/

/-- In every state of the lane, and whatever is met inside: a callback returns `ERR_ABRT` if and
    only if `tcp_abort` has freed its own connection, and it frees no other one. -/
theorem abrt_iff_aborted (tcpMaxFlows tcpIdleTimeoutSec : UInt32) (hashSeed : UInt64) (reenters : Nat → Bool)
    (steps : List Step) (hdeferred : ∀ request, reenters request = false)
    (hproper : Runs.Along Lane.step Proper (start tcpMaxFlows tcpIdleTimeoutSec hashSeed reenters) steps) :
    let s := (start tcpMaxFlows tcpIdleTimeoutSec hashSeed reenters).run steps
    (∀ q, (s.pcbs.get q).isSome = true → ∀ p now answers alloc,
      s.Tells q (s.recvFrame q p now answers alloc) ∧
        (s.recvFrame q p now answers alloc).1 = s.step (.recv q p now answers alloc)) ∧
    (∀ q, (s.pcbs.get q).isSome = true → ∀ now a,
      s.Tells q (s.sentFrame q now a) ∧ (s.sentFrame q now a).1 = s.step (.sent q now a)) ∧
    (∀ pcb now answer,
      s.connect.Tells s.pcbs.next (s.connect.acceptFrame (some pcb) s.pcbs.next now answer) ∧
        afterAccept s.pcbs.next (s.connect.acceptFrame (some pcb) s.pcbs.next now answer) =
          s.step (.accept (some pcb) now answer)) ∧
    ∀ q now answer, s.acceptFrame none q now answer = (s, .mem) := by
  intro s
  obtain ⟨hinv, hfixed⟩ := inv_run tcpMaxFlows tcpIdleTimeoutSec hashSeed reenters steps hproper
  have hopen : s.Deferred := (deferred_iff hfixed).2 hdeferred
  exact ⟨fun q hq p now answers alloc => ⟨hinv.tells_recvFrame hopen hq p now answers alloc, recvFrame_eq_step p now answers alloc⟩,
    fun q hq now a => ⟨hinv.tells_sentFrame hopen hq now a, sentFrame_eq_step hinv now a⟩,
    fun pcb now answer => ⟨hinv.tells_acceptFrame hopen pcb now answer, acceptFrame_eq_step pcb now answer⟩,
    fun _ _ _ => rfl⟩

/-- The request of an active flow fails when the FIN of the peer is passed on: the connection is
    aborted, and the callback says so. -/
theorem abrt_iff_aborted_sample :
    let steps := [.syn sampleKey true 7 true 1, .accept (some samplePcb) 2 .sent, .established 0 3 []]
    Runs.Along Lane.step Proper (start 2 60 5 fun _ => false) steps ∧
      (((start 2 60 5 fun _ => false).run steps).recvFrame 0 none 4 [.err] true).2 = .abrt ∧
      (((start 2 60 5 fun _ => false).run steps).recvFrame 0 none 4 [.err] true).1.pcbs.get 0 = none := by
  intro steps
  have hproper : Runs.Along Lane.step Proper (start 2 60 5 fun _ => false) steps := by decide +kernel
  have hlive : (((start 2 60 5 fun _ => false).run steps).pcbs.get 0).isSome = true := by decide +kernel
  have habrt : (((start 2 60 5 fun _ => false).run steps).recvFrame 0 none 4 [.err] true).2 = .abrt := by decide +kernel
  obtain ⟨hrecv, -⟩ := abrt_iff_aborted 2 60 5 (fun _ => false) steps (fun _ => rfl) hproper
  exact ⟨hproper, habrt, (hrecv 0 hlive none 4 [.err] true).1.1.1 habrt⟩

end Lane

end Mqvpn.Hybrid
