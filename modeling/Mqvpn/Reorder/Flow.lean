import Mqvpn.Lib.Segments
import Mqvpn.Reorder.Ring

/-!
# The flows of the receiver

The per-flow half of the receiver: what happens to one packet of one flow, from
the FLOW_RESET rule down to the ring, and what a gap timeout does. A function of
the source that takes the receiver and a flow is a function on a `View`: the
flow, with the fields of the receiver that such functions touch (`Shared`).

Times are microseconds; a gap deadline is computed modulo `2 ^ 64`, as in the
source. The counters of `Stats` are natural numbers: each goes up by one at a
time.

The receiver also records a *trace*, which the source does not have: the calls
of the deliver callback, with the flow and the sequence number of the packet,
and the events that the statements about runs refer to, where a flow or an epoch
begins or ends, a packet is handed over, stored or dropped as late, or a branch
that should be unreachable is taken. No function reads it.
-/

namespace Mqvpn.Reorder

/-! ## Statistics -/

/-- `mqvpn_reorder_stats_t` -/
structure Stats where
  deliveredCount : Nat := 0
  tooLateDropCount : Nat := 0
  tooFarAheadDropCount : Nat := 0
  duplicateDropCount : Nat := 0
  perFlowLimitDropCount : Nat := 0
  poolDropCount : Nat := 0
  resetDiscardCount : Nat := 0
  gapCount : Nat := 0
  gapFilledCount : Nat := 0
  gapTimeoutCount : Nat := 0
  gapOverflowCount : Nat := 0
  gapDemoteCount : Nat := 0
  gapResetCount : Nat := 0
  ackDemoteCount : Nat := 0
  residenceBucket : List Nat := List.replicate 12 0
  residenceMaxUs : Nat := 0

/-- Why a packet that is not late is dropped: out of the window, buffered
    already, over the per-flow limit with nothing to flush, or for want of pool
    bytes or memory. -/
inductive Drop
  | farAhead
  | duplicate
  | perFlowLimit
  | pool

/-- `reorder_lat_bound_us` -/
def latBoundUs : List Nat :=
  [0, 1000, 2000, 4000, 8000, 16000, 32000, 64000, 128000, 256000, 512000, 2 ^ 64 - 1]

namespace Stats

/-- `record_residence` -/
def recordResidence (st : Stats) (nowUs enqUs : Nat) : Stats :=
  let residenceUs := if enqUs < nowUs then nowUs - enqUs else 0
  let i := ((List.range 11).takeWhile fun i => latBoundUs.getD i 0 < residenceUs).length
  { st with
    residenceBucket := st.residenceBucket.modify i (· + 1)
    residenceMaxUs := if st.residenceMaxUs < residenceUs then residenceUs else st.residenceMaxUs }

/-- Count a drop that is not a late one. -/
def countDrop (st : Stats) : Drop → Stats
  | .farAhead => { st with tooFarAheadDropCount := st.tooFarAheadDropCount + 1 }
  | .duplicate => { st with duplicateDropCount := st.duplicateDropCount + 1 }
  | .perFlowLimit => { st with perFlowLimitDropCount := st.perFlowLimitDropCount + 1 }
  | .pool => { st with poolDropCount := st.poolDropCount + 1 }

/-- `mqvpn_reorder_stats_accumulate` -/
def accumulate (dst src : Stats) : Stats where
  deliveredCount := dst.deliveredCount + src.deliveredCount
  tooLateDropCount := dst.tooLateDropCount + src.tooLateDropCount
  tooFarAheadDropCount := dst.tooFarAheadDropCount + src.tooFarAheadDropCount
  duplicateDropCount := dst.duplicateDropCount + src.duplicateDropCount
  perFlowLimitDropCount := dst.perFlowLimitDropCount + src.perFlowLimitDropCount
  poolDropCount := dst.poolDropCount + src.poolDropCount
  resetDiscardCount := dst.resetDiscardCount + src.resetDiscardCount
  gapCount := dst.gapCount + src.gapCount
  gapFilledCount := dst.gapFilledCount + src.gapFilledCount
  gapTimeoutCount := dst.gapTimeoutCount + src.gapTimeoutCount
  gapOverflowCount := dst.gapOverflowCount + src.gapOverflowCount
  gapDemoteCount := dst.gapDemoteCount + src.gapDemoteCount
  gapResetCount := dst.gapResetCount + src.gapResetCount
  ackDemoteCount := dst.ackDemoteCount + src.ackDemoteCount
  residenceBucket := List.zipWith (· + ·) dst.residenceBucket src.residenceBucket
  residenceMaxUs :=
    if dst.residenceMaxUs < src.residenceMaxUs then src.residenceMaxUs else dst.residenceMaxUs

end Stats

/-! ## State -/

/-- What the trace records. -/
inductive Event
  /-- A flow is created. -/
  | created (key : FlowKey)
  /-- A packet is handed to `on_reordered`. -/
  | handed (key : FlowKey) (pkt : Bytes)
  /-- An epoch begins: a cold start or an honoured FLOW_RESET. -/
  | started (key : FlowKey)
  /-- The deliver callback is called for a flow. -/
  | delivered (key : FlowKey) (seq : Nat) (pkt : Bytes)
  /-- The deliver callback is called without any flow state (wait 0). -/
  | bypassed (pkt : Bytes)
  /-- A packet is dropped as late. -/
  | droppedLate (key : FlowKey) (seq : Nat)
  /-- `ring_insert` stored a packet; whether the slot it wrote was empty, and
      whether the entries were in distinct slots after the growth. -/
  | stored (key : FlowKey) (seq : Nat) (vacant spread : Bool)
  /-- A flow is demoted to pass-through. -/
  | demoted (key : FlowKey)
  /-- A flow is evicted, idle or least recently used. -/
  | evicted (key : FlowKey)
  /-- `pool_release` clamped the pool counter to zero. -/
  | clamped

/-- `mqvpn_reorder_flow_t` -/
structure Flow where
  key : FlowKey
  expected : Nat := 0
  initialized : Bool := false
  buffer : Ring
  gapTimerActive : Bool := false
  gapDeadlineUs : Nat := 0
  gapArmedUs : Nat := 0
  waitMs : Nat
  lastSeenUs : Nat := 0
  lastProgressUs : Nat := 0
  passThrough : Bool := false
  classifySeen : Nat := 0
  classifyLarge : Nat := 0
  stats : Stats := {}

/-- The fields of the receiver that functions on flows touch, and the trace. -/
structure Shared where
  poolBytesUsed : Nat := 0
  evictedStats : Stats := {}
  nFlows : Nat := 0
  trace : List Event := []

/-- A flow, and what it shares with the others. -/
structure View extends Shared where
  flow : Flow

/-- `reorder_process_result` -/
inductive ProcessResult
  | delivered
  | buffered
  | droppedLate
  | droppedFarAhead
  | droppedLimit
  deriving DecidableEq

/-- Which of the allocations of one call succeed. -/
structure Alloc where
  flow : Bool
  copy : Bool
  slots : Bool

/-- A packet as it is handed to a flow. -/
structure Arrival where
  seq : Nat
  flags : UInt8
  pkt : Bytes
  nowUs : Nat
  alloc : Alloc

/-- `pool_release` -/
def Shared.poolRelease (s : Shared) (len : Nat) : Shared :=
  if len ≤ s.poolBytesUsed then { s with poolBytesUsed := s.poolBytesUsed - len }
  else { s with poolBytesUsed := 0, trace := s.trace ++ [.clamped] }

/-- The loops over all the slots that release what they hold. -/
def Shared.releaseSlots (s : Shared) (slots : List (Option Slot)) : Shared :=
  slots.foldl (fun s o => match o with
    | some p => s.poolRelease p.pkt.length
    | none => s) s

namespace Flow

/-- `arm_gap_timer` -/
def armGapTimer (f : Flow) (nowUs waitMs : Nat) : Flow :=
  { f with
    gapTimerActive := true
    gapArmedUs := nowUs
    gapDeadlineUs := (nowUs + waitMs * 1000) % 2 ^ 64 }

/-- `stop_gap_timer` -/
def stopGapTimer (f : Flow) : Flow := { f with gapTimerActive := false }

/-- `would_exceed_per_flow_limits` -/
def wouldExceedPerFlowLimits (f : Flow) (cfg : Config) (len : Nat) : Bool :=
  f.buffer.cap ≤ f.buffer.count ∨ cfg.maxBufferBytesPerFlow < f.buffer.bytes + len

/-- The condition under which `on_reordered` honours a FLOW_RESET. -/
def resetHonoured (f : Flow) (cfg : Config) (flags : UInt8) (nowUs : Nat) : Bool :=
  flags &&& flagReset ≠ 0 ∧ (f.initialized = false ∨
    (f.lastProgressUs < nowUs ∧ cfg.resetIdleGraceMs * 1000 < nowUs - f.lastProgressUs))

end Flow

namespace View

/-! ## Delivery -/

/-- `deliver_pkt`; `seq` is the sequence number of the packet, for the trace. -/
def deliverPkt (v : View) (seq : Nat) (pkt : Bytes) (nowUs enqUs : Nat) : View :=
  { v with
    trace := v.trace ++ [.delivered v.flow.key seq pkt]
    flow := { v.flow with
      stats := { v.flow.stats with
        deliveredCount := v.flow.stats.deliveredCount + 1 }.recordResidence nowUs enqUs } }

/-- One iteration of `drain_contiguous`: `s` was removed, leaving the ring `r`. -/
def pop (v : View) (s : Slot) (r : Ring) (nowUs : Nat) : View :=
  let v := { v with flow := { v.flow with buffer := r } }
  let v := v.deliverPkt s.seq s.pkt nowUs s.enqueueUs
  let v := { v with toShared := v.toShared.poolRelease s.pkt.length }
  { v with flow := { v.flow with expected := v.flow.expected + 1 } }

/-- The `while` loop of `drain_contiguous`. Each iteration empties a slot, so the
    size of the ring is enough fuel (`drainLoop_done`). -/
def drainLoop (nowUs : Nat) : (fuel : Nat) → View → View
  | 0, v => v
  | fuel + 1, v =>
    match v.flow.buffer.remove v.flow.expected with
    | some (s, r) => drainLoop nowUs fuel (v.pop s r nowUs)
    | none => v

/-- `drain_contiguous` -/
def drainContiguous (v : View) (nowUs : Nat) : View := drainLoop nowUs v.flow.buffer.size v

/-- Move `expected`. -/
def skipTo (v : View) (seq : Nat) : View := { v with flow := { v.flow with expected := seq } }

/-- `skip_to_lowest_and_drain` -/
def skipToLowestAndDrain (v : View) (nowUs : Nat) : View :=
  let lowest := v.flow.buffer.lowestSeq v.flow.expected
  let v := if v.flow.expected < lowest then v.skipTo lowest else v
  let v := v.drainContiguous nowUs
  { v with flow := { v.flow with lastProgressUs := nowUs } }

/-- `on_gap_timeout` -/
def onGapTimeout (v : View) (nowUs : Nat) : View :=
  if v.flow.buffer.isEmpty then { v with flow := v.flow.stopGapTimer }
  else
    let v := { v with flow := { v.flow with
      stats := { v.flow.stats with gapTimeoutCount := v.flow.stats.gapTimeoutCount + 1 } } }
    let v := v.skipToLowestAndDrain nowUs
    if v.flow.buffer.isEmpty then { v with flow := v.flow.stopGapTimer }
    else { v with flow := { v.flow.armGapTimer nowUs v.flow.waitMs with
      stats := { v.flow.stats with gapCount := v.flow.stats.gapCount + 1 } } }

/-- `overflow_flush` -/
def overflowFlush (v : View) (nowUs : Nat) : View :=
  let wasArmed := v.flow.gapTimerActive
  let v := v.skipToLowestAndDrain nowUs
  if v.flow.buffer.isEmpty then
    let v := if wasArmed then { v with flow := { v.flow with
        stats := { v.flow.stats with gapOverflowCount := v.flow.stats.gapOverflowCount + 1 } } }
      else v
    { v with flow := v.flow.stopGapTimer }
  else v

/-! ## Reset and demotion -/

/-- `discard_buffer_for_reset` -/
def discardBufferForReset (v : View) : View :=
  let v := if v.flow.gapTimerActive then { v with flow := { v.flow with
      stats := { v.flow.stats with gapResetCount := v.flow.stats.gapResetCount + 1 } } }
    else v
  let slots := v.flow.buffer.slots
  let v := { v with
    toShared := v.toShared.releaseSlots slots
    flow := { v.flow with
      stats := { v.flow.stats with
        resetDiscardCount := v.flow.stats.resetDiscardCount + slots.countP Option.isSome } } }
  { v with flow := { v.flow.stopGapTimer with buffer := v.flow.buffer.free } }

/-- `reset_reorder_flow` -/
def resetReorderFlow (v : View) : View :=
  let v := v.discardBufferForReset
  { v with flow := { v.flow with passThrough := false, classifySeen := 0, classifyLarge := 0 } }

/-- `classify_update`: whether the flow is to be demoted. -/
def classifyUpdate (v : View) (cfg : Config) (pkt : Bytes) : Bool × View :=
  if cfg.evalForceNoDemotion then (false, v)
  else if cfg.classifyWindow ≤ v.flow.classifySeen then (false, v)
  else
    let large := cfg.smallPacketThresholdBytes ≤ innerUdpPayloadLen pkt
    let f := { v.flow with
      classifySeen := v.flow.classifySeen + 1
      classifyLarge := if large then v.flow.classifyLarge + 1 else v.flow.classifyLarge }
    (f.classifySeen = cfg.classifyWindow ∧ f.classifyLarge ≤ cfg.ackDemoteMaxLargePackets,
      { v with flow := f })

/-- The `while` loop of `flush_buffer_for_demote`. Each iteration delivers a
    packet, so the size of the ring is enough fuel (`demoteLoop_done`). -/
def demoteLoop (nowUs : Nat) : (fuel : Nat) → View → View
  | 0, v => v
  | fuel + 1, v =>
    if v.flow.buffer.isEmpty then v
    else
      let v := v.skipTo (v.flow.buffer.lowestSeq v.flow.expected)
      demoteLoop nowUs fuel (v.drainContiguous nowUs)

/-- `flush_buffer_for_demote` -/
def flushBufferForDemote (v : View) (nowUs : Nat) : View :=
  let v := if v.flow.gapTimerActive then { v with flow := { v.flow with
      stats := { v.flow.stats with gapDemoteCount := v.flow.stats.gapDemoteCount + 1 } } }
    else v
  let v := demoteLoop nowUs v.flow.buffer.size v
  let f := { v.flow with lastProgressUs := nowUs }
  { v with flow := { f.stopGapTimer with buffer := f.buffer.free } }

/-! ## Admission -/

/-- Count a drop. -/
def drop (v : View) (d : Drop) : View :=
  { v with flow := { v.flow with stats := v.flow.stats.countDrop d } }

/-- Count a late drop. -/
def dropLate (v : View) (seq : Nat) : View :=
  { v with
    trace := v.trace ++ [.droppedLate v.flow.key seq]
    flow := { v.flow with stats := { v.flow.stats with
      tooLateDropCount := v.flow.stats.tooLateDropCount + 1 } } }

/-- `pool_would_exhaust` -/
def poolWouldExhaust (v : View) (cfg : Config) (len : Nat) : Bool :=
  cfg.globalMaxBufferBytes < v.poolBytesUsed + len

/-- The rest of `buffer_insert_committed` once `ring_insert` returned the ring
    `r`: charge the pool, and arm the gap timer if the ring was empty. -/
def inserted (v : View) (p : Arrival) (r : Ring) : View :=
  let wasEmpty := v.flow.buffer.isEmpty
  let event := Event.stored v.flow.key p.seq
    (v.flow.buffer.growVacant p.seq v.flow.expected p.alloc.slots)
    (v.flow.buffer.growSpread p.seq v.flow.expected p.alloc.slots)
  let v : View := { v with
    poolBytesUsed := v.poolBytesUsed + p.pkt.length
    trace := v.trace ++ [event]
    flow := { v.flow with buffer := r, lastProgressUs := p.nowUs } }
  if wasEmpty then { v with flow := { v.flow.armGapTimer p.nowUs v.flow.waitMs with
    stats := { v.flow.stats with gapCount := v.flow.stats.gapCount + 1 } } }
  else v

/-- `buffer_insert_committed` -/
def bufferInsertCommitted (v : View) (p : Arrival) : ProcessResult × View :=
  if !p.alloc.copy then (.droppedLimit, v.drop .pool)
  else
    match v.flow.buffer.insert ⟨p.seq, p.pkt, p.nowUs⟩ v.flow.expected p.alloc.slots with
    | none => (.droppedLimit, v.drop .pool)
    | some r => (.buffered, v.inserted p r)

/-- Deliver the packet in hand and move past it. -/
def accept (v : View) (p : Arrival) : View :=
  let v := v.deliverPkt p.seq p.pkt p.nowUs p.nowUs
  { v with flow := { v.flow with expected := v.flow.expected + 1, lastProgressUs := p.nowUs } }

/-- Deliver the packet at `expected` and drain what follows it, ending the wait
    period if nothing is left: the in-order branch of `process_reorder_packet`
    and of `reclassify_after_flush`. -/
def deliverInOrder (v : View) (p : Arrival) : View :=
  let v := (v.accept p).drainContiguous p.nowUs
  if v.flow.buffer.isEmpty ∧ v.flow.gapTimerActive then
    { v with flow := { v.flow.stopGapTimer with
      stats := { v.flow.stats with gapFilledCount := v.flow.stats.gapFilledCount + 1 } } }
  else v

/-- `reclassify_after_flush` -/
def reclassifyAfterFlush (v : View) (p : Arrival) : ProcessResult × View :=
  if p.seq < v.flow.expected then (.droppedLate, v.dropLate p.seq)
  else if p.seq = v.flow.expected then (.delivered, v.deliverInOrder p)
  else if v.flow.buffer.farAhead p.seq v.flow.expected then (.droppedFarAhead, v.drop .farAhead)
  else if v.flow.buffer.contains p.seq then (.droppedLimit, v.drop .duplicate)
  else (.buffered, v)

/-- The second half of `buffer_admit`: the global pool, then the insertion. -/
def poolAdmit (v : View) (cfg : Config) (p : Arrival) : ProcessResult × View :=
  if v.poolWouldExhaust cfg p.pkt.length then
    if v.flow.buffer.isEmpty then (.droppedLimit, v.drop .pool)
    else
      match (v.overflowFlush p.nowUs).reclassifyAfterFlush p with
      | (.buffered, v) =>
        if v.poolWouldExhaust cfg p.pkt.length then (.droppedLimit, v.drop .pool)
        else v.bufferInsertCommitted p
      | res => res
  else v.bufferInsertCommitted p

/-- `buffer_admit`. After a flush the per-flow limit is not checked again. -/
def bufferAdmit (v : View) (cfg : Config) (p : Arrival) : ProcessResult × View :=
  if v.flow.buffer.contains p.seq then (.droppedLimit, v.drop .duplicate)
  else if v.flow.wouldExceedPerFlowLimits cfg p.pkt.length then
    if v.flow.buffer.isEmpty then (.droppedLimit, v.drop .perFlowLimit)
    else
      match (v.overflowFlush p.nowUs).reclassifyAfterFlush p with
      | (.buffered, v) => v.poolAdmit cfg p
      | res => res
  else v.poolAdmit cfg p

/-! ## Dispatch -/

/-- Begin an epoch at the packet and deliver it. -/
def startAt (v : View) (p : Arrival) : View :=
  let v : View := { v with
    trace := v.trace ++ [.started v.flow.key]
    flow := { v.flow with initialized := true, expected := p.seq } }
  v.accept p

/-- `process_reorder_packet` -/
def processReorderPacket (v : View) (cfg : Config) (p : Arrival) : ProcessResult × View :=
  if v.flow.initialized = false then (.delivered, v.startAt p)
  else if p.seq = v.flow.expected then (.delivered, v.deliverInOrder p)
  else if p.seq < v.flow.expected then (.droppedLate, v.dropLate p.seq)
  else if v.flow.buffer.farAhead p.seq v.flow.expected then (.droppedFarAhead, v.drop .farAhead)
  else v.bufferAdmit cfg p

/-- Deliver a packet of a demoted flow. -/
def deliverPassThrough (v : View) (p : Arrival) : View :=
  let v := v.deliverPkt p.seq p.pkt p.nowUs p.nowUs
  { v with flow := { v.flow with lastProgressUs := p.nowUs } }

/-- Flush the buffer and move the flow to pass-through. -/
def demote (v : View) (nowUs : Nat) : View :=
  let v := v.flushBufferForDemote nowUs
  { v with
    trace := v.trace ++ [.demoted v.flow.key]
    flow := { v.flow with
      passThrough := true
      stats := { v.flow.stats with ackDemoteCount := v.flow.stats.ackDemoteCount + 1 } } }

/-- The last step of `on_reordered`: classify real traffic, and demote. -/
def classifyAndDemote (v : View) (cfg : Config) (res : ProcessResult) (p : Arrival) : View :=
  if res = .delivered ∨ res = .buffered ∨ res = .droppedLate then
    match v.classifyUpdate cfg p.pkt with
    | (true, v) => v.demote p.nowUs
    | (false, v) => v
  else v

/-- `on_reordered` -/
def onReordered (v : View) (cfg : Config) (p : Arrival) : View :=
  let v : View := { v with
    trace := v.trace ++ [.handed v.flow.key p.pkt]
    flow := { v.flow with lastSeenUs := p.nowUs } }
  if v.flow.resetHonoured cfg p.flags p.nowUs then v.resetReorderFlow.startAt p
  else if v.flow.passThrough then v.deliverPassThrough p
  else
    let res := v.processReorderPacket cfg p
    res.2.classifyAndDemote cfg res.1 p

end View

end Mqvpn.Reorder
