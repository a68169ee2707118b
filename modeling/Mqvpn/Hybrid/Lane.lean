import Mqvpn.Hybrid.Flow
import Mqvpn.Lib.Heap
import Mqvpn.Reorder.Tx

/-!
# The TCP lane

The table of the flows of a client (`tcp_lane.c`), and what the TCP stack, the requests and the
clock do to it. Besides the flows that relay it holds two kinds of markers: of a flow that goes
the raw lane, and of a flow that was closed.

Flows, connections of the TCP stack and streams are objects with numbers, and a request has the
number of its stream. A use of an object that is not there any more, and an assertion that does
not hold, are recorded as a fault, and do nothing else. Whether the close notify of a request
comes within the call that closes it is up to the library (`reenters`).
-/

namespace Mqvpn.Hybrid

open Reorder

/-- `TCP_LANE_RAW_MARKER_CAP` -/
def rawMarkerCap : Nat := 4096

/-- `TCP_LANE_CLOSING_CAP` -/
def closingCap : Nat := 4096

/-- `TCP_MSL` -/
def tcpMsl : Nat := 60000

/-- `TCP_LANE_CLOSING_GRACE_US` -/
def closingGraceUs : Nat := 2 * tcpMsl * 1000

/-- `mqvpn_tcp_lane_stats_t`; its gauges are the counters of the table. -/
structure LaneStats where
  flowsTotal : Nat := 0
  flowsRejectedCap : Nat := 0
  flowsRejectedOther : Nat := 0
  flowsIdleEvicted : Nat := 0

/-- `struct mqvpn_tcp_lane`, and the objects that its flows point to. -/
structure Lane where
  tcpMaxFlows : UInt32
  tcpIdleTimeoutSec : UInt32
  hashSeed : UInt64
  /-- The chains, of flows by number. -/
  buckets : Nat → List Nat
  nTcpFlows : Nat
  nRawMarkers : Nat
  nClosing : Nat
  lastSweepUs : Nat
  stats : LaneStats
  /-- The flows that are allocated. -/
  flows : Heap Flow
  /-- The connections of the TCP stack, with their callback arguments: a flow, or `NULL`. -/
  pcbs : Heap (Option Nat)
  /-- `cli_stream_t` -/
  streams : Heap Unit
  /-- The close notify of the request comes within `xqc_h3_request_close`. -/
  reenters : Nat → Bool
  /-- For the statements: the connections that were aborted or closed. -/
  ended : List Nat
  /-- For the statements: freed memory was used, or an assertion did not hold. -/
  fault : Bool

namespace Lane

variable (s : Lane)

/-- The number of buckets, as `mqvpn_tcp_lane_new` picks it. -/
def nBuckets : Nat := pickBuckets ((s.tcpMaxFlows.toNat + rawMarkerCap) % 2 ^ 32)

/-- The bucket of a key. -/
def bucket (key : FlowKey) : Nat := bucketOf s.hashSeed s.nBuckets key

/-- All chains, one after the other. -/
def chained : List Nat := (List.range s.nBuckets).flatMap s.buckets

def fail : Lane := { s with fault := true }

/-- What is done with a flow that is reached by a pointer. -/
def onFlow (id : Nat) (g : Flow → Lane) : Lane :=
  match s.flows.get id with
  | none => s.fail
  | some f => g f

def setFlow (id : Nat) (f : Flow) : Lane := { s with flows := s.flows.set id f }

/-- `find_flow` -/
def findFlow (key : FlowKey) : Option Nat :=
  (s.buckets (s.bucket key)).find? fun id => (s.flows.get id).any fun f => flowKeyEq f.key key

/-- `find_flow_by_stream` -/
def findFlowByStream (stream : Nat) : Option Nat :=
  s.chained.find? fun id => (s.flows.get id).any fun f => f.stream == some stream

/-! ## Removing a flow -/

/-- `n--` for a `uint32_t` -/
def dec (n : Nat) : Nat := if n = 0 then 2 ^ 32 - 1 else n - 1

/-- The counter of a population goes down. -/
def discount (state : FlowState) : Lane :=
  match state with
  | .stickyRaw => { s with nRawMarkers := dec s.nRawMarkers }
  | .closing => { s with nClosing := dec s.nClosing }
  | _ => { s with nTcpFlows := dec s.nTcpFlows }

/-- `tcp_lane_remove_flow` -/
def removeFlow (id : Nat) : Lane :=
  s.onFlow id fun f =>
    let chain := s.buckets (s.bucket f.key)
    let s := { s with buckets := Function.update s.buckets (s.bucket f.key) (chain.erase id) }
    let s := s.discount f.state
    { s with flows := s.flows.free id }

/-- `tcp_lane_remove_flow`, of a flow from the lane that it points to -/
def removeOwn (id : Nat) : Lane := s.onFlow id fun f => if f.hasLane then s.removeFlow id else s.fail

/-- `tcp_lane_silent_abort_pcb` -/
def silentAbortPcb (id : Nat) : Lane :=
  s.onFlow id fun f =>
    match f.pcb with
    | none => s
    | some pcb =>
      if (s.pcbs.get pcb).isNone then s.fail
      else
        let s := { s with pcbs := s.pcbs.free pcb, ended := pcb :: s.ended }
        s.setFlow id { f with pcb := none }

/-- The request is not known any more. -/
def forgetH3 (id : Nat) : Lane := s.onFlow id fun f => s.setFlow id { f with h3Request := none, stream := none }

/-- `tcp_lane_teardown_flow` without `close_h3` -/
def teardownSilent (id : Nat) : Lane := ((s.forgetH3 id).silentAbortPcb id).removeOwn id

/-- `mqvpn_tcp_lane_on_h3_closing`, which is what `cb_request_closing_notify` does -/
def onH3Closing (stream : Nat) : Lane :=
  match s.findFlowByStream stream with
  | none => s
  | some id => s.teardownSilent id

/-- `cb_request_close` -/
def cbRequestClose (stream : Nat) : Lane :=
  if (s.streams.get stream).isNone then s.fail
  else
    let s := s.onH3Closing stream
    { s with streams := s.streams.free stream }

/-- `xqc_h3_request_close` -/
def requestClose (request : Nat) : Lane := if s.reenters request then s.cbRequestClose request else s

/-- `tcp_lane_close_h3` -/
def closeH3 (id : Nat) : Lane :=
  s.onFlow id fun f =>
    match f.h3Request with
    | none => s
    | some request => (s.requestClose request).forgetH3 id

/-- `tcp_lane_teardown_flow` with `close_h3` -/
def teardownFlow (id : Nat) : Lane := ((s.closeH3 id).silentAbortPcb id).removeOwn id

/-! ## Closing a flow -/

/-- The older one of two `TCP_FLOW_CLOSING` markers, as `tcp_lane_evict_oldest_closing` walks. -/
def older (oldest : Option (Nat × Flow)) (id : Nat) : Option (Nat × Flow) :=
  match s.flows.get id with
  | none => oldest
  | some f =>
    if f.state = .closing ∧ oldest.all fun o => f.lastActivityUs < o.2.lastActivityUs then some (id, f) else oldest

/-- `tcp_lane_evict_oldest_closing` -/
def evictOldestClosing : Lane :=
  match s.chained.foldl s.older none with
  | none => s
  | some o => s.removeFlow o.1

/-- The room for another `TCP_FLOW_CLOSING` marker. -/
def roomForClosing : Lane := if closingCap ≤ s.nClosing then s.evictOldestClosing else s

/-- `tcp_lane_mark_closing` -/
def markClosing (id now : Nat) : Lane :=
  s.roomForClosing.onFlow id fun f =>
    if !f.hasLane then s.roomForClosing.fail
    else
      let s := s.roomForClosing
      let s := { s with nTcpFlows := dec s.nTcpFlows, nClosing := s.nClosing + 1 }
      s.setFlow id { f with state := .closing, lastActivityUs := now, downlinkStash := [] }

/-- The connection is closed, in `tcp_lane_finish_clean_close`. -/
def closePcb (id : Nat) : Lane :=
  s.onFlow id fun f =>
    match f.pcb with
    | none => s
    | some pcb =>
      if (s.pcbs.get pcb).isNone then s.fail
      else
        let s := { s with pcbs := s.pcbs.set pcb none, ended := pcb :: s.ended }
        s.setFlow id { f with pcb := none }

/-- `tcp_lane_finish_clean_close` -/
def finishCleanClose (id now : Nat) : Lane := ((s.closePcb id).forgetH3 id).markClosing id now

/-- A function of a flow has ended. -/
def settle (id now : Nat) (r : Flow × Outcome) : Lane :=
  let s := s.setFlow id r.1
  match r.2 with
  | .live => s
  | .relayError => s.teardownFlow id
  | .cleanClose => s.finishCleanClose id now

/-! ## New flows -/

/-- An entry for the flow of a key is in the way, if it is not a marker. -/
def resolveExisting (key : FlowKey) : Option Lane :=
  match s.findFlow key with
  | none => some s
  | some id =>
    match s.flows.get id with
    | none => some s.fail
    | some f => if f.state = .closing ∨ f.state = .stickyRaw then some (s.removeFlow id) else none

/-- A new flow is the first one of its chain. -/
def insertFlow (f : Flow) : Lane :=
  { s with
    buckets := Function.update s.buckets (s.bucket f.key) (s.flows.next :: s.buckets (s.bucket f.key))
    flows := s.flows.alloc f
    stats := { s.stats with flowsTotal := s.stats.flowsTotal + 1 } }

/-- `mqvpn_tcp_lane_on_syn`, when no entry is in the way; `alloc`: there is memory for a flow. -/
def commitSyn (key : FlowKey) (toTcp : Bool) (synIsn : UInt32) (alloc : Bool) (now : Nat) : Lane × Bool :=
  if toTcp ∧ s.tcpMaxFlows.toNat ≤ s.nTcpFlows then
    ({ s with stats := { s.stats with flowsRejectedCap := s.stats.flowsRejectedCap + 1 } }, false)
  else if !toTcp ∧ rawMarkerCap ≤ s.nRawMarkers then (s, false)
  else if !alloc then
    ({ s with stats := { s.stats with flowsRejectedOther := s.stats.flowsRejectedOther + 1 } }, false)
  else if toTcp then
    let s := s.insertFlow { key, state := .pendingAccept, synIsn, lastActivityUs := now, hasLane := true }
    ({ s with nTcpFlows := s.nTcpFlows + 1 }, true)
  else
    let s := s.insertFlow { key, state := .stickyRaw, synIsn, lastActivityUs := now, hasLane := false }
    ({ s with nRawMarkers := s.nRawMarkers + 1 }, true)

/-- `mqvpn_tcp_lane_on_syn`, and whether it returns 0 -/
def onSyn (key : FlowKey) (toTcp : Bool) (synIsn : UInt32) (alloc : Bool) (now : Nat) : Lane × Bool :=
  match s.resolveExisting key with
  | none => ({ s with stats := { s.stats with flowsRejectedOther := s.stats.flowsRejectedOther + 1 } }, false)
  | some s => s.commitSyn key toTcp synIsn alloc now

/-- What the lane reads of a `struct tcp_pcb`: two IPv4 addresses in network order, and the
    ports. -/
structure Pcb where
  remoteIp : { b : List UInt8 // b.length = 4 }
  localIp : { b : List UInt8 // b.length = 4 }
  remotePort : UInt16
  localPort : UInt16

/-- The key of the flow of a connection, in `mqvpn_tcp_lane_lwip_accept`. -/
def Pcb.key (pcb : Pcb) : FlowKey where
  ipVersion := 4
  proto := 6
  srcPort := pcb.remotePort
  dstPort := pcb.localPort
  srcIp := ⟨pcb.remoteIp.1 ++ List.replicate 12 0, by simp [pcb.remoteIp.2]⟩
  dstIp := ⟨pcb.localIp.1 ++ List.replicate 12 0, by simp [pcb.localIp.2]⟩

/-- What `cli_tcp_lane_open_stream` meets. -/
inductive OpenAnswer where
  | noConn
  | noMemory
  | noRequest
  | sendFailed
  | sent

/-- `mqvpn_tcp_lane_abort_pending` -/
def abortPending (id : Nat) : Lane := s.teardownSilent id

/-- `mqvpn_tcp_lane_bind_h3_request` -/
def bindH3Request (id stream : Nat) : Lane :=
  s.onFlow id fun f => s.setFlow id { f with h3Request := some stream, stream := some stream }

/-- `cli_tcp_lane_open_stream` -/
def openStream (id : Nat) (answer : OpenAnswer) : Lane :=
  match answer with
  | .noConn => s.abortPending id
  | .noMemory => s.abortPending id
  | .noRequest => s.abortPending id
  | .sendFailed =>
    let stream := s.streams.next
    let s := { s with streams := s.streams.alloc () }
    ((s.bindH3Request id stream).requestClose stream).abortPending id
  | .sent =>
    let stream := s.streams.next
    let s := { s with streams := s.streams.alloc () }
    s.bindH3Request id stream

/-- The TCP stack aborts a connection that was not accepted. -/
def lwipAbort (pcb : Nat) : Lane := { s with pcbs := s.pcbs.free pcb, ended := pcb :: s.ended }

/-- The flow of a connection has been found, in `mqvpn_tcp_lane_lwip_accept`. -/
def acceptFlow (id pcb now : Nat) (answer : OpenAnswer) : Lane :=
  s.onFlow id fun f =>
    if f.state ≠ .pendingAccept then s.lwipAbort pcb
    else if s.tcpMaxFlows.toNat < s.nTcpFlows then
      let s := { s with stats := { s.stats with flowsRejectedCap := s.stats.flowsRejectedCap + 1 } }
      (s.removeFlow id).lwipAbort pcb
    else
      let s := { s with pcbs := s.pcbs.set pcb (some id) }
      let s := s.setFlow id
        { f with pcb := some pcb, state := .pendingStream, lastActivityUs := now, hasLane := true }
      s.openStream id answer

/-- `mqvpn_tcp_lane_lwip_accept`; without a new connection it is called for an error. -/
def lwipAccept (newpcb : Option Pcb) (now : Nat) (answer : OpenAnswer) : Lane :=
  match newpcb with
  | none => s
  | some pcb =>
    let id := s.pcbs.next
    let s := { s with pcbs := s.pcbs.alloc none }
    match s.findFlow pcb.key with
    | none => s.lwipAbort id
    | some flow => s.acceptFlow flow id now answer

/-! ## Events -/

/-- A callback of a connection, if it has one. -/
def onPcb (pcb : Nat) (g : Nat → Lane) : Lane :=
  match s.pcbs.get pcb with
  | some (some id) => g id
  | _ => s

/-- `mqvpn_tcp_lane_on_lwip_err`, after the connection was freed -/
def onLwipErr (pcb : Nat) : Lane :=
  s.onPcb pcb fun id =>
    let s := { s with pcbs := s.pcbs.free pcb }
    s.onFlow id fun f => ((s.setFlow id { f with pcb := none }).closeH3 id).removeOwn id

/-- A function of the flow of a connection. -/
def pcbEvent (pcb now : Nat) (g : Flow → Flow × Outcome) : Lane :=
  s.onPcb pcb fun id => s.onFlow id fun f => s.settle id now (g f)

/-- A function of the flow of a stream. -/
def streamEvent (stream now : Nat) (g : Flow → Flow × Outcome) : Lane :=
  match s.findFlowByStream stream with
  | none => s
  | some id => s.onFlow id fun f => s.settle id now (g f)

/-- `mqvpn_tcp_lane_on_stream_rejected` -/
def onStreamRejected (stream : Nat) : Lane :=
  match s.findFlowByStream stream with
  | none => s
  | some id => s.teardownFlow id

/-! ## The sweep -/

/-- `us` have passed since the last activity of a flow. -/
def olderThan (f : Flow) (now us : Nat) : Bool := f.lastActivityUs < now ∧ us < now - f.lastActivityUs

/-- A flow in the sweep of `mqvpn_tcp_lane_tick`, the answers that are left, and whether its
    bucket is walked again. Without a further answer a chunk that waits goes on to wait. -/
def sweepFlow (now clock id : Nat) (answers : List DownlinkAnswers) : Lane × List DownlinkAnswers × Bool :=
  match s.flows.get id with
  | none => (s.fail, answers, false)
  | some f =>
    if f.state = .closing then (if olderThan f now closingGraceUs then s.removeFlow id else s, answers, false)
    else if s.tcpIdleTimeoutSec ≠ 0 ∧ f.state ≠ .stickyRaw ∧ olderThan f now (s.tcpIdleTimeoutSec.toNat * 1000000) then
      let s := { s with stats := { s.stats with flowsIdleEvicted := s.stats.flowsIdleEvicted + 1 } }
      (s.teardownFlow id, answers, false)
    else if f.downlinkPaused then
      match answers with
      | [] => (s, [], false)
      | a :: answers =>
        let r := downlinkTick f a
        (s.settle id clock r, answers, r.2 ≠ .live)
    else (s, answers, false)

/-- A walk over the rest of a chain; the next flow is taken before the flow is looked at. -/
def sweepChain (now clock : Nat) : Lane → List Nat → List DownlinkAnswers → Lane × List DownlinkAnswers × Bool
  | s, [], answers => (s, answers, false)
  | s, id :: ids, answers =>
    let r := s.sweepFlow now clock id answers
    if r.2.2 then r else sweepChain now clock r.1 ids r.2.1

/-- A bucket is walked again as long as the walk has changed more than a flow; every such walk
    takes an answer. -/
def sweepBucket (now clock b : Nat) : Nat → Lane → List DownlinkAnswers → Lane × List DownlinkAnswers
  | 0, s, answers => (s, answers)
  | walks + 1, s, answers =>
    let r := sweepChain now clock s (s.buckets b) answers
    if r.2.2 then sweepBucket now clock b walks r.1 r.2.1 else (r.1, r.2.1)

def sweep (now clock : Nat) (answers : List DownlinkAnswers) : Lane :=
  ((List.range s.nBuckets).foldl (fun r b => sweepBucket now clock b (r.2.length + 1) r.1 r.2) (s, answers)).1

/-- `mqvpn_tcp_lane_tick`; the clock is read again for a marker. -/
def tick (now clock : Nat) (answers : List DownlinkAnswers) : Lane :=
  if s.nTcpFlows = 0 ∧ s.nClosing = 0 then s
  else if (now + 2 ^ 64 - s.lastSweepUs) % 2 ^ 64 < 1000000 then s
  else sweep { s with lastSweepUs := now } now clock answers

/-! ## Runs -/

/-- What can happen to the lane. -/
inductive Step where
  | syn (key : FlowKey) (toTcp : Bool) (synIsn : UInt32) (alloc : Bool) (now : Nat)
  | accept (newpcb : Option Pcb) (now : Nat) (answer : OpenAnswer)
  | recv (pcb : Nat) (p : Option Pbuf) (now : Nat) (answers : List SendAnswer) (alloc : Bool)
  | sent (pcb now : Nat) (a : DownlinkAnswers)
  | err (pcb : Nat)
  | established (stream now : Nat) (answers : List SendAnswer)
  | rejected (stream : Nat)
  | writable (stream now : Nat) (answers : List SendAnswer)
  | body (stream now : Nat) (a : DownlinkAnswers)
  | reset (stream : Nat)
  | close (stream : Nat)
  | tick (now clock : Nat) (answers : List DownlinkAnswers)

/-- A SYN that is to be decided. -/
def Step.isSyn : Step → Bool
  | .syn _ _ _ _ _ => true
  | _ => false

def step : Step → Lane
  | .syn key toTcp synIsn alloc now => (s.onSyn key toTcp synIsn alloc now).1
  | .accept newpcb now answer => s.lwipAccept newpcb now answer
  | .recv pcb p now answers alloc => s.pcbEvent pcb now fun f => onLwipRecv f p now answers alloc
  | .sent pcb now a => s.pcbEvent pcb now fun f => onLwipSent f now a
  | .err pcb => s.onLwipErr pcb
  | .established stream now answers => s.streamEvent stream now fun f => onStreamEstablished f now answers
  | .rejected stream => s.onStreamRejected stream
  | .writable stream now answers => s.streamEvent stream now fun f => uplinkFlush f answers
  | .body stream now a => s.streamEvent stream now fun f => downlinkPump f a
  | .reset stream => s.onH3Closing stream
  | .close stream => s.cbRequestClose stream
  | .tick now clock answers => s.tick now clock answers

/-- The library notifies only of streams that were not closed. -/
def Proper : Step → Prop
  | .established stream _ _ => (s.streams.get stream).isSome
  | .rejected stream => (s.streams.get stream).isSome
  | .writable stream _ _ => (s.streams.get stream).isSome
  | .body stream _ _ => (s.streams.get stream).isSome
  | .reset stream => (s.streams.get stream).isSome
  | .close stream => (s.streams.get stream).isSome
  | _ => True

instance decidableProper : ∀ e, Decidable (s.Proper e)
  | .established stream _ _ => inferInstanceAs (Decidable ((s.streams.get stream).isSome = true))
  | .rejected stream => inferInstanceAs (Decidable ((s.streams.get stream).isSome = true))
  | .writable stream _ _ => inferInstanceAs (Decidable ((s.streams.get stream).isSome = true))
  | .body stream _ _ => inferInstanceAs (Decidable ((s.streams.get stream).isSome = true))
  | .reset stream => inferInstanceAs (Decidable ((s.streams.get stream).isSome = true))
  | .close stream => inferInstanceAs (Decidable ((s.streams.get stream).isSome = true))
  | .syn _ _ _ _ _ => .isTrue trivial
  | .accept _ _ _ => .isTrue trivial
  | .recv _ _ _ _ _ => .isTrue trivial
  | .sent _ _ _ => .isTrue trivial
  | .err _ => .isTrue trivial
  | .tick _ _ _ => .isTrue trivial

/-- `mqvpn_tcp_lane_new` -/
def start (tcpMaxFlows tcpIdleTimeoutSec : UInt32) (hashSeed : UInt64) (reenters : Nat → Bool) : Lane where
  tcpMaxFlows
  tcpIdleTimeoutSec
  hashSeed
  buckets := fun _ => []
  nTcpFlows := 0
  nRawMarkers := 0
  nClosing := 0
  lastSweepUs := 0
  stats := {}
  flows := Heap.empty
  pcbs := Heap.empty
  streams := Heap.empty
  reenters
  ended := []
  fault := false

def run (steps : List Step) : Lane := steps.foldl step s

end Lane

end Mqvpn.Hybrid
