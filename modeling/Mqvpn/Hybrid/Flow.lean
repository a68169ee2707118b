import Mqvpn.Hybrid.Streams
import Mqvpn.Lib.Relay
import Mqvpn.Reorder.Packet

/-!
# A flow of the TCP lane

A TCP connection that the client terminates, and relays over an HTTP/3 request of its own. What
the TCP stack delivers goes to the request, or waits in a queue (the *uplink*); what the
request receives is written to the connection, and the one chunk that does not fit is kept
(the *downlink*). The functions here are those of a single flow: they end with what they have
decided about it, and tearing the flow down, or leaving a marker in its place, is the business
of the table.
-/

namespace Mqvpn.Hybrid

open Reorder

/-- `mqvpn_tcp_flow_state_t` -/
inductive FlowState where
  | stickyRaw
  | pendingAccept
  | pendingStream
  | active
  | closing
  deriving DecidableEq, Repr

/-- `TCP_MSS` -/
def tcpMss : Nat := 8960

/-- `TCP_WND` -/
def tcpWnd : Nat := 65535 * 2 ^ 5

/-- `MQVPN_TCP_LANE_BP_HIGH_WATER` -/
def bpHighWater : Nat := 262144

/-- `MQVPN_TCP_LANE_BP_LOW_WATER` -/
def bpLowWater : Nat := 65536

/-- `struct pbuf`: the payloads of a chain. -/
structure Pbuf where
  payloads : List (List UInt8)
  totLen_le : payloads.flatten.length ≤ 65535

def Pbuf.bytes (p : Pbuf) : List UInt8 := p.payloads.flatten

/-- `tot_len` -/
def Pbuf.totLen (p : Pbuf) : Nat := p.bytes.length

/-- `pbuf_copy_partial` -/
def Pbuf.copyPartial (p : Pbuf) (len offset : Nat) : List UInt8 := (p.bytes.drop offset).take len

/-- `mqvpn_tcp_uplink_node_t` -/
structure UplinkNode where
  p : Pbuf
  offset : Nat

/-- What of a delivery is not sent yet. -/
def UplinkNode.rest (n : UplinkNode) : List UInt8 := n.p.bytes.drop n.offset

/-- `mqvpn_tcp_flow_t`. The connection, the request and its stream are known by the numbers of
    their objects, and the stash is the part of its buffer that is in use. -/
structure Flow where
  key : FlowKey
  state : FlowState
  lastActivityUs : Nat
  synIsn : UInt32
  pcb : Option Nat := none
  h3Request : Option Nat := none
  stream : Option Nat := none
  uplinkQ : List UplinkNode := []
  uplinkQueuedBytes : Nat := 0
  uplinkWithheldRecved : Nat := 0
  uplinkWithheld : Bool := false
  downlinkPaused : Bool := false
  finSentToH3 : Bool := false
  finReceivedFromH3 : Bool := false
  tcpFinSeen : Bool := false
  downlinkStash : List UInt8 := []
  /-- `lane` is not `NULL`. -/
  hasLane : Bool
  /-- For the statements: from the TCP stack to the request. -/
  uplink : Relay.Direction UInt8 := {}
  /-- For the statements: from the request to the TCP stack. -/
  downlink : Relay.Direction UInt8 := {}
  /-- For the statements: what `tcp_recved` has given back to the TCP stack. -/
  recved : Nat := 0
  /-- For the statements: the stash at each read of data. -/
  stashAtReads : List (List UInt8) := []
  /-- The request has reported its fin: it reports it on every later call. -/
  h3Fin : Bool := false

/-- What a function has decided about its flow: it goes on, or the function has returned
    `mqvpn_tcp_lane_on_relay_error`, or it has called `tcp_lane_finish_clean_close`. -/
inductive Outcome where
  | live
  | relayError
  | cleanClose
  deriving DecidableEq, Repr

/-! ## The uplink -/

/-- What `tcp_lane_uplink_send_from` returns (nothing for -1), the bytes that were accepted,
    and the answers left over. -/
structure Sent where
  offset : Option Nat
  bytes : List UInt8
  answers : List SendAnswer

/-- The chunk that is offered next: all of a contiguous buffer, a slice of a chain. -/
def Pbuf.offered (p : Pbuf) (offset : Nat) : List UInt8 :=
  match p.payloads with
  | [payload] => payload.drop offset
  | _ => p.copyPartial (min (p.totLen - offset) tcpMss) offset

/-- `tcp_lane_uplink_send_from`. Without a further answer the stream is not writable. -/
def uplinkSendFrom (p : Pbuf) (offset : Nat) : List SendAnswer → Sent
  | [] => { offset := some offset, bytes := [], answers := [] }
  | answer :: answers =>
    if p.totLen ≤ offset then { offset := some offset, bytes := [], answers := answer :: answers }
    else
      let chunk := p.offered offset
      if chunk = [] then { offset := none, bytes := [], answers := answer :: answers }
      else
        match answer with
        | .again => { offset := some offset, bytes := [], answers }
        | .err => { offset := none, bytes := [], answers }
        | .accept n =>
          let sent := min n chunk.length
          let offset := (offset + sent) % 2 ^ 16
          -- a partial accept is backpressure
          if sent < chunk.length then { offset := some offset, bytes := chunk.take sent, answers }
          else
            let rest := uplinkSendFrom p offset answers
            { rest with bytes := chunk ++ rest.bytes }

/-- `tcp_lane_uplink_stash` -/
def uplinkStash (f : Flow) (p : Pbuf) (offset : Nat) : Flow :=
  { f with
    uplinkQ := f.uplinkQ ++ [{ p, offset }]
    uplinkQueuedBytes := (f.uplinkQueuedBytes + (p.totLen - offset)) % 2 ^ 32 }

/-- `tcp_lane_uplink_maybe_fin` -/
def uplinkMaybeFin (f : Flow) (answers : List SendAnswer) : Flow × Outcome :=
  if f.state ≠ .active ∨ f.h3Request = none ∨ !f.tcpFinSeen ∨ f.finSentToH3 ∨ !f.uplinkQ.isEmpty then (f, .live)
  else
    match answers with
    | [] => (f, .live)
    | .again :: _ => (f, .live)
    | .err :: _ => (f, .relayError)
    | .accept _ :: _ =>
      let f := { f with finSentToH3 := true, uplink := f.uplink.close }
      if f.finReceivedFromH3 then (f, .cleanClose) else (f, .live)

/-- The loop of `tcp_lane_uplink_flush` over the queue; without answers left over it has
    failed. -/
def uplinkDrain (f : Flow) : List UplinkNode → List SendAnswer → Flow × Option (List SendAnswer)
  | [], answers => ({ f with uplinkQ := [] }, some answers)
  | n :: q, answers =>
    let r := uplinkSendFrom n.p n.offset answers
    let f := { f with uplink := f.uplink.pass r.bytes }
    match r.offset with
    | none => ({ f with uplinkQ := n :: q }, none)
    | some off =>
      let f := { f with uplinkQueuedBytes := (f.uplinkQueuedBytes + 2 ^ 32 - (off - n.offset)) % 2 ^ 32 }
      if off < n.p.totLen then ({ f with uplinkQ := { n with offset := off } :: q }, some r.answers)
      else uplinkDrain f q r.answers

/-- The end of `tcp_lane_uplink_flush`: the window that was withheld is opened again. -/
def uplinkResume (f : Flow) : Flow :=
  if f.uplinkWithheld ∧ f.uplinkQueuedBytes < bpLowWater then
    { f with
      uplinkWithheld := false
      recved := if f.pcb.isSome then f.recved + f.uplinkWithheldRecved else f.recved
      uplinkWithheldRecved := 0 }
  else f

/-- `tcp_lane_uplink_flush` -/
def uplinkFlush (f : Flow) (answers : List SendAnswer) : Flow × Outcome :=
  if f.state ≠ .active ∨ f.h3Request = none then (f, .live)
  else
    match uplinkDrain f f.uplinkQ answers with
    | (f, none) => (f, .relayError)
    | (f, some answers) =>
      let r := uplinkMaybeFin f answers
      if r.2 ≠ .live then r else (uplinkResume r.1, .live)

/-- The end of `tcp_lane_uplink_deliver`: the window of a delivery that waits in the queue. -/
def uplinkWithhold (f : Flow) (tot : Nat) : Flow :=
  let f :=
    if f.state = .active ∨ bpHighWater ≤ f.uplinkQueuedBytes then { f with uplinkWithheld := true } else f
  if f.uplinkWithheld then { f with uplinkWithheldRecved := (f.uplinkWithheldRecved + tot) % 2 ^ 32 }
  else { f with recved := f.recved + tot }

/-- What of a delivery is sent at once, in `tcp_lane_uplink_deliver`. -/
def uplinkSendNow (f : Flow) (p : Pbuf) (answers : List SendAnswer) : Sent :=
  if f.state = .active ∧ f.uplinkQ.isEmpty ∧ f.h3Request ≠ none then uplinkSendFrom p 0 answers
  else { offset := some 0, bytes := [], answers }

/-- `tcp_lane_uplink_deliver`; `alloc`: there is memory for a node of the queue. -/
def uplinkDeliver (f : Flow) (p : Pbuf) (answers : List SendAnswer) (alloc : Bool) : Flow × Outcome :=
  let r := uplinkSendNow f p answers
  let f := { f with uplink := f.uplink.pass r.bytes }
  match r.offset with
  | none => (f, .relayError)
  | some off =>
    if off = p.totLen then ({ f with recved := f.recved + p.totLen }, .live)
    else if !alloc then (f, .relayError)
    else (uplinkWithhold (uplinkStash f p off) p.totLen, .live)

/-- `mqvpn_tcp_lane_on_lwip_recv`: a delivery, or the FIN of the peer. -/
def onLwipRecv (f : Flow) (p : Option Pbuf) (now : Nat) (answers : List SendAnswer) (alloc : Bool) :
    Flow × Outcome :=
  let f := { f with lastActivityUs := now }
  match p with
  | none => uplinkFlush { f with tcpFinSeen := true, uplink := f.uplink.sawEnd } answers
  | some p =>
    let f := { f with uplink := f.uplink.take p.bytes }
    if f.state ≠ .active ∧ f.state ≠ .pendingStream then (f, .live) else uplinkDeliver f p answers alloc

/-- `mqvpn_tcp_lane_on_stream_established`, of the flow that was found -/
def onStreamEstablished (f : Flow) (now : Nat) (answers : List SendAnswer) : Flow × Outcome :=
  uplinkFlush { f with state := .active, lastActivityUs := now } answers

/-! ## The downlink -/

/-- An answer of `tcp_write`: all is taken, `ERR_MEM`, or another error. -/
inductive WriteAnswer where
  | ok
  | mem
  | err

/-- What the two sides answer in a round of `tcp_lane_downlink_drain`; `alloc`: there is memory
    for the stash. -/
structure ReadAnswers where
  recv : RecvAnswer
  sndbuf : Nat
  write : WriteAnswer
  alloc : Bool

/-- What the two sides answer to a retry of the stash and the drain after it. -/
structure DownlinkAnswers where
  sndbuf : Nat
  write : WriteAnswer
  reads : List ReadAnswers
  /-- `tcp_shutdown` succeeds. -/
  shutdown : Bool

/-- `cli_tcp_lane_h3_recv` -/
def h3Recv (f : Flow) (answer : RecvAnswer) : RecvAnswer := recvBody tcpMss f.h3Fin answer

/-- `tcp_lane_downlink_maybe_shutdown` -/
def downlinkMaybeShutdown (f : Flow) (shutdown : Bool) : Flow × Outcome :=
  if f.finReceivedFromH3 then (f, .live)
  else
    let f := { f with finReceivedFromH3 := true, downlink := f.downlink.close }
    if !shutdown then (f, .relayError)
    else if f.finSentToH3 then (f, .cleanClose)
    else (f, .live)

/-- `tcp_lane_downlink_stash`, and the pause after it -/
def downlinkStash (f : Flow) (chunk : List UInt8) (alloc : Bool) : Flow × Outcome :=
  if !alloc then (f, .relayError) else ({ f with downlinkStash := chunk, downlinkPaused := true }, .live)

/-- The flow after a read. -/
def afterRead (f : Flow) (chunk : List UInt8) (fin : Bool) : Flow :=
  { f with
    downlink := if fin then (f.downlink.take chunk).sawEnd else f.downlink.take chunk
    h3Fin := f.h3Fin || fin
    stashAtReads := if chunk = [] then f.stashAtReads else f.stashAtReads ++ [f.downlinkStash] }

/-- `tcp_lane_downlink_drain`. Without a further answer the request has nothing to read. -/
def downlinkDrain (shutdown : Bool) (f : Flow) : List ReadAnswers → Flow × Outcome
  | [] => if f.h3Fin then downlinkMaybeShutdown (afterRead f [] true) shutdown else (f, .live)
  | a :: as =>
    match h3Recv f a.recv with
    | .again => (f, .live)
    | .err => (f, .relayError)
    | .data chunk fin =>
      let f := afterRead f chunk fin
      if chunk = [] ∧ !fin then (f, .relayError)
      else if chunk = [] then downlinkMaybeShutdown f shutdown
      else if a.sndbuf < chunk.length then downlinkStash f chunk a.alloc
      else
        match a.write with
        | .mem => downlinkStash f chunk a.alloc
        | .err => (f, .relayError)
        | .ok =>
          let f := { f with downlink := f.downlink.pass chunk }
          if fin then downlinkMaybeShutdown f shutdown else downlinkDrain shutdown f as

/-- `tcp_lane_downlink_stash_retry` -/
def downlinkStashRetry (f : Flow) (a : DownlinkAnswers) : Flow × Outcome :=
  if a.sndbuf < f.downlinkStash.length then (f, .live)
  else
    match a.write with
    | .mem => (f, .live)
    | .err => (f, .relayError)
    | .ok =>
      ({ f with
          downlink := f.downlink.pass f.downlinkStash
          downlinkStash := []
          downlinkPaused := false }, .live)

/-- The drain, if the flow relays. -/
def downlinkResume (f : Flow) (a : DownlinkAnswers) : Flow × Outcome :=
  if f.state ≠ .active ∨ f.h3Request = none ∨ f.pcb = none then (f, .live)
  else downlinkDrain a.shutdown f a.reads

/-- `tcp_lane_downlink_pump_status`, of the flow that was found -/
def downlinkPump (f : Flow) (a : DownlinkAnswers) : Flow × Outcome :=
  if f.state = .closing then (f, .live)
  else if f.downlinkPaused then
    let r := downlinkStashRetry f a
    if r.2 ≠ .live then r
    else if r.1.downlinkPaused then (r.1, .live)
    else downlinkResume r.1 a
  else downlinkResume f a

/-- `mqvpn_tcp_lane_on_lwip_sent` -/
def onLwipSent (f : Flow) (now : Nat) (a : DownlinkAnswers) : Flow × Outcome :=
  let f := { f with lastActivityUs := now }
  if !f.downlinkPaused then (f, .live)
  else
    let r := downlinkStashRetry f a
    if r.2 ≠ .live then r
    else if r.1.downlinkPaused then (r.1, .live)
    -- the flow is looked up by its stream
    else if r.1.stream = none then (r.1, .live)
    else downlinkPump r.1 a

/-- What `mqvpn_tcp_lane_tick` does for a flow that is paused, and not idle. -/
def downlinkTick (f : Flow) (a : DownlinkAnswers) : Flow × Outcome :=
  if !f.downlinkPaused then (f, .live)
  else
    let r := downlinkStashRetry f a
    if r.2 ≠ .live then r
    else if r.1.downlinkPaused then (r.1, .live)
    else downlinkResume r.1 a

/-! ## Runs -/

/-- What can happen to a flow while it relays. -/
inductive FlowStep where
  | recv (p : Option Pbuf) (now : Nat) (answers : List SendAnswer) (alloc : Bool)
  | established (now : Nat) (answers : List SendAnswer)
  | writable (answers : List SendAnswer)
  | body (a : DownlinkAnswers)
  | sent (now : Nat) (a : DownlinkAnswers)
  | tick (a : DownlinkAnswers)

def flowStep (f : Flow) : FlowStep → Flow × Outcome
  | .recv p now answers alloc => onLwipRecv f p now answers alloc
  | .established now answers => onStreamEstablished f now answers
  | .writable answers => uplinkFlush f answers
  | .body a => downlinkPump f a
  | .sent now a => onLwipSent f now a
  | .tick a => downlinkTick f a

/-- A step of a flow that is still there. -/
def relayStep (s : Flow × Outcome) (step : FlowStep) : Flow × Outcome :=
  match s.2 with
  | .live => flowStep s.1 step
  | _ => s

/-- A flow that was accepted, with a request that waits for its response. -/
def acceptedFlow (key : FlowKey) (synIsn : UInt32) (now pcb request stream : Nat) : Flow where
  key
  state := .pendingStream
  lastActivityUs := now
  synIsn
  pcb := some pcb
  h3Request := some request
  stream := some stream
  hasLane := true

/-- A flow from 10.0.0.3 to 192.0.2.7, port 80. -/
def sampleKey : FlowKey where
  ipVersion := 4
  proto := 6
  srcIp := ⟨[10, 0, 0, 3, 0, 0, 0, 0, 0, 0, 0, 0, 0, 0, 0, 0], rfl⟩
  dstIp := ⟨[192, 0, 2, 7, 0, 0, 0, 0, 0, 0, 0, 0, 0, 0, 0, 0], rfl⟩
  srcPort := 40000
  dstPort := 80

def relayRun (f : Flow) (steps : List FlowStep) : Flow × Outcome := steps.foldl relayStep (f, .live)

end Mqvpn.Hybrid
