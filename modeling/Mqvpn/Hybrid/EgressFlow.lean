import Mqvpn.Hybrid.Streams
import Mqvpn.Lib.Relay

/-!
# A flow of the egress

The server relays a flow of the TCP lane between its HTTP/3 request and a socket of its own:
from the body of the request to the socket (the *downlink*), and back (the *uplink*). One chunk
that was read and could not be sent is kept for each direction. A function that ends with
`svr_tcp_egress_on_relay_error` has asked for the request to be closed and leaves the flow
alone from then on.
-/

namespace Mqvpn.Hybrid

open Relay

/-- `svr_tcp_egress_flow_state_t` -/
inductive EgressState where
  | connecting
  | active
  deriving DecidableEq, Repr

/-- `TCP_EGRESS_RELAY_CHUNK` -/
def egressChunk : Nat := 4096

/-- `svr_tcp_egress_flow_t`; the request and the stream are known by the numbers of their
    objects, and the stashes are the parts of their buffers that are in use. -/
structure EgressFlow where
  fd : Nat
  h3Request : Nat
  stream : Nat
  state : EgressState := .connecting
  connectDeadlineUs : Nat
  lastActivityUs : Nat
  downlinkPaused : Bool := false
  downlinkStash : List UInt8 := []
  finReceivedFromH3 : Bool := false
  downlinkShutdownDone : Bool := false
  uplinkWithheld : Bool := false
  uplinkStash : List UInt8 := []
  egressEofSeen : Bool := false
  uplinkFinSent : Bool := false
  /-- The interest that is registered for the socket: to read, and to write. -/
  interest : Option (Bool × Bool) := none
  /-- For the statements: from the body of the request to the socket. -/
  downlink : Direction UInt8 := {}
  /-- For the statements: from the socket to the body of the response. -/
  uplink : Direction UInt8 := {}
  /-- The request has reported its fin: it reports it on every later call. -/
  h3Fin : Bool := false

namespace EgressFlow

variable (f : EgressFlow)

/-- `svr_tcp_egress_update_fd_interest` -/
def updateFdInterest : EgressFlow :=
  if f.state ≠ .active then f
  else { f with interest := some (!f.uplinkWithheld && !f.egressEofSeen, f.downlinkPaused) }

/-! ## The downlink -/

/-- How a loop of `send` ends: everything was sent, the socket takes no more, or it has failed. -/
inductive SendEnd where
  | done
  | blocked
  | failed

/-- The loop of `send` over a chunk: the bytes that were sent, those that were not, and how it
    ended. A call that was interrupted is repeated, and one that sends nothing is a failure. -/
def sendLoop : List UInt8 → List SendAnswer → List UInt8 × List UInt8 × SendEnd
  | [], _ => ([], [], .done)
  | buf, [] => ([], buf, .blocked)
  | buf, .again :: _ => ([], buf, .blocked)
  | buf, .err :: _ => ([], buf, .failed)
  | buf, .accept n :: answers =>
    if n = 0 then ([], buf, .failed)
    else
      let (sent, rest, how) := sendLoop (buf.drop n) answers
      (buf.take n ++ sent, rest, how)

/-- `svr_tcp_egress_maybe_shutdown_downlink` -/
def maybeShutdownDownlink : EgressFlow :=
  if !f.finReceivedFromH3 || f.downlinkPaused || f.downlinkShutdownDone then f
  else { f with downlinkShutdownDone := true, downlink := f.downlink.close }

/-- What the two sides answer in a round of `svr_tcp_egress_drain_body`; `alloc`: there is
    memory for the stash. -/
structure Round where
  recv : RecvAnswer
  sends : List SendAnswer
  alloc : Bool

/-- The flow after a read of the body. -/
def afterRecv (chunk : List UInt8) (fin : Bool) : EgressFlow :=
  { f with
    downlink := if fin then (f.downlink.take chunk).sawEnd else f.downlink.take chunk
    h3Fin := f.h3Fin || fin }

/-- The activity that is recorded at the end of a drain that has sent something. -/
def stampIf (moved : Bool) (now : Nat) : EgressFlow := if moved then { f with lastActivityUs := now } else f

/-- The fin at the end of a drain. -/
def gotFin : EgressFlow := maybeShutdownDownlink { f with finReceivedFromH3 := true }

/-- The loop of `svr_tcp_egress_drain_body`; nothing is returned after a relay error. Without
    a further answer there is nothing to read. -/
def drainLoop (now : Nat) (f : EgressFlow) (moved : Bool) : List Round → EgressFlow × Bool
  | [] => (stampIf (if f.h3Fin then gotFin (f.afterRecv [] true) else f) moved now, true)
  | a :: as =>
    match recvBody egressChunk f.h3Fin a.recv with
    | .again => (stampIf f moved now, true)
    | .err => (f, false)
    | .data chunk fin =>
      let f := f.afterRecv chunk fin
      let (sent, rest, how) := sendLoop chunk a.sends
      let f := { f with downlink := f.downlink.pass sent }
      let moved := moved || !sent.isEmpty
      match how with
      | .failed => (f, false)
      | .blocked =>
        if !a.alloc then (f, false)
        else (stampIf (updateFdInterest { f with downlinkStash := rest, downlinkPaused := true }) moved now, true)
      | .done =>
        if fin then (stampIf (gotFin f) moved now, true)
        else if chunk = [] then (stampIf f moved now, true)
        else drainLoop now f moved as

/-- `svr_tcp_egress_drain_body`: the flow, and whether it is alive. -/
def drainBody (now : Nat) (rounds : List Round) : EgressFlow × Bool :=
  if f.downlinkPaused then (f, true) else drainLoop now f false rounds

/-- `svr_tcp_egress_flush_downlink_retry` -/
def flushDownlinkRetry (now : Nat) (sends : List SendAnswer) (rounds : List Round) : EgressFlow × Bool :=
  let (sent, rest, how) := sendLoop f.downlinkStash sends
  let f' := { f with downlink := f.downlink.pass sent }
  match how with
  | .failed => (f', false)
  | .blocked =>
    if sent = [] then (f, true) else ({ f' with lastActivityUs := now, downlinkStash := rest }, true)
  | .done =>
    if sent = [] then (f, true)
    else
      let f := { f' with lastActivityUs := now, downlinkStash := [], downlinkPaused := false }
      drainBody f.maybeShutdownDownlink.updateFdInterest now rounds

/-! ## The uplink -/

/-- `svr_tcp_egress_try_uplink_fin` -/
def tryUplinkFin (answer : SendAnswer) : EgressFlow × Bool :=
  if f.uplinkFinSent then (f, true)
  else
    match answer with
    | .again => (f, true)
    | .err => (f, false)
    | .accept _ => ({ f with uplinkFinSent := true, uplink := f.uplink.close }, true)

/-- `svr_tcp_egress_stash_uplink` -/
def stashUplink (rest : List UInt8) (alloc : Bool) : EgressFlow × Bool :=
  if !alloc then (f, false) else (updateFdInterest { f with uplinkStash := rest, uplinkWithheld := true }, true)

/-- The loop of `xqc_h3_request_send_body` over the stash. -/
def sendBodyLoop : List UInt8 → List SendAnswer → List UInt8 × List UInt8 × SendEnd
  | [], _ => ([], [], .done)
  | buf, [] => ([], buf, .blocked)
  | buf, .again :: _ => ([], buf, .blocked)
  | buf, .err :: _ => ([], buf, .failed)
  | buf, .accept n :: answers =>
    let (sent, rest, how) := sendBodyLoop (buf.drop n) answers
    (buf.take n ++ sent, rest, how)

/-- The end of `svr_tcp_egress_on_h3_writable`. -/
def pendingUplinkFin (answer : SendAnswer) : EgressFlow × Bool :=
  if f.egressEofSeen && !f.uplinkFinSent then f.tryUplinkFin answer else (f, true)

/-- `svr_tcp_egress_on_h3_writable`, of the flow in the slot of the stream -/
def onH3Writable (now : Nat) (answers : List SendAnswer) (fin : SendAnswer) : EgressFlow × Bool :=
  if f.uplinkWithheld then
    let (sent, rest, how) := sendBodyLoop f.uplinkStash answers
    let f := { f with uplink := f.uplink.pass sent }
    match how with
    | .failed => (f, false)
    | .blocked => (stampIf { f with uplinkStash := rest } (!sent.isEmpty) now, true)
    | .done =>
      let f := stampIf { f with uplinkStash := [], uplinkWithheld := false } (!sent.isEmpty) now
      f.updateFdInterest.pendingUplinkFin fin
  else f.pendingUplinkFin fin

/-- An answer of `recv`: some bytes, the end of the stream, nothing for now, or an error. -/
inductive SocketAnswer where
  | data (buf : List UInt8)
  | eof
  | again
  | err

/-- What the two sides answer in a round of the loop over `recv`; `alloc`: there is memory for
    the stash. -/
structure UplinkRound where
  recv : SocketAnswer
  send : SendAnswer
  alloc : Bool

/-- The end of the stream of the socket. -/
def gotEof (fin : SendAnswer) : EgressFlow × Bool :=
  (updateFdInterest { f with egressEofSeen := true, uplink := f.uplink.sawEnd }).tryUplinkFin fin

/-- The loop over `recv` of `svr_tcp_egress_on_relay_ready`, and what follows it. Without a
    further answer there is nothing to read. -/
def recvLoop (now : Nat) (fin : SendAnswer) (f : EgressFlow) : List UplinkRound → EgressFlow × Bool
  | [] => (f.updateFdInterest, true)
  | a :: as =>
    match a.recv with
    | .again => (f.updateFdInterest, true)
    | .err => (f, false)
    | .eof => f.gotEof fin
    | .data buf =>
      let buf := buf.take egressChunk
      -- no bytes are the end of the stream
      if buf = [] then f.gotEof fin
      else
        let f := { f with lastActivityUs := now, uplink := f.uplink.take buf }
        match a.send with
        | .err => (f, false)
        | .again => f.stashUplink buf a.alloc
        | .accept n =>
          let f := { f with uplink := f.uplink.pass (buf.take n) }
          if n < buf.length then f.stashUplink (buf.drop n) a.alloc else recvLoop now fin f as

/-- What the socket and the request answer when the socket is ready. -/
structure ReadyAnswers where
  sends : List SendAnswer
  rounds : List Round
  recvs : List UplinkRound
  fin : SendAnswer

/-- The first part of `svr_tcp_egress_on_relay_ready`: the retry of the downlink. -/
def onWriteReady (writable : Bool) (now : Nat) (a : ReadyAnswers) : EgressFlow × Bool :=
  if writable && f.downlinkPaused then f.flushDownlinkRetry now a.sends a.rounds else (f, true)

/-- `svr_tcp_egress_on_relay_ready` -/
def onRelayReady (readable writable : Bool) (now : Nat) (a : ReadyAnswers) : EgressFlow × Bool :=
  let r := f.onWriteReady writable now a
  if !r.2 then r
  else if readable && !r.1.uplinkWithheld then recvLoop now a.fin r.1 a.recvs
  else (r.1.updateFdInterest, true)

/-! ## The connection -/

/-- `svr_tcp_egress_on_connected` -/
def onConnected (now : Nat) (rounds : List Round) : EgressFlow × Bool :=
  (updateFdInterest { f with state := .active, lastActivityUs := now }).drainBody now rounds

/-- `svr_tcp_egress_on_body`, of the flow in the slot of the stream -/
def onBody (now : Nat) (rounds : List Round) : EgressFlow × Bool :=
  if f.state ≠ .active then (f, true) else f.drainBody now rounds

/-- What `svr_tcp_egress_fd_ready` has decided: the flow is alive, a relay error has asked for
    the request to be closed, or the connection has failed and the flow is to be destroyed. -/
inductive Outcome where
  | alive
  | relayError
  | failConnect
  deriving DecidableEq, Repr

def outcome (r : EgressFlow × Bool) : EgressFlow × Outcome := (r.1, if r.2 then .alive else .relayError)

/-- `svr_tcp_egress_fd_ready`; `soError`: the connection has failed. -/
def fdReady (readable writable : Bool) (soError : Bool) (now : Nat) (a : ReadyAnswers) : EgressFlow × Outcome :=
  if f.state = .connecting ∧ writable then
    if soError then (f, .failConnect) else outcome (f.onConnected now a.rounds)
  else outcome (f.onRelayReady readable writable now a)

/-! ## Runs -/

/-- What can happen to a flow. -/
inductive Step where
  | connected (now : Nat) (rounds : List Round)
  | body (now : Nat) (rounds : List Round)
  | writable (now : Nat) (answers : List SendAnswer) (fin : SendAnswer)
  | ready (readable writable : Bool) (soError : Bool) (now : Nat) (a : ReadyAnswers)

/-- `connected` is a call of `connect` that succeeds at once. -/
def step : Step → EgressFlow × Outcome
  | .connected now rounds =>
    if f.state = .connecting then outcome (f.onConnected now rounds) else (f, .alive)
  | .body now rounds => outcome (f.onBody now rounds)
  | .writable now answers fin => outcome (f.onH3Writable now answers fin)
  | .ready readable writable soError now a => f.fdReady readable writable soError now a

/-- A step of a flow that is still there. -/
def relayStep (s : EgressFlow × Outcome) (step : Step) : EgressFlow × Outcome :=
  match s.2 with
  | .alive => s.1.step step
  | _ => s

/-- The flow that `svr_tcp_egress_start_connect` creates. -/
def connecting (fd h3Request stream connectDeadlineUs now : Nat) : EgressFlow where
  fd
  h3Request
  stream
  connectDeadlineUs
  lastActivityUs := now

def run (steps : List Step) : EgressFlow × Outcome := steps.foldl relayStep (f, .alive)

end EgressFlow

end Mqvpn.Hybrid
