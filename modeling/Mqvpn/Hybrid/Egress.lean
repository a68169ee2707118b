import Mqvpn.Hybrid.EgressFlow
import Mathlib.Logic.Function.Basic

/-!
# The egress

The server's flows of the TCP lane: they are in one list, each in the slot of its stream, and
counted for the server and for their connection. A flow is destroyed when its connection to the
target fails or takes too long, and when its stream is reset or closed; a relay error and the
eviction of an idle flow only ask for the stream to be closed, which may happen within the call.

Memory is known by numbers that are not used again. A use of an object that is not there any
more, and an assertion that does not hold, are recorded as a fault.
-/

namespace Mqvpn.Hybrid

/-- `svr_stream_t`. The request of a stream has the number of the stream. -/
structure EgressStream where
  conn : Nat
  /-- The headers were read. -/
  headers : Bool := false
  /-- `role` is `SVR_STREAM_ROLE_CONNECT_TCP`. -/
  connectTcp : Bool := false
  tcpEgressFlow : Option Nat := none

/-- The state of the server that `tcp_egress.c` works on. -/
structure Egress where
  tcpMaxFlows : Nat
  tcpConnectTimeoutSec : Nat
  tcpIdleTimeoutSec : Nat
  egressFdBudget : Nat
  /-- `tcp_flow_count` of the connections. -/
  conns : Nat → Option Nat
  streams : Nat → Option EgressStream
  flows : Nat → Option EgressFlow
  flowList : List Nat
  globalFdCount : Nat
  flowsTotalOpened : Nat
  flowsRejectedCap : Nat
  nextFlow : Nat
  /-- For the statements: the flows that were destroyed. -/
  destroyed : List Nat
  /-- For the statements: freed memory was used, or an assertion did not hold. -/
  fault : Bool

namespace Egress

variable (s : Egress)

def setFlow (id : Nat) (f : Option EgressFlow) : Egress := { s with flows := Function.update s.flows id f }

def setStream (id : Nat) (st : Option EgressStream) : Egress :=
  { s with streams := Function.update s.streams id st }

/-- `svr_tcp_egress_flow_destroy`, of a flow and its stream -/
def unlinkFlow (id : Nat) (f : EgressFlow) (st : EgressStream) : Egress :=
  let s := { s with
    fault := s.fault || id ∉ s.flowList
    flowList := s.flowList.erase id }
  let s :=
    match s.conns st.conn with
    | none => { s with fault := true }
    | some n =>
      { s with
        conns := Function.update s.conns st.conn (some (n - 1))
        fault := s.fault || n = 0 }
  let s := { s with
    globalFdCount := s.globalFdCount - 1
    fault := s.fault || s.globalFdCount = 0 }
  let s := s.setStream f.stream (some { st with tcpEgressFlow := none })
  { s.setFlow id none with destroyed := id :: s.destroyed }

/-- `svr_tcp_egress_flow_destroy` -/
def flowDestroy (id : Nat) : Egress :=
  match s.flows id with
  | none => { s with fault := true }
  | some f =>
    match s.streams f.stream with
    | none => { s with fault := true }
    | some st => s.unlinkFlow id f st

/-- What `cb_request_close` and `cb_request_closing_notify` do for the flow of a stream. -/
def destroyOf (st : EgressStream) : Egress :=
  match st.tcpEgressFlow with
  | none => s
  | some id => if st.connectTcp then s.flowDestroy id else s

/-- `cb_request_closing_notify` -/
def cbRequestClosing (stream : Nat) : Egress :=
  match s.streams stream with
  | none => { s with fault := true }
  | some st => s.destroyOf st

/-- `cb_request_close` -/
def cbRequestClose (stream : Nat) : Egress :=
  match s.streams stream with
  | none => { s with fault := true }
  | some st => (s.destroyOf st).setStream stream none

/-- `xqc_h3_request_close`: the close notify may come within the call. -/
def requestClose (stream : Nat) (sync : Bool) : Egress := if sync then s.cbRequestClose stream else s

/-- A function of a flow has ended: asking for the request to be closed, and destroying a flow
    that did not connect, are the last things that it does. -/
def ended (id : Nat) (r : EgressFlow × EgressFlow.Outcome) (sync : Bool) : Egress :=
  let s := s.setFlow id (some r.1)
  match r.2 with
  | .alive => s
  | .relayError => s.requestClose r.1.h3Request sync
  | .failConnect => s.flowDestroy id

/-! ## Requests -/

/-- How `connect` ends. -/
inductive ConnectAnswer where
  | connected (rounds : List EgressFlow.Round)
  | inProgress
  | failed

/-- What a request meets. -/
structure RequestAnswers where
  /-- The request is for the TCP lane, and the server has it enabled. -/
  connectTcp : Bool
  /-- It passes the authentication, the parser of the path and the ACL. -/
  allowed : Bool
  /-- `svr_egress_fd_register_is_set` -/
  registerIsSet : Bool
  /-- The socket, if there is one. -/
  fd : Option Nat
  inetPton : Bool
  alloc : Bool
  connect : ConnectAnswer
  /-- `svr_egress_fd_register` succeeds. -/
  register : Bool
  now : Nat
  /-- The close notify comes within `xqc_h3_request_close`. -/
  sync : Bool

/-- The flow of a request that was admitted is listed and counted. -/
def openFlow (stream fd now : Nat) (st : EgressStream) : Egress :=
  let s := s.setStream stream (some { st with tcpEgressFlow := some s.nextFlow })
  let s := s.setFlow s.nextFlow
    (some (EgressFlow.connecting fd stream stream (now + s.tcpConnectTimeoutSec * 1000000) now))
  { s with
    flowList := s.nextFlow :: s.flowList
    conns := Function.update s.conns st.conn ((s.conns st.conn).map (· + 1))
    globalFdCount := s.globalFdCount + 1
    flowsTotalOpened := s.flowsTotalOpened + 1
    nextFlow := s.nextFlow + 1 }

/-- The end of `svr_tcp_egress_start_connect`. -/
def connectFlow (id : Nat) (f : EgressFlow) (a : RequestAnswers) : Egress :=
  match a.connect with
  | .connected rounds => s.ended id (EgressFlow.outcome (f.onConnected a.now rounds)) a.sync
  | .failed => s.flowDestroy id
  | .inProgress => if a.register then s.setFlow id (some { f with interest := some (false, true) }) else s

/-- `svr_tcp_egress_start_connect`; `n` is the count of the connection. -/
def startConnect (stream : Nat) (st : EgressStream) (n : Nat) (a : RequestAnswers) : Egress :=
  if !a.registerIsSet then s
  else if s.egressFdBudget ≤ s.globalFdCount then { s with flowsRejectedCap := s.flowsRejectedCap + 1 }
  else if s.tcpMaxFlows ≤ n then { s with flowsRejectedCap := s.flowsRejectedCap + 1 }
  else
    match a.fd with
    | none => s
    | some fd =>
      if !a.inetPton || !a.alloc then s
      else
        let id := s.nextFlow
        let s := s.openFlow stream fd a.now st
        match s.flows id with
        | none => { s with fault := true }
        | some f => s.connectFlow id f a

/-- The headers of a request, in `cb_request_read`. -/
def onRequest (stream : Nat) (a : RequestAnswers) : Egress :=
  match s.streams stream with
  | none => { s with fault := true }
  | some st =>
    match s.conns st.conn with
    | none => { s with fault := true }
    | some n =>
      let st := { st with headers := true, connectTcp := st.connectTcp || a.connectTcp }
      let s := s.setStream stream (some st)
      if a.connectTcp && a.allowed then s.startConnect stream st n a else s

/-! ## Events -/

/-- The flow in the slot of a stream. -/
def slot (stream : Nat) : Option Nat := (s.streams stream).bind EgressStream.tcpEgressFlow

/-- A function of a flow that is reached by a pointer. -/
def onFlow (id : Nat) (g : EgressFlow → EgressFlow × EgressFlow.Outcome) (sync : Bool) : Egress :=
  match s.flows id with
  | none => { s with fault := true }
  | some f => s.ended id (g f) sync

/-- An event of a stream, for the flow in its slot. -/
def onStream (stream : Nat) (g : EgressFlow → EgressFlow × EgressFlow.Outcome) (sync : Bool) : Egress :=
  match s.slot stream with
  | none => s
  | some id => s.onFlow id g sync

/-- `svr_tcp_egress_on_idle_evict`, if the flow is idle for too long -/
def idle (now : Nat) (f : EgressFlow) : EgressFlow × EgressFlow.Outcome :=
  if s.tcpIdleTimeoutSec ≠ 0 ∧ f.lastActivityUs < now ∧ s.tcpIdleTimeoutSec * 1000000 < now - f.lastActivityUs then
    (f, .relayError)
  else (f, .alive)

/-- What a round of `svr_tcp_egress_tick` decides. -/
def expired (now : Nat) (f : EgressFlow) : EgressFlow × EgressFlow.Outcome :=
  if f.state = .connecting then (f, if f.connectDeadlineUs ≤ now then .failConnect else .alive) else s.idle now f

/-- `svr_tcp_egress_tick`: the next flow is taken before the flow is looked at; `sync` says of
    each flow whether its close notify comes within `xqc_h3_request_close`. -/
def tick (now : Nat) (sync : Nat → Bool) : Egress :=
  s.flowList.foldl (fun s id => s.onFlow id (s.expired now) (sync id)) s

/-- `svr_tcp_egress_destroy_all` -/
def destroyAll : Egress := s.flowList.foldl flowDestroy s

/-- What can happen to the server. -/
inductive Step where
  | connOpen (conn : Nat)
  | connClose (conn : Nat)
  | streamOpen (stream conn : Nat)
  | request (stream : Nat) (a : RequestAnswers)
  | body (stream : Nat) (now : Nat) (rounds : List EgressFlow.Round) (sync : Bool)
  | writable (stream : Nat) (now : Nat) (answers : List SendAnswer) (fin : SendAnswer) (sync : Bool)
  | fdReady (flow : Nat) (readable writable soError : Bool) (now : Nat) (a : EgressFlow.ReadyAnswers) (sync : Bool)
  | tick (now : Nat) (sync : Nat → Bool)
  | reset (stream : Nat)
  | close (stream : Nat)
  | destroyAll

def step : Step → Egress
  | .connOpen conn => { s with conns := Function.update s.conns conn (some 0) }
  | .connClose conn => { s with conns := Function.update s.conns conn none }
  | .streamOpen stream conn => s.setStream stream (some { conn })
  | .request stream a => s.onRequest stream a
  | .body stream now rounds sync => s.onStream stream (fun f => EgressFlow.outcome (f.onBody now rounds)) sync
  | .writable stream now answers fin sync =>
    s.onStream stream (fun f => EgressFlow.outcome (f.onH3Writable now answers fin)) sync
  | .fdReady flow readable writable soError now a sync =>
    s.onFlow flow (fun f => f.fdReady readable writable soError now a) sync
  | .tick now sync => s.tick now sync
  | .reset stream => s.cbRequestClosing stream
  | .close stream => s.cbRequestClose stream
  | .destroyAll => s.destroyAll

/-- What the library and the platform promise about a step: what is opened is new, what is
    notified is open, the headers of a stream are notified once, a connection is closed after
    its streams, and the platform reports only sockets that are registered. -/
def Proper : Step → Prop
  | .connOpen conn => s.conns conn = none
  | .connClose conn => ∀ stream st, s.streams stream = some st → st.conn ≠ conn
  | .streamOpen stream conn => s.streams stream = none ∧ (s.conns conn).isSome
  | .request stream _ => ∃ st, s.streams stream = some st ∧ st.headers = false
  | .body stream _ _ _ => (s.streams stream).isSome
  | .writable stream _ _ _ _ => (s.streams stream).isSome
  | .fdReady flow _ _ _ _ _ _ => ∃ f, s.flows flow = some f ∧ f.interest.isSome
  | .tick _ _ => True
  | .reset stream => (s.streams stream).isSome
  | .close stream => (s.streams stream).isSome
  | .destroyAll => True

/-- The server after `mqvpn_server_new`. -/
def start (tcpMaxFlows tcpConnectTimeoutSec tcpIdleTimeoutSec egressFdBudget : Nat) : Egress where
  tcpMaxFlows
  tcpConnectTimeoutSec
  tcpIdleTimeoutSec
  egressFdBudget
  conns := fun _ => none
  streams := fun _ => none
  flows := fun _ => none
  flowList := []
  globalFdCount := 0
  flowsTotalOpened := 0
  flowsRejectedCap := 0
  nextFlow := 0
  destroyed := []
  fault := false

def run (steps : List Step) : Egress := steps.foldl step s

end Egress

end Mqvpn.Hybrid
