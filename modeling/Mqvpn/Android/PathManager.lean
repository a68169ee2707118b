import Mqvpn.Lib.Runs
import Mathlib.Logic.Function.Basic

/-!
# The path manager on Android

On Android, the network monitor reports the networks that become available and the ones
that are lost, and every report is handled by a coroutine of its own. The handler of an
available network binds a socket, has the path registered by the executor and starts a
reader; the one of a lost network has the path unregistered, stops the reader and closes
the socket. The executor runs one block at a time, and between the blocks the handlers
interleave: a state of the system has all of them, each in some phase, and an event either
starts a handler, takes one of them a step further, ends a reader, or stops the tunnel.

The sockets and the paths of the library are named by the handler that made them: the
library never gives a path handle out twice, and a descriptor number that the system gives
out again stands for another socket.
-/

namespace Mqvpn

namespace PathManager

/-- Where a handler is. -/
inductive Phase
  /-- `bindUdp` runs. -/
  | binding
  /-- `bindUdp` has failed, and the network is still active. -/
  | unbound
  /-- The executor block of `handleAvailable` is waiting. -/
  | bound (fd : Nat)
  /-- The path is registered, and the reader is not started. -/
  | registered (fd handle : Nat)
  /-- The path is not registered, and the socket is to be closed. -/
  | refused (fd : Nat)
  /-- The executor block of `handleLost` is waiting, for the loss of the network that the
      handler `ended` had been started for. -/
  | unregistering (ended : Nat)
  /-- The path is removed, and `stopReader` is to be called. -/
  | stopping (handle : Nat) (fd : Option Nat)
  /-- The reader is stopped, and the socket is to be closed. -/
  | closing (fd : Nat)
  /-- The handler has returned; it may have added a path. -/
  | finished (added : Bool)
  deriving DecidableEq

structure Handler where
  network : Nat
  phase : Phase
  deriving DecidableEq

end PathManager

/-- The active set of the network monitor, the tables of the path manager, the library and
    the readers, and the handlers that have been started. -/
structure PathManager where
  /-- The active networks, each with the handler started when it became available. -/
  activeNetworks : Nat → Option Nat := fun _ => none
  pathHandles : Nat → Option Nat := fun _ => none
  pathFds : Nat → Option Nat := fun _ => none
  connected : Bool := false
  /-- The paths of the library. -/
  paths : Nat → Bool := fun _ => false
  /-- The paths with a running reader. -/
  readers : Nat → Bool := fun _ => false
  /-- The tunnel has been stopped. -/
  stopped : Bool := false
  handlers : List PathManager.Handler := []
  /-- The sockets that have been bound. -/
  wasBound : Nat → Bool := fun _ => false
  /-- How often a socket has been closed. -/
  closes : Nat → Nat := fun _ => 0
  /-- A reader has been started on a closed socket. -/
  readClosed : Bool := false

namespace PathManager

open Function

variable (s : PathManager)

/-! ## The network monitor -/

def launch (network : Nat) (phase : Phase) : PathManager :=
  { s with handlers := s.handlers ++ [{ network, phase }] }

/-- The capabilities of a network have changed: if it is new, a handler is started. -/
def onCapabilitiesChanged (network : Nat) : PathManager :=
  match s.activeNetworks network with
  | some _ => s
  | none =>
    { s with activeNetworks := update s.activeNetworks network (some s.handlers.length) }.launch
      network .binding

def onLost (network : Nat) : PathManager :=
  match s.activeNetworks network with
  | none => s
  | some ended =>
    { s with activeNetworks := update s.activeNetworks network none }.launch network (.unregistering ended)

def removeNetwork (network : Nat) : PathManager :=
  { s with activeNetworks := update s.activeNetworks network none }

/-! ## The steps of the handlers -/

def goto (i network : Nat) (phase : Phase) : PathManager :=
  { s with handlers := s.handlers.set i { network, phase } }

def closeFdSafe (fd : Nat) : PathManager :=
  { s with closes := update s.closes fd (s.closes fd + 1) }

/-- `bindUdp` returns, with a socket or not. -/
def bindUdp (i network : Nat) (ok : Bool) : PathManager :=
  if ok then { s with wasBound := update s.wasBound i true }.goto i network (.bound i)
  else s.goto i network .unbound

/-- The executor block of `handleAvailable`; `addPathFd` may fail. -/
def register (i network fd : Nat) (ok : Bool) : PathManager :=
  match s.activeNetworks network with
  -- the network was lost during the bind
  | none => s.goto i network (.refused fd)
  | some _ =>
    if ok then
      { s with
        paths := update s.paths i true
        pathHandles := update s.pathHandles network (some i)
        pathFds := update s.pathFds i (some fd)
        connected := true }.goto i network (.registered fd i)
    else s.goto i network (.refused fd)

def startReader (fd handle : Nat) : PathManager :=
  { s with readers := update s.readers handle true, readClosed := s.readClosed || 0 < s.closes fd }

/-- The executor block of `handleLost`. -/
def unregister (i network : Nat) : PathManager :=
  match s.pathHandles network with
  | none => s.goto i network (.finished false)
  | some handle =>
    match s.pathFds handle with
    | none => { s with pathHandles := update s.pathHandles network none }.goto i network (.stopping handle none)
    | some fd =>
      { s with
        pathHandles := update s.pathHandles network none
        pathFds := update s.pathFds handle none
        paths := update s.paths handle false }.goto i network (.stopping handle (some fd))

def stopReader (handle : Nat) : PathManager := { s with readers := update s.readers handle false }

/-- What is left to do for `handleLost` once the reader is stopped. -/
def afterStop : Option Nat → Phase
  | some fd => .closing fd
  | none => .finished false

/-- The next step of a handler; what it asks of the system may fail. -/
def advance (i : Nat) (h : Handler) (ok : Bool) : PathManager :=
  match h.phase with
  | .binding => s.bindUdp i h.network ok
  | .unbound => (s.removeNetwork h.network).goto i h.network (.finished false)
  | .bound fd => s.register i h.network fd ok
  | .registered fd handle => (s.startReader fd handle).goto i h.network (.finished true)
  | .refused fd => (s.closeFdSafe fd).goto i h.network (.finished false)
  | .unregistering _ => s.unregister i h.network
  | .stopping handle fd => (s.stopReader handle).goto i h.network (afterStop fd)
  | .closing fd => (s.closeFdSafe fd).goto i h.network (.finished false)
  | .finished _ => s

/-! ## The service -/

/-- Closes the socket of every entry of `pathFds`; the handlers have made the handles. -/
def closeAllFds : PathManager :=
  { s with
    closes := fun fd => s.closes fd + (List.range s.handlers.length).countP (s.pathFds · = some fd)
    pathFds := fun _ => none
    pathHandles := fun _ => none
    connected := false }

/-- `cleanup` stops the monitor and the readers, destroys the tunnel with its paths, and
    closes the sockets. -/
def cleanup : PathManager :=
  { s with
    activeNetworks := fun _ => none
    readers := fun _ => false
    paths := fun _ => false
    stopped := true }.closeAllFds

inductive Event
  | available (network : Nat)
  | lost (network : Nat)
  /-- The handler takes its next step. -/
  | step (i : Nat) (ok : Bool)
  /-- The reader's `recvFrom` returns nothing, and its thread ends. -/
  | readerEnds (handle : Nat)
  /-- `cleanup` is run by the executor. -/
  | stop
  deriving DecidableEq

def step : Event → PathManager
  -- a monitor that is stopped reports nothing
  | .available network => if s.stopped then s else s.onCapabilitiesChanged network
  | .lost network => if s.stopped then s else s.onLost network
  | .step i ok =>
    match s.handlers[i]? with
    | some h => s.advance i h ok
    | none => s
  | .readerEnds handle => s.stopReader handle
  | .stop => if s.stopped then s else s.cleanup

def run (events : List Event) : PathManager := events.foldl step {}

end PathManager

end Mqvpn
