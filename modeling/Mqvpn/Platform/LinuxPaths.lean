import Mqvpn.Client.Tags
import Mathlib.Logic.Function.Basic

/-!
# The paths of the Linux platform

The Linux platform has a socket and a watcher for every path, gives the sockets to the
library, and keeps what it knows of its paths in parallel arrays. The paths come from the
start-up, from the control socket and, once they were dropped, from the recovery: a link or
an address that comes back, the recovery timer, and the tunnel when it is established. The
steps of a run are these events and the calls into the library that are not about paths.

What the platform asks of the system is an input (`Env`): the state of the interfaces, and
whether a socket can be made, pinned and watched. A failing `event_new` is an input where the
code looks at it; elsewhere the process does not survive it. The sockets have names that are
never used again. Names of interfaces are not longer than the system allows, the unnamed one
is empty, and the local addresses of the sockets are left out.
-/

namespace Mqvpn

open Mqvpn.Path Function

namespace Client

/-- `mqvpn_add_path_outcome_t` -/
inductive Outcome
  | ok
  | transientFail
  | permanentFail
  deriving DecidableEq

/-- `add_path_outcome_from_state` -/
def addPathOutcomeFromState : Lifecycle → Outcome
  | .validating | .active | .standby => .ok
  | .createWait => .transientFail
  | .closedRecoverable => .permanentFail
  | .pending | .degraded | .closedDropped | .closedFree => .ok

/-- The outcome of `mqvpn_client_add_path_fd_with_outcome`. -/
def addPathOutcome (c : Client) (nowUs : Nat) (fd : Int) (desc : Option Desc) (xq : Xquic) : Outcome :=
  if c.multipathReady ∧ c.config.multipath ∧ c.conn.isSome then
    match (c.addPathFd nowUs fd desc xq).paths.find? (·.handle = c.nextPathHandle) with
    | some p => addPathOutcomeFromState p.state
    | none => .ok
  else .ok

end Client

namespace LinuxPaths

open Client

/-- `mqvpn_path_t`. The last four fields are kept for the statements: no function of the
    platform reads them. -/
structure PathSlot where
  fd : Int := -1
  iface : String := ""
  platformAttached : Bool := false
  /-- The re-adds of this path that failed in a row, as `path_recover_failures` counts them. -/
  failures : Nat := 0
  /-- How often in a row the route gate blocked this path. -/
  blocked : Nat := 0
  /-- The path was configured as a backup path. -/
  backup : Bool := false
  /-- The weight that was last set for the path. -/
  weight : Nat := 0

/-- What the system answers in one event, or in one round of a loop. -/
structure Env where
  nowUs : Nat
  /-- `iface_is_up_and_running` -/
  upAndRunning : String → Bool := fun _ => true
  /-- `iface_has_usable_ip`, if it could be found out -/
  usableIp : String → Option Bool := fun _ => some true
  /-- `iface_has_route_to_server`, if it could be found out -/
  hasRoute : String → Option Bool := fun _ => some true
  /-- A socket can be created and bound. -/
  socket : Bool := true
  /-- `linux_pin_socket_to_iface` succeeds. -/
  pin : Bool := true
  eventNew : Bool := true
  xq : Xquic
  /-- `xqc_conn_close_path` succeeds. -/
  closePath : Bool := true

/-- `PATH_RECOVER_FAILURE_LIMIT` -/
def pathRecoverFailureLimit : Nat := 5

/-- `MQVPN_PATH_FLAG_BACKUP` -/
def flagBackup : UInt32 := 1

end LinuxPaths

/-- The part of `platform_ctx_t` that is about paths, and the sockets of the system. -/
structure LinuxPaths where
  client : Client
  nPaths : Nat := 0
  paths : Nat → LinuxPaths.PathSlot := fun _ => {}
  libPathHandles : Nat → Int := fun _ => 0
  /-- The watchers, each with the socket that it watches. -/
  evUdp : Nat → Option Int := fun _ => none
  pathRecoverFailures : Nat → Nat := fun _ => 0
  routeGateBlocked : Nat → Nat := fun _ => 0
  nextFd : Int := 0
  isOpen : Int → Bool := fun _ => false
  /-- The interfaces that the sockets are pinned to. -/
  pinned : Int → Option String := fun _ => none
  /-- The library was given a socket of a named interface that was not pinned to it. -/
  handedUnpinned : Bool := false

namespace LinuxPaths

open Client

variable (s : LinuxPaths)

/-! ## Sockets -/

/-- A new socket; its descriptor is `nextFd`. -/
def openSocket : LinuxPaths := { s with nextFd := s.nextFd + 1, isOpen := update s.isOpen s.nextFd true }

def closeFd (fd : Int) : LinuxPaths := { s with isOpen := update s.isOpen fd false }

/-- `linux_pin_socket_to_iface`, where it succeeds -/
def pin (fd : Int) (iface : String) : LinuxPaths := { s with pinned := update s.pinned fd (some iface) }

def setPath (i : Nat) (f : PathSlot → PathSlot) : LinuxPaths :=
  { s with paths := update s.paths i (f (s.paths i)) }

/-- An array without the element at `idx`: what follows moves down, and the last place of the
    first `n` ones is cleared. -/
def compact {α : Type} (f : Nat → α) (n idx : Nat) (clear : α) : Nat → α := fun i =>
  if i < idx then f i else if i + 1 < n then f (i + 1) else if i + 1 = n then clear else f i

/-- `mqvpn_path_mgr_add`; the new path is the last one. -/
def pathMgrAdd (iface : String) (backup socket : Bool) : Option LinuxPaths :=
  if maxPaths ≤ s.nPaths ∨ socket = false then none
  else
    some { s.openSocket with
      paths := update s.paths s.nPaths { fd := s.nextFd, iface, platformAttached := true, backup }
      nPaths := s.nPaths + 1 }

/-- `mqvpn_path_mgr_remove_at` -/
def pathMgrRemoveAt (idx : Nat) : LinuxPaths :=
  if s.nPaths ≤ idx then s
  else
    let s := if 0 ≤ (s.paths idx).fd then s.closeFd (s.paths idx).fd else s
    { s with paths := compact s.paths s.nPaths idx {}, nPaths := s.nPaths - 1 }

/-- The first path on an interface. -/
def findIface (iface : String) : Option Nat :=
  (List.range s.nPaths).find? fun i => (s.paths i).iface = iface

/-! ## The library -/

/-- The descriptor of a path that the platform fills in. -/
def desc (backup : Bool) : Desc := { flags := if backup then flagBackup else 0, weight := 0 }

/-- `mqvpn_client_add_path_fd` with the socket of the path `i`, and the handle that it returns -/
def addPathFd (i : Nat) (d : Desc) (env : Env) : Int × LinuxPaths :=
  let mp := s.paths i
  let handle := s.client.addPathHandle env.nowUs mp.fd (some d)
  (handle, { s with
    client := s.client.addPathFd env.nowUs mp.fd (some d) env.xq
    handedUnpinned := s.handedUnpinned || (0 ≤ handle ∧ mp.iface ≠ "" ∧ s.pinned mp.fd ≠ some mp.iface) })

/-- What `mqvpn_client_get_paths` has for a handle. -/
def statusOf (pinfo : List Entry) (handle : Int) : Option Status :=
  (pinfo.find? (·.handle = handle)).map (·.status)

/-! ## The control socket -/

/-- `platform_add_path` -/
def platformAddPath (iface : String) (backup : Bool) (env : Env) : LinuxPaths :=
  if iface = "" then s
  else
    let idx := s.nPaths
    match s.pathMgrAdd iface backup env.socket with
    | none => s
    | some s =>
      if env.pin = false then s.pathMgrRemoveAt idx
      else
        let (handle, s) := (s.pin (s.paths idx).fd iface).addPathFd idx (desc backup) env
        let s := { s with libPathHandles := update s.libPathHandles idx handle }
        if handle < 0 then s.pathMgrRemoveAt idx
        else if env.eventNew = false then
          { s with
            evUdp := update s.evUdp idx none
            client := s.client.removePath env.nowUs handle env.closePath }.pathMgrRemoveAt idx
        else { s with evUdp := update s.evUdp idx (some (s.paths idx).fd) }

/-- `platform_remove_path` -/
def platformRemovePath (iface : String) (env : Env) : LinuxPaths :=
  if iface = "" ∨ s.nPaths ≤ 1 then s
  else
    match s.findIface iface with
    | none => s
    | some idx =>
      let handle := s.libPathHandles idx
      let s := { s with
        client := s.client.removePath env.nowUs handle env.closePath
        -- these two arrays are compacted in parallel with the paths
        evUdp := compact s.evUdp s.nPaths idx none
        libPathHandles := compact s.libPathHandles s.nPaths idx (-1) }.pathMgrRemoveAt idx
      { s with client := s.client.onPlatformFdClosed env.nowUs handle }

/-- `platform_set_path_weight` -/
def platformSetPathWeight (iface : String) (weight : Nat) : LinuxPaths :=
  if iface = "" then s
  else
    match s.findIface iface with
    | none => s
    | some idx =>
      let handle := s.libPathHandles idx
      if handle < 0 then s
      else
        let known := (s.client.findPathByHandle handle).isSome
        { s with client := s.client.setPathWeight handle weight }.setPath idx fun mp =>
          if known then { mp with weight } else mp

/-! ## Recovery -/

/-- `remove_path_by_index` -/
def removePathByIndex (env : Env) (idx : Nat) : LinuxPaths :=
  let mp := s.paths idx
  if mp.fd < 0 then s
  else
    let handle := s.libPathHandles idx
    let s := { s with
      client := s.client.onPlatformPathDropped env.nowUs handle
      evUdp := update s.evUdp idx none }
    let s := (s.closeFd mp.fd).setPath idx fun mp => { mp with fd := -1, platformAttached := false }
    { s with client := s.client.onPlatformFdClosed env.nowUs handle }

/-- `drop_paths_by_ifname` -/
def dropPathsByIfname (ifname : String) (env : Env) : LinuxPaths :=
  (List.range s.nPaths).foldl
    (fun s i => if (s.paths i).iface = ifname then s.removePathByIndex env i else s) s

/-- A round of `try_reactivate_by_ifname`; `pinfo` are the paths of the library before it. -/
def reactivateRound (ifname : String) (env : Env) (pinfo : List Entry) (s : LinuxPaths) (i : Nat) : LinuxPaths :=
  let handle := s.libPathHandles i
  if (s.paths i).iface = ifname ∧ 0 ≤ handle ∧
      (statusOf pinfo handle = some .degraded ∨ statusOf pinfo handle = some .closed) then
    { s with client := s.client.reactivatePath env.nowUs handle env.xq }
  else s

/-- `try_reactivate_by_ifname` -/
def tryReactivateByIfname (ifname : String) (env : Env) : LinuxPaths :=
  if env.hasRoute ifname = some false then s
  else (List.range s.nPaths).foldl (reactivateRound ifname env s.client.paths) s

/-- `recovery_rollback` -/
def recoveryRollback (i : Nat) (outcome : Outcome) (env : Env) : LinuxPaths :=
  let s := { s with client := s.client.removePath env.nowUs (s.libPathHandles i) env.closePath }
  let s := (s.closeFd (s.paths i).fd).setPath i fun mp => { mp with fd := -1, platformAttached := false }
  let next (failures : Nat) : Nat := if outcome = .permanentFail then pathRecoverFailureLimit else failures + 1
  { s with pathRecoverFailures := update s.pathRecoverFailures i (next (s.pathRecoverFailures i)) }.setPath i fun mp =>
    { mp with failures := next mp.failures }

/-- The path gets a new socket, which is given to the library: `recovery_register_with_lib`
    and what `try_readd_removed_path` makes of it. -/
def readd (i : Nat) (env : Env) : Bool × LinuxPaths :=
  let fd := s.nextFd
  let s := (s.openSocket.pin fd (s.paths i).iface).setPath i fun mp => { mp with fd, platformAttached := true }
  let outcome := s.client.addPathOutcome env.nowUs fd (some (desc false)) env.xq
  let (handle, s) := s.addPathFd i (desc false) env
  if handle < 0 then
    (false, (s.closeFd fd).setPath i fun mp => { mp with fd := -1, platformAttached := false })
  else
    let s := { s with libPathHandles := update s.libPathHandles i handle }
    if outcome ≠ .ok then (false, s.recoveryRollback i outcome env)
    else
      (true, { s with
        evUdp := update s.evUdp i (some fd)
        pathRecoverFailures := update s.pathRecoverFailures i 0 }.setPath i fun mp => { mp with failures := 0 })

/-- The library has closed the path, or does not know it. -/
def Readdable (ifname : String) (i : Nat) : Prop :=
  (s.paths i).iface = ifname ∧ s.pathRecoverFailures i < pathRecoverFailureLimit ∧
    (statusOf s.client.paths (s.libPathHandles i) = none ∨
      statusOf s.client.paths (s.libPathHandles i) = some .closed)

instance (ifname : String) (i : Nat) : Decidable (s.Readdable ifname i) := inferInstanceAs (Decidable (_ ∧ _))

/-- The path that `try_readd_removed_path` creates a socket for. -/
def readdIndex (ifname : String) (env : Env) : Option Nat :=
  if env.upAndRunning ifname = true ∧ env.usableIp ifname = some true then
    match (List.range s.nPaths).find? fun i => s.Readdable ifname i with
    | some i =>
      if env.hasRoute ifname ≠ some false ∧ env.socket = true ∧ env.pin = true then some i else none
    | none => none
  else none

/-- `try_readd_removed_path` -/
def tryReaddRemovedPath (ifname : String) (env : Env) : Bool × LinuxPaths :=
  match s.readdIndex ifname env with
  | some i => s.readd i env
  | none => (false, s)

/-- What the events that announce a usable interface do. -/
def recover (ifname : String) (env : Env) : LinuxPaths :=
  match s.tryReaddRemovedPath ifname env with
  | (true, s) => s
  | (false, s) => s.tryReactivateByIfname ifname env

/-- The route gate of the timer has blocked the path, or has let it through. -/
def routeGate (i : Nat) (blocks : Bool) : LinuxPaths :=
  let next (count : Nat) : Nat := if blocks then count + 1 else 0
  { s with routeGateBlocked := update s.routeGateBlocked i (next (s.routeGateBlocked i)) }.setPath i fun mp =>
    { mp with blocked := next mp.blocked }

/-- The timer is to re-add the path, as far as its link and its address are concerned. -/
def Retries (pinfo : List Entry) (env : Env) (i : Nat) : Prop :=
  s.pathRecoverFailures i < pathRecoverFailureLimit ∧ (s.paths i).platformAttached = false ∧
    statusOf pinfo (s.libPathHandles i) = some .closed ∧ env.upAndRunning (s.paths i).iface = true ∧
    env.usableIp (s.paths i).iface = some true

instance (pinfo : List Entry) (env : Env) (i : Nat) : Decidable (s.Retries pinfo env i) :=
  inferInstanceAs (Decidable (_ ∧ _))

/-- The timer is to reactivate the path. -/
def Reactivates (pinfo : List Entry) (env : Env) (i : Nat) : Prop :=
  s.pathRecoverFailures i < pathRecoverFailureLimit ∧ (s.paths i).platformAttached = true ∧
    statusOf pinfo (s.libPathHandles i) = some .closed ∧ env.upAndRunning (s.paths i).iface = true ∧
    env.usableIp (s.paths i).iface = some true

instance (pinfo : List Entry) (env : Env) (i : Nat) : Decidable (s.Reactivates pinfo env i) :=
  inferInstanceAs (Decidable (_ ∧ _))

/-- A round of `recover_dropped_paths_cb`; `pinfo` are the paths of the library before it. -/
def recoverRound (pinfo : List Entry) (env : Nat → Env) (s : LinuxPaths) (i : Nat) : LinuxPaths :=
  let ifname := (s.paths i).iface
  if s.Reactivates pinfo (env i) i then s.tryReactivateByIfname ifname (env i)
  else if s.Retries pinfo (env i) i then
    if (env i).hasRoute ifname = some false then s.routeGate i true
    else ((s.routeGate i false).tryReaddRemovedPath ifname (env i)).2
  else s

/-- `recover_dropped_paths_cb` -/
def recoverDroppedPathsCb (env : Nat → Env) : LinuxPaths :=
  (List.range s.nPaths).foldl (recoverRound s.client.paths env) s

/-- A round of the loop of `cb_state_changed` over the paths. -/
def establishedRound (env : Nat → Env) (s : LinuxPaths) (i : Nat) : LinuxPaths :=
  if (s.paths i).fd < 0 then (s.tryReaddRemovedPath (s.paths i).iface (env i)).2 else s

/-- The failures of the last connection do not count for the next one. -/
def resetFailures : LinuxPaths :=
  { s with
    pathRecoverFailures := fun _ => 0
    paths := fun i => { s.paths i with failures := 0 } }

/-- `cb_state_changed` -/
def cbStateChanged (env : Nat → Env) (s : LinuxPaths) : Output → LinuxPaths
  | .stateChanged _ .established => (List.range s.nPaths).foldl (establishedRound env) s
  | .stateChanged _ .reconnecting | .stateChanged _ .closed => s.resetFailures
  | _ => s

/-! ## Events -/

inductive Event
  | newAddr (ifname : String) (env : Env)
  /-- An address is gone; it may be one of the server's family. -/
  | delAddr (ifname : String) (serverFamily : Bool) (env : Env)
  | delLink (ifname : String) (env : Env)
  /-- A link with its flags IFF_UP and IFF_RUNNING; `operDown` is whether its operational
      state is DOWN or LOWERLAYERDOWN. -/
  | newLink (ifname : String) (up running operDown : Bool) (env : Env)
  /-- The recovery timer; the rounds of its loop each have their answers. -/
  | timer (env : Nat → Env)
  /-- A call into the library that is not about paths, or a callback of xquic. -/
  | client (call : Step) (env : Nat → Env)
  | addPath (iface : String) (backup : Bool) (env : Env)
  | removePath (iface : String) (env : Env)
  | setPathWeight (iface : String) (weight : Nat)

/-- `handle_rtm_deladdr` -/
def handleRtmDeladdr (ifname : String) (serverFamily : Bool) (env : Env) : LinuxPaths :=
  if serverFamily = true ∧ (s.findIface ifname).isSome ∧ env.upAndRunning ifname = true ∧
      env.usableIp ifname = some false then
    s.dropPathsByIfname ifname env
  else s

/-- `handle_rtm_newlink` -/
def handleRtmNewlink (ifname : String) (up running operDown : Bool) (env : Env) : LinuxPaths :=
  if up = false ∨ operDown = true then s.dropPathsByIfname ifname env
  else if running = false ∨ env.usableIp ifname ≠ some true then s
  else s.recover ifname env

/-- A call into the library, and what its changes of state make the platform do. -/
def clientStep (call : Step) (env : Nat → Env) : LinuxPaths :=
  if call.call.managesPaths then s
  else
    let c := s.client.step call
    (c.trace.drop s.client.trace.length).foldl (cbStateChanged env) { s with client := c }

def step : Event → LinuxPaths
  | .newAddr ifname env => s.recover ifname env
  | .delAddr ifname serverFamily env => s.handleRtmDeladdr ifname serverFamily env
  | .delLink ifname env => s.dropPathsByIfname ifname env
  | .newLink ifname up running operDown env => s.handleRtmNewlink ifname up running operDown env
  | .timer env => s.recoverDroppedPathsCb env
  | .client call env => s.clientStep call env
  | .addPath iface backup env => s.platformAddPath iface backup env
  | .removePath iface env => s.platformRemovePath iface env
  | .setPathWeight iface weight => s.platformSetPathWeight iface weight

def run (events : List Event) : LinuxPaths := events.foldl step s

/-! ## The start-up -/

/-- The interfaces of the configuration, each with what the system answers for it. -/
structure Boot where
  config : Client.Config
  pathIfaces : List (String × Env)
  backupIfaces : List (String × Env)
  /-- The answers for the path without an interface, if there are no primary ones. -/
  unnamed : Env

/-- A socket for a primary path. -/
def startSocket (s : LinuxPaths) (p : String × Env) : Option LinuxPaths := s.pathMgrAdd p.1 false p.2.socket

/-- A primary path is pinned and registered. -/
def startPrimary (s : LinuxPaths) (i : Nat) (env : Env) : Option LinuxPaths :=
  let mp := s.paths i
  if mp.iface ≠ "" ∧ env.pin = false then none
  else
    let s := if mp.iface ≠ "" then s.pin mp.fd mp.iface else s
    let (handle, s) := s.addPathFd i (desc false) env
    if handle < 0 then none
    else
      some { s with
        libPathHandles := update s.libPathHandles i handle
        evUdp := update s.evUdp i (some mp.fd) }

/-- A backup path is registered; unlike a primary one, it is not pinned. -/
def startBackup (s : LinuxPaths) (p : String × Env) : LinuxPaths :=
  let idx := s.nPaths
  match s.pathMgrAdd p.1 true p.2.socket with
  | none => s
  | some s =>
    let (handle, s) := s.addPathFd idx (desc true) p.2
    let s := { s with libPathHandles := update s.libPathHandles idx handle }
    if handle < 0 then s.pathMgrRemoveAt idx
    else { s with evUdp := update s.evUdp idx (some (s.paths idx).fd) }

/-- The primary paths, in order. -/
def Boot.primaries (boot : Boot) : List (String × Env) :=
  if boot.pathIfaces = [] then [("", boot.unnamed)] else boot.pathIfaces

/-- The start-up up to the primary paths, unless it gives up. -/
def Boot.startPrimaries (boot : Boot) : Option LinuxPaths := do
  let s ← boot.primaries.foldlM startSocket { client := Client.init boot.config }
  boot.primaries.zipIdx.foldlM (fun s p => s.startPrimary p.2 p.1.2) s

/-- `linux_platform_run_client` up to its event loop, unless it gives up -/
def Boot.start (boot : Boot) : Option LinuxPaths :=
  boot.startPrimaries.map (boot.backupIfaces.foldl startBackup ·)

/-! ## Samples -/

/-- A system on which nothing fails. -/
def sampleEnv : Env where
  nowUs := 10
  xq := sampleXquic

/-- xquic refuses all paths but the first one. -/
def refusingXquic (result : ActivateResult) : Xquic :=
  { sampleXquic with result := fun i => if i = 0 then .ok else result }

/-- Three primary paths. -/
def sampleBoot : Boot where
  config := sampleConfig
  pathIfaces := [("eth0", sampleEnv), ("eth1", sampleEnv), ("eth2", sampleEnv)]
  backupIfaces := []
  unnamed := sampleEnv

/-- The client connects, and xquic is ready to create paths. -/
def sampleConnect (xq : Xquic) : List Event :=
  [.client ⟨20, .connect { h3Connect := some 1200 }⟩ fun _ => sampleEnv,
    .client ⟨21, .readyToCreatePath xq⟩ fun _ => sampleEnv]

end LinuxPaths

end Mqvpn
