import Mqvpn.Lib.Sweep
import Mqvpn.Path.Machine

/-!
# The path table of a client

The operations of the client on its path slots, against the paths that xquic has
for the current connection (`Mp`). A loop over the slots is a sweep: a slot that
is activated takes an id from xquic, so the paths of the connection pass from one
slot to the next.

What xquic answers to a request for a path is an input (`Xquic`): it grants or
refuses the request of each slot, and the id of a path that it grants is fresh in
the connection. Path id 0 is that of the handshake.
-/

namespace Mqvpn.Client

open Mqvpn.Path

/-- The paths of a connection, as xquic has them. -/
structure Mp where
  /-- The ids of all the paths that the connection ever had. -/
  ids : List Nat := [0]
  /-- The calls of `xqc_conn_set_path_weight` on the connection: id and weight. -/
  weights : List (Nat × Nat) := []

/-- What `xqc_conn_create_path` answers in a call into the client, for each slot. -/
structure Xquic where
  result : Nat → ActivateResult
  newId : Nat → List Nat → Nat
  newId_notMem : ∀ i used, newId i used ∉ used

namespace Mp

/-- `xqc_conn_set_path_weight` -/
def setPathWeight (mp : Mp) (id weight : Nat) : Mp := { mp with weights := (id, weight) :: mp.weights }

/-- `xqc_conn_create_path`, where it succeeds. -/
def createPath (mp : Mp) (xq : Xquic) (i : Nat) : Mp :=
  { mp with ids := xq.newId i mp.ids :: mp.ids }

end Mp

/-- `activate_via_xquic_classify` for the slot at index `i`: the result and the
    new path id, which is 0 if there is none. -/
def activateViaXquicClassify (xq : Xquic) (i : Nat) (mp : Mp) : ActivateResult × Nat × Mp :=
  match xq.result i with
  | .ok => (.ok, xq.newId i mp.ids, mp.createPath xq i)
  | .transientFail => (.transientFail, 0, mp)
  | .permanentFail => (.permanentFail, 0, mp)

/-- `client_activate_path` -/
def activatePath (nowUs : Nat) (xq : Xquic) (i : Nat) (p : Entry) (mp : Mp) : Entry × Mp :=
  if p.xquicPathLive then (p, mp)
  else
    let (result, newId, mp) := activateViaXquicClassify xq i mp
    let mp := if result = .ok ∧ 0 < p.weight then mp.setPathWeight newId p.weight else mp
    ((p.onEvent nowUs .activateRequested (some { result, newXqcPathId := newId, nowUs })).1, mp)

/-- `activate_pending_paths` -/
def activatePendingPaths (nowUs : Nat) (xq : Xquic) (paths : List Entry) (mp : Mp) : List Entry × Mp :=
  Sweep.sweep (fun i p mp => if p.state ≠ .pending then (p, mp) else activatePath nowUs xq i p mp)
    0 paths mp

/-! ## The tick -/

/-- `tick_check_all_validations` on a slot; `validated` are the path ids that
    xquic reports as active. -/
def checkValidation (nowUs : Nat) (target : Lifecycle) (validated : Nat → Bool) (p : Entry) : Entry :=
  if p.state ≠ .validating then p
  else if validated p.xqcPathId then
    (p.onEvent nowUs .validationOk (some { validatedTarget := target, nowUs })).1
  else p

/-- `PATH_RESIDENCE_PENDING_WARN_US` -/
def residencePendingWarnUs : Nat := 30000000

/-- `PATH_RESIDENCE_DEGRADED_GRACE_US` -/
def residenceDegradedGraceUs : Nat := 60000000

/-- `path_should_warn_residence`; the difference to the anchor wraps. -/
def shouldWarnResidence (p : Entry) (nowUs : Nat) : Bool :=
  if p.stateEnteredAtUs = 0 then false
  else
    let anchor := if p.lastResidenceWarnAtUs ≠ 0 then p.lastResidenceWarnAtUs else p.stateEnteredAtUs
    let sinceAnchor := (nowUs + 2 ^ 64 - anchor) % 2 ^ 64
    match p.status with
    | .pending => residencePendingWarnUs < sinceAnchor
    | .degraded => p.recreateAfterUs ≠ 0 ∧
        (p.recreateAfterUs + residenceDegradedGraceUs) % 2 ^ 64 < nowUs ∧
        residenceDegradedGraceUs < sinceAnchor
    | .active | .standby | .closed => false

/-- `client_path_residence_check` -/
def residenceCheck (nowUs : Nat) (p : Entry) : Entry :=
  if shouldWarnResidence p nowUs then { p with lastResidenceWarnAtUs := nowUs } else p

/-- The guards of `tick_drive_retry_timer`. -/
def RetryDue (p : Entry) (nowUs : Nat) : Prop :=
  (p.state = .degraded ∨ p.state = .createWait) ∧ p.recreateAfterUs ≠ 0 ∧ p.recreateAfterUs ≤ nowUs

instance (p : Entry) (nowUs : Nat) : Decidable (RetryDue p nowUs) := inferInstanceAs (Decidable (_ ∧ _))

/-- `tick_drive_retry_timer` -/
def driveRetryTimer (nowUs : Nat) (xq : Xquic) (i : Nat) (p : Entry) (mp : Mp) : Entry × Mp :=
  if RetryDue p nowUs then
    let (result, newId, mp) := activateViaXquicClassify xq i mp
    ((p.onEvent nowUs .retryTimer (some { result, newXqcPathId := newId, nowUs })).1, mp)
  else (p, mp)

/-- A slot in the loop of `tick_path_recovery`. -/
def recoverPath (nowUs : Nat) (xq : Xquic) (i : Nat) (p : Entry) (mp : Mp) : Entry × Mp :=
  let r := driveRetryTimer nowUs xq i (residenceCheck nowUs p) mp
  (r.1.tickConfirmStable nowUs, r.2)

/-- The loop of `tick_path_recovery`. -/
def recoverPaths (nowUs : Nat) (xq : Xquic) (paths : List Entry) (mp : Mp) : List Entry × Mp :=
  Sweep.sweep (recoverPath nowUs xq) 0 paths mp

/-! ## Calls on one slot -/

/-- `client_reset_path_runtime` -/
def resetPathRuntime (nowUs : Nat) (p : Entry) : Entry :=
  ({ p with lastResidenceWarnAtUs := 0 }.onEvent nowUs .connReset (some { nowUs })).1

/-- The primary bootstrap of `cli_start_connection`. -/
def bootstrap (nowUs : Nat) (p : Entry) : Entry :=
  { p with xqcPathId := 0, xquicPathLive := true }.enter nowUs .validating

/-- `reactivate_slot_eligible` -/
def ReactivateSlotEligible (p : Entry) : Prop :=
  p.xquicPathLive = false ∧ p.platformAttached = true ∧
    (p.state = .degraded ∨ p.state = .createWait ∨ p.state = .closedRecoverable)

instance (p : Entry) : Decidable (ReactivateSlotEligible p) := inferInstanceAs (Decidable (_ ∧ _))

/-- The activation of `mqvpn_client_reactivate_path`. -/
def reactivate (nowUs : Nat) (xq : Xquic) (i : Nat) (p : Entry) (mp : Mp) : Entry × Mp :=
  let (result, newId, mp) := activateViaXquicClassify xq i mp
  ((p.onEvent nowUs .manualReactivate (some { result, newXqcPathId := newId, nowUs })).1, mp)

/-- `mqvpn_path_desc_t`, as far as it is kept. -/
structure Desc where
  flags : UInt32
  weight : Nat

/-- A slot of `mqvpn_client_add_path_fd_with_outcome`: initialised and attached. -/
def newPath (nowUs : Nat) (handle fd : Int) (desc : Option Desc) : Entry :=
  let p := { entryInit with handle, fd }
  let p := match desc with
    | some d => { p with flags := d.flags, weight := d.weight }
    | none => p
  (p.onEvent nowUs .addFd (some { nowUs })).1

/-- The condition under which `mqvpn_client_add_path_fd_with_outcome` reuses a
    slot. -/
def Reusable (p : Entry) : Prop :=
  p.status = .closed ∧ p.platformAttached = false ∧ p.xquicPathLive = false

instance (p : Entry) : Decidable (Reusable p) := inferInstanceAs (Decidable (_ ∧ _))

/-- `MQVPN_MAX_PATHS` -/
def maxPaths : Nat := 8

/-- The table with one more path: at the first reusable slot, else at the end;
    nothing if it is full. -/
def addPath (paths : List Entry) (p : Entry) : Option (List Entry) :=
  match paths.findIdx? (Reusable ·) with
  | some i => some (paths.set i p)
  | none => if maxPaths ≤ paths.length then none else some (paths ++ [p])

end Mqvpn.Client
