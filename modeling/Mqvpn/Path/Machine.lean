import Mathlib.Algebra.Group.Nat.Defs
import Mathlib.Data.List.Basic

/-!
# The lifecycle of a path

The state machine of a path slot: its nine states, and the event handlers behind
`path_on_event`, which is the one place where a slot changes state. A handler
reads the slot and the context its caller passes, and writes a subset of the
fields that go with the state.

The clock of the client, which stamps the entry into a state, is a parameter
(`clockUs`), apart from the time that the context carries. Besides the new slot,
a handler returns what it announces: the public path event, and the class of the
path that is mirrored to xquic (`Notice`). Log lines are left out.

`Change` says what an event can do to a slot, with the condition under which it
does it; `change_onEvent` is the one place where the handlers are unfolded.
-/

namespace Mqvpn.Path

/-! ## Slots -/

/-- `path_lifecycle_t` -/
inductive Lifecycle
  | pending
  | createWait
  | validating
  | active
  | standby
  | degraded
  | closedRecoverable
  | closedDropped
  | closedFree
  deriving DecidableEq

/-- `mqvpn_path_status_t` -/
inductive Status
  | pending
  | active
  | degraded
  | standby
  | closed
  deriving DecidableEq

/-- `path_public_status_from_lifecycle` -/
def Lifecycle.publicStatus : Lifecycle → Status
  | pending | createWait | validating => .pending
  | active => .active
  | standby => .standby
  | degraded => .degraded
  | closedRecoverable | closedDropped | closedFree => .closed

/-- `path_entry_t`, without the name, the addresses and the traffic counters. As
    `path_entry_init` leaves it, unless told otherwise. -/
structure Entry where
  handle : Int := 0
  fd : Int := -1
  status : Status := .closed
  state : Lifecycle := .closedFree
  platformAttached : Bool := false
  flags : UInt32 := 0
  weight : Nat := 0
  xqcPathId : Nat := 0
  xquicPathLive : Bool := false
  recreateAfterUs : Nat := 0
  recreateRetries : Nat := 0
  pathStableSinceUs : Nat := 0
  stateEnteredAtUs : Nat := 0
  lastResidenceWarnAtUs : Nat := 0
  deriving DecidableEq

/-- `path_entry_init` -/
def entryInit : Entry := {}

/-- `path_event_t` -/
inductive Event
  | activateRequested
  | retryTimer
  | validationOk
  | xquicRemoved
  | manualReactivate
  | platformDrop
  | removeApi
  | addFd
  | connReset
  | fdClosed
  deriving DecidableEq

/-- `activate_result_t` -/
inductive ActivateResult
  | ok
  | transientFail
  | permanentFail
  deriving DecidableEq

/-- `path_event_ctx_t`; what a caller leaves out is zero. -/
structure Ctx where
  result : ActivateResult := .ok
  newXqcPathId : Nat := 0
  validatedTarget : Lifecycle := .pending
  nowUs : Nat

/-- The class of a path as `client_notify_xqc_path_state` passes it on. -/
inductive AppStatus
  | standby
  | available
  | frozen
  deriving DecidableEq

/-- What a handler announces. -/
inductive Notice
  /-- `path_fsm_fire_path_event` -/
  | pathEvent (handle : Int) (status : Status)
  /-- `client_notify_xqc_path_state`, with the fields of the slot it reads. -/
  | xqcPathState (app : AppStatus) (live : Bool) (xqcPathId : Nat)
  deriving DecidableEq

/-- `PATH_RECREATE_DELAY_US` -/
def recreateDelayUs : Nat := 5000000

/-- `PATH_RECREATE_MAX_DELAY_US` -/
def recreateMaxDelayUs : Nat := 60000000

/-- `PATH_RECREATE_MAX_RETRIES` -/
def recreateMaxRetries : Nat := 6

/-- `PATH_STABLE_THRESHOLD_US` -/
def stableThresholdUs : Nat := 30000000

/-! ## Transitions -/

/-- `g_p15_xqc_app_status_for` -/
def appStatusFor : Lifecycle → Lifecycle → Option AppStatus
  | .active, .standby => some .standby
  | .standby, .active => some .available
  | .active, .degraded | .standby, .degraded => some .frozen
  | _, _ => none

namespace Entry

/-- `path_mark_state_entry` -/
def markStateEntry (p : Entry) (nowUs : Nat) : Entry :=
  { p with stateEnteredAtUs := nowUs, lastResidenceWarnAtUs := 0 }

/-- `set_path_state_with_log` -/
def setPathState (p : Entry) (clockUs : Nat) (new : Lifecycle) : Entry × List Notice :=
  if p.state = new ∧ p.stateEnteredAtUs ≠ 0 then (p, [])
  else
    let p' := { p with status := new.publicStatus, state := new }.markStateEntry clockUs
    (p', (appStatusFor p.state new).toList.map fun app =>
      .xqcPathState app p'.xquicPathLive p'.xqcPathId)

end Entry

/-- The loop of `path_recreate_backoff`. -/
def recreateBackoffLoop : (rounds delay : Nat) → Nat
  | 0, delay => delay
  | rounds + 1, delay =>
    if delay < recreateMaxDelayUs then recreateBackoffLoop rounds (delay * 2) else delay

/-- `path_recreate_backoff` -/
def recreateBackoff (retries : Nat) : Nat :=
  min (recreateBackoffLoop (retries - 1) recreateDelayUs) recreateMaxDelayUs

namespace Entry

/-- `apply_failure_with_retry_check` -/
def applyFailureWithRetryCheck (p : Entry) (clockUs : Nat) (retryTarget : Lifecycle) (nowUs : Nat) :
    Entry × List Notice :=
  let p := { p with
    xquicPathLive := false
    xqcPathId := 0
    pathStableSinceUs := 0
    recreateRetries := p.recreateRetries + 1 }
  if recreateMaxRetries ≤ p.recreateRetries then
    { p with recreateAfterUs := 0 }.setPathState clockUs .closedRecoverable
  else
    { p with recreateAfterUs := (nowUs + recreateBackoff p.recreateRetries) % 2 ^ 64 }.setPathState
      clockUs retryTarget

/-- The branch of the activation handlers for `ACTIVATE_OK`. -/
def activated (p : Entry) (clockUs : Nat) (newXqcPathId : Nat) : Entry × List Notice :=
  { p with xqcPathId := newXqcPathId, xquicPathLive := true, recreateAfterUs := 0 }.setPathState
    clockUs .validating

/-- The branch of the activation handlers for `ACTIVATE_PERMANENT_FAIL`. -/
def refused (p : Entry) (clockUs : Nat) : Entry × List Notice :=
  { p with
    xquicPathLive := false
    xqcPathId := 0
    pathStableSinceUs := 0
    recreateAfterUs := 0 }.setPathState clockUs .closedRecoverable

/-- `maybe_transition_dropped_to_free` -/
def maybeTransitionDroppedToFree (p : Entry) (clockUs : Nat) : Entry × List Notice :=
  if p.state ≠ .closedDropped then (p, [])
  else if 0 ≤ p.fd then (p, [])
  else if p.xquicPathLive then (p, [])
  else if p.xqcPathId ≠ 0 then (p, [])
  else p.setPathState clockUs .closedFree

/-! ## Handlers -/

/-- `path_on_activate_requested` -/
def onActivateRequested (p : Entry) (clockUs : Nat) (ctx : Ctx) : Entry × List Notice :=
  if p.state ≠ .pending then (p, [])
  else
    match ctx.result with
    | .ok => p.activated clockUs ctx.newXqcPathId
    | .transientFail => p.applyFailureWithRetryCheck clockUs .createWait ctx.nowUs
    | .permanentFail => p.refused clockUs

/-- `path_on_retry_timer` -/
def onRetryTimer (p : Entry) (clockUs : Nat) (ctx : Ctx) : Entry × List Notice :=
  if p.state ≠ .createWait ∧ p.state ≠ .degraded then (p, [])
  else
    match ctx.result with
    | .ok => p.activated clockUs ctx.newXqcPathId
    | .transientFail => p.applyFailureWithRetryCheck clockUs p.state ctx.nowUs
    | .permanentFail => p.refused clockUs

/-- `path_on_validation_ok` -/
def onValidationOk (p : Entry) (clockUs : Nat) (ctx : Ctx) : Entry × List Notice :=
  if p.state ≠ .validating then (p, [])
  else { p with pathStableSinceUs := ctx.nowUs }.setPathState clockUs ctx.validatedTarget

/-- `path_on_xquic_removed` -/
def onXquicRemoved (p : Entry) (clockUs : Nat) (ctx : Ctx) : Entry × List Notice :=
  match p.state with
  | .validating => p.applyFailureWithRetryCheck clockUs .createWait ctx.nowUs
  | .active | .standby => p.applyFailureWithRetryCheck clockUs .degraded ctx.nowUs
  | .closedDropped =>
    { p with xquicPathLive := false, xqcPathId := 0 }.maybeTransitionDroppedToFree clockUs
  | _ => (p, [])

/-- `path_on_manual_reactivate` -/
def onManualReactivate (p : Entry) (clockUs : Nat) (ctx : Ctx) : Entry × List Notice :=
  if p.state ≠ .closedRecoverable ∧ p.state ≠ .createWait ∧ p.state ≠ .degraded then (p, [])
  else
    match ctx.result with
    | .ok => p.activated clockUs ctx.newXqcPathId
    | .transientFail | .permanentFail => (p, [])

/-- The common body of `path_on_platform_drop` and `path_on_remove_api`, which
    differ in their log lines only. -/
def drop (p : Entry) (clockUs : Nat) : Entry × List Notice :=
  if p.state = .closedDropped then (p, [])
  else if p.state = .closedFree then (p, [])
  else
    { p with platformAttached := false, recreateAfterUs := 0, pathStableSinceUs := 0 }.setPathState
      clockUs .closedDropped

/-- `path_on_platform_drop` -/
def onPlatformDrop (p : Entry) (clockUs : Nat) : Entry × List Notice := p.drop clockUs

/-- `path_on_remove_api` -/
def onRemoveApi (p : Entry) (clockUs : Nat) : Entry × List Notice := p.drop clockUs

/-- `path_on_add_fd` -/
def onAddFd (p : Entry) (clockUs : Nat) : Entry × List Notice :=
  if p.state ≠ .closedFree then (p, [])
  else { p with platformAttached := true }.setPathState clockUs .pending

/-- `path_on_conn_reset` -/
def onConnReset (p : Entry) (clockUs : Nat) : Entry × List Notice :=
  let p := { p with
    xquicPathLive := false
    xqcPathId := 0
    recreateAfterUs := 0
    recreateRetries := 0
    pathStableSinceUs := 0 }
  if p.platformAttached then p.setPathState clockUs .pending
  else p.maybeTransitionDroppedToFree clockUs

/-- `path_on_fd_closed` -/
def onFdClosed (p : Entry) (clockUs : Nat) : Entry × List Notice :=
  if p.state ≠ .closedDropped then (p, [])
  else { p with fd := -1 }.maybeTransitionDroppedToFree clockUs

/-- The dispatch of `path_on_event`. -/
def dispatch (p : Entry) (clockUs : Nat) (ev : Event) (ctx : Ctx) : Entry × List Notice :=
  match ev with
  | .activateRequested => p.onActivateRequested clockUs ctx
  | .retryTimer => p.onRetryTimer clockUs ctx
  | .validationOk => p.onValidationOk clockUs ctx
  | .xquicRemoved => p.onXquicRemoved clockUs ctx
  | .manualReactivate => p.onManualReactivate clockUs ctx
  | .platformDrop => p.onPlatformDrop clockUs
  | .removeApi => p.onRemoveApi clockUs
  | .addFd => p.onAddFd clockUs
  | .connReset => p.onConnReset clockUs
  | .fdClosed => p.onFdClosed clockUs

/-- `path_on_event`; without a context it only logs. -/
def onEvent (p : Entry) (clockUs : Nat) (ev : Event) (ctx : Option Ctx) : Entry × List Notice :=
  match ctx with
  | none => (p, [])
  | some ctx =>
    let r := p.dispatch clockUs ev ctx
    if p.state ≠ r.1.state ∧ ev ≠ .addFd then (r.1, r.2 ++ [.pathEvent r.1.handle r.1.status])
    else r

/-- `path_fsm_tick_confirm_stable`; the difference of the clock readings wraps. -/
def tickConfirmStable (p : Entry) (nowUs : Nat) : Entry :=
  if p.state ≠ .active ∧ p.state ≠ .standby then p
  else if p.pathStableSinceUs = 0 ∨ p.xquicPathLive = false ∨
      (nowUs + 2 ^ 64 - p.pathStableSinceUs) % 2 ^ 64 < stableThresholdUs then p
  else { p with recreateRetries := 0, pathStableSinceUs := nowUs }

/-! ## What an event can do -/

/-- The slot that `setPathState` leaves. -/
def enter (p : Entry) (clockUs : Nat) (new : Lifecycle) : Entry := (p.setPathState clockUs new).1

variable (p : Entry) (clockUs : Nat) (new : Lifecycle)

@[simp]
theorem state_enter : (p.enter clockUs new).state = new := by
  rw [enter, setPathState]
  split_ifs with h
  exacts [h.1, rfl]

/-- A self-loop is skipped, so the public status follows only if it was right. -/
theorem status_enter {p : Entry} (h : p.status = p.state.publicStatus) :
    (p.enter clockUs new).status = new.publicStatus := by
  rw [enter, setPathState]
  split_ifs with hself
  · exact h.trans (congrArg _ hself.1)
  · rfl

@[simp]
theorem handle_enter : (p.enter clockUs new).handle = p.handle := by
  rw [enter, setPathState]
  split_ifs <;> rfl

@[simp]
theorem fd_enter : (p.enter clockUs new).fd = p.fd := by
  rw [enter, setPathState]
  split_ifs <;> rfl

@[simp]
theorem platformAttached_enter : (p.enter clockUs new).platformAttached = p.platformAttached := by
  rw [enter, setPathState]
  split_ifs <;> rfl

@[simp]
theorem weight_enter : (p.enter clockUs new).weight = p.weight := by
  rw [enter, setPathState]
  split_ifs <;> rfl

@[simp]
theorem xqcPathId_enter : (p.enter clockUs new).xqcPathId = p.xqcPathId := by
  rw [enter, setPathState]
  split_ifs <;> rfl

@[simp]
theorem xquicPathLive_enter : (p.enter clockUs new).xquicPathLive = p.xquicPathLive := by
  rw [enter, setPathState]
  split_ifs <;> rfl

@[simp]
theorem recreateAfterUs_enter : (p.enter clockUs new).recreateAfterUs = p.recreateAfterUs := by
  rw [enter, setPathState]
  split_ifs <;> rfl

@[simp]
theorem pathStableSinceUs_enter : (p.enter clockUs new).pathStableSinceUs = p.pathStableSinceUs := by
  rw [enter, setPathState]
  split_ifs <;> rfl

/-- Nothing is left for the slot to wait for. -/
def Released : Prop := p.fd < 0 ∧ p.xquicPathLive = false ∧ p.xqcPathId = 0

instance : Decidable p.Released := inferInstanceAs (Decidable (_ ∧ _))

/-- A dropped slot becomes free as soon as it is released. -/
theorem maybeTransitionDroppedToFree_eq :
    (p.maybeTransitionDroppedToFree clockUs).1 =
      if p.state = .closedDropped ∧ p.Released then p.enter clockUs .closedFree else p := by
  rw [maybeTransitionDroppedToFree]
  by_cases hs : p.state = .closedDropped
  · rw [if_neg (not_not.2 hs)]
    by_cases hr : p.Released
    · obtain ⟨hfd, hlive, hid⟩ := hr
      rw [if_neg (Int.not_le.2 hfd), if_neg (Bool.eq_false_iff.1 hlive), if_neg (not_not.2 hid),
        if_pos ⟨hs, hfd, hlive, hid⟩]
      rfl
    · have hneg : ¬(p.state = .closedDropped ∧ p.Released) := fun h => hr h.2
      rw [if_neg hneg]
      split_ifs with hfd hlive hid
      · rfl
      · rfl
      · rfl
      · exact absurd ⟨Int.not_le.1 hfd, Bool.eq_false_iff.2 hlive, not_not.1 hid⟩ hr
  · rw [if_pos hs, if_neg fun h => hs h.1]

/-- The slot without its xquic path. -/
def unbound : Entry := { p with xquicPathLive := false, xqcPathId := 0 }

/-- The slot after a failure, before it enters its next state. -/
def failed (recreateAfterUs : Nat) : Entry :=
  { p.unbound with
    pathStableSinceUs := 0
    recreateRetries := p.recreateRetries + 1
    recreateAfterUs }

/-- The slot after a connection was lost, before it enters its next state. -/
def renewed : Entry :=
  { p.unbound with recreateAfterUs := 0, recreateRetries := 0, pathStableSinceUs := 0 }

/-- An xquic path may be created for a slot in this state. -/
def Startable : Prop :=
  p.state = .pending ∨ p.state = .createWait ∨ p.state = .degraded ∨ p.state = .closedRecoverable

/-- The slot lost its path, or could not get one, and may try again in the state
    `target`. -/
inductive Retries : Event → Lifecycle → Prop
  | pending : p.state = .pending → Retries .activateRequested .createWait
  | createWait : p.state = .createWait → Retries .retryTimer .createWait
  | degraded : p.state = .degraded → Retries .retryTimer .degraded
  | validating : p.state = .validating → Retries .xquicRemoved .createWait
  | usable : p.state = .active ∨ p.state = .standby → Retries .xquicRemoved .degraded

end Entry

open Entry in
/-- What an event can do to a slot. -/
inductive Change (clockUs : Nat) (ctx : Ctx) : Event → Entry → Entry → Prop
  | ignored (ev : Event) (p : Entry) : Change clockUs ctx ev p p
  | activated {ev : Event} {p : Entry} : ctx.result = .ok → p.Startable →
      ev = .activateRequested ∨ ev = .retryTimer ∨ ev = .manualReactivate →
      Change clockUs ctx ev p ({ p with
        xqcPathId := ctx.newXqcPathId
        xquicPathLive := true
        recreateAfterUs := 0 }.enter clockUs .validating)
  | retry {ev : Event} {p : Entry} {target : Lifecycle} : p.Retries ev target →
      p.recreateRetries + 1 < recreateMaxRetries →
      Change clockUs ctx ev p
        ((p.failed ((ctx.nowUs + recreateBackoff (p.recreateRetries + 1)) % 2 ^ 64)).enter clockUs target)
  | exhausted {ev : Event} {p : Entry} {target : Lifecycle} : p.Retries ev target →
      recreateMaxRetries ≤ p.recreateRetries + 1 →
      Change clockUs ctx ev p ((p.failed 0).enter clockUs .closedRecoverable)
  | refused {ev : Event} {p : Entry} : ctx.result = .permanentFail → p.Startable →
      ev = .activateRequested ∨ ev = .retryTimer →
      Change clockUs ctx ev p ({ p.unbound with
        pathStableSinceUs := 0
        recreateAfterUs := 0 }.enter clockUs .closedRecoverable)
  | validated {p : Entry} : p.state = .validating →
      Change clockUs ctx .validationOk p
        ({ p with pathStableSinceUs := ctx.nowUs }.enter clockUs ctx.validatedTarget)
  | dropped {ev : Event} {p : Entry} : ev = .platformDrop ∨ ev = .removeApi →
      p.state ≠ .closedDropped → p.state ≠ .closedFree →
      Change clockUs ctx ev p ({ p with
        platformAttached := false
        recreateAfterUs := 0
        pathStableSinceUs := 0 }.enter clockUs .closedDropped)
  | attached {p : Entry} : p.state = .closedFree →
      Change clockUs ctx .addFd p ({ p with platformAttached := true }.enter clockUs .pending)
  | reset {p : Entry} : p.platformAttached = true →
      Change clockUs ctx .connReset p (p.renewed.enter clockUs .pending)
  | resetDetached {p : Entry} : p.platformAttached = false →
      Change clockUs ctx .connReset p (p.renewed.maybeTransitionDroppedToFree clockUs).1
  | removed {p : Entry} : p.state = .closedDropped →
      Change clockUs ctx .xquicRemoved p (p.unbound.maybeTransitionDroppedToFree clockUs).1
  | fdClosed {p : Entry} : p.state = .closedDropped →
      Change clockUs ctx .fdClosed p ({ p with fd := -1 }.maybeTransitionDroppedToFree clockUs).1

namespace Entry

variable {p : Entry} {clockUs : Nat} {ctx : Ctx} {ev : Event}

theorem change_failure {target : Lifecycle} (h : p.Retries ev target) :
    Change clockUs ctx ev p (p.applyFailureWithRetryCheck clockUs target ctx.nowUs).1 := by
  rw [applyFailureWithRetryCheck]
  dsimp only
  split_ifs with hmax
  · exact .exhausted h hmax
  · exact .retry h (by omega)

/-- Every event does one of the things that `Change` lists. -/
theorem change_dispatch (p : Entry) (clockUs : Nat) (ev : Event) (ctx : Ctx) :
    Change clockUs ctx ev p (p.dispatch clockUs ev ctx).1 := by
  cases ev with
  | activateRequested =>
    rw [dispatch, onActivateRequested]
    split_ifs with hs
    · exact .ignored ..
    · have hs : p.state = .pending := not_not.1 hs
      split
      · rename_i hr
        exact .activated hr (.inl hs) (.inl rfl)
      · exact change_failure (.pending hs)
      · rename_i hr
        exact .refused hr (.inl hs) (.inl rfl)
  | retryTimer =>
    rw [dispatch, onRetryTimer]
    split_ifs with hs
    · exact .ignored ..
    · have hs : p.state = .createWait ∨ p.state = .degraded := by
        by_contra h
        exact hs ⟨fun h' => h (.inl h'), fun h' => h (.inr h')⟩
      have hstart : p.Startable := .inr (hs.imp_right .inl)
      split
      · rename_i hr
        exact .activated hr hstart (.inr (.inl rfl))
      · rcases hs with hs | hs
        · rw [hs]
          exact change_failure (.createWait hs)
        · rw [hs]
          exact change_failure (.degraded hs)
      · rename_i hr
        exact .refused hr hstart (.inr rfl)
  | validationOk =>
    rw [dispatch, onValidationOk]
    split_ifs with hs
    · exact .ignored ..
    · exact .validated (not_not.1 hs)
  | xquicRemoved =>
    rw [dispatch, onXquicRemoved]
    split
    · rename_i hs
      exact change_failure (.validating hs)
    · rename_i hs
      exact change_failure (.usable (.inl hs))
    · rename_i hs
      exact change_failure (.usable (.inr hs))
    · rename_i hs
      exact .removed hs
    · exact .ignored ..
  | manualReactivate =>
    rw [dispatch, onManualReactivate]
    split_ifs with hs
    · exact .ignored ..
    · have hstart : p.Startable := by
        by_contra h
        exact hs ⟨fun h' => h (.inr (.inr (.inr h'))), fun h' => h (.inr (.inl h')),
          fun h' => h (.inr (.inr (.inl h')))⟩
      split
      · rename_i hr
        exact .activated hr hstart (.inr (.inr rfl))
      · exact .ignored ..
      · exact .ignored ..
  | platformDrop =>
    rw [dispatch, onPlatformDrop, drop]
    split_ifs with hd hf
    exacts [.ignored .., .ignored .., .dropped (.inl rfl) hd hf]
  | removeApi =>
    rw [dispatch, onRemoveApi, drop]
    split_ifs with hd hf
    exacts [.ignored .., .ignored .., .dropped (.inr rfl) hd hf]
  | addFd =>
    rw [dispatch, onAddFd]
    split_ifs with hs
    · exact .ignored ..
    · exact .attached (not_not.1 hs)
  | connReset =>
    rw [dispatch, onConnReset]
    dsimp only
    split_ifs with ha
    · exact .reset ha
    · exact .resetDetached (by simpa using ha)
  | fdClosed =>
    rw [dispatch, onFdClosed]
    split_ifs with hs
    · exact .ignored ..
    · exact .fdClosed (not_not.1 hs)

/-- Announcing the path event does not change the slot. -/
theorem onEvent_some (p : Entry) (clockUs : Nat) (ev : Event) (ctx : Ctx) :
    (p.onEvent clockUs ev (some ctx)).1 = (p.dispatch clockUs ev ctx).1 := by
  rw [onEvent]
  split_ifs <;> rfl

theorem change_onEvent (p : Entry) (clockUs : Nat) (ev : Event) (ctx : Ctx) :
    Change clockUs ctx ev p (p.onEvent clockUs ev (some ctx)).1 := by
  rw [onEvent_some]
  exact change_dispatch ..

end Entry

end Mqvpn.Path
