import Mqvpn.Lib.Runs
import Mqvpn.Path.Machine

/-!
# Path classes for the peer

When a path that was usable changes its class, the peer is to be told by a call to xquic, with the
path id that the slot had (`Mirrored`). The only event that does this to a slot is the removal of
its xquic path, and its handler clears the fields that the call is made with before it changes the
state. So no event ever makes such a call (`xqcCalls_onEvent`), and in a run all changes are
mirrored exactly if there are none (`along_mirrored_iff`).
-/

namespace Mqvpn.Path

/-- The calls of `client_notify_xqc_path_state`, with a connection: none for a slot without an
    xquic path. -/
def xqcCalls (notices : List Notice) : List (AppStatus × Nat) :=
  notices.filterMap fun
    | .pathEvent _ _ => none
    | .xqcPathState app live xqcPathId => if live then some (app, xqcPathId) else none

/-- An event of a slot: the clock, and what `path_on_event` is called with. -/
structure Arrival where
  clockUs : Nat
  ev : Event
  ctx : Ctx

namespace Entry

def arrive (p : Entry) (a : Arrival) : Entry := (p.onEvent a.clockUs a.ev (some a.ctx)).1

/-- The class of a path after the event is passed on in one call, if the event has changed it. -/
def Mirrored (p : Entry) (a : Arrival) : Prop :=
  ∀ app, appStatusFor p.state (p.arrive a).state = some app →
    xqcCalls (p.onEvent a.clockUs a.ev (some a.ctx)).2 = [(app, p.xqcPathId)]

/-- The slot loses a path that was usable, and may try again. -/
def Degrades (p : Entry) (a : Arrival) : Prop :=
  a.ev = .xquicRemoved ∧ (p.state = .active ∨ p.state = .standby) ∧ p.recreateRetries + 1 < recreateMaxRetries

instance (p : Entry) (a : Arrival) : Decidable (p.Degrades a) := inferInstanceAs (Decidable (_ ∧ _))

variable (p : Entry) (clockUs : Nat) (new : Lifecycle)

/-! ## No call is made -/

theorem xqcCalls_append (l l' : List Notice) : xqcCalls (l ++ l') = xqcCalls l ++ xqcCalls l' := List.filterMap_append

/-- Only a change of the class is passed on, and only for a slot with an xquic path. -/
theorem xqcCalls_setPathState (h : appStatusFor p.state new = none ∨ p.xquicPathLive = false) :
    xqcCalls (p.setPathState clockUs new).2 = [] := by
  rw [setPathState]
  split
  · rfl
  · rcases h with h | h
    · rw [h]
      rfl
    · cases happ : appStatusFor p.state new with
      | none => rfl
      | some app =>
        have hlive : ({ p with status := new.publicStatus, state := new }.markStateEntry clockUs).xquicPathLive = false := h
        dsimp only
        rw [hlive]
        rfl

theorem xqcCalls_applyFailure (target : Lifecycle) (nowUs : Nat) :
    xqcCalls (p.applyFailureWithRetryCheck clockUs target nowUs).2 = [] := by
  rw [applyFailureWithRetryCheck]
  dsimp only
  split
  · exact xqcCalls_setPathState _ _ _ (.inr rfl)
  · exact xqcCalls_setPathState _ _ _ (.inr rfl)

/-- The states that `appStatusFor` has nothing for. -/
theorem appStatusFor_eq_none (h : new ≠ .active ∧ new ≠ .standby ∧ new ≠ .degraded) (old : Lifecycle) :
    appStatusFor old new = none := by
  obtain ⟨hactive, hstandby, hdegraded⟩ := h
  cases new with
  | active => exact absurd rfl hactive
  | standby => exact absurd rfl hstandby
  | degraded => exact absurd rfl hdegraded
  | _ => cases old <;> rfl

theorem appStatusFor_validating (new : Lifecycle) : appStatusFor .validating new = none := by
  cases new <;> rfl

theorem xqcCalls_maybeTransition : xqcCalls (p.maybeTransitionDroppedToFree clockUs).2 = [] := by
  rw [maybeTransitionDroppedToFree]
  split_ifs
  · rfl
  · rfl
  · rfl
  · rfl
  · exact xqcCalls_setPathState _ _ _ (.inl (appStatusFor_eq_none _ (by decide) _))

theorem xqcCalls_drop : xqcCalls (p.drop clockUs).2 = [] := by
  rw [drop]
  split
  · rfl
  · split
    · rfl
    · exact xqcCalls_setPathState _ _ _ (.inl (appStatusFor_eq_none _ (by decide) _))

theorem xqcCalls_activated (id : Nat) : xqcCalls (p.activated clockUs id).2 = [] :=
  xqcCalls_setPathState _ _ _ (.inl (appStatusFor_eq_none _ (by decide) _))

theorem xqcCalls_refused : xqcCalls (p.refused clockUs).2 = [] := xqcCalls_setPathState _ _ _ (.inr rfl)

theorem xqcCalls_dispatch (ev : Event) (ctx : Ctx) : xqcCalls (p.dispatch clockUs ev ctx).2 = [] := by
  cases ev with
  | activateRequested =>
    rw [dispatch, onActivateRequested]
    split
    · rfl
    · split
      · exact xqcCalls_activated ..
      · exact xqcCalls_applyFailure ..
      · exact xqcCalls_refused ..
  | retryTimer =>
    rw [dispatch, onRetryTimer]
    split
    · rfl
    · split
      · exact xqcCalls_activated ..
      · exact xqcCalls_applyFailure ..
      · exact xqcCalls_refused ..
  | validationOk =>
    rw [dispatch, onValidationOk]
    split
    · rfl
    · rename_i hstate
      have hvalidating : ({ p with pathStableSinceUs := ctx.nowUs } : Entry).state = .validating := not_not.1 hstate
      refine xqcCalls_setPathState _ _ _ (.inl ?_)
      rw [hvalidating]
      exact appStatusFor_validating _
  | xquicRemoved =>
    rw [dispatch, onXquicRemoved]
    split
    · exact xqcCalls_applyFailure ..
    · exact xqcCalls_applyFailure ..
    · exact xqcCalls_applyFailure ..
    · exact xqcCalls_maybeTransition ..
    · rfl
  | manualReactivate =>
    rw [dispatch, onManualReactivate]
    split
    · rfl
    · split
      · exact xqcCalls_activated ..
      · rfl
      · rfl
  | platformDrop => exact xqcCalls_drop ..
  | removeApi => exact xqcCalls_drop ..
  | addFd =>
    rw [dispatch, onAddFd]
    split
    · rfl
    · exact xqcCalls_setPathState _ _ _ (.inl (appStatusFor_eq_none _ (by decide) _))
  | connReset =>
    rw [dispatch, onConnReset]
    dsimp only
    split
    · exact xqcCalls_setPathState _ _ _ (.inr rfl)
    · exact xqcCalls_maybeTransition ..
  | fdClosed =>
    rw [dispatch, onFdClosed]
    split
    · rfl
    · exact xqcCalls_maybeTransition ..

/-- Whatever the slot and the event: no call is made. -/
theorem xqcCalls_onEvent (a : Arrival) : xqcCalls (p.onEvent a.clockUs a.ev (some a.ctx)).2 = [] := by
  have hcalls := p.xqcCalls_dispatch a.clockUs a.ev a.ctx
  rw [onEvent]
  split
  · rw [xqcCalls_append, hcalls]
    rfl
  · exact hcalls

/-! ## The changes of the class -/

variable {p : Entry}

theorem state_maybeTransition (p : Entry) (clockUs : Nat) :
    (p.maybeTransitionDroppedToFree clockUs).1.state = p.state ∨
      (p.maybeTransitionDroppedToFree clockUs).1.state = .closedFree := by
  rw [maybeTransitionDroppedToFree_eq]
  split
  · exact .inr (state_enter ..)
  · exact .inl rfl

theorem appStatusFor_self (s : Lifecycle) : appStatusFor s s = none := by
  cases s <;> rfl

/-- Nothing but the removal of its xquic path changes the class of a path. -/
theorem degrades_of_appStatusFor {a : Arrival} {app : AppStatus} (h : appStatusFor p.state (p.arrive a).state = some app) :
    p.Degrades a := by
  have hnot {q : Entry} {new : Lifecycle} (hstate : q.state = new) (hnew : new ≠ .active ∧ new ≠ .standby ∧ new ≠ .degraded)
      (hq : appStatusFor p.state q.state = some app) : p.Degrades a := by
    rw [hstate, appStatusFor_eq_none new hnew] at hq
    cases hq
  have hself {q : Entry} (hstate : q.state = p.state) (hq : appStatusFor p.state q.state = some app) : p.Degrades a := by
    rw [hstate, appStatusFor_self] at hq
    cases hq
  obtain ⟨clockUs, ev, ctx⟩ := a
  rw [arrive] at h
  generalize hafter : (p.onEvent clockUs ev (some ctx)).1 = q at h
  have hchange := change_onEvent p clockUs ev ctx
  rw [hafter] at hchange
  clear hafter
  cases hchange with
  | ignored => exact hself rfl h
  | activated => exact hnot (state_enter ..) (by decide) h
  | exhausted => exact hnot (state_enter ..) (by decide) h
  | refused => exact hnot (state_enter ..) (by decide) h
  | dropped => exact hnot (state_enter ..) (by decide) h
  | attached => exact hnot (state_enter ..) (by decide) h
  | reset => exact hnot (state_enter ..) (by decide) h
  | retry hretries hless =>
    rw [state_enter] at h
    cases hretries with
    | usable hstate => exact ⟨rfl, hstate, hless⟩
    | pending hstate =>
      rw [hstate] at h
      cases h
    | createWait hstate =>
      rw [hstate] at h
      cases h
    | degraded hstate =>
      rw [hstate] at h
      cases h
    | validating hstate =>
      rw [hstate] at h
      cases h
  | validated hstate =>
    rw [hstate, appStatusFor_validating] at h
    cases h
  | resetDetached =>
    rcases state_maybeTransition p.renewed clockUs with hstate | hstate
    · exact hself hstate h
    · exact hnot hstate (by decide) h
  | removed =>
    rcases state_maybeTransition p.unbound clockUs with hstate | hstate
    · exact hself hstate h
    · exact hnot hstate (by decide) h
  | fdClosed =>
    rcases state_maybeTransition { p with fd := -1 } clockUs with hstate | hstate
    · exact hself hstate h
    · exact hnot hstate (by decide) h

theorem appStatusFor_of_degrades {a : Arrival} (h : p.Degrades a) :
    appStatusFor p.state (p.arrive a).state = some .frozen := by
  obtain ⟨hev, hstate, hless⟩ := h
  have hfew : ¬recreateMaxRetries ≤ p.recreateRetries + 1 := Nat.not_le_of_lt hless
  have hafter : (p.arrive a).state = .degraded := by
    rw [arrive, onEvent_some, hev, dispatch, onXquicRemoved]
    rcases hstate with hstate | hstate <;>
      · rw [hstate]
        dsimp only
        rw [applyFailureWithRetryCheck]
        dsimp only
        rw [if_neg hfew]
        exact state_enter ..
  rw [hafter]
  rcases hstate with hstate | hstate <;>
    · rw [hstate]
      rfl

/-- An event is mirrored exactly if it does not degrade the path. -/
theorem mirrored_iff (p : Entry) (a : Arrival) : p.Mirrored a ↔ ¬p.Degrades a := by
  constructor
  · intro h hdegrades
    have hcall := h _ (appStatusFor_of_degrades hdegrades)
    rw [xqcCalls_onEvent] at hcall
    cases hcall
  · intro h app happ
    exact absurd (degrades_of_appStatusFor happ) h

/-- In a run of events on a slot every change of the class is mirrored exactly if none of them
    degrades the path. -/
theorem along_mirrored_iff (p : Entry) (as : List Arrival) :
    Runs.Along arrive Mirrored p as ↔ Runs.Along arrive (fun p a => ¬p.Degrades a) p as :=
  Runs.along_congr (J := fun _ => True) (fun _ _ _ _ => trivial) (fun p a _ => mirrored_iff p a) trivial as

/-- A path is validated, and then its xquic path is removed. -/
def removedArrivals : List Arrival :=
  [⟨1, .addFd, { nowUs := 1 }⟩, ⟨2, .activateRequested, { newXqcPathId := 7, nowUs := 2 }⟩,
    ⟨3, .validationOk, { validatedTarget := .active, nowUs := 3 }⟩, ⟨4, .xquicRemoved, { nowUs := 4 }⟩]

theorem not_along_mirrored : ¬∀ as, Runs.Along arrive Mirrored entryInit as := by
  intro h
  have hdegrades := (h removedArrivals).2.2.2.1 .frozen (by decide +kernel)
  exact absurd hdegrades (by decide +kernel)

end Entry

end Mqvpn.Path
