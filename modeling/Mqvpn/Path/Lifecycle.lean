import Mqvpn.Lib.Runs
import Mqvpn.Path.Machine

/-!
# The lifecycle invariant

`path_invariant_check` asserts that the public status of a slot is the projection
of its state, and that the other fields are as the state has them (`Check`). It
holds after every event, whatever the order in which they come
(`check_run`): each thing that an event can do leaves the slot with the
fields of the state it enters (`Change.check`).

A caller owes the machine little (`Op.Guaranteed`): a socket before ADD_FD, a
usable state as the target of a validation, and a clock that is away from its
ends.
-/

namespace Mqvpn.Path

/-- The assertions of `path_invariant_check` on the fields that go with a state. -/
def Lifecycle.Fields : Lifecycle → Entry → Prop
  | pending, p | closedRecoverable, p =>
    p.platformAttached = true ∧ p.xquicPathLive = false ∧ 0 ≤ p.fd ∧ p.xqcPathId = 0 ∧
      p.recreateAfterUs = 0 ∧ p.pathStableSinceUs = 0
  | createWait, p =>
    p.platformAttached = true ∧ p.xquicPathLive = false ∧ 0 ≤ p.fd ∧ p.recreateAfterUs ≠ 0
  | validating, p | active, p | standby, p =>
    p.platformAttached = true ∧ p.xquicPathLive = true ∧ 0 ≤ p.fd ∧ p.recreateAfterUs = 0
  | degraded, p =>
    p.platformAttached = true ∧ p.xquicPathLive = false ∧ 0 ≤ p.fd ∧ p.xqcPathId = 0 ∧
      p.recreateAfterUs ≠ 0 ∧ p.pathStableSinceUs = 0
  | closedDropped, p =>
    p.platformAttached = false ∧ p.recreateAfterUs = 0 ∧ p.pathStableSinceUs = 0
  | closedFree, p =>
    p.platformAttached = false ∧ p.xquicPathLive = false ∧ p.fd < 0 ∧ p.xqcPathId = 0 ∧
      p.recreateAfterUs = 0 ∧ p.pathStableSinceUs = 0

instance : ∀ (s : Lifecycle) (p : Entry), Decidable (s.Fields p)
  | .pending, _ | .createWait, _ | .validating, _ | .active, _ | .standby, _ | .degraded, _
  | .closedRecoverable, _ | .closedDropped, _ | .closedFree, _ => inferInstanceAs (Decidable (_ ∧ _))

namespace Entry

/-- `path_invariant_check` -/
structure Check (p : Entry) : Prop where
  status : p.status = p.state.publicStatus
  fields : p.state.Fields p

instance (p : Entry) : Decidable p.Check :=
  decidable_of_iff (p.status = p.state.publicStatus ∧ p.state.Fields p)
    ⟨fun h => ⟨h.1, h.2⟩, fun h => ⟨h.status, h.fields⟩⟩

variable {p : Entry} {clockUs : Nat}

/-- The assertions are about fields that entering a state leaves alone. -/
theorem fields_enter (s new : Lifecycle) : s.Fields (p.enter clockUs new) ↔ s.Fields p := by
  cases s <;> simp [Lifecycle.Fields]

theorem check_enter {new : Lifecycle} (h : p.status = p.state.publicStatus) (hf : new.Fields p) :
    (p.enter clockUs new).Check := by
  refine ⟨?_, ?_⟩
  · rw [state_enter]
    exact status_enter _ _ h
  · rw [state_enter, fields_enter]
    exact hf

namespace Check

/-- The platform has a slot exactly in the states before it is dropped. -/
theorem platformAttached_iff (h : p.Check) :
    p.platformAttached = true ↔ p.state ≠ .closedDropped ∧ p.state ≠ .closedFree := by
  have hf := h.fields
  cases hs : p.state <;> rw [hs] at hf <;> simp [hf.1]

/-- A slot that the platform has, has its socket. -/
theorem fd_nonneg (h : p.Check) (ha : p.platformAttached = true) : 0 ≤ p.fd := by
  have hs := h.platformAttached_iff.1 ha
  have hf := h.fields
  cases hst : p.state <;> rw [hst] at hf hs <;> first | exact hf.2.2.1 | exact absurd rfl hs.1 |
    exact absurd rfl hs.2

theorem platformAttached_of_startable (h : p.Check) (hs : p.Startable) : p.platformAttached = true := by
  rw [h.platformAttached_iff]
  rcases hs with hs | hs | hs | hs <;> simp [hs]

theorem platformAttached_of_retries (h : p.Check) {ev : Event} {target : Lifecycle}
    (hr : p.Retries ev target) : p.platformAttached = true := by
  rw [h.platformAttached_iff]
  cases hr with
  | usable hs => rcases hs with hs | hs <;> simp [hs]
  | _ hs => simp [hs]

/-- The fields of a dropped slot that is released are those of a free one. -/
theorem maybeTransitionDroppedToFree (h : p.Check) (hs : p.state = .closedDropped) (clockUs : Nat) :
    (p.maybeTransitionDroppedToFree clockUs).1.Check := by
  rw [maybeTransitionDroppedToFree_eq]
  split_ifs with hr
  · obtain ⟨-, hfd, hlive, hid⟩ := hr
    have hf := h.fields
    rw [hs] at hf
    exact check_enter h.status ⟨hf.1, hlive, hfd, hid, hf.2⟩
  · exact h

end Check

end Entry

/-! ## Events -/

/-- What the callers of `path_on_event` guarantee of the context. -/
structure Ctx.Guaranteed (ctx : Ctx) (ev : Event) : Prop where
  target : ev = .validationOk → ctx.validatedTarget = .active ∨ ctx.validatedTarget = .standby
  clock : 0 < ctx.nowUs
  fits : ctx.nowUs + recreateMaxDelayUs < 2 ^ 64

instance (ctx : Ctx) (ev : Event) : Decidable (ctx.Guaranteed ev) :=
  decidable_of_iff ((ev = .validationOk → ctx.validatedTarget = .active ∨
      ctx.validatedTarget = .standby) ∧ 0 < ctx.nowUs ∧ ctx.nowUs + recreateMaxDelayUs < 2 ^ 64)
    ⟨fun h => ⟨h.1, h.2.1, h.2.2⟩, fun h => ⟨h.target, h.clock, h.fits⟩⟩

/-- The deadline of a retry is armed: it does not wrap to zero. -/
theorem Ctx.Guaranteed.deadline_ne_zero {ctx : Ctx} {ev : Event} (h : ctx.Guaranteed ev) (retries : Nat) :
    (ctx.nowUs + recreateBackoff retries) % 2 ^ 64 ≠ 0 := by
  have hmax : recreateBackoff retries ≤ recreateMaxDelayUs := Nat.min_le_right _ _
  have := h.clock
  have := h.fits
  rw [Nat.mod_eq_of_lt (by omega)]
  omega

variable {clockUs : Nat} {ctx : Ctx} {ev : Event} {p q : Entry}

/-- Each thing that an event does leaves a slot with the fields of its state. -/
theorem Change.check (hc : Change clockUs ctx ev p q) (hctx : ctx.Guaranteed ev) (hadd : ev ≠ .addFd)
    (h : p.Check) : q.Check := by
  cases hc with
  | ignored => exact h
  | activated _ hs _ =>
    have ha := h.platformAttached_of_startable hs
    exact Entry.check_enter h.status ⟨ha, rfl, h.fd_nonneg ha, rfl⟩
  | retry hr _ =>
    have ha := h.platformAttached_of_retries hr
    have hfd := h.fd_nonneg ha
    have hd := hctx.deadline_ne_zero (p.recreateRetries + 1)
    refine Entry.check_enter h.status ?_
    cases hr with
    | pending _ | createWait _ | validating _ => exact ⟨ha, rfl, hfd, hd⟩
    | degraded _ | usable _ => exact ⟨ha, rfl, hfd, rfl, hd, rfl⟩
  | exhausted hr _ =>
    have ha := h.platformAttached_of_retries hr
    exact Entry.check_enter h.status ⟨ha, rfl, h.fd_nonneg ha, rfl, rfl, rfl⟩
  | refused _ hs _ =>
    have ha := h.platformAttached_of_startable hs
    exact Entry.check_enter h.status ⟨ha, rfl, h.fd_nonneg ha, rfl, rfl, rfl⟩
  | validated hs =>
    have hf := h.fields
    rw [hs] at hf
    refine Entry.check_enter h.status ?_
    rcases hctx.target rfl with ht | ht <;> rw [ht] <;> exact hf
  | dropped _ _ _ => exact Entry.check_enter h.status ⟨rfl, rfl, rfl⟩
  | attached _ => exact absurd rfl hadd
  | reset ha => exact Entry.check_enter h.status ⟨ha, rfl, h.fd_nonneg ha, rfl, rfl, rfl⟩
  | resetDetached ha =>
    by_cases hs : p.state = .closedDropped
    · have hr : p.renewed.Check := by
        refine ⟨h.status, ?_⟩
        change p.state.Fields p.renewed
        rw [hs]
        exact ⟨ha, rfl, rfl⟩
      exact hr.maybeTransitionDroppedToFree hs clockUs
    · -- A free slot has nothing left to clear.
      rw [Entry.maybeTransitionDroppedToFree_eq, if_neg fun hd => hs hd.1]
      have hfree : p.state = .closedFree := by
        by_contra hf
        exact absurd (h.platformAttached_iff.2 ⟨hs, hf⟩) (Bool.eq_false_iff.1 ha)
      have hf := h.fields
      refine ⟨h.status, ?_⟩
      change p.state.Fields p.renewed
      rw [hfree] at hf ⊢
      exact ⟨hf.1, rfl, hf.2.2.1, rfl, rfl, rfl⟩
  | removed hs =>
    have hf := h.fields
    have hr : p.unbound.Check := by
      refine ⟨h.status, ?_⟩
      change p.state.Fields p.unbound
      rw [hs] at hf ⊢
      exact hf
    exact hr.maybeTransitionDroppedToFree hs clockUs
  | fdClosed hs =>
    have hf := h.fields
    have hr : { p with fd := -1 }.Check := by
      refine ⟨h.status, ?_⟩
      change p.state.Fields { p with fd := -1 }
      rw [hs] at hf ⊢
      exact hf
    exact hr.maybeTransitionDroppedToFree hs clockUs

/-- ADD_FD, with the socket stored first. -/
theorem Entry.Check.addFd {fd : Int} (h : p.Check) (hfd : 0 ≤ fd) (clockUs : Nat) (ctx : Ctx) :
    ({ p with fd }.onEvent clockUs .addFd (some ctx)).1.Check := by
  have hf := h.fields
  rw [onEvent_some, dispatch, onAddFd]
  split_ifs with hs
  · refine ⟨h.status, ?_⟩
    change p.state ≠ .closedFree at hs
    change p.state.Fields { p with fd }
    cases hst : p.state <;> rw [hst] at hf hs <;> simp_all [Lifecycle.Fields]
  · have hs : p.state = .closedFree := not_not.1 hs
    rw [hs] at hf
    obtain ⟨-, hlive, -, hid, hafter, hstable⟩ := hf
    exact check_enter h.status ⟨rfl, hlive, hfd, hid, hafter, hstable⟩

theorem Entry.Check.tickConfirmStable (h : p.Check) (nowUs : Nat) : (p.tickConfirmStable nowUs).Check := by
  rw [Entry.tickConfirmStable]
  split_ifs with hs hdue
  · exact h
  · exact h
  · refine ⟨h.status, ?_⟩
    have hf := h.fields
    have hs : p.state = .active ∨ p.state = .standby := by
      by_contra hn
      exact hs ⟨fun h' => hn (.inl h'), fun h' => hn (.inr h')⟩
    change p.state.Fields { p with recreateRetries := 0, pathStableSinceUs := nowUs }
    rcases hs with hs | hs <;> rw [hs] at hf ⊢ <;> exact hf

/-! ## Runs -/

/-- A call into the machine. -/
inductive Op
  /-- A dispatch of `path_on_event`. -/
  | event (clockUs : Nat) (ev : Event) (ctx : Option Ctx)
  /-- ADD_FD, for which the caller stores the socket first. -/
  | addFd (clockUs : Nat) (fd : Int) (ctx : Ctx)
  /-- `path_fsm_tick_confirm_stable` -/
  | confirmStable (nowUs : Nat)

/-- What the callers guarantee of a call. -/
def Op.Guaranteed : Op → Prop
  | event _ ev ctx => ev ≠ .addFd ∧ ∀ c ∈ ctx, c.Guaranteed ev
  | addFd _ fd ctx => 0 ≤ fd ∧ ctx.Guaranteed .addFd
  | confirmStable _ => True

instance : ∀ op : Op, Decidable op.Guaranteed
  | .event .. | .addFd .. => inferInstanceAs (Decidable (_ ∧ _))
  | .confirmStable _ => .isTrue trivial

namespace Entry

def step (p : Entry) : Op → Entry
  | .event clockUs ev ctx => (p.onEvent clockUs ev ctx).1
  | .addFd clockUs fd ctx => ({ p with fd }.onEvent clockUs .addFd (some ctx)).1
  | .confirmStable nowUs => p.tickConfirmStable nowUs

def run (p : Entry) (ops : List Op) : Entry := ops.foldl step p

theorem check_entryInit : entryInit.Check := by decide

theorem check_step (h : p.Check) {op : Op} (hop : op.Guaranteed) : (p.step op).Check := by
  cases op with
  | event clockUs ev ctx =>
    cases ctx with
    | none => exact h
    | some ctx => exact (change_onEvent p clockUs ev ctx).check (hop.2 ctx rfl) hop.1 h
  | addFd clockUs fd ctx => exact h.addFd hop.1 clockUs ctx
  | confirmStable nowUs => exact h.tickConfirmStable nowUs

/-- The assertions of `path_invariant_check` hold after every sequence of events. -/
theorem check_run {ops : List Op} (h : ∀ op ∈ ops, op.Guaranteed) : (entryInit.run ops).Check :=
  List.foldlRecOn ops step check_entryInit fun _ hp op hop => check_step hp (h op hop)

/-- A path that fails, is retried, validated, lost, and dropped while its retry
    is pending; a late validation comes at the end. -/
def sampleOps : List Op :=
  [.addFd 1 7 { nowUs := 1 }, .event 2 .activateRequested (some { result := .transientFail, nowUs := 2 }),
    .event 6 .retryTimer (some { newXqcPathId := 3, nowUs := 6000000 }),
    .event 7 .validationOk (some { validatedTarget := .active, nowUs := 7000000 }),
    .confirmStable 40000000, .event 8 .xquicRemoved (some { nowUs := 50000000 }),
    .event 9 .platformDrop (some { nowUs := 50000001 }),
    .event 9 .validationOk (some { validatedTarget := .standby, nowUs := 50000002 })]

theorem check_run_sample :
    (entryInit.run sampleOps).state = .closedDropped ∧ (entryInit.run sampleOps).Check :=
  ⟨by decide, check_run (by decide)⟩

end Entry

end Mqvpn.Path
