import Mathlib.Tactic.SplitIfs
import Mqvpn.Path.Lifecycle

/-!
# The retry budget

A failure that is counted costs a path one of its retries (`CountsFailure`), and
a path that waits for its next attempt waits for a time that doubles with each
failure, up to a minute. Two things give the retries back: a connection that is
reset, and a path that was usable for long enough (`Refills`).

The machine keeps the number of failures and the deadline in the slot. A `Ledger`
writes down what they are meant to be: the time of the latest failure that was
counted, and how many were counted since the retries were given back. The two
agree at every state of a run (`kept_of_run`).
-/

namespace Mqvpn.Path

/-! ## The backoff -/

theorem recreateBackoffLoop_eq (rounds delay : Nat) :
    min (recreateBackoffLoop rounds delay) recreateMaxDelayUs = min recreateMaxDelayUs (delay * 2 ^ rounds) := by
  induction rounds generalizing delay with
  | zero => rw [recreateBackoffLoop, Nat.pow_zero, Nat.mul_one, Nat.min_comm]
  | succ rounds ih =>
    rw [recreateBackoffLoop]
    split_ifs with h
    · rw [ih, Nat.mul_assoc, Nat.pow_succ']
    · -- The loop stops at the longest delay, which more rounds could only exceed.
      have hle : recreateMaxDelayUs ≤ delay := Nat.not_lt.1 h
      rw [Nat.min_eq_right hle, Nat.min_eq_left]
      exact Nat.le_trans hle (Nat.le_mul_of_pos_right _ (Nat.two_pow_pos _))

/-- The delay doubles with each failure, up to a minute. -/
theorem recreateBackoff_eq (retries : Nat) :
    recreateBackoff retries = min 60000000 (5000000 * 2 ^ (retries - 1)) :=
  recreateBackoffLoop_eq ..

/-! ## The ledger -/

/-- The time that the context of a call carries. -/
def Op.nowUs : Op → Nat
  | event _ _ (some ctx) | addFd _ _ ctx => ctx.nowUs
  | event _ _ none => 0
  | confirmStable nowUs => nowUs

/-- The target of a validation is a usable state, as `path_event_ctx_t` asks. -/
def Op.TargetsUsable : Op → Prop
  | event _ ev (some ctx) =>
    ev = .validationOk → ctx.validatedTarget = .active ∨ ctx.validatedTarget = .standby
  | _ => True

instance : ∀ op : Op, Decidable op.TargetsUsable
  | .event _ _ (some _) => inferInstanceAs (Decidable (_ → _))
  | .event _ _ none | .addFd .. | .confirmStable _ => .isTrue trivial

namespace Entry

/-- The call counts a failure. -/
def CountsFailure (p : Entry) (op : Op) : Prop := p.recreateRetries < (p.step op).recreateRetries

instance (p : Entry) (op : Op) : Decidable (p.CountsFailure op) := inferInstanceAs (Decidable (_ < _))

/-- The path was usable for the time after which its retries are given back. -/
def StableAt (p : Entry) (nowUs : Nat) : Prop :=
  (p.state = .active ∨ p.state = .standby) ∧ p.pathStableSinceUs ≠ 0 ∧ p.xquicPathLive = true ∧
    stableThresholdUs ≤ (nowUs + 2 ^ 64 - p.pathStableSinceUs) % 2 ^ 64

instance (p : Entry) (nowUs : Nat) : Decidable (p.StableAt nowUs) := inferInstanceAs (Decidable (_ ∧ _))

/-- The call gives the retries back. -/
def Refills (p : Entry) : Op → Prop
  | .event _ ev (some _) => ev = .connReset
  | .confirmStable nowUs => p.StableAt nowUs
  | _ => False

instance (p : Entry) : ∀ op : Op, Decidable (p.Refills op)
  | .event _ ev (some _) => inferInstanceAs (Decidable (ev = _))
  | .confirmStable nowUs => inferInstanceAs (Decidable (p.StableAt nowUs))
  | .event _ _ none | .addFd .. => .isFalse id

end Entry

/-- A slot, with what is known of its failures. -/
structure Ledger where
  slot : Entry := entryInit
  /-- The time of the latest failure that was counted. -/
  latest : Option Nat := none
  /-- The failures that were counted since the retries were given back. -/
  failures : Nat := 0

namespace Ledger

def step (l : Ledger) (op : Op) : Ledger where
  slot := l.slot.step op
  latest := if l.slot.CountsFailure op then some op.nowUs else l.latest
  failures :=
    if l.slot.Refills op then 0
    else if l.slot.CountsFailure op then l.failures + 1
    else l.failures

def run (l : Ledger) (ops : List Op) : Ledger := ops.foldl step l

/-- The ledger does not interfere with the slot. -/
theorem slot_run (l : Ledger) (ops : List Op) : (l.run ops).slot = l.slot.run ops := by
  induction ops generalizing l with
  | nil => rfl
  | cons op ops ih => exact ih (l.step op)

end Ledger

/-! ## What a call does to the budget -/

namespace Entry

/-- The path waits for its next attempt. -/
def Waits (p : Entry) : Prop := p.state = .createWait ∨ p.state = .degraded

instance (p : Entry) : Decidable p.Waits := inferInstanceAs (Decidable (_ ∨ _))

/-- The platform has the slot, unless it is dropped or free. -/
def Owned (p : Entry) : Prop :=
  p.platformAttached = true ∨ p.state = .closedDropped ∨ p.state = .closedFree

/-- What a call can do to the retries of a slot, and to the deadline of the next
    attempt. -/
inductive Budget (p : Entry) (op : Op) (q : Entry) : Prop
  | kept : ¬p.Refills op → q.recreateRetries = p.recreateRetries →
      (q.Waits → p.Waits ∧ q.recreateAfterUs = p.recreateAfterUs) → Budget p op q
  | refilled : p.Refills op → q.recreateRetries = 0 → ¬q.Waits → Budget p op q
  | scheduled : ¬p.Refills op → q.recreateRetries = p.recreateRetries + 1 →
      q.recreateRetries < recreateMaxRetries →
      q.recreateAfterUs = (op.nowUs + recreateBackoff q.recreateRetries) % 2 ^ 64 → Budget p op q
  | spent : ¬p.Refills op → q.recreateRetries = p.recreateRetries + 1 →
      recreateMaxRetries ≤ q.recreateRetries → q.state = .closedRecoverable → q.recreateAfterUs = 0 →
      Budget p op q

end Entry

variable {clockUs : Nat} {ctx : Ctx} {ev : Event} {p q : Entry}

namespace Entry

@[simp]
theorem recreateRetries_enter (p : Entry) (clockUs : Nat) (new : Lifecycle) :
    (p.enter clockUs new).recreateRetries = p.recreateRetries := by
  rw [enter, setPathState]
  split_ifs <;> rfl

theorem not_waits_enter {new : Lifecycle} (hc : new ≠ .createWait) (hd : new ≠ .degraded) :
    ¬(p.enter clockUs new).Waits := by
  rw [Waits, state_enter]
  exact not_or.2 ⟨hc, hd⟩

theorem owned_enter {new : Lifecycle} (ha : p.platformAttached = true) : (p.enter clockUs new).Owned :=
  .inl (by rw [platformAttached_enter, ha])

/-- A slot that is not dropped or free is one that the platform has. -/
theorem Owned.platformAttached (h : p.Owned) (hd : p.state ≠ .closedDropped) (hf : p.state ≠ .closedFree) :
    p.platformAttached = true := by
  rcases h with ha | hs | hs
  exacts [ha, absurd hs hd, absurd hs hf]

theorem Owned.of_startable (h : p.Owned) (hs : p.Startable) : p.platformAttached = true := by
  rcases hs with hs | hs | hs | hs <;> exact h.platformAttached (by simp [hs]) (by simp [hs])

theorem Owned.of_retries (h : p.Owned) {target : Lifecycle} (hr : p.Retries ev target) :
    p.platformAttached = true := by
  cases hr with
  | usable hs => rcases hs with hs | hs <;> exact h.platformAttached (by simp [hs]) (by simp [hs])
  | _ hs => exact h.platformAttached (by simp [hs]) (by simp [hs])

/-- A slot that is dropped or free remains so. -/
theorem state_maybeTransitionDroppedToFree (h : p.state = .closedDropped ∨ p.state = .closedFree)
    (clockUs : Nat) :
    (p.maybeTransitionDroppedToFree clockUs).1.state = .closedDropped ∨
      (p.maybeTransitionDroppedToFree clockUs).1.state = .closedFree := by
  rw [maybeTransitionDroppedToFree_eq]
  split_ifs
  · exact .inr (state_enter ..)
  · exact h

@[simp]
theorem recreateRetries_maybeTransitionDroppedToFree (p : Entry) (clockUs : Nat) :
    (p.maybeTransitionDroppedToFree clockUs).1.recreateRetries = p.recreateRetries := by
  rw [maybeTransitionDroppedToFree_eq]
  split_ifs
  · exact recreateRetries_enter ..
  · rfl

theorem not_waits_of_dropped (h : p.state = .closedDropped ∨ p.state = .closedFree) : ¬p.Waits := by
  rintro (hw | hw) <;> rcases h with h | h <;> exact absurd (hw.symm.trans h) (by decide)

end Entry

open Entry

theorem Change.owned (hc : Change clockUs ctx ev p q) (h : p.Owned) : q.Owned := by
  cases hc with
  | ignored => exact h
  | activated _ hs _ => exact owned_enter (h.of_startable hs)
  | retry hr _ => exact owned_enter (h.of_retries hr)
  | exhausted hr _ => exact owned_enter (h.of_retries hr)
  | refused _ hs _ => exact owned_enter (h.of_startable hs)
  | validated hs => exact owned_enter (h.platformAttached (by simp [hs]) (by simp [hs]))
  | dropped _ _ _ => exact .inr (.inl (state_enter ..))
  | attached _ => exact owned_enter rfl
  | reset ha => exact owned_enter ha
  | resetDetached ha =>
    have hs : p.state = .closedDropped ∨ p.state = .closedFree := h.resolve_left (Bool.eq_false_iff.1 ha)
    exact .inr (state_maybeTransitionDroppedToFree (p := p.renewed) hs clockUs)
  | removed hs => exact .inr (state_maybeTransitionDroppedToFree (p := p.unbound) (.inl hs) clockUs)
  | fdClosed hs => exact .inr (state_maybeTransitionDroppedToFree (p := { p with fd := -1 }) (.inl hs) clockUs)

/-- What an event other than the reset of the connection does to the budget. -/
theorem Change.budget (hc : Change clockUs ctx ev p q) (hev : ev ≠ .connReset)
    (hop : (Op.event clockUs ev (some ctx)).TargetsUsable) :
    p.Budget (.event clockUs ev (some ctx)) q := by
  have hrefills : ¬p.Refills (.event clockUs ev (some ctx)) := hev
  cases hc with
  | ignored => exact .kept hrefills rfl fun hw => ⟨hw, rfl⟩
  | activated _ _ _ =>
    exact .kept hrefills (recreateRetries_enter ..) fun hw => absurd hw (not_waits_enter (by decide) (by decide))
  | retry _ hlt =>
    exact .scheduled hrefills (recreateRetries_enter ..) (by rw [recreateRetries_enter]; exact hlt)
      (by rw [recreateRetries_enter, recreateAfterUs_enter]; rfl)
  | exhausted _ hle =>
    exact .spent hrefills (recreateRetries_enter ..) (by rw [recreateRetries_enter]; exact hle)
      (state_enter ..) (recreateAfterUs_enter ..)
  | refused _ _ _ =>
    exact .kept hrefills (recreateRetries_enter ..) fun hw => absurd hw (not_waits_enter (by decide) (by decide))
  | validated _ =>
    have hnew : ctx.validatedTarget ≠ .createWait ∧ ctx.validatedTarget ≠ .degraded := by
      rcases hop rfl with ht | ht <;> rw [ht] <;> decide
    exact .kept hrefills (recreateRetries_enter ..) fun hw => absurd hw (not_waits_enter hnew.1 hnew.2)
  | dropped _ _ _ =>
    exact .kept hrefills (recreateRetries_enter ..) fun hw => absurd hw (not_waits_enter (by decide) (by decide))
  | attached _ =>
    exact .kept hrefills (recreateRetries_enter ..) fun hw => absurd hw (not_waits_enter (by decide) (by decide))
  | reset _ => exact absurd rfl hev
  | resetDetached _ => exact absurd rfl hev
  | removed hs =>
    have hdropped := state_maybeTransitionDroppedToFree (p := p.unbound) (.inl hs) clockUs
    exact .kept hrefills (recreateRetries_maybeTransitionDroppedToFree ..) fun hw =>
      absurd hw (not_waits_of_dropped hdropped)
  | fdClosed hs =>
    have hdropped := state_maybeTransitionDroppedToFree (p := { p with fd := -1 }) (.inl hs) clockUs
    exact .kept hrefills (recreateRetries_maybeTransitionDroppedToFree ..) fun hw =>
      absurd hw (not_waits_of_dropped hdropped)

namespace Entry

/-- The reset of the connection gives the retries back, and leaves nothing to wait for. -/
theorem budget_connReset (h : p.Owned) (clockUs : Nat) (ctx : Ctx) :
    p.Budget (.event clockUs .connReset (some ctx)) (p.onEvent clockUs .connReset (some ctx)).1 := by
  rw [onEvent_some, dispatch, onConnReset]
  dsimp only
  split_ifs with ha
  · exact .refilled rfl (recreateRetries_enter ..) (not_waits_enter (by decide) (by decide))
  · have hs : p.state = .closedDropped ∨ p.state = .closedFree := h.resolve_left ha
    have hdropped := state_maybeTransitionDroppedToFree (p := p.renewed) hs clockUs
    exact .refilled rfl (recreateRetries_maybeTransitionDroppedToFree ..) (not_waits_of_dropped hdropped)

theorem tickConfirmStable_of_not_stableAt {nowUs : Nat} (h : ¬p.StableAt nowUs) :
    p.tickConfirmStable nowUs = p := by
  rw [tickConfirmStable]
  split_ifs with hs hdue
  · rfl
  · rfl
  · refine absurd ⟨?_, fun h0 => hdue (.inl h0), ?_, Nat.not_lt.1 fun hlt => hdue (.inr (.inr hlt))⟩ h
    · by_contra hn
      exact hs ⟨fun ha => hn (.inl ha), fun hb => hn (.inr hb)⟩
    · exact Bool.not_eq_false _ ▸ fun hl => hdue (.inr (.inl hl))

theorem tickConfirmStable_of_stableAt {nowUs : Nat} (h : p.StableAt nowUs) :
    p.tickConfirmStable nowUs = { p with recreateRetries := 0, pathStableSinceUs := nowUs } := by
  obtain ⟨hs, hsince, hlive, hdue⟩ := h
  rw [tickConfirmStable, if_neg fun hn => hs.elim hn.1 hn.2, if_neg]
  rintro (h0 | hl | hlt)
  · exact hsince h0
  · exact Bool.eq_false_iff.1 hl hlive
  · exact Nat.not_lt.2 hdue hlt

/-- A path that was usable for long enough has its retries back. -/
theorem budget_tickConfirmStable (p : Entry) (nowUs : Nat) :
    p.Budget (.confirmStable nowUs) (p.tickConfirmStable nowUs) := by
  by_cases h : p.StableAt nowUs
  · rw [tickConfirmStable_of_stableAt h]
    refine .refilled h rfl ?_
    rintro (hw | hw) <;> rcases h.1 with hs | hs <;> exact absurd (hs.symm.trans hw) (by decide)
  · rw [tickConfirmStable_of_not_stableAt h]
    exact .kept h rfl fun hw => ⟨hw, rfl⟩

/-- What a call does to the budget. -/
theorem budget_step (h : p.Owned) {op : Op} (hop : op.TargetsUsable) : p.Budget op (p.step op) := by
  cases op with
  | event clockUs ev ctx =>
    cases ctx with
    | none => exact .kept id rfl fun hw => ⟨hw, rfl⟩
    | some ctx =>
      by_cases hev : ev = .connReset
      · subst hev
        exact budget_connReset h clockUs ctx
      · exact (change_onEvent p clockUs ev ctx).budget hev hop
  | addFd clockUs fd ctx =>
    -- The socket is no part of the budget.
    have hb := (change_onEvent { p with fd } clockUs .addFd ctx).budget (by decide) (fun hev => by cases hev)
    cases hb with
    | kept _ hr hw => exact .kept id hr hw
    | refilled hr _ _ => cases hr
    | scheduled _ hr hlt ha => exact .scheduled id hr hlt ha
    | spent _ hr hle hs ha => exact .spent id hr hle hs ha
  | confirmStable nowUs => exact budget_tickConfirmStable p nowUs

theorem Owned.step (h : p.Owned) (op : Op) : (p.step op).Owned := by
  cases op with
  | event clockUs ev ctx =>
    cases ctx with
    | none => exact h
    | some ctx => exact (change_onEvent p clockUs ev ctx).owned h
  | addFd clockUs fd ctx => exact (change_onEvent { p with fd } clockUs .addFd ctx).owned h
  | confirmStable nowUs =>
    change (p.tickConfirmStable nowUs).Owned
    rw [tickConfirmStable]
    split_ifs <;> exact h

end Entry

namespace Entry

theorem recreateRetries_applyFailureWithRetryCheck (p : Entry) (clockUs : Nat) (target : Lifecycle)
    (nowUs : Nat) :
    (p.applyFailureWithRetryCheck clockUs target nowUs).1.recreateRetries = p.recreateRetries + 1 := by
  rw [applyFailureWithRetryCheck]
  dsimp only
  split_ifs <;> exact recreateRetries_enter ..

/-- A failure that may be repeated goes through `apply_failure_with_retry_check`. -/
theorem dispatch_of_retries {target : Lifecycle} (hr : p.Retries ev target)
    (hres : ev ≠ .xquicRemoved → ctx.result = .transientFail) (clockUs : Nat) :
    p.dispatch clockUs ev ctx = p.applyFailureWithRetryCheck clockUs target ctx.nowUs := by
  cases hr with
  | pending hs => simp [dispatch, onActivateRequested, hs, hres (by decide)]
  | createWait hs => simp [dispatch, onRetryTimer, hs, hres (by decide)]
  | degraded hs => simp [dispatch, onRetryTimer, hs, hres (by decide)]
  | validating hs => simp [dispatch, onXquicRemoved, hs]
  | usable hs => rcases hs with hs | hs <;> simp [dispatch, onXquicRemoved, hs]

/-- An attempt that succeeds, or that fails for good, costs no retry. -/
theorem recreateRetries_dispatch_of_result {target : Lifecycle} (hr : p.Retries ev target)
    (hev : ev ≠ .xquicRemoved) (hres : ctx.result ≠ .transientFail) (clockUs : Nat) :
    (p.dispatch clockUs ev ctx).1.recreateRetries = p.recreateRetries := by
  have hresult : ctx.result = .ok ∨ ctx.result = .permanentFail := by
    cases h : ctx.result
    exacts [.inl rfl, absurd h hres, .inr rfl]
  cases hr with
  | pending hs =>
    rw [dispatch, onActivateRequested, if_neg (not_not.2 hs)]
    rcases hresult with h | h <;> rw [h] <;> exact recreateRetries_enter ..
  | createWait hs =>
    rw [dispatch, onRetryTimer, if_neg fun h => h.1 hs]
    rcases hresult with h | h <;> rw [h] <;> exact recreateRetries_enter ..
  | degraded hs =>
    rw [dispatch, onRetryTimer, if_neg fun h => h.2 hs]
    rcases hresult with h | h <;> rw [h] <;> exact recreateRetries_enter ..
  | validating _ => exact absurd rfl hev
  | usable _ => exact absurd rfl hev

/-- The failures that are counted are those of an attempt that the machine makes by
    itself, if it may be repeated, and the loss of a path that was in use. -/
theorem countsFailure_event_iff (p : Entry) (clockUs : Nat) (ev : Event) (ctx : Ctx) :
    p.CountsFailure (.event clockUs ev (some ctx)) ↔
      (∃ target, p.Retries ev target) ∧ (ev ≠ .xquicRemoved → ctx.result = .transientFail) := by
  have hstep : p.step (.event clockUs ev (some ctx)) = (p.dispatch clockUs ev ctx).1 := onEvent_some ..
  rw [CountsFailure, hstep]
  constructor
  · intro hlt
    have hr : ∃ target, p.Retries ev target := by
      have hc := change_dispatch p clockUs ev ctx
      generalize (p.dispatch clockUs ev ctx).1 = q at hc hlt
      cases hc with
      | retry hr _ => exact ⟨_, hr⟩
      | exhausted hr _ => exact ⟨_, hr⟩
      | ignored => exact absurd hlt (Nat.lt_irrefl _)
      | resetDetached _ | removed _ | fdClosed _ =>
        rw [recreateRetries_maybeTransitionDroppedToFree] at hlt
        exact absurd hlt (by simp [renewed, unbound])
      | _ =>
        rw [recreateRetries_enter] at hlt
        exact absurd hlt (by simp [renewed, unbound])
    obtain ⟨target, hr⟩ := hr
    refine ⟨⟨target, hr⟩, fun hev => ?_⟩
    by_contra hres
    rw [recreateRetries_dispatch_of_result hr hev hres] at hlt
    exact absurd hlt (Nat.lt_irrefl _)
  · rintro ⟨⟨target, hr⟩, hres⟩
    rw [dispatch_of_retries hr hres, recreateRetries_applyFailureWithRetryCheck]
    exact Nat.lt_succ_self _

end Entry

/-! ## Runs -/

namespace Ledger

/-- The slot agrees with what is known of its failures. -/
structure Kept (l : Ledger) : Prop where
  owned : l.slot.Owned
  retries : l.slot.recreateRetries = l.failures
  armed : l.slot.Waits → 1 ≤ l.failures ∧ l.failures < recreateMaxRetries ∧
    ∃ t, l.latest = some t ∧ l.slot.recreateAfterUs = (t + recreateBackoff l.failures) % 2 ^ 64

theorem kept_init : ({} : Ledger).Kept := by
  refine ⟨.inr (.inr rfl), rfl, fun hw => absurd hw (by decide)⟩

theorem Kept.step {l : Ledger} (h : l.Kept) {op : Op} (hop : op.TargetsUsable) : (l.step op).Kept := by
  have hretries := h.retries
  have howned := h.owned.step op
  cases budget_step h.owned hop with
  | kept hrefills hr hw =>
    have hcounts : ¬l.slot.CountsFailure op := by
      rw [CountsFailure, hr]
      exact Nat.lt_irrefl _
    have hf : (l.step op).failures = l.failures := (if_neg hrefills).trans (if_neg hcounts)
    have hl : (l.step op).latest = l.latest := if_neg hcounts
    refine ⟨howned, by rw [hf, ← hretries]; exact hr, fun hwaits => ?_⟩
    -- It waited before, for the same attempt.
    obtain ⟨hbefore, hafter⟩ := hw hwaits
    obtain ⟨hpos, hlt, t, ht, hd⟩ := h.armed hbefore
    rw [hf, hl]
    exact ⟨hpos, hlt, t, ht, hafter.trans hd⟩
  | refilled hrefills hr hw =>
    have hf : (l.step op).failures = 0 := if_pos hrefills
    exact ⟨howned, hr.trans hf.symm, fun hwaits => absurd hwaits hw⟩
  | scheduled hrefills hr hlt hd =>
    have hcounts : l.slot.CountsFailure op := by
      rw [CountsFailure, hr]
      exact Nat.lt_succ_self _
    have hf : (l.step op).failures = l.failures + 1 := (if_neg hrefills).trans (if_pos hcounts)
    rw [hretries, ← hf] at hr
    refine ⟨howned, hr, fun _ => ⟨by omega, hr ▸ hlt, op.nowUs, if_pos hcounts, ?_⟩⟩
    rw [← hr]
    exact hd
  | spent hrefills hr _ hs _ =>
    have hcounts : l.slot.CountsFailure op := by
      rw [CountsFailure, hr]
      exact Nat.lt_succ_self _
    have hf : (l.step op).failures = l.failures + 1 := (if_neg hrefills).trans (if_pos hcounts)
    refine ⟨howned, by rw [hf, ← hretries]; exact hr, ?_⟩
    -- The retries are used up: there is nothing to wait for.
    rintro (hw | hw) <;> exact absurd (hs.symm.trans hw) (by decide)

theorem kept_of_run {ops : List Op} (h : ∀ op ∈ ops, op.TargetsUsable) : (Ledger.run {} ops).Kept :=
  List.foldlRecOn ops step kept_init fun _ hl op hop => hl.step (h op hop)

/-- The failure that uses the retries up leaves the slot closed, with no attempt
    scheduled. -/
theorem Kept.used_up {l : Ledger} (h : l.Kept) {op : Op} (hop : op.TargetsUsable)
    (hcounts : l.slot.CountsFailure op) (hmax : recreateMaxRetries ≤ (l.step op).failures) :
    (l.slot.step op).state = .closedRecoverable ∧ (l.slot.step op).recreateAfterUs = 0 := by
  have hretries : (l.slot.step op).recreateRetries = (l.step op).failures := (h.step hop).retries
  rw [CountsFailure] at hcounts
  cases budget_step h.owned hop with
  | kept _ hr _ => omega
  | refilled _ hr _ => omega
  | scheduled _ _ hlt _ => omega
  | spent _ _ _ hs hd => exact ⟨hs, hd⟩

end Ledger

/-- A manual reactivation that fails changes nothing. -/
theorem Entry.onManualReactivate_failed (p : Entry) (clockUs : Nat) {ctx : Ctx} (hfail : ctx.result ≠ .ok) :
    (p.onEvent clockUs .manualReactivate (some ctx)).1 = p := by
  rw [onEvent_some, dispatch, onManualReactivate]
  split_ifs
  · rfl
  · split
    · rename_i hok
      exact absurd hok hfail
    · rfl
    · rfl

/-- After every sequence of calls, a slot that waits for its next attempt has made
    some of its failures, but not all that it may, and waits from the latest one
    for the time that the number of failures asks for. A manual reactivation that
    fails changes nothing, and the failure that uses the retries up closes the slot
    for good, until someone reactivates it. -/
theorem Entry.retry_budget {ops : List Op} (h : ∀ op ∈ ops, op.TargetsUsable) :
    ((entryInit.run ops).state = .createWait ∨ (entryInit.run ops).state = .degraded →
      1 ≤ (entryInit.run ops).recreateRetries ∧
      (entryInit.run ops).recreateRetries < recreateMaxRetries ∧
      ∃ t, (Ledger.run {} ops).latest = some t ∧
        (entryInit.run ops).recreateAfterUs =
          (t + min 60000000 (5000000 * 2 ^ ((entryInit.run ops).recreateRetries - 1))) % 2 ^ 64) ∧
    (∀ clockUs ctx, ctx.result ≠ .ok →
      (entryInit.run ops).step (.event clockUs .manualReactivate (some ctx)) = entryInit.run ops) ∧
    ∀ op : Op, op.TargetsUsable → (entryInit.run ops).CountsFailure op →
      recreateMaxRetries ≤ (Ledger.run {} (ops ++ [op])).failures →
      (entryInit.run (ops ++ [op])).state = .closedRecoverable ∧
        (entryInit.run (ops ++ [op])).recreateAfterUs = 0 := by
  have hkept := Ledger.kept_of_run h
  have hslot : (Ledger.run {} ops).slot = entryInit.run ops := Ledger.slot_run {} ops
  have hretries := hkept.retries
  rw [hslot] at hretries
  refine ⟨fun hw => ?_, fun clockUs ctx hfail => onManualReactivate_failed _ clockUs hfail,
    fun op hop hcounts hmax => ?_⟩
  · have harmed := hkept.armed
    rw [hslot, ← hretries, recreateBackoff_eq] at harmed
    exact harmed hw
  · have hlast : Ledger.run {} (ops ++ [op]) = (Ledger.run {} ops).step op := List.foldl_concat ..
    have hrun : entryInit.run (ops ++ [op]) = (entryInit.run ops).step op := List.foldl_concat ..
    rw [hlast] at hmax
    rw [hrun, ← hslot]
    exact hkept.used_up hop (hslot.symm ▸ hcounts) hmax

/-- A path that could not be created at first, and then was lost before it was
    validated; a reactivation comes too early. -/
def retryOps : List Op :=
  [.addFd 1 7 { nowUs := 1 }, .event 2 .activateRequested (some { result := .transientFail, nowUs := 2 }),
    .event 3 .retryTimer (some { newXqcPathId := 3, nowUs := 6000000 }),
    .event 4 .xquicRemoved (some { nowUs := 7000000 }),
    .event 5 .manualReactivate (some { result := .transientFail, nowUs := 8000000 })]

theorem Entry.retry_budget_sample :
    (entryInit.run retryOps).state = .createWait ∧ (entryInit.run retryOps).recreateRetries = 2 ∧
      ∃ t, (Ledger.run {} retryOps).latest = some t ∧
        (entryInit.run retryOps).recreateAfterUs =
          (t + min 60000000 (5000000 * 2 ^ ((entryInit.run retryOps).recreateRetries - 1))) % 2 ^ 64 :=
  ⟨by decide, by decide, ((retry_budget (show ∀ op ∈ retryOps, op.TargetsUsable by decide)).1 (by decide)).2.2⟩

end Mqvpn.Path
