import Mqvpn.Path.Lifecycle

/-!
# Dropped slots

A slot that was dropped waits for its socket to be closed and for xquic to let go
of its path, and is then free. The signals come from the platform, from xquic and
from a reconnect, in any order and any number of times, with other events in
between; what is left of the slot depends only on which of them came
(`cleanup_confluent`). No event but an ADD_FD of a free slot brings it back.
-/

namespace Mqvpn.Path

namespace Entry

variable {p : Entry} {clockUs : Nat} {ctx : Ctx} {ev : Event}

/-! ## Events of a closed slot -/

/-- The slot is out of use: dropped, and waiting to be released, or free. -/
structure Idle (p : Entry) : Prop where
  check : p.Check
  detached : p.platformAttached = false
  socket : 0 ≤ p.fd ∨ p.fd = -1
  free : p.state = .closedFree ↔ p.Released

namespace Idle

theorem state (h : p.Idle) : p.state = .closedDropped ∨ p.state = .closedFree := by
  by_contra hn
  have ha := h.check.platformAttached_iff.2 ⟨fun hs => hn (.inl hs), fun hs => hn (.inr hs)⟩
  exact absurd ha (Bool.eq_false_iff.1 h.detached)

theorem fd_eq (h : p.Idle) (hs : p.state = .closedFree) : p.fd = -1 := by
  have hfd := (h.free.1 hs).1
  have := h.socket
  omega

theorem retry (h : p.Idle) : p.recreateAfterUs = 0 := by
  have hf := h.check.fields
  rcases h.state with hs | hs <;> rw [hs] at hf
  exacts [hf.2.1, hf.2.2.2.2.1]

end Idle

/-- What the three signals do to the socket and to the path of a slot. -/
def signalled (p : Entry) : Event → Int × Bool × Nat
  | .fdClosed => (-1, p.xquicPathLive, p.xqcPathId)
  | .xquicRemoved | .connReset => (p.fd, false, 0)
  | _ => (p.fd, p.xquicPathLive, p.xqcPathId)

/-- The socket and the path that the slot still has. -/
def holdings (p : Entry) : Int × Bool × Nat := (p.fd, p.xquicPathLive, p.xqcPathId)

theorem released_congr {q : Entry} (h : q.holdings = p.holdings) : q.Released ↔ p.Released := by
  simp only [holdings, Prod.mk.injEq] at h
  simp only [Released, h.1, h.2.1, h.2.2]

@[simp]
theorem holdings_enter (new : Lifecycle) : (p.enter clockUs new).holdings = p.holdings := by
  simp [holdings]

/-- The re-evaluation of a dropped slot leaves it idle, with what it had. -/
theorem idle_maybeTransitionDroppedToFree (h : p.Check) (hs : p.state = .closedDropped)
    (hfd : 0 ≤ p.fd ∨ p.fd = -1) :
    (p.maybeTransitionDroppedToFree clockUs).1.Idle ∧
      (p.maybeTransitionDroppedToFree clockUs).1.holdings = p.holdings := by
  have hcheck := h.maybeTransitionDroppedToFree hs clockUs
  have hf := h.fields
  rw [hs] at hf
  rw [maybeTransitionDroppedToFree_eq] at hcheck ⊢
  by_cases hr : p.Released
  · rw [if_pos ⟨hs, hr⟩] at hcheck ⊢
    refine ⟨⟨hcheck, ?_, ?_, ?_⟩, holdings_enter _⟩
    · rw [platformAttached_enter]
      exact hf.1
    · rw [fd_enter]
      exact hfd
    · rw [state_enter, released_congr (holdings_enter _)]
      exact iff_of_true rfl hr
  · have hneg : ¬(p.state = .closedDropped ∧ p.Released) := fun h => hr h.2
    rw [if_neg hneg]
    exact ⟨⟨h, hf.1, hfd, iff_of_false (by simp [hs]) hr⟩, rfl⟩

theorem onXquicRemoved_of_dropped (hs : p.state = .closedDropped) :
    p.onXquicRemoved clockUs ctx = p.unbound.maybeTransitionDroppedToFree clockUs := by
  cases p
  subst hs
  rfl

theorem onXquicRemoved_of_free (hs : p.state = .closedFree) : p.onXquicRemoved clockUs ctx = (p, []) := by
  cases p
  subst hs
  rfl

/-- An idle slot stays idle, unless it is free and ADD_FD comes, and each signal
    takes away what it is about. -/
theorem idle_dispatch (h : p.Idle) (hadd : ev = .addFd → p.state ≠ .closedFree) :
    (p.dispatch clockUs ev ctx).1.Idle ∧ (p.dispatch clockUs ev ctx).1.holdings = p.signalled ev := by
  have hf := h.check.fields
  rcases h.state with hs | hs
  · -- Dropped: the three signals re-evaluate the slot, everything else is ignored.
    rw [hs] at hf
    have hcheck : ∀ q : Entry, q.status = p.status → q.state = p.state →
        Lifecycle.closedDropped.Fields q → q.Check := by
      intro q hst hq hf
      refine ⟨by rw [hst, hq, h.check.status], ?_⟩
      rw [hq, hs]
      exact hf
    cases ev with
    | fdClosed =>
      rw [dispatch, onFdClosed, if_neg (not_not.2 hs)]
      exact idle_maybeTransitionDroppedToFree (hcheck _ rfl rfl hf) hs (.inr rfl)
    | xquicRemoved =>
      rw [dispatch, onXquicRemoved_of_dropped hs]
      exact idle_maybeTransitionDroppedToFree (hcheck _ rfl rfl hf) hs h.socket
    | connReset =>
      rw [dispatch, onConnReset]
      dsimp only
      rw [if_neg (Bool.eq_false_iff.1 h.detached)]
      exact idle_maybeTransitionDroppedToFree (hcheck _ rfl rfl ⟨hf.1, rfl, rfl⟩) hs h.socket
    | activateRequested | retryTimer | validationOk | manualReactivate | platformDrop | removeApi
    | addFd =>
      simp only [dispatch, onActivateRequested, onRetryTimer, onValidationOk, onManualReactivate,
        onPlatformDrop, onRemoveApi, drop, onAddFd, hs]
      exact ⟨h, rfl⟩
  · -- Free: there is nothing left to take away.
    obtain ⟨-, hlive, hid⟩ := h.free.1 hs
    have hfd := h.fd_eq hs
    rw [hs] at hf
    cases ev with
    | addFd => exact absurd hs (hadd rfl)
    | xquicRemoved =>
      rw [dispatch, onXquicRemoved_of_free hs]
      refine ⟨h, ?_⟩
      simp [holdings, signalled, hlive, hid]
    | connReset =>
      have hmaybe : (p.renewed.maybeTransitionDroppedToFree clockUs).1 = p.renewed := by
        rw [maybeTransitionDroppedToFree_eq]
        exact if_neg fun hd => absurd (hd.1.symm.trans hs) (by simp)
      rw [dispatch, onConnReset]
      dsimp only
      rw [if_neg (Bool.eq_false_iff.1 h.detached)]
      change (p.renewed.maybeTransitionDroppedToFree clockUs).1.Idle ∧
        (p.renewed.maybeTransitionDroppedToFree clockUs).1.holdings = _
      rw [hmaybe]
      refine ⟨⟨⟨h.check.status, ?_⟩, h.detached, h.socket, iff_of_true hs ⟨?_, rfl, rfl⟩⟩, rfl⟩
      · change p.state.Fields p.renewed
        rw [hs]
        exact ⟨hf.1, rfl, hf.2.2.1, rfl, rfl, rfl⟩
      · exact hf.2.2.1
    | fdClosed =>
      rw [dispatch, onFdClosed, if_pos (by simp [hs])]
      refine ⟨h, ?_⟩
      simp [holdings, signalled, hfd]
    | activateRequested | retryTimer | validationOk | manualReactivate | platformDrop | removeApi =>
      simp only [dispatch, onActivateRequested, onRetryTimer, onValidationOk, onManualReactivate,
        onPlatformDrop, onRemoveApi, drop, hs]
      exact ⟨h, rfl⟩

/-! ## How a slot gets there -/

/-- The socket of a slot that the platform has is not touched. -/
theorem fd_dispatch (h : p.Check) (ha : p.platformAttached = true) :
    (p.dispatch clockUs ev ctx).1.fd = p.fd := by
  have hs := h.platformAttached_iff.1 ha
  have hc := change_dispatch p clockUs ev ctx
  generalize (p.dispatch clockUs ev ctx).1 = q at hc
  cases hc with
  | ignored => rfl
  | activated | retry | exhausted | refused | validated | dropped | attached | reset =>
    exact fd_enter ..
  | resetDetached hd => exact absurd ha (Bool.eq_false_iff.1 hd)
  | removed hd => exact absurd hd hs.1
  | fdClosed hd => exact absurd hd hs.1

/-- What holds of every slot: once the platform has let go of it, it is idle. -/
structure Tracked (p : Entry) : Prop where
  check : p.Check
  idle : p.platformAttached = false → p.Idle

theorem tracked_entryInit : entryInit.Tracked :=
  ⟨check_entryInit, fun _ => ⟨check_entryInit, rfl, .inr rfl, by decide⟩⟩

theorem tracked_step (h : p.Tracked) {op : Op} (hop : op.Guaranteed) : (p.step op).Tracked := by
  have hcheck := check_step h.check hop
  refine ⟨hcheck, fun hd => ?_⟩
  cases op with
  | event clockUs ev ctx =>
    cases ctx with
    | none => exact h.idle hd
    | some ctx =>
      change (p.onEvent clockUs ev (some ctx)).1.Check at hcheck
      change (p.onEvent clockUs ev (some ctx)).1.platformAttached = false at hd
      change (p.onEvent clockUs ev (some ctx)).1.Idle
      rw [onEvent_some] at hcheck hd ⊢
      cases ha : p.platformAttached with
      | false => exact (idle_dispatch (h.idle ha) fun he => absurd he hop.1).1
      | true =>
        -- The slot was dropped just now, and has its socket.
        have hnonneg : 0 ≤ (p.dispatch clockUs ev ctx).1.fd := by
          rw [fd_dispatch h.check ha]
          exact h.check.fd_nonneg ha
        have hf := hcheck.fields
        refine ⟨hcheck, hd, .inl hnonneg, iff_of_false (fun hs => ?_) fun hr => ?_⟩
        · rw [hs] at hf
          exact absurd hf.2.2.1 (Int.not_lt.2 hnonneg)
        · exact absurd hr.1 (Int.not_lt.2 hnonneg)
  | addFd clockUs fd ctx =>
    have hstep : p.step (.addFd clockUs fd ctx) = ({ p with fd }.dispatch clockUs .addFd ctx).1 :=
      onEvent_some ..
    rw [hstep] at hcheck hd ⊢
    rw [dispatch, onAddFd] at hcheck hd ⊢
    by_cases hs : p.state = .closedFree
    · rw [if_neg (not_not.2 hs)] at hd
      exact absurd ((platformAttached_enter _ _ _).symm.trans hd) (by simp)
    · rw [if_pos hs] at hcheck ⊢
      have hnot : ¬{ p with fd }.Released := fun hr => absurd hr.1 (Int.not_lt.2 hop.1)
      rw [if_pos hs] at hd
      exact ⟨hcheck, hd, .inl hop.1, iff_of_false hs hnot⟩
  | confirmStable nowUs =>
    have hsame : p.step (.confirmStable nowUs) = p := by
      change p.tickConfirmStable nowUs = p
      change (p.tickConfirmStable nowUs).platformAttached = false at hd
      rw [tickConfirmStable] at hd ⊢
      split_ifs at hd ⊢ with hs
      · rfl
      · rfl
      · have hst := (h.idle hd).state
        exact absurd ⟨fun h' => by simp [h'] at hst, fun h' => by simp [h'] at hst⟩ hs
    rw [hsame] at hd ⊢
    exact h.idle hd

theorem tracked_run {ops : List Op} (h : ∀ op ∈ ops, op.Guaranteed) : (entryInit.run ops).Tracked :=
  List.foldlRecOn ops step tracked_entryInit fun _ hp op hop => tracked_step hp (h op hop)

/-! ## Confluence -/

/-- An event as it is delivered to a slot. -/
structure Delivery where
  clockUs : Nat
  ev : Event
  ctx : Ctx

def deliver (p : Entry) (d : Delivery) : Entry := (p.onEvent d.clockUs d.ev (some d.ctx)).1

/-- The event is among those delivered. -/
def occurred (ev : Event) (ds : List Delivery) : Bool := ds.any (·.ev = ev)

/-- The socket and the path that a slot still has when these signals have come. -/
def remaining (p : Entry) (ds : List Delivery) : Int × Bool × Nat :=
  let removed := occurred .xquicRemoved ds || occurred .connReset ds
  (if occurred .fdClosed ds then -1 else p.fd, p.xquicPathLive && !removed,
    if removed then 0 else p.xqcPathId)

/-- No ADD_FD reaches a free slot. -/
def Unclaimed (p : Entry) (d : Delivery) : Prop := d.ev = .addFd → p.state ≠ .closedFree

instance (p : Entry) (d : Delivery) : Decidable (p.Unclaimed d) :=
  inferInstanceAs (Decidable (_ → _))

theorem idle_deliver {d : Delivery} (h : p.Idle) (hd : p.Unclaimed d) :
    (p.deliver d).Idle ∧ (p.deliver d).holdings = p.signalled d.ev := by
  rw [deliver, onEvent_some]
  exact idle_dispatch h hd

theorem remaining_cons (p q : Entry) (d : Delivery) (ds : List Delivery)
    (hq : q.holdings = p.signalled d.ev) : q.remaining ds = p.remaining (d :: ds) := by
  obtain ⟨clockUs, ev, ctx⟩ := d
  simp only [holdings, signalled] at hq
  cases ev <;> simp only [Prod.mk.injEq] at hq <;> obtain ⟨hfd, hlive, hid⟩ := hq <;>
    simp [remaining, occurred, hfd, hlive, hid]

theorem idle_foldl {ds : List Delivery} (h : p.Idle) (hds : Runs.Along deliver Unclaimed p ds) :
    (ds.foldl deliver p).Idle ∧ (ds.foldl deliver p).holdings = p.remaining ds := by
  induction ds generalizing p with
  | nil => exact ⟨h, by simp [holdings, remaining, occurred]⟩
  | cons d ds ih =>
    obtain ⟨hd, hds⟩ := hds
    obtain ⟨hidle, hh⟩ := idle_deliver h hd
    obtain ⟨hend, hrem⟩ := ih hidle hds
    exact ⟨hend, hrem.trans (remaining_cons p _ d ds hh)⟩

/-- A dropped slot stays dropped until its socket and its path are gone, and is
    free then; what it has left depends only on which of the signals came; and
    nothing but an ADD_FD of a free slot brings it back. -/
theorem cleanup_confluent {ops : List Op} (hops : ∀ op ∈ ops, op.Guaranteed)
    (hs : (entryInit.run ops).state = .closedDropped ∨ (entryInit.run ops).state = .closedFree)
    {ds : List Delivery} (hds : Runs.Along deliver Unclaimed (entryInit.run ops) ds) :
    let p := entryInit.run ops
    let q := ds.foldl deliver p
    (q.state = .closedDropped ∨ q.state = .closedFree) ∧
      (q.state = .closedFree ↔ q.fd = -1 ∧ q.xquicPathLive = false ∧ q.xqcPathId = 0) ∧
      (q.fd, q.xquicPathLive, q.xqcPathId) = p.remaining ds ∧
      (∀ ds', Runs.Along deliver Unclaimed p ds' →
        (∀ ev ∈ [Event.fdClosed, .xquicRemoved, .connReset], occurred ev ds' = occurred ev ds) →
        (ds'.foldl deliver p).state = q.state ∧ (ds'.foldl deliver p).fd = q.fd ∧
          (ds'.foldl deliver p).xquicPathLive = q.xquicPathLive ∧
          (ds'.foldl deliver p).xqcPathId = q.xqcPathId) ∧
      q.platformAttached = false ∧ q.recreateAfterUs = 0 := by
  have ht := tracked_run hops
  generalize entryInit.run ops = p at ht hs hds
  have hidle : p.Idle := by
    refine ht.idle (Bool.eq_false_iff.2 fun ha => ?_)
    have hne := ht.check.platformAttached_iff.1 ha
    exact hs.elim hne.1 hne.2
  obtain ⟨hend, hrem⟩ := idle_foldl hidle hds
  dsimp only
  generalize ds.foldl deliver p = q at hend hrem
  refine ⟨hend.state, ?_, hrem, fun ds' hds' hsame => ?_, hend.detached, hend.retry⟩
  · rw [hend.free, Released]
    have := hend.socket
    refine and_congr_left fun _ => ?_
    omega
  · obtain ⟨hend', hrem'⟩ := idle_foldl hidle hds'
    have hholdings : (ds'.foldl deliver p).holdings = q.holdings := by
      rw [hrem', hrem, remaining, remaining, hsame _ (by simp), hsame _ (by simp), hsame _ (by simp)]
    generalize ds'.foldl deliver p = q' at hend' hholdings
    have hfree : q'.state = .closedFree ↔ q.state = .closedFree := by
      rw [hend'.free, hend.free, released_congr hholdings]
    refine ⟨?_, congrArg Prod.fst hholdings, congrArg (·.2.1) hholdings, congrArg (·.2.2) hholdings⟩
    rcases hend.state with hq | hq
    · rcases hend'.state with hq' | hq'
      · rw [hq, hq']
      · exact absurd (hq.symm.trans (hfree.1 hq')) nofun
    · rw [hq]
      exact hfree.2 hq

/-- The sample of the lifecycle, dropped: xquic lets go of its path twice before
    the socket is closed, and a retry timer comes in between. -/
theorem cleanup_confluent_sample :
    let ds : List Delivery := [⟨10, .xquicRemoved, { nowUs := 1 }⟩, ⟨10, .retryTimer, { nowUs := 2 }⟩,
      ⟨11, .xquicRemoved, { nowUs := 3 }⟩, ⟨12, .fdClosed, { nowUs := 4 }⟩]
    (entryInit.run sampleOps).state = .closedDropped ∧
      (ds.foldl deliver (entryInit.run sampleOps)).platformAttached = false ∧
      (ds.foldl deliver (entryInit.run sampleOps)).state = .closedFree := by
  intro ds
  have hs : (entryInit.run sampleOps).state = .closedDropped := by decide
  have hds : Runs.Along deliver Unclaimed (entryInit.run sampleOps) ds := by decide
  obtain ⟨-, -, -, -, hattached, -⟩ := cleanup_confluent (by decide) (.inl hs) hds
  exact ⟨hs, hattached, by decide⟩

end Entry

end Mqvpn.Path
