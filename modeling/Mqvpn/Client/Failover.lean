import Mqvpn.Client.Paths
import Mqvpn.Client.Tags
import Mqvpn.Client.Weights
import Mqvpn.Lib.Runs

/-!
# Backup paths

A slot with the BACKUP flag is to stand by as long as another one is live, and to
take over when none is (`FailoverOnly`). `client_check_failover` would see to it, but
nothing calls it, nor `client_create_standby_path`: a backup slot gets its path like
any other slot, and xquic has the path in standby only where `backup_fec` creates all
secondary paths so (`Standby`), and then for good (`not_marks`).

The rule is kept in the runs in which it does not come to that (`Guarded`): no step
binds a backup slot beside a live one that is none, or the other way round, unless the
former stands by, and a path that stands by is not left alone
(`failoverOnly_run`).
-/

namespace Mqvpn.Client

open Mqvpn.Path Runs

/-! ## Schedulers -/

/-- `mqvpn_scheduler_t` -/
inductive Scheduler
  | minrtt
  | wlb
  | backup
  | backupFec
  | rap
  | wlbUdpPin
  | wrtt
  deriving DecidableEq

/-- `client_scheduler_supports_standby` -/
def Scheduler.supportsStandby : Scheduler → Bool
  | .backup | .backupFec => true
  | .minrtt | .wlb | .rap | .wlbUdpPin | .wrtt => false

/-- The `path_status` with which `activate_via_xquic_classify` creates a path. -/
def Scheduler.pathStatus : Scheduler → AppStatus
  | .backupFec => .standby
  | .minrtt | .wlb | .backup | .rap | .wlbUdpPin | .wrtt => .available

def Config.withScheduler (cfg : Client.Config) (scheduler : Scheduler) : Client.Config :=
  { cfg with backupFec := scheduler = .backupFec }

/-- The slot is a backup. -/
def Backup (p : Entry) : Prop := p.flags &&& flagBackup ≠ 0

instance (p : Entry) : Decidable (Backup p) := inferInstanceAs (Decidable (¬_))

/-- xquic has the path of a live slot in standby: it was created so. The path of the
    handshake, whose id is 0, was not. -/
def Standby (scheduler : Scheduler) (p : Entry) : Prop :=
  scheduler.pathStatus = .standby ∧ p.xqcPathId ≠ 0

instance (scheduler : Scheduler) (p : Entry) : Decidable (Standby scheduler p) :=
  inferInstanceAs (Decidable (_ ∧ _))

/-- A live slot is not a backup. -/
def PrimaryLive (paths : List Entry) : Prop := ∃ p ∈ paths, p.xquicPathLive = true ∧ ¬Backup p

instance (paths : List Entry) : Decidable (PrimaryLive paths) :=
  inferInstanceAs (Decidable (∃ p ∈ paths, _))

/-- While a slot that is no backup is live, the backups stand by, or are not live if
    the scheduler does not look at the standby status; otherwise those that the platform
    has are available. -/
structure FailoverOnly (scheduler : Scheduler) (paths : List Entry) : Prop where
  standby : PrimaryLive paths → ∀ q ∈ paths, Backup q →
    if scheduler.supportsStandby then q.xquicPathLive = true → Standby scheduler q else q.xquicPathLive = false
  available : ¬PrimaryLive paths → ∀ q ∈ paths, Backup q → q.platformAttached = true →
    q.xquicPathLive = true → ¬Standby scheduler q

variable {scheduler : Scheduler} {p q : Entry} {nowUs : Nat}

/-- In both cases, a backup that is live stands by. -/
theorem standby_iff :
    (if scheduler.supportsStandby then q.xquicPathLive = true → Standby scheduler q
      else q.xquicPathLive = false) ↔ (q.xquicPathLive = true → Standby scheduler q) := by
  cases scheduler <;> simp [Scheduler.supportsStandby, Standby, Scheduler.pathStatus]

/-! ## Marks -/

/-- No live path is marked in xquic. -/
def Unmarked (l : List Notice) : Prop := ∀ app id, Notice.xqcPathState app true id ∉ l

theorem unmarked_nil : Unmarked [] := fun _ _ => List.not_mem_nil

theorem unmarked_setPathState {clockUs : Nat} {new : Lifecycle}
    (h : p.xquicPathLive = false ∨ appStatusFor p.state new = none) : Unmarked (p.setPathState clockUs new).2 := by
  intro app id hmem
  rw [Entry.setPathState] at hmem
  split_ifs at hmem
  · exact List.not_mem_nil hmem
  · obtain ⟨app', happ, he⟩ := List.mem_map.1 hmem
    rw [Option.mem_toList] at happ
    rcases h with hl | hn
    · have hlive : p.xquicPathLive = true := (Notice.xqcPathState.injEq .. ▸ he).2.1
      rw [hl] at hlive
      exact absurd hlive Bool.false_ne_true
    · rw [hn] at happ
      exact absurd happ (by simp)

/-- These states are not those of a path in use, so that xquic does not hear of them. -/
theorem appStatusFor_eq_none (old : Lifecycle) {new : Lifecycle}
    (h : new ≠ .active ∧ new ≠ .standby ∧ new ≠ .degraded) : appStatusFor old new = none := by
  cases old <;> cases new <;> simp_all [appStatusFor]

theorem unmarked_applyFailureWithRetryCheck (p : Entry) (clockUs : Nat) (target : Lifecycle) (nowUs : Nat) :
    Unmarked (p.applyFailureWithRetryCheck clockUs target nowUs).2 := by
  rw [Entry.applyFailureWithRetryCheck]
  dsimp only
  split_ifs
  · exact unmarked_setPathState (.inl rfl)
  · exact unmarked_setPathState (.inl rfl)

theorem unmarked_maybeTransitionDroppedToFree (p : Entry) (clockUs : Nat) :
    Unmarked (p.maybeTransitionDroppedToFree clockUs).2 := by
  rw [Entry.maybeTransitionDroppedToFree]
  split_ifs
  · exact unmarked_nil
  · exact unmarked_nil
  · exact unmarked_nil
  · exact unmarked_nil
  · exact unmarked_setPathState (.inr (appStatusFor_eq_none _ (by simp)))

theorem unmarked_drop (p : Entry) (clockUs : Nat) : Unmarked (p.drop clockUs).2 := by
  rw [Entry.drop]
  split_ifs
  · exact unmarked_nil
  · exact unmarked_nil
  · exact unmarked_setPathState (.inr (appStatusFor_eq_none _ (by simp)))

theorem unmarked_dispatch (p : Entry) (clockUs : Nat) (ev : Event) (ctx : Ctx) :
    Unmarked (p.dispatch clockUs ev ctx).2 := by
  have hvalidating : ∀ q : Entry, Unmarked (q.setPathState clockUs .validating).2 := fun q =>
    unmarked_setPathState (.inr (appStatusFor_eq_none _ (by simp)))
  have hclosed : ∀ q : Entry, Unmarked (q.setPathState clockUs .closedRecoverable).2 := fun q =>
    unmarked_setPathState (.inr (appStatusFor_eq_none _ (by simp)))
  have hpending : ∀ q : Entry, Unmarked (q.setPathState clockUs .pending).2 := fun q =>
    unmarked_setPathState (.inr (appStatusFor_eq_none _ (by simp)))
  cases ev with
  | activateRequested =>
    rw [Entry.dispatch, Entry.onActivateRequested]
    split_ifs
    · exact unmarked_nil
    · split
      · exact hvalidating _
      · exact unmarked_applyFailureWithRetryCheck _ _ _ _
      · exact hclosed _
  | retryTimer =>
    rw [Entry.dispatch, Entry.onRetryTimer]
    split_ifs
    · exact unmarked_nil
    · split
      · exact hvalidating _
      · exact unmarked_applyFailureWithRetryCheck _ _ _ _
      · exact hclosed _
  | validationOk =>
    rw [Entry.dispatch, Entry.onValidationOk]
    split_ifs with hs
    · exact unmarked_nil
    · -- From VALIDATING, xquic does not hear of the class of the path.
      refine unmarked_setPathState (.inr ?_)
      change appStatusFor p.state ctx.validatedTarget = none
      rw [not_not.1 hs]
      cases ctx.validatedTarget <;> rfl
  | xquicRemoved =>
    rw [Entry.dispatch, Entry.onXquicRemoved]
    split
    · exact unmarked_applyFailureWithRetryCheck _ _ _ _
    · exact unmarked_applyFailureWithRetryCheck _ _ _ _
    · exact unmarked_applyFailureWithRetryCheck _ _ _ _
    · exact unmarked_maybeTransitionDroppedToFree _ _
    · exact unmarked_nil
  | manualReactivate =>
    rw [Entry.dispatch, Entry.onManualReactivate]
    split_ifs
    · exact unmarked_nil
    · split
      · exact hvalidating _
      · exact unmarked_nil
      · exact unmarked_nil
  | platformDrop => exact unmarked_drop p clockUs
  | removeApi => exact unmarked_drop p clockUs
  | addFd =>
    rw [Entry.dispatch, Entry.onAddFd]
    split_ifs
    · exact unmarked_nil
    · exact hpending _
  | connReset =>
    rw [Entry.dispatch, Entry.onConnReset]
    dsimp only
    split_ifs
    · exact hpending _
    · exact unmarked_maybeTransitionDroppedToFree _ _
  | fdClosed =>
    rw [Entry.dispatch, Entry.onFdClosed]
    split_ifs
    · exact unmarked_nil
    · exact unmarked_maybeTransitionDroppedToFree _ _

/-- No event marks a live path in xquic. -/
theorem not_marks (p : Entry) (clockUs : Nat) (ev : Event) (ctx : Option Ctx) :
    Unmarked (p.onEvent clockUs ev ctx).2 := by
  rw [Entry.onEvent.eq_def]
  cases ctx with
  | none => exact unmarked_nil
  | some ctx =>
    have hunmarked := unmarked_dispatch p clockUs ev ctx
    dsimp only
    split_ifs
    · intro app id hmem
      rcases List.mem_append.1 hmem with hmem | hmem
      · exact hunmarked app id hmem
      · exact absurd hmem (by simp)
    · exact hunmarked

/-! ## Slots -/

/-- A live slot is in a state of a slot that has a path. -/
def Settled (p : Entry) : Prop :=
  p.xquicPathLive = true →
    p.state = .validating ∨ p.state = .active ∨ p.state = .standby ∨ p.state = .closedDropped

theorem settled_of_not_live (h : p.xquicPathLive = false) : Settled p := fun hl =>
  absurd (h.symm.trans hl) Bool.false_ne_true

theorem Settled.not_startable (h : Settled p) (hl : p.xquicPathLive = true) : ¬p.Startable := by
  intro hs
  rcases h hl with h | h | h | h <;> rcases hs with hs | hs | hs | hs <;> exact absurd (h.symm.trans hs) (by simp)

/-- What the calls but for the removal of a path do to a slot: a live one keeps its
    path, and one that is `granted` a path gets one, which is not that of the
    handshake. -/
structure Evolves (granted : Prop) (p q : Entry) : Prop where
  settled : Settled q
  flags : q.flags = p.flags
  attached : q.platformAttached = true → p.platformAttached = true
  kept : p.xquicPathLive = true → q.xquicPathLive = true ∧ q.xqcPathId = p.xqcPathId
  live : q.xquicPathLive = true → p.xquicPathLive = true ∨ (granted ∧ q.xqcPathId ≠ 0)
  bound : granted → q.xquicPathLive = true

namespace Evolves

variable {granted : Prop}

theorem trans {granted' : Prop} {r : Entry} (h : Evolves granted p q) (h' : Evolves granted' q r) :
    Evolves (granted ∨ granted') p r := by
  refine ⟨h'.settled, h'.flags.trans h.flags, fun ha => h.attached (h'.attached ha), fun hl => ?_, fun hl => ?_,
    fun hg => ?_⟩
  · obtain ⟨hq, hid⟩ := h.kept hl
    obtain ⟨hr, hid'⟩ := h'.kept hq
    exact ⟨hr, hid'.trans hid⟩
  · rcases h'.live hl with hq | ⟨hg, hid⟩
    · rcases h.live hq with hp | ⟨hg, hid⟩
      · exact .inl hp
      · exact .inr ⟨.inl hg, (h'.kept hq).2 ▸ hid⟩
    · exact .inr ⟨.inr hg, hid⟩
  · rcases hg with hg | hg
    · exact (h'.kept (h.bound hg)).1
    · exact h'.bound hg

theorem congr {granted' : Prop} (h : Evolves granted p q) (hg : granted ↔ granted') : Evolves granted' p q := by
  rw [← hg]
  exact h

/-- The change is not about the path of the slot. -/
theorem of_same (h : Settled p) (hs : q.state = p.state) (hf : q.flags = p.flags)
    (ha : q.platformAttached = p.platformAttached) (hl : q.xquicPathLive = p.xquicPathLive)
    (hid : q.xqcPathId = p.xqcPathId) : Evolves False p q := by
  refine ⟨fun hq => ?_, hf, fun h => ha ▸ h, fun h => ⟨hl ▸ h, hid⟩, fun h => .inl (hl ▸ h), fun h => h.elim⟩
  rw [hs]
  exact h (hl ▸ hq)

end Evolves

/-- The event is about the slot as the connection knows it: it takes the path away, or
    it is the first one. -/
def Ends : Event → Prop
  | .xquicRemoved | .connReset | .addFd => True
  | _ => False

variable {clockUs : Nat} {ctx : Ctx} {ev : Event}

theorem flags_of_change (hc : Change clockUs ctx ev p q) : q.flags = p.flags := by
  have hfree (r : Entry) : (r.maybeTransitionDroppedToFree clockUs).1.flags = r.flags :=
    congrArg Tag.flags (r.tag_maybeTransitionDroppedToFree clockUs)
  have henter (r : Entry) (new : Lifecycle) : (r.enter clockUs new).flags = r.flags :=
    congrArg Tag.flags (r.tag_enter clockUs new)
  cases hc with
  | ignored => rfl
  | resetDetached => exact hfree _
  | removed => exact hfree _
  | fdClosed => exact hfree _
  | _ => exact henter ..

theorem settled_of_change (hc : Change clockUs ctx ev p q) (h : Settled p)
    (ht : ev = .validationOk → ctx.validatedTarget = .active ∨ ctx.validatedTarget = .standby) : Settled q := by
  have hfree {r : Entry} (hr : Settled r) : Settled (r.maybeTransitionDroppedToFree clockUs).1 := by
    rw [Entry.maybeTransitionDroppedToFree_eq]
    split_ifs with hfreed
    · exact settled_of_not_live ((Entry.xquicPathLive_enter ..).trans hfreed.2.2.1)
    · exact hr
  cases hc with
  | ignored => exact h
  | activated => exact fun _ => .inl (Entry.state_enter ..)
  | retry => exact settled_of_not_live (Entry.xquicPathLive_enter ..)
  | exhausted => exact settled_of_not_live (Entry.xquicPathLive_enter ..)
  | refused => exact settled_of_not_live (Entry.xquicPathLive_enter ..)
  | validated =>
    intro _
    rw [Entry.state_enter]
    exact .inr ((ht rfl).imp_right .inl)
  | dropped => exact fun _ => .inr (.inr (.inr (Entry.state_enter ..)))
  | attached hs =>
    -- A free slot is not live.
    refine settled_of_not_live ((Entry.xquicPathLive_enter ..).trans ?_)
    by_contra hl
    rcases h (by simpa using hl) with h | h | h | h <;> exact absurd (hs.symm.trans h) (by simp)
  | reset => exact settled_of_not_live (Entry.xquicPathLive_enter ..)
  | resetDetached => exact hfree (settled_of_not_live rfl)
  | removed => exact hfree (settled_of_not_live rfl)
  | fdClosed => exact hfree h

theorem attached_of_change (hc : Change clockUs ctx ev p q) (hev : ¬Ends ev) (hq : q.platformAttached = true) :
    p.platformAttached = true := by
  have hfree {r : Entry} (hr : (r.maybeTransitionDroppedToFree clockUs).1.platformAttached = true) :
      r.platformAttached = true :=
    (congrArg Tag.attached (r.tag_maybeTransitionDroppedToFree clockUs)).symm.trans hr
  have henter {r : Entry} {new : Lifecycle} (hr : (r.enter clockUs new).platformAttached = true) :
      r.platformAttached = true :=
    (Entry.platformAttached_enter ..).symm.trans hr
  cases hc with
  | ignored => exact hq
  | dropped => exact absurd hq (by simp)
  | attached => exact absurd trivial hev
  | reset hp => exact hp
  | resetDetached =>
    have ha := hfree hq
    exact ha
  | removed =>
    have ha := hfree hq
    exact ha
  | fdClosed =>
    have ha := hfree hq
    exact ha
  | _ =>
    have ha := henter hq
    exact ha

/-- A path is lost to xquic or with its connection only. -/
theorem kept_of_change (hc : Change clockUs ctx ev p q) (h : Settled p) (hev : ¬Ends ev)
    (hl : p.xquicPathLive = true) : q.xquicPathLive = true ∧ q.xqcPathId = p.xqcPathId := by
  have hretry {target : Lifecycle} (hr : p.Retries ev target) : False := by
    rcases hr with hs | hs | hs | hs | hs
    · exact h.not_startable hl (.inl hs)
    · exact h.not_startable hl (.inr (.inl hs))
    · exact h.not_startable hl (.inr (.inr (.inl hs)))
    · exact hev trivial
    · exact hev trivial
  cases hc with
  | ignored => exact ⟨hl, rfl⟩
  | activated _ hs => exact absurd hs (h.not_startable hl)
  | retry hr => exact (hretry hr).elim
  | exhausted hr => exact (hretry hr).elim
  | refused _ hs => exact absurd hs (h.not_startable hl)
  | fdClosed =>
    rw [Entry.maybeTransitionDroppedToFree_eq]
    split_ifs with hfreed
    · exact absurd (hl.symm.trans hfreed.2.2.1) (by simp)
    · exact ⟨hl, rfl⟩
  | attached => exact absurd trivial hev
  | reset => exact absurd trivial hev
  | resetDetached => exact absurd trivial hev
  | removed => exact absurd trivial hev
  | _ => exact ⟨(Entry.xquicPathLive_enter ..).trans hl, Entry.xqcPathId_enter ..⟩

theorem evolves_of_change (hc : Change clockUs ctx ev p q) (h : Settled p) (hev : ¬Ends ev)
    (ht : ev = .validationOk → ctx.validatedTarget = .active ∨ ctx.validatedTarget = .standby) {granted : Prop}
    (hlive : ¬p.xquicPathLive = true → q.xquicPathLive = true → granted ∧ q.xqcPathId ≠ 0)
    (hbound : granted → q.xquicPathLive = true) : Evolves granted p q := by
  refine ⟨settled_of_change hc h ht, flags_of_change hc, attached_of_change hc hev, kept_of_change hc h hev,
    fun hq => ?_, hbound⟩
  by_cases hp : p.xquicPathLive = true
  · exact .inl hp
  · exact .inr (hlive hp hq)

/-- An event that binds no path. -/
theorem evolves_event (h : Settled p) (hev : ¬Ends ev) (ha : ¬ev.Activates)
    (ht : ev = .validationOk → ctx.validatedTarget = .active ∨ ctx.validatedTarget = .standby) :
    Evolves False p (p.onEvent nowUs ev (some ctx)).1 := by
  have hc := Entry.change_onEvent p nowUs ev ctx
  refine evolves_of_change hc h hev ht (fun hp hq => ?_) False.elim
  rcases hc.live hq with ⟨hl, -⟩ | ⟨hact, -⟩
  · exact absurd hl hp
  · exact absurd hact ha

/-- A live slot loses its path if xquic removes it. -/
theorem not_live_xquicRemoved (h : Settled p) (hl : p.xquicPathLive = true) :
    (p.onEvent nowUs .xquicRemoved (some ctx)).1.xquicPathLive = false := by
  have hfailed (target : Lifecycle) :
      (p.applyFailureWithRetryCheck nowUs target ctx.nowUs).1.xquicPathLive = false := by
    rw [Entry.applyFailureWithRetryCheck]
    dsimp only
    split_ifs
    · exact Entry.xquicPathLive_enter ..
    · exact Entry.xquicPathLive_enter ..
  rw [Entry.onEvent_some, Entry.dispatch, Entry.onXquicRemoved]
  rcases h hl with hs | hs | hs | hs
  · rw [hs]
    exact hfailed _
  · rw [hs]
    exact hfailed _
  · rw [hs]
    exact hfailed _
  · rw [hs]
    dsimp only
    rw [Entry.maybeTransitionDroppedToFree_eq]
    split_ifs
    · exact Entry.xquicPathLive_enter ..
    · rfl

/-- The states from which an activation event binds a path. -/
def Takes (ev : Event) (p : Entry) : Prop :=
  match ev with
  | .activateRequested => p.state = .pending
  | .retryTimer => p.state = .createWait ∨ p.state = .degraded
  | .manualReactivate => p.state = .closedRecoverable ∨ p.state = .createWait ∨ p.state = .degraded
  | _ => False

theorem live_activation (ht : Takes ev p) (hok : ctx.result = .ok) :
    (p.onEvent nowUs ev (some ctx)).1.xquicPathLive = true := by
  have hactivated : (p.activated nowUs ctx.newXqcPathId).1.xquicPathLive = true :=
    Entry.xquicPathLive_enter ..
  rw [Entry.onEvent_some]
  cases ev with
  | activateRequested =>
    rw [Takes] at ht
    rw [Entry.dispatch, Entry.onActivateRequested, if_neg (not_not.2 ht), hok]
    exact hactivated
  | retryTimer =>
    rw [Takes] at ht
    rw [Entry.dispatch, Entry.onRetryTimer, if_neg (by tauto), hok]
    exact hactivated
  | manualReactivate =>
    rw [Takes] at ht
    rw [Entry.dispatch, Entry.onManualReactivate, if_neg (by tauto), hok]
    exact hactivated
  | _ => exact ht.elim

variable (ev) in
/-- An event with which a slot asks for a path; the path of the handshake is taken. -/
theorem evolves_activation (h : Settled p) (ht : Takes ev p) (xq : Xquic) (i : Nat) {mp : Mp} (h0 : 0 ∈ mp.ids) :
    Evolves (xq.result i = .ok) p (p.onEvent nowUs ev (some
      { result := (activateViaXquicClassify xq i mp).1
        newXqcPathId := (activateViaXquicClassify xq i mp).2.1
        nowUs })).1 := by
  have hresult := result_activateViaXquicClassify xq i mp
  have hnew (hok : xq.result i = .ok) : (activateViaXquicClassify xq i mp).2.1 ≠ 0 := by
    rw [activateViaXquicClassify, hok]
    intro hid
    change xq.newId i mp.ids = 0 at hid
    refine xq.newId_notMem i mp.ids ?_
    rw [hid]
    exact h0
  have hev : ¬Ends ev ∧ ev ≠ .validationOk := by
    cases ev <;> simp_all [Takes, Ends]
  generalize hctx : ({
    result := (activateViaXquicClassify xq i mp).1
    newXqcPathId := (activateViaXquicClassify xq i mp).2.1
    nowUs } : Ctx) = ctx
  have hc := Entry.change_onEvent p nowUs ev ctx
  refine evolves_of_change hc h hev.1 (fun hv => absurd hv hev.2) (fun hp hq => ?_) fun hok => ?_
  · rcases hc.live hq with ⟨hl, -⟩ | ⟨-, hok, hid⟩
    · exact absurd hl hp
    · subst hctx
      rw [hid]
      exact ⟨hresult ▸ hok, hnew (hresult ▸ hok)⟩
  · refine live_activation ht ?_
    subst hctx
    exact hresult.trans hok

theorem zero_mem_activateViaXquicClassify (xq : Xquic) (i : Nat) {mp : Mp} (h0 : 0 ∈ mp.ids) :
    0 ∈ (activateViaXquicClassify xq i mp).2.2.ids := by
  rw [activateViaXquicClassify]
  split
  · exact List.mem_cons_of_mem _ h0
  · exact h0
  · exact h0

/-! ## Operations -/

/-- `activate_pending_paths` asks for a path of the slot. -/
def Pends (p : Entry) : Prop := p.state = .pending ∧ p.xquicPathLive = false

instance (p : Entry) : Decidable (Pends p) := inferInstanceAs (Decidable (_ ∧ _))

theorem evolves_refl (h : Settled p) : Evolves False p p := .of_same h rfl rfl rfl rfl rfl

/-- A slot in the loop of `activate_pending_paths`. -/
theorem evolves_pending (h : Settled p) (xq : Xquic) (i : Nat) {mp : Mp} (h0 : 0 ∈ mp.ids) :
    Evolves (Pends p ∧ xq.result i = .ok) p
        (if p.state ≠ .pending then (p, mp) else activatePath nowUs xq i p mp).1 ∧
      0 ∈ (if p.state ≠ .pending then (p, mp) else activatePath nowUs xq i p mp).2.ids := by
  by_cases hs : p.state = .pending
  · rw [if_neg (not_not.2 hs), activatePath]
    by_cases hl : p.xquicPathLive = true
    · rw [if_pos hl]
      refine ⟨(evolves_refl h).congr ⟨False.elim, fun hg => ?_⟩, h0⟩
      exact absurd (hl.symm.trans hg.1.2) (by simp)
    · rw [if_neg hl]
      have hids := zero_mem_activateViaXquicClassify xq i h0
      refine ⟨(evolves_activation .activateRequested h hs xq i h0).congr ?_, ?_⟩
      · exact (and_iff_right ⟨hs, by simpa using hl⟩).symm
      · dsimp only
        split_ifs
        · exact hids
        · exact hids
  · rw [if_pos hs]
    exact ⟨(evolves_refl h).congr ⟨False.elim, fun hg => hs hg.1.1⟩, h0⟩

theorem evolves_residenceCheck (h : Settled p) : Evolves False p (residenceCheck nowUs p) := by
  rw [residenceCheck]
  split_ifs
  · exact .of_same h rfl rfl rfl rfl rfl
  · exact evolves_refl h

theorem evolves_tickConfirmStable (nowUs : Nat) (h : Settled p) : Evolves False p (p.tickConfirmStable nowUs) := by
  rw [Entry.tickConfirmStable]
  split_ifs
  · exact evolves_refl h
  · exact evolves_refl h
  · exact .of_same h rfl rfl rfl rfl rfl

theorem evolves_driveRetryTimer (nowUs : Nat) (h : Settled p) (xq : Xquic) (i : Nat) {mp : Mp} (h0 : 0 ∈ mp.ids) :
    Evolves (RetryDue p nowUs ∧ xq.result i = .ok) p (driveRetryTimer nowUs xq i p mp).1 ∧
      0 ∈ (driveRetryTimer nowUs xq i p mp).2.ids := by
  rw [driveRetryTimer]
  split_ifs with hdue
  · exact ⟨(evolves_activation .retryTimer h hdue.1.symm xq i h0).congr (and_iff_right hdue).symm,
      zero_mem_activateViaXquicClassify xq i h0⟩
  · exact ⟨(evolves_refl h).congr ⟨False.elim, fun hg => hdue hg.1⟩, h0⟩

theorem evolves_recoverPath (h : Settled p) (xq : Xquic) (i : Nat) {mp : Mp} (h0 : 0 ∈ mp.ids) :
    Evolves (RetryDue p nowUs ∧ xq.result i = .ok) p (recoverPath nowUs xq i p mp).1 ∧
      0 ∈ (recoverPath nowUs xq i p mp).2.ids := by
  have hwarn : Evolves False p (residenceCheck nowUs p) := evolves_residenceCheck h
  have hdue : RetryDue (residenceCheck nowUs p) nowUs ↔ RetryDue p nowUs := by
    rw [residenceCheck]
    split_ifs <;> rfl
  obtain ⟨hretry, hids⟩ := evolves_driveRetryTimer nowUs hwarn.settled xq i h0
  have hstable := evolves_tickConfirmStable nowUs hretry.settled
  refine ⟨((hwarn.trans hretry).trans hstable).congr ?_, hids⟩
  rw [hdue]
  simp

theorem evolves_checkValidation (h : Settled p) {target : Lifecycle} (ht : target = .active ∨ target = .standby)
    (validated : Nat → Bool) : Evolves False p (checkValidation nowUs target validated p) := by
  rw [checkValidation]
  split_ifs
  · exact evolves_refl h
  · exact evolves_event h id id fun _ => ht
  · exact evolves_refl h

theorem evolves_validatePrimary (h : Settled p) : Evolves False p (validatePrimary nowUs p) := by
  rw [validatePrimary]
  split_ifs
  · exact evolves_event h id id fun _ => .inl rfl
  · exact evolves_refl h

/-! ## Tables -/

/-- What a call does to the live slots of a table, where `created` are the slots for
    which it creates a path. -/
structure Moves (created ps qs : List Entry) : Prop where
  kept : ∀ p ∈ ps, p.xquicPathLive = true → ∃ q ∈ qs, q.xquicPathLive = true ∧ (Backup q ↔ Backup p)
  bound : ∀ p ∈ created, ∃ q ∈ qs, q.xquicPathLive = true ∧ (Backup q ↔ Backup p)
  live : ∀ q ∈ qs, q.xquicPathLive = true →
    (∃ p ∈ ps, p.xquicPathLive = true ∧ (Backup q ↔ Backup p) ∧ q.xqcPathId = p.xqcPathId ∧
      (q.platformAttached = true → p.platformAttached = true)) ∨
    ∃ p ∈ created, (Backup q ↔ Backup p) ∧ q.xqcPathId ≠ 0

variable {ps qs created : List Entry}

theorem Moves.trans {rs : List Entry} (h : Moves [] ps qs) (h' : Moves created qs rs) : Moves created ps rs := by
  refine ⟨fun p hp hl => ?_, h'.bound, fun r hr hl => ?_⟩
  · obtain ⟨q, hq, hlq, hb⟩ := h.kept p hp hl
    obtain ⟨r, hr, hlr, hb'⟩ := h'.kept q hq hlq
    exact ⟨r, hr, hlr, hb'.trans hb⟩
  · rcases h'.live r hr hl with ⟨q, hq, hlq, hb, hid, ha⟩ | hnew
    · rcases h.live q hq hlq with ⟨p, hp, hlp, hb', hid', ha'⟩ | ⟨p, hp, -⟩
      · exact .inl ⟨p, hp, hlp, hb.trans hb', hid.trans hid', fun hr => ha' (ha hr)⟩
      · exact absurd hp List.not_mem_nil
    · exact .inr hnew

/-- A call that does the same to all slots of a table. -/
theorem moves_of_evolves (granted : Nat → Entry → Prop) (hlen : qs.length = ps.length)
    (h : ∀ i p q, ps[i]? = some p → qs[i]? = some q → Evolves (granted i p) p q)
    (hcreated : ∀ p, p ∈ created ↔ ∃ i, ps[i]? = some p ∧ granted i p) : Moves created ps qs := by
  have hbackup {i : Nat} {p q : Entry} (he : Evolves (granted i p) p q) : Backup q ↔ Backup p := by
    rw [Backup, Backup, he.flags]
  have hnext {i : Nat} {p : Entry} (hp : ps[i]? = some p) : ∃ q, qs[i]? = some q := by
    have hi := (List.getElem?_eq_some_iff.1 hp).1
    exact ⟨qs[i], List.getElem?_eq_getElem (hlen ▸ hi)⟩
  refine ⟨fun p hp hl => ?_, fun p hp => ?_, fun q hq hl => ?_⟩
  · obtain ⟨i, hi⟩ := List.mem_iff_getElem?.1 hp
    obtain ⟨q, hq⟩ := hnext hi
    have he := h i p q hi hq
    exact ⟨q, List.mem_of_getElem? hq, (he.kept hl).1, hbackup he⟩
  · obtain ⟨i, hi, hg⟩ := (hcreated p).1 hp
    obtain ⟨q, hq⟩ := hnext hi
    have he := h i p q hi hq
    exact ⟨q, List.mem_of_getElem? hq, he.bound hg, hbackup he⟩
  · obtain ⟨i, hi⟩ := List.mem_iff_getElem?.1 hq
    have hlt := (List.getElem?_eq_some_iff.1 hi).1
    have hp := List.getElem?_eq_getElem (hlen ▸ hlt)
    have he := h i _ q hp hi
    rcases he.live hl with hlp | ⟨hg, hid⟩
    · exact .inl ⟨_, List.mem_of_getElem? hp, hlp, hbackup he, (he.kept hlp).2, he.attached⟩
    · exact .inr ⟨_, (hcreated _).2 ⟨i, hp, hg⟩, hbackup he, hid⟩

theorem Moves.primaryLive_iff (h : Moves created ps qs) :
    PrimaryLive qs ↔ PrimaryLive ps ∨ ∃ p ∈ created, ¬Backup p := by
  constructor
  · rintro ⟨q, hq, hl, hb⟩
    rcases h.live q hq hl with ⟨p, hp, hlp, hpb, -⟩ | ⟨p, hp, hpb, -⟩
    · exact .inl ⟨p, hp, hlp, fun hn => hb (hpb.2 hn)⟩
    · exact .inr ⟨p, hp, fun hn => hb (hpb.2 hn)⟩
  · rintro (⟨p, hp, hl, hb⟩ | ⟨p, hp, hb⟩)
    · obtain ⟨q, hq, hlq, hqb⟩ := h.kept p hp hl
      exact ⟨q, hq, hlq, fun hn => hb (hqb.1 hn)⟩
    · obtain ⟨q, hq, hlq, hqb⟩ := h.bound p hp
      exact ⟨q, hq, hlq, fun hn => hb (hqb.1 hn)⟩

/-- The paths that a call creates go with the live slots. A slot that is no backup gets
    one only if the live backups stand by; a backup gets one, in standby, beside a slot
    that is none, or one that is available, without. -/
def Admits (scheduler : Scheduler) (ps created : List Entry) : Prop :=
  ∀ p ∈ created,
    (¬Backup p → ∀ q ∈ ps, Backup q → q.xquicPathLive = true → Standby scheduler q) ∧
      (Backup p → (scheduler.pathStatus = .standby ↔ PrimaryLive ps ∨ ∃ q ∈ created, ¬Backup q))

instance (ps created : List Entry) : Decidable (Admits scheduler ps created) :=
  inferInstanceAs (Decidable (∀ p ∈ created, _ ∧ _))

theorem Admits.of_mem {created' : List Entry} (ha : Admits scheduler ps created)
    (h : ∀ p, p ∈ created' ↔ p ∈ created) : Admits scheduler ps created' := by
  intro p hp
  have hsame : (∃ q ∈ created', ¬Backup q) ↔ ∃ q ∈ created, ¬Backup q := exists_congr fun q => by rw [h]
  rw [hsame]
  exact ha p ((h p).1 hp)

theorem Admits.moves (ha : Admits scheduler ps created) (hm : Moves [] ps qs) : Admits scheduler qs created := by
  intro p hp
  refine ⟨fun hb q hq hqb hl => ?_, fun hb => ((ha p hp).2 hb).trans ?_⟩
  · rcases hm.live q hq hl with ⟨q', hq', hl', hb', hid, -⟩ | ⟨q', hq', -⟩
    · rw [Standby, hid]
      exact (ha p hp).1 hb q' hq' (hb'.1 hqb) hl'
    · exact absurd hq' List.not_mem_nil
  · rw [hm.primaryLive_iff]
    simp

/-- The standby status of a path is that of its id. -/
theorem standby_congr (hid : q.xqcPathId = p.xqcPathId) : Standby scheduler q ↔ Standby scheduler p := by
  rw [Standby, Standby, hid]

namespace FailoverOnly

theorem moves (h : FailoverOnly scheduler ps) (hm : Moves created ps qs) (ha : Admits scheduler ps created) :
    FailoverOnly scheduler qs := by
  refine ⟨fun hprimary q hq hb => standby_iff.2 fun hl => ?_, fun hnone q hq hb hat hl => ?_⟩
  · rw [hm.primaryLive_iff] at hprimary
    rcases hm.live q hq hl with ⟨p, hp, hlp, hpb, hid, -⟩ | ⟨p, hp, hpb, hid⟩
    · rw [standby_congr hid]
      rcases hprimary with hprimary | ⟨r, hr, hrb⟩
      · exact standby_iff.1 (h.standby hprimary p hp (hpb.1 hb)) hlp
      · exact (ha r hr).1 hrb p hp (hpb.1 hb) hlp
    · exact ⟨((ha p hp).2 (hpb.1 hb)).2 hprimary, hid⟩
  · rw [hm.primaryLive_iff] at hnone
    rcases hm.live q hq hl with ⟨p, hp, hlp, hpb, hid, hatp⟩ | ⟨p, hp, hpb, hid⟩
    · rw [standby_congr hid]
      exact h.available (fun hp => hnone (.inl hp)) p hp (hpb.1 hb) (hatp hat) hlp
    · exact fun hs => hnone (((ha p hp).2 (hpb.1 hb)).1 hs.1)

/-- No slot is live. -/
theorem of_not_live (h : ∀ p ∈ ps, p.xquicPathLive = false) : FailoverOnly scheduler ps := by
  refine ⟨fun ⟨p, hp, hl, _⟩ => ?_, fun _ q hq _ _ hl => ?_⟩
  · exact absurd ((h p hp).symm.trans hl) (by simp)
  · exact absurd ((h q hq).symm.trans hl) (by simp)

end FailoverOnly

/-- A slot other than the one at an index is still there when that one is replaced. -/
theorem mem_modify_iff {i : Nat} {f : Entry → Entry} :
    q ∈ ps.modify i f ↔ q ∈ ps.eraseIdx i ∨ ∃ p, ps[i]? = some p ∧ q = f p := by
  rw [List.mem_eraseIdx_iff_getElem?, List.mem_iff_getElem?]
  constructor
  · rintro ⟨j, hj⟩
    rw [List.getElem?_modify] at hj
    obtain ⟨p, hp, rfl⟩ := Option.map_eq_some_iff.1 hj
    by_cases hij : i = j
    · subst hij
      rw [if_pos rfl]
      exact .inr ⟨p, hp, rfl⟩
    · rw [if_neg hij]
      exact .inl ⟨j, fun h => hij h.symm, hp⟩
  · rintro (⟨j, hne, hj⟩ | ⟨p, hp, rfl⟩)
    · refine ⟨j, ?_⟩
      rw [List.getElem?_modify_ne _ _ (Ne.symm hne)]
      exact hj
    · refine ⟨i, ?_⟩
      rw [List.getElem?_modify_eq, hp]
      rfl

/-- The loss of the path at an index leaves no path that stands by alone. -/
def Releases (scheduler : Scheduler) (ps : List Entry) (i : Nat) : Prop :=
  ∀ p ∈ ps[i]?, ¬Backup p → PrimaryLive (ps.eraseIdx i) ∨
    ∀ q ∈ ps, Backup q → q.platformAttached = true → q.xquicPathLive = true → ¬Standby scheduler q

instance (ps : List Entry) (i : Nat) : Decidable (Releases scheduler ps i) :=
  inferInstanceAs (Decidable (∀ p ∈ ps[i]?, _ → _))

/-- The slot at an index may get the path of the handshake: no other is live that would
    have to stand by with it, or it with that one. -/
def Leads (scheduler : Scheduler) (ps : List Entry) (i : Nat) : Prop :=
  ∀ q ∈ ps.eraseIdx i, q.xquicPathLive = true → ∃ p ∈ ps[i]?,
    if Backup p then Backup q ∧ (q.platformAttached = true → ¬Standby scheduler q)
    else Backup q → Standby scheduler q

instance (ps : List Entry) (i : Nat) : Decidable (Leads scheduler ps i) :=
  inferInstanceAs (Decidable (∀ q ∈ ps.eraseIdx i, _ → ∃ p ∈ ps[i]?, _))

namespace FailoverOnly

theorem removed (h : FailoverOnly scheduler ps) {i : Nat} {f : Entry → Entry}
    (hf : ∀ p, ps[i]? = some p → (f p).xquicPathLive = false) (hs : Releases scheduler ps i) :
    FailoverOnly scheduler (ps.modify i f) := by
  -- The slot at the index is the only one that is not live any more.
  have hlive {q : Entry} (hq : q ∈ ps.modify i f) (hl : q.xquicPathLive = true) : q ∈ ps.eraseIdx i := by
    rcases mem_modify_iff.1 hq with hq | ⟨p, hp, rfl⟩
    · exact hq
    · exact absurd ((hf p hp).symm.trans hl) (by simp)
  have hprimary (hp : PrimaryLive (ps.eraseIdx i)) : PrimaryLive (ps.modify i f) := by
    obtain ⟨p, hp, hl, hb⟩ := hp
    exact ⟨p, mem_modify_iff.2 (.inl hp), hl, hb⟩
  refine ⟨fun ⟨p, hp, hlp, hbp⟩ q hq hb => standby_iff.2 fun hl => ?_, fun hnone q hq hb ha hl => ?_⟩
  · have hold : PrimaryLive ps := ⟨p, List.mem_of_mem_eraseIdx (hlive hp hlp), hlp, hbp⟩
    exact standby_iff.1 (h.standby hold q (List.mem_of_mem_eraseIdx (hlive hq hl)) hb) hl
  · have hmem := List.mem_of_mem_eraseIdx (hlive hq hl)
    by_cases hold : PrimaryLive ps
    · obtain ⟨p, hp, hlp, hbp⟩ := hold
      obtain ⟨j, hj⟩ := List.mem_iff_getElem?.1 hp
      by_cases hij : j = i
      · -- It was the last one that is no backup.
        subst hij
        rcases hs p hj hbp with hother | hfree
        · exact absurd (hprimary hother) hnone
        · exact hfree q hmem hb ha hl
      · exact absurd (hprimary ⟨p, List.mem_eraseIdx_iff_getElem?.2 ⟨j, hij, hj⟩, hlp, hbp⟩) hnone
    · exact h.available hold q hmem hb ha hl

theorem bootstrap {i : Nat} (hs : Leads scheduler ps i) :
    FailoverOnly scheduler (ps.modify i (bootstrap nowUs)) := by
  have hflags (p : Entry) : Backup (Client.bootstrap nowUs p) ↔ Backup p := by
    have htag : (Client.bootstrap nowUs p).flags = p.flags := congrArg Tag.flags (tag_bootstrap p)
    rw [Backup, Backup, htag]
  have hzero (p : Entry) : ¬Standby scheduler (Client.bootstrap nowUs p) := fun h => h.2 (bootstrap_eq p).2
  have hsame {p p' : Entry} (hp : ps[i]? = some p) (hp' : p' ∈ ps[i]?) : p' = p := Option.some.inj (hp'.symm.trans hp)
  refine ⟨fun ⟨p, hp, hlp, hbp⟩ q hq hb => standby_iff.2 fun hl => ?_, fun hnone q hq hb ha hl => ?_⟩
  · -- A slot of the handshake that is a backup has only backups beside it.
    have hfirst {p₀ : Entry} (hp₀ : ps[i]? = some p₀) : ¬Backup p₀ := by
      intro hb₀
      rcases mem_modify_iff.1 hp with hp | ⟨p', hp', rfl⟩
      · obtain ⟨p', hp', hbeside⟩ := hs p hp hlp
        rw [hsame hp₀ hp', if_pos hb₀] at hbeside
        exact hbp hbeside.1
      · rw [hflags, hsame hp₀ hp'] at hbp
        exact hbp hb₀
    rcases mem_modify_iff.1 hq with hq | ⟨q', hq', rfl⟩
    · obtain ⟨p', hp', hbeside⟩ := hs q hq hl
      rw [if_neg (hfirst hp')] at hbeside
      exact hbeside hb
    · exact absurd ((hflags q').1 hb) (hfirst hq')
  · rcases mem_modify_iff.1 hq with hq | ⟨q', hq', rfl⟩
    · obtain ⟨p', hp', hbeside⟩ := hs q hq hl
      by_cases hb' : Backup p'
      · rw [if_pos hb'] at hbeside
        exact hbeside.2 ha
      · refine absurd ⟨Client.bootstrap nowUs p', mem_modify_iff.2 (.inr ⟨p', hp', rfl⟩), (bootstrap_eq p').1, ?_⟩ hnone
        rw [hflags]
        exact hb'
    · exact hzero q'

end FailoverOnly

/-! ## Clients -/

/-- The slots that pass a test and whose request for a path xquic grants. -/
def granted (test : Entry → Prop) [DecidablePred test] (xq : Xquic) (ps : List Entry) : List Entry :=
  (ps.zipIdx.filter fun x => test x.1 ∧ xq.result x.2 = .ok).map Prod.fst

theorem mem_granted {test : Entry → Prop} [DecidablePred test] {xq : Xquic} :
    p ∈ granted test xq ps ↔ ∃ i, ps[i]? = some p ∧ test p ∧ xq.result i = .ok := by
  rw [granted, List.mem_map]
  constructor
  · rintro ⟨⟨p', i⟩, hmem, rfl⟩
    obtain ⟨hmem, htest⟩ := List.mem_filter.1 hmem
    exact ⟨i, List.mem_zipIdx_iff_getElem?.1 hmem, by simpa using htest⟩
  · rintro ⟨i, hi, htest⟩
    exact ⟨(p, i), List.mem_filter.2 ⟨List.mem_zipIdx_iff_getElem?.2 hi, by simpa using htest⟩, rfl⟩

/-- The slots for which a call creates a path, after that of the handshake. -/
def opened (c : Client) (s : Step) : List Entry :=
  match s.call with
  | .addPathFd fd desc xq =>
    if 0 ≤ fd ∧ c.conn.isSome ∧ c.multipathReady ∧ c.config.multipath then
      match addPath c.paths (newPath s.nowUs c.nextPathHandle fd desc) with
      | some paths => granted Pends xq paths
      | none => []
    else []
  | .readyToCreatePath xq => if c.conn.isSome ∧ c.config.multipath then granted Pends xq c.paths else []
  | .tickPathRecovery _ xq =>
    if c.state = .established ∧ c.config.multipath ∧ c.conn.isSome then
      granted (RetryDue · s.nowUs) xq c.paths
    else []
  | .reactivatePath handle xq =>
    if c.state = .established ∧ c.multipathReady ∧ c.conn.isSome then
      match c.findPathByHandle handle with
      | some i => if xq.result i = .ok then c.paths[i]?.toList.filter (ReactivateSlotEligible ·) else []
      | none => []
    else []
  | _ => []

/-- The id of the path that is gone. -/
def Call.removedPath : Call → Option Nat
  | .pathRemoved pathId => some pathId
  | _ => none

/-- The step does not lead out of the rule for backups. -/
structure Guarded (scheduler : Scheduler) (c : Client) (s : Step) : Prop where
  connect : ∀ start ∈ s.call.connectStart,
    stateTransitions c.state .connecting = true → (c.startConnection s.nowUs start).1 = true →
      Leads scheduler c.paths c.primaryPathIdx
  opened : Admits scheduler c.paths (c.opened s)
  removed : ∀ pathId ∈ s.call.removedPath, c.conn.isSome = true →
    ∀ i ∈ c.findPathByXqcId pathId, Releases scheduler c.paths i

instance (scheduler : Scheduler) (c : Client) (s : Step) : Decidable (c.Guarded scheduler s) :=
  decidable_of_iff
    ((∀ start ∈ s.call.connectStart, stateTransitions c.state .connecting = true →
      (c.startConnection s.nowUs start).1 = true → Leads scheduler c.paths c.primaryPathIdx) ∧
      Admits scheduler c.paths (c.opened s) ∧
      ∀ pathId ∈ s.call.removedPath, c.conn.isSome = true →
        ∀ i ∈ c.findPathByXqcId pathId, Releases scheduler c.paths i)
    ⟨fun h => ⟨h.1, h.2.1, h.2.2⟩, fun h => ⟨h.connect, h.opened, h.removed⟩⟩

/-- What holds of a client: its live slots are in use, and in a connection, in which
    the path of the handshake was the first, the rule for backups holds. -/
structure Ruled (scheduler : Scheduler) (c : Client) : Prop where
  settled : ∀ p ∈ c.paths, Settled p
  rule : ∀ k ∈ c.conn, 0 ∈ k.mp.ids ∧ FailoverOnly scheduler c.paths

variable {c d : Client} {k : Conn}

namespace Ruled

theorem keeps (h : c.Ruled scheduler) (hk : KeepsPaths c d) : d.Ruled scheduler := by
  refine ⟨hk.paths ▸ h.settled, fun k' hk' => ?_⟩
  obtain ⟨k, hmem, he⟩ := hk.mp k' hk'
  rw [he, hk.paths]
  exact h.rule k hmem

/-- The slots change, each for itself, and none gets a path. -/
theorem moves (h : c.Ruled scheduler) {paths : List Entry} (hs : ∀ p ∈ paths, Settled p)
    (hm : Moves [] c.paths paths) : ({ c with paths } : Client).Ruled scheduler :=
  ⟨hs, fun k hk => ⟨(h.rule k hk).1, (h.rule k hk).2.moves hm fun _ hp => absurd hp List.not_mem_nil⟩⟩

theorem moves_modify (h : ∀ p ∈ ps, Settled p) {i : Nat} {f : Entry → Entry}
    (hf : ∀ p, Settled p → Evolves False p (f p)) : Moves [] ps (ps.modify i f) := by
  refine moves_of_evolves (fun _ _ => False) (List.length_modify ..) (fun j p q hp hq => ?_) (by simp)
  have hsettled := h p (List.mem_of_getElem? hp)
  rw [List.getElem?_modify, hp] at hq
  cases hq
  split_ifs
  · exact hf p hsettled
  · exact evolves_refl hsettled

theorem modify (h : c.Ruled scheduler) {i : Nat} {f : Entry → Entry}
    (hf : ∀ p, Settled p → Evolves False p (f p)) :
    ({ c with paths := c.paths.modify i f } : Client).Ruled scheduler :=
  h.moves (forall_mem_modify h.settled fun p hp => (hf p hp).settled) (moves_modify h.settled hf)

theorem pathEvent (h : c.Ruled scheduler) (i : Nat) {ev : Event} (hev : ¬Ends ev) (ha : ¬ev.Activates)
    (hv : ev ≠ .validationOk) : (c.pathEvent nowUs i ev).Ruled scheduler :=
  h.modify fun _ hp => evolves_event hp hev ha fun he => absurd he hv

/-- A loop over the slots, in which a slot gets a path if it passes a test and xquic
    grants it. -/
theorem sweep {test : Entry → Prop} [DecidablePred test] {xq : Xquic} {f : Nat → Entry → Mp → Entry × Mp}
    (hf : ∀ i p mp, Settled p → 0 ∈ mp.ids →
      Evolves (test p ∧ xq.result i = .ok) p (f i p mp).1 ∧ 0 ∈ (f i p mp).2.ids)
    (hs : ∀ p ∈ ps, Settled p) {mp : Mp} (h0 : 0 ∈ mp.ids) (hr : FailoverOnly scheduler ps)
    (ha : Admits scheduler ps (granted test xq ps)) :
    (∀ p ∈ (Sweep.sweep f 0 ps mp).1, Settled p) ∧ 0 ∈ (Sweep.sweep f 0 ps mp).2.ids ∧
      FailoverOnly scheduler (Sweep.sweep f 0 ps mp).1 := by
  obtain ⟨hlen, hids, hrel⟩ := Sweep.sweep_rel (f := f) (l := ps) (s := mp) (i := 0)
    (R := fun i p q => Evolves (test p ∧ xq.result i = .ok) p q) (I := fun mp => 0 ∈ mp.ids)
    (fun i p hp mp h0 => hf i p mp (hs p hp) h0) h0
  have hevolves (i : Nat) (p q : Entry) (hp : ps[i]? = some p) (hq : (Sweep.sweep f 0 ps mp).1[i]? = some q) :
      Evolves (test p ∧ xq.result i = .ok) p q := by
    have he := hrel i p q hp hq
    rw [Nat.zero_add] at he
    exact he
  refine ⟨fun q hq => ?_, hids, hr.moves (moves_of_evolves (fun i p => test p ∧ xq.result i = .ok)
    hlen hevolves fun p => mem_granted) ha⟩
  obtain ⟨i, hi⟩ := List.mem_iff_getElem?.1 hq
  have hlt := (List.getElem?_eq_some_iff.1 hi).1
  exact (hevolves i _ q (List.getElem?_eq_getElem (hlen ▸ hlt)) hi).settled

theorem withPaths {r : List Entry × Mp}
    (h : (∀ p ∈ r.1, Settled p) ∧ 0 ∈ r.2.ids ∧ FailoverOnly scheduler r.1) :
    (c.withPaths k r).Ruled scheduler := by
  refine ⟨h.1, fun k' hk' => ?_⟩
  cases hk'
  exact h.2

/-- The table with a slot for a new path, which is not live. -/
theorem moves_addPath {paths : List Entry} (hq : q.xquicPathLive = false) (h : addPath ps q = some paths) :
    Moves [] ps paths := by
  have hkept {p : Entry} (hp : p ∈ ps) (hl : p.xquicPathLive = true) : p ∈ paths := by
    rw [addPath] at h
    split at h
    · rename_i i hi
      cases h
      obtain ⟨hlt, hreusable, -⟩ := List.findIdx?_eq_some_iff_getElem.1 hi
      obtain ⟨j, hj⟩ := List.mem_iff_getElem?.1 hp
      refine List.mem_iff_getElem?.2 ⟨j, ?_⟩
      -- The slot that is used again is not live.
      rw [List.getElem?_set_ne, hj]
      rintro rfl
      rw [List.getElem?_eq_getElem hlt] at hj
      cases hj
      exact absurd ((of_decide_eq_true hreusable).2.2.symm.trans hl) (by simp)
    · split_ifs at h
      cases h
      exact List.mem_append_left _ hp
  refine ⟨fun p hp hl => ⟨p, hkept hp hl, hl, .rfl⟩, fun _ hp => absurd hp List.not_mem_nil, fun p hp hl => ?_⟩
  rcases mem_addPath h hp with rfl | hp
  · exact absurd (hq.symm.trans hl) (by simp)
  · exact .inl ⟨p, hp, hl, .rfl, rfl, id⟩

theorem addPathFd (h : c.Ruled scheduler) (fd : Int) (desc : Option Desc) (xq : Xquic)
    (hg : Admits scheduler c.paths (c.opened ⟨nowUs, .addPathFd fd desc xq⟩)) :
    (c.addPathFd nowUs fd desc xq).Ruled scheduler := by
  rw [Client.addPathFd]
  split_ifs with hfd
  · exact h
  · split
    · exact h
    · rename_i paths hpaths
      have hnew := (newPath_eq nowUs c.nextPathHandle fd desc (Int.not_lt.1 hfd)).2.1
      have hmoves := moves_addPath hnew hpaths
      have hsettled : ∀ p ∈ paths, Settled p := by
        intro p hp
        rcases mem_addPath hpaths hp with rfl | hp
        · exact settled_of_not_live hnew
        · exact h.settled p hp
      have hadded : ({ c with paths, nextPathHandle := c.nextPathHandle + 1 } : Client).Ruled scheduler :=
        ⟨hsettled, (h.moves hsettled hmoves).rule⟩
      dsimp only
      split
      · rename_i k hk
        split_ifs with hmp
        · rw [opened] at hg
          dsimp only at hg
          rw [if_pos ⟨Int.not_lt.1 hfd, by rw [hk]; rfl, hmp⟩, hpaths] at hg
          obtain ⟨h0, hrule⟩ := hadded.rule k hk
          exact withPaths (sweep (fun i p mp hp h0 => evolves_pending hp xq i h0) hsettled h0 hrule
            (hg.moves hmoves))
        · exact hadded
      · exact hadded

theorem setPathWeight (h : c.Ruled scheduler) (handle : Int) (weight : Nat) :
    (c.setPathWeight handle weight).Ruled scheduler := by
  rw [Client.setPathWeight]
  split
  · exact h
  · rename_i i _
    have hset : ({ c with paths := c.paths.modify i fun p => { p with weight } } : Client).Ruled scheduler :=
      h.modify fun p hp => .of_same hp rfl rfl rfl rfl rfl
    dsimp only
    split
    · rename_i k p hk hp
      split_ifs
      · refine ⟨hset.settled, fun k' hk' => ?_⟩
        cases hk'
        exact hset.rule k hk
      · exact hset
    · exact hset

theorem removePath (h : c.Ruled scheduler) (handle : Int) (closed : Bool) :
    (c.removePath nowUs handle closed).Ruled scheduler := by
  rw [Client.removePath]
  split
  · exact h
  · split
    · exact h
    · split_ifs
      · exact h
      · refine Ruled.pathEvent ?_ _ id id (by simp)
        split_ifs
        · refine h.keeps ⟨rfl, fun k' hk' => ?_, id⟩
          obtain ⟨k, hk, rfl⟩ := Option.map_eq_some_iff.1 hk'
          exact ⟨k, hk, rfl⟩
        · exact h

theorem reactivatePath (h : c.Ruled scheduler) (handle : Int) (xq : Xquic)
    (hg : Admits scheduler c.paths (c.opened ⟨nowUs, .reactivatePath handle xq⟩)) :
    (c.reactivatePath nowUs handle xq).Ruled scheduler := by
  rw [Client.reactivatePath]
  split_ifs with hguard
  · exact h
  · split
    · rename_i i k hi hk
      split
      · exact h
      · rename_i p hp
        split_ifs with hel
        · rw [not_or, not_not, Bool.not_eq_false] at hguard
          rw [opened] at hg
          dsimp only at hg
          rw [if_pos ⟨hguard.1, hguard.2, by rw [hk]; rfl⟩, hi] at hg
          dsimp only at hg
          obtain ⟨h0, hrule⟩ := h.rule k hk
          have htakes : Takes .manualReactivate p := by
            rcases hel.2.2 with hs | hs | hs
            exacts [.inr (.inr hs), .inr (.inl hs), .inl hs]
          have he : Evolves (xq.result i = .ok) p (reactivate nowUs xq i p k.mp).1 :=
            evolves_activation .manualReactivate (h.settled p (List.mem_of_getElem? hp)) htakes xq i h0
          refine withPaths ⟨fun q hq => ?_, zero_mem_activateViaXquicClassify xq i h0, hrule.moves ?_ hg⟩
          · rcases List.mem_or_eq_of_mem_set hq with hq | rfl
            · exact h.settled q hq
            · exact he.settled
          · refine moves_of_evolves (fun j _ => j = i ∧ xq.result i = .ok) List.length_set
              (fun j p' q hp' hq => ?_) fun p' => ?_
            · by_cases hj : i = j
              · subst hj
                cases hp.symm.trans hp'
                rw [List.getElem?_set_self (List.getElem?_eq_some_iff.1 hp).1] at hq
                cases hq
                exact he.congr (and_iff_right rfl).symm
              · rw [List.getElem?_set_ne hj] at hq
                cases hp'.symm.trans hq
                exact (evolves_refl (h.settled _ (List.mem_of_getElem? hp'))).congr
                  ⟨False.elim, fun hg => hj hg.1.symm⟩
            · rw [hp]
              split_ifs with hok
              · simp [hok, hp, hel, eq_comm]
              · simp [hok]
        · exact h
    · exact h

theorem tickPathRecovery (h : c.Ruled scheduler) (validated : Nat → Bool) (xq : Xquic)
    (hg : Admits scheduler c.paths (c.opened ⟨nowUs, .tickPathRecovery validated xq⟩)) :
    (c.tickPathRecovery nowUs validated xq).Ruled scheduler := by
  rw [Client.tickPathRecovery]
  split_ifs with hguard
  · exact h
  · split
    · exact h
    · rename_i k hk
      rw [not_or, not_not, Bool.not_eq_false] at hguard
      rw [opened] at hg
      dsimp only at hg
      rw [if_pos ⟨hguard.1, hguard.2, by rw [hk]; rfl⟩] at hg
      obtain ⟨h0, hrule⟩ := h.rule k hk
      have hrecover {ps : List Entry} (hs : ∀ p ∈ ps, Settled p) (hr : FailoverOnly scheduler ps)
          (ha : Admits scheduler ps (granted (RetryDue · nowUs) xq ps)) :
          (c.withPaths k (recoverPaths nowUs xq ps k.mp)).Ruled scheduler :=
        withPaths (sweep (fun i p mp hp h0 => evolves_recoverPath hp xq i h0) hs h0 hr ha)
      obtain ⟨target, ht, he⟩ := checkAllValidations_cases nowUs c validated
      rcases he with he | he
      · rw [he]
        have hcheck (p : Entry) (hp : p ∈ c.paths) : Evolves False p (checkValidation nowUs target validated p) :=
          evolves_checkValidation (h.settled p hp) ht validated
        have hsettled : ∀ p ∈ c.paths.map (checkValidation nowUs target validated), Settled p := by
          intro q hq
          obtain ⟨p, hp, rfl⟩ := List.mem_map.1 hq
          exact (hcheck p hp).settled
        have hmoves : Moves [] c.paths (c.paths.map (checkValidation nowUs target validated)) := by
          refine moves_of_evolves (fun _ _ => False) (List.length_map _) (fun i p q hp hq => ?_) (by simp)
          rw [List.getElem?_map, hp] at hq
          cases hq
          exact hcheck p (List.mem_of_getElem? hp)
        refine hrecover hsettled (hrule.moves hmoves fun _ hp => absurd hp List.not_mem_nil)
          ((hg.moves hmoves).of_mem fun p => ?_)
        rw [mem_granted, mem_granted]
        -- A retry is due for the same slots as before the check.
        refine exists_congr fun i => ?_
        constructor
        · rintro ⟨hi, hdue, hok⟩
          rw [List.getElem?_map] at hi
          obtain ⟨p', hp', rfl⟩ := Option.map_eq_some_iff.1 hi
          have hsame := retryDue_checkValidation ht validated hdue
          rw [hsame] at hdue ⊢
          exact ⟨hp', hdue, hok⟩
        · rintro ⟨hi, hdue, hok⟩
          refine ⟨?_, hdue, hok⟩
          have hs : p.state ≠ .validating := by
            rcases hdue.1 with hs | hs <;> simp [hs]
          rw [List.getElem?_map, hi, Option.map_some, checkValidation, if_pos hs]
      · rw [he]
        exact hrecover h.settled hrule hg

theorem readyToCreatePath (h : c.Ruled scheduler) (hk : c.conn = some k) (xq : Xquic)
    (hg : Admits scheduler c.paths (c.opened ⟨nowUs, .readyToCreatePath xq⟩)) :
    (c.cbReadyToCreatePath k nowUs xq).Ruled scheduler := by
  rw [cbReadyToCreatePath]
  dsimp only
  split_ifs with hmp
  · rw [opened] at hg
    dsimp only at hg
    rw [if_pos ⟨by rw [hk]; rfl, hmp⟩] at hg
    obtain ⟨h0, hrule⟩ := h.rule k hk
    exact withPaths (sweep (fun i p mp hp h0 => evolves_pending hp xq i h0) h.settled h0 hrule hg)
  · exact ⟨h.settled, h.rule⟩

theorem requestBody (h : c.Ruled scheduler) (hk : c.conn = some k) (capsules : List Capsule) (buffered : Bool) :
    (c.connectIpOnBody k nowUs capsules buffered).Ruled scheduler := by
  rcases keepsPaths_connectIpOnBody nowUs hk capsules buffered with hkeep | hkeep
  · exact h.keeps hkeep
  · exact Ruled.keeps (h.modify fun _ hp => evolves_validatePrimary hp) hkeep

theorem pathRemoved (h : c.Ruled scheduler) (pathId : Nat)
    (hg : c.conn.isSome = true → ∀ i ∈ c.findPathByXqcId pathId, Releases scheduler c.paths i) :
    (c.cbPathRemoved nowUs pathId).Ruled scheduler := by
  rw [cbPathRemoved]
  split
  · exact h
  · rename_i i hi
    obtain ⟨hlt, hfound, -⟩ := List.findIdx?_eq_some_iff_getElem.1 hi
    refine ⟨forall_mem_modify h.settled fun p hp =>
      settled_of_change (Entry.change_onEvent ..) hp (by simp), fun k hk => ?_⟩
    refine ⟨(h.rule k hk).1, (h.rule k hk).2.removed (fun p hp => ?_) (hg (by rw [show c.conn = some k from hk]; rfl) i hi)⟩
    rw [List.getElem?_eq_getElem hlt] at hp
    cases hp
    exact not_live_xquicRemoved (h.settled _ (List.getElem_mem hlt)) (of_decide_eq_true hfound).1

theorem start {connId : Nat} (hk : k.Fresh) (hs : ∀ p ∈ c.paths, Settled p)
    (hl : Leads scheduler c.paths c.primaryPathIdx) :
    (({ c with connId, paths := c.paths.modify c.primaryPathIdx (bootstrap nowUs), conn := some k }
      : Client).setState nowUs .connecting).Ruled scheduler := by
  obtain ⟨dgramMss, reorderTx, rfl⟩ := hk
  refine ⟨?_, fun k' hk' => ?_⟩
  · rw [paths_setState]
    exact forall_mem_modify hs fun p _ _ => .inl (Entry.state_enter ..)
  · rw [conn_setState] at hk'
    rw [paths_setState]
    cases hk'
    exact ⟨List.mem_singleton_self 0, FailoverOnly.bootstrap hl⟩

theorem connect (h : c.Ruled scheduler) {start : Start} (hg : c.Guarded scheduler ⟨nowUs, .connect start⟩) :
    (c.connect nowUs start).Ruled scheduler := by
  rw [Client.connect]
  split_ifs with hvalid
  · exact h
  · rcases startConnection_cases nowUs c start with he | ⟨-, k, hk, he⟩
    · rw [he]
      exact ⟨h.settled, h.rule⟩
    · have hleads := hg.connect start rfl (by simpa using hvalid) (by rw [he])
      rw [he]
      exact Ruled.start hk h.settled hleads

/-- A reconnect starts with slots that are not live. -/
theorem tickReconnect (h : c.Ruled scheduler) (start : Start) :
    (c.tickReconnect nowUs start).Ruled scheduler := by
  rw [Client.tickReconnect]
  split_ifs
  · exact h
  · exact h
  · have hunbound (p : Entry) (hp : p ∈ (c.prepareReconnect nowUs).paths) : p.xquicPathLive = false := by
      obtain ⟨p, -, rfl⟩ := List.mem_map.1 hp
      exact (resetPathRuntime_eq p).1
    have hsettled : ∀ p ∈ (c.prepareReconnect nowUs).paths, Settled p := fun p hp =>
      settled_of_not_live (hunbound p hp)
    rcases startConnection_cases nowUs (c.prepareReconnect nowUs) start with he | ⟨-, k, hk, he⟩
    · rw [he]
      exact ⟨hsettled, fun k hk => ⟨(h.rule k hk).1, FailoverOnly.of_not_live hunbound⟩⟩
    · rw [he]
      refine Ruled.start hk hsettled fun q hq hl => ?_
      exact absurd ((hunbound q (List.mem_of_mem_eraseIdx hq)).symm.trans hl) (by simp)

end Ruled

theorem ruled_step (h : c.Ruled scheduler) {s : Step} (hg : c.Guarded scheduler s) :
    (c.step s).Ruled scheduler := by
  obtain ⟨nowUs, call⟩ := s
  have hcallback {f : Conn → Client} (hf : ∀ k, c.conn = some k → (f k).Ruled scheduler) :
      (c.callback f).Ruled scheduler := by
    rw [callback]
    split
    · rename_i k hk
      exact hf k hk
    · exact h
  cases call with
  | connect start => exact h.connect hg
  | addPathFd fd desc xq => exact h.addPathFd fd desc xq hg.opened
  | setPathWeight handle weight => exact h.setPathWeight handle weight
  | removePath handle closed => exact h.removePath handle closed
  | onPlatformPathDropped handle =>
    change (c.onPlatformPathDropped nowUs handle).Ruled scheduler
    rw [onPlatformPathDropped]
    split
    · exact h
    · exact h.pathEvent _ id id (by simp)
  | onPlatformFdClosed handle =>
    change (c.onPlatformFdClosed nowUs handle).Ruled scheduler
    rw [onPlatformFdClosed]
    split
    · exact h
    · exact h.pathEvent _ id id (by simp)
  | reactivatePath handle xq => exact h.reactivatePath handle xq hg.opened
  | tickPathRecovery validated xq => exact h.tickPathRecovery validated xq hg.opened
  | tickReconnect start => exact h.tickReconnect start
  | requestBody capsules buffered => exact hcallback fun k hk => h.requestBody hk capsules buffered
  | readyToCreatePath xq => exact hcallback fun k hk => h.readyToCreatePath hk xq hg.opened
  | pathRemoved pathId => exact hcallback fun k _ => h.pathRemoved pathId (hg.removed pathId rfl)
  | _ => exact h.keeps (keepsPaths_step trivial)

/-! ## Runs -/

theorem ruled_run (cfg : Client.Config) (scheduler : Scheduler) {steps : List Step}
    (h : Along step (Guarded scheduler) (init (cfg.withScheduler scheduler)) steps) :
    ((init (cfg.withScheduler scheduler)).run steps).Ruled scheduler :=
  foldl_of_along (J := Ruled scheduler) (fun _ _ hc hg => ruled_step hc hg)
    ⟨fun _ hp => absurd hp List.not_mem_nil, fun _ hk => absurd hk (by simp [init])⟩ h

/-- With every scheduler, the backup paths of a connection are for failover only, in
    every run in which no step leads out of it. -/
theorem failoverOnly_run (cfg : Client.Config) (scheduler : Scheduler) {steps : List Step}
    (h : Along step (Guarded scheduler) (init (cfg.withScheduler scheduler)) steps)
    (hk : ((init (cfg.withScheduler scheduler)).run steps).conn.isSome = true) :
    FailoverOnly scheduler ((init (cfg.withScheduler scheduler)).run steps).paths := by
  obtain ⟨k, hk⟩ := Option.isSome_iff_exists.1 hk
  exact ((ruled_run cfg scheduler h).rule k hk).2

/-- A second path, a backup, is added to a tunnel that is set up. -/
def backupUp : List Step :=
  sampleSetUp ++ [⟨6, .setTunActive true⟩, ⟨7, .readyToCreatePath sampleXquic⟩,
    ⟨8, .addPathFd 4 (some { flags := flagBackup, weight := 0 }) sampleXquic⟩]

theorem failoverOnly_run_sample :
    (∃ p ∈ ((init (sampleConfig.withScheduler .backupFec)).run backupUp).paths,
      p.xquicPathLive = true ∧ Backup p ∧ Standby .backupFec p) ∧
    FailoverOnly .backupFec ((init (sampleConfig.withScheduler .backupFec)).run backupUp).paths :=
  ⟨by decide, failoverOnly_run sampleConfig .backupFec (by decide) (by decide)⟩

/-- Under the default scheduler, the backup path is in use beside the other. Under
    backup_fec, it is still in standby when the other is gone. -/
theorem not_failoverOnly :
    (((init (sampleConfig.withScheduler .minrtt)).run backupUp).conn.isSome = true ∧
      ¬FailoverOnly .minrtt ((init (sampleConfig.withScheduler .minrtt)).run backupUp).paths) ∧
    ((init (sampleConfig.withScheduler .backupFec)).run (backupUp ++ [⟨9, .pathRemoved 0⟩])).conn.isSome = true ∧
      ¬FailoverOnly .backupFec
        ((init (sampleConfig.withScheduler .backupFec)).run (backupUp ++ [⟨9, .pathRemoved 0⟩])).paths := by
  refine ⟨⟨by decide, fun h => ?_⟩, by decide, fun h => ?_⟩
  · exact absurd h.standby (by decide)
  · exact absurd h.available (by decide)

end Mqvpn.Client
