import Mqvpn.Client.Table
import Mqvpn.Path.Lifecycle
import Mqvpn.Path.Rotation

/-!
# One slot of the table

What the operations of the path table do to a slot, with respect to the lifecycle
invariant and to the xquic path that the slot is bound to: they keep the former,
and a slot that is live afterwards has kept its path or has got one that is new in
the connection (`SlotOk`).
-/

namespace Mqvpn.Path

variable {clockUs : Nat} {ctx : Ctx} {ev : Event} {p q : Entry}

/-- The event may bind a slot to an xquic path. -/
def Event.Activates : Event → Prop
  | .activateRequested | .retryTimer | .manualReactivate => True
  | .validationOk | .xquicRemoved | .platformDrop | .removeApi | .addFd | .connReset | .fdClosed => False

/-- A slot is live because it was, with the same path, or because it was just
    activated. -/
theorem Change.live (hc : Change clockUs ctx ev p q) (h : q.xquicPathLive = true) :
    (p.xquicPathLive = true ∧ q.xqcPathId = p.xqcPathId) ∨
      (ev.Activates ∧ ctx.result = .ok ∧ q.xqcPathId = ctx.newXqcPathId) := by
  have hfree {r : Entry} (hr : (r.maybeTransitionDroppedToFree clockUs).1.xquicPathLive = true) :
      r.xquicPathLive = true ∧ (r.maybeTransitionDroppedToFree clockUs).1.xqcPathId = r.xqcPathId := by
    rw [Entry.maybeTransitionDroppedToFree_eq] at hr ⊢
    split_ifs at hr ⊢ with hdropped
    · simpa using hr
    · exact ⟨hr, rfl⟩
  cases hc with
  | ignored => exact .inl ⟨h, rfl⟩
  | activated hok _ hev =>
    refine .inr ⟨?_, hok, by simp⟩
    rcases hev with rfl | rfl | rfl <;> trivial
  | retry => simp [Entry.failed, Entry.unbound] at h
  | exhausted => simp [Entry.failed, Entry.unbound] at h
  | refused => simp [Entry.unbound] at h
  | validated => exact .inl (by simpa using h)
  | dropped => exact .inl (by simpa using h)
  | attached => exact .inl (by simpa using h)
  | reset => simp [Entry.renewed, Entry.unbound] at h
  | resetDetached => exact absurd (hfree h).1 (by simp [Entry.renewed, Entry.unbound])
  | removed => exact absurd (hfree h).1 (by simp [Entry.unbound])
  | fdClosed => exact .inl (hfree h)

/-- The weight of a slot is not that of its state. -/
theorem Change.weight_eq (hc : Change clockUs ctx ev p q) : q.weight = p.weight := by
  have hfree (r : Entry) : (r.maybeTransitionDroppedToFree clockUs).1.weight = r.weight := by
    rw [Entry.maybeTransitionDroppedToFree_eq]
    split_ifs
    · exact Entry.weight_enter ..
    · rfl
  cases hc with
  | ignored => rfl
  | resetDetached => exact hfree _
  | removed => exact hfree _
  | fdClosed => exact hfree _
  | _ => exact Entry.weight_enter ..

end Mqvpn.Path

namespace Mqvpn.Client

open Mqvpn.Path

/-- A slot keeps its invariant, and what it is bound to is an old path of its own
    or a new path of the connection; `ids` and `ids'` are the paths of the
    connection before and after. -/
structure SlotOk (p q : Entry) (ids ids' : List Nat) : Prop where
  check : p.Check → q.Check
  subset : ids ⊆ ids'
  live : q.xquicPathLive = true →
    (p.xquicPathLive = true ∧ q.xqcPathId = p.xqcPathId) ∨ (q.xqcPathId ∉ ids ∧ q.xqcPathId ∈ ids')

variable {p q : Entry} {nowUs : Nat}

namespace SlotOk

variable {ids ids' ids'' : List Nat}

theorem trans {r : Entry} (h : SlotOk p q ids ids') (h' : SlotOk q r ids' ids'') : SlotOk p r ids ids'' := by
  refine ⟨fun hc => h'.check (h.check hc), fun _ hx => h'.subset (h.subset hx), fun hr => ?_⟩
  rcases h'.live hr with ⟨hq, he⟩ | ⟨hnew, hmem⟩
  · rw [he]
    exact (h.live hq).imp_right fun hid => ⟨hid.1, h'.subset hid.2⟩
  · exact .inr ⟨fun hx => hnew (h.subset hx), hmem⟩

/-- The change is not about the path of the slot. -/
theorem of_same (hc : p.Check → q.Check) (hl : q.xquicPathLive = p.xquicPathLive)
    (hid : q.xqcPathId = p.xqcPathId) : SlotOk p q ids ids :=
  ⟨hc, fun _ hx => hx, fun h => .inl ⟨hl ▸ h, hid⟩⟩

theorem of_not_live (hc : q.Check) (hl : q.xquicPathLive = false) : SlotOk p q ids ids :=
  ⟨fun _ => hc, fun _ hx => hx, fun h => by rw [hl] at h; cases h⟩

end SlotOk

/-- The clock is away from its ends. -/
def Timely (nowUs : Nat) : Prop := 0 < nowUs ∧ nowUs + recreateMaxDelayUs < 2 ^ 64

instance (nowUs : Nat) : Decidable (Timely nowUs) := inferInstanceAs (Decidable (_ ∧ _))

theorem Timely.guaranteed (h : Timely nowUs) {ctx : Ctx} {ev : Event} (hn : ctx.nowUs = nowUs)
    (ht : ev = .validationOk → ctx.validatedTarget = .active ∨ ctx.validatedTarget = .standby) :
    ctx.Guaranteed ev :=
  ⟨ht, hn ▸ h.1, hn ▸ h.2⟩

/-! ## Events -/

/-- An event that binds no path. -/
theorem slotOk_event {ctx : Ctx} {ev : Event} (hg : ctx.Guaranteed ev)
    (hev : ¬ev.Activates) (hadd : ev ≠ .addFd) (ids : List Nat) :
    SlotOk p (p.onEvent nowUs ev (some ctx)).1 ids ids where
  check hc := (Entry.change_onEvent p nowUs ev ctx).check hg hadd hc
  subset _ hx := hx
  live hl := .inl (((Entry.change_onEvent p nowUs ev ctx).live hl).resolve_right fun ha => hev ha.1)

/-- An event that may bind the path that xquic grants. -/
theorem slotOk_activation (h : Timely nowUs) (ev : Event) (hev : ev.Activates) (xq : Xquic) (i : Nat)
    (mp : Mp) :
    SlotOk p (p.onEvent nowUs ev (some
      { result := (activateViaXquicClassify xq i mp).1
        newXqcPathId := (activateViaXquicClassify xq i mp).2.1
        nowUs })).1 mp.ids (activateViaXquicClassify xq i mp).2.2.ids := by
  have hne : ev ≠ .addFd ∧ ev ≠ .validationOk := by
    constructor <;> rintro rfl <;> exact hev
  have hcheck (ctx : Ctx) (hn : ctx.nowUs = nowUs) (hc : p.Check) :
      (p.onEvent nowUs ev (some ctx)).1.Check :=
    (Entry.change_onEvent p nowUs ev ctx).check (h.guaranteed hn fun hv => absurd hv hne.2) hne.1 hc
  refine ⟨hcheck _ rfl, ?_, fun hl => ?_⟩
  · rw [activateViaXquicClassify]
    split
    · exact List.subset_cons_self ..
    · exact fun _ hx => hx
    · exact fun _ hx => hx
  · refine ((Entry.change_onEvent p nowUs ev _).live hl).imp_right ?_
    rintro ⟨-, hok, hid⟩
    rw [hid]
    change (activateViaXquicClassify xq i mp).1 = .ok at hok
    rw [activateViaXquicClassify] at hok ⊢
    split at hok
    · exact ⟨xq.newId_notMem i mp.ids, List.mem_cons_self⟩
    · cases hok
    · cases hok

/-! ## Operations -/

theorem slotOk_activatePath (h : Timely nowUs) (xq : Xquic) (i : Nat) (p : Entry) (mp : Mp) :
    SlotOk p (activatePath nowUs xq i p mp).1 mp.ids (activatePath nowUs xq i p mp).2.ids := by
  rw [activatePath]
  split_ifs
  · exact .of_same id rfl rfl
  · have hact := slotOk_activation (p := p) h .activateRequested trivial xq i mp
    dsimp only
    split_ifs
    · exact hact
    · exact hact

theorem slotOk_driveRetryTimer (h : Timely nowUs) (xq : Xquic) (i : Nat) (p : Entry) (mp : Mp) :
    SlotOk p (driveRetryTimer nowUs xq i p mp).1 mp.ids (driveRetryTimer nowUs xq i p mp).2.ids := by
  rw [driveRetryTimer]
  split_ifs
  · exact slotOk_activation h .retryTimer trivial xq i mp
  · exact .of_same id rfl rfl

theorem slotOk_reactivate (h : Timely nowUs) (xq : Xquic) (i : Nat) (p : Entry) (mp : Mp) :
    SlotOk p (reactivate nowUs xq i p mp).1 mp.ids (reactivate nowUs xq i p mp).2.ids :=
  slotOk_activation h .manualReactivate trivial xq i mp

/-- A field that no assertion is about. -/
theorem check_lastResidenceWarnAtUs (h : p.Check) (us : Nat) :
    ({ p with lastResidenceWarnAtUs := us } : Entry).Check :=
  ⟨h.status, by
    have hf := h.fields
    change p.state.Fields { p with lastResidenceWarnAtUs := us }
    cases hs : p.state <;> rw [hs] at hf <;> exact hf⟩

theorem check_weight (h : p.Check) (weight : Nat) : ({ p with weight } : Entry).Check :=
  ⟨h.status, by
    have hf := h.fields
    change p.state.Fields { p with weight }
    cases hs : p.state <;> rw [hs] at hf <;> exact hf⟩

theorem slotOk_residenceCheck (p : Entry) (ids : List Nat) : SlotOk p (residenceCheck nowUs p) ids ids := by
  rw [residenceCheck]
  split_ifs
  · exact .of_same (fun h => check_lastResidenceWarnAtUs h nowUs) rfl rfl
  · exact .of_same id rfl rfl

theorem slotOk_tickConfirmStable (p : Entry) (ids : List Nat) :
    SlotOk p (p.tickConfirmStable nowUs) ids ids := by
  refine .of_same (fun h => h.tickConfirmStable nowUs) ?_ ?_
  · rw [Entry.tickConfirmStable]
    split_ifs <;> rfl
  · rw [Entry.tickConfirmStable]
    split_ifs <;> rfl

theorem slotOk_recoverPath (h : Timely nowUs) (xq : Xquic) (i : Nat) (p : Entry) (mp : Mp) :
    SlotOk p (recoverPath nowUs xq i p mp).1 mp.ids (recoverPath nowUs xq i p mp).2.ids :=
  ((slotOk_residenceCheck p mp.ids).trans (slotOk_driveRetryTimer h xq i _ mp)).trans
    (slotOk_tickConfirmStable _ _)

theorem slotOk_checkValidation (h : Timely nowUs) {target : Lifecycle}
    (ht : target = .active ∨ target = .standby) (validated : Nat → Bool) (p : Entry) (ids : List Nat) :
    SlotOk p (checkValidation nowUs target validated p) ids ids := by
  rw [checkValidation]
  split_ifs
  · exact .of_same id rfl rfl
  · exact slotOk_event (h.guaranteed rfl fun _ => ht) id (by simp) ids
  · exact .of_same id rfl rfl

/-! ## New connections -/

/-- A reset slot has no path, and no retry is due. -/
theorem resetPathRuntime_eq (p : Entry) :
    (resetPathRuntime nowUs p).xquicPathLive = false ∧ (resetPathRuntime nowUs p).recreateAfterUs = 0 := by
  rw [resetPathRuntime, Entry.onEvent_some, Entry.dispatch, Entry.onConnReset]
  dsimp only
  split_ifs
  · exact ⟨Entry.xquicPathLive_enter .., Entry.recreateAfterUs_enter ..⟩
  · rw [Entry.maybeTransitionDroppedToFree_eq]
    split_ifs
    · exact ⟨Entry.xquicPathLive_enter .., Entry.recreateAfterUs_enter ..⟩
    · exact ⟨rfl, rfl⟩

theorem check_resetPathRuntime (h : Timely nowUs) (hc : p.Check) : (resetPathRuntime nowUs p).Check :=
  (Entry.change_onEvent _ nowUs .connReset { nowUs }).check (h.guaranteed rfl (by simp)) (by simp)
    (check_lastResidenceWarnAtUs hc 0)

/-- The slot of the handshake, if it is ready and no retry is due. -/
theorem check_bootstrap (hc : p.Check) (hready : p.Ready) (hretry : p.recreateAfterUs = 0) :
    (bootstrap nowUs p).Check :=
  Entry.check_enter hc.status ⟨hready.1, rfl, hready.2, hretry⟩

theorem bootstrap_eq (p : Entry) :
    (bootstrap nowUs p).xquicPathLive = true ∧ (bootstrap nowUs p).xqcPathId = 0 :=
  ⟨Entry.xquicPathLive_enter .., Entry.xqcPathId_enter ..⟩

/-- A slot of a new path is pending. -/
theorem newPath_eq (nowUs : Nat) (handle fd : Int) (desc : Option Desc) (hfd : 0 ≤ fd) :
    (newPath nowUs handle fd desc).Check ∧ (newPath nowUs handle fd desc).xquicPathLive = false ∧
      (newPath nowUs handle fd desc).recreateAfterUs = 0 := by
  have hinit (flags : UInt32) (weight : Nat) :
      let p := (({ entryInit with handle, fd, flags, weight } : Entry).onEvent nowUs .addFd (some { nowUs })).1
      p.Check ∧ p.xquicPathLive = false ∧ p.recreateAfterUs = 0 := by
    have hc : ({ entryInit with handle, flags, weight } : Entry).Check :=
      ⟨rfl, rfl, rfl, Int.negSucc_lt_zero 0, rfl, rfl, rfl⟩
    exact ⟨hc.addFd hfd nowUs { nowUs }, rfl, rfl⟩
  cases desc with
  | none => exact hinit 0 0
  | some d => exact hinit d.flags d.weight

/-! ## Tables of slots -/

theorem mem_addPath {paths l : List Entry} {p q : Entry} (h : addPath paths q = some l) (hp : p ∈ l) :
    p = q ∨ p ∈ paths := by
  rw [addPath] at h
  split at h
  · cases h
    exact (List.mem_or_eq_of_mem_set hp).symm
  · split_ifs at h
    cases h
    rcases List.mem_append.1 hp with hp | hp
    · exact .inr hp
    · exact .inl (List.mem_singleton.1 hp)

theorem forall_mem_modify {P : Entry → Prop} {paths : List Entry} {i : Nat} {f : Entry → Entry}
    (h : ∀ p ∈ paths, P p) (hf : ∀ p, P p → P (f p)) : ∀ p ∈ paths.modify i f, P p := by
  intro q hq
  obtain ⟨j, hj⟩ := List.mem_iff_getElem?.1 hq
  rw [List.getElem?_modify] at hj
  obtain ⟨p, hp, rfl⟩ := Option.map_eq_some_iff.1 hj
  have := h p (List.mem_of_getElem? hp)
  split_ifs
  · exact hf p this
  · exact this

end Mqvpn.Client
