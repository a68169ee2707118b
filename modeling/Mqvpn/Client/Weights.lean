import Mqvpn.Client.Frame
import Mqvpn.Client.Slots
import Mqvpn.Lib.Runs

/-!
# The weights of paths

A slot keeps the weight that the user gave it, and xquic is to hear of it for each
xquic path that the slot is bound to (`Installed`). A slot gets a path in four
places of the client: the first activation tells xquic the weight; the retry timer,
the manual reactivation and the bootstrap of the primary path do not
(`not_installed`).

The weights are installed in the runs in which the slots of these three places
(`untold`) have no weight (`installed_run`).
-/

namespace Mqvpn.Client

open Mqvpn.Path Runs

/-! ## Slots -/

/-- xquic was told the weight of a slot for the path of the slot; `weights` are the
    calls of `xqc_conn_set_path_weight` on the connection. -/
def Told (weights : List (Nat × Nat)) (p : Entry) : Prop :=
  0 < p.weight → p.xquicPathLive = true → (p.xqcPathId, p.weight) ∈ weights

instance (weights : List (Nat × Nat)) (p : Entry) : Decidable (Told weights p) :=
  inferInstanceAs (Decidable (_ → _ → _))

/-- A slot changes, and xquic is told what it has to know about it; it does not
    forget what it was told before. -/
structure Tells (p q : Entry) (weights weights' : List (Nat × Nat)) : Prop where
  subset : weights ⊆ weights'
  told : Told weights p → Told weights' q

variable {p q : Entry} {nowUs : Nat} {weights weights' : List (Nat × Nat)}

theorem Told.mono (h : Told weights p) (hs : weights ⊆ weights') : Told weights' p :=
  fun hw hl => hs (h hw hl)

theorem told_of_not_live (hl : p.xquicPathLive = false) : Told weights p := by
  intro _ hlive
  rw [hl] at hlive
  cases hlive

namespace Tells

theorem trans {r : Entry} {weights'' : List (Nat × Nat)} (h : Tells p q weights weights')
    (h' : Tells q r weights' weights'') : Tells p r weights weights'' :=
  ⟨fun _ hx => h'.subset (h.subset hx), fun hp => h'.told (h.told hp)⟩

/-- The change is neither about the path of the slot nor about its weight. -/
theorem of_same (hw : q.weight = p.weight) (hl : q.xquicPathLive = p.xquicPathLive)
    (hid : q.xqcPathId = p.xqcPathId) : Tells p q weights weights := by
  refine ⟨fun _ hx => hx, fun h hq hlive => ?_⟩
  rw [hw] at hq ⊢
  rw [hid]
  exact h hq (hl ▸ hlive)

end Tells

/-- An event that binds no path. -/
theorem tells_event {ctx : Ctx} {ev : Event} (hev : ¬ev.Activates) (weights : List (Nat × Nat)) :
    Tells p (p.onEvent nowUs ev (some ctx)).1 weights weights := by
  have hc := Entry.change_onEvent p nowUs ev ctx
  refine ⟨fun _ hx => hx, fun h hw hl => ?_⟩
  rw [hc.weight_eq] at hw ⊢
  rcases hc.live hl with ⟨hp, hid⟩ | ⟨ha, -⟩
  · rw [hid]
    exact h hw hp
  · exact absurd ha hev

theorem weights_activateViaXquicClassify (xq : Xquic) (i : Nat) (mp : Mp) :
    (activateViaXquicClassify xq i mp).2.2.weights = mp.weights := by
  rw [activateViaXquicClassify]
  split <;> rfl

theorem result_activateViaXquicClassify (xq : Xquic) (i : Nat) (mp : Mp) :
    (activateViaXquicClassify xq i mp).1 = xq.result i := by
  rw [activateViaXquicClassify]
  split <;> (rename_i h; exact h.symm)

/-- An event that may bind a path, where xquic is not told the weight: there must
    be none, or no path. -/
theorem tells_activation (ev : Event) (xq : Xquic) (i : Nat) (mp : Mp)
    (hw : xq.result i = .ok → p.weight = 0) :
    Tells p (p.onEvent nowUs ev (some
      { result := (activateViaXquicClassify xq i mp).1
        newXqcPathId := (activateViaXquicClassify xq i mp).2.1
        nowUs })).1 mp.weights (activateViaXquicClassify xq i mp).2.2.weights := by
  rw [weights_activateViaXquicClassify]
  refine ⟨fun _ hx => hx, fun h hpos hl => ?_⟩
  have hc := Entry.change_onEvent p nowUs ev
    { result := (activateViaXquicClassify xq i mp).1
      newXqcPathId := (activateViaXquicClassify xq i mp).2.1
      nowUs }
  rw [hc.weight_eq] at hpos ⊢
  rcases hc.live hl with ⟨hp, hid⟩ | ⟨-, hok, -⟩
  · rw [hid]
    exact h hpos hp
  · rw [hw ((result_activateViaXquicClassify xq i mp).symm.trans hok)] at hpos
    cases hpos

/-- The first activation tells xquic the weight. -/
theorem tells_activatePath (xq : Xquic) (i : Nat) (p : Entry) (mp : Mp) :
    Tells p (activatePath nowUs xq i p mp).1 mp.weights (activatePath nowUs xq i p mp).2.weights := by
  rw [activatePath]
  split_ifs with hlive
  · exact .of_same rfl rfl rfl
  · dsimp only
    split_ifs with hok
    · refine ⟨fun _ hx => ?_, fun _ hpos hl => ?_⟩
      · rw [Mp.setPathWeight, weights_activateViaXquicClassify]
        exact List.mem_cons_of_mem _ hx
      · have hc := Entry.change_onEvent p nowUs .activateRequested
          { result := (activateViaXquicClassify xq i mp).1
            newXqcPathId := (activateViaXquicClassify xq i mp).2.1
            nowUs }
        rcases hc.live hl with ⟨hp, -⟩ | ⟨-, -, hid⟩
        · exact absurd hp hlive
        · rw [hc.weight_eq, hid]
          exact List.mem_cons_self
    · refine tells_activation .activateRequested xq i mp fun hr => ?_
      rw [result_activateViaXquicClassify] at hok
      exact Nat.eq_zero_of_not_pos fun hpos => hok ⟨hr, hpos⟩

theorem tells_driveRetryTimer (nowUs : Nat) (xq : Xquic) (i : Nat) (mp : Mp)
    (hw : RetryDue p nowUs → xq.result i = .ok → p.weight = 0) :
    Tells p (driveRetryTimer nowUs xq i p mp).1 mp.weights (driveRetryTimer nowUs xq i p mp).2.weights := by
  rw [driveRetryTimer]
  split_ifs with hdue
  · exact tells_activation .retryTimer xq i mp (hw hdue)
  · exact .of_same rfl rfl rfl

theorem tells_recoverPath (xq : Xquic) (i : Nat) (mp : Mp)
    (hw : RetryDue p nowUs → xq.result i = .ok → p.weight = 0) :
    Tells p (recoverPath nowUs xq i p mp).1 mp.weights (recoverPath nowUs xq i p mp).2.weights := by
  have hwarn : ∃ us, residenceCheck nowUs p = { p with lastResidenceWarnAtUs := us } := by
    rw [residenceCheck]
    split_ifs
    · exact ⟨_, rfl⟩
    · exact ⟨_, rfl⟩
  have hstable (r : Entry) : Tells r (r.tickConfirmStable nowUs)
      (driveRetryTimer nowUs xq i (residenceCheck nowUs p) mp).2.weights
      (driveRetryTimer nowUs xq i (residenceCheck nowUs p) mp).2.weights := by
    rw [Entry.tickConfirmStable]
    split_ifs <;> exact .of_same rfl rfl rfl
  obtain ⟨us, hus⟩ := hwarn
  have hretry := tells_driveRetryTimer (p := residenceCheck nowUs p) nowUs xq i mp ?_
  · refine Tells.trans ?_ (hretry.trans (hstable _))
    rw [hus]
    exact .of_same rfl rfl rfl
  · -- The warning is about neither the retry nor the weight.
    rw [hus]
    exact hw

theorem tells_checkValidation (target : Lifecycle) (validated : Nat → Bool) (p : Entry)
    (weights : List (Nat × Nat)) : Tells p (checkValidation nowUs target validated p) weights weights := by
  rw [checkValidation]
  split_ifs
  · exact .of_same rfl rfl rfl
  · exact tells_event id weights
  · exact .of_same rfl rfl rfl

/-- A validation makes no retry due. -/
theorem retryDue_checkValidation {target : Lifecycle} (ht : target = .active ∨ target = .standby)
    (validated : Nat → Bool) (h : RetryDue (checkValidation nowUs target validated p) nowUs) :
    checkValidation nowUs target validated p = p := by
  rw [checkValidation] at h ⊢
  split_ifs at h ⊢ with hs hval
  · rfl
  · exfalso
    have hc := Entry.change_onEvent p nowUs .validationOk { validatedTarget := target, nowUs }
    generalize (p.onEvent nowUs .validationOk (some { validatedTarget := target, nowUs })).1 = q at hc h
    cases hc with
    | ignored => rcases h.1 with h | h <;> exact hs (by rw [h]; simp)
    | validated =>
      have hstate := h.1
      rw [Entry.state_enter] at hstate
      rcases ht with rfl | rfl <;> simp at hstate
    | retry hr => cases hr
    | exhausted hr => cases hr
    | activated _ _ hev => rcases hev with hev | hev | hev <;> cases hev
    | refused _ _ hev => rcases hev with hev | hev <;> cases hev
    | dropped hev => rcases hev with hev | hev <;> cases hev
  · rfl

/-! ## Clients -/

/-- xquic was told the weight of every live slot for the path that the slot has in
    the connection. -/
def Installed (c : Client) : Prop := ∀ k ∈ c.conn, ∀ p ∈ c.paths, Told k.mp.weights p

instance (c : Client) : Decidable c.Installed :=
  inferInstanceAs (Decidable (∀ k ∈ c.conn, ∀ p ∈ c.paths, Told k.mp.weights p))

/-- The slots that a call binds to a path without a word to xquic about their
    weights: the primary path of a new connection, with the slots that are still live
    from an old one, and the slots whose retry or reactivation xquic grants. -/
def untold (c : Client) (s : Step) : List Entry :=
  match s.call with
  | .connect start =>
    if stateTransitions c.state .connecting ∧ (c.startConnection s.nowUs start).1 then
      c.paths[c.primaryPathIdx]?.toList ++ c.paths.filter (·.xquicPathLive)
    else []
  | .tickReconnect start =>
    let d := c.prepareReconnect s.nowUs
    if c.state = .reconnecting ∧ c.reconnectScheduledUs ≠ 0 ∧ c.reconnectScheduledUs ≤ s.nowUs ∧
        (d.startConnection s.nowUs start).1 then
      d.paths[d.primaryPathIdx]?.toList
    else []
  | .tickPathRecovery _ xq =>
    if c.state = .established ∧ c.config.multipath ∧ c.conn.isSome then
      (c.paths.zipIdx.filter fun x => RetryDue x.1 s.nowUs ∧ xq.result x.2 = .ok).map Prod.fst
    else []
  | .reactivatePath handle xq =>
    if c.state = .established ∧ c.multipathReady ∧ c.conn.isSome then
      match c.findPathByHandle handle with
      | some i => if xq.result i = .ok then c.paths[i]?.toList.filter (ReactivateSlotEligible ·) else []
      | none => []
    else []
  | _ => []

/-- The slots that xquic is not told about have no weight. -/
def BindsUnweighted (c : Client) (s : Step) : Prop := ∀ p ∈ c.untold s, p.weight = 0

instance (c : Client) (s : Step) : Decidable (c.BindsUnweighted s) :=
  inferInstanceAs (Decidable (∀ p ∈ c.untold s, p.weight = 0))

variable {c d : Client} {k : Conn}

namespace Installed

theorem keeps (h : c.Installed) (hk : KeepsPaths c d) : d.Installed := by
  intro k' hk' p hp
  obtain ⟨k, hmem, he⟩ := hk.mp k' hk'
  rw [he]
  exact h k hmem p (hk.paths ▸ hp)

theorem withPaths {r : List Entry × Mp} (h : ∀ p ∈ r.1, Told r.2.weights p) :
    (c.withPaths k r).Installed := by
  intro k' hk'
  cases hk'
  exact h

theorem modify (h : c.Installed) {i : Nat} {f : Entry → Entry}
    (hf : ∀ p weights, Tells p (f p) weights weights) :
    ({ c with paths := c.paths.modify i f } : Client).Installed :=
  fun k hk => forall_mem_modify (h k hk) fun p hp => (hf p k.mp.weights).told hp

theorem pathEvent (h : c.Installed) (i : Nat) {ev : Event} (hev : ¬ev.Activates) :
    (c.pathEvent nowUs i ev).Installed :=
  h.modify fun _ weights => tells_event hev weights

/-- A loop over the slots; `P` is what is known of them before it. -/
theorem sweep {P : Nat → Entry → Prop} {f : Nat → Entry → Mp → Entry × Mp} {paths : List Entry} {mp : Mp}
    (hf : ∀ i p mp, P i p → Tells p (f i p mp).1 mp.weights (f i p mp).2.weights)
    (hP : ∀ i p, paths[i]? = some p → P i p) (h : ∀ p ∈ paths, Told mp.weights p) :
    ∀ p ∈ (Sweep.sweep f 0 paths mp).1, Told (Sweep.sweep f 0 paths mp).2.weights p := by
  refine Sweep.sweep_focus_of (P := P) (J := fun paths (mp : Mp) => ∀ p ∈ paths, Told mp.weights p)
    (fun l p r mp hp h => ?_) hP h
  have hs := hf l.length p mp hp
  intro x hx
  have hother (hmem : x ∈ l ++ p :: r) : Told (f l.length p mp).2.weights x := (h x hmem).mono hs.subset
  rcases List.mem_append.1 hx with hx | hx
  · exact hother (List.mem_append_left _ hx)
  · rcases List.mem_cons.1 hx with rfl | hx
    · exact hs.told (h p (List.mem_append_right _ List.mem_cons_self))
    · exact hother (List.mem_append_right _ (List.mem_cons_of_mem _ hx))

theorem activatePendingPaths (xq : Xquic) {paths : List Entry} {mp : Mp}
    (h : ∀ p ∈ paths, Told mp.weights p) :
    ∀ p ∈ (activatePendingPaths nowUs xq paths mp).1,
      Told (activatePendingPaths nowUs xq paths mp).2.weights p := by
  refine sweep (P := fun _ _ => True) (fun i p mp _ => ?_) (fun _ _ _ => trivial) h
  split_ifs
  · exact .of_same rfl rfl rfl
  · exact tells_activatePath xq i p mp

theorem addPathFd (h : c.Installed) (fd : Int) (desc : Option Desc) (xq : Xquic) :
    (c.addPathFd nowUs fd desc xq).Installed := by
  rw [Client.addPathFd]
  split_ifs with hfd
  · exact h
  · split
    · exact h
    · rename_i paths hpaths
      have hadded (k : Conn) (hk : c.conn = some k) : ∀ p ∈ paths, Told k.mp.weights p := by
        intro p hp
        rcases mem_addPath hpaths hp with rfl | hp
        · exact told_of_not_live (newPath_eq nowUs c.nextPathHandle fd desc (Int.not_lt.1 hfd)).2.1
        · exact h k hk p hp
      dsimp only
      split
      · rename_i k hk
        split_ifs
        · exact withPaths (activatePendingPaths xq (hadded k hk))
        · exact hadded
      · exact hadded

theorem setPathWeight (h : c.Installed) (handle : Int) (weight : Nat) :
    (c.setPathWeight handle weight).Installed := by
  rw [Client.setPathWeight]
  split
  · exact h
  · rename_i i _
    have hother {k : Conn} (hk : c.conn = some k) {x : Entry} {j : Nat}
        (hj : (c.paths.modify i fun p => { p with weight })[j]? = some x) (hne : i ≠ j) :
        Told k.mp.weights x := by
      rw [List.getElem?_modify_ne _ _ hne] at hj
      exact h k hk x (List.mem_of_getElem? hj)
    dsimp only
    split
    · rename_i k p hk hp
      split_ifs with hlive
      · intro k' hk' x hx
        cases hk'
        obtain ⟨j, hj⟩ := List.mem_iff_getElem?.1 hx
        by_cases he : i = j
        · -- xquic learns the new weight of the slot.
          subst he
          cases hj.symm.trans hp
          rw [List.getElem?_modify_eq] at hp
          obtain ⟨p', -, rfl⟩ := Option.map_eq_some_iff.1 hp
          exact fun _ _ => List.mem_cons_self
        · exact (hother hk hj he).mono (List.subset_cons_self ..)
      · intro k' hk' x hx
        obtain ⟨j, hj⟩ := List.mem_iff_getElem?.1 hx
        by_cases he : i = j
        · subst he
          cases hj.symm.trans hp
          exact told_of_not_live (by simpa using hlive)
        · exact hother hk' hj he
    · rename_i hnone
      intro k' hk' x hx
      obtain ⟨j, hj⟩ := List.mem_iff_getElem?.1 hx
      by_cases he : i = j
      · subst he
        exact absurd hj (hnone k' x hk')
      · exact hother hk' hj he

theorem removePath (h : c.Installed) (handle : Int) (closed : Bool) :
    (c.removePath nowUs handle closed).Installed := by
  rw [Client.removePath]
  split
  · exact h
  · split
    · exact h
    · split_ifs
      · exact h
      · refine Installed.pathEvent ?_ _ id
        split_ifs
        · refine h.keeps ⟨rfl, fun k' hk' => ?_, id⟩
          obtain ⟨k, hk, rfl⟩ := Option.map_eq_some_iff.1 hk'
          exact ⟨k, hk, rfl⟩
        · exact h

theorem reactivatePath (h : c.Installed) (handle : Int) (xq : Xquic)
    (hw : c.BindsUnweighted ⟨nowUs, .reactivatePath handle xq⟩) :
    (c.reactivatePath nowUs handle xq).Installed := by
  rw [Client.reactivatePath]
  split_ifs with hguard
  · exact h
  · split
    · rename_i i k hi hk
      split
      · exact h
      · rename_i p hp
        split_ifs with hel
        · have hs : Tells p (reactivate nowUs xq i p k.mp).1 k.mp.weights
              (reactivate nowUs xq i p k.mp).2.weights := by
            refine tells_activation .manualReactivate xq i k.mp fun hok => hw p ?_
            rw [untold]
            dsimp only
            rw [not_or, not_not, Bool.not_eq_false] at hguard
            rw [if_pos ⟨hguard.1, hguard.2, by rw [hk]; rfl⟩, hi]
            dsimp only
            rw [if_pos hok, hp, List.mem_filter]
            exact ⟨List.mem_singleton_self p, by simpa using hel⟩
          refine withPaths fun x hx => ?_
          rcases List.mem_or_eq_of_mem_set hx with hx | rfl
          · exact (h k hk x hx).mono hs.subset
          · exact hs.told (h k hk p (List.mem_of_getElem? hp))
        · exact h
    · exact h

theorem tickPathRecovery (h : c.Installed) (validated : Nat → Bool) (xq : Xquic)
    (hw : c.BindsUnweighted ⟨nowUs, .tickPathRecovery validated xq⟩) :
    (c.tickPathRecovery nowUs validated xq).Installed := by
  rw [Client.tickPathRecovery]
  split_ifs with hguard
  · exact h
  · split
    · exact h
    · rename_i k hk
      rw [not_or, not_not, Bool.not_eq_false] at hguard
      have hdue (i : Nat) (p : Entry) (hp : c.paths[i]? = some p) (hr : RetryDue p nowUs)
          (hok : xq.result i = .ok) : p.weight = 0 := by
        refine hw p ?_
        rw [untold]
        dsimp only
        rw [if_pos ⟨hguard.1, hguard.2, by rw [hk]; rfl⟩]
        refine List.mem_map.2 ⟨(p, i), List.mem_filter.2 ⟨List.mem_zipIdx_iff_getElem?.2 hp, ?_⟩, rfl⟩
        simpa using ⟨hr, hok⟩
      obtain ⟨target, ht, he⟩ := checkAllValidations_cases nowUs c validated
      have hchecked : (∀ p ∈ c.checkAllValidations nowUs validated, Told k.mp.weights p) ∧
          ∀ i p, (c.checkAllValidations nowUs validated)[i]? = some p →
            RetryDue p nowUs → xq.result i = .ok → p.weight = 0 := by
        rcases he with he | he
        · rw [he]
          refine ⟨fun q hq => ?_, fun i q hq hr hok => ?_⟩
          · obtain ⟨p, hp, rfl⟩ := List.mem_map.1 hq
            exact (tells_checkValidation target validated p _).told (h k hk p hp)
          · rw [List.getElem?_map] at hq
            obtain ⟨p, hp, rfl⟩ := Option.map_eq_some_iff.1 hq
            have hsame := retryDue_checkValidation ht validated hr
            rw [hsame] at hr ⊢
            exact hdue i p hp hr hok
        · rw [he]
          exact ⟨h k hk, hdue⟩
      exact withPaths (sweep (fun i p mp hp => tells_recoverPath xq i mp hp) hchecked.2 hchecked.1)

theorem requestBody (h : c.Installed) (hk : c.conn = some k) (capsules : List Capsule) (buffered : Bool) :
    (c.connectIpOnBody k nowUs capsules buffered).Installed := by
  rcases keepsPaths_connectIpOnBody nowUs hk capsules buffered with hkeep | hkeep
  · exact h.keeps hkeep
  · refine Installed.keeps (h.modify fun p weights => ?_) hkeep
    rw [validatePrimary]
    split_ifs
    · exact tells_event id weights
    · exact .of_same rfl rfl rfl

/-- A new connection knows no weight, so that the slots that are live in it must
    not have one. -/
theorem start {connId : Nat} (hprimary : ∀ p ∈ c.paths[c.primaryPathIdx]?, p.weight = 0)
    (hlive : ∀ p ∈ c.paths, p.xquicPathLive = true → p.weight = 0) :
    (({ c with connId, paths := c.paths.modify c.primaryPathIdx (bootstrap nowUs), conn := some k }
      : Client).setState nowUs .connecting).Installed := by
  intro k' _ q hq hpos hl
  exfalso
  rw [paths_setState] at hq
  obtain ⟨j, hj⟩ := List.mem_iff_getElem?.1 hq
  by_cases he : c.primaryPathIdx = j
  · subst he
    rw [List.getElem?_modify_eq] at hj
    obtain ⟨p, hp, rfl⟩ := Option.map_eq_some_iff.1 hj
    rw [bootstrap, Entry.weight_enter] at hpos
    exact Nat.ne_of_gt hpos (hprimary p hp)
  · rw [List.getElem?_modify_ne _ _ he] at hj
    exact Nat.ne_of_gt hpos (hlive q (List.mem_of_getElem? hj) hl)

theorem connect (h : c.Installed) {start : Start}
    (hw : c.BindsUnweighted ⟨nowUs, .connect start⟩) : (c.connect nowUs start).Installed := by
  rw [Client.connect]
  split_ifs with hvalid
  · exact h
  · rcases startConnection_cases nowUs c start with he | ⟨-, k, -, he⟩
    · rw [he]
      exact h
    · rw [BindsUnweighted, untold] at hw
      dsimp only at hw
      rw [if_pos ⟨by simpa using hvalid, by rw [he]⟩] at hw
      rw [he]
      refine Installed.start (fun p hp => hw p (List.mem_append_left _ ?_)) fun p hp hl =>
        hw p (List.mem_append_right _ (List.mem_filter.2 ⟨hp, hl⟩))
      exact Option.mem_toList.2 hp

theorem tickReconnect (h : c.Installed) {start : Start}
    (hw : c.BindsUnweighted ⟨nowUs, .tickReconnect start⟩) : (c.tickReconnect nowUs start).Installed := by
  rw [Client.tickReconnect]
  split_ifs with hs hdue
  · exact h
  · exact h
  · have hunbound (p : Entry) (hp : p ∈ (c.prepareReconnect nowUs).paths) : p.xquicPathLive = false := by
      obtain ⟨p, -, rfl⟩ := List.mem_map.1 hp
      exact (resetPathRuntime_eq p).1
    rcases startConnection_cases nowUs (c.prepareReconnect nowUs) start with he | ⟨-, k, -, he⟩
    · rw [he]
      exact fun k _ p hp => told_of_not_live (hunbound p hp)
    · rw [not_or, not_not] at hs
      rw [BindsUnweighted, untold] at hw
      dsimp only at hw
      rw [if_pos ⟨hs.1, hs.2, Nat.not_lt.1 hdue, by rw [he]⟩] at hw
      rw [he]
      refine Installed.start (fun p hp => hw p (Option.mem_toList.2 hp)) fun p hp hl => ?_
      rw [hunbound p hp] at hl
      cases hl

end Installed

theorem installed_step (h : c.Installed) {s : Step} (hw : c.BindsUnweighted s) : (c.step s).Installed := by
  obtain ⟨nowUs, call⟩ := s
  have hcallback {f : Conn → Client} (hf : ∀ k, c.conn = some k → (f k).Installed) :
      (c.callback f).Installed := by
    rw [callback]
    split
    · rename_i k hk
      exact hf k hk
    · exact h
  cases call with
  | connect start => exact h.connect hw
  | addPathFd fd desc xq => exact h.addPathFd fd desc xq
  | setPathWeight handle weight => exact h.setPathWeight handle weight
  | removePath handle closed => exact h.removePath handle closed
  | onPlatformPathDropped handle =>
    change (c.onPlatformPathDropped nowUs handle).Installed
    rw [onPlatformPathDropped]
    split
    · exact h
    · exact h.pathEvent _ id
  | onPlatformFdClosed handle =>
    change (c.onPlatformFdClosed nowUs handle).Installed
    rw [onPlatformFdClosed]
    split
    · exact h
    · exact h.pathEvent _ id
  | reactivatePath handle xq => exact h.reactivatePath handle xq hw
  | tickPathRecovery validated xq => exact h.tickPathRecovery validated xq hw
  | tickReconnect start => exact h.tickReconnect hw
  | requestBody capsules buffered => exact hcallback fun k hk => h.requestBody hk capsules buffered
  | readyToCreatePath xq =>
    refine hcallback fun k hk => ?_
    rw [cbReadyToCreatePath]
    dsimp only
    split_ifs
    · exact Installed.withPaths (Installed.activatePendingPaths xq (h k hk))
    · exact h
  | pathRemoved pathId =>
    refine hcallback fun k _ => ?_
    rw [cbPathRemoved]
    split
    · exact h
    · exact h.pathEvent _ id
  | _ => exact h.keeps (keepsPaths_step trivial)

/-! ## Runs -/

/-- After every run in which xquic is told of the slots with a weight, or does not
    grant them a path, the weights are installed. -/
theorem installed_run (cfg : Client.Config) {steps : List Step}
    (h : Along step BindsUnweighted (init cfg) steps) : ((init cfg).run steps).Installed :=
  foldl_of_along (J := Installed) (fun _ _ hc hw => installed_step hc hw) (by simp [Installed, init]) h

/-- A second path is used, with a weight. -/
def weightedUp : List Step :=
  sampleSetUp ++ [⟨6, .readyToCreatePath sampleXquic⟩,
    ⟨7, .addPathFd 4 (some { flags := 0, weight := 2 }) sampleXquic⟩, ⟨8, .setTunActive true⟩]

theorem installed_run_sample :
    (∃ p ∈ ((init sampleConfig).run (weightedUp ++ [⟨9, .setPathWeight 2 5⟩])).paths,
      p.weight = 5 ∧ p.xquicPathLive = true) ∧
    ((init sampleConfig).run (weightedUp ++ [⟨9, .setPathWeight 2 5⟩])).Installed :=
  ⟨by decide, installed_run sampleConfig (by decide)⟩

/-- The primary path has a weight when the client connects; a path with a weight is
    lost and bound again by the retry timer, or by hand. -/
theorem not_installed :
    ¬((init sampleConfig).run [⟨1, .addPathFd 3 (some { flags := 0, weight := 2 }) sampleXquic⟩,
        ⟨2, .connect { h3Connect := some 1200 }⟩]).Installed ∧
      ¬((init sampleConfig).run (weightedUp ++ [⟨9, .pathRemoved 1⟩,
        ⟨100000000, .tickPathRecovery (fun _ => false) sampleXquic⟩])).Installed ∧
      ¬((init sampleConfig).run (weightedUp ++ [⟨9, .pathRemoved 1⟩,
        ⟨10, .reactivatePath 2 sampleXquic⟩])).Installed := by
  decide

end Mqvpn.Client
