import Mqvpn.Client.Frame
import Mqvpn.Client.Slots
import Mqvpn.Lib.Runs

/-!
# The path table over connections

Every slot of a client satisfies the invariant of its lifecycle, and no two live
slots share the id of an xquic path, so that a callback about a path finds the
slot of that path (`Consistent`).

Ids are fresh within a connection only, and the bootstrap of the primary path
writes lifecycle fields past the state machine, so both depend on the slots being
reset between connections. The reconnect of the tick does that; a `connect` in
RECONNECTING does not (`not_consistent`). In runs in which no such call finds a
slot that should have been reset (`ConnectsClean`), the table is consistent
(`consistent_run`).
-/

namespace Mqvpn.Client

open Mqvpn.Path Runs

/-! ## Tables -/

/-- The two slots are not bound to the same xquic path. -/
def Apart (p q : Entry) : Prop :=
  p.xquicPathLive = true → q.xquicPathLive = true → p.xqcPathId ≠ q.xqcPathId

instance (p q : Entry) : Decidable (Apart p q) := inferInstanceAs (Decidable (_ → _ → _))

theorem Apart.symm {p q : Entry} (h : Apart p q) : Apart q p := fun hq hp he => h hp hq he.symm

/-- Slots that are bound to paths among `ids`. -/
structure Table (paths : List Entry) (ids : List Nat) : Prop where
  check : ∀ p ∈ paths, p.Check
  apart : paths.Pairwise Apart
  known : ∀ p ∈ paths, p.xquicPathLive = true → p.xqcPathId ∈ ids

namespace Table

variable {paths l r : List Entry} {ids ids' : List Nat} {p q : Entry} {nowUs : Nat}

/-- A path that is new in the connection is not that of another slot. -/
theorem apart_of_slotOk {x : Entry} (hx : x.xquicPathLive = true → x.xqcPathId ∈ ids) (h : Apart x p)
    (hs : SlotOk p q ids ids') : Apart x q := by
  intro hlive hq he
  rcases hs.live hq with ⟨hp, hid⟩ | ⟨hnew, -⟩
  · exact h hlive hp (he.trans hid)
  · exact hnew (he ▸ hx hlive)

/-- One slot changes. -/
theorem replace (h : Table (l ++ p :: r) ids) (hs : SlotOk p q ids ids') : Table (l ++ q :: r) ids' := by
  obtain ⟨hcheck, hapart, hknown⟩ := h
  rw [List.pairwise_append, List.pairwise_cons] at hapart
  obtain ⟨hl, ⟨hpr, hr⟩, hlr⟩ := hapart
  have hmem {x : Entry} (hx : x ∈ l ∨ x ∈ r) : x ∈ l ++ p :: r := by
    rcases hx with hx | hx
    · exact List.mem_append_left _ hx
    · exact List.mem_append_right _ (List.mem_cons_of_mem _ hx)
  have hp : p ∈ l ++ p :: r := List.mem_append_right _ List.mem_cons_self
  refine ⟨?_, ?_, ?_⟩
  · intro x hx
    rcases List.mem_append.1 hx with hx | hx
    · exact hcheck x (hmem (.inl hx))
    · rcases List.mem_cons.1 hx with rfl | hx
      · exact hs.check (hcheck p hp)
      · exact hcheck x (hmem (.inr hx))
  · rw [List.pairwise_append, List.pairwise_cons]
    refine ⟨hl, ⟨fun y hy => ?_, hr⟩, fun x hx y hy => ?_⟩
    · exact (apart_of_slotOk (hknown y (hmem (.inr hy))) (hpr y hy).symm hs).symm
    · rcases List.mem_cons.1 hy with rfl | hy
      · exact apart_of_slotOk (hknown x (hmem (.inl hx))) (hlr x hx p List.mem_cons_self) hs
      · exact hlr x hx y (List.mem_cons_of_mem _ hy)
  · intro x hx hlive
    rcases List.mem_append.1 hx with hx | hx
    · exact hs.subset (hknown x (hmem (.inl hx)) hlive)
    · rcases List.mem_cons.1 hx with rfl | hx
      · rcases hs.live hlive with ⟨hlp, hid⟩ | ⟨-, hid⟩
        · rw [hid]
          exact hs.subset (hknown p hp hlp)
        · exact hid
      · exact hs.subset (hknown x (hmem (.inr hx)) hlive)

theorem modify (h : Table paths ids) {i : Nat} {f : Entry → Entry} (hf : ∀ p, SlotOk p (f p) ids ids) :
    Table (paths.modify i f) ids := by
  by_cases hi : i < paths.length
  · obtain ⟨l, p, r, rfl, -, he⟩ := List.exists_of_modify f hi
    rw [he]
    exact h.replace (hf p)
  · rw [List.modify_eq_self (Nat.not_lt.1 hi)]
    exact h

theorem set (h : Table paths ids) {i : Nat} (hi : paths[i]? = some p) (hs : SlotOk p q ids ids') :
    Table (paths.set i q) ids' := by
  obtain ⟨hlt, rfl⟩ := List.getElem?_eq_some_iff.1 hi
  obtain ⟨l, r, he, -, hset⟩ := List.exists_of_set hlt
  rw [hset]
  rw [he] at h
  exact h.replace hs

theorem map (h : Table paths ids) {f : Entry → Entry} (hf : ∀ p, SlotOk p (f p) ids ids) :
    Table (paths.map f) ids := by
  suffices ∀ l r, Table (l ++ r) ids → Table (l ++ r.map f) ids from this [] paths h
  intro l r
  induction r generalizing l with
  | nil => exact id
  | cons p r ih =>
    intro h
    have hp := h.replace (hf p)
    rw [List.append_cons] at hp
    have := ih _ hp
    rwa [← List.append_cons] at this

/-- A loop over the slots. -/
theorem sweep {f : Nat → Entry → Mp → Entry × Mp} {mp : Mp}
    (hf : ∀ i p mp, SlotOk p (f i p mp).1 mp.ids (f i p mp).2.ids) (h : Table paths mp.ids) :
    Table (Sweep.sweep f 0 paths mp).1 (Sweep.sweep f 0 paths mp).2.ids :=
  Sweep.sweep_focus (J := fun paths (mp : Mp) => Table paths mp.ids)
    (fun _ p _ mp h => h.replace (hf _ p mp)) h

theorem concat (h : Table paths ids) (hc : q.Check) (hl : q.xquicPathLive = false) :
    Table (paths ++ [q]) ids := by
  refine ⟨fun x hx => ?_, ?_, fun x hx hlive => ?_⟩
  · rcases List.mem_append.1 hx with hx | hx
    · exact h.check x hx
    · rw [List.mem_singleton.1 hx]
      exact hc
  · rw [List.pairwise_append]
    refine ⟨h.apart, List.pairwise_singleton .., fun x _ y hy _ hq => ?_⟩
    rw [List.mem_singleton.1 hy, hl] at hq
    cases hq
  · rcases List.mem_append.1 hx with hx | hx
    · exact h.known x hx hlive
    · rw [List.mem_singleton.1 hx, hl] at hlive
      cases hlive

theorem addPath (h : Table paths ids) (hc : q.Check) (hl : q.xquicPathLive = false)
    (ha : addPath paths q = some l) : Table l ids := by
  rw [Client.addPath] at ha
  split at ha
  · rename_i i hi
    cases ha
    have hlt : i < paths.length := by
      obtain ⟨hlt, -⟩ := List.findIdx?_eq_some_iff_getElem.1 hi
      exact hlt
    exact h.set (List.getElem?_eq_getElem hlt) (.of_not_live hc hl)
  · split_ifs at ha
    cases ha
    exact h.concat hc hl

/-- The slots of a new connection: only the primary one is live. -/
theorem bootstrap {i : Nat} (hcheck : ∀ p ∈ paths, p.Check) (hready : ∀ p ∈ paths[i]?, p.Ready)
    (hclean : ∀ j p, paths[j]? = some p →
      (j = i → p.recreateAfterUs = 0) ∧ (j ≠ i → p.xquicPathLive = false)) :
    Table (paths.modify i (bootstrap nowUs)) [0] := by
  have hslot (j : Nat) (x : Entry) (hx : (paths.modify i (Client.bootstrap nowUs))[j]? = some x) :
      x.Check ∧ (x.xquicPathLive = true → j = i ∧ x.xqcPathId = 0) := by
    by_cases hj : i = j
    · subst hj
      rw [List.getElem?_modify_eq] at hx
      obtain ⟨p, hp, rfl⟩ := Option.map_eq_some_iff.1 hx
      refine ⟨check_bootstrap (hcheck p (List.mem_of_getElem? hp)) (hready p hp) ((hclean i p hp).1 rfl),
        fun _ => ⟨rfl, (bootstrap_eq p).2⟩⟩
    · rw [List.getElem?_modify_ne _ _ hj] at hx
      refine ⟨hcheck x (List.mem_of_getElem? hx), fun hlive => ?_⟩
      rw [(hclean j x hx).2 (Ne.symm hj)] at hlive
      cases hlive
  refine ⟨fun x hx => ?_, ?_, fun x hx hlive => ?_⟩
  · obtain ⟨j, hj⟩ := List.mem_iff_getElem?.1 hx
    exact (hslot j x hj).1
  · rw [List.pairwise_iff_getElem]
    intro j j' hj hj' hlt hlive hlive' _
    have h₁ := ((hslot j _ (List.getElem?_eq_getElem hj)).2 hlive).1
    have h₂ := ((hslot j' _ (List.getElem?_eq_getElem hj')).2 hlive').1
    omega
  · obtain ⟨j, hj⟩ := List.mem_iff_getElem?.1 hx
    rw [((hslot j x hj).2 hlive).2]
    exact List.mem_singleton_self 0

end Table

/-! ## Clients -/

/-- The slot has no path, and no retry is due. -/
def Unused (p : Entry) : Prop := p.xquicPathLive = false ∧ p.recreateAfterUs = 0

/-- The slots of a client are bound to paths of its connection, or, after a close,
    of the connection it had. Before the first connection they are unused. -/
structure Bound (c : Client) : Prop where
  table : ∃ ids, Table c.paths ids ∧ ∀ k ∈ c.conn, k.mp.ids = ids
  unused : c.state = .idle → ∀ p ∈ c.paths, Unused p

variable {c d : Client} {p : Entry} {nowUs : Nat}

theorem unused_event {ctx : Ctx} {ev : Event} (hev : ev = .removeApi ∨ ev = .platformDrop ∨ ev = .fdClosed)
    (h : Unused p) : Unused (p.onEvent nowUs ev (some ctx)).1 := by
  have hc := Entry.change_onEvent p nowUs ev ctx
  generalize (p.onEvent nowUs ev (some ctx)).1 = q at hc
  refine ⟨?_, ?_⟩
  · by_contra hl
    rcases hc.live (by simpa using hl) with ⟨hp, -⟩ | ⟨ha, -⟩
    · rw [h.1] at hp
      cases hp
    · rcases hev with rfl | rfl | rfl <;> exact ha
  · cases hc with
    | ignored => exact h.2
    | dropped => exact Entry.recreateAfterUs_enter ..
    | fdClosed =>
      rw [Entry.maybeTransitionDroppedToFree_eq]
      split_ifs
      · exact (Entry.recreateAfterUs_enter ..).trans h.2
      · exact h.2
    | retry hr => rcases hev with rfl | rfl | rfl <;> cases hr
    | exhausted hr => rcases hev with rfl | rfl | rfl <;> cases hr
    | activated => exact Entry.recreateAfterUs_enter ..
    | refused => exact Entry.recreateAfterUs_enter ..
    | validated => rcases hev with hev | hev | hev <;> cases hev
    | attached => rcases hev with hev | hev | hev <;> cases hev
    | reset => rcases hev with hev | hev | hev <;> cases hev
    | resetDetached => rcases hev with hev | hev | hev <;> cases hev
    | removed => rcases hev with hev | hev | hev <;> cases hev

namespace Bound

theorem keeps (h : c.Bound) (hk : KeepsPaths c d) : d.Bound := by
  obtain ⟨ids, ht, hids⟩ := h.table
  refine ⟨⟨ids, hk.paths ▸ ht, fun k' hk' => ?_⟩, fun hs => ?_⟩
  · obtain ⟨k, hmem, he⟩ := hk.mp k' hk'
    rw [he]
    exact hids k hmem
  · rw [hk.paths]
    exact h.unused (hk.idle hs)

/-- The slots go through a loop against the paths of the connection. -/
theorem withPaths {k : Conn} {r : List Entry × Mp} (hv : c.Vacant) (hk : c.conn = some k)
    (ht : Table r.1 r.2.ids) : (c.withPaths k r).Bound := by
  refine ⟨⟨r.2.ids, ht, fun k' hk' => ?_⟩, fun hs => ?_⟩
  · cases hk'
    rfl
  · rw [hv (.inl hs)] at hk
    cases hk

theorem modify (h : c.Bound) {i : Nat} {f : Entry → Entry} (hf : ∀ p ids, SlotOk p (f p) ids ids)
    (hu : c.state = .idle → ∀ p, Unused p → Unused (f p)) :
    ({ c with paths := c.paths.modify i f } : Client).Bound := by
  obtain ⟨ids, ht, hids⟩ := h.table
  exact ⟨⟨ids, ht.modify fun p => hf p ids, hids⟩, fun hs => forall_mem_modify (h.unused hs) (hu hs)⟩

/-- An event that comes with a connection. -/
theorem pathEvent_of_conn (h : c.Bound) (ht : Timely nowUs) {k : Conn} (hv : c.Vacant) (hk : c.conn = some k)
    (i : Nat) {ev : Event} (hev : ¬ev.Activates) (hadd : ev ≠ .addFd) (hval : ev ≠ .validationOk) :
    (c.pathEvent nowUs i ev).Bound := by
  refine h.modify (fun p ids => ?_) fun hs => ?_
  · exact slotOk_event (ht.guaranteed rfl fun hv => absurd hv hval) hev hadd ids
  · rw [hv (.inl hs)] at hk
    cases hk

/-- An event that may come at any time. -/
theorem pathEvent (h : c.Bound) (ht : Timely nowUs) (i : Nat) {ev : Event}
    (hev : ev = .removeApi ∨ ev = .platformDrop ∨ ev = .fdClosed) : (c.pathEvent nowUs i ev).Bound := by
  refine h.modify (fun p ids => ?_) fun _ p hu => unused_event hev hu
  refine slotOk_event (ht.guaranteed rfl ?_) ?_ ?_ ids
  · rcases hev with rfl | rfl | rfl <;> simp
  · rcases hev with rfl | rfl | rfl <;> exact id
  · rcases hev with rfl | rfl | rfl <;> simp

theorem table_activatePendingPaths (ht : Timely nowUs) (xq : Xquic) {paths : List Entry} {mp : Mp}
    (h : Table paths mp.ids) :
    Table (activatePendingPaths nowUs xq paths mp).1 (activatePendingPaths nowUs xq paths mp).2.ids := by
  refine Table.sweep (fun i p mp => ?_) h
  split_ifs
  · exact .of_same id rfl rfl
  · exact slotOk_activatePath ht xq i p mp

theorem addPathFd (h : c.Bound) (hv : c.Vacant) (ht : Timely nowUs) (fd : Int) (desc : Option Desc)
    (xq : Xquic) : (c.addPathFd nowUs fd desc xq).Bound := by
  rw [Client.addPathFd]
  split_ifs with hfd
  · exact h
  · obtain ⟨hcheck, hlive, hretry⟩ := newPath_eq nowUs c.nextPathHandle fd desc (Int.not_lt.1 hfd)
    split
    · exact h
    · rename_i paths hpaths
      obtain ⟨ids, htab, hids⟩ := h.table
      have htab' := htab.addPath hcheck hlive hpaths
      have hadded : ({ c with paths, nextPathHandle := c.nextPathHandle + 1 } : Client).Bound := by
        refine ⟨⟨ids, htab', hids⟩, fun hs p hp => ?_⟩
        rcases mem_addPath hpaths hp with rfl | hp
        · exact ⟨hlive, hretry⟩
        · exact h.unused hs p hp
      dsimp only
      split
      · rename_i k hk
        split_ifs
        · refine Bound.withPaths hv hk (table_activatePendingPaths ht xq ?_)
          rw [hids k hk]
          exact htab'
        · exact hadded
      · exact hadded

theorem setPathWeight (h : c.Bound) (handle : Int) (weight : Nat) : (c.setPathWeight handle weight).Bound := by
  rw [Client.setPathWeight]
  split
  · exact h
  · rename_i i _
    have hset := h.modify (i := i) (f := fun p => { p with weight })
      (fun p ids => .of_same (fun hc => check_weight hc weight) rfl rfl) fun _ _ hu => hu
    dsimp only
    split
    · split_ifs
      · -- xquic learns the weight; the paths of the connection are the same.
        rename_i k _ hk _ _
        obtain ⟨ids, ht, hids⟩ := hset.table
        exact ⟨⟨ids, ht, fun k' hk' => by cases hk'; exact hids k hk⟩, hset.unused⟩
      · exact hset
    · exact hset

theorem removePath (h : c.Bound) (ht : Timely nowUs) (handle : Int) (closed : Bool) :
    (c.removePath nowUs handle closed).Bound := by
  rw [Client.removePath]
  split
  · exact h
  · split
    · exact h
    · split_ifs
      · exact h
      · refine Bound.pathEvent ?_ ht _ (.inl rfl)
        split_ifs
        · refine h.keeps ⟨rfl, fun k' hk' => ?_, id⟩
          obtain ⟨k, hk, rfl⟩ := Option.map_eq_some_iff.1 hk'
          exact ⟨k, hk, rfl⟩
        · exact h

theorem reactivatePath (h : c.Bound) (hv : c.Vacant) (ht : Timely nowUs) (handle : Int) (xq : Xquic) :
    (c.reactivatePath nowUs handle xq).Bound := by
  rw [Client.reactivatePath]
  split_ifs
  · exact h
  · split
    · rename_i i k _ hk
      split
      · exact h
      · rename_i p hp
        split_ifs
        · obtain ⟨ids, htab, hids⟩ := h.table
          refine Bound.withPaths hv hk (htab.set hp ?_)
          rw [← hids k hk]
          exact slotOk_reactivate ht xq i p k.mp
        · exact h
    · exact h

theorem tickPathRecovery (h : c.Bound) (hv : c.Vacant) (ht : Timely nowUs) (validated : Nat → Bool)
    (xq : Xquic) : (c.tickPathRecovery nowUs validated xq).Bound := by
  rw [Client.tickPathRecovery]
  split_ifs
  · exact h
  · split
    · exact h
    · rename_i k hk
      obtain ⟨ids, htab, hids⟩ := h.table
      have hchecked : Table (c.checkAllValidations nowUs validated) k.mp.ids := by
        rw [hids k hk, checkAllValidations]
        split_ifs
        · exact htab.map fun p => slotOk_checkValidation ht (.inr rfl) validated p ids
        · exact htab.map fun p => slotOk_checkValidation ht (.inl rfl) validated p ids
        · exact htab
      exact Bound.withPaths hv hk (hchecked.sweep fun i p mp => slotOk_recoverPath ht xq i p mp)

theorem readyToCreatePath (h : c.Bound) (hv : c.Vacant) (ht : Timely nowUs) {k : Conn} (hk : c.conn = some k)
    (xq : Xquic) : (c.cbReadyToCreatePath k nowUs xq).Bound := by
  rw [cbReadyToCreatePath]
  dsimp only
  split_ifs
  · obtain ⟨ids, htab, hids⟩ := h.table
    refine Bound.withPaths hv hk (table_activatePendingPaths ht xq ?_)
    rw [hids k hk]
    exact htab
  · exact ⟨h.table, h.unused⟩

theorem pathRemoved (h : c.Bound) (hv : c.Vacant) (ht : Timely nowUs) {k : Conn} (hk : c.conn = some k)
    (pathId : Nat) : (c.cbPathRemoved nowUs pathId).Bound := by
  rw [cbPathRemoved]
  split
  · exact h
  · exact h.pathEvent_of_conn ht hv hk _ id (by simp) (by simp)

theorem requestBody (h : c.Bound) (hv : c.Vacant) (ht : Timely nowUs) {k : Conn} (hk : c.conn = some k)
    (capsules : List Capsule) (buffered : Bool) : (c.connectIpOnBody k nowUs capsules buffered).Bound := by
  rcases keepsPaths_connectIpOnBody nowUs hk capsules buffered with hkeep | hkeep
  · exact h.keeps hkeep
  · refine Bound.keeps (h.modify (fun p ids => ?_) fun hs => ?_) hkeep
    · rw [validatePrimary]
      split_ifs
      · exact slotOk_event (ht.guaranteed rfl fun _ => .inl rfl) id (by simp) ids
      · exact .of_same id rfl rfl
    · rw [hv (.inl hs)] at hk
      cases hk

/-- A new connection, with the primary path as that of its handshake. -/
theorem start {k : Conn} {connId : Nat} (hk : k.Fresh) (ht : Table (c.paths.modify c.primaryPathIdx
      (bootstrap nowUs)) [0]) :
    (({ c with connId, paths := c.paths.modify c.primaryPathIdx (bootstrap nowUs), conn := some k }
      : Client).setState nowUs .connecting).Bound := by
  obtain ⟨dgramMss, reorderTx, rfl⟩ := hk
  refine ⟨⟨[0], (paths_setState ..).symm ▸ ht, fun k' hk' => ?_⟩, fun hs => ?_⟩
  · rw [conn_setState] at hk'
    cases hk'
    rfl
  · rw [state_setState] at hs
    cases hs

end Bound

/-- The `connect` of a call. -/
def Call.connectStart : Call → Option Start
  | .connect start => some start
  | _ => none

/-- A `connect` in RECONNECTING that starts a connection finds the slots as a reset
    leaves them, as far as the start depends on it: no retry is due for the primary
    path, and no other one is live. -/
def ConnectsClean (c : Client) (s : Step) : Prop :=
  ∀ start ∈ s.call.connectStart, c.state = .reconnecting → (c.startConnection s.nowUs start).1 = true →
    ∀ i < c.paths.length, ∀ p ∈ c.paths[i]?, (i = c.primaryPathIdx → p.recreateAfterUs = 0) ∧
      (i ≠ c.primaryPathIdx → p.xquicPathLive = false)

instance (c : Client) (s : Step) : Decidable (c.ConnectsClean s) :=
  inferInstanceAs (Decidable (∀ start ∈ s.call.connectStart, _ → _ → _))

theorem Bound.connect (h : c.Bound) {start : Start} (hclean : c.ConnectsClean ⟨nowUs, .connect start⟩) :
    (c.connect nowUs start).Bound := by
  rw [Client.connect]
  split_ifs with hvalid
  · exact h
  · rcases startConnection_cases nowUs c start with he | ⟨hready, k, hk, he⟩
    · rw [he]
      exact ⟨h.table, h.unused⟩
    · rw [he]
      obtain ⟨ids, ht, -⟩ := h.table
      refine Bound.start hk (Table.bootstrap ht.check hready fun i p hp => ?_)
      by_cases hs : c.state = .reconnecting
      · have hlt : i < c.paths.length := (List.getElem?_eq_some_iff.1 hp).1
        exact hclean start rfl hs (by rw [he]) i hlt p hp
      · -- The first connection of the client.
        have hidle : c.state = .idle := by
          cases hst : c.state <;> rw [hst] at hvalid hs <;> first | rfl | exact absurd rfl hs | exact absurd rfl hvalid
        have hu := h.unused hidle p (List.mem_of_getElem? hp)
        exact ⟨fun _ => hu.2, fun _ => hu.1⟩

theorem Bound.tickReconnect (h : c.Bound) (ht : Timely nowUs) (start : Start) :
    (c.tickReconnect nowUs start).Bound := by
  rw [Client.tickReconnect]
  split_ifs with hs
  · exact h
  · exact h
  · have hstate : c.state ≠ .idle := fun hi => hs (.inl (by rw [hi]; simp))
    obtain ⟨ids, htab, hids⟩ := h.table
    have hreset : Table (c.prepareReconnect nowUs).paths ids :=
      htab.map fun p => ⟨check_resetPathRuntime ht, fun _ hx => hx, fun hl => by
        rw [(resetPathRuntime_eq p).1] at hl
        cases hl⟩
    rcases startConnection_cases nowUs (c.prepareReconnect nowUs) start with he | ⟨hready, k, hk, he⟩
    · rw [he]
      exact ⟨⟨ids, hreset, hids⟩, fun hi => absurd hi hstate⟩
    · rw [he]
      refine Bound.start hk (Table.bootstrap hreset.check hready fun i p hp => ?_)
      obtain ⟨p, -, rfl⟩ := List.mem_map.1 (List.mem_of_getElem? hp)
      exact ⟨fun _ => (resetPathRuntime_eq p).2, fun _ => (resetPathRuntime_eq p).1⟩

theorem bound_step (h : c.Bound) (hv : c.Vacant) {s : Step} (ht : Timely s.nowUs) (hc : c.ConnectsClean s) :
    (c.step s).Bound := by
  obtain ⟨nowUs, call⟩ := s
  have hcallback {f : Conn → Client} (hf : ∀ k, c.conn = some k → (f k).Bound) : (c.callback f).Bound := by
    rw [callback]
    split
    · rename_i k hk
      exact hf k hk
    · exact h
  cases call with
  | connect start => exact h.connect hc
  | addPathFd fd desc xq => exact h.addPathFd hv ht fd desc xq
  | setPathWeight handle weight => exact h.setPathWeight handle weight
  | removePath handle closed => exact h.removePath ht handle closed
  | onPlatformPathDropped handle =>
    change (c.onPlatformPathDropped nowUs handle).Bound
    rw [onPlatformPathDropped]
    split
    · exact h
    · exact h.pathEvent ht _ (.inr (.inl rfl))
  | onPlatformFdClosed handle =>
    change (c.onPlatformFdClosed nowUs handle).Bound
    rw [onPlatformFdClosed]
    split
    · exact h
    · exact h.pathEvent ht _ (.inr (.inr rfl))
  | reactivatePath handle xq => exact h.reactivatePath hv ht handle xq
  | tickPathRecovery validated xq => exact h.tickPathRecovery hv ht validated xq
  | tickReconnect start => exact h.tickReconnect ht start
  | requestBody capsules buffered => exact hcallback fun k hk => h.requestBody hv ht hk capsules buffered
  | readyToCreatePath xq => exact hcallback fun k hk => h.readyToCreatePath hv ht hk xq
  | pathRemoved pathId => exact hcallback fun k hk => h.pathRemoved hv ht hk pathId
  | _ => exact h.keeps (keepsPaths_step trivial)

/-! ## Runs -/

/-- The assertions of `path_invariant_check` hold of every slot, live slots do not
    share an id, and the id of a live slot leads back to it. -/
structure Consistent (c : Client) : Prop where
  check : ∀ p ∈ c.paths, p.Check
  apart : c.paths.Pairwise Apart
  resolves : ∀ i p, c.paths[i]? = some p → p.xquicPathLive = true →
    c.findPathByXqcId p.xqcPathId = some i

theorem findPathByXqcId_eq (h : c.paths.Pairwise Apart) {i : Nat} (hp : c.paths[i]? = some p)
    (hl : p.xquicPathLive = true) : c.findPathByXqcId p.xqcPathId = some i := by
  obtain ⟨hi, rfl⟩ := List.getElem?_eq_some_iff.1 hp
  refine List.findIdx?_eq_some_iff_getElem.2 ⟨hi, by simp [hl], fun j hj => ?_⟩
  have hne := List.pairwise_iff_getElem.1 h j i (Nat.lt_trans hj hi) hi hj
  simp only [decide_eq_true_eq, not_and]
  exact fun hlj => hne hlj hl

theorem Bound.consistent (h : c.Bound) : c.Consistent := by
  obtain ⟨ids, ht, -⟩ := h.table
  exact ⟨ht.check, ht.apart, fun i p hp hl => findPathByXqcId_eq ht.apart hp hl⟩

/-- After every run in which a `connect` in RECONNECTING finds clean slots, the path
    table is consistent. -/
theorem consistent_run (cfg : Client.Config) {steps : List Step}
    (h : Along step (fun c s => Timely s.nowUs ∧ c.ConnectsClean s) (init cfg) steps) :
    ((init cfg).run steps).Consistent := by
  have hinit : (init cfg).Vacant ∧ (init cfg).Bound :=
    ⟨fun _ => rfl, ⟨[], ⟨by simp [init], .nil, by simp [init]⟩, by simp [init]⟩, by simp [init]⟩
  have hrun : ((init cfg).run steps).Vacant ∧ ((init cfg).run steps).Bound :=
    foldl_of_along (J := fun c => c.Vacant ∧ c.Bound)
      (fun c s hc hs => ⟨vacant_step hc.1 s, bound_step hc.2 hc.1 hs.1 hs.2⟩) hinit h
  exact hrun.2.consistent

/-- Two paths are used, and the client loses its connection. -/
def twoPathsLost : List Step :=
  sampleSetUp ++ [⟨6, .readyToCreatePath sampleXquic⟩, ⟨7, .addPathFd 4 none sampleXquic⟩,
    ⟨8, .setTunActive true⟩, ⟨9, .connClose⟩]

theorem consistent_run_sample :
    ((init sampleConfig).run (twoPathsLost ++
      [⟨10000000, .tickReconnect { h3Connect := some 1200 }⟩])).state = .connecting ∧
    ((init sampleConfig).run (twoPathsLost ++
      [⟨10000000, .tickReconnect { h3Connect := some 1200 }⟩])).Consistent :=
  ⟨by decide, consistent_run sampleConfig (by decide)⟩

/-- The path of the handshake is lost before the connection, and its retry is still
    due when the client connects again. -/
def degradedAndBack : List Step :=
  sampleSetUp ++ [⟨6, .setTunActive true⟩, ⟨7, .pathRemoved 0⟩, ⟨8, .connClose⟩,
    ⟨9, .connect { h3Connect := some 1200 }⟩]

/-- The second path is still bound to its path in the old connection when a third
    one gets the same id in the new. -/
def staleAndBack : List Step :=
  twoPathsLost ++ [⟨10, .connect { h3Connect := some 1200 }⟩, ⟨11, .addPathFd 5 none sampleXquic⟩]

theorem not_consistent :
    (∀ s ∈ degradedAndBack ++ staleAndBack, Timely s.nowUs) ∧
      ¬((init sampleConfig).run degradedAndBack).Consistent ∧
      ¬((init sampleConfig).run staleAndBack).Consistent :=
  ⟨by decide, fun h => absurd h.check (by decide), fun h => absurd h.apart (by decide)⟩

end Mqvpn.Client
