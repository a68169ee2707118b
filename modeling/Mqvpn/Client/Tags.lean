import Mqvpn.Client.Frame
import Mqvpn.Client.Slots

/-!
# What the platform gave to a slot

The *tag* of a slot is what it has from the platform: its handle, its socket, its flags and
its weight, and whether it is still attached (`Entry.tag`). The calls by which the platform
manages paths change tags; all the others, the callbacks of xquic and the ticks among them,
leave the tags of all the slots alone (`tags_step`).
-/

namespace Mqvpn.Path

/-- What a slot has from the platform. -/
structure Tag where
  handle : Int
  fd : Int
  flags : UInt32
  weight : Nat
  attached : Bool
  deriving DecidableEq

/-- The tag of a slot. -/
def Entry.tag (p : Entry) : Tag where
  handle := p.handle
  fd := p.fd
  flags := p.flags
  weight := p.weight
  attached := p.platformAttached

/-- The event comes from the platform. -/
def Event.Manages : Event → Prop
  | .platformDrop | .removeApi | .addFd | .fdClosed => True
  | _ => False

variable {clockUs : Nat} {ctx : Ctx} {ev : Event} {p q : Entry}

@[simp]
theorem Entry.tag_enter (p : Entry) (clockUs : Nat) (new : Lifecycle) : (p.enter clockUs new).tag = p.tag := by
  rw [enter, setPathState]
  split_ifs <;> rfl

theorem Entry.tag_maybeTransitionDroppedToFree (p : Entry) (clockUs : Nat) :
    (p.maybeTransitionDroppedToFree clockUs).1.tag = p.tag := by
  rw [maybeTransitionDroppedToFree_eq]
  split_ifs
  · exact tag_enter ..
  · rfl

theorem Change.tag_eq (hc : Change clockUs ctx ev p q) (hev : ¬ev.Manages) : q.tag = p.tag := by
  cases hc with
  | ignored => rfl
  | dropped hd => rcases hd with rfl | rfl <;> exact absurd trivial hev
  | attached => exact absurd trivial hev
  | fdClosed => exact absurd trivial hev
  | resetDetached => exact Entry.tag_maybeTransitionDroppedToFree ..
  | removed => exact Entry.tag_maybeTransitionDroppedToFree ..
  | _ => exact Entry.tag_enter ..

/-- No event changes the handle of a slot. -/
theorem Change.handle_eq (hc : Change clockUs ctx ev p q) : q.handle = p.handle := by
  have hfree (r : Entry) : (r.maybeTransitionDroppedToFree clockUs).1.handle = r.handle :=
    congrArg Tag.handle (r.tag_maybeTransitionDroppedToFree clockUs)
  cases hc with
  | ignored => rfl
  | resetDetached => exact hfree _
  | removed => exact hfree _
  | fdClosed => exact hfree _
  | _ => exact Entry.handle_enter ..

theorem Entry.tag_onEvent (p : Entry) (nowUs : Nat) (ctx : Ctx) (hev : ¬ev.Manages) :
    (p.onEvent nowUs ev (some ctx)).1.tag = p.tag :=
  (change_onEvent p nowUs ev ctx).tag_eq hev

end Mqvpn.Path

namespace Mqvpn.Client

open Mqvpn.Path

/-! ## Slots -/

variable {nowUs : Nat}

theorem tag_activatePath (xq : Xquic) (i : Nat) (p : Entry) (mp : Mp) :
    (activatePath nowUs xq i p mp).1.tag = p.tag := by
  rw [activatePath]
  split_ifs
  · rfl
  · exact p.tag_onEvent nowUs _ id

theorem tags_activatePendingPaths (xq : Xquic) (paths : List Entry) (mp : Mp) :
    (activatePendingPaths nowUs xq paths mp).1.map Entry.tag = paths.map Entry.tag := by
  refine Sweep.map_sweep (fun i p mp => ?_) 0 paths mp
  split_ifs
  · rfl
  · exact tag_activatePath xq i p mp

theorem tag_recoverPath (xq : Xquic) (i : Nat) (p : Entry) (mp : Mp) :
    (recoverPath nowUs xq i p mp).1.tag = p.tag := by
  have hwarn : (residenceCheck nowUs p).tag = p.tag := by
    rw [residenceCheck]
    split_ifs <;> rfl
  have hretry : (driveRetryTimer nowUs xq i (residenceCheck nowUs p) mp).1.tag = p.tag := by
    rw [driveRetryTimer]
    split_ifs
    · exact (Entry.tag_onEvent _ nowUs _ id).trans hwarn
    · exact hwarn
  have hstable (r : Entry) : (r.tickConfirmStable nowUs).tag = r.tag := by
    rw [Entry.tickConfirmStable]
    split_ifs <;> rfl
  exact (hstable _).trans hretry

theorem tag_checkValidation (target : Lifecycle) (validated : Nat → Bool) (p : Entry) :
    (checkValidation nowUs target validated p).tag = p.tag := by
  rw [checkValidation]
  split_ifs
  · rfl
  · exact p.tag_onEvent nowUs _ id
  · rfl

theorem tag_resetPathRuntime (p : Entry) : (resetPathRuntime nowUs p).tag = p.tag :=
  Entry.tag_onEvent _ nowUs _ id

theorem tag_bootstrap (p : Entry) : (bootstrap nowUs p).tag = p.tag := Entry.tag_enter ..

theorem tag_validatePrimary (p : Entry) : (validatePrimary nowUs p).tag = p.tag := by
  rw [validatePrimary]
  split_ifs
  · exact p.tag_onEvent nowUs _ id
  · rfl

theorem tag_newPath (nowUs : Nat) (handle fd : Int) (d : Desc) :
    (newPath nowUs handle fd (some d)).tag =
      { handle, fd, flags := d.flags, weight := d.weight, attached := true } := by
  rw [newPath]
  rfl

/-- A function that keeps tags, at one place. -/
theorem map_tag_modify {f : Entry → Entry} (hf : ∀ p, (f p).tag = p.tag) (paths : List Entry) (i : Nat) :
    (paths.modify i f).map Entry.tag = paths.map Entry.tag := by
  refine List.ext_getElem? fun j => ?_
  rw [List.getElem?_map, List.getElem?_map, List.getElem?_modify]
  cases paths[j]? with
  | none => rfl
  | some p =>
    change some (if i = j then f p else p).tag = some p.tag
    split_ifs
    · rw [hf]
    · rfl

/-! ## Calls -/

/-- The tags of the slots. -/
def tags (c : Client) : List Tag := c.paths.map Entry.tag

/-- The call is one by which the platform manages paths. -/
def Call.managesPaths : Call → Bool
  | .addPathFd .. | .setPathWeight .. | .removePath .. | .onPlatformPathDropped _ | .onPlatformFdClosed _
  | .reactivatePath .. => true
  | _ => false

variable {c : Client}

theorem tags_reactivatePath (nowUs : Nat) (handle : Int) (xq : Xquic) :
    (c.reactivatePath nowUs handle xq).tags = c.tags := by
  rw [reactivatePath]
  split_ifs
  · rfl
  · split
    · rename_i i k _ _
      split
      · rfl
      · rename_i p hp
        split_ifs
        · refine List.ext_getElem? fun j => ?_
          change (List.map _ (c.paths.set i _))[j]? = _
          rw [List.getElem?_map, tags, List.getElem?_map, List.getElem?_set]
          split_ifs with hij hlt
          · subst hij
            rw [hp]
            exact congrArg some (p.tag_onEvent nowUs _ id)
          · rw [List.getElem?_eq_none (Nat.not_lt.1 hlt)] at hp
            cases hp
          · rfl
        · rfl
    · rfl

theorem nextPathHandle_reactivatePath (nowUs : Nat) (handle : Int) (xq : Xquic) :
    (c.reactivatePath nowUs handle xq).nextPathHandle = c.nextPathHandle := by
  rw [reactivatePath]
  split_ifs
  · rfl
  · split
    · split
      · rfl
      · split_ifs <;> rfl
    · rfl

theorem tags_startConnection (c : Client) (nowUs : Nat) (start : Start) :
    (c.startConnection nowUs start).2.tags = c.tags ∧
      (c.startConnection nowUs start).2.nextPathHandle = c.nextPathHandle := by
  rcases startConnection_cases nowUs c start with h | ⟨-, k, -, h⟩
  · rw [h]
    exact ⟨rfl, rfl⟩
  · rw [h]
    exact ⟨map_tag_modify tag_bootstrap _ _, rfl⟩

theorem tags_setState (c : Client) (nowUs : Nat) (new : State) : (c.setState nowUs new).tags = c.tags := by
  rw [tags, paths_setState]
  rfl

theorem nextPathHandle_setState (c : Client) (nowUs : Nat) (new : State) :
    (c.setState nowUs new).nextPathHandle = c.nextPathHandle := by
  rw [setState]
  split_ifs <;> rfl

theorem tags_connect (c : Client) (nowUs : Nat) (start : Start) :
    (c.connect nowUs start).tags = c.tags ∧ (c.connect nowUs start).nextPathHandle = c.nextPathHandle := by
  have hstart := tags_startConnection c nowUs start
  rw [connect]
  split_ifs
  · exact ⟨rfl, rfl⟩
  · split
    · rename_i c' hc'
      rw [hc'] at hstart
      exact hstart
    · rename_i c' hc'
      rw [hc'] at hstart
      exact ⟨(tags_setState c' nowUs .connecting).trans hstart.1,
        (nextPathHandle_setState c' nowUs .connecting).trans hstart.2⟩

theorem tags_tickReconnect (c : Client) (nowUs : Nat) (start : Start) :
    (c.tickReconnect nowUs start).tags = c.tags ∧
      (c.tickReconnect nowUs start).nextPathHandle = c.nextPathHandle := by
  have hprepare : (c.prepareReconnect nowUs).tags = c.tags := by
    change (c.paths.map (resetPathRuntime nowUs)).map Entry.tag = c.paths.map Entry.tag
    rw [List.map_map]
    exact List.map_congr_left fun p _ => tag_resetPathRuntime p
  have hstart := tags_startConnection (c.prepareReconnect nowUs) nowUs start
  rw [tickReconnect]
  split_ifs
  · exact ⟨rfl, rfl⟩
  · exact ⟨rfl, rfl⟩
  · split
    · rename_i c' hc'
      rw [hc'] at hstart
      exact ⟨hstart.1.trans hprepare, hstart.2⟩
    · rename_i c' hc'
      rw [hc'] at hstart
      exact ⟨(tags_setState c' nowUs .connecting).trans (hstart.1.trans hprepare),
        (nextPathHandle_setState c' nowUs .connecting).trans hstart.2⟩

theorem tags_tickPathRecovery (c : Client) (nowUs : Nat) (validated : Nat → Bool) (xq : Xquic) :
    (c.tickPathRecovery nowUs validated xq).tags = c.tags ∧
      (c.tickPathRecovery nowUs validated xq).nextPathHandle = c.nextPathHandle := by
  have hchecked : (c.checkAllValidations nowUs validated).map Entry.tag = c.tags := by
    rw [checkAllValidations]
    split_ifs
    all_goals first
      | rfl
      | rw [List.map_map]
        exact List.map_congr_left fun p _ => tag_checkValidation _ validated p
  rw [tickPathRecovery]
  split_ifs
  · exact ⟨rfl, rfl⟩
  · split
    · exact ⟨rfl, rfl⟩
    · exact ⟨(Sweep.map_sweep (tag_recoverPath xq) 0 _ _).trans hchecked, rfl⟩

theorem nextPathHandle_step {s : Step} (h : s.call.OffPaths) : (c.step s).nextPathHandle = c.nextPathHandle := by
  obtain ⟨nowUs, call⟩ := s
  have hcallback {f : Conn → Client} (hf : ∀ k, c.conn = some k → (f k).nextPathHandle = c.nextPathHandle) :
      (c.callback f).nextPathHandle = c.nextPathHandle := by
    rw [callback]
    split
    · rename_i k hk
      exact hf k hk
    · rfl
  cases call with
  | disconnect =>
    change (c.disconnect nowUs).nextPathHandle = _
    rw [disconnect]
    split_ifs
    · rfl
    · exact nextPathHandle_setState ..
  | setTunActive active =>
    change (c.setTunActive nowUs active).nextPathHandle = _
    rw [setTunActive]
    dsimp only
    split_ifs
    · exact nextPathHandle_setState ..
    · rfl
  | onTunPacket t =>
    change (c.onTunPacket nowUs t).1.nextPathHandle = _
    rcases onTunPacket_cases nowUs c t with he | ⟨k, tx, -, he | he⟩ <;> rw [he]
  | tickHandshakeWatchdog =>
    change (c.tickHandshakeWatchdog nowUs).nextPathHandle = _
    rw [tickHandshakeWatchdog]
    split_ifs
    · rfl
    · dsimp only
      split
      · rfl
      · exact nextPathHandle_setState ..
    · rfl
  | handshakeFinished dgramMss streamId => exact hcallback fun k _ => nextPathHandle_setState ..
  | requestHeaders ok reorder => exact hcallback fun k _ => rfl
  | requestClose => exact hcallback fun k _ => rfl
  | dgramWrite =>
    refine hcallback fun k _ => ?_
    rw [cbDgramWrite]
    dsimp only
    split_ifs <;> rfl
  | dgramMssUpdated mss =>
    refine hcallback fun k _ => ?_
    rw [cbDgramMssUpdated]
    dsimp only
    split_ifs <;> rfl
  | connClose =>
    refine hcallback fun k _ => ?_
    rw [cbH3ConnClose]
    split_ifs
    · exact nextPathHandle_setState ..
    · exact nextPathHandle_setState ..
  | _ => exact absurd h not_false

/-- The calls that do not manage paths leave the tags alone. -/
theorem tags_step {s : Step} (h : s.call.managesPaths = false) :
    (c.step s).tags = c.tags ∧ (c.step s).nextPathHandle = c.nextPathHandle := by
  by_cases hoff : s.call.OffPaths
  · exact ⟨congrArg (List.map Entry.tag) (keepsPaths_step hoff).paths, nextPathHandle_step hoff⟩
  · obtain ⟨nowUs, call⟩ := s
    cases call with
    | connect start => exact tags_connect c nowUs start
    | tickPathRecovery validated xq => exact tags_tickPathRecovery c nowUs validated xq
    | tickReconnect start => exact tags_tickReconnect c nowUs start
    | requestBody capsules buffered =>
      change (c.callback _).tags = _ ∧ (c.callback _).nextPathHandle = _
      rw [callback]
      split
      · rename_i k hk
        constructor
        · rcases keepsPaths_connectIpOnBody nowUs hk capsules buffered with hkeep | hkeep
          · exact congrArg (List.map Entry.tag) hkeep.paths
          · exact (congrArg (List.map Entry.tag) hkeep.paths).trans (map_tag_modify tag_validatePrimary _ _)
        · rw [connectIpOnBody]
          split
          · split_ifs
            · exact nextPathHandle_setState ..
            · rfl
          · rfl
      · exact ⟨rfl, rfl⟩
    | readyToCreatePath xq =>
      change (c.callback _).tags = _ ∧ (c.callback _).nextPathHandle = _
      rw [callback]
      split
      · rw [cbReadyToCreatePath]
        dsimp only
        split_ifs
        · exact ⟨tags_activatePendingPaths xq _ _, rfl⟩
        · exact ⟨rfl, rfl⟩
      · exact ⟨rfl, rfl⟩
    | pathRemoved pathId =>
      change (c.callback _).tags = _ ∧ (c.callback _).nextPathHandle = _
      rw [callback]
      split
      · rw [cbPathRemoved]
        split
        · exact ⟨rfl, rfl⟩
        · exact ⟨map_tag_modify (fun p => p.tag_onEvent nowUs _ id) _ _, rfl⟩
      · exact ⟨rfl, rfl⟩
    | addPathFd | setPathWeight | removePath | onPlatformPathDropped | onPlatformFdClosed | reactivatePath => cases h
    | _ => exact absurd trivial hoff

/-! ## Calls that manage paths -/

/-- The handle that `mqvpn_client_add_path_fd` returns. -/
def addPathHandle (c : Client) (nowUs : Nat) (fd : Int) (desc : Option Desc) : Int :=
  if fd < 0 then -1
  else
    match addPath c.paths (newPath nowUs c.nextPathHandle fd desc) with
    | none => -1
    | some _ => c.nextPathHandle

/-- The handles of the slots are different, and older than the next one. -/
structure Named (c : Client) : Prop where
  pairwise : c.tags.Pairwise fun t u => t.handle ≠ u.handle
  lt : ∀ t ∈ c.tags, t.handle < c.nextPathHandle
  pos : 0 < c.nextPathHandle

theorem Named.init (cfg : Client.Config) : (init cfg).Named :=
  ⟨List.Pairwise.nil, fun _ ht => absurd ht List.not_mem_nil, Int.one_pos⟩

theorem Named.of_tags {d : Client} (h : c.Named) (ht : d.tags = c.tags) (hn : d.nextPathHandle = c.nextPathHandle) :
    d.Named :=
  ⟨ht ▸ h.pairwise, by rw [ht, hn]; exact h.lt, hn ▸ h.pos⟩

/-- A handle names one slot. -/
theorem Named.eq_of_handle (h : c.Named) {t u : Tag} (ht : t ∈ c.tags) (hu : u ∈ c.tags) (heq : t.handle = u.handle) :
    t = u :=
  List.inj_on_of_nodup_map (List.pairwise_map.2 h.pairwise) ht hu heq

theorem Named.find_of_tag (h : c.Named) {t : Tag} (ht : t ∈ c.tags) :
    (c.paths.find? (·.handle = t.handle)).map Entry.tag = some t := by
  cases hfind : c.paths.find? (·.handle = t.handle) with
  | none =>
    obtain ⟨p, hp, rfl⟩ := List.mem_map.1 ht
    exact absurd (decide_eq_true rfl) (List.find?_eq_none.1 hfind p hp)
  | some p =>
    have hhandle : p.handle = t.handle := by simpa using List.find?_some hfind
    exact congrArg some (h.eq_of_handle (List.mem_map_of_mem (List.mem_of_find?_eq_some hfind)) ht hhandle)

/-- The calls on a handle keep the handles of all the slots. -/
theorem Named.of_handles {d : Client} (h : c.Named) (ht : d.tags.map Tag.handle = c.tags.map Tag.handle)
    (hn : d.nextPathHandle = c.nextPathHandle) : d.Named := by
  refine ⟨?_, fun t hmem => ?_, hn ▸ h.pos⟩
  · have hpair := List.pairwise_map.2 h.pairwise
    rw [← ht] at hpair
    exact List.pairwise_map.1 hpair
  · have hhandle := List.mem_map_of_mem (f := Tag.handle) hmem
    rw [ht] at hhandle
    obtain ⟨u, hu, he⟩ := List.mem_map.1 hhandle
    rw [hn, ← he]
    exact h.lt u hu

/-- The activation that may follow does not matter for the tags. -/
theorem tags_addPathFd {fd : Int} {desc : Option Desc} (xq : Xquic) {paths : List Entry} (hfd : ¬fd < 0)
    (hpaths : addPath c.paths (newPath nowUs c.nextPathHandle fd desc) = some paths) :
    (c.addPathFd nowUs fd desc xq).tags = paths.map Entry.tag ∧
      (c.addPathFd nowUs fd desc xq).nextPathHandle = c.nextPathHandle + 1 := by
  rw [addPathFd, if_neg hfd, hpaths]
  dsimp only
  split
  · split_ifs
    · exact ⟨tags_activatePendingPaths xq _ _, rfl⟩
    · exact ⟨rfl, rfl⟩
  · exact ⟨rfl, rfl⟩

/-- A new slot takes the place of one that is not attached, or comes last. -/
theorem addPath_cases {paths l : List Entry} {q : Entry} (h : addPath paths q = some l) :
    (∃ i p, paths[i]? = some p ∧ p.platformAttached = false ∧ l = paths.set i q) ∨ l = paths ++ [q] := by
  rw [addPath] at h
  split at h
  · rename_i i hi
    obtain ⟨hlt, hp, -⟩ := List.findIdx?_eq_some_iff_getElem.1 hi
    exact .inl ⟨i, paths[i], List.getElem?_eq_getElem hlt, (of_decide_eq_true hp).2.1, (Option.some.inj h).symm⟩
  · split_ifs at h
    exact .inr (Option.some.inj h).symm

theorem Named.addPath (h : c.Named) {l : List Entry} {q : Entry} (hl : addPath c.paths q = some l)
    (hq : q.handle = c.nextPathHandle) :
    (l.map Entry.tag).Pairwise (fun t u => t.handle ≠ u.handle) ∧
      (∀ t ∈ l.map Entry.tag, t.handle < c.nextPathHandle + 1) ∧ q.tag ∈ l.map Entry.tag ∧
      ∀ t ∈ c.tags, t.attached = true → t ∈ l.map Entry.tag := by
  have hnew : ∀ t ∈ c.tags, t.handle ≠ q.tag.handle := fun t ht => by
    rw [show q.tag.handle = c.nextPathHandle from hq]
    exact Int.ne_of_lt (h.lt t ht)
  have hlt : ∀ t ∈ l.map Entry.tag, t.handle < c.nextPathHandle + 1 := by
    intro t ht
    obtain ⟨p, hp, rfl⟩ := List.mem_map.1 ht
    rcases mem_addPath hl hp with rfl | hp
    · exact Int.lt_add_one_of_le (Int.le_of_eq hq)
    · exact Int.lt_add_one_of_le (Int.le_of_lt (h.lt _ (List.mem_map_of_mem hp)))
  refine ⟨?_, hlt, ?_⟩
  · rcases addPath_cases hl with ⟨i, p, -, -, rfl⟩ | rfl
    · rw [List.map_set]
      refine List.pairwise_iff_getElem.2 fun a b ha hb hab => ?_
      rw [List.length_set] at ha hb
      rw [List.getElem_set, List.getElem_set]
      split_ifs with hia hib
      · exact absurd (hia.symm.trans hib) (Nat.ne_of_lt hab)
      · exact (hnew _ (List.getElem_mem hb)).symm
      · exact hnew _ (List.getElem_mem ha)
      · exact List.pairwise_iff_getElem.1 h.pairwise a b ha hb hab
    · rw [List.map_append]
      refine List.pairwise_append.2 ⟨h.pairwise, List.pairwise_singleton .., fun t ht u hu => ?_⟩
      rw [List.mem_singleton.1 hu]
      exact hnew t ht
  · rcases addPath_cases hl with ⟨i, p, hp, hfree, rfl⟩ | rfl
    · rw [List.map_set]
      refine ⟨List.mem_set (by rw [List.length_map]; exact (List.getElem?_eq_some_iff.1 hp).1) _, fun t ht ha => ?_⟩
      obtain ⟨j, hj⟩ := List.mem_iff_getElem?.1 ht
      refine List.mem_iff_getElem?.2 ⟨j, ?_⟩
      rw [List.getElem?_set_ne ?_]
      · exact hj
      · rintro rfl
        rw [tags, List.getElem?_map, hp] at hj
        cases hj
        cases hfree.symm.trans ha
    · rw [List.map_append]
      exact ⟨List.mem_append_right _ List.mem_cons_self, fun t ht _ => List.mem_append_left _ ht⟩

/-- A path is added: a new tag appears, and the attached slots stay. -/
theorem addPathFd_cases (c : Client) (nowUs : Nat) (fd : Int) (d : Desc) (xq : Xquic) (hn : c.Named) :
    (c.addPathHandle nowUs fd (some d) < 0 ∧ c.addPathFd nowUs fd (some d) xq = c) ∨
      (c.addPathHandle nowUs fd (some d) = c.nextPathHandle ∧
        { handle := c.nextPathHandle, fd, flags := d.flags, weight := d.weight, attached := true } ∈
          (c.addPathFd nowUs fd (some d) xq).tags ∧
        (∀ t ∈ c.tags, t.attached = true → t ∈ (c.addPathFd nowUs fd (some d) xq).tags) ∧
        (c.addPathFd nowUs fd (some d) xq).Named ∧
        (c.addPathFd nowUs fd (some d) xq).nextPathHandle = c.nextPathHandle + 1) := by
  rw [addPathHandle]
  by_cases hfd : fd < 0
  · rw [if_pos hfd, addPathFd, if_pos hfd]
    exact .inl ⟨Int.negSucc_lt_zero 0, rfl⟩
  · rw [if_neg hfd]
    cases hpaths : addPath c.paths (newPath nowUs c.nextPathHandle fd (some d)) with
    | none =>
      rw [addPathFd, if_neg hfd, hpaths]
      exact .inl ⟨Int.negSucc_lt_zero 0, rfl⟩
    | some paths =>
      obtain ⟨htags, hnext⟩ := tags_addPathFd xq hfd hpaths
      have htag := tag_newPath nowUs c.nextPathHandle fd d
      obtain ⟨hpair, hlt, hmem, hold⟩ := hn.addPath hpaths (congrArg Tag.handle htag)
      rw [htag] at hmem
      rw [← htags] at hpair hlt hmem hold
      exact .inr ⟨rfl, hmem, hold, ⟨hpair, hnext ▸ hlt, by rw [hnext]; exact Int.add_pos hn.pos Int.one_pos⟩, hnext⟩

/-- A call on a handle changes the tag of its slot only, which keeps its handle. -/
theorem modify_tags {f : Entry → Entry} {handle : Int} {i : Nat} (hi : c.findPathByHandle handle = some i)
    (hf : ∀ p, (f p).handle = p.handle) :
    (∀ t ∈ c.tags, t.handle ≠ handle → t ∈ (c.paths.modify i f).map Entry.tag) ∧
      ((c.paths.modify i f).map Entry.tag).map Tag.handle = c.tags.map Tag.handle := by
  obtain ⟨hlt, hp, -⟩ := List.findIdx?_eq_some_iff_getElem.1 hi
  have hp : c.paths[i].handle = handle := of_decide_eq_true hp
  constructor
  · intro t ht hne
    obtain ⟨j, hj⟩ := List.mem_iff_getElem?.1 ht
    refine List.mem_iff_getElem?.2 ⟨j, ?_⟩
    rw [tags, List.getElem?_map] at hj
    obtain ⟨p, hpj, rfl⟩ := Option.map_eq_some_iff.1 hj
    have hij : i ≠ j := by
      rintro rfl
      rw [List.getElem?_eq_getElem hlt] at hpj
      exact hne (Option.some.inj hpj ▸ hp)
    rw [List.getElem?_map, List.getElem?_modify_ne _ _ hij, hpj]
    rfl
  · rw [tags, List.map_map, List.map_map]
    refine List.ext_getElem? fun j => ?_
    rw [List.getElem?_map, List.getElem?_map, List.getElem?_modify]
    cases c.paths[j]? with
    | none => rfl
    | some p =>
      change some (if i = j then f p else p).handle = some p.handle
      split_ifs
      · rw [hf]
      · rfl

/-- The tags of the other slots are as they were. -/
structure Spares (c d : Client) (handle : Int) : Prop where
  tags : ∀ t ∈ c.tags, t.handle ≠ handle → t ∈ d.tags
  named : c.Named → d.Named
  nextPathHandle : d.nextPathHandle = c.nextPathHandle

theorem Spares.refl (c : Client) (handle : Int) : Spares c c handle := ⟨fun _ ht _ => ht, id, rfl⟩

theorem Spares.trans {d e : Client} {handle : Int} (h : Spares c d handle) (h' : Spares d e handle) : Spares c e handle :=
  ⟨fun t ht hne => h'.tags t (h.tags t ht hne) hne, fun hn => h'.named (h.named hn),
    h'.nextPathHandle.trans h.nextPathHandle⟩

theorem spares_modify {f : Entry → Entry} {handle : Int} {i : Nat} (hi : c.findPathByHandle handle = some i)
    (hf : ∀ p, (f p).handle = p.handle) : Spares c { c with paths := c.paths.modify i f } handle := by
  obtain ⟨hother, hhandles⟩ := modify_tags hi hf
  exact ⟨hother, fun hn => hn.of_handles hhandles rfl, rfl⟩

theorem handle_onEvent (p : Entry) (nowUs : Nat) (ev : Event) : (p.onEvent nowUs ev (some { nowUs })).1.handle = p.handle :=
  (Entry.change_onEvent p nowUs ev _).handle_eq

theorem spares_onPlatformPathDropped (c : Client) (nowUs : Nat) (handle : Int) :
    Spares c (c.onPlatformPathDropped nowUs handle) handle := by
  rw [onPlatformPathDropped]
  split
  · exact .refl c handle
  · exact spares_modify ‹_› fun p => handle_onEvent p nowUs _

theorem spares_onPlatformFdClosed (c : Client) (nowUs : Nat) (handle : Int) :
    Spares c (c.onPlatformFdClosed nowUs handle) handle := by
  rw [onPlatformFdClosed]
  split
  · exact .refl c handle
  · exact spares_modify ‹_› fun p => handle_onEvent p nowUs _

theorem spares_removePath (c : Client) (nowUs : Nat) (handle : Int) (closed : Bool) :
    Spares c (c.removePath nowUs handle closed) handle := by
  rw [removePath]
  split
  · exact .refl c handle
  · rename_i i hi
    split
    · exact .refl c handle
    · split_ifs
      · exact .refl c handle
      · have hspares := spares_modify hi fun p => handle_onEvent p nowUs .removeApi
        dsimp only
        split_ifs
        · exact ⟨hspares.tags, fun hn => (hspares.named hn).of_tags rfl rfl, rfl⟩
        · exact hspares

/-- The library finds a slot by its handle. -/
theorem findPathByHandle_isSome {t : Tag} (ht : t ∈ c.tags) : (c.findPathByHandle t.handle).isSome = true := by
  obtain ⟨p, hp, rfl⟩ := List.mem_map.1 ht
  exact List.findIdx?_isSome.trans (List.any_eq_true.2 ⟨p, hp, decide_eq_true rfl⟩)

/-- A weight reaches the slot with the handle. -/
theorem setPathWeight_tags (c : Client) (hn : c.Named) (handle : Int) (weight : Nat) :
    Spares c (c.setPathWeight handle weight) handle ∧
      ∀ t ∈ c.tags, t.handle = handle → { t with weight } ∈ (c.setPathWeight handle weight).tags := by
  rw [setPathWeight]
  split
  · rename_i hnone
    refine ⟨.refl c handle, fun t ht hh => ?_⟩
    obtain ⟨p, hp, rfl⟩ := List.mem_map.1 ht
    exact absurd hh (by simpa [Entry.tag] using List.findIdx?_eq_none_iff.1 hnone p hp)
  · rename_i i hi
    have hspares := spares_modify (f := fun p => { p with weight }) hi fun p => rfl
    have hweight : ∀ t ∈ c.tags, t.handle = handle →
        { t with weight } ∈ (c.paths.modify i fun p => { p with weight }).map Entry.tag := by
      intro t ht hh
      obtain ⟨hlt, hp, -⟩ := List.findIdx?_eq_some_iff_getElem.1 hi
      have hp : c.paths[i].handle = handle := of_decide_eq_true hp
      -- the slots have different handles, so that it is the same one
      have heq := hn.eq_of_handle ht (List.mem_map_of_mem (List.getElem_mem hlt)) (hh.trans hp.symm)
      refine List.mem_iff_getElem?.2 ⟨i, ?_⟩
      rw [heq, List.getElem?_map, List.getElem?_modify_eq, List.getElem?_eq_getElem hlt]
      rfl
    dsimp only
    split
    · split_ifs
      · exact ⟨⟨hspares.tags, fun hn => (hspares.named hn).of_tags rfl rfl, rfl⟩, hweight⟩
      · exact ⟨hspares, hweight⟩
    · exact ⟨hspares, hweight⟩

end Mqvpn.Client
