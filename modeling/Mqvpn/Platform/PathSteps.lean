import Mqvpn.Lib.Runs
import Mqvpn.Platform.LinuxPaths

/-!
# What happens to the paths of the platform

The changes that the events of the Linux platform make to its paths, said once: a path gets
a new socket or is left without one (`Readd`), a path is added (`Added`), and what concerns
none of the paths (`Aside`). A property that these changes keep is kept by every event
(`Stable.step`); of the re-adds, only those that the run allows are looked at (`EveryReadd`).
-/

namespace Mqvpn.LinuxPaths

open Mqvpn.Path Client Function Runs

/-! ## Re-adds -/

/-- The library has one more path, whose slot may be gone again, and the attached slots are
    as they were. -/
structure Gains (c d : Client) : Prop where
  tags : ∀ t ∈ c.tags, t.attached = true → t ∈ d.tags
  named : d.Named
  nextPathHandle : d.nextPathHandle = c.nextPathHandle + 1

/-- The tag of a slot for the path, as `recovery_register_with_lib` and the others fill it in. -/
def tagOf (handle fd : Int) (backup : Bool) : Tag where
  handle
  fd
  flags := (desc backup).flags
  weight := 0
  attached := true

/-- The library has a place for a path that is re-added, and xquic grants it. -/
def Grants (s : LinuxPaths) (env : Env) : Prop :=
  0 ≤ s.client.addPathHandle env.nowUs s.nextFd (some (desc false)) ∧
    s.client.addPathOutcome env.nowUs s.nextFd (some (desc false)) env.xq = .ok

instance (s : LinuxPaths) (env : Env) : Decidable (s.Grants env) := inferInstanceAs (Decidable (_ ∧ _))

/-- What a re-add can do to the path `i`. -/
inductive Readd (s : LinuxPaths) (i : Nat) (env : Env) : LinuxPaths → Prop
  /-- The library has no place for the path. -/
  | unregistered : Readd s i env { s with
      nextFd := s.nextFd + 1
      isOpen := update s.isOpen s.nextFd false
      pinned := update s.pinned s.nextFd (some (s.paths i).iface)
      paths := update s.paths i { s.paths i with fd := -1, platformAttached := false } }
  /-- The path is registered, but xquic has not granted it. -/
  | rolledBack (c : Client) (next : Nat → Nat) : Gains s.client c → Readd s i env { s with
      client := c
      nextFd := s.nextFd + 1
      isOpen := update s.isOpen s.nextFd false
      pinned := update s.pinned s.nextFd (some (s.paths i).iface)
      libPathHandles := update s.libPathHandles i s.client.nextPathHandle
      pathRecoverFailures := update s.pathRecoverFailures i (next (s.pathRecoverFailures i))
      paths := update s.paths i { s.paths i with
        fd := -1
        platformAttached := false
        failures := next (s.paths i).failures } }
  /-- The path is back. -/
  | added (c : Client) : s.Grants env → Gains s.client c →
      tagOf s.client.nextPathHandle s.nextFd false ∈ c.tags → Readd s i env { s with
      client := c
      nextFd := s.nextFd + 1
      isOpen := update s.isOpen s.nextFd true
      pinned := update s.pinned s.nextFd (some (s.paths i).iface)
      libPathHandles := update s.libPathHandles i s.client.nextPathHandle
      evUdp := update s.evUdp i (some s.nextFd)
      pathRecoverFailures := update s.pathRecoverFailures i 0
      paths := update s.paths i { s.paths i with
        fd := s.nextFd
        platformAttached := true
        failures := 0 } }

variable {s s' : LinuxPaths} {i : Nat}

theorem Gains.removePath {c d : Client} (h : Gains c d) (hc : c.Named) (nowUs : Nat) (closed : Bool) :
    Gains c (d.removePath nowUs c.nextPathHandle closed) := by
  have hspares := spares_removePath d nowUs c.nextPathHandle closed
  refine ⟨fun t ht ha => ?_, hspares.named h.named, hspares.nextPathHandle.trans h.nextPathHandle⟩
  exact hspares.tags t (h.tags t ht ha) (Int.ne_of_lt (hc.lt t ht))

theorem readd_readd (hn : s.client.Named) (i : Nat) (env : Env) : Readd s i env (s.readd i env).2 := by
  -- the socket is pinned before it is given to the library
  have hpinned (handle : Int) : (s.handedUnpinned || decide (0 ≤ handle ∧ (s.paths i).iface ≠ "" ∧
      some (s.paths i).iface ≠ some (s.paths i).iface)) = s.handedUnpinned := by simp
  rcases addPathFd_cases s.client env.nowUs s.nextFd (desc false) env.xq hn with
    ⟨hneg, hsame⟩ | ⟨hhandle, hmem, htags, hnamed, hnext⟩
  · simp only [LinuxPaths.readd, addPathFd, setPath, pin, openSocket, closeFd, update_self, update_idem, hneg, hsame,
      if_true, hpinned]
    exact .unregistered
  · have hgains : Gains s.client (s.client.addPathFd env.nowUs s.nextFd (some (desc false)) env.xq) :=
      ⟨htags, hnamed, hnext⟩
    have hpos : ¬s.client.nextPathHandle < 0 := Int.not_lt.2 (Int.le_of_lt hn.pos)
    simp only [LinuxPaths.readd, addPathFd, setPath, pin, openSocket, closeFd, recoveryRollback, update_self, update_idem,
      hhandle, hpos, if_false, hpinned]
    split
    · exact .rolledBack _ (fun n => if _ = Outcome.permanentFail then pathRecoverFailureLimit else n + 1)
        (hgains.removePath hn env.nowUs env.closePath)
    · rename_i hok
      exact .added _ ⟨hhandle ▸ Int.not_lt.1 hpos, not_not.1 hok⟩ hgains hmem

/-! ## Changes beside the paths -/

/-- Nothing has happened to the paths: a socket may have come and gone. -/
structure Aside (s s' : LinuxPaths) : Prop where
  nPaths : s'.nPaths = s.nPaths
  paths : ∀ i < s.nPaths, s'.paths i = s.paths i
  libPathHandles : ∀ i < s.nPaths, s'.libPathHandles i = s.libPathHandles i
  evUdp : ∀ i < s.nPaths, s'.evUdp i = s.evUdp i
  pathRecoverFailures : s'.pathRecoverFailures = s.pathRecoverFailures
  routeGateBlocked : s'.routeGateBlocked = s.routeGateBlocked
  nextFd : s.nextFd ≤ s'.nextFd
  isOpen : ∀ fd, s'.isOpen fd = true → s.isOpen fd = true
  pinned : ∀ fd < s.nextFd, s'.pinned fd = s.pinned fd
  handedUnpinned : s'.handedUnpinned = s.handedUnpinned
  tags : ∀ t ∈ s.client.tags, t.attached = true → t ∈ s'.client.tags
  named : s.client.Named → s'.client.Named
  nextPathHandle : s.client.nextPathHandle ≤ s'.client.nextPathHandle

theorem Aside.refl (s : LinuxPaths) : Aside s s :=
  ⟨rfl, fun _ _ => rfl, fun _ _ => rfl, fun _ _ => rfl, rfl, rfl, Int.le_refl _, fun _ => id, fun _ _ => rfl, rfl,
    fun _ ht _ => ht, id, Int.le_refl _⟩

/-- The library has changed, but not what it has from the platform. -/
theorem aside_client {c : Client} (ht : c.tags = s.client.tags) (hn : c.nextPathHandle = s.client.nextPathHandle) :
    Aside s { s with client := c } where
  nPaths := rfl
  paths _ _ := rfl
  libPathHandles _ _ := rfl
  evUdp _ _ := rfl
  pathRecoverFailures := rfl
  routeGateBlocked := rfl
  nextFd := Int.le_refl _
  isOpen _ := id
  pinned _ _ := rfl
  handedUnpinned := rfl
  tags _ hmem _ := ht ▸ hmem
  named h := h.of_tags ht hn
  nextPathHandle := Int.le_of_eq hn.symm

theorem compact_of_lt {α : Type} (f : Nat → α) {n idx : Nat} (clear : α) (h : i < idx) : compact f n idx clear i = f i :=
  if_pos h

/-- The place that an element of a compacted array comes from. -/
def skip (idx i : Nat) : Nat := if i < idx then i else i + 1

theorem compact_eq {α : Type} (f : Nat → α) {n idx : Nat} (clear : α) (h : i < n - 1) :
    compact f n idx clear i = f (skip idx i) := by
  rw [compact, skip, if_pos (Nat.add_lt_of_lt_sub h)]
  split_ifs <;> rfl

theorem skip_lt {n idx : Nat} (h : i < n - 1) : skip idx i < n := by
  rw [skip]
  split_ifs <;> omega

theorem skip_ne (idx i : Nat) : skip idx i ≠ idx := by
  rw [skip]
  split_ifs <;> omega

theorem skip_inj {idx i j : Nat} (h : skip idx i = skip idx j) : i = j := by
  rw [skip, skip] at h
  split_ifs at h <;> omega

/-- Every other place is one that an element comes from. -/
theorem exists_skip {n idx j : Nat} (hidx : idx < n) (hj : j < n) (hne : j ≠ idx) : ∃ i < n - 1, skip idx i = j := by
  rcases Nat.lt_or_gt_of_ne hne with hlt | hgt
  · exact ⟨j, by omega, if_pos hlt⟩
  · refine ⟨j - 1, by omega, ?_⟩
    rw [skip, if_neg (by omega)]
    omega

/-- The platform with one more path. -/
def withPath (s : LinuxPaths) (c : Client) (mp : PathSlot) (handle : Int) (ev : Option Int) (pinned : Int → Option String)
    (handedUnpinned : Bool) : LinuxPaths :=
  { s with
    client := c
    nextFd := s.nextFd + 1
    isOpen := update s.isOpen s.nextFd true
    pinned
    handedUnpinned
    libPathHandles := update s.libPathHandles s.nPaths handle
    evUdp := update s.evUdp s.nPaths ev
    paths := update s.paths s.nPaths mp
    nPaths := s.nPaths + 1 }

/-- A new path is taken back before it has become one. -/
theorem aside_takenBack (c : Client) (mp : PathSlot) (handle : Int) (ev : Option Int) (pinned : Int → Option String)
    (hnext : 0 ≤ s.nextFd) (hfd : mp.fd = s.nextFd) (hpinned : ∀ fd < s.nextFd, pinned fd = s.pinned fd)
    (htags : ∀ t ∈ s.client.tags, t.attached = true → t ∈ c.tags) (hnamed : s.client.Named → c.Named)
    (hhandle : s.client.nextPathHandle ≤ c.nextPathHandle) :
    Aside s ((s.withPath c mp handle ev pinned s.handedUnpinned).pathMgrRemoveAt s.nPaths) := by
  have hmp : (s.withPath c mp handle ev pinned s.handedUnpinned).paths s.nPaths = mp := update_self ..
  have hlt : ¬(s.withPath c mp handle ev pinned s.handedUnpinned).nPaths ≤ s.nPaths :=
    Nat.not_le.2 (Nat.lt_succ_self s.nPaths)
  rw [pathMgrRemoveAt, if_neg hlt, hmp, hfd, if_pos hnext]
  refine
    { nPaths := rfl
      paths := fun i hi => (compact_of_lt _ _ hi).trans (update_of_ne (Nat.ne_of_lt hi) _ _)
      libPathHandles := fun i hi => update_of_ne (Nat.ne_of_lt hi) _ _
      evUdp := fun i hi => update_of_ne (Nat.ne_of_lt hi) _ _
      pathRecoverFailures := rfl
      routeGateBlocked := rfl
      nextFd := Int.le_of_lt (Int.lt_succ _)
      isOpen := fun fd hopen => ?_
      pinned := hpinned
      handedUnpinned := rfl
      tags := htags
      named := hnamed
      nextPathHandle := hhandle }
  change update (update s.isOpen s.nextFd true) s.nextFd false fd = true at hopen
  rw [update_idem, update_apply] at hopen
  split_ifs at hopen
  exact hopen

/-! ## New paths -/

/-- There is a place for a new path with a socket, here and in the library. -/
def Accepts (s : LinuxPaths) (backup : Bool) (env : Env) : Prop :=
  s.nPaths < maxPaths ∧ env.socket = true ∧ 0 ≤ s.client.addPathHandle env.nowUs s.nextFd (some (desc backup))

instance (s : LinuxPaths) (backup : Bool) (env : Env) : Decidable (s.Accepts backup env) :=
  inferInstanceAs (Decidable (_ ∧ _))

/-- What can come of a new path: `pins` is whether its socket is pinned, and `granted` is what
    is needed for the path to be there in the end. -/
inductive Added (s : LinuxPaths) (iface : String) (backup pins : Bool) (granted : Prop) : LinuxPaths → Prop
  | aside (s' : LinuxPaths) : Aside s s' → Added s iface backup pins granted s'
  | added (c : Client) (pinned : Int → Option String) (handedUnpinned : Bool) : granted → Gains s.client c →
      tagOf s.client.nextPathHandle s.nextFd backup ∈ c.tags → (∀ fd < s.nextFd, pinned fd = s.pinned fd) →
      (pins = true ∨ iface = "" → handedUnpinned = s.handedUnpinned) → (pins = true → pinned s.nextFd = some iface) →
      Added s iface backup pins granted (s.withPath c { fd := s.nextFd, iface, platformAttached := true, backup }
        s.client.nextPathHandle (some s.nextFd) pinned handedUnpinned)

theorem added_platformAddPath (hn : s.client.Named) (hnext : 0 ≤ s.nextFd) (iface : String) (backup : Bool) (env : Env) :
    Added s iface backup true (iface ≠ "" ∧ s.Accepts backup env ∧ env.pin = true ∧ env.eventNew = true)
      (s.platformAddPath iface backup env) := by
  rw [platformAddPath]
  by_cases hiface : iface = ""
  · rw [if_pos hiface]
    exact .aside _ (.refl s)
  rw [if_neg hiface]
  by_cases hfull : maxPaths ≤ s.nPaths ∨ env.socket = false
  · simp only [pathMgrAdd, if_pos hfull]
    exact .aside _ (.refl s)
  simp only [pathMgrAdd, if_neg hfull]
  rw [not_or, Nat.not_le, Bool.not_eq_false] at hfull
  let mp : PathSlot := { fd := s.nextFd, iface, platformAttached := true, backup }
  split
  · -- the socket could not be pinned
    have h := aside_takenBack s.client mp (s.libPathHandles s.nPaths) (s.evUdp s.nPaths) s.pinned hnext rfl (fun _ _ => rfl)
      (fun _ ht _ => ht) id (Int.le_refl _)
    simp only [withPath, update_eq_self] at h
    exact .aside _ h
  · rename_i hpinned
    have hpin : ∀ fd < s.nextFd, update s.pinned s.nextFd (some iface) fd = s.pinned fd :=
      fun fd hfd => update_of_ne (Int.ne_of_lt hfd) _ _
    rcases addPathFd_cases s.client env.nowUs s.nextFd (desc backup) env.xq hn with
      ⟨hneg, hsame⟩ | ⟨hhandle, hmem, htags, hnamed, hnextHandle⟩
    · have h := aside_takenBack s.client mp (s.client.addPathHandle env.nowUs s.nextFd (some (desc backup)))
        (s.evUdp s.nPaths) _ hnext rfl hpin (fun _ ht _ => ht) id (Int.le_refl _)
      simp only [withPath, update_eq_self] at h
      refine .aside _ ?_
      simpa [addPathFd, pin, openSocket, hneg, hsame] using h
    · have hpos : ¬s.client.nextPathHandle < 0 := Int.not_lt.2 (Int.le_of_lt hn.pos)
      have haccepts : s.Accepts backup env := ⟨hfull.1, hfull.2, hhandle ▸ Int.not_lt.1 hpos⟩
      have hgains : Gains s.client (s.client.addPathFd env.nowUs s.nextFd (some (desc backup)) env.xq) :=
        ⟨htags, hnamed, hnextHandle⟩
      simp only [addPathFd, pin, openSocket, update_self, hhandle, hpos, if_false]
      split
      · -- the path could not be watched
        have hgone := hgains.removePath hn env.nowUs env.closePath
        have h := aside_takenBack _ mp s.client.nextPathHandle none _ hnext rfl hpin hgone.tags (fun _ => hgone.named)
          (by rw [hgone.nextPathHandle]; exact Int.le_of_lt (Int.lt_succ _))
        refine .aside _ ?_
        simpa [withPath] using h
      · rename_i hwatched
        have hgranted : iface ≠ "" ∧ s.Accepts backup env ∧ env.pin = true ∧ env.eventNew = true :=
          ⟨hiface, haccepts, by simpa using hpinned, by simpa using hwatched⟩
        have hpins : true = true → update s.pinned s.nextFd (some iface) s.nextFd = some iface := fun _ => update_self ..
        have h := Added.added _ _ s.handedUnpinned hgranted hgains hmem hpin (fun _ => rfl) hpins
        simpa [withPath] using h

/-- The same for a backup path at the start, but for the pin. -/
theorem added_startBackup (hn : s.client.Named) (hnext : 0 ≤ s.nextFd) (p : String × Env) :
    Added s p.1 true false (s.Accepts true p.2) (s.startBackup p) := by
  rw [startBackup]
  by_cases hfull : maxPaths ≤ s.nPaths ∨ p.2.socket = false
  · simp only [pathMgrAdd, if_pos hfull]
    exact .aside _ (.refl s)
  simp only [pathMgrAdd, if_neg hfull]
  rw [not_or, Nat.not_le, Bool.not_eq_false] at hfull
  rcases addPathFd_cases s.client p.2.nowUs s.nextFd (desc true) p.2.xq hn with
    ⟨hneg, hsame⟩ | ⟨hhandle, hmem, htags, hnamed, hnextHandle⟩
  · let mp : PathSlot := { fd := s.nextFd, iface := p.1, platformAttached := true, backup := true }
    have h := aside_takenBack s.client mp (s.client.addPathHandle p.2.nowUs s.nextFd (some (desc true)))
      (s.evUdp s.nPaths) s.pinned hnext rfl (fun _ _ => rfl) (fun _ ht _ => ht) id (Int.le_refl _)
    simp only [withPath, update_eq_self] at h
    refine .aside _ ?_
    simpa [addPathFd, openSocket, hneg, hsame, Int.not_le.2 hneg] using h
  · have hpos : ¬s.client.nextPathHandle < 0 := Int.not_lt.2 (Int.le_of_lt hn.pos)
    simp only [addPathFd, openSocket, update_self, hhandle, hpos, if_false]
    refine Added.added _ _ _ ⟨hfull.1, hfull.2, hhandle ▸ Int.not_lt.1 hpos⟩ ⟨htags, hnamed, hnextHandle⟩ hmem
      (fun _ _ => rfl) (fun hnamed => ?_) fun h => by cases h
    simp [hnamed.resolve_left Bool.false_ne_true]

/-! ## Paths that go -/

/-- The platform after a path lost its socket. -/
def dropped (s : LinuxPaths) (i : Nat) (c : Client) : LinuxPaths :=
  { s with
    client := c
    evUdp := update s.evUdp i none
    isOpen := update s.isOpen (s.paths i).fd false
    paths := update s.paths i { s.paths i with fd := -1, platformAttached := false } }

theorem removePathByIndex_cases (s : LinuxPaths) (env : Env) (i : Nat) :
    s.removePathByIndex env i = s ∨ 0 ≤ (s.paths i).fd ∧ ∃ c, Spares s.client c (s.libPathHandles i) ∧
      s.removePathByIndex env i = s.dropped i c := by
  rw [removePathByIndex]
  by_cases hfd : (s.paths i).fd < 0
  · exact .inl (if_pos hfd)
  · refine .inr ⟨Int.not_lt.1 hfd, _, ?_, if_neg hfd⟩
    exact (spares_onPlatformPathDropped ..).trans (spares_onPlatformFdClosed ..)

/-- The platform without a path. -/
def without (s : LinuxPaths) (idx : Nat) (c : Client) : LinuxPaths :=
  { s with
    client := c
    evUdp := compact s.evUdp s.nPaths idx none
    libPathHandles := compact s.libPathHandles s.nPaths idx (-1)
    isOpen := if 0 ≤ (s.paths idx).fd then update s.isOpen (s.paths idx).fd false else s.isOpen
    paths := compact s.paths s.nPaths idx {}
    nPaths := s.nPaths - 1 }

theorem findIface_lt {iface : String} (h : s.findIface iface = some i) : i < s.nPaths :=
  List.mem_range.1 (List.mem_of_find?_eq_some h)

theorem platformRemovePath_cases (s : LinuxPaths) (iface : String) (env : Env) :
    s.platformRemovePath iface env = s ∨ ∃ idx, (iface ≠ "" ∧ 1 < s.nPaths ∧ s.findIface iface = some idx) ∧
      ∃ c, Spares s.client c (s.libPathHandles idx) ∧ s.platformRemovePath iface env = s.without idx c := by
  rw [platformRemovePath]
  by_cases hrefused : iface = "" ∨ s.nPaths ≤ 1
  · exact .inl (if_pos hrefused)
  · rw [if_neg hrefused]
    rw [not_or, Nat.not_le] at hrefused
    cases hfind : s.findIface iface with
    | none => exact .inl rfl
    | some idx =>
      have hspares := (spares_removePath s.client env.nowUs (s.libPathHandles idx) env.closePath).trans
        (spares_onPlatformFdClosed _ env.nowUs (s.libPathHandles idx))
      refine .inr ⟨idx, ⟨hrefused.1, hrefused.2, rfl⟩, _, hspares, ?_⟩
      have hlt : ¬s.nPaths ≤ idx := Nat.not_le.2 (findIface_lt hfind)
      dsimp only
      rw [pathMgrRemoveAt, if_neg hlt]
      dsimp only
      split_ifs with hfd
      · simp [without, closeFd, hfd]
      · simp [without, hfd]

/-! ## Weights -/

/-- The platform after a weight was set. -/
def weighed (s : LinuxPaths) (i : Nat) (c : Client) (weight : Nat) : LinuxPaths :=
  { s with
    client := c
    paths := update s.paths i { s.paths i with weight } }

theorem platformSetPathWeight_cases (s : LinuxPaths) (iface : String) (weight : Nat) :
    s.platformSetPathWeight iface weight = s ∨ ∃ idx < s.nPaths, ∃ last,
      ((s.client.findPathByHandle (s.libPathHandles idx)).isSome = true → last = weight) ∧
      s.platformSetPathWeight iface weight =
        s.weighed idx (s.client.setPathWeight (s.libPathHandles idx) weight) last := by
  rw [platformSetPathWeight]
  split
  · exact .inl rfl
  split
  · exact .inl rfl
  rename_i idx hfind
  dsimp only
  split
  · exact .inl rfl
  refine .inr ⟨idx, findIface_lt hfind, ?_⟩
  by_cases hknown : (s.client.findPathByHandle (s.libPathHandles idx)).isSome = true
  · refine ⟨weight, fun _ => rfl, ?_⟩
    simp only [hknown, if_true]
    rfl
  · refine ⟨(s.paths idx).weight, fun h => absurd h hknown, ?_⟩
    rw [Bool.eq_false_iff.2 hknown]
    rfl

/-! ## Counts -/

/-- Only what is counted for the paths has changed. -/
structure Recount (s s' : LinuxPaths) : Prop where
  client : s'.client = s.client
  nPaths : s'.nPaths = s.nPaths
  paths : ∀ i, ∃ failures blocked, s'.paths i = { s.paths i with failures, blocked }
  libPathHandles : s'.libPathHandles = s.libPathHandles
  evUdp : s'.evUdp = s.evUdp
  nextFd : s'.nextFd = s.nextFd
  isOpen : s'.isOpen = s.isOpen
  pinned : s'.pinned = s.pinned
  handedUnpinned : s'.handedUnpinned = s.handedUnpinned

theorem recount_routeGate (s : LinuxPaths) (i : Nat) (blocks : Bool) : Recount s (s.routeGate i blocks) := by
  refine ⟨rfl, rfl, fun j => ?_, rfl, rfl, rfl, rfl, rfl, rfl⟩
  by_cases hji : j = i
  · subst hji
    exact ⟨_, _, update_self ..⟩
  · exact ⟨_, _, update_of_ne hji _ _⟩

theorem recount_resetFailures (s : LinuxPaths) : Recount s s.resetFailures :=
  ⟨rfl, rfl, fun _ => ⟨_, _, rfl⟩, rfl, rfl, rfl, rfl, rfl, rfl⟩

/-! ## Events -/

/-- The condition holds of the path that the call re-adds, if any. -/
def Readds (P : LinuxPaths → Nat → Env → Prop) (s : LinuxPaths) (ifname : String) (env : Env) : Prop :=
  ∀ i ∈ s.readdIndex ifname env, P s i env

/-- The condition holds of the path that a round of the timer re-adds, if any. -/
def RoundReadds (P : LinuxPaths → Nat → Env → Prop) (pinfo : List Entry) (env : Nat → Env) (s : LinuxPaths) (i : Nat) : Prop :=
  s.Retries pinfo (env i) i → (env i).hasRoute (s.paths i).iface ≠ some false →
    (s.routeGate i false).Readds P (s.paths i).iface (env i)

/-- The condition holds of the paths that are re-added when the state of the client changes. -/
def ChangeReadds (P : LinuxPaths → Nat → Env → Prop) (env : Nat → Env) (s : LinuxPaths) : Output → Prop
  | .stateChanged _ .established =>
    Along (establishedRound env) (fun s i => (s.paths i).fd < 0 → s.Readds P (s.paths i).iface (env i)) s
      (List.range s.nPaths)
  | _ => True

/-- The condition holds of every path that the event re-adds, just before it does. -/
def EveryReadd (P : LinuxPaths → Nat → Env → Prop) (s : LinuxPaths) : Event → Prop
  | .newAddr ifname env => s.Readds P ifname env
  | .newLink ifname up running operDown env =>
    up = true → operDown = false → running = true → s.Readds P ifname env
  | .timer env =>
    Along (recoverRound s.client.paths env) (RoundReadds P s.client.paths env) s (List.range s.nPaths)
  | .client call env => call.call.managesPaths = false →
    Along (cbStateChanged env) (ChangeReadds P env) { s with client := s.client.step call }
      ((s.client.step call).trace.drop s.client.trace.length)
  | _ => True

section Decidable

variable {P : LinuxPaths → Nat → Env → Prop} [∀ s i env, Decidable (P s i env)]

instance (s : LinuxPaths) (ifname : String) (env : Env) : Decidable (s.Readds P ifname env) :=
  inferInstanceAs (Decidable (∀ i ∈ s.readdIndex ifname env, P s i env))

instance (pinfo : List Entry) (env : Nat → Env) (s : LinuxPaths) (i : Nat) : Decidable (RoundReadds P pinfo env s i) :=
  inferInstanceAs (Decidable (_ → _ → _))

instance (env : Nat → Env) (s : LinuxPaths) : ∀ o : Output, Decidable (ChangeReadds P env s o)
  | .stateChanged _ .established => inferInstanceAs (Decidable (Along _ _ _ _))
  | .stateChanged _ .idle | .stateChanged _ .connecting | .stateChanged _ .authenticating
  | .stateChanged _ .tunnelReady | .stateChanged _ .reconnecting | .stateChanged _ .closed | .tunnelConfigReady _
  | .tunnelClosed | .readyForTun | .mtuUpdated _ | .reconnectScheduled _ => inferInstanceAs (Decidable True)

instance (s : LinuxPaths) : ∀ e : Event, Decidable (s.EveryReadd P e)
  | .newAddr ifname env => inferInstanceAs (Decidable (s.Readds P ifname env))
  | .newLink ifname up running operDown env =>
    inferInstanceAs (Decidable (up = true → operDown = false → running = true → s.Readds P ifname env))
  | .timer env => inferInstanceAs (Decidable (Along (recoverRound s.client.paths env) _ s _))
  | .client call env => inferInstanceAs (Decidable (call.call.managesPaths = false → Along (cbStateChanged env) _ _ _))
  | .delAddr .. | .delLink .. | .addPath .. | .removePath .. | .setPathWeight .. => inferInstanceAs (Decidable True)

end Decidable

/-- A property that the changes of the paths keep, if the paths that are re-added meet a
    condition. -/
structure Stable (J : LinuxPaths → Prop) (P : LinuxPaths → Nat → Env → Prop) : Prop where
  named : ∀ s, J s → s.client.Named
  aside : ∀ s s', J s → Aside s s' → J s'
  dropped : ∀ s i c, J s → i < s.nPaths → 0 ≤ (s.paths i).fd → Spares s.client c (s.libPathHandles i) → J (s.dropped i c)
  readd : ∀ s i env s', J s → i < s.nPaths → P s i env → Readd s i env s' → J s'
  routeGate : ∀ s i blocks, J s → J (s.routeGate i blocks)
  resetFailures : ∀ s, J s → J s.resetFailures

namespace Stable

variable {J : LinuxPaths → Prop} {P : LinuxPaths → Nat → Env → Prop}

theorem readdIndex_lt {ifname : String} {env : Env} (h : s.readdIndex ifname env = some i) : i < s.nPaths := by
  rw [readdIndex] at h
  split at h
  · split at h
    · rename_i j hj
      split at h
      · cases h
        exact List.mem_range.1 (List.mem_of_find?_eq_some hj)
      · cases h
    · cases h
  · cases h

theorem tryReaddRemovedPath (h : Stable J P) (hs : J s) {ifname : String} {env : Env} (hP : s.Readds P ifname env) :
    J (s.tryReaddRemovedPath ifname env).2 := by
  rw [LinuxPaths.tryReaddRemovedPath]
  split
  · rename_i i hi
    exact h.readd s i env _ hs (readdIndex_lt hi) (hP i hi) (readd_readd (h.named s hs) i env)
  · exact hs

theorem tryReactivateByIfname (h : Stable J P) (hs : J s) (ifname : String) (env : Env) :
    J (s.tryReactivateByIfname ifname env) := by
  rw [LinuxPaths.tryReactivateByIfname]
  split
  · exact hs
  · refine List.foldlRecOn (motive := J) _ _ hs fun s hs i _ => ?_
    rw [reactivateRound]
    split
    · exact h.aside s _ hs (aside_client (tags_reactivatePath ..) (nextPathHandle_reactivatePath ..))
    · exact hs

theorem recover (h : Stable J P) (hs : J s) {ifname : String} {env : Env} (hP : s.Readds P ifname env) :
    J (s.recover ifname env) := by
  have hreadd := h.tryReaddRemovedPath hs hP
  rw [LinuxPaths.recover]
  split
  · rename_i s' heq
    rw [heq] at hreadd
    exact hreadd
  · rename_i s' heq
    rw [heq] at hreadd
    exact h.tryReactivateByIfname hreadd ifname env

theorem dropPathsByIfname (h : Stable J P) (hs : J s) (ifname : String) (env : Env) :
    J (s.dropPathsByIfname ifname env) := by
  -- no round changes the number of the paths
  refine (List.foldlRecOn (motive := fun s' => J s' ∧ s'.nPaths = s.nPaths) (List.range s.nPaths) _ ⟨hs, rfl⟩
    fun s' hs' i hi => ?_).1
  split
  · rcases removePathByIndex_cases s' env i with heq | ⟨hfd, c, hspares, heq⟩
    · rw [heq]
      exact hs'
    · rw [heq]
      exact ⟨h.dropped s' i c hs'.1 (hs'.2 ▸ List.mem_range.1 hi) hfd hspares, hs'.2⟩
  · exact hs'

theorem recoverRound (h : Stable J P) (hs : J s) {pinfo : List Entry} {env : Nat → Env}
    (hP : RoundReadds P pinfo env s i) : J (recoverRound pinfo env s i) := by
  rw [LinuxPaths.recoverRound]
  split
  · exact h.tryReactivateByIfname hs _ _
  · split
    · rename_i hretries
      split
      · exact h.routeGate s i true hs
      · rename_i hroute
        exact h.tryReaddRemovedPath (h.routeGate s i false hs) (hP hretries hroute)
    · exact hs

theorem cbStateChanged (h : Stable J P) (hs : J s) {env : Nat → Env} {o : Output} (hP : ChangeReadds P env s o) :
    J (cbStateChanged env s o) := by
  have hestablished (hP : Along (establishedRound env)
      (fun s i => (s.paths i).fd < 0 → s.Readds P (s.paths i).iface (env i)) s (List.range s.nPaths)) :
      J ((List.range s.nPaths).foldl (establishedRound env) s) := by
    refine foldl_of_along (J := J) (fun s i hs hP => ?_) hs hP
    rw [establishedRound]
    split
    · exact h.tryReaddRemovedPath hs (hP ‹_›)
    · exact hs
  match o with
  | .stateChanged _ .established => exact hestablished hP
  | .stateChanged _ .reconnecting | .stateChanged _ .closed => exact h.resetFailures s hs
  | .stateChanged _ .idle | .stateChanged _ .connecting | .stateChanged _ .authenticating
  | .stateChanged _ .tunnelReady | .tunnelConfigReady _ | .tunnelClosed | .readyForTun | .mtuUpdated _
  | .reconnectScheduled _ => exact hs

/-- The rule for the events; those of the control socket are looked at one by one. -/
theorem step (h : Stable J P) (hs : J s) (e : Event) (hP : s.EveryReadd P e)
    (hadd : ∀ iface backup env, e = .addPath iface backup env → J (s.platformAddPath iface backup env))
    (hremove : ∀ iface env, e = .removePath iface env → J (s.platformRemovePath iface env))
    (hweight : ∀ iface weight, J (s.platformSetPathWeight iface weight)) : J (s.step e) := by
  cases e with
  | newAddr ifname env => exact h.recover hs hP
  | delAddr ifname serverFamily env =>
    rw [LinuxPaths.step, handleRtmDeladdr]
    split
    · exact h.dropPathsByIfname hs ifname env
    · exact hs
  | delLink ifname env => exact h.dropPathsByIfname hs ifname env
  | newLink ifname up running operDown env =>
    rw [LinuxPaths.step, handleRtmNewlink]
    split
    · exact h.dropPathsByIfname hs ifname env
    · rename_i hup
      split
      · exact hs
      · rename_i hrunning
        rw [not_or] at hup hrunning
        exact h.recover hs (hP (by simpa using hup.1) (by simpa using hup.2) (by simpa using hrunning.1))
  | timer env => exact foldl_of_along (J := J) (fun s i hs hP => h.recoverRound hs hP) hs hP
  | client call env =>
    rw [LinuxPaths.step, clientStep]
    split
    · exact hs
    · rename_i hcall
      have hcall := Bool.eq_false_iff.2 hcall
      obtain ⟨htags, hnext⟩ := tags_step (c := s.client) hcall
      exact foldl_of_along (J := J) (fun s o hs hP => h.cbStateChanged hs hP) (h.aside s _ hs (aside_client htags hnext))
        (hP hcall)
  | addPath iface backup env => exact hadd iface backup env rfl
  | removePath iface env => exact hremove iface env rfl
  | setPathWeight iface weight => exact hweight iface weight

end Stable

end Mqvpn.LinuxPaths
