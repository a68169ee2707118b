import Mqvpn.Platform.PathOwners

/-!
# The paths at the start

All the primary paths get their sockets first. Then they are pinned and registered one after
the other (`Primed`), and the backup paths follow (`start_of_added`). If any primary path
fails, the platform gives up, so that nothing has to be taken back.
-/

namespace Mqvpn.LinuxPaths

open Mqvpn.Path Client Function Runs

variable {s s' : LinuxPaths} {k : Nat}

/-- The primary paths have their sockets, and the first `k` of them are registered. -/
structure Primed (k : Nat) (s : LinuxPaths) : Prop where
  named : s.client.Named
  nextPathHandle : s.client.nextPathHandle = k + 1
  nextFd : s.nextFd = s.nPaths
  isOpen : ∀ fd, s.isOpen fd = true → ∃ i < s.nPaths, fd = Int.ofNat i
  paths : ∀ i < s.nPaths, s.paths i = { fd := Int.ofNat i, iface := (s.paths i).iface, platformAttached := true }
  pathRecoverFailures : s.pathRecoverFailures = fun _ => 0
  routeGateBlocked : s.routeGateBlocked = fun _ => 0
  libPathHandles : ∀ i < k, s.libPathHandles i = Int.ofNat i + 1
  evUdp : ∀ i < k, s.evUdp i = some (Int.ofNat i)
  owner : ∀ i < k, tagOf (Int.ofNat i + 1) (Int.ofNat i) false ∈ s.client.tags
  pinned : ∀ i < k, (s.paths i).iface ≠ "" → s.pinned (Int.ofNat i) = some (s.paths i).iface
  handedUnpinned : s.handedUnpinned = false

namespace Primed

theorem init (cfg : Client.Config) : Primed 0 { client := Client.init cfg } where
  named := .init cfg
  nextPathHandle := rfl
  nextFd := rfl
  isOpen _ h := absurd h Bool.false_ne_true
  paths i hi := absurd hi (Nat.not_lt_zero i)
  pathRecoverFailures := rfl
  routeGateBlocked := rfl
  libPathHandles i hi := absurd hi (Nat.not_lt_zero i)
  evUdp i hi := absurd hi (Nat.not_lt_zero i)
  owner i hi := absurd hi (Nat.not_lt_zero i)
  pinned i hi := absurd hi (Nat.not_lt_zero i)
  handedUnpinned := rfl

/-- A primary path gets its socket. -/
theorem socket (h : s.Primed 0) {p : String × Env} (hs : s.startSocket p = some s') :
    s'.Primed 0 ∧ s'.nPaths = s.nPaths + 1 := by
  rw [startSocket, pathMgrAdd] at hs
  split_ifs at hs
  cases hs
  refine ⟨{ h with nextFd := ?_, isOpen := fun fd hopen => ?_, paths := fun i hi => ?_, pinned := fun i hi => ?_ }, rfl⟩
  · change s.nextFd + 1 = Int.ofNat (s.nPaths + 1)
    rw [h.nextFd]
    rfl
  · change update s.isOpen s.nextFd true fd = true at hopen
    rw [update_apply] at hopen
    split_ifs at hopen with hfd
    · exact ⟨s.nPaths, Nat.lt_succ_self _, hfd.trans h.nextFd⟩
    · obtain ⟨i, hi, heq⟩ := h.isOpen fd hopen
      exact ⟨i, Nat.lt_succ_of_lt hi, heq⟩
  · change update s.paths s.nPaths _ i =
      { fd := Int.ofNat i, iface := (update s.paths s.nPaths _ i).iface, platformAttached := true }
    rcases Nat.lt_succ_iff_lt_or_eq.1 hi with hlt | rfl
    · rw [update_of_ne (Nat.ne_of_lt hlt)]
      exact h.paths i hlt
    · rw [update_self, h.nextFd]
      rfl
  · exact absurd hi (Nat.not_lt_zero i)

/-- The pin of a path with an interface. -/
theorem pin_cases (s : LinuxPaths) (mp : PathSlot) : ∃ pinned : Int → Option String,
    (if mp.iface ≠ "" then s.pin mp.fd mp.iface else s) = { s with pinned } ∧
      (mp.iface ≠ "" → pinned mp.fd = some mp.iface) ∧ ∀ fd ≠ mp.fd, pinned fd = s.pinned fd := by
  split_ifs with hiface
  · exact ⟨_, rfl, fun _ => update_self .., fun fd hfd => update_of_ne hfd _ _⟩
  · exact ⟨_, rfl, fun h => absurd h hiface, fun _ _ => rfl⟩

/-- The next primary path is registered. -/
theorem primary (h : s.Primed k) (hk : k < s.nPaths) {env : Env} (hs : s.startPrimary k env = some s') :
    s'.Primed (k + 1) ∧ s'.nPaths = s.nPaths := by
  rw [startPrimary] at hs
  dsimp only at hs
  split at hs
  · cases hs
  obtain ⟨pinned, heq, hpin, hother⟩ := pin_cases s (s.paths k)
  have hfd : (s.paths k).fd = Int.ofNat k := by rw [h.paths k hk]
  rw [heq] at hs
  rcases addPathFd_cases s.client env.nowUs (s.paths k).fd (desc false) env.xq h.named with
    ⟨hneg, -⟩ | ⟨hhandle, hmem, htags, hnamed, hnext⟩
  · simp only [addPathFd, hneg, if_true] at hs
    cases hs
  -- the socket is pinned, so that nothing is noted
  have hunpinned : (s.handedUnpinned || decide (0 ≤ s.client.nextPathHandle ∧ (s.paths k).iface ≠ "" ∧
      pinned (s.paths k).fd ≠ some (s.paths k).iface)) = false := by
    rw [h.handedUnpinned, Bool.false_or, decide_eq_false_iff_not]
    exact fun hbad => hbad.2.2 (hpin hbad.2.1)
  have hpos : ¬s.client.nextPathHandle < 0 := Int.not_lt.2 (Int.le_of_lt h.named.pos)
  simp only [addPathFd, hhandle, hpos, if_false, hunpinned, Option.some.injEq] at hs
  subst hs
  refine ⟨⟨hnamed, ?_, h.nextFd, h.isOpen, h.paths, h.pathRecoverFailures, h.routeGateBlocked, fun i hi => ?_,
    fun i hi => ?_, fun i hi => ?_, fun i hi hiface => ?_, rfl⟩, rfl⟩
  · change (s.client.addPathFd ..).nextPathHandle = _
    rw [hnext, h.nextPathHandle]
    rfl
  · change update s.libPathHandles k s.client.nextPathHandle i = _
    rcases Nat.lt_succ_iff_lt_or_eq.1 hi with hlt | rfl
    · rw [update_of_ne (Nat.ne_of_lt hlt)]
      exact h.libPathHandles i hlt
    · rw [update_self, h.nextPathHandle]
      rfl
  · change update s.evUdp k (some (s.paths k).fd) i = _
    rcases Nat.lt_succ_iff_lt_or_eq.1 hi with hlt | rfl
    · rw [update_of_ne (Nat.ne_of_lt hlt)]
      exact h.evUdp i hlt
    · rw [update_self, hfd]
  · rcases Nat.lt_succ_iff_lt_or_eq.1 hi with hlt | rfl
    · exact htags _ (h.owner i hlt) rfl
    · change tagOf _ _ _ ∈ (s.client.addPathFd env.nowUs (s.paths i).fd (some (desc false)) env.xq).tags
      rw [hfd] at hmem ⊢
      rw [h.nextPathHandle] at hmem
      exact hmem
  · rcases Nat.lt_succ_iff_lt_or_eq.1 hi with hlt | rfl
    · change pinned (Int.ofNat i) = _
      rw [hother _ (by rw [hfd]; exact fun heq => Nat.ne_of_lt hlt (Int.ofNat.inj heq))]
      exact h.pinned i hlt hiface
    · rw [hfd] at hpin
      exact hpin hiface

end Primed

/-- After the start, all the primary paths are registered. -/
theorem primed_startPrimaries {boot : Boot} (h : boot.startPrimaries = some s) : s.Primed s.nPaths := by
  rw [Boot.startPrimaries] at h
  obtain ⟨t, hsockets, hs⟩ := Option.bind_eq_some_iff.1 h
  have ht := foldlM_of_step (J := fun k s => s.Primed 0 ∧ s.nPaths = k)
    (fun k s p s' _ hs hstep => ⟨(hs.1.socket hstep).1, by rw [(hs.1.socket hstep).2, hs.2]⟩)
    ⟨Primed.init boot.config, rfl⟩ hsockets
  have hs := foldlM_of_step (J := fun k s => s.Primed k ∧ s.nPaths = boot.primaries.length) (fun k s p s' hp hs hstep => ?_)
    ht hs
  · rw [List.length_zipIdx] at hs
    rw [hs.2]
    exact hs.1
  · rw [List.getElem?_zipIdx, Nat.zero_add, Option.map_eq_some_iff] at hp
    obtain ⟨a, ha, rfl⟩ := hp
    have hlt : k < s.nPaths := by
      rw [hs.2]
      exact (List.getElem?_eq_some_iff.1 ha).1
    obtain ⟨hs', hn⟩ := hs.1.primary hlt hstep
    exact ⟨hs', hn.trans hs.2⟩

/-- The rule for the start. -/
theorem start_of_added {J : LinuxPaths → Prop} {P : LinuxPaths → String × Env → Prop} {boot : Boot}
    (hprimed : ∀ s, s.Primed s.nPaths → J s) (hbackup : ∀ s p, J s → P s p → J (s.startBackup p))
    (hP : ∀ s ∈ boot.startPrimaries, Along startBackup P s boot.backupIfaces) (h : boot.start = some s) : J s := by
  obtain ⟨t, ht, rfl⟩ := Option.map_eq_some_iff.1 h
  exact foldl_of_along hbackup (hprimed t (primed_startPrimaries ht)) (hP t ht)

theorem Primed.owned (h : s.Primed s.nPaths) (agree : Bool) : s.Owned agree := by
  refine ⟨h.named, h.nextFd ▸ Int.natCast_nonneg _, fun i hi => ?_, fun i hi _ => ?_, fun i hi => ?_, fun i j hi hj heq => ?_⟩
  · rw [h.paths i hi, h.nextFd]
    exact Int.ofNat_lt.2 hi
  · rw [h.libPathHandles i hi]
    have hmem : tagOf (Int.ofNat i + 1) (s.paths i).fd false ∈ s.client.tags := by
      rw [h.paths i hi]
      exact h.owner i hi
    refine ownedBy_tagOf hmem fun _ => ?_
    rw [h.paths i hi]
    exact ⟨rfl, rfl⟩
  · rw [h.libPathHandles i hi, h.nextPathHandle]
    exact Int.add_lt_add_right (Int.ofNat_lt.2 hi) 1
  · rw [h.libPathHandles i hi, h.libPathHandles j hj] at heq
    exact Int.ofNat.inj (add_right_cancel heq)

end Mqvpn.LinuxPaths
