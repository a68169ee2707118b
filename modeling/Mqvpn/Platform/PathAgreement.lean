import Mqvpn.Platform.PathStart

/-!
# The ways to create a path

A path is created at the start as a primary or as a backup one, by the control socket, and,
after it was dropped, by the recovery. All of them are to pin its socket to its interface
before the library gets it, and the slot of the library is to have the flags and the weight
of the path (`Agrees`). Two of the four do not: the start does not pin the backup paths, and
the recovery gives the library neither the flags nor the weight. In the runs where this makes
no difference (`BackupsUnnamed`, `Plain`), all the ways agree (`agrees_run`).
-/

namespace Mqvpn.LinuxPaths

open Mqvpn.Path Client Function Runs

variable {s s' : LinuxPaths} {i : Nat}

/-! ## Pins -/

structure Pinned (s : LinuxPaths) : Prop where
  pinned : ∀ i < s.nPaths, 0 ≤ (s.paths i).fd → (s.paths i).iface ≠ "" →
    s.pinned (s.paths i).fd = some (s.paths i).iface
  handed : s.handedUnpinned = false

namespace Pinned

theorem aside (h : s.Pinned) (ho : s.Owned true) (ha : Aside s s') : s'.Pinned := by
  refine ⟨fun i hi hfd hiface => ?_, ha.handedUnpinned.trans h.handed⟩
  rw [ha.nPaths] at hi
  rw [ha.paths i hi] at hfd hiface ⊢
  rw [ha.pinned _ (ho.fd_lt i hi)]
  exact h.pinned i hi hfd hiface

/-- One path has changed, or is new; the sockets that were there stay pinned. -/
theorem of_update (h : s.Pinned) (ho : s.Owned true) {mp : PathSlot} (hlt : ∀ j ≠ i, j < s'.nPaths → j < s.nPaths)
    (hpaths : s'.paths = update s.paths i mp) (hpinned : ∀ fd < s.nextFd, s'.pinned fd = s.pinned fd)
    (hself : 0 ≤ mp.fd → mp.iface ≠ "" → s'.pinned mp.fd = some mp.iface)
    (hhanded : s'.handedUnpinned = s.handedUnpinned) : s'.Pinned := by
  refine ⟨fun j hj => ?_, hhanded.trans h.handed⟩
  rw [hpaths]
  by_cases hji : j = i
  · rw [hji, update_self]
    exact hself
  · rw [update_of_ne hji, hpinned _ (ho.fd_lt j (hlt j hji hj))]
    exact h.pinned j (hlt j hji hj)

theorem readd {env : Env} (h : s.Pinned) (ho : s.Owned true) (hr : Readd s i env s') : s'.Pinned := by
  have hpinned : ∀ fd < s.nextFd, update s.pinned s.nextFd (some (s.paths i).iface) fd = s.pinned fd :=
    fun fd hfd => update_of_ne (Int.ne_of_lt hfd) _ _
  cases hr with
  | unregistered => exact h.of_update ho (fun _ _ hj => hj) rfl hpinned (fun hfd => absurd hfd not_nonneg) rfl
  | rolledBack c next hc => exact h.of_update ho (fun _ _ hj => hj) rfl hpinned (fun hfd => absurd hfd not_nonneg) rfl
  | added c hgrants hc hmem => exact h.of_update ho (fun _ _ hj => hj) rfl hpinned (fun _ _ => update_self ..) rfl

theorem recount (h : s.Pinned) (hr : Recount s s') : s'.Pinned := by
  refine ⟨fun i hi => ?_, hr.handedUnpinned.trans h.handed⟩
  obtain ⟨failures, blocked, heq⟩ := hr.paths i
  rw [heq, hr.pinned]
  exact h.pinned i (hr.nPaths ▸ hi)

theorem added {iface : String} {backup pins : Bool} {granted : Prop} (h : s.Pinned) (ho : s.Owned true)
    (hpins : granted → pins = true ∨ iface = "") (ha : Added s iface backup pins granted s') : s'.Pinned := by
  cases ha with
  | aside _ ha => exact h.aside ho ha
  | added c pinned unpinned hgranted hc hmem hpinned hunpinned hpin =>
    refine h.of_update ho (fun j hj hlt => Nat.lt_of_le_of_ne (Nat.le_of_lt_succ hlt) hj) rfl hpinned
      (fun _ hiface => ?_) (hunpinned (hpins hgranted))
    exact hpin ((hpins hgranted).resolve_right hiface)

theorem without (h : s.Pinned) (idx : Nat) (c : Client) : (s.without idx c).Pinned := by
  refine ⟨fun j hj => ?_, h.handed⟩
  change 0 ≤ (compact s.paths s.nPaths idx {} j).fd → (compact s.paths s.nPaths idx {} j).iface ≠ "" →
    s.pinned (compact s.paths s.nPaths idx {} j).fd = some (compact s.paths s.nPaths idx {} j).iface
  rw [compact_eq _ _ hj]
  exact h.pinned _ (skip_lt hj)

end Pinned

/-! ## Runs -/

/-- The invariant of the runs where the ways agree. -/
structure Agreed (s : LinuxPaths) : Prop where
  owned : s.Owned true
  pinned : s.Pinned

theorem agreed_stable : Stable Agreed (Plain true) where
  named _ h := h.owned.named
  aside _ _ h ha := ⟨h.owned.aside ha, h.pinned.aside h.owned ha⟩
  dropped _ _ _ h hi _ hc :=
    ⟨h.owned.dropped hi hc,
      h.pinned.of_update h.owned (fun _ _ hj => hj) rfl (fun _ _ => rfl) (fun hfd => absurd hfd not_nonneg) rfl⟩
  readd _ _ _ _ h _ hp hr := ⟨h.owned.readd hp hr, h.pinned.readd h.owned hr⟩
  routeGate s i blocks h :=
    ⟨h.owned.recount (recount_routeGate s i blocks), h.pinned.recount (recount_routeGate s i blocks)⟩
  resetFailures s h := ⟨h.owned.recount (recount_resetFailures s), h.pinned.recount (recount_resetFailures s)⟩

namespace Agreed

theorem platformSetPathWeight (h : s.Agreed) (iface : String) (weight : Nat) :
    (s.platformSetPathWeight iface weight).Agreed := by
  have howned := h.owned.platformSetPathWeight iface weight
  rcases platformSetPathWeight_cases s iface weight with heq | ⟨idx, hidx, last, -, heq⟩
  · rw [heq]
    exact h
  · rw [heq] at howned ⊢
    exact ⟨howned, h.pinned.of_update h.owned (fun _ _ hj => hj) rfl (fun _ _ => rfl) (h.pinned.pinned idx hidx) rfl⟩

theorem step (h : s.Agreed) {e : Event} (hplain : s.EveryReadd (Plain true) e) : (s.step e).Agreed := by
  refine agreed_stable.step h e hplain (fun iface backup env _ => ?_) (fun iface env _ => ?_) h.platformSetPathWeight
  · have hadded := added_platformAddPath h.owned.named h.owned.nextFd iface backup env
    exact ⟨h.owned.added hadded, h.pinned.added h.owned (fun _ => .inl rfl) hadded⟩
  · rcases platformRemovePath_cases s iface env with heq | ⟨idx, ⟨-, -, hfind⟩, c, hc, heq⟩
    · rw [heq]
      exact h
    · rw [heq]
      exact ⟨h.owned.without (findIface_lt hfind) hc, h.pinned.without idx c⟩

end Agreed

theorem Primed.agreed (h : s.Primed s.nPaths) : s.Agreed := by
  refine ⟨h.owned true, ⟨fun i hi _ => ?_, h.handedUnpinned⟩⟩
  have hfd : (s.paths i).fd = Int.ofNat i := by rw [h.paths i hi]
  rw [hfd]
  exact h.pinned i hi

/-- No backup path with an interface is registered at the start. -/
def BackupsUnnamed (boot : Boot) : Prop :=
  ∀ s ∈ boot.startPrimaries, Along startBackup (fun s p => p.1 = "" ∨ ¬s.Accepts true p.2) s boot.backupIfaces

instance (boot : Boot) : Decidable (BackupsUnnamed boot) := inferInstanceAs (Decidable (∀ s ∈ boot.startPrimaries, _))

theorem agreed_start {boot : Boot} (h : boot.start = some s) (hboot : BackupsUnnamed boot) : s.Agreed := by
  refine start_of_added (fun _ => Primed.agreed) (fun s p hs hp => ?_) hboot h
  have hadded := added_startBackup hs.owned.named hs.owned.nextFd p
  exact ⟨hs.owned.added hadded, hs.pinned.added hs.owned (fun hgranted => .inr (hp.resolve_right (not_not.2 hgranted))) hadded⟩

/-- What the ways to create a path are to agree on. -/
structure Agrees (s : LinuxPaths) : Prop where
  /-- The library was given no socket of a named interface that was not pinned to it. -/
  handed : s.handedUnpinned = false
  /-- A path with an interface sends over that interface. -/
  pinned : ∀ i < s.nPaths, 0 ≤ (s.paths i).fd → (s.paths i).iface ≠ "" →
    s.pinned (s.paths i).fd = some (s.paths i).iface
  /-- The slot of the path has its socket, its flags and its weight. -/
  slot : ∀ i < s.nPaths, 0 ≤ (s.paths i).fd → ∃ p,
    s.client.paths.find? (·.handle = s.libPathHandles i) = some p ∧ p.fd = (s.paths i).fd ∧
      p.flags = (desc (s.paths i).backup).flags ∧ p.weight = (s.paths i).weight

theorem Agreed.agrees (h : s.Agreed) : s.Agrees := by
  refine ⟨h.pinned.handed, h.pinned.pinned, fun i hi hfd => ?_⟩
  obtain ⟨t, ht, hhandle, hsocket, -, hcarries⟩ := h.owned.owner i hi hfd
  obtain ⟨p, hp, rfl⟩ := Option.map_eq_some_iff.1 (h.owned.named.find_of_tag ht)
  refine ⟨p, ?_, hsocket, hcarries rfl⟩
  rw [← hhandle]
  exact hp

/-- If no backup path is registered at the start, and only paths that have neither the backup
    flag nor a weight are re-added, then all the ways to create a path agree. -/
theorem agrees_run {boot : Boot} {events : List Event} (h : boot.start = some s) (hboot : BackupsUnnamed boot)
    (hplain : Along step (EveryReadd (Plain true)) s events) : (s.run events).Agrees :=
  (foldl_of_along (J := Agreed) (fun _ _ hs he => hs.step he) (agreed_start h hboot) hplain).agrees

/-- A backup path beside the primary ones. -/
def sampleBackupBoot (env : Env) : Boot := { sampleBoot with backupIfaces := [("wlan0", env)] }

/-- Primary paths flap while there is a backup path, and one of them that stays gets a weight. -/
def samplePlainFlap : List Event :=
  sampleConnect sampleXquic ++ [.addPath "wlan1" true sampleEnv, .setPathWeight "eth0" 7, .delLink "eth2" sampleEnv,
    .newAddr "eth2" sampleEnv, .delLink "eth1" sampleEnv, .timer fun _ => sampleEnv]

theorem agrees_plain_flap : ∃ s ∈ (sampleBackupBoot { sampleEnv with socket := false }).start,
    (BackupsUnnamed (sampleBackupBoot { sampleEnv with socket := false }) ∧
      Along step (EveryReadd (Plain true)) s samplePlainFlap) ∧ (s.run samplePlainFlap).Agrees := by
  have hboot : BackupsUnnamed (sampleBackupBoot { sampleEnv with socket := false }) := by decide +kernel
  have hsome : (sampleBackupBoot { sampleEnv with socket := false }).start.isSome = true := by decide +kernel
  have hplain : ∀ s ∈ (sampleBackupBoot { sampleEnv with socket := false }).start,
      Along step (EveryReadd (Plain true)) s samplePlainFlap := by decide +kernel
  obtain ⟨s, hs⟩ := Option.isSome_iff_exists.1 hsome
  exact ⟨s, hs, ⟨hboot, hplain s hs⟩, agrees_run hs hboot (hplain s hs)⟩

/-- A backup path of the control socket is dropped and comes back. -/
def sampleBackupFlap : List Event :=
  sampleConnect sampleXquic ++ [.addPath "wlan1" true sampleEnv, .delLink "wlan1" sampleEnv, .newAddr "wlan1" sampleEnv]

/-- A path with a weight is dropped and comes back. -/
def sampleWeightFlap : List Event :=
  sampleConnect sampleXquic ++ [.setPathWeight "eth1" 7, .delLink "eth1" sampleEnv, .newAddr "eth1" sampleEnv]

/-- A backup path of the start is not pinned, a backup path that comes back is a primary one,
    and a path that comes back has lost its weight. -/
theorem ways_disagree : (∃ s ∈ (sampleBackupBoot sampleEnv).start, ¬s.Agrees) ∧
    ∃ s ∈ sampleBoot.start, ¬(s.run sampleBackupFlap).Agrees ∧ ¬(s.run sampleWeightFlap).Agrees := by
  have hslot {s : LinuxPaths} {i : Nat} (h : s.Agrees) (hi : i < s.nPaths) (hfd : 0 ≤ (s.paths i).fd) :
      (s.client.paths.find? (·.handle = s.libPathHandles i)).map (fun p => (p.flags, p.weight)) =
        some ((desc (s.paths i).backup).flags, (s.paths i).weight) := by
    obtain ⟨p, hp, -, hflags, hweight⟩ := h.slot i hi hfd
    rw [hp, ← hflags, ← hweight]
    rfl
  constructor
  · have hsome : (sampleBackupBoot sampleEnv).start.isSome = true := by decide +kernel
    have hunpinned : ∀ s ∈ (sampleBackupBoot sampleEnv).start, s.handedUnpinned = true := by decide +kernel
    obtain ⟨s, hs⟩ := Option.isSome_iff_exists.1 hsome
    exact ⟨s, hs, fun h => absurd (hunpinned s hs) (Bool.eq_false_iff.1 h.handed)⟩
  · have hsome : sampleBoot.start.isSome = true := by decide +kernel
    have hbackup : ∀ s ∈ sampleBoot.start, 3 < (s.run sampleBackupFlap).nPaths ∧
        0 ≤ ((s.run sampleBackupFlap).paths 3).fd ∧
        ((s.run sampleBackupFlap).client.paths.find? (·.handle = (s.run sampleBackupFlap).libPathHandles 3)).map
          (fun p => (p.flags, p.weight)) ≠ some ((desc ((s.run sampleBackupFlap).paths 3).backup).flags,
            ((s.run sampleBackupFlap).paths 3).weight) := by decide +kernel
    have hweight : ∀ s ∈ sampleBoot.start, 1 < (s.run sampleWeightFlap).nPaths ∧
        0 ≤ ((s.run sampleWeightFlap).paths 1).fd ∧
        ((s.run sampleWeightFlap).client.paths.find? (·.handle = (s.run sampleWeightFlap).libPathHandles 1)).map
          (fun p => (p.flags, p.weight)) ≠ some ((desc ((s.run sampleWeightFlap).paths 1).backup).flags,
            ((s.run sampleWeightFlap).paths 1).weight) := by decide +kernel
    obtain ⟨s, hs⟩ := Option.isSome_iff_exists.1 hsome
    refine ⟨s, hs, fun h => ?_, fun h => ?_⟩
    · obtain ⟨hi, hfd, hne⟩ := hbackup s hs
      exact hne (hslot h hi hfd)
    · obtain ⟨hi, hfd, hne⟩ := hweight s hs
      exact hne (hslot h hi hfd)

end Mqvpn.LinuxPaths
