import Mqvpn.Platform.PathStart

/-!
# The books of the paths

The platform is to have every open socket in exactly one of its paths, to watch the sockets
of its paths and no others, and to count failures and blocked retries for the path at the
same index (`Bookkept`). Three steps break this: a re-add of a path that still has a socket
forgets that socket; when a path is removed, the counts stay where they are while the paths
behind it move down; and a new path finds the counts of the path that had its index before.
In the runs without such a step (`Fair`), the books are kept (`bookkept_run`).
-/

namespace Mqvpn.LinuxPaths

open Mqvpn.Path Client Function Runs

variable {s s' : LinuxPaths} {i : Nat}

/-- The watcher that a path is to have. -/
def PathSlot.watch (mp : PathSlot) : Option Int := if 0 ≤ mp.fd then some mp.fd else none

/-! ## Sockets -/

structure Sockets (s : LinuxPaths) : Prop where
  isOpen : ∀ fd, s.isOpen fd = true → 0 ≤ fd ∧ ∃ i < s.nPaths, (s.paths i).fd = fd
  inj : ∀ i j, i < s.nPaths → j < s.nPaths → 0 ≤ (s.paths i).fd → (s.paths i).fd = (s.paths j).fd → i = j
  watched : ∀ i < s.nPaths, s.evUdp i = (s.paths i).watch

namespace Sockets

theorem aside (h : s.Sockets) (ha : Aside s s') : s'.Sockets := by
  refine ⟨fun fd hopen => ?_, fun i j hi hj hfd heq => ?_, fun i hi => ?_⟩
  · obtain ⟨hpos, i, hi, hfd⟩ := h.isOpen fd (ha.isOpen fd hopen)
    refine ⟨hpos, i, ha.nPaths ▸ hi, ?_⟩
    rw [ha.paths i hi, hfd]
  · rw [ha.nPaths] at hi hj
    rw [ha.paths i hi] at hfd heq
    rw [ha.paths j hj] at heq
    exact h.inj i j hi hj hfd heq
  · rw [ha.nPaths] at hi
    rw [ha.evUdp i hi, ha.paths i hi]
    exact h.watched i hi

/-- One path has changed, or is new. -/
theorem of_update (h : s.Sockets) {mp : PathSlot} (hi : i < s'.nPaths) (hlt : ∀ j ≠ i, j < s'.nPaths ↔ j < s.nPaths)
    (hpaths : s'.paths = update s.paths i mp) (hev : s'.evUdp = update s.evUdp i mp.watch)
    (hfresh : 0 ≤ mp.fd → ∀ j < s.nPaths, j ≠ i → (s.paths j).fd ≠ mp.fd)
    (hopen : ∀ fd, s'.isOpen fd = true →
      0 ≤ fd ∧ fd = mp.fd ∨ s.isOpen fd = true ∧ (i < s.nPaths → (s.paths i).fd ≠ fd)) : s'.Sockets := by
  refine ⟨fun fd hfd => ?_, fun j k hj hk hfd heq => ?_, fun j hj => ?_⟩
  · rcases hopen fd hfd with ⟨hpos, rfl⟩ | ⟨hold, hne⟩
    · refine ⟨hpos, i, hi, ?_⟩
      rw [hpaths, update_self]
    · obtain ⟨hpos, j, hj, rfl⟩ := h.isOpen fd hold
      have hji : j ≠ i := by
        rintro rfl
        exact hne hj rfl
      refine ⟨hpos, j, (hlt j hji).2 hj, ?_⟩
      rw [hpaths, update_of_ne hji]
  · rw [hpaths, update_apply] at hfd heq
    rw [update_apply] at heq
    split_ifs at hfd heq with hji hki hki
    · exact hji.trans hki.symm
    · exact absurd heq.symm (hfresh hfd k ((hlt k hki).1 hk) hki)
    · exact absurd heq (hfresh (heq ▸ hfd) j ((hlt j hji).1 hj) hji)
    · exact h.inj j k ((hlt j hji).1 hj) ((hlt k hki).1 hk) hfd heq
  · rw [hpaths, hev]
    by_cases hji : j = i
    · rw [hji, update_self, update_self]
    · rw [update_of_ne hji, update_of_ne hji]
      exact h.watched j ((hlt j hji).1 hj)

theorem dropped (h : s.Sockets) (hi : i < s.nPaths) (c : Client) : (s.dropped i c).Sockets := by
  refine h.of_update hi (fun _ _ => Iff.rfl) rfl rfl (fun hfd => absurd hfd not_nonneg) fun fd hopen => .inr ?_
  change update s.isOpen (s.paths i).fd false fd = true at hopen
  rw [update_apply] at hopen
  split_ifs at hopen with hfd
  exact ⟨hopen, fun _ => Ne.symm hfd⟩

theorem readd {env : Env} (h : s.Sockets) (ho : s.Owned false) (hi : i < s.nPaths) (hclosed : (s.paths i).fd < 0)
    (hr : Readd s i env s') : s'.Sockets := by
  have hold {fd : Int} (hopen : s.isOpen fd = true) : s.isOpen fd = true ∧ (i < s.nPaths → (s.paths i).fd ≠ fd) :=
    ⟨hopen, fun _ heq => Int.not_le.2 hclosed (heq ▸ (h.isOpen fd hopen).1)⟩
  -- the path has no watcher, and gets none as long as it has no socket
  have hev {mp : PathSlot} (hmp : mp.fd = -1) : s.evUdp = update s.evUdp i mp.watch := by
    have hnone : mp.watch = s.evUdp i := by
      rw [h.watched i hi, PathSlot.watch, PathSlot.watch, hmp, if_neg not_nonneg, if_neg (Int.not_le.2 hclosed)]
    rw [hnone, update_eq_self]
  have hgone {fd : Int} (hopen : update s.isOpen s.nextFd false fd = true) : s.isOpen fd = true := by
    rw [update_apply] at hopen
    split_ifs at hopen
    exact hopen
  cases hr with
  | unregistered =>
    exact h.of_update hi (fun _ _ => Iff.rfl) rfl (hev rfl) (fun hfd => absurd hfd not_nonneg) fun fd hopen =>
      .inr (hold (hgone hopen))
  | rolledBack c next hc =>
    exact h.of_update hi (fun _ _ => Iff.rfl) rfl (hev rfl) (fun hfd => absurd hfd not_nonneg) fun fd hopen =>
      .inr (hold (hgone hopen))
  | added c hgrants hc hmem =>
    refine h.of_update hi (fun _ _ => Iff.rfl) rfl ?_ (fun _ j hj _ => Int.ne_of_lt (ho.fd_lt j hj)) fun fd hopen => ?_
    · rw [PathSlot.watch, if_pos ho.nextFd]
    · change update s.isOpen s.nextFd true fd = true at hopen
      rw [update_apply] at hopen
      split_ifs at hopen with hfd
      · exact .inl ⟨hfd ▸ ho.nextFd, hfd⟩
      · exact .inr (hold hopen)

theorem added {iface : String} {backup pins : Bool} {granted : Prop} (h : s.Sockets) (ho : s.Owned false)
    (ha : Added s iface backup pins granted s') : s'.Sockets := by
  cases ha with
  | aside _ ha => exact h.aside ha
  | added c pinned unpinned _ hc hmem hpinned hunpinned hpins =>
    refine h.of_update (Nat.lt_succ_self s.nPaths) (fun j hj => ?_) rfl ?_ (fun _ j hj _ => Int.ne_of_lt (ho.fd_lt j hj))
      fun fd hopen => ?_
    · exact ⟨fun hlt => Nat.lt_of_le_of_ne (Nat.le_of_lt_succ hlt) hj, Nat.lt_succ_of_lt⟩
    · change update s.evUdp s.nPaths _ = _
      rw [PathSlot.watch, if_pos ho.nextFd]
    · change update s.isOpen s.nextFd true fd = true at hopen
      rw [update_apply] at hopen
      split_ifs at hopen with hfd
      · exact .inl ⟨hfd ▸ ho.nextFd, hfd⟩
      · exact .inr ⟨hopen, fun hlt => absurd hlt (Nat.lt_irrefl _)⟩

theorem without (h : s.Sockets) {idx : Nat} (hidx : idx < s.nPaths) (c : Client) : (s.without idx c).Sockets := by
  refine ⟨fun fd hopen => ?_, fun j k hj hk hfd heq => ?_, fun j hj => ?_⟩
  · have hold : s.isOpen fd = true ∧ (s.paths idx).fd ≠ fd := by
      change (if 0 ≤ (s.paths idx).fd then update s.isOpen (s.paths idx).fd false else s.isOpen) fd = true at hopen
      split_ifs at hopen with hclosed
      · rw [update_apply] at hopen
        split_ifs at hopen with hfd
        exact ⟨hopen, Ne.symm hfd⟩
      · exact ⟨hopen, fun heq => hclosed (heq ▸ (h.isOpen fd hopen).1)⟩
    obtain ⟨hpos, j, hj, rfl⟩ := h.isOpen fd hold.1
    obtain ⟨k, hk, rfl⟩ := exists_skip hidx hj fun heq => hold.2 (heq ▸ rfl)
    exact ⟨hpos, k, hk, congrArg PathSlot.fd (compact_eq _ _ hk)⟩
  · change 0 ≤ (compact s.paths s.nPaths idx {} j).fd at hfd
    change (compact s.paths s.nPaths idx {} j).fd = (compact s.paths s.nPaths idx {} k).fd at heq
    rw [compact_eq _ _ hj] at hfd heq
    rw [compact_eq _ _ hk] at heq
    exact skip_inj (h.inj _ _ (skip_lt hj) (skip_lt hk) hfd heq)
  · change compact s.evUdp s.nPaths idx none j = (compact s.paths s.nPaths idx {} j).watch
    rw [compact_eq _ _ hj, compact_eq _ _ hj]
    exact h.watched _ (skip_lt hj)

theorem recount (h : s.Sockets) (hr : Recount s s') : s'.Sockets := by
  have hfd (i : Nat) : (s'.paths i).fd = (s.paths i).fd := by
    obtain ⟨failures, blocked, heq⟩ := hr.paths i
    rw [heq]
  refine ⟨fun fd hopen => ?_, fun i j hi hj => ?_, fun i hi => ?_⟩
  · obtain ⟨hpos, i, hi, heq⟩ := h.isOpen fd (hr.isOpen ▸ hopen)
    exact ⟨hpos, i, hr.nPaths ▸ hi, (hfd i).trans heq⟩
  · rw [hr.nPaths] at hi hj
    rw [hfd i, hfd j]
    exact h.inj i j hi hj
  · rw [hr.evUdp, PathSlot.watch, hfd i]
    exact h.watched i (hr.nPaths ▸ hi)

/-- The weight of a path does not matter for its socket. -/
theorem weighed (h : s.Sockets) (hi : i < s.nPaths) (c : Client) (weight : Nat) : (s.weighed i c weight).Sockets := by
  refine h.of_update hi (fun _ _ => Iff.rfl) rfl ?_ (fun hfd j hj hji heq => ?_) fun fd hopen => ?_
  · change s.evUdp = update s.evUdp i (s.paths i).watch
    rw [← h.watched i hi, update_eq_self]
  · exact hji (h.inj i j hi hj hfd heq.symm).symm
  · by_cases heq : (s.paths i).fd = fd
    · exact .inl ⟨(h.isOpen fd hopen).1, heq.symm⟩
    · exact .inr ⟨hopen, fun _ => heq⟩

end Sockets

/-! ## Counts -/

structure Counted (s : LinuxPaths) : Prop where
  failures : ∀ i < s.nPaths, s.pathRecoverFailures i = (s.paths i).failures
  blocked : ∀ i < s.nPaths, s.routeGateBlocked i = (s.paths i).blocked

namespace Counted

theorem aside (h : s.Counted) (ha : Aside s s') : s'.Counted := by
  refine ⟨fun i hi => ?_, fun i hi => ?_⟩
  · rw [ha.nPaths] at hi
    rw [ha.pathRecoverFailures, ha.paths i hi]
    exact h.failures i hi
  · rw [ha.nPaths] at hi
    rw [ha.routeGateBlocked, ha.paths i hi]
    exact h.blocked i hi

/-- One path has changed, or is new. -/
theorem of_update (h : s.Counted) {mp : PathSlot} (hlt : ∀ j ≠ i, j < s'.nPaths → j < s.nPaths)
    (hpaths : s'.paths = update s.paths i mp)
    (hfailures : s'.pathRecoverFailures = update s.pathRecoverFailures i mp.failures)
    (hblocked : s'.routeGateBlocked = update s.routeGateBlocked i mp.blocked) : s'.Counted := by
  refine ⟨fun j hj => ?_, fun j hj => ?_⟩
  · rw [hpaths, hfailures]
    by_cases hji : j = i
    · rw [hji, update_self, update_self]
    · rw [update_of_ne hji, update_of_ne hji]
      exact h.failures j (hlt j hji hj)
  · rw [hpaths, hblocked]
    by_cases hji : j = i
    · rw [hji, update_self, update_self]
    · rw [update_of_ne hji, update_of_ne hji]
      exact h.blocked j (hlt j hji hj)

/-- The counts of the path are as they were. -/
theorem of_same (h : s.Counted) (hi : i < s.nPaths) {mp : PathSlot} (hn : s'.nPaths = s.nPaths)
    (hpaths : s'.paths = update s.paths i mp) (hmp : mp.failures = (s.paths i).failures ∧ mp.blocked = (s.paths i).blocked)
    (hfailures : s'.pathRecoverFailures = s.pathRecoverFailures) (hblocked : s'.routeGateBlocked = s.routeGateBlocked) :
    s'.Counted := by
  refine h.of_update (fun j _ hj => hn ▸ hj) hpaths ?_ ?_
  · rw [hfailures, hmp.1, ← h.failures i hi, update_eq_self]
  · rw [hblocked, hmp.2, ← h.blocked i hi, update_eq_self]

theorem readd {env : Env} (h : s.Counted) (hi : i < s.nPaths) (hr : Readd s i env s') : s'.Counted := by
  have hsame : s.routeGateBlocked = update s.routeGateBlocked i (s.paths i).blocked := by
    rw [← h.blocked i hi, update_eq_self]
  cases hr with
  | unregistered => exact h.of_same hi rfl rfl ⟨rfl, rfl⟩ rfl rfl
  | rolledBack c next hc =>
    refine h.of_update (fun _ _ hj => hj) rfl ?_ hsame
    change update s.pathRecoverFailures i (next (s.pathRecoverFailures i)) = _
    rw [h.failures i hi]
  | added c hgrants hc hmem => exact h.of_update (fun _ _ hj => hj) rfl rfl hsame

theorem routeGate (h : s.Counted) (i : Nat) (blocks : Bool) : (s.routeGate i blocks).Counted := by
  refine ⟨fun j hj => ?_, fun j hj => ?_⟩
  · change s.pathRecoverFailures j = (update s.paths i _ j).failures
    rw [h.failures j hj]
    by_cases hji : j = i
    · rw [hji, update_self]
    · rw [update_of_ne hji]
  · change update s.routeGateBlocked i _ j = (update s.paths i _ j).blocked
    by_cases hji : j = i
    · rw [hji, update_self, update_self, h.blocked i (hji ▸ hj)]
    · rw [update_of_ne hji, update_of_ne hji]
      exact h.blocked j hj

theorem resetFailures (h : s.Counted) : s.resetFailures.Counted :=
  ⟨fun _ _ => rfl, h.blocked⟩

/-- A new path is not charged for anything, if nothing is left at its index. -/
theorem added {iface : String} {backup pins : Bool} {granted : Prop} (h : s.Counted)
    (hclear : granted → s.pathRecoverFailures s.nPaths = 0 ∧ s.routeGateBlocked s.nPaths = 0)
    (ha : Added s iface backup pins granted s') : s'.Counted := by
  cases ha with
  | aside _ ha => exact h.aside ha
  | added c pinned unpinned hgranted =>
    refine h.of_update (fun j hj hlt => Nat.lt_of_le_of_ne (Nat.le_of_lt_succ hlt) hj) rfl ?_ ?_
    · change s.pathRecoverFailures = update s.pathRecoverFailures s.nPaths 0
      rw [← (hclear hgranted).1, update_eq_self]
    · change s.routeGateBlocked = update s.routeGateBlocked s.nPaths 0
      rw [← (hclear hgranted).2, update_eq_self]

/-- The counts of the paths behind a path are all the same as its own. -/
def Level (s : LinuxPaths) (idx : Nat) : Prop :=
  ∀ i < s.nPaths - 1, idx ≤ i →
    s.pathRecoverFailures i = s.pathRecoverFailures (i + 1) ∧ s.routeGateBlocked i = s.routeGateBlocked (i + 1)

instance (s : LinuxPaths) (idx : Nat) : Decidable (Level s idx) := inferInstanceAs (Decidable (∀ i < _, _))

theorem level_skip {idx : Nat} (hl : Level s idx) (hi : i < s.nPaths - 1) :
    s.pathRecoverFailures i = s.pathRecoverFailures (skip idx i) ∧
      s.routeGateBlocked i = s.routeGateBlocked (skip idx i) := by
  rw [skip]
  split_ifs with hlt
  · exact ⟨rfl, rfl⟩
  · exact hl i hi (Nat.not_lt.1 hlt)

theorem without (h : s.Counted) {idx : Nat} (hl : Level s idx) (c : Client) : (s.without idx c).Counted := by
  refine ⟨fun i hi => ?_, fun i hi => ?_⟩
  · change s.pathRecoverFailures i = (compact s.paths s.nPaths idx {} i).failures
    rw [compact_eq _ _ hi, (level_skip hl hi).1]
    exact h.failures _ (skip_lt hi)
  · change s.routeGateBlocked i = (compact s.paths s.nPaths idx {} i).blocked
    rw [compact_eq _ _ hi, (level_skip hl hi).2]
    exact h.blocked _ (skip_lt hi)

end Counted

/-! ## Runs -/

/-- The invariant of the fair runs. -/
structure Booked (s : LinuxPaths) : Prop where
  owned : s.Owned false
  sockets : s.Sockets
  counted : s.Counted

/-- The path has no socket. -/
def Closed (s : LinuxPaths) (i : Nat) (_ : Env) : Prop := (s.paths i).fd < 0

instance (s : LinuxPaths) (i : Nat) (env : Env) : Decidable (Closed s i env) := inferInstanceAs (Decidable (_ < _))

theorem booked_stable : Stable Booked Closed where
  named _ h := h.owned.named
  aside _ _ h ha := ⟨h.owned.aside ha, h.sockets.aside ha, h.counted.aside ha⟩
  dropped _ _ c h hi _ hc :=
    ⟨h.owned.dropped hi hc, h.sockets.dropped hi c, h.counted.of_same hi rfl rfl ⟨rfl, rfl⟩ rfl rfl⟩
  readd _ _ _ _ h hi hclosed hr :=
    ⟨h.owned.readd (fun h _ => absurd h Bool.false_ne_true) hr, h.sockets.readd h.owned hi hclosed hr, h.counted.readd hi hr⟩
  routeGate s i blocks h :=
    ⟨h.owned.recount (recount_routeGate s i blocks), h.sockets.recount (recount_routeGate s i blocks),
      h.counted.routeGate i blocks⟩
  resetFailures s h :=
    ⟨h.owned.recount (recount_resetFailures s), h.sockets.recount (recount_resetFailures s), h.counted.resetFailures⟩

theorem Primed.booked (h : s.Primed s.nPaths) : s.Booked := by
  refine ⟨h.owned false, ⟨fun fd hopen => ?_, fun i j hi hj _ heq => ?_, fun i hi => ?_⟩, ⟨fun i hi => ?_, fun i hi => ?_⟩⟩
  · obtain ⟨i, hi, rfl⟩ := h.isOpen fd hopen
    refine ⟨Int.natCast_nonneg i, i, hi, ?_⟩
    rw [h.paths i hi]
  · rw [h.paths i hi, h.paths j hj] at heq
    exact Int.ofNat.inj heq
  · rw [h.evUdp i hi, h.paths i hi]
    exact (if_pos (Int.natCast_nonneg i)).symm
  · rw [h.pathRecoverFailures, h.paths i hi]
  · rw [h.routeGateBlocked, h.paths i hi]

/-- The step does not forget a socket, and does not charge a path for another one. -/
def Fair (s : LinuxPaths) : Event → Prop
  | .addPath iface backup env =>
    iface ≠ "" ∧ s.Accepts backup env ∧ env.pin = true ∧ env.eventNew = true →
      s.pathRecoverFailures s.nPaths = 0 ∧ s.routeGateBlocked s.nPaths = 0
  | .removePath iface _ => iface ≠ "" ∧ 1 < s.nPaths → ∀ idx ∈ s.findIface iface, Counted.Level s idx
  | e => s.EveryReadd Closed e

instance (s : LinuxPaths) : ∀ e : Event, Decidable (s.Fair e)
  | .addPath .. => inferInstanceAs (Decidable (_ → _))
  | .removePath .. => inferInstanceAs (Decidable (_ → _))
  | .newAddr ifname env => inferInstanceAs (Decidable (s.EveryReadd Closed (.newAddr ifname env)))
  | .newLink ifname up running operDown env =>
    inferInstanceAs (Decidable (s.EveryReadd Closed (.newLink ifname up running operDown env)))
  | .timer env => inferInstanceAs (Decidable (s.EveryReadd Closed (.timer env)))
  | .client call env => inferInstanceAs (Decidable (s.EveryReadd Closed (.client call env)))
  | .delAddr .. | .delLink .. | .setPathWeight .. => inferInstanceAs (Decidable True)

theorem Fair.everyReadd {e : Event} (h : s.Fair e) : s.EveryReadd Closed e := by
  cases e with
  | addPath => trivial
  | removePath => trivial
  | _ => exact h

theorem Booked.platformSetPathWeight (h : s.Booked) (iface : String) (weight : Nat) :
    (s.platformSetPathWeight iface weight).Booked := by
  have howned := h.owned.platformSetPathWeight iface weight
  rcases platformSetPathWeight_cases s iface weight with heq | ⟨idx, hidx, last, -, heq⟩
  · rw [heq]
    exact h
  · rw [heq] at howned ⊢
    exact ⟨howned, h.sockets.weighed hidx _ last, h.counted.of_same hidx rfl rfl ⟨rfl, rfl⟩ rfl rfl⟩

theorem Booked.step (h : s.Booked) {e : Event} (hfair : s.Fair e) : (s.step e).Booked := by
  refine booked_stable.step h e hfair.everyReadd (fun iface backup env he => ?_) (fun iface env he => ?_)
    h.platformSetPathWeight
  · subst he
    have hadded := added_platformAddPath h.owned.named h.owned.nextFd iface backup env
    exact ⟨h.owned.added hadded, h.sockets.added h.owned hadded, h.counted.added hfair hadded⟩
  · subst he
    rcases platformRemovePath_cases s iface env with heq | ⟨idx, ⟨hiface, hn, hfind⟩, c, hc, heq⟩
    · rw [heq]
      exact h
    · rw [heq]
      have hidx := findIface_lt hfind
      exact ⟨h.owned.without hidx hc, h.sockets.without hidx c, h.counted.without (hfair ⟨hiface, hn⟩ idx hfind) c⟩

/-- The books of the platform are right. -/
structure Bookkept (s : LinuxPaths) : Prop where
  /-- An open socket is the one of exactly one path. -/
  socket : ∀ fd, s.isOpen fd = true → ∃! i, i < s.nPaths ∧ (s.paths i).fd = fd
  /-- It is the one of the slot that the library has for the path. -/
  slot : ∀ i < s.nPaths, 0 ≤ (s.paths i).fd →
    (s.client.paths.find? (·.handle = s.libPathHandles i)).map (·.fd) = some (s.paths i).fd
  /-- The path is watched when it has a socket, and it is that socket which is watched. -/
  watched : ∀ i < s.nPaths, s.evUdp i = (s.paths i).watch
  handles : ∀ i j, i < s.nPaths → j < s.nPaths → s.libPathHandles i = s.libPathHandles j → i = j
  failures : ∀ i < s.nPaths, s.pathRecoverFailures i = (s.paths i).failures
  blocked : ∀ i < s.nPaths, s.routeGateBlocked i = (s.paths i).blocked

theorem Booked.bookkept (h : s.Booked) : s.Bookkept := by
  refine ⟨fun fd hopen => ?_, fun i hi hfd => ?_, h.sockets.watched, h.owned.inj, h.counted.failures, h.counted.blocked⟩
  · obtain ⟨hpos, i, hi, rfl⟩ := h.sockets.isOpen fd hopen
    exact ⟨i, ⟨hi, rfl⟩, fun j hj => (h.sockets.inj i j hi hj.1 hpos hj.2.symm).symm⟩
  · obtain ⟨t, ht, hhandle, hsocket, -⟩ := h.owned.owner i hi hfd
    obtain ⟨p, hp, rfl⟩ := Option.map_eq_some_iff.1 (h.owned.named.find_of_tag ht)
    rw [← hhandle, ← hsocket, hp]
    rfl

/-- Nothing has been counted yet. -/
structure Fresh (s : LinuxPaths) : Prop where
  booked : s.Booked
  pathRecoverFailures : s.pathRecoverFailures = fun _ => 0
  routeGateBlocked : s.routeGateBlocked = fun _ => 0

theorem Fresh.added {iface : String} {backup pins : Bool} {granted : Prop} (h : s.Fresh)
    (ha : Added s iface backup pins granted s') : s'.Fresh := by
  have hclear : granted → s.pathRecoverFailures s.nPaths = 0 ∧ s.routeGateBlocked s.nPaths = 0 := by
    rw [h.pathRecoverFailures, h.routeGateBlocked]
    exact fun _ => ⟨rfl, rfl⟩
  have hbooked : s'.Booked :=
    ⟨h.booked.owned.added ha, h.booked.sockets.added h.booked.owned ha, h.booked.counted.added hclear ha⟩
  cases ha with
  | aside _ ha =>
    exact ⟨hbooked, ha.pathRecoverFailures.trans h.pathRecoverFailures, ha.routeGateBlocked.trans h.routeGateBlocked⟩
  | added => exact ⟨hbooked, h.pathRecoverFailures, h.routeGateBlocked⟩

theorem booked_start {boot : Boot} (h : boot.start = some s) : s.Booked := by
  have hfresh := start_of_added (J := Fresh) (P := fun _ _ => True)
    (fun s hs => ⟨hs.booked, hs.pathRecoverFailures, hs.routeGateBlocked⟩)
    (fun s p hs _ => hs.added (added_startBackup hs.booked.owned.named hs.booked.owned.nextFd p))
    (fun s _ => along_of_forall (fun _ _ => trivial) s _) h
  exact hfresh.booked

/-- In every run whose steps are fair, the books are kept. -/
theorem bookkept_run {boot : Boot} {events : List Event} (h : boot.start = some s) (hfair : Along step Fair s events) :
    (s.run events).Bookkept :=
  (foldl_of_along (J := Booked) (fun _ _ hs he => hs.step he) (booked_start h) hfair).bookkept

/-- A path is dropped and comes back, and paths are added and removed. -/
def sampleFlap : List Event :=
  sampleConnect sampleXquic ++ [.delLink "eth2" sampleEnv, .newAddr "eth2" sampleEnv, .addPath "wlan0" true sampleEnv,
    .setPathWeight "eth0" 7, .removePath "eth1" sampleEnv, .delLink "wlan0" sampleEnv, .timer fun _ => sampleEnv]

theorem bookkept_flap : ∃ s ∈ sampleBoot.start, Along step Fair s sampleFlap ∧ (s.run sampleFlap).Bookkept := by
  have hsome : sampleBoot.start.isSome = true := by decide +kernel
  have hfair : ∀ s ∈ sampleBoot.start, Along step Fair s sampleFlap := by decide +kernel
  obtain ⟨s, hs⟩ := Option.isSome_iff_exists.1 hsome
  exact ⟨s, hs, hfair s hs, bookkept_run hs (hfair s hs)⟩

/-- xquic refuses a path, which keeps its socket; then its interface gets an address. -/
def sampleLeak : List Event := sampleConnect (refusingXquic .permanentFail) ++ [.newAddr "eth1" sampleEnv]

/-- A re-add of the last path fails; then the path before it is removed. -/
def sampleCharge : List Event :=
  sampleConnect sampleXquic ++ [.delLink "eth2" sampleEnv,
    .newAddr "eth2" { sampleEnv with xq := refusingXquic .transientFail }, .removePath "eth1" sampleEnv]

/-- The address makes the platform forget the socket 1, and the removal makes it charge the
    failure to no path at all. -/
theorem not_bookkept : ∃ s ∈ sampleBoot.start, ¬(s.run sampleLeak).Bookkept ∧ ¬(s.run sampleCharge).Bookkept := by
  have hsome : sampleBoot.start.isSome = true := by decide +kernel
  have hleak : ∀ s ∈ sampleBoot.start, (s.run sampleLeak).isOpen 1 = true ∧
      ∀ i < (s.run sampleLeak).nPaths, ((s.run sampleLeak).paths i).fd ≠ 1 := by decide +kernel
  have hcharge : ∀ s ∈ sampleBoot.start, 1 < (s.run sampleCharge).nPaths ∧
      (s.run sampleCharge).pathRecoverFailures 1 = 0 ∧ ((s.run sampleCharge).paths 1).failures = 1 := by decide +kernel
  obtain ⟨s, hs⟩ := Option.isSome_iff_exists.1 hsome
  refine ⟨s, hs, fun h => ?_, fun h => ?_⟩
  · obtain ⟨hopen, hnone⟩ := hleak s hs
    obtain ⟨i, ⟨hi, hfd⟩, -⟩ := h.socket 1 hopen
    exact hnone i hi hfd
  · obtain ⟨hlt, hcount, hfailed⟩ := hcharge s hs
    rw [h.failures 1 hlt, hfailed] at hcount
    exact Nat.one_ne_zero hcount

end Mqvpn.LinuxPaths
