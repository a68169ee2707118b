import Mqvpn.Platform.PathSteps

/-!
# Who owns a path

Every path of the platform that has a socket is known to the library by the handle that the
platform has for it: there is an attached slot with that handle and that socket, and no two
paths have the same handle (`Owned`). All the changes of the paths keep this. If the slot is
also to carry the flags and the weight of the path (`agree`), a re-add keeps it only for a
path that has neither the backup flag nor a weight (`Plain`).
-/

namespace Mqvpn.LinuxPaths

open Mqvpn.Path Client Function Runs

variable {agree : Bool} {s s' : LinuxPaths} {i : Nat}

/-- The slot carries the flags and the weight of the path, if it is to. -/
def Carries (agree : Bool) (mp : PathSlot) (t : Tag) : Prop :=
  agree = true → t.flags = (desc mp.backup).flags ∧ t.weight = mp.weight

/-- The library has the socket of the path in an attached slot with the handle. -/
def OwnedBy (agree : Bool) (c : Client) (mp : PathSlot) (handle : Int) : Prop :=
  ∃ t ∈ c.tags, t.handle = handle ∧ t.fd = mp.fd ∧ t.attached = true ∧ Carries agree mp t

structure Owned (agree : Bool) (s : LinuxPaths) : Prop where
  named : s.client.Named
  nextFd : 0 ≤ s.nextFd
  fd_lt : ∀ i < s.nPaths, (s.paths i).fd < s.nextFd
  owner : ∀ i < s.nPaths, 0 ≤ (s.paths i).fd → OwnedBy agree s.client (s.paths i) (s.libPathHandles i)
  handle_lt : ∀ i < s.nPaths, s.libPathHandles i < s.client.nextPathHandle
  inj : ∀ i j, i < s.nPaths → j < s.nPaths → s.libPathHandles i = s.libPathHandles j → i = j

/-- The path has what a re-add gives to it, unless the re-add fails. -/
def Plain (agree : Bool) (s : LinuxPaths) (i : Nat) (env : Env) : Prop :=
  agree = true → s.Grants env → (s.paths i).backup = false ∧ (s.paths i).weight = 0

instance (s : LinuxPaths) (i : Nat) (env : Env) : Decidable (Plain agree s i env) := inferInstanceAs (Decidable (_ → _))

theorem OwnedBy.mono {c d : Client} {mp : PathSlot} {handle : Int} (h : OwnedBy agree c mp handle)
    (ht : ∀ t ∈ c.tags, t.attached = true → t.handle = handle → t ∈ d.tags) : OwnedBy agree d mp handle := by
  obtain ⟨t, hmem, hhandle, hfd, hattached, hcarries⟩ := h
  exact ⟨t, ht t hmem hattached hhandle, hhandle, hfd, hattached, hcarries⟩

theorem ownedBy_tagOf {c : Client} {mp : PathSlot} {handle : Int} {backup : Bool}
    (h : tagOf handle mp.fd backup ∈ c.tags) (hplain : agree = true → mp.backup = backup ∧ mp.weight = 0) :
    OwnedBy agree c mp handle := by
  refine ⟨_, h, rfl, rfl, rfl, fun ha => ?_⟩
  rw [(hplain ha).1, (hplain ha).2]
  exact ⟨rfl, rfl⟩

/-- The owners after one path has changed. -/
theorem ownedBy_update {c : Client} {handles : Nat → Int} {mp : PathSlot} {paths : Nat → PathSlot} {n : Nat}
    (hself : 0 ≤ mp.fd → OwnedBy agree c mp (handles i))
    (hother : ∀ j < n, j ≠ i → 0 ≤ (paths j).fd → OwnedBy agree c (paths j) (handles j)) :
    ∀ j < n, 0 ≤ (update paths i mp j).fd → OwnedBy agree c (update paths i mp j) (handles j) := by
  intro j hj hfd
  by_cases hji : j = i
  · subst hji
    rw [update_self] at hfd ⊢
    exact hself hfd
  · rw [update_of_ne hji] at hfd ⊢
    exact hother j hj hji hfd

theorem not_nonneg : ¬(0 : Int) ≤ -1 := by decide

namespace Owned

theorem aside (h : s.Owned agree) (ha : Aside s s') : s'.Owned agree := by
  refine ⟨ha.named h.named, Int.le_trans h.nextFd ha.nextFd, fun i hi => ?_, fun i hi hfd => ?_, fun i hi => ?_,
    fun i j hi hj heq => ?_⟩
  · rw [ha.nPaths] at hi
    rw [ha.paths i hi]
    exact Int.lt_of_lt_of_le (h.fd_lt i hi) ha.nextFd
  · rw [ha.nPaths] at hi
    rw [ha.paths i hi] at hfd ⊢
    rw [ha.libPathHandles i hi]
    exact (h.owner i hi hfd).mono fun t ht hattached _ => ha.tags t ht hattached
  · rw [ha.nPaths] at hi
    rw [ha.libPathHandles i hi]
    exact Int.lt_of_lt_of_le (h.handle_lt i hi) ha.nextPathHandle
  · rw [ha.nPaths] at hi hj
    rw [ha.libPathHandles i hi, ha.libPathHandles j hj] at heq
    exact h.inj i j hi hj heq

/-- A call of the library on one handle spares the owners of the other paths. -/
theorem spares (h : s.Owned agree) {c : Client} (hi : i < s.nPaths) (hc : Spares s.client c (s.libPathHandles i))
    {j : Nat} (hj : j < s.nPaths) (hne : j ≠ i) (hfd : 0 ≤ (s.paths j).fd) :
    OwnedBy agree c (s.paths j) (s.libPathHandles j) := by
  refine (h.owner j hj hfd).mono fun t ht _ hhandle => hc.tags t ht ?_
  rw [hhandle]
  exact fun heq => hne (h.inj j i hj hi heq)

theorem dropped (h : s.Owned agree) {c : Client} (hi : i < s.nPaths) (hc : Spares s.client c (s.libPathHandles i)) :
    (s.dropped i c).Owned agree := by
  refine ⟨hc.named h.named, h.nextFd, fun j hj => ?_, ownedBy_update (fun hfd => absurd hfd not_nonneg)
    fun j hj hji => h.spares hi hc hj hji, fun j hj => ?_, h.inj⟩
  · change (update s.paths i _ j).fd < s.nextFd
    rw [update_apply]
    split_ifs
    · exact Int.lt_of_lt_of_le (Int.negSucc_lt_zero 0) h.nextFd
    · exact h.fd_lt j hj
  · change s.libPathHandles j < c.nextPathHandle
    rw [hc.nextPathHandle]
    exact h.handle_lt j hj

/-- A path gets the next handle: it is different from all the others. -/
theorem inj_update (h : s.Owned agree) {j k : Nat} (hj : j < s.nPaths) (hk : k < s.nPaths)
    (heq : update s.libPathHandles i s.client.nextPathHandle j = update s.libPathHandles i s.client.nextPathHandle k) :
    j = k := by
  rw [update_apply, update_apply] at heq
  split_ifs at heq with hji hki hki
  · exact hji.trans hki.symm
  · exact absurd heq.symm (Int.ne_of_lt (h.handle_lt k hk))
  · exact absurd heq (Int.ne_of_lt (h.handle_lt j hj))
  · exact h.inj j k hj hk heq

theorem handle_lt_update (h : s.Owned agree) {c : Client} (hc : Gains s.client c) {j : Nat} (hj : j < s.nPaths) :
    update s.libPathHandles i s.client.nextPathHandle j < c.nextPathHandle := by
  rw [hc.nextPathHandle, update_apply]
  split_ifs
  · exact Int.lt_succ _
  · exact Int.lt_trans (h.handle_lt j hj) (Int.lt_succ _)

theorem readd {env : Env} (h : s.Owned agree) (hp : Plain agree s i env) (hr : Readd s i env s') : s'.Owned agree := by
  have hnext : 0 ≤ s.nextFd + 1 := Int.le_of_lt (Int.lt_add_one_of_le h.nextFd)
  have hlt : ∀ (mp : PathSlot), mp.fd ≤ s.nextFd → ∀ j < s.nPaths, (update s.paths i mp j).fd < s.nextFd + 1 := by
    intro mp hmp j hj
    rw [update_apply]
    split_ifs
    · exact Int.lt_add_one_of_le hmp
    · exact Int.lt_trans (h.fd_lt j hj) (Int.lt_succ _)
  have hneg : (-1 : Int) ≤ s.nextFd := Int.le_trans (by decide) h.nextFd
  -- the other paths keep their slots and their handles
  have hother {c : Client} (hc : Gains s.client c) (j : Nat) (hj : j < s.nPaths) (hji : j ≠ i)
      (hfd : 0 ≤ (s.paths j).fd) :
      OwnedBy agree c (s.paths j) (update s.libPathHandles i s.client.nextPathHandle j) := by
    rw [update_of_ne hji]
    exact (h.owner j hj hfd).mono fun t ht ha _ => hc.tags t ht ha
  cases hr with
  | unregistered =>
    exact ⟨h.named, hnext, hlt _ hneg, ownedBy_update (fun hfd => absurd hfd not_nonneg) fun j hj _ => h.owner j hj,
      h.handle_lt, h.inj⟩
  | rolledBack c next hc =>
    exact ⟨hc.named, hnext, hlt _ hneg, ownedBy_update (fun hfd => absurd hfd not_nonneg) (hother hc),
      fun j => h.handle_lt_update hc, fun j k hj hk => h.inj_update hj hk⟩
  | added c hgrants hc hmem =>
    refine ⟨hc.named, hnext, hlt _ (Int.le_refl _), ownedBy_update (fun _ => ?_) (hother hc),
      fun j => h.handle_lt_update hc, fun j k hj hk => h.inj_update hj hk⟩
    change OwnedBy agree c _ (update s.libPathHandles i _ i)
    rw [update_self]
    exact ownedBy_tagOf hmem fun hagree => hp hagree hgrants

theorem recount (h : s.Owned agree) (hr : Recount s s') : s'.Owned agree := by
  refine ⟨hr.client ▸ h.named, hr.nextFd ▸ h.nextFd, fun j hj => ?_, fun j hj hfd => ?_, ?_, ?_⟩
  · obtain ⟨failures, blocked, heq⟩ := hr.paths j
    rw [heq, hr.nextFd]
    exact h.fd_lt j (hr.nPaths ▸ hj)
  · obtain ⟨failures, blocked, heq⟩ := hr.paths j
    rw [heq] at hfd ⊢
    rw [hr.client, hr.libPathHandles]
    exact h.owner j (hr.nPaths ▸ hj) hfd
  · rw [hr.nPaths, hr.libPathHandles, hr.client]
    exact h.handle_lt
  · rw [hr.nPaths, hr.libPathHandles]
    exact h.inj

theorem added {iface : String} {backup pins : Bool} {granted : Prop} (h : s.Owned agree)
    (ha : Added s iface backup pins granted s') :
    s'.Owned agree := by
  cases ha with
  | aside _ ha => exact h.aside ha
  | added c pinned unpinned _ hc hmem hpinned hunpinned hpins =>
    have hcases {j : Nat} (hj : j < s.nPaths + 1) : j = s.nPaths ∨ j < s.nPaths ∧ j ≠ s.nPaths := by omega
    refine ⟨hc.named, Int.le_of_lt (Int.lt_add_one_of_le h.nextFd), fun j hj => ?_, ownedBy_update (fun _ => ?_)
      fun j hj hne hfd => ?_, fun j hj => ?_, fun j k hj hk heq => ?_⟩
    · change (update s.paths s.nPaths _ j).fd < s.nextFd + 1
      rcases hcases hj with rfl | ⟨hj, hne⟩
      · rw [update_self]
        exact Int.lt_succ _
      · rw [update_of_ne hne]
        exact Int.lt_trans (h.fd_lt j hj) (Int.lt_succ _)
    · change OwnedBy agree _ _ (update s.libPathHandles s.nPaths _ s.nPaths)
      rw [update_self]
      exact ownedBy_tagOf hmem fun _ => ⟨rfl, rfl⟩
    · change OwnedBy agree _ _ (update s.libPathHandles s.nPaths _ j)
      rw [update_of_ne hne]
      exact (h.owner j ((hcases hj).resolve_left hne).1 hfd).mono fun t ht ha _ => hc.tags t ht ha
    · rcases hcases hj with rfl | ⟨hj, -⟩
      · change update s.libPathHandles s.nPaths s.client.nextPathHandle s.nPaths < c.nextPathHandle
        rw [update_self, hc.nextPathHandle]
        exact Int.lt_succ _
      · exact h.handle_lt_update hc hj
    · change update s.libPathHandles s.nPaths _ j = update s.libPathHandles s.nPaths _ k at heq
      rw [update_apply, update_apply] at heq
      split_ifs at heq with hj' hk' hk'
      · exact hj'.trans hk'.symm
      · exact absurd heq.symm (Int.ne_of_lt (h.handle_lt k ((hcases hk).resolve_left hk').1))
      · exact absurd heq (Int.ne_of_lt (h.handle_lt j ((hcases hj).resolve_left hj').1))
      · exact h.inj j k ((hcases hj).resolve_left hj').1 ((hcases hk).resolve_left hk').1 heq

theorem without (h : s.Owned agree) {idx : Nat} {c : Client} (hidx : idx < s.nPaths)
    (hc : Spares s.client c (s.libPathHandles idx)) : (s.without idx c).Owned agree := by
  refine ⟨hc.named h.named, h.nextFd, fun j hj => ?_, fun j hj hfd => ?_, fun j hj => ?_, fun j k hj hk heq => ?_⟩
  · change (compact s.paths s.nPaths idx {} j).fd < s.nextFd
    rw [compact_eq _ _ hj]
    exact h.fd_lt _ (skip_lt hj)
  · change 0 ≤ (compact s.paths s.nPaths idx {} j).fd at hfd
    change OwnedBy agree c (compact s.paths s.nPaths idx {} j) (compact s.libPathHandles s.nPaths idx (-1) j)
    rw [compact_eq _ _ hj] at hfd ⊢
    rw [compact_eq _ _ hj]
    exact h.spares hidx hc (skip_lt hj) (skip_ne idx j) hfd
  · change compact s.libPathHandles s.nPaths idx (-1) j < c.nextPathHandle
    rw [compact_eq _ _ hj, hc.nextPathHandle]
    exact h.handle_lt _ (skip_lt hj)
  · change compact s.libPathHandles s.nPaths idx (-1) j = compact s.libPathHandles s.nPaths idx (-1) k at heq
    rw [compact_eq _ _ hj, compact_eq _ _ hk] at heq
    exact skip_inj (h.inj _ _ (skip_lt hj) (skip_lt hk) heq)

/-- The weight of a path is set in its slot, if the library knows the handle. -/
theorem platformSetPathWeight (h : s.Owned agree) (iface : String) (weight : Nat) :
    (s.platformSetPathWeight iface weight).Owned agree := by
  rcases platformSetPathWeight_cases s iface weight with heq | ⟨idx, hidx, last, hlast, heq⟩
  · rw [heq]
    exact h
  rw [heq]
  obtain ⟨hspares, hweight⟩ := setPathWeight_tags s.client h.named (s.libPathHandles idx) weight
  refine ⟨hspares.named h.named, h.nextFd, fun j hj => ?_, ownedBy_update (fun hopen => ?_) fun j hj hne hopen =>
    h.spares hidx hspares hj hne hopen, fun j hj => ?_, h.inj⟩
  · change (update s.paths idx _ j).fd < s.nextFd
    by_cases hne : j = idx
    · rw [hne, update_self]
      exact h.fd_lt idx hidx
    · rw [update_of_ne hne]
      exact h.fd_lt j hj
  · -- a path with a socket is known to the library
    obtain ⟨t, ht, hhandle, hsocket, hattached, hcarries⟩ := h.owner idx hidx hopen
    have hknown := findPathByHandle_isSome ht
    rw [hhandle] at hknown
    refine ⟨_, hweight t ht hhandle, hhandle, hsocket, hattached, fun hagree => ?_⟩
    exact ⟨(hcarries hagree).1, (hlast hknown).symm⟩
  · change s.libPathHandles j < (s.client.setPathWeight _ weight).nextPathHandle
    rw [hspares.nextPathHandle]
    exact h.handle_lt j hj

end Owned

end Mqvpn.LinuxPaths
