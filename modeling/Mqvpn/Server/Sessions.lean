import Mqvpn.Server.Frame
import Mqvpn.Lib.Runs
import Mathlib.Data.Finset.Card
import Mathlib.Order.Interval.Finset.Nat

/-!
# The table of sessions

The slots of the table of sessions are to be those of the connections that are there,
each at the offset of its address, and to be counted by `nSessions` (`Coherent`). A
tunnel that comes up overwrites its slot and raises the count, without a look at what
the slot holds. The table stays coherent in every run in which no tunnel comes up for a
connection that has an address already, nor at an address that has a session (`Tidy`,
`coherent_run`).
-/

namespace Mqvpn.Server

open Client Reorder Runs

variable {s s' : Server} {c : Nat} {k k' : Conn} {st : Step} {off : Nat}

/-! ## Coherence -/

/-- The slots that are taken. -/
def occupied (s : Server) : Finset Nat := (Finset.Icc 1 AddrPool.poolMax).filter fun off => s.sessions off ≠ none

/-- The table of sessions goes with the connections. -/
structure Coherent (s : Server) : Prop where
  count : s.nSessions = s.occupied.card
  live : ∀ off c, s.sessions off = some c → ∃ k, s.IsOpen c k ∧ k.assignedIp = s.pool.addr off
  registered : ∀ c k, s.IsOpen c k → k.tunnelEstablished = true →
    s.sessions (s.pool.offset k.assignedIp) = some c

/-- The addresses of the pool do not wrap around. -/
def NoWrap (s : Server) : Prop := s.pool.base + s.pool.poolSize < 2 ^ 32

instance : Decidable s.NoWrap := inferInstanceAs (Decidable (_ < _))

/-- What holds in every state of a tidy run. -/
structure Ordered (s : Server) : Prop extends Sound s, Coherent s where
  noWrap : s.NoWrap
  slots : ∀ off c, s.sessions off = some c → 2 ≤ off ∧ off ≤ s.pool.poolSize

theorem offset_addr (hs : s.Sound) (hoff : off ≤ s.pool.poolSize) : s.pool.offset (s.pool.addr off) = off := by
  have hsize := hs.poolSize_le
  rw [AddrPool.poolMax] at hsize
  exact AddrPool.offset_addr hs.base_lt (by omega)

theorem addr_eq (hwrap : s.NoWrap) (hoff : off ≤ s.pool.poolSize) : s.pool.addr off = s.pool.base + off := by
  rw [NoWrap] at hwrap
  exact Nat.mod_eq_of_lt (by omega)

/-! ## Calls that leave the sessions alone -/

theorem occupied_congr (h : s'.sessions = s.sessions) : s'.occupied = s.occupied := by
  rw [occupied, occupied, h]

theorem Tame.isOpen (h : Tame s s') (hk : s.IsOpen c k) : ∃ k', s'.IsOpen c k' ∧ Keeps k k' := by
  obtain ⟨k', hk', hkeeps⟩ := h.old c k hk.1
  exact ⟨k', ⟨hk', hkeeps.freed.trans hk.2⟩, hkeeps⟩

theorem Ordered.of_tame (h : s.Ordered) (ht : Tame s s') (hnet : SameNet s.pool s'.pool) (hs : s'.Sound) :
    s'.Ordered := by
  refine ⟨hs, ⟨?_, fun off c hslot => ?_, fun c k' hk' hest => ?_⟩, ?_, fun off c hslot => ?_⟩
  · rw [occupied_congr ht.sessions, ht.nSessions]
    exact h.count
  · obtain ⟨k, hk, hip⟩ := h.live off c (ht.sessions ▸ hslot)
    obtain ⟨k', hk', hkeeps⟩ := ht.isOpen hk
    exact ⟨k', hk', by rw [hkeeps.assignedIp, hip, hnet.addr]⟩
  · rcases ht.new c k' hk'.1 with ⟨k, hk, hkeeps⟩ | ⟨-, hfresh⟩
    · rw [ht.sessions, hnet.offset, hkeeps.assignedIp]
      exact h.registered c k ⟨hk, hkeeps.freed.symm.trans hk'.2⟩ (hkeeps.tunnelEstablished hest)
    · exact absurd (hfresh.symm.trans hest) Bool.false_ne_true
  · rw [NoWrap, hnet.base, hnet.poolSize]
    exact h.noWrap
  · rw [hnet.poolSize]
    exact h.slots off c (ht.sessions ▸ hslot)

/-! ## A connection ends -/

/-- The slot of a connection, if it has one, is that of its address. -/
theorem Ordered.slot_eq (h : s.Ordered) (hk : s.IsOpen c k) (hslot : s.sessions off = some c) :
    k.assignedIp = s.pool.addr off ∧ s.pool.offset k.assignedIp = off ∧ k.assignedIp ≠ 0 := by
  obtain ⟨k', hk', hip⟩ := h.live off c hslot
  cases hk.1.symm.trans hk'.1
  have hoff := h.slots off c hslot
  refine ⟨hip, ?_, ?_⟩
  · rw [hip]
    exact offset_addr h.toSound hoff.2
  · rw [hip, addr_eq h.noWrap hoff.2]
    omega

theorem occupied_update_none (s' : Server) (hoff : InTable off) (hslot : s.sessions off = some c)
    (hsessions : s'.sessions = Function.update s.sessions off none) :
    s'.occupied.card + 1 = s.occupied.card := by
  have hmem : off ∈ s.occupied := by
    rw [occupied, Finset.mem_filter, hslot]
    exact ⟨Finset.mem_Icc.2 hoff, by simp⟩
  have heq : s'.occupied = s.occupied.erase off := by
    ext i
    rw [Finset.mem_erase, occupied, occupied, Finset.mem_filter, Finset.mem_filter, hsessions]
    by_cases hi : i = off
    · subst hi
      simp
    · rw [Function.update_of_ne hi]
      simp [hi]
  rw [heq]
  exact Finset.card_erase_add_one hmem

theorem occupied_update_some (hoff : InTable off) (hslot : s.sessions off = none)
    (hsessions : s'.sessions = Function.update s.sessions off (some c)) :
    s'.occupied.card = s.occupied.card + 1 := by
  have hnotMem : off ∉ s.occupied := by
    rw [occupied, Finset.mem_filter, hslot]
    simp
  have heq : s'.occupied = insert off s.occupied := by
    ext i
    rw [Finset.mem_insert, occupied, occupied, Finset.mem_filter, Finset.mem_filter, hsessions]
    by_cases hi : i = off
    · subst hi
      simp [Finset.mem_Icc, hoff.2, Nat.one_le_iff_ne_zero, Nat.pos_iff_ne_zero.1 hoff.1]
    · rw [Function.update_of_ne hi]
      simp [hi]
  rw [heq]
  exact Finset.card_insert_of_notMem hnotMem

/-- A connection is gone, and with it its slot. -/
theorem Ordered.of_freed (h : s.Ordered) (hk : s.IsOpen c k) (hs : s'.Sound) (hnet : SameNet s.pool s'.pool)
    (hconns : s'.conns = s.conns.set c { k with freed := true }) (hcount : s'.nSessions = s'.occupied.card)
    (hsub : ∀ off d, s'.sessions off = some d → s.sessions off = some d ∧ d ≠ c)
    (hkeep : ∀ off d, d ≠ c → s.sessions off = some d → s'.sessions off = some d) : s'.Ordered := by
  have hother : ∀ {d : Nat}, d ≠ c → s'.conns[d]? = s.conns[d]? := fun hd => by
    rw [hconns]
    exact getElem?_setConn_of_ne hd
  have hself : ∀ {l : Conn}, ¬s'.IsOpen c l := by
    rintro l ⟨hl, hfreed⟩
    rw [hconns] at hl
    cases (getElem?_setConn_self hk.1).symm.trans hl
    cases hfreed
  refine ⟨hs, ⟨hcount, fun off d hslot => ?_, fun d l hl hest => ?_⟩, ?_, fun off d hslot => ?_⟩
  · obtain ⟨hslot, hd⟩ := hsub off d hslot
    obtain ⟨l, hl, hip⟩ := h.live off d hslot
    exact ⟨l, ⟨(hother hd).trans hl.1, hl.2⟩, hip.trans (hnet.addr off).symm⟩
  · by_cases hd : d = c
    · exact absurd (hd ▸ hl) hself
    · rw [hnet.offset]
      exact hkeep _ d hd (h.registered d l ⟨(hother hd).symm.trans hl.1, hl.2⟩ hest)
  · rw [NoWrap, hnet.base, hnet.poolSize]
    exact h.noWrap
  · rw [hnet.poolSize]
    exact h.slots off d (hsub off d hslot).1

theorem Ordered.removeSession (h : s.Ordered) (hk : s.IsOpen c k) (hoff : s.pool.offset k.assignedIp = off) :
    (s.removeSession c off).nSessions = (s.removeSession c off).occupied.card ∧
      (∀ i d, (s.removeSession c off).sessions i = some d → s.sessions i = some d ∧ d ≠ c) ∧
      ∀ i d, d ≠ c → s.sessions i = some d → (s.removeSession c off).sessions i = some d := by
  rw [Server.removeSession]
  split_ifs with hslot
  · have hcard := occupied_update_none
      { s with sessions := Function.update s.sessions off none, nSessions := s.nSessions - 1 } hslot.1 hslot.2 rfl
    have hcount := h.count
    refine ⟨?_, fun i d hi => ?_, fun i d hd hi => ?_⟩
    · dsimp only
      omega
    · dsimp only at hi
      by_cases heq : i = off
      · rw [heq, Function.update_self] at hi
        cases hi
      · rw [Function.update_of_ne heq] at hi
        refine ⟨hi, ?_⟩
        rintro rfl
        exact heq ((h.slot_eq hk hi).2.1.symm.trans hoff)
    · dsimp only
      rw [Function.update_of_ne, hi]
      rintro rfl
      exact hd (Option.some.inj (hi.symm.trans hslot.2))
  · refine ⟨h.count, fun i d hi => ⟨hi, ?_⟩, fun i d _ hi => hi⟩
    rintro rfl
    have hi' := (h.slot_eq hk hi).2.1.symm.trans hoff
    subst hi'
    have hrange := h.slots i d hi
    have hsize := h.poolSize_le
    exact hslot ⟨⟨by omega, by omega⟩, hi⟩

theorem Ordered.cbH3ConnClose (h : s.Ordered) (hk : s.IsOpen c k) : (s.cbH3ConnClose c k).Ordered := by
  have hs := h.toSound.cbH3ConnClose c k
  by_cases hip : k.assignedIp = 0
  · have heq : s.cbH3ConnClose c k = s.setConn c { k with freed := true } := by
      rw [Server.cbH3ConnClose, if_neg (by simpa using hip)]
    rw [heq] at hs ⊢
    refine h.of_freed hk hs (.refl _) rfl h.count (fun off d hslot => ⟨hslot, ?_⟩) fun off d _ hslot => hslot
    rintro rfl
    exact (h.slot_eq hk hslot).2.2 hip
  · obtain ⟨off, hoff⟩ : ∃ off, s.pool.offset k.assignedIp = off := ⟨_, rfl⟩
    obtain ⟨leases, heq⟩ := cbH3ConnClose_eq c hip hoff
    obtain ⟨hcount, hsub, hkeep⟩ := h.removeSession hk hoff
    rw [heq] at hs ⊢
    refine h.of_freed hk hs ?_ ?_ hcount hsub hkeep
    · change SameNet s.pool (ite _ _ _)
      split_ifs
      · exact .refl _
      · exact sameNet_release _ _
    · rw [← heq]
      exact (cbH3ConnClose_frame s c k).1

/-! ## A tunnel comes up -/

/-- The address that is assigned to a connection. -/
theorem Sound.assigned (h : s.Sound) {username : List Char} {pool : AddrPool} {ip : Nat}
    (hassign : s.assignIp username = some (pool, ip)) :
    ∃ off, 2 ≤ off ∧ off ≤ s.pool.poolSize ∧ ip = s.pool.addr off ∧
      ((∃ pin ∈ s.pinnedIps, s.pinOf username = some pin ∧ pin.offset = off ∧ pool = s.pool) ∨
        ∃ next, s.pinOf username = none ∧ s.pool.used off = false ∧
          pool = { s.pool with used := Function.update s.pool.used off true, next }) := by
  rcases assignIp_cases hassign with ⟨pin, hmem, hpin, rfl, rfl⟩ | ⟨off, next, hnone, hvacant, rfl, rfl⟩
  · obtain ⟨hlo, hhi, hip⟩ := h.pins pin hmem
    exact ⟨pin.offset, hlo, hhi, hip, .inl ⟨pin, hmem, hpin, rfl, rfl⟩⟩
  · exact ⟨off, hvacant.1, hvacant.2.1, rfl, .inr ⟨next, hnone, hvacant.2.2, rfl⟩⟩

/-- A connection without an address gets one that has no session. -/
theorem Ordered.of_registered (h : s.Ordered) (hk : s.IsOpen c k) (hzero : k.assignedIp = 0) (hs : s'.Sound)
    (hnet : SameNet s.pool s'.pool) (hlo : 2 ≤ off) (hhi : off ≤ s.pool.poolSize) (hfree : s.sessions off = none)
    (hconns : s'.conns = s.conns.set c k') (hip : k'.assignedIp = s.pool.addr off) (hopen : k'.freed = false)
    (hsessions : s'.sessions = Function.update s.sessions off (some c)) (hn : s'.nSessions = s.nSessions + 1) :
    s'.Ordered := by
  have hsize := h.poolSize_le
  have hother : ∀ {d : Nat}, d ≠ c → s'.conns[d]? = s.conns[d]? := fun hd => by
    rw [hconns]
    exact getElem?_setConn_of_ne hd
  have hself : s'.conns[c]? = some k' := by
    rw [hconns]
    exact getElem?_setConn_self hk.1
  refine ⟨hs, ⟨?_, fun i d hslot => ?_, fun d l hl hest => ?_⟩, ?_, fun i d hslot => ?_⟩
  · rw [hn, h.count, occupied_update_some ⟨by omega, by omega⟩ hfree hsessions]
    rfl
  · rw [hsessions] at hslot
    by_cases hi : i = off
    · subst hi
      rw [Function.update_self] at hslot
      cases hslot
      exact ⟨k', ⟨hself, hopen⟩, hip.trans (hnet.addr i).symm⟩
    · rw [Function.update_of_ne hi] at hslot
      have hd : d ≠ c := by
        rintro rfl
        exact (h.slot_eq hk hslot).2.2 hzero
      obtain ⟨l, hl, hlip⟩ := h.live i d hslot
      exact ⟨l, ⟨(hother hd).trans hl.1, hl.2⟩, hlip.trans (hnet.addr i).symm⟩
  · rw [hnet.offset, hsessions]
    by_cases hd : d = c
    · subst hd
      cases hself.symm.trans hl.1
      rw [hip, offset_addr h.toSound hhi, Function.update_self]
    · have hslot := h.registered d l ⟨(hother hd).symm.trans hl.1, hl.2⟩ hest
      rw [Function.update_of_ne, hslot]
      rintro heq
      rw [heq, hfree] at hslot
      cases hslot
  · rw [NoWrap, hnet.base, hnet.poolSize]
    exact h.noWrap
  · rw [hnet.poolSize]
    rw [hsessions] at hslot
    by_cases hi : i = off
    · exact hi ▸ ⟨hlo, hhi⟩
    · rw [Function.update_of_ne hi] at hslot
      exact h.slots i d hslot

/-- There is no session at the pinned address of the user; and if it has none, the pool
    knows that the addresses of the sessions are in use. -/
def Uncontested (s : Server) (username : List Char) : Prop :=
  (∀ pin ∈ s.pinOf username, s.sessions pin.offset = none) ∧
    (s.pinOf username = none →
      ∀ off ∈ List.range' 1 AddrPool.poolMax, s.sessions off ≠ none → s.pool.used off = true)

/-- The request, if there is an address for it, comes on a connection that has none; and
    if its capsules can be sent, no session is in its way. -/
def Welcomes (s : Server) (c : Nat) (r : Request) : Prop :=
  ∀ k ∈ s.conns[c]?, k.freed = false → ∀ username ∈ s.authenticate k r, s.Admits r →
    (s.assignIp username).isSome = true →
      k.assignedIp = 0 ∧ (r.Delivered s.pool.hasV6 (k.hasV6 || s.pool.hasV6) → s.Uncontested username)

/-- No tunnel comes up for a connection that has an address already, nor at an address
    that has a session. -/
def Tidy (s : Server) (st : Step) : Prop :=
  match st.call with
  | .request c r => s.Welcomes c r
  | _ => True

instance (username : List Char) : Decidable (s.Uncontested username) := inferInstanceAs (Decidable (_ ∧ _))

instance (c : Nat) (r : Request) : Decidable (s.Welcomes c r) :=
  inferInstanceAs (Decidable (∀ k ∈ s.conns[c]?, _))

instance : Decidable (s.Tidy st) :=
  match st with
  | ⟨_, .request c r⟩ => inferInstanceAs (Decidable (s.Welcomes c r))
  | ⟨_, .connCreate _⟩ | ⟨_, .connClose _⟩ | ⟨_, .requestClose _⟩ | ⟨_, .dgramWrite _⟩
  | ⟨_, .dgramMssUpdated _ _⟩ | ⟨_, .onTunPacket _⟩ | ⟨_, .addUser _ _⟩ | ⟨_, .removeUser _⟩
  | ⟨_, .setUserFixedIp _ _⟩ => inferInstanceAs (Decidable True)

theorem Ordered.establish (h : s.Ordered) (hk : s.IsOpen c k) (hzero : k.assignedIp = 0) (hkeeps : Keeps k k')
    (hest : k'.tunnelEstablished = k.tunnelEstablished) {pool : AddrPool} (hnet : SameNet s.pool pool)
    (hlo : 2 ≤ off) (hhi : off ≤ s.pool.poolSize) (r : Request)
    (hfree : r.Delivered pool.hasV6 (k'.hasV6 || pool.hasV6) → s.sessions off = none)
    (hs : ({ s with pool }.establish c k' r (s.pool.addr off)).Sound) :
    ({ s with pool }.establish c k' r (s.pool.addr off)).Ordered := by
  have hsize := h.poolSize_le
  have hoff : pool.offset (s.pool.addr off) = off := (hnet.offset _).trans (offset_addr h.toSound hhi)
  rcases establish_cases { s with pool } c k' r (s.pool.addr off) with
    ⟨k'', hip, hfreed, hsent, heq⟩ | ⟨k'', hip, hfreed, hest', -, heq⟩
  · rw [heq] at hs ⊢
    dsimp only at hs ⊢
    rw [hoff, addSession, if_pos ⟨by omega, by omega⟩] at hs ⊢
    exact h.of_registered hk hzero hs hnet hlo hhi (hfree hsent) rfl hip
      (hfreed.trans (hkeeps.freed.trans hk.2)) rfl rfl
  · -- The address is given back, and the connection is as it was.
    rw [heq] at hs ⊢
    have hkeeps' : Keeps k k'' :=
      ⟨hip.trans hzero.symm, hfreed.trans hkeeps.freed, fun ht => hest ▸ hest' ▸ ht⟩
    have htame : Tame s { s with pool := pool.release (s.pool.addr off) } := .of_eq rfl rfl rfl
    exact h.of_tame (htame.trans (tame_setConn hk.1 hkeeps')) (hnet.trans (sameNet_release _ _)) hs

theorem Ordered.request (h : s.Ordered) (hk : s.IsOpen c k) {r : Request} (hw : s.Welcomes c r) :
    (s.svrConnectIpOnRequest c k r).Ordered := by
  have hs := h.toSound.request hk.1 r
  rcases request_cases hk.1 r with hstill | ⟨username, hauth, hadmits, pool, ip, hassign, k', hkeeps, hest, hv6, heq⟩
  · exact h.of_tame hstill.toTame (hstill.pool ▸ .refl _) hs
  · obtain ⟨hzero, hclear⟩ := hw k hk.1 hk.2 username hauth hadmits (Option.isSome_of_eq_some hassign)
    have hnet := sameNet_assignIp hassign
    obtain ⟨off, hlo, hhi, rfl, hcase⟩ := h.toSound.assigned hassign
    rw [heq] at hs ⊢
    refine h.establish hk hzero hkeeps hest hnet hlo hhi r (fun hsent => ?_) hs
    rw [hnet.hasV6, hv6] at hsent
    obtain ⟨hpinned, hdynamic⟩ := hclear hsent
    rcases hcase with ⟨pin, -, hpin, rfl, -⟩ | ⟨next, hnone, hunused, -⟩
    · exact hpinned pin hpin
    · -- An offset that the pool takes for vacant has no session.
      by_contra hslot
      have hsize := h.poolSize_le
      have hused := hdynamic hnone off (List.mem_range'_1.2 ⟨by omega, by omega⟩) hslot
      exact Bool.false_ne_true (hunused.symm.trans hused)

/-! ## Runs -/

theorem Ordered.step (h : s.Ordered) (st : Step) (ht : s.Tidy st) : (s.step st).Ordered := by
  have hother : (∀ c, st.call ≠ .connClose c) → (∀ c r, st.call ≠ .request c r) → (s.step st).Ordered := by
    intro hclose hrequest
    obtain ⟨htame, hnet⟩ := tame_step s st hclose hrequest
    exact h.of_tame htame hnet (h.toSound.step st)
  obtain ⟨nowUs, call⟩ := st
  cases call with
  | connClose c => exact callback_rule h fun k hk => h.cbH3ConnClose hk
  | request c r => exact callback_rule h fun k hk => h.request hk ht
  | _ => exact hother (by simp) (by simp)

theorem ordered_new {cfg : Config} (h : new cfg = some s) (hwrap : s.NoWrap) : s.Ordered := by
  have hempty : s.conns = [] ∧ s.sessions = (fun _ => none) ∧ s.nSessions = 0 := by
    refine new_induction (J := fun s => s.conns = [] ∧ s.sessions = (fun _ => none) ∧ s.nSessions = 0) h
      (fun s₀ _ _ _ _ hconns hsessions hn _ => ⟨hconns, hsessions, hn⟩) fun s u hs => ?_
    rcases reserve_cases s u with heq | ⟨off, -, heq⟩
    · rw [heq]
      exact hs
    · rw [heq]
      exact hs
  obtain ⟨hconns, hsessions, hn⟩ := hempty
  have hslot : ∀ off c, s.sessions off ≠ some c := by simp [hsessions]
  refine ⟨sound_new h, ⟨?_, fun off c hc => absurd hc (hslot off c), fun c k hk => ?_⟩, hwrap,
    fun off c hc => absurd hc (hslot off c)⟩
  · rw [hn, occupied, hsessions]
    simp
  · have hk := hk.1
    rw [hconns] at hk
    cases hk

theorem Coherent.eq_of_assignedIp_eq (h : s.Coherent) {d : Nat} (hk : s.IsOpen c k) (hk' : s.IsOpen d k')
    (hest : k.tunnelEstablished = true) (hest' : k'.tunnelEstablished = true)
    (hip : k.assignedIp = k'.assignedIp) : c = d := by
  have hslot := h.registered c k hk hest
  rw [hip, h.registered d k' hk' hest'] at hslot
  exact (Option.some.inj hslot).symm

theorem Coherent.nSessions_eq_zero (h : s.Coherent) (hfreed : ∀ k ∈ s.conns, k.freed = true) : s.nSessions = 0 := by
  have hempty : s.occupied = ∅ := by
    rw [occupied, Finset.filter_eq_empty_iff]
    intro off _ hslot
    obtain ⟨c, hc⟩ := Option.ne_none_iff_exists'.1 hslot
    obtain ⟨k, hk, -⟩ := h.live off c hc
    exact Bool.false_ne_true (hk.2.symm.trans (hfreed k (List.mem_of_getElem? hk.1)))
  rw [h.count, hempty]
  rfl

/-- In every tidy run, the table of sessions is coherent: no two tunnels share an
    address, and once all connections are closed no session is counted. -/
theorem coherent_run {cfg : Config} (h : new cfg = some s) (hwrap : s.NoWrap) {steps : List Step}
    (ht : Along step Tidy s steps) :
    (s.run steps).Coherent ∧
      (∀ c d k l, (s.run steps).IsOpen c k → (s.run steps).IsOpen d l → k.tunnelEstablished = true →
        l.tunnelEstablished = true → k.assignedIp = l.assignedIp → c = d) ∧
      ((∀ k ∈ (s.run steps).conns, k.freed = true) → (s.run steps).nSessions = 0) := by
  have hco : (s.run steps).Coherent :=
    (foldl_of_along (J := Ordered) (fun _ st hs => hs.step st) (ordered_new h hwrap) ht).toCoherent
  exact ⟨hco, fun _ _ _ _ hk hl => hco.eq_of_assignedIp_eq hk hl, hco.nSessions_eq_zero⟩

/-- Two users connect, and one of them goes away and comes back. -/
def sampleSteps : List Step :=
  [⟨1, .connCreate true⟩, ⟨2, .request 0 alice⟩, ⟨3, .connCreate true⟩, ⟨4, .request 1 bob⟩,
    ⟨5, .connClose 0⟩, ⟨6, .connCreate true⟩, ⟨7, .request 2 alice⟩]

theorem coherent_run_sample : (sample.run sampleSteps).nSessions = 2 ∧ (sample.run sampleSteps).Coherent :=
  ⟨by decide +kernel, (coherent_run new_sample (by decide) (by decide +kernel)).1⟩

/-- A user with a fixed address connects again while it is connected: one session too
    many is counted, for good. -/
def sampleTwice : List Step :=
  [⟨1, .connCreate true⟩, ⟨2, .request 0 alice⟩, ⟨3, .connCreate true⟩, ⟨4, .request 1 alice⟩,
    ⟨5, .connClose 0⟩, ⟨6, .connClose 1⟩]

/-- There are two requests on a connection: one of its slots is left behind. -/
def sampleAgain : List Step := [⟨1, .connCreate true⟩, ⟨2, .request 0 bob⟩, ⟨3, .request 0 bob⟩, ⟨4, .connClose 0⟩]

theorem not_coherent :
    ((∀ k ∈ (sample.run sampleTwice).conns, k.freed = true) ∧ (sample.run sampleTwice).nSessions = 1 ∧
      ¬(sample.run sampleTwice).Coherent) ∧
    ((∀ k ∈ (sample.run sampleAgain).conns, k.freed = true) ∧ (sample.run sampleAgain).sessions 2 = some 0 ∧
      ¬(sample.run sampleAgain).Coherent) := by
  refine ⟨⟨by decide +kernel, by decide +kernel, fun h => ?_⟩, ⟨by decide +kernel, by decide +kernel, fun h => ?_⟩⟩
  · have hzero := h.nSessions_eq_zero (by decide +kernel)
    revert hzero
    decide +kernel
  · have hzero := h.nSessions_eq_zero (by decide +kernel)
    revert hzero
    decide +kernel

end Mqvpn.Server
