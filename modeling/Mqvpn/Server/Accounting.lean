import Mqvpn.Server.Sessions
import Mathlib.Data.List.InsertIdx
import Mathlib.Data.List.Nodup

/-!
# The addresses in use

The pool is to know the addresses that are in use: those of the pins, and those that
connections hold (`Accounted`). Then no pinned address is given to anybody else, and no
address is lost. Three tables have to agree for that, and the calls that change them do
not look at all of them. The pool is accounted for in every run whose calls change the
tables in a way in which they agree (`Fair`, `accounted_run`).
-/

namespace Mqvpn.Server

open Client Reorder Runs

variable {s s' : Server} {c : Nat} {k k' : Conn} {st : Step} {off : Nat}

/-! ## Accounts -/

def Pinned (s : Server) (off : Nat) : Prop := ∃ pin ∈ s.pinnedIps, pin.offset = off

/-- The connection is there, and has the address at the offset. -/
def HeldBy (s : Server) (c off : Nat) : Prop :=
  ∃ k ∈ s.conns[c]?, k.freed = false ∧ k.assignedIp ≠ 0 ∧ s.pool.offset k.assignedIp = off

/-- A connection has the address at the offset. -/
def Held (s : Server) (off : Nat) : Prop := ∃ c ∈ List.range s.conns.length, s.HeldBy c off

/-- The offsets in use are those that are pinned or held. -/
def Accounted (s : Server) : Prop := ∀ off, s.pool.used off = true ↔ s.Pinned off ∨ s.Held off

instance : Decidable (s.Pinned off) := inferInstanceAs (Decidable (∃ pin ∈ s.pinnedIps, _))

instance : Decidable (s.HeldBy c off) := inferInstanceAs (Decidable (∃ k ∈ s.conns[c]?, _))

/-- Another connection has the address at the offset. -/
def HeldElse (s : Server) (c off : Nat) : Prop := ∃ d ∈ List.range s.conns.length, d ≠ c ∧ s.HeldBy d off

instance : Decidable (s.HeldElse c off) :=
  inferInstanceAs (Decidable (∃ d ∈ List.range s.conns.length, _))

instance : Decidable (s.Held off) := inferInstanceAs (Decidable (∃ c ∈ List.range s.conns.length, _))

theorem held_iff : s.Held off ↔ ∃ c, s.HeldBy c off := by
  constructor
  · rintro ⟨c, -, hc⟩
    exact ⟨c, hc⟩
  · rintro ⟨c, k, hk, hheld⟩
    have hlt : c < s.conns.length := (List.getElem?_eq_some_iff.1 hk).1
    exact ⟨c, List.mem_range.2 hlt, k, hk, hheld⟩

theorem heldElse_iff : s.HeldElse c off ↔ ∃ d, d ≠ c ∧ s.HeldBy d off := by
  constructor
  · rintro ⟨d, -, hd⟩
    exact ⟨d, hd⟩
  · rintro ⟨d, hd, k, hk, hheld⟩
    have hlt : d < s.conns.length := (List.getElem?_eq_some_iff.1 hk).1
    exact ⟨d, List.mem_range.2 hlt, hd, k, hk, hheld⟩

theorem held_iff_heldElse (c : Nat) : s.Held off ↔ s.HeldElse c off ∨ s.HeldBy c off := by
  rw [held_iff, heldElse_iff]
  constructor
  · rintro ⟨d, hd⟩
    by_cases hdc : d = c
    · exact .inr (hdc ▸ hd)
    · exact .inl ⟨d, hdc, hd⟩
  · rintro (⟨d, -, hd⟩ | hc)
    · exact ⟨d, hd⟩
    · exact ⟨c, hc⟩

/-- What holds in every state of a fair run. -/
structure Balanced (s : Server) : Prop extends Sound s where
  accounted : s.Accounted
  noWrap : s.NoWrap
  addrs : ∀ c k, s.IsOpen c k → k.assignedIp ≠ 0 →
    ∃ off, 2 ≤ off ∧ off ≤ s.pool.poolSize ∧ k.assignedIp = s.pool.addr off
  distinct : (s.pinnedIps.map Pin.offset).Nodup

theorem release_addr (hwrap : s.NoWrap) (hlo : 1 ≤ off) (hhi : off ≤ s.pool.poolSize) :
    s.pool.release (s.pool.addr off) = { s.pool with used := Function.update s.pool.used off false } := by
  rw [addr_eq hwrap hhi, AddrPool.release, if_neg (by omega), Nat.add_sub_cancel_left]
  exact if_pos ⟨hlo, hhi⟩

/-! ## Holders -/

theorem Tame.heldBy (ht : Tame s s') (hnet : SameNet s.pool s'.pool) : s'.HeldBy c off ↔ s.HeldBy c off := by
  constructor
  · rintro ⟨k', hk', hfreed, hip, hoff⟩
    rcases ht.new c k' hk' with ⟨k, hk, hkeeps⟩ | ⟨hzero, -⟩
    · rw [hkeeps.freed] at hfreed
      rw [hkeeps.assignedIp] at hip hoff
      exact ⟨k, hk, hfreed, hip, (hnet.offset _).symm.trans hoff⟩
    · exact absurd hzero hip
  · rintro ⟨k, hk, hfreed, hip, hoff⟩
    obtain ⟨k', hk', hkeeps⟩ := ht.old c k hk
    refine ⟨k', hk', hkeeps.freed.trans hfreed, ?_, ?_⟩
    · rw [hkeeps.assignedIp]
      exact hip
    · rw [hkeeps.assignedIp]
      exact (hnet.offset _).trans hoff

theorem Tame.held (ht : Tame s s') (hnet : SameNet s.pool s'.pool) : s'.Held off ↔ s.Held off := by
  rw [held_iff, held_iff]
  exact exists_congr fun c => ht.heldBy hnet

theorem heldBy_of_ne {d : Nat} (hconns : s'.conns = s.conns.set c k') (hnet : SameNet s.pool s'.pool) (hd : d ≠ c) :
    s'.HeldBy d off ↔ s.HeldBy d off := by
  rw [HeldBy, HeldBy, hconns, List.getElem?_set_ne hd.symm]
  refine exists_congr fun k => ?_
  rw [hnet.offset]

theorem Tame.addrs (ht : Tame s s') (hnet : SameNet s.pool s'.pool)
    (h : ∀ c k, s.IsOpen c k → k.assignedIp ≠ 0 →
      ∃ off, 2 ≤ off ∧ off ≤ s.pool.poolSize ∧ k.assignedIp = s.pool.addr off) (c : Nat) (k' : Conn)
    (hk' : s'.IsOpen c k') (hip : k'.assignedIp ≠ 0) :
    ∃ off, 2 ≤ off ∧ off ≤ s'.pool.poolSize ∧ k'.assignedIp = s'.pool.addr off := by
  rcases ht.new c k' hk'.1 with ⟨k, hk, hkeeps⟩ | ⟨hzero, -⟩
  · rw [hkeeps.assignedIp] at hip ⊢
    obtain ⟨off, hlo, hhi, heq⟩ := h c k ⟨hk, hkeeps.freed.symm.trans hk'.2⟩ hip
    exact ⟨off, hlo, hnet.poolSize ▸ hhi, heq.trans (hnet.addr off).symm⟩
  · exact absurd hzero hip

/-- Calls that change no address, pin or use. -/
theorem Balanced.of_still (h : s.Balanced) (hstill : Still s s') : s'.Balanced := by
  have hnet : SameNet s.pool s'.pool := hstill.pool ▸ .refl _
  refine ⟨h.toSound.of_still hstill, fun off => ?_, ?_, hstill.toTame.addrs hnet h.addrs, ?_⟩
  · rw [hstill.toTame.held hnet, Pinned, hstill.pinnedIps, hstill.pool]
    exact h.accounted off
  · rw [NoWrap, hstill.pool]
    exact h.noWrap
  · rw [hstill.pinnedIps]
    exact h.distinct

/-! ## Changes to one connection -/

theorem heldElse_set (hconns : s'.conns = s.conns.set c k') (hnet : SameNet s.pool s'.pool) :
    s'.HeldElse c off ↔ s.HeldElse c off := by
  rw [heldElse_iff, heldElse_iff]
  refine exists_congr fun d => and_congr_right fun hd => ?_
  exact heldBy_of_ne hconns hnet hd

theorem heldBy_set (hk : s.conns[c]? = some k) (hconns : s'.conns = s.conns.set c k')
    (hnet : SameNet s.pool s'.pool) :
    s'.HeldBy c off ↔ k'.freed = false ∧ k'.assignedIp ≠ 0 ∧ s.pool.offset k'.assignedIp = off := by
  have hself : s'.conns[c]? = some k' := by
    rw [hconns]
    exact getElem?_setConn_self hk
  rw [HeldBy, hself, ← hnet.offset]
  simp

/-- A connection is changed, and the pool knows what it has now. -/
theorem Balanced.of_set (h : s.Balanced) (hs : s'.Sound) (hk : s.conns[c]? = some k)
    (hconns : s'.conns = s.conns.set c k') (hnet : SameNet s.pool s'.pool) (hpins : s'.pinnedIps = s.pinnedIps)
    (hused : ∀ i, s'.pool.used i = true ↔ s.Pinned i ∨ s.HeldElse c i ∨
      k'.freed = false ∧ k'.assignedIp ≠ 0 ∧ s.pool.offset k'.assignedIp = i)
    (haddr : k'.freed = false → k'.assignedIp ≠ 0 →
      ∃ off, 2 ≤ off ∧ off ≤ s.pool.poolSize ∧ k'.assignedIp = s.pool.addr off) : s'.Balanced := by
  refine ⟨hs, fun i => ?_, ?_, fun d l hl hip => ?_, ?_⟩
  · rw [hused, held_iff_heldElse c, heldElse_set hconns hnet, heldBy_set hk hconns hnet, Pinned, Pinned, hpins]
  · rw [NoWrap, hnet.base, hnet.poolSize]
    exact h.noWrap
  · obtain ⟨off, hlo, hhi, heq⟩ : ∃ off, 2 ≤ off ∧ off ≤ s.pool.poolSize ∧ l.assignedIp = s.pool.addr off := by
      have hl' := hl.1
      rw [hconns] at hl'
      by_cases hd : d = c
      · subst hd
        cases (getElem?_setConn_self hk).symm.trans hl'
        exact haddr hl.2 hip
      · exact h.addrs d l ⟨(getElem?_setConn_of_ne hd).symm.trans hl', hl.2⟩ hip
    exact ⟨off, hlo, hnet.poolSize ▸ hhi, heq.trans (hnet.addr off).symm⟩
  · rw [hpins]
    exact h.distinct

/-- The end of a connection, if its address is pinned or nobody else has it. -/
theorem Balanced.cbH3ConnClose (h : s.Balanced) (hk : s.IsOpen c k)
    (hfair : k.assignedIp ≠ 0 → s.HeldElse c (s.pool.offset k.assignedIp) →
      s.Pinned (s.pool.offset k.assignedIp)) :
    (s.cbH3ConnClose c k).Balanced := by
  have hs := h.toSound.cbH3ConnClose c k
  by_cases hip : k.assignedIp = 0
  · have heq : s.cbH3ConnClose c k = s.setConn c { k with freed := true } := by
      rw [Server.cbH3ConnClose, if_neg (by simpa using hip)]
    rw [heq] at hs ⊢
    refine h.of_set hs hk.1 rfl (.refl _) rfl (fun i => ?_) (by simp)
    have hself : ¬s.HeldBy c i := by
      rintro ⟨l, hl, -, hlip, -⟩
      cases hk.1.symm.trans hl
      exact hlip hip
    have hacc := h.accounted i
    rw [held_iff_heldElse c] at hacc
    change s.pool.used i = true ↔ _
    rw [hacc]
    simp [hself]
  · obtain ⟨off, hlo, hhi, haddr⟩ := h.addrs c k hk hip
    have hoff : s.pool.offset k.assignedIp = off := by
      rw [haddr]
      exact offset_addr h.toSound hhi
    rw [hoff] at hfair
    obtain ⟨leases, heq⟩ := cbH3ConnClose_eq c hip hoff
    have hself : ∀ i, s.HeldBy c i ↔ i = off := by
      intro i
      constructor
      · rintro ⟨l, hl, -, -, hi⟩
        cases hk.1.symm.trans hl
        exact hi.symm.trans hoff
      · rintro rfl
        exact ⟨k, hk.1, hk.2, hip, hoff⟩
    have hpool : (s.cbH3ConnClose c k).pool = if s.Pinned off then s.pool else s.pool.release k.assignedIp := by
      rw [heq]
      rfl
    obtain ⟨hconns, hpins, -⟩ := cbH3ConnClose_frame s c k
    refine h.of_set hs hk.1 hconns ?_ hpins (fun i => ?_) Bool.noConfusion
    · rw [hpool]
      split_ifs
      · exact .refl _
      · exact sameNet_release _ _
    · have hacc := h.accounted i
      rw [held_iff_heldElse c, hself] at hacc
      rw [hpool]
      by_cases hpin : s.Pinned off
      · -- The address stays with its pin.
        rw [if_pos hpin, hacc]
        by_cases hi : i = off
        · simp [hi, hpin]
        · simp [hi]
      · rw [if_neg hpin, haddr, release_addr h.noWrap (by omega) hhi]
        dsimp only
        by_cases hi : i = off
        · subst hi
          have helse : ¬s.HeldElse c i := fun helse => hpin (hfair hip helse)
          simp [hpin, helse]
        · rw [Function.update_of_ne hi, hacc]
          simp [hi]

/-! ## Requests -/

/-- The request, if there is an address for it, comes on a connection that has none, or
    whose address is in use without it; and if its user has a pin, its capsules can be
    sent. -/
def FairRequest (s : Server) (c : Nat) (r : Request) : Prop :=
  ∀ k ∈ s.conns[c]?, k.freed = false → ∀ username ∈ s.authenticate k r, s.Admits r →
    (s.assignIp username).isSome = true →
      (k.assignedIp ≠ 0 → s.Pinned (s.pool.offset k.assignedIp) ∨ s.HeldElse c (s.pool.offset k.assignedIp)) ∧
        ((s.pinOf username).isSome = true → r.Delivered s.pool.hasV6 (k.hasV6 || s.pool.hasV6))

instance (c : Nat) (r : Request) : Decidable (s.FairRequest c r) :=
  inferInstanceAs (Decidable (∀ k ∈ s.conns[c]?, _))

/-- The uses of the pool do not rest on the connection. -/
theorem Balanced.used_iff (h : s.Balanced) (hk : s.IsOpen c k)
    (hspare : k.assignedIp ≠ 0 →
      s.Pinned (s.pool.offset k.assignedIp) ∨ s.HeldElse c (s.pool.offset k.assignedIp)) (i : Nat) :
    s.pool.used i = true ↔ s.Pinned i ∨ s.HeldElse c i := by
  rw [h.accounted i, held_iff_heldElse c]
  constructor
  · rintro (hpin | helse | ⟨l, hl, -, hip, rfl⟩)
    · exact .inl hpin
    · exact .inr helse
    · cases hk.1.symm.trans hl
      exact hspare hip
  · rintro (hpin | helse)
    · exact .inl hpin
    · exact .inr (.inl helse)

/-- A tunnel comes up at an address that the pool knows to be in use now. -/
theorem Balanced.of_established (h : s.Balanced) (hs : s'.Sound) (hk : s.IsOpen c k)
    (hacc : ∀ i, s.pool.used i = true ↔ s.Pinned i ∨ s.HeldElse c i) (hnet : SameNet s.pool s'.pool)
    (hlo : 2 ≤ off) (hhi : off ≤ s.pool.poolSize) (hconns : s'.conns = s.conns.set c k')
    (hpins : s'.pinnedIps = s.pinnedIps) (hip : k'.assignedIp = s.pool.addr off) (hopen : k'.freed = false)
    (hused : ∀ i, s'.pool.used i = true ↔ s.pool.used i = true ∨ i = off) : s'.Balanced := by
  have hoff : s.pool.offset k'.assignedIp = off := by
    rw [hip]
    exact offset_addr h.toSound hhi
  have hne : k'.assignedIp ≠ 0 := by
    rw [hip, addr_eq h.noWrap hhi]
    omega
  refine h.of_set hs hk.1 hconns hnet hpins (fun i => ?_) fun _ _ => ⟨off, hlo, hhi, hip⟩
  rw [hused, hacc, hoff, or_assoc]
  simp [hopen, hne, eq_comm]

theorem Balanced.request (h : s.Balanced) (hk : s.IsOpen c k) {r : Request} (hfair : s.FairRequest c r) :
    (s.svrConnectIpOnRequest c k r).Balanced := by
  have hs := h.toSound.request hk.1 r
  rcases request_cases hk.1 r with hstill | ⟨username, hauth, hadmits, pool, ip, hassign, k', hkeeps, -, hv6, heq⟩
  · exact h.of_still hstill
  · obtain ⟨hspare, hsent⟩ := hfair k hk.1 hk.2 username hauth hadmits (Option.isSome_of_eq_some hassign)
    have hacc := h.used_iff hk hspare
    have hnet := sameNet_assignIp hassign
    obtain ⟨off, hlo, hhi, rfl, hcase⟩ := h.toSound.assigned hassign
    have hoff : pool.offset (s.pool.addr off) = off := (hnet.offset _).trans (offset_addr h.toSound hhi)
    have hsize := h.poolSize_le
    rw [heq] at hs ⊢
    rcases establish_cases { s with pool } c k' r (s.pool.addr off) with
      ⟨k'', hip, hfreed, -, heq'⟩ | ⟨k'', hip, hfreed, -, hfail, heq'⟩
    · rw [heq'] at hs ⊢
      dsimp only at hs ⊢
      rw [hoff, addSession, if_pos ⟨by omega, by omega⟩] at hs ⊢
      refine h.of_established hs hk hacc hnet hlo hhi rfl rfl hip (hfreed.trans (hkeeps.freed.trans hk.2)) fun i => ?_
      change pool.used i = true ↔ _
      rcases hcase with ⟨pin, hmem, -, rfl, rfl⟩ | ⟨next, -, -, rfl⟩
      · -- A pinned address is in use already.
        have hpinned : s.pool.used pin.offset = true := (hacc _).2 (.inl ⟨pin, hmem, rfl⟩)
        constructor
        · exact .inl
        · rintro (hi | rfl)
          · exact hi
          · exact hpinned
      · by_cases hi : i = off
        · simp [hi]
        · simp [hi]
    · dsimp only at hfail
      rw [hnet.hasV6, hv6] at hfail
      rcases hcase with ⟨pin, -, hpin, -, -⟩ | ⟨next, -, hunused, rfl⟩
      · -- `fail_release_ip` gives back a pinned address as well.
        exact absurd (hsent (Option.isSome_of_eq_some hpin)) hfail
      · have hrelease : ({ s.pool with used := Function.update s.pool.used off true, next } : AddrPool).release
            (s.pool.addr off) = { s.pool with used := s.pool.used, next } := by
          have hused : Function.update (Function.update s.pool.used off true) off false = s.pool.used := by
            rw [Function.update_idem, ← hunused, Function.update_eq_self]
          have hrel := release_addr (s := { s with
            pool := { s.pool with used := Function.update s.pool.used off true, next } }) h.noWrap
            (Nat.le_of_succ_le hlo) hhi
          dsimp only at hrel
          rw [hused] at hrel
          exact hrel
        rw [heq', hrelease] at hs ⊢
        refine h.of_set hs hk.1 rfl ⟨rfl, rfl, rfl⟩ rfl (fun i => ?_) fun _ hne => absurd hip hne
        change s.pool.used i = true ↔ _
        rw [hacc]
        simp [hip]

/-! ## Pins -/

/-- A pin is added at a vacant offset. -/
theorem Balanced.of_pinned (h : s.Balanced) (ht : Tame s s') {pin : Pin} (hvacant : s.pool.Vacant pin.offset)
    (hip : pin.ip = s.pool.addr pin.offset) (hpins : s'.pinnedIps = s.pinnedIps ++ [pin])
    (hpool : s'.pool = { s.pool with used := Function.update s.pool.used pin.offset true }) : s'.Balanced := by
  have hnet : SameNet s.pool s'.pool := by
    rw [hpool]
    exact ⟨rfl, rfl, rfl⟩
  refine ⟨h.toSound.of_pinned hnet hvacant hip hpins, fun i => ?_, ?_, ht.addrs hnet h.addrs, ?_⟩
  · have hpinned : s'.Pinned i ↔ s.Pinned i ∨ i = pin.offset := by
      simp only [Pinned, hpins, List.mem_append, List.mem_singleton, or_and_right, exists_or, exists_eq_left,
        eq_comm (a := pin.offset)]
    rw [ht.held hnet, hpinned, hpool]
    dsimp only
    by_cases hi : i = pin.offset
    · simp [hi]
    · rw [Function.update_of_ne hi, h.accounted i]
      simp [hi]
  · rw [NoWrap, hnet.base, hnet.poolSize]
    exact h.noWrap
  · rw [hpins, List.map_append, List.map_singleton]
    refine List.nodup_append.2 ⟨h.distinct, List.nodup_singleton _, fun i hi j hj => ?_⟩
    cases List.mem_singleton.1 hj
    rintro rfl
    obtain ⟨q, hq, hqoff⟩ := List.mem_map.1 hi
    exact Bool.false_ne_true (hvacant.2.2.symm.trans ((h.accounted _).2 (.inl ⟨q, hq, hqoff⟩)))

/-- The user is connected just when a connection has its pinned address. -/
def FairUnpin (s : Server) (name : List Char) : Prop :=
  ∀ pin ∈ s.pinnedIps.find? fun pin => pin.username = name, s.IsConnected name ↔ s.Held pin.offset

instance (name : List Char) : Decidable (s.FairUnpin name) :=
  inferInstanceAs (Decidable (∀ pin ∈ s.pinnedIps.find? _, (_ ↔ s.Held pin.offset)))

theorem Balanced.unpin (h : s.Balanced) {name : List Char} (hfair : s.FairUnpin name) : (s.unpin name).Balanced := by
  have hs := h.toSound.unpin name
  have ht := tame_unpin s name
  have hnet := sameNet_unpin s name
  rcases unpin_cases s name with ⟨heq, -⟩ | ⟨i, pin, hi, hname, hfirst, heq⟩
  · rw [heq]
    exact h
  · obtain ⟨hlt, hget⟩ := List.getElem?_eq_some_iff.1 hi
    have hfind : s.pinnedIps.find? (fun pin => pin.username = name) = some pin := by
      refine List.find?_eq_some_iff_getElem.2 ⟨by simpa using hname, i, hlt, hget, fun j hj => ?_⟩
      have hne := hfirst j hj _ (List.getElem?_eq_getElem (Nat.lt_trans hj hlt))
      simpa using hne
    have hconnected := hfair pin hfind
    obtain ⟨hlo, hhi, hip⟩ := h.pins pin (List.mem_of_getElem? hi)
    -- The offsets of the pins that are left: all but that of the pin.
    have hmap : (s.pinnedIps.eraseIdx i).map Pin.offset = (s.pinnedIps.map Pin.offset).erase pin.offset := by
      have hlt' : i < (s.pinnedIps.map Pin.offset).length := by simpa using hlt
      have herase := h.distinct.erase_getElem i hlt'
      rw [List.getElem_map, hget] at herase
      rw [herase, List.eraseIdx_map]
    have hpinned : ∀ j, (s.unpin name).Pinned j ↔ j ≠ pin.offset ∧ s.Pinned j := by
      intro j
      have hmem : ∀ pins : List Pin, (∃ q ∈ pins, q.offset = j) ↔ j ∈ pins.map Pin.offset := fun pins =>
        List.mem_map.symm
      rw [Pinned, Pinned, hmem, hmem, heq, hmap]
      exact h.distinct.mem_erase_iff
    refine ⟨hs, fun j => ?_, ?_, ht.addrs hnet h.addrs, ?_⟩
    · have hself : s.pool.used pin.offset = true :=
        (h.accounted _).2 (.inl ⟨pin, List.mem_of_getElem? hi, rfl⟩)
      rw [ht.held hnet, hpinned, heq, hip, release_addr h.noWrap (by omega) hhi]
      dsimp only
      by_cases hj : j = pin.offset
      · subst hj
        by_cases hc : s.IsConnected name
        · simp [hc, hself, hconnected.1 hc]
        · simp [hc, mt hconnected.2 hc]
      · have hused : (if s.IsConnected name then s.pool
            else { s.pool with used := Function.update s.pool.used pin.offset false }).used j = s.pool.used j := by
          split_ifs
          · rfl
          · exact Function.update_of_ne hj _ _
        rw [hused, h.accounted j]
        simp [hj]
    · rw [NoWrap, hnet.base, hnet.poolSize]
      exact h.noWrap
    · rw [heq]
      dsimp only
      rw [hmap]
      exact h.distinct.erase _

theorem Balanced.pin (h : s.Balanced) {name : List Char} (hpin : s.pin name off = some s') : s'.Balanced := by
  obtain ⟨hvacant, rfl⟩ := pin_spec hpin
  exact h.of_pinned (.of_eq rfl rfl rfl) hvacant rfl rfl rfl

theorem Balanced.of_config (h : s.Balanced) (config : Config) : ({ s with config } : Server).Balanced :=
  h.of_still ⟨.of_eq rfl rfl rfl, rfl, rfl⟩

theorem Balanced.setUserFixedIp (h : s.Balanced) (name ip : List Char)
    (hfair : name ≠ [] → (∃ u ∈ s.config.users, u.name = name) → (ip = [] ∨ s.fixedOffset ip ≠ none) →
      s.FairUnpin name) : (s.setUserFixedIp name ip).Balanced := by
  rw [Server.setUserFixedIp]
  split
  · exact h
  · rename_i hname
    split
    · exact h
    · rename_i i hi
      have huser : ∃ u ∈ s.config.users, u.name = name := by
        obtain ⟨hlt, hu, -⟩ := List.findIdx?_eq_some_iff_getElem.1 hi
        exact ⟨_, List.getElem_mem hlt, by simpa using hu⟩
      split
      · rename_i hip
        exact (h.unpin (hfair hname huser (.inl hip))).of_config _
      · split
        · exact h
        · rename_i off hoff
          have hunpin := h.unpin (hfair hname huser (.inr (by simp [hoff])))
          split
          · exact hunpin
          · rename_i hpin
            exact (hunpin.pin hpin).of_config _

theorem Balanced.removeUser (h : s.Balanced) (name : List Char)
    (hfair : name ≠ [] → (∃ u ∈ s.config.users, u.name = name) → s.FairUnpin name) :
    (s.removeUser name).Balanced := by
  rw [Server.removeUser]
  split
  · exact h
  · rename_i hname
    split
    · exact h
    · rename_i i hi
      obtain ⟨hlt, hu, -⟩ := List.findIdx?_eq_some_iff_getElem.1 hi
      have hunpin := hfair hname ⟨_, List.getElem_mem hlt, by simpa using hu⟩
      have hconfig := h.of_config { s.config with users := s.config.users.eraseIdx i }
      exact (hconfig.unpin hunpin).of_still (still_disconnect _ name)

/-! ## Runs -/

/-- The address of the connection is pinned, or no other connection has it. -/
def FairClose (s : Server) (c : Nat) : Prop :=
  ∀ k ∈ s.conns[c]?, k.freed = false → k.assignedIp ≠ 0 →
    s.HeldElse c (s.pool.offset k.assignedIp) → s.Pinned (s.pool.offset k.assignedIp)

/-- The call finds the tables in a state in which it can change one of them without a look
    at the others. -/
def Fair (s : Server) (st : Step) : Prop :=
  match st.call with
  | .connClose c => s.FairClose c
  | .request c r => s.FairRequest c r
  | .removeUser name => name ≠ [] → (∃ u ∈ s.config.users, u.name = name) → s.FairUnpin name
  | .setUserFixedIp name ip =>
    name ≠ [] → (∃ u ∈ s.config.users, u.name = name) → (ip = [] ∨ s.fixedOffset ip ≠ none) → s.FairUnpin name
  | _ => True

instance : Decidable (s.FairClose c) := inferInstanceAs (Decidable (∀ k ∈ s.conns[c]?, _))

instance : Decidable (s.Fair st) :=
  match st with
  | ⟨_, .connClose c⟩ => inferInstanceAs (Decidable (s.FairClose c))
  | ⟨_, .request c r⟩ => inferInstanceAs (Decidable (s.FairRequest c r))
  | ⟨_, .removeUser _⟩ => inferInstanceAs (Decidable (_ → _ → FairUnpin _ _))
  | ⟨_, .setUserFixedIp _ _⟩ => inferInstanceAs (Decidable (_ → _ → _ → FairUnpin _ _))
  | ⟨_, .connCreate _⟩ | ⟨_, .requestClose _⟩ | ⟨_, .dgramWrite _⟩ | ⟨_, .dgramMssUpdated _ _⟩
  | ⟨_, .onTunPacket _⟩ | ⟨_, .addUser _ _⟩ => inferInstanceAs (Decidable True)

theorem Balanced.step (h : s.Balanced) (st : Step) (hfair : s.Fair st) : (s.step st).Balanced := by
  have hother := still_step s st
  obtain ⟨nowUs, call⟩ := st
  cases call with
  | connClose c => exact callback_rule h fun k hk => h.cbH3ConnClose hk (hfair k hk.1 hk.2)
  | request c r => exact callback_rule h fun k hk => h.request hk hfair
  | removeUser name => exact h.removeUser name hfair
  | setUserFixedIp name ip => exact h.setUserFixedIp name ip hfair
  | _ => exact h.of_still (hother (by simp) (by simp) (by simp) (by simp))

theorem balanced_new {cfg : Config} (h : new cfg = some s) (hwrap : s.NoWrap) : s.Balanced := by
  have hnew : s.NoWrap → s.Balanced ∧ s.conns = [] := by
    refine new_induction (J := fun s => s.NoWrap → s.Balanced ∧ s.conns = []) h
      (fun s₀ hbase hsize hused hpins hconns _ _ _ hwrap => ⟨⟨⟨hbase, hsize, ?_⟩, fun off => ?_, hwrap, ?_, ?_⟩, hconns⟩)
      fun s u hs hwrap => ?_
    · simp [hpins]
    · simp [hused, Pinned, hpins, Held, hconns]
    · simp [IsOpen, hconns]
    · simp [hpins]
    · rcases reserve_cases s u with heq | ⟨off, hvacant, heq⟩
      · rw [heq] at hwrap ⊢
        exact hs hwrap
      · rw [heq] at hwrap ⊢
        obtain ⟨hbal, hconns⟩ := hs hwrap
        exact ⟨hbal.of_pinned (.of_eq rfl rfl rfl) hvacant rfl rfl rfl, hconns⟩
  exact (hnew hwrap).1

/-- In every fair run, the offsets in use are those that are pinned or held; a pinned
    address is given to nobody by the allocator or for a lease, and every offset that is
    neither pinned nor held can be had. -/
theorem accounted_run {cfg : Config} (h : new cfg = some s) (hwrap : s.NoWrap) {steps : List Step}
    (hfair : Along step Fair s steps) :
    (s.run steps).Accounted ∧
      (∀ pin ∈ (s.run steps).pinnedIps,
        (s.run steps).pool.freeOffset ≠ some pin.offset ∧ (s.run steps).pool.allocAt pin.offset = none) ∧
      ∀ off, 2 ≤ off → off ≤ (s.run steps).pool.poolSize → ¬(s.run steps).Pinned off → ¬(s.run steps).Held off →
        (s.run steps).pool.Vacant off := by
  have hbal : (s.run steps).Balanced :=
    foldl_of_along (J := Balanced) (fun _ st hs => hs.step st) (balanced_new h hwrap) hfair
  refine ⟨hbal.accounted, fun pin hpin => ?_, fun off hlo hhi hpin hheld => ⟨hlo, hhi, ?_⟩⟩
  · have hused : (s.run steps).pool.used pin.offset = true := (hbal.accounted _).2 (.inl ⟨pin, hpin, rfl⟩)
    have hvacant : ¬(s.run steps).pool.Vacant pin.offset := fun hv => Bool.false_ne_true (hv.2.2.symm.trans hused)
    exact ⟨fun hfree => hvacant (AddrPool.vacant_of_freeOffset hfree), if_neg hvacant⟩
  · by_contra hused
    rcases (hbal.accounted off).1 (by simpa using hused) with hp | hh
    · exact hpin hp
    · exact hheld hh

/-- Two users connect, the pin of one of them is taken away while it is connected to its
    address, and both go away; another pin is added for the other. -/
def sampleFair : List Step :=
  [⟨1, .connCreate true⟩, ⟨2, .request 0 alice⟩, ⟨3, .connCreate true⟩, ⟨4, .request 1 bob⟩,
    ⟨5, .setUserFixedIp "alice".toList []⟩, ⟨6, .connClose 0⟩, ⟨7, .connClose 1⟩,
    ⟨8, .setUserFixedIp "bob".toList "10.0.0.9".toList⟩]

theorem accounted_run_sample :
    (sample.run sampleFair).Pinned 9 ∧ ¬(sample.run sampleFair).Pinned 5 ∧ (sample.run sampleFair).Accounted :=
  ⟨by decide +kernel, by decide +kernel, (accounted_run new_sample (by decide) (by decide +kernel)).1⟩

/-- A user with a fixed address connects, and the capsule with the address cannot be
    sent. -/
def sampleFails : List Step := [⟨1, .connCreate true⟩, ⟨2, .request 0 { alice with sentAddr := false }⟩]

/-- A user connects, gets a fixed address while it is connected, and loses it again. -/
def sampleLost : List Step :=
  [⟨1, .connCreate true⟩, ⟨2, .request 0 bob⟩, ⟨3, .setUserFixedIp "bob".toList "10.0.0.9".toList⟩,
    ⟨4, .setUserFixedIp "bob".toList []⟩]

/-- A failed set-up gives a pinned address back, and the pin of a user that is connected
    at another address takes its own with it. -/
theorem not_accounted :
    ((∀ k ∈ (sample.run sampleFails).conns, k.closing = false) ∧ (sample.run sampleFails).Pinned 5 ∧
      ¬(sample.run sampleFails).Accounted) ∧
    ((∀ k ∈ (sample.run sampleLost).conns, k.closing = false) ∧ (sample.run sampleLost).pool.used 9 = true ∧
      ¬(sample.run sampleLost).Accounted) := by
  refine ⟨⟨by decide +kernel, by decide +kernel, fun h => ?_⟩, ⟨by decide +kernel, by decide +kernel, fun h => ?_⟩⟩
  · have hused := (h 5).2 (.inl (by decide +kernel))
    revert hused
    decide +kernel
  · have hheld := (h 9).1 (by decide +kernel)
    revert hheld
    decide +kernel

end Mqvpn.Server
