import Mqvpn.Server.Model
import Mqvpn.Server.Subnet

/-!
# What the calls of the server change

Most calls leave the addresses of the connections and the sessions alone (`Tame`). The
others are the CONNECT-IP request that gets an address (`request_cases`) and the end of
a connection (`cbH3ConnClose`). What is known of the pool and the pins in every state
(`Sound`) is kept by all of them (`sound_step`).
-/

namespace Mqvpn.Server

open Client Reorder

variable {s s' : Server} {c : Nat} {k k' : Conn} {st : Step}

/-! ## Connections -/

/-- The connection keeps its address, and gets no tunnel. -/
structure Keeps (k k' : Conn) : Prop where
  assignedIp : k'.assignedIp = k.assignedIp
  freed : k'.freed = k.freed
  tunnelEstablished : k'.tunnelEstablished = true → k.tunnelEstablished = true

theorem Keeps.refl (k : Conn) : Keeps k k := ⟨rfl, rfl, id⟩

theorem Keeps.trans {k'' : Conn} (h : Keeps k k') (h' : Keeps k' k'') : Keeps k k'' :=
  ⟨h'.assignedIp.trans h.assignedIp, h'.freed.trans h.freed, fun ht => h.tunnelEstablished (h'.tunnelEstablished ht)⟩

/-- The sessions are left alone, and so are the addresses of the connections; a new
    connection has none. -/
structure Tame (s s' : Server) : Prop where
  sessions : s'.sessions = s.sessions
  nSessions : s'.nSessions = s.nSessions
  old : ∀ (c : Nat) (k : Conn), s.conns[c]? = some k → ∃ k', s'.conns[c]? = some k' ∧ Keeps k k'
  new : ∀ (c : Nat) (k' : Conn), s'.conns[c]? = some k' →
    (∃ k, s.conns[c]? = some k ∧ Keeps k k') ∨ (k'.assignedIp = 0 ∧ k'.tunnelEstablished = false)

namespace Tame

theorem refl (s : Server) : Tame s s :=
  ⟨rfl, rfl, fun _ k h => ⟨k, h, .refl k⟩, fun _ k h => .inl ⟨k, h, .refl k⟩⟩

theorem trans {s'' : Server} (h : Tame s s') (h' : Tame s' s'') : Tame s s'' := by
  refine ⟨h'.sessions.trans h.sessions, h'.nSessions.trans h.nSessions, fun c k hk => ?_, fun c k hk => ?_⟩
  · obtain ⟨k', hk', hkeeps⟩ := h.old c k hk
    obtain ⟨k'', hk'', hkeeps'⟩ := h'.old c k' hk'
    exact ⟨k'', hk'', hkeeps.trans hkeeps'⟩
  · rcases h'.new c k hk with ⟨k', hk', hkeeps'⟩ | hfresh
    · rcases h.new c k' hk' with ⟨k₀, hk₀, hkeeps⟩ | hfresh
      · exact .inl ⟨k₀, hk₀, hkeeps.trans hkeeps'⟩
      · refine .inr ⟨hkeeps'.assignedIp.trans hfresh.1, ?_⟩
        by_contra ht
        exact Bool.false_ne_true (hfresh.2.symm.trans (hkeeps'.tunnelEstablished (by simpa using ht)))
    · exact .inr hfresh

/-- The calls that change no connection. -/
theorem of_eq (hsessions : s'.sessions = s.sessions) (hn : s'.nSessions = s.nSessions)
    (hconns : s'.conns = s.conns) : Tame s s' :=
  ⟨hsessions, hn, fun _ k h => ⟨k, hconns ▸ h, .refl k⟩, fun _ k h => .inl ⟨k, hconns ▸ h, .refl k⟩⟩

end Tame

theorem getElem?_setConn_self (h : s.conns[c]? = some k) : (s.setConn c k').conns[c]? = some k' := by
  have hlt : c < s.conns.length := (List.getElem?_eq_some_iff.1 h).1
  exact List.getElem?_set_self hlt

theorem getElem?_setConn_of_ne {d : Nat} (h : d ≠ c) : (s.setConn c k').conns[d]? = s.conns[d]? :=
  List.getElem?_set_ne h.symm

theorem tame_setConn (h : s.conns[c]? = some k) (hkeeps : Keeps k k') : Tame s (s.setConn c k') := by
  refine ⟨rfl, rfl, fun d l hl => ?_, fun d l hl => ?_⟩
  · by_cases hd : d = c
    · subst hd
      cases h.symm.trans hl
      exact ⟨k', getElem?_setConn_self h, hkeeps⟩
    · exact ⟨l, (getElem?_setConn_of_ne hd).trans hl, .refl l⟩
  · by_cases hd : d = c
    · subst hd
      cases (getElem?_setConn_self h).symm.trans hl
      exact .inl ⟨k, h, hkeeps⟩
    · exact .inl ⟨l, (getElem?_setConn_of_ne hd).symm.trans hl, .refl l⟩

/-- A connection is created. -/
theorem tame_append (hip : k.assignedIp = 0) (ht : k.tunnelEstablished = false) :
    Tame s { s with conns := s.conns ++ [k] } := by
  refine ⟨rfl, rfl, fun d l h => ?_, fun d l h => ?_⟩
  · have hlt : d < s.conns.length := (List.getElem?_eq_some_iff.1 h).1
    exact ⟨l, (List.getElem?_append_left hlt).trans h, .refl l⟩
  · rcases Nat.lt_or_ge d s.conns.length with hlt | hge
    · exact .inl ⟨l, (List.getElem?_append_left hlt).symm.trans h, .refl l⟩
    · rw [List.getElem?_append_right hge] at h
      cases List.mem_singleton.1 (List.mem_of_getElem? h)
      exact .inr ⟨hip, ht⟩

/-- A callback is made for a connection that is there, or does nothing. -/
theorem callback_rule {P : Server → Prop} {f : Conn → Server} (h : P s) (hf : ∀ k, s.IsOpen c k → P (f k)) :
    P (s.callback c f) := by
  rw [callback]
  split
  · rename_i k hk
    split_ifs with hfreed
    · exact h
    · exact hf k ⟨hk, by simpa using hfreed⟩
  · exact h

/-! ## Calls that leave the sessions alone -/

/-- The pool and the pins are left alone as well. -/
structure Still (s s' : Server) : Prop extends Tame s s' where
  pool : s'.pool = s.pool
  pinnedIps : s'.pinnedIps = s.pinnedIps

theorem Still.refl (s : Server) : Still s s := ⟨.refl s, rfl, rfl⟩

theorem Still.trans {s'' : Server} (h : Still s s') (h' : Still s' s'') : Still s s'' :=
  ⟨h.toTame.trans h'.toTame, h'.pool.trans h.pool, h'.pinnedIps.trans h.pinnedIps⟩

theorem still_setConn (h : s.conns[c]? = some k) (hkeeps : Keeps k k') : Still s (s.setConn c k') :=
  ⟨tame_setConn h hkeeps, rfl, rfl⟩

theorem still_sendDatagram (h : s.conns[c]? = some k) (nowUs : Nat) (t : TunPacket) (pk : TxPeek) :
    Still s (s.sendDatagram c k nowUs t pk).1 := by
  rw [sendDatagram]
  split_ifs
  · exact .refl s
  · exact .refl s
  · exact .refl s
  · cases t.send with
    | ok => exact still_setConn h ⟨rfl, rfl, id⟩
    | again =>
      have hpause : Still s { s with tunPaused := true } := ⟨.of_eq rfl rfl rfl, rfl, rfl⟩
      exact hpause.trans (still_setConn h ⟨rfl, rfl, id⟩)
    | error => exact .refl s

theorem still_onTunPacket (s : Server) (nowUs : Nat) (t : TunPacket) : Still s (s.onTunPacket nowUs t).1 := by
  rw [onTunPacket]
  split_ifs
  · exact .refl s
  · exact .refl s
  · exact .refl s
  · split
    · exact .refl s
    · split
      · exact .refl s
      · rename_i c _ _ k hk
        split_ifs
        · exact .refl s
        · generalize k.peek s.config nowUs t = r
          obtain ⟨go, pk, reorderTx⟩ := r
          have hset : Still s (s.setConn c { k with reorderTx }) := still_setConn hk ⟨rfl, rfl, id⟩
          cases go with
          | true => exact hset.trans (still_sendDatagram (getElem?_setConn_self hk) nowUs t pk)
          | false => exact hset

theorem still_disconnect (s : Server) (name : List Char) : Still s (s.disconnect name) := by
  have hkeeps : ∀ (c : Nat) (k : Conn), Keeps k
      (if k.username = name ∧ ∃ off ∈ List.range' 1 AddrPool.poolMax, s.sessions off = some c then
        { k with closing := true }
      else k) := by
    intro c k
    split_ifs
    · exact ⟨rfl, rfl, id⟩
    · exact .refl k
  refine ⟨⟨rfl, rfl, fun c k h => ?_, fun c k' h => ?_⟩, rfl, rfl⟩
  · refine ⟨_, ?_, hkeeps c k⟩
    rw [disconnect, List.getElem?_mapIdx, h]
    rfl
  · rw [disconnect, List.getElem?_mapIdx] at h
    obtain ⟨k, hk, rfl⟩ := Option.map_eq_some_iff.1 h
    exact .inl ⟨k, hk, hkeeps c k⟩

theorem still_addUser (s : Server) (name key : List Char) : Still s (s.addUser name key) := by
  have hconfig : ∀ config, Still s { s with config } := fun config => ⟨.of_eq rfl rfl rfl, rfl, rfl⟩
  rw [addUser]
  split
  · exact .refl s
  · split
    · exact hconfig _
    · split
      · exact .refl s
      · exact hconfig _

/-- The calls that change no address, pin or use. -/
theorem still_step (s : Server) (st : Step) (hclose : ∀ c, st.call ≠ .connClose c)
    (hrequest : ∀ c r, st.call ≠ .request c r) (hremove : ∀ name, st.call ≠ .removeUser name)
    (hfixed : ∀ name ip, st.call ≠ .setUserFixedIp name ip) : Still s (s.step st) := by
  obtain ⟨nowUs, call⟩ := st
  cases call with
  | connCreate reorderAlloc => exact ⟨tame_append rfl rfl, rfl, rfl⟩
  | connClose c => exact absurd rfl (hclose c)
  | request c r => exact absurd rfl (hrequest c r)
  | requestClose c =>
    refine callback_rule (.refl s) fun k hk => ?_
    rw [cbRequestClose]
    split_ifs
    · exact .refl s
    · exact still_setConn hk.1 ⟨rfl, rfl, Bool.noConfusion⟩
  | dgramWrite c =>
    refine callback_rule (.refl s) fun k hk => ?_
    have hresume : Still s { s with tunPaused := false } := ⟨.of_eq rfl rfl rfl, rfl, rfl⟩
    exact hresume.trans (still_setConn hk.1 ⟨rfl, rfl, id⟩)
  | dgramMssUpdated c mss => exact callback_rule (.refl s) fun k hk => still_setConn hk.1 ⟨rfl, rfl, id⟩
  | onTunPacket t => exact still_onTunPacket s nowUs t
  | addUser name key => exact still_addUser s name key
  | removeUser name => exact absurd rfl (hremove name)
  | setUserFixedIp name ip => exact absurd rfl (hfixed name ip)

/-! ## The pool and the pins -/

/-- What is known of the pool and the pins in every state: a pin has an address of the
    pool, at its offset. -/
structure Sound (s : Server) : Prop where
  base_lt : s.pool.base < 2 ^ 32
  poolSize_le : s.pool.poolSize ≤ AddrPool.poolMax
  pins : ∀ pin ∈ s.pinnedIps, 2 ≤ pin.offset ∧ pin.offset ≤ s.pool.poolSize ∧ pin.ip = s.pool.addr pin.offset

/-- Two pools with the same subnets. -/
structure SameNet (p q : AddrPool) : Prop where
  base : q.base = p.base
  poolSize : q.poolSize = p.poolSize
  hasV6 : q.hasV6 = p.hasV6

theorem SameNet.refl (p : AddrPool) : SameNet p p := ⟨rfl, rfl, rfl⟩

theorem SameNet.trans {p q r : AddrPool} (h : SameNet p q) (h' : SameNet q r) : SameNet p r :=
  ⟨h'.base.trans h.base, h'.poolSize.trans h.poolSize, h'.hasV6.trans h.hasV6⟩

theorem SameNet.addr {p q : AddrPool} (h : SameNet p q) (off : Nat) : q.addr off = p.addr off := by
  rw [AddrPool.addr, AddrPool.addr, h.base]

theorem SameNet.offset {p q : AddrPool} (h : SameNet p q) (a : Nat) : q.offset a = p.offset a := by
  rw [AddrPool.offset, AddrPool.offset, h.base]

theorem sameNet_release (p : AddrPool) (a : Nat) : SameNet p (p.release a) := by
  rcases AddrPool.release_eq p a with h | ⟨off, -, -, -, h⟩ <;> rw [h] <;> exact ⟨rfl, rfl, rfl⟩

/-! ## The pins of a user -/

/-- A pin is taken away, or there is none. -/
theorem unpin_cases (s : Server) (name : List Char) :
    (s.unpin name = s ∧ ∀ pin ∈ s.pinnedIps, pin.username ≠ name) ∨
      ∃ (i : Nat) (pin : Pin), s.pinnedIps[i]? = some pin ∧ pin.username = name ∧
        (∀ j < i, ∀ q, s.pinnedIps[j]? = some q → q.username ≠ name) ∧
        s.unpin name = { s with
          pool := if s.IsConnected name then s.pool else s.pool.release pin.ip
          pinnedIps := s.pinnedIps.eraseIdx i } := by
  rw [unpin]
  split
  · rename_i hnone
    refine .inl ⟨rfl, fun pin hpin => ?_⟩
    simpa using List.findIdx?_eq_none_iff.1 hnone pin hpin
  · rename_i i hi
    obtain ⟨hlt, hname, hfirst⟩ := List.findIdx?_eq_some_iff_getElem.1 hi
    rw [List.getElem?_eq_getElem hlt]
    refine .inr ⟨i, s.pinnedIps[i], List.getElem?_eq_getElem hlt, by simpa using hname, fun j hj q hq => ?_, rfl⟩
    obtain ⟨hjlt, rfl⟩ := List.getElem?_eq_some_iff.1 hq
    simpa using hfirst j hj

theorem tame_unpin (s : Server) (name : List Char) : Tame s (s.unpin name) := by
  rcases unpin_cases s name with ⟨h, -⟩ | ⟨i, pin, -, -, -, h⟩
  · rw [h]
    exact .refl s
  · rw [h]
    exact .of_eq rfl rfl rfl

theorem config_unpin (s : Server) (name : List Char) : (s.unpin name).config = s.config := by
  rcases unpin_cases s name with ⟨h, -⟩ | ⟨i, pin, -, -, -, h⟩ <;> rw [h]

theorem sameNet_unpin (s : Server) (name : List Char) : SameNet s.pool (s.unpin name).pool := by
  rcases unpin_cases s name with ⟨h, -⟩ | ⟨i, pin, -, -, -, h⟩
  · rw [h]
    exact .refl _
  · rw [h]
    dsimp only
    split_ifs
    · exact .refl _
    · exact sameNet_release _ _

theorem pin_spec {name : List Char} {off : Nat} (h : s.pin name off = some s') :
    s.pool.Vacant off ∧ s' = { s with
      pool := { s.pool with used := Function.update s.pool.used off true }
      pinnedIps := s.pinnedIps ++ [{ username := name.take 63, offset := off, ip := s.pool.addr off }] } := by
  rw [pin] at h
  split at h
  · cases h
  · rename_i pool ip halloc
    obtain ⟨hvacant, rfl, rfl⟩ := AddrPool.allocAt_spec halloc
    split_ifs at h
    cases h
    exact ⟨hvacant, rfl⟩

/-! ## Requests -/

/-- The address for a user is that of its pin, or at a vacant offset that is then taken. -/
theorem assignIp_cases {username : List Char} {pool : AddrPool} {ip : Nat}
    (h : s.assignIp username = some (pool, ip)) :
    (∃ pin ∈ s.pinnedIps, s.pinOf username = some pin ∧ pool = s.pool ∧ ip = pin.ip) ∨
      ∃ off next, s.pinOf username = none ∧ s.pool.Vacant off ∧ ip = s.pool.addr off ∧
        pool = { s.pool with used := Function.update s.pool.used off true, next } := by
  rw [assignIp] at h
  split at h
  · rename_i pin hpin
    cases h
    refine .inl ⟨pin, ?_, hpin, rfl, rfl⟩
    rw [pinOf] at hpin
    split_ifs at hpin
    exact List.mem_of_find?_eq_some hpin
  · rename_i hnone
    split at h
    · rename_i r hlease
      cases h
      rw [restoreLease] at hlease
      split_ifs at hlease
      split at hlease
      · obtain ⟨hvacant, rfl, rfl⟩ := AddrPool.allocAt_spec hlease
        exact .inr ⟨_, s.pool.next, hnone, hvacant, rfl, rfl⟩
      · cases hlease
    · obtain ⟨off, -, hvacant, rfl, rfl⟩ := AddrPool.alloc_spec h
      exact .inr ⟨off, off + 1, hnone, hvacant, rfl, rfl⟩

/-- A request changes nothing of note, or gets as far as an address for the
    connection. -/
theorem request_cases (hk : s.conns[c]? = some k) (r : Request) :
    Still s (s.svrConnectIpOnRequest c k r) ∨
      ∃ username, s.authenticate k r = some username ∧ s.Admits r ∧
        ∃ pool ip, s.assignIp username = some (pool, ip) ∧
          ∃ k', Keeps k k' ∧ k'.tunnelEstablished = k.tunnelEstablished ∧ k'.hasV6 = k.hasV6 ∧
            s.svrConnectIpOnRequest c k r = { s with pool }.establish c k' r ip := by
  rw [svrConnectIpOnRequest]
  split
  · rename_i username hauth
    rw [svrMasqueSendResponse]
    split
    · rename_i hadmits
      dsimp only
      split
      · rename_i pool ip hassign
        refine .inr ⟨username, hauth, hadmits, pool, ip, hassign, _, ?_, ?_, ?_, rfl⟩
        · exact ⟨rfl, rfl, id⟩
        · rfl
        · rfl
      · exact .inl (still_setConn hk ⟨rfl, rfl, id⟩)
    · exact .inl (still_setConn hk ⟨rfl, rfl, id⟩)
  · exact .inl (still_setConn hk ⟨rfl, rfl, id⟩)

/-- The end of a request: the capsules are sent and there is a session, or the address is
    given back. -/
theorem establish_cases (s : Server) (c : Nat) (k : Conn) (r : Request) (ip : Nat) :
    (∃ k', k'.assignedIp = ip ∧ k'.freed = k.freed ∧ r.Delivered s.pool.hasV6 (k.hasV6 || s.pool.hasV6) ∧
        s.establish c k r ip = (s.addSession c (s.pool.offset ip)).setConn c k') ∨
      ∃ k', k'.assignedIp = 0 ∧ k'.freed = k.freed ∧ k'.tunnelEstablished = k.tunnelEstablished ∧
        ¬r.Delivered s.pool.hasV6 (k.hasV6 || s.pool.hasV6) ∧
        s.establish c k r ip = { s with pool := s.pool.release ip }.setConn c k' := by
  rw [establish]
  dsimp only
  split
  · rename_i hsent
    refine .inl ⟨_, ?_, ?_, hsent, rfl⟩
    · rfl
    · rfl
  · rename_i hfail
    refine .inr ⟨_, ?_, ?_, ?_, hfail, rfl⟩
    · rfl
    · rfl
    · rfl

/-! ## The pool and the pins in every state -/

theorem sameNet_assignIp {username : List Char} {pool : AddrPool} {ip : Nat}
    (h : s.assignIp username = some (pool, ip)) : SameNet s.pool pool := by
  rcases assignIp_cases h with ⟨pin, -, -, rfl, -⟩ | ⟨off, next, -, -, -, rfl⟩
  · exact .refl _
  · exact ⟨rfl, rfl, rfl⟩

/-- What `cb_h3_conn_close` does about the address: a lease may be saved, and the address
    goes back to the pool unless it is pinned. -/
theorem giveBack_eq (s : Server) (k : Conn) (off : Nat) :
    ∃ leases, s.giveBack k off = { s with
      leases
      pool := if ∃ pin ∈ s.pinnedIps, pin.offset = off then s.pool else s.pool.release k.assignedIp } := by
  rw [giveBack]
  by_cases hpin : ∃ pin ∈ s.pinnedIps, pin.offset = off
  · rw [if_pos hpin, if_pos hpin]
    exact ⟨s.leases, rfl⟩
  · rw [if_neg hpin, if_neg hpin]
    by_cases hname : k.username ≠ []
    · simp only [if_pos hname]
      rw [saveLease]
      split
      · exact ⟨_, rfl⟩
      · exact ⟨s.leases, rfl⟩
    · simp only [if_neg hname]
      exact ⟨s.leases, rfl⟩

/-- `cb_h3_conn_close`, for a connection with an address. -/
theorem cbH3ConnClose_eq (c : Nat) {off : Nat} (hip : k.assignedIp ≠ 0) (hoff : s.pool.offset k.assignedIp = off) :
    ∃ leases, s.cbH3ConnClose c k = { s.removeSession c off with
      leases
      pool := if ∃ pin ∈ s.pinnedIps, pin.offset = off then s.pool
        else s.pool.release k.assignedIp }.setConn c { k with freed := true } := by
  obtain ⟨leases, h⟩ := giveBack_eq (s.removeSession c off) k off
  refine ⟨leases, ?_⟩
  rw [cbH3ConnClose, if_pos hip]
  dsimp only
  rw [hoff, h, removeSession]
  split_ifs <;> rfl

/-- The end of a connection leaves the other connections, the pins and the pause alone. -/
theorem cbH3ConnClose_frame (s : Server) (c : Nat) (k : Conn) :
    (s.cbH3ConnClose c k).conns = s.conns.set c { k with freed := true } ∧
      (s.cbH3ConnClose c k).pinnedIps = s.pinnedIps ∧ (s.cbH3ConnClose c k).tunPaused = s.tunPaused := by
  by_cases hip : k.assignedIp = 0
  · rw [cbH3ConnClose, if_neg (by simpa using hip)]
    exact ⟨rfl, rfl, rfl⟩
  · obtain ⟨off, hoff⟩ : ∃ off, s.pool.offset k.assignedIp = off := ⟨_, rfl⟩
    obtain ⟨leases, heq⟩ := cbH3ConnClose_eq c hip hoff
    rw [heq, removeSession]
    split
    · exact ⟨rfl, rfl, rfl⟩
    · exact ⟨rfl, rfl, rfl⟩

namespace Sound

theorem of_sameNet (h : s.Sound) (hnet : SameNet s.pool s'.pool) (hpins : ∀ pin ∈ s'.pinnedIps, pin ∈ s.pinnedIps) :
    s'.Sound := by
  refine ⟨hnet.base ▸ h.base_lt, hnet.poolSize ▸ h.poolSize_le, fun pin hpin => ?_⟩
  rw [hnet.poolSize, hnet.addr]
  exact h.pins pin (hpins pin hpin)

theorem of_still (h : s.Sound) (hstill : Still s s') : s'.Sound :=
  h.of_sameNet (hstill.pool ▸ .refl _) fun _ hpin => hstill.pinnedIps ▸ hpin

theorem unpin (h : s.Sound) (name : List Char) : (s.unpin name).Sound := by
  refine h.of_sameNet (sameNet_unpin s name) fun pin hpin => ?_
  rcases unpin_cases s name with ⟨heq, -⟩ | ⟨i, pin', -, -, -, heq⟩
  · exact heq ▸ hpin
  · rw [heq] at hpin
    exact List.mem_of_mem_eraseIdx hpin

/-- A pin is added at a vacant offset. -/
theorem of_pinned (h : s.Sound) (hnet : SameNet s.pool s'.pool) {pin : Pin} (hvacant : s.pool.Vacant pin.offset)
    (hip : pin.ip = s.pool.addr pin.offset) (hpins : s'.pinnedIps = s.pinnedIps ++ [pin]) : s'.Sound := by
  refine ⟨hnet.base ▸ h.base_lt, hnet.poolSize ▸ h.poolSize_le, fun q hq => ?_⟩
  rw [hnet.poolSize, hnet.addr]
  rw [hpins] at hq
  rcases List.mem_append.1 hq with hq | hq
  · exact h.pins q hq
  · cases List.mem_singleton.1 hq
    exact ⟨hvacant.1, hvacant.2.1, hip⟩

theorem pin (h : s.Sound) {name : List Char} {off : Nat} (hpin : s.pin name off = some s') : s'.Sound := by
  obtain ⟨hvacant, rfl⟩ := pin_spec hpin
  exact h.of_pinned ⟨rfl, rfl, rfl⟩ hvacant rfl rfl

theorem establish (h : s.Sound) (c : Nat) (k : Conn) (r : Request) (ip : Nat) : (s.establish c k r ip).Sound := by
  rcases establish_cases s c k r ip with ⟨k', -, -, -, heq⟩ | ⟨k', -, -, -, -, heq⟩
  · rw [heq, addSession]
    split_ifs
    · exact ⟨h.base_lt, h.poolSize_le, h.pins⟩
    · exact ⟨h.base_lt, h.poolSize_le, h.pins⟩
  · rw [heq]
    exact h.of_sameNet (sameNet_release _ _) fun _ hpin => hpin

theorem request (h : s.Sound) (hk : s.conns[c]? = some k) (r : Request) : (s.svrConnectIpOnRequest c k r).Sound := by
  rcases request_cases hk r with hstill | ⟨_, -, -, pool, ip, hassign, k', -, -, -, heq⟩
  · exact h.of_still hstill
  · rw [heq]
    have hpool : ({ s with pool } : Server).Sound :=
      h.of_sameNet (sameNet_assignIp hassign) fun _ hpin => hpin
    exact hpool.establish c k' r ip

theorem cbH3ConnClose (h : s.Sound) (c : Nat) (k : Conn) : (s.cbH3ConnClose c k).Sound := by
  refine h.of_sameNet ?_ fun _ hpin => (cbH3ConnClose_frame s c k).2.1 ▸ hpin
  by_cases hip : k.assignedIp = 0
  · rw [Server.cbH3ConnClose, if_neg (by simpa using hip)]
    exact .refl _
  · obtain ⟨off, hoff⟩ : ∃ off, s.pool.offset k.assignedIp = off := ⟨_, rfl⟩
    obtain ⟨leases, heq⟩ := cbH3ConnClose_eq c hip hoff
    rw [heq]
    change SameNet s.pool (ite _ _ _)
    split_ifs
    · exact .refl _
    · exact sameNet_release _ _

theorem setUserFixedIp (h : s.Sound) (name ip : List Char) : (s.setUserFixedIp name ip).Sound := by
  have hset : ∀ {s : Server}, s.Sound → ∀ i ip, (s.setFixedIp i ip).Sound := fun h i ip =>
    ⟨h.base_lt, h.poolSize_le, h.pins⟩
  rw [Server.setUserFixedIp]
  split
  · exact h
  · split
    · exact h
    · split
      · exact hset (h.unpin name) _ _
      · split
        · exact h
        · split
          · exact h.unpin name
          · rename_i hpin
            exact hset ((h.unpin name).pin hpin) _ _

theorem removeUser (h : s.Sound) (name : List Char) : (s.removeUser name).Sound := by
  rw [Server.removeUser]
  split
  · exact h
  · split
    · exact h
    · rename_i i _
      have hconfig : ({ s with config := { s.config with users := s.config.users.eraseIdx i } } : Server).Sound :=
        ⟨h.base_lt, h.poolSize_le, h.pins⟩
      exact (hconfig.unpin name).of_still (still_disconnect _ name)

theorem step (h : s.Sound) (st : Step) : (s.step st).Sound := by
  have hother := still_step s st
  obtain ⟨nowUs, call⟩ := st
  cases call with
  | connClose c => exact callback_rule h fun k _ => h.cbH3ConnClose c k
  | request c r => exact callback_rule h fun k hk => h.request hk.1 r
  | removeUser name => exact h.removeUser name
  | setUserFixedIp name ip => exact h.setUserFixedIp name ip
  | _ => exact h.of_still (hother (by simp) (by simp) (by simp) (by simp))

end Sound

/-! ## All other calls -/

theorem tame_setUserFixedIp (s : Server) (name ip : List Char) :
    Tame s (s.setUserFixedIp name ip) ∧ SameNet s.pool (s.setUserFixedIp name ip).pool := by
  have hunpin := tame_unpin s name
  have hnet := sameNet_unpin s name
  rw [setUserFixedIp]
  split
  · exact ⟨.refl s, .refl _⟩
  · split
    · exact ⟨.refl s, .refl _⟩
    · split
      · exact ⟨hunpin.trans (.of_eq rfl rfl rfl), hnet⟩
      · split
        · exact ⟨.refl s, .refl _⟩
        · split
          · exact ⟨hunpin, hnet⟩
          · rename_i hpin
            obtain ⟨-, rfl⟩ := pin_spec hpin
            exact ⟨hunpin.trans (.of_eq rfl rfl rfl), hnet.trans ⟨rfl, rfl, rfl⟩⟩

theorem tame_removeUser (s : Server) (name : List Char) :
    Tame s (s.removeUser name) ∧ SameNet s.pool (s.removeUser name).pool := by
  rw [removeUser]
  split
  · exact ⟨.refl s, .refl _⟩
  · split
    · exact ⟨.refl s, .refl _⟩
    · rename_i i _
      have hconfig : Tame s { s with config := { s.config with users := s.config.users.eraseIdx i } } :=
        .of_eq rfl rfl rfl
      have hstill := still_disconnect
        ({ s with config := { s.config with users := s.config.users.eraseIdx i } }.unpin name) name
      have hnet := sameNet_unpin
        { s with config := { s.config with users := s.config.users.eraseIdx i } } name
      refine ⟨(hconfig.trans (tame_unpin _ name)).trans hstill.toTame, ?_⟩
      rw [hstill.pool]
      exact hnet

/-- Every call but a request and the end of a connection leaves the sessions alone. -/
theorem tame_step (s : Server) (st : Step) (hclose : ∀ c, st.call ≠ .connClose c)
    (hrequest : ∀ c r, st.call ≠ .request c r) :
    Tame s (s.step st) ∧ SameNet s.pool (s.step st).pool := by
  have hother := still_step s st hclose hrequest
  obtain ⟨nowUs, call⟩ := st
  cases call with
  | connClose c => exact absurd rfl (hclose c)
  | request c r => exact absurd rfl (hrequest c r)
  | removeUser name => exact tame_removeUser s name
  | setUserFixedIp name ip => exact tame_setUserFixedIp s name ip
  | _ =>
    have hstill := hother (by simp) (by simp)
    exact ⟨hstill.toTame, hstill.pool ▸ .refl _⟩

/-! ## The first state -/

/-- A user gets its pin, or there is none for it. -/
theorem reserve_cases (s : Server) (u : User) :
    s.reserve u = s ∨ ∃ off, s.pool.Vacant off ∧ s.reserve u = { s with
      pool := { s.pool with used := Function.update s.pool.used off true }
      pinnedIps := s.pinnedIps ++ [{ username := u.name, offset := off, ip := s.pool.addr off }] } := by
  rw [reserve]
  split
  · exact .inl rfl
  · split
    · exact .inl rfl
    · split
      · exact .inl rfl
      · rename_i halloc
        obtain ⟨hvacant, rfl, rfl⟩ := AddrPool.allocAt_spec halloc
        exact .inr ⟨_, hvacant, rfl⟩

/-- The first state: the pins of the users are added one after the other, and there are no
    connections. -/
theorem new_spec {cfg : Config} (h : new cfg = some s) :
    ∃ s₀ : Server, s = cfg.users.foldl reserve s₀ ∧ s₀.pool.base < 2 ^ 32 ∧
      s₀.pool.poolSize ≤ AddrPool.poolMax ∧ (∀ off, s₀.pool.used off = false) ∧ s₀.pinnedIps = [] ∧
      s₀.conns = [] ∧ s₀.sessions = (fun _ => none) ∧ s₀.nSessions = 0 ∧ s₀.tunPaused = false := by
  rw [new] at h
  split at h
  · cases h
  · rename_i pool hinit
    have hpool := AddrPool.configured_init hinit
    have hsize : pool.poolSize ≤ AddrPool.poolMax := hpool.poolSize ▸ Nat.min_le_left _ _
    split at h
    · cases h
    · rename_i pool' hinit6
      cases h
      have hsame : pool'.base = pool.base ∧ pool'.poolSize = pool.poolSize ∧ pool'.used = pool.used := by
        split_ifs at hinit6
        · cases hinit6
          exact ⟨rfl, rfl, rfl⟩
        · obtain ⟨base6, prefix6, -, -, rfl⟩ := AddrPool.init6_spec hinit6
          exact ⟨rfl, rfl, rfl⟩
      obtain ⟨hbase, hsize', hused⟩ := hsame
      exact ⟨_, rfl, hbase ▸ hpool.base_lt, hsize' ▸ hsize, hused ▸ hpool.used, rfl, rfl, rfl, rfl, rfl⟩

/-- Something that the first server has and every pin keeps. -/
theorem new_induction {J : Server → Prop} {cfg : Config} (h : new cfg = some s)
    (hzero : ∀ s₀ : Server, s₀.pool.base < 2 ^ 32 → s₀.pool.poolSize ≤ AddrPool.poolMax →
      (∀ off, s₀.pool.used off = false) → s₀.pinnedIps = [] → s₀.conns = [] →
      s₀.sessions = (fun _ => none) → s₀.nSessions = 0 → s₀.tunPaused = false → J s₀)
    (hpin : ∀ (s : Server) (u : User), J s → J (s.reserve u)) : J s := by
  obtain ⟨s₀, rfl, hbase, hsize, hused, hpins, hconns, hsessions, hn, hpaused⟩ := new_spec h
  have hs₀ := hzero s₀ hbase hsize hused hpins hconns hsessions hn hpaused
  generalize cfg.users = users
  clear hbase hsize hused hpins hconns hsessions hn hpaused h
  induction users generalizing s₀ with
  | nil => exact hs₀
  | cons u users ih => exact ih _ (hpin s₀ u hs₀)

theorem sound_new {cfg : Config} (h : new cfg = some s) : s.Sound := by
  refine new_induction h (fun s₀ hbase hsize _ hpins _ _ _ _ => ⟨hbase, hsize, ?_⟩) fun s u hs => ?_
  · rw [hpins]
    exact fun pin hpin => absurd hpin List.not_mem_nil
  · rcases reserve_cases s u with heq | ⟨off, hvacant, heq⟩
    · rw [heq]
      exact hs
    · rw [heq]
      exact hs.of_pinned ⟨rfl, rfl, rfl⟩ hvacant rfl rfl

theorem sound_run {cfg : Config} (h : new cfg = some s) (steps : List Step) : (s.run steps).Sound :=
  List.foldlRecOn steps step (sound_new h) fun _ hs st _ => hs.step st

end Mqvpn.Server
