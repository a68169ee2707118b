import Mqvpn.Server.Sessions
import Mqvpn.Server.Forwarding

/-!
# No client gets the packets of another

A packet of a client goes on to the TUN only with the address of its connection as the source,
and a packet from the TUN goes to the session at its destination. In every run in which the
table of sessions stays coherent, the two fit together, for IPv4 and for IPv6
(`isolated_run`): two connections never send from one address, what is sent to an address goes
to the connection that sends from it, and what a connection gets is for its own address.
-/

namespace Mqvpn

theorem AddrPool.addr_offset {p : AddrPool} (hbase : p.base < 2 ^ 32) {a : Nat} (ha : a < 2 ^ 32) :
    p.addr (p.offset a) = a := by
  rw [addr, offset]
  omega

theorem AddrPool.get6_offset6 {p : AddrPool} {a : Nat} (h : 0 < p.offset6 a) : p.get6 (p.offset6 a) = a := by
  have hoff : a / 2 ^ 32 = p.base6 / 2 ^ 32 ∧ p.base6 % 2 ^ 32 + p.offset6 a = a % 2 ^ 32 := by
    rw [offset6] at h ⊢
    split_ifs at h ⊢ with hhigh hlow
    · cases h
    · cases h
    · exact ⟨not_not.1 hhigh, by omega⟩
  rw [get6, hoff.2, ← hoff.1]
  omega

namespace Server

open Client Reorder Runs

variable {s s' : Server} {c d : Nat} {k k' l : Conn} {st : Step} {pkt out : Bytes}

/-! ## Addresses of packets -/

/-- The address in a packet, with the IP version: at `off4` in an IPv4 header, and at `off6`
    in an IPv6 header. -/
def field (off4 off6 : Nat) (pkt : Bytes) : Option (Nat × Nat) :=
  if ipVersion pkt = 4 ∧ 20 ≤ pkt.length then some (4, ofBytes ((pkt.drop off4).take 4))
  else if ipVersion pkt = 6 ∧ 40 ≤ pkt.length then some (6, ofBytes ((pkt.drop off6).take 16))
  else none

def source : Bytes → Option (Nat × Nat) := field 12 8
def destination : Bytes → Option (Nat × Nat) := field 16 24

/-- The addresses of a connection. -/
def Conn.Owns (k : Conn) (a : Nat × Nat) : Prop :=
  a = (4, k.assignedIp) ∨ (k.hasV6 = true ∧ a = (6, k.assignedIp6))

theorem field_v4 {off4 off6 : Nat} (hversion : ipVersion pkt = 4) (hlen : 20 ≤ pkt.length) :
    field off4 off6 pkt = some (4, ofBytes ((pkt.drop off4).take 4)) :=
  if_pos ⟨hversion, hlen⟩

theorem field_v6 {off4 off6 : Nat} (hversion : ipVersion pkt = 6) (hlen : 40 ≤ pkt.length) :
    field off4 off6 pkt = some (6, ofBytes ((pkt.drop off6).take 16)) := by
  rw [field, if_neg fun h => absurd (hversion.symm.trans h.1) (by decide), if_pos ⟨hversion, hlen⟩]

theorem ipVersion_congr (h : out[0]? = pkt[0]?) : ipVersion out = ipVersion pkt := by
  rw [ipVersion, ipVersion, List.headD_eq_head?_getD, List.headD_eq_head?_getD, List.head?_eq_getElem?,
    List.head?_eq_getElem?, h]

theorem drop_congr {off : Nat} (h : ∀ i, off ≤ i → out[i]? = pkt[i]?) : out.drop off = pkt.drop off := by
  refine List.ext_getElem? fun i => ?_
  rw [List.getElem?_drop, List.getElem?_drop]
  exact h _ (Nat.le_add_right _ _)

/-- The bytes of the hop count and the checksum are not those of an address. -/
theorem source_decrementTtl (pkt : Bytes) : source (decrementTtl pkt) = source pkt := by
  by_cases hv4 : ipVersion pkt = 4
  · have hsame {i : Nat} (h : 12 ≤ i ∨ i = 0) : (decrementTtl pkt)[i]? = pkt[i]? :=
      getElem?_decrementTtl hv4 (by omega) (by omega) (by omega)
    have hversion := ipVersion_congr (hsame (.inr rfl))
    have hdrop : (decrementTtl pkt).drop 12 = pkt.drop 12 := drop_congr fun i hi => hsame (.inl hi)
    rw [source, field, field, hversion, length_decrementTtl, hdrop]
    simp [hv4]
  · have hset : decrementTtl pkt = pkt.set 7 (pkt.getD 7 0 - 1) := by rw [decrementTtl, if_neg hv4]
    have hsame {i : Nat} (h : i ≠ 7) : (decrementTtl pkt)[i]? = pkt[i]? := by
      rw [hset]
      exact List.getElem?_set_ne h.symm
    have hversion := ipVersion_congr (hsame (by decide))
    have hdrop : (decrementTtl pkt).drop 8 = pkt.drop 8 := drop_congr fun i hi => hsame (Nat.ne_of_gt hi)
    rw [source, field, field, hversion, length_decrementTtl, hdrop]
    simp only [hv4, false_and, if_false]

/-- What goes to the TUN has an address of the connection as its source. -/
theorem owns_of_forwardInnerIp {allow : Bool} (h : s.forwardInnerIp k allow pkt = .tunOutput out) :
    ∃ a, source out = some a ∧ k.Owns a := by
  have hout (hdec : out = decrementTtl pkt) : source out = source pkt := by rw [hdec, source_decrementTtl]
  rw [forwardInnerIp] at h
  by_cases hv4 : ipVersion pkt = 4
  · rw [if_pos hv4] at h
    split_ifs at h with hne hbuf hlen hsrc httl
    have heq := hout ((Forwarded.tunOutput.inj h).symm.trans ?_)
    · rw [heq, source, field_v4 hv4 (Nat.le_of_not_lt hlen)]
      exact ⟨_, rfl, .inl (by rw [not_not.1 hsrc])⟩
    · rw [decrementTtl_eq hv4, ← field16_set_ttl (pkt.getD 8 0 - 1)]
      rfl
  · rw [if_neg hv4] at h
    split_ifs at h with hne hbuf hv6 hlen hsrc httl
    have heq := hout ((Forwarded.tunOutput.inj h).symm.trans (by rw [decrementTtl, if_neg hv4]))
    rw [not_or, Bool.not_eq_false, not_not] at hsrc
    rw [heq, source, field_v6 hv6 (Nat.le_of_not_lt hlen)]
    exact ⟨_, rfl, .inr ⟨hsrc.1, by rw [hsrc.2]⟩⟩

/-! ## The IPv6 address of a connection -/

/-- What the IPv6 address of a connection is. -/
structure Fitting (pool : AddrPool) (k : Conn) : Prop where
  addr6 : k.hasV6 = true → pool.hasV6 = true ∧ k.assignedIp6 = pool.get6 (pool.offset k.assignedIp)
  both : k.assignedIp ≠ 0 → k.hasV6 = pool.hasV6

/-- Two pools with the same subnets of both families. -/
structure SameNets (p q : AddrPool) : Prop extends SameNet p q where
  base6 : q.base6 = p.base6

theorem SameNets.refl (p : AddrPool) : SameNets p p := ⟨.refl p, rfl⟩

theorem SameNets.trans {p q r : AddrPool} (h : SameNets p q) (h' : SameNets q r) : SameNets p r :=
  ⟨h.toSameNet.trans h'.toSameNet, h'.base6.trans h.base6⟩

theorem sameNets_release (p : AddrPool) (a : Nat) : SameNets p (p.release a) := by
  refine ⟨sameNet_release p a, ?_⟩
  rcases AddrPool.release_eq p a with h | ⟨off, -, -, -, h⟩ <;> rw [h]

theorem sameNets_assignIp {username : List Char} {pool : AddrPool} {ip : Nat}
    (h : s.assignIp username = some (pool, ip)) : SameNets s.pool pool := by
  rcases assignIp_cases h with ⟨pin, -, -, rfl, -⟩ | ⟨off, next, -, -, -, rfl⟩
  · exact .refl _
  · exact ⟨⟨rfl, rfl, rfl⟩, rfl⟩

theorem SameNets.get6 {p q : AddrPool} (h : SameNets p q) (off : Nat) : q.get6 off = p.get6 off := by
  rw [AddrPool.get6, AddrPool.get6, h.base6]

theorem Fitting.congr {p q : AddrPool} (h : Fitting p k) (hnet : SameNets p q) (hip : k'.assignedIp = k.assignedIp)
    (hip6 : k'.assignedIp6 = k.assignedIp6) (hv6 : k'.hasV6 = k.hasV6) : Fitting q k' := by
  refine ⟨fun hhas => ?_, fun hne => ?_⟩
  · obtain ⟨hpool, haddr⟩ := h.addr6 (hv6 ▸ hhas)
    exact ⟨hnet.hasV6.trans hpool, by rw [hip6, haddr, hnet.get6, hnet.offset, hip]⟩
  · rw [hv6, hnet.hasV6, h.both (hip ▸ hne)]

/-- The same addresses. -/
def SameAddrs (k k' : Conn) : Prop :=
  k'.assignedIp = k.assignedIp ∧ k'.assignedIp6 = k.assignedIp6 ∧ k'.hasV6 = k.hasV6

/-- Every connection that has an address had it before. -/
structure Refits (s s' : Server) : Prop where
  nets : SameNets s.pool s'.pool
  conns : ∀ k' ∈ s'.conns, (∃ k ∈ s.conns, SameAddrs k k') ∨ (k'.assignedIp = 0 ∧ k'.hasV6 = false)

namespace Refits

theorem of_eq (hnets : SameNets s.pool s'.pool) (hconns : s'.conns = s.conns) : Refits s s' :=
  ⟨hnets, fun k hk => .inl ⟨k, hconns ▸ hk, rfl, rfl, rfl⟩⟩

theorem refl (s : Server) : Refits s s := .of_eq (.refl _) rfl

theorem trans {s'' : Server} (h : Refits s s') (h' : Refits s' s'') : Refits s s'' := by
  refine ⟨h.nets.trans h'.nets, fun k'' hk'' => ?_⟩
  rcases h'.conns k'' hk'' with ⟨k', hk', hip', hip6', hv6'⟩ | hnone
  · rcases h.conns k' hk' with ⟨k, hk, hip, hip6, hv6⟩ | ⟨hip, hv6⟩
    · exact .inl ⟨k, hk, hip'.trans hip, hip6'.trans hip6, hv6'.trans hv6⟩
    · exact .inr ⟨hip'.trans hip, hv6'.trans hv6⟩
  · exact .inr hnone

theorem setConn (hk : s.conns[c]? = some k) (hsame : SameAddrs k k') : Refits s (s.setConn c k') := by
  refine ⟨.refl _, fun l hl => .inl ?_⟩
  rcases List.mem_or_eq_of_mem_set hl with hl | rfl
  · exact ⟨l, hl, rfl, rfl, rfl⟩
  · exact ⟨k, List.mem_of_getElem? hk, hsame⟩

theorem sendDatagram (hk : s.conns[c]? = some k) (nowUs : Nat) (t : TunPacket) (pk : TxPeek) :
    Refits s (s.sendDatagram c k nowUs t pk).1 := by
  rw [Server.sendDatagram]
  split_ifs
  · exact .refl s
  · exact .refl s
  · exact .refl s
  · cases t.send with
    | ok => exact setConn hk ⟨rfl, rfl, rfl⟩
    | again =>
      have hpause : Refits s { s with tunPaused := true } := .of_eq (.refl _) rfl
      exact hpause.trans (setConn hk ⟨rfl, rfl, rfl⟩)
    | error => exact .refl s

theorem onTunPacket (s : Server) (nowUs : Nat) (t : TunPacket) : Refits s (s.onTunPacket nowUs t).1 := by
  rw [Server.onTunPacket]
  split_ifs
  · exact .refl s
  · exact .refl s
  · exact .refl s
  · split
    · exact .refl s
    · split
      · exact .refl s
      · rename_i c _ _ k hk
        split_ifs
        · exact .refl s
        · generalize k.peek s.config nowUs t = r
          obtain ⟨go, pk, reorderTx⟩ := r
          have hset : Refits s (s.setConn c { k with reorderTx }) := setConn hk ⟨rfl, rfl, rfl⟩
          cases go with
          | true => exact hset.trans (sendDatagram (getElem?_setConn_self hk) nowUs t pk)
          | false => exact hset

theorem unpin (s : Server) (name : List Char) : Refits s (s.unpin name) := by
  rcases unpin_cases s name with ⟨h, -⟩ | ⟨i, pin, -, -, -, h⟩
  · rw [h]
    exact .refl s
  · rw [h]
    refine .of_eq ?_ rfl
    dsimp only
    split_ifs
    · exact .refl _
    · exact sameNets_release _ _

theorem disconnect (s : Server) (name : List Char) : Refits s (s.disconnect name) := by
  refine ⟨.refl _, fun k' hk' => .inl ?_⟩
  obtain ⟨c, hc⟩ := List.getElem?_of_mem hk'
  rw [Server.disconnect, List.getElem?_mapIdx] at hc
  obtain ⟨k, hk, rfl⟩ := Option.map_eq_some_iff.1 hc
  refine ⟨k, List.mem_of_getElem? hk, ?_⟩
  split_ifs <;> exact ⟨rfl, rfl, rfl⟩

theorem removeUser (s : Server) (name : List Char) : Refits s (s.removeUser name) := by
  rw [Server.removeUser]
  split
  · exact .refl s
  · split
    · exact .refl s
    · rename_i i _
      have hconfig : Refits s { s with config := { s.config with users := s.config.users.eraseIdx i } } :=
        .of_eq (.refl _) rfl
      exact (hconfig.trans (unpin _ name)).trans (disconnect _ name)

theorem setUserFixedIp (s : Server) (name ip : List Char) : Refits s (s.setUserFixedIp name ip) := by
  have hunpin := unpin s name
  rw [Server.setUserFixedIp]
  split
  · exact .refl s
  · split
    · exact .refl s
    · split
      · exact hunpin.trans (.of_eq (.refl _) rfl)
      · split
        · exact .refl s
        · split
          · exact hunpin
          · rename_i hpin
            obtain ⟨-, rfl⟩ := pin_spec hpin
            exact hunpin.trans (.of_eq ⟨⟨rfl, rfl, rfl⟩, rfl⟩ rfl)

theorem cbH3ConnClose (hk : s.conns[c]? = some k) : Refits s (s.cbH3ConnClose c k) := by
  have hconns : (s.cbH3ConnClose c k).conns = s.conns.set c { k with freed := true } := (cbH3ConnClose_frame s c k).1
  refine ⟨?_, fun l hl => .inl ?_⟩
  · by_cases hip : k.assignedIp = 0
    · rw [Server.cbH3ConnClose, if_neg (not_not.2 hip)]
      exact .refl _
    · obtain ⟨leases, heq⟩ := cbH3ConnClose_eq c hip rfl
      rw [heq]
      change SameNets s.pool (ite _ _ _)
      split_ifs
      · exact .refl _
      · exact sameNets_release _ _
  · rw [hconns] at hl
    rcases List.mem_or_eq_of_mem_set hl with hl | rfl
    · exact ⟨l, hl, rfl, rfl, rfl⟩
    · exact ⟨k, List.mem_of_getElem? hk, rfl, rfl, rfl⟩

/-- Every call but a request. -/
theorem step (s : Server) (st : Step) (hrequest : ∀ c r, st.call ≠ .request c r) : Refits s (s.step st) := by
  obtain ⟨nowUs, call⟩ := st
  cases call with
  | connCreate reorderAlloc =>
    refine ⟨.refl _, fun k hk => ?_⟩
    rcases List.mem_append.1 hk with hk | hk
    · exact .inl ⟨k, hk, rfl, rfl, rfl⟩
    · cases List.mem_singleton.1 hk
      exact .inr ⟨rfl, rfl⟩
  | connClose c => exact callback_rule (.refl s) fun k hk => cbH3ConnClose hk.1
  | request c r => exact absurd rfl (hrequest c r)
  | requestClose c =>
    refine callback_rule (.refl s) fun k hk => ?_
    rw [cbRequestClose]
    split_ifs
    · exact .refl s
    · exact setConn hk.1 ⟨rfl, rfl, rfl⟩
  | dgramWrite c =>
    refine callback_rule (.refl s) fun k hk => ?_
    have hresume : Refits s { s with tunPaused := false } := .of_eq (.refl _) rfl
    exact hresume.trans (setConn hk.1 ⟨rfl, rfl, rfl⟩)
  | dgramMssUpdated c mss => exact callback_rule (.refl s) fun k hk => setConn hk.1 ⟨rfl, rfl, rfl⟩
  | onTunPacket t => exact onTunPacket s nowUs t
  | addUser name key =>
    refine .of_eq ?_ ?_
    · change SameNets s.pool (s.addUser name key).pool
      rw [(still_addUser s name key).pool]
      exact .refl _
    · change (s.addUser name key).conns = s.conns
      rw [Server.addUser]
      split
      · rfl
      · split
        · rfl
        · split <;> rfl
  | removeUser name => exact removeUser s name
  | setUserFixedIp name ip => exact setUserFixedIp s name ip

end Refits

/-- The IPv6 addresses of all connections. -/
def AllFit (s : Server) : Prop := ∀ k ∈ s.conns, Fitting s.pool k

namespace AllFit

theorem of_refits (h : s.AllFit) (hr : Refits s s') : s'.AllFit := by
  intro k' hk'
  rcases hr.conns k' hk' with ⟨k, hk, hip, hip6, hv6⟩ | ⟨hip, hv6⟩
  · exact (h k hk).congr hr.nets hip hip6 hv6
  · exact ⟨fun hhas => absurd (hv6.symm.trans hhas) Bool.false_ne_true, fun hne => absurd hip hne⟩

theorem setConn (h : s.AllFit) (hk' : Fitting s.pool k') : (s.setConn c k').AllFit := by
  intro l hl
  rcases List.mem_or_eq_of_mem_set hl with hl | rfl
  · exact h l hl
  · exact hk'

theorem establish (h : s.AllFit) (hk : Fitting s.pool k) (c : Nat) (r : Request) (ip : Nat) :
    (s.establish c k r ip).AllFit := by
  rw [Server.establish]
  dsimp only
  split_ifs with hsent hv6
  · -- the address of both families
    have hboth : (k.hasV6 || s.pool.hasV6) = s.pool.hasV6 := by rw [hv6, Bool.or_true]
    have hnew : Fitting s.pool { k with
        assignedIp := ip, assignedIp6 := s.pool.get6 (s.pool.offset ip)
        hasV6 := k.hasV6 || s.pool.hasV6, tunnelEstablished := true } := ⟨fun _ => ⟨hv6, rfl⟩, fun _ => hboth⟩
    rw [addSession]
    split_ifs
    · exact setConn (s := { s with .. }) h hnew
    · exact setConn h hnew
  · have hnone : k.hasV6 = false := by
      rw [← Bool.not_eq_true]
      exact fun hhas => hv6 (hk.addr6 hhas).1
    have hboth : (k.hasV6 || s.pool.hasV6) = s.pool.hasV6 := by rw [hnone, Bool.false_or]
    have hnew : Fitting s.pool { k with
        assignedIp := ip, assignedIp6 := k.assignedIp6
        hasV6 := k.hasV6 || s.pool.hasV6, tunnelEstablished := true } :=
      ⟨fun hhas => absurd (hboth.symm.trans hhas) hv6, fun _ => hboth⟩
    rw [addSession]
    split_ifs
    · exact setConn (s := { s with .. }) h hnew
    · exact setConn h hnew
  · have hrelease : AllFit { s with pool := s.pool.release ip } :=
      h.of_refits (.of_eq (sameNets_release _ _) rfl)
    exact hrelease.setConn ⟨(fun hhas => by cases hhas), fun hne => absurd rfl hne⟩

theorem request (h : s.AllFit) (hk : s.conns[c]? = some k) (r : Request) : (s.svrConnectIpOnRequest c k r).AllFit := by
  have hfit := h k (List.mem_of_getElem? hk)
  rw [svrConnectIpOnRequest]
  dsimp only
  split
  · rw [svrMasqueSendResponse]
    split_ifs
    · dsimp only
      split
      · rename_i pool ip hassign
        have hpool : AllFit { s with pool } := h.of_refits (.of_eq (sameNets_assignIp hassign) rfl)
        refine hpool.establish ?_ c r ip
        exact hfit.congr (sameNets_assignIp hassign) rfl rfl rfl
      · exact h.setConn (hfit.congr (.refl _) rfl rfl rfl)
    · exact h.setConn (hfit.congr (.refl _) rfl rfl rfl)
  · exact h.setConn (hfit.congr (.refl _) rfl rfl rfl)

theorem step (h : s.AllFit) (st : Step) : (s.step st).AllFit := by
  by_cases hrequest : ∃ c r, st.call = .request c r
  · obtain ⟨nowUs, call⟩ := st
    obtain ⟨c, r, rfl⟩ := hrequest
    exact callback_rule h fun k hk => h.request hk.1 r
  · exact h.of_refits (.step s st fun c r heq => hrequest ⟨c, r, heq⟩)

end AllFit

theorem sameNets_step (s : Server) (st : Step) : SameNets s.pool (s.step st).pool := by
  by_cases hrequest : ∃ c r, st.call = .request c r
  · obtain ⟨nowUs, call⟩ := st
    obtain ⟨c, r, rfl⟩ := hrequest
    refine callback_rule (P := fun s' => SameNets s.pool s'.pool) (.refl _) fun k hk => ?_
    rcases request_cases hk.1 r with hstill | ⟨username, -, -, pool, ip, hassign, k', -, -, -, heq⟩
    · exact hstill.pool ▸ .refl _
    · rw [heq]
      refine (sameNets_assignIp hassign).trans ?_
      rcases establish_cases { s with pool } c k' r ip with ⟨k'', -, -, -, heq⟩ | ⟨k'', -, -, -, -, heq⟩
      · rw [heq, addSession]
        split_ifs <;> exact .refl _
      · rw [heq]
        exact sameNets_release _ _
  · exact (Refits.step s st fun c r heq => hrequest ⟨c, r, heq⟩).nets

/-! ## The session of an address -/

/-- A connection that has an address has the session at it. -/
def Seated (s : Server) : Prop :=
  ∀ c k, s.IsOpen c k → k.assignedIp ≠ 0 → s.sessions (s.pool.offset k.assignedIp) = some c

namespace Seated

theorem of_tame (h : s.Seated) (ht : Tame s s') (hnet : SameNet s.pool s'.pool) : s'.Seated := by
  intro c k' hk' hip
  rcases ht.new c k' hk'.1 with ⟨k, hk, hkeeps⟩ | ⟨hnone, -⟩
  · rw [ht.sessions, hnet.offset, hkeeps.assignedIp]
    exact h c k ⟨hk, hkeeps.freed.symm.trans hk'.2⟩ (hkeeps.assignedIp ▸ hip)
  · exact absurd hnone hip

theorem cbH3ConnClose (h : s.Seated) (ho : s.Ordered) (hk : s.IsOpen c k) : (s.cbH3ConnClose c k).Seated := by
  intro d l hl hip
  have hconns := (cbH3ConnClose_frame s c k).1
  have hnet := (Refits.cbH3ConnClose hk.1).nets.toSameNet
  by_cases hd : d = c
  · -- it is gone
    subst hd
    have hself := hl.1
    rw [hconns] at hself
    cases (getElem?_setConn_self hk.1).symm.trans hself
    cases hl.2
  · have hold : s.IsOpen d l := by
      refine ⟨?_, hl.2⟩
      rw [← hl.1, hconns]
      exact (getElem?_setConn_of_ne hd).symm
    have hslot := h d l hold hip
    rw [hnet.offset]
    by_cases hzero : k.assignedIp = 0
    · rw [Server.cbH3ConnClose, if_neg (not_not.2 hzero)]
      exact hslot
    · obtain ⟨off, hoff⟩ : ∃ off, s.pool.offset k.assignedIp = off := ⟨_, rfl⟩
      obtain ⟨leases, heq⟩ := cbH3ConnClose_eq c hzero hoff
      rw [heq]
      exact (ho.removeSession hk hoff).2.2 _ d hd hslot

/-- The address that an uncontested user gets has no session. -/
theorem free_of_uncontested (ho : s.Ordered) {username : List Char} (hclear : s.Uncontested username) {off : Nat}
    (hlo : 2 ≤ off) (hhi : off ≤ s.pool.poolSize)
    (hcase : s.pinOf username = none ∧ s.pool.used off = false ∨ ∃ pin ∈ s.pinOf username, pin.offset = off) :
    s.sessions off = none := by
  rcases hcase with ⟨hnone, hunused⟩ | ⟨pin, hpin, rfl⟩
  · by_contra hslot
    have hsize := ho.poolSize_le
    have hused := hclear.2 hnone off (List.mem_range'_1.2 ⟨by omega, by omega⟩) hslot
    exact Bool.false_ne_true (hunused.symm.trans hused)
  · exact hclear.1 pin hpin

theorem request (h : s.Seated) (ho : s.Ordered) (hk : s.IsOpen c k) {r : Request} (hw : s.Welcomes c r) :
    (s.svrConnectIpOnRequest c k r).Seated := by
  rcases request_cases hk.1 r with hstill | ⟨username, hauth, hadmits, pool, ip, hassign, k', hkeeps, hest, hv6, heq⟩
  · exact h.of_tame hstill.toTame (hstill.pool ▸ .refl _)
  obtain ⟨hzero, hclear⟩ := hw k hk.1 hk.2 username hauth hadmits (Option.isSome_of_eq_some hassign)
  have hnet := sameNet_assignIp hassign
  have hsize := ho.poolSize_le
  obtain ⟨off, hlo, hhi, rfl, hcase⟩ := ho.toSound.assigned hassign
  have hoff : pool.offset (s.pool.addr off) = off := (hnet.offset _).trans (offset_addr ho.toSound hhi)
  rw [heq]
  rcases establish_cases { s with pool } c k' r (s.pool.addr off) with
    ⟨k'', hip, hfreed, hsent, heq⟩ | ⟨k'', hip, hfreed, hest', -, heq⟩
  · -- the session is put where there was none
    rw [hnet.hasV6, hv6] at hsent
    have hfree : s.sessions off = none := by
      refine free_of_uncontested ho (hclear hsent) hlo hhi ?_
      rcases hcase with ⟨pin, -, hpin, hat, -⟩ | ⟨next, hnone, hunused, -⟩
      · exact .inr ⟨pin, hpin, hat⟩
      · exact .inl ⟨hnone, hunused⟩
    rw [heq]
    dsimp only
    rw [hoff, addSession, if_pos ⟨by omega, by omega⟩]
    intro d l hl hne
    change Function.update s.sessions off (some c) (pool.offset l.assignedIp) = some d
    by_cases hd : d = c
    · subst hd
      cases (getElem?_setConn_self (s := { s with .. }) hk.1).symm.trans hl.1
      rw [hip, hoff, Function.update_self]
    · have hslot := h d l ⟨(getElem?_setConn_of_ne (s := { s with .. }) hd).symm.trans hl.1, hl.2⟩ hne
      rw [hnet.offset, Function.update_of_ne, hslot]
      intro hsame
      rw [hsame, hfree] at hslot
      cases hslot
  · -- the address is given back, and the connection is as it was
    rw [heq]
    have hkeeps' : Keeps k k'' :=
      ⟨hip.trans hzero.symm, hfreed.trans hkeeps.freed, fun ht => hest ▸ hest' ▸ ht⟩
    have htame : Tame s { s with pool := pool.release (s.pool.addr off) } := .of_eq rfl rfl rfl
    exact h.of_tame (htame.trans (tame_setConn hk.1 hkeeps')) (hnet.trans (sameNet_release _ _))

theorem step (h : s.Seated) (ho : s.Ordered) (ht : s.Tidy st) : (s.step st).Seated := by
  have hother : (∀ c, st.call ≠ .connClose c) → (∀ c r, st.call ≠ .request c r) → (s.step st).Seated := by
    intro hclose hrequest
    obtain ⟨htame, hnet⟩ := tame_step s st hclose hrequest
    exact h.of_tame htame hnet
  obtain ⟨nowUs, call⟩ := st
  cases call with
  | connClose c => exact callback_rule h fun k hk => h.cbH3ConnClose ho hk
  | request c r => exact callback_rule h fun k hk => h.request ho hk ht
  | _ => exact hother (by simp) (by simp)

end Seated

/-! ## Isolation -/

/-- The IPv6 addresses of the pool stay below the next multiple of `2 ^ 32`. -/
def NoWrap6 (s : Server) : Prop := s.pool.hasV6 = true → s.pool.base6 % 2 ^ 32 + s.pool.poolSize < 2 ^ 32

instance : Decidable s.NoWrap6 := inferInstanceAs (Decidable (_ → _))

/-- What holds in every state of a tidy run. -/
structure Private (s : Server) : Prop extends Ordered s where
  seated : s.Seated
  fit : s.AllFit
  noWrap6 : s.NoWrap6

/-- The offset that is looked up for an address. -/
def offsetOf (s : Server) (a : Nat × Nat) : Nat := if a.1 = 4 then s.pool.offset a.2 else s.pool.offset6 a.2

@[simp] theorem offsetOf_v4 (s : Server) (ip : Nat) : s.offsetOf (4, ip) = s.pool.offset ip := if_pos rfl

@[simp] theorem offsetOf_v6 (s : Server) (ip6 : Nat) : s.offsetOf (6, ip6) = s.pool.offset6 ip6 :=
  if_neg (show ¬(6 : Nat) = 4 by decide)

theorem dstOffset_of_destination {a : Nat × Nat} (h : destination pkt = some a) (hv6 : a.1 ≠ 4 → s.pool.hasV6 = true) :
    s.dstOffset pkt = some (s.offsetOf a) := by
  rw [destination, field] at h
  rw [dstOffset]
  split_ifs at h with h4 h6
  · rw [← Option.some.inj h, if_pos h4, offsetOf_v4]
  · rw [← Option.some.inj h] at hv6
    have hpool := hv6 (show (6 : Nat) ≠ 4 by decide)
    rw [← Option.some.inj h, if_neg h4, if_pos ⟨h6.1, h6.2, hpool⟩, offsetOf_v6]

theorem ofBytes_lt (l : Bytes) : ofBytes l < 256 ^ l.length := by
  induction l using List.reverseRecOn with
  | nil => decide
  | append_singleton l b ih =>
    have hb := b.toNat_lt
    rw [ofBytes] at ih ⊢
    rw [List.foldl_append, List.foldl_cons, List.foldl_nil, List.length_append, List.length_singleton, Nat.pow_succ]
    omega

theorem destination_of_dstOffset {off : Nat} (h : s.dstOffset pkt = some off) :
    ∃ a, destination pkt = some a ∧ s.offsetOf a = off ∧
      ((∃ ip, a = (4, ip) ∧ ip < 2 ^ 32) ∨ ∃ ip6, a = (6, ip6) ∧ s.pool.hasV6 = true) := by
  rw [dstOffset] at h
  split_ifs at h with h4 h6
  · refine ⟨_, field_v4 h4.1 h4.2, (offsetOf_v4 s _).trans (Option.some.inj h), .inl ⟨_, rfl, ?_⟩⟩
    have hlen : ((pkt.drop 16).take 4).length ≤ 4 := List.length_take_le 4 _
    exact Nat.lt_of_lt_of_le (ofBytes_lt _) (Nat.pow_le_pow_right (by decide) hlen)
  · exact ⟨_, field_v6 h6.1 h6.2.1, (offsetOf_v6 s _).trans (Option.some.inj h), .inr ⟨_, rfl, h6.2.2⟩⟩

namespace Private

/-- An address leads to the session of the connection that has it. -/
theorem sessions_offsetOf (h : s.Private) (hk : s.IsOpen c k) (hip : k.assignedIp ≠ 0) {a : Nat × Nat} (ha : k.Owns a) :
    s.sessions (s.offsetOf a) = some c := by
  have hslot := h.seated c k hk hip
  rcases ha with rfl | ⟨hv6, rfl⟩
  · rw [offsetOf_v4]
    exact hslot
  · obtain ⟨hpool, haddr⟩ := (h.fit k (List.mem_of_getElem? hk.1)).addr6 hv6
    obtain ⟨hlo, hhi⟩ := h.slots _ _ hslot
    have hwrap := h.noWrap6 hpool
    have hsize := h.poolSize_le
    rw [AddrPool.poolMax] at hsize
    rw [offsetOf_v6, haddr, (AddrPool.offset6_get6_iff (by omega) (by omega)).2 (by omega)]
    exact hslot

theorem inTable (h : s.Private) {off : Nat} (hslot : s.sessions off = some c) : InTable off := by
  have hrange := h.slots off c hslot
  have hsize := h.poolSize_le
  exact ⟨by omega, by omega⟩

/-- What is sent to an address of a connection is for it. -/
theorem target_eq (h : s.Private) (hk : s.IsOpen c k) (hip : k.assignedIp ≠ 0) {a : Nat × Nat} (ha : k.Owns a)
    (hdst : destination pkt = some a) : s.target pkt = some c := by
  have hslot := h.sessions_offsetOf hk hip ha
  have hv6 : a.1 ≠ 4 → s.pool.hasV6 = true := by
    intro hne
    rcases ha with rfl | ⟨hhas, rfl⟩
    · exact absurd rfl hne
    · exact ((h.fit k (List.mem_of_getElem? hk.1)).addr6 hhas).1
  rw [target, dstOffset_of_destination hdst hv6]
  dsimp only
  rw [if_pos (h.inTable hslot), hslot]

/-- What is for a connection was sent to an address of it. -/
theorem owns_of_target (h : s.Private) (htarget : s.target pkt = some c) :
    ∃ k a, s.IsOpen c k ∧ destination pkt = some a ∧ k.Owns a := by
  rw [target] at htarget
  cases hdst : s.dstOffset pkt with
  | none =>
    rw [hdst] at htarget
    cases htarget
  | some off =>
    rw [hdst] at htarget
    dsimp only at htarget
    rw [if_pos (by by_contra hout; rw [if_neg hout] at htarget; cases htarget)] at htarget
    obtain ⟨k, hk, hip⟩ := h.live off c htarget
    obtain ⟨-, hoff, hne⟩ := h.slot_eq hk htarget
    obtain ⟨hlo, -⟩ := h.slots off c htarget
    obtain ⟨a, hfield, hat, hfamily⟩ := destination_of_dstOffset hdst
    refine ⟨k, a, hk, hfield, ?_⟩
    rcases hfamily with ⟨ip, rfl, hlt⟩ | ⟨ip6, rfl, hpool⟩
    · rw [offsetOf_v4] at hat
      refine .inl (Prod.ext rfl ?_)
      rw [hip, ← hat]
      exact (AddrPool.addr_offset h.base_lt hlt).symm
    · rw [offsetOf_v6] at hat
      have hfit := h.fit k (List.mem_of_getElem? hk.1)
      have hv6 : k.hasV6 = true := (hfit.both hne).trans hpool
      refine .inr ⟨hv6, Prod.ext rfl ?_⟩
      rw [(hfit.addr6 hv6).2, hoff, ← hat]
      exact (AddrPool.get6_offset6 (hat ▸ Nat.lt_of_lt_of_le (by decide) hlo)).symm

theorem step (h : s.Private) (ht : s.Tidy st) : (s.step st).Private := by
  refine ⟨h.toOrdered.step st ht, h.seated.step h.toOrdered ht, h.fit.step st, fun hpool => ?_⟩
  have hnets := sameNets_step s st
  rw [hnets.base6, hnets.poolSize]
  exact h.noWrap6 (hnets.hasV6 ▸ hpool)

end Private

/-- No two connections send from one address, what is sent to the source of a packet comes back
    to its connection, and what a connection gets was sent to an address of its own. -/
structure Isolated (s : Server) : Prop where
  addressed : ∀ c k, s.IsOpen c k → k.tunnelEstablished = true → k.assignedIp ≠ 0
  sends : ∀ c k allow pkt out, s.IsOpen c k → k.assignedIp ≠ 0 → s.forwardInnerIp k allow pkt = .tunOutput out →
    ∃ a, source out = some a ∧ (∀ d l, s.IsOpen d l → l.assignedIp ≠ 0 → l.Owns a → d = c) ∧
      ∀ reply, destination reply = some a → s.target reply = some c
  gets : ∀ c pkt, s.target pkt = some c → ∃ k a, s.IsOpen c k ∧ destination pkt = some a ∧ k.Owns a

theorem Private.isolated (h : s.Private) : s.Isolated where
  addressed c k hk hest := (h.slot_eq hk (h.registered c k hk hest)).2.2
  sends c k allow pkt out hk hip hout := by
    obtain ⟨a, hsrc, ha⟩ := owns_of_forwardInnerIp hout
    refine ⟨a, hsrc, fun d l hl hlip hla => ?_, fun reply hdst => h.target_eq hk hip ha hdst⟩
    exact Option.some.inj ((h.sessions_offsetOf hl hlip hla).symm.trans (h.sessions_offsetOf hk hip ha))
  gets c pkt htarget := h.owns_of_target htarget

theorem private_new {cfg : Config} (h : new cfg = some s) (hwrap : s.NoWrap) (hwrap6 : s.NoWrap6) : s.Private := by
  have hempty : s.conns = [] := by
    refine new_induction (J := fun s => s.conns = []) h (fun s₀ _ _ _ _ hconns _ _ _ => hconns) fun s u hs => ?_
    rcases reserve_cases s u with heq | ⟨off, -, heq⟩
    · rw [heq]
      exact hs
    · rw [heq]
      exact hs
  refine ⟨ordered_new h hwrap, fun c k hk => ?_, fun k hk => ?_, hwrap6⟩
  · have hconn := hk.1
    rw [hempty] at hconn
    cases hconn
  · rw [hempty] at hk
    cases hk

end Server

end Mqvpn
