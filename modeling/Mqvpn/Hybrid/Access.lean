import Mqvpn.ConfigFile.Model
import Mqvpn.Hybrid.Requests
import Mqvpn.Server.Model

/-!
# Who may connect to what

A request for a flow names its target in the path. The server reads a host and a port from it,
checks the address of the host against its rules, and connects. A path is read only if it has
exactly the form that clients write; and whatever the rules, the address that is connected to
is the one that was checked, it is outside of the tunnel, and it is none of the reserved ones
and none of those denied unless it is allowed (`access_controlled`).
-/

namespace Mqvpn.Hybrid

open Text ConfigFile

/-! ## The rules -/

/-- `DEFAULT_DENY_V4` -/
def defaultDenyV4 : List Cidr :=
  [⟨0x00000000, 0xff000000⟩, ⟨0x7f000000, 0xff000000⟩, ⟨0x0a000000, 0xff000000⟩, ⟨0xac100000, 0xfff00000⟩,
    ⟨0xc0a80000, 0xffff0000⟩, ⟨0xa9fe0000, 0xffff0000⟩, ⟨0x64400000, 0xffc00000⟩, ⟨0xe0000000, 0xf0000000⟩,
    ⟨0xf0000000, 0xf0000000⟩, ⟨0xffffffff, 0xffffffff⟩]

/-- `svr_tcp_egress_acl_decide` -/
def aclDecide (ip : UInt32) (allow deny : List Cidr) (tunnel : Cidr) : Bool :=
  if cidrMatch tunnel ip then false
  else if allow.any (cidrMatch · ip) then true
  else if defaultDenyV4.any (cidrMatch · ip) then false
  else if deny.any (cidrMatch · ip) then false
  else true

/-- The lists of `mqvpn_hybrid_config_t` that the server checks. -/
structure EgressLists where
  egressAllow : List Cidr := []
  egressDeny : List Cidr := []

/-- `svr_get_egress_policy`: the subnet of the tunnel, from the pool of its addresses. -/
def tunnelSubnet (p : AddrPool) : Cidr where
  net := UInt32.ofNat p.base &&& UInt32.ofNat (cidrMaskFromPrefix p.prefixLen)
  mask := UInt32.ofNat (cidrMaskFromPrefix p.prefixLen)

/-- What a function of the C library sees of an array of characters with a zero behind them. -/
def cString (s : List Char) : List Char := s.takeWhile (· ≠ '\x00')

/-- The address that `inet_pton` writes for a host. -/
def hostAddr (targetHost : List Char) : Option UInt32 := (inetPton4 (cString targetHost)).map UInt32.ofNat

/-- `svr_tcp_egress_acl_allowed` -/
def aclAllowed (lists : EgressLists) (p : AddrPool) (targetHost : List Char) : Bool :=
  match hostAddr targetHost with
  | none => false
  | some ip => aclDecide ip lists.egressAllow lists.egressDeny (tunnelSubnet p)

/-! ## The request -/

/-- What `svr_tcp_egress_start_connect` meets before it connects. -/
structure Admission where
  /-- `svr_egress_fd_register_is_set` -/
  registerIsSet : Bool
  /-- The budget of the server, and that of the session, are not used up. -/
  withinBudget : Bool
  withinMaxFlows : Bool
  socket : Bool
  alloc : Bool

/-- What becomes of a request: a response, or a call of `connect`. -/
inductive Access where
  | respond (status : Nat)
  | connect (addr : UInt32) (port : Nat)
  deriving DecidableEq

/-- `svr_tcp_egress_start_connect`, up to its call of `connect` -/
def startConnect (a : Admission) (targetHost : List Char) (targetPort : Nat) : Access :=
  if !a.registerIsSet then .respond 503
  else if !a.withinBudget then .respond 503
  else if !a.withinMaxFlows then .respond 503
  else if !a.socket then .respond 500
  else
    match hostAddr targetHost with
    | none => .respond 500
    | some addr => if !a.alloc then .respond 500 else .connect addr targetPort

/-- `svr_tcp_egress_on_request`; the array for the host has 16 characters. -/
def onRequest (s : Server) (lists : EgressLists) (hdrs : ReqHeaders) (a : Admission) : Access :=
  if s.AuthRequired ∧ s.authCheck hdrs.authToken = none then .respond 403
  else
    match hdrs.path.bind (svrTcpEgressParsePath · 16) with
    | none => .respond 400
    | some (targetHost, targetPort) =>
      if !aclAllowed lists s.pool targetHost then .respond 403 else startConnect a targetHost targetPort

/-! ## The path -/

/-- The form of a path: the host and the port, which has up to five digits, between slashes. -/
structure PathOf (path host : List Char) (port : Nat) : Prop where
  form : ∃ ds, path = tcpPathPrefix ++ (host ++ '/' :: (ds ++ ['/'])) ∧ digits 0 ds = (port, []) ∧
    1 ≤ ds.length ∧ ds.length ≤ 5
  host_length : 1 ≤ host.length ∧ host.length ≤ 15
  host_slash : '/' ∉ host
  port_range : 1 ≤ port ∧ port ≤ 65535

/-- The loop over the digits reads a number, and stops when it gets too large. -/
theorem parsePort_eq_some_iff {s : List Char} {acc n : Nat} (hacc : acc ≤ 65535) :
    parsePort acc s = some n ↔ digits acc s = (n, []) ∧ n ≤ 65535 := by
  refine ⟨fun h => ?_, fun h => parsePort_eq h.1 h.2⟩
  induction s generalizing acc with
  | nil =>
    cases h
    exact ⟨rfl, hacc⟩
  | cons c s ih =>
    rw [parsePort] at h
    rw [digits]
    cases hd : digit c with
    | none =>
      rw [hd] at h
      exact absurd h.symm (Option.some_ne_none n)
    | some d =>
      rw [hd] at h
      dsimp only at h ⊢
      by_cases hlarge : 65535 < acc * 10 + d
      · rw [if_pos hlarge] at h
        exact absurd h.symm (Option.some_ne_none n)
      · rw [if_neg hlarge] at h
        exact ih (Nat.not_lt.1 hlarge) h

/-- The digits of a number have no slash. -/
theorem slash_of_digits {s : List Char} {acc n : Nat} (h : digits acc s = (n, [])) : ∀ x ∈ s, decide (x ≠ '/') = true := by
  intro x hx
  refine decide_eq_true fun heq => ?_
  have hchar := ipChar_of_digits h x hx
  rw [heq] at hchar
  exact absurd hchar (by unfold IpChar; decide)

/-- A text with a slash is what stands before the first one, the slash, and what follows. -/
theorem eq_span_slash {s rest : List Char} {c : Char} (h : s.dropWhile (fun x => decide (x ≠ '/')) = c :: rest) :
    s = s.takeWhile (fun x => decide (x ≠ '/')) ++ '/' :: rest ∧ '/' ∉ s.takeWhile (fun x => decide (x ≠ '/')) := by
  have hhead := List.head?_dropWhile_not (fun x => decide (x ≠ '/')) s
  rw [h, List.head?_cons] at hhead
  obtain rfl : c = '/' := not_not.1 (of_decide_eq_false hhead)
  refine ⟨?_, fun hmem => ?_⟩
  · rw [← h, List.takeWhile_append_dropWhile]
  · have hne := List.mem_takeWhile_imp hmem
    exact of_decide_eq_true hne rfl

theorem parsePath_eq_some_iff {path host : List Char} {port : Nat} :
    svrTcpEgressParsePath path 16 = some (host, port) ↔ PathOf path host port := by
  constructor
  · intro h
    rw [svrTcpEgressParsePath] at h
    by_cases hbad : path.length ≤ tcpPathPrefix.length ∨ path.take tcpPathPrefix.length ≠ tcpPathPrefix
    · rw [if_pos hbad] at h
      exact absurd h.symm (Option.some_ne_none _)
    rw [if_neg hbad] at h
    have hpath : path = tcpPathPrefix ++ path.drop tcpPathPrefix.length := by
      conv_lhs => rw [← List.take_append_drop tcpPathPrefix.length path]
      rw [not_not.1 fun hne => hbad (.inr hne)]
    dsimp only at h
    cases hrest : (path.drop tcpPathPrefix.length).dropWhile fun x => decide (x ≠ '/') with
    | nil =>
      rw [hrest] at h
      exact absurd h.symm (Option.some_ne_none _)
    | cons c rest =>
      rw [hrest] at h
      dsimp only at h
      obtain ⟨hsplit, hslash⟩ := eq_span_slash hrest
      generalize (path.drop tcpPathPrefix.length).takeWhile (fun x => decide (x ≠ '/')) = host' at h hsplit hslash
      split_ifs at h with hhost hlast hlen
      cases hport : parsePort 0 (rest.takeWhile fun x => decide (x ≠ '/')) with
      | none =>
        rw [hport] at h
        exact absurd h.symm (Option.some_ne_none _)
      | some port' =>
        rw [hport] at h
        dsimp only at h
        by_cases hzero : port' < 1
        · rw [if_pos hzero] at h
          exact absurd h.symm (Option.some_ne_none _)
        rw [if_neg hzero] at h
        obtain ⟨rfl, rfl⟩ := Prod.mk.inj (Option.some.inj h)
        obtain ⟨hdigits, hle⟩ := (parsePort_eq_some_iff (by decide)).1 hport
        have hds : rest = rest.takeWhile (fun x => decide (x ≠ '/')) ++ ['/'] :=
          (eq_span_slash (not_not.1 hlast)).1
        exact ⟨⟨_, by rw [← hds, ← hsplit]; exact hpath, hdigits, by omega, by omega⟩, by omega, hslash, by omega, hle⟩
  · rintro ⟨⟨ds, rfl, hdigits, hone, hfive⟩, ⟨hmin, hmax⟩, hslash, hlo, hhi⟩
    have hhost : ∀ x ∈ host, decide (x ≠ '/') = true := fun x hx => decide_eq_true fun heq => hslash (heq ▸ hx)
    have hds := slash_of_digits hdigits
    have hport := (parsePort_eq_some_iff (by decide)).2 ⟨hdigits, hhi⟩
    rw [svrTcpEgressParsePath, List.take_left, List.drop_left, if_neg]
    · dsimp only
      rw [(span_slash hhost _).1, (span_slash hhost _).2]
      dsimp only
      rw [(span_slash hds _).1, (span_slash hds _).2, if_neg (by omega), if_neg (by simp), if_neg (by omega), hport]
      dsimp only
      rw [if_neg (by omega)]
    · simp only [List.length_append, ne_eq, not_true_eq_false, or_false, List.length_cons]
      omega

/-! ## The addresses -/

/-- The addresses that nothing but an allow entry opens: this network, loopback, the private
    ones, link-local, those of carriers, multicast, and everything above. -/
def Reserved (ip : Nat) : Prop :=
  ip / 2 ^ 24 = 0 ∨ ip / 2 ^ 24 = 127 ∨ ip / 2 ^ 24 = 10 ∨ ip / 2 ^ 20 = 172 * 16 + 1 ∨
    ip / 2 ^ 16 = 192 * 256 + 168 ∨ ip / 2 ^ 16 = 169 * 256 + 254 ∨ ip / 2 ^ 22 = 100 * 4 + 1 ∨ 224 ≤ ip / 2 ^ 24

/-- A mask keeps what stands above its zeros. -/
theorem and_mask {ip k : Nat} (hk : k ≤ 32) (hip : ip < 2 ^ 32) : ip &&& (2 ^ 32 - 2 ^ k) = ip / 2 ^ k * 2 ^ k := by
  have hmask : 2 ^ 32 - 2 ^ k = (2 ^ (32 - k) - 1) <<< k := by
    rw [Nat.shiftLeft_eq, Nat.sub_mul, ← Nat.pow_add, Nat.sub_add_cancel hk, Nat.one_mul]
  rw [← Nat.shiftRight_eq_div_pow, ← Nat.shiftLeft_eq, hmask]
  refine Nat.eq_of_testBit_eq fun i => ?_
  rw [Nat.testBit_and, Nat.testBit_shiftLeft, Nat.testBit_shiftLeft, Nat.testBit_two_pow_sub_one, Nat.testBit_shiftRight]
  by_cases hi : k ≤ i
  · rw [Nat.add_sub_cancel' hi]
    by_cases hhigh : i < 32
    · simp [hi, show i - k < 32 - k by omega]
    · have hzero : ip.testBit i = false :=
        Nat.testBit_lt_two_pow (Nat.lt_of_lt_of_le hip (Nat.pow_le_pow_right (by decide) (Nat.not_lt.1 hhigh)))
      simp [hzero]
  · simp [hi]

/-- An entry whose mask leaves `k` bits free matches the addresses of its block. -/
theorem cidrMatch_iff {e : Cidr} {k : Nat} (hk : k ≤ 32) (hmask : e.mask.toNat = 2 ^ 32 - 2 ^ k) (ip : UInt32) :
    cidrMatch e ip = true ↔ ip.toNat / 2 ^ k * 2 ^ k = e.net.toNat := by
  rw [cidrMatch, decide_eq_true_eq, ← UInt32.toNat_inj, UInt32.toNat_and, hmask, and_mask hk ip.toNat_lt]

theorem defaultDeny_iff (ip : UInt32) : defaultDenyV4.any (cidrMatch · ip) = true ↔ Reserved ip.toNat := by
  have hthis := cidrMatch_iff (e := ⟨0x00000000, 0xff000000⟩) (k := 24) (by decide) rfl ip
  have hloopback := cidrMatch_iff (e := ⟨0x7f000000, 0xff000000⟩) (k := 24) (by decide) rfl ip
  have hten := cidrMatch_iff (e := ⟨0x0a000000, 0xff000000⟩) (k := 24) (by decide) rfl ip
  have htwelve := cidrMatch_iff (e := ⟨0xac100000, 0xfff00000⟩) (k := 20) (by decide) rfl ip
  have hsixteen := cidrMatch_iff (e := ⟨0xc0a80000, 0xffff0000⟩) (k := 16) (by decide) rfl ip
  have hlink := cidrMatch_iff (e := ⟨0xa9fe0000, 0xffff0000⟩) (k := 16) (by decide) rfl ip
  have hcarrier := cidrMatch_iff (e := ⟨0x64400000, 0xffc00000⟩) (k := 22) (by decide) rfl ip
  have hmulticast := cidrMatch_iff (e := ⟨0xe0000000, 0xf0000000⟩) (k := 28) (by decide) rfl ip
  have hreserved := cidrMatch_iff (e := ⟨0xf0000000, 0xf0000000⟩) (k := 28) (by decide) rfl ip
  have hbroadcast := cidrMatch_iff (e := ⟨0xffffffff, 0xffffffff⟩) (k := 0) (by decide) rfl ip
  simp only [defaultDenyV4, List.any_cons, List.any_nil, Bool.or_eq_true, Bool.or_false, hthis, hloopback, hten, htwelve,
    hsixteen, hlink, hcarrier, hmulticast, hreserved, hbroadcast, Reserved, UInt32.reduceToNat]
  have hlt := ip.toNat_lt
  omega

/-- The address is in the subnet of the pool. -/
def InTunnel (p : AddrPool) (ip : Nat) : Prop := ip / 2 ^ (32 - p.prefixLen) = p.base % 2 ^ 32 / 2 ^ (32 - p.prefixLen)

theorem cidrMaskFromPrefix_eq (n : Nat) : cidrMaskFromPrefix n = 2 ^ 32 - 2 ^ (32 - n) := by
  by_cases hn : n < 32
  · have hall : ∀ n < 32, cidrMaskFromPrefix n = 2 ^ 32 - 2 ^ (32 - n) := by decide
    exact hall n hn
  · rw [cidrMaskFromPrefix, if_neg (by omega), if_pos (Nat.not_lt.1 hn), Nat.sub_eq_zero_of_le (Nat.not_lt.1 hn)]
    rfl

theorem tunnelSubnet_iff (p : AddrPool) (ip : UInt32) :
    cidrMatch (tunnelSubnet p) ip = true ↔ InTunnel p ip.toNat := by
  have hk : 32 - p.prefixLen ≤ 32 := Nat.sub_le _ _
  have hmask : (tunnelSubnet p).mask.toNat = 2 ^ 32 - 2 ^ (32 - p.prefixLen) := by
    rw [tunnelSubnet, cidrMaskFromPrefix_eq]
    exact Nat.mod_eq_of_lt (Nat.sub_lt (Nat.two_pow_pos 32) (Nat.two_pow_pos _))
  have hnet : (tunnelSubnet p).net.toNat = p.base % 2 ^ 32 / 2 ^ (32 - p.prefixLen) * 2 ^ (32 - p.prefixLen) := by
    rw [← and_mask hk (Nat.mod_lt _ (Nat.two_pow_pos 32)), ← hmask]
    exact UInt32.toNat_and (UInt32.ofNat p.base) _
  rw [cidrMatch_iff hk hmask, hnet, InTunnel]
  exact Nat.mul_left_inj (Nat.ne_of_gt (Nat.two_pow_pos _))

/-! ## The decision -/

/-- The tunnel comes before the allow entries, and these before everything that denies. -/
theorem aclDecide_iff (ip : UInt32) (allow deny : List Cidr) (tunnel : Cidr) :
    aclDecide ip allow deny tunnel = true ↔
      cidrMatch tunnel ip = false ∧
        ((∃ e ∈ allow, cidrMatch e ip = true) ∨ ¬Reserved ip.toNat ∧ ∀ e ∈ deny, cidrMatch e ip = false) := by
  rw [aclDecide, ← defaultDeny_iff]
  cases cidrMatch tunnel ip with
  | true => simp
  | false =>
    by_cases hallow : ∃ e ∈ allow, cidrMatch e ip = true
    · have hany : allow.any (cidrMatch · ip) = true := List.any_eq_true.2 hallow
      simp [hany, hallow]
    · have hany : allow.any (cidrMatch · ip) = false := List.any_eq_false.2 fun e he hmatch => hallow ⟨e, he, hmatch⟩
      simp [hany, hallow]

theorem startConnect_connect {a : Admission} {host : List Char} {port port' : Nat} {addr : UInt32}
    (h : startConnect a host port = .connect addr port') : hostAddr host = some addr ∧ port = port' := by
  rw [startConnect] at h
  split at h
  · exact Access.noConfusion h
  split at h
  · exact Access.noConfusion h
  split at h
  · exact Access.noConfusion h
  split at h
  · exact Access.noConfusion h
  split at h
  · exact Access.noConfusion h
  split at h
  · exact Access.noConfusion h
  rename_i haddr _
  cases h
  exact ⟨haddr, rfl⟩

/-- The server reads exactly the paths of the form of a flow. And a request that comes to a
    connect goes to the address that was checked for its host, outside of the tunnel, and
    outside of the reserved and the denied addresses or else to one that is allowed. -/
theorem access_controlled :
    (∀ path host port, svrTcpEgressParsePath path 16 = some (host, port) ↔ PathOf path host port) ∧
      ∀ (s : Server) lists hdrs a addr port, onRequest s lists hdrs a = .connect addr port →
        ∃ path host, hdrs.path = some path ∧ PathOf path host port ∧ hostAddr host = some addr ∧
          aclAllowed lists s.pool host = true ∧ ¬InTunnel s.pool addr.toNat ∧
            ((∃ e ∈ lists.egressAllow, cidrMatch e addr = true) ∨
              ¬Reserved addr.toNat ∧ ∀ e ∈ lists.egressDeny, cidrMatch e addr = false) := by
  refine ⟨fun path host port => parsePath_eq_some_iff, fun s lists hdrs a addr port h => ?_⟩
  rw [onRequest] at h
  by_cases hauth : s.AuthRequired ∧ s.authCheck hdrs.authToken = none
  · rw [if_pos hauth] at h
    exact Access.noConfusion h
  rw [if_neg hauth] at h
  cases hread : hdrs.path.bind (svrTcpEgressParsePath · 16) with
  | none =>
    rw [hread] at h
    exact Access.noConfusion h
  | some target =>
    obtain ⟨host, port'⟩ := target
    rw [hread] at h
    dsimp only at h
    obtain ⟨path, hpath, hparse⟩ := Option.bind_eq_some_iff.1 hread
    cases hallowed : aclAllowed lists s.pool host with
    | false =>
      rw [hallowed] at h
      exact Access.noConfusion h
    | true =>
      rw [hallowed] at h
      obtain ⟨haddr, rfl⟩ := startConnect_connect h
      refine ⟨path, host, hpath, parsePath_eq_some_iff.1 hparse, haddr, hallowed, ?_⟩
      rw [aclAllowed, haddr] at hallowed
      obtain ⟨htunnel, hrules⟩ := (aclDecide_iff _ _ _ _).1 hallowed
      refine ⟨fun hin => ?_, hrules⟩
      rw [(tunnelSubnet_iff s.pool addr).2 hin] at htunnel
      exact Bool.noConfusion htunnel

/-- A client of an open server connects to 8.8.8.8 and to nothing in the block that is denied. -/
def sampleServer : Server where
  config := { subnet := [], udpMss := fun _ _ => 0 }
  pool := { base := 0x0a000000, prefixLen := 24, poolSize := 254 }
  maxClients := 64

theorem access_controlled_sample :
    onRequest sampleServer { egressDeny := [⟨0x08080400, 0xffffff00⟩] }
        { path := some "/.well-known/mqvpn/tcp/8.8.8.8/443/".toList } ⟨true, true, true, true, true⟩ =
      .connect 0x08080808 443 ∧ ¬Reserved (0x08080808 : UInt32).toNat := by
  have hconnect : onRequest sampleServer { egressDeny := [⟨0x08080400, 0xffffff00⟩] }
      { path := some "/.well-known/mqvpn/tcp/8.8.8.8/443/".toList } ⟨true, true, true, true, true⟩ =
      .connect 0x08080808 443 := by decide +kernel
  obtain ⟨_, _, _, _, _, _, _, hrules⟩ := access_controlled.2 _ _ _ _ _ _ hconnect
  exact ⟨hconnect, (hrules.resolve_left fun ⟨_, hnone, _⟩ => absurd hnone List.not_mem_nil).1⟩

end Mqvpn.Hybrid
