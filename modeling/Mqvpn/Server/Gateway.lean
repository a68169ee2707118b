import Mqvpn.Server.Allocator
import Mqvpn.Server.Model

/-!
# The gateway of the tunnel

The server gives its own TUN the first address behind the address of the subnet. A client is
told nothing of it: it takes the address it is assigned with a 1 for the last octet, and uses
that as the peer of its TUN, and for the default route. The two are the same address exactly
if the last octet of the subnet is 0 (`agreesOnGateway_iff`): the pool is so small that no
offset carries out of the octet then.
-/

namespace Mqvpn

open Reorder

/-- The octets of an IPv4 address. -/
def octets (addr : Nat) : Bytes :=
  [UInt8.ofNat (addr / 2 ^ 24), UInt8.ofNat (addr / 2 ^ 16), UInt8.ofNat (addr / 2 ^ 8), UInt8.ofNat addr]

/-- `mqvpn_addr_pool_server_addr` -/
def AddrPool.serverAddr (p : AddrPool) : Nat := (p.base + 1) % 2 ^ 32

/-- The IPv4 part of `mqvpn_tunnel_info_t`. -/
structure TunnelInfo where
  assignedIp : Bytes
  assignedPrefix : Nat
  serverIp : Bytes
  serverPrefix : Nat

/-- The tunnel info in `cli_connect_ip_on_body`, for what an ADDRESS_ASSIGN brought. -/
def cliTunnelInfo (assignedIp : Bytes) (assignedPrefix : Nat) : TunnelInfo where
  assignedIp
  assignedPrefix
  serverIp := assignedIp.take 3 ++ [1]
  serverPrefix := assignedPrefix

/-- The tunnel info in `mqvpn_server_start` -/
def svrTunnelInfo (p : AddrPool) : TunnelInfo where
  assignedIp := octets p.serverAddr
  assignedPrefix := p.prefixLen
  serverIp := octets p.base
  serverPrefix := p.prefixLen

/-- An address as `"%d.%d.%d.%d"` prints it. -/
def dotted (ip : Bytes) : List Char := ['.'].intercalate (ip.map fun b => (Nat.repr b.toNat).toList)

/-- What `cb_tunnel_config_ready` of a client sets: the addresses of the TUN, and the next hop
    of the default route that goes via the server. -/
structure TunAddrs where
  localIp : List Char
  peerIp : List Char
  serverTunnelIp : List Char

/-- `cb_tunnel_config_ready` -/
def cbTunnelConfigReady (info : TunnelInfo) : TunAddrs where
  localIp := dotted info.assignedIp
  peerIp := dotted info.serverIp
  serverTunnelIp := dotted info.serverIp

namespace AddrPool

variable {p : AddrPool} {a : Nat}

/-- The next call of the pool may give the address to a client. -/
def Assigns (p : AddrPool) (a : Nat) : Prop :=
  (∃ q, p.alloc = some (q, a)) ∨ ∃ off q, p.allocAt off = some (q, a)

/-- What a client with the address takes for the server is what the server has on its TUN. -/
structure AgreesOnGateway (p : AddrPool) (a assignedPrefix : Nat) : Prop where
  serverIp : (cliTunnelInfo (octets a) assignedPrefix).serverIp = (svrTunnelInfo p).assignedIp
  peerIp : (cbTunnelConfigReady (cliTunnelInfo (octets a) assignedPrefix)).peerIp = dotted (svrTunnelInfo p).assignedIp
  nextHop : (cbTunnelConfigReady (cliTunnelInfo (octets a) assignedPrefix)).serverTunnelIp =
    dotted (svrTunnelInfo p).assignedIp

/-- An address that is given out is that of an offset in the pool. -/
theorem Assigns.offset (h : p.Assigns a) : ∃ off, p.Vacant off ∧ a = p.addr off := by
  rcases h with ⟨q, h⟩ | ⟨off, q, h⟩
  · obtain ⟨off, -, hv, ha, -⟩ := alloc_spec h
    exact ⟨off, hv, ha⟩
  · obtain ⟨hv, ha, -⟩ := allocAt_spec h
    exact ⟨off, hv, ha⟩

theorem octets_inj {a b : Nat} (ha : a < 2 ^ 32) (hb : b < 2 ^ 32) : octets a = octets b ↔ a = b := by
  refine ⟨fun h => ?_, fun h => h ▸ rfl⟩
  simp only [octets, List.cons.injEq, and_true] at h
  obtain ⟨h3, h2, h1, h0⟩ := h
  have hmod {m n : Nat} (h : UInt8.ofNat m = UInt8.ofNat n) : m % 256 = n % 256 := congrArg UInt8.toNat h
  have := hmod h3
  have := hmod h2
  have := hmod h1
  have := hmod h0
  omega

/-- With a 1 for the last octet. -/
theorem octets_take_append (a : Nat) : (octets a).take 3 ++ [1] = octets (a / 256 * 256 + 1) := by
  simp only [octets, List.take_succ_cons, List.take_zero, List.cons_append, List.nil_append, List.cons.injEq, and_true]
  have hmod {m n : Nat} (h : m % 256 = n % 256) : UInt8.ofNat m = UInt8.ofNat n := UInt8.toNat_inj.1 h
  exact ⟨hmod (by omega), hmod (by omega), hmod (by omega), hmod (by omega : 1 % 256 = _)⟩

/-- Client and server agree exactly if the last octet of the subnet is 0. -/
theorem agreesOnGateway_iff {cidr : List Char} (hp : init cidr = some p) (ops : List Op) {a : Nat}
    (ha : (p.run ops).Assigns a) (assignedPrefix : Nat) :
    (p.run ops).AgreesOnGateway a assignedPrefix ↔ p.base % 256 = 0 := by
  obtain ⟨off, ⟨hlo, hle, -⟩, rfl⟩ := ha.offset
  have hconf := configured_init hp
  have hbase : p.base < 2 ^ 32 := hconf.base_lt
  have hsize := hconf.poolSize_bounds.2.1
  have hrunBase := (ranged_run hp ops).2
  rw [poolSize_run] at hle
  have hserver : (cliTunnelInfo (octets ((p.run ops).addr off)) assignedPrefix).serverIp =
      (svrTunnelInfo (p.run ops)).assignedIp ↔ p.base % 256 = 0 := by
    rw [cliTunnelInfo, svrTunnelInfo, octets_take_append, serverAddr, addr, hrunBase, octets_inj (by omega) (by omega)]
    constructor <;> intro h <;> omega
  rw [← hserver]
  exact ⟨fun h => h.serverIp, fun h => ⟨h, congrArg dotted h, congrArg dotted h⟩⟩

/-- A vacant offset may be given out. -/
theorem Vacant.assigns {off : Nat} (h : p.Vacant off) : p.Assigns (p.addr off) :=
  .inr ⟨off, _, if_pos h⟩

/-- The first address for a client may be given out. -/
theorem assigns_of_init {cidr : List Char} (hp : init cidr = some p) : p.Assigns (p.addr 2) :=
  Vacant.assigns ⟨Nat.le_refl 2, (configured_init hp).poolSize_bounds.1, (configured_init hp).used 2⟩

/-- In a quarter of the usual subnet, the server is at 10.0.0.65. -/
theorem agreesOnGateway_sample :
    ∃ p, init "10.0.0.64/26".toList = some p ∧ ((p.run []).AgreesOnGateway (p.addr 2) 32 ↔ p.base % 256 = 0) := by
  obtain ⟨p, hp⟩ : ∃ p, init "10.0.0.64/26".toList = some p := Option.isSome_iff_exists.1 (by decide)
  exact ⟨p, hp, agreesOnGateway_iff hp [] (assigns_of_init hp) 32⟩

/-- A client with the address 10.0.0.66 takes 10.0.0.1 for the server. -/
theorem not_agreesOnGateway : ¬∀ (cidr : List Char) (p : AddrPool), init cidr = some p → ∀ (ops : List Op) (a : Nat),
    (p.run ops).Assigns a → ∀ assignedPrefix, (p.run ops).AgreesOnGateway a assignedPrefix := by
  intro h
  obtain ⟨p, hp⟩ : ∃ p, init "10.0.0.64/26".toList = some p := Option.isSome_iff_exists.1 (by decide)
  have hbase : (init "10.0.0.64/26".toList).map (·.base) = some 0x0a000040 := by decide
  rw [hp, Option.map_some, Option.some.injEq] at hbase
  have hserver := (h _ p hp [] _ (assigns_of_init hp) 32).serverIp
  rw [run, List.foldl_nil, cliTunnelInfo, svrTunnelInfo, addr, serverAddr, hbase] at hserver
  dsimp only at hserver
  exact absurd hserver (by decide)

end AddrPool

end Mqvpn
