import Mqvpn.Platform.Model

/-!
# What a kill switch is for

The packets that a kill switch lets out, whichever filter it is made of: those on the loopback
and the tunnel device, and the datagrams to the server. The families for which neither the
server nor the tunnel has an address are not covered.
-/

namespace Mqvpn.Platform

/-- What a kill switch knows; `lo` is the loopback device of the platform. -/
structure Switch where
  server : Addr
  port : Nat
  lo : String
  tun : String
  hasV6 : Bool

namespace Switch

variable (k : Switch)

def covers (family : Family) : Bool := family = .v4 ∨ k.server.family = .v6 ∨ k.hasV6

/-- The tunnel takes packets of the family. -/
def carries (family : Family) : Bool := family = .v4 ∨ k.hasV6

def toServer (x : Packet) : Bool := x.udp && x.dst = k.server && x.dport = k.port

def lets (x : Packet) : Bool :=
  !k.covers x.dst.family || x.iface = k.lo || (x.iface = k.tun && k.carries x.dst.family) || k.toServer x

variable {k : Switch} {x : Packet}

theorem toServer_iff : k.toServer x = true ↔ x.udp = true ∧ x.dst = k.server ∧ x.dport = k.port := by
  simp [toServer, and_assoc]

/-- A packet of another family than the server's does not go to the server. -/
theorem toServer_eq_false (h : x.dst.family ≠ k.server.family) : k.toServer x = false := by
  rw [toServer, decide_eq_false (fun heq => h (congrArg Addr.family heq)), Bool.and_false, Bool.false_and]

/-- Of a family that is covered. -/
theorem lets_iff (h : k.covers x.dst.family = true) : k.lets x = true ↔
    x.iface = k.lo ∨ (x.iface = k.tun ∧ k.carries x.dst.family = true) ∨ k.toServer x = true := by
  simp [lets, h, or_assoc]

end Switch

end Mqvpn.Platform
