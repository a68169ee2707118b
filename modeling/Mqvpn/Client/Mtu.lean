import Mqvpn.Client.Frame
import Mqvpn.Lib.Runs

/-!
# The MTU of the tunnel

The platform hears of an MTU when the tunnel is set up and when the datagram MSS
changes. Both times it is computed from the MSS, but by different rules: the
second one leaves out the reorder header, and does not tell a value that an
earlier update told, whatever was told in between.

After an update, what the platform was last told should be what the set-up would
tell now (`Agrees`); then the sender drops no packet for its size, unless the
IPv6 floor is above what a datagram carries (`Passes`). `agrees_iff` says when
that is so, and `not_agrees` shows both ways in which it fails.
-/

namespace Mqvpn.Client

open Reorder Runs

/-! ## What the platform was told -/

/-- The MTU that an output tells. -/
def Output.mtu? : Output → Option Int
  | .tunnelConfigReady info => some info.mtu
  | .mtuUpdated mtu => some mtu
  | .stateChanged .. | .tunnelClosed | .readyForTun | .reconnectScheduled _ => none

/-- The MTU that was told last. -/
def told (trace : List Output) : Option Int := trace.foldl (fun mtu o => o.mtu?.or mtu) none

theorem told_append (trace : List Output) (o : Output) : told (trace ++ [o]) = o.mtu?.or (told trace) := by
  rw [told, List.foldl_append]
  rfl

/-- While the tunnel is used, the platform was last told what the set-up rule
    computes from the current MSS, if that leaves a usable MTU. -/
def Agrees (c : Client) : Prop :=
  ∀ k ∈ c.conn, c.tunActive = true → 68 ≤ k.udpMss c.config →
    told c.trace = some (tunMtu c.config (k.udpMss c.config) k.addr6.isSome)

instance (c : Client) : Decidable c.Agrees := inferInstanceAs (Decidable (∀ k ∈ c.conn, _ → _ → _))

/-- The IPv6 floor makes no difference to the set-up rule. -/
def Conn.NoFloor (k : Conn) (cfg : Client.Config) : Prop :=
  tunMtu cfg (k.udpMss cfg) k.addr6.isSome = tunMtu cfg (k.udpMss cfg) false

/-- Where no floor applies, the sender drops no packet for its size that is within
    the MTU told last. -/
def Passes (c : Client) : Prop :=
  ∀ k ∈ c.conn, c.tunActive = true → 68 ≤ k.udpMss c.config → k.NoFloor c.config →
    ∀ mtu ∈ told c.trace, ∀ (nowUs : Nat) (t : TunPacket), (t.pkt.length : Int) ≤ mtu →
      (k.decideLane c.config nowUs t).1 ≠ .dropMtu ∧ (k.decideLane c.config nowUs t).1 ≠ .overMtu

/-! ## Sizes -/

theorem bmod_le_mod (n m : Nat) : Int.bmod n m ≤ (n % m : Nat) := by
  rw [Int.bmod_def]
  split_ifs
  · omega
  · omega

theorem toInt_le (n : Nat) : toInt n ≤ (n % 2 ^ 32 : Nat) := bmod_le_mod n _

theorem applyMtuCap_le (cfgMtu negotiated : Int) : applyMtuCap cfgMtu negotiated ≤ negotiated := by
  rw [applyMtuCap]
  split_ifs with h
  · exact Int.le_of_lt h.2
  · exact Int.le_refl _

/-- Without a floor, the MTU is within what a datagram carries, the reorder header
    included where there may be one. -/
theorem tunMtu_le (cfg : Client.Config) {udpMss : Nat} (h : 68 ≤ udpMss) :
    tunMtu cfg udpMss false + (if cfg.reorder.mode ≠ .off then (hdrLen : Int) else 0) ≤
      (udpMss % 2 ^ 32 : Nat) := by
  have hcap := Int.le_trans (applyMtuCap_le cfg.tunMtu (toInt udpMss)) (toInt_le udpMss)
  simp only [tunMtu, floor6, if_pos h, Bool.false_eq_true, false_and, if_false]
  split_ifs
  · omega
  · omega

/-- The guard of the reorder sender is on the stamped packet. -/
theorem lt_of_peek_dropMtu {tx : Tx} {pkt : Bytes} {nowUs maxInner : Nat} {alloc : Bool}
    (h : (tx.peek pkt nowUs maxInner alloc).1.action = .dropMtu) : maxInner < hdrLen + pkt.length := by
  rw [Tx.peek] at h
  split at h
  · cases h
  · split at h
    · cases h
    · split at h
      · cases h
      · rw [Tx.stamp] at h
        split_ifs at h with _ hlt
        · exact hlt
        · cases h

theorem Conn.decideLane_of_le {k : Conn} {cfg : Client.Config} {t : TunPacket}
    (hmss : t.pkt.length ≤ k.udpMss cfg)
    (hstamp : cfg.reorder.mode ≠ .off → hdrLen + t.pkt.length ≤ k.udpMss cfg % 2 ^ 32) (nowUs : Nat) :
    (k.decideLane cfg nowUs t).1 ≠ .dropMtu ∧ (k.decideLane cfg nowUs t).1 ≠ .overMtu := by
  have hraw : ¬(0 < k.udpMss cfg ∧ k.udpMss cfg < t.pkt.length) := fun h => Nat.not_lt.2 hmss h.2
  rw [Conn.decideLane]
  split_ifs
  · exact ⟨by simp, by simp⟩
  · dsimp only
    rw [if_neg hraw]
    split
    · split_ifs with hon
      · split
        · exact ⟨by simp, by simp⟩
        · rename_i hdrop
          exact absurd (lt_of_peek_dropMtu hdrop) (Nat.not_lt.2 (hstamp hon.2.1))
        · exact ⟨by simp, by simp⟩
      · exact ⟨by simp, by simp⟩
    · exact ⟨by simp, by simp⟩

/-- A platform that was told the value of the set-up rule loses no packets. -/
theorem Agrees.passes {c : Client} (h : c.Agrees) : c.Passes := by
  intro k hk hactive hmss hfloor mtu hmtu nowUs t hlen
  have htold := h k hk hactive hmss
  rw [hfloor] at htold
  obtain rfl : tunMtu c.config (k.udpMss c.config) false = mtu :=
    Option.some.inj (htold.symm.trans hmtu)
  have hle := tunMtu_le c.config hmss
  have hmod : k.udpMss c.config % 2 ^ 32 ≤ k.udpMss c.config := Nat.mod_le _ _
  refine k.decideLane_of_le ?_ ?_ nowUs
  · split_ifs at hle
    · omega
    · omega
  · intro hon
    rw [if_pos hon] at hle
    omega

/-! ## Updates -/

/-- The datagram MSS is reported as changed. -/
def Call.isMssUpdate : Call → Bool
  | .dgramMssUpdated _ => true
  | _ => false

/-- What the two rules and the last update have to be like for an update to leave
    the platform with the right MTU: a new value needs no room for the reorder
    header, which is so without reordering and at the IPv6 floor; a value that an
    update told before is not told again, so the platform must know the right one. -/
def MssFits (c : Client) (s : Step) : Prop :=
  match s.call with
  | .dgramMssUpdated mss => ∀ k ∈ c.conn, c.tunActive = true →
      68 ≤ c.config.udpMss mss k.masqueStreamId →
      let mtu := updatedMtu c.config (c.config.udpMss mss k.masqueStreamId) k.addr6.isSome
      if mtu = c.lastNotifiedMtu then
        told c.trace = some (tunMtu c.config (c.config.udpMss mss k.masqueStreamId) k.addr6.isSome)
      else c.config.reorder.mode = .off ∨ (k.addr6.isSome = true ∧ mtu = ipv6MinMtu)
  | _ => True

/-- The two rules agree without reordering and at the floor. -/
theorem updatedMtu_eq_iff {cfg : Client.Config} {udpMss : Nat} {v6 : Bool} (h : 68 ≤ udpMss) :
    updatedMtu cfg udpMss v6 = tunMtu cfg udpMss v6 ↔
      cfg.reorder.mode = .off ∨ (v6 = true ∧ updatedMtu cfg udpMss v6 = ipv6MinMtu) := by
  have htun : tunMtu cfg udpMss v6 =
      if cfg.reorder.mode ≠ .off then floor6 v6 (updatedMtu cfg udpMss v6 - hdrLen)
      else updatedMtu cfg udpMss v6 := by
    simp only [tunMtu, updatedMtu, if_pos h]
  rw [htun]
  generalize updatedMtu cfg udpMss v6 = mtu
  by_cases hoff : cfg.reorder.mode = .off
  · simp [hoff]
  · rw [if_pos hoff, floor6]
    have h8 : ((hdrLen : Nat) : Int) = 8 := rfl
    have hmin : ipv6MinMtu = 1280 := rfl
    split_ifs with hfloor
    · simp [hoff, hfloor.1]
    · simp only [hoff, false_or]
      constructor
      · intro he
        omega
      · rintro ⟨hv6, rfl⟩
        exact absurd ⟨hv6, by omega⟩ hfloor

/-- The framing leaves nothing of an empty datagram. -/
theorem Conn.udpMss_withMss (k : Conn) (cfg : Client.Config) (mss : Nat) :
    ({ k with dgramMss := mss } : Conn).udpMss cfg = cfg.udpMss mss k.masqueStreamId := by
  rw [Conn.udpMss]
  split_ifs with hpos
  · rfl
  · have hle := cfg.udpMss_le mss k.masqueStreamId
    change ¬0 < mss at hpos
    omega

theorem agrees_cbDgramMssUpdated_iff (c : Client) (k : Conn) (mss : Nat) :
    (c.cbDgramMssUpdated k mss).Agrees ↔ (c.tunActive = true →
      68 ≤ c.config.udpMss mss k.masqueStreamId →
      if updatedMtu c.config (c.config.udpMss mss k.masqueStreamId) k.addr6.isSome = c.lastNotifiedMtu then
        told c.trace = some (tunMtu c.config (c.config.udpMss mss k.masqueStreamId) k.addr6.isSome)
      else c.config.reorder.mode = .off ∨ (k.addr6.isSome = true ∧
        updatedMtu c.config (c.config.udpMss mss k.masqueStreamId) k.addr6.isSome = ipv6MinMtu)) := by
  have hconn : (c.cbDgramMssUpdated k mss).conn = some { k with dgramMss := mss } ∧
      (c.cbDgramMssUpdated k mss).config = c.config ∧
      (c.cbDgramMssUpdated k mss).tunActive = c.tunActive := by
    rw [cbDgramMssUpdated]
    dsimp only
    split_ifs <;> exact ⟨rfl, rfl, rfl⟩
  simp only [Agrees, hconn, Option.mem_some_iff, forall_eq', k.udpMss_withMss]
  refine imp_congr_right fun hactive => imp_congr_right fun hmss => ?_
  rw [cbDgramMssUpdated]
  dsimp only
  rw [if_pos ⟨hactive, hmss⟩]
  by_cases hlast :
      updatedMtu c.config (c.config.udpMss mss k.masqueStreamId) k.addr6.isSome = c.lastNotifiedMtu
  · rw [if_neg (not_not.2 hlast), if_pos hlast]
  · -- A new value is told: it is right if the two rules agree.
    rw [if_pos hlast, if_neg hlast, ← updatedMtu_eq_iff hmss]
    change told (c.trace ++ [_]) = _ ↔ _
    rw [told_append]
    exact Option.some_inj

/-- An update leaves the platform with the right MTU exactly if it fits. -/
theorem agrees_step_iff (c : Client) (s : Step) :
    (s.call.isMssUpdate → (c.step s).Agrees) ↔ c.MssFits s := by
  obtain ⟨nowUs, call⟩ := s
  cases call with
  | dgramMssUpdated mss =>
    simp only [Call.isMssUpdate, MssFits, true_imp_iff]
    cases hk : c.conn with
    | none =>
      have hstep : c.step ⟨nowUs, .dgramMssUpdated mss⟩ = c := by
        change c.callback _ = c
        rw [callback, hk]
      rw [hstep, Agrees, hk]
      simp
    | some k =>
      have hstep : c.step ⟨nowUs, .dgramMssUpdated mss⟩ = c.cbDgramMssUpdated k mss :=
        callback_some hk _
      rw [hstep, agrees_cbDgramMssUpdated_iff]
      simp only [Option.mem_some_iff, forall_eq']
  | _ => simp [Call.isMssUpdate, MssFits]

/-! ## Runs -/

/-- After every update of a run, the platform was last told the MTU of the set-up
    rule, and no packet within it is dropped for its size, exactly if every update
    fits. -/
theorem agrees_iff (cfg : Client.Config) (steps : List Step) :
    Along step (fun c s => s.call.isMssUpdate → (c.step s).Agrees ∧ (c.step s).Passes) (init cfg) steps ↔
      Along step (fun c s => c.MssFits s) (init cfg) steps := by
  refine along_congr (J := fun _ => True) (fun _ _ _ _ => trivial) ?_ trivial steps
  intro c s _
  rw [← agrees_step_iff]
  exact ⟨fun h hu => (h hu).1, fun h hu => ⟨h hu, (h hu).passes⟩⟩

/-- Reordering of the default configuration, with a small flow table. -/
def reorderConfig : Client.Config :=
  { sampleConfig with reorder := { Config.default with mode := .on, maxFlows := 1 } }

/-- The datagram MSS shrinks to 100 bytes while the tunnel is used, with a peer
    that reorders. -/
def shrunk : List Step :=
  sampleSetUp ++ [⟨6, .requestHeaders true true⟩, ⟨7, .setTunActive true⟩, ⟨8, .dgramMssUpdated 100⟩]

/-- A UDP packet of 98 bytes. -/
def fullPacket : Bytes :=
  [0x45, 0, 0, 98, 0, 0, 0, 0, 64, 17, 0, 0, 10, 0, 0, 2, 10, 0, 0, 1, 0, 7, 0, 9] ++ List.replicate 74 0

/-- The MSS grows while the tunnel is used; the same happens again after a
    reconnect. -/
def grownTwice : List Step :=
  sampleSetUp ++ [⟨6, .setTunActive true⟩, ⟨7, .dgramMssUpdated 1302⟩, ⟨8, .connClose⟩,
    ⟨10000000, .tickReconnect { h3Connect := some 1200 }⟩, ⟨10000001, .handshakeFinished 1202 (some 0)⟩,
    ⟨10000002, .requestHeaders true false⟩,
    ⟨10000003, .requestBody [.addressAssign [sampleAddress]] true⟩, ⟨10000004, .dgramMssUpdated 1302⟩]

/-- With reordering, the platform is told eight bytes too many, and a packet of
    that size is dropped. Without, it is not told of the second growth. -/
theorem not_agrees :
    (¬((init reorderConfig).run shrunk).Agrees ∧ told ((init reorderConfig).run shrunk).trace = some 98 ∧
      ∃ k ∈ ((init reorderConfig).run shrunk).conn,
        (k.decideLane reorderConfig 9 { pkt := fullPacket }).1 = .dropMtu) ∧
    ¬((init sampleConfig).run grownTwice).Agrees ∧
      told ((init sampleConfig).run grownTwice).trace = some 1200 :=
  ⟨⟨by decide, by decide, by decide +kernel⟩, by decide, by decide⟩

end Mqvpn.Client
