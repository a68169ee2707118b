import Mqvpn.Client.Transitions

/-!
# Backpressure

A datagram that meets EAGAIN sets the backpressure flag of the client, and the
client takes no packets from the tunnel until the connection reports that
datagrams may be written again. The flag should be that of the connection
(`Owned`), but it outlives it: a connection that closes while the flag is set
leaves it behind, and the next connection is refused its packets for an EAGAIN
that it never returned (`not_owned`). That is the only way: the flag is that of
the connection along the runs without such a close, and along no others
(`owned_iff`).
-/

namespace Mqvpn.Client

open Runs

/-- The flag is set only if the connection returned EAGAIN since it last reported
    that datagrams may be written. -/
def Owned (c : Client) : Prop := c.backpressure = true → ∃ k ∈ c.conn, k.blocked = true

instance (c : Client) : Decidable c.Owned := inferInstanceAs (Decidable (_ → _))

/-- The connection closes while the flag is set. -/
def ClosesBlocked (c : Client) (s : Step) : Prop :=
  s.call.isClose ∧ c.conn.isSome ∧ c.backpressure = true

instance (c : Client) (s : Step) : Decidable (c.ClosesBlocked s) := inferInstanceAs (Decidable (_ ∧ _))

variable {c d : Client} {nowUs : Nat}

namespace Owned

/-- The flag is as before, and the connection remembers its EAGAIN. -/
theorem of_conn {k k' : Conn} (h : c.Owned) (hk : c.conn = some k) (hd : d.conn = some k')
    (hb : d.backpressure = c.backpressure) (hkk : k'.blocked = k.blocked) : d.Owned := by
  intro hset
  rw [hb] at hset
  obtain ⟨k₀, hk₀, hblocked⟩ := h hset
  rw [hk] at hk₀
  cases hk₀
  exact ⟨k', hd, hkk.trans hblocked⟩

/-- The same, where the client need not have a connection. -/
theorem of_map {f : Conn → Conn} (h : c.Owned) (hd : d.conn = c.conn.map f)
    (hb : d.backpressure = c.backpressure) (hf : ∀ k, (f k).blocked = k.blocked) : d.Owned := by
  intro hset
  rw [hb] at hset
  obtain ⟨k, hk, hblocked⟩ := h hset
  refine ⟨f k, ?_, (hf k).trans hblocked⟩
  rw [hd, hk]
  rfl

theorem of_clear (hb : c.backpressure = false) : c.Owned := by
  intro hset
  rw [hb] at hset
  cases hset

theorem of_core (h : d.Owned) (he : c.core = d.core) : c.Owned := by
  have hcore : d.core.Owned := h.of_map rfl rfl fun _ => rfl
  rw [← he] at hcore
  intro hset
  obtain ⟨k, hk, hblocked⟩ := hcore hset
  obtain ⟨k', hk', rfl⟩ := Option.map_eq_some_iff.1 hk
  exact ⟨k', hk', hblocked⟩

theorem callback {f : Conn → Client} (h : c.Owned) (hf : ∀ k, c.conn = some k → (f k).Owned) :
    (c.callback f).Owned := by
  rw [Client.callback]
  split
  · rename_i k hk
    exact hf k hk
  · exact h

/-- Without a connection, the flag is clear. -/
theorem clear (h : c.Owned) (hk : c.conn = none) : c.backpressure = false := by
  by_contra hset
  obtain ⟨k, hk', -⟩ := h (by simpa using hset)
  rw [hk] at hk'
  cases hk'

end Owned

/-- A new connection is started by a client without one, and so with the flag
    clear. -/
theorem Owned.start {k : Conn} (h : c.Owned) (hv : c.Vacant) (hs : c.state = .idle ∨ c.state = .reconnecting) :
    ({ c with conn := some k }.setState nowUs .connecting).Owned := by
  refine Owned.of_clear ?_
  rw [backpressure_setState]
  exact h.clear (hv hs)

theorem owned_step (h : c.Owned) (hv : c.Vacant) {s : Step} (hc : ¬c.ClosesBlocked s) : (c.step s).Owned := by
  obtain ⟨nowUs, call⟩ := s
  cases call with
  | connect start =>
    rcases connect_cases nowUs c start with he | ⟨hvalid, k, -, he⟩
    · exact h.of_core he
    · refine (h.start hv ?_).of_core he
      cases hs : c.state <;> rw [hs] at hvalid <;> first | exact .inl rfl | exact .inr rfl | cases hvalid
  | disconnect =>
    change (c.disconnect nowUs).Owned
    rw [disconnect]
    split_ifs
    · exact h
    · exact h.of_map (conn_setState ..) (backpressure_setState ..) fun _ => rfl
  | removePath handle closed =>
    rcases core_removePath nowUs handle closed with he | he
    · exact h.of_core he
    · refine Owned.of_core ?_ he
      exact h.of_map rfl rfl fun _ => rfl
  | setTunActive active =>
    change (c.setTunActive nowUs active).Owned
    rw [setTunActive]
    dsimp only
    split_ifs
    · exact h.of_map (f := id) (by simp) (backpressure_setState ..) fun _ => rfl
    · exact h
  | onTunPacket t =>
    change (c.onTunPacket nowUs t).1.Owned
    rcases onTunPacket_cases nowUs c t with he | ⟨k, tx, hk, he | he⟩
    · rw [he]
      exact h
    · rw [he]
      exact h.of_conn hk rfl rfl rfl
    · -- EAGAIN: the flag and the memory of it are set together.
      rw [he]
      exact fun _ => ⟨_, rfl, rfl⟩
  | tickHandshakeWatchdog =>
    change (c.tickHandshakeWatchdog nowUs).Owned
    rcases tickHandshakeWatchdog_cases nowUs c with he | ⟨k, hk, he⟩ | ⟨hk, -, he⟩
    · rw [he]
      exact h
    · rw [he]
      exact h.of_conn hk rfl rfl rfl
    · refine Owned.of_core (Owned.of_clear ?_) he
      rw [backpressure_setState]
      exact h.clear hk
  | tickReconnect start =>
    rcases tickReconnect_cases nowUs c start with he | ⟨-, d, he⟩ | ⟨hs, k, -, he⟩
    · exact h.of_core he
    · exact Owned.of_core (show (c.emit (.reconnectScheduled d)).Owned from h) he
    · exact (h.start hv (.inr hs)).of_core he
  | handshakeFinished dgramMss streamId =>
    refine h.callback fun k hk => ?_
    exact h.of_conn hk (conn_setState ..) (backpressure_setState ..) rfl
  | requestHeaders ok reorder => exact h.callback fun k hk => h.of_conn hk rfl rfl rfl
  | requestBody capsules buffered =>
    refine h.callback fun k hk => ?_
    have hblocked : (k.processCapsules capsules).blocked = k.blocked := by
      obtain ⟨_, _, he⟩ := k.processCapsules_eq capsules
      rw [he]
    rcases connectIpOnBody_cases nowUs c k capsules buffered with he | ⟨-, -, info, -, he⟩
    · rw [he]
      exact h.of_conn hk rfl rfl hblocked
    · refine Owned.of_core ?_ he
      exact h.of_conn hk (conn_setState ..) (backpressure_setState ..) hblocked
  | requestClose => exact h.callback fun k hk => h.of_conn hk rfl rfl rfl
  | dgramWrite =>
    refine h.callback fun k hk => Owned.of_clear ?_
    rw [cbDgramWrite]
    dsimp only
    split_ifs with hb
    · rfl
    · simpa using hb
  | dgramMssUpdated mss =>
    refine h.callback fun k hk => ?_
    rw [cbDgramMssUpdated]
    dsimp only
    split_ifs <;> exact h.of_conn hk rfl rfl rfl
  | connClose =>
    refine h.callback fun k hk => Owned.of_clear ?_
    rw [backpressure_cbH3ConnClose]
    by_contra hset
    exact hc ⟨rfl, by rw [hk]; rfl, by simpa using hset⟩
  | _ => exact h.of_core (core_step trivial)

/-- A close with the flag set leaves it to no one. -/
theorem not_owned_step {s : Step} (hc : c.ClosesBlocked s) : ¬(c.step s).Owned := by
  obtain ⟨nowUs, call⟩ := s
  obtain ⟨hclose, hsome, hset⟩ := hc
  obtain ⟨k, hk⟩ := Option.isSome_iff_exists.1 hsome
  cases call with
  | connClose =>
    intro ho
    change (c.callback fun _ => c.cbH3ConnClose nowUs).Owned at ho
    rw [callback_some hk] at ho
    have hclear := ho.clear (conn_cbH3ConnClose ..)
    rw [backpressure_cbH3ConnClose, hset] at hclear
    cases hclear
  | _ => exact absurd hclose Bool.false_ne_true

/-! ## Runs -/

/-- The flag is that of the connection after every step of a run exactly if no
    connection closes while it is set. -/
theorem owned_iff (cfg : Client.Config) (steps : List Step) :
    Along step (fun c s => (c.step s).Owned) (init cfg) steps ↔
      Along step (fun c s => ¬c.ClosesBlocked s) (init cfg) steps := by
  refine (along_congr (J := fun c => c.Owned ∧ c.Vacant) ?_ ?_ ?_ steps).symm
  · intro c s h hc
    exact ⟨owned_step h.1 h.2 hc, vacant_step h.2 s⟩
  · intro c s h
    exact ⟨owned_step h.1 h.2, fun ho hc => not_owned_step hc ho⟩
  · exact ⟨Owned.of_clear rfl, fun _ => rfl⟩

/-- A packet of the assigned address. -/
def samplePacket : Reorder.Bytes := [0x45, 0, 0, 20, 0, 0, 0, 0, 64, 17, 0, 0, 10, 0, 0, 2, 10, 0, 0, 1]

/-- A datagram meets EAGAIN, the connection is lost, and the next one comes up. -/
def blockedAndBack : List Step :=
  sampleSetUp ++ [⟨6, .setTunActive true⟩, ⟨7, .onTunPacket { pkt := samplePacket, send := .again }⟩,
    ⟨8, .connClose⟩, ⟨10000000, .tickReconnect { h3Connect := some 1200 }⟩,
    ⟨10000001, .handshakeFinished 1202 (some 0)⟩, ⟨10000002, .requestHeaders true false⟩,
    ⟨10000003, .requestBody [.addressAssign [sampleAddress]] true⟩, ⟨10000004, .setTunActive true⟩]

/-- The new connection never returned EAGAIN, and its first packet is refused. -/
theorem not_owned :
    ¬((init sampleConfig).run blockedAndBack).Owned ∧
      (∃ k ∈ ((init sampleConfig).run blockedAndBack).conn, k.blocked = false) ∧
      (((init sampleConfig).run blockedAndBack).onTunPacket 10000005 { pkt := samplePacket }).2 = .again := by
  decide

end Mqvpn.Client
