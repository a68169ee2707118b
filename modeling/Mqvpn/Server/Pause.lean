import Mqvpn.Server.Frame
import Mqvpn.Lib.Runs

/-!
# The pause of the tunnel

A datagram that gets EAGAIN pauses the reading of the tunnel, for all connections, until
any connection is told that datagrams may be written again. A pause is to go back to a
connection that is there and waits for that (`Recoverable`): once there is none, nobody
ends the pause. The end of a connection does not look at the pause. It is recoverable in
every run in which no connection ends as the last one that waits (`Attended`,
`recoverable_run`).
-/

namespace Mqvpn.Server

open Client Reorder Runs

variable {s s' : Server} {c : Nat} {k k' : Conn} {st : Step}

/-! ## Pauses -/

/-- The connection is there, and waits for datagrams to be writable again. -/
def Waits (s : Server) (c : Nat) : Prop := ∃ k ∈ s.conns[c]?, k.freed = false ∧ k.blocked = true

instance : Decidable (s.Waits c) := inferInstanceAs (Decidable (∃ k ∈ s.conns[c]?, _))

/-- If the tunnel is paused, there is a connection that waits. -/
def Recoverable (s : Server) : Prop := s.tunPaused = true → ∃ c ∈ List.range s.conns.length, s.Waits c

instance : Decidable s.Recoverable := inferInstanceAs (Decidable (_ → ∃ c ∈ List.range s.conns.length, _))

theorem Waits.lt (h : s.Waits c) : c < s.conns.length := by
  obtain ⟨k, hk, -⟩ := h
  exact (List.getElem?_eq_some_iff.1 hk).1

theorem recoverable_iff : s.Recoverable ↔ (s.tunPaused = true → ∃ c, s.Waits c) := by
  refine imp_congr_right fun _ => ⟨?_, ?_⟩
  · rintro ⟨c, -, hc⟩
    exact ⟨c, hc⟩
  · rintro ⟨c, hc⟩
    exact ⟨c, List.mem_range.2 hc.lt, hc⟩

/-! ## Calls that leave the pause alone -/

/-- There is no new pause, and who waits still does. -/
structure Calm (s s' : Server) : Prop where
  tunPaused : s'.tunPaused = true → s.tunPaused = true
  waits : ∀ c, s.Waits c → s'.Waits c

theorem Calm.recoverable (h : Calm s s') (hs : s.Recoverable) : s'.Recoverable := by
  rw [recoverable_iff] at hs ⊢
  intro hpaused
  obtain ⟨c, hc⟩ := hs (h.tunPaused hpaused)
  exact ⟨c, h.waits c hc⟩

theorem Calm.of_eq (hpaused : s'.tunPaused = s.tunPaused) (hconns : s'.conns = s.conns) : Calm s s' := by
  refine ⟨fun h => hpaused ▸ h, fun c hc => ?_⟩
  rw [Waits, hconns]
  exact hc

theorem Calm.refl (s : Server) : Calm s s := .of_eq rfl rfl

theorem Calm.trans {s'' : Server} (h : Calm s s') (h' : Calm s' s'') : Calm s s'' :=
  ⟨fun hp => h.tunPaused (h'.tunPaused hp), fun c hc => h'.waits c (h.waits c hc)⟩

/-- A connection is changed, but not in this. -/
theorem Calm.of_set (hk : s.conns[c]? = some k) (hpaused : s'.tunPaused = s.tunPaused)
    (hconns : s'.conns = s.conns.set c k') (hfreed : k'.freed = k.freed) (hblocked : k'.blocked = k.blocked) :
    Calm s s' := by
  refine ⟨fun h => hpaused ▸ h, ?_⟩
  rintro d ⟨l, hl, hopen, hwaits⟩
  rw [Waits, hconns]
  by_cases hd : d = c
  · subst hd
    cases hk.symm.trans hl
    exact ⟨k', getElem?_setConn_self hk, hfreed.trans hopen, hblocked.trans hwaits⟩
  · exact ⟨l, (getElem?_setConn_of_ne hd).trans hl, hopen, hwaits⟩

theorem Recoverable.setConn (h : s.Recoverable) (hk : s.conns[c]? = some k) (hfreed : k'.freed = k.freed)
    (hblocked : k'.blocked = k.blocked) : (s.setConn c k').Recoverable := by
  have hcalm : Calm s (s.setConn c k') := .of_set hk rfl rfl hfreed hblocked
  exact hcalm.recoverable h

theorem calm_append (s : Server) (k : Conn) : Calm s { s with conns := s.conns ++ [k] } := by
  refine ⟨id, ?_⟩
  rintro d ⟨l, hl, hwaits⟩
  have hlt : d < s.conns.length := (List.getElem?_eq_some_iff.1 hl).1
  exact ⟨l, (List.getElem?_append_left hlt).trans hl, hwaits⟩

theorem calm_request (hk : s.conns[c]? = some k) (r : Request) : Calm s (s.svrConnectIpOnRequest c k r) := by
  rw [svrConnectIpOnRequest]
  split
  · rw [svrMasqueSendResponse]
    split
    · dsimp only
      split
      · rw [establish]
        dsimp only
        split
        · rw [addSession]
          split
          · exact .of_set hk rfl rfl rfl rfl
          · exact .of_set hk rfl rfl rfl rfl
        · exact .of_set hk rfl rfl rfl rfl
      · exact .of_set hk rfl rfl rfl rfl
    · exact .of_set hk rfl rfl rfl rfl
  · exact .of_set hk rfl rfl rfl rfl

theorem calm_unpin (s : Server) (name : List Char) : Calm s (s.unpin name) := by
  rcases unpin_cases s name with ⟨h, -⟩ | ⟨i, pin, -, -, -, h⟩
  · rw [h]
    exact .refl s
  · rw [h]
    exact .of_eq rfl rfl

theorem calm_disconnect (s : Server) (name : List Char) : Calm s (s.disconnect name) := by
  refine ⟨id, ?_⟩
  rintro c ⟨k, hk, hopen, hwaits⟩
  rw [Waits, disconnect, List.getElem?_mapIdx, hk]
  refine ⟨_, rfl, ?_, ?_⟩ <;> dsimp only
  · split_ifs
    · exact hopen
    · exact hopen
  · split_ifs
    · exact hwaits
    · exact hwaits

theorem calm_removeUser (s : Server) (name : List Char) : Calm s (s.removeUser name) := by
  rw [removeUser]
  split
  · exact .refl s
  · split
    · exact .refl s
    · rename_i i _
      have hconfig : Calm s { s with config := { s.config with users := s.config.users.eraseIdx i } } :=
        .of_eq rfl rfl
      exact (hconfig.trans (calm_unpin _ name)).trans (calm_disconnect _ name)

theorem calm_setUserFixedIp (s : Server) (name ip : List Char) : Calm s (s.setUserFixedIp name ip) := by
  have hunpin := calm_unpin s name
  rw [setUserFixedIp]
  split
  · exact .refl s
  · split
    · exact .refl s
    · split
      · exact hunpin.trans (.of_eq rfl rfl)
      · split
        · exact .refl s
        · split
          · exact hunpin
          · rename_i hpin
            obtain ⟨-, rfl⟩ := pin_spec hpin
            exact hunpin.trans (.of_eq rfl rfl)

theorem calm_addUser (s : Server) (name key : List Char) : Calm s (s.addUser name key) := by
  rw [addUser]
  split
  · exact .refl s
  · split
    · exact .of_eq rfl rfl
    · split
      · exact .refl s
      · exact .of_eq rfl rfl

/-! ## Packets and the end of a connection -/

/-- A datagram of a connection that is there. -/
theorem Recoverable.sendDatagram (h : s.Recoverable) (hk : s.IsOpen c k) (nowUs : Nat) (t : TunPacket) (pk : TxPeek) :
    (s.sendDatagram c k nowUs t pk).1.Recoverable := by
  rw [Server.sendDatagram]
  split_ifs
  · exact h
  · exact h
  · exact h
  · cases t.send with
    | ok =>
      dsimp only
      exact h.setConn hk.1 rfl rfl
    | again =>
      -- The connection that pauses the tunnel waits.
      exact recoverable_iff.2 fun _ => ⟨c, { k with blocked := true }, getElem?_setConn_self hk.1, hk.2, rfl⟩
    | error => exact h

/-- The session that the packet is for, unless the tunnel is paused, is not one of a
    connection that is gone. -/
def Addressed (s : Server) (t : TunPacket) : Prop :=
  s.tunPaused = false → ∀ c ∈ s.target t.pkt, ∀ k ∈ s.conns[c]?, k.freed = false

theorem Recoverable.onTunPacket (h : s.Recoverable) (nowUs : Nat) {t : TunPacket} (haddr : s.Addressed t) :
    (s.onTunPacket nowUs t).1.Recoverable := by
  rw [Server.onTunPacket]
  split_ifs with hempty hnone hpaused
  · exact h
  · exact h
  · exact h
  · split
    · exact h
    · rename_i c hc
      split
      · exact h
      · rename_i k hk
        split_ifs
        · exact h
        · have hopen := haddr (by simpa using hpaused) c hc k hk
          generalize k.peek s.config nowUs t = r
          obtain ⟨go, pk, reorderTx⟩ := r
          have hset : (s.setConn c { k with reorderTx }).Recoverable :=
            h.setConn hk rfl rfl
          cases go with
          | true => exact hset.sendDatagram ⟨getElem?_setConn_self hk, hopen⟩ nowUs t pk
          | false => exact hset

/-- If the tunnel is paused and the connection waits, another one does. -/
def Replaced (s : Server) (c : Nat) : Prop :=
  s.tunPaused = true → s.Waits c → ∃ d ∈ List.range s.conns.length, d ≠ c ∧ s.Waits d

theorem Recoverable.cbH3ConnClose (h : s.Recoverable) (k : Conn) (hreplaced : s.Replaced c) :
    (s.cbH3ConnClose c k).Recoverable := by
  obtain ⟨hconns, -, hpaused⟩ := cbH3ConnClose_frame s c k
  rw [recoverable_iff, hpaused]
  intro hp
  obtain ⟨d, hd, hwaits⟩ : ∃ d, d ≠ c ∧ s.Waits d := by
    by_cases hself : s.Waits c
    · obtain ⟨d, -, hd⟩ := hreplaced hp hself
      exact ⟨d, hd⟩
    · obtain ⟨d, hd⟩ := recoverable_iff.1 h hp
      refine ⟨d, ?_, hd⟩
      rintro rfl
      exact hself hd
  refine ⟨d, ?_⟩
  rw [Waits, hconns, List.getElem?_set_ne hd.symm]
  exact hwaits

/-! ## Runs -/

/-- No connection ends as the last one that waits, and no packet is sent for one that is
    gone. -/
def Attended (s : Server) (st : Step) : Prop :=
  match st.call with
  | .connClose c => s.Replaced c
  | .onTunPacket t => s.Addressed t
  | _ => True

instance : Decidable (s.Replaced c) := inferInstanceAs (Decidable (_ → _ → ∃ d ∈ List.range s.conns.length, _))

instance (t : TunPacket) : Decidable (s.Addressed t) :=
  inferInstanceAs (Decidable (_ → ∀ c ∈ s.target t.pkt, ∀ k ∈ s.conns[c]?, _))

instance : Decidable (s.Attended st) :=
  match st with
  | ⟨_, .connClose c⟩ => inferInstanceAs (Decidable (s.Replaced c))
  | ⟨_, .onTunPacket t⟩ => inferInstanceAs (Decidable (s.Addressed t))
  | ⟨_, .connCreate _⟩ | ⟨_, .request _ _⟩ | ⟨_, .requestClose _⟩ | ⟨_, .dgramWrite _⟩
  | ⟨_, .dgramMssUpdated _ _⟩ | ⟨_, .addUser _ _⟩ | ⟨_, .removeUser _⟩
  | ⟨_, .setUserFixedIp _ _⟩ => inferInstanceAs (Decidable True)

theorem Recoverable.step (h : s.Recoverable) (st : Step) (ha : s.Attended st) : (s.step st).Recoverable := by
  obtain ⟨nowUs, call⟩ := st
  cases call with
  | connCreate reorderAlloc => exact (calm_append s _).recoverable h
  | connClose c => exact callback_rule h fun k _ => h.cbH3ConnClose k ha
  | request c r => exact callback_rule h fun k hk => (calm_request hk.1 r).recoverable h
  | requestClose c =>
    refine callback_rule h fun k hk => ?_
    rw [cbRequestClose]
    split_ifs
    · exact h
    · exact h.setConn hk.1 rfl rfl
  | dgramWrite c => exact callback_rule h fun k _ => recoverable_iff.2 Bool.noConfusion
  | dgramMssUpdated c mss =>
    exact callback_rule h fun k hk => h.setConn hk.1 rfl rfl
  | onTunPacket t => exact h.onTunPacket nowUs ha
  | addUser name key => exact (calm_addUser s name key).recoverable h
  | removeUser name => exact (calm_removeUser s name).recoverable h
  | setUserFixedIp name ip => exact (calm_setUserFixedIp s name ip).recoverable h

theorem recoverable_new {cfg : Config} (h : new cfg = some s) : s.Recoverable := by
  have hpaused : s.tunPaused = false := by
    refine new_induction (J := fun s => s.tunPaused = false) h (fun _ _ _ _ _ _ _ _ hp => hp) fun s u hs => ?_
    rcases reserve_cases s u with heq | ⟨off, -, heq⟩
    · rw [heq]
      exact hs
    · rw [heq]
      exact hs
  exact fun hp => absurd (hpaused.symm.trans hp) Bool.false_ne_true

/-- In every attended run, a pause goes back to a connection that is there and waits. -/
theorem recoverable_run {cfg : Config} (h : new cfg = some s) {steps : List Step} (ha : Along step Attended s steps) :
    (s.run steps).tunPaused = true → ∃ c k, (s.run steps).IsOpen c k ∧ k.blocked = true := by
  have hrec : (s.run steps).Recoverable :=
    foldl_of_along (J := Recoverable) (fun _ st hs => hs.step st) (recoverable_new h) ha
  intro hpaused
  obtain ⟨c, k, hk, hopen, hblocked⟩ := recoverable_iff.1 hrec hpaused
  exact ⟨c, k, ⟨hk, hopen⟩, hblocked⟩

/-- A packet for an address. -/
def packet (a b c d : UInt8) : Bytes :=
  [0x45, 0, 0, 20, 0, 0, 0, 0, 64, 17, 0, 0, 8, 8, 8, 8, a, b, c, d]

/-- Two users connect, a packet for one of them gets EAGAIN, and the other goes away. -/
def sampleAttended : List Step :=
  [⟨1, .connCreate true⟩, ⟨2, .request 0 alice⟩, ⟨3, .connCreate true⟩, ⟨4, .request 1 bob⟩,
    ⟨5, .onTunPacket { pkt := packet 10 0 0 5, send := .again }⟩, ⟨6, .connClose 1⟩]

theorem recoverable_run_sample :
    (sample.run sampleAttended).tunPaused = true ∧ ∃ c k, (sample.run sampleAttended).IsOpen c k ∧ k.blocked = true :=
  ⟨by decide +kernel, recoverable_run new_sample (by decide +kernel) (by decide +kernel)⟩

/-- The other way round: the user whose datagram got EAGAIN goes away. -/
def sampleStarved : List Step :=
  [⟨1, .connCreate true⟩, ⟨2, .request 0 alice⟩, ⟨3, .connCreate true⟩, ⟨4, .request 1 bob⟩,
    ⟨5, .onTunPacket { pkt := packet 10 0 0 5, send := .again }⟩, ⟨6, .connClose 0⟩]

/-- The tunnel stays paused for the user that is left, and nobody waits. -/
theorem not_recoverable :
    (sample.run sampleStarved).tunPaused = true ∧ (sample.run sampleStarved).sessions 2 = some 1 ∧
      ¬∃ c k, (sample.run sampleStarved).IsOpen c k ∧ k.blocked = true := by
  refine ⟨by decide +kernel, by decide +kernel, ?_⟩
  rintro ⟨c, k, ⟨hk, hopen⟩, hblocked⟩
  have hrec : (sample.run sampleStarved).Recoverable := recoverable_iff.2 fun _ => ⟨c, k, hk, hopen, hblocked⟩
  revert hrec
  decide +kernel

end Mqvpn.Server
