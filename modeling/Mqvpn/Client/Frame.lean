import Mqvpn.Client.Model

/-!
# What a call leaves alone

The *core* of a client is what is left of it without its paths and the
bookkeeping of reconnects (`core`). The calls about paths keep the core
(`core_step`); the others are said once here to do what they do to the core, so
that the results that are not about paths need not look into them again.
-/

namespace Mqvpn.Client

open Mqvpn.Path Reorder

variable (c : Client) (nowUs : Nat) (new : State) (o : Output)

/-! ## State changes -/

@[simp]
theorem state_setState : (c.setState nowUs new).state = new := by
  rw [setState]
  split
  · assumption
  · rfl

@[simp]
theorem config_setState : (c.setState nowUs new).config = c.config := by
  rw [setState]
  split_ifs <;> rfl

@[simp]
theorem conn_setState : (c.setState nowUs new).conn = c.conn := by
  rw [setState]
  split_ifs <;> rfl

@[simp]
theorem paths_setState : (c.setState nowUs new).paths = c.paths := by
  rw [setState]
  split_ifs <;> rfl

@[simp]
theorem backpressure_setState : (c.setState nowUs new).backpressure = c.backpressure := by
  rw [setState]
  split_ifs <;> rfl

@[simp]
theorem shuttingDown_setState : (c.setState nowUs new).shuttingDown = c.shuttingDown := by
  rw [setState]
  split_ifs <;> rfl

/-- The client without its paths and the bookkeeping of reconnects. -/
def core : Client :=
  { c with
    paths := []
    nextPathHandle := 0
    multipathReady := false
    primaryPathIdx := 0
    reconnectAttempts := 0
    reconnectScheduledUs := 0
    connId := 0
    conn := c.conn.map fun k => { k with mp := {} } }

theorem core_emit : (c.emit o).core = c.core.emit o := rfl

theorem core_setState : (c.setState nowUs new).core = c.core.setState nowUs new := by
  by_cases h : c.state = new
  · rw [setState, if_pos h, setState, if_pos (show c.core.state = new from h)]
  · rw [setState, if_neg h, setState, if_neg (show c.core.state ≠ new from h)]
    rfl

/-! ## Calls about paths -/

/-- The call only changes paths. -/
def Call.OnPaths : Call → Prop
  | .addPathFd .. | .setPathWeight .. | .onPlatformPathDropped _ | .onPlatformFdClosed _
  | .reactivatePath .. | .tickPathRecovery .. | .readyToCreatePath _ | .pathRemoved _ => True
  | _ => False

variable {c}

theorem core_withPaths {k : Conn} (h : c.conn = some k) (r : List Entry × Mp) :
    (c.withPaths k r).core = c.core := by
  simp [core, withPaths, h]

theorem core_addPathFd (fd : Int) (desc : Option Desc) (xq : Xquic) :
    (c.addPathFd nowUs fd desc xq).core = c.core := by
  rw [addPathFd]
  split_ifs
  · rfl
  · split
    · rfl
    · dsimp only
      split
      · rename_i k hk
        split_ifs
        · exact core_withPaths hk _
        · rfl
      · rfl

theorem core_setPathWeight (handle : Int) (weight : Nat) : (c.setPathWeight handle weight).core = c.core := by
  rw [setPathWeight]
  split
  · rfl
  · dsimp only
    split
    · rename_i hk _
      split_ifs
      · simp [core, hk]
      · rfl
    · rfl

theorem core_reactivatePath (handle : Int) (xq : Xquic) :
    (c.reactivatePath nowUs handle xq).core = c.core := by
  rw [reactivatePath]
  split_ifs
  · rfl
  · split
    · rename_i hk
      split
      · rfl
      · split_ifs
        · exact core_withPaths hk _
        · rfl
    · rfl

theorem core_tickPathRecovery (validated : Nat → Bool) (xq : Xquic) :
    (c.tickPathRecovery nowUs validated xq).core = c.core := by
  rw [tickPathRecovery]
  split_ifs
  · rfl
  · split
    · rfl
    · rename_i hk
      exact core_withPaths hk _

/-- A check of the validations leaves all slots in a state of a validated path, or
    does nothing. -/
theorem checkAllValidations_cases (c : Client) (validated : Nat → Bool) :
    ∃ target, (target = Lifecycle.active ∨ target = .standby) ∧
      (c.checkAllValidations nowUs validated = c.paths.map (checkValidation nowUs target validated) ∨
        c.checkAllValidations nowUs validated = c.paths) := by
  rw [checkAllValidations]
  split_ifs
  · exact ⟨.standby, .inr rfl, .inl rfl⟩
  · exact ⟨.active, .inl rfl, .inl rfl⟩
  · exact ⟨.active, .inl rfl, .inr rfl⟩

theorem core_cbReadyToCreatePath {k : Conn} (h : c.conn = some k) (xq : Xquic) :
    (c.cbReadyToCreatePath k nowUs xq).core = c.core := by
  rw [cbReadyToCreatePath]
  dsimp only
  split_ifs
  · simp [core, withPaths, h]
  · rfl

/-- The rest of the client is as before. -/
theorem core_step {s : Step} (h : s.call.OnPaths) : (c.step s).core = c.core := by
  obtain ⟨nowUs, call⟩ := s
  cases call with
  | addPathFd fd desc xq => exact core_addPathFd ..
  | setPathWeight handle weight => exact core_setPathWeight ..
  | onPlatformPathDropped handle =>
    change (c.onPlatformPathDropped nowUs handle).core = c.core
    rw [onPlatformPathDropped]
    split <;> rfl
  | onPlatformFdClosed handle =>
    change (c.onPlatformFdClosed nowUs handle).core = c.core
    rw [onPlatformFdClosed]
    split <;> rfl
  | reactivatePath handle xq => exact core_reactivatePath ..
  | tickPathRecovery validated xq => exact core_tickPathRecovery ..
  | readyToCreatePath xq =>
    change (c.callback fun k => c.cbReadyToCreatePath k nowUs xq).core = c.core
    rw [callback]
    split
    · rename_i hk
      exact core_cbReadyToCreatePath nowUs hk xq
    · rfl
  | pathRemoved pathId =>
    change (c.callback fun _ => c.cbPathRemoved nowUs pathId).core = c.core
    rw [callback, cbPathRemoved]
    split
    · split <;> rfl
    · rfl
  | _ => exact absurd h not_false

/-- A removed path may take the connection with it. -/
theorem core_removePath (handle : Int) (closed : Bool) :
    (c.removePath nowUs handle closed).core = c.core ∨
      (c.removePath nowUs handle closed).core = { c with conn := c.conn.map Conn.close }.core := by
  rw [removePath]
  split
  · exact .inl rfl
  · split
    · exact .inl rfl
    · split_ifs
      · exact .inl rfl
      · dsimp only
        split_ifs
        · exact .inr rfl
        · exact .inl rfl

/-! ## Connections -/

theorem callback_some {k : Conn} (h : c.conn = some k) (f : Conn → Client) : c.callback f = f k := by
  rw [callback, h]

/-- The connection was just started. -/
def Conn.Fresh (k : Conn) : Prop := ∃ dgramMss reorderTx, k = { dgramMss, reorderTx }

/-- A start fails, or the primary path, which is ready, is that of the handshake
    of a new connection. -/
theorem startConnection_cases (c : Client) (start : Start) :
    c.startConnection nowUs start = (false, { c with connId := (c.connId + 1) % 2 ^ 32 }) ∨
      (∀ p ∈ c.paths[c.primaryPathIdx]?, p.Ready) ∧ ∃ k : Conn, k.Fresh ∧
        c.startConnection nowUs start = (true, { c with
          connId := (c.connId + 1) % 2 ^ 32
          paths := c.paths.modify c.primaryPathIdx (bootstrap nowUs)
          conn := some k }) := by
  rw [startConnection]
  dsimp only
  by_cases halloc : start.alloc = false
  · rw [if_pos halloc]
    exact .inl rfl
  · rw [if_neg halloc]
    by_cases hguard : ∃ p ∈ c.paths[c.primaryPathIdx]?, ¬p.Ready
    · rw [if_pos hguard]
      exact .inl rfl
    · rw [if_neg hguard]
      cases start.h3Connect with
      | none => exact .inl rfl
      | some dgramMss =>
        refine .inr ⟨fun p hp => ?_, _, ⟨_, _, rfl⟩, rfl⟩
        by_contra hr
        exact hguard ⟨p, hp, hr⟩

theorem connect_cases (c : Client) (start : Start) :
    (c.connect nowUs start).core = c.core ∨
      stateTransitions c.state .connecting = true ∧ ∃ k : Conn, k.Fresh ∧
        (c.connect nowUs start).core = ({ c with conn := some k }.setState nowUs .connecting).core := by
  rw [connect]
  split_ifs with hv
  · exact .inl rfl
  · rcases startConnection_cases nowUs c start with h | ⟨-, k, hk, h⟩
    · rw [h]
      exact .inl rfl
    · rw [h]
      refine .inr ⟨by simpa using hv, k, hk, ?_⟩
      rw [core_setState, core_setState]
      rfl

/-- A reconnect that is due either schedules the next one or starts a
    connection. -/
theorem tickReconnect_cases (c : Client) (start : Start) :
    (c.tickReconnect nowUs start).core = c.core ∨
      (c.state = .reconnecting ∧ ∃ d, (c.tickReconnect nowUs start).core = (c.emit (.reconnectScheduled d)).core) ∨
      c.state = .reconnecting ∧ ∃ k : Conn, k.Fresh ∧
        (c.tickReconnect nowUs start).core =
          ({ c with conn := some k }.setState nowUs .connecting).core := by
  rw [tickReconnect]
  split_ifs with hs
  · exact .inl rfl
  · exact .inl rfl
  · rcases startConnection_cases nowUs (c.prepareReconnect nowUs) start with h | ⟨-, k, hk, h⟩
    · rw [h]
      exact .inr (.inl ⟨not_not.1 fun hn => hs (.inl hn), _, rfl⟩)
    · rw [h]
      refine .inr (.inr ⟨not_not.1 fun hn => hs (.inl hn), k, hk, ?_⟩)
      rw [core_setState, core_setState]
      rfl

theorem cbH3ConnClose_cases (c : Client) :
    (c.shuttingDown = false ∧ c.config.reconnectEnable = true ∧ ∃ d, (c.cbH3ConnClose nowUs).core =
        ((({ c with conn := none }.emit .tunnelClosed).setState nowUs .reconnecting).emit
          (.reconnectScheduled d)).core) ∨
      (c.cbH3ConnClose nowUs).core =
        (({ c with conn := none }.emit .tunnelClosed).setState nowUs .closed).core := by
  rw [cbH3ConnClose]
  generalize hc : ({ c with conn := none } : Client).emit .tunnelClosed = c₁
  have hsame : c₁.shuttingDown = c.shuttingDown ∧ c₁.config = c.config := by
    subst hc
    exact ⟨rfl, rfl⟩
  split_ifs with h
  · refine .inl ⟨hsame.1 ▸ h.1, hsame.2 ▸ h.2, c₁.reconnectDelaySec, ?_⟩
    rw [core_emit, core_setState, core_emit, core_setState]
    rfl
  · exact .inr rfl

@[simp]
theorem conn_cbH3ConnClose (c : Client) : (c.cbH3ConnClose nowUs).conn = none := by
  rw [cbH3ConnClose]
  split_ifs
  · exact conn_setState ..
  · exact conn_setState ..

@[simp]
theorem backpressure_cbH3ConnClose (c : Client) :
    (c.cbH3ConnClose nowUs).backpressure = c.backpressure := by
  rw [cbH3ConnClose]
  split_ifs
  · exact backpressure_setState ..
  · exact backpressure_setState ..

/-- The watchdog closes the connection, or, without one, schedules a reconnect. -/
theorem tickHandshakeWatchdog_cases (c : Client) :
    c.tickHandshakeWatchdog nowUs = c ∨
      (∃ k, c.conn = some k ∧
        c.tickHandshakeWatchdog nowUs = { c with handshakeStartedUs := 0, conn := some k.close }) ∨
      (c.conn = none ∧ c.state = .connecting ∧ (c.tickHandshakeWatchdog nowUs).core =
        ({ c with handshakeStartedUs := 0 }.setState nowUs .reconnecting).core) := by
  rw [tickHandshakeWatchdog]
  by_cases hdown : c.shuttingDown
  · rw [if_pos hdown]
    exact .inl rfl
  · rw [if_neg hdown]
    by_cases hstalled : c.HandshakeStalled nowUs
    · rw [if_neg (not_not.2 hstalled)]
      refine .inr ?_
      cases hk : c.conn with
      | some k => exact .inl ⟨k, rfl, rfl⟩
      | none =>
        refine .inr ⟨rfl, hstalled.1, ?_⟩
        rw [core_setState, core_setState]
        rfl
    · rw [if_pos hstalled]
      exact .inl rfl

theorem Conn.assign_eq (k : Conn) (a : Assigned) : ∃ addr addr6, k.assign a = { k with addr, addr6 } := by
  rw [Conn.assign]
  split_ifs
  · exact ⟨_, _, rfl⟩
  · exact ⟨_, _, rfl⟩
  · exact ⟨_, _, rfl⟩

/-- Capsules change the addresses of a connection only. -/
theorem Conn.processCapsules_eq (k : Conn) (capsules : List Capsule) :
    ∃ addr addr6, k.processCapsules capsules = { k with addr, addr6 } := by
  induction capsules generalizing k with
  | nil => exact ⟨_, _, rfl⟩
  | cons capsule rest ih =>
    match capsule with
    | .addressAssign entries =>
      have hentries : ∃ addr addr6, entries.foldl Conn.assign k = { k with addr, addr6 } := by
        refine List.foldlRecOn (motive := fun k' : Conn => ∃ addr addr6, k' = { k with addr, addr6 })
          entries Conn.assign ⟨_, _, rfl⟩ fun k' hk' a _ => ?_
        obtain ⟨_, _, rfl⟩ := hk'
        exact Conn.assign_eq _ a
      obtain ⟨_, _, hk'⟩ := hentries
      rw [Conn.processCapsules, hk']
      exact ih _
    | .routeAdvertisement true => exact ih k
    | .routeAdvertisement false => exact ⟨_, _, rfl⟩
    | .other => exact ih k

/-- A response body assigns addresses to the connection, and in the right state
    sets up the tunnel. -/
theorem connectIpOnBody_cases (c : Client) (k : Conn) (capsules : List Capsule) (buffered : Bool) :
    c.connectIpOnBody k nowUs capsules buffered = { c with conn := some (k.processCapsules capsules) } ∨
      c.state ≠ .established ∧ c.state ≠ .tunnelReady ∧ ∃ info : TunnelInfo,
        info.mtu = tunMtu c.config ((k.processCapsules capsules).udpMss c.config)
          (k.processCapsules capsules).addr6.isSome ∧
        (c.connectIpOnBody k nowUs capsules buffered).core =
          (({ c with conn := some (k.processCapsules capsules), mtu := info.mtu }.setState nowUs
            .tunnelReady).emit (.tunnelConfigReady info)).core := by
  rw [connectIpOnBody]
  generalize k.processCapsules capsules = k'
  cases k'.addr with
  | none => exact .inl rfl
  | some addr =>
    dsimp only
    split_ifs with h
    · refine .inr ⟨h.2.1, h.2.2, k'.tunnelInfo addr _, rfl, ?_⟩
      rw [core_emit, core_setState]
      change Client.core (Client.emit (Client.setState _ nowUs _) _) = _
      rw [core_emit, core_setState]
      rfl
    · exact .inl rfl

/-! ## Packets -/

theorem sendDatagram_cases (c : Client) {k : Conn} (hk : c.conn = some k) (t : TunPacket) (pk : TxPeek) :
    (∃ tx, (c.sendDatagram k nowUs t pk).1 = { c with conn := some { k with reorderTx := tx } }) ∨
      (c.sendDatagram k nowUs t pk).1 =
        { c with backpressure := true, conn := some { k with blocked := true } } := by
  have hsame : c = { c with conn := some { k with reorderTx := k.reorderTx } } := by
    rw [← hk]
  rw [sendDatagram]
  split_ifs
  · exact .inl ⟨_, hsame⟩
  · exact .inl ⟨_, hsame⟩
  · split
    · exact .inr rfl
    · exact .inl ⟨_, hsame⟩
    · exact .inl ⟨_, rfl⟩

/-- A packet may change the reorder sender of the connection; where it meets
    EAGAIN, it sets the backpressure flag. -/
theorem onTunPacket_cases (c : Client) (t : TunPacket) :
    (c.onTunPacket nowUs t).1 = c ∨
      ∃ k tx, c.conn = some k ∧
        ((c.onTunPacket nowUs t).1 = { c with conn := some { k with reorderTx := tx } } ∨
          (c.onTunPacket nowUs t).1 =
            { c with backpressure := true, conn := some { k with reorderTx := tx, blocked := true } }) := by
  rw [onTunPacket]
  by_cases hlen : t.pkt.length = 0
  · rw [if_pos hlen]
    exact .inl rfl
  · rw [if_neg hlen]
    cases hk : c.conn with
    | none => exact .inl rfl
    | some k =>
      dsimp only
      split_ifs
      · exact .inl rfl
      · exact .inl rfl
      · exact .inl rfl
      · exact .inl rfl
      · rcases sendDatagram_cases nowUs
            { c with conn := some { k with reorderTx := (k.decideLane c.config nowUs t).2.2 } } rfl t
            (k.decideLane c.config nowUs t).2.1 with ⟨tx, h⟩ | h
        · exact .inr ⟨k, tx, rfl, .inl h⟩
        · exact .inr ⟨k, _, rfl, .inr h⟩
      · exact .inr ⟨k, _, rfl, .inl rfl⟩

/-! ## Clients without a connection -/

/-- Before a connection is started, there is none. -/
def Vacant (c : Client) : Prop := c.state = .idle ∨ c.state = .reconnecting → c.conn = none

namespace Vacant

theorem of_core {d : Client} (h : d.Vacant) (he : c.core = d.core) : c.Vacant := by
  intro hs
  have hd : d.core.conn = none := by
    change d.conn.map _ = none
    rw [h (by rw [show d.state = c.state from (congrArg Client.state he).symm]; exact hs)]
    rfl
  rw [← he] at hd
  exact Option.map_eq_none_iff.1 hd

/-- With a connection, the client is past the states before one. -/
theorem of_state {d : Client} {k : Conn} (h : c.Vacant) (hk : c.conn = some k) (hs : d.state = c.state) :
    d.Vacant := by
  intro hd
  rw [hs] at hd
  rw [h hd] at hk
  cases hk

theorem setState {new : State} (h : new = .reconnecting → c.conn = none) (hn : new ≠ .idle) :
    (c.setState nowUs new).Vacant := by
  intro hs
  rw [state_setState] at hs
  rw [conn_setState]
  exact h (hs.resolve_left hn)

theorem callback {f : Conn → Client} (h : c.Vacant) (hf : ∀ k, c.conn = some k → (f k).Vacant) :
    (c.callback f).Vacant := by
  rw [Client.callback]
  split
  · rename_i k hk
    exact hf k hk
  · exact h

end Vacant

theorem vacant_step (h : c.Vacant) (s : Step) : (c.step s).Vacant := by
  obtain ⟨nowUs, call⟩ := s
  cases call with
  | connect start =>
    rcases connect_cases nowUs c start with he | ⟨-, k, -, he⟩
    · exact h.of_core he
    · exact Vacant.of_core (Vacant.setState nowUs (by simp) (by simp)) he
  | disconnect =>
    change (c.disconnect nowUs).Vacant
    rw [disconnect]
    split_ifs
    · exact h
    · exact Vacant.setState nowUs (by simp) (by simp)
  | removePath handle closed =>
    rcases core_removePath nowUs handle closed with he | he
    · exact h.of_core he
    · refine Vacant.of_core (fun hs => ?_) he
      change c.conn.map Conn.close = none
      rw [h hs]
      rfl
  | setTunActive active =>
    change (c.setTunActive nowUs active).Vacant
    rw [setTunActive]
    dsimp only
    split_ifs
    · exact Vacant.setState nowUs (by simp) (by simp)
    · exact h
  | onTunPacket t =>
    change (c.onTunPacket nowUs t).1.Vacant
    rcases onTunPacket_cases nowUs c t with he | ⟨k, tx, hk, he | he⟩
    · rw [he]
      exact h
    · rw [he]
      exact h.of_state hk rfl
    · rw [he]
      exact h.of_state hk rfl
  | tickHandshakeWatchdog =>
    change (c.tickHandshakeWatchdog nowUs).Vacant
    rcases tickHandshakeWatchdog_cases nowUs c with he | ⟨k, hk, he⟩ | ⟨hk, -, he⟩
    · rw [he]
      exact h
    · rw [he]
      exact h.of_state hk rfl
    · refine Vacant.of_core ?_ he
      exact Vacant.setState nowUs (fun _ => hk) (by simp)
  | tickReconnect start =>
    rcases tickReconnect_cases nowUs c start with he | ⟨-, d, he⟩ | ⟨-, k, -, he⟩
    · exact h.of_core he
    · exact Vacant.of_core (show (c.emit (.reconnectScheduled d)).Vacant from h) he
    · exact Vacant.of_core (Vacant.setState nowUs (by simp) (by simp)) he
  | handshakeFinished dgramMss streamId => exact h.callback fun k _ => Vacant.setState nowUs (by simp) (by simp)
  | requestBody capsules buffered =>
    refine h.callback fun k hk => ?_
    rcases connectIpOnBody_cases nowUs c k capsules buffered with he | ⟨-, -, info, -, he⟩
    · rw [he]
      exact h.of_state hk rfl
    · refine Vacant.of_core ?_ he
      exact Vacant.setState nowUs (by simp) (by simp)
  | requestHeaders ok reorder => exact h.callback fun k hk => h.of_state hk rfl
  | requestClose => exact h.callback fun k hk => h.of_state hk rfl
  | dgramWrite =>
    refine h.callback fun k hk => h.of_state hk ?_
    rw [cbDgramWrite]
    dsimp only
    split_ifs <;> rfl
  | dgramMssUpdated mss =>
    refine h.callback fun k hk => h.of_state hk ?_
    rw [cbDgramMssUpdated]
    dsimp only
    split_ifs <;> rfl
  | connClose =>
    refine h.callback fun k _ => ?_
    rcases cbH3ConnClose_cases nowUs c with ⟨-, -, d, he⟩ | he
    · refine Vacant.of_core ?_ he
      exact Vacant.setState nowUs (fun _ => rfl) (by simp)
    · refine Vacant.of_core ?_ he
      exact Vacant.setState nowUs (fun _ => rfl) (by simp)
  | _ => exact h.of_core (core_step trivial)

/-! ## Calls that are not about paths -/

/-- The paths are as before, and so is what xquic knows of them, if there still is
    a connection. -/
structure KeepsPaths (c d : Client) : Prop where
  paths : d.paths = c.paths
  mp : ∀ k' ∈ d.conn, ∃ k ∈ c.conn, k'.mp = k.mp
  idle : d.state = .idle → c.state = .idle

/-- The call is not about paths. The response body is left out: the set-up of the
    tunnel validates the primary path. -/
def Call.OffPaths : Call → Prop
  | .disconnect | .setTunActive _ | .onTunPacket _ | .tickHandshakeWatchdog | .handshakeFinished ..
  | .requestHeaders .. | .requestClose | .dgramWrite | .dgramMssUpdated _ | .connClose => True
  | _ => False

namespace KeepsPaths

variable {d : Client}

theorem refl (c : Client) : KeepsPaths c c := ⟨rfl, fun k hk => ⟨k, hk, rfl⟩, id⟩

theorem of_conn {k k' : Conn} (hk : c.conn = some k) (hd : d.conn = some k') (hmp : k'.mp = k.mp)
    (hp : d.paths = c.paths) (hs : d.state = c.state) : KeepsPaths c d := by
  refine ⟨hp, fun k₀ hk₀ => ⟨k, hk, ?_⟩, fun h => hs ▸ h⟩
  rw [hd] at hk₀
  cases hk₀
  exact hmp

theorem setState (h : KeepsPaths c d) (new : State) (hn : new ≠ .idle) :
    KeepsPaths c (d.setState nowUs new) := by
  refine ⟨(paths_setState ..).trans h.paths, ?_, fun hs => ?_⟩
  · rw [conn_setState]
    exact h.mp
  · rw [state_setState] at hs
    exact absurd hs hn

theorem callback {f : Conn → Client} (hf : ∀ k, c.conn = some k → KeepsPaths c (f k)) :
    KeepsPaths c (c.callback f) := by
  rw [Client.callback]
  split
  · rename_i k hk
    exact hf k hk
  · exact refl c

end KeepsPaths

theorem keepsPaths_step {s : Step} (h : s.call.OffPaths) : KeepsPaths c (c.step s) := by
  obtain ⟨nowUs, call⟩ := s
  cases call with
  | disconnect =>
    change KeepsPaths c (c.disconnect nowUs)
    rw [disconnect]
    split_ifs
    · exact .refl c
    · refine KeepsPaths.setState nowUs ?_ .closed (by simp)
      refine ⟨rfl, fun k' hk' => ?_, id⟩
      obtain ⟨k, hk, rfl⟩ := Option.map_eq_some_iff.1 hk'
      exact ⟨k, hk, rfl⟩
  | setTunActive active =>
    change KeepsPaths c (c.setTunActive nowUs active)
    rw [setTunActive]
    dsimp only
    split_ifs
    · refine KeepsPaths.setState nowUs ?_ .established (by simp)
      exact ⟨rfl, (KeepsPaths.refl c).mp, id⟩
    · exact ⟨rfl, (KeepsPaths.refl c).mp, id⟩
  | onTunPacket t =>
    change KeepsPaths c (c.onTunPacket nowUs t).1
    rcases onTunPacket_cases nowUs c t with he | ⟨k, tx, hk, he | he⟩
    · rw [he]
      exact .refl c
    · rw [he]
      exact .of_conn hk rfl rfl rfl rfl
    · rw [he]
      exact .of_conn hk rfl rfl rfl rfl
  | tickHandshakeWatchdog =>
    change KeepsPaths c (c.tickHandshakeWatchdog nowUs)
    rw [tickHandshakeWatchdog]
    split_ifs
    · exact .refl c
    · dsimp only
      split
      · rename_i k hk
        exact .of_conn hk rfl rfl rfl rfl
      · refine KeepsPaths.setState nowUs ?_ .reconnecting (by simp)
        exact ⟨rfl, (KeepsPaths.refl c).mp, id⟩
    · exact .refl c
  | handshakeFinished dgramMss streamId =>
    refine KeepsPaths.callback fun k hk => ?_
    refine KeepsPaths.setState nowUs ?_ .authenticating (by simp)
    exact .of_conn hk rfl rfl rfl rfl
  | requestHeaders ok reorder => exact KeepsPaths.callback fun k hk => .of_conn hk rfl rfl rfl rfl
  | requestClose => exact KeepsPaths.callback fun k hk => .of_conn hk rfl rfl rfl rfl
  | dgramWrite =>
    refine KeepsPaths.callback fun k hk => ?_
    rw [cbDgramWrite]
    dsimp only
    split_ifs
    · exact .of_conn hk rfl rfl rfl rfl
    · exact .of_conn hk rfl rfl rfl rfl
  | dgramMssUpdated mss =>
    refine KeepsPaths.callback fun k hk => ?_
    rw [cbDgramMssUpdated]
    dsimp only
    split_ifs
    · exact .of_conn hk rfl rfl rfl rfl
    · exact .of_conn hk rfl rfl rfl rfl
    · exact .of_conn hk rfl rfl rfl rfl
  | connClose =>
    refine KeepsPaths.callback fun k _ => ?_
    rw [cbH3ConnClose]
    have hgone : KeepsPaths c ({ c with conn := none }.emit .tunnelClosed) := ⟨rfl, by simp [emit], id⟩
    split_ifs
    · have harmed : KeepsPaths c (({ c with conn := none }.emit .tunnelClosed).armReconnectTimer nowUs) :=
        ⟨hgone.paths, hgone.mp, hgone.idle⟩
      have hwaits := harmed.setState nowUs .reconnecting (by simp)
      exact ⟨hwaits.paths, hwaits.mp, hwaits.idle⟩
    · exact hgone.setState nowUs .closed (by simp)
  | _ => exact absurd h not_false

/-- The response body keeps the paths, but for the primary one, which the set-up
    of the tunnel validates. -/
theorem keepsPaths_connectIpOnBody {k : Conn} (hk : c.conn = some k) (capsules : List Capsule)
    (buffered : Bool) :
    KeepsPaths c (c.connectIpOnBody k nowUs capsules buffered) ∨
      KeepsPaths { c with paths := c.paths.modify c.primaryPathIdx (validatePrimary nowUs) }
        (c.connectIpOnBody k nowUs capsules buffered) := by
  have hmp : (k.processCapsules capsules).mp = k.mp := by
    obtain ⟨_, _, he⟩ := k.processCapsules_eq capsules
    rw [he]
  rw [connectIpOnBody]
  generalize k.processCapsules capsules = k' at hmp
  cases k'.addr with
  | none => exact .inl (.of_conn hk rfl hmp rfl rfl)
  | some addr =>
    dsimp only
    split_ifs
    · refine .inr ?_
      have hconn : KeepsPaths { c with paths := c.paths.modify c.primaryPathIdx (validatePrimary nowUs) }
          { c with
            conn := some k'
            mtu := tunMtu c.config (k'.udpMss c.config) k'.addr6.isSome
            paths := c.paths.modify c.primaryPathIdx (validatePrimary nowUs) } :=
        .of_conn hk rfl hmp rfl rfl
      have hready := hconn.setState nowUs .tunnelReady (by simp)
      exact ⟨hready.paths, hready.mp, hready.idle⟩
    · exact .inl (.of_conn hk rfl hmp rfl rfl)

end Mqvpn.Client
