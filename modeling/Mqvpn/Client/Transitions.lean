import Mqvpn.Client.Frame
import Mqvpn.Lib.Runs

/-!
# The state machine of the client

`client_set_state` asserts that its transition is one of the table. Its callers do
not look at the table; they rely on the order in which a connection calls back
(`Orderly`), which ties the state of the client to the phase of its connection
(`Phase`).

One transition escapes: a connection that closes between the set-up of the tunnel
and its use asks for TUNNEL_READY to RECONNECTING, which the table does not have
(`not_legal_close`). In runs without such a close (`ClosesReady`) every transition
is one of the table (`legal_run`).

In every run, the platform hears of RECONNECTING before it hears that a reconnect is
scheduled (`tidy_run`).
-/

namespace Mqvpn.Client

open Runs

/-- The assertion of `client_set_state`, for a change that it announced. -/
def Output.Legal : Output → Prop
  | .stateChanged old new => stateTransitions old new = true
  | .tunnelConfigReady _ | .tunnelClosed | .readyForTun | .mtuUpdated _ | .reconnectScheduled _ => True

instance : ∀ o : Output, Decidable o.Legal
  | .stateChanged old new => inferInstanceAs (Decidable (stateTransitions old new = true))
  | .tunnelConfigReady _ | .tunnelClosed | .readyForTun | .mtuUpdated _ | .reconnectScheduled _ =>
    .isTrue trivial

/-- The handshake is reported as finished. -/
def Call.isHandshake : Call → Bool
  | .handshakeFinished .. => true
  | _ => false

/-- A part of the response to the request is reported. -/
def Call.isResponse : Call → Bool
  | .requestHeaders .. | .requestBody .. => true
  | _ => false

/-- The connection is reported as closed. -/
def Call.isClose : Call → Bool
  | .connClose => true
  | _ => false

/-- The order in which a connection calls back: its handshake finishes once, its
    request is answered after that, and neither happens once the client closed it. -/
def Orderly (c : Client) (s : Step) : Prop :=
  (s.call.isHandshake → ∀ k ∈ c.conn, k.handshaken = false ∧ k.closing = false) ∧
    (s.call.isResponse → ∀ k ∈ c.conn, k.handshaken = true ∧ k.closing = false)

instance (c : Client) (s : Step) : Decidable (c.Orderly s) := inferInstanceAs (Decidable (_ ∧ _))

/-- The connection closes after the tunnel was set up and before it is used, and
    the client is to reconnect. -/
def ClosesReady (c : Client) (s : Step) : Prop :=
  s.call.isClose ∧ c.conn.isSome ∧ c.state = .tunnelReady ∧ c.config.reconnectEnable ∧
    c.shuttingDown = false

instance (c : Client) (s : Step) : Decidable (c.ClosesReady s) := inferInstanceAs (Decidable (_ ∧ _))

/-- The connection, the state and the shutdown flag of a client go together. -/
inductive Phase : Option Conn → State → Bool → Prop
  | idle : Phase none .idle false
  | waiting : Phase none .reconnecting false
  | gone (down : Bool) : Phase none .closed down
  | connecting {k : Conn} : k.handshaken = false → Phase (some k) .connecting false
  | secured {k : Conn} {s : State} : k.handshaken = true →
      s = .authenticating ∨ s = .tunnelReady ∨ s = .established → Phase (some k) s false
  | closing {k : Conn} : k.closing = true → Phase (some k) .closed true

/-- What holds of a client in an orderly run. -/
structure Regular (c : Client) : Prop where
  legal : ∀ o ∈ c.trace, o.Legal
  started : c.handshakeStartedUs ≠ 0 → c.state = .connecting
  phase : Phase c.conn c.state c.shuttingDown

variable {c : Client} {nowUs : Nat}

/-- A phase depends on two flags of the connection only. -/
theorem Phase.imp {k k' : Conn} {s : State} {down : Bool} (h : Phase (some k) s down)
    (hh : k'.handshaken = k.handshaken) (hc : k.closing = true → k'.closing = true) :
    Phase (some k') s down := by
  cases h with
  | connecting h => exact .connecting (hh.trans h)
  | secured h hs => exact .secured (hh.trans h) hs
  | closing h => exact .closing (hc h)

theorem phase_mp {k : Option Conn} {s : State} {down : Bool} :
    Phase (k.map fun k => { k with mp := {} }) s down ↔ Phase k s down := by
  cases k with
  | none => rfl
  | some k => exact ⟨fun h => h.imp rfl id, fun h => h.imp rfl id⟩

theorem regular_core : c.core.Regular ↔ c.Regular :=
  ⟨fun h => ⟨h.legal, h.started, phase_mp.1 h.phase⟩, fun h => ⟨h.legal, h.started, phase_mp.2 h.phase⟩⟩

theorem Regular.of_core {d : Client} (h : d.Regular) (he : c.core = d.core) : c.Regular :=
  regular_core.1 (he ▸ regular_core.2 h)

theorem Regular.emit {o : Output} (h : c.Regular) (ho : o.Legal) : (c.emit o).Regular := by
  refine ⟨fun o' ho' => ?_, h.started, h.phase⟩
  rcases List.mem_append.1 ho' with ho' | ho'
  · exact h.legal o' ho'
  · rw [List.mem_singleton.1 ho']
    exact ho

/-- A change of state is regular if the table has it and it fits the phase. -/
theorem regular_setState {new : State} (hl : ∀ o ∈ c.trace, o.Legal)
    (hs : c.handshakeStartedUs ≠ 0 → c.state = .connecting)
    (hv : c.state = new ∨ stateTransitions c.state new = true)
    (hp : Phase c.conn new c.shuttingDown) : (c.setState nowUs new).Regular := by
  by_cases hsame : c.state = new
  · rw [setState, if_pos hsame]
    exact ⟨hl, hs, hsame ▸ hp⟩
  · have hvalid := hv.resolve_left hsame
    rw [setState, if_neg hsame]
    refine ⟨fun o ho => ?_, fun hstarted => ?_, hp⟩
    · rcases List.mem_append.1 ho with ho | ho
      · exact hl o ho
      · rw [List.mem_singleton.1 ho]
        exact hvalid
    · change (if new = .connecting then nowUs else if c.state = .connecting then 0
        else c.handshakeStartedUs) ≠ 0 at hstarted
      change new = .connecting
      by_contra hn
      rw [if_neg hn] at hstarted
      split_ifs at hstarted with hc
      · exact hstarted rfl
      · exact hc (hs hstarted)

/-- The connection changes in fields that the phase does not look at, or the
    client closes it. -/
theorem Regular.withConn {k k' : Conn} (h : c.Regular) (hk : c.conn = some k)
    (hh : k'.handshaken = k.handshaken) (hc : k.closing = true → k'.closing = true) :
    ({ c with conn := some k' } : Client).Regular := by
  have hp := h.phase
  rw [hk] at hp
  exact ⟨h.legal, h.started, hp.imp hh hc⟩

theorem Regular.closeConn (h : c.Regular) : ({ c with conn := c.conn.map Conn.close } : Client).Regular := by
  cases hk : c.conn with
  | none =>
    have hp := h.phase
    rw [hk] at hp
    exact ⟨h.legal, h.started, hp⟩
  | some k => exact h.withConn hk rfl fun _ => rfl

/-! ## Steps -/

/-- A connection is started in a state without one. -/
theorem Regular.start {k : Conn} (h : c.Regular) (hv : stateTransitions c.state .connecting = true)
    (hk : k.Fresh) : ({ c with conn := some k }.setState nowUs .connecting).Regular := by
  obtain ⟨dgramMss, reorderTx, rfl⟩ := hk
  have hdown : c.shuttingDown = false := by
    have hp := h.phase
    generalize c.conn = k at hp
    generalize c.shuttingDown = down at hp
    generalize c.state = s at hp hv
    cases hp with
    | gone => exact absurd hv (by decide)
    | closing => exact absurd hv (by decide)
    | _ => rfl
  refine regular_setState h.legal h.started (.inr hv) ?_
  change Phase _ _ c.shuttingDown
  rw [hdown]
  exact .connecting rfl

theorem Regular.connect (h : c.Regular) (start : Start) : (c.connect nowUs start).Regular := by
  rcases connect_cases nowUs c start with he | ⟨hv, k, hk, he⟩
  · exact h.of_core he
  · exact (h.start hv hk).of_core he

theorem Regular.tickReconnect (h : c.Regular) (start : Start) : (c.tickReconnect nowUs start).Regular := by
  rcases tickReconnect_cases nowUs c start with he | ⟨-, d, he⟩ | ⟨hs, k, hk, he⟩
  · exact h.of_core he
  · exact (h.emit (o := .reconnectScheduled d) trivial).of_core he
  · exact (h.start (by rw [hs]; rfl) hk).of_core he

/-- Every state but IDLE may be left for CLOSED. -/
theorem stateTransitions_closed {s : State} (h : s ≠ .idle) : s = .closed ∨ stateTransitions s .closed = true := by
  cases s with
  | idle => exact absurd rfl h
  | closed => exact .inl rfl
  | _ => exact .inr rfl

theorem Regular.disconnect (h : c.Regular) : (c.disconnect nowUs).Regular := by
  rw [Client.disconnect]
  split_ifs with hs
  · exact h
  · have hidle : c.state ≠ .idle := fun hi => hs (.inr hi)
    refine regular_setState h.legal h.started (stateTransitions_closed hidle) ?_
    change Phase (c.conn.map Conn.close) .closed true
    cases c.conn with
    | none => exact .gone true
    | some k => exact .closing rfl

theorem Regular.tickHandshakeWatchdog (h : c.Regular) : (c.tickHandshakeWatchdog nowUs).Regular := by
  rcases tickHandshakeWatchdog_cases nowUs c with he | ⟨k, hk, he⟩ | ⟨hk, hs, -⟩
  · rw [he]
    exact h
  · rw [he]
    have hclose : ({ c with conn := some k.close } : Client).Regular := h.withConn hk rfl fun _ => rfl
    exact ⟨hclose.legal, fun hn => absurd rfl hn, hclose.phase⟩
  · -- A client that connects has a connection.
    have hp := h.phase
    rw [hk, hs] at hp
    cases hp

theorem Regular.setTunActive (h : c.Regular) (active : Bool) : (c.setTunActive nowUs active).Regular := by
  rw [Client.setTunActive]
  dsimp only
  split_ifs with hs
  · refine regular_setState h.legal h.started (.inr (by rw [hs.2]; rfl)) ?_
    have hp := h.phase
    change Phase c.conn .established c.shuttingDown
    rw [hs.2] at hp
    generalize c.conn = k at hp
    generalize c.shuttingDown = down at hp
    cases hp with
    | secured hh _ => exact .secured hh (.inr (.inr rfl))
  · exact ⟨h.legal, h.started, h.phase⟩

theorem Regular.onTunPacket (h : c.Regular) (t : TunPacket) : (c.onTunPacket nowUs t).1.Regular := by
  rcases onTunPacket_cases nowUs c t with he | ⟨k, tx, hk, he | he⟩
  · rw [he]
    exact h
  · rw [he]
    exact h.withConn hk rfl id
  · rw [he]
    have : ({ c with conn := some { k with reorderTx := tx, blocked := true } } : Client).Regular :=
      h.withConn hk rfl id
    exact ⟨this.legal, this.started, this.phase⟩

theorem Regular.handshakeFinished {k : Conn} (h : c.Regular) (hk : c.conn = some k)
    (hh : k.handshaken = false) (hc : k.closing = false) (dgramMss : Nat) (streamId : Option Nat) :
    (c.cbH3ConnHandshakeFinished k nowUs dgramMss streamId).Regular := by
  have hp := h.phase
  rw [hk] at hp
  have hs : c.state = .connecting ∧ c.shuttingDown = false := by
    generalize c.state = s at hp
    generalize c.shuttingDown = down at hp
    cases hp with
    | connecting => exact ⟨rfl, rfl⟩
    | secured h' => rw [hh] at h'; cases h'
    | closing h' => rw [hc] at h'; cases h'
  refine regular_setState h.legal h.started (.inr ?_) ?_
  · change stateTransitions c.state .authenticating = true
    rw [hs.1]
    rfl
  · change Phase _ .authenticating c.shuttingDown
    rw [hs.2]
    exact .secured rfl (.inl rfl)

theorem Regular.requestBody {k : Conn} (h : c.Regular) (hk : c.conn = some k)
    (hh : k.handshaken = true) (hc : k.closing = false) (capsules : List Capsule) (buffered : Bool) :
    (c.connectIpOnBody k nowUs capsules buffered).Regular := by
  have hflags : (k.processCapsules capsules).handshaken = k.handshaken ∧
      (k.processCapsules capsules).closing = k.closing := by
    obtain ⟨_, _, he⟩ := k.processCapsules_eq capsules
    rw [he]
    exact ⟨rfl, rfl⟩
  rcases connectIpOnBody_cases nowUs c k capsules buffered with he | ⟨hest, hready, info, -, he⟩
  · rw [he]
    exact h.withConn hk hflags.1 fun h' => hflags.2.trans h'
  · refine Regular.of_core (Regular.emit (o := .tunnelConfigReady info) ?_ trivial) he
    have hp := h.phase
    rw [hk] at hp
    -- Of the states after the handshake, only the first is left.
    have hs : c.state = .authenticating ∧ c.shuttingDown = false := by
      generalize c.state = s at hp hest hready
      generalize c.shuttingDown = down at hp
      cases hp with
      | connecting h' => rw [hh] at h'; cases h'
      | secured _ hs =>
        rcases hs with rfl | rfl | rfl
        exacts [⟨rfl, rfl⟩, absurd rfl hready, absurd rfl hest]
      | closing h' => rw [hc] at h'; cases h'
    refine regular_setState h.legal h.started (.inr ?_) ?_
    · change stateTransitions c.state .tunnelReady = true
      rw [hs.1]
      rfl
    · change Phase (some (k.processCapsules capsules)) .tunnelReady c.shuttingDown
      rw [hs.2]
      exact .secured (hflags.1.trans hh) (.inr (.inl rfl))

/-- A close is regular unless the tunnel waits to be used. -/
theorem Regular.connClose (h : c.Regular) {k : Conn} (hk : c.conn = some k)
    (hs : c.state = .tunnelReady → c.config.reconnectEnable = true → c.shuttingDown = true) :
    (c.cbH3ConnClose nowUs).Regular := by
  have hp := h.phase
  rw [hk] at hp
  have hlegal := (h.emit (o := .tunnelClosed) trivial).legal
  rcases cbH3ConnClose_cases nowUs c with ⟨hdown, hrec, d, he⟩ | he
  · refine Regular.of_core (Regular.emit (o := .reconnectScheduled d) ?_ trivial) he
    refine regular_setState hlegal h.started (.inr ?_) ?_
    · change stateTransitions c.state .reconnecting = true
      rw [hdown] at hp hs
      generalize c.state = s at hp hs
      cases hp with
      | connecting => rfl
      | secured _ hst =>
        rcases hst with rfl | rfl | rfl
        · rfl
        · exact absurd (hs rfl hrec) Bool.false_ne_true
        · rfl
    · change Phase none .reconnecting c.shuttingDown
      rw [hdown]
      exact .waiting
  · refine Regular.of_core ?_ he
    refine regular_setState hlegal h.started (stateTransitions_closed ?_) ?_
    · intro hidle
      change c.state = .idle at hidle
      rw [hidle] at hp
      generalize c.shuttingDown = down at hp
      cases hp with
      | secured _ hst => rcases hst with hst | hst | hst <;> cases hst
    · exact .gone _

theorem Regular.dgramMssUpdated {k : Conn} (h : c.Regular) (hk : c.conn = some k) (mss : Nat) :
    (c.cbDgramMssUpdated k mss).Regular := by
  have hconn : ({ c with conn := some { k with dgramMss := mss } } : Client).Regular := h.withConn hk rfl id
  rw [cbDgramMssUpdated]
  dsimp only
  split_ifs
  · exact Regular.emit (o := .mtuUpdated _) ⟨hconn.legal, hconn.started, hconn.phase⟩ trivial
  · exact hconn
  · exact hconn

theorem Regular.dgramWrite {k : Conn} (h : c.Regular) (hk : c.conn = some k) : (c.cbDgramWrite k).Regular := by
  have hconn : ({ c with conn := some { k with blocked := false } } : Client).Regular := h.withConn hk rfl id
  rw [cbDgramWrite]
  dsimp only
  split_ifs
  · exact Regular.emit (o := .readyForTun) ⟨hconn.legal, hconn.started, hconn.phase⟩ trivial
  · exact hconn

/-- A callback is regular if it is for every connection that the client may have. -/
theorem Regular.callback {f : Conn → Client} (h : c.Regular)
    (hf : ∀ k, c.conn = some k → (f k).Regular) : (c.callback f).Regular := by
  rw [Client.callback]
  split
  · rename_i k hk
    exact hf k hk
  · exact h

theorem regular_step (h : c.Regular) {s : Step} (ho : c.Orderly s) (hc : ¬c.ClosesReady s) :
    (c.step s).Regular := by
  obtain ⟨nowUs, call⟩ := s
  cases call with
  | connect start => exact h.connect start
  | disconnect => exact h.disconnect
  | removePath handle closed =>
    rcases core_removePath nowUs handle closed with he | he
    · exact h.of_core he
    · exact h.closeConn.of_core he
  | setTunActive active => exact h.setTunActive active
  | onTunPacket t => exact h.onTunPacket t
  | tickHandshakeWatchdog => exact h.tickHandshakeWatchdog
  | tickReconnect start => exact h.tickReconnect start
  | handshakeFinished dgramMss streamId =>
    refine h.callback fun k hk => ?_
    obtain ⟨hh, hcl⟩ := ho.1 rfl k hk
    exact h.handshakeFinished hk hh hcl dgramMss streamId
  | requestHeaders ok reorder => exact h.callback fun k hk => h.withConn hk rfl id
  | requestBody capsules buffered =>
    refine h.callback fun k hk => ?_
    obtain ⟨hh, hcl⟩ := ho.2 rfl k hk
    exact h.requestBody hk hh hcl capsules buffered
  | requestClose => exact h.callback fun k hk => h.withConn hk rfl id
  | dgramWrite => exact h.callback fun k hk => h.dgramWrite hk
  | dgramMssUpdated mss => exact h.callback fun k hk => h.dgramMssUpdated hk mss
  | connClose =>
    refine h.callback fun k hk => h.connClose hk fun hs hrec => ?_
    by_contra hdown
    exact hc ⟨rfl, by rw [hk]; rfl, hs, hrec, by simpa using hdown⟩
  | _ => exact h.of_core (core_step trivial)

/-! ## Runs -/

theorem regular_init (cfg : Client.Config) : (init cfg).Regular where
  legal _ ho := absurd ho List.not_mem_nil
  started h := absurd rfl h
  phase := .idle

/-- In an orderly run in which no connection closes between the set-up of the
    tunnel and its use, every state change is one of the table, and a handshake is
    timed in CONNECTING only. -/
theorem legal_run (cfg : Client.Config) {steps : List Step}
    (h : Along step (fun c s => c.Orderly s ∧ ¬c.ClosesReady s) (init cfg) steps) :
    (∀ o ∈ ((init cfg).run steps).trace, o.Legal) ∧
      (((init cfg).run steps).handshakeStartedUs ≠ 0 → ((init cfg).run steps).state = .connecting) := by
  have hr : ((init cfg).run steps).Regular :=
    foldl_of_along (J := Regular) (fun _ _ hc hs => regular_step hc hs.1 hs.2) (regular_init cfg) h
  exact ⟨hr.legal, hr.started⟩

/-- The tunnel is used, the connection is lost, and the client reconnects. -/
def lostAndBack : List Step :=
  sampleSetUp ++ [⟨6, .setTunActive true⟩, ⟨7, .connClose⟩,
    ⟨10000000, .tickReconnect { h3Connect := some 1200 }⟩]

theorem legal_run_sample :
    ((init sampleConfig).run lostAndBack).state = .connecting ∧
      (∀ o ∈ ((init sampleConfig).run lostAndBack).trace, o.Legal) ∧
      ((init sampleConfig).run lostAndBack).handshakeStartedUs = 10000000 :=
  ⟨by decide, (legal_run sampleConfig (by decide)).1, by decide⟩

/-- The connection is lost before the tunnel is used. -/
theorem not_legal_close :
    Along step Orderly (init sampleConfig) (sampleSetUp ++ [⟨6, .connClose⟩]) ∧
      ∃ o ∈ ((init sampleConfig).run (sampleSetUp ++ [⟨6, .connClose⟩])).trace, ¬o.Legal :=
  ⟨by decide, by decide⟩

/-! ## The order of the platform's callbacks -/

/-- The tunnel was set up, and since then the client was neither in RECONNECTING nor in
    CLOSED. -/
def armed (on : Bool) : Output → Bool
  | .tunnelConfigReady _ => true
  | .stateChanged _ new => on && new ≠ .reconnecting && new ≠ .closed
  | .tunnelClosed | .readyForTun | .mtuUpdated _ | .reconnectScheduled _ => on

/-- A reconnect is not scheduled while the tunnel is set up. -/
def Disarms (on : Bool) : Output → Prop
  | .reconnectScheduled _ => on = false
  | .stateChanged .. | .tunnelConfigReady _ | .tunnelClosed | .readyForTun | .mtuUpdated _ => True

/-- In RECONNECTING and in CLOSED, the tunnel is not set up. -/
structure Tidy (c : Client) : Prop where
  along : Along armed Disarms false c.trace
  off : c.state = .reconnecting ∨ c.state = .closed → c.trace.foldl armed false = false

theorem Tidy.of_eq {d : Client} (h : d.Tidy) (hs : c.state = d.state) (ht : c.trace = d.trace) : c.Tidy :=
  ⟨ht ▸ h.along, hs ▸ ht ▸ h.off⟩

theorem Tidy.of_core {d : Client} (h : d.Tidy) (he : c.core = d.core) : c.Tidy :=
  h.of_eq (show c.core.state = d.core.state by rw [he]) (show c.core.trace = d.core.trace by rw [he])

theorem Tidy.emit (h : c.Tidy) {o : Output} (hd : Disarms (c.trace.foldl armed false) o)
    (ho : c.state = .reconnecting ∨ c.state = .closed → armed false o = false) : (c.emit o).Tidy := by
  refine ⟨(along_append ..).2 ⟨h.along, hd, trivial⟩, fun hs => ?_⟩
  change (c.trace ++ [o]).foldl armed false = false
  rw [List.foldl_append, h.off hs]
  exact ho hs

theorem Tidy.setState (h : c.Tidy) (new : State) : (c.setState nowUs new).Tidy := by
  by_cases hsame : c.state = new
  · rw [Client.setState, if_pos hsame]
    exact h
  · rw [Client.setState, if_neg hsame]
    refine ⟨(along_append ..).2 ⟨h.along, trivial, trivial⟩, fun hs => ?_⟩
    change (c.trace ++ [_]).foldl armed false = false
    rw [List.foldl_append]
    rcases hs with rfl | rfl <;> simp [armed]

theorem Tidy.reconnect (h : c.Tidy) (hs : c.state = .reconnecting) (d : Int) :
    (c.emit (.reconnectScheduled d)).Tidy :=
  h.emit (h.off (.inl hs)) fun _ => rfl

theorem Tidy.connClose (h : c.Tidy) : (c.cbH3ConnClose nowUs).Tidy := by
  have hclosed : ({ c with conn := none }.emit .tunnelClosed : Client).Tidy :=
    Tidy.emit (c := { c with conn := none }) (h.of_eq rfl rfl) trivial fun _ => rfl
  rcases cbH3ConnClose_cases nowUs c with ⟨-, -, d, he⟩ | he
  · exact ((hclosed.setState .reconnecting).reconnect (state_setState ..) d).of_core he
  · exact (hclosed.setState .closed).of_core he

theorem Tidy.tickReconnect (h : c.Tidy) (start : Start) : (c.tickReconnect nowUs start).Tidy := by
  rcases tickReconnect_cases nowUs c start with he | ⟨hs, d, he⟩ | ⟨-, k, -, he⟩
  · exact h.of_core he
  · exact (h.reconnect hs d).of_core he
  · refine Tidy.of_core ?_ he
    refine Tidy.setState ?_ .connecting
    exact h.of_eq rfl rfl

theorem Tidy.requestBody (h : c.Tidy) (k : Conn) (capsules : List Capsule) (buffered : Bool) :
    (c.connectIpOnBody k nowUs capsules buffered).Tidy := by
  rcases connectIpOnBody_cases nowUs c k capsules buffered with he | ⟨-, -, info, -, he⟩
  · rw [he]
    exact h.of_eq rfl rfl
  · refine Tidy.of_core (Tidy.emit (o := .tunnelConfigReady info) ?_ trivial ?_) he
    · refine Tidy.setState ?_ .tunnelReady
      exact h.of_eq rfl rfl
    · rw [state_setState]
      rintro (hs | hs)
      · exact absurd hs (by decide)
      · exact absurd hs (by decide)

theorem Tidy.dgramWrite (h : c.Tidy) (k : Conn) : (c.cbDgramWrite k).Tidy := by
  rw [cbDgramWrite]
  dsimp only
  split_ifs
  · refine Tidy.emit (o := .readyForTun) ?_ trivial fun _ => rfl
    exact h.of_eq rfl rfl
  · exact h.of_eq rfl rfl

theorem Tidy.dgramMssUpdated (h : c.Tidy) (k : Conn) (mss : Nat) : (c.cbDgramMssUpdated k mss).Tidy := by
  rw [cbDgramMssUpdated]
  dsimp only
  split_ifs
  · refine Tidy.emit (o := .mtuUpdated _) ?_ trivial fun _ => rfl
    exact h.of_eq rfl rfl
  · exact h.of_eq rfl rfl
  · exact h.of_eq rfl rfl

theorem Tidy.callback {f : Conn → Client} (h : c.Tidy) (hf : ∀ k, (f k).Tidy) : (c.callback f).Tidy := by
  rw [Client.callback]
  split
  · exact hf _
  · exact h

theorem Tidy.step (h : c.Tidy) (s : Step) : (c.step s).Tidy := by
  obtain ⟨nowUs, call⟩ := s
  cases call with
  | connect start =>
    rcases connect_cases nowUs c start with he | ⟨-, k, -, he⟩
    · exact h.of_core he
    · refine Tidy.of_core ?_ he
      refine Tidy.setState ?_ .connecting
      exact h.of_eq rfl rfl
  | disconnect =>
    change (c.disconnect nowUs).Tidy
    rw [Client.disconnect]
    split_ifs
    · exact h
    · refine Tidy.setState ?_ .closed
      exact h.of_eq rfl rfl
  | removePath handle closed =>
    rcases core_removePath nowUs handle closed with he | he
    · exact h.of_core he
    · refine Tidy.of_core ?_ he
      exact h.of_eq rfl rfl
  | setTunActive active =>
    change (c.setTunActive nowUs active).Tidy
    rw [Client.setTunActive]
    dsimp only
    split_ifs
    · refine Tidy.setState ?_ .established
      exact h.of_eq rfl rfl
    · exact h.of_eq rfl rfl
  | onTunPacket t =>
    change (c.onTunPacket nowUs t).1.Tidy
    rcases onTunPacket_cases nowUs c t with he | ⟨k, tx, -, he | he⟩
    · rw [he]
      exact h
    · rw [he]
      exact h.of_eq rfl rfl
    · rw [he]
      exact h.of_eq rfl rfl
  | tickHandshakeWatchdog =>
    change (c.tickHandshakeWatchdog nowUs).Tidy
    rcases tickHandshakeWatchdog_cases nowUs c with he | ⟨k, -, he⟩ | ⟨-, -, he⟩
    · rw [he]
      exact h
    · rw [he]
      exact h.of_eq rfl rfl
    · refine Tidy.of_core ?_ he
      refine Tidy.setState ?_ .reconnecting
      exact h.of_eq rfl rfl
  | tickReconnect start => exact h.tickReconnect start
  | handshakeFinished dgramMss streamId =>
    refine h.callback fun k => Tidy.setState ?_ .authenticating
    exact h.of_eq rfl rfl
  | requestHeaders ok reorder => exact h.callback fun k => h.of_eq rfl rfl
  | requestBody capsules buffered => exact h.callback fun k => h.requestBody k capsules buffered
  | requestClose => exact h.callback fun k => h.of_eq rfl rfl
  | dgramWrite => exact h.callback fun k => h.dgramWrite k
  | dgramMssUpdated mss => exact h.callback fun k => h.dgramMssUpdated k mss
  | connClose => exact h.callback fun _ => h.connClose
  | _ => exact h.of_core (core_step trivial)

/-- A reconnect is only scheduled after a change to RECONNECTING, with no tunnel set up
    in between. -/
theorem tidy_run (cfg : Client.Config) (steps : List Step) : ((init cfg).run steps).Tidy :=
  foldl_of_along (P := fun _ _ => True) (fun _ s hc _ => hc.step s)
    ⟨trivial, fun _ => rfl⟩ (along_of_forall (fun _ _ => trivial) _ _)

end Mqvpn.Client
