import Mqvpn.Client.Mtu
import Mqvpn.Path.Retries
import Mqvpn.Reorder.Progress

/-!
# When the client wants its next tick

`mqvpn_client_get_interest` tells the platform how long it may sleep before the
next tick. It starts from the wake that xquic asked for, and goes through the
deadlines of the client: while there is no tunnel, a deadline may also put the
wake of xquic off (`extend`); afterwards it only shortens the sleep (`shorten`).

* `nextTimerMs_le_iff`: the sleep is at most so long exactly when something that
  the function looks at asks for it (`Asks`).
* `tick_quiet`: before the first of its deadlines (`Deadline`), a tick does
  nothing for any of them.
* `covered_iff`: the sleep ends in time for all the deadlines exactly when it does
  for those that the function does not look at: the gap timers of the reordering,
  and the timers of the paths as long as the connection is not ready for several.
-/

namespace Mqvpn.Client

open Mqvpn.Path Reorder

/-- The client, with what it shares with xquic, the reordering and lwIP. -/
structure Clocked where
  client : Client
  /-- `next_wake_us`: what xquic passed to `cb_set_event_timer`. -/
  nextWakeUs : Nat
  /-- `reorder_rx` of the connection. -/
  reorderRx : Option Rx
  /-- What `mqvpn_lwip_next_timeout_ms` answers, if the connection has a TCP lane. -/
  lwipMs : Option Int

/-- `mqvpn_interest_t` -/
structure Interest where
  nextTimerMs : Int
  tunReadable : Bool
  isIdle : Bool

/-! ## The sleep -/

/-- A deadline that may also put the next wake off. -/
def extend (ms timerMs : Int) : Int := if ms ≤ 0 ∨ timerMs < ms then timerMs else ms

/-- A deadline that may only bring the next wake forward. -/
def shorten (ms timerMs : Int) : Int := if 0 < ms ∧ timerMs < ms then timerMs else ms

/-- What is left until a deadline. -/
def leftMs (nowUs deadlineUs : Nat) : Int := toInt ((deadlineUs - nowUs) / 1000)

/-- The time at which a handshake counts as stalled. -/
def stallDeadlineUs (c : Client) : Nat := (c.handshakeStartedUs + handshakeStallTimeoutMs * 1000) % 2 ^ 64

/-- The block of `mqvpn_client_get_interest` for the reconnect timer. -/
def reconnectBlock (c : Client) (nowUs : Nat) (ms : Int) : Int :=
  if c.state = .reconnecting ∧ 0 < c.reconnectScheduledUs then
    if nowUs < c.reconnectScheduledUs then extend ms (leftMs nowUs c.reconnectScheduledUs) else 1
  else ms

/-- The block for the handshake stall deadline. -/
def handshakeBlock (c : Client) (nowUs : Nat) (ms : Int) : Int :=
  if c.state = .connecting ∧ 0 < c.handshakeStartedUs then
    extend ms (if nowUs < c.stallDeadlineUs then leftMs nowUs c.stallDeadlineUs else 1)
  else ms

/-- What the recovery and the stability timer of a path have in common. -/
def pathTimer (nowUs deadlineUs : Nat) (ms : Int) : Int :=
  if nowUs < deadlineUs then shorten ms (leftMs nowUs deadlineUs) else 1

/-- The time at which a path counts as stable. -/
def stableAtUs (p : Entry) : Nat := (p.pathStableSinceUs + stableThresholdUs) % 2 ^ 64

/-- The body of the loop over the paths. -/
def pathBlock (nowUs : Nat) (ms : Int) (p : Entry) : Int :=
  let ms := if 0 < p.recreateAfterUs then pathTimer nowUs p.recreateAfterUs ms else ms
  if 0 < p.pathStableSinceUs ∧ p.xquicPathLive then pathTimer nowUs (stableAtUs p) ms else ms

/-- The block for the timers of the paths. -/
def pathsBlock (c : Client) (nowUs : Nat) (ms : Int) : Int :=
  if c.multipathReady ∧ c.state = .established then c.paths.foldl (pathBlock nowUs) ms else ms

namespace Clocked

variable (s : Clocked) (nowUs : Nat)

/-- The block for the timer of lwIP. -/
def lwipBlock (ms : Int) : Int :=
  match s.client.conn, s.lwipMs with
  | some _, some lwipMs => if 0 ≤ lwipMs ∧ 0 < ms ∧ lwipMs < ms then lwipMs else ms
  | _, _ => ms

/-- The wake that xquic asked for. -/
def wakeMs : Int := toInt (s.nextWakeUs / 1000)

/-- The value of `ms` at the end of `mqvpn_client_get_interest`. -/
def timerMs : Int :=
  s.lwipBlock (s.client.pathsBlock nowUs (s.client.handshakeBlock nowUs
    (s.client.reconnectBlock nowUs s.wakeMs)))

/-- `mqvpn_client_get_interest` -/
def getInterest : Interest where
  nextTimerMs := if 0 < s.timerMs nowUs then s.timerMs nowUs else 1
  tunReadable := s.client.tunActive ∧ s.client.backpressure = false
  isIdle := s.client.state ≠ .established

end Clocked

/-! ## What is asked for -/

/-- A timer of the client puts a wake off that xquic wants at once. -/
def PutsOff (c : Client) : Prop :=
  c.state = .reconnecting ∧ 0 < c.reconnectScheduledUs ∨ c.state = .connecting ∧ 0 < c.handshakeStartedUs

/-- The deadlines that `mqvpn_client_get_interest` looks at. -/
inductive Reads (c : Client) : Nat → Prop
  | reconnect : c.state = .reconnecting → 0 < c.reconnectScheduledUs → Reads c c.reconnectScheduledUs
  | handshake : c.state = .connecting → 0 < c.handshakeStartedUs → Reads c c.stallDeadlineUs
  | retry {p : Entry} : c.multipathReady = true → c.state = .established → p ∈ c.paths →
      0 < p.recreateAfterUs → Reads c p.recreateAfterUs
  | stable {p : Entry} : c.multipathReady = true → c.state = .established → p ∈ c.paths →
      0 < p.pathStableSinceUs → p.xquicPathLive = true → Reads c (stableAtUs p)

/-- Something that `mqvpn_client_get_interest` looks at asks for a tick within `m`
    milliseconds. -/
inductive Clocked.Asks (s : Clocked) (nowUs m : Nat) : Prop
  | wake : s.wakeMs ≤ m → (s.client.PutsOff → 0 < s.wakeMs) → Asks s nowUs m
  | deadline {d : Nat} : s.client.Reads d → leftMs nowUs d ≤ m → Asks s nowUs m
  | lwip {t : Int} : s.client.conn.isSome → s.lwipMs = some t → 0 ≤ t → t ≤ m → Asks s nowUs m

section

variable {c : Client} {s : Clocked} {nowUs m : Nat} {ms timerMs : Int}

theorem shorten_le_iff : shorten ms timerMs ≤ m ↔ ms ≤ m ∨ timerMs ≤ m := by
  rw [shorten]
  split_ifs <;> omega

theorem extend_le_iff : extend ms timerMs ≤ m ↔ 0 < ms ∧ ms ≤ m ∨ timerMs ≤ m := by
  rw [extend]
  split_ifs <;> omega

/-- Nothing is left until a deadline that has passed. -/
theorem leftMs_of_le {d : Nat} (h : d ≤ nowUs) : leftMs nowUs d = 0 := by
  rw [leftMs, Nat.sub_eq_zero_of_le h]
  rfl

theorem leftMs_le (nowUs d : Nat) : leftMs nowUs d ≤ ((d - nowUs) / 1000 : Nat) := by
  have h := toInt_le ((d - nowUs) / 1000)
  have hmod := Nat.mod_le ((d - nowUs) / 1000) (2 ^ 32)
  rw [leftMs]
  omega

theorem pathTimer_le_iff (hm : 1 ≤ m) (d : Nat) :
    pathTimer nowUs d ms ≤ m ↔ ms ≤ m ∨ leftMs nowUs d ≤ m := by
  rw [pathTimer]
  split_ifs with h
  · exact shorten_le_iff
  · rw [leftMs_of_le (Nat.not_lt.1 h)]
    omega

theorem pathBlock_le_iff (hm : 1 ≤ m) (p : Entry) :
    pathBlock nowUs ms p ≤ m ↔ ms ≤ m ∨ 0 < p.recreateAfterUs ∧ leftMs nowUs p.recreateAfterUs ≤ m ∨
      (0 < p.pathStableSinceUs ∧ p.xquicPathLive) ∧ leftMs nowUs (stableAtUs p) ≤ m := by
  rw [pathBlock]
  split_ifs with hs hr hr
  · rw [pathTimer_le_iff hm, pathTimer_le_iff hm]
    simp only [hr, hs, true_and, or_assoc]
  · rw [pathTimer_le_iff hm]
    simp only [hr, hs, true_and, false_and, false_or]
  · rw [pathTimer_le_iff hm]
    simp only [hr, hs, true_and, false_and, or_false]
  · simp only [hr, hs, false_and, or_false]

theorem foldl_pathBlock_le_iff (hm : 1 ≤ m) (paths : List Entry) (ms : Int) :
    paths.foldl (pathBlock nowUs) ms ≤ m ↔ ms ≤ m ∨ ∃ p ∈ paths,
      0 < p.recreateAfterUs ∧ leftMs nowUs p.recreateAfterUs ≤ m ∨
      (0 < p.pathStableSinceUs ∧ p.xquicPathLive) ∧ leftMs nowUs (stableAtUs p) ≤ m := by
  induction paths generalizing ms with
  | nil => simp
  | cons p paths ih =>
    rw [List.foldl_cons, ih, pathBlock_le_iff hm, List.exists_mem_cons_iff, or_assoc]

theorem pathsBlock_le_iff (hm : 1 ≤ m) :
    c.pathsBlock nowUs ms ≤ m ↔ ms ≤ m ∨ (c.multipathReady ∧ c.state = .established) ∧ ∃ p ∈ c.paths,
      0 < p.recreateAfterUs ∧ leftMs nowUs p.recreateAfterUs ≤ m ∨
      (0 < p.pathStableSinceUs ∧ p.xquicPathLive) ∧ leftMs nowUs (stableAtUs p) ≤ m := by
  rw [pathsBlock]
  split_ifs with h
  · rw [foldl_pathBlock_le_iff hm]
    simp only [h, true_and]
  · simp only [h, false_and, or_false]

theorem handshakeBlock_le_iff (hm : 1 ≤ m) :
    c.handshakeBlock nowUs ms ≤ m ↔
      (c.state = .connecting ∧ 0 < c.handshakeStartedUs → 0 < ms) ∧ ms ≤ m ∨
      (c.state = .connecting ∧ 0 < c.handshakeStartedUs) ∧ leftMs nowUs c.stallDeadlineUs ≤ m := by
  rw [handshakeBlock]
  split_ifs with h hlt
  · rw [extend_le_iff]
    simp only [h, true_and, forall_const]
  · rw [extend_le_iff, leftMs_of_le (Nat.not_lt.1 hlt)]
    simp only [h, true_and, forall_const]
    omega
  · simp only [h, false_and, or_false, false_imp_iff, true_and]

theorem reconnectBlock_le_iff (hm : 1 ≤ m) :
    c.reconnectBlock nowUs ms ≤ m ↔
      (c.state = .reconnecting ∧ 0 < c.reconnectScheduledUs → 0 < ms) ∧ ms ≤ m ∨
      (c.state = .reconnecting ∧ 0 < c.reconnectScheduledUs) ∧ leftMs nowUs c.reconnectScheduledUs ≤ m := by
  rw [reconnectBlock]
  split_ifs with h hlt
  · rw [extend_le_iff]
    simp only [h, true_and, forall_const]
  · rw [leftMs_of_le (Nat.not_lt.1 hlt)]
    simp only [h, true_and, forall_const]
    omega
  · simp only [h, false_and, or_false, false_imp_iff, true_and]

theorem Clocked.lwipBlock_le_iff :
    s.lwipBlock ms ≤ m ↔ ms ≤ m ∨ s.client.conn.isSome ∧ ∃ t, s.lwipMs = some t ∧ 0 ≤ t ∧ t ≤ m := by
  rw [Clocked.lwipBlock]
  split
  · rename_i t hc ht
    simp only [hc, ht, Option.isSome_some, true_and, Option.some.injEq, exists_eq_left']
    split_ifs <;> omega
  · rename_i hnone
    refine ⟨.inl, ?_⟩
    rintro (h | ⟨hc, t, ht, -⟩)
    · exact h
    · obtain ⟨k, hk⟩ := Option.isSome_iff_exists.1 hc
      exact (hnone k t hk ht).elim

theorem reconnectBlock_of_connecting (h : c.state = .connecting) : c.reconnectBlock nowUs ms = ms :=
  if_neg fun hr => absurd (h.symm.trans hr.1) (by decide)

theorem Clocked.timerMs_le_iff (hm : 1 ≤ m) : s.timerMs nowUs ≤ m ↔ s.Asks nowUs m := by
  rw [timerMs, lwipBlock_le_iff, pathsBlock_le_iff hm, handshakeBlock_le_iff hm, reconnectBlock_le_iff hm]
  constructor
  · rintro (((⟨hpos, ⟨hpos', hwake⟩ | ⟨⟨hs, hd⟩, hle⟩⟩ | ⟨⟨hs, hd⟩, hle⟩) | ⟨⟨hmp, hs⟩, p, hp, hp'⟩) | ⟨hc, t, ht, h0, hle⟩)
    · refine .wake hwake ?_
      rintro (hr | hc)
      · exact hpos' hr
      · have := hpos hc
        rwa [reconnectBlock_of_connecting hc.1] at this
    · exact .deadline (.reconnect hs hd) hle
    · exact .deadline (.handshake hs hd) hle
    · rcases hp' with ⟨hd, hle⟩ | ⟨⟨hd, hlive⟩, hle⟩
      · exact .deadline (.retry hmp hs hp hd) hle
      · exact .deadline (.stable hmp hs hp hd hlive) hle
    · exact .lwip hc ht h0 hle
  · rintro (⟨hwake, hpos⟩ | ⟨hd, hle⟩ | ⟨hc, ht, h0, hle⟩)
    · refine .inl (.inl (.inl ⟨fun hc => ?_, .inl ⟨fun hr => hpos (.inl hr), hwake⟩⟩))
      rw [reconnectBlock_of_connecting hc.1]
      exact hpos (.inr hc)
    · cases hd with
      | reconnect hs hd =>
        exact .inl (.inl (.inl ⟨fun hc => absurd (hs.symm.trans hc.1) (by decide), .inr ⟨⟨hs, hd⟩, hle⟩⟩))
      | handshake hs hd => exact .inl (.inl (.inr ⟨⟨hs, hd⟩, hle⟩))
      | retry hmp hs hp hd => exact .inl (.inr ⟨⟨hmp, hs⟩, _, hp, .inl ⟨hd, hle⟩⟩)
      | stable hmp hs hp hd hlive => exact .inl (.inr ⟨⟨hmp, hs⟩, _, hp, .inr ⟨⟨hd, hlive⟩, hle⟩⟩)
    · exact .inr ⟨hc, _, ht, h0, hle⟩

/-- The sleep is at most so long exactly when something asks for it. -/
theorem Clocked.nextTimerMs_le_iff (hm : 1 ≤ m) : (s.getInterest nowUs).nextTimerMs ≤ m ↔ s.Asks nowUs m := by
  rw [← timerMs_le_iff hm]
  change (if 0 < s.timerMs nowUs then s.timerMs nowUs else 1) ≤ (m : Int) ↔ _
  split_ifs <;> omega

theorem Clocked.one_le_nextTimerMs : 1 ≤ (s.getInterest nowUs).nextTimerMs := by
  change 1 ≤ if 0 < s.timerMs nowUs then s.timerMs nowUs else 1
  split_ifs <;> omega

end

/-! ## What a tick waits for -/

/-- A tick drives the timers of the paths. -/
def Recovers (c : Client) : Prop := c.state = .established ∧ c.config.multipath = true ∧ c.conn.isSome

/-- The deadlines that a tick acts on. -/
inductive Clocked.Deadline (s : Clocked) : Nat → Prop
  /-- `tick_reconnect` -/
  | reconnect : s.client.state = .reconnecting → s.client.reconnectScheduledUs ≠ 0 →
      Deadline s s.client.reconnectScheduledUs
  /-- `tick_handshake_watchdog` -/
  | handshake : s.client.shuttingDown = false → s.client.state = .connecting →
      s.client.handshakeStartedUs ≠ 0 →
      Deadline s (s.client.handshakeStartedUs + handshakeStallTimeoutMs * 1000)
  /-- `tick_drive_retry_timer` -/
  | retry {p : Entry} : s.client.Recovers → p ∈ s.client.paths → p.Waits → p.recreateAfterUs ≠ 0 →
      Deadline s p.recreateAfterUs
  /-- `path_fsm_tick_confirm_stable` -/
  | stable {p : Entry} : s.client.Recovers → p ∈ s.client.paths → p.state = .active ∨ p.state = .standby →
      p.pathStableSinceUs ≠ 0 → p.xquicPathLive = true →
      Deadline s (p.pathStableSinceUs + stableThresholdUs)
  /-- `mqvpn_reorder_rx_tick` -/
  | gap {rx : Rx} {f : Flow} : s.client.conn.isSome → s.reorderRx = some rx → f ∈ rx.flows →
      f.gapTimerActive = true → Deadline s f.gapDeadlineUs

/-- A deadline that `mqvpn_client_get_interest` does not look at. -/
inductive Clocked.Unread (s : Clocked) : Nat → Prop
  | retry {p : Entry} : s.client.multipathReady = false → s.client.Recovers → p ∈ s.client.paths →
      p.Waits → p.recreateAfterUs ≠ 0 → Unread s p.recreateAfterUs
  | stable {p : Entry} : s.client.multipathReady = false → s.client.Recovers → p ∈ s.client.paths →
      p.state = .active ∨ p.state = .standby → p.pathStableSinceUs ≠ 0 → p.xquicPathLive = true →
      Unread s (p.pathStableSinceUs + stableThresholdUs)
  | gap {rx : Rx} {f : Flow} : s.client.conn.isSome → s.reorderRx = some rx → f ∈ rx.flows →
      f.gapTimerActive = true → Unread s f.gapDeadlineUs

variable {s : Clocked} {nowUs : Nat}

/-- Before the first deadline, a tick does nothing for any of them: the connection
    is left as it is, no path is retried or found stable, and no gap times out. -/
theorem Clocked.tick_quiet (h : ∀ d, s.Deadline d → nowUs < d)
    (hclock : ∀ p ∈ s.client.paths, p.pathStableSinceUs ≤ nowUs ∧ nowUs < 2 ^ 64) :
    s.client.tickHandshakeWatchdog nowUs = s.client ∧
    (∀ start, s.client.tickReconnect nowUs start = s.client) ∧
    (s.client.Recovers → ∀ p ∈ s.client.paths, p.tickConfirmStable nowUs = p ∧
      ∀ xq i mp, driveRetryTimer nowUs xq i p mp = (p, mp)) ∧
    (s.client.conn.isSome → ∀ rx, s.reorderRx = some rx → ∀ f ∈ rx.flows, f.timeoutDue nowUs = false) := by
  refine ⟨?_, fun start => ?_, fun hr p hp => ⟨?_, fun xq i mp => ?_⟩, fun hc rx hrx f hf => ?_⟩
  · rw [tickHandshakeWatchdog]
    by_cases hdown : s.client.shuttingDown = true
    · rw [if_pos hdown]
    · rw [if_neg hdown, if_pos]
      rintro ⟨hs, hne, hlt, hle⟩
      have := h _ (.handshake (Bool.eq_false_iff.2 hdown) hs hne)
      omega
  · rw [tickReconnect]
    split_ifs with hs hlt
    · rfl
    · rfl
    · push Not at hs
      exact absurd (h _ (.reconnect hs.1 hs.2)) hlt
  · refine Entry.tickConfirmStable_of_not_stableAt ?_
    rintro ⟨hs, hne, hlive, hle⟩
    have hd := h _ (.stable hr hp hs hne hlive)
    obtain ⟨hsince, hfits⟩ := hclock p hp
    omega
  · rw [driveRetryTimer, if_neg]
    rintro ⟨hs, hne, hle⟩
    exact absurd (h _ (.retry hr hp hs.symm hne)) (Nat.not_lt.2 hle)
  · rw [Bool.eq_false_iff]
    intro hdue
    obtain ⟨harmed, hle⟩ : f.gapTimerActive = true ∧ f.gapDeadlineUs ≤ nowUs := of_decide_eq_true hdue
    exact absurd (h _ (.gap hc hrx hf harmed)) (Nat.not_lt.2 hle)

/-! ## The deadlines are covered -/

/-- The sleep ends in time for a deadline. -/
def Clocked.InTime (s : Clocked) (nowUs d : Nat) : Prop :=
  (nowUs < d → (s.getInterest nowUs).nextTimerMs ≤ (max 1 ((d - nowUs) / 1000) : Nat)) ∧
    (d ≤ nowUs → (s.getInterest nowUs).nextTimerMs = 1)

theorem Clocked.inTime_iff {d : Nat} : s.InTime nowUs d ↔ s.Asks nowUs (max 1 ((d - nowUs) / 1000)) := by
  rw [← nextTimerMs_le_iff (Nat.le_max_left ..), InTime]
  have hone : 1 ≤ (s.getInterest nowUs).nextTimerMs := one_le_nextTimerMs
  rcases Nat.lt_or_ge nowUs d with h | h
  · exact ⟨fun hd => hd.1 h, fun hle => ⟨fun _ => hle, fun hge => absurd h (Nat.not_lt.2 hge)⟩⟩
  · -- Nothing is left of a deadline that has passed, and the sleep is never shorter than 1.
    have hmax : max 1 ((d - nowUs) / 1000) = 1 := by omega
    rw [hmax]
    refine ⟨fun hd => (hd.2 h).le, fun hle => ⟨fun hlt => absurd hlt (Nat.not_lt.2 h), fun _ => ?_⟩⟩
    exact Int.le_antisymm hle hone

theorem Clocked.Unread.deadline {d : Nat} (h : s.Unread d) : s.Deadline d := by
  cases h with
  | retry _ hr hp hw hne => exact .retry hr hp hw hne
  | stable _ hr hp hs hne hlive => exact .stable hr hp hs hne hlive
  | gap hc hrx hf harmed => exact .gap hc hrx hf harmed

/-- What is read of a deadline, its wrap included, comes no later than the deadline. -/
theorem Clocked.asks_of_reads {d d' : Nat} (h : s.client.Reads d') (hle : d' ≤ d) :
    s.Asks nowUs (max 1 ((d - nowUs) / 1000)) := by
  refine .deadline h ?_
  have hleft := leftMs_le nowUs d'
  have hdiv : (d' - nowUs) / 1000 ≤ (d - nowUs) / 1000 := Nat.div_le_div_right (by omega)
  omega

theorem Clocked.Deadline.asks_or_unread {d : Nat} (h : s.Deadline d) (nowUs : Nat) :
    s.Asks nowUs (max 1 ((d - nowUs) / 1000)) ∨ s.Unread d := by
  cases h with
  | reconnect hs hne => exact .inl (asks_of_reads (.reconnect hs (Nat.pos_of_ne_zero hne)) (Nat.le_refl _))
  | handshake _ hs hne =>
    exact .inl (asks_of_reads (.handshake hs (Nat.pos_of_ne_zero hne)) (Nat.mod_le ..))
  | retry hr hp hw hne =>
    by_cases hmp : s.client.multipathReady = true
    · exact .inl (asks_of_reads (.retry hmp hr.1 hp (Nat.pos_of_ne_zero hne)) (Nat.le_refl _))
    · exact .inr (.retry (Bool.eq_false_iff.2 hmp) hr hp hw hne)
  | stable hr hp hs hne hlive =>
    by_cases hmp : s.client.multipathReady = true
    · exact .inl (asks_of_reads (.stable hmp hr.1 hp (Nat.pos_of_ne_zero hne) hlive) (Nat.mod_le ..))
    · exact .inr (.stable (Bool.eq_false_iff.2 hmp) hr hp hs hne hlive)
  | gap hc hrx hf harmed => exact .inr (.gap hc hrx hf harmed)

/-- The sleep ends in time for every deadline exactly when something else asks for a
    tick in time for those that are not looked at. -/
theorem Clocked.covered_iff (s : Clocked) (nowUs : Nat) :
    (∀ d, s.Deadline d → s.InTime nowUs d) ↔
      ∀ d, s.Unread d → s.Asks nowUs (max 1 ((d - nowUs) / 1000)) := by
  refine ⟨fun h d hd => inTime_iff.1 (h d hd.deadline), fun h d hd => inTime_iff.2 ?_⟩
  rcases hd.asks_or_unread nowUs with hasks | hunread
  · exact hasks
  · exact h d hunread

/-- The tunnel is up, packet 1 of a flow is missing, and xquic has nothing to do for
    a tenth of a second. -/
def quietTunnel : Clocked where
  client := (init reorderConfig).run (sampleSetUp ++ [⟨6, .readyToCreatePath sampleXquic⟩,
    ⟨7, .requestHeaders true true⟩, ⟨8, .setTunActive true⟩])
  nextWakeUs := 100000
  reorderRx := some (defaultRx.run [receive 1 30 0 10, receive 1 30 2 20])
  lwipMs := none

/-- The gap times out after 30 milliseconds, but the next tick is 100 away. -/
theorem Clocked.not_covered :
    (∃ f ∈ (defaultRx.run [receive 1 30 0 10, receive 1 30 2 20]).flows,
      f.gapTimerActive = true ∧ f.gapDeadlineUs = 30020) ∧
    (quietTunnel.getInterest 20).nextTimerMs = 100 ∧
    ¬∀ d, quietTunnel.Deadline d → quietTunnel.InTime 20 d := by
  have hgap : ∃ f ∈ (defaultRx.run [receive 1 30 0 10, receive 1 30 2 20]).flows,
      f.gapTimerActive = true ∧ f.gapDeadlineUs = 30020 := by decide +kernel
  have hms : (quietTunnel.getInterest 20).nextTimerMs = 100 := by decide +kernel
  refine ⟨hgap, hms, fun h => ?_⟩
  obtain ⟨f, hf, harmed, hd⟩ := hgap
  have hin := h f.gapDeadlineUs (.gap (by decide +kernel) rfl hf harmed)
  rw [hd] at hin
  have hle := hin.1 (by decide)
  rw [hms] at hle
  exact absurd hle (by decide)

end Mqvpn.Client
