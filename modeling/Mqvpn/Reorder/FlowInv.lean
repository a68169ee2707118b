import Mathlib.Algebra.Order.Group.Multiset
import Mathlib.Tactic.Abel
import Mqvpn.Reorder.Moves

/-!
# Invariants of flows

What holds of a flow between two calls (`Ready`), and what an operation on a
flow does to the rest of the receiver (`Frame`). Every move keeps the one and is
bound by the other (`Move.ready`), and so is the processing of a whole packet
(`ready_onReordered`) and a gap timeout (`ready_onGapTimeout`).

`Ready` is made of the parts that hold even in the middle of a flush or a
drain (`Core`: the ring, the pool charge, the fates of packets, the order of
deliveries) and of those that only hold once it is over (the gap timer, and that
the next expected packet is not buffered).
-/

namespace Mqvpn.Reorder

/-! ## Order -/

/-- In every epoch the deliveries increase, and those of the current one are
    below `e`. -/
structure Ordered (s : Segments Nat) (e : Nat) : Prop where
  sorted : s.AllPairwise (· < ·)
  below : ∀ l, s.current = some l → ∀ a ∈ l, a < e

namespace Ordered

variable {s : Segments Nat} {e e' a : Nat}

theorem mono (h : Ordered s e) (he : e ≤ e') : Ordered s e' :=
  ⟨h.sorted, fun l hl a ha => (h.below l hl a ha).trans_le he⟩

theorem start (h : Ordered s e) (e' : Nat) : Ordered (s.note .start) e' :=
  ⟨h.sorted.note_start, by rintro _ ⟨⟩ a ha; exact absurd ha List.not_mem_nil⟩

theorem stop (h : Ordered s e) (e' : Nat) : Ordered (s.note .stop) e' :=
  ⟨h.sorted.note_stop, nofun⟩

/-- A delivery at `expected` or above keeps the order. -/
theorem item (h : Ordered s e) (ha : e ≤ a) : Ordered (s.note (.item a)) (a + 1) := by
  refine ⟨h.sorted.note_item fun l hl b hb => (h.below l hl b hb).trans_le ha, ?_⟩
  intro l hl b hb
  obtain ⟨l', hl', rfl⟩ := Option.map_eq_some_iff.1 hl
  rcases List.mem_append.1 hb with hb | hb
  · exact ((h.below l' hl' b hb).trans_le ha).trans (Nat.lt_succ_self a)
  · rw [List.mem_singleton.1 hb]
    exact Nat.lt_succ_self a

/-- Outside the epochs anything may be delivered. -/
theorem item_of_none (h : Ordered s e) (hs : s.current = none) : Ordered (s.note (.item a)) e := by
  refine ⟨h.sorted.note_item fun l hl => ?_, fun l hl => ?_⟩
  · exact absurd (hs.symm.trans hl).symm (Option.some_ne_none l)
  · rw [Segments.note, hs] at hl
    exact absurd hl.symm (Option.some_ne_none l)

end Ordered

/-! ## Fates -/

/-- Every packet handed to the flow has one fate: counted in `st`, buffered in
    `r`, or still in `hand`; and those delivered or buffered are among those
    received. -/
structure Conserved (hand : List Bytes) (l : Ledger) (st : Stats) (r : Ring) : Prop where
  fates : l.received.length = st.fates + r.count + hand.length
  payloads : (l.delivered : Multiset Bytes) + (r.entries.map (·.pkt) : List Bytes) + hand ≤ l.received

namespace Conserved

variable {hand : List Bytes} {pkt : Bytes} {l : Ledger} {st st' : Stats} {r r' : Ring} {s : Slot}

theorem receive (h : Conserved hand l st r) (pkt : Bytes) :
    Conserved (pkt :: hand) { l with received := l.received ++ [pkt] } st r where
  fates := by
    rw [List.length_append, h.fates, List.length_singleton, List.length_cons, Nat.add_assoc]
  payloads := by
    have := add_le_add_left h.payloads {pkt}
    rw [← Multiset.coe_add, Multiset.coe_singleton, ← Multiset.cons_coe, ← Multiset.singleton_add]
    convert this using 1
    abel

theorem deliver (h : Conserved (pkt :: hand) l st r) (hst : st'.fates = st.fates + 1) :
    Conserved hand { l with delivered := l.delivered ++ [pkt] } st' r where
  fates := by
    rw [hst, h.fates, List.length_cons]
    omega
  payloads := by
    have := h.payloads
    rw [← Multiset.cons_coe, ← Multiset.singleton_add] at this
    rw [← Multiset.coe_add, Multiset.coe_singleton]
    convert this using 1
    abel

theorem drop (h : Conserved (pkt :: hand) l st r) (hst : st'.fates = st.fates + 1) :
    Conserved hand l st' r where
  fates := by
    rw [hst, h.fates, List.length_cons]
    omega
  payloads := by
    have := h.payloads
    rw [← Multiset.cons_coe] at this
    exact (add_le_add_right (Multiset.le_cons_self _ _) _).trans this

/-- Taking a packet out of the ring puts it in hand. -/
theorem take (h : Conserved hand l st r) (hp : r.entries.Perm (s :: r'.entries))
    (hc : r.count = r'.count + 1) : Conserved (s.pkt :: hand) l st r' where
  fates := by
    rw [h.fates, hc, List.length_cons]
    omega
  payloads := by
    have := h.payloads
    rw [Multiset.coe_eq_coe.2 (hp.map (·.pkt)), List.map_cons, ← Multiset.cons_coe] at this
    rw [← Multiset.cons_coe]
    rwa [Multiset.add_cons, Multiset.cons_add, ← Multiset.add_cons] at this

/-- Storing the packet in hand puts it into the ring. -/
theorem store (h : Conserved (s.pkt :: hand) l st r) (hp : r'.entries.Perm (s :: r.entries))
    (hc : r'.count = r.count + 1) : Conserved hand l st r' where
  fates := by
    rw [h.fates, hc, List.length_cons]
    omega
  payloads := by
    have := h.payloads
    rw [← Multiset.cons_coe] at this
    rw [Multiset.coe_eq_coe.2 (hp.map (·.pkt)), List.map_cons, ← Multiset.cons_coe]
    rwa [Multiset.add_cons, Multiset.cons_add, ← Multiset.add_cons]

/-- Discarding the buffered packets. -/
theorem discard (h : Conserved hand l st r) (hst : st'.fates = st.fates + r.count) :
    Conserved hand l st' r.free where
  fates := by
    rw [hst, h.fates, Ring.count_free]
    rfl
  payloads := by
    rw [Ring.entries_free, List.map_nil]
    exact (add_le_add_left (add_le_add_right (Multiset.zero_le _) _) _).trans h.payloads

end Conserved

/-! ## Frames and cores -/

/-- How an operation on a flow may change what is outside the flow: the pool
    counter follows the bytes of its ring, and what it adds to the trace is about
    the flow. -/
structure Frame (v v' : View) : Prop where
  key : v'.flow.key = v.flow.key
  cap : v'.flow.buffer.cap = v.flow.buffer.cap
  evictedStats : v'.evictedStats = v.evictedStats
  nFlows : v'.nFlows = v.nFlows
  trace : ∃ evs, v'.trace = v.trace ++ evs ∧ ∀ e ∈ evs, e.key? = some v.flow.key ∧ e.Sound
  pool : v'.poolBytesUsed + v.flow.buffer.bytes = v.poolBytesUsed + v'.flow.buffer.bytes

namespace Frame

variable {v v' v'' : View}

theorem refl (v : View) : Frame v v :=
  ⟨rfl, rfl, rfl, rfl, ⟨[], (List.append_nil _).symm, nofun⟩, rfl⟩

theorem trans (h : Frame v v') (h' : Frame v' v'') : Frame v v'' where
  key := h'.key.trans h.key
  cap := h'.cap.trans h.cap
  evictedStats := h'.evictedStats.trans h.evictedStats
  nFlows := h'.nFlows.trans h.nFlows
  trace := by
    obtain ⟨evs, he, hall⟩ := h.trace
    obtain ⟨evs', he', hall'⟩ := h'.trace
    refine ⟨evs ++ evs', by rw [he', he, List.append_assoc], fun e hm => ?_⟩
    rcases List.mem_append.1 hm with hm | hm
    · exact hall e hm
    · exact h.key ▸ hall' e hm
  pool := by
    have := h.pool
    have := h'.pool
    omega

/-- Nothing but fields of the flow other than its key and its ring changed. -/
theorem of_eq (hs : v'.toShared = v.toShared) (hk : v'.flow.key = v.flow.key)
    (hb : v'.flow.buffer = v.flow.buffer) : Frame v v' where
  key := hk
  cap := by rw [hb]
  evictedStats := by rw [hs]
  nFlows := by rw [hs]
  trace := ⟨[], by rw [hs, List.append_nil], nofun⟩
  pool := by rw [hs, hb]

/-- As `of_eq`, with one more event of the flow. -/
theorem of_event {e : Event} (ht : v'.trace = v.trace ++ [e]) (he : e.key? = some v.flow.key)
    (hsound : e.Sound) (hpool : v'.poolBytesUsed = v.poolBytesUsed)
    (hev : v'.evictedStats = v.evictedStats) (hn : v'.nFlows = v.nFlows)
    (hk : v'.flow.key = v.flow.key) (hb : v'.flow.buffer = v.flow.buffer) : Frame v v' where
  key := hk
  cap := by rw [hb]
  evictedStats := hev
  nFlows := hn
  trace := ⟨[e], ht, by rintro _ (_ | ⟨_, ⟨⟩⟩); exact ⟨he, hsound⟩⟩
  pool := by rw [hpool, hb]

end Frame

/-- What holds of a flow at any point, also in the middle of a drain; `hand` is
    the packet being processed, if it has not met its fate yet. -/
structure Core (cfg : Config) (hand : List Bytes) (v : View) : Prop where
  cap : v.flow.buffer.cap.isPowerOfTwo
  ring : v.flow.buffer.Inv v.flow.expected
  charged : v.flow.buffer.bytes ≤ v.poolBytesUsed
  pooled : v.poolBytesUsed ≤ cfg.globalMaxBufferBytes
  conserved : Conserved hand (ledger v.flow.key v.trace) v.flow.stats v.flow.buffer
  ordered : Ordered (epochs v.flow.key v.trace) v.flow.expected

/-- An operation keeps `Core`, taking the packets in `hand` to those in `hand'`,
    and is framed. -/
def Keeps (cfg : Config) (hand : List Bytes) (v : View) (hand' : List Bytes) (v' : View) : Prop :=
  Core cfg hand v → Core cfg hand' v' ∧ Frame v v'

namespace Keeps

variable {cfg : Config} {hand hand' hand'' : List Bytes} {v v' v'' : View}

theorem refl (cfg : Config) (hand : List Bytes) (v : View) : Keeps cfg hand v hand v :=
  fun h => ⟨h, .refl v⟩

theorem trans (h : Keeps cfg hand v hand' v') (h' : Keeps cfg hand' v' hand'' v'') :
    Keeps cfg hand v hand'' v'' := by
  intro hv
  obtain ⟨hc, hf⟩ := h hv
  obtain ⟨hc', hf'⟩ := h' hc
  exact ⟨hc', hf.trans hf'⟩

/-- An operation that changes neither the key, the ring, `expected` nor a counter
    of fates. -/
theorem of_eq {v w : View} (hs : w.toShared = v.toShared) (hk : w.flow.key = v.flow.key)
    (hb : w.flow.buffer = v.flow.buffer) (he : w.flow.expected = v.flow.expected)
    (hst : w.flow.stats.fates = v.flow.stats.fates) : Keeps cfg hand v hand w := by
  refine fun h => ⟨⟨?_, ?_, ?_, ?_, ⟨?_, ?_⟩, ?_⟩, .of_eq hs hk hb⟩
  · rw [hb]
    exact h.cap
  · rw [hb, he]
    exact h.ring
  · rw [hb, hs]
    exact h.charged
  · rw [hs]
    exact h.pooled
  · rw [hk, hs, hst, hb]
    exact h.conserved.fates
  · rw [hk, hs, hb]
    exact h.conserved.payloads
  · rw [hk, hs, he]
    exact h.ordered

end Keeps

/-! ## Draining -/

/-- The next expected packet is not buffered. -/
def Flow.Settled (f : Flow) : Prop := ∀ s ∈ f.buffer.entries, f.expected < s.seq

theorem Shared.poolRelease_of_le {s : Shared} {len : Nat} (h : len ≤ s.poolBytesUsed) :
    s.poolRelease len = { s with poolBytesUsed := s.poolBytesUsed - len } := if_pos h

/-- Releasing every slot gives back the bytes of all the entries. -/
theorem Shared.releaseSlots_eq {s : Shared} {slots : List (Option Slot)}
    (h : (slots.reduceOption.map (·.pkt.length)).sum ≤ s.poolBytesUsed) :
    s.releaseSlots slots = { s with
      poolBytesUsed := s.poolBytesUsed - (slots.reduceOption.map (·.pkt.length)).sum } := by
  induction slots generalizing s with
  | nil => rfl
  | cons o slots ih =>
    cases o with
    | none => exact ih h
    | some p =>
      rw [List.reduceOption_cons_of_some, List.map_cons, List.sum_cons] at h ⊢
      change (s.poolRelease p.pkt.length).releaseSlots slots = _
      rw [poolRelease_of_le (by omega), ih (by dsimp only; omega), Nat.sub_sub]

namespace View

variable {cfg : Config} {hand : List Bytes} {v : View} {nowUs : Nat}

theorem fates_deliverPkt (v : View) (seq : Nat) (pkt : Bytes) (nowUs enqUs : Nat) :
    (v.deliverPkt seq pkt nowUs enqUs).flow.stats.fates = v.flow.stats.fates + 1 := by
  simp only [deliverPkt, Stats.recordResidence, Stats.fates]
  omega

@[simp]
theorem flow_pop_key (v : View) (s : Slot) (r : Ring) (nowUs : Nat) :
    (v.pop s r nowUs).flow.key = v.flow.key := rfl

/-- Popping: the packet at `expected` leaves the ring and is delivered, and its
    bytes go back to the pool. -/
theorem keeps_pop {s : Slot} {r : Ring} (hr : v.flow.buffer.remove v.flow.expected = some (s, r)) :
    Keeps cfg hand v hand (v.pop s r nowUs) := by
  intro h
  obtain ⟨hs, hseq, rfl⟩ := (Ring.remove_eq_some_iff h.ring).1 hr
  have hbytes := (h.ring.bytes_clear hs).1
  have hcharged := h.charged
  have hpool : (v.pop s (v.flow.buffer.clear s) nowUs).toShared =
      { v.toShared with
        poolBytesUsed := v.poolBytesUsed - s.pkt.length
        trace := v.trace ++ [.delivered v.flow.key s.seq s.pkt] } :=
    Shared.poolRelease_of_le (by change s.pkt.length ≤ v.poolBytesUsed; omega)
  refine ⟨⟨h.cap, inv_clear_succ h.ring hs hseq, ?_, ?_, ?_, ?_⟩, ⟨rfl, rfl, ?_, ?_, ?_, ?_⟩⟩
  · rw [hpool, flow_pop_buffer]
    dsimp only
    omega
  · rw [hpool]
    exact (Nat.sub_le ..).trans h.pooled
  · rw [hpool]
    have htake := h.conserved.take (h.ring.entries_clear hs) (h.ring.count_clear hs).1
    simp only [flow_pop_key, ledger_append_delivered]
    exact htake.deliver (fates_deliverPkt v s.seq s.pkt nowUs s.enqueueUs)
  · rw [hpool]
    have := h.ordered.item hseq.ge
    rw [hseq] at this
    simpa [hseq] using this
  · rw [hpool]
  · rw [hpool]
  · rw [hpool]
    exact ⟨_, rfl, by rintro _ (_ | ⟨_, ⟨⟩⟩); exact ⟨rfl, trivial⟩⟩
  · rw [hpool, flow_pop_buffer]
    dsimp only
    omega

theorem keeps_drains {v' : View} (hd : Drains nowUs v v') : Keeps cfg hand v hand v' := by
  induction hd with
  | refl v => exact .refl cfg hand v
  | pop hr _ ih => exact (keeps_pop hr).trans ih

theorem keeps_drainContiguous (nowUs : Nat) (v : View) :
    Keeps cfg hand v hand (v.drainContiguous nowUs) :=
  keeps_drains (drains_drainContiguous nowUs v)

theorem settled_drainContiguous (nowUs : Nat) (h : v.flow.buffer.Inv v.flow.expected)
    (h' : (v.drainContiguous nowUs).flow.buffer.Inv (v.drainContiguous nowUs).flow.expected) :
    (v.drainContiguous nowUs).flow.Settled := by
  intro s hs
  have hne := (Ring.remove_eq_none_iff h').1 (drainContiguous_done h) s hs
  exact lt_of_le_of_ne (h'.le_of_mem hs) hne.symm

/-- `expected` may move up to the lowest buffered sequence number. -/
theorem keeps_skipTo {seq : Nat} (hle : v.flow.expected ≤ seq)
    (hs : ∀ s ∈ v.flow.buffer.entries, seq ≤ s.seq) : Keeps cfg hand v hand (v.skipTo seq) :=
  fun h => ⟨⟨h.cap, h.ring.mono hle hs, h.charged, h.pooled, h.conserved, h.ordered.mono hle⟩,
    .of_eq rfl rfl rfl⟩

theorem keeps_skipTo_lowestSeq (v : View) :
    Keeps cfg hand v hand (v.skipTo (v.flow.buffer.lowestSeq v.flow.expected)) :=
  fun h => keeps_skipTo (Ring.le_lowestSeq ..) (fun _ hs => Ring.lowestSeq_le h.ring hs) h

/-- The skip of `skip_to_lowest_and_drain`. -/
theorem keeps_skipToLowest (v : View) :
    Keeps cfg hand v hand (if v.flow.expected < v.flow.buffer.lowestSeq v.flow.expected
      then v.skipTo (v.flow.buffer.lowestSeq v.flow.expected) else v) := by
  split_ifs
  exacts [keeps_skipTo_lowestSeq v, .refl cfg hand v]

theorem keeps_skipToLowestAndDrain (nowUs : Nat) (v : View) :
    Keeps cfg hand v hand (v.skipToLowestAndDrain nowUs) :=
  ((keeps_skipToLowest v).trans (keeps_drainContiguous nowUs _)).trans
    (.of_eq rfl rfl rfl rfl rfl)

theorem settled_skipToLowestAndDrain (nowUs : Nat) (h : Core cfg hand v) :
    (v.skipToLowestAndDrain nowUs).flow.Settled := by
  have hskip := (keeps_skipToLowest v h).1
  exact settled_drainContiguous nowUs hskip.ring (keeps_drainContiguous nowUs _ hskip).1.ring

end View

/-! ## Between calls -/

/-- The gap timer runs exactly while packets are buffered, and every wait period
    but the open one has been counted as ended. -/
structure Flow.Periods (f : Flow) : Prop where
  armed : f.gapTimerActive = true ↔ f.buffer.count ≠ 0
  gapCount : f.stats.gapCount = f.stats.periodsClosed + if f.gapTimerActive then 1 else 0

namespace Flow.Periods

variable {f : Flow}

theorem closed (hc : f.buffer.count = 0) (ha : f.gapTimerActive = false)
    (hg : f.stats.gapCount = f.stats.periodsClosed) : f.Periods :=
  ⟨by simp [hc, ha], by simp [ha, hg]⟩

theorem opened (hc : f.buffer.count ≠ 0) (ha : f.gapTimerActive = true)
    (hg : f.stats.gapCount = f.stats.periodsClosed + 1) : f.Periods :=
  ⟨by simp [hc, ha], by simp [ha, hg]⟩

theorem of_count_ne (h : f.Periods) (hc : f.buffer.count ≠ 0) :
    f.gapTimerActive = true ∧ f.stats.gapCount = f.stats.periodsClosed + 1 := by
  have ha := h.armed.2 hc
  have := h.gapCount
  rw [if_pos ha] at this
  exact ⟨ha, this⟩

theorem of_count_eq (h : f.Periods) (hc : f.buffer.count = 0) :
    f.gapTimerActive = false ∧ f.stats.gapCount = f.stats.periodsClosed := by
  have ha : f.gapTimerActive = false :=
    Bool.eq_false_iff.2 fun ha => h.armed.1 ha hc
  have := h.gapCount
  rw [ha] at this
  exact ⟨ha, this⟩

end Flow.Periods

/-- What holds of a flow once a drain is over, and so between two calls. -/
structure Ready (cfg : Config) (hand : List Bytes) (v : View) : Prop where
  core : Core cfg hand v
  periods : v.flow.Periods
  settled : v.flow.Settled
  idle : v.flow.Live ∨ v.flow.buffer.count = 0
  outside : v.flow.passThrough = true → (epochs v.flow.key v.trace).current = none

namespace Ready

variable {cfg : Config} {hand : List Bytes} {v : View}

theorem of_live (hc : Core cfg hand v) (hp : v.flow.Periods) (hs : v.flow.Settled)
    (hl : v.flow.Live) : Ready cfg hand v :=
  ⟨hc, hp, hs, .inl hl, fun hpass => absurd (hpass.symm.trans hl.2) (by decide)⟩

theorem live_of_count (h : Ready cfg hand v) (hc : v.flow.buffer.count ≠ 0) : v.flow.Live :=
  h.idle.resolve_right hc

end Ready

namespace View

variable {cfg : Config} {hand : List Bytes} {v : View} {nowUs : Nat}

theorem isEmpty_eq_false : v.flow.buffer.isEmpty = false ↔ v.flow.buffer.count ≠ 0 := by
  simp [Ring.isEmpty]

theorem isEmpty_eq_true : v.flow.buffer.isEmpty = true ↔ v.flow.buffer.count = 0 := by
  simp [Ring.isEmpty]

/-- An overflow flush ends the wait period if it leaves nothing buffered. -/
theorem ready_overflowFlush (h : Ready cfg hand v) (hne : v.flow.buffer.isEmpty = false) :
    Ready cfg hand (v.overflowFlush nowUs) ∧ Frame v (v.overflowFlush nowUs) := by
  have hcount := isEmpty_eq_false.1 hne
  obtain ⟨harmed, hgap⟩ := h.periods.of_count_ne hcount
  obtain ⟨hc, hf⟩ := keeps_skipToLowestAndDrain nowUs v h.core
  have hs := settled_skipToLowestAndDrain nowUs h.core
  have hq := quiet_skipToLowestAndDrain v nowUs
  have hl := hq.live (h.live_of_count hcount)
  rw [overflowFlush]
  generalize v.skipToLowestAndDrain nowUs = w at hc hf hs hq hl
  simp only [harmed, if_true]
  split_ifs with hempty
  · obtain ⟨hc', hf'⟩ := Keeps.of_eq (v := w) (w := { w with flow := { w.flow with
      stats := { w.flow.stats with gapOverflowCount := w.flow.stats.gapOverflowCount + 1 }
      gapTimerActive := false } }) rfl rfl rfl rfl rfl hc
    refine ⟨.of_live hc' (.closed (isEmpty_eq_true.1 hempty) rfl ?_) hs hl, hf.trans hf'⟩
    calc w.flow.stats.gapCount
        = w.flow.stats.periodsClosed + 1 := by rw [hq.gapCount, hq.periodsClosed, hgap]
      _ = _ := (Stats.periodsClosed_overflow _).symm
  · refine ⟨.of_live hc (.opened (by simpa [Ring.isEmpty] using hempty) ?_ ?_) hs hl, hf⟩
    · rw [hq.gapTimerActive, harmed]
    · rw [hq.gapCount, hq.periodsClosed, hgap]

/-- A gap timeout ends the wait period, and opens the next one if packets are
    still buffered. -/
theorem ready_onGapTimeout (nowUs : Nat) (h : Ready cfg hand v) :
    Ready cfg hand (v.onGapTimeout nowUs) ∧ Frame v (v.onGapTimeout nowUs) := by
  rw [onGapTimeout]
  by_cases hempty : v.flow.buffer.isEmpty = true
  · rw [if_pos hempty]
    have hcount := isEmpty_eq_true.1 hempty
    obtain ⟨hoff, hgap⟩ := h.periods.of_count_eq hcount
    obtain ⟨hc, hf⟩ := Keeps.of_eq (v := v) (w := { v with flow := v.flow.stopGapTimer })
      rfl rfl rfl rfl rfl h.core
    exact ⟨⟨hc, .closed hcount rfl hgap, h.settled, h.idle, h.outside⟩, hf⟩
  · rw [if_neg hempty]
    have hcount : v.flow.buffer.count ≠ 0 := by simpa [Ring.isEmpty] using hempty
    obtain ⟨harmed, hgap⟩ := h.periods.of_count_ne hcount
    have hl := h.live_of_count hcount
    -- The period is closed first, then the gap is skipped and the flow drained.
    have hk : Keeps cfg hand v hand { v with flow := { v.flow with stats := { v.flow.stats with
      gapTimeoutCount := v.flow.stats.gapTimeoutCount + 1 } } } := .of_eq rfl rfl rfl rfl rfl
    have hclosed : v.flow.stats.gapCount = Stats.periodsClosed { v.flow.stats with
        gapTimeoutCount := v.flow.stats.gapTimeoutCount + 1 } := by
      rw [hgap, Stats.periodsClosed_timeout]
    obtain ⟨hc, hf⟩ := hk.trans (keeps_skipToLowestAndDrain nowUs _) h.core
    have hs := settled_skipToLowestAndDrain nowUs (hk h.core).1
    have hq := quiet_skipToLowestAndDrain { v with flow := { v.flow with stats := { v.flow.stats with
      gapTimeoutCount := v.flow.stats.gapTimeoutCount + 1 } } } nowUs
    have hl' := hq.live hl
    have hgap' := (hq.gapCount.trans hclosed).trans hq.periodsClosed.symm
    dsimp only
    generalize skipToLowestAndDrain _ nowUs = w at hc hf hs hl' hgap'
    split_ifs with hempty'
    · obtain ⟨hc', hf'⟩ := Keeps.of_eq (v := w) (w := { w with flow := w.flow.stopGapTimer })
        rfl rfl rfl rfl rfl hc
      exact ⟨.of_live hc' (.closed (isEmpty_eq_true.1 hempty') rfl hgap') hs hl', hf.trans hf'⟩
    · obtain ⟨hc', hf'⟩ := Keeps.of_eq (v := w) (w := { w with flow :=
        { w.flow.armGapTimer nowUs w.flow.waitMs with
          stats := { w.flow.stats with gapCount := w.flow.stats.gapCount + 1 } } })
        rfl rfl rfl rfl rfl hc
      have hcount' : w.flow.buffer.count ≠ 0 := by simpa [Ring.isEmpty] using hempty'
      exact ⟨.of_live hc' (.opened hcount' rfl (congrArg (· + 1) hgap')) hs hl', hf.trans hf'⟩

/-! ## Moves -/

theorem ready_handed (h : Ready cfg hand v) (p : Arrival) :
    Ready cfg (p.pkt :: hand) (v.handed p) ∧ Frame v (v.handed p) := by
  refine ⟨⟨⟨h.core.cap, h.core.ring, h.core.charged, h.core.pooled, ?_, ?_⟩, ⟨h.periods.1, h.periods.2⟩,
    h.settled, h.idle, ?_⟩, .of_event rfl rfl trivial rfl rfl rfl rfl rfl⟩
  · have := h.core.conserved.receive p.pkt
    rw [← ledger_append_handed] at this
    exact this
  · have := h.core.ordered
    rw [← epochs_append_handed _ _ p.pkt] at this
    exact this
  · have := h.outside
    rw [← epochs_append_handed _ _ p.pkt] at this
    exact this

theorem ready_deliverPassThrough {p : Arrival} (h : Ready cfg (p.pkt :: hand) v)
    (hpass : v.flow.passThrough = true) :
    Ready cfg hand (v.deliverPassThrough p) ∧ Frame v (v.deliverPassThrough p) := by
  have hnone := h.outside hpass
  refine ⟨⟨⟨h.core.cap, h.core.ring, h.core.charged, h.core.pooled, ?_, ?_⟩, ⟨h.periods.1, h.periods.2⟩,
    h.settled, h.idle, fun _ => ?_⟩, .of_event rfl rfl trivial rfl rfl rfl rfl rfl⟩
  · have := h.core.conserved.deliver (fates_deliverPkt v p.seq p.pkt p.nowUs p.nowUs)
    rw [← ledger_append_delivered _ _ p.seq] at this
    exact this
  · have := h.core.ordered.item_of_none (a := p.seq) hnone
    rw [← epochs_append_delivered _ _ _ p.pkt] at this
    exact this
  · have : ((epochs v.flow.key v.trace).note (.item p.seq)).current = none := by
      rw [Segments.note, hnone]
      rfl
    rw [← epochs_append_delivered _ _ _ p.pkt] at this
    exact this

/-- Delivering the packet in hand at `expected`. -/
theorem keeps_accept {p : Arrival} (hs : v.flow.Settled) (hseq : p.seq = v.flow.expected) :
    Keeps cfg (p.pkt :: hand) v hand (v.accept p) := by
  intro h
  refine ⟨⟨h.cap, h.ring.mono (Nat.le_succ _) hs, h.charged, h.pooled, ?_, ?_⟩,
    .of_event rfl rfl trivial rfl rfl rfl rfl rfl⟩
  · have := h.conserved.deliver (fates_deliverPkt v p.seq p.pkt p.nowUs p.nowUs)
    rw [← ledger_append_delivered _ _ p.seq] at this
    exact this
  · have := h.ordered.item hseq.ge
    rw [← epochs_append_delivered _ _ _ p.pkt] at this
    change Ordered _ (v.flow.expected + 1)
    rw [← hseq]
    exact this

/-- Starting an epoch over an empty ring. -/
theorem ready_startAt {p : Arrival} (hc : Core cfg (p.pkt :: hand) v)
    (hcount : v.flow.buffer.count = 0) (hp : v.flow.Periods) (hpass : v.flow.passThrough = false) :
    Ready cfg hand (v.startAt p) ∧ Frame v (v.startAt p) := by
  have hnil := hc.ring.count_eq_zero_iff.1 hcount
  have hs : ∀ f : Flow, f.buffer = v.flow.buffer → f.Settled := by
    intro f hb s hs
    rw [hb, hnil] at hs
    exact absurd hs List.not_mem_nil
  have hstart : Keeps cfg (p.pkt :: hand) v (p.pkt :: hand) { v with
      trace := v.trace ++ [.started v.flow.key]
      flow := { v.flow with initialized := true, expected := p.seq } } := by
    refine fun hc => ⟨⟨hc.cap, hc.ring.of_entries_eq_nil hnil _, hc.charged, hc.pooled, ?_, ?_⟩,
      .of_event rfl rfl trivial rfl rfl rfl rfl rfl⟩
    · have := hc.conserved
      rw [← ledger_append_started] at this
      exact this
    · have := hc.ordered.start p.seq
      rw [← epochs_append_started] at this
      exact this
  obtain ⟨hc', hf⟩ := hstart.trans (keeps_accept (p := p) (hs _ rfl) rfl) hc
  exact ⟨.of_live hc' ⟨hp.1, hp.2⟩ (hs _ rfl) ⟨rfl, hpass⟩, hf⟩

theorem ready_coldStart {p : Arrival} (h : Ready cfg (p.pkt :: hand) v)
    (hinit : v.flow.initialized = false) (hpass : v.flow.passThrough = false) :
    Ready cfg hand (v.startAt p) ∧ Frame v (v.startAt p) := by
  have hcount := h.idle.resolve_left fun hl => absurd (hl.1.symm.trans hinit) (by decide)
  exact ready_startAt h.core hcount h.periods hpass

/-- Delivering in order ends the wait period if it leaves nothing buffered. -/
theorem ready_deliverInOrder {p : Arrival} (h : Ready cfg (p.pkt :: hand) v) (hl : v.flow.Live)
    (hseq : p.seq = v.flow.expected) :
    Ready cfg hand (v.deliverInOrder p) ∧ Frame v (v.deliverInOrder p) := by
  have hk : Keeps cfg (p.pkt :: hand) v hand (v.accept p) := keeps_accept h.settled hseq
  obtain ⟨hc, hf⟩ := hk.trans (keeps_drainContiguous p.nowUs _) h.core
  have hs := settled_drainContiguous p.nowUs (hk h.core).1.ring hc.ring
  have hq₀ : Quiet v.flow (v.accept p).flow := ⟨rfl, rfl, rfl, rfl, rfl, rfl, le_rfl, le_rfl⟩
  have hq := hq₀.trans (drains_drainContiguous p.nowUs (v.accept p)).quiet
  have hl' := hq.live hl
  rw [deliverInOrder]
  generalize (v.accept p).drainContiguous p.nowUs = w at hc hf hs hq hl'
  dsimp only
  split_ifs with hend
  · obtain ⟨hempty, harmed⟩ := hend
    have hcount := h.periods.armed.1 (hq.gapTimerActive.symm.trans harmed)
    obtain ⟨-, hgap⟩ := h.periods.of_count_ne hcount
    obtain ⟨hc', hf'⟩ := Keeps.of_eq (v := w) (w := { w with flow := { w.flow.stopGapTimer with
      stats := { w.flow.stats with gapFilledCount := w.flow.stats.gapFilledCount + 1 } } })
      rfl rfl rfl rfl rfl hc
    refine ⟨.of_live hc' (.closed (isEmpty_eq_true.1 hempty) rfl ?_) hs hl', hf.trans hf'⟩
    calc w.flow.stats.gapCount
        = w.flow.stats.periodsClosed + 1 := by rw [hq.gapCount, hq.periodsClosed, hgap]
      _ = _ := (Stats.periodsClosed_filled _).symm
  · refine ⟨.of_live hc ?_ hs hl', hf⟩
    by_cases hcount : w.flow.buffer.count = 0
    · -- Nothing is left, so nothing was waiting: the timer was off.
      have hoff : w.flow.gapTimerActive = false :=
        Bool.eq_false_iff.2 fun ha => hend ⟨isEmpty_eq_true.2 hcount, ha⟩
      have hcount₀ : v.flow.buffer.count = 0 := by
        by_contra hne
        have := h.periods.armed.2 hne
        rw [← hq.gapTimerActive, hoff] at this
        exact absurd this (by decide)
      refine .closed hcount hoff ?_
      rw [hq.gapCount, hq.periodsClosed, (h.periods.of_count_eq hcount₀).2]
    · have hcount₀ : v.flow.buffer.count ≠ 0 := fun h0 => hcount (Nat.le_zero.1 (h0 ▸ hq.count_le))
      obtain ⟨harmed, hgap⟩ := h.periods.of_count_ne hcount₀
      refine .opened hcount (hq.gapTimerActive.trans harmed) ?_
      rw [hq.gapCount, hq.periodsClosed, hgap]

theorem ready_dropLate {p : Arrival} (h : Ready cfg (p.pkt :: hand) v) (seq : Nat) :
    Ready cfg hand (v.dropLate seq) ∧ Frame v (v.dropLate seq) := by
  refine ⟨⟨⟨h.core.cap, h.core.ring, h.core.charged, h.core.pooled, ?_, ?_⟩,
    ⟨h.periods.1, h.periods.2⟩, h.settled, h.idle, ?_⟩,
    .of_event rfl rfl trivial rfl rfl rfl rfl rfl⟩
  · have hst : (v.dropLate seq).flow.stats.fates = v.flow.stats.fates + 1 := by
      simp only [dropLate, Stats.fates]
      omega
    have := h.core.conserved.drop hst
    rw [← ledger_append_droppedLate _ _ seq] at this
    exact this
  · have := h.core.ordered
    rw [← epochs_append_droppedLate _ _ seq] at this
    exact this
  · have := h.outside
    rw [← epochs_append_droppedLate _ _ seq] at this
    exact this

theorem ready_drop {p : Arrival} (h : Ready cfg (p.pkt :: hand) v) (d : Drop) :
    Ready cfg hand (v.drop d) ∧ Frame v (v.drop d) := by
  have hst : (v.drop d).flow.stats.gapCount = v.flow.stats.gapCount ∧
      (v.drop d).flow.stats.periodsClosed = v.flow.stats.periodsClosed := by
    cases d <;> exact ⟨rfl, rfl⟩
  refine ⟨⟨⟨h.core.cap, h.core.ring, h.core.charged, h.core.pooled, ?_, h.core.ordered⟩,
    ⟨h.periods.1, ?_⟩, h.settled, h.idle, h.outside⟩, .of_eq rfl rfl rfl⟩
  · exact h.core.conserved.drop (Stats.fates_countDrop v.flow.stats d)
  · rw [hst.1, hst.2]
    exact h.periods.gapCount

/-- What `ring_insert` does with a packet of the window that is not buffered. -/
theorem insert_of_core {p : Arrival} {r : Ring} (h : Core cfg hand v) (hseq : v.flow.expected < p.seq)
    (hfar : v.flow.buffer.farAhead p.seq v.flow.expected = false)
    (hdup : v.flow.buffer.contains p.seq = false)
    (hr : v.flow.buffer.insert ⟨p.seq, p.pkt, p.nowUs⟩ v.flow.expected p.alloc.slots = some r) :
    r.Inv v.flow.expected ∧ r.cap = v.flow.buffer.cap ∧
      r.entries.Perm (⟨p.seq, p.pkt, p.nowUs⟩ :: v.flow.buffer.entries) ∧
      r.count = v.flow.buffer.count + 1 ∧ r.bytes = v.flow.buffer.bytes + p.pkt.length ∧
      v.flow.buffer.growVacant p.seq v.flow.expected p.alloc.slots = true ∧
      v.flow.buffer.growSpread p.seq v.flow.expected p.alloc.slots = true := by
  have hspan : p.seq - v.flow.expected < v.flow.buffer.cap := by
    simpa [Ring.farAhead] using hfar
  have hnew : ∀ t ∈ v.flow.buffer.entries, t.seq ≠ p.seq := by
    intro t ht heq
    have := (Ring.contains_iff h.ring).2 ⟨t, ht, heq⟩
    rw [hdup] at this
    exact absurd this (by decide)
  exact Ring.insert_spec h.ring h.cap hseq.le hspan hnew hr

/-- Storing a packet of the window that is not buffered opens a wait period if
    there was none. -/
theorem ready_inserted {p : Arrival} {r : Ring} (h : Ready cfg (p.pkt :: hand) v)
    (hl : v.flow.Live) (hseq : v.flow.expected < p.seq)
    (hfar : v.flow.buffer.farAhead p.seq v.flow.expected = false)
    (hdup : v.flow.buffer.contains p.seq = false)
    (hpool : v.poolWouldExhaust cfg p.pkt.length = false)
    (hr : v.flow.buffer.insert ⟨p.seq, p.pkt, p.nowUs⟩ v.flow.expected p.alloc.slots = some r) :
    Ready cfg hand (v.inserted p r) ∧ Frame v (v.inserted p r) := by
  obtain ⟨hi, hcap, hperm, hcount, hbytes, hvacant, hspread⟩ := insert_of_core h.core hseq hfar hdup hr
  have hpooled : v.poolBytesUsed + p.pkt.length ≤ cfg.globalMaxBufferBytes := by
    simpa [poolWouldExhaust] using hpool
  -- The stored packet, before the timer is armed.
  have hk : Keeps cfg (p.pkt :: hand) v hand { v with
      poolBytesUsed := v.poolBytesUsed + p.pkt.length
      trace := v.trace ++ [.stored v.flow.key p.seq
        (v.flow.buffer.growVacant p.seq v.flow.expected p.alloc.slots)
        (v.flow.buffer.growSpread p.seq v.flow.expected p.alloc.slots)]
      flow := { v.flow with buffer := r, lastProgressUs := p.nowUs } } := by
    intro hc
    have hcharged := hc.charged
    refine ⟨⟨?_, hi, ?_, hpooled, ?_, ?_⟩, ⟨rfl, hcap, rfl, rfl, ⟨_, rfl, ?_⟩, ?_⟩⟩
    · change r.cap.isPowerOfTwo
      rw [hcap]
      exact hc.cap
    · change r.bytes ≤ v.poolBytesUsed + p.pkt.length
      omega
    · have := hc.conserved.store (s := ⟨p.seq, p.pkt, p.nowUs⟩) hperm hcount
      rw [ledger_append_stored]
      exact this
    · rw [epochs_append_stored]
      exact hc.ordered
    · rintro _ (_ | ⟨_, ⟨⟩⟩)
      exact ⟨rfl, hvacant, hspread⟩
    · change v.poolBytesUsed + p.pkt.length + v.flow.buffer.bytes = v.poolBytesUsed + r.bytes
      omega
  obtain ⟨hc, hf⟩ := hk h.core
  have hs : ∀ s ∈ r.entries, v.flow.expected < s.seq := by
    intro s hs
    rcases List.mem_cons.1 (hperm.mem_iff.1 hs) with rfl | hs
    exacts [hseq, h.settled s hs]
  have hcount' : r.count ≠ 0 := by omega
  rw [inserted]
  dsimp only
  split_ifs with hempty
  · obtain ⟨-, hgap⟩ := h.periods.of_count_eq (isEmpty_eq_true.1 hempty)
    refine ⟨.of_live ⟨hc.1, hc.2, hc.3, hc.4, ⟨hc.5.1, hc.5.2⟩, hc.6⟩
      (.opened hcount' rfl (congrArg (· + 1) hgap)) hs hl, ?_⟩
    exact hf.trans (.of_eq rfl rfl rfl)
  · obtain ⟨harmed, hgap⟩ := h.periods.of_count_ne (by simpa [Ring.isEmpty] using hempty)
    exact ⟨.of_live hc (.opened hcount' harmed hgap) hs hl, hf⟩

/-! ## Demotion and reset -/

/-- A drain that starts at a buffered packet delivers it. -/
theorem count_drainContiguous_lt (nowUs : Nat) (h : v.flow.buffer.Inv v.flow.expected)
    (hs : ∃ s ∈ v.flow.buffer.entries, s.seq = v.flow.expected) :
    (v.drainContiguous nowUs).flow.buffer.count < v.flow.buffer.count := by
  obtain ⟨s, hs, hseq⟩ := hs
  have hr := (Ring.remove_eq_some_iff h).2 ⟨hs, hseq, rfl⟩
  have hsize : v.flow.buffer.size ≠ 0 := by
    have := h.le_of_mem hs
    have := h.lt_of_mem hs
    omega
  obtain ⟨n, hn⟩ := Nat.exists_eq_succ_of_ne_zero hsize
  have hle := (drains_drainLoop nowUs n (v.pop s (v.flow.buffer.clear s) nowUs)).quiet.count_le
  rw [flow_pop_buffer] at hle
  rw [drainContiguous, hn, drainLoop, hr]
  dsimp only
  have := (h.count_clear hs).1
  omega

theorem keeps_demoteLoop (nowUs fuel : Nat) (v : View) :
    Keeps cfg hand v hand (demoteLoop nowUs fuel v) := by
  induction fuel generalizing v with
  | zero => exact .refl cfg hand v
  | succ fuel ih =>
    rw [demoteLoop]
    split_ifs
    · exact .refl cfg hand v
    · exact ((keeps_skipTo_lowestSeq v).trans (keeps_drainContiguous nowUs _)).trans (ih _)

/-- With fuel for all its packets, the demote loop stops because none is left. -/
theorem demoteLoop_done (nowUs : Nat) {fuel : Nat} (h : Core cfg hand v) (hf : v.flow.buffer.count ≤ fuel) :
    (demoteLoop nowUs fuel v).flow.buffer.count = 0 := by
  induction fuel generalizing v with
  | zero => exact Nat.le_zero.1 hf
  | succ fuel ih =>
    rw [demoteLoop]
    split_ifs with hempty
    · exact isEmpty_eq_true.1 hempty
    · have hne : v.flow.buffer.entries ≠ [] := fun h0 =>
        hempty (isEmpty_eq_true.2 (h.ring.count_eq_zero_iff.2 h0))
      have hskip := (keeps_skipTo_lowestSeq v h).1
      refine ih (keeps_drainContiguous nowUs _ hskip).1 ?_
      have hlt := count_drainContiguous_lt nowUs hskip.ring
        (Ring.lowestSeq_spec h.ring hne).1
      change _ < v.flow.buffer.count at hlt
      omega

theorem quiet_demoteLoop (nowUs fuel : Nat) (v : View) : Quiet v.flow (demoteLoop nowUs fuel v).flow := by
  induction fuel generalizing v with
  | zero => exact .refl _
  | succ fuel ih =>
    rw [demoteLoop]
    split_ifs
    · exact .refl _
    · have hskip : Quiet v.flow (v.skipTo (v.flow.buffer.lowestSeq v.flow.expected)).flow :=
        ⟨rfl, rfl, rfl, rfl, rfl, rfl, le_rfl, le_rfl⟩
      exact (hskip.trans (drains_drainContiguous nowUs _).quiet).trans (ih _)

/-- The end of the wait period, if any, at a demotion or a reset; `st` are the
    counters with the period counted. -/
theorem keeps_closePeriod {st : Stats} (hclosed : st.periodsClosed = v.flow.stats.periodsClosed + 1)
    (hgap : st.gapCount = v.flow.stats.gapCount) (hfates : st.fates = v.flow.stats.fates)
    (h : Ready cfg hand v) :
    ∃ w, w = (if v.flow.gapTimerActive then { v with flow := { v.flow with stats := st } } else v) ∧
      Core cfg hand w ∧ Frame v w ∧ w.flow.stats.gapCount = w.flow.stats.periodsClosed := by
  refine ⟨_, rfl, ?_⟩
  split_ifs with ha
  · obtain ⟨hc, hf⟩ := Keeps.of_eq (v := v) (w := { v with flow := { v.flow with stats := st } })
      rfl rfl rfl rfl hfates h.core
    refine ⟨hc, hf, ?_⟩
    have := (h.periods.of_count_ne (h.periods.armed.1 ha)).2
    exact (hgap.trans this).trans hclosed.symm
  · have := h.periods.gapCount
    rw [if_neg ha] at this
    exact ⟨h.core, .refl v, this⟩

/-- A demotion flushes the buffer, in order, and ends the epoch. -/
theorem ready_demote (h : Ready cfg hand v) (nowUs : Nat) :
    Ready cfg hand (v.demote nowUs) ∧ Frame v (v.demote nowUs) := by
  obtain ⟨w, hw, hc₀, hf₀, hgap⟩ := keeps_closePeriod (Stats.periodsClosed_demote _) rfl rfl h
  rw [demote, flushBufferForDemote, ← hw]
  obtain ⟨hc, hf⟩ := keeps_demoteLoop nowUs w.flow.buffer.size w hc₀
  have hcount := demoteLoop_done nowUs hc₀ hc₀.ring.count_le_size
  have hq := quiet_demoteLoop nowUs w.flow.buffer.size w
  have hgap' := (hq.gapCount.trans hgap).trans hq.periodsClosed.symm
  dsimp only
  generalize demoteLoop nowUs w.flow.buffer.size w = u at hc hf hcount hgap'
  have hbytes : u.flow.buffer.bytes = 0 := by
    rw [hc.ring.bytes, hc.ring.count_eq_zero_iff.1 hcount]
    rfl
  refine ⟨⟨⟨hc.cap, Ring.inv_free .., Nat.zero_le _, hc.pooled, ?_, ?_⟩, .closed rfl rfl hgap',
    nofun, .inr rfl, fun _ => ?_⟩, (hf₀.trans hf).trans ⟨rfl, rfl, rfl, rfl, ⟨_, rfl, ?_⟩, ?_⟩⟩
  · have hst : u.flow.stats.fates = u.flow.stats.fates + u.flow.buffer.count := by
      rw [hcount]
      rfl
    have := hc.conserved.discard hst
    rw [← ledger_append_demoted] at this
    exact ⟨this.1, this.2⟩
  · have := hc.ordered.stop u.flow.expected
    rw [← epochs_append_demoted] at this
    exact this
  · change (epochs u.flow.key (u.trace ++ [.demoted u.flow.key])).current = none
    rw [epochs_append_demoted]
    rfl
  · rintro _ (_ | ⟨_, ⟨⟩⟩)
    exact ⟨rfl, trivial⟩
  · change u.poolBytesUsed + u.flow.buffer.bytes = u.poolBytesUsed + 0
    rw [hbytes]

/-- A reset discards the buffer: what it held is counted and its bytes go back
    to the pool. -/
theorem keeps_resetReorderFlow (h : Ready cfg hand v) :
    Core cfg hand v.resetReorderFlow ∧ Frame v v.resetReorderFlow ∧
      v.resetReorderFlow.flow.Periods := by
  obtain ⟨w, hw, hc, hf, hgap⟩ := keeps_closePeriod (Stats.periodsClosed_reset _) rfl rfl h
  rw [resetReorderFlow, discardBufferForReset, ← hw]
  have hbytes := hc.ring.bytes
  have hrel := Shared.releaseSlots_eq (hbytes ▸ hc.charged)
  have hcount : w.flow.buffer.slots.countP Option.isSome = w.flow.buffer.count := by
    rw [hc.ring.count, Ring.entries, List.reduceOption_length_eq, List.countP_eq_length_filter]
  dsimp only
  rw [hrel, hcount]
  refine ⟨⟨hc.cap, Ring.inv_free .., Nat.zero_le _, (Nat.sub_le ..).trans hc.pooled, ?_, hc.ordered⟩,
    hf.trans ⟨rfl, rfl, rfl, rfl, ⟨[], (List.append_nil _).symm, by simp⟩, ?_⟩, .closed rfl rfl hgap⟩
  · exact hc.conserved.discard (Nat.add_assoc ..).symm
  · change w.poolBytesUsed - _ + w.flow.buffer.bytes = w.poolBytesUsed + 0
    have := hc.charged
    rw [← Ring.entries, ← hbytes]
    omega

theorem ready_reset {p : Arrival} (h : Ready cfg (p.pkt :: hand) v) :
    Ready cfg hand (v.resetReorderFlow.startAt p) ∧ Frame v (v.resetReorderFlow.startAt p) := by
  obtain ⟨hc, hf, hp⟩ := keeps_resetReorderFlow h
  obtain ⟨hr, hf'⟩ := ready_startAt hc rfl hp rfl
  exact ⟨hr, hf.trans hf'⟩

end View

/-! ## Runs of moves -/

/-- The packet in hand, as a list. -/
def inHand (p : Arrival) (b : Bool) : List Bytes := if b then [p.pkt] else []

variable {cfg : Config} {p : Arrival} {b b' : Bool} {v v' : View}

/-- Every move keeps the invariant, and is framed. -/
theorem Move.ready (hm : Move cfg p b v b' v') (h : Ready cfg (inHand p b) v) :
    Ready cfg (inHand p b') v' ∧ Frame v v' := by
  cases hm with
  | reset _ => exact View.ready_reset h
  | passThrough hpass => exact View.ready_deliverPassThrough h hpass
  | coldStart hinit hpass => exact View.ready_coldStart h hinit hpass
  | inOrder hl hseq => exact View.ready_deliverInOrder h hl hseq
  | late _ _ => exact View.ready_dropLate h _
  | drop d _ _ => exact View.ready_drop h d
  | flush _ hne _ _ => exact View.ready_overflowFlush h hne
  | insert hl hseq hfar hdup hpool hr => exact View.ready_inserted h hl hseq hfar hdup hpool hr
  | classify _ seen large =>
    obtain ⟨hc, hf⟩ := Keeps.of_eq (v := v) (w := { v with flow := { v.flow with
      classifySeen := seen, classifyLarge := large } }) rfl rfl rfl rfl rfl h.core
    exact ⟨⟨hc, ⟨h.periods.1, h.periods.2⟩, h.settled, h.idle, h.outside⟩, hf⟩
  | demote => exact View.ready_demote h _

theorem Moves.ready (hm : Moves cfg p b v b' v') (h : Ready cfg (inHand p b) v) :
    Ready cfg (inHand p b') v' ∧ Frame v v' := by
  induction hm with
  | refl b v => exact ⟨h, .refl v⟩
  | head hm _ ih =>
    obtain ⟨hr, hf⟩ := hm.ready h
    obtain ⟨hr', hf'⟩ := ih hr
    exact ⟨hr', hf.trans hf'⟩

/-- Processing a packet keeps the invariant of its flow. -/
theorem View.ready_onReordered (h : Ready cfg [] v) (p : Arrival) :
    Ready cfg [] (v.onReordered cfg p) ∧ Frame v (v.onReordered cfg p) := by
  obtain ⟨hr, hf⟩ := ready_handed h p
  obtain ⟨hr', hf'⟩ := (moves_onReordered v cfg p).ready hr
  exact ⟨hr', hf.trans hf'⟩

end Mqvpn.Reorder
