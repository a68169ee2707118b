import Mqvpn.Reorder.RxInv

/-!
# What the receiver guarantees

For any configuration that `rxNew` accepts and any sequence of calls, with any
datagrams, times and failing allocations:

* `delivery_increasing`: within an epoch of a flow, the sequence numbers it
  delivers increase;
* `ring_representation`: the ring of a flow represents its buffered packets, and
  no insertion or growth loses one;
* `gap_timer_accounting`: the gap timer runs exactly while packets are buffered,
  and every wait period but the open one has been counted as ended;
* `pool_accounting`: the pool counter is the sum of the bytes of all the rings,
  within the limit, and never clamped;
* `packet_conservation`: every packet handed to a flow has one fate, and no
  payload is invented.

They are read off `Rx.Good`, which every run keeps.
-/

namespace Mqvpn.Reorder

/-! ## A sample run -/

/-- A call that receives a sample packet under a sequence number, memory permitting. -/
def receive (port : UInt8) (len seq nowUs : Nat) : Rx.Op :=
  .onPacket (wireEncode typeV1 0 seq ++ udpPacket port len) nowUs ⟨true, true, true⟩

/-- A new receiver of the default configuration. -/
def defaultRx : Rx where
  cfg := Config.default.finalize
  hashSeed := 0
  buckets := List.replicate rxBuckets []

theorem rxNew_default : rxNew .default 0 = some defaultRx := rfl

/-- A loss, a late arrival and a gap that is still open. -/
def sampleRun : List Rx.Op :=
  [receive 1 30 0 0, receive 1 40 2 1000, receive 1 30 1 2000, receive 1 50 4 3000]

namespace Rx

variable {cfg : Config} {seed : UInt64} {rx : Rx}

/-! ## Order -/

/-- Within one epoch of a flow, the deliveries increase. -/
theorem delivery_increasing (h : rxNew cfg seed = some rx) (ops : List Op) (k : FlowKey) :
    ∀ epoch ∈ (epochs k (rx.run ops).trace).all, epoch.Pairwise (· < ·) :=
  (good_run (good_of_rxNew h) ops).inv.sorted k

theorem delivery_increasing_sample :
    (epochs (udpKey 1) (defaultRx.run sampleRun).trace).all = [[0, 1, 2]] ∧
      ∀ epoch ∈ (epochs (udpKey 1) (defaultRx.run sampleRun).trace).all, epoch.Pairwise (· < ·) :=
  ⟨by decide +kernel, delivery_increasing rxNew_default sampleRun (udpKey 1)⟩

/-! ## The ring -/

/-- The ring of every flow is empty, or an array of a power of two of slots,
    each empty or holding a packet of the window beyond `expected` at its own
    index; and no packet was ever stored over another, or rehashed into a slot
    that another one takes. -/
theorem ring_representation (h : rxNew cfg seed = some rx) (ops : List Op) :
    (∀ f ∈ (rx.run ops).flows,
      ((f.buffer.size = 0 ∧ f.buffer.slots = []) ∨
        (f.buffer.size.isPowerOfTwo ∧ f.buffer.size ≤ f.buffer.cap)) ∧
      f.buffer.slots.length = f.buffer.size ∧
      (∀ i s, f.buffer.slots[i]? = some (some s) →
        s.seq % f.buffer.size = i ∧ f.expected < s.seq ∧ s.seq < f.expected + f.buffer.size) ∧
      f.buffer.count = f.buffer.slots.countP Option.isSome ∧
      f.buffer.bytes = (f.buffer.entries.map (·.pkt.length)).sum) ∧
    ∀ k seq vacant spread, .stored k seq vacant spread ∈ (rx.run ops).trace →
      vacant = true ∧ spread = true := by
  have hinv := (good_run (good_of_rxNew h) ops).inv
  refine ⟨fun f hf => ?_, fun k seq vacant spread he => hinv.sound _ he⟩
  have hr := hinv.ready f hf
  have hring := hr.core.ring
  refine ⟨?_, hring.length, fun i s hi => ?_, ?_, hring.bytes⟩
  · rcases hring.size with h0 | h2
    · exact .inl ⟨h0, List.length_eq_zero_iff.1 (hring.length.trans h0)⟩
    · exact .inr ⟨h2, hring.size_le⟩
  · obtain ⟨hmod, -, hlt⟩ := hring.slot i s hi
    exact ⟨hmod, hr.settled s (Ring.mem_entries.2 ⟨i, hi⟩), hlt⟩
  · rw [hring.count, Ring.entries, List.reduceOption_length_eq, List.countP_eq_length_filter]

theorem ring_representation_sample :
    ((defaultRx.run sampleRun).flows.map fun f => (f.buffer.size, f.buffer.count)) = [(2, 1)] ∧
      ∀ f ∈ (defaultRx.run sampleRun).flows, ∀ i s, f.buffer.slots[i]? = some (some s) →
        s.seq % f.buffer.size = i ∧ f.expected < s.seq ∧ s.seq < f.expected + f.buffer.size :=
  ⟨by decide +kernel, fun f hf => ((ring_representation rxNew_default sampleRun).1 f hf).2.2.1⟩

/-! ## Wait periods -/

/-- The gap timer of a flow runs exactly while its ring holds packets, and the
    wait periods it opened are those that ended and the open one. -/
theorem gap_timer_accounting (h : rxNew cfg seed = some rx) (ops : List Op) :
    ∀ f ∈ (rx.run ops).flows,
      (f.gapTimerActive = true ↔ f.buffer.isEmpty = false) ∧
      f.stats.gapCount = f.stats.gapFilledCount + f.stats.gapTimeoutCount +
        f.stats.gapOverflowCount + f.stats.gapDemoteCount + f.stats.gapResetCount +
        if f.gapTimerActive then 1 else 0 := by
  intro f hf
  have hp := ((good_run (good_of_rxNew h) ops).inv.ready f hf).periods
  exact ⟨by rw [hp.armed]; simp [Ring.isEmpty], hp.gapCount⟩

theorem gap_timer_accounting_sample :
    ((defaultRx.run sampleRun).flows.map fun f => (f.gapTimerActive, f.stats.gapCount)) = [(true, 2)] ∧
      ∀ f ∈ (defaultRx.run sampleRun).flows, f.gapTimerActive = true ↔ f.buffer.isEmpty = false :=
  ⟨by decide +kernel, fun f hf => (gap_timer_accounting rxNew_default sampleRun f hf).1⟩

/-! ## The pool -/

/-- The pool counter is the sum of the bytes of all the rings, within the limit,
    and its clamp is never reached. -/
theorem pool_accounting (h : rxNew cfg seed = some rx) (ops : List Op) :
    (rx.run ops).poolBytesUsed = ((rx.run ops).flows.map (·.buffer.bytes)).sum ∧
      (rx.run ops).poolBytesUsed ≤ cfg.globalMaxBufferBytes ∧
      .clamped ∉ (rx.run ops).trace := by
  have hg := good_run (good_of_rxNew h) ops
  have hlimit : (rx.run ops).cfg.globalMaxBufferBytes = cfg.globalMaxBufferBytes := by
    rw [cfg_run (good_of_rxNew h), cfg_of_rxNew h, Config.finalize]
  exact ⟨hg.inv.pool, hlimit ▸ hg.inv.pooled, fun hc => hg.inv.sound _ hc⟩

theorem pool_accounting_sample :
    (defaultRx.run sampleRun).poolBytesUsed = 50 ∧ .clamped ∉ (defaultRx.run sampleRun).trace :=
  ⟨by decide +kernel, (pool_accounting rxNew_default sampleRun).2.2⟩

/-! ## Fates -/

/-- The packets handed to a flow since it was created are those delivered,
    dropped, discarded or buffered; and the payloads delivered and buffered are
    among those received. -/
theorem packet_conservation (h : rxNew cfg seed = some rx) (ops : List Op) :
    ∀ f ∈ (rx.run ops).flows,
      (ledger f.key (rx.run ops).trace).received.length =
        f.stats.deliveredCount + f.stats.tooLateDropCount + f.stats.tooFarAheadDropCount +
          f.stats.duplicateDropCount + f.stats.perFlowLimitDropCount + f.stats.poolDropCount +
          f.stats.resetDiscardCount + f.buffer.count ∧
      ((ledger f.key (rx.run ops).trace).delivered : Multiset Bytes) +
          (f.buffer.entries.map (·.pkt) : List Bytes) ≤
        (ledger f.key (rx.run ops).trace).received := by
  intro f hf
  have hc := ((good_run (good_of_rxNew h) ops).inv.ready f hf).core.conserved
  exact ⟨hc.fates, by simpa using hc.payloads⟩

theorem packet_conservation_sample :
    ((defaultRx.run sampleRun).flows.map fun f => (f.stats.deliveredCount, f.buffer.count)) = [(3, 1)] ∧
      ∀ f ∈ (defaultRx.run sampleRun).flows,
        ((ledger f.key (defaultRx.run sampleRun).trace).delivered : Multiset Bytes) +
            (f.buffer.entries.map (·.pkt) : List Bytes) ≤
          (ledger f.key (defaultRx.run sampleRun).trace).received :=
  ⟨by decide +kernel, fun f hf => (packet_conservation rxNew_default sampleRun f hf).2⟩

end Rx

end Mqvpn.Reorder
