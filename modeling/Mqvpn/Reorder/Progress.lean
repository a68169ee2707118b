import Mqvpn.Reorder.Resolution
import Mqvpn.Reorder.RxTable

/-!
# Timeouts make progress, and flushes end

A drain delivers the packets that it pops, in the order of their sequence numbers
(`Delivers`). A skip moves to the lowest buffered packet first, so the drain that
follows it delivers at least that one (`skipToLowestAndDrain_delivers`), and the
loop of a demotion, which skips and drains until nothing is left, runs through all
of them (`flushes_demoteLoop`).

The views at which a receiver comes to a skip or a flush are those of its flows
between two calls, those in the middle of a packet, and those in the middle of a
tick (`Rx.Visits`); the flow invariant holds in all of them.
-/

namespace Mqvpn.Reorder

/-! ## Deliveries -/

/-- What the deliveries of buffered packets leave in the trace. -/
def deliveries (key : FlowKey) (ss : List Slot) : List Event :=
  ss.map fun s => .delivered key s.seq s.pkt

/-- The packets `ss` leave the ring for the deliver callback, each once and in
    ascending order, while `expected` moves past them; nothing else is traced. -/
structure Delivers (v : View) (ss : List Slot) (v' : View) : Prop where
  trace : v'.trace = v.trace ++ deliveries v.flow.key ss
  ring : v.flow.buffer.entries.Perm (ss ++ v'.flow.buffer.entries)
  sorted : (ss.map Slot.seq).Pairwise (· < ·)
  window : ∀ s ∈ ss, v.flow.expected ≤ s.seq ∧ s.seq < v'.flow.expected
  expected : v.flow.expected ≤ v'.flow.expected
  key : v'.flow.key = v.flow.key

namespace Delivers

variable {v v' v'' : View} {ss ss' : List Slot}

/-- An operation that moves `expected` up and delivers nothing. -/
theorem of_eq (ht : v'.trace = v.trace) (hr : v'.flow.buffer = v.flow.buffer)
    (he : v.flow.expected ≤ v'.flow.expected) (hk : v'.flow.key = v.flow.key) : Delivers v [] v' where
  trace := by rw [ht, deliveries, List.map_nil, List.append_nil]
  ring := by rw [hr, List.nil_append]
  sorted := List.Pairwise.nil
  window s hs := absurd hs List.not_mem_nil
  expected := he
  key := hk

theorem refl (v : View) : Delivers v [] v := of_eq rfl rfl le_rfl rfl

theorem trans (h : Delivers v ss v') (h' : Delivers v' ss' v'') : Delivers v (ss ++ ss') v'' where
  trace := by
    rw [h'.trace, h.trace, h.key, deliveries, deliveries, deliveries, List.map_append,
      List.append_assoc]
  ring := by
    rw [List.append_assoc]
    exact h.ring.trans (h'.ring.append_left ss)
  sorted := by
    rw [List.map_append]
    refine List.pairwise_append.2 ⟨h.sorted, h'.sorted, fun a ha b hb => ?_⟩
    obtain ⟨s, hs, rfl⟩ := List.mem_map.1 ha
    obtain ⟨t, ht, rfl⟩ := List.mem_map.1 hb
    exact (h.window s hs).2.trans_le (h'.window t ht).1
  window s hs := by
    rcases List.mem_append.1 hs with hs | hs
    · exact ⟨(h.window s hs).1, (h.window s hs).2.trans_le h'.expected⟩
    · exact ⟨h.expected.trans (h'.window s hs).1, (h'.window s hs).2⟩
  expected := h.expected.trans h'.expected
  key := h'.key.trans h.key

/-- A delivery moves `expected` past the packet. -/
theorem expected_lt (h : Delivers v ss v') (hne : ss ≠ []) : v.flow.expected < v'.flow.expected := by
  obtain ⟨s, hs⟩ := List.exists_mem_of_ne_nil ss hne
  exact (h.window s hs).1.trans_lt (h.window s hs).2

end Delivers

namespace View

variable {cfg : Config} {hand : List Bytes} {v v' : View} {nowUs : Nat}

theorem delivers_pop {s : Slot} {r : Ring} (hc : Core cfg hand v)
    (hr : v.flow.buffer.remove v.flow.expected = some (s, r)) :
    Delivers v [s] (v.pop s r nowUs) := by
  obtain ⟨hs, hseq, rfl⟩ := (Ring.remove_eq_some_iff hc.ring).1 hr
  have hbytes := (hc.ring.bytes_clear hs).1
  have hcharged := hc.charged
  have hshared : (v.pop s (v.flow.buffer.clear s) nowUs).toShared = { v.toShared with
      poolBytesUsed := v.poolBytesUsed - s.pkt.length
      trace := v.trace ++ [.delivered v.flow.key s.seq s.pkt] } :=
    Shared.poolRelease_of_le (by change s.pkt.length ≤ v.poolBytesUsed; omega)
  refine ⟨by rw [hshared]; rfl, hc.ring.entries_clear hs, List.pairwise_singleton _ _, ?_,
    Nat.le_succ _, rfl⟩
  rintro t ht
  rw [List.mem_singleton.1 ht, hseq]
  exact ⟨le_rfl, Nat.lt_succ_self _⟩

/-- A drain delivers what it pops. -/
theorem delivers_drains (hd : Drains nowUs v v') (hc : Core cfg hand v) : ∃ ss, Delivers v ss v' := by
  induction hd with
  | refl v => exact ⟨[], .refl v⟩
  | pop hr _ ih =>
    obtain ⟨ss, hss⟩ := ih (keeps_pop hr hc).1
    exact ⟨_, (delivers_pop hc hr).trans hss⟩

theorem delivers_drainContiguous (nowUs : Nat) (hc : Core cfg hand v) :
    ∃ ss, Delivers v ss (v.drainContiguous nowUs) :=
  delivers_drains (drains_drainContiguous nowUs v) hc

/-- The skip to the lowest buffered packet, as both loops make it. -/
theorem delivers_skipTo_lowestSeq (v : View) :
    Delivers v [] (v.skipTo (v.flow.buffer.lowestSeq v.flow.expected)) :=
  .of_eq rfl rfl (Ring.le_lowestSeq ..) rfl

/-- A drain that starts at a buffered packet delivers it. -/
theorem delivers_drainContiguous_ne (nowUs : Nat) (hc : Core cfg hand v)
    (hs : ∃ s ∈ v.flow.buffer.entries, s.seq = v.flow.expected) :
    ∃ ss, ss ≠ [] ∧ Delivers v ss (v.drainContiguous nowUs) := by
  obtain ⟨ss, hss⟩ := delivers_drainContiguous nowUs hc
  refine ⟨ss, ?_, hss⟩
  rintro rfl
  have hlt := count_drainContiguous_lt nowUs hc.ring hs
  have hring := (keeps_drainContiguous nowUs v hc).1.ring
  rw [hring.count, hc.ring.count, hss.ring.length_eq, List.nil_append] at hlt
  exact lt_irrefl _ hlt

/-- The skip of `skip_to_lowest_and_drain` is to the lowest buffered packet, also
    where its guard finds that there is no gap to skip. -/
theorem skipToLowest_eq (v : View) :
    (if v.flow.expected < v.flow.buffer.lowestSeq v.flow.expected
      then v.skipTo (v.flow.buffer.lowestSeq v.flow.expected) else v) =
      v.skipTo (v.flow.buffer.lowestSeq v.flow.expected) := by
  split_ifs with hlt
  · rfl
  · have heq : v.flow.buffer.lowestSeq v.flow.expected = v.flow.expected :=
      le_antisymm (not_lt.1 hlt) (Ring.le_lowestSeq ..)
    rw [heq]
    rfl

/-- With packets buffered, the lowest one is where the skip goes. -/
theorem exists_lowest (hc : Core cfg hand v) (hne : v.flow.buffer.isEmpty = false) :
    ∃ s ∈ v.flow.buffer.entries, s.seq = v.flow.buffer.lowestSeq v.flow.expected := by
  have hnil : v.flow.buffer.entries ≠ [] := fun h0 =>
    isEmpty_eq_false.1 hne (hc.ring.count_eq_zero_iff.2 h0)
  exact (Ring.lowestSeq_spec hc.ring hnil).1

/-- A skip with packets buffered delivers at least one and moves on. -/
theorem skipToLowestAndDrain_delivers (nowUs : Nat) (hc : Core cfg hand v)
    (hne : v.flow.buffer.isEmpty = false) :
    ∃ ss, ss ≠ [] ∧ Delivers v ss (v.skipToLowestAndDrain nowUs) := by
  obtain ⟨ss, hss, hd⟩ := delivers_drainContiguous_ne nowUs (keeps_skipTo_lowestSeq v hc).1
    (exists_lowest hc hne)
  refine ⟨ss, hss, ?_⟩
  rw [skipToLowestAndDrain]
  dsimp only
  rw [skipToLowest_eq]
  have hall := (delivers_skipTo_lowestSeq v).trans hd
  exact ⟨hall.trace, hall.ring, hall.sorted, hall.window, hall.expected, hall.key⟩

/-- The drain of a skip goes on until the next expected packet is not buffered. -/
theorem skipToLowestAndDrain_done (nowUs : Nat) (hc : Core cfg hand v) :
    (v.skipToLowestAndDrain nowUs).flow.buffer.remove (v.skipToLowestAndDrain nowUs).flow.expected =
      none :=
  drainContiguous_done (keeps_skipToLowest v hc).1.ring

end View

/-! ## The flush of a demotion -/

/-- The loop of `flush_buffer_for_demote`, run to its end: rounds of a skip and of
    a drain, each until the next expected packet is not buffered, as long as the
    ring is not empty. -/
inductive Flushes (nowUs : Nat) : View → View → Prop
  | done {v : View} : v.flow.buffer.isEmpty = true → Flushes nowUs v v
  | round {v w v' : View} : v.flow.buffer.isEmpty = false →
      Drains nowUs (v.skipTo (v.flow.buffer.lowestSeq v.flow.expected)) w →
      w.flow.buffer.remove w.flow.expected = none → Flushes nowUs w v' → Flushes nowUs v v'

namespace View

variable {cfg : Config} {hand : List Bytes} {v v' : View} {nowUs : Nat}

/-- With packets buffered, a round of the loop delivers at least one of them. -/
theorem count_round_lt (nowUs : Nat) (hc : Core cfg hand v) (hne : v.flow.buffer.isEmpty = false) :
    ((v.skipTo (v.flow.buffer.lowestSeq v.flow.expected)).drainContiguous nowUs).flow.buffer.count <
      v.flow.buffer.count :=
  count_drainContiguous_lt nowUs (keeps_skipTo_lowestSeq v hc).1.ring (exists_lowest hc hne)

/-- With fuel for all its packets, the loop runs to its end. -/
theorem flushes_demoteLoop (nowUs : Nat) {fuel : Nat} (hc : Core cfg hand v)
    (hf : v.flow.buffer.count ≤ fuel) : Flushes nowUs v (demoteLoop nowUs fuel v) := by
  induction fuel generalizing v with
  | zero => exact .done (isEmpty_eq_true.2 (Nat.le_zero.1 hf))
  | succ fuel ih =>
    rw [demoteLoop]
    split_ifs with hempty
    · exact .done hempty
    · have hempty : v.flow.buffer.isEmpty = false := by simpa using hempty
      have hskip := (keeps_skipTo_lowestSeq v hc).1
      have hlt := count_round_lt nowUs hc hempty
      exact .round hempty (drains_drainContiguous nowUs _) (drainContiguous_done hskip.ring)
        (ih (keeps_drainContiguous nowUs _ hskip).1 (by omega))

/-- The loop delivers what is buffered, and nothing else. -/
theorem delivers_flushes (h : Flushes nowUs v v') (hc : Core cfg hand v) :
    v'.flow.buffer.entries = [] ∧ ∃ ss, Delivers v ss v' := by
  induction h with
  | done hempty => exact ⟨hc.ring.count_eq_zero_iff.1 (isEmpty_eq_true.1 hempty), [], .refl _⟩
  | @round v w v' _ hd _ _ ih =>
    have hskip := (keeps_skipTo_lowestSeq v hc).1
    obtain ⟨ss, hss⟩ := delivers_drains hd hskip
    obtain ⟨hnil, ss', hss'⟩ := ih (keeps_drains hd hskip).1
    exact ⟨hnil, _, ((delivers_skipTo_lowestSeq v).trans hss).trans hss'⟩

/-- What `flush_buffer_for_demote` does before its loop. -/
def demoteCounted (v : View) : View :=
  if v.flow.gapTimerActive then { v with flow := { v.flow with
    stats := { v.flow.stats with gapDemoteCount := v.flow.stats.gapDemoteCount + 1 } } }
  else v

/-- What `flush_buffer_for_demote` does after its loop. -/
def demoteClosed (v : View) (nowUs : Nat) : View :=
  let f := { v.flow with lastProgressUs := nowUs }
  { v with flow := { f.stopGapTimer with buffer := f.buffer.free } }

theorem keeps_demoteCounted (v : View) : Keeps cfg hand v hand v.demoteCounted := by
  rw [demoteCounted]
  split_ifs
  exacts [.of_eq rfl rfl rfl rfl rfl, .refl cfg hand v]

theorem delivers_demoteCounted (v : View) : Delivers v [] v.demoteCounted := by
  rw [demoteCounted]
  split_ifs
  exacts [.of_eq rfl rfl le_rfl rfl, .refl v]

/-- The flush runs to its end and delivers every buffered packet, each once and in
    ascending order. -/
theorem flushBufferForDemote_delivers (nowUs : Nat) (hc : Core cfg hand v) :
    ∃ w ss, Flushes nowUs v.demoteCounted w ∧ v.flushBufferForDemote nowUs = w.demoteClosed nowUs ∧
      ss.Perm v.flow.buffer.entries ∧ (ss.map Slot.seq).Pairwise (· < ·) ∧
      (v.flushBufferForDemote nowUs).trace = v.trace ++ deliveries v.flow.key ss ∧
      w.flow.buffer.entries = [] := by
  have hc₀ := (keeps_demoteCounted v hc).1
  have hfl := flushes_demoteLoop nowUs hc₀ hc₀.ring.count_le_size
  obtain ⟨hnil, ss, hss⟩ := delivers_flushes hfl hc₀
  have hall := (delivers_demoteCounted v).trans hss
  have hperm := hall.ring
  rw [hnil, List.append_nil] at hperm
  exact ⟨_, _, hfl, rfl, hperm.symm, hall.sorted, hall.trace, hnil⟩

/-- A gap timeout, as it is counted before the skip. -/
def timeoutCounted (v : View) : View :=
  { v with flow := { v.flow with
    stats := { v.flow.stats with gapTimeoutCount := v.flow.stats.gapTimeoutCount + 1 } } }

theorem keeps_timeoutCounted (v : View) : Keeps cfg hand v hand v.timeoutCounted :=
  .of_eq rfl rfl rfl rfl rfl

end View

/-! ## Where flows are skipped and flushed -/

namespace Rx

variable {cfg : Config} {seed : UInt64} {rx rx' : Rx} {key : FlowKey} {f : Flow} {v : View}

/-- The views of its flows that a receiver comes to: between two calls; after some
    moves of a packet; and at a gap timeout, when the flows before it in the table
    have had theirs. -/
inductive Visits (rx : Rx) : View → Prop
  | rest {f : Flow} : f ∈ rx.flows → Visits rx ⟨rx.toShared, f⟩
  | packet {key : FlowKey} {alloc b : Bool} {f : Flow} {rx' : Rx} {p : Arrival} {v : View} :
      rx.flowGetOrCreate key alloc = (some f, rx') →
      Moves rx'.cfg p true (View.handed ⟨rx'.toShared, f⟩ p) b v → Visits rx v
  | timeout {nowUs : Nat} {f : Flow} {done todo : List Flow} : rx.flows = done ++ f :: todo →
      Visits rx (View.timeoutCounted ⟨(Chains.sweepChain (fireTimeout nowUs) rx.toShared done).1, f⟩)

/-- The flow that a packet gets is one of the table, which is as good as before. -/
theorem good_flowGetOrCreate (h : rx.Good) {alloc : Bool}
    (he : rx.flowGetOrCreate key alloc = (some f, rx')) :
    rx'.Good ∧ rx'.flowLookup key = some f := by
  rw [flowGetOrCreate] at he
  cases hl : rx.flowLookup key with
  | some g =>
    rw [hl] at he
    obtain ⟨hf, rfl⟩ := Prod.mk.inj he
    exact ⟨h, hl.trans hf⟩
  | none =>
    obtain ⟨hroom, hnew⟩ := does_makeRoom h.table hl
    rw [hl] at he
    dsimp only at he
    generalize (if rx.full then rx.evictLruFlow else rx) = rx₁ at hroom hnew he
    split_ifs at he
    · obtain ⟨hf, rfl⟩ := Prod.mk.inj he
      obtain ⟨hd, hl'⟩ := does_create hroom.table hnew
      exact ⟨hd.good (hroom.good h), hl'.trans hf⟩
    · exact absurd (congrArg Prod.fst he).symm (Option.some_ne_none f)

/-- The invariant holds all along the loop that fires the timeouts. -/
theorem inv_sweepChain (nowUs : Nat) {s : Shared} {before after : List Flow}
    (h : Inv cfg s (before ++ after)) :
    Inv cfg (Chains.sweepChain (fireTimeout nowUs) s before).1
      ((Chains.sweepChain (fireTimeout nowUs) s before).2 ++ after) := by
  have hstep : ∀ s fired f rest, Inv cfg s (fired ++ (f :: rest ++ after)) →
      Inv cfg (fireTimeout nowUs s f).1
        (fired ++ (fireTimeout nowUs s f).2.toList ++ (rest ++ after)) := by
    intro s fired f rest hinv
    rw [List.cons_append] at hinv
    by_cases hdue : f.timeoutDue nowUs = true
    · obtain ⟨hr, hf⟩ := View.ready_onGapTimeout nowUs hinv.ready_focus
      have hinv' : Inv cfg (View.onGapTimeout ⟨s, f⟩ nowUs).toShared
          (fired ++ (View.onGapTimeout ⟨s, f⟩ nowUs).flow :: (rest ++ after)) := hinv.update hr hf
      rw [fireTimeout_of_due s hdue, Option.toList_some, List.append_assoc]
      exact hinv'
    · rw [fireTimeout, if_neg hdue, Option.toList_some, List.append_assoc]
      exact hinv
  have hstart : Inv cfg s ([] ++ (before ++ after)) := h
  have hall := Chains.sweepChain_induction
    (J := fun s fired rest => Inv cfg s (fired ++ (rest ++ after))) hstep hstart
  simpa only [List.nil_append] using hall

/-- Wherever the receiver comes to a flow, its invariant holds. -/
theorem core_of_visits (hg : rx.Good) (hv : rx.Visits v) : ∃ cfg hand, Core cfg hand v := by
  cases hv with
  | rest hf => exact ⟨rx.cfg, [], (hg.inv.ready _ hf).core⟩
  | @packet key alloc b f rx' p v he hm =>
    obtain ⟨hg', hl⟩ := good_flowGetOrCreate hg he
    have hr := hg'.inv.ready f (mem_of_flowLookup hg'.table hl)
    exact ⟨rx'.cfg, _, (hm.ready (View.ready_handed hr p).1).1.core⟩
  | @timeout nowUs f done todo hflows =>
    have hinv := hg.inv
    rw [hflows] at hinv
    have hready := (inv_sweepChain nowUs hinv).ready_focus
    exact ⟨rx.cfg, [], (View.keeps_timeoutCounted _ hready.core).1⟩

/-! ## Deadlines after a tick -/

/-- A timeout that is due leaves the timer off, or armed for later. -/
theorem lt_deadline_onGapTimeout {v : View} {nowUs : Nat} (hwait : v.flow.waitMs ≠ 0)
    (hwrap : nowUs + v.flow.waitMs * 1000 < 2 ^ 64)
    (harmed : (v.onGapTimeout nowUs).flow.gapTimerActive = true) :
    nowUs < (v.onGapTimeout nowUs).flow.gapDeadlineUs := by
  rw [View.onGapTimeout] at harmed ⊢
  split_ifs at harmed ⊢ with hempty
  · exact absurd harmed Bool.false_ne_true
  · have hskip := View.waitMs_skipToLowestAndDrain { v with flow := { v.flow with stats :=
      { v.flow.stats with gapTimeoutCount := v.flow.stats.gapTimeoutCount + 1 } } } nowUs
    dsimp only at harmed hskip ⊢
    generalize View.skipToLowestAndDrain _ nowUs = w at harmed hskip ⊢
    split_ifs at harmed ⊢ with hleft
    · exact absurd harmed Bool.false_ne_true
    · change nowUs < (nowUs + w.flow.waitMs * 1000) % 2 ^ 64
      rw [hskip, Nat.mod_eq_of_lt hwrap]
      omega

/-- After the loop that fires the timeouts, no timer is due. -/
theorem not_due_of_fired {nowUs : Nat} {f f' : Flow} (h : Fired nowUs f f') (hwait : f.waitMs ≠ 0)
    (hwrap : nowUs + f'.waitMs * 1000 < 2 ^ 64) (harmed : f'.gapTimerActive = true) :
    nowUs < f'.gapDeadlineUs := by
  by_cases hdue : f.timeoutDue nowUs = true
  · obtain ⟨s, rfl⟩ := h.due hdue
    rw [View.waitMs_onGapTimeout] at hwrap
    exact lt_deadline_onGapTimeout (v := ⟨s, f⟩) hwait hwrap harmed
  · have hno := Bool.eq_false_iff.2 hdue
    rw [h.rest hno] at harmed ⊢
    simpa [Flow.timeoutDue, harmed] using hno

theorem not_due_tick {nowUs : Nat} (hwaits : ∀ f ∈ rx.flows, f.waitMs ≠ 0) :
    ∀ f ∈ (rx.tick nowUs).flows, nowUs + f.waitMs * 1000 < 2 ^ 64 → f.gapTimerActive = true →
      nowUs < f.gapDeadlineUs := by
  intro f' hf' hwrap harmed
  rw [flows_tick] at hf'
  obtain ⟨i, hi, hget⟩ := List.mem_iff_getElem.1 (List.mem_of_mem_filter hf')
  have hfired := fired_flows rx nowUs
  have hi' : i < rx.flows.length := hfired.length_eq ▸ hi
  have hf := hfired.get hi' hi
  rw [List.get_eq_getElem, List.get_eq_getElem, hget] at hf
  exact not_due_of_fired hf (hwaits _ (List.getElem_mem hi')) hwrap harmed

/-! ## Progress -/

/-- Wherever a receiver skips a gap with packets buffered, it delivers at least one
    of them and moves on, until the next expected packet is not buffered. Wherever
    it flushes a flow, the loop runs to its end, which leaves the ring empty, and
    delivers every buffered packet, each once and in ascending order. And after a
    tick no timer is due that is armed, unless its deadline wraps. -/
theorem timeouts_progress (h : rxNew cfg seed = some rx) (ops : List Op) (nowUs : Nat) :
    (∀ v, (rx.run ops).Visits v →
      (v.flow.buffer.isEmpty = false →
        v.flow.expected < (v.skipToLowestAndDrain nowUs).flow.expected ∧
        (∃ ss, ss ≠ [] ∧ Delivers v ss (v.skipToLowestAndDrain nowUs)) ∧
        (v.skipToLowestAndDrain nowUs).flow.buffer.remove
          (v.skipToLowestAndDrain nowUs).flow.expected = none) ∧
      ∃ w ss, Flushes nowUs v.demoteCounted w ∧
        v.flushBufferForDemote nowUs = w.demoteClosed nowUs ∧ w.flow.buffer.entries = [] ∧
        ss.Perm v.flow.buffer.entries ∧ (ss.map Slot.seq).Pairwise (· < ·) ∧
        (v.flushBufferForDemote nowUs).trace = v.trace ++ deliveries v.flow.key ss) ∧
    ∀ f ∈ ((rx.run ops).tick nowUs).flows, nowUs + f.waitMs * 1000 < 2 ^ 64 →
      f.gapTimerActive = true → nowUs < f.gapDeadlineUs := by
  have hg := good_run (good_of_rxNew h) ops
  refine ⟨fun v hv => ?_, not_due_tick fun f hf => (resolved_run h ops f hf).waits⟩
  obtain ⟨cfg', hand, hc⟩ := core_of_visits hg hv
  refine ⟨fun hne => ?_, ?_⟩
  · obtain ⟨ss, hss, hd⟩ := View.skipToLowestAndDrain_delivers nowUs hc hne
    exact ⟨hd.expected_lt hss, ⟨ss, hss, hd⟩, View.skipToLowestAndDrain_done nowUs hc⟩
  · obtain ⟨w, ss, hfl, heq, hperm, hsorted, htrace, hnil⟩ := View.flushBufferForDemote_delivers nowUs hc
    exact ⟨w, ss, hfl, heq, hnil, hperm, hsorted, htrace⟩

/-- After the sample run, packet 4 waits for packet 3 until it times out. -/
theorem timeouts_progress_sample :
    (defaultRx.run sampleRun).flows.map (fun f => (f.expected, f.gapTimerActive)) = [(3, true)] ∧
      ((defaultRx.run sampleRun).tick 33000).flows.map (fun f => (f.expected, f.gapTimerActive)) =
        [(5, false)] ∧
      ∀ f ∈ ((defaultRx.run sampleRun).tick 33000).flows, f.gapTimerActive = true →
        33000 < f.gapDeadlineUs := by
  refine ⟨by decide +kernel, by decide +kernel, fun f hf harmed => ?_⟩
  have hwrap : ∀ f ∈ ((defaultRx.run sampleRun).tick 33000).flows, 33000 + f.waitMs * 1000 < 2 ^ 64 := by
    decide +kernel
  exact (timeouts_progress rxNew_default sampleRun 33000).2 f hf (hwrap f hf) harmed

end Rx

end Mqvpn.Reorder
