import Mqvpn.Reorder.Lifetime
import Mqvpn.Reorder.Restart

/-!
# A reset finds nothing to discard

An honoured FLOW_RESET drops what its flow has buffered. The receiver is made so
that there is nothing to drop by then: a reset is honoured only if the flow made
no progress for longer than the grace, and a gap timeout is progress. With waits
no longer than the grace, and a tick before each packet at the time of the packet,
no reset ever discards a packet or ends a wait period (`reset_discards_nothing`).

The invariant ties a deadline to the last progress: an armed timer is due within
one wait of it (`Flow.Paced`), and right after a tick it is not due yet, unless
the flow made progress at the time of the tick itself (`Flow.Timed`).
-/

namespace Mqvpn.Reorder

/-! ## Timers -/

/-- What the timers of a flow, and the counters of its resets, show. -/
structure Timing where
  armed : Bool
  deadlineUs : Nat
  waitMs : Nat
  discarded : Nat
  resets : Nat

def Flow.timing (f : Flow) : Timing where
  armed := f.gapTimerActive
  deadlineUs := f.gapDeadlineUs
  waitMs := f.waitMs
  discarded := f.stats.resetDiscardCount
  resets := f.stats.gapResetCount

namespace Timing

/-- The timer without its deadline. -/
def stop (t : Timing) : Timing := { t with armed := false }

/-- The timer, armed at a time. -/
def arm (t : Timing) (nowUs : Nat) : Timing :=
  { t with armed := true, deadlineUs := (nowUs + t.waitMs * 1000) % 2 ^ 64 }

/-- No reset discarded anything, and an armed timer is due within one wait of the
    last progress, which is within the grace. -/
structure Paced (cfg : Config) (t : Timing) (last : Nat) : Prop where
  wait : t.waitMs ≤ cfg.resetIdleGraceMs
  anchored : t.armed = true → t.deadlineUs ≤ last + t.waitMs * 1000
  discarded : t.discarded = 0
  resets : t.resets = 0

variable {cfg : Config} {t : Timing} {last nowUs : Nat}

/-- Progress only moves the bound on a deadline. -/
theorem Paced.mono (h : t.Paced cfg last) (hle : last ≤ nowUs) : t.Paced cfg nowUs :=
  ⟨h.wait, fun ha => (h.anchored ha).trans (Nat.add_le_add_right hle _), h.discarded, h.resets⟩

theorem Paced.stop (h : t.Paced cfg last) : t.stop.Paced cfg last :=
  ⟨h.wait, fun ha => absurd ha nofun, h.discarded, h.resets⟩

theorem Paced.arm (h : t.Paced cfg last) (nowUs : Nat) : (t.arm nowUs).Paced cfg nowUs :=
  ⟨h.wait, fun _ => Nat.mod_le _ _, h.discarded, h.resets⟩

end Timing

/-- The timer of the flow is paced, and its last progress is past. -/
structure Flow.Paced (cfg : Config) (nowUs : Nat) (f : Flow) : Prop where
  timing : f.timing.Paced cfg f.lastProgressUs
  past : f.lastProgressUs ≤ nowUs

/-- The flow right after a tick, and as long as the clock stands still. -/
structure Flow.Timed (cfg : Config) (nowUs : Nat) (f : Flow) : Prop extends Flow.Paced cfg nowUs f where
  ahead : f.gapTimerActive = true → nowUs < f.gapDeadlineUs ∨ f.lastProgressUs = nowUs

namespace Flow

variable {cfg : Config} {nowUs nowUs' : Nat} {f : Flow}

theorem Paced.mono (h : f.Paced cfg nowUs) (hle : nowUs ≤ nowUs') : f.Paced cfg nowUs' :=
  ⟨h.timing, h.past.trans hle⟩

/-- A flow that makes progress now is timed if its timer is paced. -/
theorem Timed.of_progress (hlast : f.lastProgressUs = nowUs) (ht : f.timing.Paced cfg nowUs) :
    f.Timed cfg nowUs :=
  ⟨⟨hlast ▸ ht, hlast.le⟩, fun _ => .inr hlast⟩

/-- A flow of the same timer and the same progress. -/
theorem Timed.congr {f' : Flow} (h : f.Timed cfg nowUs) (ht : f'.timing = f.timing)
    (hlast : f'.lastProgressUs = f.lastProgressUs) : f'.Timed cfg nowUs := by
  have harmed : f'.gapTimerActive = f.gapTimerActive := congrArg Timing.armed ht
  have hdeadline : f'.gapDeadlineUs = f.gapDeadlineUs := congrArg Timing.deadlineUs ht
  refine ⟨⟨?_, hlast ▸ h.past⟩, ?_⟩
  · rw [ht, hlast]
    exact h.timing
  · rw [harmed, hdeadline, hlast]
    exact h.ahead

/-- A reset that is honoured comes too late for an armed timer: by then it was
    due, and the tick has fired it. -/
theorem Timed.disarmed (h : f.Timed cfg nowUs) {flags : UInt8} (hinit : f.initialized = true)
    (hreset : f.resetHonoured cfg flags nowUs = true) : f.gapTimerActive = false := by
  obtain ⟨-, hcold | ⟨hlt, hgrace⟩⟩ : flags &&& flagReset ≠ 0 ∧ (f.initialized = false ∨
      (f.lastProgressUs < nowUs ∧ cfg.resetIdleGraceMs * 1000 < nowUs - f.lastProgressUs)) := by
    simpa [resetHonoured] using hreset
  · exact absurd (hcold.symm.trans hinit) Bool.false_ne_true
  · refine Bool.eq_false_iff.2 fun harmed => ?_
    have hwait : f.waitMs ≤ cfg.resetIdleGraceMs := h.timing.wait
    have hanchor : f.gapDeadlineUs ≤ f.lastProgressUs + f.waitMs * 1000 := h.timing.anchored harmed
    have := h.ahead harmed
    omega

/-- An honoured reset finds the buffer empty. -/
theorem Timed.empty {s : Shared} {hand : List Bytes} (h : f.Timed cfg nowUs) (hr : Ready cfg hand ⟨s, f⟩)
    {flags : UInt8} (hreset : f.resetHonoured cfg flags nowUs = true) :
    f.gapTimerActive = false ∧ f.buffer.count = 0 := by
  have hcount : f.buffer.count = 0 := by
    by_contra hne
    have harmed := hr.periods.armed.2 hne
    have hdis := h.disarmed (hr.live_of_count hne).1 hreset
    exact absurd (harmed.symm.trans hdis) nofun
  exact ⟨Bool.eq_false_iff.2 fun ha => hr.periods.armed.1 ha hcount, hcount⟩

end Flow

/-! ## Drains -/

theorem Drains.timing {nowUs : Nat} {v v' : View} (h : Drains nowUs v v') :
    v'.flow.timing = v.flow.timing := by
  induction h with
  | refl => rfl
  | pop _ _ ih => exact ih

namespace View

variable {cfg : Config} {v : View} {nowUs : Nat}

@[simp]
theorem timing_drainContiguous (v : View) (nowUs : Nat) :
    (v.drainContiguous nowUs).flow.timing = v.flow.timing :=
  (drains_drainContiguous nowUs v).timing

@[simp]
theorem timing_skipToLowestAndDrain (v : View) (nowUs : Nat) :
    (v.skipToLowestAndDrain nowUs).flow.timing = v.flow.timing := by
  have hskip : (if v.flow.expected < v.flow.buffer.lowestSeq v.flow.expected then
      v.skipTo (v.flow.buffer.lowestSeq v.flow.expected) else v).flow.timing = v.flow.timing := by
    split_ifs <;> rfl
  exact (timing_drainContiguous _ nowUs).trans hskip

@[simp]
theorem timing_demoteLoop (nowUs fuel : Nat) (v : View) :
    (demoteLoop nowUs fuel v).flow.timing = v.flow.timing := by
  induction fuel generalizing v with
  | zero => rfl
  | succ fuel ih =>
    rw [demoteLoop]
    split_ifs
    · rfl
    · exact (ih _).trans (timing_drainContiguous _ nowUs)

/-- A reset of a flow whose buffer is empty and whose timer is not armed counts
    nothing. -/
theorem timing_resetReorderFlow {hand : List Bytes} (hc : Core cfg hand v)
    (harmed : v.flow.gapTimerActive = false) (hcount : v.flow.buffer.count = 0) :
    v.resetReorderFlow.flow.timing = v.flow.timing.stop := by
  have hslots : v.flow.buffer.slots.countP Option.isSome = 0 := by
    rw [← hcount, hc.ring.count, Ring.entries, List.reduceOption_length_eq,
      List.countP_eq_length_filter]
  rw [resetReorderFlow, discardBufferForReset, harmed]
  dsimp only [Bool.false_eq_true, if_false]
  rw [if_neg Bool.false_ne_true, hslots]
  rfl

theorem timed_onGapTimeout (h : v.flow.Paced cfg nowUs) (hne : v.flow.buffer.isEmpty = false) :
    (v.onGapTimeout nowUs).flow.Timed cfg nowUs := by
  have ht := h.timing.mono h.past
  refine .of_progress (Rx.lastProgressUs_onGapTimeout hne) ?_
  rw [onGapTimeout, if_neg (by simp [hne])]
  have hskip := timing_skipToLowestAndDrain { v with flow := { v.flow with
    stats := { v.flow.stats with gapTimeoutCount := v.flow.stats.gapTimeoutCount + 1 } } } nowUs
  dsimp only
  generalize skipToLowestAndDrain _ nowUs = w at hskip ⊢
  have hw : w.flow.timing.Paced cfg nowUs := hskip ▸ ht
  split_ifs
  · exact hw.stop
  · exact hw.arm nowUs

end View

/-! ## Moves -/

section

variable {cfg : Config} {p : Arrival} {b b' : Bool} {v v' : View}

/-- Every move at the time of the last tick keeps the flow timed. -/
theorem Move.timed (hm : Move cfg p b v b' v') (hr : Ready cfg (inHand p b) v)
    (h : v.flow.Timed cfg p.nowUs) : v'.flow.Timed cfg p.nowUs := by
  have ht := h.timing.mono h.past
  cases hm with
  | reset hreset =>
    obtain ⟨harmed, hcount⟩ := h.empty hr hreset
    refine .of_progress rfl ?_
    change v.resetReorderFlow.flow.timing.Paced cfg p.nowUs
    rw [View.timing_resetReorderFlow hr.core harmed hcount]
    exact ht.stop
  | passThrough _ => exact .of_progress rfl ht
  | coldStart _ _ => exact .of_progress rfl ht
  | inOrder _ _ =>
    have hd := View.drains_drainContiguous p.nowUs (v.accept p)
    have hlast : ((v.accept p).drainContiguous p.nowUs).flow.lastProgressUs = p.nowUs :=
      hd.lastProgressUs
    have htiming : ((v.accept p).drainContiguous p.nowUs).flow.timing = v.flow.timing := hd.timing
    rw [View.deliverInOrder]
    dsimp only
    generalize (v.accept p).drainContiguous p.nowUs = w at hlast htiming
    have hw : w.flow.timing.Paced cfg p.nowUs := htiming ▸ ht
    split_ifs
    · exact .of_progress hlast hw.stop
    · exact .of_progress hlast hw
  | late _ _ => exact h.congr rfl rfl
  | drop d _ _ => cases d <;> exact h.congr rfl rfl
  | flush _ _ _ _ =>
    have htiming := View.timing_skipToLowestAndDrain v p.nowUs
    have hlast : (v.skipToLowestAndDrain p.nowUs).flow.lastProgressUs = p.nowUs := rfl
    rw [View.overflowFlush]
    dsimp only
    generalize v.skipToLowestAndDrain p.nowUs = w at hlast htiming
    have hw : w.flow.timing.Paced cfg p.nowUs := htiming ▸ ht
    split_ifs
    · exact .of_progress hlast hw.stop
    · exact .of_progress hlast hw.stop
    · exact .of_progress hlast hw
  | insert _ _ _ _ _ _ =>
    rw [View.inserted]
    dsimp only
    split_ifs
    · exact .of_progress rfl (ht.arm p.nowUs)
    · exact .of_progress rfl ht
  | classify _ _ _ => exact h.congr rfl rfl
  | demote =>
    refine .of_progress rfl ?_
    have hloop := fun w => View.timing_demoteLoop p.nowUs w.flow.buffer.size w
    rw [View.demote, View.flushBufferForDemote]
    dsimp only
    generalize hw : (if v.flow.gapTimerActive then { v with flow := { v.flow with
      stats := { v.flow.stats with gapDemoteCount := v.flow.stats.gapDemoteCount + 1 } } } else v) = w
    have hwt : w.flow.timing = v.flow.timing := by
      rw [← hw]
      split_ifs <;> rfl
    specialize hloop w
    generalize View.demoteLoop p.nowUs w.flow.buffer.size w = u at hloop
    have hu : u.flow.timing.Paced cfg p.nowUs := by
      rw [hloop, hwt]
      exact ht
    exact hu.stop

theorem Moves.timed (hm : Moves cfg p b v b' v') (hr : Ready cfg (inHand p b) v)
    (h : v.flow.Timed cfg p.nowUs) : v'.flow.Timed cfg p.nowUs := by
  induction hm with
  | refl => exact h
  | head hm _ ih => exact ih (hm.ready hr).1 (hm.timed hr h)

theorem View.timed_onReordered (hr : Ready cfg [] v) (h : v.flow.Timed cfg p.nowUs) :
    (v.onReordered cfg p).flow.Timed cfg p.nowUs :=
  (moves_onReordered v cfg p).timed (ready_handed hr p).1 (h.congr rfl rfl)

end

/-! ## The receiver -/

/-- No reset discarded a packet or ended a wait period. -/
def Stats.Spared (st : Stats) : Prop := st.resetDiscardCount = 0 ∧ st.gapResetCount = 0

instance (st : Stats) : Decidable st.Spared := inferInstanceAs (Decidable (_ ∧ _))

theorem Flow.Paced.spared {cfg : Config} {nowUs : Nat} {f : Flow} (h : f.Paced cfg nowUs) :
    f.stats.Spared :=
  ⟨h.timing.discarded, h.timing.resets⟩

section

variable {cfg : Config} {a : Act} {s s' : Shared} {l l' : List Flow} {nowUs : Nat}

/-- An evicted flow takes its counters along, and only it does. -/
theorem Change.spared (hc : Change cfg a s l s' l') (hinv : Inv cfg s l)
    (hl : ∀ f ∈ l, f.stats.Spared) (hs : s.evictedStats.Spared) : s'.evictedStats.Spared := by
  cases hc with
  | packet p =>
    have he := (View.ready_onReordered hinv.ready_focus p).2.evictedStats
    rw [he]
    exact hs
  | timeout nowUs _ =>
    have he := (View.ready_onGapTimeout nowUs hinv.ready_focus).2.evictedStats
    rw [he]
    exact hs
  | @evict _ _ _ f =>
    obtain ⟨hd, hg⟩ := hl f (Chains.mem_focus.2 (.inl rfl))
    rw [hinv.evict_eq]
    exact ⟨Nat.add_eq_zero_iff.2 ⟨hs.1, hd⟩, Nat.add_eq_zero_iff.2 ⟨hs.2, hg⟩⟩
  | create _ => exact hs
  | bypass _ => exact hs

/-- Whatever happens at the time of the last tick keeps every flow timed. -/
theorem Change.timed (hwait : ∀ k, cfg.flowWaitMs k ≤ cfg.resetIdleGraceMs)
    (hc : Change cfg a s l s' l') (ha : a.At (· = nowUs)) (hinv : Inv cfg s l)
    (h : ∀ f ∈ l, f.Timed cfg nowUs) : ∀ f ∈ l', f.Timed cfg nowUs := by
  cases hc with
  | @packet _ l r f p =>
    obtain rfl := ha
    intro g hg
    rcases Chains.mem_focus.1 hg with rfl | hg
    · exact View.timed_onReordered hinv.ready_focus (h f (Chains.mem_focus.2 (.inl rfl)))
    · exact h g (Chains.mem_focus.2 (.inr hg))
  | @timeout _ l r f nowUs hdue =>
    obtain rfl := ha
    have hne := hinv.ready_focus.periods.armed.1 (of_decide_eq_true hdue).1
    intro g hg
    rcases Chains.mem_focus.1 hg with rfl | hg
    · exact View.timed_onGapTimeout (h f (Chains.mem_focus.2 (.inl rfl))).toPaced
        (by simpa [Ring.isEmpty] using hne)
    · exact h g (Chains.mem_focus.2 (.inr hg))
  | evict => exact fun g hg => h g (Chains.mem_focus.2 (.inr hg))
  | @create _ l r key _ =>
    intro g hg
    rcases Chains.mem_focus.1 hg with rfl | hg
    · exact ⟨⟨⟨hwait key, by rintro ⟨⟩, rfl, rfl⟩, Nat.zero_le _⟩, by rintro ⟨⟩⟩
    · exact h g hg
  | bypass _ => exact h

end

namespace Rx

variable {cfg : Config} {seed : UInt64} {rx : Rx} {nowUs : Nat}

/-- The loop that fires the timeouts leaves every flow timed. -/
theorem timed_sweepChain (todo : List Flow) (s : Shared)
    (h : ∀ f ∈ todo, f.Periods ∧ f.Paced cfg nowUs) :
    ∀ f ∈ (Chains.sweepChain (fireTimeout nowUs) s todo).2, f.Timed cfg nowUs := by
  induction todo generalizing s with
  | nil => exact nofun
  | cons f todo ih =>
    obtain ⟨hp, hf⟩ := h f List.mem_cons_self
    have ih := fun s => ih s fun g hg => h g (List.mem_cons_of_mem _ hg)
    intro g hg
    rw [Chains.sweepChain] at hg
    by_cases hdue : f.timeoutDue nowUs = true
    · have hne := hp.armed.1 (of_decide_eq_true hdue).1
      rw [fireTimeout_of_due s hdue] at hg
      rcases List.mem_cons.1 hg with rfl | hg
      · exact View.timed_onGapTimeout hf (by simpa [Ring.isEmpty] using hne)
      · exact ih _ g hg
    · rw [fireTimeout, if_neg hdue] at hg
      rcases List.mem_cons.1 hg with rfl | hg
      · refine ⟨hf, fun harmed => .inl ?_⟩
        simpa [Flow.timeoutDue, harmed] using hdue
      · exact ih _ g hg

/-- A tick leaves every flow timed. -/
theorem timed_tick (hg : rx.Good) (hs : rx.evictedStats.Spared)
    (h : ∀ f ∈ rx.flows, f.Paced rx.cfg nowUs) :
    (rx.tick nowUs).evictedStats.Spared ∧ ∀ f ∈ (rx.tick nowUs).flows, f.Timed rx.cfg nowUs := by
  obtain ⟨hfire, -⟩ := does_fireTimeout hg nowUs
  have htimed := timed_sweepChain rx.flows rx.toShared fun f hf => ⟨(hg.inv.ready f hf).periods, h f hf⟩
  rw [← flows_sweep] at htimed
  -- The timeouts evict nothing.
  have hkept : Inv rx.cfg (rx.sweep (fireTimeout nowUs)).toShared (rx.sweep (fireTimeout nowUs)).flows ∧
      (rx.sweep (fireTimeout nowUs)).evictedStats.Spared := by
    refine hfire.changes.keeps (P := fun s l => Inv rx.cfg s l ∧ s.evictedStats.Spared) ?_ ⟨hg.inv, hs⟩
    rintro a ha s l s' l' hc ⟨hinv, hs⟩
    refine ⟨hc.inv hg.caps hinv, ?_⟩
    obtain ⟨f, -, rfl⟩ := List.mem_map.1 ha
    cases hc with
    | timeout nowUs _ =>
      have he := (View.ready_onGapTimeout nowUs hinv.ready_focus).2.evictedStats
      rw [he]
      exact hs
  have hsweep := does_sweepIdle hfire.table nowUs
  rw [hfire.cfg] at hsweep
  refine (hsweep.changes.keeps (P := fun s l => Inv rx.cfg s l ∧ s.evictedStats.Spared ∧
    ∀ f ∈ l, f.Timed rx.cfg nowUs) ?_ ⟨hkept.1, hkept.2, htimed⟩).2
  rintro a ha s l s' l' hc ⟨hinv, hs, hl⟩
  obtain ⟨f, -, rfl⟩ := List.mem_map.1 ha
  refine ⟨hc.inv hg.caps hinv, hc.spared hinv (fun f hf => (hl f hf).spared) hs, ?_⟩
  cases hc with
  | evict => exact fun g hg => hl g (Chains.mem_focus.2 (.inr hg))

/-- A packet at the time of the last tick keeps every flow timed. -/
theorem timed_onPacket (hwait : ∀ k, rx.cfg.flowWaitMs k ≤ rx.cfg.resetIdleGraceMs) (hg : rx.Good)
    (hs : rx.evictedStats.Spared) (h : ∀ f ∈ rx.flows, f.Timed rx.cfg nowUs) (payload : Bytes)
    (alloc : Alloc) :
    (rx.onPacket payload nowUs alloc).evictedStats.Spared ∧
      ∀ f ∈ (rx.onPacket payload nowUs alloc).flows, f.Timed rx.cfg nowUs := by
  have hd := does_step hg (.onPacket payload nowUs alloc)
  have hat : ∀ a ∈ rx.acts (.onPacket payload nowUs alloc), a.At (· = nowUs) := acts_at rx rfl
  refine (hd.changes.keeps (P := fun s l => Inv rx.cfg s l ∧ s.evictedStats.Spared ∧
    ∀ f ∈ l, f.Timed rx.cfg nowUs) ?_ ⟨hg.inv, hs, h⟩).2
  rintro a ha s l s' l' hc ⟨hinv, hs, hl⟩
  exact ⟨hc.inv hg.caps hinv, hc.spared hinv (fun f hf => (hl f hf).spared) hs,
    hc.timed hwait (hat a ha) hinv hl⟩

/-! ## Runs -/

/-- Every packet comes after a tick at the same time; `ticks` are those before the
    run. -/
def Ticked (ticks : List Nat) : List Op → Prop
  | [] => True
  | .tick nowUs :: ops => Ticked (nowUs :: ticks) ops
  | .onPacket _ nowUs _ :: ops => nowUs ∈ ticks ∧ Ticked ticks ops

instance decidableTicked : ∀ (ticks : List Nat) (ops : List Op), Decidable (Ticked ticks ops)
  | _, [] => .isTrue trivial
  | ticks, .tick nowUs :: ops => decidableTicked (nowUs :: ticks) ops
  | ticks, .onPacket _ _ _ :: ops => @instDecidableAnd _ _ _ (decidableTicked ticks ops)

/-- A reset that the call honours finds the buffer of its flow empty. -/
def ResetsEmpty (rx : Rx) : Op → Prop
  | .onPacket payload nowUs _ => (rx.route payload).Imp fun key _ flags _ =>
      ∀ f ∈ rx.flowLookup key, f.resetHonoured rx.cfg flags nowUs = true → f.buffer.count = 0
  | .tick _ => True

/-- Between two calls, the last of them at `nowUs`. -/
structure Punctual (ticks : List Nat) (nowUs : Nat) (rx : Rx) : Prop where
  good : rx.Good
  waits : ∀ k, rx.cfg.flowWaitMs k ≤ rx.cfg.resetIdleGraceMs
  spared : rx.evictedStats.Spared
  past : ∀ t ∈ ticks, t ≤ nowUs
  paced : ∀ f ∈ rx.flows, f.Paced rx.cfg nowUs
  timed : nowUs ∈ ticks → ∀ f ∈ rx.flows, f.Timed rx.cfg nowUs

theorem punctual_of_timed {rx' : Rx} {ticks ticks' : List Nat} {nowUs' : Nat}
    (h : Punctual ticks nowUs rx) (hg : rx'.Good) (hcfg : rx'.cfg = rx.cfg)
    (hpast : ∀ t ∈ ticks', t ≤ nowUs')
    (ht : rx'.evictedStats.Spared ∧ ∀ f ∈ rx'.flows, f.Timed rx.cfg nowUs') :
    Punctual ticks' nowUs' rx' := by
  refine ⟨hg, ?_, ht.1, hpast, fun f hf => ?_, fun _ f hf => ?_⟩
  · rw [hcfg]
    exact h.waits
  · rw [hcfg]
    exact (ht.2 f hf).toPaced
  · rw [hcfg]
    exact ht.2 f hf

theorem punctual_run {ticks : List Nat} {ops : List Op} (h : Punctual ticks nowUs rx)
    (hclock : (nowUs :: ops.map Op.time).Pairwise (· ≤ ·)) (hticked : Ticked ticks ops) :
    (∃ ticks' nowUs', Punctual ticks' nowUs' (rx.run ops)) ∧ Runs.Along step ResetsEmpty rx ops := by
  induction ops generalizing rx ticks nowUs with
  | nil => exact ⟨⟨ticks, nowUs, h⟩, trivial⟩
  | cons op ops ih =>
    rw [List.map_cons, List.pairwise_cons] at hclock
    obtain ⟨hle, hclock⟩ := hclock
    have hnow : nowUs ≤ op.time := hle _ List.mem_cons_self
    have hg := good_step h.good op
    have hcfg := (does_step h.good op).cfg
    cases op with
    | tick t =>
      have ht := timed_tick h.good h.spared fun f hf => (h.paced f hf).mono hnow
      have hpast : ∀ t' ∈ t :: ticks, t' ≤ t := by
        rintro t' (_ | ⟨_, ht'⟩)
        · exact le_rfl
        · exact (h.past t' ht').trans hnow
      obtain ⟨hend, halong⟩ := ih (punctual_of_timed h hg hcfg hpast ht) hclock hticked
      exact ⟨hend, trivial, halong⟩
    | onPacket payload t alloc =>
      -- The tick at `t` came before, so the clock has stood still since.
      obtain ⟨hmem, hticked⟩ := hticked
      obtain rfl : nowUs = t := le_antisymm hnow (h.past t hmem)
      have htimed := h.timed hmem
      have ht := timed_onPacket h.waits h.good h.spared htimed payload alloc
      obtain ⟨hend, halong⟩ := ih (punctual_of_timed h hg hcfg h.past ht) hclock hticked
      refine ⟨hend, ?_, halong⟩
      rw [ResetsEmpty]
      cases rx.route payload with
      | ignore => trivial
      | bypass inner => trivial
      | flow key seq flags inner =>
        intro f hf hreset
        obtain ⟨l, r, hflat, -⟩ := Chains.lookup_focus h.good.table.wf hf
        have hmem : f ∈ rx.flows := by
          rw [flows, hflat]
          exact Chains.mem_focus.2 (.inl rfl)
        exact ((htimed f hmem).empty (h.good.inv.ready f hmem) hreset).2

/-- With waits within the grace and a tick before each packet, no reset discards a
    packet or ends a wait period: each one that is honoured finds the buffer of
    its flow empty. -/
theorem reset_discards_nothing {ops : List Op} (h : rxNew cfg seed = some rx)
    (hwait : ∀ k, cfg.finalize.flowWaitMs k ≤ cfg.resetIdleGraceMs)
    (hclock : (ops.map Op.time).Pairwise (· ≤ ·)) (hticked : Ticked [] ops) :
    (∀ f ∈ (rx.run ops).flows, f.stats.resetDiscardCount = 0 ∧ f.stats.gapResetCount = 0) ∧
      (rx.run ops).getStats.resetDiscardCount = 0 ∧ (rx.run ops).getStats.gapResetCount = 0 ∧
      Runs.Along step ResetsEmpty rx ops := by
  obtain ⟨hflows, hshared⟩ := empty_of_rxNew h
  have hstart : Punctual [] 0 rx := by
    refine ⟨good_of_rxNew h, ?_, hshared ▸ ⟨rfl, rfl⟩, nofun, ?_, nofun⟩
    · rw [cfg_of_rxNew h]
      exact hwait
    · rw [hflows]
      exact nofun
  obtain ⟨⟨_, _, hend⟩, halong⟩ := punctual_run hstart
    (List.pairwise_cons.2 ⟨fun _ _ => Nat.zero_le _, hclock⟩) hticked
  have hspared : ∀ f ∈ (rx.run ops).flows, f.stats.Spared := fun f hf => (hend.paced f hf).spared
  have hzero : ∀ g : Stats → Nat, (∀ f ∈ (rx.run ops).flows, g f.stats = 0) →
      ((rx.run ops).flows.map fun f => g f.stats).sum = 0 := fun g hg =>
    List.sum_eq_zero fun x hx => by
      obtain ⟨f, hf, rfl⟩ := List.mem_map.1 hx
      exact hg f hf
  refine ⟨hspared, ?_, ?_, halong⟩
  · rw [getStats, Stats.foldl_accumulate (g := Stats.resetDiscardCount) fun _ _ => rfl, hend.spared.1,
      hzero _ fun f hf => (hspared f hf).1]
  · rw [getStats, Stats.foldl_accumulate (g := Stats.gapResetCount) fun _ _ => rfl, hend.spared.2,
      hzero _ fun f hf => (hspared f hf).2]

/-- A gap that times out, and a sender that starts over after the grace. -/
def resetRun : List Op :=
  [.tick 0, receive 1 30 0 0, .tick 1000, receive 1 40 2 1000, .tick 40000, .tick 11000000,
    .onPacket (wireEncode typeV1 flagReset 0 ++ udpPacket 1 30) 11000000 ⟨true, true, true⟩]

/-- The reset at the end of the run is honoured: it begins a second epoch. -/
theorem reset_discards_nothing_sample :
    (epochs (udpKey 1) (defaultRx.run resetRun).trace).all = [[0, 2], [0]] ∧
      (defaultRx.run resetRun).getStats.resetDiscardCount = 0 ∧
      (defaultRx.run resetRun).getStats.gapResetCount = 0 := by
  have hclock : (resetRun.map Op.time).Pairwise (· ≤ ·) := by decide
  obtain ⟨-, hdiscard, hreset, -⟩ := reset_discards_nothing rxNew_default
    (fun _ => (by decide : 30 ≤ 10000)) hclock (by decide)
  exact ⟨by decide +kernel, hdiscard, hreset⟩

end Rx

end Mqvpn.Reorder
