import Mqvpn.Lib.Runs
import Mqvpn.Reorder.Safety

/-!
# The buffer budget of a flow

A flow should buffer no more bytes than `maxBufferBytesPerFlow`. On a packet over
the limit, `buffer_admit` flushes the flow once and goes on to insert the packet,
without checking the limit again. The flush delivers the lowest run of
consecutive packets (`Ring.runEnd`), and what stays behind may leave no room: a
packet for which it does not `Overfills` the flow (`not_budget`).

That is the only way over the budget: in every run without such a packet, every
flow is within it (`budget_of_fits`). The number of packets is within the cap in
any case.
-/

namespace Mqvpn.Reorder

namespace Ring

/-- The end of the run of consecutive buffered packets from `seq` on. -/
def runEnd (r : Ring) (seq : Nat) : Nat :=
  seq + ((List.range r.size).takeWhile fun i => r.contains (seq + i)).length

/-- The bytes of the buffered packets from `seq` on. -/
def bytesFrom (r : Ring) (seq : Nat) : Nat :=
  ((r.entries.filter fun s => seq ≤ s.seq).map (·.pkt.length)).sum

theorem length_takeWhile_range {p : Nat → Bool} {n m : Nat} (hm : m ≤ n)
    (hp : ∀ i < m, p i = true) (hstop : m < n → p m = false) :
    ((List.range n).takeWhile p).length = m := by
  obtain ⟨k, rfl⟩ := Nat.exists_eq_add_of_le hm
  rw [List.range_add, List.takeWhile_append_of_pos fun i hi => hp i (List.mem_range.1 hi),
    List.length_append, List.length_range]
  cases k with
  | zero => rfl
  | succ k =>
    rw [List.range_succ_eq_map, List.map_cons, Nat.add_zero, List.takeWhile_cons_of_neg]
    · rfl
    · simp [hstop (by omega)]

variable {r r' : Ring} {e : Nat} {s : Slot}

/-- The run ends at the first sequence number that is not buffered. -/
theorem runEnd_eq (h : r.Inv e) {e' : Nat} (hle : e ≤ e')
    (hrun : ∀ i, e ≤ i → i < e' → ∃ s ∈ r.entries, s.seq = i)
    (hend : ∀ s ∈ r.entries, s.seq ≠ e') : r.runEnd e = e' := by
  have hsize : e' - e ≤ r.size := by
    rcases Nat.eq_or_lt_of_le hle with rfl | hlt
    · omega
    · obtain ⟨s, hs, hseq⟩ := hrun (e' - 1) (by omega) (by omega)
      have := h.lt_of_mem hs
      omega
  rw [runEnd, length_takeWhile_range hsize]
  · omega
  · intro i hi
    exact (contains_iff h).2 (hrun (e + i) (by omega) (by omega))
  · intro _
    rw [Nat.add_sub_cancel' hle, Bool.eq_false_iff, ne_eq, contains_iff h]
    rintro ⟨s, hs, hseq⟩
    exact hend s hs hseq

theorem bytes_insert {alloc : Bool} (hr : r.insert s e alloc = some r') :
    r'.bytes = r.bytes + s.pkt.length := by
  obtain ⟨g, hg, rfl⟩ := Option.map_eq_some_iff.1 hr
  have hgrow : g.bytes = r.bytes := by
    simp only [grow, growToCover] at hg
    split_ifs at hg <;> rw [← Option.some.inj hg]
  rw [store, hgrow]

end Ring

/-! ## What a flush leaves -/

/-- A drain delivers the packets it passes, and leaves the others. -/
theorem Drains.entries {nowUs : Nat} {v v' : View} (hd : Drains nowUs v v')
    (h : v.flow.buffer.Inv v.flow.expected) :
    v.flow.expected ≤ v'.flow.expected ∧
      v'.flow.buffer.entries.Perm
        (v.flow.buffer.entries.filter fun s => v'.flow.expected ≤ s.seq) ∧
      ∀ i, v.flow.expected ≤ i → i < v'.flow.expected → ∃ s ∈ v.flow.buffer.entries, s.seq = i := by
  induction hd with
  | refl v =>
    refine ⟨le_rfl, ?_, fun i h1 h2 => absurd h1 (by omega)⟩
    rw [List.filter_eq_self.2 fun s hs => by simpa using h.le_of_mem hs]
  | @pop v v' s r hr _ ih =>
    obtain ⟨hs, hseq, rfl⟩ := (Ring.remove_eq_some_iff h).1 hr
    obtain ⟨hle, hperm, hrun⟩ := ih (View.inv_clear_succ h hs hseq)
    rw [View.flow_pop_expected, View.flow_pop_buffer] at *
    have hclear := h.entries_clear hs
    refine ⟨by omega, hperm.trans ?_, fun i h1 h2 => ?_⟩
    · have := hclear.filter fun t => decide (v'.flow.expected ≤ t.seq)
      rw [List.filter_cons_of_neg (by simp; omega)] at this
      exact this.symm
    · rcases Nat.eq_or_lt_of_le h1 with rfl | h1
      · exact ⟨s, hs, hseq⟩
      · obtain ⟨t, ht, heq⟩ := hrun i h1 h2
        exact ⟨t, hclear.mem_iff.2 (List.mem_cons_of_mem _ ht), heq⟩

namespace View

variable {v : View} {cfg : Config} {hand : List Bytes} {p : Arrival}

/-- The flush delivers the lowest run of buffered packets, and leaves the rest. -/
theorem skipToLowestAndDrain_spec (nowUs : Nat) (h : Core cfg hand v) :
    (v.skipToLowestAndDrain nowUs).flow.expected =
        v.flow.buffer.runEnd (v.flow.buffer.lowestSeq v.flow.expected) ∧
      (v.skipToLowestAndDrain nowUs).flow.buffer.bytes =
        v.flow.buffer.bytesFrom (v.skipToLowestAndDrain nowUs).flow.expected := by
  have hskip : (if v.flow.expected < v.flow.buffer.lowestSeq v.flow.expected then
      v.skipTo (v.flow.buffer.lowestSeq v.flow.expected) else v) =
      v.skipTo (v.flow.buffer.lowestSeq v.flow.expected) := by
    split_ifs with hlt
    · rfl
    · rw [Nat.le_antisymm (not_lt.1 hlt) (Ring.le_lowestSeq ..)]
      rfl
  have hc := (keeps_skipTo_lowestSeq v h).1
  have hc' := (keeps_drainContiguous nowUs _ hc).1
  obtain ⟨hle, hperm, hrun⟩ := (drains_drainContiguous nowUs _).entries hc.ring
  have hset := settled_drainContiguous nowUs hc.ring hc'.ring
  rw [skipToLowestAndDrain, hskip]
  dsimp only
  generalize (v.skipTo (v.flow.buffer.lowestSeq v.flow.expected)).drainContiguous nowUs = w at *
  refine ⟨(Ring.runEnd_eq hc.ring hle hrun fun s hs heq => ?_).symm, ?_⟩
  · -- A packet buffered at the end of the run would still be there, at `expected`.
    have := hset s (hperm.mem_iff.2 (List.mem_filter.2 ⟨hs, by simp [heq]⟩))
    omega
  · rw [hc'.ring.bytes, (hperm.map _).sum_nat]
    rfl

theorem overflowFlush_spec (nowUs : Nat) (h : Core cfg hand v) :
    (v.overflowFlush nowUs).flow.expected =
        v.flow.buffer.runEnd (v.flow.buffer.lowestSeq v.flow.expected) ∧
      (v.overflowFlush nowUs).flow.buffer.bytes =
        v.flow.buffer.bytesFrom (v.overflowFlush nowUs).flow.expected := by
  have := skipToLowestAndDrain_spec nowUs h
  rw [overflowFlush]
  dsimp only
  split_ifs <;> exact this

/-! ## What each operation can add -/

theorem bytes_overflowFlush_le (v : View) (nowUs : Nat) :
    (v.overflowFlush nowUs).flow.buffer.bytes ≤ v.flow.buffer.bytes := by
  have := (quiet_skipToLowestAndDrain v nowUs).bytes_le
  rw [overflowFlush]
  dsimp only
  split_ifs <;> exact this

theorem bytes_onGapTimeout_le (v : View) (nowUs : Nat) :
    (v.onGapTimeout nowUs).flow.buffer.bytes ≤ v.flow.buffer.bytes := by
  have := (quiet_skipToLowestAndDrain { v with flow := { v.flow with stats := { v.flow.stats with
    gapTimeoutCount := v.flow.stats.gapTimeoutCount + 1 } } } nowUs).bytes_le
  rw [onGapTimeout]
  dsimp only
  split_ifs
  exacts [le_rfl, this, this]

theorem bytes_deliverInOrder_le (v : View) (p : Arrival) :
    (v.deliverInOrder p).flow.buffer.bytes ≤ v.flow.buffer.bytes := by
  have := (drains_drainContiguous p.nowUs (v.accept p)).quiet.bytes_le
  rw [deliverInOrder]
  dsimp only
  split_ifs <;> exact this

theorem bytes_reclassifyAfterFlush_le (v : View) (p : Arrival) :
    (v.reclassifyAfterFlush p).2.flow.buffer.bytes ≤ v.flow.buffer.bytes := by
  rw [reclassifyAfterFlush]
  split_ifs
  exacts [le_rfl, bytes_deliverInOrder_le v p, le_rfl, le_rfl, le_rfl]

theorem bytes_bufferInsertCommitted_le (v : View) (p : Arrival) :
    (v.bufferInsertCommitted p).2.flow.buffer.bytes ≤ v.flow.buffer.bytes + p.pkt.length := by
  rw [bufferInsertCommitted]
  split_ifs
  · exact Nat.le_add_right ..
  · split
    · exact Nat.le_add_right ..
    · rename_i r hr
      have hb : (v.inserted p r).flow.buffer = r := by
        rw [inserted]
        dsimp only
        split_ifs <;> rfl
      dsimp only
      rw [hb, Ring.bytes_insert hr]

/-- The pool admission stores the packet or not, whatever it flushes. -/
theorem bytes_poolAdmit_le (v : View) (cfg : Config) (p : Arrival) :
    (v.poolAdmit cfg p).2.flow.buffer.bytes ≤ v.flow.buffer.bytes + p.pkt.length := by
  have hflush := bytes_overflowFlush_le v p.nowUs
  have hre := (bytes_reclassifyAfterFlush_le (v.overflowFlush p.nowUs) p).trans hflush
  rw [poolAdmit]
  split_ifs
  · exact Nat.le_add_right ..
  · split
    · rename_i w hw
      rw [hw] at hre
      dsimp only at hre ⊢
      split_ifs
      · exact hre.trans (Nat.le_add_right ..)
      · exact (bytes_bufferInsertCommitted_le w p).trans (Nat.add_le_add_right hre _)
    · exact hre.trans (Nat.le_add_right ..)
  · exact bytes_bufferInsertCommitted_le v p

theorem bytes_demote (v : View) (nowUs : Nat) : (v.demote nowUs).flow.buffer.bytes = 0 := rfl

theorem bytes_classifyAndDemote_le (v : View) (cfg : Config) (res : ProcessResult) (p : Arrival) :
    (v.classifyAndDemote cfg res p).flow.buffer.bytes ≤ v.flow.buffer.bytes := by
  have hc : (v.classifyUpdate cfg p.pkt).2.flow.buffer = v.flow.buffer := by
    rw [classifyUpdate]
    split_ifs <;> rfl
  rw [classifyAndDemote]
  split_ifs
  · split
    · rw [bytes_demote]
      exact Nat.zero_le _
    · rename_i w hw
      rw [hw] at hc
      exact (congrArg Ring.bytes hc).le
  · exact le_rfl

end View

/-! ## The budget -/

/-- A packet that is over the budget of its flow, and still is after a flush: the
    flow waits with packets buffered, the packet belongs to its window beyond the
    lowest run of them, and it does not fit with those behind the run. -/
def Flow.Overfills (f : Flow) (cfg : Config) (p : Arrival) : Prop :=
  f.Live ∧ f.resetHonoured cfg p.flags p.nowUs = false ∧ f.expected < p.seq ∧
    f.buffer.farAhead p.seq f.expected = false ∧ f.buffer.contains p.seq = false ∧
    f.buffer.isEmpty = false ∧
    f.buffer.runEnd (f.buffer.lowestSeq f.expected) < p.seq ∧
    cfg.maxBufferBytesPerFlow <
      f.buffer.bytesFrom (f.buffer.runEnd (f.buffer.lowestSeq f.expected)) + p.pkt.length

instance (f : Flow) (cfg : Config) (p : Arrival) : Decidable (f.Overfills cfg p) :=
  inferInstanceAs (Decidable ((_ ∧ _) ∧ _ ∧ _ ∧ _ ∧ _ ∧ _ ∧ _ ∧ _))

namespace View

variable {v w : View} {cfg : Config} {hand : List Bytes} {p : Arrival}

theorem lt_of_reclassifyAfterFlush (h : v.reclassifyAfterFlush p = (.buffered, w)) :
    w = v ∧ v.flow.expected < p.seq := by
  rw [reclassifyAfterFlush] at h
  split_ifs at h with hlate heq
  · cases congrArg Prod.fst h
  · cases congrArg Prod.fst h
  · cases congrArg Prod.fst h
  · cases congrArg Prod.fst h
  · exact ⟨(congrArg Prod.snd h).symm, by omega⟩

/-- The admission of a packet that does not overfill the flow. -/
theorem bytes_bufferAdmit_le (hc : Core cfg hand v)
    (hle : v.flow.buffer.bytes ≤ cfg.maxBufferBytesPerFlow)
    (hfit : v.flow.buffer.contains p.seq = false → v.flow.buffer.isEmpty = false →
      v.flow.buffer.runEnd (v.flow.buffer.lowestSeq v.flow.expected) < p.seq →
      v.flow.buffer.bytesFrom (v.flow.buffer.runEnd (v.flow.buffer.lowestSeq v.flow.expected)) +
        p.pkt.length ≤ cfg.maxBufferBytesPerFlow) :
    (v.bufferAdmit cfg p).2.flow.buffer.bytes ≤ cfg.maxBufferBytesPerFlow := by
  obtain ⟨hexp, hbytes⟩ := overflowFlush_spec p.nowUs hc
  have hre := (bytes_reclassifyAfterFlush_le (v.overflowFlush p.nowUs) p).trans
    (bytes_overflowFlush_le v p.nowUs)
  rw [bufferAdmit]
  split_ifs with hdup hlimit hempty
  · exact hle
  · exact hle
  · split
    · rename_i w hw
      -- The packet is beyond the run that was flushed, so it fits with the rest.
      obtain ⟨rfl, hlt⟩ := lt_of_reclassifyAfterFlush hw
      refine (bytes_poolAdmit_le _ cfg p).trans ?_
      rw [hbytes, hexp]
      rw [hexp] at hlt
      exact hfit (by simpa using hdup) (by simpa using hempty) hlt
    · exact hre.trans hle
  · refine (bytes_poolAdmit_le v cfg p).trans ?_
    simp only [Flow.wouldExceedPerFlowLimits, decide_eq_true_eq, not_or, not_lt] at hlimit
    exact hlimit.2

/-- Processing a packet that does not overfill the flow keeps it in the budget. -/
theorem bytes_onReordered_le (hr : Ready cfg hand v)
    (hle : v.flow.buffer.bytes ≤ cfg.maxBufferBytesPerFlow) (hfit : ¬v.flow.Overfills cfg p) :
    (v.onReordered cfg p).flow.buffer.bytes ≤ cfg.maxBufferBytesPerFlow := by
  have hc := (ready_handed hr p).1.core
  have hproc : v.flow.resetHonoured cfg p.flags p.nowUs = false → v.flow.passThrough = false →
      ((v.handed p).processReorderPacket cfg p).2.flow.buffer.bytes ≤ cfg.maxBufferBytesPerFlow := by
    intro hreset hpass
    rw [processReorderPacket]
    split_ifs with hinit heq hlate hfar
    · exact hle
    · exact (bytes_deliverInOrder_le _ p).trans hle
    · exact hle
    · exact hle
    · refine bytes_bufferAdmit_le hc hle fun hdup hne hlt => ?_
      by_contra hover
      refine hfit ⟨⟨by simpa [handed] using hinit, hpass⟩, hreset, ?_, by simpa [handed] using hfar, hdup, hne, hlt,
        not_le.1 hover⟩
      change ¬p.seq = v.flow.expected at heq
      change ¬p.seq < v.flow.expected at hlate
      omega
  rw [onReordered]
  dsimp only
  split_ifs with hreset hpass
  · exact Nat.zero_le _
  · exact hle
  · exact (bytes_classifyAndDemote_le _ cfg _ p).trans
      (hproc (by simpa [Flow.resetHonoured] using hreset) (by simpa using hpass))

end View

namespace Rx

/-- The call brings no packet that overfills its flow. -/
def Fits (rx : Rx) : Op → Prop
  | .onPacket payload nowUs alloc => (rx.route payload).Imp fun key seq flags inner =>
      ∀ f ∈ rx.flowLookup key, ¬f.Overfills rx.cfg ⟨seq, flags, inner, nowUs, alloc⟩
  | .tick _ => True

instance (rx : Rx) : ∀ op : Op, Decidable (rx.Fits op)
  | .onPacket payload _ _ => inferInstanceAs (Decidable ((rx.route payload).Imp _))
  | .tick _ => .isTrue trivial

/-- Every flow is within its budget of bytes. -/
def InBudget (cfg : Config) (flows : List Flow) : Prop :=
  ∀ f ∈ flows, f.buffer.bytes ≤ cfg.maxBufferBytesPerFlow

variable {rx : Rx} {cfg : Config} {seed : UInt64}

theorem fits_acts {op : Op} (h : rx.Fits op) :
    ∀ f p, .packet f p ∈ rx.acts op → ¬f.Overfills rx.cfg p := by
  intro f p hm
  cases op with
  | tick nowUs =>
    simp [acts] at hm
  | onPacket payload nowUs alloc =>
    rw [acts] at hm
    rw [Fits] at h
    cases hr : rx.route payload with
    | ignore => simp [hr] at hm
    | bypass inner => simp [hr] at hm
    | flow key seq flags inner =>
      rw [hr] at hm h
      dsimp only [Route.Imp] at hm h
      rw [flowActs] at hm
      cases hl : rx.flowLookup key with
      | some g =>
        rw [hl] at hm
        obtain ⟨rfl, rfl⟩ : f = g ∧ p = _ := by simpa using hm
        exact h f hl
      | none =>
        -- A flow just created has no epoch yet.
        rw [hl] at hm
        have hf : f = newFlow rx.cfg key := by
          rcases List.mem_append.1 hm with hm | hm
          · split_ifs at hm <;> simp at hm
          · split_ifs at hm <;> simp at hm
            exact hm.1
        rw [hf]
        rintro ⟨⟨hinit, -⟩, -⟩
        exact absurd (show false = true from hinit) (by decide)

theorem inBudget_of_change {a : Act} {s s' : Shared} {l l' : List Flow} (hc : Change cfg a s l s' l')
    (hinv : Inv cfg s l) (hfit : ∀ f p, a = .packet f p → ¬f.Overfills cfg p)
    (h : InBudget cfg l) : InBudget cfg l' := by
  -- Replacing a flow by one that is within the budget.
  have hupdate : ∀ {l r : List Flow} {f f' : Flow}, InBudget cfg (l ++ f :: r) →
      f'.buffer.bytes ≤ cfg.maxBufferBytesPerFlow → InBudget cfg (l ++ f' :: r) := by
    intro l r f f' h hf' g hg
    rcases Chains.mem_focus.1 hg with rfl | hg
    exacts [hf', h g (Chains.mem_focus.2 (.inr hg))]
  cases hc with
  | @packet _ l r f p =>
    have hf := h f (Chains.mem_focus.2 (.inl rfl))
    exact hupdate h (View.bytes_onReordered_le hinv.ready_focus hf (hfit f p rfl))
  | @timeout _ l r f nowUs _ =>
    have hf := h f (Chains.mem_focus.2 (.inl rfl))
    exact hupdate h ((View.bytes_onGapTimeout_le _ nowUs).trans hf)
  | evict => exact fun g hg => h g (Chains.mem_focus.2 (.inr hg))
  | create _ =>
    intro g hg
    rcases Chains.mem_focus.1 hg with rfl | hg
    exacts [Nat.zero_le _, h g hg]
  | bypass _ => exact h

theorem inBudget_of_changes {as : List Act} {s s' : Shared} {l l' : List Flow}
    (hcap : ∀ k, (cfg.flowCap k).isPowerOfTwo) (hc : Changes cfg as s l s' l')
    (hfit : ∀ f p, .packet f p ∈ as → ¬f.Overfills cfg p)
    (hinv : Inv cfg s l) (h : InBudget cfg l) : InBudget cfg l' := by
  refine (hc.keeps (P := fun s l => Inv cfg s l ∧ InBudget cfg l) ?_ ⟨hinv, h⟩).2
  rintro a ha s l s' l' hc ⟨hinv, h⟩
  exact ⟨hc.inv hcap hinv, inBudget_of_change hc hinv (fun f p he => hfit f p (he ▸ ha)) h⟩

/-- In a run without a packet that overfills its flow, every flow stays within
    its budget of bytes, and within its cap of packets. -/
theorem budget_of_fits (h : rxNew cfg seed = some rx) (ops : List Op)
    (hfits : Runs.Along step Fits rx ops) :
    ∀ f ∈ (rx.run ops).flows,
      f.buffer.bytes ≤ cfg.maxBufferBytesPerFlow ∧ f.buffer.count ≤ f.buffer.cap := by
  have hg := good_of_rxNew h
  have hrun : (rx.run ops).Good ∧ InBudget (rx.run ops).cfg (rx.run ops).flows := by
    refine Runs.foldl_of_along (J := fun rx => rx.Good ∧ InBudget rx.cfg rx.flows) ?_
      ⟨hg, by rw [(empty_of_rxNew h).1]; exact nofun⟩ hfits
    rintro rx op ⟨hg, hb⟩ hfit
    have hd := does_step hg op
    refine ⟨hd.good hg, ?_⟩
    rw [hd.cfg]
    exact inBudget_of_changes hg.caps hd.changes (fits_acts hfit) hg.inv hb
  have hlimit : (rx.run ops).cfg.maxBufferBytesPerFlow = cfg.maxBufferBytesPerFlow := by
    rw [cfg_run hg, cfg_of_rxNew h, Config.finalize]
  intro f hf
  have hring := (hrun.1.inv.ready f hf).core.ring
  exact ⟨hlimit ▸ hrun.2 f hf, hring.count_le_size.trans hring.size_le⟩

theorem budget_of_fits_sample :
    (defaultRx.run sampleRun).flows.length = 1 ∧ ∀ f ∈ (defaultRx.run sampleRun).flows,
      f.buffer.bytes ≤ Config.default.maxBufferBytesPerFlow ∧ f.buffer.count ≤ f.buffer.cap :=
  ⟨by decide +kernel, budget_of_fits rxNew_default sampleRun (by decide +kernel)⟩

/-- A receiver with a budget of 100 bytes per flow. -/
def smallRx : Rx :=
  { defaultRx with cfg := { Config.default with maxBufferBytesPerFlow := 100 }.finalize }

/-- A small packet and then two larger ones, each behind a gap. The third is over
    the budget; the flush makes room of the first only, which is not enough. -/
theorem not_budget :
    rxNew { Config.default with maxBufferBytesPerFlow := 100 } 0 = some smallRx ∧
      ∃ f ∈ (smallRx.run [receive 1 28 0 0, receive 1 28 2 0, receive 1 60 4 0,
        receive 1 60 6 0]).flows, 100 < f.buffer.bytes :=
  ⟨rfl, by decide +kernel⟩

end Rx

end Mqvpn.Reorder
