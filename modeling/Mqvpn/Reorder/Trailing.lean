import Mqvpn.Reorder.Sync

/-!
# A flow behind its sender

If a flow of the receiver neither expects nor holds a number that the sender has
not reached (`Flow.Behind`), then the next packet of the sender is not late,
whatever was lost before it (`View.behind_onReordered`); and no timeout, flush or
eviction takes the flow ahead of the sender (`Trailing`).
-/

namespace Mqvpn.Reorder

/-! ## Late drops -/

/-- The event drops a packet of the flow `k` as late. -/
def Event.isLate (k : FlowKey) : Event → Bool
  | droppedLate k' _ => k' = k
  | _ => false

/-- How many packets of the flow `k` were dropped as late. -/
def lateDrops (k : FlowKey) (trace : List Event) : Nat := trace.countP (Event.isLate k)

variable {k : FlowKey}

theorem lateDrops_append {evs : List Event} (h : ∀ e ∈ evs, e.isLate k = false)
    (trace : List Event) : lateDrops k (trace ++ evs) = lateDrops k trace := by
  have hzero : evs.countP (Event.isLate k) = 0 :=
    List.countP_eq_zero.2 fun e he => by simp [h e he]
  rw [lateDrops, List.countP_append, hzero]
  rfl

@[simp]
theorem lateDrops_append_singleton {e : Event} (h : e.isLate k = false) (trace : List Event) :
    lateDrops k (trace ++ [e]) = lateDrops k trace :=
  lateDrops_append (by simpa using h) trace

/-- An event of another flow. -/
theorem isLate_of_ne {e : Event} (h : e.key? ≠ some k) : e.isLate k = false := by
  cases e <;> simp_all [Event.key?, Event.isLate]

theorem Shared.lateDrops_poolRelease (s : Shared) (len : Nat) :
    lateDrops k (s.poolRelease len).trace = lateDrops k s.trace := by
  rw [poolRelease]
  split_ifs
  · rfl
  · exact lateDrops_append_singleton rfl _

theorem Shared.lateDrops_releaseSlots (s : Shared) (slots : List (Option Slot)) :
    lateDrops k (s.releaseSlots slots).trace = lateDrops k s.trace := by
  refine List.foldlRecOn slots _
    (motive := fun s' : Shared => lateDrops k s'.trace = lateDrops k s.trace) rfl ?_
  intro s' hs' o _
  cases o with
  | none => exact hs'
  | some p => exact (lateDrops_poolRelease s' _).trans hs'

theorem Drains.lateDrops {nowUs : Nat} {v v' : View} (h : Drains nowUs v v') :
    lateDrops k v'.trace = lateDrops k v.trace := by
  induction h with
  | refl => rfl
  | pop _ _ ih =>
    refine ih.trans ((Shared.lateDrops_poolRelease _ _).trans ?_)
    exact lateDrops_append_singleton rfl _

namespace View

variable {v : View} {p : Arrival} {nowUs : Nat}

theorem lateDrops_drainContiguous (v : View) (nowUs : Nat) :
    lateDrops k (v.drainContiguous nowUs).trace = lateDrops k v.trace :=
  (drains_drainContiguous nowUs v).lateDrops

theorem lateDrops_skipToLowestAndDrain (v : View) (nowUs : Nat) :
    lateDrops k (v.skipToLowestAndDrain nowUs).trace = lateDrops k v.trace := by
  refine (lateDrops_drainContiguous _ nowUs).trans ?_
  split_ifs <;> rfl

theorem lateDrops_overflowFlush (v : View) (nowUs : Nat) :
    lateDrops k (v.overflowFlush nowUs).trace = lateDrops k v.trace := by
  have := lateDrops_skipToLowestAndDrain (k := k) v nowUs
  rw [overflowFlush]
  dsimp only
  split_ifs <;> exact this

theorem lateDrops_onGapTimeout (v : View) (nowUs : Nat) :
    lateDrops k (v.onGapTimeout nowUs).trace = lateDrops k v.trace := by
  rw [onGapTimeout]
  split_ifs
  · rfl
  · have := lateDrops_skipToLowestAndDrain (k := k) { v with flow := { v.flow with
      stats := { v.flow.stats with gapTimeoutCount := v.flow.stats.gapTimeoutCount + 1 } } } nowUs
    dsimp only
    split_ifs <;> exact this

theorem lateDrops_resetReorderFlow (v : View) :
    lateDrops k v.resetReorderFlow.trace = lateDrops k v.trace := by
  rw [resetReorderFlow, discardBufferForReset]
  dsimp only
  rw [Shared.lateDrops_releaseSlots]
  split_ifs <;> rfl

theorem lateDrops_startAt (v : View) (p : Arrival) :
    lateDrops k (v.startAt p).trace = lateDrops k v.trace :=
  (lateDrops_append_singleton rfl _).trans (lateDrops_append_singleton rfl _)

theorem lateDrops_deliverInOrder (v : View) (p : Arrival) :
    lateDrops k (v.deliverInOrder p).trace = lateDrops k v.trace := by
  have : lateDrops k ((v.accept p).drainContiguous p.nowUs).trace = lateDrops k v.trace :=
    (lateDrops_drainContiguous _ _).trans (lateDrops_append_singleton rfl _)
  rw [deliverInOrder]
  dsimp only
  split_ifs <;> exact this

theorem lateDrops_demoteLoop (nowUs fuel : Nat) (v : View) :
    lateDrops k (demoteLoop nowUs fuel v).trace = lateDrops k v.trace := by
  induction fuel generalizing v with
  | zero => rfl
  | succ fuel ih =>
    rw [demoteLoop]
    split_ifs
    · rfl
    · exact (ih _).trans (lateDrops_drainContiguous _ _)

theorem lateDrops_demote (v : View) (nowUs : Nat) :
    lateDrops k (v.demote nowUs).trace = lateDrops k v.trace := by
  refine (lateDrops_append_singleton rfl _).trans ?_
  rw [flushBufferForDemote]
  refine (lateDrops_demoteLoop _ _ _).trans ?_
  split_ifs <;> rfl

end View

/-! ## Behind the sender -/

/-- What the flow expects and holds has a number below `n`. -/
structure Flow.Under (f : Flow) (n : Nat) : Prop where
  expected : f.expected ≤ n
  entries : ∀ s ∈ f.buffer.entries, s.seq < n

/-- If it is reordering, the flow is not ahead of a sender that has sent `n`
    packets. -/
def Flow.Behind (f : Flow) (n : Nat) : Prop := f.Live → f.Under n

theorem Flow.Behind.mono {f : Flow} {n n' : Nat} (h : f.Behind n) (hle : n ≤ n') : f.Behind n' :=
  fun hl => ⟨(h hl).expected.trans hle, fun s hs => ((h hl).entries s hs).trans_le hle⟩

/-- A flow that neither expects nor holds more than before. -/
theorem Flow.Behind.congr {f f' : Flow} {n : Nat} (h : f.Behind n) (hl : f'.Live → f.Live)
    (he : f'.expected = f.expected) (hb : f'.buffer = f.buffer) : f'.Behind n := fun hl' =>
  ⟨he ▸ (h (hl hl')).expected, by rw [hb]; exact (h (hl hl')).entries⟩

theorem Drains.under {nowUs n : Nat} {v v' : View} (hd : Drains nowUs v v')
    (h : v.flow.buffer.Inv v.flow.expected) (hu : v.flow.Under n) : v'.flow.Under n := by
  induction hd with
  | refl => exact hu
  | pop hr _ ih =>
    obtain ⟨hs, hseq, rfl⟩ := (Ring.remove_eq_some_iff h).1 hr
    refine ih (View.inv_clear_succ h hs hseq) ⟨?_, fun t ht => ?_⟩
    · rw [View.flow_pop_expected, ← hseq]
      exact hu.entries _ hs
    · exact hu.entries t ((h.entries_clear hs).mem_iff.2 (List.mem_cons_of_mem _ ht))

namespace View

variable {cfg : Config} {hand : List Bytes} {v : View} {n : Nat} {p : Arrival}

/-- The lowest sequence number is that of a packet, or `expected`. -/
theorem under_skipTo_lowestSeq (h : Core cfg hand v) (hu : v.flow.Under n) :
    (v.skipTo (v.flow.buffer.lowestSeq v.flow.expected)).flow.Under n := by
  refine ⟨?_, hu.entries⟩
  change v.flow.buffer.lowestSeq v.flow.expected ≤ n
  by_cases hnil : v.flow.buffer.entries = []
  · have hle : v.flow.buffer.lowestSeq v.flow.expected ≤ v.flow.expected := by
      rw [Ring.lowestSeq]
      split_ifs
      · exact le_rfl
      · split
        · rename_i i hi
          obtain ⟨s, hs, -⟩ := (Ring.slotHolds_iff h.ring).1 (List.find?_some (p := fun i => v.flow.buffer.slotHolds (v.flow.expected + i)) hi)
          exact absurd hs (hnil ▸ List.not_mem_nil)
        · exact le_rfl
    exact hle.trans hu.expected
  · obtain ⟨s, hs, heq⟩ := (Ring.lowestSeq_spec h.ring hnil).1
    rw [← heq]
    exact (hu.entries s hs).le

theorem under_skipToLowestAndDrain (nowUs : Nat) (h : Core cfg hand v) (hu : v.flow.Under n) :
    (v.skipToLowestAndDrain nowUs).flow.Under n := by
  have hskip := (keeps_skipToLowest v h).1
  have hu' : (if v.flow.expected < v.flow.buffer.lowestSeq v.flow.expected then
      v.skipTo (v.flow.buffer.lowestSeq v.flow.expected) else v).flow.Under n := by
    split_ifs
    · exact under_skipTo_lowestSeq h hu
    · exact hu
  have hd := (drains_drainContiguous nowUs _).under hskip.ring hu'
  exact ⟨hd.expected, hd.entries⟩

theorem under_overflowFlush (nowUs : Nat) (h : Core cfg hand v) (hu : v.flow.Under n) :
    (v.overflowFlush nowUs).flow.Under n := by
  have := under_skipToLowestAndDrain nowUs h hu
  rw [overflowFlush]
  dsimp only
  split_ifs <;> exact ⟨this.expected, this.entries⟩

theorem under_startAt (h : v.flow.buffer.entries = []) :
    (v.startAt p).flow.Under (p.seq + 1) := by
  refine ⟨le_rfl, fun s hs => ?_⟩
  change s ∈ v.flow.buffer.entries at hs
  exact absurd hs (h ▸ List.not_mem_nil)

theorem under_deliverInOrder (h : Core cfg (p.pkt :: hand) v) (hs : v.flow.Settled)
    (hseq : p.seq = v.flow.expected) (hu : v.flow.Under p.seq) :
    (v.deliverInOrder p).flow.Under (p.seq + 1) := by
  have hc := (keeps_accept hs hseq h).1
  have hu' : (v.accept p).flow.Under (p.seq + 1) := by
    refine ⟨?_, fun s hs => (hu.entries s hs).trans (Nat.lt_succ_self _)⟩
    change v.flow.expected + 1 ≤ _
    rw [hseq]
  have hd := (drains_drainContiguous p.nowUs _).under hc.ring hu'
  rw [deliverInOrder]
  dsimp only
  split_ifs
  · exact ⟨hd.expected, hd.entries⟩
  · exact hd

theorem behind_onGapTimeout (nowUs : Nat) (h : Ready cfg hand v) (hb : v.flow.Behind n) :
    (v.onGapTimeout nowUs).flow.Behind n := by
  rw [onGapTimeout]
  split_ifs with hempty
  · exact hb.congr id rfl rfl
  · have hl := h.live_of_count (isEmpty_eq_false.1 (by simpa using hempty))
    have := under_skipToLowestAndDrain (v := { v with flow := { v.flow with stats := { v.flow.stats with
      gapTimeoutCount := v.flow.stats.gapTimeoutCount + 1 } } }) nowUs
      ⟨h.core.cap, h.core.ring, h.core.charged, h.core.pooled, ⟨h.core.conserved.fates, h.core.conserved.payloads⟩,
        h.core.ordered⟩ ⟨(hb hl).expected, (hb hl).entries⟩
    dsimp only
    split_ifs <;> exact fun _ => ⟨this.expected, this.entries⟩

end View

section

variable {cfg : Config} {p : Arrival} {b b' : Bool} {v v' : View}

/-- A packet with the next number of the sender is never late, and leaves the flow
    behind the sender. -/
theorem Move.behind (hm : Move cfg p b v b' v') (h : Ready cfg (inHand p b) v)
    (hb : v.flow.Behind (following p b)) :
    v'.flow.Behind (following p b') ∧ lateDrops k v'.trace = lateDrops k v.trace := by
  cases hm with
  | reset _ =>
    exact ⟨fun _ => View.under_startAt rfl,
      (View.lateDrops_startAt _ p).trans (View.lateDrops_resetReorderFlow v)⟩
  | passThrough hpass =>
    exact ⟨fun hl => absurd (hl.2.symm.trans hpass) Bool.false_ne_true, lateDrops_append_singleton rfl _⟩
  | coldStart hinit hpass =>
    have hnil : v.flow.buffer.entries = [] := by
      refine h.core.ring.count_eq_zero_iff.1 (h.idle.resolve_left fun hl => ?_)
      exact absurd (hinit.symm.trans hl.1) Bool.false_ne_true
    exact ⟨fun _ => View.under_startAt hnil, View.lateDrops_startAt v p⟩
  | inOrder hl hseq =>
    exact ⟨fun _ => View.under_deliverInOrder h.core h.settled hseq (hb hl),
      View.lateDrops_deliverInOrder v p⟩
  | late hl hlt => exact absurd (hb hl).expected (not_le.2 hlt)
  | drop d _ _ =>
    have hd : (v.drop d).flow.Behind p.seq := hb.congr id rfl rfl
    exact ⟨hd.mono (Nat.le_succ _), rfl⟩
  | flush hl _ _ _ =>
    exact ⟨fun _ => View.under_overflowFlush p.nowUs h.core (hb hl), View.lateDrops_overflowFlush v _⟩
  | @insert _ r hl hlt hfar hdup _ hr =>
    obtain ⟨-, -, hperm, -⟩ := View.insert_of_core h.core hlt hfar hdup hr
    have hu : ∀ s ∈ r.entries, s.seq < p.seq + 1 := by
      intro s hs
      rcases List.mem_cons.1 (hperm.mem_iff.1 hs) with rfl | hs
      · exact Nat.lt_succ_self _
      · exact ((hb hl).entries s hs).trans (Nat.lt_succ_self _)
    have hle : v.flow.expected ≤ p.seq + 1 := (hb hl).expected.trans (Nat.le_succ _)
    rw [View.inserted]
    dsimp only
    split_ifs
    · exact ⟨fun _ => ⟨hle, hu⟩, lateDrops_append_singleton rfl _⟩
    · exact ⟨fun _ => ⟨hle, hu⟩, lateDrops_append_singleton rfl _⟩
  | classify _ _ _ =>
    refine ⟨?_, rfl⟩
    exact Flow.Behind.congr (f := v.flow) hb id rfl rfl
  | demote => exact ⟨fun hl => (by cases hl.2), View.lateDrops_demote v _⟩

theorem Moves.behind (hm : Moves cfg p b v b' v') (h : Ready cfg (inHand p b) v)
    (hb : v.flow.Behind (following p b)) :
    v'.flow.Behind (following p b') ∧ lateDrops k v'.trace = lateDrops k v.trace := by
  induction hm with
  | refl => exact ⟨hb, rfl⟩
  | head hm _ ih =>
    obtain ⟨hb', hlate⟩ := hm.behind (k := k) h hb
    obtain ⟨hb'', hlate'⟩ := ih (hm.ready h).1 hb'
    exact ⟨hb'', hlate'.trans hlate⟩

theorem View.behind_onReordered (h : Ready cfg [] v) (hb : v.flow.Behind p.seq) :
    (v.onReordered cfg p).flow.Behind (p.seq + 1) ∧
      lateDrops k (v.onReordered cfg p).trace = lateDrops k v.trace := by
  have hhanded : (v.handed p).flow.Behind p.seq := hb.congr id rfl rfl
  obtain ⟨hb', hlate⟩ := (moves_onReordered v cfg p).behind (k := k) (ready_handed h p).1 hhanded
  exact ⟨hb', hlate.trans (lateDrops_append_singleton rfl _)⟩

end

/-! ## The receiver -/

/-- The flow of `k` is behind a sender that has sent `n` packets for it, and
    `late` of them were dropped as late. -/
structure Trailing (cfg : Config) (k : FlowKey) (n late : Nat) (s : Shared) (l : List Flow) : Prop where
  inv : Inv cfg s l
  behind : ∀ f ∈ l, f.key = k → f.Behind n
  late : lateDrops k s.trace = late

section

variable {cfg : Config} {a : Act} {s s' : Shared} {l l' : List Flow} {n late : Nat}

/-- What happens to the flow between two of its packets. -/
theorem Change.trailing (hcap : ∀ k, (cfg.flowCap k).isPowerOfTwo) (hc : Change cfg a s l s' l')
    (h : Trailing cfg k n late s l) (ha : ∀ f p, a = .packet f p → f.key ≠ k) :
    Trailing cfg k n late s' l' := by
  have hinv' := hc.inv hcap h.inv
  cases hc with
  | @packet _ l r f p =>
    have hf := (View.ready_onReordered h.inv.ready_focus p).2
    have hkey : (View.onReordered ⟨s, f⟩ cfg p).flow.key = f.key := hf.key
    obtain ⟨evs, ht, hevs⟩ := hf.trace
    refine ⟨hinv', fun g hg hk => ?_, ?_⟩
    · rcases Chains.mem_focus.1 hg with rfl | hg
      · exact absurd (hkey.symm.trans hk) (ha f p rfl)
      · exact h.behind g (Chains.mem_focus.2 (.inr hg)) hk
    · rw [ht, lateDrops_append fun e he => isLate_of_ne ?_]
      · exact h.late
      · rw [(hevs e he).1]
        exact fun heq => ha f p rfl (Option.some.inj heq)
  | @timeout _ l r f nowUs _ =>
    have hkey : (View.onGapTimeout ⟨s, f⟩ nowUs).flow.key = f.key := Rx.key_onGapTimeout _ nowUs
    refine ⟨hinv', fun g hg hk => ?_, (View.lateDrops_onGapTimeout _ nowUs).trans h.late⟩
    rcases Chains.mem_focus.1 hg with rfl | hg
    · exact View.behind_onGapTimeout nowUs h.inv.ready_focus
        (h.behind f (Chains.mem_focus.2 (.inl rfl)) (hkey.symm.trans hk))
    · exact h.behind g (Chains.mem_focus.2 (.inr hg)) hk
  | evict =>
    refine ⟨hinv', fun g hg => h.behind g (Chains.mem_focus.2 (.inr hg)), ?_⟩
    rw [h.inv.evict_eq]
    exact (lateDrops_append_singleton rfl _).trans h.late
  | create _ =>
    refine ⟨hinv', fun g hg hk => ?_, (lateDrops_append_singleton rfl _).trans h.late⟩
    rcases Chains.mem_focus.1 hg with rfl | hg
    · exact fun hl => absurd hl.1 nofun
    · exact h.behind g hg hk
  | bypass _ => exact ⟨hinv', h.behind, (lateDrops_append_singleton rfl _).trans h.late⟩

/-- The next packet of the flow. -/
theorem Change.trailing_packet {f : Flow} {p : Arrival} (hcap : ∀ k, (cfg.flowCap k).isPowerOfTwo)
    (hc : Change cfg (.packet f p) s l s' l') (hk : f.key = k)
    (h : Trailing cfg k p.seq late s l) : Trailing cfg k (p.seq + 1) late s' l' := by
  have hinv' := hc.inv hcap h.inv
  cases hc with
  | @packet _ l r _ _ =>
    obtain ⟨hb, hlate⟩ := View.behind_onReordered (k := k) (p := p) h.inv.ready_focus
      (h.behind f (Chains.mem_focus.2 (.inl rfl)) hk)
    refine ⟨hinv', fun g hg hgk => ?_, hlate.trans h.late⟩
    rcases Chains.mem_focus.1 hg with rfl | hg
    · exact hb
    · exact (h.behind g (Chains.mem_focus.2 (.inr hg)) hgk).mono (Nat.le_succ _)

theorem Trailing.succ (h : Trailing cfg k n late s l) (j : Nat) : Trailing cfg k (n + j) late s l :=
  ⟨h.inv, fun f hf hk => (h.behind f hf hk).mono (Nat.le_add_right ..), h.late⟩

end

namespace Rx

variable {rx : Rx} {m : Msg} {n late marks i : Nat}

/-- A datagram of the sender leaves the flow of `k` behind it; if it is of that
    flow, its number is the next one. -/
theorem trailing_onPacket (hg : rx.Good) (h : Trailing rx.cfg k n late rx.toShared rx.flows)
    (hparse : parse5tuple m.pkt = some m.key) (hhdr : m.hdr = header marks i)
    (hi : m.key = k → i = n ∧ n < 2 ^ 48) (nowUs : Nat) (alloc : Alloc) :
    Trailing rx.cfg k (n + (ofKey k [m]).length) late (rx.onPacket m.payload nowUs alloc).toShared
      (rx.onPacket m.payload nowUs alloc).flows := by
  have hc := (does_step hg (.onPacket m.payload nowUs alloc)).changes
  change Changes _ _ _ _ (rx.onPacket m.payload nowUs alloc).toShared
    (rx.onPacket m.payload nowUs alloc).flows at hc
  -- All the acts but the processing of the packet.
  have hother : ∀ {as s l s' l'}, Changes rx.cfg as s l s' l' →
      (∀ a ∈ as, ∀ f p, a = .packet f p → f.key ≠ k) → Trailing rx.cfg k n late s l →
      Trailing rx.cfg k n late s' l' := fun hc has h =>
    hc.keeps (P := Trailing rx.cfg k n late) (fun a ha _ _ _ _ hc h => hc.trailing hg.caps h (has a ha)) h
  rw [acts] at hc
  by_cases hlen : m.pkt.length ≤ 65535
  · rw [route_payload rx hparse hlen hhdr] at hc
    by_cases hwait : rx.cfg.flowWaitMs m.key = 0
    · rw [if_pos hwait] at hc
      exact (hother hc (by simp) h).succ _
    · rw [if_neg hwait] at hc
      dsimp only at hc
      obtain ⟨pre, hpre, ⟨-, hacts⟩ | ⟨f, hk, hacts⟩⟩ := rx.flowActs_eq m.key ⟨i % 2 ^ 48,
        if i < marks then flagReset else 0, m.pkt, nowUs, alloc⟩
      · rw [hacts] at hc
        refine (hother hc (fun a ha f p he => ?_) h).succ _
        rcases hpre a ha with ⟨g, rfl⟩ | rfl <;> cases he
      · rw [hacts] at hc
        obtain ⟨s₁, l₁, hc₁, hc₂⟩ := hc.exists_of_append
        have h₁ : Trailing rx.cfg k n late s₁ l₁ := by
          refine hother hc₁ (fun a ha f p he => ?_) h
          rcases hpre a ha with ⟨g, rfl⟩ | rfl <;> cases he
        cases hc₂ with
        | cons hc hnil =>
          cases hnil
          by_cases hmk : m.key = k
          · obtain ⟨rfl, hn⟩ := hi hmk
            rw [Nat.mod_eq_of_lt hn] at hc
            rw [← hmk, ofKey_singleton_self, hmk]
            exact hc.trailing_packet hg.caps (hk.trans hmk) h₁
          · refine (hc.trailing hg.caps h₁ ?_).succ _
            rintro _ _ ⟨⟩
            rwa [hk]
  · rw [route_long rx hhdr (not_le.1 hlen)] at hc
    exact (hother hc (by simp) h).succ _

theorem trailing_tick (hg : rx.Good) (h : Trailing rx.cfg k n late rx.toShared rx.flows) (nowUs : Nat) :
    Trailing rx.cfg k n late (rx.tick nowUs).toShared (rx.tick nowUs).flows := by
  refine (does_tick hg nowUs).changes.keeps (P := Trailing rx.cfg k n late) ?_ h
  intro a ha s l s' l' hc h
  refine hc.trailing hg.caps h fun f p he => ?_
  rcases List.mem_append.1 ha with ha | ha
  · obtain ⟨g, -, rfl⟩ := List.mem_map.1 ha
    nomatch he
  · obtain ⟨g, -, rfl⟩ := List.mem_map.1 ha
    nomatch he

end Rx

end Mqvpn.Reorder
