import Mqvpn.Reorder.Trace

/-!
# The moves of a flow

What a packet can do to its flow, said once. A `Move` is one thing that happens
to a flow while a packet is processed, with the condition under which the code
does it; the boolean tells whether the packet is still in hand, i.e., has not met
its fate yet. `on_reordered` is a sequence of moves that takes the packet from
the hand to its fate (`moves_onReordered`), so an invariant of flows is proved
move by move.

Likewise a drain is a sequence of `pop`s (`drains_drainContiguous`), and it goes
on until the next expected packet is not buffered (`drainContiguous_done`).
-/

namespace Mqvpn.Reorder

/-! ## Drains -/

/-- Zero or more iterations of the drain loop. -/
inductive Drains (nowUs : Nat) : View → View → Prop
  | refl (v : View) : Drains nowUs v v
  | pop {v v' : View} {s : Slot} {r : Ring} :
      v.flow.buffer.remove v.flow.expected = some (s, r) → Drains nowUs (v.pop s r nowUs) v' →
      Drains nowUs v v'

/-- The flow is reordering: it has an epoch and is not demoted. -/
def Flow.Live (f : Flow) : Prop := f.initialized = true ∧ f.passThrough = false

/-- What neither a drain nor a skip touches. -/
structure Quiet (f f' : Flow) : Prop where
  key : f'.key = f.key
  initialized : f'.initialized = f.initialized
  passThrough : f'.passThrough = f.passThrough
  gapTimerActive : f'.gapTimerActive = f.gapTimerActive
  gapCount : f'.stats.gapCount = f.stats.gapCount
  periodsClosed : f'.stats.periodsClosed = f.stats.periodsClosed
  count_le : f'.buffer.count ≤ f.buffer.count
  bytes_le : f'.buffer.bytes ≤ f.buffer.bytes

namespace Quiet

theorem refl (f : Flow) : Quiet f f := ⟨rfl, rfl, rfl, rfl, rfl, rfl, le_rfl, le_rfl⟩

theorem trans {f f' f'' : Flow} (h : Quiet f f') (h' : Quiet f' f'') : Quiet f f'' :=
  ⟨h'.1.trans h.1, h'.2.trans h.2, h'.3.trans h.3, h'.4.trans h.4, h'.5.trans h.5,
    h'.6.trans h.6, h'.7.trans h.7, h'.8.trans h.8⟩

theorem live {f f' : Flow} (h : Quiet f f') (hl : f.Live) : f'.Live :=
  ⟨h.initialized.trans hl.1, h.passThrough.trans hl.2⟩

end Quiet

theorem Drains.quiet {nowUs : Nat} {v v' : View} (h : Drains nowUs v v') : Quiet v.flow v'.flow := by
  induction h with
  | refl => exact .refl _
  | @pop v _ s r hr _ ih =>
    have hpop : Quiet v.flow (v.pop s r nowUs).flow :=
      ⟨rfl, rfl, rfl, rfl, rfl, rfl, (Ring.le_of_remove hr).1, (Ring.le_of_remove hr).2⟩
    exact hpop.trans ih

namespace View

variable {v : View} {nowUs : Nat}

theorem drains_drainLoop (nowUs fuel : Nat) (v : View) : Drains nowUs v (drainLoop nowUs fuel v) := by
  induction fuel generalizing v with
  | zero => exact .refl v
  | succ fuel ih =>
    rw [drainLoop]
    split
    · rename_i s r h
      exact .pop h (ih _)
    · exact .refl v

theorem drains_drainContiguous (nowUs : Nat) (v : View) : Drains nowUs v (v.drainContiguous nowUs) :=
  drains_drainLoop nowUs _ v

@[simp]
theorem flow_pop_buffer (v : View) (s : Slot) (r : Ring) (nowUs : Nat) :
    (v.pop s r nowUs).flow.buffer = r := rfl

@[simp]
theorem flow_pop_expected (v : View) (s : Slot) (r : Ring) (nowUs : Nat) :
    (v.pop s r nowUs).flow.expected = v.flow.expected + 1 := rfl

/-- The ring without the packet that is popped is a ring from the next one on. -/
theorem inv_clear_succ {r : Ring} {e : Nat} {s : Slot} (h : r.Inv e) (hs : s ∈ r.entries)
    (he : s.seq = e) : (r.clear s).Inv (e + 1) := by
  refine (h.clear hs).mono (Nat.le_succ e) fun t ht => ?_
  have hnd := h.nodup
  rw [((h.entries_clear hs).map (·.seq)).nodup_iff, List.map_cons, List.nodup_cons] at hnd
  have hne : t.seq ≠ s.seq := fun heq => hnd.1 (heq ▸ List.mem_map_of_mem ht)
  have := (h.clear hs).le_of_mem ht
  omega

/-- With fuel for all its packets, the drain loop stops because the next expected
    one is not buffered. -/
theorem drainLoop_done {fuel : Nat} (h : v.flow.buffer.Inv v.flow.expected)
    (hf : v.flow.buffer.count ≤ fuel) :
    (drainLoop nowUs fuel v).flow.buffer.remove (drainLoop nowUs fuel v).flow.expected = none := by
  induction fuel generalizing v with
  | zero =>
    rw [drainLoop, Ring.remove_eq_none_iff h]
    have := h.count_eq_zero_iff.1 (Nat.le_zero.1 hf)
    simp [this]
  | succ fuel ih =>
    rw [drainLoop]
    split
    · rename_i s r hr
      obtain ⟨hs, hseq, rfl⟩ := (Ring.remove_eq_some_iff h).1 hr
      refine ih (inv_clear_succ h hs hseq) ?_
      rw [flow_pop_buffer]
      have := (h.count_clear hs).1
      omega
    · assumption

theorem quiet_skipToLowestAndDrain (v : View) (nowUs : Nat) :
    Quiet v.flow (v.skipToLowestAndDrain nowUs).flow := by
  have hskip : Quiet v.flow (if v.flow.expected < v.flow.buffer.lowestSeq v.flow.expected then
      v.skipTo (v.flow.buffer.lowestSeq v.flow.expected) else v).flow := by
    split_ifs
    exacts [⟨rfl, rfl, rfl, rfl, rfl, rfl, le_rfl, le_rfl⟩, .refl _]
  exact (hskip.trans (drains_drainContiguous nowUs _).quiet).trans ⟨rfl, rfl, rfl, rfl, rfl, rfl, le_rfl, le_rfl⟩

theorem live_overflowFlush (nowUs : Nat) (h : v.flow.Live) : (v.overflowFlush nowUs).flow.Live := by
  have := (quiet_skipToLowestAndDrain v nowUs).live h
  rw [overflowFlush]
  dsimp only
  split_ifs <;> exact this

theorem drainContiguous_done (h : v.flow.buffer.Inv v.flow.expected) :
    (v.drainContiguous nowUs).flow.buffer.remove (v.drainContiguous nowUs).flow.expected = none :=
  drainLoop_done h h.count_le_size

end View

/-! ## Moves -/

/-- One thing that happens to a flow while the packet `p` is processed. -/
inductive Move (cfg : Config) (p : Arrival) : Bool → View → Bool → View → Prop
  | reset {v : View} : v.flow.resetHonoured cfg p.flags p.nowUs = true →
      Move cfg p true v false (v.resetReorderFlow.startAt p)
  | passThrough {v : View} : v.flow.passThrough = true →
      Move cfg p true v false (v.deliverPassThrough p)
  | coldStart {v : View} : v.flow.initialized = false → v.flow.passThrough = false →
      Move cfg p true v false (v.startAt p)
  | inOrder {v : View} : v.flow.Live → p.seq = v.flow.expected →
      Move cfg p true v false (v.deliverInOrder p)
  | late {v : View} : v.flow.Live → p.seq < v.flow.expected →
      Move cfg p true v false (v.dropLate p.seq)
  | drop {v : View} (d : Drop) : v.flow.Live → v.flow.expected < p.seq →
      Move cfg p true v false (v.drop d)
  | flush {v : View} : v.flow.Live → v.flow.buffer.isEmpty = false → v.flow.expected < p.seq →
      v.flow.buffer.contains p.seq = false → Move cfg p true v true (v.overflowFlush p.nowUs)
  | insert {v : View} {r : Ring} : v.flow.Live → v.flow.expected < p.seq →
      v.flow.buffer.farAhead p.seq v.flow.expected = false →
      v.flow.buffer.contains p.seq = false → v.poolWouldExhaust cfg p.pkt.length = false →
      v.flow.buffer.insert ⟨p.seq, p.pkt, p.nowUs⟩ v.flow.expected p.alloc.slots = some r →
      Move cfg p true v false (v.inserted p r)
  | classify (v : View) (seen large : Nat) :
      Move cfg p false v false
        { v with flow := { v.flow with classifySeen := seen, classifyLarge := large } }
  | demote (v : View) : Move cfg p false v false (v.demote p.nowUs)

/-- A sequence of moves. -/
inductive Moves (cfg : Config) (p : Arrival) : Bool → View → Bool → View → Prop
  | refl (b : Bool) (v : View) : Moves cfg p b v b v
  | head {b b' b'' : Bool} {v v' v'' : View} :
      Move cfg p b v b' v' → Moves cfg p b' v' b'' v'' → Moves cfg p b v b'' v''

variable {cfg : Config} {p : Arrival}

theorem Moves.trans {b b' b'' : Bool} {v v' v'' : View} (h : Moves cfg p b v b' v')
    (h' : Moves cfg p b' v' b'' v'') : Moves cfg p b v b'' v'' := by
  induction h with
  | refl => exact h'
  | head hm _ ih => exact .head hm (ih h')

theorem Move.moves {b b' : Bool} {v v' : View} (h : Move cfg p b v b' v') : Moves cfg p b v b' v' :=
  .head h (.refl ..)

/-! ## Refinement -/

namespace View

variable {v : View}

/-- Reclassifying either settles the packet, or leaves it in hand as a packet
    of the window that is not buffered. -/
theorem moves_reclassifyAfterFlush (cfg : Config) (p : Arrival) (h : v.flow.Live) :
    (∃ v', v.reclassifyAfterFlush p = (.buffered, v') ∧ v' = v ∧ v.flow.expected < p.seq ∧
      v.flow.buffer.farAhead p.seq v.flow.expected = false ∧
      v.flow.buffer.contains p.seq = false) ∨
    ((v.reclassifyAfterFlush p).1 ≠ .buffered ∧
      Moves cfg p true v false (v.reclassifyAfterFlush p).2) := by
  rw [reclassifyAfterFlush]
  split_ifs with hlate heq hfar hdup
  · exact .inr ⟨nofun, (Move.late h hlate).moves⟩
  · exact .inr ⟨nofun, (Move.inOrder h heq).moves⟩
  · exact .inr ⟨nofun, (Move.drop .farAhead h (by omega)).moves⟩
  · exact .inr ⟨nofun, (Move.drop .duplicate h (by omega)).moves⟩
  · exact .inl ⟨v, rfl, rfl, by omega, by simpa using hfar, by simpa using hdup⟩

theorem moves_bufferInsertCommitted (h : v.flow.Live) (hseq : v.flow.expected < p.seq)
    (hfar : v.flow.buffer.farAhead p.seq v.flow.expected = false)
    (hdup : v.flow.buffer.contains p.seq = false)
    (hpool : v.poolWouldExhaust cfg p.pkt.length = false) :
    Moves cfg p true v false (v.bufferInsertCommitted p).2 := by
  rw [bufferInsertCommitted]
  split_ifs with hcopy
  · exact (Move.drop .pool h hseq).moves
  · split
    · exact (Move.drop .pool h hseq).moves
    · rename_i r hr
      exact (Move.insert h hseq hfar hdup hpool hr).moves

theorem moves_poolAdmit (h : v.flow.Live) (hseq : v.flow.expected < p.seq)
    (hfar : v.flow.buffer.farAhead p.seq v.flow.expected = false)
    (hdup : v.flow.buffer.contains p.seq = false) :
    Moves cfg p true v false (v.poolAdmit cfg p).2 := by
  rw [poolAdmit]
  split_ifs with hpool hempty
  · exact (Move.drop .pool h hseq).moves
  · refine .head (.flush h (by simpa using hempty) hseq hdup) ?_
    have hl := live_overflowFlush p.nowUs h
    rcases moves_reclassifyAfterFlush cfg p hl with
      ⟨v', he, rfl, hseq', hfar', hdup'⟩ | ⟨hne, hm⟩
    · rw [he]
      dsimp only
      split_ifs with hpool'
      · exact (Move.drop .pool hl hseq').moves
      · exact moves_bufferInsertCommitted hl hseq' hfar' hdup' (by simpa using hpool')
    · split
      · rename_i he
        exact absurd (congrArg Prod.fst he) hne
      · exact hm
  · exact moves_bufferInsertCommitted h hseq hfar hdup (by simpa using hpool)

theorem moves_bufferAdmit (h : v.flow.Live) (hseq : v.flow.expected < p.seq)
    (hfar : v.flow.buffer.farAhead p.seq v.flow.expected = false) :
    Moves cfg p true v false (v.bufferAdmit cfg p).2 := by
  rw [bufferAdmit]
  split_ifs with hdup hlimit hempty
  · exact (Move.drop .duplicate h hseq).moves
  · exact (Move.drop .perFlowLimit h hseq).moves
  · refine .head (.flush h (by simpa using hempty) hseq (by simpa using hdup)) ?_
    have hl := live_overflowFlush p.nowUs h
    rcases moves_reclassifyAfterFlush cfg p hl with
      ⟨v', he, rfl, hseq', hfar', hdup'⟩ | ⟨hne, hm⟩
    · rw [he]
      exact moves_poolAdmit hl hseq' hfar' hdup'
    · split
      · rename_i he
        exact absurd (congrArg Prod.fst he) hne
      · exact hm
  · exact moves_poolAdmit h hseq hfar (by simpa using hdup)

theorem moves_processReorderPacket (hpass : v.flow.passThrough = false) :
    Moves cfg p true v false (v.processReorderPacket cfg p).2 := by
  rw [processReorderPacket]
  split_ifs with hinit heq hlate hfar
  · exact (Move.coldStart hinit hpass).moves
  all_goals have hl : v.flow.Live := ⟨by simpa using hinit, hpass⟩
  · exact (Move.inOrder hl heq).moves
  · exact (Move.late hl hlate).moves
  · exact (Move.drop .farAhead hl (by omega)).moves
  · exact moves_bufferAdmit hl (by omega) (by simpa using hfar)

theorem moves_classifyAndDemote (res : ProcessResult) :
    Moves cfg p false v false (v.classifyAndDemote cfg res p) := by
  rw [classifyAndDemote]
  split_ifs
  · have hc : ∀ b v', v.classifyUpdate cfg p.pkt = (b, v') → Moves cfg p false v false v' := by
      intro b v' he
      rw [classifyUpdate] at he
      split_ifs at he
      · obtain rfl := congrArg Prod.snd he
        exact .refl ..
      · obtain rfl := congrArg Prod.snd he
        exact .refl ..
      · obtain rfl := congrArg Prod.snd he
        exact (Move.classify v _ _).moves
    split
    · rename_i he
      exact (hc _ _ he).trans (Move.demote _).moves
    · rename_i he
      exact hc _ _ he
  · exact .refl ..

/-- The packet as it is in hand at the start of `on_reordered`. -/
def handed (v : View) (p : Arrival) : View :=
  { v with
    trace := v.trace ++ [.handed v.flow.key p.pkt]
    flow := { v.flow with lastSeenUs := p.nowUs } }

/-- Processing a packet is a sequence of moves that settles it. -/
theorem moves_onReordered (v : View) (cfg : Config) (p : Arrival) :
    Moves cfg p true (v.handed p) false (v.onReordered cfg p) := by
  rw [onReordered]
  dsimp only
  split_ifs with hreset hpass
  · exact (Move.reset (v := v.handed p) hreset).moves
  · exact (Move.passThrough (v := v.handed p) hpass).moves
  · exact (moves_processReorderPacket (v := v.handed p) (by simpa [handed] using hpass)).trans
      (moves_classifyAndDemote _)

end View

end Mqvpn.Reorder
