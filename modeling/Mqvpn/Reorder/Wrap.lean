import Mqvpn.Reorder.Sync

/-!
# The wrap of the sequence numbers

The wire carries 48 bits of a sequence number, and the receiver does not
reconstruct the rest. Two ends that stay in step over one long burst of a flow
(`Steady`) do so for `2 ^ 48` packets (`steady_step`): the next one carries zero
again and is dropped as late (`trace_wrap`).
-/

namespace Mqvpn.Reorder

/-- With classification off, a live flow that ignores resets only processes the
    packet. -/
theorem View.onReordered_of_live {v : View} {cfg : Config} {p : Arrival} (hl : v.flow.Live)
    (hreset : v.flow.resetHonoured cfg p.flags p.nowUs = false) (hwindow : cfg.classifyWindow = 0) :
    v.onReordered cfg p = ((v.handed p).processReorderPacket cfg p).2 := by
  have hclassify : ∀ w : View, ∀ res, w.classifyAndDemote cfg res p = w := by
    intro w res
    have hw : w.classifyUpdate cfg p.pkt = (false, w) := by
      rw [classifyUpdate, hwindow, if_pos (Nat.zero_le _), ite_self]
    rw [classifyAndDemote, hw, ite_self]
  have hpass : ¬(v.handed p).flow.passThrough = true := by
    rw [show (v.handed p).flow.passThrough = false from hl.2]
    decide
  have hr : ¬(v.handed p).flow.resetHonoured cfg p.flags p.nowUs = true := by
    rw [show (v.handed p).flow.resetHonoured cfg p.flags p.nowUs = false from hreset]
    decide
  rw [onReordered]
  exact (if_neg hr).trans ((if_neg hpass).trans (hclassify _ _))

/-- A packet that a calm flow expects leaves it live, calm and up to date. -/
theorem View.calm_onReordered {v : View} {cfg : Config} {p : Arrival} (h : Ready cfg [] v)
    (hl : v.flow.Live) (hc : v.flow.Calm p.seq)
    (hreset : v.flow.resetHonoured cfg p.flags p.nowUs = false) (hwindow : cfg.classifyWindow = 0) :
    (v.onReordered cfg p).flow.Live ∧ (v.onReordered cfg p).flow.Calm (p.seq + 1) ∧
      (v.onReordered cfg p).flow.lastProgressUs = p.nowUs := by
  have hseq : p.seq = (v.handed p).flow.expected := (hc.expected hl).symm
  have hd := drainContiguous_of_empty (v := (v.handed p).accept p) h.core.ring hc.empty p.nowUs
  have hnext : ((v.handed p).accept p).flow.Calm (p.seq + 1) :=
    ⟨hc.empty, fun _ => congrArg (· + 1) hseq.symm⟩
  have hinit : ¬(v.handed p).flow.initialized = false := by
    rw [show (v.handed p).flow.initialized = true from hl.1]
    decide
  rw [onReordered_of_live hl hreset hwindow, processReorderPacket, if_neg hinit, if_pos hseq]
  dsimp only
  rw [deliverInOrder, hd]
  dsimp only
  split_ifs
  · exact ⟨hl, ⟨hnext.empty, hnext.expected⟩, rfl⟩
  · exact ⟨hl, hnext, rfl⟩

/-- The two ends of one flow, in the middle of a burst at the time `t`: `n` packets
    were sent and received. -/
structure Steady (key : FlowKey) (t n : Nat) (tx : Tx) (rx : Rx) : Prop where
  txGood : tx.Good
  rxGood : rx.Good
  mode : tx.cfg.mode ≠ .off
  window : rx.cfg.classifyWindow = 0
  waits : rx.cfg.flowWaitMs key ≠ 0
  sender : ∃ f, tx.tableLookup key = some f ∧ f.eligible = true ∧ f.nextSeq = n
  receiver : ∃ f, rx.flowLookup key = some f ∧ f.Live ∧ f.Calm n ∧ f.lastProgressUs = t

namespace Steady

variable {key : FlowKey} {t n : Nat} {tx : Tx} {rx : Rx} {op : Tx.Op} {m : Msg}

/-- What a packet of the burst needs: it is of the flow, and neither too long to
    send nor to receive. -/
structure Burst (key : FlowKey) (t : Nat) (op : Tx.Op) : Prop where
  parsed : parse5tuple op.pkt = some key
  mtu : hdrLen + op.pkt.length ≤ op.maxInnerWithoutReorder
  short : op.pkt.length ≤ 65535
  commit : op.commit = some t

theorem of_lookup (htx : tx.Good) (hrx : rx.Good) (hmode : tx.cfg.mode ≠ .off)
    (hwindow : rx.cfg.classifyWindow = 0) (hwaits : rx.cfg.flowWaitMs key ≠ 0)
    (hsend : (tx.tableLookup key).map (fun f => (f.eligible, f.nextSeq)) = some (true, n))
    (hrecv : (rx.flowLookup key).map (fun f => (f.initialized, f.passThrough, f.buffer.count,
      f.expected, f.lastProgressUs)) = some (true, false, 0, n, t)) : Steady key t n tx rx := by
  obtain ⟨f, hf, hfe⟩ := Option.map_eq_some_iff.1 hsend
  obtain ⟨g, hg, hge⟩ := Option.map_eq_some_iff.1 hrecv
  obtain ⟨helig, hseq⟩ := Prod.mk.inj hfe
  simp only [Prod.mk.injEq] at hge
  obtain ⟨hinit, hpass, hcount, hexp, hlast⟩ := hge
  exact ⟨htx, hrx, hmode, hwindow, hwaits, ⟨f, hf, helig, hseq⟩,
    g, hg, ⟨hinit, hpass⟩, ⟨hcount, fun _ => hexp⟩, hlast⟩

theorem sent (h : Steady key t n tx rx) (hb : Burst key t op) :
    tx.sent op = some ⟨key, header tx.cfg.resetMarkPackets n, op.pkt⟩ ∧
      ∃ hdr, (tx.step op).trace = tx.trace ++ [.committed key hdr] := by
  obtain ⟨f, hl, helig, hseq⟩ := h.sender
  obtain ⟨hstep, hsent⟩ := Tx.step_of_lookup hl h.mode helig op hb.parsed hb.mtu hb.commit
  obtain ⟨-, l, r, hflat, -⟩ := h.txGood.focus hl
  have hf := h.txGood.inv.live f (hflat ▸ Chains.mem_focus.2 (.inl rfl))
  rw [hsent, TxInv.hdr_stamped hf, hseq, hstep, Tx.commit_eq hl]
  exact ⟨rfl, _, rfl⟩

/-- No flow is evicted in a burst. -/
theorem unevicted_step (h : Steady key t n tx rx) (hb : Burst key t op)
    (hev : ∀ e ∈ tx.trace, e.isEvicted = false) : ∀ e ∈ (tx.step op).trace, e.isEvicted = false := by
  obtain ⟨-, hdr, htrace⟩ := h.sent hb
  rw [htrace]
  intro e he
  rcases List.mem_append.1 he with he | he
  · exact hev e he
  · rw [List.mem_singleton.1 he]
    rfl

/-- The receiver gives a packet of the burst to its flow. -/
theorem onPacket_eq (h : Steady key t n tx rx) (hb : Burst key t op) (alloc : Alloc) {f : Flow}
    (hl : rx.flowLookup key = some f) :
    rx.onPacket (Msg.payload ⟨key, header tx.cfg.resetMarkPackets n, op.pkt⟩) t alloc =
      rx.onReordered f ⟨n % 2 ^ 48, if n < tx.cfg.resetMarkPackets then flagReset else 0, op.pkt, t,
        alloc⟩ := by
  rw [Rx.onPacket, Rx.route_payload rx hb.parsed hb.short rfl, if_neg h.waits]
  dsimp only
  rw [Rx.flowGetOrCreate, hl]

theorem resetHonoured_eq_false {f : Flow} (hl : f.Live) (ht : f.lastProgressUs = t) (cfg : Config)
    (flags : UInt8) : f.resetHonoured cfg flags t = false := by
  simp [Flow.resetHonoured, hl.1, ht]

/-- Before the wrap, a packet of the burst keeps the ends in step. -/
theorem step (h : Steady key t n tx rx) (hb : Burst key t op) (alloc : Alloc) (hn : n < 2 ^ 48) :
    Steady key t (n + 1) (tx.step op)
      (rx.onPacket (Msg.payload ⟨key, header tx.cfg.resetMarkPackets n, op.pkt⟩) t alloc) := by
  obtain ⟨f, hl, helig, hseq⟩ := h.sender
  obtain ⟨g, hg, hlive, hcalm, ht⟩ := h.receiver
  obtain ⟨htx, hcfg, hl', -⟩ := Tx.good_commit h.txGood hl t
  have hstep := (Tx.step_of_lookup hl h.mode helig op hb.parsed hb.mtu hb.commit).1
  have heq := h.onPacket_eq hb alloc hg
  have hd := Rx.does_onReordered h.rxGood hg
    ⟨n % 2 ^ 48, if n < tx.cfg.resetMarkPackets then flagReset else 0, op.pkt, t, alloc⟩
  obtain ⟨l, r, hflat, -, hup, -⟩ := Chains.lookup_focus h.rxGood.table.wf hg
  have hready : Ready rx.cfg [] ⟨rx.toShared, g⟩ :=
    h.rxGood.inv.ready g (by rw [Rx.flows, hflat]; exact Chains.mem_focus.2 (.inl rfl))
  rw [Nat.mod_eq_of_lt hn] at heq hd
  have hv := View.calm_onReordered (p := ⟨n, if n < tx.cfg.resetMarkPackets then flagReset else 0,
    op.pkt, t, alloc⟩) hready hlive hcalm (resetHonoured_eq_false hlive ht ..) h.window
  rw [heq, hstep]
  refine ⟨htx, hd.good h.rxGood, by rw [hcfg]; exact h.mode, by rw [hd.cfg]; exact h.window,
    by rw [hd.cfg]; exact h.waits, ⟨_, hl', helig, congrArg (· + 1) hseq⟩, _, ?_, hv⟩
  -- The flow is found where it was.
  have hk : g.key = key := Chains.keyOf_of_lookup hg
  have hkey := (View.ready_onReordered hready ⟨n, if n < tx.cfg.resetMarkPackets then flagReset else 0,
    op.pkt, t, alloc⟩).2.key
  rw [← hk, ← hkey]
  refine Chains.lookup_of_mem hd.table.wf ?_
  change _ ∈ (Chains.update Flow.key rx.slot rx.buckets g.key _).flatten
  rw [hk, hup]
  exact Chains.mem_focus.2 (.inl rfl)

/-- The first packet after the wrap is dropped as late. -/
theorem trace_wrap (h : Steady key t (2 ^ 48) tx rx) (hb : Burst key t op) (alloc : Alloc) :
    (rx.onPacket (Msg.payload ⟨key, header tx.cfg.resetMarkPackets (2 ^ 48), op.pkt⟩) t alloc).trace =
      rx.trace ++ [.handed key op.pkt, .droppedLate key 0] := by
  obtain ⟨g, hg, hlive, hcalm, ht⟩ := h.receiver
  have hk : g.key = key := Chains.keyOf_of_lookup hg
  have hexp : g.expected = 2 ^ 48 := hcalm.expected hlive
  rw [h.onPacket_eq hb alloc hg, Nat.mod_self]
  change (View.onReordered _ _ _).trace = _
  rw [View.onReordered_of_live hlive (resetHonoured_eq_false hlive ht ..) h.window]
  rw [View.processReorderPacket, if_neg (by simp [View.handed, hlive.1]),
    if_neg (by simp [View.handed, hexp]), if_pos (by simp [View.handed, hexp])]
  change rx.trace ++ [.handed g.key op.pkt] ++ [.droppedLate g.key 0] = _
  rw [hk, List.append_assoc]
  rfl

theorem payloads_wrap (h : Steady key t (2 ^ 48) tx rx) (hb : Burst key t op) (alloc : Alloc) :
    payloads (rx.onPacket (Msg.payload ⟨key, header tx.cfg.resetMarkPackets (2 ^ 48), op.pkt⟩) t
      alloc).trace = payloads rx.trace :=
  calc
    _ = payloads (rx.trace ++ [.handed key op.pkt, .droppedLate key 0]) :=
      congrArg payloads (h.trace_wrap hb alloc)
    _ = payloads rx.trace := (payloads_append ..).trans (List.append_nil _)

end Steady

end Mqvpn.Reorder
