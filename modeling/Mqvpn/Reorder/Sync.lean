import Mqvpn.Reorder.RxInv
import Mqvpn.Reorder.TxInv

/-!
# The receiver in step with the sender

What the receiver does with datagrams that come in order. A flow that holds no
packet is *calm*: it is not reordering, or it expects the packet that comes next.
It delivers that one, on whichever of its branches, and is calm again
(`View.passing_onReordered`).

`Synced` is this for the whole table: a flow expects as many packets as were
carried over for its key, so a receiver may forget a flow and start it again. The
next datagram of any flow keeps it (`Rx.synced_onPacket`), and so do ticks.
-/

namespace Mqvpn.Reorder

/-! ## One flow -/

/-- Nothing is buffered, and if the flow is reordering it expects the packet
    number `n`. -/
structure Flow.Calm (f : Flow) (n : Nat) : Prop where
  empty : f.buffer.count = 0
  expected : f.Live → f.expected = n

/-- A calm flow, in a receiver that delivered the packets `out` and buffered
    none. -/
structure Passing (out : List Bytes) (n : Nat) (v : View) : Prop where
  calm : v.flow.Calm n
  unbuffered : Unbuffered out v.trace

namespace View

variable {cfg : Config} {hand out : List Bytes} {v : View} {n nowUs : Nat} {p : Arrival}

theorem drainContiguous_of_empty {e : Nat} (h : v.flow.buffer.Inv e) (hc : v.flow.buffer.count = 0)
    (nowUs : Nat) : v.drainContiguous nowUs = v := by
  have hnone : v.flow.buffer.remove v.flow.expected = none := by
    rw [Ring.remove_eq_none_iff h, h.count_eq_zero_iff.1 hc]
    exact nofun
  rw [drainContiguous]
  cases v.flow.buffer.size with
  | zero => rfl
  | succ fuel => rw [drainLoop, hnone]

theorem demoteLoop_of_empty (hc : v.flow.buffer.count = 0) (nowUs fuel : Nat) :
    demoteLoop nowUs fuel v = v := by
  cases fuel with
  | zero => rfl
  | succ fuel => rw [demoteLoop, if_pos (isEmpty_eq_true.2 hc)]

theorem passing_accept (hu : Unbuffered out v.trace) (hc : v.flow.buffer.count = 0)
    (hseq : p.seq = v.flow.expected) : Passing (out ++ [p.pkt]) (p.seq + 1) (v.accept p) :=
  ⟨⟨hc, fun _ => congrArg (· + 1) hseq.symm⟩, hu.append (.delivered v.flow.key p.seq p.pkt) rfl⟩

theorem passing_startAt (hu : Unbuffered out v.trace) (hc : v.flow.buffer.count = 0) :
    Passing (out ++ [p.pkt]) (p.seq + 1) (v.startAt p) :=
  passing_accept (v := { v with
    trace := v.trace ++ [.started v.flow.key]
    flow := { v.flow with initialized := true, expected := p.seq } })
    (hu.append_none rfl rfl) hc rfl

/-- With an empty ring, a reset only clears flags and counters of the flow. -/
theorem trace_resetReorderFlow (h : Core cfg hand v) (hc : v.flow.buffer.count = 0) :
    v.resetReorderFlow.trace = v.trace := by
  have hnil : v.flow.buffer.slots.reduceOption = [] := h.ring.count_eq_zero_iff.1 hc
  have hslots : ∀ w : View, w.flow.buffer = v.flow.buffer →
      (w.toShared.releaseSlots w.flow.buffer.slots).trace = w.trace := by
    intro w hw
    rw [hw, Shared.releaseSlots_eq (by simp [hnil])]
  rw [resetReorderFlow, discardBufferForReset]
  dsimp only
  split_ifs
  · exact hslots { v with flow := { v.flow with stats := { v.flow.stats with
      gapResetCount := v.flow.stats.gapResetCount + 1 } } } rfl
  · exact hslots v rfl

theorem passing_deliverInOrder (h : Core cfg hand v) (hp : Passing out p.seq v) (hl : v.flow.Live) :
    Passing (out ++ [p.pkt]) (p.seq + 1) (v.deliverInOrder p) := by
  have ha := passing_accept hp.unbuffered hp.calm.empty (hp.calm.expected hl).symm
  have hd := drainContiguous_of_empty (v := v.accept p) h.ring hp.calm.empty p.nowUs
  rw [deliverInOrder, hd]
  dsimp only
  split_ifs
  · exact ⟨⟨ha.calm.empty, ha.calm.expected⟩, ha.unbuffered⟩
  · exact ha

theorem passing_demote (hp : Passing out n v) (nowUs : Nat) : Passing out n (v.demote nowUs) := by
  have hflush : (v.flushBufferForDemote nowUs).trace = v.trace := by
    rw [flushBufferForDemote]
    dsimp only
    split_ifs
    · rw [demoteLoop_of_empty (by exact hp.calm.empty)]
    · rw [demoteLoop_of_empty hp.calm.empty]
  refine ⟨⟨rfl, fun hl => by cases hl.2⟩, ?_⟩
  change Unbuffered out ((v.flushBufferForDemote nowUs).trace ++ _)
  rw [hflush]
  exact hp.unbuffered.append_none rfl rfl

end View

/-- The packet once it is out of hand, as a list. -/
def outOfHand (p : Arrival) (b : Bool) : List Bytes := if b then [] else [p.pkt]

/-- The number that follows once the packet is out of hand. -/
def following (p : Arrival) (b : Bool) : Nat := if b then p.seq else p.seq + 1

section

variable {cfg : Config} {p : Arrival} {b b' : Bool} {v v' : View} {out : List Bytes}

/-- If the packet is the one that a calm flow expects, every move that takes it
    out of hand delivers it. -/
theorem Move.passing (hm : Move cfg p b v b' v') (h : Ready cfg (inHand p b) v)
    (hp : Passing (out ++ outOfHand p b) (following p b) v) :
    Passing (out ++ outOfHand p b') (following p b') v' := by
  have hnil : out ++ outOfHand p true = out := List.append_nil out
  cases hm with
  | reset _ =>
    rw [hnil] at hp
    have ht := View.trace_resetReorderFlow h.core hp.calm.empty
    exact View.passing_startAt (ht ▸ hp.unbuffered) rfl
  | passThrough hpass =>
    rw [hnil] at hp
    exact ⟨⟨hp.calm.empty, fun hl => absurd (hl.2.symm.trans hpass) nofun⟩,
      hp.unbuffered.append (.delivered v.flow.key p.seq p.pkt) rfl⟩
  | coldStart _ _ =>
    rw [hnil] at hp
    exact View.passing_startAt hp.unbuffered hp.calm.empty
  | inOrder hl _ =>
    rw [hnil] at hp
    exact View.passing_deliverInOrder h.core hp hl
  | late hl hlt => exact absurd (hp.calm.expected hl) hlt.ne'
  | drop _ hl hlt => exact absurd (hp.calm.expected hl) hlt.ne
  | flush hl _ hlt _ => exact absurd (hp.calm.expected hl) hlt.ne
  | insert hl hlt _ _ _ _ => exact absurd (hp.calm.expected hl) hlt.ne
  | classify _ _ _ => exact ⟨⟨hp.calm.empty, hp.calm.expected⟩, hp.unbuffered⟩
  | demote => exact View.passing_demote hp p.nowUs

theorem Moves.passing (hm : Moves cfg p b v b' v') (h : Ready cfg (inHand p b) v)
    (hp : Passing (out ++ outOfHand p b) (following p b) v) :
    Passing (out ++ outOfHand p b') (following p b') v' := by
  induction hm with
  | refl => exact hp
  | head hm _ ih => exact ih (hm.ready h).1 (hm.passing h hp)

/-- A calm flow delivers the packet it expects, and is calm again. -/
theorem View.passing_onReordered (h : Ready cfg [] v) (hp : Passing out p.seq v) :
    Passing (out ++ [p.pkt]) (p.seq + 1) (v.onReordered cfg p) := by
  refine (moves_onReordered v cfg p).passing (ready_handed h p).1 ?_
  rw [outOfHand, if_pos rfl, List.append_nil]
  exact ⟨⟨hp.calm.empty, hp.calm.expected⟩, hp.unbuffered.append_none rfl rfl⟩

end

/-! ## All the flows -/

/-- Every flow of the receiver is calm, and expects as many packets as were
    carried for it; these were all delivered. -/
structure Synced (cfg : Config) (carried : List Msg) (s : Shared) (flows : List Flow) : Prop where
  calm : ∀ f ∈ flows, f.Calm (ofKey f.key carried).length
  waits : ∀ f ∈ flows, cfg.flowWaitMs f.key ≠ 0
  unbuffered : Unbuffered (carried.map Msg.pkt) s.trace

theorem ofKey_append (k : FlowKey) (l l' : List Msg) : ofKey k (l ++ l') = ofKey k l ++ ofKey k l' :=
  List.filter_append ..

theorem ofKey_singleton_self (m : Msg) : ofKey m.key [m] = [m] :=
  List.filter_cons_of_pos (by simp)

theorem ofKey_singleton_of_ne {m : Msg} {k : FlowKey} (h : m.key ≠ k) : ofKey k [m] = [] :=
  List.filter_cons_of_neg (by simpa using h)

section

variable {cfg : Config} {a : Act} {s s' : Shared} {l l' : List Flow} {carried : List Msg} {m : Msg}

/-- What happens between two packets: no timer is due where nothing is buffered. -/
theorem Change.synced (hc : Change cfg a s l s' l') (hinv : Inv cfg s l) (h : Synced cfg carried s l)
    (ha : ∀ k, a = .create k → cfg.flowWaitMs k ≠ 0) (hp : ∀ f p, a ≠ .packet f p)
    (hb : ∀ inner, a ≠ .bypass inner) : Synced cfg carried s' l' := by
  cases hc with
  | packet p => exact absurd rfl (hp _ p)
  | bypass inner => exact absurd rfl (hb inner)
  | @timeout _ l r f nowUs hdue =>
    have harmed : f.gapTimerActive = true := by
      simp only [Flow.timeoutDue, decide_eq_true_eq] at hdue
      exact hdue.1
    exact absurd (h.calm f (Chains.mem_focus.2 (.inl rfl))).empty
      (hinv.ready_focus.periods.armed.1 harmed)
  | evict =>
    rw [hinv.evict_eq]
    exact ⟨fun g hg => h.calm g (Chains.mem_focus.2 (.inr hg)),
      fun g hg => h.waits g (Chains.mem_focus.2 (.inr hg)), h.unbuffered.append_none rfl rfl⟩
  | create _ =>
    refine ⟨fun g hg => ?_, fun g hg => ?_, h.unbuffered.append_none rfl rfl⟩
    · rcases Chains.mem_focus.1 hg with rfl | hg
      · exact ⟨rfl, fun hl => by cases hl.1⟩
      · exact h.calm g hg
    · rcases Chains.mem_focus.1 hg with rfl | hg
      · exact ha _ rfl
      · exact h.waits g hg

/-- The next datagram of a flow is delivered. -/
theorem Change.synced_packet {f : Flow} {p : Arrival} (hc : Change cfg (.packet f p) s l s' l')
    (hinv : Inv cfg s l) (h : Synced cfg carried s l) (hk : m.key = f.key) (hpkt : m.pkt = p.pkt)
    (hseq : p.seq = (ofKey f.key carried).length) : Synced cfg (carried ++ [m]) s' l' := by
  cases hc with
  | @packet _ l r _ _ =>
    have hmem : f ∈ l ++ f :: r := Chains.mem_focus.2 (.inl rfl)
    have hp : Passing (carried.map Msg.pkt) p.seq ⟨s, f⟩ := ⟨hseq ▸ h.calm f hmem, h.unbuffered⟩
    have hp' := View.passing_onReordered hinv.ready_focus hp
    have hkey : (View.onReordered ⟨s, f⟩ cfg p).flow.key = f.key :=
      (View.ready_onReordered hinv.ready_focus p).2.key
    refine ⟨fun g hg => ?_, fun g hg => ?_, ?_⟩
    · rcases Chains.mem_focus.1 hg with rfl | hg
      · rw [hkey, ← hk, ofKey_append, ofKey_singleton_self, List.length_append, hk, ← hseq]
        exact hp'.calm
      · rw [ofKey_append, ofKey_singleton_of_ne (hk ▸ (hinv.key_ne g hg).symm), List.append_nil]
        exact h.calm g (Chains.mem_focus.2 (.inr hg))
    · rcases Chains.mem_focus.1 hg with rfl | hg
      · rw [hkey]
        exact h.waits f hmem
      · exact h.waits g (Chains.mem_focus.2 (.inr hg))
    · rw [List.map_append, List.map_singleton, hpkt]
      exact hp'.unbuffered

/-- A datagram that waits for no other is delivered; it has no flow. -/
theorem Change.synced_bypass (hc : Change cfg (.bypass m.pkt) s l s' l') (h : Synced cfg carried s l)
    (hwait : cfg.flowWaitMs m.key = 0) : Synced cfg (carried ++ [m]) s' l' := by
  cases hc with
  | bypass =>
    refine ⟨fun g hg => ?_, h.waits, ?_⟩
    · have hne : m.key ≠ g.key := fun he => h.waits g hg (he ▸ hwait)
      rw [ofKey_append, ofKey_singleton_of_ne hne, List.append_nil]
      exact h.calm g hg
    · rw [List.map_append]
      exact h.unbuffered.append (.bypassed m.pkt) rfl

end

namespace Rx

variable {rx : Rx} {carried : List Msg} {m : Msg} {marks n : Nat}

theorem wireDecode_payload (hhdr : m.hdr = header marks n) :
    wireDecode m.payload = some (typeV1, if n < marks then flagReset else 0, n % 2 ^ 48) := by
  rw [Msg.payload, hhdr, header, wireDecode_wireEncode]

theorem drop_payload (hhdr : m.hdr = header marks n) : m.payload.drop hdrLen = m.pkt := by
  rw [Msg.payload, hhdr]
  exact List.drop_left' rfl

/-- How a datagram of the sender is routed. -/
theorem route_payload (rx : Rx) (hparse : parse5tuple m.pkt = some m.key)
    (hlen : m.pkt.length ≤ 65535) (hhdr : m.hdr = header marks n) :
    rx.route m.payload = if rx.cfg.flowWaitMs m.key = 0 then .bypass m.pkt
      else .flow m.key (n % 2 ^ 48) (if n < marks then flagReset else 0) m.pkt := by
  have hpos : m.pkt.length ≠ 0 := by
    intro h0
    rw [List.length_eq_zero_iff.1 h0] at hparse
    nomatch hparse
  rw [route, wireDecode_payload hhdr]
  dsimp only
  rw [if_neg (by simp), drop_payload hhdr, if_neg (by omega), hparse]
  by_cases hglobal : rx.cfg.maxWaitMs = 0 ∧ rx.cfg.rules.length = 0
  · -- Without rules, every flow waits for the global time.
    have hwait : rx.cfg.flowWaitMs m.key = 0 := by
      rw [Config.flowWaitMs, Config.matchRule, List.length_eq_zero_iff.1 hglobal.2]
      exact hglobal.1
    rw [if_pos hglobal, if_pos hwait]
  · rw [if_neg hglobal]

/-- The receiver takes no packet of more than 65535 bytes. -/
theorem route_long (rx : Rx) (hhdr : m.hdr = header marks n) (hlen : 65535 < m.pkt.length) :
    rx.route m.payload = .ignore := by
  rw [route, wireDecode_payload hhdr]
  dsimp only
  rw [if_neg (by simp), drop_payload hhdr, if_pos (.inr hlen)]

/-- The receiver delivers the next datagram of a flow when it gets it. -/
theorem synced_onPacket (hg : rx.Good) (h : Synced rx.cfg carried rx.toShared rx.flows)
    (hparse : parse5tuple m.pkt = some m.key) (hlen : m.pkt.length ≤ 65535)
    (hhdr : m.hdr = header marks (ofKey m.key carried).length)
    (hn : (ofKey m.key carried).length < 2 ^ 48) (nowUs : Nat) {alloc : Alloc}
    (halloc : alloc.flow = true) :
    Synced rx.cfg (carried ++ [m]) (rx.onPacket m.payload nowUs alloc).toShared
      (rx.onPacket m.payload nowUs alloc).flows := by
  have hc := (does_step hg (.onPacket m.payload nowUs alloc)).changes
  rw [acts, route_payload rx hparse hlen hhdr, Nat.mod_eq_of_lt hn] at hc
  change Changes _ _ _ _ (rx.onPacket m.payload nowUs alloc).toShared
    (rx.onPacket m.payload nowUs alloc).flows at hc
  by_cases hwait : rx.cfg.flowWaitMs m.key = 0
  · rw [if_pos hwait] at hc
    cases hc with
    | cons hc hnil =>
      cases hnil
      exact hc.synced_bypass h hwait
  · rw [if_neg hwait] at hc
    dsimp only at hc
    obtain ⟨pre, hpre, hacts⟩ := rx.flowActs_eq m.key ⟨(ofKey m.key carried).length,
      if (ofKey m.key carried).length < marks then flagReset else 0, m.pkt, nowUs, alloc⟩
    obtain ⟨f, hk, hacts⟩ := hacts.resolve_left fun hno => absurd (halloc.symm.trans hno.1) (by simp)
    rw [hacts] at hc
    obtain ⟨s₁, l₁, hc₁, hc₂⟩ := hc.exists_of_append
    obtain ⟨hinv₁, h₁⟩ : Inv rx.cfg s₁ l₁ ∧ Synced rx.cfg carried s₁ l₁ := by
      refine hc₁.keeps (P := fun s l => Inv rx.cfg s l ∧ Synced rx.cfg carried s l) ?_ ⟨hg.inv, h⟩
      rintro a ha s l s' l' hc ⟨hinv, h⟩
      refine ⟨hc.inv hg.caps hinv, ?_⟩
      rcases hpre a ha with ⟨g, rfl⟩ | rfl
      · exact hc.synced hinv h (by simp) (by simp) (by simp)
      · exact hc.synced hinv h (by rintro _ ⟨⟩; exact hwait) (by simp) (by simp)
    cases hc₂ with
    | cons hc hnil =>
      cases hnil
      exact hc.synced_packet hinv₁ h₁ hk.symm rfl (by rw [hk])

theorem synced_tick (hg : rx.Good) (h : Synced rx.cfg carried rx.toShared rx.flows) (nowUs : Nat) :
    Synced rx.cfg carried (rx.tick nowUs).toShared (rx.tick nowUs).flows := by
  refine ((does_tick hg nowUs).changes.keeps
    (P := fun s l => Inv rx.cfg s l ∧ Synced rx.cfg carried s l) ?_ ⟨hg.inv, h⟩).2
  rintro a ha s l s' l' hc ⟨hinv, h⟩
  refine ⟨hc.inv hg.caps hinv, ?_⟩
  rcases List.mem_append.1 ha with ha | ha
  · obtain ⟨f, -, rfl⟩ := List.mem_map.1 ha
    exact hc.synced hinv h nofun nofun nofun
  · obtain ⟨f, -, rfl⟩ := List.mem_map.1 ha
    exact hc.synced hinv h nofun nofun nofun

end Rx

end Mqvpn.Reorder
