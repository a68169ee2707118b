import Mathlib.Data.List.Induction
import Mathlib.Data.List.Forall2
import Mqvpn.Reorder.Safety

/-!
# The flow table of the receiver

What a packet and a tick do to the flows that they are not about. A packet of a
new flow evicts at most one other, the least recently used one, and leaves the
rest as they are (`mem_onPacket`); a tick fires the timeouts that are due and then
drops the flows that are idle, and nothing else (`flows_tick`). With that the
table stays within its limit (`Rx.Capped`).
-/

namespace Mqvpn.Reorder

/-! ## The least recently used flow -/

theorem lruVictim_concat (flows : List Flow) (f : Flow) :
    lruVictim (flows ++ [f]) = match lruVictim flows with
      | none => some f
      | some g => if f.lastProgressUs ≤ g.lastProgressUs then some f else some g := by
  rw [lruVictim, List.foldl_append]
  rfl

/-- The victim made progress no later than any other flow. -/
theorem lruVictim_le {flows : List Flow} {v : Flow} (h : lruVictim flows = some v) :
    ∀ f ∈ flows, v.lastProgressUs ≤ f.lastProgressUs := by
  induction flows using List.reverseRecOn generalizing v with
  | nil => exact fun f hf => absurd hf List.not_mem_nil
  | append_singleton flows f ih =>
    rw [lruVictim_concat] at h
    intro f' hf'
    cases hv : lruVictim flows with
    | none =>
      -- The scan has found no flow yet, so there is none before this one.
      have hnil : flows = [] := by
        cases flows using List.reverseRecOn with
        | nil => rfl
        | append_singleton flows g =>
          rw [lruVictim_concat] at hv
          split at hv
          · exact absurd hv (Option.some_ne_none g)
          · split_ifs at hv
      rw [hv] at h
      rw [hnil, List.nil_append, List.mem_singleton] at hf'
      rw [hf', ← Option.some.inj h]
    | some g =>
      rw [hv] at h
      dsimp only at h
      rcases List.mem_append.1 hf' with hmem | hmem
      · have hle := ih hv f' hmem
        split_ifs at h with hfg
        · rw [← Option.some.inj h]
          exact hfg.trans hle
        · rw [← Option.some.inj h]
          exact hle
      · rw [List.mem_singleton.1 hmem]
        split_ifs at h with hfg
        · rw [← Option.some.inj h]
        · rw [← Option.some.inj h]
          exact le_of_not_ge hfg

theorem exists_lruVictim {flows : List Flow} (h : flows ≠ []) : ∃ v, lruVictim flows = some v := by
  cases flows using List.reverseRecOn with
  | nil => exact absurd rfl h
  | append_singleton flows f =>
    rw [lruVictim_concat]
    split
    · exact ⟨f, rfl⟩
    · split_ifs
      exacts [⟨f, rfl⟩, ⟨_, rfl⟩]

namespace Rx

variable {cfg : Config} {seed : UInt64} {rx rx' : Rx} {key : FlowKey} {f g v : Flow} {nowUs : Nat}

/-! ## Lookups -/

theorem mem_of_flowLookup (h : rx.Table) (hl : rx.flowLookup key = some f) : f ∈ rx.flows := by
  obtain ⟨l, r, hflat, -⟩ := Chains.lookup_focus h.wf hl
  rw [flows, hflat]
  exact Chains.mem_focus.2 (.inl rfl)

theorem eq_of_key (h : rx.Table) (hf : f ∈ rx.flows) (hg : g ∈ rx.flows) (hk : g.key = f.key) : g = f :=
  List.inj_on_of_nodup_map h.wf.nodup hg hf hk

/-! ## Packets -/

/-- The flow that `flow_get_or_create` evicts for a key. -/
def victimFor (rx : Rx) (key : FlowKey) : Option Flow :=
  if (rx.flowLookup key).isNone ∧ rx.full then lruVictim rx.flows else none

theorem mem_evictLruFlow (h : rx.Table) (hv : lruVictim rx.flows = some v) :
    rx.evictLruFlow.flows.length + 1 = rx.flows.length ∧
      ∀ g, g ∈ rx.evictLruFlow.flows ↔ g ∈ rx.flows ∧ g ≠ v := by
  have hl : rx.flowLookup v.key = some v := Chains.lookup_of_mem h.wf (mem_of_lruVictim hv)
  obtain ⟨l, r, hflat, hne, -, hrem⟩ := Chains.lookup_focus h.wf hl
  have hold : rx.flows = l ++ v :: r := hflat
  have hflows : rx.evictLruFlow.flows = l ++ r := by
    rw [evictLruFlow, hv]
    exact hrem
  rw [hflows, hold]
  refine ⟨by rw [List.length_append, List.length_append, List.length_cons, Nat.add_assoc], fun g => ?_⟩
  rw [Chains.mem_focus]
  constructor
  · intro hg
    refine ⟨.inr hg, ?_⟩
    rintro rfl
    exact hne g hg rfl
  · rintro ⟨hg, hgv⟩
    exact hg.resolve_left hgv

theorem mem_create (h : rx.Table) (key : FlowKey) :
    (rx.create key).flows.length = rx.flows.length + 1 ∧
      ∀ g, g ∈ (rx.create key).flows ↔ g = newFlow rx.cfg key ∨ g ∈ rx.flows := by
  have hlt : rx.slot (newFlow rx.cfg key).key < rx.buckets.length := slot_lt h key
  obtain ⟨l, r, hflat, hpush⟩ := Chains.push_focus hlt
  have hold : rx.flows = l ++ r := hflat
  have hflows : (rx.create key).flows = l ++ newFlow rx.cfg key :: r := hpush
  rw [hflows, hold]
  refine ⟨by simp only [List.length_append, List.length_cons, Nat.add_assoc], fun g => Chains.mem_focus⟩

theorem mem_onReordered (h : rx.Good) (hl : rx.flowLookup key = some f) (p : Arrival) :
    (rx.onReordered f p).flows.length = rx.flows.length ∧
      ∀ g, g.key ≠ key → (g ∈ (rx.onReordered f p).flows ↔ g ∈ rx.flows) := by
  obtain rfl : f.key = key := Chains.keyOf_of_lookup hl
  obtain ⟨l, r, hflat, -, hup, -⟩ := Chains.lookup_focus h.table.wf hl
  have hold : rx.flows = l ++ f :: r := hflat
  have hinv := h.inv
  rw [hold] at hinv
  have hk : (View.onReordered ⟨rx.toShared, f⟩ rx.cfg p).flow.key = f.key :=
    (View.ready_onReordered hinv.ready_focus p).2.key
  have hflows : (rx.onReordered f p).flows =
      l ++ (View.onReordered ⟨rx.toShared, f⟩ rx.cfg p).flow :: r := hup _
  rw [hflows, hold]
  generalize (View.onReordered ⟨rx.toShared, f⟩ rx.cfg p).flow = f' at hk
  refine ⟨by simp only [List.length_append, List.length_cons], fun g hg => ?_⟩
  rw [Chains.mem_focus, Chains.mem_focus]
  have hne : g ≠ f' := fun he => hg (he ▸ hk)
  have hne' : g ≠ f := fun he => hg (he ▸ rfl)
  rw [or_iff_right hne, or_iff_right hne']

/-- The table once there is room for a flow of the key: the victim, if there is
    one, is gone, and the others are as before. -/
theorem mem_makeRoom (h : rx.Good) (hl : rx.flowLookup key = none) :
    rx.Does (if rx.full then (lruVictim rx.flows).toList.map .evict else [])
        (if rx.full then rx.evictLruFlow else rx) ∧
      (rx.cfg.maxFlows ≠ 0 → rx.flows.length ≤ rx.cfg.maxFlows →
        (if rx.full then rx.evictLruFlow else rx).flows.length < rx.cfg.maxFlows) ∧
      ∀ g, g ∈ (if rx.full then rx.evictLruFlow else rx).flows ↔
        g ∈ rx.flows ∧ rx.victimFor key ≠ some g := by
  refine ⟨(does_makeRoom h.table hl).1, ?_⟩
  rw [victimFor, hl]
  by_cases hfull : rx.full = true
  · obtain ⟨hpos, hle⟩ : 0 < rx.cfg.maxFlows ∧ rx.cfg.maxFlows ≤ rx.nFlows := by simpa [full] using hfull
    have hne : rx.flows ≠ [] := by
      intro h0
      have hcount := h.inv.nFlows
      rw [h0, List.length_nil] at hcount
      omega
    obtain ⟨v, hv⟩ := exists_lruVictim hne
    obtain ⟨hlen, hmem⟩ := mem_evictLruFlow h.table hv
    rw [if_pos hfull, if_pos ⟨rfl, hfull⟩, hv]
    refine ⟨fun _ _ => by omega, fun g => (hmem g).trans (and_congr_right fun _ => ?_)⟩
    rw [Ne, Ne, Option.some.injEq, eq_comm]
  · have hroom : ¬(0 < rx.cfg.maxFlows ∧ rx.cfg.maxFlows ≤ rx.nFlows) := by simpa [full] using hfull
    rw [h.inv.nFlows] at hroom
    rw [if_neg hfull, if_neg fun hc => hfull hc.2]
    refine ⟨fun hmax _ => by omega, fun g => ?_⟩
    rw [iff_self_and]
    exact fun _ => (Option.some_ne_none g).symm

/-- The counter of flows is within its limit. -/
def Capped (rx : Rx) : Prop := rx.cfg.maxFlows ≠ 0 → rx.flows.length ≤ rx.cfg.maxFlows

/-- A packet of a flow evicts at most the victim for its key, and leaves the other
    flows as they are. -/
theorem mem_onPacket (h : rx.Good) {payload : Bytes} {seq : Nat} {flags : UInt8} {inner : Bytes}
    (hr : rx.route payload = .flow key seq flags inner) (nowUs : Nat) (alloc : Alloc) :
    (rx.Capped → (rx.onPacket payload nowUs alloc).Capped) ∧
      ∀ g, g.key ≠ key → (g ∈ (rx.onPacket payload nowUs alloc).flows ↔
        g ∈ rx.flows ∧ rx.victimFor key ≠ some g) := by
  have hcfg : (rx.onPacket payload nowUs alloc).cfg = rx.cfg :=
    (does_step h (.onPacket payload nowUs alloc)).cfg
  rw [Capped, Capped, hcfg, onPacket, hr]
  dsimp only
  rw [flowGetOrCreate]
  cases hl : rx.flowLookup key with
  | some f =>
    obtain ⟨hlen, hmem⟩ := mem_onReordered h hl ⟨seq, flags, inner, nowUs, alloc⟩
    dsimp only
    refine ⟨fun hcap hmax => hlen.trans_le (hcap hmax), fun g hg => (hmem g hg).trans ?_⟩
    rw [victimFor, hl, iff_self_and]
    exact fun _ => by simp
  | none =>
    obtain ⟨hd, hlen, hmem⟩ := mem_makeRoom h hl
    obtain ⟨-, hnew⟩ := does_makeRoom h.table hl
    dsimp only
    generalize (if rx.full then rx.evictLruFlow else rx) = rx₁ at hd hlen hmem hnew
    by_cases halloc : alloc.flow = true
    · rw [if_pos halloc]
      dsimp only
      obtain ⟨hd', hl'⟩ := does_create hd.table hnew
      obtain ⟨hlen₁, hmem₁⟩ := mem_create hd.table key
      obtain ⟨hlen₂, hmem₂⟩ := mem_onReordered (hd'.good (hd.good h)) hl' ⟨seq, flags, inner, nowUs, alloc⟩
      refine ⟨fun hcap hmax => ?_, fun g hg => ?_⟩
      · have := hlen hmax (hcap hmax)
        omega
      · have hne : g ≠ newFlow rx₁.cfg key := fun he => hg (he ▸ rfl)
        rw [hmem₂ g hg, hmem₁, or_iff_right hne, hmem]
    · rw [if_neg halloc]
      exact ⟨fun hcap hmax => (hlen hmax (hcap hmax)).le, fun g _ => hmem g⟩

/-- A datagram that reaches no flow changes none. -/
theorem flows_onPacket_of_ne {payload : Bytes}
    (hr : ∀ key seq flags inner, rx.route payload ≠ .flow key seq flags inner) (nowUs : Nat)
    (alloc : Alloc) : (rx.onPacket payload nowUs alloc).flows = rx.flows := by
  rw [onPacket]
  cases hroute : rx.route payload with
  | ignore => rfl
  | bypass inner => rfl
  | flow key seq flags inner => exact absurd hroute (hr key seq flags inner)

/-! ## Ticks -/

/-- What the loop that fires the timeouts makes of a flow. -/
structure Fired (nowUs : Nat) (f f' : Flow) : Prop where
  key : f'.key = f.key
  due : f.timeoutDue nowUs = true → ∃ s, f' = (View.onGapTimeout ⟨s, f⟩ nowUs).flow
  rest : f.timeoutDue nowUs = false → f' = f

theorem fired_sweepChain (nowUs : Nat) (todo : List Flow) (s : Shared) :
    List.Forall₂ (Fired nowUs) todo (Chains.sweepChain (fireTimeout nowUs) s todo).2 := by
  induction todo generalizing s with
  | nil => exact .nil
  | cons f todo ih =>
    rw [Chains.sweepChain]
    by_cases hdue : f.timeoutDue nowUs = true
    · rw [fireTimeout_of_due s hdue]
      refine .cons ⟨key_onGapTimeout _ nowUs, fun _ => ⟨s, rfl⟩, fun hno => ?_⟩ (ih _)
      exact absurd (hno.symm.trans hdue) Bool.false_ne_true
    · rw [fireTimeout, if_neg hdue]
      exact .cons ⟨rfl, fun h => absurd h hdue, fun _ => rfl⟩ (ih _)

theorem fired_flows (rx : Rx) (nowUs : Nat) :
    List.Forall₂ (Fired nowUs) rx.flows (rx.sweep (fireTimeout nowUs)).flows := by
  rw [flows_sweep]
  exact fired_sweepChain nowUs rx.flows rx.toShared

/-- The idle sweep keeps the flows that are not idle, as they are. -/
theorem sweepChain_sweepIdle (cfg : Config) (nowUs : Nat) (todo : List Flow) (s : Shared) :
    (Chains.sweepChain (sweepIdle cfg nowUs) s todo).2 = todo.filter (!·.idleSince cfg nowUs) := by
  induction todo generalizing s with
  | nil => rfl
  | cons f todo ih =>
    rw [Chains.sweepChain, sweepIdle, List.filter_cons]
    by_cases hidle : f.idleSince cfg nowUs = true
    · rw [if_pos hidle, hidle]
      exact ih _
    · rw [if_neg hidle, Bool.eq_false_iff.2 hidle]
      exact congrArg (f :: ·) (ih s)

theorem flows_tick (rx : Rx) (nowUs : Nat) :
    (rx.tick nowUs).flows =
      (rx.sweep (fireTimeout nowUs)).flows.filter (!·.idleSince rx.cfg nowUs) := by
  rw [tick, flows_sweep, sweepChain_sweepIdle]

theorem idleSince_iff : f.idleSince cfg nowUs = true ↔
    f.lastProgressUs + cfg.ingressIdleTimeoutSec * 1000000 < nowUs := by
  simp only [Flow.idleSince, decide_eq_true_eq]
  omega

theorem capped_tick (h : rx.Capped) (nowUs : Nat) : (rx.tick nowUs).Capped := by
  intro hmax
  calc (rx.tick nowUs).flows.length
      ≤ (rx.sweep (fireTimeout nowUs)).flows.length := by
        rw [flows_tick]
        exact List.length_filter_le _ _
    _ = rx.flows.length := (fired_flows rx nowUs).length_eq.symm
    _ ≤ rx.cfg.maxFlows := h hmax

/-! ## Runs -/

theorem capped_step (h : rx.Good) (hc : rx.Capped) (op : Op) : (rx.step op).Capped := by
  cases op with
  | tick nowUs => exact capped_tick hc nowUs
  | onPacket payload nowUs alloc =>
    by_cases hr : ∃ key seq flags inner, rx.route payload = .flow key seq flags inner
    · obtain ⟨key, seq, flags, inner, hr⟩ := hr
      exact (mem_onPacket h hr nowUs alloc).1 hc
    · push Not at hr
      have hcfg : (rx.onPacket payload nowUs alloc).cfg = rx.cfg :=
        (does_step h (.onPacket payload nowUs alloc)).cfg
      change (rx.onPacket payload nowUs alloc).Capped
      rw [Capped, flows_onPacket_of_ne hr, hcfg]
      exact hc

theorem capped_run (h : rxNew cfg seed = some rx) (ops : List Op) : (rx.run ops).Capped := by
  refine (List.foldlRecOn ops step (motive := fun rx' => rx'.Good ∧ rx'.Capped)
    ⟨good_of_rxNew h, fun _ => ?_⟩ ?_).2
  · rw [(empty_of_rxNew h).1]
    exact Nat.zero_le _
  · rintro rx' ⟨hg, hc⟩ op -
    exact ⟨good_step hg op, capped_step hg hc op⟩

/-- The flow table of the receiver, after any calls: its keys are distinct and in
    their buckets, and its counter is right and within the limit. A packet of a new
    flow that finds the table full evicts one flow, of the oldest progress; a tick
    drops the flows that are idle once the timeouts have fired; and the other
    flows are as before. -/
theorem receiver_table (h : rxNew cfg seed = some rx) (ops : List Op) :
    (((rx.run ops).flows.map Flow.key).Nodup ∧
      (∀ i chain, (rx.run ops).buckets[i]? = some chain → ∀ f ∈ chain, (rx.run ops).slot f.key = i) ∧
      (rx.run ops).nFlows = (rx.run ops).flows.length ∧
      (cfg.maxFlows ≠ 0 → (rx.run ops).nFlows ≤ cfg.maxFlows)) ∧
    (∀ payload nowUs alloc,
      (∀ key seq flags inner, (rx.run ops).route payload = .flow key seq flags inner →
        ((rx.run ops).victimFor key ≠ none ↔
          (rx.run ops).flowLookup key = none ∧ (rx.run ops).full = true) ∧
        (∀ v, (rx.run ops).victimFor key = some v → v ∈ (rx.run ops).flows ∧ v.key ≠ key ∧
          ∀ g ∈ (rx.run ops).flows, v.lastProgressUs ≤ g.lastProgressUs) ∧
        ∀ g, g.key ≠ key → (g ∈ ((rx.run ops).onPacket payload nowUs alloc).flows ↔
          g ∈ (rx.run ops).flows ∧ (rx.run ops).victimFor key ≠ some g)) ∧
      ((∀ key seq flags inner, (rx.run ops).route payload ≠ .flow key seq flags inner) →
        ((rx.run ops).onPacket payload nowUs alloc).flows = (rx.run ops).flows)) ∧
    ∀ nowUs,
      List.Forall₂ (Fired nowUs) (rx.run ops).flows ((rx.run ops).sweep (fireTimeout nowUs)).flows ∧
      ∀ f, f ∈ ((rx.run ops).tick nowUs).flows ↔
        f ∈ ((rx.run ops).sweep (fireTimeout nowUs)).flows ∧
          ¬f.lastProgressUs + cfg.ingressIdleTimeoutSec * 1000000 < nowUs := by
  have hg := good_run (good_of_rxNew h) ops
  have hcfg : (rx.run ops).cfg = cfg.finalize := (cfg_run (good_of_rxNew h) ops).trans (cfg_of_rxNew h)
  have hcapped := capped_run h ops
  rw [Capped, hcfg] at hcapped
  generalize rx.run ops = rx' at hg hcfg hcapped
  refine ⟨⟨hg.table.wf.nodup, hg.table.wf.home, hg.inv.nFlows, fun hmax => ?_⟩,
    fun payload nowUs alloc => ⟨?_, fun hr => flows_onPacket_of_ne hr nowUs alloc⟩, fun nowUs => ?_⟩
  · rw [hg.inv.nFlows]
    exact hcapped hmax
  · intro key seq flags inner hr
    refine ⟨?_, fun v hv => ?_, (mem_onPacket hg hr nowUs alloc).2⟩
    · rw [victimFor]
      split_ifs with hroom
      · refine iff_of_true ?_ ⟨Option.isNone_iff_eq_none.1 hroom.1, hroom.2⟩
        have hpos : 0 < rx'.cfg.maxFlows ∧ rx'.cfg.maxFlows ≤ rx'.nFlows := by simpa [full] using hroom.2
        have hne : rx'.flows ≠ [] := by
          intro h0
          have hcount := hg.inv.nFlows
          rw [h0, List.length_nil] at hcount
          omega
        obtain ⟨v, hv⟩ := exists_lruVictim hne
        rw [hv]
        exact Option.some_ne_none v
      · refine iff_of_false (fun hno => hno rfl) fun hroom' => hroom ⟨?_, hroom'.2⟩
        exact Option.isNone_iff_eq_none.2 hroom'.1
    · rw [victimFor] at hv
      split_ifs at hv with hroom
      have hmem := mem_of_lruVictim hv
      have hnew := Chains.forall_ne_of_lookup_eq_none hg.table.wf.home
        (Option.isNone_iff_eq_none.1 hroom.1)
      exact ⟨hmem, hnew v hmem, lruVictim_le hv⟩
  · refine ⟨fired_flows rx' nowUs, fun f => ?_⟩
    rw [flows_tick, List.mem_filter, Bool.not_eq_true', ← Bool.not_eq_true, idleSince_iff, hcfg]
    rfl

/-- A receiver with room for one flow. -/
def roomyRx : Rx := { defaultRx with cfg := { Config.default.finalize with maxFlows := 1 } }

/-- The second flow evicts the first one, which comes back at the end. -/
def evictingRun : List Op := [receive 1 30 0 0, receive 2 30 0 1000, receive 1 30 7 2000]

theorem receiver_table_sample :
    ((roomyRx.run evictingRun).flows.map Flow.key, (roomyRx.run evictingRun).nFlows) =
        ([udpKey 1], 1) ∧
      ((roomyRx.run evictingRun).flows.map Flow.key).Nodup ∧ (roomyRx.run evictingRun).nFlows ≤ 1 := by
  have h : rxNew { Config.default with maxFlows := 1 } 0 = some roomyRx := rfl
  obtain ⟨⟨hnodup, -, -, hcap⟩, -⟩ := receiver_table h evictingRun
  exact ⟨by decide +kernel, hnodup, hcap (by decide)⟩

end Rx

end Mqvpn.Reorder
