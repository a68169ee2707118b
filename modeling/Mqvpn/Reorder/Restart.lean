import Mathlib.Data.List.Induction
import Mqvpn.Lib.Runs
import Mqvpn.Reorder.Safety
import Mqvpn.Reorder.Trailing
import Mqvpn.Reorder.Wrap

/-!
# A sender that starts over

A sender that forgot a flow as idle numbers its packets from zero again. The
receiver drops none of them as late if a tick came in between that was later than
the last progress of its flow by more than the ingress timeout
(`restart_not_late`): by then it has forgotten the flow too (`rested_run`), and
from there on it trails the sender, whatever is lost.

The last progress is the one at the time of the restart: a gap timeout that fires
in the tick itself is progress, and keeps the flow. And the numbers must not wrap
(`not_restart`).
-/

namespace Mqvpn.Reorder

/-! ## Progress -/

/-- The time of the last progress of the flow, if it has an epoch, is `P`. -/
def Flow.Progressed (P : Nat → Prop) (f : Flow) : Prop := f.initialized = true → P f.lastProgressUs

theorem Drains.lastProgressUs {nowUs : Nat} {v v' : View} (h : Drains nowUs v v') :
    v'.flow.lastProgressUs = v.flow.lastProgressUs := by
  induction h with
  | refl => rfl
  | pop _ _ ih => exact ih

section

variable {cfg : Config} {p : Arrival} {b b' : Bool} {v v' : View} {P : Nat → Prop}

/-- Whatever a packet does to the flow, its last progress is the one it had, or
    the time of the packet. -/
theorem Move.progressed (hm : Move cfg p b v b' v') (hnow : P p.nowUs) (h : v.flow.Progressed P) :
    v'.flow.Progressed P := by
  cases hm with
  | reset _ => exact fun _ => hnow
  | passThrough _ => exact fun _ => hnow
  | coldStart _ _ => exact fun _ => hnow
  | inOrder _ _ =>
    have hd : ((v.accept p).drainContiguous p.nowUs).flow.lastProgressUs = p.nowUs :=
      (View.drains_drainContiguous p.nowUs _).lastProgressUs
    rw [View.deliverInOrder]
    dsimp only
    split_ifs
    · exact fun _ => hd.symm ▸ hnow
    · exact fun _ => hd.symm ▸ hnow
  | late _ _ => exact h
  | drop _ _ _ => exact h
  | flush _ _ _ _ =>
    rw [View.overflowFlush]
    dsimp only
    split_ifs <;> exact fun _ => hnow
  | insert _ _ _ _ _ _ =>
    rw [View.inserted]
    dsimp only
    split_ifs <;> exact fun _ => hnow
  | classify _ _ _ => exact h
  | demote => exact fun _ => hnow

theorem Moves.progressed (hm : Moves cfg p b v b' v') (hnow : P p.nowUs) (h : v.flow.Progressed P) :
    v'.flow.Progressed P := by
  induction hm with
  | refl => exact h
  | head hm _ ih => exact ih (hm.progressed hnow h)

theorem View.progressed_onGapTimeout {nowUs : Nat} (hnow : P nowUs) (h : v.flow.Progressed P) :
    (v.onGapTimeout nowUs).flow.Progressed P := by
  rw [onGapTimeout]
  split_ifs
  · exact h
  · dsimp only
    split_ifs <;> exact fun _ => hnow

end

/-- The time at which an act makes progress, if it does, is `P`. -/
def Act.At (P : Nat → Prop) : Act → Prop
  | .packet _ p => P p.nowUs
  | .timeout _ nowUs => P nowUs
  | .evict _ | .create _ | .bypass _ => True

theorem Change.progressed {cfg : Config} {a : Act} {s s' : Shared} {l l' : List Flow} {P : Nat → Prop}
    (hc : Change cfg a s l s' l') (ha : a.At P) (h : ∀ f ∈ l, f.Progressed P) :
    ∀ f ∈ l', f.Progressed P := by
  cases hc with
  | @packet _ l r f p =>
    intro g hg
    rcases Chains.mem_focus.1 hg with rfl | hg
    · exact (View.moves_onReordered ⟨s, f⟩ cfg p).progressed ha (h f (Chains.mem_focus.2 (.inl rfl)))
    · exact h g (Chains.mem_focus.2 (.inr hg))
  | @timeout _ l r f nowUs _ =>
    intro g hg
    rcases Chains.mem_focus.1 hg with rfl | hg
    · exact View.progressed_onGapTimeout ha (h f (Chains.mem_focus.2 (.inl rfl)))
    · exact h g (Chains.mem_focus.2 (.inr hg))
  | evict => exact fun g hg => h g (Chains.mem_focus.2 (.inr hg))
  | create _ =>
    intro g hg
    rcases Chains.mem_focus.1 hg with rfl | hg
    · exact fun hinit => absurd hinit nofun
    · exact h g hg
  | bypass _ => exact h

namespace Rx

variable {rx : Rx} {P : Nat → Prop}

/-- The time of a call. -/
def Op.time : Op → Nat
  | .onPacket _ nowUs _ | .tick nowUs => nowUs

theorem acts_at (rx : Rx) {op : Op} (h : P op.time) : ∀ a ∈ rx.acts op, a.At P := by
  cases op with
  | tick nowUs =>
    intro a ha
    rcases List.mem_append.1 ha with ha | ha
    · obtain ⟨f, -, rfl⟩ := List.mem_map.1 ha
      exact h
    · obtain ⟨f, -, rfl⟩ := List.mem_map.1 ha
      trivial
  | onPacket payload nowUs alloc =>
    rw [acts]
    cases rx.route payload with
    | ignore => rintro _ ⟨⟩
    | bypass inner => simp [Act.At]
    | flow key seq flags inner =>
      obtain ⟨pre, hpre, hacts⟩ := rx.flowActs_eq key ⟨seq, flags, inner, nowUs, alloc⟩
      have hpre' : ∀ a ∈ pre, a.At P := by
        intro a ha
        rcases hpre a ha with ⟨f, rfl⟩ | rfl <;> trivial
      dsimp only
      rcases hacts with ⟨-, hacts⟩ | ⟨f, -, hacts⟩
      · rw [hacts]
        exact hpre'
      · rw [hacts]
        intro a ha
        rcases List.mem_append.1 ha with ha | ha
        · exact hpre' a ha
        · rw [List.mem_singleton.1 ha]
          exact h

theorem progressed_step (hg : rx.Good) {op : Op} (hnow : P op.time) (h : ∀ f ∈ rx.flows, f.Progressed P) :
    ∀ f ∈ (rx.step op).flows, f.Progressed P :=
  (does_step hg op).changes.keeps (P := fun _ l => ∀ f ∈ l, f.Progressed P)
    (fun a ha _ _ _ _ hc h => hc.progressed (acts_at rx hnow a ha) h) h

/-- No flow is idle right after a tick. -/
theorem not_idle_tick (rx : Rx) (nowUs : Nat) :
    ∀ f ∈ (rx.tick nowUs).flows, f.idleSince rx.cfg nowUs = false := by
  have hsweep : ∀ (todo : List Flow) (s : Shared),
      ∀ f ∈ (Chains.sweepChain (sweepIdle rx.cfg nowUs) s todo).2, f.idleSince rx.cfg nowUs = false := by
    intro todo
    induction todo with
    | nil => exact fun _ => nofun
    | cons f todo ih =>
      intro s g hg
      rw [Chains.sweepChain, sweepIdle] at hg
      by_cases hidle : f.idleSince rx.cfg nowUs = true
      · rw [if_pos hidle] at hg
        exact ih _ g hg
      · rw [if_neg hidle] at hg
        rcases List.mem_cons.1 hg with rfl | hg
        · exact Bool.eq_false_iff.2 hidle
        · exact ih _ g hg
  intro f hf
  rw [tick, flows_sweep] at hf
  exact hsweep _ _ f hf

end Rx

/-! ## The channel -/

/-- A sender and a receiver, joined by a channel without delay that may lose
    datagrams. -/
structure Lossy where
  tx : Tx
  rx : Rx

/-- A step of the two. -/
inductive Lossy.Op
  /-- A packet enters the sender; a datagram that goes out is received as it is
      committed (`some`, with the outcomes of the allocations) or lost. -/
  | send (op : Tx.Op) (arrives : Option Alloc)
  | tick (nowUs : Nat)

/-- The readings of the clock in a step. -/
def Lossy.Op.times : Op → List Nat
  | .send op _ => op.nowUs :: op.commit.toList
  | .tick nowUs => [nowUs]

namespace Lossy

/-- The call of the receiver in a step, if there is one. -/
def received (s : Lossy) : Op → Option Rx.Op
  | .send op arrives =>
    (s.tx.sent op).bind fun m => op.commit.bind fun nowUs =>
      arrives.map fun alloc => .onPacket m.payload nowUs alloc
  | .tick nowUs => some (.tick nowUs)

def step (s : Lossy) (op : Op) : Lossy where
  tx := match op with
    | .send op _ => s.tx.step op
    | .tick _ => s.tx
  rx := (s.received op).elim s.rx s.rx.step

def run (s : Lossy) (ops : List Op) : Lossy := ops.foldl step s

/-- The two ends before anything was sent. -/
def new (txCfg : Config) (txSeed : UInt64) (rx : Rx) : Lossy := ⟨txNew txCfg txSeed, rx⟩

/-- The clock does not go back. -/
def Clocked (ops : List Op) : Prop := (ops.flatMap Op.times).Pairwise (· ≤ ·)

instance (ops : List Op) : Decidable (Clocked ops) := inferInstanceAs (Decidable (List.Pairwise _ _))

/-- How many datagrams of the flow `k` a step sends. -/
def sends (k : FlowKey) (s : Lossy) : Op → Nat
  | .send op _ => (ofKey k (s.tx.sent op).toList).length
  | .tick _ => 0

variable {s : Lossy} {op : Op} {ops : List Op} {n late : Nat}

theorem time_received {rxOp : Rx.Op} (h : s.received op = some rxOp) : rxOp.time ∈ op.times := by
  cases op with
  | tick nowUs =>
    obtain rfl := Option.some.inj h
    exact List.mem_singleton_self _
  | send op arrives =>
    obtain ⟨m, -, h⟩ := Option.bind_eq_some_iff.1 h
    obtain ⟨nowUs, hcommit, h⟩ := Option.bind_eq_some_iff.1 h
    obtain ⟨alloc, -, rfl⟩ := Option.map_eq_some_iff.1 h
    exact List.mem_cons_of_mem _ (Option.mem_toList.2 hcommit)

theorem ends_step (h : s.tx.Good ∧ s.rx.Good) (op : Op) : (s.step op).tx.Good ∧ (s.step op).rx.Good := by
  constructor
  · cases op with
    | send op _ => exact (Tx.good_step h.1 op).1
    | tick _ => exact h.1
  · change ((s.received op).elim s.rx s.rx.step).Good
    cases s.received op with
    | none => exact h.2
    | some op => exact Rx.good_step h.2 op

theorem ends_run (h : s.tx.Good ∧ s.rx.Good) (ops : List Op) :
    (s.run ops).tx.Good ∧ (s.run ops).rx.Good :=
  List.foldlRecOn ops step (motive := fun s => s.tx.Good ∧ s.rx.Good) h fun _ h op _ => ends_step h op

theorem cfg_step (h : s.rx.Good) (op : Op) : (s.step op).rx.cfg = s.rx.cfg := by
  change ((s.received op).elim s.rx s.rx.step).cfg = s.rx.cfg
  cases s.received op with
  | none => rfl
  | some op => exact (Rx.does_step h op).cfg

/-! ## Rest -/

theorem run_append (s : Lossy) (ops : List Op) (op : Op) : s.run (ops ++ [op]) = (s.run ops).step op := by
  rw [run, List.foldl_append]
  rfl

/-- Every flow made progress less than the ingress timeout before every tick that
    there was. -/
theorem rested_run (h : s.tx.Good ∧ s.rx.Good) (hflows : s.rx.flows = []) (hclock : Clocked ops) :
    (s.run ops).rx.cfg = s.rx.cfg ∧ ∀ f ∈ (s.run ops).rx.flows, f.Progressed fun last =>
      ∀ nowUs, .tick nowUs ∈ ops → nowUs ≤ last + s.rx.cfg.ingressIdleTimeoutSec * 1000000 := by
  induction ops using List.reverseRecOn with
  | nil =>
    refine ⟨rfl, fun f hf => ?_⟩
    change f ∈ s.rx.flows at hf
    exact absurd hf (hflows ▸ List.not_mem_nil)
  | append_singleton ops op ih =>
    rw [Clocked, List.flatMap_append, List.pairwise_append] at hclock
    obtain ⟨hpast, -, hlast⟩ := hclock
    obtain ⟨hcfg, ih⟩ := ih hpast
    have hg := (ends_run h ops).2
    rw [run_append]
    generalize s.run ops = s₁ at *
    -- The ticks so far are no later than this step.
    have hpassed : ∀ t ∈ op.times, ∀ nowUs, .tick nowUs ∈ ops →
        nowUs ≤ t + s.rx.cfg.ingressIdleTimeoutSec * 1000000 := by
      intro t ht nowUs hmem
      have := hlast nowUs (List.mem_flatMap.2 ⟨_, hmem, List.mem_singleton_self _⟩) t
        (by simpa using ht)
      exact this.trans (Nat.le_add_right ..)
    have hstep : ∀ f ∈ (s₁.step op).rx.flows, f.Progressed fun last =>
        ∀ nowUs, .tick nowUs ∈ ops → nowUs ≤ last + s.rx.cfg.ingressIdleTimeoutSec * 1000000 := by
      change ∀ f ∈ ((s₁.received op).elim s₁.rx s₁.rx.step).flows, _
      cases hr : s₁.received op with
      | none => exact ih
      | some rxOp => exact Rx.progressed_step hg (hpassed _ (time_received hr)) ih
    refine ⟨(cfg_step hg op).trans hcfg, fun f hf hinit nowUs hmem => ?_⟩
    rcases List.mem_append.1 hmem with hmem | hmem
    · exact hstep f hf hinit nowUs hmem
    · obtain rfl := List.mem_singleton.1 hmem
      have hidle := Rx.not_idle_tick s₁.rx nowUs f hf
      simp only [Flow.idleSince, hcfg, decide_eq_false_iff_not, not_and, not_lt] at hidle
      omega

/-! ## The new epoch -/

theorem trailing_step (h : s.tx.Good ∧ s.rx.Good) (op : Op) :
    ∃ evs, (s.step op).tx.trace = s.tx.trace ++ evs ∧ ∀ k n late, s.tx.Next k n →
      Trailing s.rx.cfg k n late s.rx.toShared s.rx.flows → .evicted k ∉ evs →
      n + s.sends k op ≤ 2 ^ 48 →
      (s.step op).tx.Next k (n + s.sends k op) ∧
        Trailing s.rx.cfg k (n + s.sends k op) late (s.step op).rx.toShared (s.step op).rx.flows := by
  cases op with
  | tick nowUs =>
    exact ⟨[], (List.append_nil _).symm, fun k n late hn ht _ _ => ⟨hn, Rx.trailing_tick h.2 ht nowUs⟩⟩
  | send op arrives =>
    obtain ⟨evs, htrace, hnext⟩ := Tx.next_step h.1 op
    refine ⟨evs, htrace, fun k n late hn ht hev hle => ?_⟩
    obtain ⟨hhdr, hn'⟩ := hnext k n hn hev
    refine ⟨hn', ?_⟩
    rw [sends] at hle ⊢
    change Trailing s.rx.cfg k _ late ((s.received (.send op arrives)).elim s.rx s.rx.step).toShared
      ((s.received (.send op arrives)).elim s.rx s.rx.step).flows
    rw [received]
    cases hm : s.tx.sent op with
    | none => exact ht
    | some m =>
      rw [hm, Option.toList_some] at hle
      cases op.commit with
      | none => exact ht.succ _
      | some t =>
        cases arrives with
        | none => exact ht.succ _
        | some alloc =>
          obtain ⟨i, hi, hkey⟩ : ∃ i, m.hdr = header s.tx.cfg.resetMarkPackets i ∧
              (m.key = k → i = n ∧ n < 2 ^ 48) := by
            by_cases hk : m.key = k
            · refine ⟨n, hhdr m hm hk, fun _ => ⟨rfl, ?_⟩⟩
              rw [← hk, ofKey_singleton_self] at hle
              exact hle
            · obtain ⟨i, hi⟩ := Tx.hdr_sent h.1 hm
              exact ⟨i, hi, fun hk' => absurd hk' hk⟩
          exact Rx.trailing_onPacket h.2 ht (Tx.parse5tuple_sent h.1 hm) hi hkey t alloc

/-- How often the sender evicted a flow of `k`. -/
def evictions (k : FlowKey) (trace : List TxEvent) : Nat :=
  trace.countP fun
    | .evicted k' => k' = k
    | _ => false

theorem evictions_append (k : FlowKey) (trace evs : List TxEvent) :
    evictions k (trace ++ evs) = evictions k trace + evictions k evs := List.countP_append ..

theorem evictions_le_run (h : s.tx.Good ∧ s.rx.Good) (k : FlowKey) (ops : List Op) :
    evictions k s.tx.trace ≤ evictions k (s.run ops).tx.trace := by
  induction ops generalizing s with
  | nil => exact le_rfl
  | cons op ops ih =>
    obtain ⟨evs, ht, -⟩ := trailing_step h op
    refine le_trans ?_ (ih (ends_step h op))
    rw [ht, evictions_append]
    exact Nat.le_add_right ..

/-- A receiver that trails the sender drops nothing of the epoch as late. -/
theorem late_run (h : s.tx.Good ∧ s.rx.Good) {k : FlowKey} (hn : s.tx.Next k n)
    (ht : Trailing s.rx.cfg k n late s.rx.toShared s.rx.flows)
    (hev : evictions k (s.run ops).tx.trace = evictions k s.tx.trace)
    (hle : n + Runs.total step (sends k) s ops ≤ 2 ^ 48) :
    lateDrops k (s.run ops).rx.trace = late := by
  induction ops generalizing s n with
  | nil => exact ht.late
  | cons op ops ih =>
    obtain ⟨evs, htrace, hstep⟩ := trailing_step h op
    rw [Runs.total] at hle
    have hmono := evictions_le_run (ends_step h op) k ops
    change evictions k ((s.step op).run ops).tx.trace = _ at hev
    rw [htrace, evictions_append, hev] at hmono
    have hnone : .evicted k ∉ evs := by
      have hzero : evictions k evs = 0 := by omega
      exact fun he => absurd (List.countP_eq_zero.1 hzero _ he) (by simp)
    obtain ⟨hn', ht'⟩ := hstep k n late hn ht hnone (by omega)
    refine ih (ends_step h op) hn' (cfg_step h.2 op ▸ ht') ?_ (by omega)
    rw [hev, htrace, evictions_append]
    omega

variable {rxCfg : Config} {rxSeed : UInt64} {rx : Rx}

/-- Epoch restart. Let the sender have no flow of `k`, or one that has sent
    nothing yet, and let a tick have come later than the last progress of the
    receiver's flow, if there still is one, by more than the ingress timeout. Then
    no datagram of the epoch that begins is dropped as late, up to the wrap of its
    numbers. -/
theorem restart_not_late (h : rxNew rxCfg rxSeed = some rx) (txCfg : Config) (txSeed : UInt64)
    (old new : List Op) (k : FlowKey) (last tickUs : Nat) (hclock : Clocked old)
    (hepoch : ∀ f ∈ ((Lossy.new txCfg txSeed rx).run old).tx.flows, f.key = k → f.nextSeq = 0)
    (hlast : ∀ f ∈ ((Lossy.new txCfg txSeed rx).run old).rx.flows, f.key = k → f.lastProgressUs ≤ last)
    (htick : .tick tickUs ∈ old) (hidle : last + rxCfg.ingressIdleTimeoutSec * 1000000 < tickUs)
    (hev : evictions k (((Lossy.new txCfg txSeed rx).run old).run new).tx.trace =
      evictions k ((Lossy.new txCfg txSeed rx).run old).tx.trace)
    (hwrap : Runs.total step (sends k) ((Lossy.new txCfg txSeed rx).run old) new ≤ 2 ^ 48) :
    lateDrops k (((Lossy.new txCfg txSeed rx).run old).run new).rx.trace =
      lateDrops k ((Lossy.new txCfg txSeed rx).run old).rx.trace := by
  have hends := ends_run (s := Lossy.new txCfg txSeed rx)
    ⟨Tx.good_txNew txCfg txSeed, Rx.good_of_rxNew h⟩ old
  obtain ⟨hcfg, hrest⟩ := rested_run (s := Lossy.new txCfg txSeed rx)
    ⟨Tx.good_txNew txCfg txSeed, Rx.good_of_rxNew h⟩ (Rx.empty_of_rxNew h).1 hclock
  have hidle' : (Lossy.new txCfg txSeed rx).rx.cfg.ingressIdleTimeoutSec = rxCfg.ingressIdleTimeoutSec := by
    change rx.cfg.ingressIdleTimeoutSec = _
    rw [Rx.cfg_of_rxNew h, Config.finalize]
  refine late_run hends (n := 0) ⟨hepoch, fun _ => rfl⟩ ⟨hends.2.inv, fun f hf hk hl => ?_, rfl⟩ hev (by omega)
  -- A flow of `k` with an epoch would have been evicted by the tick.
  have := hrest f hf hl.1 tickUs htick
  have := hlast f hf hk
  omega

/-! ## Samples and limits -/

/-- A sender with room for one flow, that forgets it after two seconds. -/
def restartTxCfg : Config :=
  { Config.default with
    mode := .on
    maxFlows := 1
    ingressIdleTimeoutSec := 1
    egressIdleTimeoutSec := 2
    resetMarkPackets := 0 }

/-- A receiver that forgets a flow after one second, and does not classify. -/
def restartRxCfg : Config :=
  { Config.default with
    classifyWindow := 0
    ingressIdleTimeoutSec := 1
    egressIdleTimeoutSec := 2 }

def restartRx : Rx := { defaultRx with cfg := restartRxCfg.finalize }

theorem rxNew_restart : rxNew restartRxCfg 0 = some restartRx := rfl

/-- A packet of a flow, sent at a time in seconds. -/
def sendAt (port : UInt8) (sec : Nat) : Tx.Op :=
  ⟨udpPacket port 28, sec * 1000000, 1500, true, some (sec * 1000000)⟩

/-- The packet arrives, memory permitting. -/
def arrive (port : UInt8) (sec : Nat) : Op := .send (sendAt port sec) (some ⟨true, true, true⟩)

/-- The packet is sent, and lost. -/
def lose (port : UInt8) (sec : Nat) : Op := .send (sendAt port sec) none

/-- The receiver forgets a flow in a tick, and the sender to make room for another
    one. -/
def oldEpoch : List Op := [arrive 1 0, .tick 2000000, lose 2 3]

theorem restart_not_late_sample :
    ((new restartTxCfg 0 restartRx).run [arrive 1 0]).rx.flows.length = 1 ∧
      evictions (udpKey 1) ((new restartTxCfg 0 restartRx).run oldEpoch).tx.trace = 1 ∧
      lateDrops (udpKey 1)
          (((new restartTxCfg 0 restartRx).run oldEpoch).run [arrive 1 6, lose 1 6, arrive 1 6]).rx.trace =
        lateDrops (udpKey 1) ((new restartTxCfg 0 restartRx).run oldEpoch).rx.trace :=
  ⟨by decide +kernel, by decide +kernel, restart_not_late rxNew_restart restartTxCfg 0 oldEpoch
    [arrive 1 6, lose 1 6, arrive 1 6] (udpKey 1) 0 2000000 (by decide +kernel) (by decide +kernel)
    (by decide +kernel) (List.mem_cons_of_mem _ List.mem_cons_self) (by decide) (by decide +kernel)
    (by decide +kernel)⟩

/-- Packets of a burst that all arrive. -/
theorem steady_run {key : FlowKey} {t : Nat} {send : Tx.Op} (h : Steady key t n s.tx s.rx)
    (hb : Steady.Burst key t send) (alloc : Alloc) (j : Nat) (hj : n + j ≤ 2 ^ 48) :
    Steady key t (n + j) (s.run (List.replicate j (.send send (some alloc)))).tx
        (s.run (List.replicate j (.send send (some alloc)))).rx ∧
      ∀ k, evictions k (s.run (List.replicate j (.send send (some alloc)))).tx.trace =
        evictions k s.tx.trace := by
  induction j with
  | zero => exact ⟨h, fun _ => rfl⟩
  | succ j ih =>
    obtain ⟨hs, hev⟩ := ih (Nat.le_of_succ_le hj)
    rw [List.replicate_succ', run_append]
    generalize s.run (List.replicate j (.send send (some alloc))) = s' at hs hev
    obtain ⟨hsent, hdr, htrace⟩ := hs.sent hb
    have hrx : (s'.step (.send send (some alloc))).rx = s'.rx.onPacket (Msg.payload ⟨key,
        header s'.tx.cfg.resetMarkPackets (n + j), send.pkt⟩) t alloc := by
      change (s'.received (.send send (some alloc))).elim s'.rx s'.rx.step = _
      rw [received, hsent, hb.commit]
      rfl
    refine ⟨?_, fun k => ?_⟩
    · rw [hrx]
      exact hs.step hb alloc hj
    · change evictions k (s'.tx.step send).trace = _
      rw [htrace, evictions_append, hev]
      rfl

theorem burst_sendAt : Steady.Burst (udpKey 1) 6000000 (sendAt 1 6) :=
  ⟨by decide, by decide, by decide, rfl⟩

/-- After the sender starts over, `1 + j = 2 ^ 48` packets and one more. -/
theorem wrap_late {j : Nat} (hj : 1 + j = 2 ^ 48) :
    evictions (udpKey 1) (((new restartTxCfg 0 restartRx).run oldEpoch).run
        (arrive 1 6 :: (List.replicate j (arrive 1 6) ++ [arrive 1 6]))).tx.trace =
      evictions (udpKey 1) ((new restartTxCfg 0 restartRx).run oldEpoch).tx.trace ∧
    0 < lateDrops (udpKey 1) (((new restartTxCfg 0 restartRx).run oldEpoch).run
        (arrive 1 6 :: (List.replicate j (arrive 1 6) ++ [arrive 1 6]))).rx.trace := by
  have hrun : ∀ s : Lossy, s.run (arrive 1 6 :: (List.replicate j (arrive 1 6) ++ [arrive 1 6])) =
      ((s.step (arrive 1 6)).run (List.replicate j (arrive 1 6))).step (arrive 1 6) := by
    intro s
    rw [run, List.foldl_cons, List.foldl_append]
    rfl
  have hev₁ : evictions (udpKey 1) (((new restartTxCfg 0 restartRx).run oldEpoch).step (arrive 1 6)).tx.trace =
      evictions (udpKey 1) ((new restartTxCfg 0 restartRx).run oldEpoch).tx.trace := by decide +kernel
  have h₁ : Steady (udpKey 1) 6000000 1
      (((new restartTxCfg 0 restartRx).run oldEpoch).step (arrive 1 6)).tx
      (((new restartTxCfg 0 restartRx).run oldEpoch).step (arrive 1 6)).rx := by
    obtain ⟨htx, hrx⟩ := ends_step (ends_run (s := new restartTxCfg 0 restartRx)
      ⟨Tx.good_txNew _ _, Rx.good_of_rxNew rxNew_restart⟩ oldEpoch) (arrive 1 6)
    refine .of_lookup htx hrx ?_ ?_ ?_ ?_ ?_
    all_goals decide +kernel
  rw [hrun, ← hev₁]
  generalize ((new restartTxCfg 0 restartRx).run oldEpoch).step (arrive 1 6) = s₁ at h₁
  obtain ⟨hs, hev⟩ := steady_run h₁ burst_sendAt ⟨true, true, true⟩ j hj.le
  rw [hj] at hs
  rw [arrive, ← hev]
  generalize s₁.run (List.replicate j (.send (sendAt 1 6) (some ⟨true, true, true⟩))) = s at hs
  obtain ⟨hsent, hdr, htrace⟩ := hs.sent burst_sendAt
  constructor
  · change evictions _ (s.tx.step (sendAt 1 6)).trace = _
    rw [htrace, evictions_append]
    rfl
  · have hrx : (s.step (.send (sendAt 1 6) (some ⟨true, true, true⟩))).rx = s.rx.onPacket (Msg.payload
        ⟨udpKey 1, header s.tx.cfg.resetMarkPackets (2 ^ 48), (sendAt 1 6).pkt⟩) 6000000 ⟨true, true, true⟩ := by
      change (s.received (.send (sendAt 1 6) (some ⟨true, true, true⟩))).elim s.rx s.rx.step = _
      rw [received, hsent, burst_sendAt.commit]
      rfl
    have htr := hs.trace_wrap burst_sendAt ⟨true, true, true⟩
    rw [← hrx] at htr
    refine List.countP_pos_iff.2 ⟨.droppedLate (udpKey 1) 0, ?_, by simp [Event.isLate]⟩
    rw [htr]
    exact List.mem_append_right _ (List.mem_cons_of_mem _ List.mem_cons_self)

/-- A flow with a gap, that the sender forgets before the receiver's next tick. -/
def gapEpoch : List Op := [arrive 1 0, lose 1 0, arrive 1 0, lose 2 3]

/-- The limits of the restart. It fails when the numbers of the new epoch wrap; and
    if the last progress is read before the tick, which then fires a gap timeout
    and so keeps the flow. -/
theorem not_restart :
    (Clocked oldEpoch ∧ .tick 2000000 ∈ oldEpoch ∧
      ((new restartTxCfg 0 restartRx).run oldEpoch).tx.flows.all (·.key ≠ udpKey 1) = true ∧
      ((new restartTxCfg 0 restartRx).run oldEpoch).rx.flows.all (·.key ≠ udpKey 1) = true ∧
      evictions (udpKey 1) (((new restartTxCfg 0 restartRx).run oldEpoch).run
          (arrive 1 6 :: (List.replicate (2 ^ 48 - 1) (arrive 1 6) ++ [arrive 1 6]))).tx.trace =
        evictions (udpKey 1) ((new restartTxCfg 0 restartRx).run oldEpoch).tx.trace ∧
      lateDrops (udpKey 1) ((new restartTxCfg 0 restartRx).run oldEpoch).rx.trace = 0 ∧
      0 < lateDrops (udpKey 1) (((new restartTxCfg 0 restartRx).run oldEpoch).run
          (arrive 1 6 :: (List.replicate (2 ^ 48 - 1) (arrive 1 6) ++ [arrive 1 6]))).rx.trace) ∧
    (Clocked (gapEpoch ++ [.tick 3000000, arrive 1 6]) ∧
      (((new restartTxCfg 0 restartRx).run gapEpoch).rx.flows.map (·.lastProgressUs)) = [0] ∧
      0 + restartRxCfg.ingressIdleTimeoutSec * 1000000 < 3000000 ∧
      ((new restartTxCfg 0 restartRx).run gapEpoch).tx.flows.all (·.key ≠ udpKey 1) = true ∧
      lateDrops (udpKey 1) ((new restartTxCfg 0 restartRx).run (gapEpoch ++ [.tick 3000000])).rx.trace = 0 ∧
      lateDrops (udpKey 1)
        ((new restartTxCfg 0 restartRx).run (gapEpoch ++ [.tick 3000000, arrive 1 6])).rx.trace = 1) := by
  obtain ⟨hev, hlate⟩ := wrap_late (j := 2 ^ 48 - 1) (by decide)
  refine ⟨⟨by decide +kernel, List.mem_cons_of_mem _ List.mem_cons_self, by decide +kernel,
    by decide +kernel, hev, by decide +kernel, hlate⟩, ?_⟩
  refine ⟨by decide +kernel, by decide +kernel, by decide, by decide +kernel, by decide +kernel, by decide +kernel⟩

end Lossy

end Mqvpn.Reorder
