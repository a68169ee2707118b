import Mqvpn.Lib.Runs
import Mqvpn.Reorder.Safety

/-!
# Lifetime statistics

The snapshot of `getStats` sums the counters of the flows that were evicted and
of those alive. A flow that is evicted while its gap timer is armed leaves its
open wait period behind: the period was counted when it opened and is counted by
no terminator, nor by an armed timer any more. So the identity between the
periods opened and those ended or open (`GapIdentity`) holds of a run exactly if
no call of it evicts an armed flow (`gapIdentity_iff`), and not in general
(`not_gapIdentity`).
-/

namespace Mqvpn.Reorder

/-! ## Sums of counters -/

namespace Stats

theorem periodsClosed_accumulate (a b : Stats) :
    (a.accumulate b).periodsClosed = a.periodsClosed + b.periodsClosed := by
  simp only [periodsClosed, accumulate]
  omega

/-- A counter that `accumulate` adds is summed by a snapshot. -/
theorem foldl_accumulate {g : Stats → Nat} (hg : ∀ a b, g (a.accumulate b) = g a + g b)
    (flows : List Flow) (st : Stats) :
    g (flows.foldl (fun st f => st.accumulate f.stats) st) =
      g st + (flows.map fun f => g f.stats).sum := by
  induction flows generalizing st with
  | nil => rfl
  | cons f flows ih =>
    rw [List.foldl_cons, ih, hg, List.map_cons, List.sum_cons, Nat.add_assoc]

end Stats

/-- The armed timers account for the periods of the live flows that are open. -/
theorem sum_gapCount {flows : List Flow} (h : ∀ f ∈ flows, f.Periods) :
    (flows.map (·.stats.gapCount)).sum =
      (flows.map (·.stats.periodsClosed)).sum + flows.countP (·.gapTimerActive) := by
  induction flows with
  | nil => rfl
  | cons f flows ih =>
    have hf := (h f List.mem_cons_self).gapCount
    have ih := ih fun g hg => h g (List.mem_cons_of_mem _ hg)
    rw [List.map_cons, List.sum_cons, List.map_cons, List.sum_cons, List.countP_cons]
    split_ifs at hf ⊢ <;> omega

namespace Rx

/-- Every wait period opened in the lifetime of the receiver has ended or is
    open: the §17 identity over a snapshot. -/
def GapIdentity (rx : Rx) : Prop :=
  rx.getStats.gapCount = rx.getStats.gapFilledCount + rx.getStats.gapTimeoutCount +
    rx.getStats.gapOverflowCount + rx.getStats.gapDemoteCount + rx.getStats.gapResetCount +
    rx.flows.countP (·.gapTimerActive)

instance (rx : Rx) : Decidable rx.GapIdentity := inferInstanceAs (Decidable (_ = _))

/-- The call evicts no flow whose gap timer is armed: a packet of a new flow finds
    room or pushes out a flow that is not waiting, and a tick meets no flow that
    is idle while it waits for a deadline still to come. -/
def SparesArmed (rx : Rx) : Op → Prop
  | .onPacket payload _ _ => (rx.route payload).Imp fun key _ _ _ =>
      rx.flowLookup key = none → rx.full = true →
        ∀ f ∈ lruVictim rx.flows, f.gapTimerActive = false
  | .tick nowUs => ∀ f ∈ rx.flows, f.idleSince rx.cfg nowUs = true →
      f.timeoutDue nowUs = false → f.gapTimerActive = false

/-- How many flows with an armed timer the acts evict. -/
def armedEvictions (as : List Act) : Nat :=
  as.countP fun
    | .evict f => f.gapTimerActive
    | _ => false

variable {rx : Rx} {cfg : Config} {seed : UInt64}

theorem armedEvictions_eq_zero {as : List Act} :
    armedEvictions as = 0 ↔ ∀ f, .evict f ∈ as → f.gapTimerActive = false := by
  rw [armedEvictions, List.countP_eq_zero]
  constructor
  · intro h f hf
    simpa using h _ hf
  · intro h a ha
    cases a with
    | evict f => simp [h f ha]
    | _ => simp

theorem armedEvictions_acts (rx : Rx) (op : Op) :
    armedEvictions (rx.acts op) = 0 ↔ rx.SparesArmed op := by
  rw [armedEvictions_eq_zero]
  cases op with
  | tick nowUs => simp [acts, SparesArmed]
  | onPacket payload nowUs alloc =>
    rw [acts, SparesArmed]
    cases rx.route payload with
    | ignore => simp [Route.Imp]
    | bypass inner => simp [Route.Imp]
    | flow key seq flags inner =>
      dsimp only [Route.Imp]
      rw [flowActs]
      cases rx.flowLookup key with
      | some f => simp
      | none =>
        split_ifs with hfull
        all_goals simp [hfull]

/-- What the evicted flows leave behind: each one that was armed, a period. -/
theorem evictedStats_of_changes {as : List Act} {s s' : Shared} {l l' : List Flow}
    (hcap : ∀ k, (cfg.flowCap k).isPowerOfTwo) (hc : Changes cfg as s l s' l') (h : Inv cfg s l) :
    s'.evictedStats.gapCount + s.evictedStats.periodsClosed =
      s.evictedStats.gapCount + s'.evictedStats.periodsClosed + armedEvictions as := by
  induction hc with
  | nil => rfl
  | @cons a as s s₁ s' l l₁ l' hc _ ih =>
    have ih := ih (hc.inv hcap h)
    have hstep : s₁.evictedStats.gapCount + s.evictedStats.periodsClosed =
        s.evictedStats.gapCount + s₁.evictedStats.periodsClosed + armedEvictions [a] := by
      cases hc with
      | packet p =>
        have he := (View.ready_onReordered h.ready_focus p).2.evictedStats
        dsimp only at he
        rw [he]
        rfl
      | timeout nowUs _ =>
        have he := (View.ready_onGapTimeout nowUs h.ready_focus).2.evictedStats
        dsimp only at he
        rw [he]
        rfl
      | evict =>
        have hf := h.ready_focus.periods.gapCount
        rw [h.evict_eq]
        dsimp only at hf ⊢
        rw [Stats.periodsClosed_accumulate, armedEvictions, List.countP_singleton]
        change s.evictedStats.gapCount + _ + _ = _
        dsimp only
        omega
      | create _ => rfl
      | bypass _ => rfl
    have happ : armedEvictions (a :: as) = armedEvictions [a] + armedEvictions as := by
      rw [← List.singleton_append]
      exact List.countP_append ..
    omega

/-! ## The identity -/

/-- The periods that the evicted flows left open. -/
def lostPeriods (rx : Rx) : Nat := rx.evictedStats.gapCount - rx.evictedStats.periodsClosed

/-- The evicted flows never ended more periods than they opened. -/
def Solvent (rx : Rx) : Prop :=
  rx.Good ∧ rx.evictedStats.periodsClosed ≤ rx.evictedStats.gapCount

theorem lostPeriods_step (h : rx.Solvent) (op : Op) :
    (rx.step op).Solvent ∧
      (rx.step op).lostPeriods = rx.lostPeriods + armedEvictions (rx.acts op) := by
  obtain ⟨hg, hle⟩ := h
  have hd := does_step hg op
  have hev := evictedStats_of_changes hg.caps hd.changes hg.inv
  simp only [Solvent, lostPeriods]
  exact ⟨⟨hd.good hg, by omega⟩, by omega⟩

theorem gapIdentity_iff_lostPeriods (h : rx.Solvent) : rx.GapIdentity ↔ rx.lostPeriods = 0 := by
  obtain ⟨hg, hle⟩ := h
  have hsum := sum_gapCount fun f hf => (hg.inv.ready f hf).periods
  have hgap := Stats.foldl_accumulate (g := Stats.gapCount) (fun _ _ => rfl) rx.flows rx.evictedStats
  have hclosed := Stats.foldl_accumulate Stats.periodsClosed_accumulate rx.flows rx.evictedStats
  change rx.getStats.gapCount = rx.getStats.periodsClosed + _ ↔ _
  rw [getStats, hgap, hclosed, lostPeriods]
  omega

/-- The identity holds after a run exactly if no call of the run evicted a flow
    whose gap timer was armed. -/
theorem gapIdentity_iff (h : rxNew cfg seed = some rx) (ops : List Op) :
    (rx.run ops).GapIdentity ↔ Runs.Along step SparesArmed rx ops := by
  have hg := good_of_rxNew h
  have hzero : rx.evictedStats = {} := by rw [(empty_of_rxNew h).2]
  have hs : rx.Solvent := ⟨hg, by rw [hzero]; exact le_rfl⟩
  have hrun : (rx.run ops).Solvent :=
    List.foldlRecOn ops step hs fun _ h op _ => (lostPeriods_step h op).1
  have hlost : (rx.run ops).lostPeriods = rx.lostPeriods + _ :=
    Runs.foldl_measure (fun _ op h => (lostPeriods_step h op).1)
      (fun _ op h => (lostPeriods_step h op).2) hs ops
  have hnone : rx.lostPeriods = 0 := by rw [lostPeriods, hzero]; rfl
  rw [gapIdentity_iff_lostPeriods hrun, hlost, hnone, Nat.zero_add, Runs.total_eq_zero_iff]
  simp only [armedEvictions_acts]

/-- A receiver with room for one flow. -/
def oneFlowRx : Rx := { defaultRx with cfg := { Config.default with maxFlows := 1 }.finalize }

theorem gapIdentity_iff_sample :
    Runs.Along step SparesArmed defaultRx [receive 1 30 0 0, .tick 1000] :=
  (gapIdentity_iff rxNew_default _).1 (by decide +kernel)

/-- A flow that waits for a lost packet is pushed out by another one: its period
    is counted as opened, and never as ended. -/
theorem not_gapIdentity :
    rxNew { Config.default with maxFlows := 1 } 0 = some oneFlowRx ∧
      ¬(oneFlowRx.run [receive 1 30 0 0, receive 1 30 2 1000, receive 2 30 0 2000]).GapIdentity :=
  ⟨rfl, by decide +kernel⟩

end Rx

end Mqvpn.Reorder
