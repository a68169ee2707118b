import Mqvpn.Hybrid.Uplink

/-!
# The receive window of the uplink

The TCP stack gets the window of a delivery back by calls of `tcp_recved`: at once, or, if
the delivery waits in the queue, when the queue is short again. What was given back and
what is withheld is together what was delivered (`window_exact`): once the queue is empty
the whole window is given back, and never more than that.

The counter of what is withheld has 32 bits; it does not wrap as the TCP stack delivers no
more than its window.
-/

namespace Mqvpn.Hybrid

open Relay

/-! ## The calls -/

/-- `tcp_lane_recved`: the arguments of its calls of `tcp_recved`. -/
def tcpLaneRecved (len : Nat) : List Nat :=
  if 0 < len then
    let chunk := if 0xffff < len then 0xffff else len
    chunk :: tcpLaneRecved (len - chunk)
  else []
termination_by len
decreasing_by
  split <;> omega

/-- The calls of `tcp_recved` in a run; a step calls `tcp_lane_recved` once at the most. -/
def recvedCalls (s : Flow × Outcome) : List FlowStep → List Nat
  | [] => []
  | step :: steps =>
    tcpLaneRecved ((relayStep s step).1.recved - s.1.recved) ++ recvedCalls (relayStep s step) steps

theorem tcpLaneRecved_spec (len : Nat) : (tcpLaneRecved len).sum = len ∧ ∀ call ∈ tcpLaneRecved len, call ≤ 0xffff := by
  fun_induction tcpLaneRecved len with
  | case1 len hpos chunk ih =>
    have hchunk : chunk ≤ len ∧ chunk ≤ 0xffff := by
      dsimp only [chunk]
      split <;> omega
    refine ⟨?_, ?_⟩
    · rw [List.sum_cons, ih.1]
      omega
    · intro call hcall
      rcases List.mem_cons.1 hcall with rfl | hcall
      · exact hchunk.2
      · exact ih.2 call hcall
  | case2 len hzero => exact ⟨by rw [List.sum_nil]; omega, fun call hcall => absurd hcall List.not_mem_nil⟩

/-! ## What is withheld -/

/-- What was delivered is given back or withheld, counted modulo the width of the counter;
    nothing is withheld unless the flow says so. -/
structure GivenInv (f : Flow) : Prop where
  pcb : f.pcb.isSome = true
  given : (f.recved + f.uplinkWithheldRecved) % 2 ^ 32 = f.uplink.input.length % 2 ^ 32
  opened : f.uplinkWithheld = false → f.uplinkWithheldRecved = 0

/-- The window is only withheld while deliveries wait. -/
def Waits (f : Flow) : Prop := f.uplinkWithheld = true → f.uplinkQ ≠ []

theorem GivenInv.maybeFin {f : Flow} (h : GivenInv f) (answers : List SendAnswer) :
    GivenInv (uplinkMaybeFin f answers).1 := by
  rcases uplinkMaybeFin_cases f answers with ⟨hsame, -⟩ | ⟨-, -, -, -, heq⟩
  · rw [hsame]
    exact h
  · rw [heq]
    exact ⟨h.pcb, h.given, h.opened⟩

theorem GivenInv.drain {f f' : Flow} {answers rest : List SendAnswer} (h : GivenInv f) (hinv : UplinkInv f)
    (hdrain : uplinkDrain f f.uplinkQ answers = (f', some rest)) : GivenInv f' := by
  obtain ⟨q, n, u, honly⟩ := uplinkDrain_only f f.uplinkQ answers
  obtain ⟨-, -, hinput, -⟩ := uplinkDrain_spec hdrain hinv.sound hinv.offset_lt hinv.queued
  rw [hdrain] at honly
  dsimp only at honly
  subst honly
  refine ⟨h.pcb, ?_, h.opened⟩
  rw [hinput]
  exact h.given

/-- The window that is withheld is opened again, or the queue is not short. -/
theorem GivenInv.resume {f : Flow} (h : GivenInv f) (hinv : UplinkInv f) :
    GivenInv (uplinkResume f) ∧ Waits (uplinkResume f) := by
  rw [uplinkResume]
  split
  · refine ⟨⟨h.pcb, ?_, fun _ => rfl⟩, fun hwithheld => Bool.noConfusion hwithheld⟩
    dsimp only
    rw [if_pos h.pcb, Nat.add_zero]
    exact h.given
  · rename_i hlow
    refine ⟨h, fun hwithheld hempty => hlow ⟨hwithheld, ?_⟩⟩
    rw [hinv.queued, hempty]
    decide

theorem GivenInv.flush {f : Flow} (h : GivenInv f) (hinv : UplinkInv f) (hwaits : Waits f)
    {answers : List SendAnswer} (hlive : (uplinkFlush f answers).2 = .live) :
    GivenInv (uplinkFlush f answers).1 ∧ Waits (uplinkFlush f answers).1 := by
  have hok : (uplinkFlush f answers).2 ≠ .relayError := by
    rw [hlive]
    exact Outcome.noConfusion
  rcases uplinkFlush_cases hok with heq | ⟨-, f', rest, hdrain, hfin⟩
  · rw [heq]
    exact ⟨h, hwaits⟩
  · rcases hfin with ⟨-, heq⟩ | ⟨hclose, heq⟩
    · rw [heq]
      exact ((h.drain hinv hdrain).maybeFin rest).resume ((hinv.drain hdrain).maybeFin rest)
    · rw [heq, hclose] at hlive
      cases hlive

/-- The window of a delivery is given back or withheld, with the delivery in the queue. -/
theorem GivenInv.withhold {f : Flow} {tot : Nat} (hpcb : f.pcb.isSome = true)
    (hgiven : (f.recved + f.uplinkWithheldRecved + tot) % 2 ^ 32 = f.uplink.input.length % 2 ^ 32)
    (hopened : f.uplinkWithheld = false → f.uplinkWithheldRecved = 0) (hqueue : f.uplinkQ ≠ []) :
    GivenInv (uplinkWithhold f tot) ∧ Waits (uplinkWithhold f tot) := by
  have hcounted : (f.recved + (f.uplinkWithheldRecved + tot) % 2 ^ 32) % 2 ^ 32 = f.uplink.input.length % 2 ^ 32 := by
    rw [Nat.add_mod_mod, ← Nat.add_assoc]
    exact hgiven
  rw [uplinkWithhold]
  by_cases hwater : f.state = .active ∨ bpHighWater ≤ f.uplinkQueuedBytes
  · rw [if_pos hwater]
    dsimp only
    rw [if_pos rfl]
    exact ⟨⟨hpcb, hcounted, fun hopen => Bool.noConfusion hopen⟩, fun _ => hqueue⟩
  · rw [if_neg hwater]
    split
    · rename_i hwithheld
      exact ⟨⟨hpcb, hcounted, fun hopen => absurd (hwithheld.symm.trans hopen) Bool.noConfusion⟩, fun _ => hqueue⟩
    · refine ⟨⟨hpcb, ?_, hopened⟩, fun _ => hqueue⟩
      dsimp only
      rw [Nat.add_right_comm]
      exact hgiven

theorem GivenInv.deliver {f : Flow} {p : Pbuf} {answers : List SendAnswer} {alloc : Bool} (h : GivenInv f)
    (hwaits : Waits f)
    (hok : (uplinkDeliver { f with uplink := f.uplink.take p.bytes } p answers alloc).2 ≠ .relayError) :
    GivenInv (uplinkDeliver { f with uplink := f.uplink.take p.bytes } p answers alloc).1 ∧
      Waits (uplinkDeliver { f with uplink := f.uplink.take p.bytes } p answers alloc).1 := by
  obtain ⟨off, bytes, -, -, -, hend⟩ := uplinkDeliver_cases hok
  have hinput : ((f.uplink.take p.bytes).pass bytes).input.length = f.uplink.input.length + p.totLen :=
    List.length_append
  have hgiven := h.given
  rcases hend with ⟨-, heq⟩ | ⟨-, heq⟩
  · rw [heq]
    refine ⟨⟨h.pcb, ?_, h.opened⟩, hwaits⟩
    change (f.recved + p.totLen + f.uplinkWithheldRecved) % 2 ^ 32 = ((f.uplink.take p.bytes).pass bytes).input.length % 2 ^ 32
    omega
  · rw [heq]
    refine GivenInv.withhold h.pcb ?_ h.opened ?_
    · change (f.recved + f.uplinkWithheldRecved + p.totLen) % 2 ^ 32 =
        ((f.uplink.take p.bytes).pass bytes).input.length % 2 ^ 32
      omega
    · exact List.append_ne_nil_of_right_ne_nil _ (List.cons_ne_nil _ _)

theorem GivenInv.of_downlinkOnly {f f' : Flow} (h : GivenInv f) (hwaits : Waits f) (honly : DownlinkOnly f f') :
    GivenInv f' ∧ Waits f' := by
  rw [honly]
  exact ⟨⟨h.pcb, h.given, h.opened⟩, hwaits⟩

/-- A step after which the flow goes on. -/
theorem GivenInv.step {f : Flow} (h : GivenInv f) (hinv : UplinkInv f) (hwaits : Waits f)
    (hrelays : f.state = .active ∨ f.state = .pendingStream) {step : FlowStep}
    (hlive : (flowStep f step).2 = .live) : GivenInv (flowStep f step).1 ∧ Waits (flowStep f step).1 := by
  cases step with
  | recv p now answers alloc =>
    cases p with
    | none =>
      have hend : GivenInv { f with lastActivityUs := now, tcpFinSeen := true, uplink := f.uplink.sawEnd } :=
        ⟨h.pcb, h.given, h.opened⟩
      exact hend.flush ⟨hinv.sound.sawEnd, rfl, hinv.offset_lt, hinv.queued⟩ hwaits hlive
    | some p =>
      have hstate : ¬ (f.state ≠ .active ∧ f.state ≠ .pendingStream) := fun hne => hrelays.elim hne.1 hne.2
      have hstamp : GivenInv { f with lastActivityUs := now } := ⟨h.pcb, h.given, h.opened⟩
      rw [flowStep, onLwipRecv] at hlive ⊢
      dsimp only at hlive ⊢
      rw [if_neg hstate] at hlive ⊢
      refine hstamp.deliver hwaits ?_
      dsimp only
      rw [hlive]
      exact Outcome.noConfusion
  | established now answers =>
    have hactive : GivenInv { f with state := .active, lastActivityUs := now } := ⟨h.pcb, h.given, h.opened⟩
    exact hactive.flush ⟨hinv.sound, hinv.ended, hinv.offset_lt, hinv.queued⟩ hwaits hlive
  | writable answers => exact h.flush hinv hwaits hlive
  | body a => exact h.of_downlinkOnly hwaits (downlinkPump_only f a)
  | sent now a => exact h.of_downlinkOnly hwaits (onLwipSent_only f now a)
  | tick a => exact h.of_downlinkOnly hwaits (downlinkTick_only f a)

/-! ## What is given back stays so -/

theorem recved_le_flush (f : Flow) (answers : List SendAnswer) : f.recved ≤ (uplinkFlush f answers).1.recved := by
  rw [uplinkFlush]
  split
  · exact Nat.le_refl _
  · obtain ⟨q, n, u, honly⟩ := uplinkDrain_only f f.uplinkQ answers
    split
    · rename_i f' hdrain
      rw [hdrain] at honly
      dsimp only at honly
      rw [honly]
    · rename_i f' rest hdrain
      rw [hdrain] at honly
      dsimp only at honly
      have hfin : (uplinkMaybeFin f' rest).1.recved = f.recved := by
        rcases uplinkMaybeFin_cases f' rest with ⟨hsame, -⟩ | ⟨-, -, -, -, heq⟩
        · rw [hsame, honly]
        · rw [heq, honly]
      dsimp only
      split
      · rw [hfin]
      · rw [uplinkResume]
        split
        · dsimp only
          split
          · rw [hfin]
            exact Nat.le_add_right _ _
          · rw [hfin]
        · rw [hfin]

theorem recved_le_withhold (f : Flow) (tot : Nat) : f.recved ≤ (uplinkWithhold f tot).recved := by
  by_cases hwater : f.state = .active ∨ bpHighWater ≤ f.uplinkQueuedBytes
  · rw [uplinkWithhold, if_pos hwater, if_pos rfl]
  · rw [uplinkWithhold, if_neg hwater]
    split
    · exact Nat.le_refl _
    · exact Nat.le_add_right _ _

theorem recved_le_deliver (f : Flow) (p : Pbuf) (answers : List SendAnswer) (alloc : Bool) :
    f.recved ≤ (uplinkDeliver f p answers alloc).1.recved := by
  rw [uplinkDeliver]
  dsimp only
  split
  · exact Nat.le_refl _
  · rename_i off _
    split
    · exact Nat.le_add_right _ _
    · split
      · exact Nat.le_refl _
      · exact recved_le_withhold
          (uplinkStash { f with uplink := f.uplink.pass (uplinkSendNow f p answers).bytes } p off) p.totLen

theorem recved_le_step (f : Flow) (step : FlowStep) : f.recved ≤ (flowStep f step).1.recved := by
  have hdownlink {f' : Flow} (honly : DownlinkOnly f f') : f.recved ≤ f'.recved := by
    rw [honly]
  cases step with
  | recv p now answers alloc =>
    cases p with
    | none => exact recved_le_flush { f with lastActivityUs := now, tcpFinSeen := true, uplink := _ } answers
    | some p =>
      rw [flowStep, onLwipRecv]
      dsimp only
      split
      · exact Nat.le_refl _
      · exact recved_le_deliver { f with lastActivityUs := now, uplink := _ } p answers alloc
  | established now answers => exact recved_le_flush { f with state := .active, lastActivityUs := now } answers
  | writable answers => exact recved_le_flush _ _
  | body a => exact hdownlink (downlinkPump_only f a)
  | sent now a => exact hdownlink (onLwipSent_only f now a)
  | tick a => exact hdownlink (downlinkTick_only f a)

theorem recvedCalls_spec (s : Flow × Outcome) (steps : List FlowStep) :
    s.1.recved + (recvedCalls s steps).sum = (steps.foldl relayStep s).1.recved ∧
      ∀ call ∈ recvedCalls s steps, call ≤ 0xffff := by
  induction steps generalizing s with
  | nil => exact ⟨rfl, fun call hcall => absurd hcall List.not_mem_nil⟩
  | cons step steps ih =>
    have hle : s.1.recved ≤ (relayStep s step).1.recved := by
      rw [relayStep]
      split
      · exact recved_le_step _ _
      · exact Nat.le_refl _
    obtain ⟨hsum, hsmall⟩ := tcpLaneRecved_spec ((relayStep s step).1.recved - s.1.recved)
    obtain ⟨ihsum, ihsmall⟩ := ih (relayStep s step)
    rw [recvedCalls, List.foldl_cons, ← ihsum, List.sum_append, hsum]
    refine ⟨by omega, fun call hcall => ?_⟩
    rcases List.mem_append.1 hcall with hcall | hcall
    · exact hsmall call hcall
    · exact ihsmall call hcall

/-! ## Runs -/

/-- A flow that goes on accounts for its window. -/
def GivenOk (s : Flow × Outcome) : Prop := UplinkOk s ∧ (s.2 = .live → GivenInv s.1 ∧ Waits s.1)

theorem GivenOk.step {s : Flow × Outcome} (h : GivenOk s) (step : FlowStep) : GivenOk (relayStep s step) := by
  refine ⟨h.1.step step, ?_⟩
  rw [relayStep]
  split
  · rename_i hlive
    obtain ⟨hrelays, hinv⟩ := h.1 (by rw [hlive]; exact Outcome.noConfusion)
    obtain ⟨hgiven, hwaits⟩ := h.2 hlive
    exact hgiven.step hinv hwaits hrelays
  · exact h.2

/-- The window of a flow that goes on, with the calls that gave it back. -/
structure WindowExact (f : Flow) (calls : List Nat) : Prop where
  small : ∀ call ∈ calls, call ≤ 0xffff
  withheld : 0 < f.uplinkWithheldRecved → f.uplinkWithheld = true
  waits : f.uplinkWithheld = true → f.uplinkQ ≠ []
  given : (calls.sum + f.uplinkWithheldRecved) % 2 ^ 32 = f.uplink.input.length % 2 ^ 32

/-- In every run of a flow that goes on, what was given back and what is withheld is together
    what was delivered, as far as the counter can tell; and exactly so if the TCP stack
    delivers within its window. Then an empty queue means that all is given back. -/
theorem window_exact (key : Reorder.FlowKey) (synIsn : UInt32) (now pcb request stream : Nat)
    (steps : List FlowStep) :
    let f := acceptedFlow key synIsn now pcb request stream
    let s := relayRun f steps
    let calls := recvedCalls (f, .live) steps
    s.2 = .live →
      WindowExact s.1 calls ∧
      (Runs.Along relayStep WithinWindow (f, .live) steps →
        calls.sum + s.1.uplinkWithheldRecved = s.1.uplink.input.length ∧
        (s.1.uplinkQ = [] → calls.sum = s.1.uplink.input.length)) := by
  intro f s calls hlive
  have hok : s.2 ≠ .relayError := by
    rw [hlive]
    exact Outcome.noConfusion
  have hstart : UplinkOk (f, .live) :=
    fun _ => ⟨.inr rfl, Direction.Sound.initial, rfl, fun n hn => absurd hn List.not_mem_nil, rfl⟩
  obtain ⟨hsum, hsmall⟩ := recvedCalls_spec (f, .live) steps
  replace hsum : calls.sum = s.1.recved := (Nat.zero_add _).symm.trans hsum
  have hrun : GivenOk s :=
    List.foldlRecOn steps relayStep ⟨hstart, fun _ => ⟨⟨rfl, rfl, fun _ => rfl⟩, fun hw => Bool.noConfusion hw⟩⟩
      fun t (h : GivenOk t) step _ => h.step step
  obtain ⟨hgiven, hwaits⟩ := hrun.2 hlive
  refine ⟨⟨hsmall, fun hpos => ?_, hwaits, by rw [hsum]; exact hgiven.given⟩, fun hwindow => ?_⟩
  · by_contra hopen
    have := hgiven.opened (Bool.eq_false_iff.2 hopen)
    omega
  · have hstart' : WindowOk (f, .live) := ⟨hstart, fun _ => ⟨rfl, rfl, Nat.zero_le _, fun _ => rfl, Nat.zero_le _⟩⟩
    have hrun' : WindowOk s :=
      Runs.foldl_of_along (J := WindowOk) (fun _ _ h hfits => h.step hfits) hstart' hwindow
    have hexact := (hrun'.2 hok).given
    rw [hsum]
    refine ⟨hexact.symm, fun hempty => ?_⟩
    have hopen : s.1.uplinkWithheld = false := Bool.eq_false_iff.2 fun hw => hwaits hw hempty
    rw [hexact, hgiven.opened hopen, Nat.add_zero]

/-- The samples of the uplink: the three bytes are given back at once, as they arrive before
    the response. -/
theorem window_exact_sample :
    (recvedCalls (acceptedFlow sampleKey 7 0 1 2 3, .live) sampleSteps).sum =
      (relayRun (acceptedFlow sampleKey 7 0 1 2 3) sampleSteps).1.uplink.input.length := by
  have hlive : (relayRun (acceptedFlow sampleKey 7 0 1 2 3) sampleSteps).2 = .live := by decide +kernel
  have hwindow : Runs.Along relayStep WithinWindow (acceptedFlow sampleKey 7 0 1 2 3, .live) sampleSteps := by
    decide +kernel
  have hempty : (relayRun (acceptedFlow sampleKey 7 0 1 2 3) sampleSteps).1.uplinkQ = [] :=
    List.isEmpty_iff.1 (by decide +kernel)
  exact ((window_exact sampleKey 7 0 1 2 3 sampleSteps hlive).2 hwindow).2 hempty

end Mqvpn.Hybrid
