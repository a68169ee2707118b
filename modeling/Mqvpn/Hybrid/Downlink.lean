import Mqvpn.Hybrid.FlowFrame
import Mathlib.Data.List.Induction

/-!
# The downlink

Whatever the request has to read and however the TCP stack takes it: what was written,
followed by the stash, is what was read; a chunk is read only with an empty stash; and the
connection is shut down once, after every byte before the fin was written, also if the fin
came with a chunk that did not fit (`downlink_exact`).
-/

namespace Mqvpn.Hybrid

open Relay

/-- The stash and the history of the downlink fit. -/
structure DownlinkInv (f : Flow) : Prop where
  sound : f.downlink.Sound f.downlinkStash f.finReceivedFromH3
  ended : f.downlink.ended = f.h3Fin
  stash : f.downlinkPaused = false → f.downlinkStash = []
  reads : ∀ s ∈ f.stashAtReads, s = []

namespace DownlinkInv

variable {f : Flow}

/-- The fin was seen, and nothing is left to be written. -/
theorem maybeShutdown (h : DownlinkInv f) (hfin : f.h3Fin = true) (hstash : f.downlinkStash = []) (shutdown : Bool) :
    DownlinkInv (downlinkMaybeShutdown f shutdown).1 := by
  rw [downlinkMaybeShutdown]
  split
  · exact h
  · rename_i hfirst
    have hsound := h.sound
    rw [hstash, Bool.eq_false_iff.2 hfirst] at hsound
    have hclose : DownlinkInv { f with finReceivedFromH3 := true, downlink := f.downlink.close } := by
      refine ⟨?_, h.ended, h.stash, h.reads⟩
      change f.downlink.close.Sound f.downlinkStash true
      rw [hstash]
      exact hsound.close (h.ended.trans hfin)
    dsimp only
    split
    · exact hclose
    · split
      · exact hclose
      · exact hclose

/-- After a read the chunk is in hand. -/
theorem afterRead (h : DownlinkInv f) (hstash : f.downlinkStash = []) (chunk : List UInt8) (fin : Bool) :
    (Hybrid.afterRead f chunk fin).downlink.Sound chunk f.finReceivedFromH3 ∧
      (Hybrid.afterRead f chunk fin).downlink.ended = (f.h3Fin || fin) ∧
      ∀ s ∈ (Hybrid.afterRead f chunk fin).stashAtReads, s = [] := by
  have hsound := h.sound.take chunk
  rw [hstash, List.nil_append] at hsound
  refine ⟨?_, ?_, ?_⟩
  · rw [Hybrid.afterRead]
    dsimp only
    split
    · exact hsound.sawEnd
    · exact hsound
  · rw [Hybrid.afterRead]
    dsimp only
    split
    · rename_i hfin
      rw [hfin, Bool.or_true]
      rfl
    · rename_i hfin
      rw [Bool.eq_false_iff.2 hfin, Bool.or_false]
      exact h.ended
  · rw [Hybrid.afterRead]
    dsimp only
    split
    · exact h.reads
    · intro s hs
      rcases List.mem_append.1 hs with hs | hs
      · exact h.reads s hs
      · rw [List.mem_singleton.1 hs]
        exact hstash

/-- A read that brings nothing but the fin. -/
theorem afterRead_fin (h : DownlinkInv f) (hpaused : f.downlinkPaused = false) :
    DownlinkInv (Hybrid.afterRead f [] true) := by
  obtain ⟨hsound, hended, hreads⟩ := h.afterRead (h.stash hpaused) [] true
  refine ⟨?_, hended, h.stash, hreads⟩
  change (Hybrid.afterRead f [] true).downlink.Sound f.downlinkStash _
  rw [h.stash hpaused]
  exact hsound

/-- The drain writes each chunk before it reads the next one. -/
theorem drain (h : DownlinkInv f) (hpaused : f.downlinkPaused = false) {shutdown : Bool} {reads : List ReadAnswers}
    (hok : (downlinkDrain shutdown f reads).2 ≠ .relayError) : DownlinkInv (downlinkDrain shutdown f reads).1 := by
  induction reads generalizing f with
  | nil =>
    rw [downlinkDrain]
    split
    · exact (h.afterRead_fin hpaused).maybeShutdown (Bool.or_true _) (h.stash hpaused) shutdown
    · exact h
  | cons a as ih =>
    rw [downlinkDrain] at hok ⊢
    split at hok
    · exact h
    · exact absurd rfl hok
    · rename_i chunk fin _
      obtain ⟨hsound, hended, hreads⟩ := h.afterRead (h.stash hpaused) chunk fin
      -- a chunk that does not fit is kept, and its fin is left to be reported again
      have hkeep (hok : (downlinkStash (Hybrid.afterRead f chunk fin) chunk a.alloc).2 ≠ .relayError) :
          DownlinkInv (downlinkStash (Hybrid.afterRead f chunk fin) chunk a.alloc).1 := by
        rw [downlinkStash] at hok ⊢
        split
        · rename_i halloc
          rw [if_pos halloc] at hok
          exact absurd rfl hok
        · exact ⟨hsound, hended, fun hopen => Bool.noConfusion hopen, hreads⟩
      have hpass : DownlinkInv
          { Hybrid.afterRead f chunk fin with downlink := (Hybrid.afterRead f chunk fin).downlink.pass chunk } := by
        refine ⟨?_, hended, h.stash, hreads⟩
        change ((Hybrid.afterRead f chunk fin).downlink.pass chunk).Sound f.downlinkStash _
        rw [h.stash hpaused]
        refine Direction.Sound.pass ?_
        rw [List.append_nil]
        exact hsound
      dsimp only at hok ⊢
      split
      · rename_i hempty
        rw [if_pos hempty] at hok
        exact absurd rfl hok
      · rename_i hempty
        rw [if_neg hempty] at hok
        split
        · rename_i hnil
          have hfin : fin = true := by
            cases fin with
            | true => rfl
            | false => exact absurd ⟨hnil, rfl⟩ hempty
          subst hnil hfin
          exact (h.afterRead_fin hpaused).maybeShutdown (Bool.or_true _) (h.stash hpaused) shutdown
        · rename_i hdata
          rw [if_neg hdata] at hok
          split
          · rename_i hsndbuf
            rw [if_pos hsndbuf] at hok
            exact hkeep hok
          · rename_i hsndbuf
            rw [if_neg hsndbuf] at hok
            split at hok
            · exact hkeep hok
            · exact absurd rfl hok
            · split
              · rename_i hfin
                subst hfin
                exact hpass.maybeShutdown (Bool.or_true _) (h.stash hpaused) shutdown
              · rename_i hfin
                rw [if_neg hfin] at hok
                exact ih hpass hpaused hok

theorem stashRetry (h : DownlinkInv f) (a : DownlinkAnswers) : DownlinkInv (downlinkStashRetry f a).1 := by
  rw [downlinkStashRetry]
  split
  · exact h
  · split
    · exact h
    · exact h
    · refine ⟨?_, h.ended, fun _ => rfl, h.reads⟩
      refine Direction.Sound.pass ?_
      rw [List.append_nil]
      exact h.sound

theorem resume (h : DownlinkInv f) (hpaused : f.downlinkPaused = false) {a : DownlinkAnswers}
    (hok : (downlinkResume f a).2 ≠ .relayError) : DownlinkInv (downlinkResume f a).1 := by
  rw [downlinkResume] at hok ⊢
  split
  · exact h
  · rename_i hready
    rw [if_neg hready] at hok
    exact h.drain hpaused hok

theorem tick (h : DownlinkInv f) {a : DownlinkAnswers} (hok : (downlinkTick f a).2 ≠ .relayError) :
    DownlinkInv (downlinkTick f a).1 := by
  rw [downlinkTick] at hok ⊢
  split
  · exact h
  · rename_i hpaused
    rw [if_neg hpaused] at hok
    have hretry := h.stashRetry a
    dsimp only at hok ⊢
    split
    · exact hretry
    · rename_i hlive
      rw [if_neg hlive] at hok
      split
      · exact hretry
      · rename_i hflushed
        rw [if_neg hflushed] at hok
        exact hretry.resume (Bool.eq_false_iff.2 hflushed) hok

theorem pump (h : DownlinkInv f) {a : DownlinkAnswers} (hok : (downlinkPump f a).2 ≠ .relayError) :
    DownlinkInv (downlinkPump f a).1 := by
  rw [downlinkPump] at hok ⊢
  split
  · exact h
  · rename_i hclosing
    rw [if_neg hclosing] at hok
    split
    · rename_i hpaused
      rw [if_pos hpaused] at hok
      have hretry := h.stashRetry a
      dsimp only at hok ⊢
      split
      · exact hretry
      · rename_i hlive
        rw [if_neg hlive] at hok
        split
        · exact hretry
        · rename_i hflushed
          rw [if_neg hflushed] at hok
          exact hretry.resume (Bool.eq_false_iff.2 hflushed) hok
    · rename_i hpaused
      rw [if_neg hpaused] at hok
      exact h.resume (Bool.eq_false_iff.2 hpaused) hok

theorem sent (h : DownlinkInv f) {now : Nat} {a : DownlinkAnswers} (hok : (onLwipSent f now a).2 ≠ .relayError) :
    DownlinkInv (onLwipSent f now a).1 := by
  have hstamp : DownlinkInv { f with lastActivityUs := now } := ⟨h.sound, h.ended, h.stash, h.reads⟩
  rw [onLwipSent] at hok ⊢
  dsimp only at hok ⊢
  split
  · exact hstamp
  · rename_i hpaused
    rw [if_neg hpaused] at hok
    have hretry := hstamp.stashRetry a
    split
    · exact hretry
    · rename_i hlive
      rw [if_neg hlive] at hok
      split
      · exact hretry
      · rename_i hflushed
        rw [if_neg hflushed] at hok
        split
        · exact hretry
        · rename_i hstream
          rw [if_neg hstream] at hok
          exact hretry.pump hok

theorem of_uplinkOnly {f' : Flow} (h : DownlinkInv f) (honly : UplinkOnly f f') : DownlinkInv f' := by
  rw [honly]
  exact ⟨h.sound, h.ended, h.stash, h.reads⟩

/-- Every step of a flow keeps the history of the downlink, unless it fails. -/
theorem step (h : DownlinkInv f) {step : FlowStep} (hok : (flowStep f step).2 ≠ .relayError) :
    DownlinkInv (flowStep f step).1 := by
  cases step with
  | recv p now answers alloc => exact h.of_uplinkOnly (onLwipRecv_only f p now answers alloc)
  | established now answers =>
    have hactive : DownlinkInv { f with state := .active, lastActivityUs := now } :=
      ⟨h.sound, h.ended, h.stash, h.reads⟩
    exact hactive.of_uplinkOnly (uplinkFlush_only _ answers)
  | writable answers => exact h.of_uplinkOnly (uplinkFlush_only f answers)
  | body a => exact h.pump hok
  | sent now a => exact h.sent hok
  | tick a => exact h.tick hok

end DownlinkInv

/-- A flow that did not fail has a sound downlink. -/
def DownlinkOk (s : Flow × Outcome) : Prop := s.2 ≠ .relayError → DownlinkInv s.1

theorem DownlinkOk.step {s : Flow × Outcome} (h : DownlinkOk s) (step : FlowStep) : DownlinkOk (relayStep s step) := by
  rw [relayStep]
  split
  · rename_i hlive
    exact (h (hlive ▸ Outcome.noConfusion)).step
  · exact h

/-- The history of the downlink: what was written and the stash are what was read, each chunk
    was read with an empty stash, and the connection was shut down at most once, after the fin
    and all that was read. -/
structure DownlinkExact (f : Flow) : Prop where
  conserves : f.downlink.output ++ f.downlinkStash = f.downlink.input
  reads : ∀ s ∈ f.stashAtReads, s = []
  shutdown_once : f.downlink.closings.length ≤ 1
  shutdown_last : ∀ c ∈ f.downlink.closings, c.ended = true ∧ c.output = c.input

/-- In every run of a flow that has not failed the downlink is exact. -/
theorem downlink_exact (key : Reorder.FlowKey) (synIsn : UInt32) (now pcb request stream : Nat)
    (steps : List FlowStep) :
    let s := relayRun (acceptedFlow key synIsn now pcb request stream) steps
    s.2 ≠ .relayError → DownlinkExact s.1 := by
  intro s hok
  have hrun : DownlinkOk s :=
    List.foldlRecOn steps relayStep (fun _ => ⟨Direction.Sound.initial, rfl, fun _ => rfl,
      fun s hs => absurd hs List.not_mem_nil⟩) fun t (h : DownlinkOk t) step _ => h.step step
  have hinv := hrun hok
  exact ⟨hinv.sound.conserves, hinv.reads, hinv.sound.closings_le, hinv.sound.complete⟩

/-- The last chunk comes with the fin and does not fit; it is written on the next tick. -/
theorem downlink_exact_sample :
    DownlinkExact
        (relayRun (acceptedFlow sampleKey 7 0 1 2 3)
          [.established 1 [],
            .body ⟨0, .ok, [⟨.data [1, 2] false, 9, .ok, true⟩, ⟨.data [3] true, 0, .ok, true⟩], true⟩,
            .tick ⟨9, .ok, [], true⟩]).1 ∧
      (relayRun (acceptedFlow sampleKey 7 0 1 2 3)
          [.established 1 [],
            .body ⟨0, .ok, [⟨.data [1, 2] false, 9, .ok, true⟩, ⟨.data [3] true, 0, .ok, true⟩], true⟩,
            .tick ⟨9, .ok, [], true⟩]).1.downlink.output = [1, 2, 3] :=
  ⟨downlink_exact sampleKey 7 0 1 2 3 _ (by decide +kernel), by decide +kernel⟩

end Mqvpn.Hybrid
