import Mqvpn.Hybrid.Uplink
import Mqvpn.Hybrid.Downlink

/-!
# The client's end of a request

A flow of the TCP lane whose request is joined to the other end: its reads are those of the
stream (`FlowStep.fed`). In every step, also in one that fails, what the flow has passed on
is what it took in first, in both directions.
-/

namespace Mqvpn.Hybrid

open Relay Direction

/-! ## The uplink -/

/-- The bytes that were accepted are the next ones, also if a later call fails. -/
theorem uplinkSendFrom_isPrefix {p : Pbuf} {answers : List SendAnswer} {offset : Nat} (hoffset : offset ≤ p.totLen) :
    (uplinkSendFrom p offset answers).bytes <+: p.bytes.drop offset := by
  induction answers generalizing offset with
  | nil => exact List.nil_prefix
  | cons answer answers ih =>
    rw [uplinkSendFrom]
    split_ifs with hdone
    · exact List.nil_prefix
    · obtain ⟨hne, rest, hrest⟩ := p.offered_spec (Nat.lt_of_not_le hdone)
      dsimp only
      rw [if_neg hne]
      cases answer with
      | again => exact List.nil_prefix
      | err => exact List.nil_prefix
      | accept n =>
        have hlen : offset + (p.offered offset).length ≤ p.totLen := by
          have hle := congrArg List.length hrest
          rw [List.length_append, List.length_drop, ← Pbuf.totLen] at hle
          omega
        dsimp only
        split_ifs with hpartial
        · exact (List.take_prefix _ _).trans ⟨rest, hrest⟩
        · have htot := p.totLen_lt
          have hall : (offset + min n (p.offered offset).length) % 2 ^ 16 = offset + (p.offered offset).length := by
            rw [Nat.le_antisymm (Nat.min_le_right _ _) (Nat.le_of_not_lt hpartial)]
            exact Nat.mod_eq_of_lt (by omega)
          dsimp only
          rw [hall, ← hrest]
          refine (List.prefix_append_right_inj _).2 ?_
          have hnext := ih hlen
          rw [← List.drop_drop, ← hrest, List.drop_left] at hnext
          exact hnext

/-- The bytes of the queue that were accepted are the next ones of the queue. -/
theorem uplinkDrain_isPrefix (f : Flow) {q : List UplinkNode} (hoffset : ∀ n ∈ q, n.offset < n.p.totLen)
    (answers : List SendAnswer) :
    ∃ x, x <+: unsent q ∧ (uplinkDrain f q answers).1.uplink = f.uplink.pass x := by
  induction q generalizing f answers with
  | nil => exact ⟨[], List.prefix_rfl, by rw [uplinkDrain, Direction.pass, List.append_nil]⟩
  | cons n q ih =>
    have hn := hoffset n List.mem_cons_self
    have hfirst : (uplinkSendFrom n.p n.offset answers).bytes <+: unsent (n :: q) :=
      (uplinkSendFrom_isPrefix (Nat.le_of_lt hn)).trans (List.prefix_append _ _)
    rw [uplinkDrain]
    dsimp only
    split
    · exact ⟨_, hfirst, rfl⟩
    · rename_i off hoff
      split
      · exact ⟨_, hfirst, rfl⟩
      · rename_i hdone
        -- the whole delivery was accepted
        obtain ⟨-, hle, hbytes⟩ := uplinkSendFrom_spec (Nat.le_of_lt hn) hoff
        have hall : off = n.p.totLen := Nat.le_antisymm hle (Nat.le_of_not_lt hdone)
        rw [hall, Pbuf.totLen, List.drop_length, List.append_nil] at hbytes
        obtain ⟨x, hx, hpass⟩ := ih
          { f with
            uplink := f.uplink.pass (uplinkSendFrom n.p n.offset answers).bytes
            uplinkQueuedBytes := (f.uplinkQueuedBytes + 2 ^ 32 - (off - n.offset)) % 2 ^ 32 }
          (fun m hm => hoffset m (List.mem_cons_of_mem _ hm)) (uplinkSendFrom n.p n.offset answers).answers
        refine ⟨(uplinkSendFrom n.p n.offset answers).bytes ++ x, ?_, ?_⟩
        · rw [hbytes]
          exact (List.prefix_append_right_inj _).2 hx
        · rw [hpass, Direction.pass, Direction.pass, Direction.pass, List.append_assoc]

variable {f : Flow}

theorem UplinkInv.advances_maybeFin (h : UplinkInv f) (answers : List SendAnswer) :
    Advances f.uplink (uplinkMaybeFin f answers).1.uplink := by
  refine ⟨?_, (h.maybeFin answers).sound.faithful⟩
  rcases uplinkMaybeFin_cases f answers with ⟨hsame, -⟩ | ⟨-, -, -, -, heq⟩
  · rw [hsame]
    exact .refl _
  · rw [heq]
    exact .close _

theorem uplink_uplinkResume (f : Flow) : (uplinkResume f).uplink = f.uplink := by
  rw [uplinkResume]
  split <;> rfl

theorem UplinkInv.advances_flush (h : UplinkInv f) (answers : List SendAnswer) :
    Advances f.uplink (uplinkFlush f answers).1.uplink := by
  obtain ⟨x, hx, hpass⟩ := uplinkDrain_isPrefix f h.offset_lt answers
  have hdrained := h.sound.advances_pass hx
  rw [uplinkFlush]
  split
  · exact .refl h.sound.faithful
  · split
    · rename_i f' hdrain
      rw [hdrain] at hpass
      dsimp only at hpass ⊢
      rw [hpass]
      exact hdrained
    · rename_i f' rest hdrain
      rw [hdrain] at hpass
      dsimp only at hpass ⊢
      have hfin := (h.drain hdrain).advances_maybeFin rest
      rw [hpass] at hfin
      split
      · exact hdrained.trans hfin
      · rw [uplink_uplinkResume]
        exact hdrained.trans hfin

theorem uplink_uplinkWithhold (f : Flow) (tot : Nat) : (uplinkWithhold f tot).uplink = f.uplink := by
  rw [uplinkWithhold]
  split <;> split <;> rfl

theorem uplink_uplinkDeliver (f : Flow) (p : Pbuf) (answers : List SendAnswer) (alloc : Bool) :
    (uplinkDeliver f p answers alloc).1.uplink = f.uplink.pass (uplinkSendNow f p answers).bytes := by
  rw [uplinkDeliver]
  dsimp only
  split
  · rfl
  · split_ifs
    · rfl
    · rfl
    · rw [uplink_uplinkWithhold]
      rfl

/-- What is sent at once is the beginning of what waits. -/
theorem UplinkInv.advances_deliver (h : UplinkInv f) (p : Pbuf) (answers : List SendAnswer) (alloc : Bool) :
    Advances f.uplink (uplinkDeliver { f with uplink := f.uplink.take p.bytes } p answers alloc).1.uplink := by
  have htake : Grows f.uplink (f.uplink.take p.bytes) := .take _ _
  rw [uplink_uplinkDeliver]
  refine ⟨htake.trans (.pass _ _), ((h.sound.take p.bytes).advances_pass ?_).faithful⟩
  rw [uplinkSendNow]
  split_ifs with hfast
  · rw [List.isEmpty_iff.1 hfast.2.1]
    exact uplinkSendFrom_isPrefix (Nat.zero_le _)
  · exact List.nil_prefix

theorem UplinkInv.advances_recv (h : UplinkInv f) (p : Option Pbuf) (now : Nat) (answers : List SendAnswer)
    (alloc : Bool) : Advances f.uplink (onLwipRecv f p now answers alloc).1.uplink := by
  cases p with
  | none =>
    have hseen : UplinkInv
        { f with
          lastActivityUs := now
          tcpFinSeen := true
          uplink := f.uplink.sawEnd } := ⟨h.sound.sawEnd, rfl, h.offset_lt, h.queued⟩
    have hend : Advances f.uplink f.uplink.sawEnd := ⟨.sawEnd _, h.sound.faithful.sawEnd⟩
    exact hend.trans (hseen.advances_flush answers)
  | some p =>
    have hstamp : UplinkInv { f with lastActivityUs := now } := ⟨h.sound, h.ended, h.offset_lt, h.queued⟩
    rw [onLwipRecv]
    dsimp only
    split_ifs
    · exact ⟨.take _ _, h.sound.faithful.take _⟩
    · exact hstamp.advances_deliver p answers alloc

/-- The uplink advances in every step. -/
theorem UplinkInv.advances (h : UplinkInv f) (step : FlowStep) : Advances f.uplink (flowStep f step).1.uplink := by
  cases step with
  | recv p now answers alloc => exact h.advances_recv p now answers alloc
  | established now answers =>
    have hactive : UplinkInv { f with state := .active, lastActivityUs := now } :=
      ⟨h.sound, h.ended, h.offset_lt, h.queued⟩
    exact hactive.advances_flush answers
  | writable answers => exact h.advances_flush answers
  | body a =>
    rw [flowStep, (downlinkPump_only f a).uplink]
    exact .refl h.sound.faithful
  | sent now a =>
    rw [flowStep, (onLwipSent_only f now a).uplink]
    exact .refl h.sound.faithful
  | tick a =>
    rw [flowStep, (downlinkTick_only f a).uplink]
    exact .refl h.sound.faithful

/-! ## The downlink -/

/-- The reads of the answers are those of the stream of `d`. -/
def DownlinkAnswers.fed (d : Direction UInt8) (f : Flow) (a : DownlinkAnswers) : DownlinkAnswers :=
  { a with
    reads := feed ReadAnswers.recv (fun r recv => { r with recv }) tcpMss d.finished (inFlight d f.downlink) a.reads }

def FlowStep.fed (d : Direction UInt8) (f : Flow) : FlowStep → FlowStep
  | .body a => .body (a.fed d f)
  | .sent now a => .sent now (a.fed d f)
  | .tick a => .tick (a.fed d f)
  | .recv p now answers alloc => .recv p now answers alloc
  | .established now answers => .established now answers
  | .writable answers => .writable answers

/-- What the downlink does in a function: it reads on, and stays faithful. -/
structure Delivers (d : Direction UInt8) (f : Flow) : Prop where
  carried : Carried d f.downlink
  faithful : f.downlink.Faithful

variable {d : Direction UInt8}

theorem DownlinkInv.delivers_maybeShutdown (h : DownlinkInv f) (hcarried : Carried d f.downlink) (hfin : f.h3Fin = true)
    (hstash : f.downlinkStash = []) (shutdown : Bool) : Delivers d (downlinkMaybeShutdown f shutdown).1 := by
  refine ⟨?_, (h.maybeShutdown hfin hstash shutdown).sound.faithful⟩
  have hclose := hcarried.close (h.ended.trans hfin)
  rw [downlinkMaybeShutdown]
  split
  · exact hcarried
  · dsimp only
    split
    · exact hclose
    · split
      · exact hclose
      · exact hclose

theorem downlink_downlinkStash (f : Flow) (chunk : List UInt8) (alloc : Bool) :
    (downlinkStash f chunk alloc).1.downlink = f.downlink := by
  rw [downlinkStash]
  split_ifs
  · rfl
  · rfl

/-- The drain reads what is in flight. -/
theorem DownlinkInv.delivers_drain (h : DownlinkInv f) (hpaused : f.downlinkPaused = false) (hcarried : Carried d f.downlink)
    (shutdown : Bool) (reads : List ReadAnswers) :
    Delivers d (downlinkDrain shutdown f (feed ReadAnswers.recv (fun r recv => { r with recv }) tcpMss d.finished
      (inFlight d f.downlink) reads)).1 := by
  induction reads generalizing f with
  | nil =>
    rw [feed, downlinkDrain]
    split_ifs with hfin
    · have hall := hcarried.ended (h.ended.trans hfin)
      have htake : Carried d (f.downlink.take []) := hcarried.take List.nil_prefix
      have hread : Carried d (Hybrid.afterRead f [] true).downlink :=
        htake.sawEnd hall.1 ((List.append_nil f.downlink.input).trans hall.2)
      exact (h.afterRead_fin hpaused).delivers_maybeShutdown hread (Bool.or_true _) (h.stash hpaused) shutdown
    · exact ⟨hcarried, h.sound.faithful⟩
  | cons a as ih =>
    rw [feed, downlinkDrain]
    split
    · exact ⟨hcarried, h.sound.faithful⟩
    · exact ⟨hcarried, h.sound.faithful⟩
    · rename_i chunk fin hread
      obtain ⟨hread, hrest, -⟩ := carried_read hcarried h.ended hread
      obtain ⟨hsound, hended, hreads⟩ := h.afterRead (h.stash hpaused) chunk fin
      have hdelivers : Delivers d (Hybrid.afterRead f chunk fin) := ⟨hread, hsound.faithful⟩
      have hpass : DownlinkInv
          { Hybrid.afterRead f chunk fin with downlink := (Hybrid.afterRead f chunk fin).downlink.pass chunk } := by
        refine ⟨?_, hended, h.stash, hreads⟩
        change ((Hybrid.afterRead f chunk fin).downlink.pass chunk).Sound f.downlinkStash _
        rw [h.stash hpaused]
        refine Direction.Sound.pass ?_
        rw [List.append_nil]
        exact hsound
      have hcarriedPass : Carried d ((Hybrid.afterRead f chunk fin).downlink.pass chunk) := Carried.pass hread chunk
      -- a chunk that does not fit is kept
      have hkeep (alloc : Bool) : Delivers d (downlinkStash (Hybrid.afterRead f chunk fin) chunk alloc).1 := by
        constructor
        · rw [downlink_downlinkStash]
          exact hdelivers.carried
        · rw [downlink_downlinkStash]
          exact hdelivers.faithful
      dsimp only
      split
      · exact hdelivers
      · rename_i hempty
        split
        · rename_i hnil
          have hfin : fin = true := by
            cases fin with
            | true => rfl
            | false => exact absurd ⟨hnil, rfl⟩ hempty
          subst hnil hfin
          exact (h.afterRead_fin hpaused).delivers_maybeShutdown hread (Bool.or_true _) (h.stash hpaused) shutdown
        · split
          · exact hkeep _
          · split
            · exact hkeep _
            · exact hdelivers
            · split
              · rename_i hfin
                subst hfin
                exact hpass.delivers_maybeShutdown hcarriedPass (Bool.or_true _) (h.stash hpaused) shutdown
              · rw [hrest]
                exact ih hpass hpaused hcarriedPass

theorem DownlinkInv.delivers_retry (h : DownlinkInv f) (hcarried : Carried d f.downlink) (a : DownlinkAnswers) :
    Delivers d (downlinkStashRetry f a).1 := by
  refine ⟨?_, (h.stashRetry a).sound.faithful⟩
  rw [downlinkStashRetry]
  split
  · exact hcarried
  · split
    · exact hcarried
    · exact hcarried
    · exact hcarried.pass _

/-- A retry reads nothing. -/
theorem input_downlinkStashRetry (f : Flow) (a : DownlinkAnswers) :
    (downlinkStashRetry f a).1.downlink.input = f.downlink.input := by
  rw [downlinkStashRetry]
  split
  · rfl
  · split <;> rfl

/-- Later reads are fed the same after a function that reads nothing. -/
theorem DownlinkAnswers.fed_congr {f' : Flow} (h : f'.downlink.input = f.downlink.input) (a : DownlinkAnswers) :
    a.fed d f' = a.fed d f := by
  rw [DownlinkAnswers.fed, DownlinkAnswers.fed, inFlight, inFlight, h]

theorem DownlinkInv.delivers_resume (h : DownlinkInv f) (hpaused : f.downlinkPaused = false)
    (hcarried : Carried d f.downlink) (a : DownlinkAnswers) : Delivers d (downlinkResume f (a.fed d f)).1 := by
  rw [downlinkResume]
  split
  · exact ⟨hcarried, h.sound.faithful⟩
  · exact h.delivers_drain hpaused hcarried a.shutdown a.reads

/-- A function that retries the stash, and reads on if it could be written. -/
theorem DownlinkInv.delivers_retried (h : DownlinkInv f) (hcarried : Carried d f.downlink) (a : DownlinkAnswers)
    (next : Flow → Flow × Outcome)
    (hnext : ∀ g, DownlinkInv g → g.downlinkPaused = false → Carried d g.downlink →
      g.downlink.input = f.downlink.input → Delivers d (next g).1) :
    Delivers d (if (downlinkStashRetry f a).2 ≠ .live then downlinkStashRetry f a
      else if (downlinkStashRetry f a).1.downlinkPaused then ((downlinkStashRetry f a).1, .live)
      else next (downlinkStashRetry f a).1).1 := by
  have hretry := h.delivers_retry hcarried a
  split
  · exact hretry
  · split
    · exact hretry
    · rename_i hflushed
      exact hnext _ (h.stashRetry a) (Bool.eq_false_iff.2 hflushed) hretry.carried (input_downlinkStashRetry f a)

theorem DownlinkInv.delivers_tick (h : DownlinkInv f) (hcarried : Carried d f.downlink) (a : DownlinkAnswers) :
    Delivers d (downlinkTick f (a.fed d f)).1 := by
  rw [downlinkTick]
  split
  · exact ⟨hcarried, h.sound.faithful⟩
  · refine h.delivers_retried hcarried (a.fed d f) (fun g => downlinkResume g (a.fed d f)) fun g hg hpaused hc hin => ?_
    rw [← DownlinkAnswers.fed_congr hin]
    exact hg.delivers_resume hpaused hc a

theorem DownlinkInv.delivers_pump (h : DownlinkInv f) (hcarried : Carried d f.downlink) (a : DownlinkAnswers) :
    Delivers d (downlinkPump f (a.fed d f)).1 := by
  rw [downlinkPump]
  split
  · exact ⟨hcarried, h.sound.faithful⟩
  · split
    · refine h.delivers_retried hcarried (a.fed d f) (fun g => downlinkResume g (a.fed d f)) fun g hg hpaused hc hin => ?_
      rw [← DownlinkAnswers.fed_congr hin]
      exact hg.delivers_resume hpaused hc a
    · rename_i hpaused
      exact h.delivers_resume (Bool.eq_false_iff.2 hpaused) hcarried a

theorem DownlinkInv.delivers_sent (h : DownlinkInv f) (hcarried : Carried d f.downlink) (now : Nat) (a : DownlinkAnswers) :
    Delivers d (onLwipSent f now (a.fed d f)).1 := by
  have hstamp : DownlinkInv { f with lastActivityUs := now } := ⟨h.sound, h.ended, h.stash, h.reads⟩
  rw [onLwipSent]
  dsimp only
  split
  · exact ⟨hcarried, h.sound.faithful⟩
  · refine hstamp.delivers_retried hcarried (a.fed d f)
      (fun g => if g.stream = none then (g, .live) else downlinkPump g (a.fed d f)) fun g hg hpaused hc hin => ?_
    split
    · exact ⟨hc, hg.sound.faithful⟩
    · have hsame : a.fed d g = a.fed d f := DownlinkAnswers.fed_congr (f := { f with lastActivityUs := now }) hin a
      rw [← hsame]
      exact hg.delivers_pump hc a

/-- The downlink delivers what is in flight in every step. -/
theorem DownlinkInv.delivers (h : DownlinkInv f) (hcarried : Carried d f.downlink) (step : FlowStep) :
    Delivers d (flowStep f (step.fed d f)).1 := by
  have hsame {e g : Flow} (he : e.downlink = f.downlink) (hg : UplinkOnly e g) : Delivers d g := by
    have hdownlink : g.downlink = f.downlink := by rw [hg, he]
    exact ⟨hdownlink ▸ hcarried, hdownlink ▸ h.sound.faithful⟩
  cases step with
  | recv p now answers alloc => exact hsame rfl (onLwipRecv_only f p now answers alloc)
  | established now answers =>
    exact hsame (e := { f with state := .active, lastActivityUs := now }) rfl (uplinkFlush_only _ answers)
  | writable answers => exact hsame rfl (uplinkFlush_only f answers)
  | body a => exact h.delivers_pump hcarried a
  | sent now a => exact h.delivers_sent hcarried now a
  | tick a => exact h.delivers_tick hcarried a

end Mqvpn.Hybrid
