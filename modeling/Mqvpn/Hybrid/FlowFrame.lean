import Mqvpn.Hybrid.Flow

/-!
# What the functions of a flow leave alone

The functions of the uplink change nothing but the uplink, and those of the downlink nothing
but the downlink. In particular none of them changes the key, the connection, the request or
the stream of its flow, and none but `onStreamEstablished` its state; and a retry of the sweep
is no activity.
-/

namespace Mqvpn.Hybrid

/-- Nothing of the flow is changed but its uplink. -/
def UplinkOnly (f f' : Flow) : Prop :=
  f' = { f with
    lastActivityUs := f'.lastActivityUs
    tcpFinSeen := f'.tcpFinSeen
    uplinkQ := f'.uplinkQ
    uplinkQueuedBytes := f'.uplinkQueuedBytes
    uplinkWithheldRecved := f'.uplinkWithheldRecved
    uplinkWithheld := f'.uplinkWithheld
    finSentToH3 := f'.finSentToH3
    uplink := f'.uplink
    recved := f'.recved }

/-- Nothing of the flow is changed but its downlink. -/
def DownlinkOnly (f f' : Flow) : Prop :=
  f' = { f with
    lastActivityUs := f'.lastActivityUs
    downlinkPaused := f'.downlinkPaused
    finReceivedFromH3 := f'.finReceivedFromH3
    downlinkStash := f'.downlinkStash
    downlink := f'.downlink
    stashAtReads := f'.stashAtReads
    h3Fin := f'.h3Fin }

theorem UplinkOnly.trans {f f' f'' : Flow} (h : UplinkOnly f f') (h' : UplinkOnly f' f'') : UplinkOnly f f'' := by
  rw [UplinkOnly] at h'
  rw [h] at h'
  exact h'

theorem DownlinkOnly.trans {f f' f'' : Flow} (h : DownlinkOnly f f') (h' : DownlinkOnly f' f'') :
    DownlinkOnly f f'' := by
  rw [DownlinkOnly] at h'
  rw [h] at h'
  exact h'

theorem UplinkOnly.state {f f' : Flow} (h : UplinkOnly f f') : f'.state = f.state := by
  rw [h]

theorem DownlinkOnly.state {f f' : Flow} (h : DownlinkOnly f f') : f'.state = f.state := by
  rw [h]

theorem DownlinkOnly.uplink {f f' : Flow} (h : DownlinkOnly f f') : f'.uplink = f.uplink := by
  rw [h]

/-! ## The uplink -/

theorem uplinkDrain_only (f : Flow) (q : List UplinkNode) (answers : List SendAnswer) :
    ∃ q' n u, (uplinkDrain f q answers).1 = { f with uplinkQ := q', uplinkQueuedBytes := n, uplink := u } := by
  induction q generalizing f answers with
  | nil => exact ⟨_, _, _, rfl⟩
  | cons n q ih =>
    rw [uplinkDrain]
    dsimp only
    split
    · exact ⟨_, _, _, rfl⟩
    · split
      · exact ⟨_, _, _, rfl⟩
      · exact ih _ _

theorem uplinkMaybeFin_only (f : Flow) (answers : List SendAnswer) : UplinkOnly f (uplinkMaybeFin f answers).1 := by
  unfold uplinkMaybeFin
  split
  · rfl
  · split
    · rfl
    · rfl
    · rfl
    · dsimp only
      split <;> rfl

theorem uplinkResume_only (f : Flow) : UplinkOnly f (uplinkResume f) := by
  rw [uplinkResume]
  split <;> rfl

theorem uplinkFlush_only (f : Flow) (answers : List SendAnswer) : UplinkOnly f (uplinkFlush f answers).1 := by
  obtain ⟨q, n, u, honly⟩ := uplinkDrain_only f f.uplinkQ answers
  rw [uplinkFlush]
  split
  · rfl
  · split
    · rename_i heq
      rw [heq] at honly
      dsimp only at honly
      rw [honly]
      rfl
    · rename_i f' rest heq
      rw [heq] at honly
      have hdrain : UplinkOnly f f' := by
        dsimp only at honly
        rw [honly]
        rfl
      have hfin := hdrain.trans (uplinkMaybeFin_only f' rest)
      dsimp only
      split
      · exact hfin
      · exact hfin.trans (uplinkResume_only _)

theorem uplinkWithhold_only (f : Flow) (tot : Nat) : UplinkOnly f (uplinkWithhold f tot) := by
  rw [uplinkWithhold]
  split <;> split <;> rfl

theorem uplinkDeliver_only (f : Flow) (p : Pbuf) (answers : List SendAnswer) (alloc : Bool) :
    UplinkOnly f (uplinkDeliver f p answers alloc).1 := by
  rw [uplinkDeliver]
  dsimp only
  split
  · rfl
  · split
    · rfl
    · split
      · rfl
      · rename_i off _ _ _
        have hstash : UplinkOnly f
            (uplinkStash { f with uplink := f.uplink.pass (uplinkSendNow f p answers).bytes } p off) := rfl
        exact hstash.trans (uplinkWithhold_only _ _)

theorem onLwipRecv_only (f : Flow) (p : Option Pbuf) (now : Nat) (answers : List SendAnswer) (alloc : Bool) :
    UplinkOnly f (onLwipRecv f p now answers alloc).1 := by
  cases p with
  | none =>
    have hseen : UplinkOnly f
        { f with
          lastActivityUs := now
          tcpFinSeen := true
          uplink := f.uplink.sawEnd } := rfl
    exact hseen.trans (uplinkFlush_only _ _)
  | some p =>
    have htake : UplinkOnly f
        { f with
          lastActivityUs := now
          uplink := f.uplink.take p.bytes } := rfl
    rw [onLwipRecv]
    dsimp only
    split
    · exact htake
    · exact htake.trans (uplinkDeliver_only _ _ _ _)

/-! ## The downlink -/

theorem downlinkMaybeShutdown_only (f : Flow) (shutdown : Bool) :
    DownlinkOnly f (downlinkMaybeShutdown f shutdown).1 := by
  rw [downlinkMaybeShutdown]
  split
  · rfl
  · dsimp only
    split
    · rfl
    · split <;> rfl

theorem downlinkStash_only (f : Flow) (chunk : List UInt8) (alloc : Bool) :
    DownlinkOnly f (downlinkStash f chunk alloc).1 := by
  rw [downlinkStash]
  split <;> rfl

theorem downlinkDrain_only (shutdown : Bool) (f : Flow) (reads : List ReadAnswers) :
    DownlinkOnly f (downlinkDrain shutdown f reads).1 := by
  have hread (f : Flow) (chunk : List UInt8) (fin : Bool) : DownlinkOnly f (afterRead f chunk fin) := rfl
  induction reads generalizing f with
  | nil =>
    rw [downlinkDrain]
    split
    · exact (hread f [] true).trans (downlinkMaybeShutdown_only _ _)
    · rfl
  | cons a as ih =>
    rw [downlinkDrain]
    split
    · rfl
    · rfl
    · rename_i chunk fin _
      refine (hread f chunk fin).trans ?_
      dsimp only
      split
      · rfl
      · split
        · exact downlinkMaybeShutdown_only _ _
        · split
          · exact downlinkStash_only _ _ _
          · split
            · exact downlinkStash_only _ _ _
            · rfl
            · have hpass : DownlinkOnly (afterRead f chunk fin)
                  { afterRead f chunk fin with downlink := (afterRead f chunk fin).downlink.pass chunk } := rfl
              refine hpass.trans ?_
              split
              · exact downlinkMaybeShutdown_only _ _
              · exact ih _

theorem downlinkStashRetry_only (f : Flow) (a : DownlinkAnswers) : DownlinkOnly f (downlinkStashRetry f a).1 := by
  rw [downlinkStashRetry]
  split
  · rfl
  · split <;> rfl

theorem downlinkResume_only (f : Flow) (a : DownlinkAnswers) : DownlinkOnly f (downlinkResume f a).1 := by
  rw [downlinkResume]
  split
  · rfl
  · exact downlinkDrain_only _ _ _

theorem downlinkTick_only (f : Flow) (a : DownlinkAnswers) : DownlinkOnly f (downlinkTick f a).1 := by
  rw [downlinkTick]
  split
  · rfl
  · have hretry := downlinkStashRetry_only f a
    dsimp only
    split
    · exact hretry
    · split
      · exact hretry
      · exact hretry.trans (downlinkResume_only _ _)

theorem downlinkPump_only (f : Flow) (a : DownlinkAnswers) : DownlinkOnly f (downlinkPump f a).1 := by
  rw [downlinkPump]
  split
  · rfl
  · split
    · have hretry := downlinkStashRetry_only f a
      dsimp only
      split
      · exact hretry
      · split
        · exact hretry
        · exact hretry.trans (downlinkResume_only _ _)
    · exact downlinkResume_only f a

theorem onLwipSent_only (f : Flow) (now : Nat) (a : DownlinkAnswers) : DownlinkOnly f (onLwipSent f now a).1 := by
  rw [onLwipSent]
  have hstamp : DownlinkOnly f { f with lastActivityUs := now } := rfl
  refine hstamp.trans ?_
  dsimp only
  split
  · rfl
  · have hretry := downlinkStashRetry_only { f with lastActivityUs := now } a
    split
    · exact hretry
    · split
      · exact hretry
      · split
        · exact hretry
        · exact hretry.trans (downlinkPump_only _ _)

/-! ## The last activity -/

theorem downlinkMaybeShutdown_stamp (f : Flow) (shutdown : Bool) :
    (downlinkMaybeShutdown f shutdown).1.lastActivityUs = f.lastActivityUs := by
  rw [downlinkMaybeShutdown]
  split
  · rfl
  · dsimp only
    split
    · rfl
    · split <;> rfl

theorem downlinkStash_stamp (f : Flow) (chunk : List UInt8) (alloc : Bool) :
    (downlinkStash f chunk alloc).1.lastActivityUs = f.lastActivityUs := by
  rw [downlinkStash]
  split <;> rfl

theorem downlinkDrain_stamp (shutdown : Bool) (f : Flow) (reads : List ReadAnswers) :
    (downlinkDrain shutdown f reads).1.lastActivityUs = f.lastActivityUs := by
  induction reads generalizing f with
  | nil =>
    rw [downlinkDrain]
    split
    · exact downlinkMaybeShutdown_stamp _ _
    · rfl
  | cons a as ih =>
    rw [downlinkDrain]
    split
    · rfl
    · rfl
    · rename_i chunk fin _
      have hread : (afterRead f chunk fin).lastActivityUs = f.lastActivityUs := rfl
      rw [← hread]
      dsimp only
      split
      · rfl
      · split
        · exact downlinkMaybeShutdown_stamp _ _
        · split
          · exact downlinkStash_stamp _ _ _
          · split
            · exact downlinkStash_stamp _ _ _
            · rfl
            · split
              · exact downlinkMaybeShutdown_stamp _ _
              · exact ih _

theorem downlinkStashRetry_stamp (f : Flow) (a : DownlinkAnswers) :
    (downlinkStashRetry f a).1.lastActivityUs = f.lastActivityUs := by
  rw [downlinkStashRetry]
  split
  · rfl
  · split <;> rfl

/-- A retry is no activity of its flow. -/
theorem downlinkTick_stamp (f : Flow) (a : DownlinkAnswers) :
    (downlinkTick f a).1.lastActivityUs = f.lastActivityUs := by
  rw [downlinkTick]
  split
  · rfl
  · have hretry := downlinkStashRetry_stamp f a
    dsimp only
    split
    · exact hretry
    · split
      · exact hretry
      · rw [downlinkResume, ← hretry]
        split
        · rfl
        · exact downlinkDrain_stamp _ _ _

end Mqvpn.Hybrid
