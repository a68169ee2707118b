import Mqvpn.Hybrid.FlowFrame
import Mqvpn.Lib.Runs

/-!
# The uplink

Whatever is delivered, whatever the request accepts and whenever it is writable: what the
request has accepted, followed by what waits in the queue, is what the TCP stack has
delivered; before the response nothing is sent; and the FIN is accepted once, after all the
rest (`uplink_exact`). The count of the bytes in the queue does not wrap, as the TCP stack
delivers no more than its window.
-/

namespace Mqvpn.Hybrid

open Relay

/-! ## Buffers -/

theorem Pbuf.totLen_lt (p : Pbuf) : p.totLen < 2 ^ 16 := Nat.lt_succ_of_le p.totLen_le

/-- What is offered is the next part of the buffer. -/
theorem Pbuf.offered_spec (p : Pbuf) {offset : Nat} (h : offset < p.totLen) :
    p.offered offset ≠ [] ∧ ∃ rest, p.offered offset ++ rest = p.bytes.drop offset := by
  have hpos : 0 < (p.bytes.drop offset).length := by
    rw [List.length_drop]
    exact Nat.sub_pos_of_lt h
  rw [Pbuf.offered]
  split
  · rename_i payload hpayloads
    have hbytes : p.bytes = payload := by rw [Pbuf.bytes, hpayloads, List.flatten_singleton]
    rw [← hbytes]
    exact ⟨List.length_pos_iff.1 hpos, [], List.append_nil _⟩
  · refine ⟨?_, _, List.take_append_drop _ _⟩
    rw [← List.length_pos_iff, Pbuf.copyPartial, List.length_take]
    have hmss : 0 < tcpMss := by decide
    omega

/-! ## Sending -/

/-- The bytes that are sent are those up to the offset that is returned. -/
theorem uplinkSendFrom_spec {p : Pbuf} {answers : List SendAnswer} {offset off : Nat} (hoffset : offset ≤ p.totLen)
    (h : (uplinkSendFrom p offset answers).offset = some off) :
    offset ≤ off ∧ off ≤ p.totLen ∧
      (uplinkSendFrom p offset answers).bytes ++ p.bytes.drop off = p.bytes.drop offset := by
  induction answers generalizing offset with
  | nil =>
    cases h
    exact ⟨Nat.le_refl _, hoffset, rfl⟩
  | cons answer answers ih =>
    rw [uplinkSendFrom] at h ⊢
    split
    · rename_i hdone
      rw [if_pos hdone] at h
      cases h
      exact ⟨Nat.le_refl _, hoffset, rfl⟩
    · rename_i hdone
      rw [if_neg hdone] at h
      obtain ⟨hne, rest, hrest⟩ := p.offered_spec (Nat.lt_of_not_le hdone)
      dsimp only at h ⊢
      rw [if_neg hne] at h ⊢
      cases answer with
      | again =>
        cases h
        exact ⟨Nat.le_refl _, hoffset, rfl⟩
      | err => cases h
      | accept n =>
        have hlen : offset + (p.offered offset).length ≤ p.totLen := by
          have hle := congrArg List.length hrest
          rw [List.length_append, List.length_drop, ← Pbuf.totLen] at hle
          omega
        have htot := p.totLen_lt
        have hmod : (offset + min n (p.offered offset).length) % 2 ^ 16 = offset + min n (p.offered offset).length :=
          Nat.mod_eq_of_lt (by omega)
        have hdrop (k : Nat) (hk : k ≤ (p.offered offset).length) :
            p.bytes.drop (offset + k) = (p.offered offset).drop k ++ rest := by
          rw [← List.drop_drop, ← hrest, List.drop_append_of_le_length hk]
        dsimp only at h ⊢
        rw [hmod] at h ⊢
        split
        · rename_i hpartial
          rw [if_pos hpartial] at h
          cases h
          refine ⟨Nat.le_add_right _ _, by omega, ?_⟩
          rw [hdrop _ (Nat.min_le_right _ _), ← List.append_assoc, List.take_append_drop, hrest]
        · rename_i hpartial
          rw [if_neg hpartial] at h
          have hall : min n (p.offered offset).length = (p.offered offset).length :=
            Nat.le_antisymm (Nat.min_le_right _ _) (Nat.le_of_not_lt hpartial)
          rw [hall] at h ⊢
          obtain ⟨hle, htotal, hbytes⟩ := ih hlen h
          refine ⟨by omega, htotal, ?_⟩
          rw [List.append_assoc, hbytes, hdrop _ (Nat.le_refl _), List.drop_length, List.nil_append, hrest]

/-! ## The queue -/

/-- What the queue holds. -/
def unsent (q : List UplinkNode) : List UInt8 := (q.map UplinkNode.rest).flatten

/-- The total of `tot_len - offset` over the queue. -/
def queueTotal (q : List UplinkNode) : Nat := (q.map fun n => n.p.totLen - n.offset).sum

theorem unsent_append (q : List UplinkNode) (n : UplinkNode) : unsent (q ++ [n]) = unsent q ++ n.rest := by
  rw [unsent, List.map_append, List.flatten_append, List.map_singleton, List.flatten_singleton, ← unsent]

theorem queueTotal_cons (n : UplinkNode) (q : List UplinkNode) :
    queueTotal (n :: q) = (n.p.totLen - n.offset) + queueTotal q := by
  rw [queueTotal, List.map_cons, List.sum_cons, ← queueTotal]

theorem queueTotal_append (q : List UplinkNode) (n : UplinkNode) :
    queueTotal (q ++ [n]) = queueTotal q + (n.p.totLen - n.offset) := by
  rw [queueTotal, List.map_append, List.sum_append, List.map_singleton, List.sum_singleton, ← queueTotal]

/-- The queue, the counter and the history of the uplink fit. -/
structure UplinkInv (f : Flow) : Prop where
  sound : f.uplink.Sound (unsent f.uplinkQ) f.finSentToH3
  ended : f.uplink.ended = f.tcpFinSeen
  offset_lt : ∀ n ∈ f.uplinkQ, n.offset < n.p.totLen
  queued : f.uplinkQueuedBytes = queueTotal f.uplinkQ % 2 ^ 32

/-! ## The functions -/

/-- What the drain sends is gone from the queue. -/
theorem uplinkDrain_spec {f f' : Flow} {q : List UplinkNode} {answers rest : List SendAnswer} {closed : Bool}
    (h : uplinkDrain f q answers = (f', some rest)) (hsound : f.uplink.Sound (unsent q) closed)
    (hoffset : ∀ n ∈ q, n.offset < n.p.totLen) (hqueued : f.uplinkQueuedBytes = queueTotal q % 2 ^ 32) :
    (f'.uplink.Sound (unsent f'.uplinkQ) closed ∧ (∀ n ∈ f'.uplinkQ, n.offset < n.p.totLen) ∧
      f'.uplinkQueuedBytes = queueTotal f'.uplinkQ % 2 ^ 32) ∧
    queueTotal f'.uplinkQ ≤ queueTotal q ∧ f'.uplink.input = f.uplink.input ∧ f'.uplink.ended = f.uplink.ended := by
  induction q generalizing f answers with
  | nil =>
    cases h
    exact ⟨⟨hsound, hoffset, hqueued⟩, Nat.le_refl _, rfl, rfl⟩
  | cons n q ih =>
    have hn := hoffset n List.mem_cons_self
    rw [uplinkDrain] at h
    dsimp only at h
    split at h
    · cases h
    · rename_i off hoff
      obtain ⟨hle, htotal, hbytes⟩ := uplinkSendFrom_spec (Nat.le_of_lt hn) hoff
      have hpass {rest : List UInt8} (hrest : rest = n.p.bytes.drop off ++ unsent q) :
          (f.uplink.pass (uplinkSendFrom n.p n.offset answers).bytes).Sound rest closed := by
        refine Direction.Sound.pass ?_
        rw [hrest, ← List.append_assoc, hbytes]
        exact hsound
      -- the counter goes down by what was sent
      have hcount {total : Nat} (htotal : total + (off - n.offset) = queueTotal (n :: q)) :
          (f.uplinkQueuedBytes + 2 ^ 32 - (off - n.offset)) % 2 ^ 32 = total % 2 ^ 32 := by
        have htot := n.p.totLen_lt
        rw [hqueued, ← htotal]
        omega
      rw [queueTotal_cons] at hcount ⊢
      split at h
      · rename_i hpartial
        cases h
        refine ⟨⟨hpass rfl, ?_, hcount ?_⟩, ?_, rfl, rfl⟩
        · intro m hm
          rcases List.mem_cons.1 hm with rfl | hm
          · exact hpartial
          · exact hoffset m (List.mem_cons_of_mem _ hm)
        · rw [queueTotal_cons]
          dsimp only
          omega
        · rw [queueTotal_cons]
          dsimp only
          omega
      · rename_i hdone
        have hall : off = n.p.totLen := Nat.le_antisymm htotal (Nat.le_of_not_lt hdone)
        have hnil : unsent q = n.p.bytes.drop off ++ unsent q := by
          rw [hall, Pbuf.totLen, List.drop_length, List.nil_append]
        obtain ⟨hinv, hless, hinput, hended⟩ := ih h (hpass hnil) (fun m hm => hoffset m (List.mem_cons_of_mem _ hm))
          (hcount (by omega))
        exact ⟨hinv, by omega, hinput, hended⟩

/-- The FIN is sent, or the flow stays as it is. -/
theorem uplinkMaybeFin_cases (f : Flow) (answers : List SendAnswer) :
    (uplinkMaybeFin f answers).1 = f ∧ (uplinkMaybeFin f answers).2 ≠ .cleanClose ∨
      f.state = .active ∧ f.tcpFinSeen = true ∧ f.finSentToH3 = false ∧ f.uplinkQ = [] ∧
        uplinkMaybeFin f answers =
          ({ f with finSentToH3 := true, uplink := f.uplink.close },
            if f.finReceivedFromH3 then .cleanClose else .live) := by
  unfold uplinkMaybeFin
  split
  · exact .inl ⟨rfl, Outcome.noConfusion⟩
  · rename_i hready
    simp only [ne_eq, not_or, Decidable.not_not, Bool.not_eq_true', Bool.not_eq_false, Bool.not_eq_true,
      List.isEmpty_iff] at hready
    obtain ⟨hactive, -, hseen, hsent, hempty⟩ := hready
    split
    · exact .inl ⟨rfl, Outcome.noConfusion⟩
    · exact .inl ⟨rfl, Outcome.noConfusion⟩
    · exact .inl ⟨rfl, Outcome.noConfusion⟩
    · refine .inr ⟨hactive, hseen, hsent, hempty, ?_⟩
      dsimp only
      split
      · rfl
      · rfl

theorem UplinkInv.maybeFin {f : Flow} (h : UplinkInv f) (answers : List SendAnswer) :
    UplinkInv (uplinkMaybeFin f answers).1 := by
  rcases uplinkMaybeFin_cases f answers with ⟨hsame, -⟩ | ⟨-, hseen, hsent, hempty, heq⟩
  · rw [hsame]
    exact h
  · rw [heq]
    have hsound := h.sound
    rw [hempty, hsent] at hsound
    refine ⟨?_, h.ended, h.offset_lt, h.queued⟩
    change f.uplink.close.Sound (unsent f.uplinkQ) true
    rw [hempty]
    exact hsound.close (h.ended.trans hseen)

theorem UplinkInv.resume {f : Flow} (h : UplinkInv f) : UplinkInv (uplinkResume f) := by
  rw [uplinkResume]
  split
  · exact ⟨h.sound, h.ended, h.offset_lt, h.queued⟩
  · exact h

/-- A flush that does not fail has drained the queue as far as it went, has perhaps sent the
    FIN, and has perhaps opened the window. -/
theorem uplinkFlush_cases {f : Flow} {answers : List SendAnswer} (hok : (uplinkFlush f answers).2 ≠ .relayError) :
    uplinkFlush f answers = (f, .live) ∨
      f.state = .active ∧ ∃ f' rest, uplinkDrain f f.uplinkQ answers = (f', some rest) ∧
        ((uplinkMaybeFin f' rest).2 = .live ∧ uplinkFlush f answers = (uplinkResume (uplinkMaybeFin f' rest).1, .live) ∨
          (uplinkMaybeFin f' rest).2 = .cleanClose ∧ uplinkFlush f answers = uplinkMaybeFin f' rest) := by
  rw [uplinkFlush] at hok ⊢
  split
  · exact .inl rfl
  · rename_i hactive
    rw [if_neg hactive] at hok
    simp only [ne_eq, not_or, Decidable.not_not] at hactive
    refine .inr ⟨hactive.1, ?_⟩
    split
    · rename_i f' hdrain
      rw [hdrain] at hok
      exact absurd rfl hok
    · rename_i f' rest hdrain
      rw [hdrain] at hok
      dsimp only at hok ⊢
      refine ⟨f', rest, hdrain, ?_⟩
      split
      · rename_i hout
        rw [if_pos hout] at hok
        refine .inr ⟨?_, rfl⟩
        cases hr : (uplinkMaybeFin f' rest).2 with
        | live => exact absurd hr hout
        | relayError => exact absurd hr hok
        | cleanClose => rfl
      · rename_i hout
        exact .inl ⟨Decidable.not_not.1 hout, rfl⟩

theorem UplinkInv.drain {f f' : Flow} {answers rest : List SendAnswer} (h : UplinkInv f)
    (hdrain : uplinkDrain f f.uplinkQ answers = (f', some rest)) : UplinkInv f' := by
  obtain ⟨q, n, u, honly⟩ := uplinkDrain_only f f.uplinkQ answers
  obtain ⟨⟨hsound, hoffset, hqueued⟩, -, -, hended⟩ := uplinkDrain_spec hdrain h.sound h.offset_lt h.queued
  rw [hdrain] at honly
  dsimp only at honly
  subst honly
  exact ⟨hsound, hended.trans h.ended, hoffset, hqueued⟩

theorem UplinkInv.flush {f : Flow} (h : UplinkInv f) {answers : List SendAnswer}
    (hok : (uplinkFlush f answers).2 ≠ .relayError) : UplinkInv (uplinkFlush f answers).1 := by
  rcases uplinkFlush_cases hok with heq | ⟨-, f', rest, hdrain, hfin⟩
  · rw [heq]
    exact h
  · rcases hfin with ⟨-, heq⟩ | ⟨-, heq⟩
    · rw [heq]
      exact ((h.drain hdrain).maybeFin rest).resume
    · rw [heq]
      exact (h.drain hdrain).maybeFin rest

/-- Only an active flow with an empty queue sends at once. -/
theorem uplinkSendNow_spec {f : Flow} {p : Pbuf} {answers : List SendAnswer} {off : Nat}
    (h : (uplinkSendNow f p answers).offset = some off) :
    off ≤ p.totLen ∧ (uplinkSendNow f p answers).bytes ++ p.bytes.drop off = p.bytes ∧
      ((uplinkSendNow f p answers).bytes = [] ∨ f.state = .active ∧ f.uplinkQ = []) := by
  rw [uplinkSendNow] at h ⊢
  split
  · rename_i hfast
    rw [if_pos hfast] at h
    obtain ⟨-, hle, hbytes⟩ := uplinkSendFrom_spec (Nat.zero_le _) h
    exact ⟨hle, hbytes, .inr ⟨hfast.1, List.isEmpty_iff.1 hfast.2.1⟩⟩
  · rename_i hslow
    rw [if_neg hslow] at h
    cases h
    exact ⟨Nat.zero_le _, rfl, .inl rfl⟩

/-- A delivery that does not fail is sent up to some offset, and the rest waits in the queue. -/
theorem uplinkDeliver_cases {f : Flow} {p : Pbuf} {answers : List SendAnswer} {alloc : Bool}
    (hok : (uplinkDeliver f p answers alloc).2 ≠ .relayError) :
    ∃ off bytes, off ≤ p.totLen ∧ bytes ++ p.bytes.drop off = p.bytes ∧
      (bytes = [] ∨ f.state = .active ∧ f.uplinkQ = []) ∧
      (off = p.totLen ∧
          uplinkDeliver f p answers alloc =
            ({ f with uplink := f.uplink.pass bytes, recved := f.recved + p.totLen }, .live) ∨
        off < p.totLen ∧
          uplinkDeliver f p answers alloc =
            (uplinkWithhold (uplinkStash { f with uplink := f.uplink.pass bytes } p off) p.totLen, .live)) := by
  rw [uplinkDeliver] at hok ⊢
  dsimp only at hok ⊢
  split at hok
  · exact absurd rfl hok
  · rename_i off hoff
    obtain ⟨hle, hbytes, hfifo⟩ := uplinkSendNow_spec hoff
    refine ⟨off, _, hle, hbytes, hfifo, ?_⟩
    split
    · rename_i hall
      exact .inl ⟨hall, rfl⟩
    · rename_i hpart
      rw [if_neg hpart] at hok
      split
      · rename_i halloc
        rw [if_pos halloc] at hok
        exact absurd rfl hok
      · exact .inr ⟨Nat.lt_of_le_of_ne hle hpart, rfl⟩

/-- The window does not matter to the queue. -/
theorem UplinkInv.withhold {f : Flow} (h : UplinkInv f) (tot : Nat) : UplinkInv (uplinkWithhold f tot) := by
  rw [uplinkWithhold]
  split <;> split <;> exact ⟨h.sound, h.ended, h.offset_lt, h.queued⟩

theorem UplinkInv.deliver {f : Flow} {p : Pbuf} {answers : List SendAnswer} {alloc : Bool} (h : UplinkInv f)
    (hok : (uplinkDeliver { f with uplink := f.uplink.take p.bytes } p answers alloc).2 ≠ .relayError) :
    UplinkInv (uplinkDeliver { f with uplink := f.uplink.take p.bytes } p answers alloc).1 := by
  obtain ⟨off, bytes, hle, hbytes, hfifo, hend⟩ := uplinkDeliver_cases hok
  -- what is sent at once overtakes nothing
  have hsound : ((f.uplink.take p.bytes).pass bytes).Sound (unsent f.uplinkQ ++ p.bytes.drop off) f.finSentToH3 := by
    refine Direction.Sound.pass ?_
    have htake := h.sound.take p.bytes
    rcases hfifo with hnil | ⟨-, hempty⟩
    · rw [hnil] at hbytes ⊢
      rw [List.nil_append] at hbytes ⊢
      rw [hbytes]
      exact htake
    · change f.uplinkQ = [] at hempty
      rw [hempty] at htake ⊢
      change (f.uplink.take p.bytes).Sound (bytes ++ p.bytes.drop off) _
      rw [hbytes]
      exact htake
  rcases hend with ⟨hall, heq⟩ | ⟨hpart, heq⟩
  · rw [heq]
    rw [hall, Pbuf.totLen, List.drop_length, List.append_nil] at hsound
    exact ⟨hsound, h.ended, h.offset_lt, h.queued⟩
  · rw [heq]
    refine UplinkInv.withhold ?_ _
    refine ⟨?_, h.ended, ?_, ?_⟩
    · change Direction.Sound _ (unsent (f.uplinkQ ++ [{ p, offset := off }])) _
      rw [unsent_append]
      exact hsound
    · intro n hn
      rcases List.mem_append.1 hn with hn | hn
      · exact h.offset_lt n hn
      · rw [List.mem_singleton.1 hn]
        exact hpart
    · change (f.uplinkQueuedBytes + (p.totLen - off)) % 2 ^ 32 = queueTotal (f.uplinkQ ++ [{ p, offset := off }]) % 2 ^ 32
      rw [queueTotal_append, h.queued, Nat.mod_add_mod]

/-! ## The window -/

/-- What was delivered and not given back is withheld, and covers the queue but for the bytes
    that may wait for a response. -/
structure WindowInv (f : Flow) : Prop where
  pcb : f.pcb.isSome = true
  given : f.uplink.input.length = f.recved + f.uplinkWithheldRecved
  waiting : queueTotal f.uplinkQ ≤ f.uplinkWithheldRecved + bpHighWater
  opened : f.uplinkWithheld = false → f.uplinkWithheldRecved = 0
  withheld_le : f.uplinkWithheldRecved ≤ tcpWnd

/-- Within the window the counter does not wrap. -/
theorem UplinkInv.queued_eq {f : Flow} (h : UplinkInv f) (hwaiting : queueTotal f.uplinkQ < 2 ^ 32) :
    f.uplinkQueuedBytes = queueTotal f.uplinkQ := by
  rw [h.queued, Nat.mod_eq_of_lt hwaiting]

theorem WindowInv.queueTotal_lt {f : Flow} (h : WindowInv f) : queueTotal f.uplinkQ < 2 ^ 32 := by
  have hwaiting := h.waiting
  have hwithheld := h.withheld_le
  have hbound : tcpWnd + bpHighWater < 2 ^ 32 := by decide
  omega

theorem WindowInv.maybeFin {f : Flow} (h : WindowInv f) (answers : List SendAnswer) :
    WindowInv (uplinkMaybeFin f answers).1 := by
  rcases uplinkMaybeFin_cases f answers with ⟨hsame, -⟩ | ⟨-, -, -, -, heq⟩
  · rw [hsame]
    exact h
  · rw [heq]
    exact ⟨h.pcb, h.given, h.waiting, h.opened, h.withheld_le⟩

theorem WindowInv.resume {f : Flow} (h : WindowInv f) (hinv : UplinkInv f) : WindowInv (uplinkResume f) := by
  rw [uplinkResume]
  split
  · rename_i hlow
    have hqueued := hinv.queued_eq h.queueTotal_lt
    have hwater : bpLowWater ≤ bpHighWater := by decide
    have hgiven := h.given
    refine ⟨h.pcb, ?_, ?_, fun _ => rfl, Nat.zero_le _⟩
    · dsimp only
      rw [if_pos h.pcb]
      omega
    · change queueTotal f.uplinkQ ≤ 0 + bpHighWater
      omega
  · exact h

theorem WindowInv.drain {f f' : Flow} {answers rest : List SendAnswer} (h : WindowInv f) (hinv : UplinkInv f)
    (hdrain : uplinkDrain f f.uplinkQ answers = (f', some rest)) : WindowInv f' := by
  obtain ⟨q, n, u, honly⟩ := uplinkDrain_only f f.uplinkQ answers
  obtain ⟨-, hless, hinput, -⟩ := uplinkDrain_spec hdrain hinv.sound hinv.offset_lt hinv.queued
  rw [hdrain] at honly
  dsimp only at honly
  subst honly
  exact ⟨h.pcb, (congrArg List.length hinput).trans h.given, hless.trans h.waiting, h.opened, h.withheld_le⟩

theorem WindowInv.flush {f : Flow} (h : WindowInv f) (hinv : UplinkInv f) {answers : List SendAnswer}
    (hok : (uplinkFlush f answers).2 ≠ .relayError) : WindowInv (uplinkFlush f answers).1 := by
  rcases uplinkFlush_cases hok with heq | ⟨-, f', rest, hdrain, hfin⟩
  · rw [heq]
    exact h
  · rcases hfin with ⟨-, heq⟩ | ⟨-, heq⟩
    · rw [heq]
      exact ((h.drain hinv hdrain).maybeFin rest).resume ((hinv.drain hdrain).maybeFin rest)
    · rw [heq]
      exact (h.drain hinv hdrain).maybeFin rest

/-- A delivery that fits in the window that was announced. -/
def FitsWindow (f : Flow) (p : Pbuf) : Prop := f.uplink.input.length + p.totLen ≤ tcpWnd + f.recved

/-- The window of a delivery is withheld unless the queue is short. -/
theorem WindowInv.withhold {f : Flow} {tot : Nat} (hpcb : f.pcb.isSome = true)
    (hgiven : f.uplink.input.length = f.recved + f.uplinkWithheldRecved + tot)
    (hwaiting : queueTotal f.uplinkQ ≤ f.uplinkWithheldRecved + tot + bpHighWater)
    (hopened : f.uplinkWithheld = false → f.uplinkWithheldRecved = 0)
    (hle : f.uplinkWithheldRecved + tot ≤ tcpWnd) (hqueued : f.uplinkQueuedBytes = queueTotal f.uplinkQ) :
    WindowInv (uplinkWithhold f tot) := by
  have hmod : (f.uplinkWithheldRecved + tot) % 2 ^ 32 = f.uplinkWithheldRecved + tot := by
    have hbound : tcpWnd < 2 ^ 32 := by decide
    exact Nat.mod_eq_of_lt (by omega)
  rw [uplinkWithhold]
  by_cases hwater : f.state = .active ∨ bpHighWater ≤ f.uplinkQueuedBytes
  · rw [if_pos hwater]
    dsimp only
    rw [if_pos rfl, hmod]
    refine ⟨hpcb, ?_, hwaiting, fun hopen => Bool.noConfusion hopen, hle⟩
    rw [← Nat.add_assoc]
    exact hgiven
  · rw [if_neg hwater]
    split
    · rename_i hwithheld
      rw [hmod]
      refine ⟨hpcb, ?_, hwaiting, fun hopen => ?_, hle⟩
      · rw [← Nat.add_assoc]
        exact hgiven
      · exact absurd (hwithheld.symm.trans hopen) Bool.noConfusion
    · rename_i hwithheld
      have hzero := hopened (Bool.eq_false_iff.2 hwithheld)
      refine ⟨hpcb, ?_, ?_, hopened, (Nat.le_add_right _ _).trans hle⟩
      · change f.uplink.input.length = f.recved + tot + f.uplinkWithheldRecved
        omega
      · change queueTotal f.uplinkQ ≤ f.uplinkWithheldRecved + bpHighWater
        omega

theorem WindowInv.deliver {f : Flow} {p : Pbuf} {answers : List SendAnswer} {alloc : Bool} (h : WindowInv f)
    (hinv : UplinkInv f) (hfits : FitsWindow f p)
    (hok : (uplinkDeliver { f with uplink := f.uplink.take p.bytes } p answers alloc).2 ≠ .relayError) :
    WindowInv (uplinkDeliver { f with uplink := f.uplink.take p.bytes } p answers alloc).1 := by
  obtain ⟨off, bytes, hle, -, -, hend⟩ := uplinkDeliver_cases hok
  have hinput : ((f.uplink.take p.bytes).pass bytes).input.length = f.uplink.input.length + p.totLen :=
    List.length_append
  have hgiven := h.given
  rw [FitsWindow] at hfits
  rcases hend with ⟨-, heq⟩ | ⟨-, heq⟩
  · rw [heq]
    refine ⟨h.pcb, ?_, h.waiting, h.opened, h.withheld_le⟩
    change ((f.uplink.take p.bytes).pass bytes).input.length = f.recved + p.totLen + f.uplinkWithheldRecved
    omega
  · rw [heq]
    have htotal : queueTotal (f.uplinkQ ++ [{ p, offset := off }]) = queueTotal f.uplinkQ + (p.totLen - off) :=
      queueTotal_append _ _
    have hwaiting := h.waiting
    refine WindowInv.withhold h.pcb ?_ ?_ h.opened ?_ ?_
    · change ((f.uplink.take p.bytes).pass bytes).input.length = f.recved + f.uplinkWithheldRecved + p.totLen
      omega
    · change queueTotal (f.uplinkQ ++ [{ p, offset := off }]) ≤ f.uplinkWithheldRecved + p.totLen + bpHighWater
      omega
    · change f.uplinkWithheldRecved + p.totLen ≤ tcpWnd
      omega
    · change (f.uplinkQueuedBytes + (p.totLen - off)) % 2 ^ 32 = queueTotal (f.uplinkQ ++ [{ p, offset := off }])
      have hbound : tcpWnd + bpHighWater < 2 ^ 32 := by decide
      rw [htotal, hinv.queued, Nat.mod_add_mod, Nat.mod_eq_of_lt (by omega)]

/-! ## Runs -/

theorem UplinkInv.of_downlinkOnly {f f' : Flow} (h : UplinkInv f) (honly : DownlinkOnly f f') : UplinkInv f' := by
  rw [honly]
  exact ⟨h.sound, h.ended, h.offset_lt, h.queued⟩

theorem WindowInv.of_downlinkOnly {f f' : Flow} (h : WindowInv f) (honly : DownlinkOnly f f') : WindowInv f' := by
  rw [honly]
  exact ⟨h.pcb, h.given, h.waiting, h.opened, h.withheld_le⟩

theorem UplinkInv.recv {f : Flow} (h : UplinkInv f) (hrelays : f.state = .active ∨ f.state = .pendingStream)
    {p : Option Pbuf} {now : Nat} {answers : List SendAnswer} {alloc : Bool}
    (hok : (onLwipRecv f p now answers alloc).2 ≠ .relayError) : UplinkInv (onLwipRecv f p now answers alloc).1 := by
  cases p with
  | none =>
    have hseen : UplinkInv
        { f with
          lastActivityUs := now
          tcpFinSeen := true
          uplink := f.uplink.sawEnd } := ⟨h.sound.sawEnd, rfl, h.offset_lt, h.queued⟩
    exact hseen.flush hok
  | some p =>
    have hstate : ¬ (f.state ≠ .active ∧ f.state ≠ .pendingStream) := fun hne => hrelays.elim hne.1 hne.2
    have hstamp : UplinkInv { f with lastActivityUs := now } := ⟨h.sound, h.ended, h.offset_lt, h.queued⟩
    rw [onLwipRecv] at hok ⊢
    dsimp only at hok ⊢
    rw [if_neg hstate] at hok ⊢
    exact hstamp.deliver hok

/-- A step of a flow that relays keeps the history of the uplink. -/
theorem UplinkInv.step {f : Flow} (h : UplinkInv f) (hrelays : f.state = .active ∨ f.state = .pendingStream)
    {step : FlowStep} (hok : (flowStep f step).2 ≠ .relayError) : UplinkInv (flowStep f step).1 := by
  cases step with
  | recv p now answers alloc => exact h.recv hrelays hok
  | established now answers =>
    have hactive : UplinkInv { f with state := .active, lastActivityUs := now } :=
      ⟨h.sound, h.ended, h.offset_lt, h.queued⟩
    exact hactive.flush hok
  | writable answers => exact h.flush hok
  | body a => exact h.of_downlinkOnly (downlinkPump_only f a)
  | sent now a => exact h.of_downlinkOnly (onLwipSent_only f now a)
  | tick a => exact h.of_downlinkOnly (downlinkTick_only f a)

theorem flowStep_state (f : Flow) (step : FlowStep) :
    (flowStep f step).1.state = f.state ∨ (flowStep f step).1.state = .active := by
  cases step with
  | recv p now answers alloc => exact .inl (onLwipRecv_only f p now answers alloc).state
  | established now answers =>
    exact .inr (uplinkFlush_only { f with state := .active, lastActivityUs := now } answers).state
  | writable answers => exact .inl (uplinkFlush_only f answers).state
  | body a => exact .inl (downlinkPump_only f a).state
  | sent now a => exact .inl (onLwipSent_only f now a).state
  | tick a => exact .inl (downlinkTick_only f a).state

/-- The lwIP window allows the delivery of the step. -/
def WithinWindow (s : Flow × Outcome) : FlowStep → Prop
  | .recv (some p) _ _ _ => FitsWindow s.1 p
  | _ => True

theorem WindowInv.step {f : Flow} (h : WindowInv f) (hinv : UplinkInv f)
    (hrelays : f.state = .active ∨ f.state = .pendingStream) {step : FlowStep}
    (hfits : WithinWindow (f, .live) step) (hok : (flowStep f step).2 ≠ .relayError) :
    WindowInv (flowStep f step).1 := by
  cases step with
  | recv p now answers alloc =>
    cases p with
    | none =>
      have hend : WindowInv { f with lastActivityUs := now, tcpFinSeen := true, uplink := f.uplink.sawEnd } :=
        ⟨h.pcb, h.given, h.waiting, h.opened, h.withheld_le⟩
      have hseen : UplinkInv { f with lastActivityUs := now, tcpFinSeen := true, uplink := f.uplink.sawEnd } :=
        ⟨hinv.sound.sawEnd, rfl, hinv.offset_lt, hinv.queued⟩
      exact hend.flush hseen hok
    | some p =>
      have hstate : ¬ (f.state ≠ .active ∧ f.state ≠ .pendingStream) := fun hne => hrelays.elim hne.1 hne.2
      have hstamp : WindowInv { f with lastActivityUs := now } := ⟨h.pcb, h.given, h.waiting, h.opened, h.withheld_le⟩
      have hstamp' : UplinkInv { f with lastActivityUs := now } :=
        ⟨hinv.sound, hinv.ended, hinv.offset_lt, hinv.queued⟩
      rw [flowStep, onLwipRecv] at hok ⊢
      dsimp only at hok ⊢
      rw [if_neg hstate] at hok ⊢
      exact hstamp.deliver hstamp' hfits hok
  | established now answers =>
    have hactive : WindowInv { f with state := .active, lastActivityUs := now } :=
      ⟨h.pcb, h.given, h.waiting, h.opened, h.withheld_le⟩
    have hactive' : UplinkInv { f with state := .active, lastActivityUs := now } :=
      ⟨hinv.sound, hinv.ended, hinv.offset_lt, hinv.queued⟩
    exact hactive.flush hactive' hok
  | writable answers => exact h.flush hinv hok
  | body a => exact h.of_downlinkOnly (downlinkPump_only f a)
  | sent now a => exact h.of_downlinkOnly (onLwipSent_only f now a)
  | tick a => exact h.of_downlinkOnly (downlinkTick_only f a)

/-- The step is the response. -/
def FlowStep.isEstablished : FlowStep → Bool
  | .established _ _ => true
  | _ => false

/-- A delivery to a flow that is not active waits. -/
theorem uplinkDeliver_uplink {f : Flow} (h : f.state ≠ .active) (p : Pbuf) (answers : List SendAnswer)
    (alloc : Bool) : (uplinkDeliver f p answers alloc).1.uplink = f.uplink.pass [] := by
  have hnow : uplinkSendNow f p answers = ⟨some 0, [], answers⟩ := if_neg fun hfast => h hfast.1
  have hwithhold (g : Flow) (tot : Nat) : (uplinkWithhold g tot).uplink = g.uplink := by
    rw [uplinkWithhold]
    split <;> split <;> rfl
  rw [uplinkDeliver, hnow]
  dsimp only
  split
  · rfl
  · split
    · rfl
    · rw [hwithhold]
      rfl

/-- Nothing is sent by a flow that waits for its response. -/
theorem unsent_of_pending {f : Flow} (h : f.state = .pendingStream) {step : FlowStep}
    (hstep : step.isEstablished = false) :
    (flowStep f step).1.state = .pendingStream ∧ (flowStep f step).1.uplink.output = f.uplink.output ∧
      (flowStep f step).1.uplink.closings = f.uplink.closings := by
  have hactive : f.state ≠ .active := by
    rw [h]
    exact FlowState.noConfusion
  cases step with
  | recv p now answers alloc =>
    refine ⟨(onLwipRecv_only f p now answers alloc).state.trans h, ?_⟩
    cases p with
    | none =>
      rw [flowStep, onLwipRecv]
      dsimp only
      rw [uplinkFlush, if_pos (.inl hactive)]
      exact ⟨rfl, rfl⟩
    | some p =>
      rw [flowStep, onLwipRecv]
      dsimp only
      rw [if_neg fun hne => hne.2 h]
      have huplink := uplinkDeliver_uplink (f := { f with lastActivityUs := now, uplink := f.uplink.take p.bytes })
        hactive p answers alloc
      rw [huplink]
      exact ⟨List.append_nil _, rfl⟩
  | established now answers => exact Bool.noConfusion hstep
  | writable answers =>
    rw [flowStep, uplinkFlush, if_pos (.inl hactive)]
    exact ⟨h, rfl, rfl⟩
  | body a =>
    have honly := downlinkPump_only f a
    rw [flowStep, honly.uplink]
    exact ⟨honly.state.trans h, rfl, rfl⟩
  | sent now a =>
    have honly := onLwipSent_only f now a
    rw [flowStep, honly.uplink]
    exact ⟨honly.state.trans h, rfl, rfl⟩
  | tick a =>
    have honly := downlinkTick_only f a
    rw [flowStep, honly.uplink]
    exact ⟨honly.state.trans h, rfl, rfl⟩

/-- A flow that did not fail relays, and its uplink is sound. -/
def UplinkOk (s : Flow × Outcome) : Prop :=
  s.2 ≠ .relayError → (s.1.state = .active ∨ s.1.state = .pendingStream) ∧ UplinkInv s.1

theorem UplinkOk.step {s : Flow × Outcome} (h : UplinkOk s) (step : FlowStep) : UplinkOk (relayStep s step) := by
  rw [relayStep]
  split
  · rename_i hlive
    obtain ⟨hrelays, hinv⟩ := h (hlive ▸ Outcome.noConfusion)
    intro hok
    refine ⟨?_, hinv.step hrelays hok⟩
    rcases flowStep_state s.1 step with hstate | hstate
    · rw [hstate]
      exact hrelays
    · exact .inl hstate
  · exact h

/-- In addition the deliveries are within the window. -/
def WindowOk (s : Flow × Outcome) : Prop := UplinkOk s ∧ (s.2 ≠ .relayError → WindowInv s.1)

theorem WindowOk.step {s : Flow × Outcome} (h : WindowOk s) {step : FlowStep} (hfits : WithinWindow s step) :
    WindowOk (relayStep s step) := by
  refine ⟨h.1.step step, ?_⟩
  rw [relayStep]
  split
  · rename_i hlive
    have hlive' : s.2 ≠ .relayError := hlive ▸ Outcome.noConfusion
    obtain ⟨hrelays, hinv⟩ := h.1 hlive'
    exact (h.2 hlive').step hinv hrelays hfits
  · exact h.2

/-- The flow waits for its response, and has sent nothing. -/
def PendingOk (s : Flow × Outcome) : Prop :=
  s.1.state = .pendingStream ∧ s.1.uplink.output = [] ∧ s.1.uplink.closings = []

theorem PendingOk.step {s : Flow × Outcome} (h : PendingOk s) {step : FlowStep} (hstep : step.isEstablished = false) :
    PendingOk (relayStep s step) := by
  rw [relayStep]
  split
  · obtain ⟨hstate, houtput, hclosings⟩ := unsent_of_pending h.1 hstep
    exact ⟨hstate, houtput.trans h.2.1, hclosings.trans h.2.2⟩
  · exact h

/-- The history of the uplink: what was accepted and what is queued is what was delivered, the
    counter is right, and the FIN was accepted at most once, after the FIN of the peer and all
    that was delivered. -/
structure UplinkExact (f : Flow) : Prop where
  conserves : f.uplink.output ++ unsent f.uplinkQ = f.uplink.input
  queued : f.uplinkQueuedBytes = queueTotal f.uplinkQ % 2 ^ 32
  seen : f.uplink.ended = f.tcpFinSeen
  fin_once : f.uplink.closings.length ≤ 1
  fin_last : ∀ c ∈ f.uplink.closings, c.ended = true ∧ c.output = c.input

/-- In every run of a flow that has not failed the uplink is exact; before the response nothing
    is sent; and if the TCP stack delivers within the window the counter does not wrap. -/
theorem uplink_exact (key : Reorder.FlowKey) (synIsn : UInt32) (now pcb request stream : Nat)
    (steps : List FlowStep) :
    let f := acceptedFlow key synIsn now pcb request stream
    let s := relayRun f steps
    (s.2 ≠ .relayError → UplinkExact s.1) ∧
    ((∀ step ∈ steps, step.isEstablished = false) → s.1.uplink.output = [] ∧ s.1.uplink.closings = []) ∧
    (Runs.Along relayStep WithinWindow (f, .live) steps → s.2 ≠ .relayError →
      s.1.uplinkQueuedBytes = queueTotal s.1.uplinkQ) := by
  intro f s
  have hstart : UplinkOk (f, .live) :=
    fun _ => ⟨.inr rfl, Direction.Sound.initial, rfl, fun n hn => absurd hn List.not_mem_nil, rfl⟩
  refine ⟨fun hok => ?_, fun hpending => ?_, fun hwindow hok => ?_⟩
  · have hrun : UplinkOk s :=
      List.foldlRecOn steps relayStep hstart fun t (h : UplinkOk t) step _ => h.step step
    obtain ⟨-, hinv⟩ := hrun hok
    exact ⟨hinv.sound.conserves, hinv.queued, hinv.ended, hinv.sound.closings_le, hinv.sound.complete⟩
  · have hrun : PendingOk s :=
      List.foldlRecOn steps relayStep ⟨rfl, rfl, rfl⟩ fun t (h : PendingOk t) step hmem => h.step (hpending step hmem)
    exact hrun.2
  · have hstart' : WindowOk (f, .live) := ⟨hstart, fun _ => ⟨rfl, rfl, Nat.zero_le _, fun _ => rfl, Nat.zero_le _⟩⟩
    have hrun : WindowOk s :=
      Runs.foldl_of_along (J := WindowOk) (fun _ _ h hfits => h.step hfits) hstart' hwindow
    exact (hrun.1 hok).2.queued_eq (hrun.2 hok).queueTotal_lt

instance decidableWithinWindow (s : Flow × Outcome) : (step : FlowStep) → Decidable (WithinWindow s step)
  | .recv (some p) _ _ _ => inferInstanceAs (Decidable (s.1.uplink.input.length + p.totLen ≤ tcpWnd + s.1.recved))
  | .recv none _ _ _ => .isTrue trivial
  | .established _ _ => .isTrue trivial
  | .writable _ => .isTrue trivial
  | .body _ => .isTrue trivial
  | .sent _ _ => .isTrue trivial
  | .tick _ => .isTrue trivial

/-- A chain and a FIN arrive before the response; the chain is sent in two parts. -/
def sampleSteps : List FlowStep :=
  [.recv (some ⟨[[1, 2], [3]], by decide⟩) 1 [] true, .recv none 2 [] true, .established 3 [.accept 2],
    .writable [.accept 5, .accept 0]]

theorem uplink_exact_sample :
    (relayRun (acceptedFlow sampleKey 7 0 1 2 3) sampleSteps).1.uplink.output = [1, 2, 3] ∧
      (relayRun (acceptedFlow sampleKey 7 0 1 2 3) sampleSteps).1.uplinkQueuedBytes =
        queueTotal (relayRun (acceptedFlow sampleKey 7 0 1 2 3) sampleSteps).1.uplinkQ := by
  have hlive : (relayRun (acceptedFlow sampleKey 7 0 1 2 3) sampleSteps).2 ≠ .relayError := by decide +kernel
  have hwindow : Runs.Along relayStep WithinWindow (acceptedFlow sampleKey 7 0 1 2 3, .live) sampleSteps := by
    decide +kernel
  exact ⟨by decide +kernel, (uplink_exact sampleKey 7 0 1 2 3 sampleSteps).2.2 hwindow hlive⟩

end Mqvpn.Hybrid
