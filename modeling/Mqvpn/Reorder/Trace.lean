import Mqvpn.Reorder.Flow

/-!
# Reading the trace

What the statements about runs of the receiver say is read off its trace, one
flow key at a time:

* `epochs k trace`: the sequence numbers delivered for the flow `k`, cut into
  its epochs. An epoch begins at a cold start or an honoured FLOW_RESET and ends
  at the next one, at the eviction of the flow or at its demotion, the demote
  flush included; what is delivered in pass-through belongs to no epoch.
* `ledger k trace`: the packets handed to the flow `k` since it was created, and
  those delivered for it.

Events of other flows do not matter to either (`epochs_append_of_ne`,
`ledger_append_of_ne`). The deliveries of all the flows, and those without a
flow, are the `payloads` of the trace.
-/

namespace Mqvpn.Reorder

/-! ## Counters -/

/-- The wait periods that ended, by any of the five terminators. -/
def Stats.periodsClosed (st : Stats) : Nat :=
  st.gapFilledCount + st.gapTimeoutCount + st.gapOverflowCount + st.gapDemoteCount +
    st.gapResetCount

/-- The packets that were delivered, dropped or discarded. -/
def Stats.fates (st : Stats) : Nat :=
  st.deliveredCount + st.tooLateDropCount + st.tooFarAheadDropCount + st.duplicateDropCount +
    st.perFlowLimitDropCount + st.poolDropCount + st.resetDiscardCount

namespace Stats

theorem periodsClosed_filled (st : Stats) :
    periodsClosed { st with gapFilledCount := st.gapFilledCount + 1 } = st.periodsClosed + 1 := by
  simp only [periodsClosed]
  omega

theorem periodsClosed_timeout (st : Stats) :
    periodsClosed { st with gapTimeoutCount := st.gapTimeoutCount + 1 } = st.periodsClosed + 1 := by
  simp only [periodsClosed]
  omega

theorem periodsClosed_overflow (st : Stats) :
    periodsClosed { st with gapOverflowCount := st.gapOverflowCount + 1 } = st.periodsClosed + 1 := by
  simp only [periodsClosed]
  omega

theorem periodsClosed_demote (st : Stats) :
    periodsClosed { st with gapDemoteCount := st.gapDemoteCount + 1 } = st.periodsClosed + 1 := by
  simp only [periodsClosed]
  omega

theorem periodsClosed_reset (st : Stats) :
    periodsClosed { st with gapResetCount := st.gapResetCount + 1 } = st.periodsClosed + 1 := rfl

theorem fates_countDrop (st : Stats) (d : Drop) : (st.countDrop d).fates = st.fates + 1 := by
  cases d <;> simp only [countDrop, fates] <;> omega

end Stats

/-! ## Events -/

namespace Event

/-- The flow an event is about. -/
def key? : Event → Option FlowKey
  | created k | handed k _ | started k | delivered k _ _ | droppedLate k _ | stored k _ _ _
  | demoted k | evicted k => some k
  | bypassed _ | clamped => none

/-- The event shows nothing wrong: a packet was stored over no other, and the
    pool counter was not clamped. -/
def Sound : Event → Prop
  | stored _ _ vacant spread => vacant = true ∧ spread = true
  | clamped => False
  | _ => True

end Event

/-! ## Deliveries -/

/-- The packet that the event delivers. -/
def Event.payload? : Event → Option Bytes
  | delivered _ _ pkt | bypassed pkt => some pkt
  | created _ | handed .. | started _ | droppedLate .. | stored .. | demoted _ | evicted _
  | clamped => none

/-- The packets that the deliver callback received. -/
def payloads (trace : List Event) : List Bytes := trace.filterMap Event.payload?

theorem payloads_append (trace evs : List Event) :
    payloads (trace ++ evs) = payloads trace ++ payloads evs := List.filterMap_append

/-- The event stores a packet. -/
def Event.stores : Event → Bool
  | stored .. => true
  | _ => false

/-- The trace delivers the given packets, and stores none. -/
structure Unbuffered (out : List Bytes) (trace : List Event) : Prop where
  payloads : payloads trace = out
  stores : ∀ e ∈ trace, e.stores = false

theorem Unbuffered.append {out : List Bytes} {trace : List Event} (h : Unbuffered out trace)
    (e : Event) (he : e.stores = false) :
    Unbuffered (out ++ e.payload?.toList) (trace ++ [e]) := by
  refine ⟨?_, fun e' he' => ?_⟩
  · rw [payloads_append, h.payloads, Reorder.payloads]
    cases hp : e.payload? <;> simp [hp]
  · rcases List.mem_append.1 he' with he' | he'
    · exact h.stores e' he'
    · rw [List.mem_singleton.1 he']
      exact he

/-- An event that delivers nothing. -/
theorem Unbuffered.append_none {out : List Bytes} {trace : List Event} (h : Unbuffered out trace)
    {e : Event} (hp : e.payload? = none) (he : e.stores = false) : Unbuffered out (trace ++ [e]) := by
  simpa [hp] using h.append e he

/-! ## Epochs -/

/-- What an event does to the epochs of the flow `k`. -/
def epochMark (k : FlowKey) : Event → Mark Nat
  | .started k' => if k' = k then .start else .skip
  | .created k' | .demoted k' | .evicted k' => if k' = k then .stop else .skip
  | .delivered k' seq _ => if k' = k then .item seq else .skip
  | .handed .. | .bypassed _ | .droppedLate .. | .stored .. | .clamped => .skip

/-- The sequence numbers delivered for the flow `k`, by epoch. -/
def epochs (k : FlowKey) (trace : List Event) : Segments Nat := .ofTrace (epochMark k) trace

/-! ## Ledgers -/

/-- The packets of a flow since it was created. -/
structure Ledger where
  received : List Bytes := []
  delivered : List Bytes := []

/-- Read one more event. -/
def Ledger.note (k : FlowKey) (l : Ledger) : Event → Ledger
  | .created k' => if k' = k then {} else l
  | .handed k' pkt => if k' = k then { l with received := l.received ++ [pkt] } else l
  | .delivered k' _ pkt => if k' = k then { l with delivered := l.delivered ++ [pkt] } else l
  | _ => l

/-- The packets handed to the flow `k` and delivered for it since it was created. -/
def ledger (k : FlowKey) (trace : List Event) : Ledger := trace.foldl (Ledger.note k) {}

variable {k : FlowKey} {trace evs : List Event} {e : Event}

theorem epochs_append (k : FlowKey) (trace : List Event) (e : Event) :
    epochs k (trace ++ [e]) = (epochs k trace).note (epochMark k e) :=
  Segments.ofTrace_append trace e

theorem ledger_append (k : FlowKey) (trace : List Event) (e : Event) :
    ledger k (trace ++ [e]) = (ledger k trace).note k e := by
  rw [ledger, List.foldl_append]
  rfl

@[simp]
theorem epochs_append_delivered (k : FlowKey) (trace : List Event) (seq : Nat) (pkt : Bytes) :
    epochs k (trace ++ [.delivered k seq pkt]) = (epochs k trace).note (.item seq) := by
  rw [epochs_append, epochMark, if_pos rfl]

@[simp]
theorem epochs_append_started (k : FlowKey) (trace : List Event) :
    epochs k (trace ++ [.started k]) = (epochs k trace).note .start := by
  rw [epochs_append, epochMark, if_pos rfl]

@[simp]
theorem epochs_append_demoted (k : FlowKey) (trace : List Event) :
    epochs k (trace ++ [.demoted k]) = (epochs k trace).note .stop := by
  rw [epochs_append, epochMark, if_pos rfl]

@[simp]
theorem epochs_append_evicted (k : FlowKey) (trace : List Event) :
    epochs k (trace ++ [.evicted k]) = (epochs k trace).note .stop := by
  rw [epochs_append, epochMark, if_pos rfl]

@[simp]
theorem epochs_append_created (k : FlowKey) (trace : List Event) :
    epochs k (trace ++ [.created k]) = (epochs k trace).note .stop := by
  rw [epochs_append, epochMark, if_pos rfl]

@[simp]
theorem epochs_append_droppedLate (k : FlowKey) (trace : List Event) (seq : Nat) :
    epochs k (trace ++ [.droppedLate k seq]) = epochs k trace := epochs_append ..

@[simp]
theorem epochs_append_stored (k : FlowKey) (trace : List Event) (seq : Nat) (b c : Bool) :
    epochs k (trace ++ [.stored k seq b c]) = epochs k trace := epochs_append ..

@[simp]
theorem epochs_append_handed (k : FlowKey) (trace : List Event) (pkt : Bytes) :
    epochs k (trace ++ [.handed k pkt]) = epochs k trace := epochs_append ..

@[simp]
theorem ledger_append_delivered (k : FlowKey) (trace : List Event) (seq : Nat) (pkt : Bytes) :
    ledger k (trace ++ [.delivered k seq pkt]) =
      { ledger k trace with delivered := (ledger k trace).delivered ++ [pkt] } := by
  rw [ledger_append, Ledger.note, if_pos rfl]

@[simp]
theorem ledger_append_handed (k : FlowKey) (trace : List Event) (pkt : Bytes) :
    ledger k (trace ++ [.handed k pkt]) =
      { ledger k trace with received := (ledger k trace).received ++ [pkt] } := by
  rw [ledger_append, Ledger.note, if_pos rfl]

@[simp]
theorem ledger_append_created (k : FlowKey) (trace : List Event) :
    ledger k (trace ++ [.created k]) = {} := by
  rw [ledger_append, Ledger.note, if_pos rfl]

@[simp]
theorem ledger_append_started (k : FlowKey) (trace : List Event) :
    ledger k (trace ++ [.started k]) = ledger k trace := ledger_append ..

@[simp]
theorem ledger_append_demoted (k : FlowKey) (trace : List Event) :
    ledger k (trace ++ [.demoted k]) = ledger k trace := ledger_append ..

@[simp]
theorem ledger_append_droppedLate (k : FlowKey) (trace : List Event) (seq : Nat) :
    ledger k (trace ++ [.droppedLate k seq]) = ledger k trace := ledger_append ..

@[simp]
theorem ledger_append_stored (k : FlowKey) (trace : List Event) (seq : Nat) (b c : Bool) :
    ledger k (trace ++ [.stored k seq b c]) = ledger k trace := ledger_append ..

theorem epochMark_of_ne (h : e.key? ≠ some k) : epochMark k e = .skip := by
  cases e <;> simp_all [Event.key?, epochMark]

theorem Ledger.note_of_ne (l : Ledger) (h : e.key? ≠ some k) : l.note k e = l := by
  cases e <;> simp_all [Event.key?, Ledger.note]

theorem epochs_append_of_ne (h : ∀ e ∈ evs, e.key? ≠ some k) :
    epochs k (trace ++ evs) = epochs k trace :=
  Segments.ofTrace_append_of_skip fun e he => epochMark_of_ne (h e he)

theorem ledger_append_of_ne (h : ∀ e ∈ evs, e.key? ≠ some k) :
    ledger k (trace ++ evs) = ledger k trace := by
  induction evs generalizing trace with
  | nil => rw [List.append_nil]
  | cons e evs ih =>
    rw [List.append_cons, ih fun e' he' => h e' (List.mem_cons_of_mem _ he'), ledger_append,
      Ledger.note_of_ne _ (h e List.mem_cons_self)]

end Mqvpn.Reorder
