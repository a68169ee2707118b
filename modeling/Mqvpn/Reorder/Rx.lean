import Mqvpn.Lib.Chains
import Mqvpn.Reorder.Flow

/-!
# The receiver

The reorder receiver: its table of flows, keyed by the 5-tuple of the inner
packet, and its two entry points. `onPacket` decodes a datagram (`route`), passes
it through if its flow does not wait, and else finds or creates the flow, evicting
the least recently used one from a full table; `tick` fires the gap timeouts and
then evicts the flows that made no progress.

A pointer to a flow is its key. A call is an `Op`, with the outcomes of the
allocations it makes; a run is a fold of calls from `rxNew`.
-/

namespace Mqvpn.Reorder

/-- `mqvpn_reorder_rx_t` -/
structure Rx extends Shared where
  cfg : Config
  hashSeed : UInt64
  buckets : List (List Flow)

/-- `MQVPN_RX_BUCKETS` -/
def rxBuckets : Nat := 1024

/-- `mqvpn_reorder_rx_new`, with memory for the table. -/
def rxNew (cfg : Config) (hashSeed : UInt64) : Option Rx :=
  if cfg.validate then
    some { cfg := cfg.finalize, hashSeed, buckets := List.replicate rxBuckets [] }
  else none

/-! ## Eviction -/

/-- `flow_destroy` -/
def Shared.flowDestroy (s : Shared) (f : Flow) : Shared :=
  let s := { s with evictedStats := s.evictedStats.accumulate f.stats }
  s.releaseSlots f.buffer.slots

/-- Destroy an unlinked flow and count it out. -/
def Shared.evict (s : Shared) (f : Flow) : Shared :=
  let s := s.flowDestroy f
  { s with nFlows := s.nFlows - 1, trace := s.trace ++ [.evicted f.key] }

/-- The scan of `evict_lru_flow`: the last of the flows with the oldest
    progress. -/
def lruVictim (flows : List Flow) : Option Flow :=
  flows.foldl (fun victim f => match victim with
    | none => some f
    | some g => if f.lastProgressUs ≤ g.lastProgressUs then some f else some g) none

/-- The flow that `flow_get_or_create` makes for a key. -/
def newFlow (cfg : Config) (key : FlowKey) : Flow where
  key
  buffer := .init (cfg.flowCap key)
  waitMs := cfg.flowWaitMs key

/-- The condition of the idle sweep of `mqvpn_reorder_rx_tick`. -/
def Flow.idleSince (f : Flow) (cfg : Config) (nowUs : Nat) : Bool :=
  f.lastProgressUs < nowUs ∧ cfg.ingressIdleTimeoutSec * 1000000 < nowUs - f.lastProgressUs

/-- The condition of the timeout loop of `mqvpn_reorder_rx_tick`. -/
def Flow.timeoutDue (f : Flow) (nowUs : Nat) : Bool :=
  f.gapTimerActive ∧ f.gapDeadlineUs ≤ nowUs

namespace Rx

/-! ## The flow table -/

/-- The bucket of a key. -/
def slot (rx : Rx) : FlowKey → Nat := bucketOf rx.hashSeed rxBuckets

/-- The flows, in scan order. -/
def flows (rx : Rx) : List Flow := rx.buckets.flatten

/-- `flow_lookup` -/
def flowLookup (rx : Rx) (key : FlowKey) : Option Flow :=
  Chains.lookup Flow.key rx.slot rx.buckets key

/-- `evict_lru_flow` -/
def evictLruFlow (rx : Rx) : Rx :=
  match lruVictim rx.flows with
  | some f => { rx with
      toShared := rx.toShared.evict f
      buckets := Chains.remove Flow.key rx.slot rx.buckets f.key }
  | none => rx

/-- Link a new flow at the head of its chain. -/
def create (rx : Rx) (key : FlowKey) : Rx :=
  { rx with
    nFlows := rx.nFlows + 1
    trace := rx.trace ++ [.created key]
    buckets := Chains.push Flow.key rx.slot rx.buckets (newFlow rx.cfg key) }

/-- The table is full for one more flow. -/
def full (rx : Rx) : Bool := 0 < rx.cfg.maxFlows ∧ rx.cfg.maxFlows ≤ rx.nFlows

/-- `flow_get_or_create`; no flow when `calloc` fails. -/
def flowGetOrCreate (rx : Rx) (key : FlowKey) (alloc : Bool) : Option Flow × Rx :=
  match rx.flowLookup key with
  | some f => (some f, rx)
  | none =>
    let rx := if rx.full then rx.evictLruFlow else rx
    if alloc then (some (newFlow rx.cfg key), rx.create key) else (none, rx)

/-! ## Entry points -/

/-- Deliver without any flow state. -/
def bypass (rx : Rx) (inner : Bytes) : Rx := { rx with trace := rx.trace ++ [.bypassed inner] }

/-- Run `on_reordered` on a flow of the table. -/
def onReordered (rx : Rx) (f : Flow) (p : Arrival) : Rx :=
  let v := View.onReordered ⟨rx.toShared, f⟩ rx.cfg p
  { rx with
    toShared := v.toShared
    buckets := Chains.update Flow.key rx.slot rx.buckets f.key v.flow }

/-- What `mqvpn_reorder_rx_on_packet` makes of a datagram before it looks for a
    flow. -/
inductive Route
  /-- Malformed, or not a reorder datagram of one UDP packet. -/
  | ignore
  /-- Its flow does not wait. -/
  | bypass (inner : Bytes)
  | flow (key : FlowKey) (seq : Nat) (flags : UInt8) (inner : Bytes)

/-- The checks at the start of `mqvpn_reorder_rx_on_packet`. -/
def route (rx : Rx) (payload : Bytes) : Route :=
  match wireDecode payload with
  | none => .ignore
  | some (type, flags, seq) =>
    if type ≠ typeV1 then .ignore
    else
      let inner := payload.drop hdrLen
      if inner.length = 0 ∨ 65535 < inner.length then .ignore
      else if rx.cfg.maxWaitMs = 0 ∧ rx.cfg.rules.length = 0 then .bypass inner
      else
        match parse5tuple inner with
        | none => .ignore
        | some key => if rx.cfg.flowWaitMs key = 0 then .bypass inner else .flow key seq flags inner

/-- `mqvpn_reorder_rx_on_packet` -/
def onPacket (rx : Rx) (payload : Bytes) (nowUs : Nat) (alloc : Alloc) : Rx :=
  match rx.route payload with
  | .ignore => rx
  | .bypass inner => rx.bypass inner
  | .flow key seq flags inner =>
    match rx.flowGetOrCreate key alloc.flow with
    | (none, rx) => rx
    | (some f, rx) => rx.onReordered f ⟨seq, flags, inner, nowUs, alloc⟩

/-- The first loop of `mqvpn_reorder_rx_tick` at one flow. -/
def fireTimeout (nowUs : Nat) (s : Shared) (f : Flow) : Shared × Option Flow :=
  if f.timeoutDue nowUs then
    let v := View.onGapTimeout ⟨s, f⟩ nowUs
    (v.toShared, some v.flow)
  else (s, some f)

/-- The second loop of `mqvpn_reorder_rx_tick` at one flow. -/
def sweepIdle (cfg : Config) (nowUs : Nat) (s : Shared) (f : Flow) : Shared × Option Flow :=
  if f.idleSince cfg nowUs then (s.evict f, none) else (s, some f)

/-- Run one of the loops over the table. -/
def sweep (rx : Rx) (visit : Shared → Flow → Shared × Option Flow) : Rx :=
  let r := Chains.sweep visit rx.toShared rx.buckets
  { rx with toShared := r.1, buckets := r.2 }

/-- `mqvpn_reorder_rx_tick` -/
def tick (rx : Rx) (nowUs : Nat) : Rx :=
  (rx.sweep (fireTimeout nowUs)).sweep (sweepIdle rx.cfg nowUs)

/-- `mqvpn_reorder_rx_get_stats` -/
def getStats (rx : Rx) : Stats :=
  rx.flows.foldl (fun st f => st.accumulate f.stats) rx.evictedStats

end Rx

/-! ## Runs -/

/-- A call of one of the entry points. -/
inductive Rx.Op
  | onPacket (payload : Bytes) (nowUs : Nat) (alloc : Alloc)
  | tick (nowUs : Nat)

namespace Rx

def step (rx : Rx) : Op → Rx
  | .onPacket payload nowUs alloc => rx.onPacket payload nowUs alloc
  | .tick nowUs => rx.tick nowUs

def run (rx : Rx) (ops : List Op) : Rx := ops.foldl step rx

end Rx

end Mqvpn.Reorder
