import Mqvpn.Lib.Chains
import Mqvpn.Lib.Segments
import Mqvpn.Reorder.Config

/-!
# The sender

The reorder sender: its table of send flows and the two halves of a send. `peek`
decides what to do with an inner packet and builds the header to send it under;
`commit` advances the flow, once the datagram went out. A full table evicts only
a flow that was idle for long, else the new flow is sent raw.

A pointer to a flow is its key. Like the receiver, the sender keeps a trace that
no function reads: where a flow begins and ends, and the headers committed for
it. `instances` cuts the headers of a key into the lifetimes of its flows.
-/

namespace Mqvpn.Reorder

/-- `mqvpn_send_flow_t`. Only the low 48 bits of `nextSeq` reach the wire, so it
    is not reduced modulo `2 ^ 64`. -/
structure SendFlow where
  key : FlowKey
  nextSeq : Nat
  lastActivityUs : Nat
  resetMarksLeft : Nat
  eligible : Bool

/-- `mqvpn_reorder_tx_stats_t`, without the counter that is never incremented. -/
structure TxStats where
  flowsCreated : Nat := 0
  idleEvictCount : Nat := 0
  tableFullRaw : Nat := 0

/-- What the trace of the sender records. -/
inductive TxEvent
  /-- A flow is created. -/
  | created (key : FlowKey)
  /-- A flow is evicted as idle. -/
  | evicted (key : FlowKey)
  /-- A datagram went out for a flow, under this header. -/
  | committed (key : FlowKey) (hdr : Bytes)

/-- The event is an eviction. -/
def TxEvent.isEvicted : TxEvent → Bool
  | evicted _ => true
  | created _ | committed .. => false

/-- `struct mqvpn_reorder_tx` -/
structure Tx where
  cfg : Config
  hashSeed : UInt64
  nBuckets : Nat
  buckets : List (List SendFlow)
  nFlows : Nat := 0
  stats : TxStats := {}
  trace : List TxEvent := []

/-- The loop of `pick_buckets`; from 16 it doubles at most 16 times. -/
def pickBucketsLoop (maxFlows : Nat) : (fuel n : Nat) → Nat
  | 0, n => n
  | fuel + 1, n => if n < maxFlows ∧ n < 1 <<< 20 then pickBucketsLoop maxFlows fuel (n <<< 1) else n

/-- `pick_buckets` -/
def pickBuckets (maxFlows : Nat) : Nat := pickBucketsLoop maxFlows 16 16

/-- `mqvpn_reorder_tx_new`, with memory for the table. -/
def txNew (cfg : Config) (hashSeed : UInt64) : Tx :=
  let nBuckets := pickBuckets (if cfg.maxFlows ≠ 0 then cfg.maxFlows else 16)
  { cfg, hashSeed, nBuckets, buckets := List.replicate nBuckets [] }

/-- `compute_eligible` -/
def computeEligible (cfg : Config) (key : FlowKey) : Bool :=
  match cfg.matchRule key with
  | none => cfg.rules.length = 0 ∧ cfg.mode ≠ .off
  | some r => (Config.profilePreset r.profile).isSome

/-- The flow that `get_or_create` makes for a key. -/
def newSendFlow (cfg : Config) (key : FlowKey) (nowUs : Nat) : SendFlow where
  key
  nextSeq := 0
  lastActivityUs := nowUs
  resetMarksLeft := cfg.resetMarkPackets
  eligible := computeEligible cfg key

/-- The condition under which `evict_one_idle` may evict a flow. -/
def SendFlow.idleSince (f : SendFlow) (cfg : Config) (nowUs : Nat) : Bool :=
  f.lastActivityUs < nowUs ∧ cfg.egressIdleTimeoutSec * 1000000 < nowUs - f.lastActivityUs

/-- The scan of `evict_one_idle`: the first of the idle flows with the oldest
    activity. -/
def idleVictim (cfg : Config) (nowUs : Nat) (flows : List SendFlow) : Option SendFlow :=
  flows.foldl (fun oldest f =>
    if f.idleSince cfg nowUs then
      match oldest with
      | none => some f
      | some o => if f.lastActivityUs < o.lastActivityUs then some f else some o
    else oldest) none

/-- `mqvpn_reorder_tx_action_t` -/
inductive TxAction
  | stamp
  | raw
  | dropMtu
  deriving DecidableEq

/-- `mqvpn_reorder_tx_peek_t` -/
structure TxPeek where
  action : TxAction
  hdr : Bytes := []
  flow : Option FlowKey := none

namespace Tx

/-! ## The flow table -/

/-- The bucket of a key. -/
def slot (tx : Tx) : FlowKey → Nat := bucketOf tx.hashSeed tx.nBuckets

/-- The flows, in scan order. -/
def flows (tx : Tx) : List SendFlow := tx.buckets.flatten

/-- `table_lookup` -/
def tableLookup (tx : Tx) (key : FlowKey) : Option SendFlow :=
  Chains.lookup SendFlow.key tx.slot tx.buckets key

/-- Unlink a flow that is evicted as idle. -/
def evict (tx : Tx) (f : SendFlow) : Tx :=
  { tx with
    buckets := Chains.remove SendFlow.key tx.slot tx.buckets f.key
    nFlows := tx.nFlows - 1
    stats := { tx.stats with idleEvictCount := tx.stats.idleEvictCount + 1 }
    trace := tx.trace ++ [.evicted f.key] }

/-- `evict_one_idle`: nothing if no flow is idle. -/
def evictOneIdle (tx : Tx) (nowUs : Nat) : Option Tx :=
  (idleVictim tx.cfg nowUs tx.flows).map tx.evict

/-- Link a new flow at the head of its chain. -/
def create (tx : Tx) (key : FlowKey) (nowUs : Nat) : Tx :=
  { tx with
    buckets := Chains.push SendFlow.key tx.slot tx.buckets (newSendFlow tx.cfg key nowUs)
    nFlows := tx.nFlows + 1
    stats := { tx.stats with flowsCreated := tx.stats.flowsCreated + 1 }
    trace := tx.trace ++ [.created key] }

/-- The table is full for one more flow. -/
def full (tx : Tx) : Bool := tx.cfg.maxFlows ≠ 0 ∧ tx.cfg.maxFlows ≤ tx.nFlows

/-- The creation in `get_or_create`; `alloc` is whether `calloc` succeeds. -/
def tryCreate (tx : Tx) (key : FlowKey) (nowUs : Nat) (alloc : Bool) : Option SendFlow × Tx :=
  if alloc then (some (newSendFlow tx.cfg key nowUs), tx.create key nowUs) else (none, tx)

/-- `get_or_create` -/
def getOrCreate (tx : Tx) (key : FlowKey) (nowUs : Nat) (alloc : Bool) : Option SendFlow × Tx :=
  match tx.tableLookup key with
  | some f => (some f, tx)
  | none =>
    if tx.full then
      match tx.evictOneIdle nowUs with
      | none => (none, { tx with stats := { tx.stats with tableFullRaw := tx.stats.tableFullRaw + 1 } })
      | some tx => tx.tryCreate key nowUs alloc
    else tx.tryCreate key nowUs alloc

/-! ## Sending -/

/-- The header and flow of a packet that `mqvpn_reorder_tx_peek` stamps. -/
def stamped (f : SendFlow) : TxPeek :=
  let flags := if 0 < f.resetMarksLeft then flagReset else 0
  { action := .stamp, hdr := wireEncode typeV1 flags f.nextSeq, flow := some f.key }

/-- The end of `mqvpn_reorder_tx_peek`, once a flow was found for the packet. -/
def stamp (f : SendFlow) (len maxInnerWithoutReorder : Nat) : TxPeek :=
  if !f.eligible then { action := .raw }
  else if maxInnerWithoutReorder < hdrLen + len then { action := .dropMtu, flow := some f.key }
  else stamped f

/-- `mqvpn_reorder_tx_peek` -/
def peek (tx : Tx) (pkt : Bytes) (nowUs maxInnerWithoutReorder : Nat) (alloc : Bool) : TxPeek × Tx :=
  if tx.cfg.mode = .off then ({ action := .raw }, tx)
  else
    match parse5tuple pkt with
    | none => ({ action := .raw }, tx)
    | some key =>
      match tx.getOrCreate key nowUs alloc with
      | (none, tx) => ({ action := .raw }, tx)
      | (some f, tx) => (stamp f pkt.length maxInnerWithoutReorder, tx)

/-- What `mqvpn_reorder_tx_commit` does to the flow. -/
def advance (f : SendFlow) (nowUs : Nat) : SendFlow :=
  { f with
    nextSeq := f.nextSeq + 1
    resetMarksLeft := if 0 < f.resetMarksLeft then f.resetMarksLeft - 1 else f.resetMarksLeft
    lastActivityUs := nowUs }

/-- `mqvpn_reorder_tx_commit` -/
def commit (tx : Tx) (pk : TxPeek) (nowUs : Nat) : Tx :=
  match pk.action, pk.flow with
  | .stamp, some key =>
    match tx.tableLookup key with
    | some f => { tx with
        buckets := Chains.update SendFlow.key tx.slot tx.buckets key (advance f nowUs)
        trace := tx.trace ++ [.committed key pk.hdr] }
    | none => tx
  | _, _ => tx

end Tx

/-! ## Runs -/

/-- A packet read from the tunnel: a peek, and the time of its commit if the
    datagram goes out. -/
structure Tx.Op where
  pkt : Bytes
  nowUs : Nat
  maxInnerWithoutReorder : Nat
  alloc : Bool
  commit : Option Nat

namespace Tx

def step (tx : Tx) (op : Op) : Tx :=
  let r := tx.peek op.pkt op.nowUs op.maxInnerWithoutReorder op.alloc
  match op.commit with
  | some commitUs => r.2.commit r.1 commitUs
  | none => r.2

def run (tx : Tx) (ops : List Op) : Tx := ops.foldl step tx

end Tx

/-- A datagram: the header, the inner packet and its flow. -/
structure Msg where
  key : FlowKey
  hdr : Bytes
  pkt : Bytes

/-- The payload that goes out. -/
def Msg.payload (m : Msg) : Bytes := m.hdr ++ m.pkt

/-- The datagram that a send commits, if any. -/
def Tx.sent (tx : Tx) (op : Op) : Option Msg :=
  let pk := (tx.peek op.pkt op.nowUs op.maxInnerWithoutReorder op.alloc).1
  match op.commit, pk.action, pk.flow with
  | some _, .stamp, some key => some ⟨key, pk.hdr, op.pkt⟩
  | _, _, _ => none

/-- The datagrams of a key. -/
def ofKey (k : FlowKey) (l : List Msg) : List Msg := l.filter (·.key = k)

/-! ## Instances -/

/-- What an event does to the instances of the key `k`. -/
def instanceMark (k : FlowKey) : TxEvent → Mark Bytes
  | .created k' => if k' = k then .start else .skip
  | .evicted k' => if k' = k then .stop else .skip
  | .committed k' hdr => if k' = k then .item hdr else .skip

/-- The headers committed for the key `k`, by the lifetimes of its flows. -/
def instances (k : FlowKey) (trace : List TxEvent) : Segments Bytes :=
  .ofTrace (instanceMark k) trace

end Mqvpn.Reorder
