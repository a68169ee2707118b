import Mqvpn.Hybrid.FlowFrame
import Mqvpn.Hybrid.Lane
import Mqvpn.Reorder.TxInv

/-!
# The table of the TCP lane

What holds of the lane after any events (`Lane.Inv`): the chains hold the flows that are
allocated, each in the bucket of its key, and no two have the same key or the same stream; the
counters are the numbers of flows in the three populations, within their caps; markers have
nothing but a key; and a connection and its flow point to each other.

The library may run a close notify within the call that closes a request. The table stays as it
should be, but the function that made the call goes on with a flow that is gone; as long as no
notify comes that early (`Deferred`) this does not happen.
-/

namespace Mqvpn.Hybrid

open Reorder

/-! ## Populations -/

/-- What the counters of the lane count. -/
inductive Population where
  | tcp
  | raw
  | closing
  deriving DecidableEq

def FlowState.population : FlowState → Population
  | .stickyRaw => .raw
  | .closing => .closing
  | _ => .tcp

/-- The flows of a population. -/
def Population.has (p : Population) (f : Flow) : Bool := f.state.population = p

/-- What a flow points to. -/
def Flow.links (f : Flow) : FlowKey × Option Nat × Option Nat × Option Nat × Bool :=
  (f.key, f.pcb, f.h3Request, f.stream, f.hasLane)

theorem UplinkOnly.links {f f' : Flow} (h : UplinkOnly f f') : f'.links = f.links := by
  rw [h]
  rfl

theorem DownlinkOnly.links {f f' : Flow} (h : DownlinkOnly f f') : f'.links = f.links := by
  rw [h]
  rfl

namespace Lane

variable {s t u : Lane}

def counter (s : Lane) : Population → Nat
  | .tcp => s.nTcpFlows
  | .raw => s.nRawMarkers
  | .closing => s.nClosing

def cap (s : Lane) : Population → Nat
  | .tcp => s.tcpMaxFlows.toNat
  | .raw => rawMarkerCap
  | .closing => closingCap

theorem dec_succ (n : Nat) : dec (n + 1) = n := if_neg (Nat.succ_ne_zero n)

theorem discount_counter (s : Lane) (state : FlowState) (p : Population) :
    (s.discount state).counter p = if state.population = p then dec (s.counter p) else s.counter p := by
  cases state <;> cases p <;> simp [discount, counter, FlowState.population]

/-! ## The invariant -/

/-- What no event changes. -/
def fixed (s : Lane) : UInt32 × UInt32 × UInt64 × (Nat → Bool) :=
  (s.tcpMaxFlows, s.tcpIdleTimeoutSec, s.hashSeed, s.reenters)

/-- No close notify comes within the call that closes its request. -/
def Deferred (s : Lane) : Prop := ∀ request, s.reenters request = false

/-- The state of a flow that may have a connection and a request. -/
def Relays (f : Flow) : Prop := f.state = .pendingStream ∨ f.state = .active

/-- The flows of the lane know it; a marker for a raw flow does not, and nothing of it waits. -/
def Owned (f : Flow) : Prop :=
  f.hasLane = true ∧ f.state ≠ .stickyRaw ∨ f.state = .stickyRaw ∧ f.downlinkPaused = false

structure Inv (s : Lane) : Prop where
  faultless : s.Deferred → s.fault = false
  chain : ∀ b id, id ∈ s.buckets b ↔ ∃ f, s.flows.get id = some f ∧ s.bucket f.key = b
  nodup : ∀ b, (s.buckets b).Nodup
  key : ∀ {id id' f f'}, s.flows.get id = some f → s.flows.get id' = some f' → f.key = f'.key → id = id'
  counted : ∀ p : Population, s.counter p = s.flows.count p.has ∧ s.counter p ≤ s.cap p
  owned : ∀ {id f}, s.flows.get id = some f → Owned f
  bare : ∀ {id f}, s.flows.get id = some f → Relays f ∨ f.pcb = none ∧ f.h3Request = none ∧ f.stream = none
  request : ∀ {id f}, s.flows.get id = some f → f.h3Request = f.stream
  stream : ∀ {id f x}, s.flows.get id = some f → f.stream = some x → (s.streams.get x).isSome = true
  once : ∀ {id id' f f' x}, s.flows.get id = some f → s.flows.get id' = some f' →
    f.stream = some x → f'.stream = some x → id = id'
  pcb : ∀ {id f q}, s.flows.get id = some f → f.pcb = some q → s.pcbs.get q = some (some id)
  arg : ∀ {q id}, s.pcbs.get q = some (some id) → ∃ f, s.flows.get id = some f ∧ f.pcb = some q
  ended : s.ended.Nodup
  gone : ∀ q ∈ s.ended, q < s.pcbs.next ∧ ∀ id, s.pcbs.get q ≠ some (some id)

theorem nBuckets_pos (s : Lane) : 0 < s.nBuckets := Tx.pickBuckets_pos _

theorem deferred_iff (hfixed : t.fixed = s.fixed) : t.Deferred ↔ s.Deferred := by
  have hreenters : t.reenters = s.reenters := congrArg (·.2.2.2) hfixed
  rw [Deferred, Deferred, hreenters]

namespace Inv

/-! ## Lookups -/

theorem mem_chained (h : s.Inv) {id : Nat} : id ∈ s.chained ↔ (s.flows.get id).isSome = true := by
  rw [chained, List.mem_flatMap, Option.isSome_iff_exists]
  constructor
  · rintro ⟨b, -, hid⟩
    obtain ⟨f, hf, -⟩ := (h.chain b id).1 hid
    exact ⟨f, hf⟩
  · rintro ⟨f, hf⟩
    exact ⟨s.bucket f.key, List.mem_range.2 (bucketOf_lt _ s.nBuckets_pos _), (h.chain _ _).2 ⟨f, hf, rfl⟩⟩

theorem findFlow_eq_some (h : s.Inv) {key : FlowKey} {id : Nat} :
    s.findFlow key = some id ↔ ∃ f, s.flows.get id = some f ∧ f.key = key := by
  have hfound {j : Nat} (hj : s.findFlow key = some j) : ∃ f, s.flows.get j = some f ∧ f.key = key := by
    rw [findFlow] at hj
    have hany := List.find?_some hj
    obtain ⟨f, hf, hkey⟩ := (Option.any_eq_true _ _).1 hany
    exact ⟨f, hf, flowKeyEq_iff.1 hkey⟩
  refine ⟨hfound, ?_⟩
  rintro ⟨f, hf, rfl⟩
  cases hj : s.findFlow f.key with
  | none =>
    have hnone := List.find?_eq_none.1 hj id ((h.chain _ _).2 ⟨f, hf, rfl⟩)
    rw [hf, Option.any_some] at hnone
    exact absurd (flowKeyEq_iff.2 rfl) hnone
  | some j =>
    obtain ⟨g, hg, hkey⟩ := hfound hj
    rw [h.key hg hf hkey]

theorem findFlow_eq_none (h : s.Inv) {key : FlowKey} :
    s.findFlow key = none ↔ ∀ id f, s.flows.get id = some f → f.key ≠ key := by
  constructor
  · rintro hnone id f hf rfl
    have hsome := h.findFlow_eq_some.2 ⟨f, hf, rfl⟩
    rw [hnone] at hsome
    cases hsome
  · intro hall
    cases hj : s.findFlow key with
    | none => rfl
    | some j =>
      obtain ⟨f, hf, hkey⟩ := h.findFlow_eq_some.1 hj
      exact absurd hkey (hall j f hf)

theorem findFlowByStream_eq_some (h : s.Inv) {x id : Nat} :
    s.findFlowByStream x = some id ↔ ∃ f, s.flows.get id = some f ∧ f.stream = some x := by
  have hfound {j : Nat} (hj : s.findFlowByStream x = some j) : ∃ f, s.flows.get j = some f ∧ f.stream = some x := by
    rw [findFlowByStream] at hj
    have hany := List.find?_some hj
    obtain ⟨f, hf, hstream⟩ := (Option.any_eq_true _ _).1 hany
    exact ⟨f, hf, eq_of_beq hstream⟩
  refine ⟨hfound, ?_⟩
  rintro ⟨f, hf, hstream⟩
  cases hj : s.findFlowByStream x with
  | none =>
    have hnone := List.find?_eq_none.1 hj id (h.mem_chained.2 (by rw [hf]; rfl))
    rw [hf, Option.any_some, hstream, beq_self_eq_true] at hnone
    exact absurd rfl hnone
  | some j =>
    obtain ⟨g, hg, hstream'⟩ := hfound hj
    rw [h.once hg hf hstream' hstream]

/-! ## Writing a flow back -/

/-- A flow is written back, and it may have got or lost its connection. -/
theorem rewrite (h : s.Inv) {id : Nat} {f f' : Flow} (hf : s.flows.get id = some f) (hkey : f'.key = f.key)
    (howned : Owned f')
    (hbare : Relays f' ∨ f'.pcb = none ∧ f'.h3Request = none ∧ f'.stream = none)
    (hrequest : f'.h3Request = f'.stream)
    (hstream : ∀ x, f'.stream = some x →
      (s.streams.get x).isSome = true ∧ ∀ j g, j ≠ id → s.flows.get j = some g → g.stream ≠ some x)
    {n m : Nat} {pcbs : Heap (Option Nat)} {ended : List Nat}
    (hcounted : ∀ p : Population, counter { s with nTcpFlows := n, nClosing := m } p = (s.flows.set id f').count p.has ∧
      counter { s with nTcpFlows := n, nClosing := m } p ≤ s.cap p)
    (hpcb : ∀ q, f'.pcb = some q → pcbs.get q = some (some id))
    (hkeep : ∀ q j, j ≠ id → (pcbs.get q = some (some j) ↔ s.pcbs.get q = some (some j)))
    (harg : ∀ q, pcbs.get q = some (some id) → f'.pcb = some q)
    (hended : ended.Nodup) (hgone : ∀ q ∈ ended, q < pcbs.next ∧ ∀ j, pcbs.get q ≠ some (some j)) :
    Inv { s with flows := s.flows.set id f', nTcpFlows := n, nClosing := m, pcbs, ended } := by
  have hself : (s.flows.set id f').get id = some f' := Heap.get_set_self hf
  refine ⟨h.faultless, fun b j => ?_, h.nodup, ?_, hcounted, ?_, ?_, ?_, ?_, ?_, ?_, ?_, hended, hgone⟩
  · rw [h.chain b j]
    by_cases hj : j = id
    · subst hj
      rw [hself, hf]
      exact ⟨fun ⟨g, hg, hb⟩ => ⟨f', rfl, by rw [← hb, ← Option.some.inj hg, ← hkey]; rfl⟩,
        fun ⟨g, hg, hb⟩ => ⟨f, rfl, by rw [← hb, ← Option.some.inj hg, hkey]; rfl⟩⟩
    · rw [Heap.get_set_of_ne hj]
      rfl
  · intro i j g g' hg hg' hsame
    rcases Heap.get_set_cases hg with ⟨hi, rfl⟩ | ⟨-, hgs⟩ <;>
      rcases Heap.get_set_cases hg' with ⟨hj, rfl⟩ | ⟨-, hgs'⟩
    · exact hi.trans hj.symm
    · exact hi.trans (h.key hf hgs' (hkey.symm.trans hsame))
    · exact (h.key hgs hf (hsame.trans hkey)).trans hj.symm
    · exact h.key hgs hgs' hsame
  · intro j g hg
    rcases Heap.get_set_cases hg with ⟨rfl, rfl⟩ | ⟨-, hg⟩
    · exact howned
    · exact h.owned hg
  · intro j g hg
    rcases Heap.get_set_cases hg with ⟨rfl, rfl⟩ | ⟨-, hg⟩
    · exact hbare
    · exact h.bare hg
  · intro j g hg
    rcases Heap.get_set_cases hg with ⟨rfl, rfl⟩ | ⟨-, hg⟩
    · exact hrequest
    · exact h.request hg
  · intro j g x hg hx
    rcases Heap.get_set_cases hg with ⟨rfl, rfl⟩ | ⟨-, hg⟩
    · exact (hstream x hx).1
    · exact h.stream hg hx
  · intro i j g g' x hg hg' hx hx'
    rcases Heap.get_set_cases hg with ⟨hi, rfl⟩ | ⟨hi, hgs⟩ <;>
      rcases Heap.get_set_cases hg' with ⟨hj, rfl⟩ | ⟨hj, hgs'⟩
    · exact hi.trans hj.symm
    · exact absurd hx' ((hstream x hx).2 j g' hj hgs')
    · exact absurd hx ((hstream x hx').2 i g hi hgs)
    · exact h.once hgs hgs' hx hx'
  · intro j g q hg hq
    rcases Heap.get_set_cases hg with ⟨rfl, rfl⟩ | ⟨hj, hg⟩
    · exact hpcb q hq
    · exact (hkeep q j hj).2 (h.pcb hg hq)
  · intro q j hq
    by_cases hj : j = id
    · subst hj
      exact ⟨f', hself, harg q hq⟩
    · obtain ⟨g, hg, hgpcb⟩ := h.arg ((hkeep q j hj).1 hq)
      exact ⟨g, (Heap.get_set_of_ne hj).trans hg, hgpcb⟩

/-- The population of the flow is the same. -/
theorem counted_set (h : s.Inv) {id : Nat} {f f' : Flow} (hf : s.flows.get id = some f)
    (hpop : f'.state.population = f.state.population) (p : Population) :
    s.counter p = (s.flows.set id f').count p.has ∧ s.counter p ≤ s.cap p := by
  have hcount := Heap.count_set (p := p.has) (b := f') hf
  have hsame : p.has f' = p.has f := by rw [Population.has, Population.has, hpop]
  rw [hsame] at hcount
  exact ⟨(h.counted p).1.trans (Nat.add_right_cancel hcount).symm, (h.counted p).2⟩

/-- A flow with the same connection is written back. -/
theorem write (h : s.Inv) {id : Nat} {f f' : Flow} (hf : s.flows.get id = some f) (hkey : f'.key = f.key)
    (hpop : f'.state.population = f.state.population)
    (howned : Owned f')
    (hbare : Relays f' ∨ f'.pcb = none ∧ f'.h3Request = none ∧ f'.stream = none)
    (hrequest : f'.h3Request = f'.stream)
    (hstream : ∀ x, f'.stream = some x →
      (s.streams.get x).isSome = true ∧ ∀ j g, j ≠ id → s.flows.get j = some g → g.stream ≠ some x)
    (hpcb : f'.pcb = f.pcb) : (s.setFlow id f').Inv := by
  refine h.rewrite hf hkey howned hbare hrequest hstream (h.counted_set hf hpop) (fun q hq => ?_)
    (fun _ _ _ => Iff.rfl) (fun q hq => ?_) h.ended h.gone
  · exact h.pcb hf (hpcb.symm.trans hq)
  · obtain ⟨g, hg, hgpcb⟩ := h.arg hq
    rw [hf] at hg
    cases hg
    exact hpcb.trans hgpcb

/-- The stream of a flow is its own. -/
theorem stream_own (h : s.Inv) {id : Nat} {f : Flow} (hf : s.flows.get id = some f) (x : Nat) (hx : f.stream = some x) :
    (s.streams.get x).isSome = true ∧ ∀ j g, j ≠ id → s.flows.get j = some g → g.stream ≠ some x :=
  ⟨h.stream hf hx, fun _ _ hj hg hgx => hj (h.once hg hf hgx hx)⟩

/-- A flow loses its connection, which is gone or has no callbacks any more. -/
theorem detach (h : s.Inv) {id q : Nat} {f : Flow} (hf : s.flows.get id = some f) (hq : f.pcb = some q)
    {pcbs : Heap (Option Nat)} {ended : List Nat} (hnext : pcbs.next = s.pcbs.next)
    (hcut : ∀ j, pcbs.get q ≠ some (some j)) (hothers : ∀ r, r ≠ q → pcbs.get r = s.pcbs.get r)
    (hended : ended = s.ended ∨ ended = q :: s.ended) :
    Inv { s with flows := s.flows.set id { f with pcb := none }, pcbs, ended } := by
  have hlive : s.pcbs.get q = some (some id) := h.pcb hf hq
  have howned := h.owned hf
  have hrequest := h.request hf
  have hstream := h.stream_own hf
  have hkey : ({ f with pcb := none } : Flow).key = f.key := rfl
  refine h.rewrite hf hkey howned ?_ hrequest hstream (h.counted_set hf rfl) ?_ ?_ ?_ ?_ ?_
  · rcases h.bare hf with hrelays | hbare
    · exact .inl hrelays
    · exact .inr ⟨rfl, hbare.2⟩
  · intro r hr
    cases hr
  · intro r j hj
    by_cases hr : r = q
    · subst hr
      refine ⟨fun hget => absurd hget (hcut j), fun hget => ?_⟩
      rw [hlive] at hget
      exact absurd (Option.some.inj (Option.some.inj hget)).symm hj
    · rw [hothers r hr]
  · intro r hr
    by_cases hrq : r = q
    · subst hrq
      exact absurd hr (hcut id)
    · rw [hothers r hrq] at hr
      obtain ⟨g, hg, hgpcb⟩ := h.arg hr
      rw [hf] at hg
      cases hg
      exact absurd (Option.some.inj (hgpcb.symm.trans hq)) hrq
  · rcases hended with rfl | rfl
    · exact h.ended
    · refine List.nodup_cons.2 ⟨fun hmem => ?_, h.ended⟩
      exact (h.gone q hmem).2 id hlive
  · have hkept (r : Nat) (hr : r ∈ s.ended) : r < pcbs.next ∧ ∀ j, pcbs.get r ≠ some (some j) := by
      have hrq : r ≠ q := by
        rintro rfl
        exact (h.gone r hr).2 id hlive
      rw [hnext, hothers r hrq]
      exact h.gone r hr
    rcases hended with rfl | rfl
    · exact hkept
    · intro r hr
      rcases List.mem_cons.1 hr with rfl | hr
      · exact ⟨hnext ▸ s.pcbs.lt_next hlive, hcut⟩
      · exact hkept r hr

/-! ## Taking a flow out -/

/-- A flow without a connection is unlinked and freed. -/
theorem unlink (h : s.Inv) {id : Nat} {f : Flow} (hf : s.flows.get id = some f) (hpcb : f.pcb = none) {n m k : Nat}
    (hcounted : ∀ p : Population,
      counter { s with nTcpFlows := n, nRawMarkers := m, nClosing := k } p = (s.flows.free id).count p.has ∧
        counter { s with nTcpFlows := n, nRawMarkers := m, nClosing := k } p ≤ s.cap p) :
    Inv { s with
      buckets := Function.update s.buckets (s.bucket f.key) ((s.buckets (s.bucket f.key)).erase id)
      nTcpFlows := n
      nRawMarkers := m
      nClosing := k
      flows := s.flows.free id } := by
  have hold {j : Nat} {g : Flow} (hg : (s.flows.free id).get j = some g) : s.flows.get j = some g :=
    (Heap.get_free_cases hg).2
  refine ⟨h.faultless, fun b j => ?_, fun b => ?_, fun hg hg' => h.key (hold hg) (hold hg'), hcounted,
    fun hg => h.owned (hold hg), fun hg => h.bare (hold hg), fun hg => h.request (hold hg),
    fun hg => h.stream (hold hg), fun hg hg' => h.once (hold hg) (hold hg'), fun hg => h.pcb (hold hg), ?_,
    h.ended, h.gone⟩
  · have hmem : j ∈ Function.update s.buckets (s.bucket f.key) ((s.buckets (s.bucket f.key)).erase id) b ↔
        j ≠ id ∧ j ∈ s.buckets b := by
      by_cases hb : b = s.bucket f.key
      · rw [hb, Function.update_self, (h.nodup _).mem_erase_iff]
      · rw [Function.update_of_ne hb]
        refine ⟨fun hj => ⟨?_, hj⟩, fun hj => hj.2⟩
        rintro rfl
        obtain ⟨g, hg, hgb⟩ := (h.chain b j).1 hj
        rw [hf] at hg
        cases hg
        exact hb hgb.symm
    refine hmem.trans ⟨?_, ?_⟩
    · rintro ⟨hj, hjb⟩
      obtain ⟨g, hg, hgb⟩ := (h.chain b j).1 hjb
      exact ⟨g, (Heap.get_free_of_ne hj).trans hg, hgb⟩
    · rintro ⟨g, hg, hgb⟩
      obtain ⟨hj, hg⟩ := Heap.get_free_cases hg
      exact ⟨hj, (h.chain b j).2 ⟨g, hg, hgb⟩⟩
  · dsimp only
    by_cases hb : b = s.bucket f.key
    · rw [hb, Function.update_self]
      exact (h.nodup _).erase id
    · rw [Function.update_of_ne hb]
      exact h.nodup b
  · intro q j hq
    obtain ⟨g, hg, hgpcb⟩ := h.arg hq
    have hj : j ≠ id := by
      rintro rfl
      rw [hf] at hg
      cases hg
      rw [hpcb] at hgpcb
      cases hgpcb
    exact ⟨g, (Heap.get_free_of_ne hj).trans hg, hgpcb⟩

theorem counted_free (h : s.Inv) {id : Nat} {f : Flow} (hf : s.flows.get id = some f) (p : Population) :
    (s.discount f.state).counter p = (s.flows.free id).count p.has ∧ (s.discount f.state).counter p ≤ s.cap p := by
  have hcount := Heap.count_free (p := p.has) hf
  obtain ⟨hcounter, hcap⟩ := h.counted p
  rw [discount_counter]
  split
  · rename_i hpop
    have hhas : p.has f = true := decide_eq_true hpop
    rw [hhas] at hcount
    change _ + 1 = _ at hcount
    rw [hcounter, ← hcount, dec_succ]
    exact ⟨rfl, by omega⟩
  · rename_i hpop
    have hhas : p.has f = false := decide_eq_false hpop
    rw [hhas] at hcount
    exact ⟨hcounter.trans hcount.symm, hcap⟩

/-! ## Putting a flow in -/

/-- A flow with a new key, and without a connection and a request. -/
theorem insert (h : s.Inv) {f : Flow} (hnew : ∀ j g, s.flows.get j = some g → g.key ≠ f.key)
    (howned : Owned f)
    (hbare : f.pcb = none ∧ f.h3Request = none ∧ f.stream = none) {n m : Nat}
    (hcounted : ∀ p : Population, counter { s with nTcpFlows := n, nRawMarkers := m } p = (s.flows.alloc f).count p.has ∧
      counter { s with nTcpFlows := n, nRawMarkers := m } p ≤ s.cap p) :
    Inv { s.insertFlow f with nTcpFlows := n, nRawMarkers := m } := by
  have hstale : s.flows.next ∉ s.buckets (s.bucket f.key) := by
    rw [h.chain]
    rintro ⟨g, hg, -⟩
    rw [Heap.get_next] at hg
    cases hg
  refine ⟨h.faultless, fun b j => ?_, fun b => ?_, ?_, hcounted, ?_, ?_, ?_, ?_, ?_, ?_, ?_, h.ended, h.gone⟩
  · change j ∈ Function.update s.buckets (s.bucket f.key) (s.flows.next :: s.buckets (s.bucket f.key)) b ↔
      ∃ g, (s.flows.alloc f).get j = some g ∧ s.bucket g.key = b
    have hmem : j ∈ Function.update s.buckets (s.bucket f.key) (s.flows.next :: s.buckets (s.bucket f.key)) b ↔
        (j = s.flows.next ∧ b = s.bucket f.key) ∨ j ∈ s.buckets b := by
      by_cases hb : b = s.bucket f.key
      · rw [hb, Function.update_self, List.mem_cons, and_iff_left rfl]
      · rw [Function.update_of_ne hb]
        exact ⟨.inr, fun hj => hj.resolve_left fun hnext => hb hnext.2⟩
    rw [hmem, h.chain b j]
    constructor
    · rintro (⟨rfl, rfl⟩ | ⟨g, hg, hb⟩)
      · exact ⟨f, Heap.get_alloc_self, rfl⟩
      · exact ⟨g, Heap.get_alloc_of_get hg, hb⟩
    · rintro ⟨g, hg, hb⟩
      rcases Heap.get_alloc_cases hg with ⟨hj, rfl⟩ | ⟨-, hg⟩
      · exact .inl ⟨hj, hb.symm⟩
      · exact .inr ⟨g, hg, hb⟩
  · change (Function.update s.buckets (s.bucket f.key) (s.flows.next :: s.buckets (s.bucket f.key)) b).Nodup
    by_cases hb : b = s.bucket f.key
    · rw [hb, Function.update_self]
      exact List.nodup_cons.2 ⟨hstale, h.nodup _⟩
    · rw [Function.update_of_ne hb]
      exact h.nodup b
  · intro i j g g' hg hg' hsame
    rcases Heap.get_alloc_cases hg with ⟨hi, rfl⟩ | ⟨-, hgs⟩ <;>
      rcases Heap.get_alloc_cases hg' with ⟨hj, rfl⟩ | ⟨-, hgs'⟩
    · exact hi.trans hj.symm
    · exact absurd hsame.symm (hnew j g' hgs')
    · exact absurd hsame (hnew i g hgs)
    · exact h.key hgs hgs' hsame
  · intro j g hg
    rcases Heap.get_alloc_cases hg with ⟨-, rfl⟩ | ⟨-, hg⟩
    · exact howned
    · exact h.owned hg
  · intro j g hg
    rcases Heap.get_alloc_cases hg with ⟨-, rfl⟩ | ⟨-, hg⟩
    · exact .inr hbare
    · exact h.bare hg
  · intro j g hg
    rcases Heap.get_alloc_cases hg with ⟨-, rfl⟩ | ⟨-, hg⟩
    · exact hbare.2.1.trans hbare.2.2.symm
    · exact h.request hg
  · intro j g x hg hx
    rcases Heap.get_alloc_cases hg with ⟨-, rfl⟩ | ⟨-, hg⟩
    · rw [hbare.2.2] at hx
      cases hx
    · exact h.stream hg hx
  · intro i j g g' x hg hg' hx hx'
    rcases Heap.get_alloc_cases hg with ⟨-, rfl⟩ | ⟨-, hgs⟩
    · rw [hbare.2.2] at hx
      cases hx
    · rcases Heap.get_alloc_cases hg' with ⟨-, rfl⟩ | ⟨-, hgs'⟩
      · rw [hbare.2.2] at hx'
        cases hx'
      · exact h.once hgs hgs' hx hx'
  · intro j g q hg hq
    rcases Heap.get_alloc_cases hg with ⟨-, rfl⟩ | ⟨-, hg⟩
    · rw [hbare.1] at hq
      cases hq
    · exact h.pcb hg hq
  · intro q j hq
    obtain ⟨g, hg, hgpcb⟩ := h.arg hq
    exact ⟨g, Heap.get_alloc_of_get hg, hgpcb⟩

end Inv

theorem removeFlow_eq {id : Nat} {f : Flow} (hf : s.flows.get id = some f) :
    s.removeFlow id =
      { s with
        buckets := Function.update s.buckets (s.bucket f.key) ((s.buckets (s.bucket f.key)).erase id)
        nTcpFlows := (s.discount f.state).nTcpFlows
        nRawMarkers := (s.discount f.state).nRawMarkers
        nClosing := (s.discount f.state).nClosing
        flows := s.flows.free id } := by
  rw [removeFlow, onFlow, hf]
  dsimp only
  generalize f.state = state
  cases state <;> rfl

end Lane

end Mqvpn.Hybrid
