import Mqvpn.Hybrid.LaneEvents
import Mqvpn.Lib.Loops
import Mathlib.Data.Prod.Lex

/-!
# The sweep of the TCP lane

The sweep of `mqvpn_tcp_lane_tick` walks the chains that it takes flows out of: the next flow is
read before a flow is looked at, and after a retry that has ended a flow the walk starts again at
the head of the bucket, because a marker for it may have taken the place of any other one.

Here the two loops are a machine (`Lane.Sweeper`), with a round for every flow that is looked at,
and for every bucket; the clock and the answers of a round are whatever they are.

* `sweepFlow_effect`: what the round of a flow does;
* `Sweeper.Good`: what holds between the rounds;
* `tick_sweeps`: the loops end, use no flow that is gone, and leave no flow that is overdue.
-/

namespace Mqvpn.Hybrid

open Reorder

namespace Lane

variable {s t : Lane} {id : Nat}

/-! ## The loops -/

/-- The loops of `mqvpn_tcp_lane_tick`: the lane, the bucket, and the flow to look at. -/
structure Sweeper where
  lane : Lane
  b : Nat
  f : Option Nat

/-- `f->next` -/
def follow (chain : List Nat) (id : Nat) : Option Nat := (chain.dropWhile fun j => j != id).tail.head?

/-- The first flow of the first bucket. -/
def enter (s : Lane) : Sweeper := { lane := s, b := 0, f := (s.buckets 0).head? }

namespace Sweeper

/-- The body of the inner loop; `next` is read before the flow may go. -/
def visit (u : Sweeper) (now clock id : Nat) (answers : List DownlinkAnswers) : Sweeper :=
  let next := follow (u.lane.buckets u.b) id
  let r := u.lane.sweepFlow now clock id answers
  { lane := r.1, b := u.b, f := if r.2.2 then (r.1.buckets u.b).head? else next }

/-- The next bucket. -/
def advance (u : Sweeper) : Sweeper := { u with b := u.b + 1, f := (u.lane.buckets (u.b + 1)).head? }

/-- A round, for any clock and any answers. -/
inductive Next (now : Nat) : Sweeper → Sweeper → Prop
  | visit {u : Sweeper} {id : Nat} (hf : u.f = some id) (clock : Nat) (answers : List DownlinkAnswers) :
    Next now u (u.visit now clock id answers)
  | advance {u : Sweeper} (hf : u.f = none) (hb : u.b + 1 < u.lane.nBuckets) : Next now u u.advance

end Sweeper

/-- The sweep of `mqvpn_tcp_lane_tick` runs. -/
def Due (s : Lane) (now : Nat) : Prop :=
  ¬(s.nTcpFlows = 0 ∧ s.nClosing = 0) ∧ 1000000 ≤ (now + 2 ^ 64 - s.lastSweepUs) % 2 ^ 64

/-! ## The chains -/

theorem removeFlow_buckets (b : Nat) :
    (s.removeFlow id).buckets b = s.buckets b ∨ (s.removeFlow id).buckets b = (s.buckets b).erase id := by
  cases hf : s.flows.get id with
  | none =>
    unfold removeFlow onFlow
    rw [hf]
    exact .inl rfl
  | some f =>
    rw [removeFlow_eq hf]
    dsimp only
    by_cases hb : b = s.bucket f.key
    · rw [hb, Function.update_self]
      exact .inr rfl
    · rw [Function.update_of_ne hb]
      exact .inl rfl

/-- Tearing a flow down takes it out of its chain, and leaves the chains as they are otherwise. -/
theorem teardownFlow_buckets (hdeferred : s.Deferred) (b : Nat) :
    (s.teardownFlow id).buckets b = s.buckets b ∨ (s.teardownFlow id).buckets b = (s.buckets b).erase id := by
  have hkept : ((s.closeH3 id).silentAbortPcb id).buckets = s.buckets := by
    have hclose : (s.closeH3 id).buckets = s.buckets := closeH3_keeps hdeferred fun _ _ _ => rfl
    exact (silentAbortPcb_keeps fun _ _ _ _ _ => rfl).trans hclose
  unfold teardownFlow removeOwn onFlow
  rw [← hkept]
  generalize (s.closeH3 id).silentAbortPcb id = t
  split
  · exact .inl rfl
  · dsimp only
    split
    · exact removeFlow_buckets b
    · exact .inl rfl

/-! ## What is done to the flows -/

namespace Inv

theorem teardownFlow_gone (h : s.Inv) (hlive : s.Deferred → (s.flows.get id).isSome = true)
    (hraw : ∀ f, s.flows.get id = some f → f.state ≠ .stickyRaw) : (s.teardownFlow id).flows.get id = none := by
  obtain ⟨hclose, hstill, hget⟩ := h.closeH3 hlive hraw
  refine (hclose.inv.abortAndRemove (fun hdeferred => hstill (hclose.deferred.1 hdeferred)) fun f' hf' => ?_).2
  obtain ⟨f, hf, rfl⟩ := hget f' hf'
  exact hraw f hf

/-- Only a marker gives way to another one, and only if there are as many as there may be. -/
theorem roomForClosing_get (h : s.Inv) (j : Nat) : s.roomForClosing.flows.get j = s.flows.get j ∨
    s.roomForClosing.flows.get j = none ∧
      ∃ g, s.flows.get j = some g ∧ g.state = .closing ∧ closingCap ≤ s.nClosing := by
  obtain ⟨-, -, hkept, hold⟩ := h.roomForClosing
  by_cases hfull : closingCap ≤ s.nClosing
  · cases hafter : s.roomForClosing.flows.get j with
    | some g => exact .inl (hold j g hafter).symm
    | none =>
      cases hbefore : s.flows.get j with
      | none => exact .inl rfl
      | some g =>
        refine .inr ⟨rfl, g, rfl, by_contra fun hopen => ?_, hfull⟩
        rw [hkept j g hbefore hopen] at hafter
        cases hafter
  · rw [Lane.roomForClosing, if_neg hfull]
    exact .inl rfl

/-- A flow that is marked as closed is there before its marker is. -/
theorem markClosing_get (h : s.Inv) {f : Flow} (hf : s.flows.get id = some f)
    (hpop : f.state.population = .tcp) (now : Nat) :
    (∃ f', (s.markClosing id now).flows.get id = some f' ∧ f'.state = .closing) ∧
      ∀ j, j ≠ id → (s.markClosing id now).flows.get j = s.roomForClosing.flows.get j := by
  obtain ⟨hroom, -, hkept, -⟩ := h.roomForClosing
  have hopen : f.state ≠ .closing := by
    intro hclosing
    rw [hclosing] at hpop
    cases hpop
  have hget := hkept id f hf hopen
  have hlane := hroom.inv.hasLane hget (not_raw_of_population hpop)
  unfold Lane.markClosing Lane.onFlow
  rw [hget]
  dsimp only
  rw [hlane, Bool.not_true, if_neg Bool.false_ne_true]
  exact ⟨⟨_, Heap.get_set_self hget, rfl⟩, fun j hj => Heap.get_set_of_ne hj⟩

theorem finishCleanClose_get (h : s.Inv) {f : Flow} (hf : s.flows.get id = some f)
    (hpop : f.state.population = .tcp) (now : Nat) :
    (∃ f', (s.finishCleanClose id now).flows.get id = some f' ∧ f'.state = .closing) ∧
      ∀ j, j ≠ id → (s.finishCleanClose id now).flows.get j = s.flows.get j ∨
        (s.finishCleanClose id now).flows.get j = none ∧
          ∃ g, s.flows.get j = some g ∧ g.state = .closing ∧ closingCap ≤ s.nClosing := by
  have hraw {g : Flow} (hg : g.state.population = .tcp) := not_raw_of_population hg
  obtain ⟨hclose, hget⟩ := h.closePcb (fun _ => Option.isSome_iff_exists.2 ⟨f, hf⟩) fun g hg => by
    rw [hf] at hg
    cases hg
    exact hraw hpop
  rw [hf] at hget
  obtain ⟨hforget, hget'⟩ := hclose.inv.forgetH3 (fun _ => Option.isSome_iff_exists.2 ⟨_, hget⟩) fun g hg => by
    rw [hget] at hg
    cases hg
    exact hraw hpop
  rw [hget] at hget'
  have hcount : ((s.closePcb id).forgetH3 id).nClosing = s.nClosing := by
    have hclose : (s.closePcb id).nClosing = s.nClosing := closePcb_keeps fun _ _ _ _ _ => rfl
    exact (forgetH3_keeps fun _ _ _ => rfl).trans hclose
  obtain ⟨hmarked, hothers⟩ := hforget.inv.markClosing_get hget' hpop now
  refine ⟨hmarked, fun j hj => ?_⟩
  have hsame : ((s.closePcb id).forgetH3 id).flows.get j = s.flows.get j :=
    (hforget.others j hj).trans (hclose.others j hj)
  unfold Lane.finishCleanClose
  rw [hothers j hj, ← hsame, ← hcount]
  exact hforget.inv.roomForClosing_get j

end Inv

/-- The sweep is to take the flow out. -/
def Overdue (s : Lane) (now : Nat) (f : Flow) : Prop :=
  f.state = .closing ∧ olderThan f now closingGraceUs = true ∨
    f.state.population = .tcp ∧ s.tcpIdleTimeoutSec ≠ 0 ∧
      olderThan f now (s.tcpIdleTimeoutSec.toNat * 1000000) = true

/-- What the round of a flow does to the flows, and whether the walk starts again. -/
inductive Effect (now id : Nat) (f : Flow) (s t : Lane) : Bool → Prop
  | kept {f' : Flow} (htime : ¬s.Overdue now f) (hget : t.flows.get id = some f') (hstate : f'.state = f.state)
      (hstamp : f'.lastActivityUs = f.lastActivityUs) (hothers : ∀ j, j ≠ id → t.flows.get j = s.flows.get j) :
    Effect now id f s t false
  | overdue (hlate : s.Overdue now f) (hget : t.flows.get id = none)
      (hothers : ∀ j, j ≠ id → t.flows.get j = s.flows.get j) :
    Effect now id f s t false
  | fatal (a : DownlinkAnswers) (hpop : f.state.population = .tcp) (hpaused : f.downlinkPaused = true)
      (hout : (downlinkTick f a).2 = .relayError) (hget : t.flows.get id = none)
      (hothers : ∀ j, j ≠ id → t.flows.get j = s.flows.get j) :
    Effect now id f s t true
  | closed {f' : Flow} (a : DownlinkAnswers) (hpop : f.state.population = .tcp) (hpaused : f.downlinkPaused = true)
      (hout : (downlinkTick f a).2 = .cleanClose) (hget : t.flows.get id = some f') (hstate : f'.state = .closing)
      (hothers : ∀ j, j ≠ id → t.flows.get j = s.flows.get j ∨
        t.flows.get j = none ∧ ∃ g, s.flows.get j = some g ∧ g.state = .closing ∧ closingCap ≤ s.nClosing) :
    Effect now id f s t true

namespace Inv

/-- A retry of what waits for a flow. -/
theorem retry_effect (h : s.Inv) {f : Flow} (hf : s.flows.get id = some f) (hpop : f.state.population = .tcp)
    (hpaused : f.downlinkPaused = true) {now : Nat} (htime : ¬s.Overdue now f) (a : DownlinkAnswers) (clock : Nat) :
    Effect now id f s (s.settle id clock (downlinkTick f a)) (decide ((downlinkTick f a).2 ≠ .live)) := by
  have honly := downlinkTick_only f a
  have hstamp := downlinkTick_stamp f a
  obtain ⟨hset, hpop'⟩ := h.setFlow hf hpop honly.links (.inl honly.state)
  have hself : (s.setFlow id (downlinkTick f a).1).flows.get id = some (downlinkTick f a).1 := Heap.get_set_self hf
  have hclosing : (s.setFlow id (downlinkTick f a).1).nClosing = s.nClosing := rfl
  unfold Lane.settle
  generalize s.setFlow id (downlinkTick f a).1 = t at hset hself hclosing ⊢
  cases hout : (downlinkTick f a).2 with
  | live => exact .kept htime hself honly.state hstamp hset.others
  | relayError =>
    have hlive (_ : t.Deferred) : (t.flows.get id).isSome = true := Option.isSome_iff_exists.2 ⟨_, hself⟩
    have hraw (g : Flow) (hg : t.flows.get id = some g) : g.state ≠ .stickyRaw := by
      rw [hself] at hg
      cases hg
      exact not_raw_of_population hpop'
    exact .fatal a hpop hpaused hout (hset.inv.teardownFlow_gone hlive hraw)
      fun j hj => ((hset.inv.teardownFlow hlive hraw).others j hj).trans (hset.others j hj)
  | cleanClose =>
    obtain ⟨⟨f', hget, hstate⟩, hothers⟩ := hset.inv.finishCleanClose_get hself hpop' clock
    refine .closed a hpop hpaused hout hget hstate fun j hj => ?_
    have hcases := hothers j hj
    rw [hset.others j hj, hclosing] at hcases
    exact hcases

theorem sweepFlow_effect (h : s.Inv) {f : Flow} (hf : s.flows.get id = some f) (now clock : Nat)
    (answers : List DownlinkAnswers) :
    Effect now id f s (s.sweepFlow now clock id answers).1 (s.sweepFlow now clock id answers).2.2 := by
  unfold Lane.sweepFlow
  rw [hf]
  dsimp only
  split
  · rename_i hclosing
    have hraw : f.state ≠ .stickyRaw := by
      rw [hclosing]
      decide
    split
    · rename_i hold
      obtain ⟨htouches, hgone⟩ := h.removeFlow hf (h.pcb_of_not_relays hf (not_relays_of_closing hclosing)) hraw
      exact .overdue (.inl ⟨hclosing, hold⟩) hgone htouches.others
    · rename_i hyoung
      refine .kept (fun hlate => ?_) hf rfl rfl fun _ _ => rfl
      rcases hlate with hlate | hlate
      · exact hyoung hlate.2
      · rw [hclosing] at hlate
        cases hlate.1
  · rename_i hopen
    split
    · rename_i hidle
      have hpop : f.state.population = .tcp := by
        cases hstate : f.state with
        | stickyRaw => exact absurd hstate hidle.2.1
        | closing => exact absurd hstate hopen
        | _ => rfl
      have hcount := h.keeps_stats { s.stats with flowsIdleEvicted := s.stats.flowsIdleEvicted + 1 }
      have hraw (g : Flow) (hg : s.flows.get id = some g) : g.state ≠ .stickyRaw := by
        rw [hf] at hg
        cases hg
        exact hidle.2.1
      have hlive (_ : s.Deferred) : (s.flows.get id).isSome = true := Option.isSome_iff_exists.2 ⟨f, hf⟩
      exact .overdue (.inr ⟨hpop, hidle.1, hidle.2.2⟩) (hcount.inv.teardownFlow_gone hlive hraw)
        (hcount.inv.teardownFlow hlive hraw).others
    · rename_i hactive
      have htime : ¬s.Overdue now f := by
        rintro (hlate | hlate)
        · exact hopen hlate.1
        · exact hactive ⟨hlate.2.1, not_raw_of_population hlate.1, hlate.2.2⟩
      split
      · rename_i hpaused
        split
        · exact .kept htime hf rfl rfl fun _ _ => rfl
        · rename_i a rest
          -- a marker has nothing that waits
          obtain ⟨-, hraw⟩ := (h.owned hf).resolve_right fun hmarker => by
            rw [hpaused] at hmarker
            cases hmarker.2
          have hpop : f.state.population = .tcp := by
            cases hstate : f.state with
            | stickyRaw => exact absurd hstate hraw
            | closing => exact absurd hstate hopen
            | _ => rfl
          exact h.retry_effect hf hpop hpaused htime a clock
      · exact .kept htime hf rfl rfl fun _ _ => rfl

end Inv

/-- As long as the walk goes on, no chain loses a flow but the one that was looked at. -/
theorem sweepFlow_buckets (hdeferred : s.Deferred) {f : Flow} (hf : s.flows.get id = some f) (now clock : Nat)
    (answers : List DownlinkAnswers) (hgo : (s.sweepFlow now clock id answers).2.2 = false) (b : Nat) :
    (s.sweepFlow now clock id answers).1.buckets b = s.buckets b ∨
      (s.sweepFlow now clock id answers).1.buckets b = (s.buckets b).erase id := by
  unfold Lane.sweepFlow at hgo ⊢
  rw [hf] at hgo ⊢
  dsimp only at hgo ⊢
  split
  · split
    · exact removeFlow_buckets b
    · exact .inl rfl
  · rename_i hopen
    rw [if_neg hopen] at hgo
    split
    · exact @teardownFlow_buckets
        { s with stats := { s.stats with flowsIdleEvicted := s.stats.flowsIdleEvicted + 1 } } id hdeferred b
    · rename_i hactive
      rw [if_neg hactive] at hgo
      split
      · rename_i hpaused
        rw [if_pos hpaused] at hgo
        split
        · exact .inl rfl
        · rename_i a rest
          have hlive : (downlinkTick f a).2 = .live := not_not.1 (of_decide_eq_false hgo)
          unfold Lane.settle
          rw [hlive]
          exact .inl rfl
      · exact .inl rfl

theorem overdue_iff (hfixed : t.fixed = s.fixed) {now : Nat} {f : Flow} : t.Overdue now f ↔ s.Overdue now f := by
  have htimeout : t.tcpIdleTimeoutSec = s.tcpIdleTimeoutSec := congrArg (·.2.1) hfixed
  rw [Overdue, Overdue, htimeout]

theorem nBuckets_eq (hfixed : t.fixed = s.fixed) : t.nBuckets = s.nBuckets := by
  have hmax : t.tcpMaxFlows = s.tcpMaxFlows := congrArg (·.1) hfixed
  rw [nBuckets, nBuckets, hmax]

theorem bucket_eq (hfixed : t.fixed = s.fixed) (key : FlowKey) : t.bucket key = s.bucket key := by
  have hseed : t.hashSeed = s.hashSeed := congrArg (·.2.2.1) hfixed
  rw [bucket, bucket, hseed, nBuckets_eq hfixed]

namespace Effect

variable {now : Nat} {f : Flow} {again : Bool}

/-- What is there of the other flows after a round was there before it. -/
theorem old (h : Effect now id f s t again) {j : Nat} (hj : j ≠ id) {g : Flow} (hg : t.flows.get j = some g) :
    s.flows.get j = some g := by
  cases h with
  | kept _ _ _ _ hothers => exact hothers j hj ▸ hg
  | overdue _ _ hothers => exact hothers j hj ▸ hg
  | fatal _ _ _ _ _ hothers => exact hothers j hj ▸ hg
  | closed _ _ _ _ _ _ hothers =>
    rcases hothers j hj with hsame | ⟨hnone, -⟩
    · exact hsame ▸ hg
    · rw [hnone] at hg
      cases hg

/-- A walk that goes on has left nothing behind. -/
theorem settled (h : Effect now id f s t false) {f' : Flow} (hf' : t.flows.get id = some f') : ¬s.Overdue now f' := by
  cases h with
  | kept htime hget hstate hstamp _ =>
    rw [hget] at hf'
    cases hf'
    rw [Overdue, hstate, olderThan, olderThan, hstamp]
    exact htime
  | overdue _ hget _ =>
    rw [hget] at hf'
    cases hf'

theorem any_tcp (h : Effect now id f s t again) (hf : s.flows.get id = some f) (j : Nat)
    (hj : (t.flows.get j).any Population.tcp.has = true) : (s.flows.get j).any Population.tcp.has = true := by
  obtain ⟨g, hg, hhas⟩ := (Option.any_eq_true _ _).1 hj
  refine (Option.any_eq_true _ _).2 ?_
  by_cases hid : j = id
  · subst hid
    refine ⟨f, hf, ?_⟩
    cases h with
    | kept _ hget hstate _ _ =>
      rw [hget] at hg
      cases hg
      rw [Population.has, ← hstate]
      exact hhas
    | overdue _ hget _ =>
      rw [hget] at hg
      cases hg
    | fatal _ hpop _ _ _ _ => exact decide_eq_true hpop
    | closed _ hpop _ _ _ _ _ => exact decide_eq_true hpop
  · exact ⟨g, h.old hid hg, hhas⟩

/-- A walk starts again only after a flow that relays has ended: this is why it ends. -/
theorem count_lt (h : Effect now id f s t true) (hf : s.flows.get id = some f) (hnext : t.flows.next = s.flows.next) :
    t.flows.count Population.tcp.has < s.flows.count Population.tcp.has := by
  have hlost : Population.tcp.has f = true ∧ (t.flows.get id).any Population.tcp.has = false := by
    cases h with
    | fatal _ hpop _ _ hget _ =>
      rw [hget]
      exact ⟨decide_eq_true hpop, rfl⟩
    | closed _ hpop _ _ hget hstate _ =>
      rw [hget, Option.any_some]
      exact ⟨decide_eq_true hpop, decide_eq_false (by rw [hstate]; decide)⟩
  exact Heap.count_lt hnext (h.any_tcp hf) hf hlost.1 hlost.2

end Effect

/-! ## The place in a chain -/

theorem dropWhile_append {behind ahead : List Nat} (hnodup : (behind ++ id :: ahead).Nodup) :
    (behind ++ id :: ahead).dropWhile (fun j => j != id) = id :: ahead := by
  have hbehind : ∀ j ∈ behind, (j != id) = true := by
    intro j hj
    refine bne_iff_ne.2 ?_
    rintro rfl
    exact (List.nodup_append.1 hnodup).2.2 j hj j List.mem_cons_self rfl
  rw [List.dropWhile_append_of_pos hbehind, List.dropWhile_cons_of_neg (by simp)]

theorem follow_append {behind ahead : List Nat} (hnodup : (behind ++ id :: ahead).Nodup) :
    follow (behind ++ id :: ahead) id = ahead.head? := by
  rw [follow, dropWhile_append hnodup, List.tail_cons]

/-- What was ahead of a flow is still the end of its chain, if the chain has lost no other one. -/
theorem ahead_of_erase {behind ahead chain : List Nat} (hnodup : (behind ++ id :: ahead).Nodup)
    (hchain : chain = behind ++ id :: ahead ∨ chain = (behind ++ id :: ahead).erase id) :
    ∃ behind', chain = behind' ++ ahead ∧ ∀ j ∈ behind', j ∈ behind ∨ j = id := by
  rcases hchain with rfl | rfl
  · refine ⟨behind ++ [id], by rw [List.append_assoc, List.singleton_append], fun j hj => ?_⟩
    exact (List.mem_append.1 hj).imp_right List.mem_singleton.1
  · have hid : id ∉ behind :=
      fun hmem => (List.nodup_append.1 hnodup).2.2 id hmem id List.mem_cons_self rfl
    refine ⟨behind, ?_, fun j hj => .inl hj⟩
    rw [List.erase_append_right _ hid, List.erase_cons_head]

/-! ## Between the rounds -/

namespace Sweeper

/-- What holds between the rounds: the flows that were passed, in this bucket and in the ones
    before it, are not overdue. -/
structure Good (now : Nat) (u : Sweeper) : Prop where
  inv : u.lane.Inv
  deferred : u.lane.Deferred
  walk : ∃ behind ahead, u.lane.buckets u.b = behind ++ ahead ∧ u.f = ahead.head? ∧
    ∀ id ∈ behind, ∀ f, u.lane.flows.get id = some f → ¬u.lane.Overdue now f
  passed : ∀ id f, u.lane.flows.get id = some f → u.lane.bucket f.key < u.b → ¬u.lane.Overdue now f

/-- The flows of the bucket that are ahead. -/
def left (u : Sweeper) : Nat :=
  match u.f with
  | none => 0
  | some id => ((u.lane.buckets u.b).dropWhile fun j => j != id).length

/-- The flows that relay, the buckets to come, and the flows of the bucket to come. -/
def measure (u : Sweeper) : Nat ×ₗ Nat ×ₗ Nat :=
  toLex (u.lane.flows.count Population.tcp.has, toLex (u.lane.nBuckets - u.b, u.left))

variable {u v : Sweeper} {now : Nat}

theorem left_eq {behind ahead : List Nat} (hnodup : (u.lane.buckets u.b).Nodup) (hchain : u.lane.buckets u.b = behind ++ ahead)
    (hf : u.f = ahead.head?) : u.left = ahead.length := by
  rw [left, hf, hchain]
  rw [hchain] at hnodup
  cases ahead with
  | nil => rfl
  | cons id ahead =>
    dsimp only [List.head?_cons]
    rw [dropWhile_append hnodup]

/-- The walk is at a flow of its bucket. -/
theorem Good.at_flow (h : Good now u) (hf : u.f = some id) :
    ∃ behind ahead f, u.lane.buckets u.b = behind ++ id :: ahead ∧ u.lane.flows.get id = some f ∧
      u.lane.bucket f.key = u.b ∧ ∀ j ∈ behind, ∀ g, u.lane.flows.get j = some g → ¬u.lane.Overdue now g := by
  obtain ⟨behind, ahead, hchain, hhead, hbehind⟩ := h.walk
  rw [hf] at hhead
  cases ahead with
  | nil => cases hhead
  | cons j ahead =>
    cases hhead
    obtain ⟨f, hget, hbucket⟩ := (h.inv.chain u.b id).1 (by
      rw [hchain]
      exact List.mem_append_right _ List.mem_cons_self)
    exact ⟨behind, ahead, f, hchain, hget, hbucket, hbehind⟩

/-- After the round of a flow, whatever was passed before it is still not overdue. -/
theorem Good.passed_of_effect (h : Good now u) {f : Flow} {again : Bool} (hget : u.lane.flows.get id = some f)
    (hbucket : u.lane.bucket f.key = u.b) (hkeeps : Keeps u.lane t) (heffect : Effect now id f u.lane t again)
    (j : Nat) (g : Flow) (hg : t.flows.get j = some g) (hlt : t.bucket g.key < u.b) : ¬t.Overdue now g := by
  rw [bucket_eq hkeeps.fixed] at hlt
  rw [overdue_iff hkeeps.fixed]
  have hj : j ≠ id := by
    rintro rfl
    obtain ⟨g', hg', hkey, -⟩ := hkeeps.evolves.old hg
    rw [hget] at hg'
    cases hg'
    rw [← hkey, hbucket] at hlt
    exact Nat.lt_irrefl _ hlt
  exact h.passed j g (heffect.old hj hg) hlt

/-- After a flow that has ended the walk starts again. -/
theorem Good.again (h : Good now u) {f : Flow} (hget : u.lane.flows.get id = some f) (hbucket : u.lane.bucket f.key = u.b)
    (hkeeps : Keeps u.lane t) (heffect : Effect now id f u.lane t true) :
    Good now { lane := t, b := u.b, f := (t.buckets u.b).head? } ∧
      measure { lane := t, b := u.b, f := (t.buckets u.b).head? } < u.measure := by
  refine ⟨⟨hkeeps.inv, hkeeps.deferred.2 h.deferred, ⟨[], _, rfl, rfl, fun j hj => absurd hj List.not_mem_nil⟩,
    h.passed_of_effect hget hbucket hkeeps heffect⟩, ?_⟩
  exact Prod.Lex.toLex_lt_toLex.2 (.inl (heffect.count_lt hget hkeeps.evolves.next))

/-- The walk goes on with the flow that came next. -/
theorem Good.go_on (h : Good now u) {behind ahead : List Nat} {f : Flow} (hf : u.f = some id)
    (hchain : u.lane.buckets u.b = behind ++ id :: ahead) (hget : u.lane.flows.get id = some f)
    (hbucket : u.lane.bucket f.key = u.b)
    (hbehind : ∀ j ∈ behind, ∀ g, u.lane.flows.get j = some g → ¬u.lane.Overdue now g)
    (hkeeps : Keeps u.lane t) (heffect : Effect now id f u.lane t false)
    (hchains : t.buckets u.b = u.lane.buckets u.b ∨ t.buckets u.b = (u.lane.buckets u.b).erase id) :
    Good now { lane := t, b := u.b, f := follow (u.lane.buckets u.b) id } ∧
      measure { lane := t, b := u.b, f := follow (u.lane.buckets u.b) id } < u.measure := by
  have hnodup := h.inv.nodup u.b
  have hleft : u.left = ahead.length + 1 := left_eq hnodup hchain hf
  rw [hchain] at hnodup hchains
  have hfollow := follow_append hnodup
  obtain ⟨behind', hchain', hmem⟩ := ahead_of_erase hnodup hchains
  have hbehind' : ∀ j ∈ behind', ∀ g, t.flows.get j = some g → ¬u.lane.Overdue now g := by
    intro j hj g hg
    by_cases hid : j = id
    · exact heffect.settled (hid ▸ hg)
    · exact hbehind j ((hmem j hj).resolve_right hid) g (heffect.old hid hg)
  rw [hchain, hfollow]
  have hgood : Good now { lane := t, b := u.b, f := ahead.head? } :=
    ⟨hkeeps.inv, hkeeps.deferred.2 h.deferred,
      ⟨behind', ahead, hchain', rfl, fun j hj g hg => (overdue_iff hkeeps.fixed).not.2 (hbehind' j hj g hg)⟩,
      h.passed_of_effect hget hbucket hkeeps heffect⟩
  refine ⟨hgood, ?_⟩
  have hleft' : left { lane := t, b := u.b, f := ahead.head? } = ahead.length :=
    left_eq (hkeeps.inv.nodup u.b) hchain' rfl
  have hcount := Heap.count_le hkeeps.evolves.next (heffect.any_tcp hget)
  rw [measure, measure, hleft, hleft', nBuckets_eq hkeeps.fixed]
  rcases Nat.lt_or_eq_of_le hcount with hlt | heq
  · exact Prod.Lex.toLex_lt_toLex.2 (.inl hlt)
  · exact Prod.Lex.toLex_lt_toLex.2 (.inr ⟨heq, Prod.Lex.toLex_lt_toLex.2 (.inr ⟨rfl, Nat.lt_succ_self _⟩)⟩)

theorem Good.visit (h : Good now u) (hf : u.f = some id) (clock : Nat) (answers : List DownlinkAnswers) :
    Good now (u.visit now clock id answers) ∧ (u.visit now clock id answers).measure < u.measure := by
  obtain ⟨behind, ahead, f, hchain, hget, hbucket, hbehind⟩ := h.at_flow hf
  have heffect := h.inv.sweepFlow_effect hget now clock answers
  have hchains := sweepFlow_buckets h.deferred hget now clock answers
  obtain ⟨hkeeps, -⟩ := h.inv.sweepFlow (fun _ => Option.isSome_iff_exists.2 ⟨f, hget⟩) now clock answers
  unfold Sweeper.visit
  dsimp only
  generalize u.lane.sweepFlow now clock id answers = r at heffect hchains hkeeps ⊢
  cases hagain : r.2.2 with
  | true =>
    rw [hagain] at heffect
    exact h.again hget hbucket hkeeps heffect
  | false =>
    rw [hagain] at heffect
    exact h.go_on hf hchain hget hbucket hbehind hkeeps heffect (hchains hagain u.b)

/-- At the end of a chain, all of its bucket was passed. -/
theorem Good.passed_bucket (h : Good now u) (hf : u.f = none) (id : Nat) (f : Flow) (hget : u.lane.flows.get id = some f)
    (hlt : u.lane.bucket f.key < u.b + 1) : ¬u.lane.Overdue now f := by
  obtain ⟨behind, ahead, hchain, hhead, hbehind⟩ := h.walk
  rcases Nat.lt_or_eq_of_le (Nat.le_of_lt_succ hlt) with hbefore | hhere
  · exact h.passed id f hget hbefore
  · rw [hf, eq_comm, List.head?_eq_none_iff] at hhead
    rw [hhead, List.append_nil] at hchain
    exact hbehind id (hchain ▸ (h.inv.chain u.b id).2 ⟨f, hget, hhere⟩) f hget

theorem Good.advance (h : Good now u) (hf : u.f = none) (hb : u.b + 1 < u.lane.nBuckets) :
    Good now u.advance ∧ u.advance.measure < u.measure := by
  refine ⟨⟨h.inv, h.deferred, ⟨[], _, rfl, rfl, fun j hj => absurd hj List.not_mem_nil⟩, h.passed_bucket hf⟩, ?_⟩
  rw [measure, measure]
  refine Prod.Lex.toLex_lt_toLex.2 (.inr ⟨rfl, Prod.Lex.toLex_lt_toLex.2 (.inl ?_)⟩)
  change u.lane.nBuckets - (u.b + 1) < u.lane.nBuckets - u.b
  omega

/-- One round. -/
theorem Good.next (h : Good now u) (hnext : Next now u v) : Good now v ∧ v.measure < u.measure := by
  cases hnext with
  | visit hf clock answers => exact h.visit hf clock answers
  | advance hf hb => exact h.advance hf hb

/-- No round takes the lane out of its invariant, or does anything to the markers for raw flows. -/
theorem Good.keeps (h : Good now u) (hnext : Next now u v) : Keeps u.lane v.lane := by
  cases hnext with
  | visit hf clock answers =>
    obtain ⟨_, _, f, -, hget, -⟩ := h.at_flow hf
    exact (h.inv.sweepFlow (fun _ => Option.isSome_iff_exists.2 ⟨f, hget⟩) now clock answers).1
  | advance => exact h.inv.keeps_self

/-- Why a flow goes, or becomes a marker, in the round after `u`. -/
inductive Cause (now : Nat) (u : Sweeper) (id : Nat) (f : Flow) : Prop
  | overdue (hat : u.f = some id) (hlate : u.lane.Overdue now f)
  | fatal (a : DownlinkAnswers) (hat : u.f = some id) (hpaused : f.downlinkPaused = true)
      (hout : (downlinkTick f a).2 = .relayError)
  | closed (a : DownlinkAnswers) (hat : u.f = some id) (hpaused : f.downlinkPaused = true)
      (hout : (downlinkTick f a).2 = .cleanClose)
  | evicted (j : Nat) (g : Flow) (a : DownlinkAnswers) (hat : u.f = some j) (hget : u.lane.flows.get j = some g)
      (hpaused : g.downlinkPaused = true) (hout : (downlinkTick g a).2 = .cleanClose) (hstate : f.state = .closing)
      (hfull : closingCap ≤ u.lane.nClosing)

theorem Good.cause (h : Good now u) (hnext : Next now u v) {j : Nat} {g : Flow} (hg : u.lane.flows.get j = some g)
    (hlost : ∀ g', v.lane.flows.get j = some g' → g'.state ≠ g.state) : Cause now u j g := by
  cases hnext with
  | advance => exact absurd rfl (hlost g hg)
  | @visit id hf clock answers =>
    obtain ⟨_, _, f, -, hget, -⟩ := h.at_flow hf
    have heffect := h.inv.sweepFlow_effect hget now clock answers
    unfold Sweeper.visit at hlost
    dsimp only at hlost
    generalize u.lane.sweepFlow now clock id answers = r at heffect hlost
    generalize r.2.2 = again at heffect
    have hsame (hj : j ≠ id) (hothers : ∀ k, k ≠ id → r.1.flows.get k = u.lane.flows.get k) : False :=
      hlost g ((hothers j hj).trans hg) rfl
    by_cases hj : j = id
    · subst hj
      rw [hget] at hg
      cases hg
      cases heffect with
      | kept _ hget' hstate _ _ => exact absurd hstate (hlost _ hget')
      | overdue hlate _ _ => exact .overdue hf hlate
      | fatal a _ hpaused hout _ _ => exact .fatal a hf hpaused hout
      | closed a _ hpaused hout _ _ _ => exact .closed a hf hpaused hout
    · cases heffect with
      | kept _ _ _ _ hothers => exact (hsame hj hothers).elim
      | overdue _ _ hothers => exact (hsame hj hothers).elim
      | fatal _ _ _ _ _ hothers => exact (hsame hj hothers).elim
      | closed a _ hpaused hout _ _ hothers =>
        rcases hothers j hj with hkept | ⟨-, g', hg', hclosing, hfull⟩
        · exact absurd rfl (hlost g (hkept.trans hg))
        · rw [hg] at hg'
          cases hg'
          exact .evicted id f a hf hget hpaused hout hclosing hfull

/-! ## Whole sweeps -/

/-- The loops have no further round only if they are over. -/
theorem over_of_last (hlast : ∀ v, ¬Next now u v) : u.f = none ∧ u.lane.nBuckets ≤ u.b + 1 := by
  have hf : u.f = none := by
    cases hf : u.f with
    | none => rfl
    | some id => exact absurd (.visit hf 0 []) (hlast _)
  exact ⟨hf, Nat.le_of_not_lt fun hb => hlast _ (.advance hf hb)⟩

theorem last_of_over (hf : u.f = none) (hb : u.lane.nBuckets ≤ u.b + 1) (v : Sweeper) : ¬Next now u v := by
  intro hnext
  cases hnext with
  | visit hid => rw [hf] at hid; cases hid
  | advance _ hlt => exact absurd hlt (Nat.not_lt_of_le hb)

/-- At the end no flow is overdue. -/
theorem Good.not_overdue (h : Good now u) (hlast : ∀ v, ¬Next now u v) {id : Nat} {f : Flow}
    (hget : u.lane.flows.get id = some f) : ¬u.lane.Overdue now f := by
  obtain ⟨hf, hb⟩ := over_of_last hlast
  exact h.passed_bucket hf id f hget (Nat.lt_of_lt_of_le (bucketOf_lt _ u.lane.nBuckets_pos _) hb)

theorem Good.reaches (h : Good now u) (hreach : Relation.ReflTransGen (Next now) u v) :
    Good now v ∧ Keeps u.lane v.lane := by
  refine Loops.invariant_of_reaches (J := fun v => Good now v ∧ Keeps u.lane v.lane) ?_ ⟨h, h.inv.keeps_self⟩ hreach
  rintro v w ⟨hgood, hkeeps⟩ hnext
  exact ⟨(hgood.next hnext).1, hkeeps.trans (hgood.keeps hnext)⟩

theorem Good.ends (h : Good now u) : Loops.Ends (Next now) u :=
  Loops.ends_of_measure measure (fun _ _ hgood hnext => hgood.next hnext) h

theorem Good.reaches_cause (h : Good now u) (hreach : Relation.ReflTransGen (Next now) u v) {id : Nat} {f : Flow}
    (hf : u.lane.flows.get id = some f) (hlost : ∀ g, v.lane.flows.get id = some g → g.state ≠ f.state) :
    ∃ w g, Relation.ReflTransGen (Next now) u w ∧ w.lane.flows.get id = some g ∧ g.state = f.state ∧
      Cause now w id g := by
  obtain ⟨w, w', hw, hnext, ⟨g, hg, hstate⟩, hgone⟩ := Loops.exists_round_of_change
    (P := fun w : Sweeper => ∃ g, w.lane.flows.get id = some g ∧ g.state = f.state) hreach ⟨f, hf, rfl⟩
    fun ⟨g, hg, hstate⟩ => hlost g hg hstate
  refine ⟨w, g, hw, hg, hstate, (h.reaches hw).1.cause hnext hg fun g' hg' hsame => hgone ⟨g', hg', ?_⟩⟩
  rw [hsame, hstate]

/-! ## The sweep as it is written -/

/-- An answer is taken for every flow that ends. -/
theorem sweepFlow_answers (s : Lane) (now clock id : Nat) (answers : List DownlinkAnswers) :
    (s.sweepFlow now clock id answers).2.1.length ≤ answers.length ∧
      ((s.sweepFlow now clock id answers).2.2 = true → (s.sweepFlow now clock id answers).2.1.length < answers.length) := by
  unfold Lane.sweepFlow
  split
  · exact ⟨Nat.le_refl _, fun hagain => Bool.noConfusion hagain⟩
  · dsimp only
    split
    · exact ⟨Nat.le_refl _, fun hagain => Bool.noConfusion hagain⟩
    · split
      · exact ⟨Nat.le_refl _, fun hagain => Bool.noConfusion hagain⟩
      · split
        · split
          · exact ⟨Nat.le_refl _, fun hagain => Bool.noConfusion hagain⟩
          · exact ⟨Nat.le_succ _, fun _ => Nat.lt_succ_self _⟩
        · exact ⟨Nat.le_refl _, fun hagain => Bool.noConfusion hagain⟩

/-- A walk of `sweepChain` over the rest of a chain. -/
theorem reaches_chain (now clock b : Nat) {behind ahead : List Nat} (h : t.Inv) (hdeferred : t.Deferred)
    (hchain : t.buckets b = behind ++ ahead) (answers : List DownlinkAnswers) :
    ((sweepChain now clock t ahead answers).2.2 = false →
      Relation.ReflTransGen (Next now) { lane := t, b, f := ahead.head? }
        { lane := (sweepChain now clock t ahead answers).1, b, f := none }) ∧
    ((sweepChain now clock t ahead answers).2.2 = true →
      Relation.ReflTransGen (Next now) { lane := t, b, f := ahead.head? }
        { lane := (sweepChain now clock t ahead answers).1, b,
          f := ((sweepChain now clock t ahead answers).1.buckets b).head? } ∧
      (sweepChain now clock t ahead answers).2.1.length < answers.length) := by
  induction ahead generalizing t behind answers with
  | nil => exact ⟨fun _ => .refl, fun hagain => Bool.noConfusion hagain⟩
  | cons id ahead ih =>
    obtain ⟨f, hget, -⟩ := (h.chain b id).1 (by
      rw [hchain]
      exact List.mem_append_right _ List.mem_cons_self)
    have hround : Next now { lane := t, b, f := some id } (Sweeper.visit { lane := t, b, f := some id } now clock id answers) :=
      .visit rfl clock answers
    have hchains := sweepFlow_buckets hdeferred hget now clock answers
    obtain ⟨hkeeps, -⟩ := h.sweepFlow (fun _ => Option.isSome_iff_exists.2 ⟨f, hget⟩) now clock answers
    obtain ⟨hfew, hless⟩ := sweepFlow_answers t now clock id answers
    have hnodup := h.nodup b
    rw [hchain] at hnodup
    unfold Sweeper.visit at hround
    unfold sweepChain
    dsimp only at hround ⊢
    generalize t.sweepFlow now clock id answers = r at hchains hkeeps hfew hless hround ⊢
    cases hagain : r.2.2 with
    | true =>
      rw [hagain] at hround
      rw [if_pos rfl]
      exact ⟨fun hgo => Bool.noConfusion (hagain.symm.trans hgo), fun _ => ⟨.single hround, hless hagain⟩⟩
    | false =>
      rw [hagain, if_neg Bool.false_ne_true, hchain, follow_append hnodup] at hround
      rw [if_neg Bool.false_ne_true]
      have hafter := hchains hagain b
      rw [hchain] at hafter
      obtain ⟨behind', hchain', -⟩ := ahead_of_erase hnodup hafter
      obtain ⟨hend, hrestart⟩ := ih hkeeps.inv (hkeeps.deferred.2 hdeferred) hchain' r.2.1
      refine ⟨fun hgo => .head hround (hend hgo), fun hag => ?_⟩
      obtain ⟨hreach, hlt⟩ := hrestart hag
      exact ⟨.head hround hreach, Nat.lt_of_lt_of_le hlt hfew⟩

/-- The walks of `sweepBucket` do not run out. -/
theorem reaches_bucket (now clock b walks : Nat) (h : t.Inv) (hdeferred : t.Deferred) (answers : List DownlinkAnswers)
    (hwalks : answers.length < walks) :
    Relation.ReflTransGen (Next now) { lane := t, b, f := (t.buckets b).head? }
      { lane := (sweepBucket now clock b walks t answers).1, b, f := none } := by
  induction walks generalizing t answers with
  | zero => exact absurd hwalks (Nat.not_lt_zero _)
  | succ walks ih =>
    obtain ⟨hend, hrestart⟩ := reaches_chain now clock b h hdeferred (List.nil_append _).symm answers
    have hwalk := h.sweepChain (h.nodup b) (fun _ id hid => by
      obtain ⟨f, hf, -⟩ := (h.chain b id).1 hid
      exact Option.isSome_iff_exists.2 ⟨f, hf⟩) now clock answers
    unfold sweepBucket
    dsimp only
    split
    · rename_i hagain
      obtain ⟨hreach, hlt⟩ := hrestart hagain
      exact hreach.trans (ih hwalk.inv (hwalk.deferred.2 hdeferred) _
        (Nat.lt_of_lt_of_le hlt (Nat.le_of_lt_succ hwalks)))
    · rename_i hgo
      exact hend (Bool.eq_false_iff.2 hgo)

/-- The buckets one after the other. -/
theorem reaches_buckets (now clock : Nat) (h : t.Inv) (hdeferred : t.Deferred) (answers : List DownlinkAnswers) (n : Nat)
    (hn : n < t.nBuckets) :
    let r := (List.range (n + 1)).foldl (fun r b => sweepBucket now clock b (r.2.length + 1) r.1 r.2) (t, answers)
    Relation.ReflTransGen (Next now) (enter t) { lane := r.1, b := n, f := none } ∧ Keeps t r.1 := by
  induction n with
  | zero =>
    exact ⟨reaches_bucket now clock 0 _ h hdeferred answers (Nat.lt_succ_self _),
      h.sweepBucket now clock 0 _ answers⟩
  | succ n ih =>
    obtain ⟨hreach, hkeeps⟩ := ih (Nat.lt_of_succ_lt hn)
    rw [List.range_succ, List.foldl_append, List.foldl_cons, List.foldl_nil]
    dsimp only at hreach hkeeps ⊢
    generalize (List.range (n + 1)).foldl (fun r b => sweepBucket now clock b (r.2.length + 1) r.1 r.2) (t, answers) = r
      at hreach hkeeps ⊢
    have hadvance : Next now { lane := r.1, b := n, f := none } { lane := r.1, b := n + 1, f := (r.1.buckets (n + 1)).head? } :=
      .advance rfl (by
        change n + 1 < r.1.nBuckets
        rw [nBuckets_eq hkeeps.fixed]
        exact hn)
    exact ⟨hreach.trans (.head hadvance
        (reaches_bucket now clock (n + 1) _ hkeeps.inv (hkeeps.deferred.2 hdeferred) r.2 (Nat.lt_succ_self _))),
      hkeeps.trans (hkeeps.inv.sweepBucket now clock (n + 1) _ r.2)⟩

/-- What `sweep` does is a run of the loops to their end. -/
theorem reaches_sweep (now clock : Nat) (h : t.Inv) (hdeferred : t.Deferred) (answers : List DownlinkAnswers) :
    ∃ u, Relation.ReflTransGen (Next now) (enter t) u ∧ (∀ v, ¬Next now u v) ∧ u.lane = t.sweep now clock answers := by
  obtain ⟨n, hn⟩ := Nat.exists_eq_succ_of_ne_zero t.nBuckets_pos.ne'
  obtain ⟨hreach, hkeeps⟩ := reaches_buckets now clock h hdeferred answers n (by omega)
  refine ⟨_, hreach, last_of_over rfl ?_, ?_⟩
  · dsimp only
    rw [nBuckets_eq hkeeps.fixed, hn]
  · rw [sweep, hn]

end Sweeper

/-! ## Results -/

theorem good_enter (h : s.Inv) (hdeferred : s.Deferred) (now : Nat) : Sweeper.Good now (enter s) where
  inv := h
  deferred := hdeferred
  walk := ⟨[], _, rfl, rfl, fun _ hid => absurd hid List.not_mem_nil⟩
  passed _ _ _ hlt := absurd hlt (Nat.not_lt_zero _)

/-- A flow that is not overdue, in the words of the states. -/
theorem in_time_of_not_overdue {now : Nat} {f : Flow} (h : ¬s.Overdue now f) :
    (f.state = .pendingAccept ∨ f.state = .pendingStream ∨ f.state = .active → s.tcpIdleTimeoutSec ≠ 0 →
      now - f.lastActivityUs ≤ s.tcpIdleTimeoutSec.toNat * 1000000) ∧
    (f.state = .closing → now - f.lastActivityUs ≤ closingGraceUs) := by
  have hold {us : Nat} (hlate : ¬olderThan f now us = true) : now - f.lastActivityUs ≤ us := by
    rw [olderThan, decide_eq_true_iff] at hlate
    omega
  refine ⟨fun hstate hon => hold fun hlate => h (.inr ⟨?_, hon, hlate⟩), fun hstate => hold fun hlate => h (.inl ⟨hstate, hlate⟩)⟩
  rcases hstate with hstate | hstate | hstate <;>
    · rw [hstate]
      rfl

/-- Whatever the clock says and the flows answer, the loops of the sweep end, no round uses a flow
    that is gone, no round does anything to a marker for a raw flow, and a flow goes or becomes a
    marker only if it was overdue, a retry has ended it, or it was a marker and gave way to
    another one. At the end no flow is overdue. `tick` is such a run, if the sweep is due. -/
theorem tick_sweeps (tcpMaxFlows tcpIdleTimeoutSec : UInt32) (hashSeed : UInt64) (reenters : Nat → Bool)
    (steps : List Step) (hdeferred : ∀ request, reenters request = false)
    (hproper : Runs.Along Lane.step Proper (start tcpMaxFlows tcpIdleTimeoutSec hashSeed reenters) steps) (now : Nat) :
    let s := (start tcpMaxFlows tcpIdleTimeoutSec hashSeed reenters).run steps
    let loops := enter { s with lastSweepUs := now }
    Loops.Ends (Sweeper.Next now) loops ∧
    (∀ u, Relation.ReflTransGen (Sweeper.Next now) loops u →
      u.lane.fault = false ∧
      (∀ id f, s.flows.get id = some f → f.state = .stickyRaw → u.lane.flows.get id = some f) ∧
      (∀ id f, s.flows.get id = some f → (∀ g, u.lane.flows.get id = some g → g.state ≠ f.state) →
        ∃ w g, Relation.ReflTransGen (Sweeper.Next now) loops w ∧ w.lane.flows.get id = some g ∧
          g.state = f.state ∧ Sweeper.Cause now w id g) ∧
      ((∀ v, ¬Sweeper.Next now u v) → ∀ id f, u.lane.flows.get id = some f →
        (f.state = .pendingAccept ∨ f.state = .pendingStream ∨ f.state = .active → tcpIdleTimeoutSec ≠ 0 →
          now - f.lastActivityUs ≤ tcpIdleTimeoutSec.toNat * 1000000) ∧
        (f.state = .closing → now - f.lastActivityUs ≤ closingGraceUs))) ∧
    ∀ clock answers, (¬s.Due now → s.tick now clock answers = s) ∧
      (s.Due now → ∃ u, Relation.ReflTransGen (Sweeper.Next now) loops u ∧ (∀ v, ¬Sweeper.Next now u v) ∧
        u.lane = s.tick now clock answers) := by
  intro s loops
  obtain ⟨hinv, hfixed⟩ := inv_run tcpMaxFlows tcpIdleTimeoutSec hashSeed reenters steps hproper
  have hlatch := hinv.keeps_latch now
  have hopen : Deferred { s with lastSweepUs := now } := hlatch.deferred.2 ((deferred_iff hfixed).2 hdeferred)
  have hgood := good_enter hlatch.inv hopen now
  refine ⟨hgood.ends, fun u hreach => ?_, fun clock answers => ⟨fun hnot => ?_, fun hdue => ?_⟩⟩
  · obtain ⟨hgoodu, hkeeps⟩ := hgood.reaches hreach
    have htimeout : u.lane.tcpIdleTimeoutSec = tcpIdleTimeoutSec :=
      congrArg (·.2.1) (hkeeps.fixed.trans (hlatch.fixed.trans hfixed))
    refine ⟨hgoodu.inv.faultless hgoodu.deferred, fun id f hf hraw => hkeeps.evolves.marker hf hraw,
      fun id f hf hlost => hgood.reaches_cause hreach hf hlost, fun hlast id f hf => ?_⟩
    have htime := in_time_of_not_overdue (hgoodu.not_overdue hlast hf)
    rw [htimeout] at htime
    exact htime
  · unfold Lane.tick
    split
    · rfl
    · rename_i hbusy
      rw [if_pos (Nat.lt_of_not_le fun hcadence => hnot ⟨hbusy, hcadence⟩)]
  · obtain ⟨u, hreach, hlast, hlane⟩ := Sweeper.reaches_sweep now clock hlatch.inv hopen answers
    refine ⟨u, hreach, hlast, ?_⟩
    unfold Lane.tick
    rw [if_neg hdue.1, if_neg (Nat.not_lt_of_le hdue.2)]
    exact hlane

/-- A hundred seconds later, with a marker and an idle timeout of a minute. -/
theorem tick_sweeps_sample :
    Runs.Along Lane.step Proper (start 2 60 5 fun _ => false) sampleSteps ∧
      ((start 2 60 5 fun _ => false).run sampleSteps).Due 100000000 ∧
      ∃ u : Sweeper, u.lane.fault = false ∧
        u.lane = ((start 2 60 5 fun _ => false).run sampleSteps).tick 100000000 100000000 [] := by
  have hproper : Runs.Along Lane.step Proper (start 2 60 5 fun _ => false) sampleSteps := by decide +kernel
  have hdue : ((start 2 60 5 fun _ => false).run sampleSteps).Due 100000000 := by
    unfold Due
    decide +kernel
  obtain ⟨-, hsafe, htick⟩ := tick_sweeps 2 60 5 (fun _ => false) sampleSteps (fun _ => rfl) hproper 100000000
  obtain ⟨u, hreach, -, hlane⟩ := (htick 100000000 []).2 hdue
  exact ⟨hproper, hdue, u, (hsafe u hreach).1, hlane⟩

end Lane

end Mqvpn.Hybrid
