import Mathlib.Algebra.Order.BigOperators.Group.List
import Mathlib.Algebra.Order.Group.Nat
import Mqvpn.Reorder.FlowInv
import Mqvpn.Reorder.Rx

/-!
# The changes of the flow table

What can happen to the flows of a receiver, said once. An `Act` is one such
thing: a flow processes a packet, times out, is evicted or created, or a packet
bypasses the flows. A `Change` is what an act does to the list of the flows and
to what they share, with the flow it is about in focus between two lists of
others.

`Inv` is what holds of the flows of a receiver and of what they share; every act
keeps it (`Change.inv`).
-/

namespace Mqvpn.Reorder

/-- One thing that happens to the flows of a receiver. -/
inductive Act
  | packet (f : Flow) (p : Arrival)
  | timeout (f : Flow) (nowUs : Nat)
  | evict (f : Flow)
  | create (key : FlowKey)
  | bypass (inner : Bytes)

/-- What an act does to the flows and to what they share. -/
inductive Change (cfg : Config) : Act → Shared → List Flow → Shared → List Flow → Prop
  | packet {s : Shared} {l r : List Flow} {f : Flow} (p : Arrival) :
      Change cfg (.packet f p) s (l ++ f :: r) (View.onReordered ⟨s, f⟩ cfg p).toShared
        (l ++ (View.onReordered ⟨s, f⟩ cfg p).flow :: r)
  | timeout {s : Shared} {l r : List Flow} {f : Flow} (nowUs : Nat) : f.timeoutDue nowUs = true →
      Change cfg (.timeout f nowUs) s (l ++ f :: r) (View.onGapTimeout ⟨s, f⟩ nowUs).toShared
        (l ++ (View.onGapTimeout ⟨s, f⟩ nowUs).flow :: r)
  | evict {s : Shared} {l r : List Flow} {f : Flow} :
      Change cfg (.evict f) s (l ++ f :: r) (s.evict f) (l ++ r)
  | create {s : Shared} {l r : List Flow} {key : FlowKey} : (∀ g ∈ l ++ r, g.key ≠ key) →
      Change cfg (.create key) s (l ++ r)
        { s with nFlows := s.nFlows + 1, trace := s.trace ++ [.created key] }
        (l ++ newFlow cfg key :: r)
  | bypass {s : Shared} {l : List Flow} (inner : Bytes) :
      Change cfg (.bypass inner) s l { s with trace := s.trace ++ [.bypassed inner] } l

/-- What a sequence of acts does. -/
inductive Changes (cfg : Config) : List Act → Shared → List Flow → Shared → List Flow → Prop
  | nil (s : Shared) (l : List Flow) : Changes cfg [] s l s l
  | cons {a : Act} {as : List Act} {s s' s'' : Shared} {l l' l'' : List Flow} :
      Change cfg a s l s' l' → Changes cfg as s' l' s'' l'' → Changes cfg (a :: as) s l s'' l''

namespace Changes

variable {cfg : Config} {a : Act} {as as' : List Act} {s s' s'' : Shared} {l l' l'' : List Flow}

theorem append (h : Changes cfg as s l s' l') (h' : Changes cfg as' s' l' s'' l'') :
    Changes cfg (as ++ as') s l s'' l'' := by
  induction h with
  | nil => exact h'
  | cons hc _ ih => exact .cons hc (ih h')

theorem single (h : Change cfg a s l s' l') : Changes cfg [a] s l s' l' := .cons h (.nil ..)

theorem exists_of_append (h : Changes cfg (as ++ as') s l s'' l'') :
    ∃ s' l', Changes cfg as s l s' l' ∧ Changes cfg as' s' l' s'' l'' := by
  induction as generalizing s l with
  | nil => exact ⟨s, l, .nil .., h⟩
  | cons a as ih =>
    cases h with
    | cons hc h =>
      obtain ⟨s', l', h₁, h₂⟩ := ih h
      exact ⟨s', l', .cons hc h₁, h₂⟩

/-- The invariant rule: what every act keeps, a sequence of them keeps. -/
theorem keeps {P : Shared → List Flow → Prop}
    (step : ∀ a ∈ as, ∀ {s l s' l'}, Change cfg a s l s' l' → P s l → P s' l')
    (h : Changes cfg as s l s' l') (hp : P s l) : P s' l' := by
  induction h with
  | nil => exact hp
  | cons hc _ ih =>
    exact ih (fun a ha => step a (List.mem_cons_of_mem _ ha)) (step _ List.mem_cons_self hc hp)

end Changes

/-! ## The invariant -/

/-- What holds of the flows of a receiver and what they share. -/
structure Inv (cfg : Config) (s : Shared) (flows : List Flow) : Prop where
  nodup : (flows.map Flow.key).Nodup
  nFlows : s.nFlows = flows.length
  pool : s.poolBytesUsed = (flows.map (·.buffer.bytes)).sum
  pooled : s.poolBytesUsed ≤ cfg.globalMaxBufferBytes
  sound : ∀ e ∈ s.trace, e.Sound
  sorted : ∀ k, (epochs k s.trace).AllPairwise (· < ·)
  ready : ∀ f ∈ flows, Ready cfg [] ⟨s, f⟩

/-- An invariant of a flow is about the trace of its own key. -/
theorem Ready.congr {cfg : Config} {hand : List Bytes} {s s' : Shared} {f : Flow} {evs : List Event}
    (h : Ready cfg hand ⟨s, f⟩) (ht : s'.trace = s.trace ++ evs)
    (hne : ∀ e ∈ evs, e.key? ≠ some f.key) (hcharged : f.buffer.bytes ≤ s'.poolBytesUsed)
    (hpooled : s'.poolBytesUsed ≤ cfg.globalMaxBufferBytes) : Ready cfg hand ⟨s', f⟩ := by
  have he : epochs f.key s'.trace = epochs f.key s.trace := by rw [ht, epochs_append_of_ne hne]
  have hl : ledger f.key s'.trace = ledger f.key s.trace := by rw [ht, ledger_append_of_ne hne]
  refine ⟨⟨h.core.cap, h.core.ring, hcharged, hpooled, ?_, ?_⟩, h.periods, h.settled, h.idle, ?_⟩
  · dsimp only
    rw [hl]
    exact h.core.conserved
  · dsimp only
    rw [he]
    exact h.core.ordered
  · dsimp only
    rw [he]
    exact h.outside

namespace Inv

variable {cfg : Config} {s s' : Shared} {l r : List Flow} {f f' : Flow}

theorem ready_focus (h : Inv cfg s (l ++ f :: r)) : Ready cfg [] ⟨s, f⟩ :=
  h.ready f (List.mem_append_right _ List.mem_cons_self)

theorem key_ne (h : Inv cfg s (l ++ f :: r)) : ∀ g ∈ l ++ r, g.key ≠ f.key := by
  have hnd := h.nodup
  rw [List.map_append, List.map_cons, List.nodup_middle, List.nodup_cons, ← List.map_append] at hnd
  intro g hg heq
  exact hnd.1 (heq ▸ List.mem_map_of_mem hg)

theorem pool_focus (h : Inv cfg s (l ++ f :: r)) :
    s.poolBytesUsed = f.buffer.bytes + ((l ++ r).map (·.buffer.bytes)).sum := by
  rw [h.pool, List.map_append, List.sum_append, List.map_cons, List.sum_cons, List.map_append,
    List.sum_append]
  omega

theorem bytes_le_sum {flows : List Flow} (hf : f ∈ flows) :
    f.buffer.bytes ≤ (flows.map (·.buffer.bytes)).sum :=
  List.le_sum_of_mem (List.mem_map_of_mem hf)

/-- Replacing a flow by a framed operation. -/
theorem update (h : Inv cfg s (l ++ f :: r)) (hr : Ready cfg [] ⟨s', f'⟩)
    (hf : Frame ⟨s, f⟩ ⟨s', f'⟩) : Inv cfg s' (l ++ f' :: r) := by
  obtain ⟨evs, ht, hevs⟩ := hf.trace
  have hkey : f'.key = f.key := hf.key
  have hne : ∀ k, k ≠ f.key → ∀ e ∈ evs, e.key? ≠ some k := by
    intro k hk e he heq
    rw [(hevs e he).1] at heq
    exact hk (Option.some.inj heq).symm
  have hpool : s'.poolBytesUsed = f'.buffer.bytes + ((l ++ r).map (·.buffer.bytes)).sum := by
    have h1 := h.pool_focus
    have h2 : s'.poolBytesUsed + f.buffer.bytes = s.poolBytesUsed + f'.buffer.bytes := hf.pool
    omega
  refine ⟨?_, ?_, ?_, hr.core.pooled, ?_, ?_, ?_⟩
  · have := h.nodup
    rw [List.map_append, List.map_cons] at this ⊢
    rwa [hkey]
  · have : s'.nFlows = s.nFlows := hf.nFlows
    rw [this, h.nFlows, List.length_append, List.length_append, List.length_cons, List.length_cons]
  · rw [hpool, List.map_append, List.map_append, List.map_cons, List.sum_append, List.sum_append,
      List.sum_cons]
    omega
  · intro e he
    change e ∈ s'.trace at he
    rw [show s'.trace = s.trace ++ evs from ht, List.mem_append] at he
    exact he.elim (h.sound e) fun he => (hevs e he).2
  · intro k
    by_cases hk : k = f.key
    · rw [hk, ← hkey]
      exact hr.core.ordered.sorted
    · rw [show s'.trace = s.trace ++ evs from ht, epochs_append_of_ne (hne k hk)]
      exact h.sorted k
  · intro g hg
    rcases Chains.mem_focus.1 hg with rfl | hg
    · exact hr
    · refine (h.ready g (Chains.mem_focus.2 (.inr hg))).congr ht (hne _ (h.key_ne g hg)) ?_ hr.core.pooled
      have := bytes_le_sum hg
      omega

/-- An event of `k` that ends its epoch keeps the order. -/
theorem sorted_append (h : Inv cfg s l) {e : Event} {k : FlowKey} (hk : e.key? = some k)
    (he : epochMark k e = .stop) (k' : FlowKey) :
    (epochs k' (s.trace ++ [e])).AllPairwise (· < ·) := by
  by_cases hkk : k' = k
  · rw [hkk, epochs_append, he]
    exact (h.sorted k).note_stop
  · rw [epochs_append_of_ne]
    · exact h.sorted k'
    · rintro _ (_ | ⟨_, ⟨⟩⟩) heq
      exact hkk (Option.some.inj (hk.symm.trans heq)).symm

theorem sound_append (h : Inv cfg s l) {e : Event} (he : e.Sound) : ∀ e' ∈ s.trace ++ [e], e'.Sound := by
  intro e' he'
  rcases List.mem_append.1 he' with he' | he'
  · exact h.sound e' he'
  · rw [List.mem_singleton.1 he']
    exact he

/-- Evicting a flow gives its bytes back to the pool, without a clamp. -/
theorem evict_eq (h : Inv cfg s (l ++ f :: r)) :
    s.evict f = { s with
      poolBytesUsed := s.poolBytesUsed - f.buffer.bytes
      evictedStats := s.evictedStats.accumulate f.stats
      nFlows := s.nFlows - 1
      trace := s.trace ++ [.evicted f.key] } := by
  have hc := h.ready_focus.core
  have hrel := Shared.releaseSlots_eq
    (s := { s with evictedStats := s.evictedStats.accumulate f.stats }) (hc.ring.bytes ▸ hc.charged)
  rw [← Ring.entries, ← hc.ring.bytes] at hrel
  rw [Shared.evict, Shared.flowDestroy, hrel]

theorem evict (h : Inv cfg s (l ++ f :: r)) : Inv cfg (s.evict f) (l ++ r) := by
  rw [h.evict_eq]
  have hpool := h.pool_focus
  have hle := h.pooled
  refine ⟨?_, ?_, ?_, ?_, h.sound_append trivial, h.sorted_append rfl (if_pos rfl), ?_⟩
  · have := h.nodup
    rw [List.map_append, List.map_cons, List.nodup_middle, List.nodup_cons] at this
    rw [List.map_append]
    exact this.2
  · change s.nFlows - 1 = _
    rw [h.nFlows, List.length_append, List.length_append, List.length_cons]
    rfl
  · change s.poolBytesUsed - f.buffer.bytes = _
    omega
  · change s.poolBytesUsed - f.buffer.bytes ≤ _
    omega
  · intro g hg
    refine (h.ready g (Chains.mem_focus.2 (.inr hg))).congr rfl ?_ ?_ ?_
    · rintro _ (_ | ⟨_, ⟨⟩⟩) heq
      exact h.key_ne g hg (Option.some.inj heq).symm
    · change _ ≤ s.poolBytesUsed - f.buffer.bytes
      have := bytes_le_sum hg
      omega
    · change s.poolBytesUsed - f.buffer.bytes ≤ _
      omega

/-- Creating a flow for a key that has none. -/
theorem create (h : Inv cfg s (l ++ r)) {key : FlowKey} {cap waitMs : Nat}
    (hcap : cap.isPowerOfTwo) (hnew : ∀ g ∈ l ++ r, g.key ≠ key) :
    Inv cfg { s with nFlows := s.nFlows + 1, trace := s.trace ++ [.created key] }
      (l ++ { key, buffer := .init cap, waitMs } :: r) := by
  refine ⟨?_, ?_, ?_, h.pooled, h.sound_append trivial, h.sorted_append rfl (if_pos rfl), ?_⟩
  · rw [List.map_append, List.map_cons, List.nodup_middle, List.nodup_cons, ← List.map_append]
    refine ⟨fun hm => ?_, h.nodup⟩
    obtain ⟨g, hg, heq⟩ := List.mem_map.1 hm
    exact hnew g hg heq
  · change s.nFlows + 1 = _
    rw [h.nFlows, List.length_append, List.length_append, List.length_cons]
    rfl
  · change s.poolBytesUsed = _
    rw [h.pool, List.map_append, List.map_append, List.map_cons, List.sum_append, List.sum_append,
      List.sum_cons, Ring.init, Nat.zero_add]
  · intro g hg
    rcases Chains.mem_focus.1 hg with rfl | hg
    · refine ⟨⟨hcap, Ring.inv_init .., Nat.zero_le _, h.pooled, ?_, ?_⟩, .closed rfl rfl rfl,
        by rintro _ ⟨⟩, .inr rfl, by rintro ⟨⟩⟩
      · dsimp only
        rw [ledger_append_created]
        exact ⟨rfl, le_rfl⟩
      · dsimp only
        rw [epochs_append_created]
        exact ⟨(h.sorted key).note_stop, by rintro _ ⟨⟩⟩
    · refine (h.ready g hg).congr rfl ?_ (h.ready g hg).core.charged h.pooled
      rintro _ (_ | ⟨_, ⟨⟩⟩) heq
      exact hnew g hg (Option.some.inj heq).symm

/-- An event that is about no flow. -/
theorem append_event (h : Inv cfg s l) {e : Event} (hk : e.key? = none) (hsound : e.Sound) :
    Inv cfg { s with trace := s.trace ++ [e] } l := by
  have hne : ∀ k, ∀ e' ∈ [e], e'.key? ≠ some k := by
    rintro k _ (_ | ⟨_, ⟨⟩⟩)
    rw [hk]
    exact nofun
  refine ⟨h.nodup, h.nFlows, h.pool, h.pooled, h.sound_append hsound, fun k => ?_, fun g hg => ?_⟩
  · dsimp only
    rw [epochs_append_of_ne (hne k)]
    exact h.sorted k
  · exact (h.ready g hg).congr rfl (hne _) (h.ready g hg).core.charged h.pooled

end Inv

/-- Every act keeps the invariant. -/
theorem Change.inv {cfg : Config} {a : Act} {s s' : Shared} {l l' : List Flow}
    (hcap : ∀ k, (cfg.flowCap k).isPowerOfTwo) (hc : Change cfg a s l s' l') (h : Inv cfg s l) :
    Inv cfg s' l' := by
  cases hc with
  | packet p =>
    obtain ⟨hr, hf⟩ := View.ready_onReordered h.ready_focus p
    exact h.update hr hf
  | timeout nowUs _ =>
    obtain ⟨hr, hf⟩ := View.ready_onGapTimeout nowUs h.ready_focus
    exact h.update hr hf
  | evict => exact h.evict
  | create hnew => exact h.create (hcap _) hnew
  | bypass _ => exact h.append_event rfl trivial

theorem Changes.inv {cfg : Config} {as : List Act} {s s' : Shared} {l l' : List Flow}
    (hcap : ∀ k, (cfg.flowCap k).isPowerOfTwo) (hc : Changes cfg as s l s' l') (h : Inv cfg s l) :
    Inv cfg s' l' :=
  hc.keeps (fun _ _ _ _ _ _ hc => hc.inv hcap) h

end Mqvpn.Reorder
