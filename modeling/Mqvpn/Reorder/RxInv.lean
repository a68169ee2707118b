import Mqvpn.Reorder.Changes

/-!
# Invariants of the receiver

`Rx.acts` reads off the state before a call what the call will do, and
`changes_step` says that it does just that. So the invariant of the flows, with
the table being a hash table (`Rx.Good`), is kept by every call and holds in
every state that a run reaches (`good_run`).
-/

namespace Mqvpn.Reorder

/-! ## What a call will do -/

namespace Rx

/-- The condition holds if the datagram is routed to a flow. -/
def Route.Imp (P : FlowKey → Nat → UInt8 → Bytes → Prop) : Route → Prop
  | .flow key seq flags inner => P key seq flags inner
  | _ => True

instance Route.decidableImp {P : FlowKey → Nat → UInt8 → Bytes → Prop}
    [∀ key seq flags inner, Decidable (P key seq flags inner)] : ∀ r : Route, Decidable (r.Imp P)
  | .flow key seq flags inner => inferInstanceAs (Decidable (P key seq flags inner))
  | .ignore => .isTrue trivial
  | .bypass _ => .isTrue trivial

/-- The acts of `flow_get_or_create` and of what follows it. -/
def flowActs (rx : Rx) (key : FlowKey) (p : Arrival) : List Act :=
  match rx.flowLookup key with
  | some f => [.packet f p]
  | none =>
    (if rx.full then (lruVictim rx.flows).toList.map .evict else []) ++
      if p.alloc.flow then [.create key, .packet (newFlow rx.cfg key) p] else []

/-- A flow is made room for and created, if need be, before it gets the packet. -/
theorem flowActs_eq (rx : Rx) (key : FlowKey) (p : Arrival) :
    ∃ pre, (∀ a ∈ pre, (∃ f, a = .evict f) ∨ a = .create key) ∧
      ((p.alloc.flow = false ∧ rx.flowActs key p = pre) ∨
        ∃ f, f.key = key ∧ rx.flowActs key p = pre ++ [.packet f p]) := by
  rw [flowActs]
  cases hl : rx.flowLookup key with
  | some f => exact ⟨[], nofun, .inr ⟨f, Chains.keyOf_of_lookup hl, rfl⟩⟩
  | none =>
    have hroom : ∀ a ∈ (if rx.full then (lruVictim rx.flows).toList.map Act.evict else []),
        ∃ f, a = .evict f := by
      intro a ha
      split_ifs at ha
      · obtain ⟨f, -, rfl⟩ := List.mem_map.1 ha
        exact ⟨f, rfl⟩
      · exact absurd ha List.not_mem_nil
    generalize (if rx.full then (lruVictim rx.flows).toList.map Act.evict else []) = room at hroom
    dsimp only
    by_cases halloc : p.alloc.flow = true
    · rw [if_pos halloc]
      refine ⟨room ++ [.create key], fun a ha => ?_, .inr ⟨newFlow rx.cfg key, rfl, by simp⟩⟩
      rcases List.mem_append.1 ha with ha | ha
      · exact .inl (hroom a ha)
      · exact .inr (List.mem_singleton.1 ha)
    · rw [if_neg halloc, List.append_nil]
      exact ⟨room, fun a ha => .inl (hroom a ha), .inl ⟨by simpa using halloc, rfl⟩⟩

/-- The acts of a call, read off the state before it. -/
def acts (rx : Rx) : Op → List Act
  | .onPacket payload nowUs alloc =>
    match rx.route payload with
    | .ignore => []
    | .bypass inner => [.bypass inner]
    | .flow key seq flags inner => rx.flowActs key ⟨seq, flags, inner, nowUs, alloc⟩
  | .tick nowUs =>
    (rx.flows.filter (·.timeoutDue nowUs)).map (.timeout · nowUs) ++
      (rx.flows.filter fun f => f.idleSince rx.cfg nowUs ∧ f.timeoutDue nowUs = false).map .evict

/-- The table is a hash table: the keys are distinct, and in their buckets. -/
structure Table (rx : Rx) : Prop where
  wf : Chains.Wf Flow.key rx.slot rx.buckets
  length : rx.buckets.length = rxBuckets

/-- What holds of a receiver between two calls. -/
structure Good (rx : Rx) : Prop where
  table : rx.Table
  caps : ∀ k, (rx.cfg.flowCap k).isPowerOfTwo
  inv : Inv rx.cfg rx.toShared rx.flows

/-- An operation of the receiver does the given acts. -/
structure Does (rx : Rx) (as : List Act) (rx' : Rx) : Prop where
  table : rx'.Table
  cfg : rx'.cfg = rx.cfg
  changes : Changes rx.cfg as rx.toShared rx.flows rx'.toShared rx'.flows

variable {rx rx' rx'' : Rx} {as as' : List Act} {key : FlowKey} {f : Flow} {p : Arrival}

namespace Does

theorem refl (h : rx.Table) : rx.Does [] rx := ⟨h, rfl, .nil ..⟩

theorem trans (h : rx.Does as rx') (h' : rx'.Does as' rx'') : rx.Does (as ++ as') rx'' :=
  ⟨h'.table, h'.cfg.trans h.cfg, h.changes.append (h.cfg ▸ h'.changes)⟩

theorem good (h : rx.Does as rx') (hg : rx.Good) : rx'.Good where
  table := h.table
  caps := by
    rw [h.cfg]
    exact hg.caps
  inv := by
    rw [h.cfg]
    exact h.changes.inv hg.caps hg.inv

end Does

/-! ## Operations on the table -/

theorem mem_of_lruVictim {flows : List Flow} (h : lruVictim flows = some f) : f ∈ flows := by
  have hmem : ∀ g ∈ lruVictim flows, g ∈ flows := by
    refine List.foldlRecOn flows _ (motive := fun victim => ∀ g ∈ victim, g ∈ flows) nofun ?_
    intro victim hv f hf g hg
    cases victim with
    | none => exact (Option.some.inj hg) ▸ hf
    | some g' =>
      dsimp only at hg
      split_ifs at hg
      · exact (Option.some.inj hg) ▸ hf
      · exact hv g hg
  exact hmem f h

theorem slot_lt (h : rx.Table) (key : FlowKey) : rx.slot key < rx.buckets.length := by
  rw [h.length]
  exact bucketOf_lt _ (by decide) key

theorem does_evictLruFlow (h : rx.Table) :
    rx.Does ((lruVictim rx.flows).toList.map .evict) rx.evictLruFlow := by
  rw [evictLruFlow]
  cases hv : lruVictim rx.flows with
  | none => exact .refl h
  | some f =>
    have hl := Chains.lookup_of_mem h.wf (mem_of_lruVictim hv)
    obtain ⟨l, r, hflat, -, -, hrem⟩ := Chains.lookup_focus h.wf hl
    refine ⟨⟨h.wf.remove hl, (Chains.length_remove ..).trans h.length⟩, rfl, ?_⟩
    change Changes rx.cfg [.evict f] rx.toShared rx.flows (rx.toShared.evict f)
      (Chains.remove _ _ _ _).flatten
    rw [hrem, flows, hflat]
    exact .single .evict

theorem does_create (h : rx.Table) (hnew : ∀ g ∈ rx.flows, g.key ≠ key) :
    rx.Does [.create key] (rx.create key) ∧
      (rx.create key).flowLookup key = some (newFlow rx.cfg key) := by
  have hlt : rx.slot (newFlow rx.cfg key).key < rx.buckets.length := slot_lt h key
  obtain ⟨l, r, hflat, hpush⟩ := Chains.push_focus hlt
  have hwf : (rx.create key).Table :=
    ⟨h.wf.push hlt hnew, (Chains.length_push ..).trans h.length⟩
  refine ⟨⟨hwf, rfl, ?_⟩, ?_⟩
  · rw [flows, hflat] at hnew ⊢
    change Changes rx.cfg [.create key] rx.toShared (l ++ r) _ (Chains.push _ _ _ _).flatten
    rw [hpush]
    exact .single (.create hnew)
  · refine Chains.lookup_of_mem (a := newFlow rx.cfg key) hwf.wf ?_
    change _ ∈ (Chains.push _ _ _ _).flatten
    rw [hpush]
    exact List.mem_append_right _ List.mem_cons_self

theorem does_onReordered (h : rx.Good) (hl : rx.flowLookup key = some f) (p : Arrival) :
    rx.Does [.packet f p] (rx.onReordered f p) := by
  have hkey : f.key = key := Chains.keyOf_of_lookup hl
  subst hkey
  obtain ⟨l, r, hflat, -, hup, -⟩ := Chains.lookup_focus h.table.wf hl
  have hinv := h.inv
  rw [flows, hflat] at hinv
  have hk := (View.ready_onReordered hinv.ready_focus p).2.key
  refine ⟨⟨h.table.wf.update hl hk, (Chains.length_update ..).trans h.table.length⟩, rfl, ?_⟩
  change Changes rx.cfg [.packet f p] rx.toShared rx.flows _ (Chains.update _ _ _ _ _).flatten
  rw [hup, flows, hflat]
  exact .single (.packet p)

/-- No flow has the key while the table makes room for it. -/
theorem does_makeRoom (h : rx.Table) (hl : rx.flowLookup key = none) :
    rx.Does (if rx.full then (lruVictim rx.flows).toList.map .evict else [])
        (if rx.full then rx.evictLruFlow else rx) ∧
      ∀ g ∈ (if rx.full then rx.evictLruFlow else rx).flows, g.key ≠ key := by
  have hnew : ∀ g ∈ rx.flows, g.key ≠ key := Chains.forall_ne_of_lookup_eq_none h.wf.home hl
  split_ifs
  · have hd := does_evictLruFlow h
    refine ⟨hd, hd.changes.keeps (P := fun _ l => ∀ g ∈ l, g.key ≠ key) ?_ hnew⟩
    intro a ha s l s' l' hc hnew
    obtain ⟨f, -, rfl⟩ := List.mem_map.1 ha
    cases hc with
    | evict =>
      intro g hg
      exact hnew g (((List.sublist_cons_self ..).append_left _).subset hg)
  · exact ⟨.refl h, hnew⟩

theorem does_flowActs (h : rx.Good) (key : FlowKey) (p : Arrival) :
    rx.Does (rx.flowActs key p) (match rx.flowGetOrCreate key p.alloc.flow with
      | (none, rx) => rx
      | (some f, rx) => rx.onReordered f p) := by
  rw [flowActs, flowGetOrCreate]
  cases hl : rx.flowLookup key with
  | some f => exact does_onReordered h hl p
  | none =>
    obtain ⟨hroom, hnew⟩ := does_makeRoom h.table hl
    dsimp only
    generalize (if rx.full then rx.evictLruFlow else rx) = rx₁ at hroom hnew
    generalize (if rx.full then (lruVictim rx.flows).toList.map Act.evict else []) = as at hroom
    by_cases halloc : p.alloc.flow = true
    · obtain ⟨hd, hl₂⟩ := does_create hroom.table hnew
      have hd' := does_onReordered (hd.good (hroom.good h)) hl₂ p
      rw [if_pos halloc, if_pos halloc]
      rw [hroom.cfg] at hd' ⊢
      exact hroom.trans (hd.trans hd')
    · rw [if_neg halloc, if_neg halloc, List.append_nil]
      exact hroom

/-! ## Ticks -/

theorem lastProgressUs_onGapTimeout {v : View} {nowUs : Nat} (h : v.flow.buffer.isEmpty = false) :
    (v.onGapTimeout nowUs).flow.lastProgressUs = nowUs := by
  rw [View.onGapTimeout, if_neg (by simp [h])]
  dsimp only
  split_ifs <;> rfl

theorem key_onGapTimeout (v : View) (nowUs : Nat) : (v.onGapTimeout nowUs).flow.key = v.flow.key := by
  rw [View.onGapTimeout]
  split_ifs
  · rfl
  · have hq := View.quiet_skipToLowestAndDrain { v with flow := { v.flow with stats := { v.flow.stats with
      gapTimeoutCount := v.flow.stats.gapTimeoutCount + 1 } } } nowUs
    dsimp only
    split_ifs <;> exact hq.key

theorem fireTimeout_of_due {nowUs : Nat} (s : Shared) (h : f.timeoutDue nowUs = true) :
    fireTimeout nowUs s f = ((View.onGapTimeout ⟨s, f⟩ nowUs).toShared,
      some (View.onGapTimeout ⟨s, f⟩ nowUs).flow) := if_pos h

/-- The loop that fires the timeouts. A flow that times out makes progress, so
    those that are idle after it are those that were idle and not due. -/
theorem changes_fireTimeout (cfg : Config) (nowUs : Nat) (done todo : List Flow) (s : Shared)
    (hp : ∀ f ∈ todo, f.Periods) :
    Changes cfg ((todo.filter (·.timeoutDue nowUs)).map (.timeout · nowUs)) s (done ++ todo)
        (Chains.sweepChain (fireTimeout nowUs) s todo).1
        (done ++ (Chains.sweepChain (fireTimeout nowUs) s todo).2) ∧
      (Chains.sweepChain (fireTimeout nowUs) s todo).2.filter (·.idleSince cfg nowUs) =
        todo.filter fun f => f.idleSince cfg nowUs ∧ f.timeoutDue nowUs = false := by
  induction todo generalizing done s with
  | nil => exact ⟨.nil .., List.filter_nil.trans List.filter_nil.symm⟩
  | cons f todo ih =>
    have hp' : ∀ g ∈ todo, g.Periods := fun g hg => hp g (List.mem_cons_of_mem _ hg)
    rw [Chains.sweepChain]
    by_cases hdue : f.timeoutDue nowUs = true
    · have harmed : f.gapTimerActive = true ∧ f.gapDeadlineUs ≤ nowUs := by
        simpa [Flow.timeoutDue] using hdue
      have hne := (hp f List.mem_cons_self).armed.1 harmed.1
      have hlast : (View.onGapTimeout ⟨s, f⟩ nowUs).flow.lastProgressUs = nowUs :=
        lastProgressUs_onGapTimeout (by simpa [Ring.isEmpty] using hne)
      have hc : Change cfg _ s (done ++ f :: todo) _ _ := .timeout nowUs hdue
      rw [fireTimeout_of_due s hdue]
      generalize View.onGapTimeout ⟨s, f⟩ nowUs = v at hlast hc
      obtain ⟨hcs, hi⟩ := ih (done ++ [v.flow]) v.toShared hp'
      rw [List.filter_cons, if_pos hdue, List.filter_cons_of_neg (by simp [hdue]), ← hi]
      refine ⟨.cons hc (by simpa using hcs), ?_⟩
      exact List.filter_cons_of_neg (by simp [Flow.idleSince, hlast])
    · obtain ⟨hc, hi⟩ := ih (done ++ [f]) s hp'
      rw [fireTimeout, if_neg hdue, List.filter_cons, if_neg hdue]
      refine ⟨by simpa using hc, ?_⟩
      rw [Option.toList_some, List.singleton_append, List.filter_cons, List.filter_cons, hi]
      simp [hdue]

theorem changes_sweepIdle (cfg : Config) (nowUs : Nat) (done todo : List Flow) (s : Shared) :
    Changes cfg ((todo.filter (·.idleSince cfg nowUs)).map .evict) s (done ++ todo)
      (Chains.sweepChain (sweepIdle cfg nowUs) s todo).1
      (done ++ (Chains.sweepChain (sweepIdle cfg nowUs) s todo).2) := by
  induction todo generalizing done s with
  | nil => exact .nil ..
  | cons f todo ih =>
    rw [Chains.sweepChain, sweepIdle]
    by_cases hidle : f.idleSince cfg nowUs = true
    · rw [if_pos hidle, List.filter_cons, if_pos hidle]
      exact .cons .evict (ih done _)
    · rw [if_neg hidle, List.filter_cons, if_neg hidle]
      simpa using ih (done ++ [f]) s

theorem toShared_sweep (rx : Rx) (visit : Shared → Flow → Shared × Option Flow) :
    (rx.sweep visit).toShared = (Chains.sweepChain visit rx.toShared rx.flows).1 :=
  congrArg Prod.fst (Chains.sweep_flatten rx.toShared rx.buckets)

theorem flows_sweep (rx : Rx) (visit : Shared → Flow → Shared × Option Flow) :
    (rx.sweep visit).flows = (Chains.sweepChain visit rx.toShared rx.flows).2 :=
  congrArg Prod.snd (Chains.sweep_flatten rx.toShared rx.buckets)

theorem table_sweep (h : rx.Table) {visit : Shared → Flow → Shared × Option Flow}
    (hkey : ∀ s f f', (visit s f).2 = some f' → f'.key = f.key) : (rx.sweep visit).Table :=
  ⟨h.wf.sweep hkey _, (Chains.length_sweep ..).trans h.length⟩

theorem does_fireTimeout (h : rx.Good) (nowUs : Nat) :
    rx.Does ((rx.flows.filter (·.timeoutDue nowUs)).map (.timeout · nowUs))
        (rx.sweep (fireTimeout nowUs)) ∧
      (rx.sweep (fireTimeout nowUs)).flows.filter (·.idleSince rx.cfg nowUs) =
        rx.flows.filter fun f => f.idleSince rx.cfg nowUs ∧ f.timeoutDue nowUs = false := by
  obtain ⟨hc, hi⟩ := changes_fireTimeout rx.cfg nowUs [] rx.flows rx.toShared
    fun f hf => (h.inv.ready f hf).periods
  rw [List.nil_append, ← toShared_sweep, ← flows_sweep] at hc
  refine ⟨⟨table_sweep h.table fun s f f' hf => ?_, rfl, hc⟩, by rw [flows_sweep, hi]⟩
  rw [fireTimeout] at hf
  split_ifs at hf
  · rw [← Option.some.inj hf]
    exact key_onGapTimeout _ nowUs
  · rw [← Option.some.inj hf]

theorem does_sweepIdle (h : rx.Table) (nowUs : Nat) :
    rx.Does ((rx.flows.filter (·.idleSince rx.cfg nowUs)).map .evict)
      (rx.sweep (sweepIdle rx.cfg nowUs)) := by
  have hc := changes_sweepIdle rx.cfg nowUs [] rx.flows rx.toShared
  rw [List.nil_append, ← toShared_sweep, ← flows_sweep] at hc
  refine ⟨table_sweep h fun s f f' hf => ?_, rfl, hc⟩
  rw [sweepIdle] at hf
  split_ifs at hf
  rw [← Option.some.inj hf]

theorem does_tick (h : rx.Good) (nowUs : Nat) : rx.Does (rx.acts (.tick nowUs)) (rx.tick nowUs) := by
  obtain ⟨hd, hi⟩ := does_fireTimeout h nowUs
  have hd' := does_sweepIdle hd.table nowUs
  rw [hd.cfg, hi] at hd'
  exact hd.trans hd'

theorem does_step (h : rx.Good) (op : Op) : rx.Does (rx.acts op) (rx.step op) := by
  cases op with
  | tick nowUs => exact does_tick h nowUs
  | onPacket payload nowUs alloc =>
    rw [step, acts, onPacket]
    cases rx.route payload with
    | ignore => exact .refl h.table
    | bypass inner => exact ⟨⟨h.table.wf, h.table.length⟩, rfl, .single (.bypass inner)⟩
    | flow key seq flags inner => exact does_flowActs h key ⟨seq, flags, inner, nowUs, alloc⟩

/-! ## Runs -/

/-- A new receiver has no flows, and no past. -/
theorem empty_of_rxNew {cfg : Config} {seed : UInt64} (h : rxNew cfg seed = some rx) :
    rx.flows = [] ∧ rx.toShared = {} := by
  rw [rxNew] at h
  split_ifs at h
  rw [← Option.some.inj h, flows, List.flatten_replicate_nil]
  exact ⟨rfl, rfl⟩

theorem good_of_rxNew {cfg : Config} {seed : UInt64} (h : rxNew cfg seed = some rx) : rx.Good := by
  obtain ⟨hflows, hshared⟩ := empty_of_rxNew h
  rw [rxNew] at h
  split_ifs at h with hv
  obtain rfl := Option.some.inj h
  refine ⟨⟨Chains.wf_replicate_nil _, List.length_replicate⟩, Config.isPowerOfTwo_flowCap hv, ?_⟩
  rw [hflows, hshared]
  exact ⟨List.nodup_nil, rfl, rfl, Nat.zero_le _, nofun, fun k l hl => absurd hl List.not_mem_nil, nofun⟩

theorem good_step (h : rx.Good) (op : Op) : (rx.step op).Good := (does_step h op).good h

/-- The invariant holds in every state that a run reaches. -/
theorem good_run (h : rx.Good) (ops : List Op) : (rx.run ops).Good :=
  List.foldlRecOn ops step h fun _ h op _ => good_step h op

theorem cfg_run (h : rx.Good) (ops : List Op) : (rx.run ops).cfg = rx.cfg := by
  refine (List.foldlRecOn ops step (motive := fun rx' => rx'.Good ∧ rx'.cfg = rx.cfg) ⟨h, rfl⟩ ?_).2
  rintro rx' ⟨hg, hc⟩ op -
  exact ⟨good_step hg op, (does_step hg op).cfg.trans hc⟩

theorem cfg_of_rxNew {cfg : Config} {seed : UInt64} (h : rxNew cfg seed = some rx) :
    rx.cfg = cfg.finalize := by
  rw [rxNew] at h
  split_ifs at h
  rw [← Option.some.inj h]

end Rx

end Mqvpn.Reorder
