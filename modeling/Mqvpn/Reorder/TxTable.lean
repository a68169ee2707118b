import Mathlib.Data.List.Induction
import Mqvpn.Reorder.TxInv

/-!
# The flow table of the sender

The table for any sequence of peeks and commits, in any order and at any times:
the flows stay in a hash table within the limit (`Tx.Table`), and every call
either leaves them alone, advances one, or creates one, for which it may evict an
idle one (`Tx.Effect`).

When a flow was created or committed for is not in the state but in the calls
(`Tx.history`). The activity of a flow is the last such time (`lastTouch_calls`),
so a flow that goes has been idle for longer than the timeout, and its numbers do
not start over before that (`sender_table`).
-/

namespace Mqvpn.Reorder

namespace Tx

/-! ## Calls -/

/-- A call of one half of a send. A commit goes with some peek before it, not
    always the last one. -/
inductive Call
  | peek (pkt : Bytes) (nowUs maxInnerWithoutReorder : Nat) (alloc : Bool)
  | commit (pk : TxPeek) (nowUs : Nat)

def call (tx : Tx) : Call → Tx
  | .peek pkt nowUs maxInner alloc => (tx.peek pkt nowUs maxInner alloc).2
  | .commit pk nowUs => tx.commit pk nowUs

def calls (tx : Tx) (cs : List Call) : Tx := cs.foldl call tx

theorem calls_concat (tx : Tx) (cs : List Call) (c : Call) :
    tx.calls (cs ++ [c]) = (tx.calls cs).call c := by
  rw [calls, List.foldl_append]
  rfl

/-- The flow that a call creates or commits a packet for, and when. -/
def touch (tx : Tx) : Call → Option (FlowKey × Nat)
  | .peek pkt nowUs maxInner alloc => (parse5tuple pkt).bind fun key =>
      if (tx.tableLookup key).isNone ∧ ((tx.peek pkt nowUs maxInner alloc).2.tableLookup key).isSome
      then some (key, nowUs) else none
  | .commit pk nowUs => if pk.action = .stamp
      then pk.flow.bind fun key => if (tx.tableLookup key).isSome then some (key, nowUs) else none
      else none

/-- What the calls create or commit for, in order. -/
def history (tx : Tx) : List Call → List (FlowKey × Nat)
  | [] => []
  | c :: cs => (tx.touch c).toList ++ history (tx.call c) cs

/-- The last time in a history that is about a key. -/
def lastTouch (key : FlowKey) (past : List (FlowKey × Nat)) : Option Nat :=
  ((past.filter (·.1 = key)).getLast?).map Prod.snd

theorem history_concat (tx : Tx) (cs : List Call) (c : Call) :
    tx.history (cs ++ [c]) = tx.history cs ++ ((tx.calls cs).touch c).toList := by
  induction cs generalizing tx with
  | nil => simp [history, calls]
  | cons c' cs ih =>
    rw [List.cons_append, history, history, ih, List.append_assoc]
    rfl

theorem lastTouch_append_of_ne {key : FlowKey} {past : List (FlowKey × Nat)} {o : Option (FlowKey × Nat)}
    (h : ∀ t, o ≠ some (key, t)) : lastTouch key (past ++ o.toList) = lastTouch key past := by
  cases o with
  | none => rw [Option.toList_none, List.append_nil]
  | some e =>
    have hne : e.1 ≠ key := fun he => h e.2 (by rw [← he])
    rw [lastTouch, List.filter_append, Option.toList_some, List.filter_cons_of_neg (by simpa using hne),
      List.filter_nil, List.append_nil, lastTouch]

theorem lastTouch_append_self (key : FlowKey) (past : List (FlowKey × Nat)) (t : Nat) :
    lastTouch key (past ++ (some (key, t)).toList) = some t := by
  rw [lastTouch, List.filter_append, Option.toList_some, List.filter_cons_of_pos (by simp),
    List.filter_nil, List.getLast?_append]
  rfl

/-! ## The table -/

/-- The table is a hash table of distinct keys, and its counter is right and within
    the limit. -/
structure Table (tx : Tx) : Prop where
  wf : Chains.Wf SendFlow.key tx.slot tx.buckets
  length : tx.buckets.length = tx.nBuckets
  pos : 0 < tx.nBuckets
  nFlows : tx.nFlows = tx.flows.length
  capped : tx.cfg.maxFlows ≠ 0 → tx.nFlows ≤ tx.cfg.maxFlows

variable {tx tx' : Tx} {c : Call} {key : FlowKey} {f g : SendFlow} {nowUs : Nat}

namespace Table

/-- A found flow, the others, and what becomes of them. -/
theorem focus (h : tx.Table) (hl : tx.tableLookup key = some f) :
    f.key = key ∧ ∃ l r, tx.flows = l ++ f :: r ∧ (∀ g ∈ l ++ r, g.key ≠ key) ∧
      (∀ f', (Chains.update SendFlow.key tx.slot tx.buckets key f').flatten = l ++ f' :: r) ∧
      (Chains.remove SendFlow.key tx.slot tx.buckets key).flatten = l ++ r :=
  ⟨Chains.keyOf_of_lookup hl, Chains.lookup_focus h.wf hl⟩

theorem lookup_of_mem (h : tx.Table) (hf : f ∈ tx.flows) : tx.tableLookup f.key = some f :=
  Chains.lookup_of_mem h.wf hf

theorem mem_of_lookup (h : tx.Table) (hl : tx.tableLookup key = some f) : f ∈ tx.flows := by
  obtain ⟨-, l, r, hflat, -⟩ := h.focus hl
  rw [hflat]
  exact Chains.mem_focus.2 (.inl rfl)

theorem ne_of_lookup_eq_none (h : tx.Table) (hl : tx.tableLookup key = none) :
    ∀ g ∈ tx.flows, g.key ≠ key :=
  Chains.forall_ne_of_lookup_eq_none h.wf.home hl

/-- Two flows of one key are one. -/
theorem eq_of_key (h : tx.Table) (hf : f ∈ tx.flows) (hg : g ∈ tx.flows) (hk : g.key = f.key) : g = f :=
  List.inj_on_of_nodup_map h.wf.nodup hg hf hk

theorem evict (h : tx.Table) (hf : f ∈ tx.flows) :
    (tx.evict f).Table ∧ (tx.evict f).nFlows + 1 = tx.nFlows ∧
      ∀ g, g ∈ (tx.evict f).flows ↔ g ∈ tx.flows ∧ g.key ≠ f.key := by
  have hl := h.lookup_of_mem hf
  obtain ⟨-, l, r, hflat, hne, -, hrem⟩ := h.focus hl
  have hflows : (tx.evict f).flows = l ++ r := hrem
  have hlen : tx.nFlows = (l ++ r).length + 1 := by
    rw [h.nFlows, hflat, List.length_append, List.length_append, List.length_cons, Nat.add_assoc]
  have hcount : (tx.evict f).nFlows = (l ++ r).length := by
    change tx.nFlows - 1 = _
    omega
  refine ⟨⟨h.wf.remove hl, (Chains.length_remove ..).trans h.length, h.pos, ?_, fun hmax => ?_⟩,
    by omega, fun g => ?_⟩
  · rw [hflows, hcount]
  · have hcap : tx.nFlows ≤ tx.cfg.maxFlows := h.capped hmax
    change (tx.evict f).nFlows ≤ tx.cfg.maxFlows
    omega
  · rw [hflows, hflat, Chains.mem_focus]
    refine ⟨fun hg => ⟨.inr hg, hne g hg⟩, ?_⟩
    rintro ⟨rfl | hg, hk⟩
    exacts [absurd rfl hk, hg]

theorem create (h : tx.Table) (hnew : ∀ g ∈ tx.flows, g.key ≠ key)
    (hroom : tx.cfg.maxFlows ≠ 0 → tx.nFlows + 1 ≤ tx.cfg.maxFlows) (nowUs : Nat) :
    (tx.create key nowUs).Table ∧
      ∀ g, g ∈ (tx.create key nowUs).flows ↔ g = newSendFlow tx.cfg key nowUs ∨ g ∈ tx.flows := by
  have hlt : tx.slot (newSendFlow tx.cfg key nowUs).key < tx.buckets.length := by
    rw [h.length]
    exact bucketOf_lt _ h.pos key
  obtain ⟨l, r, hflat, hpush⟩ := Chains.push_focus hlt
  have hold : tx.flows = l ++ r := hflat
  have hflows : (tx.create key nowUs).flows = l ++ newSendFlow tx.cfg key nowUs :: r := hpush
  refine ⟨⟨h.wf.push hlt hnew, (Chains.length_push ..).trans h.length, h.pos, ?_, hroom⟩, fun g => ?_⟩
  · rw [hflows]
    change tx.nFlows + 1 = _
    rw [h.nFlows, hold, List.length_append, List.length_append, List.length_cons]
    rfl
  · rw [hflows, hold]
    exact Chains.mem_focus

theorem advance (h : tx.Table) (hl : tx.tableLookup key = some f) (nowUs : Nat) (trace : List TxEvent) :
    Table { tx with
        buckets := Chains.update SendFlow.key tx.slot tx.buckets key (Tx.advance f nowUs)
        trace } ∧
      ∀ g, g ∈ flows { tx with
          buckets := Chains.update SendFlow.key tx.slot tx.buckets key (Tx.advance f nowUs)
          trace } ↔ g = Tx.advance f nowUs ∨ (g ∈ tx.flows ∧ g.key ≠ key) := by
  obtain ⟨hk, l, r, hflat, hne, hup, -⟩ := h.focus hl
  have hflows : flows { tx with
      buckets := Chains.update SendFlow.key tx.slot tx.buckets key (Tx.advance f nowUs)
      trace } = l ++ Tx.advance f nowUs :: r := hup _
  refine ⟨⟨h.wf.update hl hk, (Chains.length_update ..).trans h.length, h.pos, ?_, h.capped⟩,
    fun g => ?_⟩
  · rw [hflows]
    change tx.nFlows = _
    rw [h.nFlows, hflat, List.length_append, List.length_append, List.length_cons, List.length_cons]
  · rw [hflows, hflat, Chains.mem_focus, Chains.mem_focus]
    refine or_congr_right ⟨fun hg => ⟨.inr hg, hne g hg⟩, ?_⟩
    rintro ⟨rfl | hg, hk'⟩
    exacts [absurd hk hk', hg]

end Table

/-! ## Effects -/

/-- What a call does to the flows, and what it touches. -/
inductive Effect (tx : Tx) : Call → Tx → Prop
  | none {c : Call} (stats : TxStats) : tx.touch c = Option.none → Effect tx c { tx with stats }
  | create {pkt : Bytes} {nowUs maxInner : Nat} {alloc : Bool} {key : FlowKey} :
      tx.tableLookup key = Option.none → tx.full = false →
      tx.touch (.peek pkt nowUs maxInner alloc) = some (key, nowUs) →
      Effect tx (.peek pkt nowUs maxInner alloc) (tx.create key nowUs)
  | evict {pkt : Bytes} {nowUs maxInner : Nat} {alloc : Bool} {f : SendFlow} :
      idleVictim tx.cfg nowUs tx.flows = some f →
      tx.touch (.peek pkt nowUs maxInner alloc) = Option.none →
      Effect tx (.peek pkt nowUs maxInner alloc) (tx.evict f)
  | replace {pkt : Bytes} {nowUs maxInner : Nat} {alloc : Bool} {key : FlowKey} {f : SendFlow} :
      tx.tableLookup key = Option.none → idleVictim tx.cfg nowUs tx.flows = some f →
      tx.touch (.peek pkt nowUs maxInner alloc) = some (key, nowUs) →
      Effect tx (.peek pkt nowUs maxInner alloc) ((tx.evict f).create key nowUs)
  | advance {pk : TxPeek} {nowUs : Nat} {key : FlowKey} {f : SendFlow} :
      tx.tableLookup key = some f → tx.touch (.commit pk nowUs) = some (key, nowUs) →
      Effect tx (.commit pk nowUs) { tx with
        buckets := Chains.update SendFlow.key tx.slot tx.buckets key (Tx.advance f nowUs)
        trace := tx.trace ++ [.committed key pk.hdr] }

/-- Room for one more flow, as `get_or_create` makes it. -/
theorem Table.replace (h : tx.Table) (hv : idleVictim tx.cfg nowUs tx.flows = some f)
    (hl : tx.tableLookup key = none) :
    ((tx.evict f).create key nowUs).Table ∧ ∀ g, g ∈ ((tx.evict f).create key nowUs).flows ↔
      g = newSendFlow tx.cfg key nowUs ∨ (g ∈ tx.flows ∧ g.key ≠ f.key) := by
  obtain ⟨ht, hcount, hmem⟩ := h.evict (mem_of_idleVictim hv).1
  have hnew : ∀ g ∈ (tx.evict f).flows, g.key ≠ key := fun g hg =>
    h.ne_of_lookup_eq_none hl g ((hmem g).1 hg).1
  have hroom : (tx.evict f).cfg.maxFlows ≠ 0 → (tx.evict f).nFlows + 1 ≤ (tx.evict f).cfg.maxFlows :=
    fun hmax => hcount.symm ▸ h.capped hmax
  obtain ⟨ht', hmem'⟩ := ht.create hnew hroom nowUs
  exact ⟨ht', fun g => (hmem' g).trans (or_congr_right (hmem g))⟩

theorem Table.create_of_full (h : tx.Table) (hl : tx.tableLookup key = none) (hfull : tx.full = false)
    (nowUs : Nat) : (tx.create key nowUs).Table ∧
      ∀ g, g ∈ (tx.create key nowUs).flows ↔ g = newSendFlow tx.cfg key nowUs ∨ g ∈ tx.flows := by
  refine h.create (h.ne_of_lookup_eq_none hl) (fun hmax => ?_) nowUs
  have hlt : ¬(tx.cfg.maxFlows ≠ 0 ∧ tx.cfg.maxFlows ≤ tx.nFlows) := by simpa [full] using hfull
  omega

/-- A peek does what its `get_or_create` does. -/
theorem peek_snd {pkt : Bytes} (hmode : tx.cfg.mode ≠ .off) (hp : parse5tuple pkt = some key)
    (nowUs maxInner : Nat) (alloc : Bool) :
    (tx.peek pkt nowUs maxInner alloc).2 = (tx.getOrCreate key nowUs alloc).2 := by
  rw [peek, if_neg hmode, hp]
  dsimp only
  generalize tx.getOrCreate key nowUs alloc = res
  obtain ⟨_ | f, tx'⟩ := res <;> rfl

/-- What `get_or_create` makes of a table without the key. -/
theorem getOrCreate_cases (hl : tx.tableLookup key = none) (nowUs : Nat) (alloc : Bool) :
    (∃ stats, (tx.getOrCreate key nowUs alloc).2 = { tx with stats }) ∨
    (tx.full = false ∧ (tx.getOrCreate key nowUs alloc).2 = tx.create key nowUs) ∨
    ∃ f, idleVictim tx.cfg nowUs tx.flows = some f ∧
      ((tx.getOrCreate key nowUs alloc).2 = tx.evict f ∨
        (tx.getOrCreate key nowUs alloc).2 = (tx.evict f).create key nowUs) := by
  rw [getOrCreate, hl]
  dsimp only
  by_cases hfull : tx.full = true
  · rw [if_pos hfull, evictOneIdle]
    cases hv : idleVictim tx.cfg nowUs tx.flows with
    | none => exact .inl ⟨_, rfl⟩
    | some f =>
      refine .inr (.inr ⟨f, rfl, ?_⟩)
      cases alloc
      exacts [.inl rfl, .inr rfl]
  · rw [if_neg hfull]
    cases alloc
    exacts [.inl ⟨tx.stats, rfl⟩, .inr (.inl ⟨by simpa using hfull, rfl⟩)]

/-- A peek that finds no flow touches the one it leaves in the table. -/
theorem touch_peek {pkt : Bytes} (hmode : tx.cfg.mode ≠ .off) (hp : parse5tuple pkt = some key)
    (hl : tx.tableLookup key = none) (nowUs maxInner : Nat) (alloc : Bool) :
    tx.touch (.peek pkt nowUs maxInner alloc) =
      if ((tx.getOrCreate key nowUs alloc).2.tableLookup key).isSome then some (key, nowUs)
      else none := by
  rw [touch, hp, Option.bind_some, hl, peek_snd hmode hp]
  simp

theorem effect_peek (h : tx.Table) (pkt : Bytes) (nowUs maxInner : Nat) (alloc : Bool) :
    tx.Effect (.peek pkt nowUs maxInner alloc) (tx.peek pkt nowUs maxInner alloc).2 := by
  by_cases hmode : tx.cfg.mode = .off
  · have hpeek : (tx.peek pkt nowUs maxInner alloc).2 = tx := by rw [peek, if_pos hmode]
    have ht : tx.touch (.peek pkt nowUs maxInner alloc) = none := by
      rw [touch, hpeek]
      cases parse5tuple pkt with
      | none => rfl
      | some key => cases hl : tx.tableLookup key <;> simp [hl]
    rw [hpeek]
    exact .none tx.stats ht
  cases hp : parse5tuple pkt with
  | none =>
    rw [peek, if_neg hmode, hp]
    exact .none tx.stats (by rw [touch, hp]; rfl)
  | some key =>
    rw [peek_snd hmode hp]
    cases hl : tx.tableLookup key with
    | some f =>
      rw [getOrCreate, hl]
      exact .none tx.stats (by simp [touch, hp, hl])
    | none =>
      have ht := touch_peek hmode hp hl nowUs maxInner alloc
      rcases getOrCreate_cases hl nowUs alloc with
        ⟨stats, heq⟩ | ⟨hfull, heq⟩ | ⟨f, hv, heq | heq⟩
      · rw [heq] at ht ⊢
        have hsame : Tx.tableLookup { tx with stats } key = none := hl
        exact .none stats (by rw [ht, hsame]; rfl)
      · obtain ⟨ht', hmem⟩ := h.create_of_full hl hfull nowUs
        have hl' : (tx.create key nowUs).tableLookup key = some (newSendFlow tx.cfg key nowUs) :=
          ht'.lookup_of_mem ((hmem _).2 (.inl rfl))
        rw [heq] at ht ⊢
        exact .create hl hfull (ht.trans (if_pos (by rw [hl']; rfl)))
      · obtain ⟨ht', -, hmem⟩ := h.evict (mem_of_idleVictim hv).1
        rw [heq] at ht ⊢
        refine .evict hv (ht.trans (if_neg ?_))
        cases hl' : (tx.evict f).tableLookup key with
        | none => exact Bool.false_ne_true
        | some g =>
          have hg := (hmem g).1 (ht'.mem_of_lookup hl')
          exact absurd (ht'.focus hl').1 (h.ne_of_lookup_eq_none hl g hg.1)
      · obtain ⟨ht', hmem⟩ := h.replace hv hl
        have hl' : ((tx.evict f).create key nowUs).tableLookup key =
            some (newSendFlow tx.cfg key nowUs) := ht'.lookup_of_mem ((hmem _).2 (.inl rfl))
        rw [heq] at ht ⊢
        exact .replace hl hv (ht.trans (if_pos (by rw [hl']; rfl)))

theorem effect_call (h : tx.Table) (c : Call) : tx.Effect c (tx.call c) := by
  cases c with
  | peek pkt nowUs maxInner alloc => exact effect_peek h pkt nowUs maxInner alloc
  | commit pk nowUs =>
    rw [call, commit]
    split
    · rename_i key hact hflow
      cases hl : tx.tableLookup key with
      | none => exact .none tx.stats (by simp [touch, hact, hflow, hl])
      | some f => exact .advance hl (by simp [touch, hact, hflow, hl])
    · rename_i hno
      refine .none tx.stats ?_
      rw [touch]
      split_ifs with hact
      · cases hflow : pk.flow with
        | none => rfl
        | some key => exact absurd hflow (hno key hact)
      · rfl

/-! ## What becomes of flows -/

/-- What a call leaves of the table: the flows that it does not touch, as they were
    or gone after being idle, and the one that it does touch, at the time of the
    call. -/
structure Left (tx : Tx) (c : Call) (tx' : Tx) : Prop where
  table : tx'.Table
  cfg : tx'.cfg = tx.cfg
  gone : ∀ f ∈ tx.flows, (∀ g ∈ tx'.flows, g.key ≠ f.key) →
    ∃ pkt nowUs maxInner alloc, c = .peek pkt nowUs maxInner alloc ∧ f.idleSince tx.cfg nowUs = true
  stays : ∀ f ∈ tx.flows, ∀ g ∈ tx'.flows, g.key = f.key → f.nextSeq ≤ g.nextSeq
  touched : ∀ g ∈ tx'.flows, tx.touch c = some (g.key, g.lastActivityUs) ∨
    (g ∈ tx.flows ∧ ∀ t, tx.touch c ≠ some (g.key, t))

theorem Effect.left (he : tx.Effect c tx') (h : tx.Table) : tx.Left c tx' := by
  have hself : ∀ f ∈ tx.flows, ∀ g ∈ tx.flows, g.key = f.key → f.nextSeq ≤ g.nextSeq := by
    intro f hf g hg hk
    rw [h.eq_of_key hf hg hk]
  cases he with
  | none stats ht =>
    refine ⟨⟨h.wf, h.length, h.pos, h.nFlows, h.capped⟩, rfl, fun f hf hno => ?_, hself, fun g hg => ?_⟩
    · exact absurd rfl (hno f hf)
    · exact .inr ⟨hg, fun t => by rw [ht]; exact (Option.some_ne_none _).symm⟩
  | @create pkt nowUs maxInner alloc key hl hfull ht =>
    obtain ⟨ht', hmem⟩ := h.create_of_full hl hfull nowUs
    have hnew := h.ne_of_lookup_eq_none hl
    refine ⟨ht', rfl, fun f hf hno => ?_, fun f hf g hg hk => ?_, fun g hg => ?_⟩
    · exact absurd rfl (hno f ((hmem f).2 (.inr hf)))
    · rcases (hmem g).1 hg with rfl | hg
      · exact absurd hk.symm (hnew f hf)
      · exact hself f hf g hg hk
    · rcases (hmem g).1 hg with rfl | hold
      · exact .inl ht
      · refine .inr ⟨hold, fun t => ?_⟩
        rw [ht]
        rintro ⟨⟩
        exact hnew g hold rfl
  | @evict pkt nowUs maxInner alloc v hv ht =>
    obtain ⟨hvmem, hidle⟩ := mem_of_idleVictim hv
    obtain ⟨ht', -, hmem⟩ := h.evict hvmem
    refine ⟨ht', rfl, fun f hf hno => ?_, fun f hf g hg hk => ?_, fun g hg => ?_⟩
    · by_cases hk : f.key = v.key
      · rw [h.eq_of_key hvmem hf hk]
        exact ⟨pkt, nowUs, maxInner, alloc, rfl, hidle⟩
      · exact absurd rfl (hno f ((hmem f).2 ⟨hf, hk⟩))
    · exact hself f hf g ((hmem g).1 hg).1 hk
    · exact .inr ⟨((hmem g).1 hg).1, fun t => by rw [ht]; exact (Option.some_ne_none _).symm⟩
  | @replace pkt nowUs maxInner alloc key v hl hv ht =>
    obtain ⟨hvmem, hidle⟩ := mem_of_idleVictim hv
    obtain ⟨ht', hmem⟩ := h.replace hv hl
    have hnew := h.ne_of_lookup_eq_none hl
    refine ⟨ht', rfl, fun f hf hno => ?_, fun f hf g hg hk => ?_, fun g hg => ?_⟩
    · by_cases hk : f.key = v.key
      · rw [h.eq_of_key hvmem hf hk]
        exact ⟨pkt, nowUs, maxInner, alloc, rfl, hidle⟩
      · exact absurd rfl (hno f ((hmem f).2 (.inr ⟨hf, hk⟩)))
    · rcases (hmem g).1 hg with rfl | ⟨hg, -⟩
      · exact absurd hk.symm (hnew f hf)
      · exact hself f hf g hg hk
    · rcases (hmem g).1 hg with rfl | ⟨hold, -⟩
      · exact .inl ht
      · refine .inr ⟨hold, fun t => ?_⟩
        rw [ht]
        rintro ⟨⟩
        exact hnew g hold rfl
  | @advance pk nowUs key f hl ht =>
    obtain ⟨ht', hmem⟩ := h.advance hl nowUs (tx.trace ++ [.committed key pk.hdr])
    have hk : f.key = key := (h.focus hl).1
    have hf := h.mem_of_lookup hl
    refine ⟨ht', rfl, fun f' hf' hno => ?_, fun f' hf' g hg hk' => ?_, fun g hg => ?_⟩
    · by_cases hk' : f'.key = key
      · exact absurd (hk.trans hk'.symm) (hno (Tx.advance f nowUs) ((hmem _).2 (.inl rfl)))
      · exact absurd rfl (hno f' ((hmem f').2 (.inr ⟨hf', hk'⟩)))
    · rcases (hmem g).1 hg with rfl | ⟨hg, -⟩
      · rw [h.eq_of_key hf hf' hk'.symm]
        exact Nat.le_succ _
      · exact hself f' hf' g hg hk'
    · rcases (hmem g).1 hg with rfl | ⟨hg, hne⟩
      · refine .inl (ht.trans ?_)
        rw [← hk]
        rfl
      · refine .inr ⟨hg, fun t => ?_⟩
        rw [ht]
        rintro ⟨⟩
        exact hne rfl

theorem left_call (h : tx.Table) (c : Call) : tx.Left c (tx.call c) := (effect_call h c).left h

/-! ## Runs -/

variable (cfg : Config) (seed : UInt64)

theorem table_txNew : (txNew cfg seed).Table := by
  have hg := good_txNew cfg seed
  exact ⟨hg.wf, hg.length, hg.pos, hg.nFlows, fun _ => Nat.zero_le _⟩

theorem table_calls (cs : List Call) :
    ((txNew cfg seed).calls cs).Table ∧ ((txNew cfg seed).calls cs).cfg = cfg := by
  refine List.foldlRecOn cs call (motive := fun tx => tx.Table ∧ tx.cfg = cfg)
    ⟨table_txNew cfg seed, rfl⟩ ?_
  rintro tx ⟨ht, hc⟩ c -
  have hl := left_call ht c
  exact ⟨hl.table, hl.cfg.trans hc⟩

/-- The activity of a flow is the last time it was created or committed for. -/
theorem lastTouch_calls (cs : List Call) :
    ∀ f ∈ ((txNew cfg seed).calls cs).flows,
      lastTouch f.key ((txNew cfg seed).history cs) = some f.lastActivityUs := by
  induction cs using List.reverseRecOn with
  | nil =>
    have hflows : ((txNew cfg seed).calls []).flows = [] := by simp [calls, flows, txNew]
    rw [hflows]
    exact fun f hf => absurd hf List.not_mem_nil
  | append_singleton cs c ih =>
    intro f hf
    rw [calls_concat] at hf
    rw [history_concat]
    rcases (left_call (table_calls cfg seed cs).1 c).touched f hf with ht | ⟨hf, hno⟩
    · rw [ht]
      exact lastTouch_append_self ..
    · rw [lastTouch_append_of_ne hno]
      exact ih f hf

theorem idleSince_iff : f.idleSince cfg nowUs = true ↔
    f.lastActivityUs + cfg.egressIdleTimeoutSec * 1000000 < nowUs := by
  simp only [SendFlow.idleSince, decide_eq_true_eq]
  omega

/-- The call is a peek that comes after the flow of the key was idle for longer than
    the timeout. -/
def Expires (tx : Tx) (past : List Call) (key : FlowKey) (c : Call) : Prop :=
  ∃ pkt nowUs maxInner alloc t, c = .peek pkt nowUs maxInner alloc ∧
    lastTouch key (tx.history past) = some t ∧ t + tx.cfg.egressIdleTimeoutSec * 1000000 < nowUs

/-- A flow that goes has expired. -/
theorem expires_of_gone (cs : List Call) (c : Call) (hf : f ∈ ((txNew cfg seed).calls cs).flows)
    (hno : ∀ g ∈ (((txNew cfg seed).calls cs).call c).flows, g.key ≠ f.key) :
    (txNew cfg seed).Expires cs f.key c := by
  obtain ⟨ht, hcfg⟩ := table_calls cfg seed cs
  obtain ⟨pkt, nowUs, maxInner, alloc, hc, hidle⟩ := (left_call ht c).gone f hf hno
  rw [hcfg, idleSince_iff] at hidle
  exact ⟨pkt, nowUs, maxInner, alloc, _, hc, lastTouch_calls cfg seed cs f hf, hidle⟩

/-- As long as a flow does not expire it stays, and its numbers do not go back. -/
theorem stays_or_expires (cs later : List Call) (hf : f ∈ ((txNew cfg seed).calls cs).flows) :
    (∃ g ∈ ((txNew cfg seed).calls (cs ++ later)).flows, g.key = f.key ∧ f.nextSeq ≤ g.nextSeq) ∨
      ∃ xs c ys, later = xs ++ c :: ys ∧ (txNew cfg seed).Expires (cs ++ xs) f.key c := by
  induction later using List.reverseRecOn with
  | nil => exact .inl ⟨f, by rwa [List.append_nil], rfl, le_rfl⟩
  | append_singleton later c ih =>
    rcases ih with ⟨g, hg, hk, hseq⟩ | ⟨xs, c', ys, rfl, hexp⟩
    · by_cases hno : ∀ g' ∈ (((txNew cfg seed).calls (cs ++ later)).call c).flows, g'.key ≠ g.key
      · have hexp := expires_of_gone cfg seed (cs ++ later) c hg hno
        rw [hk] at hexp
        exact .inr ⟨later, c, [], rfl, hexp⟩
      · push Not at hno
        obtain ⟨g', hg', hk'⟩ := hno
        have hstays := (left_call (table_calls cfg seed (cs ++ later)).1 c).stays g hg g' hg' hk'
        refine .inl ⟨g', ?_, hk'.trans hk, hseq.trans hstays⟩
        rw [← List.append_assoc, calls_concat]
        exact hg'
    · exact .inr ⟨xs, c', ys ++ [c], by rw [List.append_assoc, List.cons_append], hexp⟩

/-- A peek that finds the table full, and no flow idle for long enough, sends its
    packet raw and changes no flow. -/
theorem raw_of_full {pkt : Bytes} (hmode : tx.cfg.mode ≠ .off)
    (hp : parse5tuple pkt = some key) (hl : tx.tableLookup key = none) (hfull : tx.full = true)
    (hbusy : ∀ f ∈ tx.flows, f.idleSince tx.cfg nowUs = false) (maxInner : Nat) (alloc : Bool) :
    (tx.peek pkt nowUs maxInner alloc).1.action = .raw ∧
      (tx.peek pkt nowUs maxInner alloc).2.buckets = tx.buckets := by
  have hv : idleVictim tx.cfg nowUs tx.flows = none := by
    cases hv : idleVictim tx.cfg nowUs tx.flows with
    | none => rfl
    | some f =>
      obtain ⟨hf, hidle⟩ := mem_of_idleVictim hv
      exact absurd ((hbusy f hf).symm.trans hidle) Bool.false_ne_true
  rw [peek, if_neg hmode, hp]
  dsimp only
  rw [getOrCreate, hl]
  dsimp only
  rw [if_pos hfull, evictOneIdle, hv]
  exact ⟨rfl, rfl⟩

/-- The flow table of the sender, after any peeks and commits: its keys are distinct
    and in their buckets, and its counter is right and within the limit; a flow
    goes, and its numbers start over, only after more than the idle timeout since
    it was last created or committed for; and a peek that finds the table full of
    other flows sends its packet raw and changes none. -/
theorem sender_table (cs : List Call) :
    let tx := (txNew cfg seed).calls cs
    ((tx.flows.map SendFlow.key).Nodup ∧
      (∀ i chain, tx.buckets[i]? = some chain → ∀ f ∈ chain, tx.slot f.key = i) ∧
      tx.nFlows = tx.flows.length ∧ (cfg.maxFlows ≠ 0 → tx.nFlows ≤ cfg.maxFlows)) ∧
    (∀ c, ∀ f ∈ tx.flows, (∀ g ∈ (tx.call c).flows, g.key ≠ f.key) →
      (txNew cfg seed).Expires cs f.key c) ∧
    (∀ later, ∀ f ∈ tx.flows, ∀ g ∈ ((txNew cfg seed).calls (cs ++ later)).flows, g.key = f.key →
      g.nextSeq < f.nextSeq →
      ∃ xs c ys, later = xs ++ c :: ys ∧ (txNew cfg seed).Expires (cs ++ xs) f.key c) ∧
    ∀ pkt nowUs maxInner alloc key, cfg.mode ≠ .off → parse5tuple pkt = some key →
      tx.tableLookup key = none → tx.full = true →
      (∀ f ∈ tx.flows, ¬(txNew cfg seed).Expires cs f.key (.peek pkt nowUs maxInner alloc)) →
      (tx.peek pkt nowUs maxInner alloc).1.action = .raw ∧
        (tx.peek pkt nowUs maxInner alloc).2.buckets = tx.buckets := by
  obtain ⟨ht, hcfg⟩ := table_calls cfg seed cs
  have hcapped := ht.capped
  rw [hcfg] at hcapped
  refine ⟨⟨ht.wf.nodup, ht.wf.home, ht.nFlows, hcapped⟩, fun c f hf => ?_, ?_, ?_⟩
  · exact expires_of_gone cfg seed cs c hf
  · intro later f hf g hg hk hlt
    refine (stays_or_expires cfg seed cs later hf).resolve_left ?_
    rintro ⟨g', hg', hk', hle⟩
    rw [(table_calls cfg seed (cs ++ later)).1.eq_of_key hg' hg (hk.trans hk'.symm)] at hlt
    exact absurd hlt (not_lt.2 hle)
  · intro pkt nowUs maxInner alloc key hmode hp hl hfull hbusy
    rw [← hcfg] at hmode
    refine raw_of_full hmode hp hl hfull (fun f hf => ?_) maxInner alloc
    refine Bool.eq_false_iff.2 fun hidle => hbusy f hf ?_
    rw [hcfg, idleSince_iff] at hidle
    exact ⟨pkt, nowUs, maxInner, alloc, _, rfl, lastTouch_calls cfg seed cs f hf, hidle⟩

end Tx

end Mqvpn.Reorder
