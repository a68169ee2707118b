import Mathlib.Data.List.GetD
import Mqvpn.Reorder.Tx

/-!
# The numbering of the sender

The headers that the sender commits for one instance of a flow, from its
creation to its eviction, are numbered from zero (`headers`), the first
`resetMarkPackets` of them with FLOW_RESET. This is `Tx.Good`, which every send
keeps, whether it is committed or not, whatever it does to other flows.

On the wire the numbers are reduced modulo `2 ^ 48` (`sender_sequence`), so an
instance that outlives `2 ^ 48` packets starts over at zero
(`not_sequence_unbounded`).
-/

namespace Mqvpn.Reorder

/-- The header of the packet number `i` of an instance, `marks` of which carry
    FLOW_RESET. -/
def header (marks i : Nat) : Bytes := wireEncode typeV1 (if i < marks then flagReset else 0) i

/-- The headers of the first `n` packets of an instance. -/
def headers (marks n : Nat) : List Bytes := (List.range n).map (header marks)

theorem headers_succ (marks n : Nat) : headers marks (n + 1) = headers marks n ++ [header marks n] := by
  rw [headers, List.range_succ, List.map_append]
  rfl

@[simp]
theorem length_headers (marks n : Nat) : (headers marks n).length = n := by
  simp [headers]

theorem getElem?_headers {marks n i : Nat} {hdr : Bytes} :
    (headers marks n)[i]? = some hdr ↔ i < n ∧ header marks i = hdr := by
  rw [headers, List.getElem?_map, Option.map_eq_some_iff]
  constructor
  · rintro ⟨j, hj, rfl⟩
    obtain ⟨hi, rfl⟩ := List.getElem?_eq_some_iff.1 hj
    rw [List.getElem_range]
    exact ⟨List.length_range.subst hi, rfl⟩
  · rintro ⟨hi, rfl⟩
    exact ⟨i, List.getElem?_range hi, rfl⟩

theorem wireDecode_header (marks i : Nat) :
    wireDecode (header marks i) = some (typeV1, if i < marks then flagReset else 0, i % 2 ^ 48) := by
  rw [header, ← List.append_nil (wireEncode ..), wireDecode_wireEncode]

/-- The flow has numbered its packets so far. -/
structure SendFlow.Numbered (f : SendFlow) (marks : Nat) (trace : List TxEvent) : Prop where
  current : (instances f.key trace).current = some (headers marks f.nextSeq)
  marksLeft : f.resetMarksLeft = marks - f.nextSeq

/-- What holds of the flows of a sender and of its trace. -/
structure TxInv (marks : Nat) (trace : List TxEvent) (flows : List SendFlow) : Prop where
  numbered : ∀ k, ∀ l ∈ (instances k trace).all, l = headers marks l.length
  live : ∀ f ∈ flows, f.Numbered marks trace

theorem instances_append (k : FlowKey) (trace : List TxEvent) (e : TxEvent) :
    instances k (trace ++ [e]) = (instances k trace).note (instanceMark k e) :=
  Segments.ofTrace_append trace e

namespace TxInv

variable {marks : Nat} {trace : List TxEvent} {l r : List SendFlow} {f : SendFlow} {k : FlowKey}

/-- An event that is not about the flow. -/
theorem numbered_append {e : TxEvent} (h : f.Numbered marks trace)
    (he : instanceMark f.key e = .skip) : f.Numbered marks (trace ++ [e]) := by
  refine ⟨?_, h.marksLeft⟩
  rw [instances_append, he]
  exact h.current

theorem evict (h : TxInv marks trace (l ++ f :: r)) (hne : ∀ g ∈ l ++ r, g.key ≠ f.key) :
    TxInv marks (trace ++ [.evicted f.key]) (l ++ r) := by
  refine ⟨fun k s hs => ?_, fun g hg => ?_⟩
  · rw [instances_append, instanceMark] at hs
    split_ifs at hs
    · rcases List.mem_append.1 hs with hs | hs
      · exact h.numbered k s hs
      · exact absurd hs List.not_mem_nil
    · exact h.numbered k s hs
  · exact numbered_append (h.live g (Chains.mem_focus.2 (.inr hg))) (if_neg (hne g hg).symm)

theorem create (h : TxInv marks trace (l ++ r)) (hne : ∀ g ∈ l ++ r, g.key ≠ f.key)
    (hseq : f.nextSeq = 0) (hmarks : f.resetMarksLeft = marks) :
    TxInv marks (trace ++ [.created f.key]) (l ++ f :: r) := by
  refine ⟨fun k s hs => ?_, fun g hg => ?_⟩
  · rw [instances_append, instanceMark] at hs
    split_ifs at hs
    · rcases List.mem_append.1 hs with hs | hs
      · exact h.numbered k s hs
      · rw [List.mem_singleton.1 hs]
        rfl
    · exact h.numbered k s hs
  · rcases Chains.mem_focus.1 hg with rfl | hg
    · refine ⟨?_, by rw [hmarks, hseq, Nat.sub_zero]⟩
      rw [instances_append, instanceMark, if_pos rfl, hseq]
      rfl
    · exact numbered_append (h.live g hg) (if_neg (hne g hg).symm)

/-- The header a peek builds is the next one of the instance. -/
theorem hdr_stamped (h : f.Numbered marks trace) : (Tx.stamped f).hdr = header marks f.nextSeq := by
  rw [Tx.stamped, header, h.marksLeft]
  exact congrArg (wireEncode typeV1 · f.nextSeq) (if_congr Nat.sub_pos_iff_lt rfl rfl)

theorem commit (h : TxInv marks trace (l ++ f :: r)) (hne : ∀ g ∈ l ++ r, g.key ≠ f.key)
    (nowUs : Nat) :
    TxInv marks (trace ++ [.committed f.key (header marks f.nextSeq)])
      (l ++ Tx.advance f nowUs :: r) := by
  have hf := h.live f (Chains.mem_focus.2 (.inl rfl))
  refine ⟨fun k s hs => ?_, fun g hg => ?_⟩
  · rw [instances_append, instanceMark] at hs
    split_ifs at hs with hk
    · rcases List.mem_append.1 hs with hs | hs
      · exact h.numbered k s (List.mem_append_left _ hs)
      · rw [← hk, Segments.current_note_item, hf.current, Option.map_some, ← headers_succ] at hs
        rw [List.mem_singleton.1 hs, length_headers]
    · exact h.numbered k s hs
  · rcases Chains.mem_focus.1 hg with rfl | hg
    · refine ⟨?_, ?_⟩
      · change (instances f.key _).current = some (headers marks (f.nextSeq + 1))
        rw [instances_append, instanceMark, if_pos rfl, Segments.current_note_item, hf.current,
          Option.map_some, headers_succ]
      · have := hf.marksLeft
        change (if 0 < f.resetMarksLeft then f.resetMarksLeft - 1 else f.resetMarksLeft) =
          marks - (f.nextSeq + 1)
        split_ifs <;> omega
    · exact numbered_append (h.live g (Chains.mem_focus.2 (.inr hg))) (if_neg (hne g hg).symm)

end TxInv

/-! ## Sends -/

namespace Tx

/-- What holds of a sender between two sends. -/
structure Good (tx : Tx) : Prop where
  wf : Chains.Wf SendFlow.key tx.slot tx.buckets
  length : tx.buckets.length = tx.nBuckets
  pos : 0 < tx.nBuckets
  nFlows : tx.nFlows = tx.flows.length
  inv : TxInv tx.cfg.resetMarkPackets tx.trace tx.flows

variable {tx tx' : Tx} {key : FlowKey} {f : SendFlow} {nowUs : Nat}

/-- A flow of the table, the others, and what can be done to it. -/
theorem Good.focus (h : tx.Good) (hl : tx.tableLookup key = some f) :
    f.key = key ∧ ∃ l r, tx.flows = l ++ f :: r ∧ (∀ g ∈ l ++ r, g.key ≠ f.key) ∧
      (∀ f', (Chains.update SendFlow.key tx.slot tx.buckets key f').flatten = l ++ f' :: r) ∧
      (Chains.remove SendFlow.key tx.slot tx.buckets key).flatten = l ++ r := by
  have hk : f.key = key := Chains.keyOf_of_lookup hl
  obtain ⟨l, r, hflat, hne, hup, hrem⟩ := Chains.lookup_focus h.wf hl
  exact ⟨hk, l, r, hflat, hk ▸ hne, hup, hrem⟩

theorem good_evict (h : tx.Good) (hf : f ∈ tx.flows) : (tx.evict f).Good ∧
    (tx.evict f).flows.Sublist tx.flows ∧ ∀ g ∈ tx.flows, g = f ∨ g ∈ (tx.evict f).flows := by
  have hl : tx.tableLookup f.key = some f := Chains.lookup_of_mem h.wf hf
  obtain ⟨-, l, r, hflat, hne, -, hrem⟩ := h.focus hl
  have hflows : (tx.evict f).flows = l ++ r := hrem
  have hinv := h.inv
  rw [hflat] at hinv
  refine ⟨⟨h.wf.remove hl, (Chains.length_remove ..).trans h.length, h.pos, ?_, ?_⟩, ?_, ?_⟩
  · rw [hflows]
    change tx.nFlows - 1 = _
    rw [h.nFlows, hflat, List.length_append, List.length_append, List.length_cons]
    rfl
  · rw [hflows]
    exact hinv.evict hne
  · rw [hflows, hflat]
    exact (List.sublist_cons_self ..).append_left _
  · intro g hg
    rw [hflat] at hg
    rw [hflows]
    exact Chains.mem_focus.1 hg

theorem good_create (h : tx.Good) (hnew : ∀ g ∈ tx.flows, g.key ≠ key) (nowUs : Nat) :
    (tx.create key nowUs).Good ∧
      ∀ g, g ∈ (tx.create key nowUs).flows ↔ g = newSendFlow tx.cfg key nowUs ∨ g ∈ tx.flows := by
  have hlt : tx.slot (newSendFlow tx.cfg key nowUs).key < tx.buckets.length := by
    rw [h.length]
    exact bucketOf_lt _ h.pos key
  obtain ⟨l, r, hflat, hpush⟩ := Chains.push_focus hlt
  have hold : tx.flows = l ++ r := hflat
  have hflows : (tx.create key nowUs).flows = l ++ newSendFlow tx.cfg key nowUs :: r := hpush
  have hwf := h.wf.push hlt hnew
  have hinv := h.inv
  rw [hold] at hinv hnew
  refine ⟨⟨hwf, (Chains.length_push ..).trans h.length, h.pos, ?_, ?_⟩, ?_⟩
  · rw [hflows]
    change tx.nFlows + 1 = _
    rw [h.nFlows, hold, List.length_append, List.length_append, List.length_cons]
    rfl
  · rw [hflows]
    exact hinv.create (f := newSendFlow tx.cfg key nowUs) hnew rfl rfl
  · intro g
    rw [hflows, hold]
    exact Chains.mem_focus

theorem mem_of_idleVictim {cfg : Config} {flows : List SendFlow}
    (h : idleVictim cfg nowUs flows = some f) : f ∈ flows ∧ f.idleSince cfg nowUs = true := by
  have hmem : ∀ g ∈ idleVictim cfg nowUs flows, g ∈ flows ∧ g.idleSince cfg nowUs = true := by
    refine List.foldlRecOn flows _
      (motive := fun o => ∀ g ∈ o, g ∈ flows ∧ g.idleSince cfg nowUs = true) nofun ?_
    intro o ho f hf g hg
    split_ifs at hg with hidle
    · cases o with
      | none => exact Option.some.inj hg ▸ ⟨hf, hidle⟩
      | some o =>
        dsimp only at hg
        split_ifs at hg
        · exact Option.some.inj hg ▸ ⟨hf, hidle⟩
        · exact ho g hg
    · exact ho g hg
  exact hmem f h

/-- What looking up a flow for a packet of `key`, or making one, amounts to: the
    other flows are as before, or gone. -/
structure Fetched (tx : Tx) (key : FlowKey) (o : Option SendFlow) (tx' : Tx) : Prop where
  good : tx'.Good
  cfg : tx'.cfg = tx.cfg
  found : ∀ f ∈ o, tx'.tableLookup key = some f
  kept : ∀ g ∈ tx'.flows,
    g ∈ tx.flows ∨ (g.key = key ∧ g.nextSeq = 0 ∧ ∀ f ∈ tx.flows, f.key ≠ key)
  gone : ∃ evs, tx'.trace = tx.trace ++ evs ∧ ∀ f ∈ tx.flows, f ∈ tx'.flows ∨ .evicted f.key ∈ evs

theorem Fetched.refl (h : tx.Good) (key : FlowKey) : Fetched tx key none tx :=
  ⟨h, rfl, nofun, fun _ hg => .inl hg, [], (List.append_nil _).symm, fun _ hf => .inl hf⟩

theorem fetched_tryCreate (h : tx.Good) (hnew : ∀ g ∈ tx.flows, g.key ≠ key) (nowUs : Nat)
    (alloc : Bool) :
    Fetched tx key (tx.tryCreate key nowUs alloc).1 (tx.tryCreate key nowUs alloc).2 := by
  rw [tryCreate]
  split_ifs
  · obtain ⟨hg, hmem⟩ := good_create h hnew nowUs
    refine ⟨hg, rfl, ?_, fun g hgm => ?_, _, rfl, fun f hf => .inl ((hmem f).2 (.inr hf))⟩
    · rintro f ⟨⟩
      exact Chains.lookup_of_mem hg.wf ((hmem _).2 (.inl rfl))
    · rcases (hmem g).1 hgm with rfl | hgm
      exacts [.inr ⟨rfl, rfl, hnew⟩, .inl hgm]
  · exact .refl h key

theorem fetched_getOrCreate (h : tx.Good) (key : FlowKey) (nowUs : Nat) (alloc : Bool) :
    Fetched tx key (tx.getOrCreate key nowUs alloc).1 (tx.getOrCreate key nowUs alloc).2 := by
  rw [getOrCreate]
  cases hl : tx.tableLookup key with
  | some f =>
    have hr := Fetched.refl h key
    exact ⟨h, rfl, by rintro _ ⟨⟩; exact hl, hr.kept, hr.gone⟩
  | none =>
    have hnew : ∀ g ∈ tx.flows, g.key ≠ key := Chains.forall_ne_of_lookup_eq_none h.wf.home hl
    dsimp only
    split_ifs
    · rw [evictOneIdle]
      cases hv : idleVictim tx.cfg nowUs tx.flows with
      | none =>
        have hr := Fetched.refl h key
        exact ⟨⟨h.wf, h.length, h.pos, h.nFlows, h.inv⟩, rfl, nofun, hr.kept, hr.gone⟩
      | some f =>
        obtain ⟨hg, hsub, hrest⟩ := good_evict h (mem_of_idleVictim hv).1
        have ht := fetched_tryCreate hg (fun g hg => hnew g (hsub.subset hg)) nowUs alloc
        obtain ⟨evs, htr, hgone⟩ := ht.gone
        refine ⟨ht.good, ht.cfg, ht.found, fun g hgm => ?_, .evicted f.key :: evs, ?_, fun g hgm => ?_⟩
        · rcases ht.kept g hgm with hgm | ⟨hk, h0, -⟩
          exacts [.inl (hsub.subset hgm), .inr ⟨hk, h0, hnew⟩]
        · exact htr.trans (List.append_assoc ..)
        · rcases hrest g hgm with rfl | hgm
          · exact .inr List.mem_cons_self
          · exact (hgone g hgm).imp_right (List.mem_cons_of_mem _)
    · exact fetched_tryCreate h hnew nowUs alloc

/-- A peek fetches a flow, and stamps the packet for it or does not. -/
theorem fetched_peek (h : tx.Good) (pkt : Bytes) (nowUs maxInner : Nat) (alloc : Bool) :
    ∃ key o, Fetched tx key o (tx.peek pkt nowUs maxInner alloc).2 ∧
      ((tx.peek pkt nowUs maxInner alloc).1.action ≠ .stamp ∨
        ∃ f ∈ o, parse5tuple pkt = some key ∧ (tx.peek pkt nowUs maxInner alloc).1 = stamped f) := by
  rw [peek]
  split_ifs
  · exact ⟨udpKey 0, none, .refl h _, .inl nofun⟩
  · cases hp : parse5tuple pkt with
    | none => exact ⟨udpKey 0, none, .refl h _, .inl nofun⟩
    | some key =>
      have hf := fetched_getOrCreate h key nowUs alloc
      refine ⟨key, (tx.getOrCreate key nowUs alloc).1, ?_⟩
      dsimp only
      generalize tx.getOrCreate key nowUs alloc = r at hf
      obtain ⟨o, tx'⟩ := r
      cases o with
      | none => exact ⟨hf, .inl nofun⟩
      | some f =>
        refine ⟨hf, ?_⟩
        dsimp only [stamp]
        split_ifs with helig hmtu
        · exact .inl nofun
        · exact .inl nofun
        · exact .inr ⟨f, rfl, rfl, rfl⟩

theorem commit_of_ne_stamp {pk : TxPeek} (h : pk.action ≠ .stamp) (nowUs : Nat) :
    tx.commit pk nowUs = tx := by
  rw [commit]
  split
  · contradiction
  · rfl

theorem commit_eq (hl : tx.tableLookup key = some f) (nowUs : Nat) :
    tx.commit (stamped f) nowUs = { tx with
      buckets := Chains.update SendFlow.key tx.slot tx.buckets key (advance f nowUs)
      trace := tx.trace ++ [.committed key (stamped f).hdr] } := by
  obtain rfl : f.key = key := Chains.keyOf_of_lookup hl
  simp only [commit, stamped, hl]

/-- A commit after the peek numbers the packet, and changes no other flow. -/
theorem good_commit (h : tx.Good) (hl : tx.tableLookup key = some f) (nowUs : Nat) :
    (tx.commit (stamped f) nowUs).Good ∧ (tx.commit (stamped f) nowUs).cfg = tx.cfg ∧
      (tx.commit (stamped f) nowUs).tableLookup key = some (advance f nowUs) ∧
      ∀ g, g ∈ (tx.commit (stamped f) nowUs).flows ↔
        g = advance f nowUs ∨ (g ∈ tx.flows ∧ g.key ≠ key) := by
  have hc := commit_eq hl nowUs
  obtain ⟨rfl, l, r, hflat, hne, hup, -⟩ := h.focus hl
  have hflows : (tx.commit (stamped f) nowUs).flows = l ++ advance f nowUs :: r := by
    rw [hc]
    exact hup _
  have hinv := h.inv
  rw [hflat] at hinv
  have hg : (tx.commit (stamped f) nowUs).Good := by
    refine ⟨?_, ?_, ?_, ?_, ?_⟩
    · rw [hc]
      exact h.wf.update hl rfl
    · rw [hc]
      exact (Chains.length_update ..).trans h.length
    · rw [hc]
      exact h.pos
    · rw [hflows, hc, h.nFlows, hflat, List.length_append, List.length_append, List.length_cons,
        List.length_cons]
    · have hf := hinv.live f (Chains.mem_focus.2 (.inl rfl))
      rw [hflows, hc, TxInv.hdr_stamped hf]
      exact hinv.commit hne nowUs
  refine ⟨hg, by rw [hc], ?_, fun g => ?_⟩
  · refine Chains.lookup_of_mem (a := advance f nowUs) hg.wf ?_
    change _ ∈ (tx.commit (stamped f) nowUs).flows
    rw [hflows]
    exact Chains.mem_focus.2 (.inl rfl)
  · rw [hflows, hflat, Chains.mem_focus, Chains.mem_focus]
    refine or_congr_right ⟨fun hgm => ⟨.inr hgm, hne g hgm⟩, ?_⟩
    rintro ⟨rfl | hgm, hk⟩
    exacts [absurd rfl hk, hgm]

/-- A send fetches a flow, and then commits a datagram for it or does nothing. -/
theorem step_cases (h : tx.Good) (op : Op) :
    (∃ key o, Fetched tx key o (tx.step op) ∧ tx.sent op = none) ∨
      ∃ key f tx₁ t, Fetched tx key (some f) tx₁ ∧ op.commit = some t ∧
        parse5tuple op.pkt = some key ∧ tx.step op = tx₁.commit (stamped f) t ∧
        tx.sent op = some ⟨key, (stamped f).hdr, op.pkt⟩ := by
  obtain ⟨key, o, hf, hst⟩ := fetched_peek h op.pkt op.nowUs op.maxInnerWithoutReorder op.alloc
  rw [step, sent]
  generalize tx.peek op.pkt op.nowUs op.maxInnerWithoutReorder op.alloc = r at hf hst
  obtain ⟨pk, tx₁⟩ := r
  dsimp only at hf hst ⊢
  cases hcommit : op.commit with
  | none => exact .inl ⟨key, o, hf, rfl⟩
  | some t =>
    rcases hst with hne | ⟨f, ho, hp, rfl⟩
    · refine .inl ⟨key, o, ?_, ?_⟩
      · dsimp only
        rw [commit_of_ne_stamp hne]
        exact hf
      · cases hact : pk.action with
        | stamp => exact absurd hact hne
        | raw => rfl
        | dropMtu => rfl
    · obtain rfl := Option.mem_def.1 ho
      have hk : f.key = key := Chains.keyOf_of_lookup (hf.found f rfl)
      exact .inr ⟨key, f, tx₁, t, hf, rfl, hp, rfl, by rw [← hk]; rfl⟩

/-- A send keeps the invariant; and unless it commits a packet of the key, a flow
    of the key that it leaves in the table is as it was. -/
theorem good_step (h : tx.Good) (op : Op) :
    (tx.step op).Good ∧ (tx.step op).cfg = tx.cfg ∧
      ∀ g ∈ (tx.step op).flows, g ∈ tx.flows ∨ (∀ f ∈ tx.flows, f.key ≠ g.key) ∨
        (op.commit.isSome ∧ parse5tuple op.pkt = some g.key) := by
  have hkept : ∀ {key o tx'}, Fetched tx key o tx' → ∀ g ∈ tx'.flows,
      g ∈ tx.flows ∨ ∀ f ∈ tx.flows, f.key ≠ g.key := by
    intro key o tx' hf g hg
    rcases hf.kept g hg with hg | ⟨hk, -, hnew⟩
    exacts [.inl hg, .inr (hk ▸ hnew)]
  rcases step_cases h op with ⟨key, o, hf, -⟩ | ⟨key, f, tx₁, t, hf, hcommit, hp, hstep, -⟩
  · exact ⟨hf.good, hf.cfg, fun g hg => (hkept hf g hg).imp_right .inl⟩
  · have hl := hf.found f rfl
    obtain ⟨hg, hcfg, -, hflows⟩ := good_commit hf.good hl t
    rw [hstep]
    refine ⟨hg, hcfg.trans hf.cfg, fun g hgm => ?_⟩
    rcases (hflows g).1 hgm with rfl | ⟨hgm, -⟩
    · refine .inr (.inr ⟨by rw [hcommit]; rfl, hp.trans ?_⟩)
      exact congrArg some (Chains.keyOf_of_lookup hl).symm
    · exact (hkept hf g hgm).imp_right .inl

/-! ## The next number -/

/-- The next packet of the key has the number `n`. -/
structure Next (tx : Tx) (k : FlowKey) (n : Nat) : Prop where
  live : ∀ f ∈ tx.flows, f.key = k → f.nextSeq = n
  absent : (∀ f ∈ tx.flows, f.key ≠ k) → n = 0

theorem Fetched.next {tx' : Tx} {o : Option SendFlow} (h : Fetched tx key o tx') :
    ∃ evs, tx'.trace = tx.trace ++ evs ∧
      ∀ k n, tx.Next k n → .evicted k ∉ evs → tx'.Next k n := by
  obtain ⟨evs, ht, hgone⟩ := h.gone
  refine ⟨evs, ht, fun k n hn hev => ⟨fun g hg hk => ?_, fun hno => hn.absent fun f hf hk => ?_⟩⟩
  · rcases h.kept g hg with hg | ⟨hkey, hzero, hnew⟩
    · exact hn.live g hg hk
    · rw [hzero, hn.absent fun f hf => hk ▸ hkey ▸ hnew f hf]
  · rcases hgone f hf with hf | hf
    · exact hno f hf hk
    · exact hev (hk ▸ hf)

/-- Without an eviction of the key, the packets sent for it are numbered on. -/
theorem next_step (h : tx.Good) (op : Op) :
    ∃ evs, (tx.step op).trace = tx.trace ++ evs ∧ ∀ k n, tx.Next k n → .evicted k ∉ evs →
      (∀ m ∈ tx.sent op, m.key = k → m.hdr = header tx.cfg.resetMarkPackets n) ∧
      (tx.step op).Next k (n + (ofKey k (tx.sent op).toList).length) := by
  rcases step_cases h op with ⟨key, o, hf, hsent⟩ | ⟨key, f, tx₁, t, hf, -, -, hstep, hsent⟩
  · obtain ⟨evs, ht, hnext⟩ := hf.next
    rw [hsent]
    exact ⟨evs, ht, fun k n hn hev => ⟨nofun, hnext k n hn hev⟩⟩
  · obtain ⟨evs, ht, hnext⟩ := hf.next
    have hl := hf.found f rfl
    obtain ⟨hg, -, hl', hflows⟩ := good_commit hf.good hl t
    obtain ⟨hk, l, r, hflat, -⟩ := hf.good.focus hl
    have hmem : f ∈ tx₁.flows := hflat ▸ Chains.mem_focus.2 (.inl rfl)
    refine ⟨evs ++ [.committed key (stamped f).hdr], ?_, fun k n hn hev => ?_⟩
    · rw [hstep, commit_eq hl]
      exact (congrArg (· ++ _) ht).trans (List.append_assoc ..)
    have hn := hnext k n hn fun he => hev (List.mem_append_left _ he)
    rw [hsent, hstep]
    by_cases hkey : key = k
    · have hseq := hn.live f hmem (hk.trans hkey)
      refine ⟨?_, fun g hgm hgk => ?_, fun hno => ?_⟩
      · rintro _ ⟨⟩ -
        rw [← hf.cfg, ← hseq]
        exact TxInv.hdr_stamped (hf.good.inv.live f hmem)
      · have hg' := Chains.lookup_of_mem hg.wf hgm
        rw [hgk, ← hkey] at hg'
        rw [← Option.some.inj (hl'.symm.trans hg'), ofKey, Option.toList_some,
          List.filter_cons_of_pos (by simpa using hkey)]
        exact congrArg (· + 1) hseq
      · exact absurd (hk.trans hkey) (hno (advance f t) ((hflows _).2 (.inl rfl)))
    · rw [ofKey, Option.toList_some, List.filter_cons_of_neg (by simpa using hkey)]
      refine ⟨?_, fun g hgm hgk => ?_, fun hno => hn.absent fun g hgm hgk => ?_⟩
      · rintro _ ⟨⟩ hk'
        exact absurd hk' hkey
      · rcases (hflows g).1 hgm with rfl | ⟨hgm, -⟩
        · exact absurd (hk.symm.trans hgk) hkey
        · exact hn.live g hgm hgk
      · exact hno g ((hflows g).2 (.inr ⟨hgm, fun he => hkey (he.symm.trans hgk)⟩)) hgk

/-- A datagram carries a packet of its flow. -/
theorem parse5tuple_sent (h : tx.Good) {op : Op} {m : Msg} (hm : tx.sent op = some m) :
    parse5tuple m.pkt = some m.key := by
  rcases step_cases h op with ⟨-, -, -, hsent⟩ | ⟨key, f, -, -, -, -, hp, -, hsent⟩
  · rw [hsent] at hm
    nomatch hm
  · rw [← Option.some.inj (hsent.symm.trans hm)]
    exact hp

/-- A datagram carries a header of its flow. -/
theorem hdr_sent (h : tx.Good) {op : Op} {m : Msg} (hm : tx.sent op = some m) :
    ∃ i, m.hdr = header tx.cfg.resetMarkPackets i := by
  rcases step_cases h op with ⟨-, -, -, hsent⟩ | ⟨key, f, tx₁, -, hf, -, -, -, hsent⟩
  · rw [hsent] at hm
    nomatch hm
  · rw [← Option.some.inj (hsent.symm.trans hm)]
    obtain ⟨-, l, r, hflat, -⟩ := hf.good.focus (hf.found f rfl)
    have hlive := hf.good.inv.live f (hflat ▸ Chains.mem_focus.2 (.inl rfl))
    exact ⟨f.nextSeq, by rw [TxInv.hdr_stamped hlive, hf.cfg]⟩

/-! ## Runs -/

theorem pickBuckets_pos (maxFlows : Nat) : 0 < pickBuckets maxFlows := by
  have : ∀ fuel n, 0 < n → 0 < pickBucketsLoop maxFlows fuel n := by
    intro fuel
    induction fuel with
    | zero => exact fun n hn => hn
    | succ fuel ih =>
      intro n hn
      rw [pickBucketsLoop]
      split_ifs
      · refine ih _ ?_
        rw [Nat.shiftLeft_eq]
        exact Nat.mul_pos hn (by decide)
      · exact hn
  exact this 16 16 (by decide)

theorem good_txNew (cfg : Config) (seed : UInt64) : (txNew cfg seed).Good := by
  have hflat : (txNew cfg seed).flows = [] := by simp [flows, txNew]
  refine ⟨Chains.wf_replicate_nil _, List.length_replicate, pickBuckets_pos _, ?_, ?_⟩
  · rw [hflat]
    rfl
  · rw [hflat]
    exact ⟨fun k l hl => absurd hl List.not_mem_nil, nofun⟩

theorem good_run (cfg : Config) (seed : UInt64) (ops : List Op) :
    ((txNew cfg seed).run ops).Good ∧ ((txNew cfg seed).run ops).cfg = cfg := by
  refine List.foldlRecOn ops step (motive := fun tx => tx.Good ∧ tx.cfg = cfg)
    ⟨good_txNew cfg seed, rfl⟩ ?_
  rintro tx ⟨hg, hc⟩ op -
  obtain ⟨hg', hc', -⟩ := good_step hg op
  exact ⟨hg', hc'.trans hc⟩

/-- The headers committed for an instance of a flow decode to `0, 1, 2, …` modulo
    `2 ^ 48`, the first `resetMarkPackets` of them with FLOW_RESET; and a flow is
    numbered only by the packets committed for it. -/
theorem sender_sequence (cfg : Config) (seed : UInt64) (ops : List Op) :
    (∀ k, ∀ l ∈ (instances k ((txNew cfg seed).run ops).trace).all, ∀ i hdr, l[i]? = some hdr →
      wireDecode hdr =
        some (typeV1, if i < cfg.resetMarkPackets then flagReset else 0, i % 2 ^ 48)) ∧
    ∀ op, ∀ f ∈ ((txNew cfg seed).run ops).flows,
      ∀ f' ∈ (((txNew cfg seed).run ops).step op).flows, f'.key = f.key →
      (op.commit = none ∨ parse5tuple op.pkt ≠ some f.key) →
      f'.nextSeq = f.nextSeq ∧ f'.resetMarksLeft = f.resetMarksLeft := by
  obtain ⟨hg, hcfg⟩ := good_run cfg seed ops
  refine ⟨fun k l hl i hdr hi => ?_, fun op f hf f' hf' hk hop => ?_⟩
  · rw [hg.inv.numbered k l hl, getElem?_headers, hcfg] at hi
    rw [← hi.2, wireDecode_header]
  · obtain ⟨-, -, hkept⟩ := good_step hg op
    rcases hkept f' hf' with hmem | hnew | ⟨hcommit, hp⟩
    · rw [List.inj_on_of_nodup_map hg.wf.nodup hmem hf hk]
      exact ⟨rfl, rfl⟩
    · exact absurd hk.symm (hnew f hf)
    · rcases hop with hnone | hother
      · rw [hnone] at hcommit
        exact absurd hcommit (by decide)
      · exact absurd (hk ▸ hp) hother

/-! ## The wrap -/

/-- A sender with room for one flow, of any UDP packet. -/
def sampleTxCfg : Config := { Config.default with mode := .on, maxFlows := 1 }

/-- A sample packet, sent. -/
def sampleSend : Op := ⟨udpPacket 1 28, 0, 1500, true, some 0⟩

/-- A packet of an eligible flow that is sent advances the flow. -/
theorem step_of_lookup (hl : tx.tableLookup key = some f) (hmode : tx.cfg.mode ≠ .off)
    (helig : f.eligible = true) (op : Op) (hp : parse5tuple op.pkt = some key)
    (hmtu : hdrLen + op.pkt.length ≤ op.maxInnerWithoutReorder) {t : Nat} (ht : op.commit = some t) :
    tx.step op = tx.commit (stamped f) t ∧ tx.sent op = some ⟨key, (stamped f).hdr, op.pkt⟩ := by
  have hk : f.key = key := Chains.keyOf_of_lookup hl
  have hpk : tx.peek op.pkt op.nowUs op.maxInnerWithoutReorder op.alloc = (stamped f, tx) := by
    rw [peek, if_neg hmode, hp]
    dsimp only
    rw [getOrCreate, hl]
    dsimp only
    rw [stamp, helig, if_neg (by decide), if_neg (not_lt.2 hmtu)]
  rw [step, sent, hpk, ht, ← hk]
  exact ⟨rfl, rfl⟩

/-- Of a packet that fits, only the flow matters to the sender. -/
theorem step_congr (tx : Tx) (op : Op) {pkt : Bytes} {maxInner : Nat}
    (hp : parse5tuple pkt = parse5tuple op.pkt) (hfit : hdrLen + pkt.length ≤ maxInner)
    (hfit' : hdrLen + op.pkt.length ≤ op.maxInnerWithoutReorder) :
    tx.step { op with pkt, maxInnerWithoutReorder := maxInner } = tx.step op ∧
      tx.sent { op with pkt, maxInnerWithoutReorder := maxInner } =
        (tx.sent op).map fun m => { m with pkt } := by
  have hstamp : ∀ f, stamp f pkt.length maxInner = stamp f op.pkt.length op.maxInnerWithoutReorder := by
    intro f
    rw [stamp, stamp, if_neg (not_lt.2 hfit), if_neg (not_lt.2 hfit')]
  have hpeek : tx.peek pkt op.nowUs maxInner op.alloc =
      tx.peek op.pkt op.nowUs op.maxInnerWithoutReorder op.alloc := by
    rw [peek, peek, hp]
    simp only [hstamp]
  rw [step, step, sent, sent, hpeek]
  refine ⟨rfl, ?_⟩
  dsimp only
  generalize (tx.peek op.pkt op.nowUs op.maxInnerWithoutReorder op.alloc).1 = pk
  cases op.commit <;> cases pk.action <;> cases pk.flow <;> rfl

theorem nextSeq_replicate (n : Nat) : ∃ f,
    ((txNew sampleTxCfg 0).run (List.replicate (n + 1) sampleSend)).tableLookup (udpKey 1) = some f ∧
      f.eligible = true ∧ f.nextSeq = n + 1 := by
  induction n with
  | zero =>
    have h1 : (((txNew sampleTxCfg 0).run [sampleSend]).tableLookup (udpKey 1)).map
        (fun f => (f.eligible, f.nextSeq)) = some (true, 1) := by decide +kernel
    obtain ⟨f, hf, he⟩ := Option.map_eq_some_iff.1 h1
    exact ⟨f, hf, congrArg Prod.fst he, congrArg Prod.snd he⟩
  | succ n ih =>
    obtain ⟨f, hl, helig, hseq⟩ := ih
    obtain ⟨hg, hcfg⟩ := good_run sampleTxCfg 0 (List.replicate (n + 1) sampleSend)
    refine ⟨advance f 0, ?_, helig, congrArg (· + 1) hseq⟩
    rw [List.replicate_succ', run, List.foldl_append, List.foldl_cons, List.foldl_nil, ← run]
    have hmode : ((txNew sampleTxCfg 0).run (List.replicate (n + 1) sampleSend)).cfg.mode ≠ .off := by
      rw [hcfg]
      decide
    rw [(step_of_lookup hl hmode helig sampleSend (by decide) (by decide) rfl).1]
    exact (good_commit hg hl 0).2.2.1

/-- After `2 ^ 48` packets of one instance the numbers on the wire start over. -/
theorem not_sequence_unbounded : ∃ ops,
    ∃ l ∈ (instances (udpKey 1) ((txNew sampleTxCfg 0).run ops).trace).all,
      ∃ i hdr, l[i]? = some hdr ∧ (wireDecode hdr).map (·.2.2) ≠ some i := by
  obtain ⟨f, hl, -, hseq⟩ := nextSeq_replicate (2 ^ 48)
  obtain ⟨hg, hcfg⟩ := good_run sampleTxCfg 0 (List.replicate (2 ^ 48 + 1) sampleSend)
  obtain ⟨hk, l, r, hflat, -⟩ := hg.focus hl
  have hcur := (hg.inv.live f (hflat ▸ Chains.mem_focus.2 (.inl rfl))).current
  rw [hk, hseq] at hcur
  refine ⟨List.replicate (2 ^ 48 + 1) sampleSend, _,
    List.mem_append_right _ (Option.mem_toList.2 hcur), 2 ^ 48, _,
    getElem?_headers.2 ⟨Nat.lt_succ_self _, rfl⟩, ?_⟩
  rw [wireDecode_header, Nat.mod_self, Option.map_some]
  decide

end Tx

end Mqvpn.Reorder
