import Mqvpn.Hybrid.LaneTable

/-!
# Tearing flows down

A flow of the TCP lane ends in one of two ways: it is torn down, and its entry goes, or it is
closed, and its entry stays as a marker, for which the oldest marker may have to go. What is
done on the way leaves the other flows alone (`Lane.Touches`), also when the close notify of the
request comes within the call that closes it.
-/

namespace Mqvpn.Hybrid

namespace Lane

variable {s t u : Lane}

/-! ## What is done to one flow -/

section Keeps

variable {α : Type} {part : Lane → α} {id : Nat}

/-- A step on a flow keeps a part of the lane if what is done to the flow does, and the part is
    not the fault. -/
theorem onFlow_keeps {g : Flow → Lane} (hfail : part s.fail = part s) (hg : ∀ f, part (g f) = part s) :
    part (s.onFlow id g) = part s := by
  unfold onFlow
  split
  · exact hfail
  · exact hg _

theorem forgetH3_keeps (hpart : ∀ (s : Lane) flows fault, part { s with flows, fault } = part s) :
    part (s.forgetH3 id) = part s :=
  onFlow_keeps (hpart s s.flows true) fun _ => hpart s _ s.fault

theorem closeH3_keeps (hdeferred : s.Deferred)
    (hpart : ∀ (s : Lane) flows fault, part { s with flows, fault } = part s) : part (s.closeH3 id) = part s := by
  refine onFlow_keeps (hpart s s.flows true) fun f => ?_
  split
  · rfl
  · rename_i request _
    rw [requestClose, hdeferred request, if_neg Bool.false_ne_true]
    exact forgetH3_keeps hpart

theorem silentAbortPcb_keeps
    (hpart : ∀ (s : Lane) flows pcbs ended fault, part { s with flows, pcbs, ended, fault } = part s) :
    part (s.silentAbortPcb id) = part s := by
  refine onFlow_keeps (hpart s s.flows s.pcbs s.ended true) fun f => ?_
  split
  · rfl
  · split
    · exact hpart s s.flows s.pcbs s.ended true
    · exact hpart s _ _ _ s.fault

theorem closePcb_keeps
    (hpart : ∀ (s : Lane) flows pcbs ended fault, part { s with flows, pcbs, ended, fault } = part s) :
    part (s.closePcb id) = part s := by
  refine onFlow_keeps (hpart s s.flows s.pcbs s.ended true) fun f => ?_
  split
  · rfl
  · split
    · exact hpart s s.flows s.pcbs s.ended true
    · exact hpart s _ _ _ s.fault

end Keeps

/-- From `s` to `t` no flow has come, no flow has got another key, and the markers for raw flows
    are the same. -/
structure Evolves (s t : Lane) : Prop where
  next : t.flows.next = s.flows.next
  old : ∀ {id f'}, t.flows.get id = some f' →
    ∃ f, s.flows.get id = some f ∧ f.key = f'.key ∧ (f.state = .stickyRaw ↔ f'.state = .stickyRaw)
  marker : ∀ {id f}, s.flows.get id = some f → f.state = .stickyRaw → t.flows.get id = some f

namespace Evolves

theorem of_flows (h : t.flows = s.flows) : Evolves s t where
  next := by rw [h]
  old hf := ⟨_, h ▸ hf, rfl, Iff.rfl⟩
  marker hf _ := h ▸ hf

theorem trans (h : Evolves s t) (h' : Evolves t u) : Evolves s u where
  next := h'.next.trans h.next
  old hf := by
    obtain ⟨f', hf', hkey', hraw'⟩ := h'.old hf
    obtain ⟨f, hf, hkey, hraw⟩ := h.old hf'
    exact ⟨f, hf, hkey.trans hkey', hraw.trans hraw'⟩
  marker hf hraw := h'.marker (h.marker hf hraw) hraw

variable {id : Nat} {f f' : Flow}

theorem of_set (hf : s.flows.get id = some f) (hkey : f'.key = f.key) (hraw : f.state ≠ .stickyRaw)
    (hraw' : f'.state ≠ .stickyRaw) (h : t.flows = s.flows.set id f') : Evolves s t where
  next := by rw [h, Heap.next_set]
  old {j g} hg := by
    rw [h] at hg
    rcases Heap.get_set_cases hg with ⟨rfl, rfl⟩ | ⟨-, hg⟩
    · exact ⟨f, hf, hkey.symm, iff_of_false hraw hraw'⟩
    · exact ⟨g, hg, rfl, Iff.rfl⟩
  marker {j g} hg hgraw := by
    have hj : j ≠ id := by
      rintro rfl
      rw [hf] at hg
      cases hg
      exact hraw hgraw
    rw [h, Heap.get_set_of_ne hj, hg]

theorem of_free (hf : s.flows.get id = some f) (hraw : f.state ≠ .stickyRaw) (h : t.flows = s.flows.free id) :
    Evolves s t where
  next := by
    rw [h]
    rfl
  old {j g} hg := by
    rw [h] at hg
    exact ⟨g, (Heap.get_free_cases hg).2, rfl, Iff.rfl⟩
  marker {j g} hg hgraw := by
    have hj : j ≠ id := by
      rintro rfl
      rw [hf] at hg
      cases hg
      exact hraw hgraw
    rw [h, Heap.get_free_of_ne hj, hg]

end Evolves

/-- From `s` to `t` the invariant was kept, and nothing happened to the markers for raw flows. -/
structure Keeps (s t : Lane) : Prop where
  inv : t.Inv
  fixed : t.fixed = s.fixed
  evolves : Evolves s t

theorem Keeps.trans (h : Keeps s t) (h' : Keeps t u) : Keeps s u :=
  ⟨h'.inv, h'.fixed.trans h.fixed, h.evolves.trans h'.evolves⟩

theorem Keeps.deferred (h : Keeps s t) : t.Deferred ↔ s.Deferred := deferred_iff h.fixed

/-- From `s` to `t` nothing was done but to the flow `id`. -/
structure Touches (id : Nat) (s t : Lane) : Prop extends Keeps s t where
  others : ∀ j, j ≠ id → t.flows.get j = s.flows.get j

namespace Touches

variable {id : Nat}

theorem trans (h : Touches id s t) (h' : Touches id t u) : Touches id s u where
  toKeeps := h.toKeeps.trans h'.toKeeps
  others j hj := (h'.others j hj).trans (h.others j hj)

theorem deferred (h : Touches id s t) : t.Deferred ↔ s.Deferred := h.toKeeps.deferred

end Touches

namespace Inv

variable {id : Nat}

theorem keeps_self (h : s.Inv) : Keeps s s := ⟨h, rfl, .of_flows rfl⟩

theorem touches_self (h : s.Inv) : Touches id s s := ⟨h.keeps_self, fun _ _ => rfl⟩

theorem keeps_fail (h : s.Inv) (hnot : ¬s.Deferred) : Keeps s s.fail where
  inv := ⟨fun hdeferred => absurd hdeferred hnot, h.chain, h.nodup, h.key, h.counted, h.owned, h.bare, h.request,
    h.stream, h.once, h.pcb, h.arg, h.ended, h.gone⟩
  fixed := rfl
  evolves := .of_flows rfl

theorem fail (h : s.Inv) (hnot : ¬s.Deferred) : Touches id s s.fail := ⟨h.keeps_fail hnot, fun _ _ => rfl⟩

/-- A pointer may lead to a flow that is gone only after a notify that came too early. -/
theorem onFlow (h : s.Inv) {g : Flow → Lane} (hlive : s.Deferred → (s.flows.get id).isSome = true)
    (hg : ∀ f, s.flows.get id = some f → Touches id s (g f)) : Touches id s (s.onFlow id g) := by
  rw [Lane.onFlow]
  split
  · rename_i hnone
    refine h.fail fun hdeferred => ?_
    have hsome := hlive hdeferred
    rw [hnone] at hsome
    cases hsome
  · rename_i f hf
    exact hg f hf

theorem removeFlow_inv (h : s.Inv) {f : Flow} (hf : s.flows.get id = some f) (hpcb : f.pcb = none) :
    (s.removeFlow id).Inv := by
  have hcounted (p : Population) := h.counted_free hf p
  have hcounter (p : Population) : (s.discount f.state).counter p = counter
      { s with
        nTcpFlows := (s.discount f.state).nTcpFlows
        nRawMarkers := (s.discount f.state).nRawMarkers
        nClosing := (s.discount f.state).nClosing } p := by
    cases p <;> rfl
  rw [removeFlow_eq hf]
  exact h.unlink hf hpcb fun p => hcounter p ▸ hcounted p

theorem removeFlow (h : s.Inv) {f : Flow} (hf : s.flows.get id = some f) (hpcb : f.pcb = none)
    (hraw : f.state ≠ .stickyRaw) : Touches id s (s.removeFlow id) ∧ (s.removeFlow id).flows.get id = none := by
  have hinv := h.removeFlow_inv hf hpcb
  rw [removeFlow_eq hf] at hinv ⊢
  exact ⟨⟨⟨hinv, rfl, .of_free hf hraw rfl⟩, fun j hj => Heap.get_free_of_ne hj⟩, Heap.get_free_self⟩

/-- A flow that is not a marker for a raw flow knows its lane. -/
theorem hasLane (h : s.Inv) {f : Flow} (hf : s.flows.get id = some f) (hraw : f.state ≠ .stickyRaw) : f.hasLane = true :=
  ((h.owned hf).resolve_right fun hmarker => hraw hmarker.1).1

theorem removeOwn (h : s.Inv) (hlive : s.Deferred → (s.flows.get id).isSome = true)
    (hf : ∀ f, s.flows.get id = some f → f.pcb = none ∧ f.state ≠ .stickyRaw) :
    Touches id s (s.removeOwn id) ∧ (s.removeOwn id).flows.get id = none := by
  refine ⟨h.onFlow hlive fun f hget => ?_, ?_⟩
  · rw [if_pos (h.hasLane hget (hf f hget).2)]
    exact (h.removeFlow hget (hf f hget).1 (hf f hget).2).1
  · rw [Lane.removeOwn, Lane.onFlow]
    split
    · assumption
    · rename_i f hget
      rw [if_pos (h.hasLane hget (hf f hget).2)]
      exact (h.removeFlow hget (hf f hget).1 (hf f hget).2).2

/-- The flow has no request any more. -/
theorem forgetH3 (h : s.Inv) (hlive : s.Deferred → (s.flows.get id).isSome = true)
    (hraw : ∀ f, s.flows.get id = some f → f.state ≠ .stickyRaw) :
    Touches id s (s.forgetH3 id) ∧
      (s.forgetH3 id).flows.get id = (s.flows.get id).map fun f => { f with h3Request := none, stream := none } := by
  refine ⟨h.onFlow hlive fun f hf => ?_, ?_⟩
  · have howned := h.owned hf
    have hkey : ({ f with h3Request := none, stream := none } : Flow).key = f.key := rfl
    have hmarker := hraw f hf
    refine ⟨⟨h.write hf hkey rfl howned ?_ rfl (fun x hx => ?_) rfl, rfl, .of_set hf hkey hmarker hmarker rfl⟩,
      fun j hj => Heap.get_set_of_ne hj⟩
    · exact (h.bare hf).imp (fun hrelays => hrelays) fun hbare => ⟨hbare.1, rfl, rfl⟩
    · cases hx
  · rw [Lane.forgetH3, Lane.onFlow]
    split
    · rename_i hnone
      rw [hnone]
      exact hnone
    · rename_i f hf
      rw [hf]
      exact Heap.get_set_self hf

/-- The flow has no connection any more: `cut` is what becomes of the connections. -/
theorem endPcb (h : s.Inv) (hlive : s.Deferred → (s.flows.get id).isSome = true)
    (hraw : ∀ f, s.flows.get id = some f → f.state ≠ .stickyRaw) (cut : Nat → Heap (Option Nat))
    (hnext : ∀ q, (cut q).next = s.pcbs.next) (hself : ∀ q j, (s.pcbs.get q).isSome = true → (cut q).get q ≠ some (some j))
    (hothers : ∀ q r, r ≠ q → (cut q).get r = s.pcbs.get r) {g : Flow → Lane}
    (hnone : ∀ f, f.pcb = none → g f = s)
    (hsome : ∀ f q, f.pcb = some q → (s.pcbs.get q).isSome = true →
      g f = Lane.setFlow { s with pcbs := cut q, ended := q :: s.ended } id { f with pcb := none }) :
    Touches id s (s.onFlow id g) ∧
      (s.onFlow id g).flows.get id = (s.flows.get id).map fun f => { f with pcb := none } := by
  have hthere {f : Flow} {q : Nat} (hf : s.flows.get id = some f) (hq : f.pcb = some q) : (s.pcbs.get q).isSome = true :=
    Option.isSome_iff_exists.2 ⟨_, h.pcb hf hq⟩
  refine ⟨h.onFlow hlive fun f hf => ?_, ?_⟩
  · cases hq : f.pcb with
    | none =>
      rw [hnone f hq]
      exact h.touches_self
    | some q =>
      have hlive := hthere hf hq
      rw [hsome f q hq hlive]
      have hkey : ({ f with pcb := none } : Flow).key = f.key := rfl
      have hmarker := hraw f hf
      exact ⟨⟨h.detach hf hq (hnext q) (fun j => hself q j hlive) (hothers q) (.inr rfl), rfl,
        .of_set hf hkey hmarker hmarker rfl⟩, fun j hj => Heap.get_set_of_ne hj⟩
  · rw [Lane.onFlow]
    split
    · rename_i hdead
      rw [hdead]
      exact hdead
    · rename_i f hf
      rw [hf]
      cases hq : f.pcb with
      | none => rw [hnone f hq, hf, Option.map_some, ← hq]
      | some q =>
        rw [hsome f q hq (hthere hf hq)]
        exact Heap.get_set_self hf

theorem silentAbortPcb (h : s.Inv) (hlive : s.Deferred → (s.flows.get id).isSome = true)
    (hraw : ∀ f, s.flows.get id = some f → f.state ≠ .stickyRaw) :
    Touches id s (s.silentAbortPcb id) ∧
      (s.silentAbortPcb id).flows.get id = (s.flows.get id).map fun f => { f with pcb := none } := by
  refine h.endPcb hlive hraw (fun q => s.pcbs.free q) (fun q => rfl) (fun q j _ hj => ?_)
    (fun q r hr => Heap.get_free_of_ne hr) (fun f hq => ?_) fun f q hq hlive => ?_
  · rw [Heap.get_free_self] at hj
    cases hj
  · rw [hq]
  · rw [hq]
    exact if_neg (by rw [Option.isNone_iff_eq_none, ← Option.not_isSome_iff_eq_none]; exact not_not_intro hlive)

theorem closePcb (h : s.Inv) (hlive : s.Deferred → (s.flows.get id).isSome = true)
    (hraw : ∀ f, s.flows.get id = some f → f.state ≠ .stickyRaw) :
    Touches id s (s.closePcb id) ∧
      (s.closePcb id).flows.get id = (s.flows.get id).map fun f => { f with pcb := none } := by
  refine h.endPcb hlive hraw (fun q => s.pcbs.set q none) (fun q => rfl) (fun q j hlive hj => ?_)
    (fun q r hr => Heap.get_set_of_ne hr) (fun f hq => ?_) fun f q hq hlive => ?_
  · obtain ⟨v, hv⟩ := Option.isSome_iff_exists.1 hlive
    rw [Heap.get_set_self hv] at hj
    cases hj
  · rw [hq]
  · rw [hq]
    exact if_neg (by rw [Option.isNone_iff_eq_none, ← Option.not_isSome_iff_eq_none]; exact not_not_intro hlive)

/-! ## Tearing a flow down -/

/-- The connection is aborted, and the flow is taken out. -/
theorem abortAndRemove (h : s.Inv) (hlive : s.Deferred → (s.flows.get id).isSome = true)
    (hraw : ∀ f, s.flows.get id = some f → f.state ≠ .stickyRaw) :
    Touches id s ((s.silentAbortPcb id).removeOwn id) ∧ ((s.silentAbortPcb id).removeOwn id).flows.get id = none := by
  obtain ⟨habort, hget⟩ := h.silentAbortPcb hlive hraw
  have hstill : (s.silentAbortPcb id).Deferred → ((s.silentAbortPcb id).flows.get id).isSome = true := by
    rw [hget, Option.isSome_map, habort.deferred]
    exact hlive
  have hremove := habort.inv.removeOwn hstill fun f' hf' => by
    rw [hget] at hf'
    obtain ⟨f, hf, rfl⟩ := Option.map_eq_some_iff.1 hf'
    exact ⟨rfl, hraw f hf⟩
  exact ⟨habort.trans hremove.1, hremove.2⟩

theorem teardownSilent (h : s.Inv) (hlive : s.Deferred → (s.flows.get id).isSome = true)
    (hraw : ∀ f, s.flows.get id = some f → f.state ≠ .stickyRaw) :
    Touches id s (s.teardownSilent id) ∧ (s.teardownSilent id).flows.get id = none := by
  obtain ⟨hforget, hget⟩ := h.forgetH3 hlive hraw
  have hstill : (s.forgetH3 id).Deferred → ((s.forgetH3 id).flows.get id).isSome = true := by
    rw [hget, Option.isSome_map, hforget.deferred]
    exact hlive
  have habort := hforget.inv.abortAndRemove hstill fun f' hf' => by
    rw [hget] at hf'
    obtain ⟨f, hf, rfl⟩ := Option.map_eq_some_iff.1 hf'
    exact hraw f hf
  exact ⟨hforget.trans habort.1, habort.2⟩

/-- A flow with a stream is not a marker. -/
theorem relays_of_stream (h : s.Inv) {f : Flow} {x : Nat} (hf : s.flows.get id = some f) (hx : f.stream = some x) :
    Relays f := by
  refine (h.bare hf).resolve_right fun hbare => ?_
  rw [hbare.2.2] at hx
  cases hx

theorem not_raw_of_relays {f : Flow} (hrelays : Relays f) : f.state ≠ .stickyRaw := by
  intro hraw
  rcases hrelays with hstate | hstate <;>
    · rw [hraw] at hstate
      cases hstate

/-- Closing a stream takes out its flow. -/
theorem onH3Closing_of_stream (h : s.Inv) {f : Flow} {x : Nat} (hf : s.flows.get id = some f) (hx : f.stream = some x) :
    Touches id s (s.onH3Closing x) ∧ (s.onH3Closing x).flows.get id = none := by
  have hfound : s.findFlowByStream x = some id := h.findFlowByStream_eq_some.2 ⟨f, hf, hx⟩
  unfold Lane.onH3Closing
  rw [hfound]
  refine h.teardownSilent (fun _ => Option.isSome_iff_exists.2 ⟨f, hf⟩) fun f' hf' => ?_
  rw [hf] at hf'
  cases hf'
  exact not_raw_of_relays (h.relays_of_stream hf hx)

/-- A stream that no flow has goes. -/
theorem freeStream (h : s.Inv) {x : Nat} (hnone : ∀ j f, s.flows.get j = some f → f.stream ≠ some x) :
    Inv { s with streams := s.streams.free x } where
  faultless := h.faultless
  chain := h.chain
  nodup := h.nodup
  key := h.key
  counted := h.counted
  owned := h.owned
  bare := h.bare
  request := h.request
  stream {j f y} hf hy := by
    have hyx : y ≠ x := by
      rintro rfl
      exact hnone j f hf hy
    dsimp only
    rw [Heap.get_free_of_ne hyx]
    exact h.stream hf hy
  once := h.once
  pcb := h.pcb
  arg := h.arg
  ended := h.ended
  gone := h.gone

/-- After its close notify a stream is in no flow. -/
theorem stream_ne_of_touches (h : s.Inv) {f : Flow} {x : Nat} (hf : s.flows.get id = some f) (hx : f.stream = some x)
    (ht : Touches id s t) (hgone : t.flows.get id = none) : ∀ j g, t.flows.get j = some g → g.stream ≠ some x := by
  intro j g hg hgx
  by_cases hj : j = id
  · rw [hj, hgone] at hg
    cases hg
  · rw [ht.others j hj] at hg
    exact hj (h.once hg hf hgx hx)

theorem cbRequestClose_of_stream (h : s.Inv) {f : Flow} {x : Nat} (hf : s.flows.get id = some f) (hx : f.stream = some x) :
    Touches id s (s.cbRequestClose x) ∧ (s.cbRequestClose x).flows.get id = none := by
  obtain ⟨hclosing, hgone⟩ := h.onH3Closing_of_stream hf hx
  have hthere : ¬(s.streams.get x).isNone = true := by
    rw [Option.isNone_iff_eq_none, ← Option.not_isSome_iff_eq_none]
    exact not_not_intro (h.stream hf hx)
  have hnone := h.stream_ne_of_touches hf hx hclosing hgone
  unfold Lane.cbRequestClose
  rw [if_neg hthere]
  generalize s.onH3Closing x = t at hclosing hgone hnone ⊢
  exact ⟨⟨⟨hclosing.inv.freeStream hnone, hclosing.fixed, hclosing.evolves.trans (.of_flows rfl)⟩, hclosing.others⟩, hgone⟩

/-- The request of a flow is closed, which may take out the flow. -/
theorem closeH3 (h : s.Inv) (hlive : s.Deferred → (s.flows.get id).isSome = true)
    (hraw : ∀ f, s.flows.get id = some f → f.state ≠ .stickyRaw) :
    Touches id s (s.closeH3 id) ∧ (s.Deferred → ((s.closeH3 id).flows.get id).isSome = true) ∧
      ∀ f', (s.closeH3 id).flows.get id = some f' →
        ∃ f, s.flows.get id = some f ∧ f' = { f with h3Request := none, stream := none } := by
  rw [Lane.closeH3, Lane.onFlow]
  split
  · rename_i hnone
    have hnot : ¬s.Deferred := by
      intro hdeferred
      have hsome := hlive hdeferred
      rw [hnone] at hsome
      cases hsome
    refine ⟨h.fail hnot, fun hdeferred => absurd hdeferred hnot, fun f' hf' => ?_⟩
    rw [Lane.fail, hnone] at hf'
    cases hf'
  · rename_i f hf
    have hsame := h.request hf
    split
    · rename_i hrequest
      refine ⟨h.touches_self, hlive, fun f' hf' => ⟨f, hf, ?_⟩⟩
      rw [hf] at hf'
      cases hf'
      cases f
      cases hrequest
      cases hsame
      rfl
    · rename_i x hrequest
      have hx : f.stream = some x := hsame.symm.trans hrequest
      rw [Lane.requestClose]
      split
      · -- the notify comes within the call
        rename_i hreenters
        obtain ⟨hclose, hgone⟩ := h.cbRequestClose_of_stream hf hx
        have hnot : ¬s.Deferred := by
          intro hdeferred
          rw [hdeferred x] at hreenters
          cases hreenters
        have hdead : (s.cbRequestClose x).Deferred → ((s.cbRequestClose x).flows.get id).isSome = true :=
          fun hdeferred => absurd (hclose.deferred.1 hdeferred) hnot
        have hforget := hclose.inv.forgetH3 hdead fun g hg => by
          rw [hgone] at hg
          cases hg
        refine ⟨hclose.trans hforget.1, fun hdeferred => absurd hdeferred hnot, fun f' hf' => ?_⟩
        rw [hforget.2, hgone] at hf'
        cases hf'
      · have hforget := h.forgetH3 hlive hraw
        refine ⟨hforget.1, fun hdeferred => ?_, fun f' hf' => ?_⟩
        · rw [hforget.2, Option.isSome_map]
          exact hlive hdeferred
        · rw [hforget.2] at hf'
          obtain ⟨g, hg, rfl⟩ := Option.map_eq_some_iff.1 hf'
          exact ⟨g, hg, rfl⟩

theorem teardownFlow (h : s.Inv) (hlive : s.Deferred → (s.flows.get id).isSome = true)
    (hraw : ∀ f, s.flows.get id = some f → f.state ≠ .stickyRaw) : Touches id s (s.teardownFlow id) := by
  obtain ⟨hclose, hstill, hget⟩ := h.closeH3 hlive hraw
  have habort := hclose.inv.abortAndRemove (fun hdeferred => hstill (hclose.deferred.1 hdeferred)) fun f' hf' => by
    obtain ⟨f, hf, rfl⟩ := hget f' hf'
    exact hraw f hf
  exact hclose.trans habort.1

/-- A notify that comes within the call always does harm. -/
theorem teardownFlow_fault (h : s.Inv) {f : Flow} {x : Nat} (hf : s.flows.get id = some f) (hx : f.h3Request = some x)
    (hreenters : s.reenters x = true) : (s.teardownFlow id).fault = true := by
  have hgone := (h.cbRequestClose_of_stream hf ((h.request hf).symm.trans hx)).2
  have hdead {r : Lane} {g : Flow → Lane} (hr : r.flows.get id = none) : r.onFlow id g = r.fail := by
    rw [Lane.onFlow, hr]
  have hclose : s.closeH3 id = (s.cbRequestClose x).fail := by
    unfold Lane.closeH3 Lane.onFlow
    rw [hf]
    dsimp only
    rw [hx]
    dsimp only
    unfold Lane.requestClose Lane.forgetH3
    rw [if_pos hreenters, hdead hgone]
  unfold Lane.teardownFlow Lane.silentAbortPcb Lane.removeOwn
  rw [hclose]
  generalize s.cbRequestClose x = r at hgone ⊢
  have hr : r.fail.flows.get id = none := hgone
  rw [hdead hr, hdead (r := r.fail.fail) hr]
  rfl

/-! ## Closing a flow -/

/-- The oldest marker that was met on a walk over flows that are there. -/
theorem older_foldl (ids : List Nat) (o : Option (Nat × Flow))
    (ho : ∀ e, o = some e → s.flows.get e.1 = some e.2 ∧ e.2.state = .closing) :
    (∀ e, ids.foldl s.older o = some e → s.flows.get e.1 = some e.2 ∧ e.2.state = .closing) ∧
      ((o.isSome = true ∨ ∃ id ∈ ids, ∃ f, s.flows.get id = some f ∧ f.state = .closing) →
        (ids.foldl s.older o).isSome = true) := by
  induction ids generalizing o with
  | nil =>
    refine ⟨ho, ?_⟩
    rintro (hsome | ⟨id, hid, -⟩)
    · exact hsome
    · exact absurd hid List.not_mem_nil
  | cons id ids ih =>
    have hstep : (∀ e, s.older o id = some e → s.flows.get e.1 = some e.2 ∧ e.2.state = .closing) ∧
        ((o.isSome = true ∨ ∃ f, s.flows.get id = some f ∧ f.state = .closing) → (s.older o id).isSome = true) := by
      rw [older]
      split
      · rename_i hnone
        refine ⟨ho, ?_⟩
        rintro (hsome | ⟨f, hf, -⟩)
        · exact hsome
        · rw [hnone] at hf
          cases hf
      · rename_i f hf
        split
        · rename_i hold
          refine ⟨fun e he => ?_, fun _ => rfl⟩
          cases he
          exact ⟨hf, hold.1⟩
        · rename_i hnot
          refine ⟨ho, ?_⟩
          rintro (hsome | ⟨g, hg, hclosing⟩)
          · exact hsome
          · rw [hf] at hg
            cases hg
            cases o with
            | none => exact absurd ⟨hclosing, rfl⟩ hnot
            | some e => rfl
    obtain ⟨hfound, hmet⟩ := ih (s.older o id) hstep.1
    refine ⟨hfound, ?_⟩
    rintro (hsome | ⟨j, hj, f, hf, hclosing⟩)
    · exact hmet (.inl (hstep.2 (.inl hsome)))
    · rcases List.mem_cons.1 hj with rfl | hj
      · exact hmet (.inl (hstep.2 (.inr ⟨f, hf, hclosing⟩)))
      · exact hmet (.inr ⟨j, hj, f, hf, hclosing⟩)

/-- A marker for a closed flow has no connection. -/
theorem pcb_of_not_relays (h : s.Inv) {f : Flow} (hf : s.flows.get id = some f) (hnot : ¬Relays f) : f.pcb = none :=
  ((h.bare hf).resolve_left hnot).1

theorem not_relays_of_closing {f : Flow} (hclosing : f.state = .closing) : ¬Relays f := by
  rintro (hstate | hstate) <;>
    · rw [hclosing] at hstate
      cases hstate

/-- There is room for a marker, and the flows that are not closed are still there. -/
theorem roomForClosing (h : s.Inv) :
    Keeps s s.roomForClosing ∧ s.roomForClosing.nClosing < closingCap ∧
      (∀ j f, s.flows.get j = some f → f.state ≠ .closing → s.roomForClosing.flows.get j = some f) ∧
      ∀ j f, s.roomForClosing.flows.get j = some f → s.flows.get j = some f := by
  unfold Lane.roomForClosing
  split
  · rename_i hfull
    have hcounted := h.counted .closing
    have hpos : 0 < s.flows.count Population.closing.has := by
      rw [← hcounted.1]
      exact Nat.lt_of_lt_of_le (by decide) hfull
    obtain ⟨id, f, hf, hhas⟩ := Heap.exists_of_count_pos hpos
    have hclosing : f.state = .closing := by
      have hpop : f.state.population = .closing := of_decide_eq_true hhas
      cases hstate : f.state <;> rw [hstate] at hpop <;> first | rfl | cases hpop
    obtain ⟨hfound, hmet⟩ := older_foldl s.chained none fun e he => by cases he
    have hsome := hmet (.inr ⟨id, h.mem_chained.2 (Option.isSome_iff_exists.2 ⟨f, hf⟩), f, hf, hclosing⟩)
    obtain ⟨o, ho⟩ := Option.isSome_iff_exists.1 hsome
    obtain ⟨hget, holdest⟩ := hfound o ho
    have hraw : o.2.state ≠ .stickyRaw := by
      rw [holdest]
      decide
    obtain ⟨hremove, hgone⟩ := h.removeFlow hget (h.pcb_of_not_relays hget (not_relays_of_closing holdest)) hraw
    have hcount : (s.removeFlow o.1).nClosing + 1 = s.nClosing := by
      have hafter := Heap.count_free (p := Population.closing.has) hget
      have hhas : Population.closing.has o.2 = true := by
        rw [Population.has, holdest]
        rfl
      rw [hhas] at hafter
      have hnow := (hremove.inv.counted .closing).1
      rw [removeFlow_eq hget] at hnow ⊢
      change _ = s.nClosing
      rw [show s.nClosing = _ from hcounted.1, ← hafter]
      exact congrArg (· + 1) hnow
    have hevict : s.evictOldestClosing = s.removeFlow o.1 := by
      unfold Lane.evictOldestClosing
      rw [ho]
    rw [hevict]
    refine ⟨hremove.toKeeps, ?_, fun j g hg hnot => ?_, fun j g hg => ?_⟩
    · have hcap : s.nClosing ≤ closingCap := hcounted.2
      omega
    · rw [hremove.others j]
      · exact hg
      · rintro rfl
        rw [hget] at hg
        cases hg
        exact hnot holdest
    · by_cases hj : j = o.1
      · rw [hj, hgone] at hg
        cases hg
      · rw [hremove.others j hj] at hg
        exact hg
  · rename_i hroom
    exact ⟨h.keeps_self, Nat.lt_of_not_le hroom, fun _ _ hf _ => hf, fun _ _ hf => hf⟩

theorem not_raw_of_population {f : Flow} (hpop : f.state.population = .tcp) : f.state ≠ .stickyRaw := by
  intro hraw
  rw [hraw] at hpop
  cases hpop

/-- A flow that was cleared goes over to the closed ones. -/
theorem markClosing (h : s.Inv) (hlive : s.Deferred → (s.flows.get id).isSome = true)
    (hf : ∀ f, s.flows.get id = some f →
      f.state.population = .tcp ∧ f.pcb = none ∧ f.h3Request = none ∧ f.stream = none) (now : Nat) :
    Keeps s (s.markClosing id now) := by
  obtain ⟨hroom, hless, hkept, hold⟩ := h.roomForClosing
  have hopen (hdeferred : s.roomForClosing.Deferred) : (s.roomForClosing.flows.get id).isSome = true := by
    obtain ⟨f, hget⟩ := Option.isSome_iff_exists.1 (hlive (hroom.deferred.1 hdeferred))
    refine Option.isSome_iff_exists.2 ⟨f, hkept id f hget fun hclosing => ?_⟩
    have hpop := (hf f hget).1
    rw [hclosing] at hpop
    cases hpop
  unfold Lane.markClosing
  generalize s.roomForClosing = r at hroom hless hopen hold ⊢
  rw [Lane.onFlow]
  split
  · rename_i hnone
    refine hroom.trans (hroom.inv.keeps_fail fun hdeferred => ?_)
    have hsome := hopen hdeferred
    rw [hnone] at hsome
    cases hsome
  · rename_i f hget
    obtain ⟨hpop, hpcb, hrequest, hstream⟩ := hf f (hold id f hget)
    have hraw := not_raw_of_population hpop
    have hlane := hroom.inv.hasLane hget hraw
    have hok : ¬(!f.hasLane) = true := by
      rw [hlane]
      exact Bool.false_ne_true
    rw [if_neg hok]
    have hmarked : FlowState.closing ≠ .stickyRaw := by decide
    have hkey : ({ f with state := .closing, lastActivityUs := now, downlinkStash := [] } : Flow).key = f.key := rfl
    refine hroom.trans ⟨?_, rfl, .of_set hget hkey hraw hmarked rfl⟩
    have hbare : Relays { f with state := .closing, lastActivityUs := now, downlinkStash := [] } ∨
        f.pcb = none ∧ f.h3Request = none ∧ f.stream = none := .inr ⟨hpcb, hrequest, hstream⟩
    have hown := hroom.inv.stream_own hget
    refine hroom.inv.rewrite hget hkey (.inl ⟨hlane, hmarked⟩) hbare (hrequest.trans hstream.symm) hown (fun p => ?_)
      (fun q hq => hroom.inv.pcb hget hq) (fun _ _ _ => Iff.rfl) (fun q hq => ?_) hroom.inv.ended hroom.inv.gone
    · -- one population loses the flow, and another one gets it
      obtain ⟨hcounter, hcap⟩ := hroom.inv.counted p
      have hcount := Heap.count_set (p := p.has)
        (b := { f with state := .closing, lastActivityUs := now, downlinkStash := [] }) hget
      have hpos := Heap.count_pos (p := Population.tcp.has) hget (decide_eq_true hpop)
      cases p with
      | tcp =>
        have hhas : Population.tcp.has f = true := decide_eq_true hpop
        rw [hhas] at hcount
        change _ + 1 = _ + 0 at hcount
        rw [← hcounter] at hcount
        change dec r.nTcpFlows = _ ∧ dec r.nTcpFlows ≤ _
        rw [show r.nTcpFlows = _ from hcount.symm, dec_succ]
        exact ⟨rfl, by omega⟩
      | raw =>
        have hhas : Population.raw.has f = false := by
          rw [Population.has, hpop]
          rfl
        rw [hhas] at hcount
        exact ⟨hcounter.trans hcount.symm, hcap⟩
      | closing =>
        have hhas : Population.closing.has f = false := by
          rw [Population.has, hpop]
          rfl
        rw [hhas] at hcount
        change _ + 0 = _ + 1 at hcount
        rw [← hcounter] at hcount
        exact ⟨hcount.symm, hless⟩
    · obtain ⟨g, hg, hgpcb⟩ := hroom.inv.arg hq
      rw [hget] at hg
      cases hg
      exact hgpcb

theorem finishCleanClose (h : s.Inv) (hlive : s.Deferred → (s.flows.get id).isSome = true)
    (hf : ∀ f, s.flows.get id = some f → f.state.population = .tcp) (now : Nat) :
    Keeps s (s.finishCleanClose id now) := by
  obtain ⟨hclose, hget⟩ := h.closePcb hlive fun f hget => not_raw_of_population (hf f hget)
  have hlive' : (s.closePcb id).Deferred → ((s.closePcb id).flows.get id).isSome = true := by
    rw [hget, Option.isSome_map, hclose.deferred]
    exact hlive
  obtain ⟨hforget, hget'⟩ := hclose.inv.forgetH3 hlive' fun f' hf' => by
    rw [hget] at hf'
    obtain ⟨f, hf₀, rfl⟩ := Option.map_eq_some_iff.1 hf'
    exact not_raw_of_population (hf f hf₀)
  have hlive'' : ((s.closePcb id).forgetH3 id).Deferred →
      (((s.closePcb id).forgetH3 id).flows.get id).isSome = true := by
    rw [hget', Option.isSome_map, hforget.deferred]
    exact hlive'
  have hmark := hforget.inv.markClosing hlive'' (fun f'' hf'' => ?_) now
  · exact (hclose.toKeeps.trans hforget.toKeeps).trans hmark
  · rw [hget'] at hf''
    obtain ⟨f', hf', rfl⟩ := Option.map_eq_some_iff.1 hf''
    rw [hget] at hf'
    obtain ⟨f, hf₀, rfl⟩ := Option.map_eq_some_iff.1 hf'
    exact ⟨hf f hf₀, rfl, rfl, rfl⟩

/-- What a function of a flow has made of it is written back. -/
theorem setFlow (h : s.Inv) {f f' : Flow} (hf : s.flows.get id = some f) (hpop : f.state.population = .tcp)
    (hlinks : f'.links = f.links) (hstate : f'.state = f.state ∨ Relays f ∧ Relays f') :
    Touches id s (s.setFlow id f') ∧ f'.state.population = .tcp := by
  have hkey : f'.key = f.key := congrArg (·.1) hlinks
  have hpcb : f'.pcb = f.pcb := congrArg (·.2.1) hlinks
  have hrequest : f'.h3Request = f.h3Request := congrArg (·.2.2.1) hlinks
  have hstream : f'.stream = f.stream := congrArg (·.2.2.2.1) hlinks
  have hraw := not_raw_of_population hpop
  have hown : f'.hasLane = true := (congrArg (·.2.2.2.2) hlinks).trans (h.hasLane hf hraw)
  have hrelays : Relays f → Relays f' := by
    intro hrelays
    rcases hstate with hsame | hboth
    · rw [Relays, hsame]
      exact hrelays
    · exact hboth.2
  have hpop' : f'.state.population = .tcp := by
    rcases hstate with hsame | ⟨-, hstate | hstate⟩
    · rw [hsame, hpop]
    · rw [hstate]
      rfl
    · rw [hstate]
      rfl
  have hne := not_raw_of_population hpop'
  have hwrite : (s.setFlow id f').Inv := by
    refine h.write hf hkey (hpop'.trans hpop.symm) (.inl ⟨hown, hne⟩) ?_ ?_ (fun x hx => ?_) hpcb
    · rw [hpcb, hrequest, hstream]
      exact (h.bare hf).imp hrelays fun hbare => hbare
    · rw [hrequest, hstream]
      exact h.request hf
    · exact h.stream_own hf x (hstream ▸ hx)
  exact ⟨⟨⟨hwrite, rfl, .of_set hf hkey hraw hne rfl⟩, fun j hj => Heap.get_set_of_ne hj⟩, hpop'⟩

/-- Whatever a function of a flow has decided. -/
theorem settle (h : s.Inv) {f : Flow} (hf : s.flows.get id = some f)
    (hpop : f.state.population = .tcp) {r : Flow × Outcome} (hlinks : r.1.links = f.links)
    (hstate : r.1.state = f.state ∨ Relays f ∧ Relays r.1) (now : Nat) :
    Keeps s (s.settle id now r) ∧ (r.2 = .live → Touches id s (s.settle id now r)) := by
  obtain ⟨hset, hpop'⟩ := h.setFlow hf hpop hlinks hstate
  have hself : (s.setFlow id r.1).flows.get id = some r.1 := Heap.get_set_self hf
  have hlive (_ : (s.setFlow id r.1).Deferred) : ((s.setFlow id r.1).flows.get id).isSome = true :=
    Option.isSome_iff_exists.2 ⟨_, hself⟩
  have hthis {g : Flow} (hg : (s.setFlow id r.1).flows.get id = some g) : g = r.1 :=
    Option.some.inj (hg.symm.trans hself)
  unfold Lane.settle
  generalize s.setFlow id r.1 = t at hset hlive hthis ⊢
  cases hout : r.2 with
  | live => exact ⟨hset.toKeeps, fun _ => hset⟩
  | relayError =>
    have hdown := hset.inv.teardownFlow hlive fun g hg => hthis hg ▸ not_raw_of_population hpop'
    exact ⟨(hset.trans hdown).toKeeps, fun _ => hset.trans hdown⟩
  | cleanClose =>
    have hclose := hset.inv.finishCleanClose hlive (fun g hg => hthis hg ▸ hpop') now
    refine ⟨hset.toKeeps.trans hclose, fun hlive => ?_⟩
    cases hlive

end Inv

end Lane

end Mqvpn.Hybrid
