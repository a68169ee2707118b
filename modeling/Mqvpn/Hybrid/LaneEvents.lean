import Mqvpn.Hybrid.LaneTeardown
import Mqvpn.Lib.Runs

/-!
# Runs of the TCP lane

Every event keeps the invariant of the lane, also when the library runs a close notify within
the call that closes a request.
-/

namespace Mqvpn.Hybrid

open Reorder

namespace Lane

variable {s t u : Lane}

namespace Inv

variable {id : Nat}

/-! ## New flows -/

theorem keeps_stats (h : s.Inv) (stats : LaneStats) : Keeps s { s with stats } where
  inv := ⟨h.faultless, h.chain, h.nodup, h.key, h.counted, h.owned, h.bare, h.request, h.stream, h.once, h.pcb, h.arg,
    h.ended, h.gone⟩
  fixed := rfl
  evolves := .of_flows rfl

/-- A marker for the flow of a key gives way; a flow that relays does not. -/
theorem resolveExisting (h : s.Inv) {key : FlowKey} (ht : s.resolveExisting key = some t) :
    t.Inv ∧ t.fixed = s.fixed ∧ t.flows.next = s.flows.next ∧
      ∀ j g, t.flows.get j = some g ↔ s.flows.get j = some g ∧ g.key ≠ key := by
  unfold Lane.resolveExisting at ht
  split at ht
  · rename_i hnone
    cases ht
    have hall := h.findFlow_eq_none.1 hnone
    exact ⟨h, rfl, rfl, fun j g => ⟨fun hg => ⟨hg, hall j g hg⟩, fun hg => hg.1⟩⟩
  · rename_i id hid
    obtain ⟨f, hf, hkey⟩ := h.findFlow_eq_some.1 hid
    rw [hf] at ht
    dsimp only at ht
    split at ht
    · rename_i hmarker
      cases ht
      have hnot : ¬Relays f := by
        rcases hmarker with hstate | hstate
        · exact not_relays_of_closing hstate
        · rintro (hrelays | hrelays) <;>
            · rw [hstate] at hrelays
              cases hrelays
      have hremove := h.removeFlow_inv hf (h.pcb_of_not_relays hf hnot)
      rw [removeFlow_eq hf] at hremove ⊢
      refine ⟨hremove, rfl, rfl, fun j g => ?_⟩
      by_cases hj : j = id
      · subst hj
        rw [Heap.get_free_self, hf]
        constructor
        · intro hg
          cases hg
        · rintro ⟨hg, hne⟩
          cases hg
          exact absurd hkey hne
      · rw [Heap.get_free_of_ne hj]
        exact ⟨fun hg => ⟨hg, fun hsame => hj (h.key hg hf (hsame.trans hkey.symm))⟩, fun hg => hg.1⟩
    · cases ht

end Inv

/-- The flow that `mqvpn_tcp_lane_on_syn` commits. -/
def synFlow (key : FlowKey) (toTcp : Bool) (synIsn : UInt32) (now : Nat) : Flow where
  key
  state := if toTcp then .pendingAccept else .stickyRaw
  lastActivityUs := now
  synIsn
  hasLane := toTcp

/-- A connection that no flow has. -/
def Idle (s : Lane) (q : Nat) : Prop := s.pcbs.get q = some none ∧ q ∉ s.ended

namespace Inv

variable {id : Nat}

theorem commitSyn (h : s.Inv) {key : FlowKey} (hnew : ∀ j g, s.flows.get j = some g → g.key ≠ key) (toTcp : Bool)
    (synIsn : UInt32) (alloc : Bool) (now : Nat) :
    (s.commitSyn key toTcp synIsn alloc now).1.Inv ∧
      (s.commitSyn key toTcp synIsn alloc now).1.fixed = s.fixed ∧
      (s.commitSyn key toTcp synIsn alloc now).1.flows =
        if (s.commitSyn key toTcp synIsn alloc now).2 then s.flows.alloc (synFlow key toTcp synIsn now) else s.flows := by
  have hcounted (p : Population) : s.counter p + (p.has (synFlow key toTcp synIsn now)).toNat =
      (s.flows.alloc (synFlow key toTcp synIsn now)).count p.has := by
    rw [Heap.count_alloc, (h.counted p).1]
  rw [Lane.commitSyn]
  split
  · exact ⟨(h.keeps_stats _).inv, rfl, rfl⟩
  · rename_i htcp
    split
    · exact ⟨h, rfl, rfl⟩
    · rename_i hraw
      split
      · exact ⟨(h.keeps_stats _).inv, rfl, rfl⟩
      · cases toTcp with
        | true =>
          have hmarked : FlowState.pendingAccept ≠ .stickyRaw := by decide
          refine ⟨h.insert (f := synFlow key true synIsn now) hnew (.inl ⟨rfl, hmarked⟩) ⟨rfl, rfl, rfl⟩ fun p => ?_, rfl, rfl⟩
          have hless : s.nTcpFlows < s.tcpMaxFlows.toNat := Nat.lt_of_not_le fun hle => htcp ⟨rfl, hle⟩
          rw [← hcounted p]
          cases p with
          | tcp => exact ⟨rfl, hless⟩
          | raw => exact ⟨rfl, (h.counted .raw).2⟩
          | closing => exact ⟨rfl, (h.counted .closing).2⟩
        | false =>
          refine ⟨h.insert (f := synFlow key false synIsn now) hnew (.inr ⟨rfl, rfl⟩) ⟨rfl, rfl, rfl⟩ fun p => ?_, rfl, rfl⟩
          have hless : s.nRawMarkers < rawMarkerCap := Nat.lt_of_not_le fun hle => hraw ⟨rfl, hle⟩
          rw [← hcounted p]
          cases p with
          | tcp => exact ⟨rfl, (h.counted .tcp).2⟩
          | raw => exact ⟨rfl, hless⟩
          | closing => exact ⟨rfl, (h.counted .closing).2⟩

theorem onSyn (h : s.Inv) (key : FlowKey) (toTcp : Bool) (synIsn : UInt32) (alloc : Bool) (now : Nat) :
    (s.onSyn key toTcp synIsn alloc now).1.Inv ∧ (s.onSyn key toTcp synIsn alloc now).1.fixed = s.fixed := by
  rw [Lane.onSyn]
  split
  · exact ⟨(h.keeps_stats _).inv, rfl⟩
  · rename_i t ht
    obtain ⟨hinv, hfixed, -, hflows⟩ := h.resolveExisting ht
    have hcommit := hinv.commitSyn (fun j g hg => ((hflows j g).1 hg).2) toTcp synIsn alloc now
    exact ⟨hcommit.1, hcommit.2.1.trans hfixed⟩

/-! ## New connections -/

theorem allocPcb (h : s.Inv) : Keeps s { s with pcbs := s.pcbs.alloc none } ∧
    Idle { s with pcbs := s.pcbs.alloc none } s.pcbs.next := by
  have hold {q : Nat} {v : Option Nat} (hq : (s.pcbs.alloc none).get q = some v) (hv : v ≠ none) :
      s.pcbs.get q = some v := by
    rcases Heap.get_alloc_cases hq with ⟨-, rfl⟩ | ⟨-, hq⟩
    · exact absurd rfl hv
    · exact hq
  refine ⟨⟨⟨h.faultless, h.chain, h.nodup, h.key, h.counted, h.owned, h.bare, h.request, h.stream, h.once,
    fun hf hq => Heap.get_alloc_of_get (h.pcb hf hq), fun hq => h.arg (hold hq (Option.some_ne_none _)), h.ended,
    fun q hq => ?_⟩, rfl, .of_flows rfl⟩, Heap.get_alloc_self, fun hmem => ?_⟩
  · obtain ⟨hlt, hcut⟩ := h.gone q hq
    exact ⟨Nat.lt_succ_of_lt hlt, fun id hid => hcut id (hold hid (Option.some_ne_none _))⟩
  · exact Nat.lt_irrefl _ (h.gone _ hmem).1

theorem lwipAbort (h : s.Inv) {q : Nat} (hq : Idle s q) : Keeps s (s.lwipAbort q) := by
  have hne {r id : Nat} (hr : s.pcbs.get r = some (some id)) : r ≠ q := by
    rintro rfl
    rw [hq.1] at hr
    cases hr
  refine ⟨⟨h.faultless, h.chain, h.nodup, h.key, h.counted, h.owned, h.bare, h.request, h.stream, h.once,
    fun hf hr => (Heap.get_free_of_ne (hne (h.pcb hf hr))).trans (h.pcb hf hr), fun hr => h.arg (Heap.get_free_cases hr).2,
    List.nodup_cons.2 ⟨hq.2, h.ended⟩, fun r hr => ?_⟩, rfl, .of_flows rfl⟩
  rcases List.mem_cons.1 hr with rfl | hr
  · refine ⟨s.pcbs.lt_next hq.1, fun id hid => ?_⟩
    exact (Heap.get_free_cases hid).1 rfl
  · exact ⟨(h.gone r hr).1, fun id hid => (h.gone r hr).2 id (Heap.get_free_cases hid).2⟩

/-- A flow that waited gets its connection. -/
theorem attach (h : s.Inv) {q : Nat} (hq : Idle s q) {f : Flow} (hf : s.flows.get id = some f)
    (hstate : f.state = .pendingAccept) (now : Nat) :
    Touches id s (Lane.setFlow { s with pcbs := s.pcbs.set q (some id) } id
      { f with pcb := some q, state := .pendingStream, lastActivityUs := now, hasLane := true }) := by
  have hbare : f.pcb = none ∧ f.h3Request = none ∧ f.stream = none := by
    refine (h.bare hf).resolve_left ?_
    rintro (hrelays | hrelays) <;>
      · rw [hstate] at hrelays
        cases hrelays
  have hpop : FlowState.pendingStream.population = f.state.population := by
    rw [hstate]
    rfl
  have hself : (s.pcbs.set q (some id)).get q = some (some id) := Heap.get_set_self hq.1
  have hraw : f.state ≠ .stickyRaw := by
    rw [hstate]
    decide
  have hmarked : FlowState.pendingStream ≠ .stickyRaw := by decide
  have hkey : ({ f with pcb := some q, state := .pendingStream, lastActivityUs := now, hasLane := true } : Flow).key =
      f.key := rfl
  have hrequest := h.request hf
  have hown := h.stream_own hf
  refine ⟨⟨h.rewrite hf hkey (.inl ⟨rfl, hmarked⟩) (.inl (.inl rfl)) hrequest hown (h.counted_set hf hpop) (fun r hr => ?_)
    (fun r j hj => ?_) (fun r hr => ?_) h.ended fun r hr => ⟨(h.gone r hr).1, fun j hj => ?_⟩, rfl,
    .of_set hf hkey hraw hmarked rfl⟩, fun j hj => Heap.get_set_of_ne hj⟩
  · cases hr
    exact hself
  · by_cases hrq : r = q
    · rw [hrq, hself, hq.1]
      exact ⟨fun heq => absurd (Option.some.inj (Option.some.inj heq)).symm hj, fun heq => by cases heq⟩
    · rw [Heap.get_set_of_ne hrq]
  · rcases Heap.get_set_cases hr with ⟨rfl, -⟩ | ⟨-, hr⟩
    · rfl
    · obtain ⟨g, hg, hgpcb⟩ := h.arg hr
      rw [hf] at hg
      cases hg
      rw [hbare.1] at hgpcb
      cases hgpcb
  · rcases Heap.get_set_cases hj with ⟨rfl, -⟩ | ⟨-, hj⟩
    · exact hq.2 hr
    · exact (h.gone r hr).2 j hj

theorem allocStream (h : s.Inv) : Keeps s { s with streams := s.streams.alloc () } ∧
    ∀ j f, s.flows.get j = some f → f.stream ≠ some s.streams.next := by
  refine ⟨⟨⟨h.faultless, h.chain, h.nodup, h.key, h.counted, h.owned, h.bare, h.request, fun hf hx => ?_, h.once, h.pcb,
    h.arg, h.ended, h.gone⟩, rfl, .of_flows rfl⟩, fun j f hf hx => ?_⟩
  · obtain ⟨v, hv⟩ := Option.isSome_iff_exists.1 (h.stream hf hx)
    exact Option.isSome_iff_exists.2 ⟨v, Heap.get_alloc_of_get hv⟩
  · have hsome := h.stream hf hx
    rw [Heap.get_next] at hsome
    cases hsome

/-- A flow with a connection gets a new stream. -/
theorem openBound (h : s.Inv) {f : Flow} (hf : s.flows.get id = some f) (hrelays : Relays f) :
    Touches id s (Lane.bindH3Request { s with streams := s.streams.alloc () } id s.streams.next) ∧
      (Lane.bindH3Request { s with streams := s.streams.alloc () } id s.streams.next).flows.get id =
        some { f with h3Request := some s.streams.next, stream := some s.streams.next } := by
  obtain ⟨halloc, hnew⟩ := h.allocStream
  have howned := h.owned hf
  have hkey : ({ f with h3Request := some s.streams.next, stream := some s.streams.next } : Flow).key = f.key := rfl
  unfold Lane.bindH3Request Lane.onFlow
  dsimp only
  rw [hf]
  have hraw := not_raw_of_relays hrelays
  refine ⟨⟨⟨halloc.inv.write hf hkey rfl howned (.inl hrelays) rfl (fun x hx => ?_) rfl, rfl,
    .of_set hf hkey hraw hraw rfl⟩, fun j hj => Heap.get_set_of_ne hj⟩, Heap.get_set_self hf⟩
  cases hx
  exact ⟨Option.isSome_iff_exists.2 ⟨_, Heap.get_alloc_self⟩, fun j g _ hg => hnew j g hg⟩

theorem openStream (h : s.Inv) {f : Flow} (hf : s.flows.get id = some f) (hrelays : Relays f) (answer : OpenAnswer) :
    Touches id s (s.openStream id answer) := by
  have hraw := not_raw_of_relays hrelays
  have habort : Touches id s (s.abortPending id) :=
    (h.teardownSilent (fun _ => Option.isSome_iff_exists.2 ⟨f, hf⟩) fun g hg => by
      rw [hf] at hg
      cases hg
      exact hraw).1
  cases answer with
  | noConn => exact habort
  | noMemory => exact habort
  | noRequest => exact habort
  | sent => exact (h.openBound hf hrelays).1
  | sendFailed =>
    obtain ⟨hbound, hget⟩ := h.openBound hf hrelays
    unfold Lane.openStream
    dsimp only
    generalize Lane.bindH3Request { s with streams := s.streams.alloc () } id s.streams.next = t at hbound hget ⊢
    have hthis {g : Flow} (hg : t.flows.get id = some g) : g.state ≠ .stickyRaw := by
      rw [hget] at hg
      cases hg
      exact hraw
    unfold Lane.requestClose
    split
    · rename_i hreenters
      obtain ⟨hclose, hgone⟩ := hbound.inv.cbRequestClose_of_stream hget rfl
      have hnot : ¬(t.cbRequestClose s.streams.next).Deferred := by
        rw [hclose.deferred]
        intro hdeferred
        rw [hdeferred] at hreenters
        cases hreenters
      refine (hbound.trans hclose).trans (hclose.inv.teardownSilent (fun hdeferred => absurd hdeferred hnot) fun g hg => ?_).1
      rw [hgone] at hg
      cases hg
    · exact hbound.trans (hbound.inv.teardownSilent (fun _ => Option.isSome_iff_exists.2 ⟨_, hget⟩) fun g hg => hthis hg).1

theorem lwipAccept (h : s.Inv) (newpcb : Option Pcb) (now : Nat) (answer : OpenAnswer) :
    Keeps s (s.lwipAccept newpcb now answer) := by
  cases newpcb with
  | none => exact h.keeps_self
  | some pcb =>
    obtain ⟨halloc, hidle⟩ := h.allocPcb
    unfold Lane.lwipAccept
    dsimp only
    generalize hq : s.pcbs.next = q at hidle ⊢
    generalize { s with pcbs := s.pcbs.alloc none } = t at halloc hidle ⊢
    split
    · exact halloc.trans (halloc.inv.lwipAbort hidle)
    · rename_i id hid
      obtain ⟨f, hf, -⟩ := halloc.inv.findFlow_eq_some.1 hid
      unfold Lane.acceptFlow Lane.onFlow
      rw [hf]
      dsimp only
      split
      · exact halloc.trans (halloc.inv.lwipAbort hidle)
      · rename_i hstate
        split
        · -- the number of flows does not exceed the cap
          rename_i hover
          exact absurd hover (Nat.not_lt_of_le (halloc.inv.counted .tcp).2)
        · have hattach := halloc.inv.attach hidle hf (not_not.1 hstate) now
          have hself : (t.flows.set id { f with
              pcb := some q
              state := .pendingStream
              lastActivityUs := now
              hasLane := true }).get id = some _ := Heap.get_set_self hf
          exact halloc.trans (hattach.trans (hattach.inv.openStream hself (.inl rfl) answer)).toKeeps

/-! ## Events -/

theorem relays_of_pcb (h : s.Inv) {f : Flow} {q : Nat} (hf : s.flows.get id = some f) (hq : f.pcb = some q) : Relays f := by
  refine (h.bare hf).resolve_right fun hbare => ?_
  rw [hbare.1] at hq
  cases hq

theorem population_of_relays {f : Flow} (hrelays : Relays f) : f.state.population = .tcp := by
  rcases hrelays with hstate | hstate <;>
    · rw [hstate]
      rfl

/-- A function of a flow that relays. -/
theorem relayEvent (h : s.Inv) {f : Flow} (hf : s.flows.get id = some f) (hrelays : Relays f)
    {g : Flow → Flow × Outcome} (hlinks : (g f).1.links = f.links) (hstate : (g f).1.state = f.state ∨ Relays (g f).1)
    (now : Nat) : Keeps s (s.onFlow id fun f => s.settle id now (g f)) := by
  unfold Lane.onFlow
  rw [hf]
  exact (h.settle hf (population_of_relays hrelays) hlinks
    (hstate.imp_right fun hnow => ⟨hrelays, hnow⟩) now).1

theorem pcbEvent (h : s.Inv) (q now : Nat) {g : Flow → Flow × Outcome}
    (hlinks : ∀ f, (g f).1.links = f.links ∧ (g f).1.state = f.state) : Keeps s (s.pcbEvent q now g) := by
  unfold Lane.pcbEvent Lane.onPcb
  split
  · rename_i id hq
    obtain ⟨f, hf, hpcb⟩ := h.arg hq
    exact h.relayEvent hf (h.relays_of_pcb hf hpcb) (hlinks f).1 (.inl (hlinks f).2) now
  · exact h.keeps_self

theorem streamEvent (h : s.Inv) (x now : Nat) {g : Flow → Flow × Outcome}
    (hlinks : ∀ f, (g f).1.links = f.links ∧ ((g f).1.state = f.state ∨ Relays (g f).1)) :
    Keeps s (s.streamEvent x now g) := by
  unfold Lane.streamEvent
  split
  · exact h.keeps_self
  · rename_i id hid
    obtain ⟨f, hf, hx⟩ := h.findFlowByStream_eq_some.1 hid
    exact h.relayEvent hf (h.relays_of_stream hf hx) (hlinks f).1 (hlinks f).2 now

theorem onStreamRejected (h : s.Inv) (x : Nat) : Keeps s (s.onStreamRejected x) := by
  unfold Lane.onStreamRejected
  split
  · exact h.keeps_self
  · rename_i id hid
    obtain ⟨f, hf, hx⟩ := h.findFlowByStream_eq_some.1 hid
    refine (h.teardownFlow (fun _ => Option.isSome_iff_exists.2 ⟨f, hf⟩) fun g hg => ?_).toKeeps
    rw [hf] at hg
    cases hg
    exact not_raw_of_relays (h.relays_of_stream hf hx)

theorem onLwipErr (h : s.Inv) (q : Nat) : Keeps s (s.onLwipErr q) := by
  unfold Lane.onLwipErr Lane.onPcb
  split
  · rename_i id hq
    obtain ⟨f, hf, hpcb⟩ := h.arg hq
    have hraw := not_raw_of_relays (h.relays_of_pcb hf hpcb)
    have hkey : ({ f with pcb := none } : Flow).key = f.key := rfl
    have hdetach : Touches id s (Lane.setFlow { s with pcbs := s.pcbs.free q } id { f with pcb := none }) := by
      refine ⟨⟨h.detach hf hpcb rfl (fun j hj => (Heap.get_free_cases hj).1 rfl) (fun r hr => Heap.get_free_of_ne hr)
        (.inl rfl), rfl, .of_set hf hkey hraw hraw rfl⟩, fun j hj => Heap.get_set_of_ne hj⟩
    have hself : (s.flows.set id { f with pcb := none }).get id = some { f with pcb := none } := Heap.get_set_self hf
    unfold Lane.onFlow
    dsimp only
    rw [hf]
    dsimp only
    obtain ⟨hclose, hstill, hget⟩ := hdetach.inv.closeH3 (fun _ => Option.isSome_iff_exists.2 ⟨_, hself⟩)
      fun g hg => by
        rw [show g = { f with pcb := none } from Option.some.inj (hg.symm.trans hself)]
        exact hraw
    refine (hdetach.trans (hclose.trans (hclose.inv.removeOwn ?_ fun g hg => ?_).1)).toKeeps
    · exact fun hdeferred => hstill (hclose.deferred.1 hdeferred)
    · obtain ⟨g', hg', rfl⟩ := hget g hg
      rw [show g' = { f with pcb := none } from Option.some.inj (hg'.symm.trans hself)]
      exact ⟨rfl, hraw⟩
  · exact h.keeps_self

theorem onH3Closing (h : s.Inv) (x : Nat) :
    Keeps s (s.onH3Closing x) ∧ ∀ j g, (s.onH3Closing x).flows.get j = some g → g.stream ≠ some x := by
  cases hid : s.findFlowByStream x with
  | none =>
    unfold Lane.onH3Closing
    rw [hid]
    refine ⟨h.keeps_self, fun j g hg hx => ?_⟩
    rw [h.findFlowByStream_eq_some.2 ⟨g, hg, hx⟩] at hid
    cases hid
  | some id =>
    obtain ⟨f, hf, hx⟩ := h.findFlowByStream_eq_some.1 hid
    obtain ⟨hclosing, hgone⟩ := h.onH3Closing_of_stream hf hx
    exact ⟨hclosing.toKeeps, h.stream_ne_of_touches hf hx hclosing hgone⟩

theorem cbRequestClose (h : s.Inv) {x : Nat} (hx : (s.streams.get x).isSome = true) : Keeps s (s.cbRequestClose x) := by
  obtain ⟨hclosing, hnone⟩ := h.onH3Closing x
  unfold Lane.cbRequestClose
  rw [if_neg (by rw [Option.isNone_iff_eq_none, ← Option.not_isSome_iff_eq_none]; exact not_not_intro hx)]
  generalize s.onH3Closing x = t at hclosing hnone ⊢
  exact ⟨hclosing.inv.freeStream hnone, hclosing.fixed, hclosing.evolves.trans (.of_flows rfl)⟩

/-! ## The sweep -/

/-- A walk goes on only if nothing was done but to the flow it has looked at. -/
theorem sweepFlow (h : s.Inv) (hlive : s.Deferred → (s.flows.get id).isSome = true) (now clock : Nat)
    (answers : List DownlinkAnswers) :
    Keeps s (s.sweepFlow now clock id answers).1 ∧
      ((s.sweepFlow now clock id answers).2.2 = false → Touches id s (s.sweepFlow now clock id answers).1) := by
  unfold Lane.sweepFlow
  split
  · rename_i hnone
    have hfail : Touches id s s.fail := h.fail fun hdeferred => by
      have hsome := hlive hdeferred
      rw [hnone] at hsome
      cases hsome
    exact ⟨hfail.toKeeps, fun _ => hfail⟩
  · rename_i f hf
    split
    · rename_i hclosing
      have hraw : f.state ≠ .stickyRaw := by
        rw [hclosing]
        decide
      have hremove := (h.removeFlow hf (h.pcb_of_not_relays hf (not_relays_of_closing hclosing)) hraw).1
      dsimp only
      split
      · exact ⟨hremove.toKeeps, fun _ => hremove⟩
      · exact ⟨h.keeps_self, fun _ => h.touches_self⟩
    · rename_i hopen
      split
      · rename_i hidle
        have hcount : Touches id s
            { s with stats := { s.stats with flowsIdleEvicted := s.stats.flowsIdleEvicted + 1 } } :=
          ⟨h.keeps_stats _, fun _ _ => rfl⟩
        have hdown := hcount.trans (hcount.inv.teardownFlow hlive fun g hg => by
          rw [hf] at hg
          cases hg
          exact hidle.2.1)
        exact ⟨hdown.toKeeps, fun _ => hdown⟩
      · split
        · rename_i hpaused
          split
          · exact ⟨h.keeps_self, fun _ => h.touches_self⟩
          · rename_i a rest
            -- a marker has nothing that waits
            obtain ⟨-, hraw⟩ := (h.owned hf).resolve_right fun hmarker => by
              rw [hpaused] at hmarker
              cases hmarker.2
            have hpop : f.state.population = .tcp := by
              cases hstate : f.state with
              | stickyRaw => exact absurd hstate hraw
              | closing => exact absurd hstate hopen
              | _ => rfl
            have honly := downlinkTick_only f a
            have hsettle := h.settle hf hpop honly.links (.inl honly.state) clock
            refine ⟨hsettle.1, fun hgo => hsettle.2 ?_⟩
            dsimp only at hgo
            exact not_not.1 (of_decide_eq_false hgo)
        · exact ⟨h.keeps_self, fun _ => h.touches_self⟩

theorem sweepChain (h : s.Inv) {ids : List Nat} (hnodup : ids.Nodup)
    (hlive : s.Deferred → ∀ id ∈ ids, (s.flows.get id).isSome = true) (now clock : Nat) (answers : List DownlinkAnswers) :
    Keeps s (Lane.sweepChain now clock s ids answers).1 := by
  induction ids generalizing s answers with
  | nil => exact h.keeps_self
  | cons id ids ih =>
    obtain ⟨hfirst, hrest⟩ := List.nodup_cons.1 hnodup
    obtain ⟨hkeeps, htouches⟩ := h.sweepFlow (fun hdeferred => hlive hdeferred id List.mem_cons_self) now clock answers
    unfold Lane.sweepChain
    dsimp only
    split
    · exact hkeeps
    · rename_i hgo
      have hflow := htouches (Bool.eq_false_iff.2 hgo)
      refine hkeeps.trans (ih hkeeps.inv hrest (fun hdeferred j hj => ?_) _)
      rw [hflow.others j fun heq => hfirst (heq ▸ hj)]
      exact hlive (hkeeps.deferred.1 hdeferred) j (List.mem_cons_of_mem _ hj)

theorem sweepBucket (h : s.Inv) (now clock b walks : Nat) (answers : List DownlinkAnswers) :
    Keeps s (Lane.sweepBucket now clock b walks s answers).1 := by
  induction walks generalizing s answers with
  | zero => exact h.keeps_self
  | succ walks ih =>
    have hwalk := h.sweepChain (h.nodup b) (fun _ id hid => by
      obtain ⟨f, hf, -⟩ := (h.chain b id).1 hid
      exact Option.isSome_iff_exists.2 ⟨f, hf⟩) now clock answers
    unfold Lane.sweepBucket
    dsimp only
    split
    · exact hwalk.trans (ih hwalk.inv _)
    · exact hwalk

theorem keeps_latch (h : s.Inv) (now : Nat) : Keeps s { s with lastSweepUs := now } where
  inv := ⟨h.faultless, h.chain, h.nodup, h.key, h.counted, h.owned, h.bare, h.request, h.stream, h.once, h.pcb, h.arg,
    h.ended, h.gone⟩
  fixed := rfl
  evolves := .of_flows rfl

theorem tick (h : s.Inv) (now clock : Nat) (answers : List DownlinkAnswers) : Keeps s (s.tick now clock answers) := by
  have hsweep (bs : List Nat) (r : Lane × List DownlinkAnswers) (hr : Keeps s r.1) :
      Keeps s (bs.foldl (fun r b => Lane.sweepBucket now clock b (r.2.length + 1) r.1 r.2) r).1 := by
    induction bs generalizing r with
    | nil => exact hr
    | cons b bs ih => exact ih _ (hr.trans (hr.inv.sweepBucket now clock b _ r.2))
  unfold Lane.tick
  split
  · exact h.keeps_self
  · split
    · exact h.keeps_self
    · exact hsweep _ _ (h.keeps_latch now)

/-! ## Runs -/

theorem start (tcpMaxFlows tcpIdleTimeoutSec : UInt32) (hashSeed : UInt64) (reenters : Nat → Bool) :
    (Lane.start tcpMaxFlows tcpIdleTimeoutSec hashSeed reenters).Inv where
  faultless _ := rfl
  chain b id := ⟨fun hid => absurd hid List.not_mem_nil, fun ⟨_, hf, _⟩ => Option.noConfusion rfl (heq_of_eq hf)⟩
  nodup _ := List.nodup_nil
  key hf := Option.noConfusion rfl (heq_of_eq hf)
  counted p := by cases p <;> exact ⟨rfl, Nat.zero_le _⟩
  owned hf := Option.noConfusion rfl (heq_of_eq hf)
  bare hf := Option.noConfusion rfl (heq_of_eq hf)
  request hf := Option.noConfusion rfl (heq_of_eq hf)
  stream hf := Option.noConfusion rfl (heq_of_eq hf)
  once hf := Option.noConfusion rfl (heq_of_eq hf)
  pcb hf := Option.noConfusion rfl (heq_of_eq hf)
  arg hq := Option.noConfusion rfl (heq_of_eq hq)
  ended := List.nodup_nil
  gone _ hq := absurd hq List.not_mem_nil

/-- What is not a new flow keeps the markers for raw flows. -/
theorem event (h : s.Inv) {e : Step} (hproper : s.Proper e) (hsyn : e.isSyn = false) : Keeps s (s.step e) := by
  unfold Lane.step
  cases e with
  | syn key toTcp synIsn alloc now => cases hsyn
  | accept newpcb now answer => exact h.lwipAccept newpcb now answer
  | recv pcb p now answers alloc =>
    exact h.pcbEvent pcb now fun f =>
      ⟨(onLwipRecv_only f p now answers alloc).links, (onLwipRecv_only f p now answers alloc).state⟩
  | sent pcb now a =>
    exact h.pcbEvent pcb now fun f => ⟨(onLwipSent_only f now a).links, (onLwipSent_only f now a).state⟩
  | err pcb => exact h.onLwipErr pcb
  | established stream now answers =>
    refine h.streamEvent stream now fun f => ?_
    have honly := uplinkFlush_only { f with state := .active, lastActivityUs := now } answers
    exact ⟨honly.links, .inr (.inr honly.state)⟩
  | rejected stream => exact h.onStreamRejected stream
  | writable stream now answers =>
    exact h.streamEvent stream now fun f =>
      ⟨(uplinkFlush_only f answers).links, .inl (uplinkFlush_only f answers).state⟩
  | body stream now a =>
    exact h.streamEvent stream now fun f => ⟨(downlinkPump_only f a).links, .inl (downlinkPump_only f a).state⟩
  | reset stream => exact (h.onH3Closing stream).1
  | close stream => exact h.cbRequestClose hproper
  | tick now clock answers => exact h.tick now clock answers

theorem step (h : s.Inv) {e : Step} (hproper : s.Proper e) : (s.step e).Inv ∧ (s.step e).fixed = s.fixed := by
  cases hsyn : e.isSyn with
  | false =>
    have hkeeps := h.event hproper hsyn
    exact ⟨hkeeps.inv, hkeeps.fixed⟩
  | true =>
    cases e with
    | syn key toTcp synIsn alloc now => exact h.onSyn key toTcp synIsn alloc now
    | _ => cases hsyn

theorem run (h : s.Inv) {steps : List Step} (hproper : Runs.Along Lane.step Proper s steps) :
    (s.run steps).Inv ∧ (s.run steps).fixed = s.fixed := by
  refine Runs.foldl_of_along (J := fun t => t.Inv ∧ t.fixed = s.fixed) (fun t e ht he => ?_) ⟨h, rfl⟩ hproper
  obtain ⟨hinv, hfixed⟩ := ht.1.step he
  exact ⟨hinv, hfixed.trans ht.2⟩

end Inv

/-! ## What holds of the lane -/

/-- A connection of the TCP stack for the sample key. -/
def samplePcb : Pcb where
  remoteIp := ⟨[10, 0, 0, 3], rfl⟩
  localIp := ⟨[192, 0, 2, 7], rfl⟩
  remotePort := 40000
  localPort := 80

section Results

variable (tcpMaxFlows tcpIdleTimeoutSec : UInt32) (hashSeed : UInt64) (reenters : Nat → Bool) (steps : List Step)

theorem inv_run (hproper : Runs.Along Lane.step Proper (start tcpMaxFlows tcpIdleTimeoutSec hashSeed reenters) steps) :
    ((start tcpMaxFlows tcpIdleTimeoutSec hashSeed reenters).run steps).Inv ∧
      ((start tcpMaxFlows tcpIdleTimeoutSec hashSeed reenters).run steps).fixed =
        (start tcpMaxFlows tcpIdleTimeoutSec hashSeed reenters).fixed :=
  (Inv.start tcpMaxFlows tcpIdleTimeoutSec hashSeed reenters).run hproper

/-- The flows of a population, by their states. -/
theorem has_tcp :
    Population.tcp.has =
      fun f : Flow => decide (f.state = .pendingAccept ∨ f.state = .pendingStream ∨ f.state = .active) := by
  funext f
  cases hstate : f.state <;> simp [Population.has, FlowState.population, hstate]

theorem has_raw : Population.raw.has = fun f : Flow => decide (f.state = .stickyRaw) := by
  funext f
  cases hstate : f.state <;> simp [Population.has, FlowState.population, hstate]

theorem has_closing : Population.closing.has = fun f : Flow => decide (f.state = .closing) := by
  funext f
  cases hstate : f.state <;> simp [Population.has, FlowState.population, hstate]

/-- After any events: every flow is in the chain of its key, keys and streams are unique, the
    counters are the numbers of flows, within the caps, and a marker is only a key. -/
theorem table (hdeferred : ∀ request, reenters request = false)
    (hproper : Runs.Along Lane.step Proper (start tcpMaxFlows tcpIdleTimeoutSec hashSeed reenters) steps) :
    let t := (start tcpMaxFlows tcpIdleTimeoutSec hashSeed reenters).run steps
    t.fault = false ∧
      (∀ b id, id ∈ t.buckets b ↔ ∃ f, t.flows.get id = some f ∧ t.bucket f.key = b) ∧
      (∀ b, (t.buckets b).Nodup) ∧
      (∀ id id' f f', t.flows.get id = some f → t.flows.get id' = some f' → f.key = f'.key → id = id') ∧
      t.nTcpFlows =
        t.flows.count (fun f => f.state = .pendingAccept ∨ f.state = .pendingStream ∨ f.state = .active) ∧
      t.nRawMarkers = t.flows.count (fun f => f.state = .stickyRaw) ∧
      t.nClosing = t.flows.count (fun f => f.state = .closing) ∧
      t.nTcpFlows ≤ tcpMaxFlows.toNat ∧ t.nRawMarkers ≤ rawMarkerCap ∧ t.nClosing ≤ closingCap ∧
      (∀ id f, t.flows.get id = some f → f.state = .stickyRaw ∨ f.state = .closing →
        f.pcb = none ∧ f.h3Request = none ∧ f.stream = none) ∧
      ∀ id id' f f' x, t.flows.get id = some f → t.flows.get id' = some f' →
        f.stream = some x → f'.stream = some x → id = id' := by
  intro t
  obtain ⟨h, hfixed⟩ := inv_run tcpMaxFlows tcpIdleTimeoutSec hashSeed reenters steps hproper
  have hmax : t.tcpMaxFlows = tcpMaxFlows := congrArg (·.1) hfixed
  rw [← has_tcp, ← has_raw, ← has_closing, ← hmax]
  refine ⟨h.faultless ((deferred_iff hfixed).2 hdeferred), h.chain, h.nodup, fun _ _ _ _ => h.key, (h.counted .tcp).1,
    (h.counted .raw).1, (h.counted .closing).1, (h.counted .tcp).2, (h.counted .raw).2, (h.counted .closing).2,
    fun id f hf hmarker => (h.bare hf).resolve_left fun hrelays => ?_, fun _ _ _ _ _ => h.once⟩
  rcases hmarker with hstate | hstate <;> rcases hrelays with hrelays | hrelays <;>
    · rw [hstate] at hrelays
      cases hrelays

/-- A flow is accepted and closed on both sides, another one is a raw marker. -/
def sampleSteps : List Step :=
  [.syn sampleKey true 7 true 1, .syn { sampleKey with srcPort := 40001 } false 9 true 1,
    .accept (some samplePcb) 2 .sent, .established 0 3 [],
    .recv 0 none 4 [.accept 0] true, .body 0 5 ⟨0, .ok, [⟨.data [] true, 0, .ok, true⟩], true⟩, .close 0]

theorem table_sample :
    Runs.Along Lane.step Proper (start 2 60 5 fun _ => false) sampleSteps ∧
      ((start 2 60 5 fun _ => false).run sampleSteps).fault = false ∧
      ((start 2 60 5 fun _ => false).run sampleSteps).nClosing = 1 := by
  have hproper : Runs.Along Lane.step Proper (start 2 60 5 fun _ => false) sampleSteps := by decide +kernel
  exact ⟨hproper, (table 2 60 5 (fun _ => false) sampleSteps (fun _ => rfl) hproper).1, by decide +kernel⟩

/-- As long as no close notify comes within the call that closes its request: no freed memory is
    used, every flow that was opened is in the table or was unlinked and freed once, every
    connection is aborted or closed at most once, and every counter is its population. -/
theorem freed_once (hdeferred : ∀ request, reenters request = false)
    (hproper : Runs.Along Lane.step Proper (start tcpMaxFlows tcpIdleTimeoutSec hashSeed reenters) steps) :
    let t := (start tcpMaxFlows tcpIdleTimeoutSec hashSeed reenters).run steps
    t.fault = false ∧
      (∀ id, id < t.flows.next ↔ id ∈ t.chained ∨ id ∈ t.flows.freed) ∧
      t.flows.freed.Nodup ∧ (∀ id ∈ t.flows.freed, t.flows.get id = none ∧ id ∉ t.chained) ∧
      (∀ q id, t.pcbs.get q = some (some id) → id ∈ t.chained) ∧
      t.ended.Nodup ∧ (∀ q ∈ t.ended, ∀ id, t.pcbs.get q ≠ some (some id)) ∧
      ∀ p : Population, t.counter p = t.flows.count p.has := by
  intro t
  obtain ⟨h, hfixed⟩ := inv_run tcpMaxFlows tcpIdleTimeoutSec hashSeed reenters steps hproper
  refine ⟨h.faultless ((deferred_iff hfixed).2 hdeferred), fun id => ?_, t.flows.freed_nodup, fun id hid => ?_,
    fun q id hq => ?_, h.ended, fun q hq => (h.gone q hq).2, fun p => (h.counted p).1⟩
  · rw [h.mem_chained]
    exact t.flows.lt_next_iff id
  · have hnone := t.flows.get_of_mem_freed id hid
    refine ⟨hnone, fun hmem => ?_⟩
    have hsome := h.mem_chained.1 hmem
    rw [hnone] at hsome
    cases hsome
  · obtain ⟨f, hf, -⟩ := h.arg hq
    exact h.mem_chained.2 (Option.isSome_iff_exists.2 ⟨f, hf⟩)

/-- A flow is accepted, and its request is rejected. -/
def rejectedSteps : List Step :=
  [.syn sampleKey true 7 true 1, .accept (some samplePcb) 2 .sent, .rejected 0]

theorem freed_once_sample :
    Runs.Along Lane.step Proper (start 2 60 5 fun _ => false) rejectedSteps ∧
      ((start 2 60 5 fun _ => false).run rejectedSteps).fault = false ∧
      ((start 2 60 5 fun _ => false).run rejectedSteps).flows.freed = [0] ∧
      ((start 2 60 5 fun _ => false).run rejectedSteps).ended = [0] := by
  have hproper : Runs.Along Lane.step Proper (start 2 60 5 fun _ => false) rejectedSteps := by decide +kernel
  exact ⟨hproper, (freed_once 2 60 5 (fun _ => false) rejectedSteps (fun _ => rfl) hproper).1, by decide +kernel,
    by decide +kernel⟩

/-- The close notify comes within the call of `tcp_lane_close_h3`: it takes out the flow, which
    `tcp_lane_teardown_flow` goes on to use. -/
theorem used_after_free :
    Runs.Along Lane.step Proper (start 2 60 5 fun _ => true) rejectedSteps ∧
      ((start 2 60 5 fun _ => true).run rejectedSteps).flows.freed = [0] ∧
      ((start 2 60 5 fun _ => true).run rejectedSteps).fault = true :=
  ⟨by decide +kernel, by decide +kernel, by decide +kernel⟩

end Results

end Lane

end Mqvpn.Hybrid
