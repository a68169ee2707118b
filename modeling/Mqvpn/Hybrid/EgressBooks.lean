import Mqvpn.Hybrid.Egress
import Mqvpn.Lib.Runs
import Mathlib.Data.List.Count
import Mathlib.Data.List.Nodup

/-!
# The books of the egress

Whatever happens to the server, and whether a close notify comes within the call that asks for
it or later: a flow is destroyed once and not used after that, the list holds the live flows,
and the counters are their numbers, within the limits (`Egress.books`).
-/

namespace Mqvpn.Hybrid

/-! ## A flow keeps its stream -/

namespace EgressFlow

/-- The objects of the library that a flow knows. -/
def links (f : EgressFlow) : Nat × Nat := (f.h3Request, f.stream)

variable (f : EgressFlow)

@[simp] theorem updateFdInterest_links : f.updateFdInterest.links = f.links := by
  rw [updateFdInterest]
  split <;> rfl

@[simp] theorem stampIf_links (moved : Bool) (now : Nat) : (f.stampIf moved now).links = f.links := by
  rw [stampIf]
  split <;> rfl

@[simp] theorem maybeShutdownDownlink_links : f.maybeShutdownDownlink.links = f.links := by
  rw [maybeShutdownDownlink]
  split <;> rfl

@[simp] theorem gotFin_links : f.gotFin.links = f.links := maybeShutdownDownlink_links _

theorem drainLoop_links (now : Nat) (moved : Bool) (rounds : List Round) :
    (drainLoop now f moved rounds).1.links = f.links := by
  induction rounds generalizing f moved with
  | nil =>
    rw [drainLoop, stampIf_links]
    split
    · exact gotFin_links _
    · rfl
  | cons a as ih =>
    rw [drainLoop]
    split
    · exact stampIf_links f moved now
    · rfl
    · dsimp only
      split
      · rfl
      · split
        · rfl
        · rw [stampIf_links, updateFdInterest_links]
          rfl
      · split
        · rw [stampIf_links, gotFin_links]
          rfl
        · split
          · rw [stampIf_links]
            rfl
          · rw [ih]
            rfl

theorem drainBody_links (now : Nat) (rounds : List Round) : (f.drainBody now rounds).1.links = f.links := by
  rw [drainBody]
  split
  · rfl
  · exact f.drainLoop_links now false rounds

theorem flushDownlinkRetry_links (now : Nat) (sends : List SendAnswer) (rounds : List Round) :
    (f.flushDownlinkRetry now sends rounds).1.links = f.links := by
  rw [flushDownlinkRetry]
  dsimp only
  split
  · rfl
  · split <;> rfl
  · split
    · rfl
    · rw [drainBody_links, updateFdInterest_links, maybeShutdownDownlink_links]
      rfl

theorem tryUplinkFin_links (answer : SendAnswer) : (f.tryUplinkFin answer).1.links = f.links := by
  unfold tryUplinkFin
  split
  · rfl
  · split <;> rfl

theorem pendingUplinkFin_links (answer : SendAnswer) : (f.pendingUplinkFin answer).1.links = f.links := by
  rw [pendingUplinkFin]
  split
  · exact f.tryUplinkFin_links answer
  · rfl

theorem stashUplink_links (rest : List UInt8) (alloc : Bool) : (f.stashUplink rest alloc).1.links = f.links := by
  rw [stashUplink]
  split
  · rfl
  · exact updateFdInterest_links _

theorem onH3Writable_links (now : Nat) (answers : List SendAnswer) (fin : SendAnswer) :
    (f.onH3Writable now answers fin).1.links = f.links := by
  rw [onH3Writable]
  split
  · dsimp only
    split
    · rfl
    · exact stampIf_links _ _ _
    · rw [pendingUplinkFin_links, updateFdInterest_links, stampIf_links]
      rfl
  · exact f.pendingUplinkFin_links fin

theorem gotEof_links (fin : SendAnswer) : (f.gotEof fin).1.links = f.links := by
  rw [gotEof, tryUplinkFin_links, updateFdInterest_links]
  rfl

theorem recvLoop_links (now : Nat) (fin : SendAnswer) (recvs : List UplinkRound) :
    (recvLoop now fin f recvs).1.links = f.links := by
  induction recvs generalizing f with
  | nil => exact updateFdInterest_links f
  | cons a as ih =>
    rw [recvLoop]
    split
    · exact updateFdInterest_links f
    · rfl
    · exact f.gotEof_links fin
    · dsimp only
      split
      · exact f.gotEof_links fin
      · split
        · rfl
        · exact stashUplink_links _ _ _
        · split
          · exact stashUplink_links _ _ _
          · rw [ih]
            rfl

theorem onWriteReady_links (writable : Bool) (now : Nat) (a : ReadyAnswers) :
    (f.onWriteReady writable now a).1.links = f.links := by
  rw [onWriteReady]
  split
  · exact f.flushDownlinkRetry_links _ _ _
  · rfl

theorem onRelayReady_links (readable writable : Bool) (now : Nat) (a : ReadyAnswers) :
    (f.onRelayReady readable writable now a).1.links = f.links := by
  have hwrite := f.onWriteReady_links writable now a
  rw [onRelayReady]
  split
  · exact hwrite
  · split
    · rw [recvLoop_links, hwrite]
    · exact (updateFdInterest_links _).trans hwrite

theorem onConnected_links (now : Nat) (rounds : List Round) : (f.onConnected now rounds).1.links = f.links := by
  rw [onConnected, drainBody_links, updateFdInterest_links]
  rfl

theorem onBody_links (now : Nat) (rounds : List Round) : (f.onBody now rounds).1.links = f.links := by
  rw [onBody]
  split
  · rfl
  · exact f.drainBody_links now rounds

theorem fdReady_links (readable writable soError : Bool) (now : Nat) (a : ReadyAnswers) :
    (f.fdReady readable writable soError now a).1.links = f.links := by
  rw [fdReady]
  split
  · split
    · rfl
    · exact f.onConnected_links now a.rounds
  · exact f.onRelayReady_links readable writable now a

end EgressFlow

namespace Egress

/-! ## The books -/

/-- The connection of a flow. -/
def connOf (s : Egress) (id : Nat) : Option Nat :=
  (s.flows id).bind fun f => (s.streams f.stream).map EgressStream.conn

/-- The number of flows of a connection. -/
def flowCount (s : Egress) (conn : Nat) : Nat := s.flowList.countP fun id => s.connOf id = some conn

/-- The list, the slots, the counters and the history fit. -/
structure Inv (s : Egress) : Prop where
  faultless : s.fault = false
  nodup : s.flowList.Nodup
  listed : ∀ id, id ∈ s.flowList ↔ (s.flows id).isSome = true
  slot : ∀ id f, s.flows id = some f →
    ∃ st, s.streams f.stream = some st ∧ st.connectTcp = true ∧ st.tcpEgressFlow = some id
  flow : ∀ stream st id, s.streams stream = some st → st.tcpEgressFlow = some id →
    st.headers = true ∧ ∃ f, s.flows id = some f ∧ f.stream = stream
  request : ∀ id f, s.flows id = some f → f.h3Request = f.stream
  conn : ∀ stream st, s.streams stream = some st → (s.conns st.conn).isSome = true
  count : ∀ c n, s.conns c = some n → n = s.flowCount c ∧ n ≤ s.tcpMaxFlows
  global : s.globalFdCount = s.flowList.length ∧ s.globalFdCount ≤ s.egressFdBudget
  opened : ∀ id, id < s.nextFlow ↔ (s.flows id).isSome = true ∨ id ∈ s.destroyed
  once : s.destroyed.Nodup
  gone : ∀ id ∈ s.destroyed, s.flows id = none

variable {s : Egress}

theorem connOf_eq {id : Nat} {f : EgressFlow} {st : EgressStream} (hf : s.flows id = some f)
    (hst : s.streams f.stream = some st) : s.connOf id = some st.conn := by
  rw [connOf, hf, Option.bind_some, hst]
  rfl

/-! ## Writing a flow back -/

theorem Inv.setFlow (h : s.Inv) {id : Nat} {f f' : EgressFlow} (hf : s.flows id = some f)
    (hlinks : f'.links = f.links) : (s.setFlow id (some f')).Inv := by
  have hstream : f'.stream = f.stream := congrArg Prod.snd hlinks
  have hrequest : f'.h3Request = f.h3Request := congrArg Prod.fst hlinks
  have hlive (j : Nat) : (Function.update s.flows id (some f') j).isSome = (s.flows j).isSome := by
    by_cases hj : j = id
    · rw [hj, Function.update_self, hf]
      rfl
    · rw [Function.update_of_ne hj]
  have hget {j : Nat} {g : EgressFlow} (hg : Function.update s.flows id (some f') j = some g) :
      ∃ g', s.flows j = some g' ∧ g'.stream = g.stream ∧ g'.h3Request = g.h3Request := by
    by_cases hj : j = id
    · rw [hj, Function.update_self] at hg
      cases hg
      exact ⟨f, hj ▸ hf, hstream.symm, hrequest.symm⟩
    · rw [Function.update_of_ne hj] at hg
      exact ⟨g, hg, rfl, rfl⟩
  have hconnOf (j : Nat) : (s.setFlow id (some f')).connOf j = s.connOf j := by
    rw [connOf, connOf, Egress.setFlow]
    dsimp only
    by_cases hj : j = id
    · rw [hj, Function.update_self, hf, Option.bind_some, Option.bind_some, hstream]
    · rw [Function.update_of_ne hj]
  have hflowCount (c : Nat) : (s.setFlow id (some f')).flowCount c = s.flowCount c :=
    List.countP_congr fun j _ => by rw [hconnOf j]
  refine ⟨h.faultless, h.nodup, ?_, ?_, ?_, ?_, h.conn, ?_, h.global, ?_, h.once, ?_⟩
  · intro j
    exact (h.listed j).trans (hlive j ▸ Iff.rfl)
  · intro j g hg
    obtain ⟨g', hg', hsame, -⟩ := hget hg
    obtain ⟨st, hst, hrole, hslot⟩ := h.slot j g' hg'
    exact ⟨st, hsame ▸ hst, hrole, hslot⟩
  · intro stream st j hst hslot
    obtain ⟨hheaders, g, hg, hgstream⟩ := h.flow stream st j hst hslot
    refine ⟨hheaders, ?_⟩
    by_cases hj : j = id
    · subst hj
      rw [hf] at hg
      cases hg
      exact ⟨f', Function.update_self _ _ _, hstream.trans hgstream⟩
    · exact ⟨g, (Function.update_of_ne hj _ _).trans hg, hgstream⟩
  · intro j g hg
    obtain ⟨g', hg', hsame, hsameRequest⟩ := hget hg
    rw [← hsame, ← hsameRequest]
    exact h.request j g' hg'
  · intro c n hn
    rw [hflowCount]
    exact h.count c n hn
  · intro j
    exact (h.opened j).trans (hlive j ▸ Iff.rfl)
  · intro j hj
    by_cases hjd : j = id
    · have hgone := h.gone j hj
      rw [hjd, hf] at hgone
      cases hgone
    · exact (Function.update_of_ne hjd _ _).trans (h.gone j hj)

/-! ## Destroying a flow -/

/-- The flow is in the list, and counted. -/
theorem Inv.counted (h : s.Inv) {id : Nat} {f : EgressFlow} {st : EgressStream} (hf : s.flows id = some f)
    (hst : s.streams f.stream = some st) :
    id ∈ s.flowList ∧ ∃ n, s.conns st.conn = some n ∧ 0 < n ∧ 0 < s.globalFdCount := by
  have hmem : id ∈ s.flowList := (h.listed id).2 (by rw [hf]; rfl)
  obtain ⟨n, hn⟩ := Option.isSome_iff_exists.1 (h.conn f.stream st hst)
  refine ⟨hmem, n, hn, ?_, ?_⟩
  · rw [(h.count st.conn n hn).1, flowCount, List.countP_pos_iff]
    exact ⟨id, hmem, decide_eq_true (connOf_eq hf hst)⟩
  · rw [h.global.1]
    exact List.length_pos_of_mem hmem

/-- No assertion fails. -/
theorem Inv.unlinkFlow_eq (h : s.Inv) {id n : Nat} {f : EgressFlow} {st : EgressStream} (hf : s.flows id = some f)
    (hst : s.streams f.stream = some st) (hn : s.conns st.conn = some n) :
    s.unlinkFlow id f st =
      { s with
        flowList := s.flowList.erase id
        conns := Function.update s.conns st.conn (some (n - 1))
        globalFdCount := s.globalFdCount - 1
        streams := Function.update s.streams f.stream (some { st with tcpEgressFlow := none })
        flows := Function.update s.flows id none
        destroyed := id :: s.destroyed } := by
  obtain ⟨hmem, m, hm, hpos, hglobal⟩ := h.counted hf hst
  rw [hn] at hm
  cases hm
  have hlisted : decide (id ∉ s.flowList) = false := decide_eq_false (not_not_intro hmem)
  have hcount : decide (n = 0) = false := decide_eq_false (Nat.pos_iff_ne_zero.1 hpos)
  have hfds : decide (s.globalFdCount = 0) = false := decide_eq_false (Nat.pos_iff_ne_zero.1 hglobal)
  rw [unlinkFlow]
  dsimp only
  rw [hn]
  dsimp only [setStream, Egress.setFlow]
  rw [hlisted, hcount, hfds, Bool.or_false, Bool.or_false, Bool.or_false]

theorem Inv.unlinkFlow (h : s.Inv) {id : Nat} {f : EgressFlow} {st : EgressStream} (hf : s.flows id = some f)
    (hst : s.streams f.stream = some st) : (s.unlinkFlow id f st).Inv := by
  obtain ⟨hmem, n, hn, hpos, hglobal⟩ := h.counted hf hst
  have hother {j : Nat} {g : EgressFlow} (hg : Function.update s.flows id none j = some g) :
      j ≠ id ∧ s.flows j = some g := by
    by_cases hj : j = id
    · rw [hj, Function.update_self] at hg
      cases hg
    · rw [Function.update_of_ne hj] at hg
      exact ⟨hj, hg⟩
  have hlive (j : Nat) : (Function.update s.flows id none j).isSome = true ↔ j ≠ id ∧ (s.flows j).isSome = true := by
    by_cases hj : j = id
    · rw [hj, Function.update_self]
      exact ⟨fun hsome => Bool.noConfusion hsome, fun hne => absurd rfl hne.1⟩
    · rw [Function.update_of_ne hj]
      exact ⟨fun hsome => ⟨hj, hsome⟩, fun hne => hne.2⟩
  -- the streams keep their connections
  have hstreamConn (x : Nat) :
      (Function.update s.streams f.stream (some { st with tcpEgressFlow := none }) x).map EgressStream.conn =
        (s.streams x).map EgressStream.conn := by
    by_cases hx : x = f.stream
    · rw [hx, Function.update_self, hst]
      rfl
    · rw [Function.update_of_ne hx]
  have hflowCount (c : Nat) :
      s.flowCount c = (s.unlinkFlow id f st).flowCount c + if st.conn = c then 1 else 0 := by
    have hsame : ∀ j ∈ s.flowList.erase id, (s.unlinkFlow id f st).connOf j = s.connOf j := by
      intro j hj
      rw [h.unlinkFlow_eq hf hst hn, connOf, connOf]
      dsimp only
      rw [Function.update_of_ne (h.nodup.mem_erase_iff.1 hj).1]
      exact congrArg _ (funext fun g => hstreamConn g.stream)
    have herase : (s.unlinkFlow id f st).flowCount c = (s.flowList.erase id).countP fun j => s.connOf j = some c := by
      have hlist : (s.unlinkFlow id f st).flowList = s.flowList.erase id := by rw [h.unlinkFlow_eq hf hst hn]
      rw [flowCount, hlist]
      refine List.countP_congr fun j hj => ?_
      rw [hsame j hj]
    rw [herase, flowCount, (List.perm_cons_erase hmem).countP_eq, List.countP_cons, connOf_eq hf hst]
    simp only [Option.some.injEq, decide_eq_true_eq]
  rw [h.unlinkFlow_eq hf hst hn] at hflowCount ⊢
  refine ⟨h.faultless, h.nodup.erase id, ?_, ?_, ?_, ?_, ?_, ?_, ?_, ?_, ?_, ?_⟩
  · intro j
    rw [h.nodup.mem_erase_iff, h.listed j]
    exact (hlive j).symm
  · intro j g hg
    obtain ⟨hj, hg⟩ := hother hg
    obtain ⟨st', hst', hrole, hslot⟩ := h.slot j g hg
    have hx : g.stream ≠ f.stream := by
      intro hx
      obtain ⟨st'', hst'', -, hslot''⟩ := h.slot id f hf
      rw [hx, hst''] at hst'
      cases hst'
      exact hj (Option.some.inj (hslot.symm.trans hslot''))
    exact ⟨st', (Function.update_of_ne hx _ _).trans hst', hrole, hslot⟩
  · intro stream st' j hst' hslot
    by_cases hx : stream = f.stream
    · rw [hx] at hst'
      dsimp only at hst'
      rw [Function.update_self] at hst'
      cases hst'
      cases hslot
    · dsimp only at hst'
      rw [Function.update_of_ne hx] at hst'
      obtain ⟨hheaders, g, hg, hgstream⟩ := h.flow stream st' j hst' hslot
      have hj : j ≠ id := by
        intro hj
        rw [hj, hf] at hg
        cases hg
        exact hx hgstream.symm
      exact ⟨hheaders, g, (Function.update_of_ne hj _ _).trans hg, hgstream⟩
  · intro j g hg
    exact h.request j g (hother hg).2
  · intro stream st' hst'
    have hconn : (s.streams stream).map EgressStream.conn = some st'.conn := by
      rw [← hstreamConn stream]
      exact congrArg (Option.map EgressStream.conn) hst'
    obtain ⟨st'', hst'', hsame⟩ := Option.map_eq_some_iff.1 hconn
    rw [← hsame]
    dsimp only
    by_cases hc : st''.conn = st.conn
    · rw [hc, Function.update_self]
      rfl
    · rw [Function.update_of_ne hc]
      exact h.conn stream st'' hst''
  · intro c m hm
    dsimp only at hm
    have hcount := hflowCount c
    by_cases hc : c = st.conn
    · rw [hc, Function.update_self] at hm
      obtain ⟨hcountOld, hle⟩ := h.count st.conn n hn
      rw [if_pos hc.symm, hc, ← hcountOld] at hcount
      cases hm
      rw [hc]
      exact ⟨by omega, by dsimp only; omega⟩
    · rw [Function.update_of_ne hc] at hm
      obtain ⟨hcountOld, hle⟩ := h.count c m hm
      rw [if_neg (Ne.symm hc), Nat.add_zero] at hcount
      exact ⟨hcountOld.trans hcount, hle⟩
  · dsimp only
    rw [List.length_erase_of_mem hmem, ← h.global.1]
    exact ⟨rfl, Nat.le_trans (Nat.sub_le _ _) h.global.2⟩
  · intro j
    rw [h.opened j, hlive j, List.mem_cons]
    by_cases hj : j = id
    · rw [hj, hf]
      exact ⟨fun _ => .inr (.inl rfl), fun _ => .inl rfl⟩
    · exact ⟨fun hold => hold.elim (fun hsome => .inl ⟨hj, hsome⟩) fun hgone => .inr (.inr hgone),
        fun hnew => hnew.elim (fun hsome => .inl hsome.2) fun hgone => .inr (hgone.resolve_left hj)⟩
  · refine List.nodup_cons.2 ⟨fun hgone => ?_, h.once⟩
    have hnone := h.gone id hgone
    rw [hf] at hnone
    cases hnone
  · intro j hj
    dsimp only
    by_cases hjd : j = id
    · rw [hjd, Function.update_self]
    · rw [Function.update_of_ne hjd]
      exact h.gone j ((List.mem_cons.1 hj).resolve_left hjd)

/-- A flow that is destroyed is in the slot of its stream, and only that slot is cleared. -/
theorem Inv.flowDestroy (h : s.Inv) {id : Nat} {f : EgressFlow} (hf : s.flows id = some f) :
    (s.flowDestroy id).Inv ∧ (∀ j, j ≠ id → (s.flowDestroy id).flows j = s.flows j) ∧
      ∀ st, s.streams f.stream = some st →
        (s.flowDestroy id).streams f.stream = some { st with tcpEgressFlow := none } := by
  obtain ⟨st, hst, -, -⟩ := h.slot id f hf
  obtain ⟨-, n, hn, -, -⟩ := h.counted hf hst
  have hdestroy : s.flowDestroy id = s.unlinkFlow id f st := by
    rw [Egress.flowDestroy, hf]
    dsimp only
    rw [hst]
  have hunlink := h.unlinkFlow hf hst
  rw [hdestroy]
  refine ⟨hunlink, fun j hj => ?_, fun st' hst' => ?_⟩
  · rw [h.unlinkFlow_eq hf hst hn]
    exact Function.update_of_ne hj _ _
  · rw [hst] at hst'
    cases hst'
    rw [h.unlinkFlow_eq hf hst hn]
    exact Function.update_self _ _ _

/-! ## The notifies of a stream -/

/-- A notify destroys the flow of its stream, if there is one. -/
theorem Inv.destroyOf (h : s.Inv) {stream : Nat} {st : EgressStream} (hst : s.streams stream = some st) :
    (s.destroyOf st).Inv ∧ (∀ j, st.tcpEgressFlow ≠ some j → (s.destroyOf st).flows j = s.flows j) ∧
      (s.destroyOf st).streams stream = some { st with tcpEgressFlow := none } := by
  rw [Egress.destroyOf]
  split
  · rename_i hslot
    refine ⟨h, fun _ _ => rfl, hst.trans ?_⟩
    rw [← hslot]
  · rename_i id hslot
    obtain ⟨-, f, hf, hstream⟩ := h.flow stream st id hst hslot
    obtain ⟨st', hst', hrole, -⟩ := h.slot id f hf
    rw [hstream, hst] at hst'
    cases hst'
    obtain ⟨hinv, hothers, hcleared⟩ := h.flowDestroy hf
    rw [if_pos hrole]
    refine ⟨hinv, fun j hj => hothers j fun heq => hj (hslot.trans (congrArg some heq.symm)), ?_⟩
    rw [← hstream] at hst ⊢
    exact hcleared st hst

/-- A stream without a flow goes. -/
theorem Inv.closeStream (h : s.Inv) {stream : Nat} {st : EgressStream} (hst : s.streams stream = some st)
    (hslot : st.tcpEgressFlow = none) : (s.setStream stream none).Inv := by
  have hkeep {id : Nat} {f : EgressFlow} (hf : s.flows id = some f) : f.stream ≠ stream := by
    intro hx
    obtain ⟨st', hst', -, hslot'⟩ := h.slot id f hf
    rw [hx, hst] at hst'
    cases hst'
    rw [hslot] at hslot'
    cases hslot'
  have hstays {x : Nat} {st' : EgressStream} (hst' : Function.update s.streams stream none x = some st') :
      s.streams x = some st' := by
    by_cases hx : x = stream
    · rw [hx, Function.update_self] at hst'
      cases hst'
    · rw [Function.update_of_ne hx] at hst'
      exact hst'
  have hconnOf (j : Nat) : (s.setStream stream none).connOf j = s.connOf j := by
    rw [connOf, connOf, setStream]
    dsimp only
    cases hf : s.flows j with
    | none => rfl
    | some f => rw [Option.bind_some, Option.bind_some, Function.update_of_ne (hkeep hf)]
  refine ⟨h.faultless, h.nodup, h.listed, ?_, ?_, h.request, ?_, ?_, h.global, h.opened, h.once, h.gone⟩
  · intro id f hf
    obtain ⟨st', hst', hrole, hslot'⟩ := h.slot id f hf
    exact ⟨st', (Function.update_of_ne (hkeep hf) _ _).trans hst', hrole, hslot'⟩
  · intro x st' id hst' hslot'
    exact h.flow x st' id (hstays hst') hslot'
  · intro x st' hst'
    exact h.conn x st' (hstays hst')
  · intro c n hn
    obtain ⟨hcount, hle⟩ := h.count c n hn
    refine ⟨hcount.trans (List.countP_congr fun j _ => ?_), hle⟩
    rw [hconnOf j]

theorem Inv.cbRequestClose (h : s.Inv) {stream : Nat} {st : EgressStream} (hst : s.streams stream = some st) :
    (s.cbRequestClose stream).Inv ∧ ∀ j, st.tcpEgressFlow ≠ some j → (s.cbRequestClose stream).flows j = s.flows j := by
  obtain ⟨hinv, hothers, hcleared⟩ := h.destroyOf hst
  rw [Egress.cbRequestClose, hst]
  exact ⟨hinv.closeStream hcleared rfl, hothers⟩

/-- The request of a flow is closed: within the call, or later. -/
theorem Inv.requestClose (h : s.Inv) {id : Nat} {f : EgressFlow} (hf : s.flows id = some f) (sync : Bool) :
    (s.requestClose f.h3Request sync).Inv ∧ ∀ j, j ≠ id → (s.requestClose f.h3Request sync).flows j = s.flows j := by
  rw [Egress.requestClose]
  split
  · obtain ⟨st, hst, -, hslot⟩ := h.slot id f hf
    rw [h.request id f hf]
    obtain ⟨hinv, hothers⟩ := h.cbRequestClose hst
    refine ⟨hinv, fun j hj => hothers j ?_⟩
    rw [hslot]
    exact fun heq => hj (Option.some.inj heq).symm
  · exact ⟨h, fun _ _ => rfl⟩

/-! ## Flows -/

/-- Whatever a function of a flow has decided, only this flow may be gone. -/
theorem Inv.ended (h : s.Inv) {id : Nat} {f : EgressFlow} {r : EgressFlow × EgressFlow.Outcome} (hf : s.flows id = some f)
    (hlinks : r.1.links = f.links) (sync : Bool) :
    (s.ended id r sync).Inv ∧ ∀ j, j ≠ id → (s.ended id r sync).flows j = s.flows j := by
  have hset := h.setFlow hf hlinks
  have hsame (j : Nat) (hj : j ≠ id) : (s.setFlow id (some r.1)).flows j = s.flows j := Function.update_of_ne hj _ _
  have hself : (s.setFlow id (some r.1)).flows id = some r.1 := Function.update_self _ _ _
  rw [Egress.ended]
  split
  · exact ⟨hset, hsame⟩
  · obtain ⟨hinv, hothers⟩ := hset.requestClose hself sync
    exact ⟨hinv, fun j hj => (hothers j hj).trans (hsame j hj)⟩
  · obtain ⟨hinv, hothers, -⟩ := hset.flowDestroy hself
    exact ⟨hinv, fun j hj => (hothers j hj).trans (hsame j hj)⟩

theorem Inv.onFlow (h : s.Inv) {id : Nat} {g : EgressFlow → EgressFlow × EgressFlow.Outcome}
    (hg : ∀ f, (g f).1.links = f.links) (hlive : (s.flows id).isSome = true) (sync : Bool) :
    (s.onFlow id g sync).Inv ∧ ∀ j, j ≠ id → (s.onFlow id g sync).flows j = s.flows j := by
  obtain ⟨f, hf⟩ := Option.isSome_iff_exists.1 hlive
  rw [Egress.onFlow, hf]
  exact h.ended hf (hg f) sync

theorem Inv.onStream (h : s.Inv) {g : EgressFlow → EgressFlow × EgressFlow.Outcome}
    (hg : ∀ f, (g f).1.links = f.links) (stream : Nat) (sync : Bool) : (s.onStream stream g sync).Inv := by
  rw [Egress.onStream]
  split
  · exact h
  · rename_i id hslot
    obtain ⟨st, hst, hid⟩ := Option.bind_eq_some_iff.1 hslot
    obtain ⟨-, f, hf, -⟩ := h.flow stream st id hst hid
    exact (h.onFlow hg (by rw [hf]; rfl) sync).1

/-! ## Sweeps -/

/-- A sweep over live flows that touches one flow at a time. -/
theorem Inv.sweep {step : Egress → Nat → Egress}
    (hstep : ∀ t : Egress, t.Inv → ∀ id, (t.flows id).isSome = true →
      (step t id).Inv ∧ ∀ j, j ≠ id → (step t id).flows j = t.flows j)
    {ids : List Nat} (h : s.Inv) (hnodup : ids.Nodup) (hlive : ∀ id ∈ ids, (s.flows id).isSome = true) :
    (ids.foldl step s).Inv := by
  induction ids generalizing s with
  | nil => exact h
  | cons id ids ih =>
    obtain ⟨hfirst, hrest⟩ := List.nodup_cons.1 hnodup
    obtain ⟨hinv, hothers⟩ := hstep s h id (hlive id List.mem_cons_self)
    refine ih hinv hrest fun j hj => ?_
    rw [hothers j fun heq => hfirst (heq ▸ hj)]
    exact hlive j (List.mem_cons_of_mem _ hj)

theorem expired_links (s : Egress) (now : Nat) (f : EgressFlow) : (s.expired now f).1.links = f.links := by
  rw [expired]
  split
  · rfl
  · rw [idle]
    split <;> rfl

theorem Inv.tick (h : s.Inv) (now : Nat) (sync : Nat → Bool) : (s.tick now sync).Inv :=
  Inv.sweep (fun t ht id hlive => ht.onFlow (expired_links t now) hlive (sync id)) h h.nodup
    fun id hid => (h.listed id).1 hid

theorem Inv.destroyAll (h : s.Inv) : s.destroyAll.Inv := by
  refine Inv.sweep (fun t ht id hlive => ?_) h h.nodup fun id hid => (h.listed id).1 hid
  obtain ⟨f, hf⟩ := Option.isSome_iff_exists.1 hlive
  exact ⟨(ht.flowDestroy hf).1, (ht.flowDestroy hf).2.1⟩

/-! ## Connections and streams -/

theorem connOf_eq_some {id c : Nat} (h : s.connOf id = some c) :
    ∃ f st, s.flows id = some f ∧ s.streams f.stream = some st ∧ st.conn = c := by
  obtain ⟨f, hf, hmap⟩ := Option.bind_eq_some_iff.1 h
  obtain ⟨st, hst, hconn⟩ := Option.map_eq_some_iff.1 hmap
  exact ⟨f, st, hf, hst, hconn⟩

theorem Inv.connOpen (h : s.Inv) {conn : Nat} (hnew : s.conns conn = none) :
    Inv { s with conns := Function.update s.conns conn (some 0) } := by
  have hold {c : Nat} (hc : (s.conns c).isSome = true) : c ≠ conn := by
    rintro rfl
    rw [hnew] at hc
    cases hc
  have hzero : s.flowCount conn = 0 := by
    refine List.countP_eq_zero.2 fun id _ hid => ?_
    obtain ⟨f, st, -, hst, hconn⟩ := connOf_eq_some (of_decide_eq_true hid)
    exact hold (h.conn f.stream st hst) hconn
  refine ⟨h.faultless, h.nodup, h.listed, h.slot, h.flow, h.request, ?_, ?_, h.global, h.opened, h.once, h.gone⟩
  · intro stream st hst
    have hsome := h.conn stream st hst
    dsimp only
    rw [Function.update_of_ne (hold hsome)]
    exact hsome
  · intro c n hn
    dsimp only at hn
    by_cases hc : c = conn
    · rw [hc, Function.update_self] at hn
      cases hn
      rw [hc]
      exact ⟨hzero.symm, Nat.zero_le _⟩
    · rw [Function.update_of_ne hc] at hn
      exact h.count c n hn

theorem Inv.connClose (h : s.Inv) {conn : Nat} (hidle : ∀ stream st, s.streams stream = some st → st.conn ≠ conn) :
    Inv { s with conns := Function.update s.conns conn none } := by
  refine ⟨h.faultless, h.nodup, h.listed, h.slot, h.flow, h.request, ?_, ?_, h.global, h.opened, h.once, h.gone⟩
  · intro stream st hst
    dsimp only
    rw [Function.update_of_ne (hidle stream st hst)]
    exact h.conn stream st hst
  · intro c n hn
    dsimp only at hn
    by_cases hc : c = conn
    · rw [hc, Function.update_self] at hn
      cases hn
    · rw [Function.update_of_ne hc] at hn
      exact h.count c n hn

/-- A stream is new, or its headers are noted; its slot stays. -/
theorem Inv.setStream (h : s.Inv) {stream : Nat} {st : EgressStream} (hslot : st.tcpEgressFlow = s.slot stream)
    (hheaders : ∀ id, st.tcpEgressFlow = some id → st.headers = true) (hconn : (s.conns st.conn).isSome = true)
    (hold : ∀ st', s.streams stream = some st' →
      st.conn = st'.conn ∧ (st'.connectTcp = true → st.connectTcp = true)) :
    (s.setStream stream (some st)).Inv := by
  have hconnOf (j : Nat) : (s.setStream stream (some st)).connOf j = s.connOf j := by
    rw [connOf, connOf, Egress.setStream]
    dsimp only
    cases hf : s.flows j with
    | none => rfl
    | some f =>
      rw [Option.bind_some, Option.bind_some]
      by_cases hx : f.stream = stream
      · obtain ⟨st', hst', -, -⟩ := h.slot j f hf
        rw [hx] at hst' ⊢
        rw [Function.update_self, hst', Option.map_some, Option.map_some, (hold st' hst').1]
      · rw [Function.update_of_ne hx]
  refine ⟨h.faultless, h.nodup, h.listed, ?_, ?_, h.request, ?_, ?_, h.global, h.opened, h.once, h.gone⟩
  · intro id f hf
    obtain ⟨st', hst', hrole, hid⟩ := h.slot id f hf
    by_cases hx : f.stream = stream
    · rw [hx] at hst' ⊢
      refine ⟨st, Function.update_self _ _ _, (hold st' hst').2 hrole, hslot.trans ?_⟩
      rw [Egress.slot, hst']
      exact hid
    · exact ⟨st', (Function.update_of_ne hx _ _).trans hst', hrole, hid⟩
  · intro x st' id hst' hid
    by_cases hx : x = stream
    · subst hx
      dsimp only [Egress.setStream] at hst'
      rw [Function.update_self] at hst'
      cases hst'
      obtain ⟨st'', hst'', hid''⟩ := Option.bind_eq_some_iff.1 (hslot.symm.trans hid)
      exact ⟨hheaders id hid, (h.flow x st'' id hst'' hid'').2⟩
    · exact h.flow x st' id ((Function.update_of_ne hx _ _).symm.trans hst') hid
  · intro x st' hst'
    by_cases hx : x = stream
    · subst hx
      dsimp only [Egress.setStream] at hst'
      rw [Function.update_self] at hst'
      cases hst'
      exact hconn
    · exact h.conn x st' ((Function.update_of_ne hx _ _).symm.trans hst')
  · intro c n hn
    obtain ⟨hcount, hle⟩ := h.count c n hn
    refine ⟨hcount.trans (List.countP_congr fun j _ => ?_), hle⟩
    rw [hconnOf j]

/-! ## Requests -/

/-- The number of a new flow is in no slot and in no list. -/
theorem Inv.fresh (h : s.Inv) : s.flows s.nextFlow = none ∧ s.nextFlow ∉ s.destroyed := by
  have hnew : ¬((s.flows s.nextFlow).isSome = true ∨ s.nextFlow ∈ s.destroyed) :=
    fun hold => Nat.lt_irrefl _ ((h.opened _).2 hold)
  refine ⟨?_, fun hmem => hnew (.inr hmem)⟩
  cases hf : s.flows s.nextFlow with
  | none => rfl
  | some f => exact absurd (.inl (by rw [hf]; rfl)) hnew

/-- A flow is admitted below both limits. -/
theorem Inv.openFlow (h : s.Inv) {stream n : Nat} {st : EgressStream} (hst : s.streams stream = some st)
    (hheaders : st.headers = true) (hrole : st.connectTcp = true) (hslot : st.tcpEgressFlow = none)
    (hn : s.conns st.conn = some n) (hcap : n < s.tcpMaxFlows) (hbudget : s.globalFdCount < s.egressFdBudget)
    (fd now : Nat) : (s.openFlow stream fd now st).Inv := by
  obtain ⟨hfree, hkept⟩ := h.fresh
  have hunlisted : s.nextFlow ∉ s.flowList := by
    rw [h.listed, hfree]
    exact Bool.false_ne_true
  have hold {j : Nat} {g : EgressFlow} (hg : s.flows j = some g) : j ≠ s.nextFlow ∧ g.stream ≠ stream := by
    refine ⟨?_, fun hx => ?_⟩
    · rintro rfl
      rw [hfree] at hg
      cases hg
    · obtain ⟨st', hst', -, hslot'⟩ := h.slot j g hg
      rw [hx, hst] at hst'
      cases hst'
      rw [hslot] at hslot'
      cases hslot'
  have hslotted : (s.openFlow stream fd now st).streams stream = some { st with tcpEgressFlow := some s.nextFlow } :=
    Function.update_self _ _ _
  have hflow : (s.openFlow stream fd now st).flows s.nextFlow =
      some (EgressFlow.connecting fd stream stream (now + s.tcpConnectTimeoutSec * 1000000) now) :=
    Function.update_self _ _ _
  have hself : (s.openFlow stream fd now st).connOf s.nextFlow = some st.conn := by
    rw [connOf_eq hflow hslotted]
  have hothers (j : Nat) (hj : j ∈ s.flowList) : (s.openFlow stream fd now st).connOf j = s.connOf j := by
    obtain ⟨g, hg⟩ := Option.isSome_iff_exists.1 ((h.listed j).1 hj)
    obtain ⟨hne, hx⟩ := hold hg
    rw [connOf, connOf, Egress.openFlow]
    dsimp only [Egress.setStream, Egress.setFlow]
    rw [Function.update_of_ne hne, hg, Option.bind_some, Option.bind_some, Function.update_of_ne hx]
  have hflowCount (c : Nat) :
      (s.openFlow stream fd now st).flowCount c = s.flowCount c + if st.conn = c then 1 else 0 := by
    change List.countP _ (s.nextFlow :: s.flowList) = _
    rw [List.countP_cons, hself]
    simp only [Option.some.injEq, decide_eq_true_eq]
    refine congrArg (· + _) (List.countP_congr fun j hj => ?_)
    rw [hothers j hj]
  refine ⟨h.faultless, List.nodup_cons.2 ⟨hunlisted, h.nodup⟩, ?_, ?_, ?_, ?_, ?_, ?_, ?_, ?_, h.once, ?_⟩
  · intro j
    change j ∈ s.nextFlow :: s.flowList ↔ (Function.update s.flows s.nextFlow _ j).isSome = true
    rw [List.mem_cons, h.listed j]
    by_cases hj : j = s.nextFlow
    · rw [hj, Function.update_self]
      exact ⟨fun _ => rfl, fun _ => .inl rfl⟩
    · rw [Function.update_of_ne hj]
      exact ⟨fun hmem => hmem.resolve_left hj, .inr⟩
  · intro j g hg
    change Function.update s.flows s.nextFlow _ j = some g at hg
    change ∃ st', Function.update s.streams stream _ g.stream = some st' ∧ _
    by_cases hj : j = s.nextFlow
    · rw [hj, Function.update_self] at hg
      cases hg
      rw [hj]
      exact ⟨_, Function.update_self _ _ _, hrole, rfl⟩
    · rw [Function.update_of_ne hj] at hg
      rw [Function.update_of_ne (hold hg).2]
      exact h.slot j g hg
  · intro x st' j hst' hid
    change Function.update s.streams stream _ x = some st' at hst'
    change _ ∧ ∃ f, Function.update s.flows s.nextFlow _ j = some f ∧ _
    by_cases hx : x = stream
    · rw [hx, Function.update_self] at hst'
      cases hst'
      cases hid
      rw [Function.update_self]
      exact ⟨hheaders, _, rfl, hx.symm⟩
    · rw [Function.update_of_ne hx] at hst'
      obtain ⟨hheaders', g, hg, hgstream⟩ := h.flow x st' j hst' hid
      rw [Function.update_of_ne (hold hg).1]
      exact ⟨hheaders', g, hg, hgstream⟩
  · intro j g hg
    change Function.update s.flows s.nextFlow _ j = some g at hg
    by_cases hj : j = s.nextFlow
    · rw [hj, Function.update_self] at hg
      cases hg
      rfl
    · rw [Function.update_of_ne hj] at hg
      exact h.request j g hg
  · intro x st' hst'
    change Function.update s.streams stream _ x = some st' at hst'
    change (Function.update s.conns st.conn ((s.conns st.conn).map (· + 1)) st'.conn).isSome = true
    have hconn : (s.conns st'.conn).isSome = true := by
      by_cases hx : x = stream
      · rw [hx, Function.update_self] at hst'
        cases hst'
        exact h.conn stream st hst
      · rw [Function.update_of_ne hx] at hst'
        exact h.conn x st' hst'
    by_cases hc : st'.conn = st.conn
    · rw [hc, Function.update_self, hn]
      rfl
    · rw [Function.update_of_ne hc]
      exact hconn
  · intro c m hm
    change Function.update s.conns st.conn ((s.conns st.conn).map (· + 1)) c = some m at hm
    rw [hflowCount]
    by_cases hc : c = st.conn
    · rw [hc, Function.update_self, hn] at hm
      cases hm
      rw [hc, if_pos rfl, ← (h.count _ n hn).1]
      exact ⟨rfl, hcap⟩
    · rw [Function.update_of_ne hc] at hm
      rw [if_neg (Ne.symm hc)]
      exact h.count c m hm
  · exact ⟨congrArg (· + 1) h.global.1, hbudget⟩
  · intro j
    change j < s.nextFlow + 1 ↔ (Function.update s.flows s.nextFlow _ j).isSome = true ∨ j ∈ s.destroyed
    rw [Nat.lt_succ_iff_lt_or_eq, h.opened j]
    by_cases hj : j = s.nextFlow
    · rw [hj, Function.update_self]
      exact ⟨fun _ => .inl rfl, fun _ => .inr rfl⟩
    · rw [Function.update_of_ne hj]
      exact ⟨fun hold => hold.resolve_right hj, .inl⟩
  · intro j hj
    change Function.update s.flows s.nextFlow _ j = none
    have hne : j ≠ s.nextFlow := by
      rintro rfl
      exact hkept hj
    rw [Function.update_of_ne hne]
    exact h.gone j hj

/-- However `connect` ends. -/
theorem Inv.connectFlow (h : s.Inv) {id : Nat} {f : EgressFlow} (hf : s.flows id = some f) (a : RequestAnswers) :
    (s.connectFlow id f a).Inv := by
  rw [Egress.connectFlow]
  split
  · exact (h.ended hf (f.onConnected_links a.now _) a.sync).1
  · exact (h.flowDestroy hf).1
  · split
    · exact h.setFlow hf rfl
    · exact h

theorem Inv.startConnect (h : s.Inv) {stream n : Nat} {st : EgressStream} (hst : s.streams stream = some st)
    (hheaders : st.headers = true) (hrole : st.connectTcp = true) (hslot : st.tcpEgressFlow = none)
    (hn : s.conns st.conn = some n) (a : RequestAnswers) : (s.startConnect stream st n a).Inv := by
  have hrejected : Inv { s with flowsRejectedCap := s.flowsRejectedCap + 1 } :=
    ⟨h.faultless, h.nodup, h.listed, h.slot, h.flow, h.request, h.conn, h.count, h.global, h.opened, h.once, h.gone⟩
  rw [Egress.startConnect]
  split
  · exact h
  · split
    · exact hrejected
    · rename_i hbudget
      split
      · exact hrejected
      · rename_i hcap
        split
        · exact h
        · rename_i fd hfd
          split
          · exact h
          · have hopen := h.openFlow hst hheaders hrole hslot hn (Nat.lt_of_not_le hcap) (Nat.lt_of_not_le hbudget) fd a.now
            have hself : (s.openFlow stream fd a.now st).flows s.nextFlow = some _ := Function.update_self _ _ _
            dsimp only
            rw [hself]
            exact hopen.connectFlow hself a

theorem Inv.onRequest (h : s.Inv) {stream : Nat} {st : EgressStream} (hst : s.streams stream = some st)
    (hfirst : st.headers = false) (a : RequestAnswers) : (s.onRequest stream a).Inv := by
  obtain ⟨n, hn⟩ := Option.isSome_iff_exists.1 (h.conn stream st hst)
  -- the stream has no flow before its headers
  have hslot : st.tcpEgressFlow = none := by
    cases hid : st.tcpEgressFlow with
    | none => rfl
    | some id =>
      have hheaders := (h.flow stream st id hst hid).1
      rw [hfirst] at hheaders
      cases hheaders
  have hnoted : (s.setStream stream
      (some { st with headers := true, connectTcp := st.connectTcp || a.connectTcp })).Inv := by
    refine h.setStream ?_ (fun _ _ => rfl) (h.conn stream st hst) fun st' hst' => ?_
    · rw [Egress.slot, hst]
      rfl
    · rw [hst] at hst'
      cases hst'
      exact ⟨rfl, fun hrole => Bool.or_eq_true_iff.2 (.inl hrole)⟩
  rw [Egress.onRequest, hst]
  dsimp only
  rw [hn]
  dsimp only
  split
  · rename_i hasked
    refine hnoted.startConnect (Function.update_self _ _ _) rfl ?_ hslot hn a
    exact Bool.or_eq_true_iff.2 (.inr (Bool.and_eq_true_iff.1 hasked).1)
  · exact hnoted

/-! ## Limits -/

/-- The limits of a server, which nothing changes. -/
def limits (s : Egress) : Nat × Nat := (s.tcpMaxFlows, s.egressFdBudget)

@[simp] theorem setFlow_limits (id : Nat) (f : Option EgressFlow) : (s.setFlow id f).limits = s.limits := rfl

@[simp] theorem setStream_limits (x : Nat) (st : Option EgressStream) : (s.setStream x st).limits = s.limits := rfl

@[simp] theorem unlinkFlow_limits (id : Nat) (f : EgressFlow) (st : EgressStream) :
    (s.unlinkFlow id f st).limits = s.limits := by
  cases hconn : s.conns st.conn <;> simp [unlinkFlow, hconn, limits, Egress.setStream, Egress.setFlow]

@[simp] theorem flowDestroy_limits (s : Egress) (id : Nat) : (s.flowDestroy id).limits = s.limits := by
  rw [flowDestroy]
  split
  · rfl
  · split
    · rfl
    · exact unlinkFlow_limits _ _ _

@[simp] theorem destroyOf_limits (st : EgressStream) : (s.destroyOf st).limits = s.limits := by
  rw [destroyOf]
  split
  · rfl
  · split
    · exact flowDestroy_limits _ _
    · rfl

@[simp] theorem cbRequestClosing_limits (stream : Nat) : (s.cbRequestClosing stream).limits = s.limits := by
  rw [cbRequestClosing]
  split
  · rfl
  · exact destroyOf_limits _

@[simp] theorem cbRequestClose_limits (stream : Nat) : (s.cbRequestClose stream).limits = s.limits := by
  rw [cbRequestClose]
  split
  · rfl
  · exact destroyOf_limits _

@[simp] theorem ended_limits (id : Nat) (r : EgressFlow × EgressFlow.Outcome) (sync : Bool) :
    (s.ended id r sync).limits = s.limits := by
  rw [ended]
  split
  · rfl
  · rw [requestClose]
    split
    · exact cbRequestClose_limits _
    · rfl
  · exact flowDestroy_limits _ _

@[simp] theorem onFlow_limits (s : Egress) (id : Nat) (g : EgressFlow → EgressFlow × EgressFlow.Outcome) (sync : Bool) :
    (s.onFlow id g sync).limits = s.limits := by
  rw [onFlow]
  split
  · rfl
  · exact ended_limits _ _ _

@[simp] theorem onStream_limits (stream : Nat) (g : EgressFlow → EgressFlow × EgressFlow.Outcome) (sync : Bool) :
    (s.onStream stream g sync).limits = s.limits := by
  rw [onStream]
  split
  · rfl
  · exact onFlow_limits _ _ _ _

theorem connectFlow_limits (id : Nat) (f : EgressFlow) (a : RequestAnswers) :
    (s.connectFlow id f a).limits = s.limits := by
  rw [connectFlow]
  split
  · exact ended_limits _ _ _
  · exact flowDestroy_limits _ _
  · split <;> rfl

theorem startConnect_limits (stream : Nat) (st : EgressStream) (n : Nat) (a : RequestAnswers) :
    (s.startConnect stream st n a).limits = s.limits := by
  rw [startConnect]
  split
  · rfl
  · split
    · rfl
    · split
      · rfl
      · split
        · rfl
        · split
          · rfl
          · dsimp only
            split
            · rfl
            · exact connectFlow_limits _ _ _

theorem onRequest_limits (stream : Nat) (a : RequestAnswers) : (s.onRequest stream a).limits = s.limits := by
  rw [onRequest]
  split
  · rfl
  · split
    · rfl
    · dsimp only
      split
      · exact startConnect_limits _ _ _ _
      · rfl

theorem sweep_limits {step : Egress → Nat → Egress} (hstep : ∀ t id, (step t id).limits = t.limits) (ids : List Nat) :
    (ids.foldl step s).limits = s.limits := by
  induction ids generalizing s with
  | nil => rfl
  | cons id ids ih => exact ih.trans (hstep s id)

theorem step_limits (e : Step) : (s.step e).limits = s.limits := by
  cases e with
  | request stream a => exact onRequest_limits stream a
  | tick now sync => exact sweep_limits (fun t id => onFlow_limits t id _ _) _
  | destroyAll => exact sweep_limits flowDestroy_limits _
  | _ => simp [step] <;> rfl

theorem run_limits (steps : List Step) : (s.run steps).limits = s.limits := by
  induction steps generalizing s with
  | nil => rfl
  | cons e es ih => exact ih.trans (step_limits e)

/-! ## Runs -/

theorem Inv.start (tcpMaxFlows tcpConnectTimeoutSec tcpIdleTimeoutSec egressFdBudget : Nat) :
    (start tcpMaxFlows tcpConnectTimeoutSec tcpIdleTimeoutSec egressFdBudget).Inv where
  faultless := rfl
  nodup := List.nodup_nil
  listed _ := ⟨fun hmem => absurd hmem List.not_mem_nil, fun hsome => Bool.noConfusion hsome⟩
  slot _ _ hf := Option.noConfusion rfl (heq_of_eq hf)
  flow _ _ _ hst := Option.noConfusion rfl (heq_of_eq hst)
  request _ _ hf := Option.noConfusion rfl (heq_of_eq hf)
  conn _ _ hst := Option.noConfusion rfl (heq_of_eq hst)
  count _ _ hn := Option.noConfusion rfl (heq_of_eq hn)
  global := ⟨rfl, Nat.zero_le _⟩
  opened _ := ⟨fun hlt => absurd hlt (Nat.not_lt_zero _),
    fun hold => hold.elim (fun hsome => Bool.noConfusion hsome) fun hmem => absurd hmem List.not_mem_nil⟩
  once := List.nodup_nil
  gone _ hmem := absurd hmem List.not_mem_nil

theorem Inv.step (h : s.Inv) {e : Step} (hproper : s.Proper e) : (s.step e).Inv := by
  cases e with
  | connOpen conn => exact h.connOpen hproper
  | connClose conn => exact h.connClose hproper
  | streamOpen stream conn =>
    obtain ⟨hnew, hconn⟩ := hproper
    refine h.setStream ?_ (fun _ hid => ?_) hconn fun st hst => ?_
    · rw [Egress.slot, hnew]
      rfl
    · cases hid
    · rw [hnew] at hst
      cases hst
  | request stream a =>
    obtain ⟨st, hst, hfirst⟩ := hproper
    exact h.onRequest hst hfirst a
  | body stream now rounds sync => exact h.onStream (fun f => f.onBody_links now rounds) stream sync
  | writable stream now answers fin sync => exact h.onStream (fun f => f.onH3Writable_links now answers fin) stream sync
  | fdReady flow readable writable soError now a sync =>
    obtain ⟨f, hf, -⟩ := hproper
    exact (h.onFlow (fun f => f.fdReady_links readable writable soError now a) (by rw [hf]; rfl) sync).1
  | tick now sync => exact h.tick now sync
  | reset stream =>
    obtain ⟨st, hst⟩ := Option.isSome_iff_exists.1 hproper
    rw [Egress.step, Egress.cbRequestClosing, hst]
    exact (h.destroyOf hst).1
  | close stream =>
    obtain ⟨st, hst⟩ := Option.isSome_iff_exists.1 hproper
    exact (h.cbRequestClose hst).1
  | destroyAll => exact h.destroyAll

theorem Inv.run (h : s.Inv) {steps : List Step} (hproper : Runs.Along Egress.step Proper s steps) : (s.run steps).Inv :=
  Runs.foldl_of_along (J := Inv) (fun _ _ ht he => ht.step he) h hproper

/-- After any steps of the server: no assertion failed and no freed memory was used, every flow
    that was opened is live or was destroyed once, the list holds the live flows, the number of
    sockets and the counts of the connections are the numbers of flows, and every flow is in the
    slot of its stream. -/
theorem books (tcpMaxFlows tcpConnectTimeoutSec tcpIdleTimeoutSec egressFdBudget : Nat) (steps : List Step)
    (hproper : Runs.Along Egress.step Proper
      (Egress.start tcpMaxFlows tcpConnectTimeoutSec tcpIdleTimeoutSec egressFdBudget) steps) :
    let s := (Egress.start tcpMaxFlows tcpConnectTimeoutSec tcpIdleTimeoutSec egressFdBudget).run steps
    s.fault = false ∧
      (∀ id, id < s.nextFlow ↔ (s.flows id).isSome = true ∨ id ∈ s.destroyed) ∧
      s.destroyed.Nodup ∧ (∀ id ∈ s.destroyed, s.flows id = none) ∧
      s.flowList.Nodup ∧ (∀ id, id ∈ s.flowList ↔ (s.flows id).isSome = true) ∧
      s.globalFdCount = s.flowList.length ∧ s.globalFdCount ≤ egressFdBudget ∧
      (∀ conn n, s.conns conn = some n → n = s.flowCount conn ∧ n ≤ tcpMaxFlows) ∧
      (∀ stream st, s.streams stream = some st → (s.conns st.conn).isSome = true) ∧
      ∀ id f, s.flows id = some f → s.slot f.stream = some id := by
  intro s
  have h : s.Inv := (Inv.start tcpMaxFlows tcpConnectTimeoutSec tcpIdleTimeoutSec egressFdBudget).run hproper
  have hlimits : s.limits = (tcpMaxFlows, egressFdBudget) := run_limits steps
  have hmax : s.tcpMaxFlows = tcpMaxFlows := congrArg Prod.fst hlimits
  have hbudget : s.egressFdBudget = egressFdBudget := congrArg Prod.snd hlimits
  refine ⟨h.faultless, h.opened, h.once, h.gone, h.nodup, h.listed, h.global.1, hbudget ▸ h.global.2,
    hmax ▸ h.count, h.conn, fun id f hf => ?_⟩
  obtain ⟨st, hst, -, hid⟩ := h.slot id f hf
  rw [Egress.slot, hst]
  exact hid

/-- What a request meets that is admitted. -/
def sampleRequest (fd : Nat) (connect : ConnectAnswer) (sync : Bool) : RequestAnswers where
  connectTcp := true
  allowed := true
  registerIsSet := true
  fd := some fd
  inetPton := true
  alloc := true
  connect
  register := true
  now := 1
  sync

/-- The first flow meets a relay error while it connects, and is closed within the call; the
    second one never connects. -/
def sampleSteps : List Step :=
  [.connOpen 0, .streamOpen 3 0, .streamOpen 4 0,
    .request 3 (sampleRequest 7 (.connected [⟨.data [1, 2] true, [.err], true⟩]) true),
    .request 4 (sampleRequest 8 .inProgress false), .tick 9000000 fun _ => false, .close 4, .destroyAll]

theorem books_sample :
    Runs.Along Egress.step Proper (Egress.start 2 5 60 3) sampleSteps ∧
      ((Egress.start 2 5 60 3).run sampleSteps).fault = false ∧
      ((Egress.start 2 5 60 3).run sampleSteps).destroyed = [1, 0] ∧
      ((Egress.start 2 5 60 3).run sampleSteps).destroyed.Nodup := by
  have hproper : Runs.Along Egress.step Proper (Egress.start 2 5 60 3) sampleSteps :=
    ⟨rfl, ⟨rfl, rfl⟩, ⟨rfl, rfl⟩, ⟨_, rfl, rfl⟩, ⟨_, rfl, rfl⟩, trivial, rfl, trivial, trivial⟩
  have h := books 2 5 60 3 sampleSteps hproper
  exact ⟨hproper, h.1, by decide +kernel, h.2.2.1⟩

end Egress

end Mqvpn.Hybrid
