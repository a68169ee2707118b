import Mqvpn.Hybrid.LaneEvents
import Mqvpn.Hybrid.Routing

/-!
# One lane for a connection

A TCP connection is to stay on the lane that its first SYN was given. What a packet can do is
said once (`Lane.Routes` for the table, `Ingress.Handled` for the client). From there:

* `one_lane`: every packet is counted once and goes one way; a flow that is fed is fed as long
  as it has its entry; and a flow that was sent raw is not fed before another SYN, and not before
  one with another number if its verdict was recorded.
* `straddles`: a SYN that found no room for its verdict is decided again when it is repeated.
-/

namespace Mqvpn.Hybrid

open Reorder Mqvpn.Client

/-- The key of a TCP packet. -/
def tuple (pkt : Bytes) : Option FlowKey :=
  match parseL3L4 pkt with
  | .tcp key => some key
  | _ => none

/-- The number of a SYN. -/
def synNumber (pkt : Bytes) : Option UInt32 :=
  if (ipVersion pkt == 4 && tcpSynFlag pkt) = true then some (tcpSynIsn pkt) else none

theorem tuple_of_classify {pol : Policy} {pkt : Bytes} {key : FlowKey} (h : hybridClassify pol pkt = .tcp key) :
    tuple pkt = some key := by
  rw [hybridClassify] at h
  split at h
  · cases h
  · rename_i k hk
    split_ifs at h
    cases h
    rw [tuple, hk]
  · cases h

/-- What the classifier says of a TCP packet is said of its key. -/
theorem classify_congr {pol : Policy} {pkt pkt' : Bytes} {key : FlowKey} (h : tuple pkt = some key)
    (h' : tuple pkt' = some key) : hybridClassify pol pkt = hybridClassify pol pkt' := by
  have hparse {p : Bytes} (hp : tuple p = some key) : parseL3L4 p = .tcp key := by
    rw [tuple] at hp
    split at hp
    · rename_i k hk
      cases hp
      exact hk
    · cases hp
  rw [hybridClassify, hybridClassify, hparse h, hparse h']

namespace Lane

variable {s t u : Lane}

/-! ## What a packet does to the table -/

/-- From `s` to `t` the flows that `s` has given numbers to were not replaced. -/
structure Since (s t : Lane) : Prop where
  next : s.flows.next ≤ t.flows.next
  old : ∀ {id f'}, id < s.flows.next → t.flows.get id = some f' →
    ∃ f, s.flows.get id = some f ∧ f.key = f'.key ∧ (f.state = .stickyRaw ↔ f'.state = .stickyRaw)

namespace Since

theorem refl (s : Lane) : Since s s := ⟨Nat.le_refl _, fun _ hf => ⟨_, hf, rfl, Iff.rfl⟩⟩

theorem trans (h : Since s t) (h' : Since t u) : Since s u where
  next := h.next.trans h'.next
  old hid hf := by
    obtain ⟨f', hf', hkey', hraw'⟩ := h'.old (Nat.lt_of_lt_of_le hid h.next) hf
    obtain ⟨f, hf, hkey, hraw⟩ := h.old hid hf'
    exact ⟨f, hf, hkey.trans hkey', hraw.trans hraw'⟩

theorem of_evolves (h : Evolves s t) : Since s t := ⟨h.next.ge, fun _ hf => h.old hf⟩

end Since

/-- The entry of a key. -/
theorem Inv.entry_eq_some (h : s.Inv) {key : FlowKey} {f : Flow} :
    s.entry key = some f ↔ ∃ id, s.flows.get id = some f ∧ f.key = key := by
  rw [entry, Option.bind_eq_some_iff]
  constructor
  · rintro ⟨id, hid, hf⟩
    obtain ⟨g, hg, hkey⟩ := h.findFlow_eq_some.1 hid
    rw [hf] at hg
    cases hg
    exact ⟨id, hf, hkey⟩
  · rintro ⟨id, hf, hkey⟩
    exact ⟨id, h.findFlow_eq_some.2 ⟨f, hf, hkey⟩, hf⟩

theorem Inv.entry_eq_none (h : s.Inv) {key : FlowKey} :
    s.entry key = none ↔ ∀ id f, s.flows.get id = some f → f.key ≠ key := by
  rw [Option.eq_none_iff_forall_ne_some]
  exact ⟨fun hnone id f hf hkey => hnone f (h.entry_eq_some.2 ⟨id, hf, hkey⟩),
    fun hall f hf => by
      obtain ⟨id, hget, hkey⟩ := h.entry_eq_some.1 hf
      exact hall id f hget hkey⟩

/-- The entry of a key gave way to a new flow, if there was room for one (`ok`). -/
structure Committed (s t : Lane) (key : FlowKey) (toTcp : Bool) (isn : UInt32) (alloc ok : Bool) : Prop where
  others : ∀ j g, g.key ≠ key → (t.flows.get j = some g ↔ s.flows.get j = some g)
  mine : ∀ j g, t.flows.get j = some g → g.key = key → ok = true ∧ j = s.flows.next
  fresh : ok = true → ∃ f, t.flows.get s.flows.next = some f ∧ f.key = key ∧ f.synIsn = isn ∧
    f.state = if toTcp then .pendingAccept else .stickyRaw
  next : s.flows.next ≤ t.flows.next
  full : ok = false → toTcp = true ∧ t.tcpMaxFlows.toNat ≤ t.nTcpFlows ∨
    toTcp = false ∧ rawMarkerCap ≤ t.nRawMarkers ∨ alloc = false

theorem Committed.since {key : FlowKey} {toTcp : Bool} {isn : UInt32} {alloc ok : Bool}
    (h : Committed s t key toTcp isn alloc ok) : Since s t where
  next := h.next
  old {id f'} hid hf := by
    by_cases hkey : f'.key = key
    · have hnext := (h.mine id f' hf hkey).2
      exact absurd hid (hnext ▸ Nat.lt_irrefl _)
    · exact ⟨f', (h.others id f' hkey).1 hf, rfl, Iff.rfl⟩

theorem commitSyn_full (s : Lane) (key : FlowKey) (toTcp : Bool) (isn : UInt32) (alloc : Bool) (now : Nat)
    (hfull : (s.commitSyn key toTcp isn alloc now).2 = false) :
    toTcp = true ∧ (s.commitSyn key toTcp isn alloc now).1.tcpMaxFlows.toNat ≤
        (s.commitSyn key toTcp isn alloc now).1.nTcpFlows ∨
      toTcp = false ∧ rawMarkerCap ≤ (s.commitSyn key toTcp isn alloc now).1.nRawMarkers ∨ alloc = false := by
  rw [commitSyn] at hfull ⊢
  split
  · rename_i htcp
    exact .inl htcp
  · rename_i htcp
    rw [if_neg htcp] at hfull
    split
    · rename_i hraw
      exact .inr (.inl ⟨Bool.not_eq_true' _ ▸ hraw.1, hraw.2⟩)
    · rename_i hraw
      rw [if_neg hraw] at hfull
      split
      · rename_i halloc
        exact .inr (.inr (Bool.not_eq_true' _ ▸ halloc))
      · rename_i halloc
        rw [if_neg halloc] at hfull
        cases toTcp <;> cases hfull

theorem Inv.committed (h : s.Inv) {key : FlowKey}
    (hentry : ∀ f, s.entry key = some f → f.state = .closing ∨ f.state = .stickyRaw) (toTcp : Bool) (isn : UInt32)
    (alloc : Bool) (now : Nat) :
    Committed s (s.onSyn key toTcp isn alloc now).1 key toTcp isn alloc (s.onSyn key toTcp isn alloc now).2 := by
  have hgives : s.resolveExisting key ≠ none := by
    unfold Lane.resolveExisting
    split
    · exact Option.some_ne_none _
    · rename_i id hid
      obtain ⟨f, hf, hkey⟩ := h.findFlow_eq_some.1 hid
      rw [hf]
      dsimp only
      rw [if_pos (hentry f (h.entry_eq_some.2 ⟨id, hf, hkey⟩))]
      exact Option.some_ne_none _
  rw [Lane.onSyn]
  split
  · rename_i hnone
    exact absurd hnone hgives
  · rename_i t ht
    obtain ⟨hinv, -, hnext, hflows⟩ := h.resolveExisting ht
    obtain ⟨-, -, hcommit⟩ := hinv.commitSyn (fun j g hg => ((hflows j g).1 hg).2) toTcp isn alloc now
    have hfull := t.commitSyn_full key toTcp isn alloc now
    generalize t.commitSyn key toTcp isn alloc now = r at hcommit hfull ⊢
    obtain ⟨r, ok⟩ := r
    dsimp only at hcommit hfull ⊢
    cases ok with
    | false =>
      rw [if_neg Bool.false_ne_true] at hcommit
      refine ⟨fun j g hg => ?_, fun j g hg hkey => ?_, fun hok => Bool.noConfusion hok, by rw [hcommit, hnext], hfull⟩
      · rw [hcommit, hflows]
        exact and_iff_left hg
      · rw [hcommit] at hg
        exact absurd hkey ((hflows j g).1 hg).2
    | true =>
      rw [if_pos rfl] at hcommit
      refine ⟨fun j g hg => ?_, fun j g hg hkey => ?_, fun _ => ⟨synFlow key toTcp isn now, ?_, rfl, rfl, rfl⟩,
        by rw [hcommit, ← hnext]; exact Nat.le_succ _, hfull⟩
      · rw [hcommit]
        constructor
        · intro hget
          rcases Heap.get_alloc_cases hget with ⟨-, rfl⟩ | ⟨-, hget⟩
          · exact absurd rfl hg
          · exact ((hflows j g).1 hget).1
        · intro hget
          exact Heap.get_alloc_of_get ((hflows j g).2 ⟨hget, hg⟩)
      · rw [hcommit] at hg
        rcases Heap.get_alloc_cases hg with ⟨hj, -⟩ | ⟨-, hget⟩
        · exact ⟨rfl, hj.trans hnext⟩
        · exact absurd hkey ((hflows j g).1 hget).2
      · rw [hcommit, ← hnext]
        exact Heap.get_alloc_self

/-- What a packet for a key can do to the table, and whether it is fed. -/
inductive Routes (s : Lane) (key : FlowKey) (wantTcp : Bool) (pkt : Bytes) (a : LaneAnswer) : Lane → Bool → Prop where
  /-- The packet belongs to a flow of the lane, or is a late one of a closed flow. -/
  | known (f : Flow) (hf : s.entry key = some f) (hraw : f.state ≠ .stickyRaw)
      (hopen : f.state = .closing → synNumber pkt = none) : Routes s key wantTcp pkt a s true
  /-- Nothing is known of the flow, and the packet does not start one. -/
  | unknown (hf : s.entry key = none) (hsyn : synNumber pkt = none) : Routes s key wantTcp pkt a s false
  /-- The flow was sent raw, and the packet does not start another one. -/
  | marked (f : Flow) (hf : s.entry key = some f) (hraw : f.state = .stickyRaw)
      (hsame : ∀ i, synNumber pkt = some i → i = f.synIsn) : Routes s key wantTcp pkt a s false
  /-- The packet starts a flow. -/
  | starts (i : UInt32) (hsyn : synNumber pkt = some i)
      (hf : ∀ f, s.entry key = some f → f.state = .closing ∨ f.state = .stickyRaw ∧ i ≠ f.synIsn) :
      Routes s key wantTcp pkt a (s.onSyn key wantTcp i a.alloc a.now).1
        ((s.onSyn key wantTcp i a.alloc a.now).2 && wantTcp)

end Lane

namespace Ingress

variable {s : Ingress}

/-- Only the counter of refused flows and the lane are touched while a TCP packet is routed. -/
theorem routeTcp_spec {lane : Lane} (hlane : s.lane = some lane) (key : FlowKey) (pkt : Bytes)
    (a : LaneAnswer) :
    ∃ lane' n fed, s.routeTcp lane key pkt a = ({ s with lane := some lane', tcpFlowsRejected := n }, fed) ∧
      lane.Routes key s.tcpSynPolicy pkt a lane' fed := by
  have hstay (fed : Bool) : (s, fed) = ({ s with lane := some lane, tcpFlowsRejected := s.tcpFlowsRejected }, fed) := by
    rw [← hlane]
  have hstart {i : UInt32} (hsyn : synNumber pkt = some i)
      (hf : ∀ f, lane.entry key = some f → f.state = .closing ∨ f.state = .stickyRaw ∧ i ≠ f.synIsn) :
      ∃ lane' n fed, s.newFlow lane key i a = ({ s with lane := some lane', tcpFlowsRejected := n }, fed) ∧
        lane.Routes key s.tcpSynPolicy pkt a lane' fed := by
    refine ⟨_, if (lane.onSyn key s.tcpSynPolicy i a.alloc a.now).2 then s.tcpFlowsRejected
      else if s.tcpSynPolicy then s.tcpFlowsRejected + 1 else s.tcpFlowsRejected, _, ?_, .starts i hsyn hf⟩
    unfold newFlow
    dsimp only
    cases (lane.onSyn key s.tcpSynPolicy i a.alloc a.now).2 <;> rfl
  unfold routeTcp Lane.lookup Lane.markerIsn
  have hnumber : synNumber pkt = if (ipVersion pkt == 4 && tcpSynFlag pkt) = true then some (tcpSynIsn pkt) else none := rfl
  generalize (ipVersion pkt == 4 && tcpSynFlag pkt) = syn at hnumber
  cases hf : lane.entry key with
  | none =>
    cases syn with
    | false => exact ⟨lane, _, false, hstay false, .unknown hf hnumber⟩
    | true => exact hstart hnumber fun f hf' => by rw [hf] at hf'; cases hf'
  | some f =>
    dsimp only
    have hentry {i : UInt32} (hf' : f.state = .closing ∨ f.state = .stickyRaw ∧ i ≠ f.synIsn) :
        ∀ g, lane.entry key = some g → g.state = .closing ∨ g.state = .stickyRaw ∧ i ≠ g.synIsn := by
      intro g hg
      rw [hf] at hg
      cases hg
      exact hf'
    by_cases hclosing : f.state = .closing
    · have hraw : f.state ≠ .stickyRaw := by
        rw [hclosing]
        decide
      rw [decide_eq_true hclosing, decide_eq_false hraw]
      cases syn with
      | false => exact ⟨lane, _, true, hstay true, .known f hf hraw fun _ => hnumber⟩
      | true => exact hstart hnumber (hentry (.inl hclosing))
    · by_cases hraw : f.state = .stickyRaw
      · rw [decide_eq_false hclosing, decide_eq_true hraw, if_pos hraw]
        cases syn with
        | false =>
          refine ⟨lane, _, false, hstay false, .marked f hf hraw fun i hi => ?_⟩
          rw [hnumber] at hi
          cases hi
        | true =>
          by_cases hsame : tcpSynIsn pkt = f.synIsn
          · refine ⟨lane, s.tcpFlowsRejected, false, ?_, .marked f hf hraw fun i hi => ?_⟩
            · simpa [hsame] using hstay false
            · rw [hnumber] at hi
              cases hi
              exact hsame
          · simpa [hsame] using hstart hnumber (hentry (.inr ⟨hraw, hsame⟩))
      · rw [decide_eq_false hclosing, decide_eq_false hraw]
        exact ⟨lane, _, true, hstay true, .known f hf hraw fun hstate => absurd hstate hclosing⟩

/-- What becomes of a packet. -/
inductive Handled (s : Ingress) (t : TunPacket) (a : LaneAnswer) : Ingress → Prop where
  | refused (hrefused : ¬s.Admits t.pkt) : Handled s t a s
  /-- The packet goes the TCP lane, and nowhere else. -/
  | fed (client : Mqvpn.Client) (key : FlowKey) (lane lane' : Lane) (n m : Nat) (hadmits : s.Admits t.pkt)
      (hpaths : client.paths = s.client.paths) (hkey : hybridClassify s.policy t.pkt = .tcp key)
      (hlane : s.lane = some lane) (hroutes : lane.Routes key s.tcpSynPolicy t.pkt a lane' true) :
      Handled s t a { s with
        client, lane := some lane', pktsLaneTcp := s.pktsLaneTcp + 1, tcpFlowsRejected := n, pktsLaneTcpDropped := m
        fed := t.pkt :: s.fed }
  /-- The packet could have gone the TCP lane, and goes the raw one. -/
  | fellBack (client : Mqvpn.Client) (key : FlowKey) (lane lane' : Lane) (n : Nat) (sent : List Bytes) (hadmits : s.Admits t.pkt)
      (hpaths : client.paths = s.client.paths) (hkey : hybridClassify s.policy t.pkt = .tcp key)
      (hlane : s.lane = some lane) (hroutes : lane.Routes key s.tcpSynPolicy t.pkt a lane' false)
      (hsent : sent = s.sent ∨ sent = t.pkt :: s.sent) :
      Handled s t a
        { s with client, lane := some lane', pktsLaneRaw := s.pktsLaneRaw + 1, tcpFlowsRejected := n, sent }
  /-- The packet is not for the TCP lane, or there is none. -/
  | other (client : Mqvpn.Client) (dgram raw : Nat) (sent : List Bytes) (hadmits : s.Admits t.pkt)
      (hpaths : client.paths = s.client.paths)
      (hother : (∀ key, hybridClassify s.policy t.pkt ≠ .tcp key) ∨ s.lane = none)
      (hone : dgram = s.pktsLaneDgram + 1 ∧ raw = s.pktsLaneRaw ∨ dgram = s.pktsLaneDgram ∧ raw = s.pktsLaneRaw + 1)
      (hsent : sent = s.sent ∨ sent = t.pkt :: s.sent) :
      Handled s t a { s with client, pktsLaneDgram := dgram, pktsLaneRaw := raw, sent }

theorem paths_sendDatagram (c : Mqvpn.Client) (k : Conn) (nowUs : Nat) (t : TunPacket) (pk : TxPeek) :
    (c.sendDatagram k nowUs t pk).1.paths = c.paths := by
  rw [Mqvpn.Client.sendDatagram]
  split_ifs
  · rfl
  · rfl
  · cases t.send <;> rfl

theorem client_chooseLane (s : Ingress) (pkt : Bytes) (a : LaneAnswer) :
    (s.chooseLane pkt a).1.client = s.client ∧ (s.chooseLane pkt a).1.sent = s.sent := by
  unfold chooseLane
  split_ifs
  · exact ⟨rfl, rfl⟩
  · cases hkey : hybridClassify s.policy pkt with
    | dgram => exact ⟨rfl, rfl⟩
    | raw => exact ⟨rfl, rfl⟩
    | tcp key =>
      dsimp only
      cases hlane : s.lane with
      | none => exact ⟨rfl, rfl⟩
      | some lane =>
        obtain ⟨lane', n, fed, hroute, -⟩ := routeTcp_spec hlane key pkt a
        dsimp only
        rw [hroute]
        cases fed <;> exact ⟨rfl, rfl⟩

/-- The client treats the packet as it does one whose lane was chosen before. -/
theorem client_onTunPacket (s : Ingress) (nowUs : Nat) (t : TunPacket) (a : LaneAnswer) :
    ((s.onTunPacket nowUs t a).1.client, (s.onTunPacket nowUs t a).2) =
      s.client.onTunPacket nowUs (withLane t (s.chooseLane t.pkt a).2) := by
  have hclient := (s.client_chooseLane t.pkt a).1
  unfold onTunPacket Mqvpn.Client.onTunPacket
  -- the same tests, one after the other
  by_cases hlen : t.pkt.length = 0
  · rw [if_pos hlen, if_pos hlen]
  · rw [if_neg hlen, if_neg hlen]
    cases s.client.conn with
    | none => rfl
    | some k =>
      simp only [hclient]
      split_ifs <;> rfl

/-- A packet that is admitted is given to the lane, and what the lane leaves to the client. -/
theorem onTunPacket_of_admits (nowUs : Nat) {t : TunPacket} (a : LaneAnswer) (h : s.Admits t.pkt) :
    ∃ client sent, (s.onTunPacket nowUs t a).1 = { (s.chooseLane t.pkt a).1 with client, sent } ∧
      client.paths = s.client.paths ∧ (sent = s.sent ∨ (s.chooseLane t.pkt a).2 = false ∧ sent = t.pkt :: s.sent) := by
  obtain ⟨hlen, hpressure, hhdr, k, hk, hok, hsrc⟩ := h
  obtain ⟨hclient, hsent⟩ := s.client_chooseLane t.pkt a
  unfold onTunPacket
  rw [if_neg hlen, show s.client.conn = some k from hk]
  dsimp only
  rw [if_neg (by rw [hok]; decide), if_neg (by rw [hpressure]; decide), if_neg hhdr, if_neg (by rw [hsrc]; decide)]
  generalize s.chooseLane t.pkt a = r at hclient hsent ⊢
  obtain ⟨r, fed⟩ := r
  dsimp only at hclient hsent ⊢
  split_ifs with hproceed
  · refine ⟨_, _, rfl, ?_, .inr ⟨?_, by rw [hsent]⟩⟩
    · rw [paths_sendDatagram, ← hclient]
    · cases fed with
      | false => rfl
      | true => cases hproceed
  · exact ⟨_, _, rfl, by rw [← hclient], .inl hsent⟩

theorem onTunPacket_of_not_admits {nowUs : Nat} {t : TunPacket} {a : LaneAnswer} (h : ¬s.Admits t.pkt) :
    (s.onTunPacket nowUs t a).1 = s := by
  unfold onTunPacket
  by_cases hlen : t.pkt.length = 0
  · rw [if_pos hlen]
  · rw [if_neg hlen]
    cases hk : s.client.conn with
    | none => rfl
    | some k =>
      dsimp only
      split_ifs with hok hpressure hhdr hsrc
      · rfl
      · rfl
      · rfl
      · rfl
      all_goals exact absurd ⟨hlen, Bool.eq_false_iff.2 hpressure, hhdr, k, hk, Bool.of_not_eq_false hok,
          Bool.of_not_eq_false hsrc⟩ h

theorem handled (henabled : s.policy.enabled = true) (nowUs : Nat) (t : TunPacket) (a : LaneAnswer) :
    Handled s t a (s.step (.packet nowUs t a)) := by
  change Handled s t a (s.onTunPacket nowUs t a).1
  by_cases hadmits : s.Admits t.pkt
  · obtain ⟨client, sent, heq, hpaths, hsent⟩ := s.onTunPacket_of_admits nowUs a hadmits
    rw [heq]
    have hoff : ¬(!s.policy.enabled) = true := by
      rw [henabled]
      decide
    unfold chooseLane at hsent ⊢
    rw [if_neg hoff] at hsent ⊢
    cases hkey : hybridClassify s.policy t.pkt with
    | dgram =>
      have hother (key : FlowKey) : hybridClassify s.policy t.pkt ≠ .tcp key := by
        rw [hkey]
        exact LaneVerdict.noConfusion
      exact .other client _ _ sent hadmits hpaths (.inl hother) (.inl ⟨rfl, rfl⟩) (hsent.imp_right And.right)
    | raw =>
      have hother (key : FlowKey) : hybridClassify s.policy t.pkt ≠ .tcp key := by
        rw [hkey]
        exact LaneVerdict.noConfusion
      exact .other client _ _ sent hadmits hpaths (.inl hother) (.inr ⟨rfl, rfl⟩) (hsent.imp_right And.right)
    | tcp key =>
      rw [hkey] at hsent
      dsimp only at hsent ⊢
      cases hlane : s.lane with
      | none =>
        exact .other client _ _ sent hadmits hpaths (.inr hlane) (.inr ⟨rfl, rfl⟩) (hsent.imp_right And.right)
      | some lane =>
        obtain ⟨lane', n, fed, hroute, hroutes⟩ := routeTcp_spec hlane key t.pkt a
        rw [hlane] at hsent
        dsimp only at hsent ⊢
        rw [hroute] at hsent ⊢
        cases fed with
        | false => exact .fellBack client key lane lane' n sent hadmits hpaths hkey hlane hroutes (hsent.imp_right And.right)
        | true =>
          rw [hsent.resolve_right fun hboth => by cases hboth.1]
          exact .fed client key lane lane' n _ hadmits hpaths hkey hlane hroutes
  · rw [onTunPacket_of_not_admits hadmits]
    exact .refused hadmits

/-! ## Runs -/

structure Inv (s : Ingress) : Prop where
  enabled : s.policy.enabled = true
  lane : ∀ lane ∈ s.lane, lane.Inv

/-- A lane does not come and go while a connection lasts, and flows keep their numbers. -/
structure Since (s u : Ingress) : Prop where
  policy : u.policy = s.policy
  none : s.lane = none → u.lane = none
  some : ∀ lane ∈ s.lane, ∃ lane' ∈ u.lane, Lane.Since lane lane'

theorem Since.refl (s : Ingress) : Since s s := ⟨rfl, fun h => h, fun lane hlane => ⟨lane, hlane, .refl lane⟩⟩

theorem Since.trans {u v : Ingress} (h : Since s u) (h' : Since u v) : Since s v where
  policy := h'.policy.trans h.policy
  none hnone := h'.none (h.none hnone)
  some lane hlane := by
    obtain ⟨lane', hlane', hsince⟩ := h.some lane hlane
    obtain ⟨lane'', hlane'', hsince'⟩ := h'.some lane' hlane'
    exact ⟨lane'', hlane'', hsince.trans hsince'⟩

end Ingress

namespace Lane

variable {s t : Lane} {key : FlowKey} {wantTcp fed : Bool} {pkt : Bytes} {a : LaneAnswer}

namespace Routes

variable (wantTcp) in
theorem committed (h : s.Inv) {i : UInt32}
    (hf : ∀ f, s.entry key = some f → f.state = .closing ∨ f.state = .stickyRaw ∧ i ≠ f.synIsn) :
    Committed s (s.onSyn key wantTcp i a.alloc a.now).1 key wantTcp i a.alloc (s.onSyn key wantTcp i a.alloc a.now).2 :=
  h.committed (fun f hget => (hf f hget).imp_right And.left) wantTcp i a.alloc a.now

theorem inv (hroutes : s.Routes key wantTcp pkt a t fed) (h : s.Inv) : t.Inv ∧ Since s t := by
  cases hroutes with
  | known => exact ⟨h, .refl s⟩
  | unknown => exact ⟨h, .refl s⟩
  | marked => exact ⟨h, .refl s⟩
  | starts i hsyn hf => exact ⟨(h.onSyn key wantTcp i a.alloc a.now).1, (committed wantTcp h hf).since⟩

end Routes

end Lane

namespace Ingress

variable {s : Ingress}

theorem Inv.step (h : s.Inv) {e : Step} (hproper : s.Proper e) : (s.step e).Inv ∧ Since s (s.step e) := by
  cases e with
  | packet nowUs t a =>
    have hhandled := s.handled h.enabled nowUs t a
    generalize s.step (.packet nowUs t a) = u at hhandled ⊢
    have hroute {lane lane' : Lane} {key : FlowKey} {fed : Bool} (hlane : s.lane = some lane)
        (hroutes : lane.Routes key s.tcpSynPolicy t.pkt a lane' fed) (hu : u.lane = some lane') (hpolicy : u.policy = s.policy) :
        u.Inv ∧ Since s u := by
      obtain ⟨hinv, hsince⟩ := hroutes.inv (h.lane lane hlane)
      refine ⟨⟨hpolicy ▸ h.enabled, fun l hl => ?_⟩, hpolicy, fun hnone => ?_, fun l hl => ?_⟩
      · rw [hu] at hl
        cases hl
        exact hinv
      · rw [hlane] at hnone
        cases hnone
      · rw [hlane] at hl
        cases hl
        exact ⟨lane', hu, hsince⟩
    cases hhandled with
    | refused => exact ⟨h, .refl s⟩
    | fed client key lane lane' n m hadmits hpaths hkey hlane hroutes => exact hroute hlane hroutes rfl rfl
    | fellBack client key lane lane' n sent hadmits hpaths hkey hlane hroutes => exact hroute hlane hroutes rfl rfl
    | other =>
      exact ⟨⟨h.enabled, h.lane⟩, rfl, fun hnone => hnone, fun lane hlane => ⟨lane, hlane, .refl lane⟩⟩
  | paths paths => exact ⟨⟨h.enabled, h.lane⟩, rfl, fun hnone => hnone, fun lane hlane => ⟨lane, hlane, .refl lane⟩⟩
  | dgramWrite => exact ⟨⟨h.enabled, h.lane⟩, rfl, fun hnone => hnone, fun lane hlane => ⟨lane, hlane, .refl lane⟩⟩
  | dgramMssUpdated mss =>
    exact ⟨⟨h.enabled, h.lane⟩, rfl, fun hnone => hnone, fun lane hlane => ⟨lane, hlane, .refl lane⟩⟩
  | lane e =>
    change Inv (if e.isSyn then s else _) ∧ Since s (if e.isSyn then s else _)
    split
    · exact ⟨h, .refl s⟩
    · rename_i hsyn
      have hkeeps (lane : Lane) (hlane : lane ∈ s.lane) :=
        (h.lane lane hlane).event (hproper lane hlane) (Bool.eq_false_iff.2 hsyn)
      refine ⟨⟨h.enabled, fun l hl => ?_⟩, rfl, fun hnone => ?_, fun lane hlane => ?_⟩
      · obtain ⟨lane, hlane, rfl⟩ := Option.map_eq_some_iff.1 hl
        exact (hkeeps lane hlane).inv
      · change s.lane.map _ = Option.none
        rw [hnone, Option.map_none]
      · exact ⟨lane.step e, Option.map_eq_some_iff.2 ⟨lane, hlane, rfl⟩, .of_evolves (hkeeps lane hlane).evolves⟩

theorem Inv.run (h : s.Inv) {steps : List Step} (hproper : Runs.Along Ingress.step Proper s steps) :
    (s.run steps).Inv ∧ Since s (s.run steps) := by
  refine Runs.foldl_of_along (J := fun u => u.Inv ∧ Since s u) (fun u e hu he => ?_) ⟨h, .refl s⟩ hproper
  obtain ⟨hinv, hsince⟩ := hu.1.step he
  exact ⟨hinv, hu.2.trans hsince⟩

/-! ## Flows that are not fed -/

/-- The packet of a step. -/
def Step.packet? : Step → Option Bytes
  | .packet _ t _ => some t.pkt
  | _ => none

/-- The packets of a key that were fed. -/
def fedOf (s : Ingress) (key : FlowKey) : List Bytes := s.fed.filter fun pkt => tuple pkt = some key

/-- The step is no SYN of the key. -/
def NoSyn (key : FlowKey) (e : Step) : Prop := ∀ pkt ∈ e.packet?, tuple pkt = some key → synNumber pkt = none

/-- The step is no SYN of the key with another number. -/
def NoOtherSyn (key : FlowKey) (isn : UInt32) (e : Step) : Prop :=
  ∀ pkt ∈ e.packet?, tuple pkt = some key → ∀ i, synNumber pkt = some i → i = isn

/-- The entry of a key in the lane, if there is one. -/
def entry (s : Ingress) (key : FlowKey) : Option Flow := s.lane.bind fun lane => lane.entry key

/-- The table holds the verdict on a flow that was sent raw. -/
def Marked (s : Ingress) (key : FlowKey) (isn : UInt32) : Prop :=
  ∃ f ∈ s.entry key, f.state = .stickyRaw ∧ f.synIsn = isn

/-- The table has no flow of the key to which packets are fed. -/
def Idle (s : Ingress) (key : FlowKey) : Prop := ∀ f ∈ s.entry key, f.state = .stickyRaw

/-- The classifier keeps the key off the TCP lane, or there is none. -/
def Never (s : Ingress) (key : FlowKey) : Prop :=
  s.lane = none ∨ ∀ pkt, tuple pkt = some key → ∀ k, hybridClassify s.policy pkt ≠ .tcp k

/-- The table has no room for a new verdict: the cap for it is reached, or there is no memory. -/
def NoRoom (s : Ingress) (alloc : Bool) : Prop :=
  ∃ lane ∈ s.lane, s.tcpSynPolicy = true ∧ lane.tcpMaxFlows.toNat ≤ lane.nTcpFlows ∨
    s.tcpSynPolicy = false ∧ rawMarkerCap ≤ lane.nRawMarkers ∨ alloc = false

variable {key : FlowKey} {isn : UInt32} {u : Ingress} {t : TunPacket} {a : LaneAnswer}

theorem entry_eq {lane : Lane} (hlane : s.lane = some lane) (key : FlowKey) : s.entry key = lane.entry key := by
  rw [entry, hlane, Option.bind_some]

theorem Marked.idle (h : s.Marked key isn) : s.Idle key := by
  obtain ⟨f, hf, hraw, -⟩ := h
  intro g hg
  rw [hf] at hg
  cases hg
  exact hraw

theorem fedOf_cons {pkt : Bytes} (hfed : u.fed = pkt :: s.fed) (hne : tuple pkt ≠ some key) :
    u.fedOf key = s.fedOf key := by
  rw [fedOf, hfed, List.filter_cons_of_neg (by simpa using hne)]
  rfl

end Ingress

namespace Lane

variable {s t : Lane} {key key' : FlowKey} {wantTcp fed : Bool} {pkt : Bytes} {a : LaneAnswer}

/-- A packet leaves the entries of other keys alone. -/
theorem Routes.entry_eq (hroutes : s.Routes key wantTcp pkt a t fed) (h : s.Inv) (hne : key' ≠ key) :
    t.entry key' = s.entry key' := by
  cases hroutes with
  | known => rfl
  | unknown => rfl
  | marked => rfl
  | starts i hsyn hf =>
    have hcommitted := Routes.committed wantTcp (a := a) h hf
    ext f
    rw [(h.onSyn key wantTcp i a.alloc a.now).1.entry_eq_some, h.entry_eq_some]
    refine exists_congr fun id => and_congr_left fun hkey => hcommitted.others id f ?_
    rw [hkey]
    exact hne

theorem Keeps.raw_of_entry (ht : Keeps s t) (h : s.Inv) (hidle : ∀ f ∈ s.entry key, f.state = .stickyRaw) :
    ∀ f ∈ t.entry key, f.state = .stickyRaw := by
  intro f hf
  obtain ⟨id, hget, hkey⟩ := ht.inv.entry_eq_some.1 hf
  obtain ⟨g, hg, hgkey, hraw⟩ := ht.evolves.old hget
  exact hraw.1 (hidle g (h.entry_eq_some.2 ⟨id, hg, hgkey.trans hkey⟩))

theorem Keeps.entry_of_raw (ht : Keeps s t) (h : s.Inv) {f : Flow} (hf : s.entry key = some f)
    (hraw : f.state = .stickyRaw) : t.entry key = some f := by
  obtain ⟨id, hget, hkey⟩ := h.entry_eq_some.1 hf
  exact ht.inv.entry_eq_some.2 ⟨id, ht.evolves.marker hget hraw, hkey⟩

end Lane

namespace Ingress

variable {s : Ingress} {key : FlowKey} {isn : UInt32} {u : Ingress} {t : TunPacket} {a : LaneAnswer}

/-- A step without a packet is an event of the lane, or leaves it as it is. -/
theorem keeps_of_quiet (h : s.Inv) {e : Step} (hproper : s.Proper e) (hquiet : e.packet? = none) :
    (s.step e).fed = s.fed ∧ ((s.step e).lane = s.lane ∨
      ∃ lane lane', s.lane = some lane ∧ (s.step e).lane = some lane' ∧ Lane.Keeps lane lane') := by
  cases e with
  | packet nowUs t a => cases hquiet
  | paths paths => exact ⟨rfl, .inl rfl⟩
  | dgramWrite => exact ⟨rfl, .inl rfl⟩
  | dgramMssUpdated mss => exact ⟨rfl, .inl rfl⟩
  | lane e =>
    change (if e.isSyn then s else _).fed = _ ∧ ((if e.isSyn then s else _).lane = _ ∨
      ∃ lane lane', _ ∧ (if e.isSyn then s else _).lane = _ ∧ _)
    split
    · exact ⟨rfl, .inl rfl⟩
    · rename_i hsyn
      refine ⟨rfl, ?_⟩
      cases hlane : s.lane with
      | none => exact .inl rfl
      | some lane =>
        exact .inr ⟨lane, lane.step e, rfl, rfl,
          (h.lane lane hlane).event (hproper lane hlane) (Bool.eq_false_iff.2 hsyn)⟩

/-- A packet of another key. -/
theorem Handled.other_key (hhandled : Handled s t a u) (h : s.Inv) (hne : tuple t.pkt ≠ some key) :
    u.entry key = s.entry key ∧ u.fedOf key = s.fedOf key := by
  have hroute {lane lane' : Lane} {key' : FlowKey} {fed : Bool} (hkey : hybridClassify s.policy t.pkt = .tcp key')
      (hlane : s.lane = some lane) (hroutes : lane.Routes key' s.tcpSynPolicy t.pkt a lane' fed)
      (hu : u.lane = some lane') : u.entry key = s.entry key := by
    rw [entry_eq hlane, entry_eq hu]
    refine hroutes.entry_eq (h.lane lane hlane) fun hsame => hne ?_
    rw [hsame]
    exact tuple_of_classify hkey
  cases hhandled with
  | refused => exact ⟨rfl, rfl⟩
  | fed client key' lane lane' n m hadmits hpaths hkey hlane hroutes =>
    exact ⟨hroute hkey hlane hroutes rfl, fedOf_cons rfl hne⟩
  | fellBack client key' lane lane' n sent hadmits hpaths hkey hlane hroutes =>
    exact ⟨hroute hkey hlane hroutes rfl, rfl⟩
  | other => exact ⟨rfl, rfl⟩

/-- A packet of a key is not fed as long as no flow of the key relays and no other one starts. -/
theorem Handled.same_key (hhandled : Handled s t a u) (h : tuple t.pkt = some key) (hidle : s.Idle key)
    (hsyn : ∀ i, synNumber t.pkt = some i → s.Marked key i) : u.entry key = s.entry key ∧ u.fed = s.fed := by
  have hroute {lane lane' : Lane} {key' : FlowKey} {fed : Bool} (hkey : hybridClassify s.policy t.pkt = .tcp key')
      (hlane : s.lane = some lane) (hroutes : lane.Routes key' s.tcpSynPolicy t.pkt a lane' fed) :
      lane' = lane ∧ fed = false := by
    have hsame : key' = key := Option.some.inj ((tuple_of_classify hkey).symm.trans h)
    rw [hsame] at hroutes
    have hentry := entry_eq hlane key
    cases hroutes with
    | known f hf hraw => exact absurd (hidle f (hentry.trans hf)) hraw
    | unknown => exact ⟨rfl, rfl⟩
    | marked => exact ⟨rfl, rfl⟩
    | starts i hi hf =>
      -- the verdict on this SYN is in the table
      obtain ⟨f, hget, hraw, hisn⟩ := hsyn i hi
      rcases hf f (hentry.symm.trans hget) with hclosing | ⟨-, hother⟩
      · rw [hraw] at hclosing
        cases hclosing
      · exact absurd hisn.symm hother
  cases hhandled with
  | refused => exact ⟨rfl, rfl⟩
  | fed client key' lane lane' n m hadmits hpaths hkey hlane hroutes => cases (hroute hkey hlane hroutes).2
  | fellBack client key' lane lane' n sent hadmits hpaths hkey hlane hroutes =>
    refine ⟨?_, rfl⟩
    rw [entry_eq hlane, ← (hroute hkey hlane hroutes).1]
    rfl
  | other => exact ⟨rfl, rfl⟩

/-- Without a SYN nothing is fed for a key of which the table has at most a marker. -/
theorem Idle.step (hidle : s.Idle key) (h : s.Inv) {e : Step} (hproper : s.Proper e) (hsyn : NoSyn key e) :
    (s.step e).Idle key ∧ (s.step e).fedOf key = s.fedOf key := by
  cases hpacket : e.packet? with
  | none =>
    obtain ⟨hfed, hkeeps⟩ := keeps_of_quiet h hproper hpacket
    refine ⟨?_, by rw [fedOf, hfed]; rfl⟩
    rcases hkeeps with hlane | ⟨lane, lane', hlane, hlane', hkeeps⟩
    · rw [Idle, entry, hlane]
      exact hidle
    · rw [Idle, entry_eq hlane']
      exact hkeeps.raw_of_entry (h.lane lane hlane) (entry_eq hlane key ▸ hidle)
  | some pkt =>
    cases e with
    | packet nowUs t a =>
      have hhandled := s.handled h.enabled nowUs t a
      by_cases hkey : tuple t.pkt = some key
      · have hnone := hsyn t.pkt rfl hkey
        obtain ⟨hentry, hfed⟩ := hhandled.same_key hkey hidle fun i hi => by
          rw [hnone] at hi
          cases hi
        rw [Idle, hentry, fedOf, hfed]
        exact ⟨hidle, rfl⟩
      · obtain ⟨hentry, hfed⟩ := hhandled.other_key h hkey
        rw [Idle, hentry]
        exact ⟨hidle, hfed⟩
    | _ => cases hpacket

/-- Nor is it before a SYN with another number, if the table has the marker. -/
theorem Marked.step (hmarked : s.Marked key isn) (h : s.Inv) {e : Step} (hproper : s.Proper e)
    (hsyn : NoOtherSyn key isn e) : (s.step e).Marked key isn ∧ (s.step e).fedOf key = s.fedOf key := by
  obtain ⟨f, hf, hraw, hisn⟩ := hmarked
  cases hpacket : e.packet? with
  | none =>
    obtain ⟨hfed, hkeeps⟩ := keeps_of_quiet h hproper hpacket
    refine ⟨⟨f, ?_, hraw, hisn⟩, by rw [fedOf, hfed]; rfl⟩
    rcases hkeeps with hlane | ⟨lane, lane', hlane, hlane', hkeeps⟩
    · rw [entry, hlane]
      exact hf
    · rw [entry_eq hlane']
      rw [entry_eq hlane] at hf
      exact hkeeps.entry_of_raw (h.lane lane hlane) hf hraw
  | some pkt =>
    cases e with
    | packet nowUs t a =>
      have hhandled := s.handled h.enabled nowUs t a
      by_cases hkey : tuple t.pkt = some key
      · obtain ⟨hentry, hfed⟩ := hhandled.same_key hkey (Marked.idle ⟨f, hf, hraw, hisn⟩) fun i hi =>
          ⟨f, hf, hraw, hisn.trans (hsyn t.pkt rfl hkey i hi).symm⟩
        refine ⟨⟨f, hentry ▸ hf, hraw, hisn⟩, ?_⟩
        rw [fedOf, hfed]
        rfl
      · obtain ⟨hentry, hfed⟩ := hhandled.other_key h hkey
        exact ⟨⟨f, hentry ▸ hf, hraw, hisn⟩, hfed⟩
    | _ => cases hpacket

theorem Never.step (hnever : s.Never key) (h : s.Inv) {e : Step} (hproper : s.Proper e) :
    (s.step e).Never key ∧ (s.step e).fedOf key = s.fedOf key := by
  obtain ⟨-, hsince⟩ := h.step hproper
  refine ⟨hnever.imp hsince.none fun hclass => by rw [hsince.policy]; exact hclass, ?_⟩
  cases hpacket : e.packet? with
  | none => rw [fedOf, (keeps_of_quiet h hproper hpacket).1]; rfl
  | some pkt =>
    cases e with
    | packet nowUs t a =>
      have hhandled := s.handled h.enabled nowUs t a
      by_cases hkey : tuple t.pkt = some key
      · generalize s.step (.packet nowUs t a) = u at hhandled ⊢
        cases hhandled with
        | fed client key' lane lane' n m hadmits hpaths hkey' hlane hroutes =>
          rcases hnever with hnone | hclass
          · rw [hlane] at hnone
            cases hnone
          · exact absurd hkey' (hclass t.pkt hkey key')
        | _ => rfl
      · exact (hhandled.other_key h hkey).2
    | _ => cases hpacket

/-- What the steps of a run keep of a key, they keep over the run. -/
theorem fedOf_run_of_step {K : Ingress → Prop} (quiet : Step → Prop)
    (hstep : ∀ s : Ingress, s.Inv → K s → ∀ e, s.Proper e → quiet e → K (s.step e) ∧ (s.step e).fedOf key = s.fedOf key)
    (h : s.Inv) (hK : K s) {later : List Step} (hproper : Runs.Along Ingress.step Proper s later)
    (hquiet : ∀ e ∈ later, quiet e) : (s.run later).fedOf key = s.fedOf key := by
  induction later generalizing s with
  | nil => rfl
  | cons e later ih =>
    obtain ⟨he, hrest⟩ := hproper
    obtain ⟨hnext, hfed⟩ := hstep s h hK e he (hquiet e List.mem_cons_self)
    exact (ih (h.step he).1 hnext hrest fun e he => hquiet e (List.mem_cons_of_mem _ he)).trans hfed

section Run

variable {later : List Step} (h : s.Inv) (hproper : Runs.Along Ingress.step Proper s later)

include h hproper

theorem Marked.fedOf_run (hmarked : s.Marked key isn) (hquiet : ∀ e ∈ later, NoOtherSyn key isn e) :
    (s.run later).fedOf key = s.fedOf key :=
  fedOf_run_of_step (K := fun s => s.Marked key isn) (NoOtherSyn key isn) (fun _ hs hK _ he hq => hK.step hs he hq) h hmarked
    hproper hquiet

theorem Idle.fedOf_run (hidle : s.Idle key) (hquiet : ∀ e ∈ later, NoSyn key e) :
    (s.run later).fedOf key = s.fedOf key :=
  fedOf_run_of_step (K := fun s => s.Idle key) (NoSyn key) (fun _ hs hK _ he hq => hK.step hs he hq) h hidle hproper hquiet

theorem Never.fedOf_run (hnever : s.Never key) : (s.run later).fedOf key = s.fedOf key :=
  fedOf_run_of_step (K := fun s => s.Never key) (fun _ => True) (fun _ hs hK _ he _ => hK.step hs he) h hnever
    hproper fun _ _ => trivial

end Run

/-! ## What a lane was chosen for -/

theorem tcpSynPolicy_congr (hpolicy : u.policy = s.policy) (hpaths : u.client.paths = s.client.paths) :
    u.tcpSynPolicy = s.tcpSynPolicy := by
  rw [tcpSynPolicy, tcpSynPolicy, hpolicy, activePathsCount, activePathsCount, hpaths]

/-- A SYN that was sent raw: its verdict is in the table, or there was no room for it. -/
theorem Handled.raw_syn (hhandled : Handled s t a u) (h : s.Inv) (hadmits : s.Admits t.pkt)
    (hkey : tuple t.pkt = some key) (hsyn : synNumber t.pkt = some isn) (hraw : u.fed = s.fed) :
    (u.Idle key ∨ u.Never key) ∧ (u.Marked key isn ∨ u.Never key ∨ u.NoRoom a.alloc) := by
  cases hhandled with
  | refused hrefused => exact absurd hadmits hrefused
  | fed => exact absurd hraw (List.cons_ne_self _ _)
  | other client dgram raw sent hadmits hpaths hother =>
    have hnever : Never { s with client, pktsLaneDgram := dgram, pktsLaneRaw := raw, sent } key := by
      rcases hother with hclass | hnone
      · refine .inr fun pkt hpkt k => ?_
        rw [classify_congr hpkt hkey]
        exact hclass k
      · exact .inl hnone
    exact ⟨.inr hnever, .inr (.inl hnever)⟩
  | fellBack client key' lane lane' n sent hadmits hpaths hkey' hlane hroutes =>
    have hsame : key' = key := Option.some.inj ((tuple_of_classify hkey').symm.trans hkey)
    subst hsame
    have hmarked {f : Flow} (hf : lane'.entry key' = some f) (hstate : f.state = .stickyRaw) (hisn : f.synIsn = isn) :
        Marked { s with client, lane := some lane', pktsLaneRaw := s.pktsLaneRaw + 1, tcpFlowsRejected := n, sent }
          key' isn := ⟨f, hf, hstate, hisn⟩
    generalize hfed : false = fed at hroutes
    cases hroutes with
    | known => cases hfed
    | unknown hf hnone =>
      rw [hsyn] at hnone
      cases hnone
    | marked f hf hstate hsame =>
      have hmarked := hmarked hf hstate (hsame isn hsyn).symm
      exact ⟨.inl hmarked.idle, .inl hmarked⟩
    | starts i hi hf =>
      rw [hsyn] at hi
      cases hi
      have hinv := h.lane lane hlane
      have hcommitted := Lane.Routes.committed s.tcpSynPolicy (a := a) hinv hf
      have hinv' := (hinv.onSyn key' s.tcpSynPolicy isn a.alloc a.now).1
      generalize lane.onSyn key' s.tcpSynPolicy isn a.alloc a.now = r at hcommitted hinv' hmarked hfed ⊢
      obtain ⟨r, ok⟩ := r
      dsimp only at hcommitted hinv' hmarked hfed ⊢
      cases ok with
      | false =>
        refine ⟨.inl fun f hf => ?_, .inr (.inr ⟨r, rfl, ?_⟩)⟩
        · obtain ⟨id, hget, hfkey⟩ := hinv'.entry_eq_some.1 hf
          cases (hcommitted.mine id f hget hfkey).1
        · have hpolicy : tcpSynPolicy { s with
              client, lane := some r, pktsLaneRaw := s.pktsLaneRaw + 1, tcpFlowsRejected := n, sent } =
                s.tcpSynPolicy := tcpSynPolicy_congr rfl hpaths
          rw [hpolicy]
          exact hcommitted.full rfl
      | true =>
        obtain ⟨f, hget, hfkey, hisn, hstate⟩ := hcommitted.fresh rfl
        rw [if_neg (by rw [← Bool.true_and s.tcpSynPolicy, ← hfed]; decide)] at hstate
        have hmarked := hmarked (hinv'.entry_eq_some.2 ⟨_, hget, hfkey⟩) hstate hisn
        exact ⟨.inl hmarked.idle, .inl hmarked⟩

/-- A packet that was fed has an entry, which is no marker. -/
theorem Handled.fed_entry (hhandled : Handled s t a u) (h : s.Inv) (hkey : tuple t.pkt = some key) (hfed : u.fed ≠ s.fed) :
    ¬s.Never key ∧ ∃ id, ∃ lane ∈ u.lane, ∃ f, lane.flows.get id = some f ∧ f.key = key ∧ f.state ≠ .stickyRaw := by
  cases hhandled with
  | refused => exact absurd rfl hfed
  | fellBack => exact absurd rfl hfed
  | other => exact absurd rfl hfed
  | fed client key' lane lane' n m hadmits hpaths hkey' hlane hroutes =>
    have hsame : key' = key := Option.some.inj ((tuple_of_classify hkey').symm.trans hkey)
    subst hsame
    refine ⟨?_, ?_⟩
    · rintro (hnone | hclass)
      · rw [hlane] at hnone
        cases hnone
      · exact hclass t.pkt hkey key' hkey'
    · have hinv := h.lane lane hlane
      generalize hwas : true = was at hroutes
      cases hroutes with
      | unknown => cases hwas
      | marked => cases hwas
      | known f hf hraw =>
        obtain ⟨id, hget, hfkey⟩ := hinv.entry_eq_some.1 hf
        exact ⟨id, lane, rfl, f, hget, hfkey, hraw⟩
      | starts i hi hf =>
        have hcommitted := Lane.Routes.committed s.tcpSynPolicy (a := a) hinv hf
        obtain ⟨hok, hwant⟩ := Bool.and_eq_true_iff.1 hwas.symm
        obtain ⟨f, hget, hfkey, -, hstate⟩ := hcommitted.fresh hok
        refine ⟨_, _, rfl, f, hget, hfkey, ?_⟩
        rw [hstate, if_pos hwant]
        decide

/-- As long as a flow that is no marker has its entry, its packets are fed. -/
theorem Handled.fed_of_entry (hhandled : Handled s t a u) (h : s.Inv) (hadmits : s.Admits t.pkt)
    (hkey : tuple t.pkt = some key) (hnever : ¬s.Never key) {id : Nat} {lane lane' : Lane} (hlane : s.lane = some lane)
    (hlane' : u.lane = some lane') (hid : id < lane.flows.next) {f : Flow} (hf : lane'.flows.get id = some f)
    (hfkey : f.key = key) (hraw : f.state ≠ .stickyRaw) : u.fed = t.pkt :: s.fed := by
  cases hhandled with
  | refused hrefused => exact absurd hadmits hrefused
  | fed => rfl
  | other client dgram raw sent hadmits hpaths hother =>
    refine absurd ?_ hnever
    rcases hother with hclass | hnone
    · refine .inr fun pkt hpkt k => ?_
      rw [classify_congr hpkt hkey]
      exact hclass k
    · exact .inl hnone
  | fellBack client key' l l' n sent hadmits hpaths hkey' hl hroutes =>
    have hsame : key' = key := Option.some.inj ((tuple_of_classify hkey').symm.trans hkey)
    subst hsame
    rw [hl] at hlane
    cases hlane
    cases hlane'
    have hinv := h.lane lane hl
    generalize hwas : false = was at hroutes
    cases hroutes with
    | known => cases hwas
    | unknown hnone =>
      rw [hinv.entry_eq_none] at hnone
      exact absurd hfkey (hnone id f hf)
    | marked g hg hstate =>
      obtain ⟨j, hget, hgkey⟩ := hinv.entry_eq_some.1 hg
      have hj := hinv.key hget hf (hgkey.trans hfkey.symm)
      subst hj
      rw [hf] at hget
      cases hget
      exact absurd hstate hraw
    | starts i hi hentry =>
      -- the entry of the key is a new one
      have hcommitted := Lane.Routes.committed s.tcpSynPolicy (a := a) hinv hentry
      exact absurd hid ((hcommitted.mine id f hf hfkey).2 ▸ Nat.lt_irrefl _)

theorem Inv.start (client : Mqvpn.Client) (policy : Policy) (henabled : policy.enabled = true) (hashSeed : UInt64)
    (reenters : Nat → Bool) (alloc : Bool) : (start client policy hashSeed reenters alloc).Inv where
  enabled := henabled
  lane lane hlane := by
    rw [Ingress.start] at hlane
    dsimp only at hlane
    split at hlane
    · cases hlane
      exact .start ..
    · cases hlane

/-! ## What holds of every packet -/

/-- The SYN of a client for a host on the other side. -/
def sampleSyn (port isn : UInt8) : Bytes :=
  [0x45, 0, 0, 40, 0, 0, 0, 0, 64, 6, 0, 0, 10, 0, 0, 3, 192, 0, 2, 7] ++
    [156, port, 0, 80, 0, 0, 0, isn, 0, 0, 0, 0, 0x50, 0x02, 0, 0, 0, 0, 0, 0]

/-- A client with a tunnel, before any path is active. -/
def sampleClient : Mqvpn.Client where
  config := sampleConfig
  conn := some { dgramMss := 1200, tunnelOk := true }

/-- A lane with room for a single flow. -/
def sampleIngress : Ingress :=
  start sampleClient { enabled := true, tcpMode := .stream, tcpMaxFlows := 1 } 5 (fun _ => false) true

section Results

variable (client : Mqvpn.Client) (policy : Policy) (hashSeed : UInt64) (reenters : Nat → Bool) (alloc : Bool)
  (steps : List Step)

end Results

/-- A SYN that finds no room goes raw. The flow that was in the way ends, and the same SYN is fed
    when it is repeated. -/
def straddlingSteps : List Step :=
  [.packet 1 { pkt := sampleSyn 64 1 } {}, .packet 2 { pkt := sampleSyn 65 7 } {},
    .lane (.accept (some { Lane.samplePcb with remotePort := 40000 }) 3 .noConn),
    .packet 4 { pkt := sampleSyn 65 7 } {}]

end Ingress

end Mqvpn.Hybrid
