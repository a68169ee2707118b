import Mathlib.Data.List.Induction
import Mqvpn.Reorder.Safety
import Mqvpn.Reorder.Wrap

/-!
# From the sender to the receiver

A sender and a receiver, joined by a channel that loses and duplicates nothing
and keeps the datagrams of each flow in order (`Link`); flows may overtake each
other. The configurations of the two need not agree.

Whatever the receiver forgets in between, it delivers every datagram as it is
handed over and buffers none (`transparency`): it is in step with the sender
(`Good`). This takes a sender that forgets no flow, and what bounds a flow by
design: packets that fit the receiver's limit of 65535 bytes, `2 ^ 48` of them,
and memory for its state (`not_transparent`).
-/

namespace Mqvpn.Reorder

/-! ## The link -/

/-- A sender and a receiver with the datagrams in flight between them, and a
    record of those that were sent and those that were carried over. -/
structure Link where
  tx : Tx
  rx : Rx
  flight : List Msg := []
  sent : List Msg := []
  carried : List Msg := []

/-- A step of the link. -/
inductive Link.Op
  /-- A packet enters the sender. -/
  | send (op : Tx.Op)
  /-- The oldest datagram in flight of a flow reaches the receiver. -/
  | carry (key : FlowKey) (nowUs : Nat) (alloc : Alloc)
  | tick (nowUs : Nat)

/-- There is memory for the flow of a datagram that is carried over. -/
def Link.Op.Allocates : Op → Prop
  | .carry _ _ alloc => alloc.flow = true
  | .send _ | .tick _ => True

instance : ∀ op : Link.Op, Decidable op.Allocates
  | .carry _ _ alloc => inferInstanceAs (Decidable (alloc.flow = true))
  | .send _ => .isTrue trivial
  | .tick _ => .isTrue trivial

namespace Link

/-- The datagram that a step carries over. -/
def carries (s : Link) : Op → Option Msg
  | .carry key _ _ => s.flight.find? (·.key = key)
  | .send _ | .tick _ => none

def step (s : Link) (op : Op) : Link :=
  match op with
  | .send op =>
    let out := (s.tx.sent op).toList
    { s with tx := s.tx.step op, flight := s.flight ++ out, sent := s.sent ++ out }
  | .carry key nowUs alloc =>
    match s.carries op with
    | some m => { s with
        rx := s.rx.onPacket m.payload nowUs alloc
        flight := s.flight.eraseP (·.key = key)
        carried := s.carried ++ [m] }
    | none => s
  | .tick nowUs => { s with rx := s.rx.tick nowUs }

def run (s : Link) (ops : List Op) : Link := ops.foldl step s

/-- The sender never evicted a flow, and every flow kept to what the receiver is
    made for: packets of 65535 bytes at most, at most `2 ^ 48` of them. -/
structure Within (s : Link) : Prop where
  unevicted : ∀ k, .evicted k ∉ s.tx.trace
  short : ∀ m ∈ s.sent, m.pkt.length ≤ 65535
  unwrapped : ∀ k, (ofKey k s.sent).length ≤ 2 ^ 48

/-- The link delivers every datagram when it carries it over. The packets sent
    for a flow are numbered, and the receiver has got those that are not in
    flight. -/
structure Good (s : Link) : Prop where
  tx : s.tx.Good
  rx : s.rx.Good
  fifo : ∀ k, ofKey k s.carried ++ ofKey k s.flight = ofKey k s.sent
  numbered : ∀ k, (ofKey k s.sent).map Msg.hdr =
    headers s.tx.cfg.resetMarkPackets (ofKey k s.sent).length
  next : ∀ k, s.tx.Next k (ofKey k s.sent).length
  parsed : ∀ m ∈ s.sent, parse5tuple m.pkt = some m.key
  synced : Synced s.rx.cfg s.carried s.rx.toShared s.rx.flows

variable {s : Link} {op : Op} {k : FlowKey} {m : Msg}

/-- Taking the oldest datagram of a flow out of flight. -/
theorem ofKey_eraseP {l : List Msg} (h : l.find? (·.key = k) = some m) :
    m.key = k ∧ ∀ k', ofKey k' l = ofKey k' [m] ++ ofKey k' (l.eraseP (·.key = k)) := by
  induction l with
  | nil => nomatch h
  | cons a l ih =>
    by_cases ha : a.key = k
    · rw [List.find?_cons_of_pos (by simpa using ha)] at h
      obtain rfl := Option.some.inj h
      rw [List.eraseP_cons_of_pos (by simpa using ha)]
      exact ⟨ha, fun k' => ofKey_append k' [a] l⟩
    · rw [List.find?_cons_of_neg (by simpa using ha)] at h
      obtain ⟨hk, ih⟩ := ih h
      rw [List.eraseP_cons_of_neg (by simpa using ha)]
      refine ⟨hk, fun k' => ?_⟩
      have hcons : ∀ l', ofKey k' (a :: l') = ofKey k' [a] ++ ofKey k' l' := ofKey_append k' [a]
      rw [hcons l, hcons (l.eraseP _), ih k', ← List.append_assoc, ← List.append_assoc]
      -- The two datagrams are of different flows.
      by_cases hk' : m.key = k'
      · rw [ofKey_singleton_of_ne (m := a) (by rwa [← hk', hk]), List.nil_append, List.append_nil]
      · rw [ofKey_singleton_of_ne hk', List.nil_append, List.append_nil]

@[simp]
theorem rx_step_send (s : Link) (send : Tx.Op) : (s.step (.send send)).rx = s.rx := rfl

theorem step_carry {key : FlowKey} {nowUs : Nat} {alloc : Alloc}
    (h : s.carries (.carry key nowUs alloc) = some m) :
    s.step (.carry key nowUs alloc) = { s with
      rx := s.rx.onPacket m.payload nowUs alloc
      flight := s.flight.eraseP (·.key = key)
      carried := s.carried ++ [m] } := by
  rw [step, h]

theorem carried_step (s : Link) (op : Op) :
    (s.step op).carried = s.carried ++ (s.carries op).toList := by
  cases op with
  | send op => exact (List.append_nil _).symm
  | tick nowUs => exact (List.append_nil _).symm
  | carry key nowUs alloc =>
    rw [step]
    cases s.carries (.carry key nowUs alloc) with
    | none => exact (List.append_nil _).symm
    | some m => rfl

/-- What bounds a run bounds it all along. -/
theorem Within.of_step (h : s.tx.Good) (hw : (s.step op).Within) : s.Within := by
  obtain ⟨evs, out, ht, hs⟩ : ∃ evs out,
      (s.step op).tx.trace = s.tx.trace ++ evs ∧ (s.step op).sent = s.sent ++ out := by
    cases op with
    | send op =>
      obtain ⟨evs, ht, -⟩ := Tx.next_step h op
      exact ⟨evs, _, ht, rfl⟩
    | tick nowUs => exact ⟨[], [], (List.append_nil _).symm, (List.append_nil _).symm⟩
    | carry key nowUs alloc =>
      refine ⟨[], [], ?_⟩
      rw [step, List.append_nil, List.append_nil]
      split <;> exact ⟨rfl, rfl⟩
  refine ⟨fun k hk => hw.unevicted k ?_, fun m hm => hw.short m ?_, fun k => ?_⟩
  · rw [ht]
    exact List.mem_append_left _ hk
  · rw [hs]
    exact List.mem_append_left _ hm
  · have := hw.unwrapped k
    rw [hs, ofKey_append, List.length_append] at this
    omega

theorem good_send (h : s.Good) (op : Tx.Op) (hw : (s.step (.send op)).Within) :
    (s.step (.send op)).Good := by
  obtain ⟨evs, ht, hnext⟩ := Tx.next_step h.tx op
  obtain ⟨hg, hcfg, -⟩ := Tx.good_step h.tx op
  have hn := fun k => hnext k _ (h.next k) fun he => hw.unevicted k (ht ▸ List.mem_append_right _ he)
  refine ⟨hg, h.rx, fun k => ?_, fun k => ?_, fun k => ?_, fun m hm => ?_, h.synced⟩
  · change ofKey k s.carried ++ ofKey k (s.flight ++ _) = ofKey k (s.sent ++ _)
    rw [ofKey_append, ofKey_append, ← List.append_assoc, h.fifo]
  · change (ofKey k (s.sent ++ (s.tx.sent op).toList)).map Msg.hdr =
      headers (s.tx.step op).cfg.resetMarkPackets (ofKey k (s.sent ++ (s.tx.sent op).toList)).length
    rw [hcfg, ofKey_append, List.map_append, h.numbered, List.length_append]
    cases hm : s.tx.sent op with
    | none => exact List.append_nil _
    | some m =>
      rw [Option.toList_some]
      by_cases hk : m.key = k
      · obtain rfl := hk
        rw [ofKey_singleton_self, List.map_singleton, (hn m.key).1 m hm rfl]
        exact (headers_succ ..).symm
      · rw [ofKey_singleton_of_ne hk]
        exact List.append_nil _
  · change (s.tx.step op).Next k (ofKey k (s.sent ++ _)).length
    rw [ofKey_append, List.length_append]
    exact (hn k).2
  · rcases List.mem_append.1 hm with hm | hm
    · exact h.parsed m hm
    · exact Tx.parse5tuple_sent h.tx (Option.mem_toList.1 hm)

theorem good_carry (h : s.Good) (hw : s.Within) {key : FlowKey} {nowUs : Nat} {alloc : Alloc}
    (halloc : alloc.flow = true) : (s.step (.carry key nowUs alloc)).Good := by
  rw [step]
  cases hm : s.carries (.carry key nowUs alloc) with
  | none => exact h
  | some m =>
    obtain ⟨-, hsplit⟩ := ofKey_eraseP hm
    have hfifo : ofKey m.key s.carried ++ m :: ofKey m.key (s.flight.eraseP (·.key = key)) =
        ofKey m.key s.sent := by
      rw [← h.fifo, hsplit, ofKey_singleton_self]
      rfl
    have hsent : m ∈ s.sent :=
      List.mem_of_mem_filter (hfifo ▸ List.mem_append_right _ List.mem_cons_self)
    -- It is the first one that was not carried over yet.
    obtain ⟨hlt, hhdr⟩ : (ofKey m.key s.carried).length < (ofKey m.key s.sent).length ∧
        header s.tx.cfg.resetMarkPackets (ofKey m.key s.carried).length = m.hdr := by
      rw [← getElem?_headers, ← h.numbered, List.getElem?_map, ← hfifo,
        List.getElem?_append_right le_rfl, Nat.sub_self]
      rfl
    have hn := hlt.trans_le (hw.unwrapped m.key)
    have hd := Rx.does_step h.rx (.onPacket m.payload nowUs alloc)
    refine ⟨h.tx, hd.good h.rx, fun k => ?_, h.numbered, h.next, h.parsed, ?_⟩
    · change ofKey k (s.carried ++ [m]) ++ ofKey k (s.flight.eraseP _) = ofKey k s.sent
      rw [← h.fifo, hsplit, ofKey_append, List.append_assoc]
    · have hs := Rx.synced_onPacket h.rx h.synced (h.parsed m hsent) (hw.short m hsent) hhdr.symm hn
        nowUs halloc
      change Synced (s.rx.onPacket m.payload nowUs alloc).cfg _ _ _
      rw [show (s.rx.onPacket m.payload nowUs alloc).cfg = s.rx.cfg from hd.cfg]
      exact hs

theorem good_step (h : s.Good) (halloc : op.Allocates) (hw : (s.step op).Within) :
    (s.step op).Good := by
  cases op with
  | send op => exact good_send h op hw
  | carry key nowUs alloc => exact good_carry h (hw.of_step h.tx) halloc
  | tick nowUs =>
    have hd := Rx.does_step h.rx (.tick nowUs)
    refine ⟨h.tx, hd.good h.rx, h.fifo, h.numbered, h.next, h.parsed, ?_⟩
    change Synced (s.rx.tick nowUs).cfg _ _ _
    rw [show (s.rx.tick nowUs).cfg = s.rx.cfg from hd.cfg]
    exact Rx.synced_tick h.rx h.synced nowUs

/-! ## Runs -/

/-- The two ends before anything was sent. -/
def new (txCfg : Config) (txSeed : UInt64) (rx : Rx) : Link := { tx := txNew txCfg txSeed, rx }

/-- The step calls the deliver callback with just the packet that it carries over,
    if any. -/
def Delivers (s : Link) (op : Op) : Prop :=
  payloads (s.step op).rx.trace = payloads s.rx.trace ++ (s.carries op).toList.map Msg.pkt

instance (s : Link) (op : Op) : Decidable (s.Delivers op) :=
  inferInstanceAs (Decidable ((_ : List Bytes) = _))

variable {txCfg rxCfg : Config} {txSeed rxSeed : UInt64} {rx : Rx}

theorem good_new (h : rxNew rxCfg rxSeed = some rx) (txCfg : Config) (txSeed : UInt64) :
    (new txCfg txSeed rx).Good := by
  obtain ⟨hflows, hshared⟩ := Rx.empty_of_rxNew h
  have htx : (txNew txCfg txSeed).flows = [] := List.flatten_replicate_nil
  refine ⟨Tx.good_txNew txCfg txSeed, Rx.good_of_rxNew h, fun _ => rfl, fun _ => rfl, fun k => ⟨?_, fun _ => rfl⟩,
    nofun, ?_⟩
  · change ∀ f ∈ (txNew txCfg txSeed).flows, _
    rw [htx]
    exact nofun
  · change Synced rx.cfg [] rx.toShared rx.flows
    rw [hflows, hshared]
    exact ⟨nofun, nofun, rfl, nofun⟩

theorem run_append (s : Link) (ops : List Op) (op : Op) : s.run (ops ++ [op]) = (s.run ops).step op := by
  rw [run, List.foldl_append]
  rfl

theorem ends_step (h : s.tx.Good ∧ s.rx.Good) (op : Op) : (s.step op).tx.Good ∧ (s.step op).rx.Good := by
  cases op with
  | send op => exact ⟨(Tx.good_step h.1 op).1, h.2⟩
  | tick nowUs => exact ⟨h.1, Rx.good_step h.2 (.tick nowUs)⟩
  | carry key nowUs alloc =>
    rw [step]
    split
    · exact ⟨h.1, Rx.good_step h.2 (.onPacket _ nowUs alloc)⟩
    · exact h

theorem ends_run (h : s.tx.Good ∧ s.rx.Good) (ops : List Op) :
    (s.run ops).tx.Good ∧ (s.run ops).rx.Good :=
  List.foldlRecOn ops step (motive := fun s => s.tx.Good ∧ s.rx.Good) h fun _ h op _ => ends_step h op

/-- The two ends stay in step along a run. -/
theorem good_run (h : s.Good) {ops : List Op} (halloc : ∀ op ∈ ops, op.Allocates)
    (hw : (s.run ops).Within) : (s.run ops).Good := by
  induction ops using List.reverseRecOn with
  | nil => exact h
  | append_singleton ops op ih =>
    rw [run_append] at hw ⊢
    have hg := ih (fun o ho => halloc o (List.mem_append_left _ ho)) (hw.of_step (ends_run ⟨h.tx, h.rx⟩ ops).1)
    exact good_step hg (halloc op (List.mem_append_right _ List.mem_cons_self)) hw

/-- What bounds a run bounds what comes before. -/
theorem Within.of_append (h : s.tx.Good ∧ s.rx.Good) {ops ops' : List Op} (hw : (s.run (ops ++ ops')).Within) :
    (s.run ops).Within := by
  induction ops' using List.reverseRecOn with
  | nil => rwa [List.append_nil] at hw
  | append_singleton ops' op ih =>
    rw [← List.append_assoc, run_append] at hw
    exact ih (hw.of_step (ends_run h _).1)

/-- Sender-to-receiver transparency: as long as the sender forgets no flow, every
    step of a run delivers what it carries over, what is carried over of a flow is
    what was sent, in order, up to what is still in flight, and no packet is ever
    buffered. -/
theorem transparency (h : rxNew rxCfg rxSeed = some rx) (txCfg : Config) (txSeed : UInt64)
    (ops : List Op) (halloc : ∀ op ∈ ops, op.Allocates)
    (hw : ((new txCfg txSeed rx).run ops).Within) :
    ∀ pre op post, ops = pre ++ op :: post →
      ((new txCfg txSeed rx).run pre).Delivers op ∧
      (∀ k, ofKey k ((new txCfg txSeed rx).run (pre ++ [op])).carried ++
          ofKey k ((new txCfg txSeed rx).run (pre ++ [op])).flight =
        ofKey k ((new txCfg txSeed rx).run (pre ++ [op])).sent) ∧
      (∀ f ∈ ((new txCfg txSeed rx).run (pre ++ [op])).rx.flows, f.buffer.count = 0) ∧
      ∀ k seq vacant spread,
        .stored k seq vacant spread ∉ ((new txCfg txSeed rx).run (pre ++ [op])).rx.trace := by
  rintro pre op post rfl
  have hnew := good_new h txCfg txSeed
  rw [List.append_cons] at halloc hw
  have hw₁ := hw.of_append ⟨hnew.tx, hnew.rx⟩
  have halloc₁ : ∀ o ∈ pre ++ [op], o.Allocates := fun o ho => halloc o (List.mem_append_left _ ho)
  have hg₁ := good_run hnew halloc₁ hw₁
  have hg := good_run hnew (fun o ho => halloc₁ o (List.mem_append_left _ ho)) (hw₁.of_append ⟨hnew.tx, hnew.rx⟩)
  refine ⟨?_, hg₁.fifo, fun f hf => (hg₁.synced.calm f hf).empty, fun k seq vacant spread he => ?_⟩
  · have hp := hg₁.synced.unbuffered.payloads
    rw [run_append, carried_step, List.map_append, ← hg.synced.unbuffered.payloads] at hp
    exact hp
  · nomatch (show true = false from hg₁.synced.unbuffered.stores _ he)

/-! ## Samples and limits -/

theorem unevicted_of_forall {trace : List TxEvent} (h : ∀ e ∈ trace, e.isEvicted = false)
    (k : FlowKey) : .evicted k ∉ trace := fun hk => nomatch (show true = false from h _ hk)

/-- Memory for everything. -/
def plenty : Alloc := ⟨true, true, true⟩

/-- A receiver of the default configuration that does not classify. -/
def burstRx : Rx := { defaultRx with cfg := { Config.default with classifyWindow := 0 }.finalize }

theorem rxNew_burst : rxNew { Config.default with classifyWindow := 0 } 0 = some burstRx := rfl

/-- Two flows, one of which overtakes the other; the receiver forgets both. -/
def sampleOps : List Op :=
  [.send Tx.sampleSend, .send Tx.sampleSend, .send ⟨udpPacket 2 28, 0, 1500, true, some 0⟩,
    .carry (udpKey 2) 5 plenty, .carry (udpKey 1) 10 plenty, .tick 40000000, .carry (udpKey 1) 40000000 plenty]

/-- A sender with room for two flows. -/
def roomyTxCfg : Config := { Config.default with mode := .on, maxFlows := 2 }

theorem within_sampleOps : ((new roomyTxCfg 0 burstRx).run sampleOps).Within := by
  have hsent : ((new roomyTxCfg 0 burstRx).run sampleOps).sent.length = 3 := by decide +kernel
  refine ⟨unevicted_of_forall (by decide +kernel), by decide +kernel, fun k => ?_⟩
  refine (List.length_filter_le ..).trans ?_
  rw [hsent]
  decide

theorem transparency_sample :
    payloads ((new roomyTxCfg 0 burstRx).run sampleOps).rx.trace =
        [udpPacket 2 28, udpPacket 1 28, udpPacket 1 28] ∧
      ((new roomyTxCfg 0 burstRx).run (sampleOps.take 6)).Delivers (.carry (udpKey 1) 40000000 plenty) :=
  ⟨by decide +kernel, (transparency rxNew_burst roomyTxCfg 0 sampleOps (by decide) within_sampleOps
    (sampleOps.take 6) (.carry (udpKey 1) 40000000 plenty) [] rfl).1⟩

theorem not_delivers (hc : s.carries op = some m)
    (hp : payloads (s.step op).rx.trace = payloads s.rx.trace) : ¬s.Delivers op := by
  rw [Delivers, hp, hc, Option.toList_some, List.map_singleton]
  exact fun heq => List.cons_ne_nil _ _ (List.self_eq_append_right.1 heq)

/-- Sending a packet of a burst and carrying it over. -/
theorem step_burst {key : FlowKey} {t n : Nat} {send : Tx.Op} (h : Steady key t n s.tx s.rx)
    (hb : Steady.Burst key t send) (hf : s.flight = []) (alloc : Alloc) :
    (s.step (.send send)).carries (.carry key t alloc) =
        some ⟨key, header s.tx.cfg.resetMarkPackets n, send.pkt⟩ ∧
      ((s.step (.send send)).step (.carry key t alloc)).tx = s.tx.step send ∧
      ((s.step (.send send)).step (.carry key t alloc)).rx = s.rx.onPacket
        (Msg.payload ⟨key, header s.tx.cfg.resetMarkPackets n, send.pkt⟩) t alloc ∧
      ((s.step (.send send)).step (.carry key t alloc)).flight = [] := by
  have hflight : (s.step (.send send)).flight = [⟨key, header s.tx.cfg.resetMarkPackets n, send.pkt⟩] := by
    change s.flight ++ (s.tx.sent send).toList = _
    rw [hf, (h.sent hb).1]
    rfl
  have hc : (s.step (.send send)).carries (.carry key t alloc) =
      some ⟨key, header s.tx.cfg.resetMarkPackets n, send.pkt⟩ := by
    rw [carries, hflight]
    simp
  rw [step_carry hc]
  refine ⟨hc, rfl, rfl, ?_⟩
  dsimp only
  rw [hflight]
  simp

/-- `n` packets of one flow, each carried over at once. -/
def burst (n : Nat) : List Op :=
  (List.replicate n [.send Tx.sampleSend, .carry (udpKey 1) 0 plenty]).flatten

theorem burst_sampleSend : Steady.Burst (udpKey 1) 0 Tx.sampleSend :=
  ⟨by decide, by decide, by decide, rfl⟩

theorem steady_burst {n : Nat} (h1 : 1 ≤ n) (hn : n ≤ 2 ^ 48) :
    Steady (udpKey 1) 0 n ((new Tx.sampleTxCfg 0 burstRx).run (burst n)).tx
        ((new Tx.sampleTxCfg 0 burstRx).run (burst n)).rx ∧
      ((new Tx.sampleTxCfg 0 burstRx).run (burst n)).flight = [] ∧
      ∀ e ∈ ((new Tx.sampleTxCfg 0 burstRx).run (burst n)).tx.trace, e.isEvicted = false := by
  induction n, h1 using Nat.le_induction with
  | base =>
    obtain ⟨htx, hrx⟩ := ends_run (s := new Tx.sampleTxCfg 0 burstRx)
      ⟨Tx.good_txNew _ _, Rx.good_of_rxNew rxNew_burst⟩ (burst 1)
    refine ⟨.of_lookup htx hrx ?_ ?_ ?_ ?_ ?_, List.length_eq_zero_iff.1 ?_, ?_⟩
    all_goals decide +kernel
  | succ n _ ih =>
    obtain ⟨h, hf, hev⟩ := ih (Nat.le_of_succ_le hn)
    have hrun : (new Tx.sampleTxCfg 0 burstRx).run (burst (n + 1)) =
        (((new Tx.sampleTxCfg 0 burstRx).run (burst n)).step (.send Tx.sampleSend)).step
          (.carry (udpKey 1) 0 plenty) := by
      rw [burst, List.replicate_succ', List.flatten_append, run, List.foldl_append]
      rfl
    rw [hrun]
    generalize (new Tx.sampleTxCfg 0 burstRx).run (burst n) = s at h hf hev
    obtain ⟨-, htx, hrx, hflight⟩ := step_burst h burst_sampleSend hf plenty
    rw [htx, hrx]
    exact ⟨h.step burst_sampleSend plenty hn, hflight, h.unevicted_step burst_sampleSend hev⟩

/-- The packet after the wrap is not delivered. -/
theorem wrap_not_delivers :
    (∀ k, .evicted k ∉ ((new Tx.sampleTxCfg 0 burstRx).run
        (burst (2 ^ 48) ++ [.send Tx.sampleSend])).tx.trace) ∧
      ¬((new Tx.sampleTxCfg 0 burstRx).run (burst (2 ^ 48) ++ [.send Tx.sampleSend])).Delivers
        (.carry (udpKey 1) 0 plenty) := by
  obtain ⟨h, hf, hev⟩ := steady_burst (n := 2 ^ 48) (by decide) le_rfl
  rw [run_append]
  generalize (new Tx.sampleTxCfg 0 burstRx).run (burst (2 ^ 48)) = s at h hf hev
  obtain ⟨hc, -, hrx, -⟩ := step_burst h burst_sampleSend hf plenty
  refine ⟨unevicted_of_forall (h.unevicted_step burst_sampleSend hev), not_delivers hc ?_⟩
  rw [hrx, rx_step_send]
  exact h.payloads_wrap burst_sampleSend plenty

/-- A sample packet with another payload. -/
def longSend (pkt : Bytes) : Tx.Op := { Tx.sampleSend with pkt, maxInnerWithoutReorder := 70000 }

/-- A packet that is too long for the receiver is not delivered. -/
theorem long_not_delivers {pkt : Bytes} (hp : parse5tuple pkt = some (udpKey 1))
    (hlen : 65535 < pkt.length) (hfit : hdrLen + pkt.length ≤ 70000) :
    (∀ k, .evicted k ∉ ((new Tx.sampleTxCfg 0 burstRx).run [.send (longSend pkt)]).tx.trace) ∧
      ¬((new Tx.sampleTxCfg 0 burstRx).run [.send (longSend pkt)]).Delivers
        (.carry (udpKey 1) 0 plenty) := by
  obtain ⟨hstep, hsent⟩ := Tx.step_congr (txNew Tx.sampleTxCfg 0) Tx.sampleSend
    (hp.trans (parse5tuple_udpPacket 1 le_rfl).symm) hfit (by decide)
  obtain ⟨m, hm, he⟩ := Option.map_eq_some_iff.1
    (show ((txNew Tx.sampleTxCfg 0).sent Tx.sampleSend).map (fun m => (m.key, m.hdr)) =
      some (udpKey 1, header 8 0) by decide +kernel)
  obtain ⟨hkey, hhdr⟩ := Prod.mk.inj he
  rw [hm] at hsent
  refine ⟨fun k => ?_, ?_⟩
  · change _ ∉ ((txNew Tx.sampleTxCfg 0).step (longSend pkt)).trace
    rw [longSend, hstep]
    exact unevicted_of_forall (by decide +kernel) k
  · have hc : ((new Tx.sampleTxCfg 0 burstRx).run [.send (longSend pkt)]).carries
        (.carry (udpKey 1) 0 plenty) = some { m with pkt } := by
      change ((txNew Tx.sampleTxCfg 0).sent (longSend pkt)).toList.find? _ = _
      rw [longSend, hsent]
      simp [hkey]
    refine not_delivers hc ?_
    rw [step_carry hc]
    dsimp only
    rw [Rx.onPacket, Rx.route_long (m := { m with pkt }) _ hhdr hlen]

/-- The limits of transparency. It fails when the sequence numbers wrap, for a
    packet over 65535 bytes, and when there is no memory for a flow; no flow was
    evicted by the sender in any of these runs. -/
theorem not_transparent :
    ((∀ k, .evicted k ∉ ((new Tx.sampleTxCfg 0 burstRx).run
        (burst (2 ^ 48) ++ [.send Tx.sampleSend])).tx.trace) ∧
      ¬((new Tx.sampleTxCfg 0 burstRx).run (burst (2 ^ 48) ++ [.send Tx.sampleSend])).Delivers
        (.carry (udpKey 1) 0 plenty)) ∧
    ((∀ k, .evicted k ∉ ((new Tx.sampleTxCfg 0 burstRx).run [.send (longSend (udpPacket 1 65536))]).tx.trace) ∧
      ¬((new Tx.sampleTxCfg 0 burstRx).run [.send (longSend (udpPacket 1 65536))]).Delivers
        (.carry (udpKey 1) 0 plenty)) ∧
    ((∀ k, .evicted k ∉ ((new Tx.sampleTxCfg 0 burstRx).run [.send Tx.sampleSend]).tx.trace) ∧
      ¬((new Tx.sampleTxCfg 0 burstRx).run [.send Tx.sampleSend]).Delivers
        (.carry (udpKey 1) 0 ⟨false, true, true⟩)) := by
  have hlen : (udpPacket 1 65536).length = 65536 := length_udpPacket 1 (by decide)
  refine ⟨wrap_not_delivers, long_not_delivers (parse5tuple_udpPacket 1 (by decide)) ?_ ?_,
    unevicted_of_forall (by decide +kernel), by decide +kernel⟩
  · rw [hlen]
    decide
  · rw [hlen]
    decide

end Link

end Mqvpn.Reorder
