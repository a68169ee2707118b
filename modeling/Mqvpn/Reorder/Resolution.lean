import Mqvpn.Reorder.Grace

/-!
# The resolution of rules

`finalize` gives every rule a wait and a cap. Each is the first of its tiers that
is set: what the rule says, what the configuration says explicitly, the preset of
the profile, and the builtin value (`Config.effectiveWaitMs`, `Config.effectiveCap`);
a `default_udp` rule never waits.

The packet path consults the rules twice, once to pass a packet through and once
to create its flow. Both lookups find the same rule, so every flow has the wait
and the cap of the rule that let its first packet in (`Flow.Resolved`), and keeps
them for as long as it lives.
-/

namespace Mqvpn.Reorder

/-! ## The precedence -/

/-- The first tier that is set, or the builtin value. -/
def firstSet (tiers : List (Option Nat)) (builtin : Nat) : Nat := tiers.reduceOption.headD builtin

@[simp]
theorem firstSet_nil (builtin : Nat) : firstSet [] builtin = builtin := rfl

@[simp]
theorem firstSet_none (tiers : List (Option Nat)) (builtin : Nat) :
    firstSet (none :: tiers) builtin = firstSet tiers builtin := by
  simp [firstSet]

@[simp]
theorem firstSet_some (n : Nat) (tiers : List (Option Nat)) (builtin : Nat) :
    firstSet (some n :: tiers) builtin = n := by
  simp [firstSet]

/-- The wait that a rule asks for. -/
def Rule.ownWaitMs (r : Rule) : Option Nat := if r.explicitWaitMs = 0 then none else some r.explicitWaitMs

/-- The cap that a rule asks for, if the ring can have it. -/
def Rule.ownCap (r : Rule) : Option Nat :=
  if Config.capIsValid r.explicitCap then some r.explicitCap else none

namespace Config

/-- The wait that the configuration asks for. -/
def ownWaitMs (cfg : Config) : Option Nat := if cfg.hasExplicitWait then some cfg.maxWaitMs else none

/-- The cap that the configuration asks for. -/
def ownCap (cfg : Config) : Option Nat :=
  if cfg.hasExplicitCap then some cfg.capPacketsPerFlow else none

/-- The tiers of the wait of a rule. -/
def waitTiers (cfg : Config) (r : Rule) : List (Option Nat) :=
  [r.ownWaitMs, cfg.ownWaitMs, (profilePreset r.profile).map Prod.fst]

/-- The tiers of the cap of a rule. -/
def capTiers (cfg : Config) (r : Rule) : List (Option Nat) :=
  [r.ownCap, cfg.ownCap, (profilePreset r.profile).map Prod.snd]

/-- The documented wait of a rule, for a builtin wait. -/
def effectiveWaitMs (cfg : Config) (r : Rule) (builtin : Nat) : Nat :=
  if r.profile = .defaultUdp then 0 else firstSet (cfg.waitTiers r) builtin

/-- The documented cap of a rule, for a builtin cap. -/
def effectiveCap (cfg : Config) (r : Rule) (builtin : Nat) : Nat := firstSet (cfg.capTiers r) builtin

variable {cfg : Config} {r : Rule}

/-- The wait that `finalize` gives a rule. The builtin wait stands in the field of
    the global one. -/
theorem resolveWaitMs_eq (cfg : Config) (r : Rule) :
    cfg.resolveWaitMs r = cfg.effectiveWaitMs r cfg.maxWaitMs := by
  rw [resolveWaitMs, effectiveWaitMs]
  by_cases hoff : r.profile = .defaultUdp
  · rw [if_pos hoff, if_pos hoff]
  · rw [if_neg hoff, if_neg hoff, waitTiers, Rule.ownWaitMs, ownWaitMs]
    by_cases hown : r.explicitWaitMs = 0
    · cases cfg.hasExplicitWait <;> cases profilePreset r.profile <;> simp [hown]
    · simp [hown]

theorem capIsValid_of_preset {preset : Nat × Nat} {profile : Profile}
    (h : profilePreset profile = some preset) : capIsValid preset.2 = true := by
  cases profile <;> simp only [profilePreset, Option.some.injEq, reduceCtorEq] at h
  all_goals rw [← h]; decide

/-- The cap that `finalize` gives a rule. Every tier is a valid cap, so the last
    clamp changes nothing. -/
theorem resolveCap_eq (hcap : capIsValid cfg.capPacketsPerFlow = true) (r : Rule) :
    cfg.resolveCap r = cfg.effectiveCap r cfg.capPacketsPerFlow := by
  rw [resolveCap, effectiveCap, capTiers, Rule.ownCap, ownCap]
  by_cases hown : capIsValid r.explicitCap = true
  · have hne : r.explicitCap ≠ 0 := by
      rintro h0
      rw [h0] at hown
      exact absurd hown (by decide)
    simp [hown, hne]
  · cases hp : profilePreset r.profile with
    | none => cases cfg.hasExplicitCap <;> simp [hown, hcap]
    | some preset =>
      have hvalid : capIsValid preset.2 = true := capIsValid_of_preset hp
      cases cfg.hasExplicitCap <;> simp [hown, hcap, hvalid]

/-- If the field of the global value holds the builtin one unless it was set, the
    last tier is the builtin value. -/
theorem effectiveWaitMs_builtin {builtin : Nat} (h : cfg.hasExplicitWait = false → cfg.maxWaitMs = builtin)
    (r : Rule) : cfg.effectiveWaitMs r cfg.maxWaitMs = cfg.effectiveWaitMs r builtin := by
  rw [effectiveWaitMs, effectiveWaitMs, waitTiers, ownWaitMs]
  cases hset : cfg.hasExplicitWait with
  | false => rw [h hset]
  | true => cases r.ownWaitMs <;> simp

theorem effectiveCap_builtin {builtin : Nat}
    (h : cfg.hasExplicitCap = false → cfg.capPacketsPerFlow = builtin) (r : Rule) :
    cfg.effectiveCap r cfg.capPacketsPerFlow = cfg.effectiveCap r builtin := by
  rw [effectiveCap, effectiveCap, capTiers, ownCap]
  cases hset : cfg.hasExplicitCap with
  | false => rw [h hset]
  | true => cases r.ownCap <;> simp

/-- Nothing that `finalize` reads is what it writes. -/
theorem finalize_finalize (cfg : Config) : cfg.finalize.finalize = cfg.finalize := by
  simp only [finalize, List.map_map]
  rfl

end Config

/-! ## The wait of a flow is fixed -/

namespace View

@[simp]
theorem waitMs_drainContiguous (v : View) (nowUs : Nat) :
    (v.drainContiguous nowUs).flow.waitMs = v.flow.waitMs :=
  congrArg Timing.waitMs (timing_drainContiguous v nowUs)

@[simp]
theorem waitMs_skipToLowestAndDrain (v : View) (nowUs : Nat) :
    (v.skipToLowestAndDrain nowUs).flow.waitMs = v.flow.waitMs :=
  congrArg Timing.waitMs (timing_skipToLowestAndDrain v nowUs)

@[simp]
theorem waitMs_demoteLoop (nowUs fuel : Nat) (v : View) :
    (demoteLoop nowUs fuel v).flow.waitMs = v.flow.waitMs :=
  congrArg Timing.waitMs (timing_demoteLoop nowUs fuel v)

theorem waitMs_onGapTimeout (v : View) (nowUs : Nat) :
    (v.onGapTimeout nowUs).flow.waitMs = v.flow.waitMs := by
  rw [onGapTimeout]
  split_ifs
  · rfl
  · dsimp only
    split_ifs <;> exact waitMs_skipToLowestAndDrain _ nowUs

end View

theorem Move.waitMs {cfg : Config} {p : Arrival} {b b' : Bool} {v v' : View}
    (hm : Move cfg p b v b' v') : v'.flow.waitMs = v.flow.waitMs := by
  cases hm with
  | reset _ =>
    change v.discardBufferForReset.flow.waitMs = _
    rw [View.discardBufferForReset]
    dsimp only [Flow.stopGapTimer]
    split_ifs <;> rfl
  | passThrough _ => rfl
  | coldStart _ _ => rfl
  | inOrder _ _ =>
    rw [View.deliverInOrder]
    dsimp only
    split_ifs <;> exact View.waitMs_drainContiguous (v.accept p) p.nowUs
  | late _ _ => rfl
  | drop d _ _ => rfl
  | flush _ _ _ _ =>
    rw [View.overflowFlush]
    dsimp only
    split_ifs <;> exact View.waitMs_skipToLowestAndDrain v p.nowUs
  | insert _ _ _ _ _ _ =>
    rw [View.inserted]
    dsimp only
    split_ifs <;> rfl
  | classify _ _ _ => rfl
  | demote =>
    rw [View.demote, View.flushBufferForDemote]
    dsimp only
    split_ifs <;> exact View.waitMs_demoteLoop ..

theorem Moves.waitMs {cfg : Config} {p : Arrival} {b b' : Bool} {v v' : View}
    (hm : Moves cfg p b v b' v') : v'.flow.waitMs = v.flow.waitMs := by
  induction hm with
  | refl => rfl
  | head hm _ ih => exact ih.trans hm.waitMs

/-! ## Flows have the values of their rule -/

/-- The wait and the cap of the rule that decides about a flow. -/
def Config.decision (cfg : Config) (key : FlowKey) : Nat × Nat :=
  match cfg.matchRule key with
  | some r => (r.resolvedWaitMs, r.resolvedCap)
  | none => (cfg.maxWaitMs, cfg.capPacketsPerFlow)

/-- Both lookups of the packet path come to one decision. -/
theorem Config.decision_eq (cfg : Config) (key : FlowKey) :
    cfg.decision key = (cfg.flowWaitMs key, cfg.flowCap key) := by
  rw [decision, flowWaitMs, flowCap]
  cases cfg.matchRule key <;> rfl

/-- The flow waits, and has the wait and the cap of its rule. -/
structure Flow.Resolved (cfg : Config) (f : Flow) : Prop where
  wait : f.waitMs = cfg.flowWaitMs f.key
  cap : f.buffer.cap = cfg.flowCap f.key
  waits : f.waitMs ≠ 0

/-- A flow of the same key, cap and wait. -/
theorem Flow.Resolved.congr {cfg : Config} {f f' : Flow} (h : f.Resolved cfg) (hk : f'.key = f.key)
    (hc : f'.buffer.cap = f.buffer.cap) (hw : f'.waitMs = f.waitMs) : f'.Resolved cfg := by
  refine ⟨?_, ?_, ?_⟩
  · rw [hw, hk, h.wait]
  · rw [hc, hk, h.cap]
  · rw [hw]
    exact h.waits

theorem View.resolved_onReordered {cfg cfg' : Config} {v : View} (hr : Ready cfg [] v)
    (h : v.flow.Resolved cfg') (p : Arrival) : (v.onReordered cfg p).flow.Resolved cfg' :=
  have hf := (ready_onReordered hr p).2
  h.congr hf.key hf.cap (moves_onReordered v cfg p).waitMs

theorem View.resolved_onGapTimeout {cfg cfg' : Config} {v : View} (hr : Ready cfg [] v)
    (h : v.flow.Resolved cfg') (nowUs : Nat) : (v.onGapTimeout nowUs).flow.Resolved cfg' :=
  have hf := (ready_onGapTimeout nowUs hr).2
  h.congr hf.key hf.cap (waitMs_onGapTimeout v nowUs)

/-- A flow is created for a key that waits. -/
def Act.Waits (cfg : Config) : Act → Prop
  | .create key => cfg.flowWaitMs key ≠ 0
  | _ => True

/-- Whatever happens, the flows keep the values of their rules. -/
theorem Change.resolved {cfg : Config} {a : Act} {s s' : Shared} {l l' : List Flow}
    (hc : Change cfg a s l s' l') (ha : a.Waits cfg) (hinv : Inv cfg s l)
    (h : ∀ f ∈ l, f.Resolved cfg) : ∀ f ∈ l', f.Resolved cfg := by
  cases hc with
  | @packet _ l r f p =>
    intro g hg
    rcases Chains.mem_focus.1 hg with rfl | hg
    · exact View.resolved_onReordered hinv.ready_focus (h f (Chains.mem_focus.2 (.inl rfl))) p
    · exact h g (Chains.mem_focus.2 (.inr hg))
  | @timeout _ l r f nowUs _ =>
    intro g hg
    rcases Chains.mem_focus.1 hg with rfl | hg
    · exact View.resolved_onGapTimeout hinv.ready_focus (h f (Chains.mem_focus.2 (.inl rfl))) nowUs
    · exact h g (Chains.mem_focus.2 (.inr hg))
  | evict => exact fun g hg => h g (Chains.mem_focus.2 (.inr hg))
  | @create _ l r key _ =>
    intro g hg
    rcases Chains.mem_focus.1 hg with rfl | hg
    · exact ⟨rfl, rfl, ha⟩
    · exact h g hg
  | bypass _ => exact h

namespace Rx

variable {rx : Rx}

/-- A packet that reaches a flow is one of a key that waits. -/
theorem route_flow {payload : Bytes} {key : FlowKey} {seq : Nat} {flags : UInt8} {inner : Bytes}
    (h : rx.route payload = .flow key seq flags inner) : rx.cfg.flowWaitMs key ≠ 0 := by
  intro hw
  rw [route] at h
  cases hd : wireDecode payload with
  | none => simp [hd] at h
  | some d =>
    obtain ⟨type, flags', seq'⟩ := d
    rw [hd] at h
    dsimp only at h
    split_ifs at h
    cases hp : parse5tuple (payload.drop hdrLen) with
    | none => simp [hp] at h
    | some key' =>
      rw [hp] at h
      dsimp only at h
      split_ifs at h with hw'
      obtain ⟨rfl, -⟩ := Route.flow.inj h
      exact hw' hw

/-- A packet of one UDP flow whose rule does not wait is passed through. -/
theorem route_bypass {payload : Bytes} {key : FlowKey} {seq : Nat} {flags : UInt8}
    (hd : wireDecode payload = some (typeV1, flags, seq))
    (hlen : (payload.drop hdrLen).length ≤ 65535)
    (hp : parse5tuple (payload.drop hdrLen) = some key) (hw : rx.cfg.flowWaitMs key = 0) :
    rx.route payload = .bypass (payload.drop hdrLen) := by
  have hne : (payload.drop hdrLen).length ≠ 0 := by
    intro h0
    have hnone : parse5tuple [] = none := by decide
    rw [List.length_eq_zero_iff.1 h0, hnone] at hp
    exact absurd hp.symm (Option.some_ne_none key)
  rw [route, hd]
  dsimp only
  rw [if_neg (by simp), if_neg (by omega), hp]
  split_ifs with hall
  · rfl
  · dsimp only
    rw [if_pos hw]

theorem waits_acts (rx : Rx) (op : Op) : ∀ a ∈ rx.acts op, a.Waits rx.cfg := by
  intro a ha
  cases op with
  | tick nowUs =>
    rcases List.mem_append.1 ha with ha | ha
    · obtain ⟨f, -, rfl⟩ := List.mem_map.1 ha
      trivial
    · obtain ⟨f, -, rfl⟩ := List.mem_map.1 ha
      trivial
  | onPacket payload nowUs alloc =>
    rw [acts] at ha
    cases hr : rx.route payload with
    | ignore =>
      rw [hr] at ha
      exact absurd ha List.not_mem_nil
    | bypass inner =>
      rw [hr] at ha
      rw [List.mem_singleton.1 ha]
      trivial
    | flow key seq flags inner =>
      rw [hr] at ha
      obtain ⟨pre, hpre, hacts⟩ := flowActs_eq rx key ⟨seq, flags, inner, nowUs, alloc⟩
      have hmem : a ∈ pre ∨ ∃ f p, a = .packet f p := by
        dsimp only at ha
        obtain ⟨-, heq⟩ | ⟨f, -, heq⟩ := hacts
        · rw [heq] at ha
          exact .inl ha
        · rw [heq] at ha
          exact (List.mem_append.1 ha).imp_right fun ha => ⟨f, _, List.mem_singleton.1 ha⟩
      obtain ha | ⟨f, p, rfl⟩ := hmem
      · obtain ⟨f, rfl⟩ | rfl := hpre a ha
        · trivial
        · exact route_flow hr
      · trivial

theorem resolved_step (hg : rx.Good) (h : ∀ f ∈ rx.flows, f.Resolved rx.cfg) (op : Op) :
    ∀ f ∈ (rx.step op).flows, f.Resolved rx.cfg := by
  refine ((does_step hg op).changes.keeps
    (P := fun s l => Inv rx.cfg s l ∧ ∀ f ∈ l, f.Resolved rx.cfg) ?_ ⟨hg.inv, h⟩).2
  rintro a ha s l s' l' hc ⟨hinv, hl⟩
  exact ⟨hc.inv hg.caps hinv, hc.resolved (waits_acts rx op a ha) hinv hl⟩

/-- In every state that a run reaches, the flows have the values of their rules. -/
theorem resolved_run {cfg : Config} {seed : UInt64} (h : rxNew cfg seed = some rx) (ops : List Op) :
    ∀ f ∈ (rx.run ops).flows, f.Resolved cfg.finalize := by
  have hg := good_of_rxNew h
  refine (List.foldlRecOn ops step (motive := fun rx' => rx'.Good ∧ rx'.cfg = cfg.finalize ∧
    ∀ f ∈ rx'.flows, f.Resolved cfg.finalize) ⟨hg, cfg_of_rxNew h, ?_⟩ ?_).2.2
  · rw [(empty_of_rxNew h).1]
    exact fun f hf => absurd hf List.not_mem_nil
  · rintro rx' ⟨hg, hc, hl⟩ op -
    rw [← hc] at hl ⊢
    exact ⟨good_step hg op, (does_step hg op).cfg, resolved_step hg hl op⟩

/-! ## The resolution of rules -/

/-- `finalize` is idempotent and gives every rule the documented wait and cap.
    Every flow that the receiver ever creates waits, and has the wait and the cap,
    a power of two, of the rule that decided not to pass its packets through; and
    a packet whose rule does not wait is delivered at once, and nothing else
    happens. -/
theorem rules_resolved {cfg : Config} (h : cfg.validate = true) (seed : UInt64) :
    cfg.finalize.finalize = cfg.finalize ∧
    cfg.finalize = { cfg with rules := cfg.rules.map fun r => { r with
      resolvedWaitMs := cfg.effectiveWaitMs r cfg.maxWaitMs
      resolvedCap := cfg.effectiveCap r cfg.capPacketsPerFlow } } ∧
    ((cfg.hasExplicitWait = false → cfg.maxWaitMs = Config.default.maxWaitMs) →
      ∀ r, cfg.effectiveWaitMs r cfg.maxWaitMs = cfg.effectiveWaitMs r 30) ∧
    ((cfg.hasExplicitCap = false → cfg.capPacketsPerFlow = Config.default.capPacketsPerFlow) →
      ∀ r, cfg.effectiveCap r cfg.capPacketsPerFlow = cfg.effectiveCap r 1024) ∧
    ∃ rx, rxNew cfg seed = some rx ∧ ∀ ops : List Op,
      (∀ f ∈ (rx.run ops).flows,
        0 < f.waitMs ∧ f.buffer.cap ≠ 0 ∧ f.buffer.cap.isPowerOfTwo ∧
        (f.waitMs, f.buffer.cap) = cfg.finalize.decision f.key) ∧
      (∀ payload key seq flags inner, (rx.run ops).route payload = .flow key seq flags inner →
        (cfg.finalize.decision key).1 ≠ 0) ∧
      ∀ payload key seq flags nowUs alloc,
        wireDecode payload = some (typeV1, flags, seq) →
        (payload.drop hdrLen).length ≤ 65535 →
        parse5tuple (payload.drop hdrLen) = some key →
        (cfg.finalize.decision key).1 = 0 →
        (rx.run ops).onPacket payload nowUs alloc =
          { rx.run ops with trace := (rx.run ops).trace ++ [.bypassed (payload.drop hdrLen)] } := by
  have hcap : Config.capIsValid cfg.capPacketsPerFlow = true := by
    simp only [Config.validate, decide_eq_true_eq] at h
    exact h.2
  have hrules : cfg.finalize = { cfg with rules := cfg.rules.map fun r => { r with
      resolvedWaitMs := cfg.effectiveWaitMs r cfg.maxWaitMs
      resolvedCap := cfg.effectiveCap r cfg.capPacketsPerFlow } } := by
    rw [Config.finalize]
    congr 2
    funext r
    rw [Config.resolveWaitMs_eq, Config.resolveCap_eq hcap]
  obtain ⟨rx, hrx⟩ : ∃ rx, rxNew cfg seed = some rx := ⟨_, if_pos h⟩
  refine ⟨cfg.finalize_finalize, hrules, Config.effectiveWaitMs_builtin, Config.effectiveCap_builtin,
    rx, hrx, fun ops => ?_⟩
  have hcfg : (rx.run ops).cfg = cfg.finalize := (cfg_run (good_of_rxNew hrx) ops).trans (cfg_of_rxNew hrx)
  refine ⟨fun f hf => ?_, fun payload key seq flags inner hr => ?_, ?_⟩
  · have hres := resolved_run hrx ops f hf
    have hp : f.buffer.cap.isPowerOfTwo := hres.cap ▸ Config.isPowerOfTwo_flowCap h f.key
    refine ⟨Nat.pos_of_ne_zero hres.waits, (Nat.pos_of_isPowerOfTwo hp).ne', hp, ?_⟩
    rw [Config.decision_eq, ← hres.wait, ← hres.cap]
  · rw [Config.decision_eq, ← hcfg]
    exact route_flow hr
  · intro payload key seq flags nowUs alloc hd hlen hp hw
    rw [Config.decision_eq, ← hcfg] at hw
    rw [onPacket, route_bypass hd hlen hp hw]
    rfl

/-- A configuration of one rule that waits and one that does not. -/
def twoRules : Config :=
  { Config.default with rules :=
      [⟨17, 443, .fiberLte, 0, 3, 0, 0⟩, ⟨17, 53, .defaultUdp, 40, 0, 0, 0⟩] }

/-- The cap 3 of the first rule counts as unset, and the wait 40 of the second one
    does not turn it on. -/
theorem rules_resolved_sample :
    twoRules.finalize.rules.map (fun r => (r.resolvedWaitMs, r.resolvedCap)) =
        [(50, 2048), (0, 1024)] ∧
      ∃ rx, rxNew twoRules 0 = some rx ∧ ∀ ops : List Op, ∀ f ∈ (rx.run ops).flows, 0 < f.waitMs := by
  have hvalid : twoRules.validate = true := by decide
  obtain ⟨-, -, -, -, rx, hrx, hall⟩ := rules_resolved hvalid 0
  exact ⟨by decide, rx, hrx, fun ops f hf => ((hall ops).1 f hf).1⟩

end Rx

end Mqvpn.Reorder
