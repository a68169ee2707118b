import Mqvpn.Reorder.Packet

/-!
# The reorder configuration

`validate` is what both constructors' callers rely on and what the receiver's
constructor checks; `finalize` resolves the wait and the cap of every rule, and
`matchRule` picks the rule of a flow. Whatever the rules say, the cap that a
flow of a valid configuration gets is a power of two
(`Config.isPowerOfTwo_flowCap`): the ring indexes by masking.

The integer fields are natural numbers: no arithmetic on them overflows the
widths they have in the source.
-/

namespace Mqvpn.Reorder

/-- `mqvpn_reorder_mode_t` -/
inductive Mode
  | off
  | on
  deriving DecidableEq

/-- `mqvpn_reorder_profile_t` -/
inductive Profile
  | quicBulk
  | lowLatency
  | defaultUdp
  | cellularBond
  | fiberLte
  deriving DecidableEq

/-- `mqvpn_reorder_rule_t` -/
structure Rule where
  proto : UInt8
  port : UInt16
  profile : Profile
  explicitWaitMs : Nat
  explicitCap : Nat
  resolvedWaitMs : Nat
  resolvedCap : Nat

/-- `mqvpn_reorder_config_t`; `rules` is the array cut to `n_rules`. -/
structure Config where
  mode : Mode
  maxWaitMs : Nat
  capPacketsPerFlow : Nat
  maxBufferBytesPerFlow : Nat
  classifyWindow : Nat
  ackDemoteMaxLargePackets : Nat
  smallPacketThresholdBytes : Nat
  resetMarkPackets : Nat
  resetIdleGraceMs : Nat
  maxFlows : Nat
  globalMaxBufferBytes : Nat
  ingressIdleTimeoutSec : Nat
  egressIdleTimeoutSec : Nat
  evalForceNoDemotion : Bool
  hasExplicitWait : Bool
  hasExplicitCap : Bool
  rules : List Rule

namespace Config

/-- `mqvpn_reorder_config_default` -/
def default : Config where
  mode := .off
  maxWaitMs := 30
  capPacketsPerFlow := 1024
  maxBufferBytesPerFlow := 1572864
  classifyWindow := 64
  ackDemoteMaxLargePackets := 3
  smallPacketThresholdBytes := 200
  resetMarkPackets := 8
  resetIdleGraceMs := 10000
  maxFlows := 65536
  globalMaxBufferBytes := 67108864
  ingressIdleTimeoutSec := 30
  egressIdleTimeoutSec := 300
  evalForceNoDemotion := false
  hasExplicitWait := false
  hasExplicitCap := false
  rules := []

/-- `mqvpn_reorder_profile_preset`: the `(wait_ms, cap)` of a profile. -/
def profilePreset : Profile → Option (Nat × Nat)
  | .quicBulk | .cellularBond => some (50, 1024)
  | .fiberLte => some (50, 2048)
  | .lowLatency | .defaultUdp => none

/-- `mqvpn_reorder_match_rule` -/
def matchRule (cfg : Config) (key : FlowKey) : Option Rule :=
  cfg.rules.find? fun r => r.proto = key.proto ∧ (r.port = key.srcPort ∨ r.port = key.dstPort)

/-- `mqvpn_reorder_cap_is_valid` -/
def capIsValid (cap : Nat) : Bool := cap ≠ 0 ∧ cap &&& (cap - 1) = 0

/-- `mqvpn_reorder_config_validate` -/
def validate (cfg : Config) : Bool :=
  cfg.ingressIdleTimeoutSec < cfg.egressIdleTimeoutSec ∧ capIsValid cfg.capPacketsPerFlow

/-- The `resolved_wait_ms` that `mqvpn_reorder_config_finalize` gives a rule. -/
def resolveWaitMs (cfg : Config) (r : Rule) : Nat :=
  if r.profile = .defaultUdp then 0
  else if r.explicitWaitMs ≠ 0 then r.explicitWaitMs
  else if cfg.hasExplicitWait then cfg.maxWaitMs
  else match profilePreset r.profile with
    | some (pw, _) => pw
    | none => cfg.maxWaitMs

/-- The `resolved_cap` that `mqvpn_reorder_config_finalize` gives a rule. -/
def resolveCap (cfg : Config) (r : Rule) : Nat :=
  let rcap := if capIsValid r.explicitCap then r.explicitCap else 0
  let cap :=
    if rcap ≠ 0 then rcap
    else if cfg.hasExplicitCap then cfg.capPacketsPerFlow
    else match profilePreset r.profile with
      | some (_, pc) => pc
      | none => cfg.capPacketsPerFlow
  if capIsValid cap then cap else 1024

/-- `mqvpn_reorder_config_finalize` -/
def finalize (cfg : Config) : Config :=
  { cfg with rules := cfg.rules.map fun r =>
      { r with resolvedWaitMs := cfg.resolveWaitMs r, resolvedCap := cfg.resolveCap r } }

/-- The ring cap of a flow: its rule's, or the global one. -/
def flowCap (cfg : Config) (key : FlowKey) : Nat :=
  match cfg.matchRule key with
  | some r => r.resolvedCap
  | none => cfg.capPacketsPerFlow

/-- The gap wait of a flow: its rule's, or the global one. -/
def flowWaitMs (cfg : Config) (key : FlowKey) : Nat :=
  match cfg.matchRule key with
  | some r => r.resolvedWaitMs
  | none => cfg.maxWaitMs

/-! ## Caps are powers of two -/

theorem isPowerOfTwo_of_capIsValid {cap : Nat} (h : capIsValid cap = true) : cap.isPowerOfTwo :=
  Nat.ne_zero_and_sub_one_eq_zero_iff_isPowerOfTwo.1 (by simpa [capIsValid] using h)

/-- The last clamp of `finalize` leaves no other case. -/
theorem isPowerOfTwo_clamp (cap : Nat) :
    (if capIsValid cap then cap else 1024).isPowerOfTwo := by
  split_ifs with h
  · exact isPowerOfTwo_of_capIsValid h
  · exact ⟨10, rfl⟩

theorem isPowerOfTwo_resolveCap (cfg : Config) (r : Rule) : (cfg.resolveCap r).isPowerOfTwo :=
  isPowerOfTwo_clamp _

/-- Every flow of an accepted configuration gets a power of two as its cap. -/
theorem isPowerOfTwo_flowCap {cfg : Config} (h : cfg.validate = true) (key : FlowKey) :
    (cfg.finalize.flowCap key).isPowerOfTwo := by
  unfold flowCap
  split
  · rename_i r hr
    obtain ⟨r', -, rfl⟩ := List.mem_map.1 (List.mem_of_find?_eq_some hr)
    exact isPowerOfTwo_resolveCap cfg r'
  · have : capIsValid cfg.capPacketsPerFlow = true := by
      simp only [validate, decide_eq_true_eq] at h
      exact h.2
    exact isPowerOfTwo_of_capIsValid this

end Config

end Mqvpn.Reorder
