import Mqvpn.ConfigFile.Agreement
import Mqvpn.Lib.FirstMatch
import Mqvpn.Reorder.Tx

/-!
# Rules without a port

The reorder rules of a configuration file, as the two ends of the shim apply them. A loader leaves
the port of a rule at 0 until it reads one, which is meant to match every port. Both ends look a
rule up with `matchRule`, for which 0 is a port like any other: a rule without a port governs no
flow, unless a port of the flow is 0 (`governs_intended_iff`).
-/

namespace Mqvpn.ConfigFile

open Reorder

/-- The member `reorder` of a configuration, as `mqvpn_config_apply_reorder` passes it on. -/
def FileConfig.reorder (c : FileConfig) : Config where
  mode := c.reorderMode
  maxWaitMs := c.nat .maxWaitMs
  capPacketsPerFlow := c.nat .capPacketsPerFlow
  maxBufferBytesPerFlow := c.nat .maxBufferBytesPerFlow
  classifyWindow := c.nat .classifyWindow
  ackDemoteMaxLargePackets := c.nat .ackDemoteMaxLargePackets
  smallPacketThresholdBytes := c.nat .smallPacketThresholdBytes
  resetMarkPackets := c.nat .resetMarkPackets
  resetIdleGraceMs := c.nat .resetIdleGraceMs
  maxFlows := c.nat .maxFlows
  globalMaxBufferBytes := c.nat .globalMaxBufferBytes
  ingressIdleTimeoutSec := c.nat .ingressIdleTimeoutSec
  egressIdleTimeoutSec := c.nat .egressIdleTimeoutSec
  evalForceNoDemotion := false
  hasExplicitWait := c.hasExplicitWait
  hasExplicitCap := c.hasExplicitCap
  rules := c.rules

/-! ## The rule of a flow -/

/-- The rule has the protocol of the flow, and one of its ports. -/
def names (key : FlowKey) (r : Rule) : Bool := r.proto = key.proto ∧ (r.port = key.srcPort ∨ r.port = key.dstPort)

/-- The rule is meant for the flow: it names it, or it has no port. -/
def meant (key : FlowKey) (r : Rule) : Bool :=
  r.proto = key.proto ∧ (r.port = 0 ∨ r.port = key.srcPort ∨ r.port = key.dstPort)

/-- The rule that a flow is meant to have. -/
def intendedRule (cfg : Config) (key : FlowKey) : Option Rule := cfg.rules.find? (meant key)

/-- What `compute_eligible` makes of a rule. -/
def eligibleBy (cfg : Config) : Option Rule → Bool
  | none => cfg.rules.length = 0 ∧ cfg.mode ≠ .off
  | some r => (Config.profilePreset r.profile).isSome

/-- The wait and the cap that the receiver has from a rule. -/
def limitsBy (cfg : Config) : Option Rule → Nat × Nat
  | none => (cfg.maxWaitMs, cfg.capPacketsPerFlow)
  | some r => (cfg.resolveWaitMs r, cfg.resolveCap r)

/-- The rule governs the flow at both ends. -/
structure Governs (cfg : Config) (key : FlowKey) (r : Option Rule) : Prop where
  found : cfg.matchRule key = r
  sender : computeEligible cfg key = eligibleBy cfg r
  receiver : (cfg.finalize.flowWaitMs key, cfg.finalize.flowCap key) = limitsBy cfg r

variable {cfg : Config} {key : FlowKey}

theorem matchRule_finalize (cfg : Config) (key : FlowKey) :
    cfg.finalize.matchRule key = (cfg.matchRule key).map fun r =>
      { r with resolvedWaitMs := cfg.resolveWaitMs r, resolvedCap := cfg.resolveCap r } :=
  List.find?_map ..

/-- Both ends go by the rule that `matchRule` finds. -/
theorem governs_matchRule (cfg : Config) (key : FlowKey) : Governs cfg key (cfg.matchRule key) where
  found := rfl
  sender := by
    rw [computeEligible]
    cases cfg.matchRule key <;> rfl
  receiver := by
    rw [Config.flowWaitMs, Config.flowCap, matchRule_finalize]
    cases cfg.matchRule key <;> rfl

theorem governs_iff {r : Option Rule} : Governs cfg key r ↔ cfg.matchRule key = r := by
  refine ⟨fun h => h.found, ?_⟩
  rintro rfl
  exact governs_matchRule cfg key

/-- A rule without a port, for the protocol of the flow, comes before every rule that names the
    flow. -/
def PortlessFirst (cfg : Config) (key : FlowKey) : Prop :=
  ∃ l r l', cfg.rules = l ++ r :: l' ∧ r.proto = key.proto ∧ r.port = 0 ∧ names key r = false ∧
    ∀ x ∈ l, names key x = false

/-- A flow has the rule that it is meant to have, unless a rule without a port should govern it. -/
theorem governs_intended_iff (cfg : Config) (key : FlowKey) :
    Governs cfg key (intendedRule cfg key) ↔ ¬PortlessFirst cfg key := by
  have hwider (r : Rule) (h : names key r = true) : meant key r = true := by
    obtain ⟨hproto, hport⟩ := of_decide_eq_true h
    exact decide_eq_true ⟨hproto, .inr hport⟩
  have hrule (r : Rule) : meant key r = true ∧ names key r = false ↔
      r.proto = key.proto ∧ r.port = 0 ∧ names key r = false := by
    refine ⟨fun ⟨hmeant, hnot⟩ => ?_, fun ⟨hproto, hport, hnot⟩ => ⟨decide_eq_true ⟨hproto, .inl hport⟩, hnot⟩⟩
    obtain ⟨hproto, hport⟩ := of_decide_eq_true hmeant
    exact ⟨hproto, hport.resolve_right fun hnamed => of_decide_eq_false hnot ⟨hproto, hnamed⟩, hnot⟩
  have hfirst := FirstMatch.find?_eq_find?_iff hwider cfg.rules
  rw [governs_iff, PortlessFirst]
  refine hfirst.trans (not_congr ?_)
  constructor
  · rintro ⟨l, r, l', heq, hmeant, hnot, hl⟩
    obtain ⟨hproto, hport, -⟩ := (hrule r).1 ⟨hmeant, hnot⟩
    exact ⟨l, r, l', heq, hproto, hport, hnot, hl⟩
  · rintro ⟨l, r, l', heq, hproto, hport, hnot, hl⟩
    exact ⟨l, r, l', heq, ((hrule r).2 ⟨hproto, hport, hnot⟩).1, hnot, hl⟩

/-- A file with one rule, without a port. -/
def portlessFile : Assignment where
  value _ := none
  shared _ h := Bool.noConfusion h
  dns := none
  paths := none
  backupPaths := none
  rules := some [⟨none, none, none, none, none⟩]
  egressAllow := none
  egressDeny := none

/-- The rule of the file should govern every flow of UDP, and governs none. -/
theorem not_governs_intended :
    ¬∀ text key, key.proto = 17 →
      Governs (configLoad defaults text).1.reorder key (intendedRule (configLoad defaults text).1.reorder key) := by
  intro h
  have hloaded : (configLoad defaults portlessFile.ini).1.reorder.rules = [newRule] := by
    rw [portlessFile.configLoad_ini]
    rfl
  have hfound := (h portlessFile.ini (udpKey 1) rfl).found
  rw [Config.matchRule, intendedRule, hloaded] at hfound
  exact absurd (congrArg Option.isSome hfound) (by decide)

end Mqvpn.ConfigFile
