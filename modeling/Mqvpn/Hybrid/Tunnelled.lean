import Mqvpn.Hybrid.ClientEnd
import Mqvpn.Hybrid.ServerEnd

/-!
# A tunnelled connection

A TCP connection on its way through the tunnel: the flow of the client's lane and the flow of
the server's egress, joined by the stream of their request. The two ends go on in any order,
and what they read of the body is what the other end has sent; everything else, that is, what
the TCP stack and the socket do, how much the stream takes and brings at a time, and what
fails, is up to the outside.

Neither direction changes, loses or doubles a byte in the middle, also if an end fails: what
comes out is the beginning of what went in, and the end comes out only behind everything that
went in before it, so that a connection that was cut short does not look complete
(`tunnelled_exact`).
-/

namespace Mqvpn.Hybrid

open Relay Direction

/-- The two ends. -/
structure Tunnelled where
  client : Flow × Outcome
  server : EgressFlow × EgressFlow.Outcome

namespace Tunnelled

/-- A step of one end. -/
inductive EndStep where
  | client (step : FlowStep)
  | server (step : EgressFlow.Step)

variable (s : Tunnelled)

def step : EndStep → Tunnelled
  | .client step => { s with client := relayStep s.client (step.fed s.server.1.uplink s.client.1) }
  | .server step => { s with server := EgressFlow.relayStep s.server (step.fed s.client.1.uplink s.server.1) }

def run (steps : List EndStep) : Tunnelled := steps.foldl step s

/-- What comes out at the far end is the beginning of what went in at the near one, and the end
    comes out behind all that went in before it. -/
structure Through (d d' : Direction UInt8) : Prop where
  passed : d'.output <+: d.input
  complete : ∀ c' ∈ d'.closings, ∃ c ∈ d.closings, c.ended = true ∧ c'.output = c.input

/-- What is sent, in flight, and held back at both ends is all that went in. -/
def Accounted (d d' : Direction UInt8) (held held' : List UInt8) : Prop :=
  d'.output ++ held' ++ inFlight d d' = d.sent ∧ (d.finished = false → d.sent ++ held = d.input)

/-- Both directions are exact. -/
structure Exact (s : Tunnelled) : Prop where
  up : Through s.client.1.uplink s.server.1.downlink
  down : Through s.server.1.uplink s.client.1.downlink
  accounted : s.client.2 ≠ .relayError → s.server.2 = .alive →
    Accounted s.client.1.uplink s.server.1.downlink (unsent s.client.1.uplinkQ) s.server.1.downlinkStash ∧
      Accounted s.server.1.uplink s.client.1.downlink s.server.1.uplinkStash s.client.1.downlinkStash

/-- A direction from end to end. -/
structure Sound (d d' : Direction UInt8) : Prop where
  carried : Carried d d'
  remembers : d.Remembers
  near : d.Faithful
  far : d'.Faithful

theorem Sound.through {d d' : Direction UInt8} (h : Sound d d') : Through d d' :=
  ⟨h.carried.passed h.near h.remembers h.far, fun _ hc => h.carried.complete h.near h.far hc⟩

theorem Sound.advances {d e d' : Direction UInt8} (h : Sound d d') (hadvances : Advances d e) : Sound e d' :=
  ⟨h.carried.grows hadvances.grows, hadvances.grows.remembers h.remembers, hadvances.faithful, h.far⟩

theorem Sound.accounted {d d' : Direction UInt8} (h : Sound d d') {held held' : List UInt8} {closed closed' : Bool}
    (hnear : d.Sound held closed) (hfar : d'.Sound held' closed') : Accounted d d' held held' := by
  refine ⟨?_, fun hopen => ?_⟩
  · rw [hfar.conserves]
    exact List.prefix_iff_eq_append.1 h.carried.input
  · rw [sent_of_unfinished hopen]
    exact hnear.conserves

/-- What holds in every state of a run. -/
structure Inv (s : Tunnelled) : Prop where
  uplink : UplinkOk s.client
  downlink : DownlinkOk s.client
  server : s.server.2 = .alive → s.server.1.Inv
  up : Sound s.client.1.uplink s.server.1.downlink
  down : Sound s.server.1.uplink s.client.1.downlink

variable {s}

theorem Inv.exact (h : s.Inv) : s.Exact where
  up := h.up.through
  down := h.down.through
  accounted := by
    intro hclient hserver
    have hinv := h.server hserver
    exact ⟨h.up.accounted (h.uplink hclient).2.sound hinv.downlink, h.down.accounted hinv.uplink (h.downlink hclient).sound⟩

theorem Inv.client (h : s.Inv) (step : FlowStep) : (s.step (.client step)).Inv := by
  have huplink := h.uplink.step (step.fed s.server.1.uplink s.client.1)
  have hdownlink := h.downlink.step (step.fed s.server.1.uplink s.client.1)
  rw [Tunnelled.step]
  by_cases hlive : s.client.2 = .live
  · have hok : s.client.2 ≠ .relayError := hlive ▸ Outcome.noConfusion
    have hrelay : relayStep s.client (step.fed s.server.1.uplink s.client.1) =
        flowStep s.client.1 (step.fed s.server.1.uplink s.client.1) := by rw [relayStep, hlive]
    rw [hrelay] at huplink hdownlink ⊢
    have hadvances := (h.uplink hok).2.advances (step.fed s.server.1.uplink s.client.1)
    have hdelivers := (h.downlink hok).delivers h.down.carried step
    exact ⟨huplink, hdownlink, h.server, h.up.advances hadvances,
      ⟨hdelivers.carried, h.down.remembers, h.down.near, hdelivers.faithful⟩⟩
  · have hstuck : relayStep s.client (step.fed s.server.1.uplink s.client.1) = s.client := by
      rw [relayStep]
      split
      · rename_i h'
        exact absurd h' hlive
      · rfl
    rw [hstuck]
    exact h

theorem Inv.server_step (h : s.Inv) (step : EgressFlow.Step) : (s.step (.server step)).Inv := by
  rw [Tunnelled.step]
  by_cases halive : s.server.2 = .alive
  · have hrelay : EgressFlow.relayStep s.server (step.fed s.client.1.uplink s.server.1) =
        s.server.1.step (step.fed s.client.1.uplink s.server.1) := by rw [EgressFlow.relayStep, halive]
    rw [hrelay]
    have hinv := h.server halive
    have hjoined := hinv.joined_step h.up.carried step
    exact ⟨h.uplink, h.downlink, hinv.step, ⟨hjoined.carried, h.up.remembers, h.up.near, hjoined.faithful⟩,
      h.down.advances hjoined.advances⟩
  · have hstuck : EgressFlow.relayStep s.server (step.fed s.client.1.uplink s.server.1) = s.server := by
      rw [EgressFlow.relayStep]
      split
      · rename_i h'
        exact absurd h' halive
      · rfl
    rw [hstuck]
    exact h

theorem Inv.step (h : s.Inv) (step : EndStep) : (s.step step).Inv := by
  cases step with
  | client step => exact h.client step
  | server step => exact h.server_step step

/-- A flow that was accepted, and the flow that was created for its request. -/
def opened (key : Reorder.FlowKey) (synIsn : UInt32) (now pcb request stream : Nat)
    (fd h3Request stream' connectDeadlineUs now' : Nat) : Tunnelled where
  client := (acceptedFlow key synIsn now pcb request stream, .live)
  server := (EgressFlow.connecting fd h3Request stream' connectDeadlineUs now', .alive)

theorem inv_opened (key : Reorder.FlowKey) (synIsn : UInt32) (now pcb request stream : Nat)
    (fd h3Request stream' connectDeadlineUs now' : Nat) :
    (opened key synIsn now pcb request stream fd h3Request stream' connectDeadlineUs now').Inv := by
  have hsound : Sound {} {} :=
    ⟨.initial _, fun _ hc => absurd hc List.not_mem_nil, Direction.Sound.initial.faithful, Direction.Sound.initial.faithful⟩
  exact ⟨fun _ => ⟨.inr rfl, Direction.Sound.initial, rfl, fun n hn => absurd hn List.not_mem_nil, rfl⟩,
    fun _ => ⟨Direction.Sound.initial, rfl, fun _ => rfl, fun s hs => absurd hs List.not_mem_nil⟩,
    fun _ => ⟨Direction.Sound.initial, rfl, fun _ => rfl, fun hfin => Bool.noConfusion hfin, Direction.Sound.initial, rfl,
      fun _ => rfl⟩, hsound, hsound⟩

/-- In every run of both ends, in whatever order they go on and whatever fails, both directions
    are exact. -/
theorem tunnelled_exact (key : Reorder.FlowKey) (synIsn : UInt32) (now pcb request stream : Nat)
    (fd h3Request stream' connectDeadlineUs now' : Nat) (steps : List EndStep) :
    ((opened key synIsn now pcb request stream fd h3Request stream' connectDeadlineUs now').run steps).Exact := by
  have hrun : ((opened key synIsn now pcb request stream fd h3Request stream' connectDeadlineUs now').run steps).Inv :=
    List.foldlRecOn steps Tunnelled.step (inv_opened key synIsn now pcb request stream fd h3Request stream' connectDeadlineUs now')
      fun t (h : t.Inv) step _ => h.step step
  exact hrun.exact

/-- The response comes in the middle of a delivery, the server reads in two parts, and the fin
    arrives with the second one. -/
example :
    ((opened sampleKey 7 0 1 2 3 5 1 2 9 0).run
      [.client (.recv (some ⟨[[1, 2], [3]], by decide⟩) 1 [] true), .server (.connected 1 []),
        .client (.established 2 [.accept 9]), .client (.recv none 3 [.accept 0] true),
        .server (.body 4 [⟨.data [0, 0] false, [.accept 1], true⟩]),
        .server (.ready false true false 5 ⟨[.accept 9], [⟨.data [0, 0, 0] false, [.accept 9], true⟩], [], .again⟩)]).server.1.downlink.closings.map
        Closing.output = [[1, 2, 3]] := by
  decide +kernel

end Tunnelled

end Mqvpn.Hybrid
