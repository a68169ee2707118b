import Mqvpn.Platform.Policy

/-!
# The kill switch of Windows

The twin of the iptables rules in the Windows Filtering Platform: a sublayer of filters, which
are tried in the order of their weights. It is added in a transaction, all of it or nothing,
and outlives a process that crashes. A packet goes out if no sublayer blocks it.

It lets out more than its twins in one way, and less in another: a server filter has no
protocol, and IPv6 is blocked even where neither the server nor the tunnel has it
(`Switch.letsWfp`). In every run, what goes out while the kill switch is active is allowed by
its policy; it is exactly that as long as no process crashed and every sublayer could be
deleted, and then there is no sublayer while it is inactive (`walled_run`).
-/

namespace Mqvpn

open Platform

namespace Wfp

/-- The conditions of a filter. -/
inductive Condition
  /-- none at all -/
  | all
  | loopback
  | localInterface (iface : String)
  | remote (addr : Addr) (port : Nat)
  deriving DecidableEq

/-- `FWPM_FILTER0`; the layer is that of the family. -/
structure Filter where
  layer : Family
  condition : Condition
  weight : Nat
  action : Target
  deriving DecidableEq

/-- The name under which the packets of the loopback interface are known here. -/
def loopback : String := "loopback"

def Filter.hits (f : Filter) (x : Packet) : Bool :=
  f.layer = x.dst.family &&
    match f.condition with
    | .all => true
    | .loopback => x.iface = loopback
    | .localInterface iface => x.iface = iface
    | .remote addr port => x.dst = addr && x.dport = port

/-- What a sublayer says about a packet: the filter with the highest weight decides. -/
def arbitrate (filters : List Filter) (x : Packet) : Target :=
  FirstMatch.verdict Filter.hits Filter.action .accept (filters.mergeSort fun f g => g.weight ≤ f.weight) x

end Wfp

/-- The sublayers of mqvpn by their keys, the last one first. -/
abbrev Wfp := List (Nat × List Wfp.Filter)

/-- A packet goes out if every sublayer lets it. -/
def Wfp.verdict (wfp : Wfp) (x : Packet) : Target :=
  if ∀ s ∈ wfp, arbitrate s.2 x = .accept then .accept else .drop

/-- How the calls in a set-up go. -/
structure WfpEnv where
  engineOpen : Bool := true
  transactionBegin : Bool := true
  /-- `CoCreateGuid` -/
  key : Nat
  subLayerAdd : Bool := true
  filterAdd : Nat → Bool := fun _ => true
  transactionCommit : Bool := true

/-- The part of `platform_win_ctx_t` that matters. -/
structure WinPlatform where
  killswitchEnabled : Bool
  serverAddr : Addr
  serverPort : Nat
  /-- the tunnel interface -/
  luid : String := ""
  killswitchActive : Bool := false
  /-- whether there is an engine handle -/
  wfpEngine : Bool := false
  wfpSublayerKey : Nat := 0

namespace WinPlatform

open Wfp

/-- `MAX_WFP_FILTERS` -/
def maxWfpFilters : Nat := 10

variable (p : WinPlatform)

/-- `wfp_add_loopback_permit` -/
def loopbackPermit : List Filter := [⟨.v4, .loopback, 15, .accept⟩, ⟨.v6, .loopback, 15, .accept⟩]

/-- `wfp_add_iface_permit` -/
def ifacePermit : List Filter :=
  [⟨.v4, .localInterface p.luid, 14, .accept⟩, ⟨.v6, .localInterface p.luid, 14, .accept⟩]

/-- `wfp_add_server_permit` -/
def serverPermit : List Filter := [⟨p.serverAddr.family, .remote p.serverAddr p.serverPort, 13, .accept⟩]

/-- `wfp_add_block_all` -/
def blockAll : List Filter := [⟨.v4, .all, 1, .drop⟩, ⟨.v6, .all, 1, .drop⟩]

def filters : List Filter := loopbackPermit ++ p.ifacePermit ++ p.serverPermit ++ blockAll

/-- `add_filter`, one after the other up to the first that fails; the filters added so far. -/
def addFilters (filterAdd : Nat → Bool) : List Filter → List Filter → Option (List Filter)
  | [], added => some added
  | f :: fs, added =>
    if maxWfpFilters ≤ added.length then none
    else if filterAdd added.length then addFilters filterAdd fs (added ++ [f]) else none

/-- `win_setup_killswitch`, and whether it succeeds. What was done in a transaction that is
    aborted is not done. -/
def winSetupKillswitch (env : WfpEnv) (wfp : Wfp) : (WinPlatform × Wfp) × Bool :=
  if p.killswitchEnabled = false ∨ p.killswitchActive then ((p, wfp), true)
  else if env.engineOpen = false then ((p, wfp), false)
  else if env.transactionBegin = false then (({ p with wfpEngine := false }, wfp), false)
  else
    let p := { p with wfpSublayerKey := env.key }
    -- a key that is taken is refused
    if env.subLayerAdd = false ∨ env.key ∈ wfp.map Prod.fst then (({ p with wfpEngine := false }, wfp), false)
    else
      match addFilters env.filterAdd p.filters [] with
      | none => (({ p with wfpEngine := false }, wfp), false)
      | some filters =>
        if env.transactionCommit = false then (({ p with wfpEngine := false }, wfp), false)
        else (({ p with wfpEngine := true, killswitchActive := true }, (env.key, filters) :: wfp), true)

/-- `win_cleanup_killswitch`; `deleted` is whether the sublayer could be deleted, and its filters with it -/
def winCleanupKillswitch (deleted : Bool) (wfp : Wfp) : WinPlatform × Wfp :=
  if p.killswitchActive = false ∨ p.wfpEngine = false then (p, wfp)
  else
    ({ p with wfpEngine := false, killswitchActive := false },
      if deleted then wfp.filter (·.1 ≠ p.wfpSublayerKey) else wfp)

/-- What the kill switch that is set up now is for. -/
def switch : Switch := ⟨p.serverAddr, p.serverPort, loopback, p.luid, true⟩

end WinPlatform

/-- What the filters let out: no protocol is asked for, and both families are covered. -/
def Platform.Switch.letsWfp (k : Switch) (x : Packet) : Bool :=
  x.iface = k.lo || x.iface = k.tun || (x.dst = k.server && x.dport = k.port)

theorem Platform.Switch.letsWfp_iff {k : Switch} {x : Packet} :
    k.letsWfp x = true ↔ x.iface = k.lo ∨ x.iface = k.tun ∨ (x.dst = k.server ∧ x.dport = k.port) := by
  simp [letsWfp, or_assoc]

namespace WinPlatform

open Wfp

variable {p : WinPlatform} {x : Packet}

/-! ## The filters -/

theorem sorted_filters (p : WinPlatform) : p.filters.Pairwise fun f g => (decide (g.weight ≤ f.weight)) = true := by
  simp [filters, loopbackPermit, ifacePermit, serverPermit, blockAll]

/-- All of them are added, or none. -/
theorem addFilters_filters {filterAdd : Nat → Bool} {fs : List Filter} (h : addFilters filterAdd p.filters [] = some fs) :
    fs = p.filters := by
  suffices ∀ l added, addFilters filterAdd l added = some fs → fs = added ++ l from this p.filters [] h
  intro l
  induction l with
  | nil =>
    rintro added ⟨⟩
    exact (List.append_nil fs).symm
  | cons f l ih =>
    intro added h
    rw [addFilters] at h
    split_ifs at h
    rw [ih _ h, List.append_assoc, List.singleton_append]

/-- The layer of the server's filter is that of the packets to it. -/
theorem hits_remote {addr : Addr} {port weight : Nat} {action : Target} :
    Filter.hits ⟨addr.family, .remote addr port, weight, action⟩ x = (x.dst = addr && x.dport = port) := by
  by_cases hdst : x.dst = addr
  · simp [Filter.hits, hdst]
  · simp [Filter.hits, hdst]

/-- The filters say what the policy says. -/
theorem arbitrate_filters (p : WinPlatform) (x : Packet) :
    arbitrate p.filters x = .accept ↔ p.switch.letsWfp x = true := by
  rw [arbitrate, List.mergeSort_of_pairwise p.sorted_filters, Switch.letsWfp_iff, or_iff_not_imp_left,
    or_iff_not_imp_left]
  simp only [filters, loopbackPermit, ifacePermit, serverPermit, blockAll, List.cons_append, List.nil_append,
    FirstMatch.verdict_cons, FirstMatch.verdict_nil, hits_remote, switch]
  -- the filters of the other family do not hit
  cases hdst : x.dst.family <;> simp [Filter.hits, hdst]

/-! ## Set-up and clean-up -/

variable {env : WfpEnv} {wfp : Wfp}

/-- A set-up puts all the filters into a new sublayer, or it does nothing. -/
theorem winSetupKillswitch_cases (p : WinPlatform) (env : WfpEnv) (wfp : Wfp) :
    (∃ q, (p.winSetupKillswitch env wfp).1 = (q, wfp) ∧ q.killswitchActive = p.killswitchActive ∧
        (p.killswitchActive = true → q = p)) ∨
      (p.killswitchActive = false ∧
        (p.winSetupKillswitch env wfp).1 =
          ({ p with wfpSublayerKey := env.key, wfpEngine := true, killswitchActive := true },
            (env.key, p.filters) :: wfp)) := by
  rw [winSetupKillswitch]
  by_cases hskip : p.killswitchEnabled = false ∨ p.killswitchActive = true
  · rw [if_pos hskip]
    exact .inl ⟨p, rfl, rfl, fun _ => rfl⟩
  rw [if_neg hskip]
  rw [not_or, Bool.not_eq_true] at hskip
  have hunchanged {q : WinPlatform} (hq : q.killswitchActive = false) :
      ∃ q', (q, wfp) = (q', wfp) ∧ q'.killswitchActive = p.killswitchActive ∧ (p.killswitchActive = true → q' = p) :=
    ⟨q, rfl, hq.trans hskip.2.symm, fun h => absurd h (by rw [hskip.2]; exact Bool.false_ne_true)⟩
  dsimp only
  cases hadd : addFilters env.filterAdd (filters { p with wfpSublayerKey := env.key }) [] with
  | none => split_ifs <;> exact .inl (hunchanged hskip.2)
  | some fs =>
    rw [addFilters_filters hadd]
    split_ifs
    · exact .inl (hunchanged hskip.2)
    · exact .inl (hunchanged hskip.2)
    · exact .inl (hunchanged hskip.2)
    · exact .inl (hunchanged hskip.2)
    · exact .inr ⟨hskip.2, rfl⟩

/-- A set-up that succeeds, and was one, has added the filters. -/
theorem wfp_winSetupKillswitch {q : WinPlatform} {wfp' : Wfp} (he : p.killswitchEnabled = true)
    (ha : p.killswitchActive = false) (h : p.winSetupKillswitch env wfp = ((q, wfp'), true)) :
    wfp' = (env.key, p.filters) :: wfp := by
  rw [winSetupKillswitch, if_neg (by rw [he, ha]; simp)] at h
  dsimp only at h
  cases hadd : addFilters env.filterAdd (filters { p with wfpSublayerKey := env.key }) [] with
  | none =>
    rw [hadd] at h
    split_ifs at h <;> cases h
  | some fs =>
    rw [hadd] at h
    split_ifs at h
    all_goals cases h
    rw [addFilters_filters hadd]
    rfl

/-- With an engine, a clean-up is one. -/
theorem winCleanupKillswitch_of_active (ha : p.killswitchActive = true) (he : p.wfpEngine = true) (deleted : Bool) :
    p.winCleanupKillswitch deleted wfp =
      ({ p with wfpEngine := false, killswitchActive := false },
        if deleted then wfp.filter (·.1 ≠ p.wfpSublayerKey) else wfp) :=
  if_neg (by rw [ha, he]; simp)

theorem winCleanupKillswitch_of_inactive (ha : p.killswitchActive = false) (deleted : Bool) :
    p.winCleanupKillswitch deleted wfp = (p, wfp) :=
  if_pos (.inl ha)

end WinPlatform

/-! ## The computer -/

/-- The process, if there is one, and the filters. The policy since a set-up that succeeded is
    kept for the statements. -/
structure Windows where
  process : Option WinPlatform := none
  wfp : Wfp := []
  guard : Option Switch := none

namespace Windows

open WinPlatform

inductive Event
  | start (killswitchEnabled : Bool) (serverAddr : Addr) (serverPort : Nat)
  /-- `win_setup_killswitch`, for a tunnel interface -/
  | setUp (luid : String) (env : WfpEnv)
  | cleanUp (deleted : Bool)
  /-- The clean-up at the end of the process. -/
  | exit (deleted : Bool)
  | crash

def step (w : Windows) : Event → Windows
  | .start killSwitch addr port =>
    match w.process with
    | some _ => w
    | none =>
      { w with process := some { killswitchEnabled := killSwitch, serverAddr := addr, serverPort := port }, guard := none }
  | .setUp luid env =>
    match w.process with
    | none => w
    | some p =>
      let p := { p with luid }
      let (q, wfp) := (p.winSetupKillswitch env w.wfp).1
      let guard := if q.killswitchActive ∧ p.killswitchActive = false then some q.switch else w.guard
      { process := some q, wfp, guard }
  | .cleanUp deleted =>
    match w.process with
    | none => w
    | some p =>
      let (q, wfp) := p.winCleanupKillswitch deleted w.wfp
      { process := some q, wfp, guard := none }
  | .exit deleted =>
    match w.process with
    | none => w
    | some p => { process := none, wfp := (p.winCleanupKillswitch deleted w.wfp).2, guard := none }
  | .crash => { w with process := none }

def run (evs : List Event) : Windows := evs.foldl step {}

variable {w : Windows} {ev : Event}

/-- The filters are those of the policy. -/
def For (fs : List Wfp.Filter) (k : Switch) : Prop := ∀ x, Wfp.arbitrate fs x = .accept ↔ k.letsWfp x = true

/-- Where there is a policy, there is a sublayer for it. -/
structure Walled (w : Windows) : Prop where
  active : ∀ p ∈ w.process, p.killswitchActive = w.guard.isSome
  engine : ∀ p ∈ w.process, p.killswitchActive = true → p.wfpEngine = true
  sublayer : ∀ k ∈ w.guard, ∃ s ∈ w.wfp, For s.2 k

theorem Walled.lets (h : w.Walled) {k : Switch} (hk : k ∈ w.guard) {x : Packet} (hx : w.wfp.verdict x = .accept) :
    k.letsWfp x = true := by
  obtain ⟨s, hs, hfor⟩ := h.sublayer k hk
  rw [Wfp.verdict] at hx
  split_ifs at hx with hall
  exact (hfor x).1 (hall s hs)

theorem Walled.step (h : w.Walled) (ev : Event) : (w.step ev).Walled := by
  rw [Windows.step.eq_def]
  cases hp : w.process with
  | none =>
    cases ev with
    | start killSwitch addr port =>
      refine ⟨?_, ?_, ?_⟩
      · rintro _ ⟨⟩
        rfl
      · rintro _ ⟨⟩ ha
        cases ha
      · rintro _ ⟨⟩
    | setUp luid env => exact h
    | cleanUp deleted => exact h
    | exit deleted => exact h
    | crash => refine ⟨?_, ?_, h.sublayer⟩ <;> rintro _ ⟨⟩
  | some p =>
    have hactive := h.active p hp
    have hengine := h.engine p hp
    cases ev with
    | start killSwitch addr port => exact h
    | setUp luid env =>
      dsimp only
      have hsetup := winSetupKillswitch_cases { p with luid } env w.wfp
      generalize winSetupKillswitch _ env w.wfp = result at hsetup
      obtain ⟨result, ok⟩ := result
      dsimp only at hsetup
      rcases hsetup with ⟨q, rfl, hsame, hkept⟩ | ⟨hinactive, rfl⟩
      · rw [if_neg fun hnew => by cases (hsame.symm.trans hnew.1).symm.trans hnew.2]
        refine ⟨?_, ?_, h.sublayer⟩
        · rintro _ ⟨⟩
          exact hsame.trans hactive
        · rintro _ ⟨⟩ ha
          rw [hkept (hsame.symm.trans ha)]
          exact hengine (hsame.symm.trans ha)
      · rw [if_pos ⟨rfl, hinactive⟩]
        refine ⟨?_, ?_, ?_⟩
        · rintro _ ⟨⟩
          rfl
        · rintro _ ⟨⟩ -
          rfl
        · rintro _ ⟨⟩
          exact ⟨_, List.mem_cons_self, arbitrate_filters { p with luid }⟩
    | cleanUp deleted =>
      dsimp only
      cases ha : p.killswitchActive with
      | true =>
        rw [winCleanupKillswitch_of_active ha (hengine ha)]
        refine ⟨?_, ?_, ?_⟩
        · rintro _ ⟨⟩
          rfl
        · rintro _ ⟨⟩ hafter
          cases hafter
        · rintro _ ⟨⟩
      | false =>
        rw [winCleanupKillswitch_of_inactive ha]
        refine ⟨?_, ?_, ?_⟩
        · rintro _ ⟨⟩
          exact ha
        · rintro _ ⟨⟩
          exact hengine
        · rintro _ ⟨⟩
    | exit deleted => refine ⟨?_, ?_, ?_⟩ <;> rintro _ ⟨⟩
    | crash => refine ⟨?_, ?_, h.sublayer⟩ <;> rintro _ ⟨⟩

/-- No process crashes, and the sublayers can be deleted. -/
def Event.Tidy : Event → Prop
  | .cleanUp deleted | .exit deleted => deleted = true
  | .crash => False
  | .start .. | .setUp .. => True

/-- There is no other sublayer. -/
structure Sole (w : Windows) : Prop where
  bare : w.guard = none → w.wfp = []
  process : w.process = none → w.guard = none
  own : ∀ p ∈ w.process, ∀ k ∈ w.guard, ∃ fs, w.wfp = [(p.wfpSublayerKey, fs)] ∧ For fs k

/-- What a clean-up leaves. -/
theorem Sole.cleanUp (h : w.Sole) (hw : w.Walled) {p : WinPlatform} (hp : w.process = some p) :
    (p.winCleanupKillswitch true w.wfp).2 = [] := by
  have hactive := hw.active p hp
  cases hguard : w.guard with
  | none =>
    rw [hguard] at hactive
    rw [winCleanupKillswitch_of_inactive hactive]
    exact h.bare hguard
  | some k =>
    rw [hguard] at hactive
    obtain ⟨fs, hwfp, -⟩ := h.own p hp k hguard
    rw [winCleanupKillswitch_of_active hactive (hw.engine p hp hactive), hwfp]
    simp

theorem Sole.step (h : w.Sole) (hw : w.Walled) (hev : ev.Tidy) : (w.step ev).Sole := by
  rw [Windows.step.eq_def]
  cases hp : w.process with
  | none =>
    cases ev with
    | start killSwitch addr port =>
      refine ⟨fun _ => h.bare (h.process hp), (fun hnone => by cases hnone), ?_⟩
      rintro _ ⟨⟩ _ ⟨⟩
    | setUp luid env => exact h
    | cleanUp deleted => exact h
    | exit deleted => exact h
    | crash => cases hev
  | some p =>
    have hactive := hw.active p hp
    cases ev with
    | start killSwitch addr port => exact h
    | setUp luid env =>
      dsimp only
      have hsetup := winSetupKillswitch_cases { p with luid } env w.wfp
      generalize winSetupKillswitch _ env w.wfp = result at hsetup
      obtain ⟨result, ok⟩ := result
      dsimp only at hsetup
      rcases hsetup with ⟨q, rfl, hsame, hkept⟩ | ⟨hinactive, rfl⟩
      · rw [if_neg fun hnew => by cases (hsame.symm.trans hnew.1).symm.trans hnew.2]
        refine ⟨h.bare, (fun hnone => by cases hnone), ?_⟩
        rintro _ ⟨⟩ k hk
        have ha : p.killswitchActive = true := by
          rw [hactive, show w.guard = some k from hk]
          rfl
        rw [hkept ha]
        exact h.own p hp k hk
      · have hguard : w.guard = none := by
          rw [← Option.isNone_iff_eq_none, ← Option.not_isSome, ← hactive, hinactive]
          rfl
        rw [if_pos ⟨rfl, hinactive⟩, h.bare hguard]
        refine ⟨(fun hnone => by cases hnone), (fun hnone => by cases hnone), ?_⟩
        rintro _ ⟨⟩ _ ⟨⟩
        exact ⟨_, rfl, arbitrate_filters { p with luid }⟩
    | cleanUp deleted =>
      cases show deleted = true from hev
      refine ⟨fun _ => h.cleanUp hw hp, (fun hnone => by cases hnone), ?_⟩
      rintro _ ⟨⟩ _ ⟨⟩
    | exit deleted =>
      cases show deleted = true from hev
      refine ⟨fun _ => h.cleanUp hw hp, fun _ => rfl, ?_⟩
      rintro _ ⟨⟩
    | crash => cases hev

theorem Sole.exact (h : w.Sole) (x : Packet) : w.wfp.verdict x = .accept ↔ ∀ k ∈ w.guard, k.letsWfp x = true := by
  cases hguard : w.guard with
  | none =>
    rw [h.bare hguard]
    refine iff_of_true rfl ?_
    rintro _ ⟨⟩
  | some k =>
    cases hp : w.process with
    | none => cases (h.process hp).symm.trans hguard
    | some p =>
      obtain ⟨fs, hwfp, hfor⟩ := h.own p hp k hguard
      rw [Wfp.verdict, hwfp]
      simp [hfor x]

/-- What the filters do in every run: no packet goes out that the policy of the kill switch
    does not let; and every other one does, unless sublayers stay behind. -/
theorem walled_run (evs : List Event) :
    (∀ k ∈ (run evs).guard, ∀ x, (run evs).wfp.verdict x = .accept → k.letsWfp x = true) ∧
      ((∀ ev ∈ evs, ev.Tidy) →
        ∀ x, (run evs).wfp.verdict x = .accept ↔ ∀ k ∈ (run evs).guard, k.letsWfp x = true) := by
  suffices ∀ w : Windows, w.Walled →
      (evs.foldl step w).Walled ∧ ((∀ ev ∈ evs, ev.Tidy) → w.Sole → (evs.foldl step w).Sole) by
    obtain ⟨hwalled, hsole⟩ := this {} ⟨by rintro _ ⟨⟩, by rintro _ ⟨⟩, by rintro _ ⟨⟩⟩
    exact ⟨fun k hk x => hwalled.lets hk,
      fun htidy => (hsole htidy ⟨fun _ => rfl, fun _ => rfl, by rintro _ ⟨⟩⟩).exact⟩
  induction evs with
  | nil => exact fun w hw => ⟨hw, fun _ h => h⟩
  | cons ev evs ih =>
    intro w hw
    obtain ⟨hwalled, hsole⟩ := ih (w.step ev) (hw.step ev)
    refine ⟨hwalled, fun htidy h => ?_⟩
    obtain ⟨hev, hevs⟩ := List.forall_mem_cons.1 htidy
    exact hsole hevs (h.step hw hev)

end Windows

end Mqvpn
