import Mqvpn.Platform.Model
import Mqvpn.Lib.Runs

/-!
# What the kill switch lets out

From the first time that the tunnel is set up until the end of the process, the
kill switch is to drop every packet that neither goes through the tunnel nor to the
server (`Blocks`). It does so as long as its rules are in place (`blocks_run`), that
is, with two provisos (`Keeps`).

* The rules are taken away in RECONNECTING, and come back only with the next tunnel:
  in between, every packet goes out (`accept_stateChanged`).
* There are rules for IPv6 only if the server or the tunnel has an IPv6 address.
-/

namespace Mqvpn.Platform

open Client Runs FirstMatch

variable {p q : Platform} {env : Env} {cmd : Command}

/-! ## The rules of the kill switch -/

/-- The rules that the kill switch has for a family. -/
def own (p : Platform) (tool : Family) : List Rule :=
  [p.acceptOut p.tunName, p.acceptOut "lo", p.dropAll] ++
    if p.serverAddr.family = tool then [p.acceptServer] else []

/-- There are no other rules. -/
def Only (p : Platform) : Prop := ∀ tool, ∀ r ∈ p.chain tool, r ∈ p.own tool

/-- The platform without its chains. -/
def rest (p : Platform) : Platform := { p with chain := fun _ => [], killswitchActive := false }

section Congr

variable (h : q.rest = p.rest)

include h

theorem own_congr (tool : Family) : q.own tool = p.own tool := by
  change q.rest.own tool = p.rest.own tool
  rw [h]

theorem dropAll_congr : q.dropAll = p.dropAll := by
  change q.rest.dropAll = p.rest.dropAll
  rw [h]

theorem serverAddr_congr : q.serverAddr = p.serverAddr := by
  change q.rest.serverAddr = p.rest.serverAddr
  rw [h]

theorem hasV6_congr : q.hasV6 = p.hasV6 := by
  change q.rest.hasV6 = p.rest.hasV6
  rw [h]

theorem serverIpStr_congr : q.serverIpStr = p.serverIpStr := by
  change q.rest.serverIpStr = p.rest.serverIpStr
  rw [h]

theorem killswitchEnabled_congr : q.killswitchEnabled = p.killswitchEnabled := by
  change q.rest.killswitchEnabled = p.rest.killswitchEnabled
  rw [h]

theorem noRoutes_congr : q.noRoutes = p.noRoutes := by
  change q.rest.noRoutes = p.rest.noRoutes
  rw [h]

theorem ready_congr : q.ready = p.ready := by
  change q.rest.ready = p.rest.ready
  rw [h]

end Congr

theorem acceptServer_mem_own {tool : Family} (h : p.serverAddr.family = tool) : p.acceptServer ∈ p.own tool := by
  rw [own, if_pos h]
  exact List.mem_append_right _ (List.mem_singleton_self _)

/-- The rules are in place. -/
structure Armed (p : Platform) : Prop where
  active : p.killswitchActive = true
  server : p.serverIpStr = some p.serverAddr
  only : p.Only
  drop : ∀ tool, p.dropAll ∈ p.chain tool

/-- A packet that is not allowed hits none but the last rule. -/
theorem Armed.blocks (h : p.Armed) : p.Blocks := by
  intro x hx
  refine verdict_eq_of_forall ⟨p.dropAll, h.drop _, rfl⟩ fun r hr hhit => ?_
  have hown := h.only _ r hr
  rw [own] at hown
  rcases List.mem_append.1 hown with hown | hown
  · simp only [List.mem_cons, List.not_mem_nil, or_false] at hown
    rcases hown with rfl | rfl | rfl
    · exact absurd (.inr (.inl (of_decide_eq_true hhit))) hx
    · exact absurd (.inl (of_decide_eq_true hhit)) hx
    · rfl
  · split_ifs at hown
    · rw [List.mem_singleton.1 hown, acceptServer, h.server] at hhit
      exact absurd (.inr (.inr (of_decide_eq_true hhit))) hx
    · cases hown

/-! ## Commands that add a rule -/

theorem Command.mem_apply (hop : cmd.op ≠ .delete) {chain chain' : List Rule}
    (h : cmd.apply chain = some chain') (r : Rule) : r ∈ chain' ↔ r = cmd.rule ∨ r ∈ chain := by
  rw [Command.apply] at h
  split at h
  · split_ifs at h
    cases h
    exact List.mem_cons
  · split_ifs at h
    cases h
    rw [List.mem_append, List.mem_singleton, or_comm]
  · rename_i hdelete
    exact absurd hdelete hop

/-- A command fails, or it changes the chain of its family. -/
theorem runIptablesCmd_cases (p : Platform) (env : Env) (cmd : Command) (n : Nat) :
    p.runIptablesCmd env cmd n = (p, false) ∨
      ∃ chain, cmd.apply (p.chain cmd.tool) = some chain ∧
        p.runIptablesCmd env cmd n = ({ p with chain := Function.update p.chain cmd.tool chain }, true) := by
  rw [runIptablesCmd]
  split_ifs
  · cases cmd.apply (p.chain cmd.tool) with
    | none => exact .inl rfl
    | some chain => exact .inr ⟨chain, rfl, rfl⟩
  · exact .inl rfl

/-- Rules of the kill switch were added, and nothing else was done. -/
structure Grows (p q : Platform) : Prop where
  rest : q.rest = p.rest
  active : p.killswitchActive = true → q.killswitchActive = true
  mono : ∀ tool, p.chain tool ⊆ q.chain tool
  only : p.Only → q.Only

namespace Grows

theorem refl (p : Platform) : Grows p p := ⟨rfl, id, fun _ => List.Subset.refl _, id⟩

theorem trans {r : Platform} (h : Grows p q) (h' : Grows q r) : Grows p r :=
  ⟨h'.rest.trans h.rest, fun ha => h'.active (h.active ha), fun tool => List.Subset.trans (h.mono tool) (h'.mono tool),
    fun hp => h'.only (h.only hp)⟩

end Grows

/-- The command adds a rule of the kill switch. -/
def Adds (p : Platform) (cmd : Command) : Prop := cmd.op ≠ .delete ∧ cmd.rule ∈ p.own cmd.tool

theorem Adds.congr (h : p.Adds cmd) (hr : q.rest = p.rest) : q.Adds cmd :=
  ⟨h.1, own_congr hr cmd.tool ▸ h.2⟩

theorem grows_runIptablesCmd (env : Env) (h : p.Adds cmd) (n : Nat) : Grows p (p.runIptablesCmd env cmd n).1 := by
  rcases runIptablesCmd_cases p env cmd n with he | ⟨chain, ha, he⟩
  · rw [he]
    exact .refl p
  · rw [he]
    have hmem := Command.mem_apply h.1 ha
    refine ⟨rfl, id, fun tool r hr => ?_, fun hp tool r hr => ?_⟩
    · by_cases ht : tool = cmd.tool
      · subst ht
        change r ∈ Function.update p.chain cmd.tool chain cmd.tool
        rw [Function.update_self]
        exact (hmem r).2 (.inr hr)
      · change r ∈ Function.update p.chain cmd.tool chain tool
        rw [Function.update_of_ne ht]
        exact hr
    · by_cases ht : tool = cmd.tool
      · subst ht
        change r ∈ Function.update p.chain cmd.tool chain cmd.tool at hr
        rw [Function.update_self] at hr
        rcases (hmem r).1 hr with rfl | hr
        · exact h.2
        · exact hp cmd.tool r hr
      · change r ∈ Function.update p.chain cmd.tool chain tool at hr
        rw [Function.update_of_ne ht] at hr
        exact hp tool r hr

theorem mem_runIptablesCmd (p : Platform) (env : Env) (hop : cmd.op ≠ .delete) (n : Nat)
    (h : (p.runIptablesCmd env cmd n).2 = true) : cmd.rule ∈ (p.runIptablesCmd env cmd n).1.chain cmd.tool := by
  rcases runIptablesCmd_cases p env cmd n with he | ⟨chain, ha, he⟩
  · rw [he] at h
    cases h
  · rw [he]
    change cmd.rule ∈ Function.update p.chain cmd.tool chain cmd.tool
    rw [Function.update_self]
    exact (Command.mem_apply hop ha _).2 (.inl rfl)

/-- Commands in a row; if they all work, their rules are in place. -/
theorem grows_runAll (env : Env) (cmds : List Command) (h : ∀ cmd ∈ cmds, p.Adds cmd) :
    Grows p (runAll env cmds p).1 ∧
      ((runAll env cmds p).2 = true → ∀ cmd ∈ cmds, cmd.rule ∈ (runAll env cmds p).1.chain cmd.tool) := by
  induction cmds generalizing p with
  | nil => exact ⟨.refl p, fun _ _ hmem => absurd hmem List.not_mem_nil⟩
  | cons cmd cmds ih =>
    have hadds := h cmd List.mem_cons_self
    have hgrows := grows_runIptablesCmd env hadds 0
    have hin := mem_runIptablesCmd p env hadds.1 0
    rw [runAll]
    generalize p.runIptablesCmd env cmd 0 = r at hgrows hin
    obtain ⟨q, ok⟩ := r
    cases ok with
    | false => exact ⟨hgrows, fun hok => absurd hok (by simp)⟩
    | true =>
      obtain ⟨hrest, hall⟩ := ih (p := q) fun cmd hmem =>
        (h cmd (List.mem_cons_of_mem _ hmem)).congr hgrows.rest
      refine ⟨hgrows.trans hrest, fun hok cmd' hmem => ?_⟩
      rcases List.mem_cons.1 hmem with rfl | hmem
      · exact hrest.mono _ (hin rfl)
      · exact hall hok cmd' hmem

/-! ## Clean-up -/

theorem rest_runIptablesCmd (p : Platform) (env : Env) (cmd : Command) (n : Nat) : (p.runIptablesCmd env cmd n).1.rest = p.rest := by
  rcases runIptablesCmd_cases p env cmd n with he | ⟨chain, -, he⟩
  · rw [he]
  · rw [he]
    rfl

theorem rest_runAll (env : Env) (cmds : List Command) (p : Platform) : (runAll env cmds p).1.rest = p.rest := by
  induction cmds generalizing p with
  | nil => rfl
  | cons cmd cmds ih =>
    have hrest := rest_runIptablesCmd p env cmd 0
    rw [runAll]
    generalize p.runIptablesCmd env cmd 0 = r at hrest
    obtain ⟨q, ok⟩ := r
    cases ok with
    | false => exact hrest
    | true => exact (ih q).trans hrest

theorem rest_deleteAll (tool : Family) (rule : Rule) : (p.deleteAll env tool rule).rest = p.rest := by
  suffices ∀ rounds n (p : Platform), (runLoop env ⟨tool, .delete, rule⟩ rounds n p).rest = p.rest from
    this _ _ p
  intro rounds
  induction rounds with
  | zero => exact fun _ _ => rfl
  | succ rounds ih =>
    intro n p
    have hrest := rest_runIptablesCmd p env ⟨tool, .delete, rule⟩ n
    rw [runLoop]
    generalize p.runIptablesCmd env ⟨tool, .delete, rule⟩ n = r at hrest
    obtain ⟨q, ok⟩ := r
    cases ok with
    | false => exact hrest
    | true => exact (ih (n + 1) q).trans hrest

/-- The loop of the shell command is that of the list. -/
theorem chain_runLoop (env : Env) (tool : Family) (rule : Rule) (rounds n : Nat) (p : Platform) :
    (runLoop env ⟨tool, .delete, rule⟩ rounds n p).chain = Function.update p.chain tool
      (eraseLoop (env.ok ⟨tool, .delete, rule⟩) rule rounds n (p.chain tool)) := by
  induction rounds generalizing n p with
  | zero => exact (Function.update_eq_self tool p.chain).symm
  | succ rounds ih =>
    rw [runLoop, eraseLoop, runIptablesCmd]
    by_cases hok : env.ok ⟨tool, .delete, rule⟩ n = true
    · rw [if_pos hok, Command.apply]
      dsimp only
      by_cases hmem : rule ∈ p.chain tool
      · rw [if_pos hmem, if_pos ⟨hok, hmem⟩]
        dsimp only
        rw [ih]
        dsimp only
        rw [Function.update_self, Function.update_idem]
      · rw [if_neg hmem, if_neg fun h => hmem h.2]
        exact (Function.update_eq_self tool p.chain).symm
    · rw [if_neg hok, if_neg fun h => hok h.1]
      exact (Function.update_eq_self tool p.chain).symm

theorem mem_deleteAll (hok : ∀ cmd n, env.ok cmd n = true) {tool tool' : Family} {rule r : Rule} :
    r ∈ (p.deleteAll env tool rule).chain tool' ↔ r ∈ p.chain tool' ∧ (tool' = tool → r ≠ rule) := by
  rw [deleteAll, chain_runLoop, eraseLoop_eq_filter (hok _) rule 0 (Nat.le_refl _)]
  by_cases ht : tool' = tool
  · subst ht
    rw [Function.update_self, List.mem_filter]
    simp
  · rw [Function.update_of_ne ht]
    simp [ht]

theorem rest_killswitchActive (p : Platform) (active : Bool) :
    ({ p with killswitchActive := active } : Platform).rest = p.rest := rfl

theorem rest_cleanupKillswitch (env : Env) (p : Platform) : (p.cleanupKillswitch env).rest = p.rest := by
  rw [cleanupKillswitch]
  by_cases ha : p.killswitchActive = false
  · rw [if_pos ha]
  · rw [if_neg ha]
    dsimp only
    by_cases h6 : p.serverAddr.family = .v6
    · simp only [h6, ↓reduceIte, rest_killswitchActive, rest_deleteAll]
    · simp only [h6, ↓reduceIte, rest_killswitchActive, rest_deleteAll]

theorem killswitchActive_cleanupKillswitch (env : Env) (p : Platform) :
    (p.cleanupKillswitch env).killswitchActive = false := by
  rw [cleanupKillswitch]
  split_ifs with ha
  · exact ha
  · rfl

/-- If the commands work, the clean-up leaves none of the rules that it knows. -/
theorem notMem_own_of_mem_cleanupKillswitch (ha : p.killswitchActive = true)
    (hok : ∀ cmd n, env.ok cmd n = true) {tool : Family} {r : Rule}
    (hr : r ∈ (p.cleanupKillswitch env).chain tool) : r ∈ p.chain tool ∧ r ∉ p.own tool := by
  rw [cleanupKillswitch, if_neg (by rw [ha]; simp)] at hr
  dsimp only at hr
  rw [own]
  -- The rules of a family are deleted in two places, which depend on the server.
  by_cases h6 : p.serverAddr.family = .v6
  · rw [if_pos h6, if_pos h6] at hr
    simp only [mem_deleteAll hok] at hr
    cases tool with
    | v4 => simp_all
    | v6 => simp_all
  · rw [if_neg h6, if_neg h6] at hr
    simp only [mem_deleteAll hok] at hr
    cases tool with
    | v4 => simp_all
    | v6 => simp_all

theorem Armed.chain_cleanupKillswitch (h : p.Armed) (hok : ∀ cmd n, env.ok cmd n = true) (tool : Family) :
    (p.cleanupKillswitch env).chain tool = [] := by
  refine List.eq_nil_iff_forall_not_mem.2 fun r hr => ?_
  obtain ⟨hmem, hown⟩ := notMem_own_of_mem_cleanupKillswitch h.active hok hr
  exact hown (h.only tool r hmem)

/-! ## Set-up -/

theorem adds_acceptOut (op : Op) (hop : op ≠ .delete) (tool : Family) {iface : String}
    (h : iface = p.tunName ∨ iface = "lo") : p.Adds ⟨tool, op, p.acceptOut iface⟩ := by
  refine ⟨hop, List.mem_append_left _ ?_⟩
  rcases h with rfl | rfl
  · exact List.mem_cons_self
  · exact List.mem_cons_of_mem _ List.mem_cons_self

theorem adds_dropAll (op : Op) (hop : op ≠ .delete) (tool : Family) : p.Adds ⟨tool, op, p.dropAll⟩ :=
  ⟨hop, List.mem_append_left _ (by simp)⟩

theorem adds_acceptServer (op : Op) (hop : op ≠ .delete) {tool : Family} (h : p.serverAddr.family = tool) :
    p.Adds ⟨tool, op, p.acceptServer⟩ :=
  ⟨hop, acceptServer_mem_own h⟩

theorem adds_rules4 : ∀ cmd ∈ p.rules4, p.Adds cmd := by
  intro cmd hcmd
  simp only [rules4, List.mem_cons, List.not_mem_nil, or_false] at hcmd
  rcases hcmd with rfl | rfl | rfl
  · exact adds_acceptOut .insert (by simp) .v4 (.inl rfl)
  · exact adds_acceptOut .insert (by simp) .v4 (.inr rfl)
  · exact adds_dropAll .append (by simp) .v4

theorem adds_rulesServer : ∀ cmd ∈ p.rulesServer, p.Adds cmd := by
  intro cmd hcmd
  rw [rulesServer] at hcmd
  split_ifs at hcmd with h6
  · simp only [List.mem_cons, List.not_mem_nil, or_false] at hcmd
    rcases hcmd with rfl | rfl | rfl
    · exact adds_acceptServer .insert (by simp) h6
    · exact adds_acceptOut .insert (by simp) .v6 (.inr rfl)
    · exact adds_dropAll .append (by simp) .v6
  · rw [List.mem_singleton.1 hcmd]
    refine adds_acceptServer .insert (by simp) ?_
    cases hf : p.serverAddr.family with
    | v4 => rfl
    | v6 => exact absurd hf h6

theorem grows_rules4 (h : runAll env p.rules4 p = (q, true)) : Grows p q ∧ p.dropAll ∈ q.chain .v4 := by
  have hall := grows_runAll env p.rules4 adds_rules4
  rw [h] at hall
  exact ⟨hall.1, hall.2 rfl ⟨.v4, .append, p.dropAll⟩ (by simp [rules4])⟩

theorem grows_rulesServer (h : runAll env p.rulesServer p = (q, true)) :
    Grows p q ∧ (p.serverAddr.family = .v6 → p.dropAll ∈ q.chain .v6) := by
  have hall := grows_runAll env p.rulesServer adds_rulesServer
  rw [h] at hall
  refine ⟨hall.1, fun h6 => hall.2 rfl ⟨.v6, .append, p.dropAll⟩ ?_⟩
  rw [rulesServer, if_pos h6]
  simp

theorem grows_setupTunnel6 (p : Platform) (env : Env) :
    Grows p (p.setupTunnel6 env) ∧
      (p.serverAddr.family ≠ .v6 → p.hasV6 = true → env.ok ⟨.v6, .append, p.dropAll⟩ 0 = true →
        p.dropAll ∈ (p.setupTunnel6 env).chain .v6) := by
  rw [setupTunnel6]
  split_ifs with hv6
  · have hgrows₁ := grows_runIptablesCmd env
      (adds_acceptOut (p := p) .insert (by simp) .v6 (.inl rfl)) 0
    generalize (p.runIptablesCmd env ⟨.v6, .insert, p.acceptOut p.tunName⟩ 0).1 = p₁ at hgrows₁
    dsimp only
    split_ifs with h6
    · exact ⟨hgrows₁, fun h => absurd (serverAddr_congr hgrows₁.rest ▸ h6) h⟩
    · have hgrows₂ := grows_runIptablesCmd env
        (adds_acceptOut (p := p₁) .insert (by simp) .v6 (.inr rfl)) 0
      generalize (p₁.runIptablesCmd env ⟨.v6, .insert, p₁.acceptOut "lo"⟩ 0).1 = p₂ at hgrows₂
      have hgrows₃ := grows_runIptablesCmd env
        (adds_dropAll (p := p₂) .append (by simp) .v6) 0
      refine ⟨(hgrows₁.trans hgrows₂).trans hgrows₃, fun _ _ hok => ?_⟩
      have hdrop : p₂.dropAll = p.dropAll := dropAll_congr (hgrows₁.trans hgrows₂).rest
      rw [← hdrop] at hok ⊢
      have hworks : (p₂.runIptablesCmd env ⟨.v6, .append, p₂.dropAll⟩ 0).2 = true := by
        rw [runIptablesCmd, if_pos hok]
        rfl
      exact mem_runIptablesCmd p₂ env (by simp) 0 hworks
  · exact ⟨.refl p, fun _ h => absurd h hv6⟩

/-- A set-up that succeeds adds the rules. Those of IPv6 are for a server or a tunnel
    with IPv6, and for the tunnel it is not looked at whether they could be added. -/
theorem setupKillswitch_spec (he : p.killswitchEnabled = true) (ha : p.killswitchActive = false)
    (h : p.setupKillswitch env = (q, true)) :
    Grows p q ∧ q.killswitchActive = true ∧ p.dropAll ∈ q.chain .v4 ∧
      (p.serverAddr.family = .v6 ∨ p.hasV6 = true ∧ env.ok ⟨.v6, .append, p.dropAll⟩ 0 = true →
        p.dropAll ∈ q.chain .v6) := by
  rw [setupKillswitch, if_neg (by simp [he, ha])] at h
  cases hrun₁ : runAll env p.rules4 p with
  | mk p₁ ok₁ =>
    rw [hrun₁] at h
    cases ok₁ with
    | false => cases h
    | true =>
      obtain ⟨hgrows₁, hdrop₁⟩ := grows_rules4 hrun₁
      have hactive : Grows p { p₁ with killswitchActive := true } :=
        ⟨hgrows₁.rest, fun _ => rfl, hgrows₁.mono, hgrows₁.only⟩
      dsimp only at h
      cases hrun₂ : runAll env p₁.rulesServer { p₁ with killswitchActive := true } with
      | mk p₂ ok₂ =>
        rw [hrun₂] at h
        cases ok₂ with
        | false => cases h
        | true =>
          cases h
          obtain ⟨hgrows₂, hdrop₂⟩ := grows_rulesServer (p := { p₁ with killswitchActive := true }) hrun₂
          obtain ⟨hgrows₃, hdrop₃⟩ := grows_setupTunnel6 p₂ env
          have hgrows := hactive.trans hgrows₂
          have hsame : p₂.dropAll = p.dropAll ∧ p₂.serverAddr = p.serverAddr ∧ p₂.hasV6 = p.hasV6 :=
            ⟨dropAll_congr hgrows.rest, serverAddr_congr hgrows.rest, hasV6_congr hgrows.rest⟩
          refine ⟨hgrows.trans hgrows₃, hgrows₃.active (hgrows₂.active rfl),
            hgrows₃.mono _ (hgrows₂.mono _ hdrop₁), fun h6 => ?_⟩
          by_cases hs : p.serverAddr.family = .v6
          · rw [← dropAll_congr hactive.rest]
            refine hgrows₃.mono _ (hdrop₂ ?_)
            rw [serverAddr_congr hactive.rest]
            exact hs
          · obtain ⟨hv6, hok⟩ := h6.resolve_left hs
            rw [← hsame.1] at hok ⊢
            exact hdrop₃ (hsame.2.1 ▸ hs) (hsame.2.2.trans hv6) hok

/-- The address of the server must be there. -/
theorem serverIpStr_of_setupKillswitch (he : p.killswitchEnabled = true) (ha : p.killswitchActive = false)
    (h : p.setupKillswitch env = (q, true)) : p.serverIpStr ≠ none := by
  intro hnone
  rw [setupKillswitch, if_neg (by simp [he, ha])] at h
  have hrest := rest_runAll env p.rules4 p
  generalize runAll env p.rules4 p = r at h hrest
  obtain ⟨p₁, ok⟩ := r
  cases ok with
  | false => cases h
  | true =>
    dsimp only at h
    have hserver : p₁.acceptServer.valid = false := by
      change p₁.rest.acceptServer.valid = false
      rw [hrest]
      change Rule.valid ⟨.udpTo p.serverIpStr _, _, _⟩ = false
      rw [hnone]
      rfl
    -- The first command for the server is refused.
    have hfails : runAll env p₁.rulesServer { p₁ with killswitchActive := true } =
        ({ p₁ with killswitchActive := true }, false) := by
      rw [rulesServer]
      split_ifs <;> simp [runAll, runIptablesCmd, Command.apply, hserver]
    rw [hfails] at h
    cases h

theorem rest_setupKillswitch (env : Env) (p : Platform) : (p.setupKillswitch env).1.rest = p.rest := by
  rw [setupKillswitch]
  split_ifs
  · rfl
  · have hrest₁ := rest_runAll env p.rules4 p
    generalize runAll env p.rules4 p = r at hrest₁
    obtain ⟨p₁, ok⟩ := r
    cases ok with
    | false => exact (rest_cleanupKillswitch ..).trans hrest₁
    | true =>
      dsimp only
      have hrest₂ := rest_runAll env p₁.rulesServer { p₁ with killswitchActive := true }
      generalize runAll env p₁.rulesServer { p₁ with killswitchActive := true } = r at hrest₂
      obtain ⟨p₂, ok⟩ := r
      cases ok with
      | false => exact (rest_cleanupKillswitch ..).trans (hrest₂.trans hrest₁)
      | true => exact (grows_setupTunnel6 p₂ env).1.rest.trans (hrest₂.trans hrest₁)

/-- The platform for which `cb_tunnel_config_ready` sets up the kill switch, on a
    device of this name. -/
def withTun (p : Platform) (tunName : String) (info : TunnelInfo) : Platform :=
  { p with
    tunName
    hasV6 := p.hasV6 || info.assigned6.isSome
    serverIpStr := if p.noRoutes then p.serverIpStr else some p.serverAddr }

/-- The kill switch is off, after a set-up of the tunnel that failed. -/
structure Aborted (p q : Platform) : Prop where
  inactive : q.killswitchActive = false
  enabled : q.killswitchEnabled = p.killswitchEnabled
  noRoutes : q.noRoutes = p.noRoutes
  ready : q.ready = p.ready
  server : p.noRoutes = true → q.serverIpStr = p.serverIpStr

theorem aborted_cleanupKillswitch (env : Env) {r : Platform} (tunName : String) (hasV6 : Bool)
    {serverIpStr : Option Addr} (h : r.rest = ({ p with tunName, hasV6, serverIpStr } : Platform).rest)
    (hs : p.noRoutes = true → serverIpStr = p.serverIpStr) : Aborted p (r.cleanupKillswitch env) := by
  have hrest := (rest_cleanupKillswitch env r).trans h
  refine ⟨killswitchActive_cleanupKillswitch .., ?_, ?_, ?_, fun hn => ?_⟩
  · rw [killswitchEnabled_congr hrest]
  · rw [noRoutes_congr hrest]
  · rw [ready_congr hrest]
  · rw [serverIpStr_congr hrest]
    exact hs hn

/-- A set-up of the tunnel fails, or it has set up the kill switch. -/
theorem cbTunnelConfigReady_cases (p : Platform) (env : Env) (info : TunnelInfo) :
    (∃ q, p.cbTunnelConfigReady env info = (q, false) ∧ Aborted p q) ∨
      ∃ tunName ∈ env.tunCreate, ∃ q, (p.withTun tunName info).setupKillswitch env = (q, true) ∧
        p.cbTunnelConfigReady env info = ({ q with ready := true }, true) := by
  rw [cbTunnelConfigReady]
  cases env.tunCreate with
  | none => exact .inl ⟨_, rfl, aborted_cleanupKillswitch env "" p.hasV6 rfl fun _ => rfl⟩
  | some tunName =>
    dsimp only
    by_cases hconf : env.tunConfigured = false
    · rw [if_pos hconf]
      exact .inl ⟨_, rfl, aborted_cleanupKillswitch env tunName p.hasV6 rfl fun _ => rfl⟩
    · rw [if_neg hconf]
      have hroutes : (if p.noRoutes = true then
            (({ p with tunName, hasV6 := p.hasV6 || info.assigned6.isSome } : Platform), true)
          else setupRoutes { p with tunName, hasV6 := p.hasV6 || info.assigned6.isSome } env) =
          (p.withTun tunName info, p.noRoutes || env.routes) := by
        rw [withTun]
        split_ifs with hn
        · rw [hn]
          rfl
        · rw [Bool.not_eq_true] at hn
          rw [hn]
          rfl
      have hserver (hn : p.noRoutes = true) : (p.withTun tunName info).serverIpStr = p.serverIpStr := if_pos hn
      rw [hroutes]
      cases p.noRoutes || env.routes with
      | false =>
        exact .inl ⟨_, rfl, aborted_cleanupKillswitch env tunName (p.hasV6 || info.assigned6.isSome) rfl hserver⟩
      | true =>
        dsimp only
        have hrest := rest_setupKillswitch env (p.withTun tunName info)
        cases hsetup : (p.withTun tunName info).setupKillswitch env with
        | mk q ok =>
          rw [hsetup] at hrest
          cases ok with
          | false => exact .inl ⟨_, rfl, aborted_cleanupKillswitch env tunName _ hrest hserver⟩
          | true =>
            dsimp only
            split_ifs
            · exact .inr ⟨tunName, rfl, q, hsetup, rfl⟩
            · exact .inl ⟨_, rfl, aborted_cleanupKillswitch env tunName _ hrest hserver⟩

/-! ## Runs -/

/-- The callback leaves the rules of the kill switch in place and, if it adds them,
    adds those of IPv6 as well.

    Once the tunnel was set up, the client does not reconnect or close, and neither
    the server's address nor the device changes. The set-up starts with empty chains. -/
def Keeps (p : Platform) (cb : Callback) : Prop :=
  match cb.output with
  | .stateChanged _ new => p.ready = true → new ≠ .reconnecting ∧ new ≠ .closed
  | .reconnectScheduled _ => p.ready = true → ∀ addr ∈ cb.env.resolved, addr = p.serverAddr
  | .tunnelConfigReady info =>
    if p.ready then
      (p.cbTunnelConfigReady cb.env info).2 = true ∧ cb.env.tunCreate = some p.tunName
    else
      (p.cbTunnelConfigReady cb.env info).2 = true → p.chain .v4 = [] ∧ p.chain .v6 = [] ∧
        (p.serverAddr.family = .v6 ∨
          (p.hasV6 || info.assigned6.isSome) = true ∧ cb.env.ok ⟨.v6, .append, p.dropAll⟩ 0 = true)
  | .tunnelClosed | .readyForTun | .mtuUpdated _ => True

instance (p : Platform) : (cb : Callback) → Decidable (p.Keeps cb)
  | ⟨.stateChanged _ _, _⟩ => inferInstanceAs (Decidable (_ → _))
  | ⟨.reconnectScheduled _, env⟩ =>
    inferInstanceAs (Decidable (_ → ∀ addr ∈ env.resolved, addr = p.serverAddr))
  | ⟨.tunnelConfigReady _, _⟩ => inferInstanceAs (Decidable (ite ..))
  | ⟨.tunnelClosed, _⟩ => .isTrue trivial
  | ⟨.readyForTun, _⟩ => .isTrue trivial
  | ⟨.mtuUpdated _, _⟩ => .isTrue trivial

/-- The rules are in place once the tunnel was set up, and not before. -/
structure Sound (p : Platform) : Prop where
  enabled : p.killswitchEnabled = true
  noRoutes : p.noRoutes = true → p.serverIpStr = none
  inactive : p.ready = false → p.killswitchActive = false
  armed : p.ready = true → p.Armed

namespace Sound

theorem cleanupKillswitch (h : p.Sound) (hr : p.ready = false) (env : Env) :
    (p.cleanupKillswitch env).Sound := by
  rw [Platform.cleanupKillswitch, if_pos (h.inactive hr)]
  exact h

/-- The first set-up. -/
theorem setup (h : p.Sound) (hr : p.ready = false) {tunName : String} {info : TunnelInfo}
    (hs : (p.withTun tunName info).setupKillswitch env = (q, true))
    (hempty : p.chain .v4 = [] ∧ p.chain .v6 = [])
    (h6 : p.serverAddr.family = .v6 ∨
      (p.hasV6 || info.assigned6.isSome) = true ∧ env.ok ⟨.v6, .append, p.dropAll⟩ 0 = true) :
    ({ q with ready := true } : Platform).Sound := by
  have hserver := serverIpStr_of_setupKillswitch (p := p.withTun tunName info) h.enabled (h.inactive hr) hs
  have hroutes : p.noRoutes = false := by
    by_contra hn
    rw [Bool.not_eq_false] at hn
    exact hserver ((if_pos hn).trans (h.noRoutes hn))
  obtain ⟨hgrows, hactive, h4, h6'⟩ :=
    setupKillswitch_spec (p := p.withTun tunName info) h.enabled (h.inactive hr) hs
  have honly : (p.withTun tunName info).Only := by
    intro tool r hmem
    have hnil : p.chain tool = [] := by
      cases tool with
      | v4 => exact hempty.1
      | v6 => exact hempty.2
    change r ∈ p.chain tool at hmem
    rw [hnil] at hmem
    cases hmem
  have hq : q.serverIpStr = some q.serverAddr := by
    rw [serverIpStr_congr hgrows.rest, serverAddr_congr hgrows.rest]
    exact if_neg (by rw [hroutes]; simp)
  refine ⟨(killswitchEnabled_congr hgrows.rest).trans h.enabled, fun hn => ?_, fun hn => ?_, fun _ => ?_⟩
  · have hn' := (noRoutes_congr hgrows.rest).symm.trans hn
    change p.noRoutes = true at hn'
    rw [hroutes] at hn'
    cases hn'
  · cases hn
  · refine ⟨hactive, hq, hgrows.only honly, fun tool => ?_⟩
    change q.dropAll ∈ q.chain tool
    rw [dropAll_congr hgrows.rest]
    cases tool with
    | v4 => exact h4
    | v6 => exact h6' h6

/-- A set-up of the tunnel while the rules are in place. -/
theorem again (h : p.Sound) (hr : p.ready = true) {info : TunnelInfo}
    (hs : (p.withTun p.tunName info).setupKillswitch env = (q, true)) :
    ({ q with ready := true } : Platform).Sound := by
  have harmed := h.armed hr
  have hsame : p.withTun p.tunName info = { p with hasV6 := p.hasV6 || info.assigned6.isSome } := by
    rw [withTun, ← harmed.server, ite_self]
  rw [hsame, setupKillswitch, if_pos (.inr harmed.active)] at hs
  cases hs
  refine ⟨h.enabled, h.noRoutes, fun hn => ?_, fun _ => ?_⟩
  · cases hn
  · exact ⟨harmed.active, harmed.server, harmed.only, harmed.drop⟩

theorem abort (h : p.Sound) (hr : p.ready = false) (ha : Aborted p q) : q.Sound := by
  refine ⟨ha.enabled.trans h.enabled, fun hn => ?_, fun _ => ha.inactive, fun hq => ?_⟩
  · rw [ha.noRoutes] at hn
    exact (ha.server hn).trans (h.noRoutes hn)
  · rw [ha.ready, hr] at hq
    cases hq

theorem cbTunnelConfigReady (h : p.Sound) {info : TunnelInfo}
    (hk : p.Keeps ⟨.tunnelConfigReady info, env⟩) : (p.cbTunnelConfigReady env info).1.Sound := by
  rw [Keeps] at hk
  dsimp only at hk
  rcases cbTunnelConfigReady_cases p env info with ⟨q, he, ha⟩ | ⟨tunName, htun, q, hs, he⟩
  · rw [he] at hk ⊢
    split_ifs at hk with hr
    · cases hk.1
    · exact h.abort (by simpa using hr) ha
  · rw [he] at hk ⊢
    split_ifs at hk with hr
    · cases Option.some.inj (htun.symm.trans hk.2)
      exact h.again hr hs
    · obtain ⟨h4, h6, hv6⟩ := hk rfl
      exact h.setup (by simpa using hr) hs ⟨h4, h6⟩ hv6

theorem step (h : p.Sound) {cb : Callback} (hk : p.Keeps cb) : (p.step cb).Sound := by
  obtain ⟨output, env⟩ := cb
  cases output with
  | tunnelConfigReady info => exact h.cbTunnelConfigReady hk
  | stateChanged old new =>
    change (p.cbStateChanged env new).Sound
    rw [cbStateChanged]
    split_ifs with hnew
    · have hr : p.ready = false := by
        by_contra hr
        have hkept := hk (by simpa using hr)
        exact hnew.elim hkept.1 hkept.2
      exact h.cleanupKillswitch hr env
    · exact h
  | reconnectScheduled delay =>
    change (p.cbReconnectScheduled env).Sound
    rw [cbReconnectScheduled]
    cases hres : env.resolved with
    | none => exact h
    | some addr =>
      refine ⟨h.enabled, h.noRoutes, h.inactive, fun hr => ?_⟩
      rw [hk hr addr hres]
      exact h.armed hr
  | tunnelClosed => exact h
  | readyForTun => exact h
  | mtuUpdated mtu => exact h

end Sound

theorem sound_run {cfg : Config} (hks : cfg.killSwitch = true) {cbs : List Callback}
    (h : Along step Keeps (init cfg) cbs) : ((init cfg).run cbs).Sound :=
  foldl_of_along (J := Sound) (fun _ _ hp hk => hp.step hk)
    ⟨hks, fun _ => rfl, fun _ => rfl, fun hr => by cases hr⟩ h

/-- Once the tunnel was set up, only the tunnel and the server are reached, in every
    run that leaves the rules in place. -/
theorem blocks_run {cfg : Config} (hks : cfg.killSwitch = true) {cbs : List Callback}
    (h : Along step Keeps (init cfg) cbs) (hr : ((init cfg).run cbs).ready = true) :
    ((init cfg).run cbs).Blocks :=
  ((sound_run hks h).armed hr).blocks

/-- A server with an IPv4 address. -/
def sampleConfig : Config where
  serverAddr := ⟨.v4, [192, 168, 100, 2]⟩
  serverPort := 4433
  pid := 1000

/-- The callbacks in a run of the client, where nothing fails. -/
def sampleCallbacks (steps : List Step) : List Callback :=
  ((Client.init Client.sampleConfig).run steps).trace.map fun output => { output }

/-- The client gets an IPv4 and an IPv6 address, and is established. -/
def dualStack : List Step :=
  [⟨1, .addPathFd 3 none sampleXquic⟩, ⟨2, .connect { h3Connect := some 1200 }⟩,
    ⟨3, .handshakeFinished 1202 (some 0)⟩, ⟨4, .requestHeaders true false⟩,
    ⟨5, .requestBody [.addressAssign [sampleAddress,
      { ipVersion := 6, ip := List.replicate 16 1, prefixLen := 112 }]] true⟩,
    ⟨6, .setTunActive true⟩]

theorem blocks_run_sample :
    ((init sampleConfig).run (sampleCallbacks dualStack)).ready = true ∧
      ((init sampleConfig).run (sampleCallbacks dualStack)).Blocks :=
  ⟨by decide, blocks_run rfl (by decide) (by decide)⟩

/-- With an IPv4 address only, IPv6 is not blocked; and with both, nothing is once the
    connection is lost. -/
theorem not_blocks :
    (((init sampleConfig).run (sampleCallbacks sampleSetUp)).ready = true ∧
      ¬((init sampleConfig).run (sampleCallbacks sampleSetUp)).Blocks) ∧
    (((init sampleConfig).run (sampleCallbacks (dualStack ++ [⟨7, .connClose⟩]))).ready = true ∧
      ¬((init sampleConfig).run (sampleCallbacks (dualStack ++ [⟨7, .connClose⟩]))).Blocks) := by
  refine ⟨⟨by decide, fun h => ?_⟩, ⟨by decide, fun h => ?_⟩⟩
  · exact absurd (h ⟨"eth0", ⟨.v6, List.replicate 16 2⟩, false, 0⟩ (by decide)) (by decide)
  · exact absurd (h ⟨"eth0", ⟨.v4, [8, 8, 8, 8]⟩, false, 0⟩ (by decide)) (by decide)

/-- In such a run, all packets go out once the client reconnects or closes, if the
    commands of the clean-up work. -/
theorem accept_stateChanged {cfg : Config} (hks : cfg.killSwitch = true) {cbs : List Callback}
    (h : Along step Keeps (init cfg) cbs) (hr : ((init cfg).run cbs).ready = true) {old new : State}
    (hnew : new = .reconnecting ∨ new = .closed) {env : Env} (hok : ∀ cmd n, env.ok cmd n = true)
    (x : Packet) :
    (((init cfg).run cbs).step ⟨.stateChanged old new, env⟩).verdict x = .accept := by
  have harmed := (sound_run hks h).armed hr
  change (Platform.cbStateChanged _ env new).verdict x = .accept
  rw [cbStateChanged, if_pos hnew, verdict, harmed.chain_cleanupKillswitch hok]
  exact verdict_nil ..

end Mqvpn.Platform
