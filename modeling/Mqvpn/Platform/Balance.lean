import Mqvpn.Client.Transitions
import Mqvpn.Platform.KillSwitch

/-!
# Set-up and clean-up of the kill switch

The clean-up does not know which rules the set-up has added: it deletes those of the
server and the device as they are at that moment, each as often as it is there. As
long as neither changes while the kill switch is on, that is all that the set-up may
have added, wherever it has stopped (`chain_cleanupKillswitch_eq`). The client asks
for a new address of the server only once it has told of RECONNECTING, which turns
the kill switch off (`scheduled_run`).

So the chains are as they were whenever the kill switch is off, after any number of
set-ups and clean-ups (`balanced_run`).
-/

namespace Mqvpn.Platform

open Client Runs FirstMatch

variable {p q : Platform} {env : Env} {cmd : Command}

/-- A rule that is present can always be deleted. -/
def Env.Deletes (env : Env) : Prop := ∀ tool rule n, env.ok ⟨tool, .delete, rule⟩ n = true

/-- The rules of a chain that are not those of the kill switch. -/
def others (p : Platform) (tool : Family) : List Rule := (p.chain tool).filter (· ∉ p.own tool)

/-! ## Clean-up -/

theorem chain_deleteAll (hok : env.Deletes) (tool tool' : Family) (rule : Rule) :
    (p.deleteAll env tool rule).chain tool' =
      (p.chain tool').filter fun r => ¬(tool' = tool ∧ r = rule) := by
  rw [deleteAll, chain_runLoop, eraseLoop_eq_filter (hok tool rule) rule 0 (Nat.le_refl _)]
  by_cases ht : tool' = tool
  · subst ht
    rw [Function.update_self]
    simp
  · rw [Function.update_of_ne ht]
    simp [ht]

/-- The clean-up deletes the rules of the kill switch, and no others. -/
theorem chain_cleanupKillswitch_eq (ha : p.killswitchActive = true) (hok : env.Deletes) (tool : Family) :
    (p.cleanupKillswitch env).chain tool = p.others tool := by
  rw [cleanupKillswitch, if_neg (by rw [ha]; simp), others, own]
  dsimp only
  -- The rules of a family are deleted in two places, which depend on the server.
  by_cases h6 : p.serverAddr.family = .v6
  · rw [if_pos h6, if_pos h6]
    simp only [chain_deleteAll hok, List.filter_filter, h6]
    refine List.filter_congr fun r _ => Bool.eq_iff_iff.2 ?_
    cases tool <;> simp <;> tauto
  · have h4 : p.serverAddr.family = .v4 := by
      cases hf : p.serverAddr.family
      exacts [rfl, absurd hf h6]
    rw [if_neg h6, if_neg h6]
    simp only [chain_deleteAll hok, List.filter_filter, h4]
    refine List.filter_congr fun r _ => Bool.eq_iff_iff.2 ?_
    cases tool <;> simp <;> tauto

/-! ## Set-up -/

/-- Rules of the kill switch may have been added, and nothing else was done. -/
structure Adding (p q : Platform) : Prop where
  rest : q.rest = p.rest
  kept : q.others = p.others

namespace Adding

theorem refl (p : Platform) : Adding p p := ⟨rfl, rfl⟩

theorem trans {r : Platform} (h : Adding p q) (h' : Adding q r) : Adding p r :=
  ⟨h'.rest.trans h.rest, h'.kept.trans h.kept⟩

/-- A rule of the kill switch is not among the others, wherever it is put. -/
theorem runIptablesCmd (env : Env) (h : p.Adds cmd) (n : Nat) : Adding p (p.runIptablesCmd env cmd n).1 := by
  refine ⟨rest_runIptablesCmd .., ?_⟩
  rcases runIptablesCmd_cases p env cmd n with he | ⟨chain, ha, he⟩
  · rw [he]
  · rw [he]
    funext tool
    change (Function.update p.chain cmd.tool chain tool).filter (· ∉ p.own tool) = p.others tool
    by_cases ht : tool = cmd.tool
    · subst ht
      rw [Function.update_self, others]
      rw [Command.apply] at ha
      split at ha
      · split_ifs at ha
        cases ha
        simp [h.2]
      · split_ifs at ha
        cases ha
        simp [h.2]
      · rename_i hop
        exact absurd hop h.1
    · rw [Function.update_of_ne ht, others]

theorem runAll (env : Env) {cmds : List Command} (h : ∀ cmd ∈ cmds, p.Adds cmd) :
    Adding p (Platform.runAll env cmds p).1 := by
  induction cmds generalizing p with
  | nil => exact .refl p
  | cons cmd cmds ih =>
    have hadding := Adding.runIptablesCmd env (h cmd List.mem_cons_self) 0
    rw [Platform.runAll]
    generalize p.runIptablesCmd env cmd 0 = r at hadding
    obtain ⟨q, ok⟩ := r
    cases ok with
    | false => exact hadding
    | true =>
      exact hadding.trans (ih fun cmd hmem => (h cmd (List.mem_cons_of_mem _ hmem)).congr hadding.rest)

theorem setupTunnel6 (p : Platform) (env : Env) : Adding p (p.setupTunnel6 env) := by
  rw [Platform.setupTunnel6]
  split_ifs with hv6
  · have h₁ := Adding.runIptablesCmd env (adds_acceptOut (p := p) .insert (by simp) .v6 (.inl rfl)) 0
    generalize (p.runIptablesCmd env ⟨.v6, .insert, p.acceptOut p.tunName⟩ 0).1 = p₁ at h₁
    dsimp only
    split_ifs with h6
    · exact h₁
    · have h₂ := Adding.runIptablesCmd env (adds_acceptOut (p := p₁) .insert (by simp) .v6 (.inr rfl)) 0
      generalize (p₁.runIptablesCmd env ⟨.v6, .insert, p₁.acceptOut "lo"⟩ 0).1 = p₂ at h₂
      exact (h₁.trans h₂).trans (Adding.runIptablesCmd env (adds_dropAll (p := p₂) .append (by simp) .v6) 0)
  · exact .refl p

end Adding

/-- A set-up adds rules of the kill switch, or it fails and leaves none of them. -/
theorem setupKillswitch_cases (he : p.killswitchEnabled = true) (ha : p.killswitchActive = false)
    (hok : env.Deletes) :
    (∃ q, p.setupKillswitch env = (q, true) ∧ Adding p q ∧ q.killswitchActive = true ∧ p.dropAll ∈ q.chain .v4) ∨
      ∃ q, p.setupKillswitch env = (q, false) ∧ q.rest = p.rest ∧ q.killswitchActive = false ∧
        ∀ tool, q.chain tool = p.others tool := by
  have hundo {r : Platform} (hr : Adding p r) (hon : r.killswitchActive = true) :
      (r.cleanupKillswitch env).rest = p.rest ∧ (r.cleanupKillswitch env).killswitchActive = false ∧
        ∀ tool, (r.cleanupKillswitch env).chain tool = p.others tool :=
    ⟨(rest_cleanupKillswitch env r).trans hr.rest, killswitchActive_cleanupKillswitch env r, fun tool =>
      (chain_cleanupKillswitch_eq hon hok tool).trans (congrFun hr.kept tool)⟩
  have hspec (q : Platform) (hq : p.setupKillswitch env = (q, true)) := setupKillswitch_spec he ha hq
  rw [setupKillswitch, if_neg (by simp [he, ha])] at hspec ⊢
  have h₁ := Adding.runAll env (adds_rules4 (p := p))
  generalize runAll env p.rules4 p = r₁ at hspec h₁ ⊢
  obtain ⟨p₁, ok₁⟩ := r₁
  have hon₁ : Adding p { p₁ with killswitchActive := true } := ⟨h₁.rest, h₁.kept⟩
  cases ok₁ with
  | false => exact .inr ⟨_, rfl, hundo hon₁ rfl⟩
  | true =>
    have hadds := adds_rulesServer (p := { p₁ with killswitchActive := true })
    have h₂ := Adding.runAll env hadds
    have hon₂ := (grows_runAll env _ hadds).1.active rfl
    change Adding _ (runAll env p₁.rulesServer _).1 at h₂
    change (runAll env p₁.rulesServer _).1.killswitchActive = true at hon₂
    dsimp only at hspec ⊢
    generalize runAll env p₁.rulesServer { p₁ with killswitchActive := true } = r₂ at hspec h₂ hon₂ ⊢
    obtain ⟨p₂, ok₂⟩ := r₂
    have hadding := hon₁.trans h₂
    cases ok₂ with
    | false => exact .inr ⟨_, rfl, hundo hadding hon₂⟩
    | true =>
      obtain ⟨-, hon, hdrop, -⟩ := hspec _ rfl
      exact .inl ⟨_, rfl, hadding.trans (.setupTunnel6 p₂ env), hon, hdrop⟩

theorem killswitchActive_cbReconnectScheduled (env : Env) (p : Platform) :
    (p.cbReconnectScheduled env).killswitchActive = p.killswitchActive := by
  rw [cbReconnectScheduled]
  cases env.resolved with
  | none => rfl
  | some serverAddr => rfl

/-! ## Runs -/

/-- A call of the kill switch, or what happens to the platform around it. -/
inductive Act
  | setUp (env : Env)
  | cleanUp (env : Env)
  /-- `cb_reconnect_scheduled` -/
  | reconnectScheduled (env : Env)
  /-- The start of `cb_tunnel_config_ready`, up to the kill switch. -/
  | configured (tunName : String) (info : TunnelInfo)

def act (p : Platform) : Act → Platform
  | .setUp env => (p.setupKillswitch env).1
  | .cleanUp env => p.cleanupKillswitch env
  | .reconnectScheduled env => p.cbReconnectScheduled env
  | .configured tunName info => p.withTun tunName info

/-- The server and the device change between the rounds of the kill switch, and a rule
    that is present can always be deleted. -/
def Between (p : Platform) : Act → Prop
  | .setUp env | .cleanUp env => env.Deletes
  | .reconnectScheduled _ | .configured .. => p.killswitchActive = false

/-- The chains are the initial ones, but for the rules of a kill switch that is on. -/
structure Balanced (p₀ p : Platform) : Prop where
  pid : p.pid = p₀.pid
  off : p.killswitchActive = false → p.chain = p₀.chain
  kept : ∀ tool, p.others tool = p₀.chain tool
  on : p.killswitchActive = true → p.dropAll ∈ p.chain .v4

/-- The chains hold no rule with the comment of this process. -/
def Untagged (p : Platform) : Prop := ∀ tool, ∀ r ∈ p.chain tool, r.pid ≠ p.pid

theorem pid_of_mem_own {tool : Family} {r : Rule} (h : r ∈ p.own tool) : r.pid = p.pid := by
  rw [own] at h
  rcases List.mem_append.1 h with h | h
  · simp only [List.mem_cons, List.not_mem_nil, or_false] at h
    rcases h with rfl | rfl | rfl <;> rfl
  · split_ifs at h
    · rw [List.mem_singleton.1 h]
      rfl
    · exact absurd h List.not_mem_nil

theorem pid_congr (h : q.rest = p.rest) : q.pid = p.pid := by
  change q.rest.pid = p.rest.pid
  rw [h]

/-- Without tagged rules, all rules are others, whatever the server and the device. -/
theorem Untagged.others (h : p.Untagged) (tool : Family) : p.others tool = p.chain tool := by
  refine List.filter_eq_self.2 fun r hr => ?_
  simpa using fun hown => h tool r hr (pid_of_mem_own hown)

theorem Balanced.untagged {p₀ : Platform} (h : Balanced p₀ p) (h₀ : p₀.Untagged) (hoff : p.killswitchActive = false) :
    p.Untagged := by
  intro tool r hr
  rw [h.off hoff] at hr
  rw [h.pid]
  exact h₀ tool r hr

theorem balanced_of_off {p₀ : Platform} (h₀ : p₀.Untagged) (hpid : p.pid = p₀.pid)
    (hoff : p.killswitchActive = false) (hchain : p.chain = p₀.chain) : Balanced p₀ p := by
  have hun : p.Untagged := by
    intro tool r hr
    rw [hchain] at hr
    rw [hpid]
    exact h₀ tool r hr
  refine ⟨hpid, fun _ => hchain, fun tool => (hun.others tool).trans (congrFun hchain tool), fun hon => ?_⟩
  exact absurd (hon.symm.trans hoff) (by simp)

theorem Balanced.cleanupKillswitch {p₀ : Platform} (h : Balanced p₀ p) (hok : env.Deletes) :
    (p.cleanupKillswitch env).chain = p₀.chain := by
  cases hon : p.killswitchActive with
  | false =>
    rw [Platform.cleanupKillswitch, if_pos hon]
    exact h.off hon
  | true =>
    funext tool
    rw [chain_cleanupKillswitch_eq hon hok, h.kept]

theorem Balanced.setupKillswitch {p₀ : Platform} (h : Balanced p₀ p) (h₀ : p₀.Untagged) (hok : env.Deletes) :
    Balanced p₀ (p.setupKillswitch env).1 ∧
      ((p.setupKillswitch env).2 = false → (p.setupKillswitch env).1.killswitchActive = false) := by
  by_cases hnoop : p.killswitchEnabled = false ∨ p.killswitchActive = true
  · rw [Platform.setupKillswitch, if_pos hnoop]
    refine ⟨h, fun hfail => ?_⟩
    exact absurd hfail (by simp)
  · push Not at hnoop
    have he : p.killswitchEnabled = true := by simpa using hnoop.1
    have ha : p.killswitchActive = false := by simpa using hnoop.2
    rcases setupKillswitch_cases he ha hok with ⟨q, hq, hadding, hon, hdrop⟩ | ⟨q, hq, hrest, hoff, hchain⟩
    · rw [hq]
      refine ⟨⟨(pid_congr hadding.rest).trans h.pid, fun hoff => ?_, fun tool => ?_, fun _ => ?_⟩, fun hfail => ?_⟩
      · exact absurd (hon.symm.trans hoff) (by simp)
      · rw [hadding.kept, h.kept]
      · rw [dropAll_congr hadding.rest]
        exact hdrop
      · exact absurd hfail (by simp)
    · rw [hq]
      refine ⟨balanced_of_off h₀ ((pid_congr hrest).trans h.pid) hoff ?_, fun _ => hoff⟩
      funext tool
      rw [hchain, h.kept]

theorem Balanced.act {p₀ : Platform} (h : Balanced p₀ p) (h₀ : p₀.Untagged) {a : Act} (hb : p.Between a) :
    Balanced p₀ (p.act a) := by
  cases a with
  | setUp env => exact (h.setupKillswitch h₀ hb).1
  | cleanUp env =>
    have hpid : (p.cleanupKillswitch env).pid = p.pid := pid_congr (rest_cleanupKillswitch env p)
    exact balanced_of_off h₀ (hpid.trans h.pid) (killswitchActive_cleanupKillswitch env p) (h.cleanupKillswitch hb)
  | reconnectScheduled env =>
    change Balanced p₀ (p.cbReconnectScheduled env)
    rw [cbReconnectScheduled]
    cases env.resolved with
    | none => exact h
    | some serverAddr => exact balanced_of_off h₀ h.pid hb (h.off hb)
  | configured tunName info => exact balanced_of_off h₀ h.pid hb (h.off hb)

/-- While the kill switch is on, there is a rule of this process, and only then. -/
theorem Balanced.active_iff {p₀ : Platform} (h : Balanced p₀ p) (h₀ : p₀.Untagged) :
    p.killswitchActive = true ↔ ∃ tool, ∃ r ∈ p.chain tool, r.pid = p.pid := by
  refine ⟨fun hon => ⟨.v4, p.dropAll, h.on hon, rfl⟩, fun ⟨tool, r, hr, hpid⟩ => ?_⟩
  by_contra hoff
  exact h.untagged h₀ (by simpa using hoff) tool r hr hpid

theorem balanced_foldl {p₀ : Platform} (hoff : p₀.killswitchActive = false) (h₀ : p₀.Untagged) {acts : List Act}
    (h : Along act Between p₀ acts) : Balanced p₀ (acts.foldl act p₀) :=
  foldl_of_along (J := Balanced p₀) (fun _ _ hp hb => hp.act h₀ hb) (balanced_of_off h₀ rfl hoff rfl) h

/-- The chains are the initial ones after each clean-up, after each set-up that has
    failed, and whenever the kill switch is off; it is on exactly while they hold a
    rule of this process. -/
theorem balanced_run {p₀ : Platform} (hoff : p₀.killswitchActive = false) (h₀ : p₀.Untagged) {acts : List Act}
    (h : Along act Between p₀ acts) :
    let p := acts.foldl act p₀
    (p.killswitchActive = true ↔ ∃ tool, ∃ r ∈ p.chain tool, r.pid = p.pid) ∧
      (p.killswitchActive = false → p.chain = p₀.chain) ∧
      (∀ env : Env, env.Deletes →
        (p.cleanupKillswitch env).chain = p₀.chain ∧ (p.cleanupKillswitch env).killswitchActive = false) ∧
      ∀ env : Env, env.Deletes → (p.setupKillswitch env).2 = false →
        (p.setupKillswitch env).1.chain = p₀.chain ∧ (p.setupKillswitch env).1.killswitchActive = false := by
  intro p
  have hp : Balanced p₀ p := balanced_foldl hoff h₀ h
  refine ⟨hp.active_iff h₀, hp.off, fun env hok => ?_, fun env hok hfail => ?_⟩
  · exact ⟨hp.cleanupKillswitch hok, killswitchActive_cleanupKillswitch env p⟩
  · obtain ⟨hq, hinactive⟩ := hp.setupKillswitch h₀ hok
    exact ⟨hq.off (hinactive hfail), hinactive hfail⟩

/-- The tunnel has an IPv4 and an IPv6 address. -/
def sampleInfo : TunnelInfo where
  assigned := sampleAddress.toAddress
  serverIp := [10, 0, 0, 1]
  serverPrefixLen := 24
  mtu := 1280
  assigned6 := some ⟨List.replicate 16 1, 112⟩

/-- The chain of iptables has a rule of another process. -/
def sampleShared : Platform :=
  { init sampleConfig with
    chain := fun tool => if tool = .v4 then [⟨.out "eth0", .drop, 1⟩] else [] }

/-- Commands for the server fail. -/
def sampleRefusing : Env where
  ok cmd _ := match cmd.op, cmd.rule.matching with
    | .insert, .udpTo .. => false
    | _, _ => true

/-- A set-up fails; the next two are for a server with an IPv4 and an IPv6 address. -/
def sampleRounds : List Act :=
  [.configured "mqvpn0" sampleInfo, .setUp sampleRefusing, .setUp {}, .cleanUp {},
    .reconnectScheduled { resolved := some ⟨.v6, List.replicate 16 1⟩ },
    .configured "mqvpn1" sampleInfo, .setUp {}]

theorem balanced_run_sample :
    (sampleRounds.foldl act sampleShared).killswitchActive = true ∧
      ((sampleRounds.foldl act sampleShared).cleanupKillswitch {}).chain = sampleShared.chain := by
  have hok : ({} : Env).Deletes := fun _ _ _ => rfl
  have hrefusing : sampleRefusing.Deletes := fun _ _ _ => rfl
  have hun : sampleShared.Untagged := by
    intro tool
    cases tool with
    | v4 => decide
    | v6 => decide
  have hclean (p : Platform) (env : Env) : (p.act (.cleanUp env)).killswitchActive = false :=
    killswitchActive_cleanupKillswitch env p
  have hresolve (p : Platform) (env : Env) :
      (p.act (.reconnectScheduled env)).killswitchActive = p.killswitchActive :=
    killswitchActive_cbReconnectScheduled env p
  have halong : Along act Between sampleShared sampleRounds :=
    ⟨rfl, hrefusing, hok, hok, hclean _ _, (hresolve _ _).trans (hclean _ _), hok, trivial⟩
  exact ⟨by decide, ((balanced_run (by decide) hun halong).2.2.1 {} hok).1⟩

/-! ## The callbacks of the client -/

/-- A reconnect is scheduled while the kill switch is off. -/
def Scheduled (p : Platform) (cb : Callback) : Prop :=
  ∀ delay, cb.output = .reconnectScheduled delay → p.killswitchActive = false

theorem armed_of_step {on : Bool} (hon : p.killswitchActive = true → on = true) {cb : Callback}
    (hstep : (p.step cb).killswitchActive = true) : armed on cb.output = true := by
  obtain ⟨output, env⟩ := cb
  cases output with
  | tunnelConfigReady info => rfl
  | stateChanged old new =>
    change (p.cbStateChanged env new).killswitchActive = true at hstep
    rw [cbStateChanged] at hstep
    split_ifs at hstep with hnew
    · rw [killswitchActive_cleanupKillswitch] at hstep
      exact absurd hstep Bool.false_ne_true
    · push Not at hnew
      simp [armed, hon hstep, hnew]
  | reconnectScheduled delay =>
    change (p.cbReconnectScheduled env).killswitchActive = true at hstep
    rw [killswitchActive_cbReconnectScheduled] at hstep
    exact hon hstep
  | tunnelClosed => exact hon hstep
  | readyForTun => exact hon hstep
  | mtuUpdated mtu => exact hon hstep

theorem scheduled_of_disarms (on : Bool) {cbs : List Callback} (hon : p.killswitchActive = true → on = true)
    (h : Along armed Disarms on (cbs.map Callback.output)) : Along step Scheduled p cbs := by
  induction cbs generalizing p on with
  | nil => trivial
  | cons cb cbs ih =>
    obtain ⟨hd, h⟩ := h
    refine ⟨fun delay ho => ?_, ih _ (armed_of_step hon) h⟩
    rw [ho] at hd
    by_contra hactive
    exact absurd ((hon (by simpa using hactive)).symm.trans hd) (by simp)

/-- Whatever the callbacks of a client meet, the server's name is resolved again only
    while the kill switch is off. -/
theorem scheduled_run (cfg : Config) (cfg' : Client.Config) (steps : List Step) {cbs : List Callback}
    (h : cbs.map Callback.output = ((Client.init cfg').run steps).trace) :
    Along step Scheduled (init cfg) cbs := by
  refine scheduled_of_disarms false (fun hon => ?_) ?_
  · exact absurd hon (by simp [init])
  · rw [h]
    exact (tidy_run cfg' steps).along

end Mqvpn.Platform
