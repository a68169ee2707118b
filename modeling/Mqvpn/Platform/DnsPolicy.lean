import Mqvpn.Platform.DnsAuthority
import Mqvpn.Platform.DnsRoundTrip

/-!
# The failure policy of DNS on macOS

After every call, the lock is to be held exactly while `active` is set; and an apply that fails
and leaves `active` clear is to leave no backup that was not there before, and every service as
it was or as the backup says (`Policy`). The lock always is. The backup is left behind when the
directory cannot be flushed after the file has taken its place, or the file cannot be removed
after the services have been set back. A service whose saved value is not what it had is
changed by the roll back. In a run in which none of this happens (`Heeds`), every call keeps
the policy (`policy_run`), whatever else fails.
-/

namespace Mqvpn.DarwinDns

open Text

variable {w₀ w w' : World} {m : Mem} {services : List (List Char)} {text : List Char}
  {P : Call → Env → World → Prop}

/-! ## The policy -/

/-- The service has what a line of the backup says. -/
def BackedUp (text : List Char) (service value : List Char) : Prop :=
  ∃ servers args, some (service, servers) ∈ records (pieces text []) false ∧ restoreArgs servers = some args ∧
    value = display service args

/-- A failure has left no backup behind, and no service with anything new. -/
structure Harmless (w₀ w : World) : Prop where
  backup : w.backup.isSome = true → w₀.backup.isSome = true
  dns : ∀ service, w.dns service = w₀.dns service ∨ ∃ text ∈ w₀.backup, BackedUp text service (w.dns service)

/-- A call and what the environment decides during it. -/
abbrev Request := Op × (Nat → Env)

/-- The memory and the world after a call. -/
def next (s : Mem × World) (c : Request) : Mem × World := run (machine.code c.1 s.1) c.2 s.2

/-- The lock goes with the flag, and an apply that ends with it clear has done no harm. -/
structure Policy (s : Mem × World) (c : Request) : Prop where
  lock : (next s c).1.lockFd = true ↔ (next s c).1.active = true
  harmless : ∀ servers, c.1 = .apply servers → (next s c).1.active = false → Harmless s.2 (next s c).2

/-! ## The condition -/

/-- What would be set back for the service is what it has. -/
def Kept (service output : List Char) : Prop := ∀ args ∈ restoreArgs (recorded output), display service args = output

instance (service output : List Char) : Decidable (Kept service output) :=
  inferInstanceAs (Decidable (∀ args ∈ restoreArgs (recorded output), _))

/-- Lists of addresses are kept. -/
theorem kept_shown {list : List (List Char)} (hip : ∀ server ∈ list, IsIp server) (service : List Char) :
    Kept service (shown service list) := by
  intro args hargs
  rw [restoreArgs_recorded hip] at hargs
  split_ifs at hargs with hmany hnil
  · cases hargs
  · cases hargs
    rw [shown, if_pos hnil]
  · cases hargs
    rw [shown, if_neg hnil]

/-- The directory can be flushed, a backup of this apply can be removed, and only values that
    can be set back are saved. -/
def Heeds (w₀ : World) : Call → Env → World → Prop
  | .flushDir, e, _ => e.ok = true
  | .unlinkBackup, e, _ => w₀.backup.isSome = true ∨ e.ok = true
  | .getDns service, _, w => Kept service (w.dns service)
  | _, _, _ => True

instance (w₀ : World) (a : Call) (e : Env) (w : World) : Decidable (Heeds w₀ a e w) :=
  match a with
  | .flushDir => inferInstanceAs (Decidable (e.ok = true))
  | .unlinkBackup => inferInstanceAs (Decidable (_ ∨ _))
  | .getDns service => inferInstanceAs (Decidable (Kept service (w.dns service)))
  | .lock | .unlock | .listServices | .hasBackup | .unlinkTmp | .createTmp | .writeTmp _ | .flushTmp | .renameTmp
  | .readBackup | .setDns _ _ | .restoreDns _ _ => isTrue trivial

/-- An apply meets the condition at every call that it makes. -/
def Careful (s : Mem × World) (c : Request) : Prop :=
  match c.1 with
  | .apply servers => (apply servers s.1).Meets exec (Heeds s.2) c.2 s.2
  | .restore | .restoreStale => True

/-- The program ends with the postcondition, if its calls meet the condition. -/
abbrev Leads (P : Call → Env → World → Prop) {α : Type} (p : Prog Answer α) (Q : α → World → Prop) (w : World) : Prop :=
  p.Safe exec P (fun _ => True) Q w

theorem leads_quiet {α : Type} (a : Call) (ha : Quiet a) {f : Answer a → Prog Answer α} {Q : α → World → Prop}
    (hf : ∀ e w', P a e w → Same w w' → w' = (exec a e w).2 → Leads P (f (exec a e w).1) Q w') :
    Leads P (perform a >>= f) Q w :=
  Prog.safe_call trivial fun e he => hf e _ he (same_exec ha e w) rfl

theorem Harmless.of_same (hs : Same w₀ w) : Harmless w₀ w :=
  ⟨fun h => hs.backup ▸ h, fun service => .inl (by rw [hs.dns])⟩

/-! ## The lock -/

theorem leads_releaseLock (m : Mem) :
    Leads P (releaseLock m) (fun m' w' => Same w w' ∧ m' = { m with lockFd := false }) w := by
  rw [releaseLock]
  split_ifs with hlock
  · exact leads_quiet .unlock trivial fun e w' _ hs _ => ⟨hs, rfl⟩
  · refine ⟨⟨rfl, rfl, rfl⟩, ?_⟩
    cases m
    simp_all

theorem leads_releaseLockIfInactive (hlock : m.lockFd = true) :
    Leads P (releaseLockIfInactive m) (fun m' w' => Same w w' ∧ m'.active = m.active ∧ m'.lockFd = m.active) w := by
  rw [releaseLockIfInactive]
  split_ifs with hactive
  · exact ⟨⟨rfl, rfl, rfl⟩, rfl, hlock.trans hactive.symm⟩
  · refine (leads_releaseLock m).mono fun m' w' h => ?_
    obtain ⟨hs, rfl⟩ := h
    exact ⟨hs, rfl, (Bool.not_eq_true _ ▸ hactive : m.active = false).symm⟩

theorem leads_acquireLock (m : Mem) :
    Leads P (acquireLock m) (fun r w' => Same w w' ∧ (r = none → m.lockFd = false) ∧
      ∀ m' ∈ r, m' = { m with lockFd := true }) w := by
  rw [acquireLock]
  split_ifs with hlock
  · refine ⟨⟨rfl, rfl, rfl⟩, fun h => absurd h (Option.some_ne_none m), fun m' hm' => ?_⟩
    cases hm'
    cases m
    simp_all
  · refine leads_quiet .lock trivial fun e w' _ hs _ => ?_
    split_ifs
    · exact ⟨hs, fun h => absurd h (Option.some_ne_none _), fun m' hm' => (Option.some.inj hm').symm⟩
    · exact ⟨hs, fun _ => Bool.not_eq_true _ ▸ hlock, fun m' hm' => absurd hm' (Option.not_mem_none m')⟩

/-! ## The backup is written -/

theorem leads_writeLines {lines : List (List Char)} (hdns : w.dns = w₀.dns) (htmp : w.tmp = some lines.flatten) :
    Leads (Heeds w₀) (writeLines services) (fun ok w' => Same w w' ∧ (ok = true → ∃ more, Saved w₀ services more ∧
      w'.tmp = some (lines ++ more).flatten ∧ ∀ service ∈ services, Kept service (w₀.dns service))) w := by
  induction services generalizing w lines with
  | nil =>
    refine ⟨⟨rfl, rfl, rfl⟩, fun _ => ⟨[], .nil, ?_, fun _ hs => absurd hs List.not_mem_nil⟩⟩
    rw [List.append_nil]
    exact htmp
  | cons service services ih =>
    -- a failure leaves nothing but the temporary file
    have hdiscard (w₁ : World) (hs₁ : Same w w₁) : Leads (Heeds w₀) discardTmp (fun ok w' => Same w w' ∧ (ok = true →
        ∃ more, Saved w₀ (service :: services) more ∧ w'.tmp = some (lines ++ more).flatten ∧
          ∀ service' ∈ service :: services, Kept service' (w₀.dns service'))) w₁ :=
      leads_quiet .unlinkTmp trivial fun e w₂ _ hs₂ _ => ⟨hs₁.trans hs₂, Bool.noConfusion⟩
    refine leads_quiet (.getDns service) trivial fun e w₁ hkept hs₁ hw₁ => ?_
    split
    · rename_i line hline
      rw [exec] at hline
      split_ifs at hline
      · refine leads_quiet (.writeTmp line) trivial fun e' w₂ _ hs₂ hw₂ => ?_
        have hs := hs₁.trans hs₂
        split_ifs with hok
        · have htmp₂ : w₂.tmp = some (lines ++ [line]).flatten := by
            rw [hw₂, exec]
            rw [exec] at hok
            split_ifs at hok ⊢
            rw [hw₁]
            change w.tmp.map _ = _
            rw [htmp]
            simp
          refine (ih (hs.dns.trans hdns) htmp₂).mono fun ok w₃ h => ⟨hs.trans h.1, fun hok' => ?_⟩
          obtain ⟨more, hmore, htmp₃, hall⟩ := h.2 hok'
          rw [hdns] at hline
          refine ⟨line :: more, .cons hline hmore, by simpa using htmp₃, fun service' hs' => ?_⟩
          rcases List.mem_cons.1 hs' with rfl | hs'
          · exact hdns ▸ hkept
          · exact hall service' hs'
        · exact hdiscard w₂ hs
      · cases hline
    · exact hdiscard w₁ hs₁

/-- The backup of an apply is made with what the services have, or not at all. -/
theorem leads_writeBackup (hdns : w.dns = w₀.dns) :
    Leads (Heeds w₀) (writeBackup services) (fun ok w' => w'.dns = w₀.dns ∧ (ok = false → w'.backup = w.backup) ∧
      (ok = true → ∃ lines, Saved w₀ services lines ∧ w'.backup = some lines.flatten ∧
        ∀ service ∈ services, Kept service (w₀.dns service))) w := by
  have hfail {w' : World} (hs : Same w w') : w'.dns = w₀.dns ∧ (false = false → w'.backup = w.backup) ∧
      (false = true → ∃ lines, Saved w₀ services lines ∧ w'.backup = some lines.flatten ∧
        ∀ service ∈ services, Kept service (w₀.dns service)) :=
    ⟨hs.dns.trans hdns, fun _ => hs.backup, Bool.noConfusion⟩
  have hdiscard (w₁ : World) (hs₁ : Same w w₁) : Leads (Heeds w₀) discardTmp (fun ok w' => w'.dns = w₀.dns ∧
      (ok = false → w'.backup = w.backup) ∧ (ok = true → ∃ lines, Saved w₀ services lines ∧
        w'.backup = some lines.flatten ∧ ∀ service ∈ services, Kept service (w₀.dns service))) w₁ :=
    leads_quiet .unlinkTmp trivial fun e w₂ _ hs₂ _ => hfail (hs₁.trans hs₂)
  refine leads_quiet .unlinkTmp trivial fun e w₁ _ hs₁ _ => ?_
  split_ifs
  · refine leads_quiet .createTmp trivial fun e' w₂ _ hs₂ hw₂ => ?_
    have hs := hs₁.trans hs₂
    split_ifs with hcreated
    · have htmp : w₂.tmp = some ([] : List (List Char)).flatten := by
        rw [hw₂, exec]
        rw [exec] at hcreated
        split_ifs at hcreated ⊢
        rfl
      refine (leads_writeLines (hs.dns.trans hdns) htmp).bind fun written w₃ h => ?_
      have hs' := hs.trans h.1
      split_ifs with hwritten
      · obtain ⟨lines, hlines, htmp₃, hkept⟩ := h.2 hwritten
        rw [List.nil_append] at htmp₃
        refine leads_quiet .flushTmp trivial fun e₄ w₄ _ hs₄ hw₄ => ?_
        have htmp₄ : w₄.tmp = some lines.flatten := by
          rw [hw₄]
          exact htmp₃
        have hs'' := hs'.trans hs₄
        split_ifs
        · refine Prog.safe_call trivial fun e₅ _ => ?_
          rcases renameTmp_cases htmp₄ e₅ with heq | heq
          · -- the directory is flushed, by the condition
            rw [heq]
            refine ⟨trivial, fun e₆ hflush => ?_⟩
            exact ⟨hs''.dns.trans hdns, fun hno => absurd (hflush.symm.trans hno) Bool.noConfusion,
              fun _ => ⟨lines, hlines, rfl, hkept⟩⟩
          · rw [heq]
            exact hdiscard w₄ hs''
        · exact hdiscard w₄ hs''
      · exact hfail hs'
    · exact hfail hs
  · exact hfail hs₁

/-! ## Services are set back -/

/-- Nothing else is set back, and if all goes well, everything that the filter lets through. -/
theorem leads_restoreRecords (filter : List Char → Bool) {rs : List (Option (List Char × List Char))} :
    Leads (Heeds w₀) (restoreRecords filter rs) (fun ok w' => w'.backup = w.backup ∧
      (∀ service, (filter service = true → ∀ servers, some (service, servers) ∉ rs) → w'.dns service = w.dns service) ∧
        (ok = true → ∀ service servers, filter service = true → some (service, servers) ∈ rs →
          ∃ servers' args, some (service, servers') ∈ rs ∧ restoreArgs servers' = some args ∧
            w'.dns service = display service args)) w := by
  induction rs generalizing w with
  | nil => exact ⟨rfl, fun _ _ => rfl, fun _ _ _ _ h => absurd h List.not_mem_nil⟩
  | cons r rs ih =>
    cases r with
    | none =>
      refine ih.bind fun ok w' h => ⟨h.1, fun service hno => h.2.1 service fun hf servers hmem => ?_, Bool.noConfusion⟩
      exact hno hf servers (List.mem_cons_of_mem _ hmem)
    | some record =>
      obtain ⟨service, servers⟩ := record
      rw [restoreRecords]
      split_ifs with hfilter
      · -- this service, and then the others
        have hone : Leads (Heeds w₀) (restoreOne service servers) (fun ok w' => w'.backup = w.backup ∧
            (∀ other, other ≠ service → w'.dns other = w.dns other) ∧
              (ok = true → ∃ args, restoreArgs servers = some args ∧ w'.dns service = display service args)) w := by
          rw [restoreOne]
          split
          · rename_i args hargs
            refine ⟨trivial, fun e _ => ?_⟩
            rw [exec]
            dsimp only
            split_ifs with heffect
            · exact ⟨rfl, fun other hother => Function.update_of_ne hother _ _,
                fun _ => ⟨args, hargs, Function.update_self _ _ _⟩⟩
            · exact ⟨rfl, fun _ _ => rfl, fun hok => absurd (.inl hok) heffect⟩
          · exact ⟨rfl, fun _ _ => rfl, Bool.noConfusion⟩
        refine hone.bind fun ok w₁ h₁ => ?_
        refine ih.bind fun ok' w₂ h₂ => ?_
        refine ⟨h₂.1.trans h₁.1, fun other hno => ?_, fun hok other servers' hf hmem => ?_⟩
        · have hother : other ≠ service := by
            rintro rfl
            exact hno hfilter servers List.mem_cons_self
          exact (h₂.2.1 other fun hf s hmem => hno hf s (List.mem_cons_of_mem _ hmem)).trans (h₁.2.1 other hother)
        · obtain ⟨hok, hok'⟩ := Bool.and_eq_true_iff.1 hok
          by_cases hrest : ∃ s, some (other, s) ∈ rs
          · obtain ⟨s, hs⟩ := hrest
            obtain ⟨s', args, hs', hargs, hdns⟩ := h₂.2.2 hok' other s hf hs
            exact ⟨s', args, List.mem_cons_of_mem _ hs', hargs, hdns⟩
          · -- it is not touched any more
            push Not at hrest
            have hhead : some (other, servers') = some (service, servers) :=
              (List.mem_cons.1 hmem).resolve_right (hrest servers')
            cases hhead
            obtain ⟨args, hargs, hdns⟩ := h₁.2.2 hok
            exact ⟨_, args, List.mem_cons_self, hargs, (h₂.2.1 _ fun _ => hrest).trans hdns⟩
      · refine ih.mono fun ok w' h => ⟨h.1, fun other hno => h.2.1 other fun hf s hmem => ?_, fun hok other s hf hmem => ?_⟩
        · exact hno hf s (List.mem_cons_of_mem _ hmem)
        · have hmem : some (other, s) ∈ rs := by
            rcases List.mem_cons.1 hmem with heq | hmem
            · cases heq
              exact absurd hf hfilter
            · exact hmem
          obtain ⟨s', args, hs', hargs, hdns⟩ := h.2.2 hok other s hf hmem
          exact ⟨s', args, List.mem_cons_of_mem _ hs', hargs, hdns⟩

/-- If all goes well, every service with a line that the filter lets through has what the
    backup says. -/
theorem leads_restoreFromBackupFile (filter : List Char → Bool) (hbackup : w.backup = some text) :
    Leads (Heeds w₀) (restoreFromBackupFile filter) (fun ok w' => w'.backup = w.backup ∧ (ok = true → ∀ service,
      BackedUp text service (w'.dns service) ∨ w'.dns service = w.dns service ∧
        (filter service = true → ∀ servers, some (service, servers) ∉ records (pieces text []) false))) w := by
  refine leads_quiet .readBackup trivial fun e w₁ _ hs₁ _ => ?_
  have hbackup₁ := hs₁.backup
  rw [exec, hbackup]
  dsimp only
  rw [hbackup] at hbackup₁
  by_cases hok : e.ok = true
  · rw [if_pos hok]
    refine (leads_restoreRecords filter).bind fun ok w₂ h => ⟨h.1.trans hbackup₁, fun hok' service => ?_⟩
    rw [Bool.and_true] at hok'
    by_cases hno : filter service = true → ∀ servers, some (service, servers) ∉ records (pieces text []) false
    · exact .inr ⟨(h.2.1 service hno).trans (congrFun hs₁.dns service), hno⟩
    · push Not at hno
      obtain ⟨hf, servers, hmem⟩ := hno
      obtain ⟨s, args, hs, hargs, hdns⟩ := h.2.2 hok' service servers hf hmem
      exact .inl ⟨s, args, hs, hargs, hdns⟩
  · rw [if_neg hok]
    cases e.done with
    | none => exact ⟨hbackup₁, Bool.noConfusion⟩
    | some n =>
      refine (leads_restoreRecords filter).bind fun ok w₂ h => ⟨h.1.trans hbackup₁, fun hok' => ?_⟩
      rw [Bool.and_false] at hok'
      cases hok'

/-! ## Services are set -/

/-- A valid backup has the records of its lines. -/
theorem records_of_valid {lines : List (List Char)} (h : Valid lines) : records lines false = lines.map parseLine := by
  induction lines with
  | nil => rfl
  | cons line lines ih =>
    rw [records, if_neg (h line List.mem_cons_self).1, ih fun l hl => h l (List.mem_cons_of_mem _ hl), List.map_cons]

/-- A service that is found in the backup has a record. -/
theorem leads_maySet {preexisting : Bool} (hpre : preexisting = true → w.backup = some text ∧ Valid (pieces text []))
    (service : List Char) :
    Leads (Heeds w₀) (maySet preexisting service) (fun covered w' => Same w w' ∧ (preexisting = false → covered = true) ∧
      (covered = true → preexisting = true → ∃ servers, some (service, servers) ∈ records (pieces text []) false)) w := by
  rw [maySet]
  split_ifs with hp
  · obtain ⟨hbackup, hvalid⟩ := hpre hp
    have hfresh {covered : Bool} (h : preexisting = false) : covered = true := absurd (hp.symm.trans h) Bool.noConfusion
    refine leads_quiet .readBackup trivial fun e w₁ _ hs₁ _ => ?_
    rw [exec, hbackup]
    dsimp only
    -- what is read are lines of the file
    have hfound {lines : List (List Char)} (hsub : ∀ line ∈ lines, line ∈ pieces text [])
        (h : hasService lines service = true) : ∃ servers, some (service, servers) ∈ records (pieces text []) false := by
      rw [hasService, List.any_eq_true] at h
      obtain ⟨line, hline, hname⟩ := h
      obtain ⟨record, hrecord, hfst⟩ := Option.map_eq_some_iff.1 (of_decide_eq_true hname)
      refine ⟨record.2, ?_⟩
      rw [records_of_valid hvalid, ← hfst]
      exact List.mem_map.2 ⟨line, hsub line hline, hrecord⟩
    by_cases hok : e.ok = true
    · rw [if_pos hok]
      exact ⟨hs₁, hfresh, fun h _ => hfound (fun _ hline => hline) h⟩
    · rw [if_neg hok]
      cases e.done with
      | none => exact ⟨hs₁, hfresh, Bool.noConfusion⟩
      | some n => exact ⟨hs₁, hfresh, fun h _ => hfound (fun _ hline => List.mem_of_mem_take hline) h⟩
  · exact ⟨⟨rfl, rfl, rfl⟩, fun _ => rfl, fun _ h => absurd h hp⟩

/-- How the loop ends: nothing has been set, or something has and all went well, or what has
    been set is among the services that were tried. -/
theorem leads_setLoop {preexisting : Bool}
    (hpre : preexisting = true → w.backup = some text ∧ Valid (pieces text [])) (servers : List (List Char))
    (tried : List (List Char)) (n : Nat) :
    Leads (Heeds w₀) (setLoop preexisting servers services tried n) (fun outcome w' => w'.backup = w.backup ∧
      match outcome with
      | .complete k => n ≤ k ∧ (k = n → w'.dns = w.dns) ∧ (preexisting = false → k = n + services.length)
      | .failed tried' _ => (∀ service ∈ tried, service ∈ tried') ∧ ∀ service, w'.dns service = w.dns service ∨
          service ∈ tried' ∧ service ∈ services ∧ (preexisting = true →
            ∃ servers, some (service, servers) ∈ records (pieces text []) false)) w := by
  induction services generalizing w tried n with
  | nil => exact ⟨rfl, le_rfl, fun _ => rfl, fun _ => rfl⟩
  | cons service services ih =>
    refine (leads_maySet hpre service).bind fun covered w₁ h₁ => ?_
    obtain ⟨hs₁, hfresh, hcovered⟩ := h₁
    have hpre₁ : preexisting = true → w₁.backup = some text ∧ Valid (pieces text []) := fun hp =>
      ⟨hs₁.backup.trans (hpre hp).1, (hpre hp).2⟩
    split_ifs with hc
    · refine Prog.safe_call trivial fun e _ => ?_
      have hbackup₂ : (exec (.setDns service servers) e w₁).2.backup = w₁.backup := by
        rw [exec]
        split_ifs <;> rfl
      have hdns₂ (other : List Char) (hother : other ≠ service) :
          (exec (.setDns service servers) e w₁).2.dns other = w₁.dns other := by
        rw [exec]
        split_ifs
        · exact Function.update_of_ne hother _ _
        · rfl
      have hself : service ∈ tried ++ [service] := List.mem_append_right _ (List.mem_singleton_self _)
      split_ifs with hset
      · refine (ih (fun hp => ⟨hbackup₂.trans (hpre₁ hp).1, (hpre₁ hp).2⟩) (tried ++ [service]) (n + 1)).mono
          fun outcome w₃ h₃ => ⟨h₃.1.trans (hbackup₂.trans hs₁.backup), ?_⟩
        obtain ⟨-, h₃⟩ := h₃
        cases outcome with
        | complete k =>
          dsimp only at h₃ ⊢
          refine ⟨by omega, fun hk => absurd h₃.1 (by omega), fun hp => ?_⟩
          rw [h₃.2.2 hp, List.length_cons]
          omega
        | failed tried' k =>
          dsimp only at h₃ ⊢
          refine ⟨fun s hs => h₃.1 s (List.mem_append_left _ hs), fun other => ?_⟩
          by_cases hother : other = service
          · subst hother
            exact .inr ⟨h₃.1 _ hself, List.mem_cons_self, hcovered hc⟩
          · rcases h₃.2 other with hsame | ⟨htried, hmem, hrec⟩
            · exact .inl (hsame.trans ((hdns₂ other hother).trans (congrFun hs₁.dns other)))
            · exact .inr ⟨htried, List.mem_cons_of_mem _ hmem, hrec⟩
      · -- the command may have had an effect
        refine ⟨hbackup₂.trans hs₁.backup, fun s hs => List.mem_append_left _ hs, fun other => ?_⟩
        by_cases hother : other = service
        · subst hother
          exact .inr ⟨hself, List.mem_cons_self, hcovered hc⟩
        · exact .inl ((hdns₂ other hother).trans (congrFun hs₁.dns other))
    · refine (ih hpre₁ (tried ++ [service]) n).mono fun outcome w₃ h₃ => ⟨h₃.1.trans hs₁.backup, ?_⟩
      obtain ⟨-, h₃⟩ := h₃
      cases outcome with
      | complete k =>
        dsimp only at h₃ ⊢
        refine ⟨h₃.1, fun hk => (h₃.2.1 hk).trans hs₁.dns, fun hp => ?_⟩
        -- without a backup from before, no service is left out
        exact absurd (hfresh hp) hc
      | failed tried' k =>
        dsimp only at h₃ ⊢
        refine ⟨fun s hs => h₃.1 s (List.mem_append_left _ hs), fun other => ?_⟩
        rcases h₃.2 other with hsame | ⟨htried, hmem, hrec⟩
        · exact .inl (hsame.trans (congrFun hs₁.dns other))
        · exact .inr ⟨htried, List.mem_cons_of_mem _ hmem, hrec⟩

/-! ## Operations -/

/-- The lock goes with the flag, and there is no harm if the flag is clear. -/
structure Settled (w₀ : World) (m : Mem) (w : World) : Prop where
  lock : m.lockFd = m.active
  harmless : m.active = false → Harmless w₀ w

theorem leads_abort (hlock : m.lockFd = true) (h : Harmless w₀ w) :
    Leads (Heeds w₀) (releaseLockIfInactive m) (Settled w₀) w := by
  refine (leads_releaseLockIfInactive hlock).mono fun m' w' h' => ⟨h'.2.2.trans h'.2.1.symm, fun _ => ?_⟩
  exact ⟨fun hb => h.backup (h'.1.backup ▸ hb), fun service => by rw [h'.1.dns]; exact h.dns service⟩

/-- The services that were tried are set back: those of a new backup have what they had at the
    call, by the condition. -/
theorem leads_rollBack {preexisting : Bool} {tried : List (List Char)} (hlock : m.lockFd = true)
    (hbackup : w.backup = some text) (hold : preexisting = true → w₀.backup = some text)
    (hnew : preexisting = false → ∀ service value, BackedUp text service value → value = w₀.dns service)
    (hdns : ∀ service, w.dns service = w₀.dns service ∨ service ∈ tried ∧
      ∃ servers, some (service, servers) ∈ records (pieces text []) false) :
    Leads (Heeds w₀) (rollBack preexisting tried m) (Settled w₀) w := by
  refine (leads_restoreFromBackupFile _ hbackup).bind fun ok w₁ h₁ => ?_
  obtain ⟨hbackup₁, hall⟩ := h₁
  split_ifs with hok
  · have hdns₁ (service : List Char) : w₁.dns service = w₀.dns service ∨
        ∃ text ∈ w₀.backup, BackedUp text service (w₁.dns service) := by
      rcases hall hok service with hback | ⟨hsame, hno⟩
      · cases hp : preexisting with
        | true => exact .inr ⟨text, hold hp, hback⟩
        | false => exact .inl (hnew hp service _ hback)
      · rcases hdns service with hdns | ⟨htried, servers, hrec⟩
        · exact .inl (hsame.trans hdns)
        · exact absurd hrec (hno (by simp [htried]) servers)
    refine Prog.safe_call trivial fun e hunlink => ?_
    refine leads_abort (m := { m with active := false }) hlock ⟨fun hb => ?_, fun service => ?_⟩
    · rcases hunlink with hpre₀ | hunlink
      · exact hpre₀
      · rw [exec] at hb
        dsimp only at hb
        rw [if_pos hunlink] at hb
        cases hb
    · rw [exec]
      dsimp only
      split_ifs
      · exact hdns₁ service
      · exact hdns₁ service
  · exact ⟨hlock, fun h => Bool.noConfusion h⟩

theorem leads_setServices {preexisting : Bool} {servers : List (List Char)} (hlock : m.lockFd = true)
    (hpre : preexisting = w₀.backup.isSome) (hbackup : w.backup = some text) (hdns : w.dns = w₀.dns)
    (hold : preexisting = true → w₀.backup = some text ∧ Valid (pieces text []))
    (hnew : preexisting = false → services ≠ [] ∧
      (∀ service value, BackedUp text service value → value = w₀.dns service) ∧
        ∀ service ∈ services, ∃ servers, some (service, servers) ∈ records (pieces text []) false) :
    Leads (Heeds w₀) (setServices preexisting servers services m) (Settled w₀) w := by
  have hpreexisting : preexisting = true → w.backup = some text ∧ Valid (pieces text []) := fun hp =>
    ⟨hbackup, (hold hp).2⟩
  refine (leads_setLoop hpreexisting servers [] 0).bind fun outcome w₁ h₁ => ?_
  obtain ⟨hbackup₁, h₁⟩ := h₁
  cases outcome with
  | complete k =>
    dsimp only at h₁ ⊢
    split_ifs with hk
    · -- every service is left out, so the backup is an old one
      refine leads_abort hlock ⟨fun _ => ?_, fun service => .inl (by rw [h₁.2.1 hk, hdns])⟩
      by_contra hnone
      have hp : preexisting = false := hpre.trans (Bool.not_eq_true _ ▸ hnone)
      have hlength := h₁.2.2 hp
      exact (hnew hp).1 (List.eq_nil_of_length_eq_zero (by omega))
    · exact ⟨hlock, fun h => Bool.noConfusion h⟩
  | failed tried k =>
    dsimp only at h₁ ⊢
    refine leads_rollBack hlock (hbackup₁.trans hbackup) (fun hp => (hold hp).1) (fun hp => (hnew hp).2.1)
      fun service => ?_
    rcases h₁.2 service with hsame | ⟨htried, hmem, hrec⟩
    · exact .inl (hsame.trans (congrFun hdns service))
    · refine .inr ⟨htried, ?_⟩
      cases hp : preexisting with
      | true => exact hrec hp
      | false => exact (hnew hp).2.2 service hmem

/-- A backup that is made says what the services have. -/
theorem backedUp_saved {lines : List (List Char)} (h : Saved w₀ services lines)
    (hlen : ∀ service ∈ services, service.length < svcMax) (hkept : ∀ service ∈ services, Kept service (w₀.dns service)) :
    (∀ service value, BackedUp lines.flatten service value → value = w₀.dns service) ∧
      ∀ service ∈ services, ∃ servers, some (service, servers) ∈ records (pieces lines.flatten []) false := by
  obtain ⟨hpieces, hrecords⟩ := records_saved h hlen
  rw [hpieces, hrecords]
  refine ⟨?_, fun service hs => ⟨_, List.mem_map.2 ⟨service, hs, rfl⟩⟩⟩
  rintro service value ⟨servers, args, hmem, hargs, rfl⟩
  rw [hpieces, hrecords] at hmem
  obtain ⟨other, hother, heq⟩ := List.mem_map.1 hmem
  cases heq
  exact hkept _ hother args hargs

theorem leads_applyTo {servers : List (List Char)} (hlock : m.lockFd = true) (hsame : Same w₀ w) (hne : services ≠ [])
    (hlen : ∀ service ∈ services, service.length < svcMax) :
    Leads (Heeds w₀) (applyTo servers services m) (Settled w₀) w := by
  refine leads_quiet .hasBackup trivial fun e w₁ _ hs₁ _ => ?_
  have hs := hsame.trans hs₁
  change Leads (Heeds w₀) (if w.backup.isSome = true then _ else _) _ _
  split_ifs with hpre
  · obtain ⟨text, htext⟩ := Option.isSome_iff_exists.1 hpre
    have htext₀ : w₀.backup = some text := hsame.backup.symm.trans htext
    refine leads_quiet .unlinkTmp trivial fun e' w₂ _ hs₂ _ => ?_
    have hs' := hs.trans hs₂
    split_ifs
    · refine leads_quiet .readBackup trivial fun e₃ w₃ _ hs₃ _ => ?_
      have hs'' := hs'.trans hs₃
      have hback₂ : w₂.backup = some text := hs'.backup.trans htext₀
      rw [exec, hback₂]
      dsimp only
      by_cases hok : e₃.ok = true
      · rw [if_pos hok]
        change Leads (Heeds w₀) (if (true && decide (Valid (pieces text []))) = true then _ else _) _ _
        rw [Bool.true_and]
        split_ifs with hvalid
        · exact leads_setServices hlock (by rw [htext₀]; rfl) (hs''.backup.trans htext₀) hs''.dns
            (fun _ => ⟨htext₀, of_decide_eq_true hvalid⟩) Bool.noConfusion
        · exact leads_abort hlock (.of_same hs'')
      · -- a file that cannot be read as a whole is not valid
        rw [if_neg hok]
        cases e₃.done with
        | none => exact leads_abort hlock (.of_same hs'')
        | some n => exact leads_abort hlock (.of_same hs'')
    · exact leads_abort hlock (.of_same hs')
  · have hnone : w₀.backup = none := hsame.backup.symm.trans (Option.not_isSome_iff_eq_none.1 hpre)
    refine (leads_writeBackup hs.dns).bind fun written w₂ h₂ => ?_
    obtain ⟨hdns, hfailed, hwritten⟩ := h₂
    split_ifs with hok
    · obtain ⟨lines, hlines, hbackup, hkept⟩ := hwritten hok
      obtain ⟨hvalue, hrec⟩ := backedUp_saved hlines hlen hkept
      exact leads_setServices hlock (by rw [hnone]; rfl) hbackup hdns Bool.noConfusion fun _ => ⟨hne, hvalue, hrec⟩
    · have hback₂ := (hfailed (Bool.not_eq_true _ ▸ hok)).trans hs.backup
      refine leads_abort hlock ⟨fun hb => hback₂ ▸ hb, fun service => .inl (congrFun hdns service)⟩

theorem leads_apply (servers : List (List Char)) (hlock : m.lockFd = m.active) :
    Leads (Heeds w₀) (apply servers m) (Settled w₀) w₀ := by
  rw [apply]
  split_ifs
  · exact ⟨hlock, fun _ => .of_same ⟨rfl, rfl, rfl⟩⟩
  · refine (leads_acquireLock m).bind fun r w₁ h₁ => ?_
    obtain ⟨hs₁, hrefused, hlocked⟩ := h₁
    cases r with
    | none => exact ⟨hlock, fun _ => .of_same hs₁⟩
    | some m₁ =>
      obtain rfl := hlocked m₁ rfl
      refine leads_quiet .listServices trivial fun e w₂ _ hs₂ _ => ?_
      have hs := hs₁.trans hs₂
      split
      · exact leads_abort rfl (.of_same hs)
      · rename_i services hlist
        obtain ⟨output, -, hlist⟩ := Option.bind_eq_some_iff.1 hlist
        split_ifs with hnil
        · exact leads_abort rfl (.of_same hs)
        · exact leads_applyTo rfl hs hnil (length_listServices hlist)

/-- A restore that fails keeps the lock and the flag, and one that succeeds clears both. -/
theorem locked_restore (hlock : m.lockFd = m.active) :
    Leads P (restore m) (fun m' _ => m'.lockFd = m'.active) w := by
  rw [restore]
  split_ifs with hactive
  · refine (Prog.safe_trivial (restoreFromBackupFile fun _ => true) w).bind fun ok w₁ _ => ?_
    split_ifs
    · refine Prog.safe_call trivial fun e _ => ?_
      refine (leads_releaseLock _).mono fun m' w' h => ?_
      rw [h.2]
    · exact hlock
  · exact hlock

/-- A restore of a stale backup gives the lock back in any case. -/
theorem locked_restoreStale (hlock : m.lockFd = m.active) :
    Leads P (restoreStale m) (fun m' _ => m'.lockFd = m'.active) w := by
  rw [restoreStale]
  split_ifs with hactive
  · exact hlock
  · refine Prog.safe_call trivial fun e _ => ?_
    split_ifs
    · refine (leads_acquireLock m).bind fun r w₁ h₁ => ?_
      cases r with
      | none => exact hlock
      | some m₁ =>
        obtain rfl := h₁.2.2 m₁ rfl
        have hrelease (w : World) : Leads P (releaseLock { m with lockFd := true })
            (fun m' _ => m'.lockFd = m'.active) w := by
          refine (leads_releaseLock _).mono fun m' w' h => ?_
          rw [h.2]
          exact (Bool.not_eq_true _ ▸ hactive : m.active = false).symm
        refine (Prog.safe_trivial (restoreFromBackupFile fun _ => true) w₁).bind fun ok w₂ _ => ?_
        split_ifs
        · exact Prog.safe_call trivial fun e _ => hrelease _
        · exact hrelease _
    · exact hlock

/-! ## Runs -/

/-- The calls of which the condition says something are those of an apply. -/
theorem lock_next {s : Mem × World} {c : Request} (hlock : s.1.lockFd = s.1.active) (hc : Careful s c) :
    (next s c).1.lockFd = (next s c).1.active := by
  obtain ⟨op, es⟩ := c
  cases op with
  | apply servers => exact ((leads_apply servers hlock).eval hc).lock
  | restore =>
    exact (locked_restore (P := fun _ _ _ => True) hlock).eval (Prog.meets_of_forall fun _ _ _ => trivial)
  | restoreStale =>
    exact (locked_restoreStale (P := fun _ _ _ => True) hlock).eval (Prog.meets_of_forall fun _ _ _ => trivial)

/-- A call that is made while the lock goes with the flag keeps the policy. -/
theorem policy_of_careful {s : Mem × World} {c : Request} (hlock : s.1.lockFd = s.1.active) (hc : Careful s c) :
    Policy s c := by
  refine ⟨by rw [lock_next hlock hc], fun servers heq hactive => ?_⟩
  obtain ⟨op, es⟩ := c
  cases heq
  exact ((leads_apply servers hlock).eval hc).harmless hactive

instance (s : Mem × World) : ∀ c, Decidable (Careful s c)
  | (.apply servers, es) => inferInstanceAs (Decidable ((apply servers s.1).Meets exec (Heeds s.2) es s.2))
  | (.restore, _) | (.restoreStale, _) => isTrue trivial

/-- In a run of a new process whose calls meet the condition, every call keeps the policy,
    whatever there is in the files when it starts, and whatever else fails. -/
theorem policy_run (w : World) (calls : List Request) (c : Request)
    (h : Runs.Along next Careful ({}, w) (calls ++ [c])) : Policy (calls.foldl next ({}, w)) c := by
  obtain ⟨hcalls, hlast⟩ := (Runs.along_append _ calls [c]).1 h
  have hlock : (calls.foldl next ({}, w)).1.lockFd = (calls.foldl next ({}, w)).1.active :=
    Runs.foldl_of_along (J := fun s => s.1.lockFd = s.1.active) (fun _ _ hs hc => lock_next hs hc) rfl hcalls
  exact policy_of_careful hlock hlast.1

/-- An apply for two services, with one call that fails. -/
def sampleApply (failing : Nat) : Request :=
  (.apply ["10.8.0.1".toList],
    fun n => if n = failing then { ok := false, effect := true } else { output := sampleOutput })

/-- DNS is set and given back; then the second service cannot be set. -/
theorem policy_run_sample :
    Policy ([sampleApply 100, (.restore, fun _ => {})].foldl next ({}, worldOf sampleLists)) (sampleApply 13) :=
  policy_run _ _ _ (by decide +kernel)

/-- The directory cannot be flushed once the backup has taken its place. -/
theorem not_policy : ¬∀ (w : World) (calls : List Request) (c : Request), Policy (calls.foldl next ({}, w)) c := by
  intro h
  have hharmless := (h (worldOf sampleLists) [] (sampleApply 11)).harmless _ rfl (by decide +kernel)
  exact absurd (hharmless.backup (by decide +kernel)) (by decide)

end Mqvpn.DarwinDns
