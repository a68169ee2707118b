import Mqvpn.Platform.DarwinDns

/-!
# The DNS backup is the authority

At every moment, a service that the program has changed and not set back has a line in
the backup with what was saved for it, so the backup is gone only when there is no such
service (`Backed`, `backed_run`). This holds whatever commands fail, with or without
effect, whatever services are listed, and wherever the process dies.

A backup is written while no service is changed, and takes its place as a whole; from
then on it is not changed. A service is set only if the backup has a line for it, and
the backup is removed only after everything that may be changed has been set back.
-/

namespace Mqvpn.DarwinDns

open Text

variable {original : List Char → List Char} {w w' : World} {m : Mem}

/-! ## The invariant -/

/-- A service, what is saved for it, and the line with both. -/
abbrev Line := List Char × List Char × List Char

/-- The lines carry what the services had at the beginning. -/
def Authentic (original : List Char → List Char) (lines : List Line) : Prop :=
  ∀ l ∈ lines, Entry l.1 l.2.1 l.2.2 ∧ l.2.1 = recorded (original l.1)

/-- The backup has these lines, and one of them for every service that is changed. -/
structure Holds (original : List Char → List Char) (lines : List Line) (w : World) : Prop where
  authentic : Authentic original lines
  backup : w.backup = some (file lines)
  covers : ∀ service, w.dirty service = true → ∃ l ∈ lines, l.1 = service

/-- A service that is not changed has the servers that it had at the beginning, as far as
    they are saved. -/
def Intact (original : List Char → List Char) (w : World) : Prop :=
  ∀ service, w.dirty service = false → recorded (w.dns service) = recorded (original service)

def Clean (w : World) : Prop := ∀ service, w.dirty service = false

structure Backed (original : List Char → List Char) (w : World) : Prop where
  intact : Intact original w
  backup : (w.backup = none ∧ Clean w) ∨ ∃ lines, Holds original lines w

/-- Nothing but the temporary file is changed. -/
structure Same (w w' : World) : Prop where
  dns : w'.dns = w.dns
  dirty : w'.dirty = w.dirty
  backup : w'.backup = w.backup

theorem Same.trans {w'' : World} (h : Same w w') (h' : Same w' w'') : Same w w'' :=
  ⟨h'.dns.trans h.dns, h'.dirty.trans h.dirty, h'.backup.trans h.backup⟩

theorem Holds.of_same {lines : List Line} (h : Holds original lines w) (hs : Same w w') : Holds original lines w' :=
  ⟨h.authentic, hs.backup.trans h.backup, hs.dirty ▸ h.covers⟩

theorem Intact.of_same (h : Intact original w) (hs : Same w w') : Intact original w' := by
  rw [Intact, hs.dns, hs.dirty]
  exact h

theorem Clean.of_same (h : Clean w) (hs : Same w w') : Clean w' := by
  rw [Clean, hs.dirty]
  exact h

theorem Backed.of_same (h : Backed original w) (hs : Same w w') : Backed original w' := by
  refine ⟨h.intact.of_same hs, ?_⟩
  rcases h.backup with ⟨hnone, hclean⟩ | ⟨lines, hlines⟩
  · exact .inl ⟨hs.backup.trans hnone, hclean.of_same hs⟩
  · exact .inr ⟨lines, hlines.of_same hs⟩

/-- A call that leaves the services and the backup alone. -/
def Quiet : Call → Prop
  | .renameTmp | .setDns _ _ | .restoreDns _ _ | .unlinkBackup => False
  | _ => True

theorem same_exec {a : Call} (ha : Quiet a) (e : Env) (w : World) : Same w (exec a e w).2 := by
  cases a with
  | renameTmp | setDns | restoreDns | unlinkBackup => exact ha.elim
  | unlinkTmp | createTmp | writeTmp =>
    rw [exec]
    split_ifs
    · exact ⟨rfl, rfl, rfl⟩
    · exact ⟨rfl, rfl, rfl⟩
  | readBackup =>
    rw [exec]
    split
    · split_ifs
      · exact ⟨rfl, rfl, rfl⟩
      · exact ⟨rfl, rfl, rfl⟩
    · exact ⟨rfl, rfl, rfl⟩
  | _ => exact ⟨rfl, rfl, rfl⟩

/-! ## Programs that keep it -/

/-- The program keeps the invariant before every call, and ends with the postcondition. -/
abbrev Keeps (original : List Char → List Char) {α : Type} (p : Prog Answer α) (Q : α → World → Prop) (w : World) :
    Prop :=
  p.Safe exec (fun _ _ _ => True) (Backed original) Q w

/-- A call that leaves the services and the backup alone, and what follows. -/
theorem keeps_quiet {α : Type} (a : Call) (ha : Quiet a) {f : Answer a → Prog Answer α} {Q : α → World → Prop}
    (h : Backed original w) (hf : ∀ e w', Same w w' → w' = (exec a e w).2 → Keeps original (f (exec a e w).1) Q w') :
    Keeps original (perform a >>= f) Q w :=
  Prog.safe_call h fun e _ => hf e _ (same_exec ha e w) rfl

theorem keeps_releaseLock (h : Backed original w) (m : Mem) :
    Keeps original (releaseLock m) (fun _ => Backed original) w := by
  rw [releaseLock]
  split_ifs
  · exact keeps_quiet .unlock trivial h fun e w' hs _ => h.of_same hs
  · exact h

theorem keeps_releaseLockIfInactive (h : Backed original w) (m : Mem) :
    Keeps original (releaseLockIfInactive m) (fun _ => Backed original) w := by
  rw [releaseLockIfInactive]
  split_ifs
  · exact h
  · exact keeps_releaseLock h m

theorem keeps_acquireLock (h : Backed original w) (m : Mem) :
    Keeps original (acquireLock m) (fun _ => Same w) w := by
  rw [acquireLock]
  split_ifs
  · exact ⟨rfl, rfl, rfl⟩
  · refine keeps_quiet .lock trivial h fun e w' hs _ => ?_
    split_ifs
    · exact hs
    · exact hs

/-- The backup is removed when no service is changed. -/
theorem keeps_unlinkBackup {α : Type} {p : Prog Answer α} {Q : α → World → Prop} (h : Backed original w)
    (hclean : Clean w) (hp : ∀ w', Backed original w' → Keeps original p Q w') :
    Keeps original (perform .unlinkBackup >>= fun _ => p) Q w := by
  refine Prog.safe_call h fun e _ => hp _ ?_
  rw [exec]
  dsimp only
  split_ifs
  · exact ⟨h.intact, .inl ⟨rfl, hclean⟩⟩
  · exact h

/-! ## Services are set back -/

/-- A service with a line in the backup is set back. -/
theorem Holds.restoreDns {lines : List Line} (h : Holds original lines w) (hintact : Intact original w) {l : Line}
    (hl : l ∈ lines) {args : List (List Char)} (hargs : restoreArgs l.2.1 = some args) (e : Env) :
    Holds original lines (exec (.restoreDns l.1 args) e w).2 ∧ Intact original (exec (.restoreDns l.1 args) e w).2 ∧
      (∀ service, (exec (.restoreDns l.1 args) e w).2.dirty service = true → w.dirty service = true) ∧
      (e.ok = true → (exec (.restoreDns l.1 args) e w).2.dirty l.1 = false) := by
  rw [exec]
  dsimp only
  split_ifs with heffect
  · have hdirty : ∀ service, Function.update w.dirty l.1 false service = true →
        service ≠ l.1 ∧ w.dirty service = true := by
      intro service hd
      by_cases heq : service = l.1
      · rw [heq, Function.update_self] at hd
        cases hd
      · rw [Function.update_of_ne heq] at hd
        exact ⟨heq, hd⟩
    refine ⟨⟨h.authentic, h.backup, fun service hd => h.covers service (hdirty service hd).2⟩, fun service hd => ?_,
      fun service hd => (hdirty service hd).2, fun _ => Function.update_self _ _ _⟩
    dsimp only at hd ⊢
    by_cases heq : service = l.1
    · -- What is set back is what was saved.
      subst heq
      rw [Function.update_self]
      rw [(h.authentic l hl).2] at hargs
      exact recorded_display l.1 hargs
    · rw [Function.update_of_ne heq] at hd ⊢
      exact hintact service hd
  · exact ⟨h, hintact, fun _ hd => hd, fun hok => absurd (.inl hok) heffect⟩

/-- The services of some lines are set back; if all goes well, none of them is changed
    any more. -/
theorem keeps_restoreRecords {lines : List Line} (filter : List Char → Bool) {some' : List Line}
    (hsub : ∀ l ∈ some', l ∈ lines) (h : Holds original lines w) (hintact : Intact original w) :
    Keeps original (restoreRecords filter (some'.map fun l => some (l.1, l.2.1))) (fun ok w' =>
      Holds original lines w' ∧ Intact original w' ∧ (∀ service, w'.dirty service = true → w.dirty service = true) ∧
        (ok = true → ∀ l ∈ some', filter l.1 = true → w'.dirty l.1 = false)) w := by
  induction some' generalizing w with
  | nil => exact ⟨h, hintact, fun _ hd => hd, fun _ l hl => absurd hl List.not_mem_nil⟩
  | cons l rest ih =>
    have hrest : ∀ l ∈ rest, l ∈ lines := fun l hl => hsub l (List.mem_cons_of_mem _ hl)
    rw [List.map_cons, restoreRecords]
    split_ifs with hfilter
    · -- The service is set back, then the others.
      have hone : Keeps original (restoreOne l.1 l.2.1) (fun ok w' =>
          Holds original lines w' ∧ Intact original w' ∧ (∀ service, w'.dirty service = true → w.dirty service = true) ∧
            (ok = true → w'.dirty l.1 = false)) w := by
        rw [restoreOne]
        split
        · rename_i args hargs
          refine ⟨⟨hintact, .inr ⟨lines, h⟩⟩, fun e _ => ?_⟩
          exact h.restoreDns hintact (hsub l List.mem_cons_self) hargs e
        · exact ⟨h, hintact, fun _ hd => hd, Bool.noConfusion⟩
      refine hone.bind fun ok w₁ hw₁ => ?_
      obtain ⟨h₁, hintact₁, hmono₁, hl₁⟩ := hw₁
      refine (ih hrest h₁ hintact₁).bind fun ok' w₂ hw₂ => ?_
      obtain ⟨h₂, hintact₂, hmono₂, hrest₂⟩ := hw₂
      refine ⟨h₂, hintact₂, fun service hd => hmono₁ service (hmono₂ service hd), fun hok => ?_⟩
      obtain ⟨hok, hok'⟩ := Bool.and_eq_true_iff.1 hok
      intro k hk hfilter'
      rcases List.mem_cons.1 hk with rfl | hk
      · by_contra hd
        have hd := hmono₂ k.1 (by simpa using hd)
        exact Bool.false_ne_true ((hl₁ hok).symm.trans hd)
      · exact hrest₂ hok' k hk hfilter'
    · refine (ih hrest h hintact).mono fun ok w' hw' => ⟨hw'.1, hw'.2.1, hw'.2.2.1, fun hok k hk hfilter' => ?_⟩
      rcases List.mem_cons.1 hk with rfl | hk
      · exact absurd hfilter' hfilter
      · exact hw'.2.2.2 hok k hk hfilter'

/-- What is read of a backup: all of its lines, or the first ones. -/
theorem readBackup_spec {lines : List Line} (h : Holds original lines w) (e : Env) {read : List (List Char)}
    {complete : Bool} (hread : (exec .readBackup e w).1 = some (read, complete)) :
    ∃ n, read = (lines.take n).map (fun l => l.2.2) ∧ (complete = true → lines.take n = lines) := by
  have hentries : ∀ l ∈ lines, Entry l.1 l.2.1 l.2.2 := fun l hl => (h.authentic l hl).1
  have hpieces := pieces_file hentries
  rw [exec, h.backup] at hread
  dsimp only at hread
  rw [hpieces] at hread
  split_ifs at hread
  · cases hread
    exact ⟨lines.length, by rw [List.take_length], fun _ => List.take_length⟩
  · obtain ⟨n, -, heq⟩ := Option.map_eq_some_iff.1 hread
    cases heq
    exact ⟨n, List.map_take.symm, Bool.noConfusion⟩

/-- The services that the filter lets through are set back; if all goes well, none of them
    is changed any more. -/
theorem keeps_restoreFromBackupFile (filter : List Char → Bool) (h : Backed original w) :
    Keeps original (restoreFromBackupFile filter) (fun ok w' =>
      Backed original w' ∧ (∀ service, w'.dirty service = true → w.dirty service = true) ∧
        (ok = true → ∀ service, w'.dirty service = true → filter service = false)) w := by
  refine keeps_quiet .readBackup trivial h fun e w' hs hw' => ?_
  split
  · rename_i read complete hread
    rcases h.backup with ⟨hnone, -⟩ | ⟨lines, hlines⟩
    · rw [exec, hnone] at hread
      cases hread
    · obtain ⟨n, rfl, hcomplete⟩ := readBackup_spec hlines e hread
      have hentries : ∀ l ∈ lines.take n, Entry l.1 l.2.1 l.2.2 := fun l hl =>
        (hlines.authentic l (List.mem_of_mem_take hl)).1
      rw [records_file hentries]
      refine (keeps_restoreRecords filter (fun l hl => List.mem_of_mem_take hl) (hlines.of_same hs)
        (h.intact.of_same hs)).bind fun ok w₁ hw₁ => ?_
      obtain ⟨h₁, hintact₁, hmono₁, hall⟩ := hw₁
      refine ⟨⟨hintact₁, .inr ⟨lines, h₁⟩⟩, fun service hd => hs.dirty ▸ hmono₁ service hd, fun hok service hd => ?_⟩
      obtain ⟨hok, hc⟩ := Bool.and_eq_true_iff.1 hok
      -- A service that is still changed has a line, and was not let through.
      obtain ⟨l, hl, rfl⟩ := h₁.covers service hd
      by_contra hfilter
      have hd' := hall hok l (by rw [hcomplete hc]; exact hl) (by simpa using hfilter)
      exact Bool.false_ne_true (hd'.symm.trans hd)
  · exact ⟨h.of_same hs, fun service hd => hs.dirty ▸ hd, Bool.noConfusion⟩

/-! ## A backup is written -/

/-- The line of a service that is not changed. -/
theorem snapshot_spec (hintact : Intact original w) (hclean : Clean w) {service line : List Char}
    (hlen : service.length < svcMax) (e : Env) (h : snapshot service (exec (.getDns service) e w).1 = some line) :
    Entry service (recorded (original service)) line := by
  rw [exec] at h
  split_ifs at h
  · rw [snapshot] at h
    split at h
    · rename_i servers hservers
      have hrec := (getDnsServers_spec hservers).trans (hintact service (hclean service))
      subst hrec
      exact ⟨h, hlen, length_getDnsServers hservers, isEol_recorded _⟩
    · cases h
  · cases h

/-- The lines are appended to the temporary file, one for each service. -/
theorem keeps_writeLines {services : List (List Char)} (hlen : ∀ service ∈ services, service.length < svcMax)
    (h : Backed original w) (hclean : Clean w) {lines : List Line} (hlines : Authentic original lines)
    (htmp : w.tmp = some (file lines)) :
    Keeps original (writeLines services) (fun ok w' => Same w w' ∧
      (ok = true → ∃ more, Authentic original (lines ++ more) ∧ w'.tmp = some (file (lines ++ more)) ∧
        ∀ service ∈ services, ∃ l ∈ lines ++ more, l.1 = service)) w := by
  induction services generalizing w lines with
  | nil =>
    refine ⟨⟨rfl, rfl, rfl⟩, fun _ => ⟨[], ?_⟩⟩
    rw [List.append_nil]
    exact ⟨hlines, htmp, fun _ hs => absurd hs List.not_mem_nil⟩
  | cons service services ih =>
    -- Once something has gone wrong, the file is removed.
    have hdiscard : ∀ w', Same w w' → Keeps original discardTmp (fun ok w' => Same w w' ∧
        (ok = true → ∃ more, Authentic original (lines ++ more) ∧ w'.tmp = some (file (lines ++ more)) ∧
          ∀ service' ∈ service :: services, ∃ l ∈ lines ++ more, l.1 = service')) w' := by
      intro w' hs
      exact keeps_quiet .unlinkTmp trivial (h.of_same hs) fun e w'' hs' _ => ⟨hs.trans hs', Bool.noConfusion⟩
    refine keeps_quiet (.getDns service) trivial h fun e w₁ hs₁ hw₁ => ?_
    have htmp₁ : w₁.tmp = some (file lines) := by
      rw [hw₁]
      exact htmp
    split
    · rename_i line hline
      have hentry := snapshot_spec h.intact hclean (hlen service List.mem_cons_self) e hline
      refine keeps_quiet (.writeTmp line) trivial (h.of_same hs₁) fun e' w₂ hs₂ hw₂ => ?_
      have hs := hs₁.trans hs₂
      split_ifs with hok
      · have hmore : Authentic original (lines ++ [(service, recorded (original service), line)]) := by
          intro l hl
          rcases List.mem_append.1 hl with hl | hl
          · exact hlines l hl
          · cases List.mem_singleton.1 hl
            exact ⟨hentry, rfl⟩
        have htmp₂ : w₂.tmp = some (file (lines ++ [(service, recorded (original service), line)])) := by
          rw [hw₂, exec]
          rw [exec] at hok
          split_ifs at hok ⊢
          · rw [htmp₁]
            simp [file]
        refine (ih (fun service hs => hlen service (List.mem_cons_of_mem _ hs)) (h.of_same hs) (hclean.of_same hs)
          hmore htmp₂).mono fun ok w₃ hw₃ => ⟨hs.trans hw₃.1, fun hok' => ?_⟩
        obtain ⟨more, hauth, htmp₃, hall⟩ := hw₃.2 hok'
        rw [List.append_assoc] at hauth htmp₃ hall
        refine ⟨_, hauth, htmp₃, fun service' hs' => ?_⟩
        rcases List.mem_cons.1 hs' with rfl | hs'
        · exact ⟨(service', recorded (original service'), line), by simp, rfl⟩
        · exact hall service' hs'
      · exact hdiscard w₂ hs
    · exact hdiscard w₁ hs₁

theorem renameTmp_cases {text : List Char} (htmp : w.tmp = some text) (e : Env) :
    exec .renameTmp e w = (true, { w with backup := some text, tmp := none }) ∨ exec .renameTmp e w = (false, w) := by
  rw [exec, htmp]
  dsimp only
  split_ifs
  · exact .inl rfl
  · exact .inr rfl

/-- The temporary file becomes the backup. -/
theorem keeps_publish (h : Backed original w) (hclean : Clean w) {lines : List Line}
    (hlines : Authentic original lines) (htmp : w.tmp = some (file lines)) :
    Keeps original publish (fun ok w' => Backed original w' ∧ Clean w' ∧ (ok = true → Holds original lines w')) w := by
  have hdiscard : ∀ w', Same w w' → Keeps original discardTmp (fun ok w' =>
      Backed original w' ∧ Clean w' ∧ (ok = true → Holds original lines w')) w' := by
    intro w' hs
    refine keeps_quiet .unlinkTmp trivial (h.of_same hs) fun e w'' hs' _ => ?_
    exact ⟨h.of_same (hs.trans hs'), hclean.of_same (hs.trans hs'), Bool.noConfusion⟩
  refine keeps_quiet .flushTmp trivial h fun e w₁ hs₁ hw₁ => ?_
  have htmp₁ : w₁.tmp = some (file lines) := by
    rw [hw₁]
    exact htmp
  split_ifs
  · have hclean₁ := hclean.of_same hs₁
    have hintact₁ := h.intact.of_same hs₁
    refine Prog.safe_call (h.of_same hs₁) fun e' _ => ?_
    rcases renameTmp_cases htmp₁ e' with heq | heq
    · rw [heq]
      have hholds : Holds original lines { w₁ with backup := some (file lines), tmp := none } :=
        ⟨hlines, rfl, fun service hd => absurd ((hclean₁ service).symm.trans hd) Bool.false_ne_true⟩
      have hbacked : Backed original { w₁ with backup := some (file lines), tmp := none } :=
        ⟨hintact₁, .inr ⟨lines, hholds⟩⟩
      exact ⟨hbacked, fun e'' _ => ⟨hbacked, hclean₁, fun _ => hholds⟩⟩
    · rw [heq]
      exact hdiscard w₁ hs₁
  · exact hdiscard w₁ hs₁

/-- A backup is made while no service is changed. -/
theorem keeps_writeBackup {services : List (List Char)} (hlen : ∀ service ∈ services, service.length < svcMax)
    (h : Backed original w) (hclean : Clean w) :
    Keeps original (writeBackup services) (fun ok w' => Backed original w' ∧ Clean w' ∧ (ok = true →
      ∃ lines, Holds original lines w' ∧ ∀ service ∈ services, ∃ l ∈ lines, l.1 = service)) w := by
  have hfail : ∀ {w'}, Same w w' → Backed original w' ∧ Clean w' ∧ (false = true →
      ∃ lines, Holds original lines w' ∧ ∀ service ∈ services, ∃ l ∈ lines, l.1 = service) := fun hs =>
    ⟨h.of_same hs, hclean.of_same hs, Bool.noConfusion⟩
  refine keeps_quiet .unlinkTmp trivial h fun e w₁ hs₁ _ => ?_
  split_ifs
  · refine keeps_quiet .createTmp trivial (h.of_same hs₁) fun e' w₂ hs₂ hw₂ => ?_
    have hs := hs₁.trans hs₂
    split_ifs with hok
    · have htmp : w₂.tmp = some (file []) := by
        rw [hw₂, exec]
        rw [exec] at hok
        split_ifs at hok ⊢
        rfl
      refine (keeps_writeLines hlen (h.of_same hs) (hclean.of_same hs) (fun _ hl => absurd hl List.not_mem_nil)
        htmp).bind fun ok w₃ hw₃ => ?_
      have hs' := hs.trans hw₃.1
      split_ifs with hwritten
      · obtain ⟨lines, hlines, htmp₃, hall⟩ := hw₃.2 hwritten
        refine (keeps_publish (h.of_same hs') (hclean.of_same hs') hlines htmp₃).mono fun ok w₄ hw₄ => ?_
        exact ⟨hw₄.1, hw₄.2.1, fun hok => ⟨_, hw₄.2.2 hok, hall⟩⟩
      · exact hfail hs'
    · exact hfail hs
  · exact hfail hs₁

/-! ## Services are set -/

/-- A service with a line in the backup is set. -/
theorem Holds.setDns {lines : List Line} (h : Holds original lines w) (hintact : Intact original w)
    {service : List Char} (hl : ∃ l ∈ lines, l.1 = service) (servers : List (List Char)) (e : Env) :
    Holds original lines (exec (.setDns service servers) e w).2 ∧
      Intact original (exec (.setDns service servers) e w).2 ∧
      ∀ other, (exec (.setDns service servers) e w).2.dirty other = true → w.dirty other = true ∨ other = service := by
  rw [exec]
  dsimp only
  split_ifs
  · have hdirty : ∀ other, Function.update w.dirty service true other = true → w.dirty other = true ∨ other = service := by
      intro other hd
      by_cases heq : other = service
      · exact .inr heq
      · rw [Function.update_of_ne heq] at hd
        exact .inl hd
    refine ⟨⟨h.authentic, h.backup, fun other hd => ?_⟩, fun other hd => ?_, hdirty⟩
    · rcases hdirty other hd with hd | rfl
      · exact h.covers other hd
      · exact hl
    · dsimp only at hd ⊢
      by_cases heq : other = service
      · rw [heq, Function.update_self] at hd
        cases hd
      · rw [Function.update_of_ne heq] at hd ⊢
        exact hintact other hd
  · exact ⟨h, hintact, fun _ hd => .inl hd⟩

/-- A service that is found in the backup has a line there. -/
theorem keeps_backupHasService {lines : List Line} (h : Holds original lines w) (hintact : Intact original w)
    (name : List Char) :
    Keeps original (backupHasService name) (fun found w' => Same w w' ∧ (found = true → ∃ l ∈ lines, l.1 = name)) w := by
  refine keeps_quiet .readBackup trivial ⟨hintact, .inr ⟨lines, h⟩⟩ fun e w' hs _ => ?_
  split
  · rename_i read complete hread
    refine ⟨hs, fun hfound => ?_⟩
    obtain ⟨n, rfl, -⟩ := readBackup_spec h e hread
    rw [hasService, List.any_map, List.any_eq_true] at hfound
    obtain ⟨l, hl, hname⟩ := hfound
    have hl := List.mem_of_mem_take hl
    refine ⟨l, hl, ?_⟩
    simpa [(h.authentic l hl).1.parse] using hname
  · exact ⟨hs, Bool.noConfusion⟩

/-- The services that a new backup is for, or that are found in an old one, are set. -/
theorem keeps_setLoop {lines : List Line} {preexisting : Bool} (servers : List (List Char))
    {services : List (List Char)} (hfresh : preexisting = false → ∀ service ∈ services, ∃ l ∈ lines, l.1 = service)
    (h : Holds original lines w) (hintact : Intact original w) {tried : List (List Char)}
    (htried : preexisting = false → ∀ service, w.dirty service = true → service ∈ tried) (setCount : Nat) :
    Keeps original (setLoop preexisting servers services tried setCount) (fun outcome w' =>
      Backed original w' ∧ ∀ tried' n, outcome = .failed tried' n → preexisting = false →
        ∀ service, w'.dirty service = true → service ∈ tried') w := by
  induction services generalizing w tried setCount with
  | nil => exact ⟨⟨hintact, .inr ⟨lines, h⟩⟩, fun tried' n heq => by cases heq⟩
  | cons service services ih =>
    have hrest : preexisting = false → ∀ service ∈ services, ∃ l ∈ lines, l.1 = service := fun hp s hs =>
      hfresh hp s (List.mem_cons_of_mem _ hs)
    have hcovered : Keeps original (maySet preexisting service)
        (fun covered w' => Same w w' ∧ (covered = true → ∃ l ∈ lines, l.1 = service)) w := by
      rw [maySet]
      split_ifs with hp
      · exact keeps_backupHasService h hintact service
      · exact ⟨⟨rfl, rfl, rfl⟩, fun _ => hfresh (by simpa using hp) service List.mem_cons_self⟩
    refine hcovered.bind fun covered w₁ hw₁ => ?_
    have h₁ := h.of_same hw₁.1
    have hintact₁ := hintact.of_same hw₁.1
    have htried₁ : preexisting = false → ∀ service, w₁.dirty service = true → service ∈ tried := fun hp s hd =>
      htried hp s (hw₁.1.dirty ▸ hd)
    split_ifs with hc
    · refine Prog.safe_call ⟨hintact₁, .inr ⟨lines, h₁⟩⟩ fun e _ => ?_
      obtain ⟨h₂, hintact₂, hdirty⟩ := h₁.setDns hintact₁ (hw₁.2 hc) servers e
      -- The service counts as tried, whether or not the command succeeds.
      have htried₂ : preexisting = false → ∀ other, (exec (.setDns service servers) e w₁).2.dirty other = true →
          other ∈ tried ++ [service] := by
        intro hp other hd
        rcases hdirty other hd with hd | rfl
        · exact List.mem_append_left _ (htried₁ hp other hd)
        · exact List.mem_append_right _ (List.mem_singleton_self _)
      split_ifs
      · exact ih hrest h₂ hintact₂ htried₂ _
      · refine ⟨⟨hintact₂, .inr ⟨lines, h₂⟩⟩, fun tried' n heq => ?_⟩
        cases heq
        exact htried₂
    · exact ih hrest h₁ hintact₁ (fun hp s hd => List.mem_append_left _ (htried₁ hp s hd)) _

/-! ## Operations -/

/-- Everything that may be changed is set back, and the backup is removed. -/
theorem keeps_rollBack {preexisting : Bool} {tried : List (List Char)} (h : Backed original w)
    (htried : preexisting = false → ∀ service, w.dirty service = true → service ∈ tried) (m : Mem) :
    Keeps original (rollBack preexisting tried m) (fun _ => Backed original) w := by
  refine (keeps_restoreFromBackupFile _ h).bind fun ok w' hw' => ?_
  obtain ⟨hb, hmono, hall⟩ := hw'
  split_ifs with hok
  · refine keeps_unlinkBackup hb (fun service => ?_) fun w'' hw'' => keeps_releaseLockIfInactive hw'' _
    -- What is still changed was not to be set back, so it was not changed before either.
    by_contra hd
    have hd : w'.dirty service = true := by simpa using hd
    have hfilter := hall hok service hd
    rw [Bool.or_eq_false_iff] at hfilter
    exact absurd (htried hfilter.1 service (hmono service hd)) (by simpa using hfilter.2)
  · exact hb

theorem keeps_setServices {lines : List Line} {preexisting : Bool} (servers : List (List Char))
    {services : List (List Char)} (hfresh : preexisting = false → ∀ service ∈ services, ∃ l ∈ lines, l.1 = service)
    (h : Holds original lines w) (hintact : Intact original w) (hclean : preexisting = false → Clean w) (m : Mem) :
    Keeps original (setServices preexisting servers services m) (fun _ => Backed original) w := by
  have htried : preexisting = false → ∀ service, w.dirty service = true → service ∈ ([] : List (List Char)) :=
    fun hp service hd => absurd ((hclean hp service).symm.trans hd) Bool.false_ne_true
  refine (keeps_setLoop servers hfresh h hintact htried 0).bind fun outcome w' hw' => ?_
  split
  · split_ifs
    · exact keeps_releaseLockIfInactive hw'.1 m
    · exact hw'.1
  · rename_i tried n
    exact keeps_rollBack hw'.1 (hw'.2 tried n rfl) _

theorem keeps_validateExistingBackup (h : Backed original w) :
    Keeps original validateExistingBackup (fun _ => Same w) w := by
  refine keeps_quiet .readBackup trivial h fun e w' hs _ => ?_
  split
  · exact hs
  · exact hs

theorem keeps_applyTo (servers : List (List Char)) {services : List (List Char)}
    (hlen : ∀ service ∈ services, service.length < svcMax) (h : Backed original w) (m : Mem) :
    Keeps original (applyTo servers services m) (fun _ => Backed original) w := by
  refine keeps_quiet .hasBackup trivial h fun e w₁ hs₁ _ => ?_
  have h₁ := h.of_same hs₁
  split_ifs with hpre
  · refine keeps_quiet .unlinkTmp trivial h₁ fun e' w₂ hs₂ _ => ?_
    have hs := hs₁.trans hs₂
    have h₂ := h.of_same hs
    split_ifs
    · refine (keeps_validateExistingBackup h₂).bind fun valid w₃ hs₃ => ?_
      have h₃ := h₂.of_same hs₃
      split_ifs
      · rcases h₃.backup with ⟨hnone, -⟩ | ⟨lines, hlines⟩
        · -- There was a backup, and nobody has removed it.
          have hbackup := (hs.trans hs₃).backup.symm.trans hnone
          rw [exec, hbackup] at hpre
          exact absurd hpre Bool.false_ne_true
        · exact keeps_setServices servers Bool.noConfusion hlines h₃.intact Bool.noConfusion m
      · exact keeps_releaseLockIfInactive h₃ m
    · exact keeps_releaseLockIfInactive h₂ m
  · rcases h₁.backup with ⟨-, hclean⟩ | ⟨lines, hlines⟩
    · refine (keeps_writeBackup hlen h₁ hclean).bind fun ok w₂ hw₂ => ?_
      split_ifs with hok
      · obtain ⟨lines, hlines, hall⟩ := hw₂.2.2 hok
        exact keeps_setServices servers (fun _ => hall) hlines hw₂.1.intact (fun _ => hw₂.2.1) m
      · exact keeps_releaseLockIfInactive hw₂.1 m
    · have hbackup := hs₁.backup.symm.trans hlines.backup
      rw [exec, hbackup] at hpre
      exact absurd rfl hpre

theorem keeps_apply (servers : List (List Char)) (h : Backed original w) (m : Mem) :
    Keeps original (apply servers m) (fun _ => Backed original) w := by
  rw [apply]
  split_ifs
  · exact h
  · refine (keeps_acquireLock h m).bind fun locked w₁ hs₁ => ?_
    have h₁ := h.of_same hs₁
    split
    · exact h₁
    · rename_i m'
      refine keeps_quiet .listServices trivial h₁ fun e w₂ hs₂ _ => ?_
      have h₂ := h₁.of_same hs₂
      split
      · exact keeps_releaseLockIfInactive h₂ m'
      · rename_i services hservices
        obtain ⟨output, -, hlist⟩ := Option.bind_eq_some_iff.1 hservices
        split_ifs
        · exact keeps_releaseLockIfInactive h₂ m'
        · exact keeps_applyTo servers (length_listServices hlist) h₂ m'

/-- All services are set back, and the backup is removed. -/
theorem keeps_restoreAll {p q : Prog Answer Mem} (h : Backed original w)
    (hp : ∀ w', Backed original w' → Keeps original p (fun _ => Backed original) w')
    (hq : ∀ w', Backed original w' → Keeps original q (fun _ => Backed original) w') :
    Keeps original (restoreFromBackupFile (fun _ => true) >>= fun restored =>
      if restored then perform .unlinkBackup >>= fun _ => p else q) (fun _ => Backed original) w := by
  refine (keeps_restoreFromBackupFile _ h).bind fun ok w' hw' => ?_
  obtain ⟨hb, -, hall⟩ := hw'
  split_ifs with hok
  · refine keeps_unlinkBackup hb (fun service => ?_) hp
    by_contra hd
    exact Bool.false_ne_true (hall hok service (by simpa using hd)).symm
  · exact hq w' hb

theorem keeps_restore (h : Backed original w) (m : Mem) :
    Keeps original (restore m) (fun _ => Backed original) w := by
  rw [restore]
  split_ifs
  · exact keeps_restoreAll h (fun w' hw' => keeps_releaseLock hw' _) fun w' hw' => hw'
  · exact h

theorem keeps_restoreStale (h : Backed original w) (m : Mem) :
    Keeps original (restoreStale m) (fun _ => Backed original) w := by
  rw [restoreStale]
  split_ifs
  · exact h
  · refine keeps_quiet .hasBackup trivial h fun e w₁ hs₁ _ => ?_
    have h₁ := h.of_same hs₁
    split_ifs
    · refine (keeps_acquireLock h₁ m).bind fun locked w₂ hs₂ => ?_
      have h₂ := h₁.of_same hs₂
      split
      · exact h₂
      · exact keeps_restoreAll h₂ (fun w' hw' => keeps_releaseLock hw' _) fun w' hw' => keeps_releaseLock hw' _
    · exact h₁

/-! ## Runs -/

theorem Backed.line (h : Backed original w) {service : List Char} (hd : w.dirty service = true) :
    ∃ text ∈ w.backup, some (service, recorded (original service)) ∈ records (pieces text []) false := by
  rcases h.backup with ⟨-, hclean⟩ | ⟨lines, hlines⟩
  · exact absurd ((hclean service).symm.trans hd) Bool.false_ne_true
  · obtain ⟨l, hl, rfl⟩ := hlines.covers service hd
    have hentries : ∀ l ∈ lines, Entry l.1 l.2.1 l.2.2 := fun l hl => (hlines.authentic l hl).1
    refine ⟨file lines, hlines.backup, ?_⟩
    rw [pieces_file hentries, records_file hentries, ← (hlines.authentic l hl).2]
    exact List.mem_map.2 ⟨l, hl, rfl⟩

/-- At every moment of every run, a service that the program has changed and not set back
    has a line in the backup with what was saved for it; without a backup, there is no such
    service. -/
theorem backed_run (original : List Char → List Char) (events : List (Machine.Event Op Env)) :
    (∀ service, (machine.run (start original) events).world.dirty service = true →
      ∃ text ∈ (machine.run (start original) events).world.backup,
        some (service, recorded (original service)) ∈ records (pieces text []) false) ∧
      ((machine.run (start original) events).world.backup = none →
        ∀ service, (machine.run (start original) events).world.dirty service = false) := by
  have hstart : Backed original (start original).world := ⟨fun _ _ => rfl, .inl ⟨rfl, fun _ => rfl⟩⟩
  have hrun : Backed original (machine.run (start original) events).world := by
    refine Machine.inv_run (P := fun _ _ _ => True) (J := fun _ => Backed original) ?_ (fun _ _ hw => hw)
      (fun w hw => hw) hstart (Runs.along_of_forall Machine.meets_true _ _)
    intro op m w hw
    cases op with
    | apply servers => exact keeps_apply servers hw m
    | restore => exact keeps_restore hw m
    | restoreStale => exact keeps_restoreStale hw m
  refine ⟨fun service hd => hrun.line hd, fun hnone service => ?_⟩
  by_contra hd
  rw [Bool.not_eq_false] at hd
  obtain ⟨text, htext, -⟩ := hrun.line hd
  cases hnone.symm.trans htext

/-- Two services, of which the second cannot be set: the first one is set back. -/
def sampleRollBack : List (Machine.Event Op Env) :=
  [.start (.apply ["10.8.0.1".toList]), .answer {}, .answer { output := "Header\nWi-Fi\nLAN\n".toList }] ++
    List.replicate 10 (.answer {}) ++ [.answer {}, .answer { ok := false, effect := true }]

example :
    let w := (machine.run (start fun _ => "192.168.1.1\n".toList) sampleRollBack).world
    w.dirty "Wi-Fi".toList = true ∧ w.dirty "LAN".toList = true ∧
      w.backup = some "Wi-Fi\t192.168.1.1\nLAN\t192.168.1.1\n".toList := by decide +kernel

end Mqvpn.DarwinDns
