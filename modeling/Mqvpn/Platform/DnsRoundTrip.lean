import Mqvpn.Platform.DarwinDns

/-!
# DNS is given back on macOS

With no command failing, and no backup there before, `mqvpn_dns_apply` sets the services and
`mqvpn_dns_restore` is to give each of them the servers that it had (`Returned`). What is
saved are all the servers of a service that fit in a line; but what is set back are at most
16, and with more of them `mqvpn_dns_restore` fails, however often it is called. So an apply
that succeeds is undone exactly if no service had more (`returned_iff`).
-/

namespace Mqvpn.DarwinDns

open Text

variable {output : List Char} {w : World} {services : List (List Char)} {lists : List Char → List (List Char)}

/-! ## Programs of which no call fails -/

/-- What `networksetup -getdnsservers` prints for a service with these servers. -/
def shown (service : List Char) (list : List (List Char)) : List Char :=
  display service (if list = [] then [empty] else list)

/-- The services have these servers. -/
def Has (lists : List Char → List (List Char)) (w : World) : Prop :=
  (∀ service, ∀ server ∈ lists service, IsIp server) ∧ w.dns = fun service => shown service (lists service)

/-- The program ends with the postcondition, if no call fails and the services are listed so. -/
abbrev Ends (output : List Char) {α : Type} (p : Prog Answer α) (Q : α → World → Prop) (w : World) : Prop :=
  p.Safe exec (fun _ e _ => e.ok = true ∧ e.output = output) (fun _ => True) Q w

theorem exec_of_ok (a : Call) {e : Env} (hok : e.ok = true) (houtput : e.output = output) (w : World) :
    exec a e w = exec a { output } w := by
  cases a <;> simp [exec, hok, houtput]

theorem ends_call {α : Type} {a : Call} {f : Answer a → Prog Answer α} {Q : α → World → Prop}
    (h : Ends output (f (exec a { output } w).1) Q (exec a { output } w).2) : Ends output (perform a >>= f) Q w := by
  refine Prog.safe_call trivial fun e he => ?_
  rw [exec_of_ok a he.1 he.2]
  exact h

/-! ## What is saved and set back -/

theorem recorded_shown {list : List (List Char)} (hip : ∀ server ∈ list, IsIp server) (service : List Char) :
    recorded (shown service list) = if list = [] then empty else [' '].intercalate list := by
  rw [shown]
  split_ifs with hnil
  · exact recorded_display_empty service
  · rw [display_of_isIp hip, recorded_flatMap hnil hip]

/-- What is saved for servers is set back as they were, if they are not too many. -/
theorem restoreArgs_recorded {list : List (List Char)} (hip : ∀ server ∈ list, IsIp server) (service : List Char) :
    restoreArgs (recorded (shown service list)) =
      if restoreMaxTokens < list.length then none else some (if list = [] then [empty] else list) := by
  rw [recorded_shown hip]
  by_cases hnil : list = []
  · subst hnil
    rfl
  · rw [if_neg hnil, if_neg hnil, restoreArgs_intercalate hip]

/-- The lines of services whose servers can be saved. -/
def Saved (w : World) (services : List (List Char)) (lines : List (List Char)) : Prop :=
  List.Forall₂ (fun service line => snapshot service (some (w.dns service)) = some line) services lines

theorem records_saved {lines : List (List Char)} (h : Saved w services lines)
    (hlen : ∀ service ∈ services, service.length < svcMax) :
    pieces lines.flatten [] = lines ∧
      records lines false = services.map fun service => some (service, recorded (w.dns service)) := by
  -- the lines as the lines of a backup file
  have hentries : ∃ entries : List (List Char × List Char × List Char), (∀ e ∈ entries, Entry e.1 e.2.1 e.2.2) ∧
      lines = entries.map (fun e => e.2.2) ∧
        entries.map (fun e => some (e.1, e.2.1)) =
          services.map fun service => some (service, recorded (w.dns service)) := by
    induction h with
    | nil => exact ⟨[], fun _ he => absurd he List.not_mem_nil, rfl, rfl⟩
    | @cons service line services lines hline _ ih =>
      obtain ⟨entries, hentries, rfl, hmap⟩ := ih fun service hs => hlen service (List.mem_cons_of_mem _ hs)
      rw [snapshot] at hline
      split at hline
      · rename_i servers hservers
        have hrec := getDnsServers_spec hservers
        subst hrec
        refine ⟨(service, recorded (w.dns service), line) :: entries, fun e he => ?_, rfl, by simp [hmap]⟩
        rcases List.mem_cons.1 he with rfl | he
        · exact ⟨hline, hlen service List.mem_cons_self, length_getDnsServers hservers, isEol_recorded _⟩
        · exact hentries e he
      · cases hline
  obtain ⟨entries, hentries, rfl, hmap⟩ := hentries
  refine ⟨?_, (records_file hentries).trans hmap⟩
  have hpieces := pieces_file hentries
  rwa [file, List.flatMap_def] at hpieces

/-! ## The backup is written -/

theorem ends_writeLines (htmp : w.tmp.isSome = true) :
    Ends output (writeLines services) (fun ok w' => ok = true →
      ∃ lines, Saved w services lines ∧ w' = { w with tmp := w.tmp.map (· ++ lines.flatten) }) w := by
  induction services generalizing w with
  | nil =>
    obtain ⟨text, htext⟩ := Option.isSome_iff_exists.1 htmp
    refine fun _ => ⟨[], .nil, ?_⟩
    rw [htext]
    simp [← htext]
  | cons service services ih =>
    have hdiscard (w' : World) : Ends output discardTmp (fun ok w' => ok = true →
        ∃ lines, Saved w (service :: services) lines ∧ w' = { w with tmp := w.tmp.map (· ++ lines.flatten) }) w' :=
      ends_call Bool.noConfusion
    refine ends_call ?_
    split
    · rename_i line hline
      refine ends_call ?_
      -- the lines behind this one are written to the longer file
      have htmp' : (w.tmp.map (· ++ line)).isSome = true := by rwa [Option.isSome_map]
      refine (ih (w := { w with tmp := w.tmp.map (· ++ line) }) htmp').mono fun ok w' h hok => ?_
      obtain ⟨lines, hlines, rfl⟩ := h hok
      refine ⟨line :: lines, .cons hline hlines, ?_⟩
      cases w.tmp with
      | none => rfl
      | some text => simp
    · exact hdiscard _

/-- A backup that is made has a line for every service. -/
theorem ends_writeBackup :
    Ends output (writeBackup services) (fun ok w' => ok = true →
      ∃ lines, Saved w services lines ∧ w' = { w with tmp := none, backup := some lines.flatten }) w := by
  refine ends_call (ends_call ?_)
  refine (ends_writeLines (w := { w with tmp := some [] }) rfl).bind fun written w₁ h => ?_
  split_ifs with hwritten
  · obtain ⟨lines, hlines, rfl⟩ := h hwritten
    refine ends_call (ends_call (ends_call fun _ => ⟨lines, hlines, rfl⟩))
  · exact Bool.noConfusion

/-- All services are set, and no others. -/
theorem ends_setLoop (servers tried : List (List Char)) (n : Nat) :
    Ends output (setLoop false servers services tried n) (fun outcome w' =>
      outcome = .complete (n + services.length) ∧ w'.backup = w.backup ∧
        ∀ service, service ∉ services → w'.dns service = w.dns service) w := by
  induction services generalizing w tried n with
  | nil => exact ⟨rfl, rfl, fun _ _ => rfl⟩
  | cons service services ih =>
    refine ends_call ?_
    refine (ih (tried ++ [service]) (n + 1)).mono fun outcome w' h => ?_
    obtain ⟨houtcome, hbackup, hdns⟩ := h
    refine ⟨?_, hbackup, fun other hother => ?_⟩
    · rw [houtcome, List.length_cons]
      congr 1
      omega
    · rw [List.mem_cons, not_or] at hother
      exact (hdns other hother.2).trans (Function.update_of_ne hother.1 _ _)

/-! ## The services are set back -/

/-- Services with at most 16 servers get them again; the others make the call fail. -/
theorem ends_restoreRecords {w₀ : World} (hw : Has lists w₀) :
    Ends output (restoreRecords (fun _ => true) (services.map fun service => some (service, recorded (w₀.dns service))))
      (fun ok w' => (ok = true ↔ ∀ service ∈ services, (lists service).length ≤ restoreMaxTokens) ∧
        w'.backup = w.backup ∧ (∀ service, service ∉ services → w'.dns service = w.dns service) ∧
          (ok = true → ∀ service ∈ services, w'.dns service = w₀.dns service)) w := by
  induction services generalizing w with
  | nil =>
    exact ⟨⟨fun _ _ hs => absurd hs List.not_mem_nil, fun _ => rfl⟩, rfl, fun _ _ => rfl,
      fun _ _ hs => absurd hs List.not_mem_nil⟩
  | cons service services ih =>
    have hargs := restoreArgs_recorded (hw.1 service) service
    rw [← congrFun hw.2 service] at hargs
    rw [List.map_cons, restoreRecords, if_pos rfl, restoreOne, hargs]
    by_cases hmany : restoreMaxTokens < (lists service).length
    · -- nothing is set back for this service
      rw [if_pos hmany]
      refine ih.bind fun ok w' h => ?_
      refine ⟨⟨Bool.noConfusion, fun hall => ?_⟩, h.2.1, fun other hother => h.2.2.1 other ?_, Bool.noConfusion⟩
      · exact absurd (hall service List.mem_cons_self) (Nat.not_le.2 hmany)
      · exact fun hmem => hother (List.mem_cons_of_mem _ hmem)
    · rw [if_neg hmany]
      refine ends_call ?_
      refine (ih (w := _)).bind fun ok w' h => ?_
      obtain ⟨hok, hbackup, hothers, hall⟩ := h
      refine ⟨?_, hbackup, fun other hother => ?_, fun hok' other hmem => ?_⟩
      · change (true && ok) = true ↔ _
        rw [Bool.true_and, hok]
        simp only [List.mem_cons, forall_eq_or_imp]
        exact (and_iff_right (Nat.not_lt.1 hmany)).symm
      · rw [List.mem_cons, not_or] at hother
        exact (hothers other hother.2).trans (Function.update_of_ne hother.1 _ _)
      · change (true && ok) = true at hok'
        rw [Bool.true_and] at hok'
        by_cases hrest : other ∈ services
        · exact hall hok' other hrest
        · -- it has not been touched since
          rcases List.mem_cons.1 hmem with rfl | hmem
          · rw [hothers other hrest, congrFun hw.2 other]
            exact Function.update_self _ _ _
          · exact absurd hmem hrest

/-! ## Apply and restore -/

theorem ends_releaseLock {m : Mem} {Q : Mem → World → Prop} (h : Q { m with lockFd := false } w) :
    Ends output (releaseLock m) Q w := by
  rw [releaseLock]
  split_ifs with hlock
  · exact ends_call h
  · rw [show m = { m with lockFd := false } by cases m; simp_all]
    exact h

/-- An apply that leaves DNS unchanged. -/
theorem ends_releaseLockIfInactive {m : Mem} (hm : m.active = false) {P : Mem → World → Prop} :
    Ends output (releaseLockIfInactive m) (fun m' w' => m'.active = true → P m' w') w := by
  rw [releaseLockIfInactive, if_neg (by simp [hm])]
  exact ends_releaseLock fun hactive => absurd (hm.symm.trans hactive) Bool.false_ne_true

/-- An apply that succeeds has saved all services, and set no others. -/
theorem ends_apply {servers : List (List Char)} (hservers : servers ≠ []) (hbackup : w.backup = none) :
    Ends output (apply servers {}) (fun m' w' => m'.active = true →
      m' = { active := true, lockFd := true } ∧ ∃ services lines, listServices output = some services ∧
        Saved w services lines ∧ w'.backup = some lines.flatten ∧
          ∀ service, service ∉ services → w'.dns service = w.dns service) w := by
  rw [apply, if_neg hservers]
  refine ends_call (ends_call ?_)
  have hanswer : (exec .listServices { output } (exec .lock { output } w).2).1.bind listServices =
    listServices output := rfl
  rw [hanswer]
  cases hlist : listServices output with
  | none => exact ends_releaseLockIfInactive rfl
  | some services =>
    dsimp only
    by_cases hnil : services = []
    · rw [if_pos hnil]
      exact ends_releaseLockIfInactive rfl
    rw [if_neg hnil, applyTo]
    refine ends_call ?_
    change Ends output (if w.backup.isSome = true then _ else _) _ w
    rw [hbackup, if_neg (by simp)]
    refine ends_writeBackup.bind fun written w₁ h => ?_
    by_cases hwritten : written = true
    · obtain ⟨lines, hlines, rfl⟩ := h hwritten
      rw [if_pos hwritten, setServices]
      refine (ends_setLoop servers [] 0).bind fun outcome w₂ h₂ => ?_
      obtain ⟨rfl, hbackup₂, hdns⟩ := h₂
      have hcount : 0 + services.length ≠ 0 := by
        rw [Nat.zero_add]
        exact fun h => hnil (List.eq_nil_of_length_eq_zero h)
      dsimp only
      rw [if_neg hcount]
      exact fun _ => ⟨rfl, services, lines, rfl, hlines, hbackup₂, hdns⟩
    · rw [if_neg hwritten]
      exact ends_releaseLockIfInactive rfl

/-- The services are set back, unless one of them had too many servers. -/
theorem ends_restore {w₀ : World} (hw : Has lists w₀) (hlen : ∀ service ∈ services, service.length < svcMax)
    {lines : List (List Char)} (hlines : Saved w₀ services lines) (hbackup : w.backup = some lines.flatten)
    (hdns : ∀ service, service ∉ services → w.dns service = w₀.dns service) :
    Ends output (restore { active := true, lockFd := true }) (fun m' w' =>
      ((∀ service ∈ services, (lists service).length ≤ restoreMaxTokens) →
        m' = {} ∧ w'.dns = w₀.dns ∧ w'.backup = none) ∧
      (¬(∀ service ∈ services, (lists service).length ≤ restoreMaxTokens) → m'.active = true)) w := by
  obtain ⟨hpieces, hrecords⟩ := records_saved hlines hlen
  have hread : (exec .readBackup { output } w).1 = some (lines, true) := by
    rw [exec, hbackup]
    dsimp only
    rw [if_pos rfl, hpieces]
  rw [restore, if_pos rfl, restoreFromBackupFile]
  have hfile : Ends output (restoreFromBackupFile fun _ => true) (fun ok w' =>
      (ok = true ↔ ∀ service ∈ services, (lists service).length ≤ restoreMaxTokens) ∧
        (ok = true → w'.dns = w₀.dns)) w := by
    refine ends_call ?_
    rw [hread]
    dsimp only
    rw [hrecords]
    have hsame : (exec .readBackup { output } w).2 = w := by
      rw [exec, hbackup]
      rfl
    rw [hsame]
    refine (ends_restoreRecords hw).bind fun ok w' h => ?_
    obtain ⟨hok, -, hothers, hall⟩ := h
    rw [Bool.and_true]
    refine ⟨hok, fun hok' => funext fun service => ?_⟩
    by_cases hmem : service ∈ services
    · exact hall hok' service hmem
    · exact (hothers service hmem).trans (hdns service hmem)
  refine hfile.bind fun ok w' h => ?_
  obtain ⟨hok, hall⟩ := h
  by_cases hmany : ∀ service ∈ services, (lists service).length ≤ restoreMaxTokens
  · rw [if_pos (hok.2 hmany)]
    exact ends_call (ends_releaseLock ⟨fun _ => ⟨rfl, hall (hok.2 hmany), rfl⟩, fun h => absurd hmany h⟩)
  · rw [if_neg fun h => hmany (hok.1 h)]
    exact ⟨fun h => absurd h hmany, fun _ => rfl⟩

/-- What a call ends with. -/
abbrev run (p : Prog Answer Mem) (es : Nat → Env) (w : World) : Mem × World := p.eval exec es w

/-- No call fails, and the services are listed so. -/
def Fair (output : List Char) (es : Nat → Env) : Prop := ∀ n, (es n).ok = true ∧ (es n).output = output

/-- The apply returns 0: there are no servers to set, or they are set. -/
def Succeeds (servers : List (List Char)) (m : Mem) : Prop := servers = [] ∨ m.active = true

/-- Every service has what it had in `w`, and there is no trace of a backup. -/
structure Returned (w : World) (r : Mem × World) : Prop where
  dns : r.2.dns = w.dns
  backup : r.2.backup = none
  active : r.1.active = false
  lockFd : r.1.lockFd = false

/-- After an apply that succeeds, a restore gives every service its servers back exactly if no
    service that was set had more than 16 of them. -/
theorem returned_iff (hw : Has lists w) (hbackup : w.backup = none) {servers : List (List Char)} {es es' : Nat → Env}
    (hes : Fair output es) (hes' : Fair output es') (hok : Succeeds servers (run (apply servers {}) es w).1) :
    Returned w (run (restore (run (apply servers {}) es w).1) es' (run (apply servers {}) es w).2) ↔
      servers = [] ∨ ∀ service ∈ (listServices output).getD [], (lists service).length ≤ restoreMaxTokens := by
  by_cases hservers : servers = []
  · subst hservers
    exact iff_of_true ⟨rfl, hbackup, rfl, rfl⟩ (.inl rfl)
  have happly : Ends output (apply servers {}) _ w := ends_apply hservers hbackup
  obtain ⟨hmem, services, lines, hlist, hlines, hsaved, hdns⟩ :=
    happly.eval (Prog.meets_of_forall fun _ _ n => hes n) (hok.resolve_left hservers)
  have hrestore : Ends output (restore _) _ _ := ends_restore hw (length_listServices hlist) hlines hsaved hdns
  have hrestore := hrestore.eval (Prog.meets_of_forall fun _ _ n => hes' n)
  rw [hlist, Option.getD_some, or_iff_right hservers, run, hmem]
  refine ⟨fun h => ?_, fun hmany => ?_⟩
  · by_contra hmany
    exact Bool.false_ne_true (h.active.symm.trans (hrestore.2 hmany))
  · obtain ⟨hm, hdns', hbackup'⟩ := hrestore.1 hmany
    exact ⟨hdns', hbackup', by rw [hm], by rw [hm]⟩

/-- Two services. -/
def sampleOutput : List Char := "Header\nWi-Fi\nLAN\n".toList

/-- One of them has two servers, the other none. -/
def sampleLists (service : List Char) : List (List Char) :=
  if service = "Wi-Fi".toList then ["192.168.1.1".toList, "fd00::1".toList] else []

/-- The services with such servers. -/
def worldOf (lists : List Char → List (List Char)) : World := { dns := fun service => shown service (lists service) }

theorem has_sampleLists : Has sampleLists (worldOf sampleLists) := by
  refine ⟨fun service server hserver => ?_, rfl⟩
  rw [sampleLists] at hserver
  split_ifs at hserver
  · revert server
    decide
  · cases hserver

theorem returned_iff_sample :
    Returned (worldOf sampleLists) (run (restore (run (apply ["10.8.0.1".toList] {}) (fun _ => { output := sampleOutput })
      (worldOf sampleLists)).1) (fun _ => { output := sampleOutput }) (run (apply ["10.8.0.1".toList] {})
        (fun _ => { output := sampleOutput }) (worldOf sampleLists)).2) ↔
      ["10.8.0.1".toList] = [] ∨
        ∀ service ∈ (listServices sampleOutput).getD [], (sampleLists service).length ≤ restoreMaxTokens :=
  returned_iff has_sampleLists rfl (fun _ => ⟨rfl, rfl⟩) (fun _ => ⟨rfl, rfl⟩) (.inr (by decide +kernel))

/-- A service with 17 servers. -/
def manyServers (service : List Char) : List (List Char) :=
  if service = "Wi-Fi".toList then List.replicate 17 "192.168.1.1".toList else []

/-- They are saved and not set back. -/
theorem not_returned :
    ¬∀ lists : List Char → List (List Char), (∀ service, ∀ server ∈ lists service, IsIp server) →
      ∀ servers output, Succeeds servers (run (apply servers {}) (fun _ => { output }) (worldOf lists)).1 →
        Returned (worldOf lists) (run (restore (run (apply servers {}) (fun _ => { output }) (worldOf lists)).1)
          (fun _ => { output }) (run (apply servers {}) (fun _ => { output }) (worldOf lists)).2) := by
  intro h
  have hip : ∀ service, ∀ server ∈ manyServers service, IsIp server := by
    intro service server hserver
    rw [manyServers] at hserver
    split_ifs at hserver
    · rw [List.eq_of_mem_replicate hserver]
      decide
    · cases hserver
  have hreturned := h manyServers hip ["10.8.0.1".toList] sampleOutput (.inr (by decide +kernel))
  exact absurd hreturned.active (by decide +kernel)

end Mqvpn.DarwinDns
