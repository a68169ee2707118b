import Mqvpn.Lib.Prog
import Mathlib.Tactic.SplitIfs

/-!
# DNS on Linux

Without resolvectl, the DNS override of the Linux client copies `resolv.conf` to a
backup and writes its own; the way back is to copy the backup over it and to remove the
backup. The original is to be in one of the two files at all times (`Kept`). A backup
that is there is overwritten without a look at it, and `resolv.conf` is overwritten
without a backup if the copy fails. The original is kept in every run in which a copy to
the backup is made of the original, and `resolv.conf` is overwritten only while the
backup holds the original (`Covered`, `kept_run`).

Copies succeed or fail as a whole. The lock is taken and given back here without its
file; two processes are the subject of `Mqvpn.Platform.DnsLock`.
-/

namespace Mqvpn.ResolvConf

/-! ## Calls -/

/-- The two files, and whether the process has the lock. -/
structure World where
  resolv : Option (List Char) := none
  backup : Option (List Char) := none
  flocked : Bool := false

/-- What becomes of the lock: it is taken, another open file has it, or its file could not
    be opened. -/
inductive Lock
  | locked
  | refused
  | noFile

inductive Call
  | lock
  /-- `copy_file(resolv_path, backup_path)` -/
  | backup
  | write (servers : List (List Char))
  | unlock
  /-- `copy_file(backup_path, resolv_path)` -/
  | restore
  | unlinkBackup
  /-- `mqvpn_dns_has_stale_backup` -/
  | hasStaleBackup

abbrev Answer : Call → Type
  | .lock => Lock
  | .backup | .write _ | .restore | .hasStaleBackup => Bool
  | .unlock | .unlinkBackup => Unit

/-- What the environment decides about a call. -/
structure Env where
  ok : Bool := true
  /-- Another process has the lock. -/
  busy : Bool := false
  /-- A file that could not be written has been truncated. -/
  truncated : Bool := false

/-- The text that `mqvpn_dns_apply` writes. -/
def generated (servers : List (List Char)) : List Char :=
  "# Generated by mqvpn — do not edit\n".toList ++
    "# Original saved to /etc/resolv.conf.mqvpn.bak\n".toList ++
    servers.flatMap fun server => "nameserver ".toList ++ server ++ ['\n']

def exec : (a : Call) → Env → World → Answer a × World
  | .lock, e, w =>
    if e.ok = false then (.noFile, w)
    else if w.flocked ∨ e.busy then (.refused, w)
    else (.locked, { w with flocked := true })
  | .backup, e, w =>
    match w.resolv with
    | some text => if e.ok then (true, { w with backup := some text }) else (false, w)
    | none => (false, w)
  | .write servers, e, w =>
    if e.ok then (true, { w with resolv := some (generated servers) })
    else (false, if e.truncated then { w with resolv := some [] } else w)
  | .unlock, _, w => ((), { w with flocked := false })
  | .restore, e, w =>
    match w.backup with
    | some text => if e.ok then (true, { w with resolv := some text }) else (false, w)
    | none => (false, w)
  | .unlinkBackup, e, w => ((), if e.ok then { w with backup := none } else w)
  | .hasStaleBackup, _, w => (w.backup.isSome, w)

/-! ## Operations -/

/-- The part of `mqvpn_dns_t` that changes. -/
structure Mem where
  active : Bool := false
  /-- `lock_fd >= 0` -/
  lockFd : Bool := false

/-- A single call. -/
abbrev perform (a : Call) : Prog Answer (Answer a) := Prog.perform a

/-- The lock is given back, if there is one. -/
def dropLock (m : Mem) : Prog Answer Mem := do
  if m.lockFd then
    let () ← perform .unlock
    return { m with lockFd := false }
  else return m

/-- `mqvpn_dns_apply`, once the lock is settled. -/
def overwrite (servers : List (List Char)) (m : Mem) : Prog Answer Mem := do
  -- a copy that failed is only logged
  let _ ← perform .backup
  let written : Bool ← perform (.write servers)
  if written then return { m with active := true } else dropLock m

/-- `mqvpn_dns_apply` -/
def apply (servers : List (List Char)) (m : Mem) : Prog Answer Mem := do
  if servers = [] then return m
  else
    let lock : Lock ← perform .lock
    match lock with
    | .refused => return m
    | .locked => overwrite servers { m with lockFd := true }
    | .noFile => overwrite servers m

/-- `mqvpn_dns_restore` -/
def restore (m : Mem) : Prog Answer Mem := do
  if m.active then
    let restored : Bool ← perform .restore
    if restored then
      let () ← perform .unlinkBackup
      dropLock { m with active := false }
    else dropLock { m with active := false }
  else return m

/-- `mqvpn_dns_restore_stale` -/
def restoreStale (m : Mem) : Prog Answer Mem := do
  let stale : Bool ← perform .hasStaleBackup
  if stale then
    let restored : Bool ← perform .restore
    if restored then
      let () ← perform .unlinkBackup
      return m
    else return m
  else return m

inductive Op
  | apply (servers : List (List Char))
  | restore
  | restoreStale

def machine : Machine Call Env World Op Mem Answer where
  exec := exec
  code
    | .apply servers => apply servers
    | .restore => restore
    | .restoreStale => restoreStale
  boot := {}
  die w := { w with flocked := false }

/-- A process that has just started, with a `resolv.conf` or without. -/
def start (original : Option (List Char)) : Machine.State World Mem Answer where
  world := { resolv := original }
  mem := {}

/-! ## The original -/

variable {original : Option (List Char)} {w : World} {m : Mem}

/-- The original is in `resolv.conf` or in the backup. -/
def Kept (original : Option (List Char)) (w : World) : Prop :=
  ∀ text ∈ original, w.resolv = some text ∨ w.backup = some text

/-- A backup that is there is the original, and the original is kept. -/
structure Genuine (original : Option (List Char)) (w : World) : Prop where
  kept : Kept original w
  backup : ∀ text ∈ original, ∀ copy ∈ w.backup, copy = text

/-- What is copied to the backup is the original, and what is overwritten is not the only
    copy of it. -/
def Covered (original : Option (List Char)) (a : Call) (e : Env) (w : World) : Prop :=
  match a with
  | .backup => e.ok = true → ∀ text ∈ original, ∀ copy ∈ w.resolv, copy = text
  | .write _ => e.ok = true ∨ e.truncated = true → ∀ text ∈ original, w.backup = some text
  | _ => True

instance (a : Call) (e : Env) : Decidable (Covered original a e w) :=
  match a with
  | .backup => inferInstanceAs (Decidable (_ → ∀ text ∈ original, ∀ copy ∈ w.resolv, _))
  | .write _ => inferInstanceAs (Decidable (_ → ∀ text ∈ original, _))
  | .lock | .unlock | .restore | .unlinkBackup | .hasStaleBackup => inferInstanceAs (Decidable True)

/-! ## The calls keep it -/

theorem Genuine.exec (h : Genuine original w) {a : Call} {e : Env} (hcov : Covered original a e w)
    (hunlink : a = .unlinkBackup → ∀ text ∈ original, w.resolv = some text) : Genuine original (exec a e w).2 := by
  cases a with
  | lock =>
    rw [ResolvConf.exec]
    split_ifs
    · exact h
    · exact h
    · exact ⟨h.kept, h.backup⟩
  | backup =>
    rw [ResolvConf.exec]
    split
    · rename_i copy hcopy
      split_ifs with hok
      · have htext : ∀ text ∈ original, copy = text := fun text ht => hcov hok text ht copy hcopy
        refine ⟨fun text ht => .inr (congrArg some (htext text ht)), fun text ht copy' hcopy' => ?_⟩
        cases hcopy'
        exact htext text ht
      · exact h
    · exact h
  | write servers =>
    -- The backup has the original, whatever becomes of `resolv.conf`.
    have hresolv : e.ok = true ∨ e.truncated = true → ∀ resolv, Genuine original { w with resolv } :=
      fun he resolv => ⟨fun text ht => .inr (hcov he text ht), h.backup⟩
    rw [ResolvConf.exec]
    split_ifs with hok htrunc
    · exact hresolv (.inl hok) _
    · exact hresolv (.inr htrunc) _
    · exact h
  | unlock => exact ⟨h.kept, h.backup⟩
  | restore =>
    rw [ResolvConf.exec]
    split
    · rename_i copy hcopy
      split_ifs
      · exact ⟨fun text ht => .inl (congrArg some (h.backup text ht copy hcopy)), h.backup⟩
      · exact h
    · exact h
  | unlinkBackup =>
    rw [ResolvConf.exec]
    dsimp only
    split_ifs
    · refine ⟨fun text ht => .inl (hunlink rfl text ht), fun text _ copy hcopy => ?_⟩
      cases hcopy
    · exact h
  | hasStaleBackup => exact h

/-- A restore that succeeds brings the original back. -/
theorem Genuine.restore (h : Genuine original w) {e : Env} (hok : (ResolvConf.exec .restore e w).1 = true) :
    ∀ text ∈ original, (ResolvConf.exec .restore e w).2.resolv = some text := by
  intro text ht
  revert hok
  rw [ResolvConf.exec]
  split
  · rename_i copy hcopy
    split_ifs
    · intro _
      exact congrArg some (h.backup text ht copy hcopy)
    · exact fun hok => absurd hok (by simp)
  · exact fun hok => absurd hok (by simp)

/-! ## The operations keep it -/

/-- The programs of the process, which leave the original where it is. -/
abbrev Keeps (original : Option (List Char)) (p : Prog Answer Mem) (w : World) : Prop :=
  p.Safe ResolvConf.exec (Covered original) (Genuine original) (fun _ => Genuine original) w

theorem keeps_dropLock (h : Genuine original w) (m : Mem) : Keeps original (dropLock m) w := by
  rw [dropLock]
  split_ifs
  · exact Prog.safe_call h fun e he => h.exec he Call.noConfusion
  · exact h

theorem keeps_overwrite (h : Genuine original w) (servers : List (List Char)) (m : Mem) :
    Keeps original (overwrite servers m) w := by
  refine Prog.safe_call h fun e he => ?_
  have h := h.exec he Call.noConfusion
  refine Prog.safe_call h fun e' he' => ?_
  have h := h.exec he' Call.noConfusion
  split_ifs
  · exact h
  · exact keeps_dropLock h m

theorem keeps_apply (h : Genuine original w) (servers : List (List Char)) (m : Mem) :
    Keeps original (apply servers m) w := by
  rw [apply]
  split_ifs
  · exact h
  · refine Prog.safe_call h fun e he => ?_
    have h := h.exec he Call.noConfusion
    split
    · exact h
    · exact keeps_overwrite h servers _
    · exact keeps_overwrite h servers _

/-- The copy back, and the removal of the backup only after it. -/
theorem keeps_copyBack (h : Genuine original w) {p q : Prog Answer Mem}
    (hp : ∀ w, Genuine original w → Keeps original p w) (hq : ∀ w, Genuine original w → Keeps original q w) :
    Keeps original (perform .restore >>= fun restored : Bool =>
      if restored then perform .unlinkBackup >>= fun _ => p else q) w := by
  refine Prog.safe_call h fun e he => ?_
  have h' := h.exec he Call.noConfusion
  split_ifs with hok
  · refine Prog.safe_call h' fun e' he' => hp _ (h'.exec he' fun _ => ?_)
    exact h.restore hok
  · exact hq _ h'

theorem keeps_restore (h : Genuine original w) (m : Mem) : Keeps original (restore m) w := by
  rw [restore]
  split_ifs
  · exact keeps_copyBack h (fun w hw => keeps_dropLock hw _) fun w hw => keeps_dropLock hw _
  · exact h

theorem keeps_restoreStale (h : Genuine original w) (m : Mem) : Keeps original (restoreStale m) w := by
  refine Prog.safe_call h fun e he => ?_
  have h := h.exec he Call.noConfusion
  split_ifs
  · exact keeps_copyBack h (fun w hw => hw) fun w hw => hw
  · exact h

/-! ## Runs -/

/-- In every run whose copies are covered, the original is in one of the two files at every
    moment, and a restore that succeeds brings it back. -/
theorem kept_run (original : Option (List Char)) {events : List (Machine.Event Op Env)}
    (hcov : Runs.Along machine.step (Machine.Meets (Covered original)) (start original) events) :
    Kept original (machine.run (start original) events).world ∧
      ∀ e w, exec .restore e (machine.run (start original) events).world = (true, w) →
        ∀ text ∈ original, w.resolv = some text := by
  have hstart : Genuine original (start original).world := ⟨fun text ht => .inl ht, fun _ _ _ hc => by cases hc⟩
  have hrun : Genuine original (machine.run (start original) events).world := by
    refine Machine.inv_run (J := fun _ => Genuine original) ?_ (fun _ _ hw => hw) (fun w hw => ⟨hw.kept, hw.backup⟩)
      hstart hcov
    intro op m w hw
    cases op with
    | apply servers => exact keeps_apply hw servers m
    | restore => exact keeps_restore hw m
    | restoreStale => exact keeps_restoreStale hw m
  refine ⟨hrun.kept, fun e w hexec => ?_⟩
  have hback := hrun.restore (e := e) (congrArg Prod.fst hexec)
  rw [hexec] at hback
  exact hback

def sampleOriginal : Option (List Char) := some "nameserver 192.168.1.1\n".toList

/-- The lock, the backup and the new `resolv.conf`. -/
def sampleApply : List (Machine.Event Op Env) :=
  [.start (.apply ["10.8.0.1".toList]), .answer {}, .answer {}, .answer {}]

/-- A crash, the restart with a restore of the backup, and another round. -/
def sampleCovered : List (Machine.Event Op Env) :=
  sampleApply ++ [.crash, .start .restoreStale, .answer {}, .answer {}, .answer {}] ++ sampleApply

theorem kept_run_sample :
    (machine.run (start sampleOriginal) sampleCovered).world.resolv ≠ sampleOriginal ∧
      Kept sampleOriginal (machine.run (start sampleOriginal) sampleCovered).world :=
  ⟨by decide +kernel, (kept_run sampleOriginal (by decide +kernel)).1⟩

/-- A crash, and another round without a restore. -/
def sampleAgain : List (Machine.Event Op Env) := sampleApply ++ [.crash] ++ sampleApply

/-- A round in which the copy to the backup fails. -/
def sampleUnsaved : List (Machine.Event Op Env) :=
  [.start (.apply ["10.8.0.1".toList]), .answer {}, .answer { ok := false }, .answer {}]

instance : Decidable (Kept original w) := inferInstanceAs (Decidable (∀ text ∈ original, _))

/-- The backup is overwritten with what the first round wrote; and without a backup, the
    only copy is overwritten. -/
theorem not_kept :
    ¬Kept sampleOriginal (machine.run (start sampleOriginal) sampleAgain).world ∧
      ¬Kept sampleOriginal (machine.run (start sampleOriginal) sampleUnsaved).world :=
  ⟨by decide +kernel, by decide +kernel⟩

end Mqvpn.ResolvConf
