import Mqvpn.Lib.Prog
import Mqvpn.Platform.DnsBackup
import Mathlib.Logic.Function.Basic

/-!
# DNS on macOS

The DNS override of the macOS client: it saves the servers of every network service in
a backup file, sets its own, and sets the saved ones back. A process may die between
any two of its calls, and the next one finds what it has left.

The world is what outlives the process: the servers of the services, as `networksetup
-getdnsservers` prints them, and the two files. For the statements it also knows which
services the program has changed and not set back (`dirty`). The lock is only taken and
given back here; two processes are the subject of `Mqvpn.Platform.DnsLock`.
-/

namespace Mqvpn.DarwinDns

/-! ## Calls -/

structure World where
  dns : List Char → List Char
  dirty : List Char → Bool := fun _ => false
  backup : Option (List Char) := none
  tmp : Option (List Char) := none

inductive Call
  | lock
  /-- `close` and `unlink` in `release_lock` -/
  | unlock
  /-- `networksetup -listallnetworkservices` -/
  | listServices
  /-- `access(backup_path)` -/
  | hasBackup
  | unlinkTmp
  | createTmp
  /-- `networksetup -getdnsservers` -/
  | getDns (service : List Char)
  | writeTmp (line : List Char)
  | flushTmp
  | renameTmp
  | flushDir
  /-- The lines of the backup, as far as they can be read, and whether all could be. -/
  | readBackup
  /-- `networksetup -setdnsservers` with the servers of the VPN -/
  | setDns (service : List Char) (servers : List (List Char))
  /-- `networksetup -setdnsservers` with what is saved -/
  | restoreDns (service : List Char) (args : List (List Char))
  | unlinkBackup

abbrev Answer : Call → Type
  | .lock | .hasBackup | .unlinkTmp | .createTmp | .writeTmp _ | .flushTmp | .renameTmp | .flushDir
  | .setDns _ _ | .restoreDns _ _ => Bool
  | .unlock | .unlinkBackup => Unit
  | .listServices | .getDns _ => Option (List Char)
  | .readBackup => Option (List (List Char) × Bool)

/-- What the environment decides about a call. -/
structure Env where
  ok : Bool := true
  /-- A command that failed has taken effect. -/
  effect : Bool := false
  /-- The output of a command that lists services. -/
  output : List Char := []
  /-- How much could be read or written before an error, if anything. -/
  done : Option Nat := none

def exec : (a : Call) → Env → World → Answer a × World
  | .lock, e, w => (e.ok, w)
  | .unlock, _, w => ((), w)
  | .listServices, e, w => (if e.ok then some e.output else none, w)
  | .hasBackup, _, w => (w.backup.isSome, w)
  | .unlinkTmp, e, w => if e.ok then (true, { w with tmp := none }) else (false, w)
  | .createTmp, e, w => if e.ok ∧ w.tmp = none then (true, { w with tmp := some [] }) else (false, w)
  | .getDns service, e, w => (if e.ok then some (w.dns service) else none, w)
  | .writeTmp line, e, w =>
    if e.ok then (true, { w with tmp := w.tmp.map (· ++ line) })
    else (false, { w with tmp := w.tmp.map (· ++ line.take (e.done.getD 0)) })
  | .flushTmp, e, w => (e.ok, w)
  | .renameTmp, e, w =>
    match w.tmp with
    | some text => if e.ok then (true, { w with backup := some text, tmp := none }) else (false, w)
    | none => (false, w)
  | .flushDir, e, w => (e.ok, w)
  | .readBackup, e, w =>
    match w.backup with
    | some text =>
      if e.ok then (some (pieces text [], true), w)
      else (e.done.map fun n => ((pieces text []).take n, false), w)
    | none => (none, w)
  | .setDns service servers, e, w =>
    (e.ok, if e.ok ∨ e.effect then
      { w with
        dns := Function.update w.dns service (display service servers)
        dirty := Function.update w.dirty service true }
    else w)
  | .restoreDns service args, e, w =>
    (e.ok, if e.ok ∨ e.effect then
      { w with
        dns := Function.update w.dns service (display service args)
        dirty := Function.update w.dirty service false }
    else w)
  | .unlinkBackup, e, w => ((), if e.ok then { w with backup := none } else w)

/-- A single call. -/
abbrev perform (a : Call) : Prog Answer (Answer a) := Prog.perform a

/-! ## The lock -/

/-- The part of `mqvpn_dns_t` that changes. -/
structure Mem where
  active : Bool := false
  /-- `lock_fd >= 0` -/
  lockFd : Bool := false

/-- `acquire_lock` -/
def acquireLock (m : Mem) : Prog Answer (Option Mem) := do
  if m.lockFd then return some m
  else
    let locked : Bool ← perform .lock
    if locked then return some { m with lockFd := true } else return none

/-- `release_lock` -/
def releaseLock (m : Mem) : Prog Answer Mem := do
  if m.lockFd then
    let () ← perform .unlock
    return { m with lockFd := false }
  else return m

/-- `release_lock_if_inactive` -/
def releaseLockIfInactive (m : Mem) : Prog Answer Mem := if m.active then return m else releaseLock m

/-! ## The backup -/

/-- The way out of `write_backup` once the file is there. -/
def discardTmp : Prog Answer Bool := do
  let _ ← perform .unlinkTmp
  return false

/-- The line of a service in `write_backup`. -/
def snapshot (service : List Char) (output : Option (List Char)) : Option (List Char) :=
  match output with
  | some output =>
    match getDnsServers output with
    | some servers => formatLine service servers
    | none => none
  | none => none

/-- The loop of `write_backup` -/
def writeLines : List (List Char) → Prog Answer Bool
  | [] => return true
  | service :: services => do
    let output : Option (List Char) ← perform (.getDns service)
    match snapshot service output with
    | some line =>
      let written : Bool ← perform (.writeTmp line)
      if written then writeLines services else discardTmp
    | none => discardTmp

/-- The end of `write_backup`: the file takes its place. -/
def publish : Prog Answer Bool := do
  let flushed : Bool ← perform .flushTmp
  if flushed then
    let renamed : Bool ← perform .renameTmp
    if renamed then perform .flushDir else discardTmp
  else discardTmp

/-- `write_backup` -/
def writeBackup (services : List (List Char)) : Prog Answer Bool := do
  let unlinked : Bool ← perform .unlinkTmp
  if unlinked then
    let created : Bool ← perform .createTmp
    if created then
      let written ← writeLines services
      if written then publish else return false
    else return false
  else return false

/-- `validate_existing_backup` -/
def validateExistingBackup : Prog Answer Bool := do
  let read : Option (List (List Char) × Bool) ← perform .readBackup
  match read with
  | some (lines, complete) => return complete && Valid lines
  | none => return false

/-- `backup_has_service` -/
def backupHasService (name : List Char) : Prog Answer Bool := do
  let read : Option (List (List Char) × Bool) ← perform .readBackup
  match read with
  | some (lines, _) => return hasService lines name
  | none => return false

/-- `restore_one` -/
def restoreOne (service servers : List Char) : Prog Answer Bool :=
  match restoreArgs servers with
  | some args => perform (.restoreDns service args)
  | none => return false

/-- The loop of `restore_from_backup_file`; a line that cannot be parsed is a failure. -/
def restoreRecords (filter : List Char → Bool) : List (Option (List Char × List Char)) → Prog Answer Bool
  | [] => return true
  | none :: rest => do
    let _ ← restoreRecords filter rest
    return false
  | some (service, servers) :: rest => do
    if filter service then
      let restored ← restoreOne service servers
      let others ← restoreRecords filter rest
      return restored && others
    else restoreRecords filter rest

/-- `restore_from_backup_file`, for the services that the filter lets through. -/
def restoreFromBackupFile (filter : List Char → Bool) : Prog Answer Bool := do
  let read : Option (List (List Char) × Bool) ← perform .readBackup
  match read with
  | some (lines, complete) =>
    let restored ← restoreRecords filter (records lines false)
    return restored && complete
  | none => return false

/-! ## Operations -/

/-- How the loop of `mqvpn_dns_apply` ends: with so many services set, or at a service that
    could not be set, with it and those before it. -/
inductive Outcome
  | complete (setCount : Nat)
  | failed (tried : List (List Char)) (setCount : Nat)

/-- A backup that was there before need not have a line for the service. -/
def maySet (preexisting : Bool) (service : List Char) : Prog Answer Bool :=
  if preexisting then backupHasService service else return true

/-- The loop of `mqvpn_dns_apply`, after the services that have been dealt with. -/
def setLoop (preexisting : Bool) (servers : List (List Char)) :
    List (List Char) → List (List Char) → Nat → Prog Answer Outcome
  | [], _, setCount => return .complete setCount
  | service :: services, tried, setCount => do
    let covered ← maySet preexisting service
    if covered then
      let set : Bool ← perform (.setDns service servers)
      if set then setLoop preexisting servers services (tried ++ [service]) (setCount + 1)
      else return .failed (tried ++ [service]) setCount
    else setLoop preexisting servers services (tried ++ [service]) setCount

/-- The end of `mqvpn_dns_apply` once a service could not be set: all services of a backup
    that was there before are set back, or those that this call may have changed. -/
def rollBack (preexisting : Bool) (tried : List (List Char)) (m : Mem) : Prog Answer Mem := do
  let rolledBack ← restoreFromBackupFile fun service => preexisting || service ∈ tried
  if rolledBack then
    let () ← perform .unlinkBackup
    releaseLockIfInactive { m with active := false }
  else return { m with active := true }

/-- `mqvpn_dns_apply`, once there is a backup. -/
def setServices (preexisting : Bool) (servers services : List (List Char)) (m : Mem) : Prog Answer Mem := do
  let outcome ← setLoop preexisting servers services [] 0
  match outcome with
  | .complete setCount =>
    if setCount = 0 then releaseLockIfInactive m else return { m with active := true }
  | .failed tried setCount => rollBack preexisting tried { m with active := m.active || 0 < setCount }

/-- `mqvpn_dns_apply`, with the lock and the services: the backup that is there is
    validated, or a new one is made. -/
def applyTo (servers services : List (List Char)) (m : Mem) : Prog Answer Mem := do
  let preexisting : Bool ← perform .hasBackup
  if preexisting then
    let unlinked : Bool ← perform .unlinkTmp
    if unlinked then
      let valid ← validateExistingBackup
      if valid then setServices true servers services m else releaseLockIfInactive m
    else releaseLockIfInactive m
  else
    let written ← writeBackup services
    if written then setServices false servers services m else releaseLockIfInactive m

/-- `mqvpn_dns_apply` -/
def apply (servers : List (List Char)) (m : Mem) : Prog Answer Mem := do
  if servers = [] then return m
  else
    let locked ← acquireLock m
    match locked with
    | none => return m
    | some m =>
      let output : Option (List Char) ← perform .listServices
      match output.bind listServices with
      | none => releaseLockIfInactive m
      | some services => if services = [] then releaseLockIfInactive m else applyTo servers services m

/-- `mqvpn_dns_restore` -/
def restore (m : Mem) : Prog Answer Mem := do
  if m.active then
    let restored ← restoreFromBackupFile fun _ => true
    if restored then
      let () ← perform .unlinkBackup
      releaseLock { m with active := false }
    else return m
  else return m

/-- `mqvpn_dns_restore_stale` -/
def restoreStale (m : Mem) : Prog Answer Mem := do
  if m.active then return m
  else
    let stale : Bool ← perform .hasBackup
    if stale then
      let locked ← acquireLock m
      match locked with
      | none => return m
      | some m =>
        let restored ← restoreFromBackupFile fun _ => true
        if restored then
          let () ← perform .unlinkBackup
          releaseLock m
        else releaseLock m
    else return m

inductive Op
  | apply (servers : List (List Char))
  | restore
  | restoreStale

def machine : Machine Call Env World Op Mem Answer where
  exec := exec
  code
    | .apply servers => apply servers
    | .restore => restore
    | .restoreStale => restoreStale
  boot := {}
  die := id

/-- A process that has just started, when nothing has been changed yet. -/
def start (original : List Char → List Char) : Machine.State World Mem Answer where
  world := { dns := original }
  mem := {}

end Mqvpn.DarwinDns
