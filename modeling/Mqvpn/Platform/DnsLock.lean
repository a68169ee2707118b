import Mqvpn.Lib.Runs
import Mathlib.Data.List.Basic
import Mathlib.Logic.Function.Basic
import Mathlib.Tactic.SplitIfs

/-!
# The DNS lock

The processes that manage DNS meet at a lock file: each opens it, creating it if need
be, and takes an exclusive lock on what it has opened. To give the lock back, a process
closes the file and then removes it. At most one process is to have the lock at a time
(`Exclusive`). But the lock belongs to the inode, and the file may be removed while
another process has opened or even locked that inode; a third process then finds a file
of its own. The lock is exclusive in every run in which a file is removed only when
nobody else has opened or locked it (`Alone`, `exclusive_run`).
-/

namespace Mqvpn

namespace DnsLock

/-! ## Processes -/

/-- The two variants of the code. -/
inductive Os
  | darwin
  | linux
  deriving DecidableEq

/-- Where a process is in taking the lock or giving it back. -/
inductive Phase
  | idle
  /-- `open` has been called, and `flock` has not. -/
  | opened (ino : Nat)
  /-- `flock` has failed. -/
  | refused
  /-- The lock is given back, and its file is still to be removed. -/
  | unlinking
  deriving DecidableEq

structure Proc where
  /-- The inode of `lock_fd`, if the process has the lock. -/
  lockFd : Option Nat := none
  phase : Phase := .idle

end DnsLock

/-- The directory entry of the lock file, the processes that have locked the inodes, and
    the processes. -/
structure DnsLock where
  entry : Option Nat := none
  nextIno : Nat := 0
  holder : Nat → Option Nat := fun _ => none
  procs : List DnsLock.Proc

namespace DnsLock

variable (os : Os) (s : DnsLock)

/-- A call of a process. -/
inductive Call
  /-- `open` in `acquire_lock` or `mqvpn_dns_apply` -/
  | openFile
  /-- `flock` -/
  | flock
  /-- `close` after `flock` has failed -/
  | closeRefused
  /-- `close` of `lock_fd`; the apply may have failed. -/
  | close (failed : Bool)
  /-- `unlink` of the lock file -/
  | unlink
  | die
  deriving DecidableEq

def setProc (p : Nat) (proc : Proc) : DnsLock := { s with procs := s.procs.set p proc }

/-- A call of the process `p`, if it is where the call is made. -/
def call (p : Nat) (proc : Proc) : Call → DnsLock
  | .openFile =>
    -- on macOS, a process that has the lock does not take it again
    if proc.phase = .idle ∧ (os = .darwin → proc.lockFd = none) then
      match s.entry with
      | some ino => s.setProc p { proc with phase := .opened ino }
      | none =>
        { s with entry := some s.nextIno, nextIno := s.nextIno + 1 }.setProc p
          { proc with phase := .opened s.nextIno }
    else s
  | .flock =>
    match proc.phase with
    | .opened ino =>
      if s.holder ino = none then
        { s with holder := Function.update s.holder ino (some p) }.setProc p { lockFd := some ino }
      else s.setProc p { proc with phase := .refused }
    | _ => s
  | .closeRefused => if proc.phase = .refused then s.setProc p { proc with phase := .idle } else s
  | .close failed =>
    match proc.lockFd with
    | some ino =>
      if proc.phase = .idle then
        -- on Linux, an apply that fails leaves the file
        { s with holder := Function.update s.holder ino none }.setProc p
          { phase := if os = Os.linux ∧ failed = true then .idle else .unlinking }
      else s
    | none => s
  | .unlink =>
    if proc.phase = .unlinking then { s with entry := none }.setProc p { proc with phase := .idle } else s
  | .die => { s with holder := fun ino => if s.holder ino = some p then none else s.holder ino }.setProc p {}

/-- A process and its call. -/
abbrev Step := Nat × Call

def step (st : Step) : DnsLock :=
  match s.procs[st.1]? with
  | some proc => s.call os st.1 proc st.2
  | none => s

def run (steps : List Step) : DnsLock := steps.foldl (step os) s

/-- So many processes, and no lock file. -/
def start (n : Nat) : DnsLock := { procs := List.replicate n {} }

/-! ## Exclusion -/

variable {os s} {s' : DnsLock} {p q ino : Nat} {proc proc' : Proc}

/-- The process believes that it has the lock. -/
def Holds (s : DnsLock) (p : Nat) : Prop := ∃ proc ∈ s.procs[p]?, proc.lockFd ≠ none

def Exclusive (s : DnsLock) : Prop := ∀ p q, s.Holds p → s.Holds q → p = q

/-- Whenever a process removes the lock file, no process has opened or locked it. -/
def Alone (s : DnsLock) (st : Step) : Prop :=
  match st with
  | (p, .unlink) => ∀ proc ∈ s.procs[p]?, proc.phase = .unlinking →
      ∀ ino ∈ s.entry, ∀ other ∈ s.procs, other.lockFd ≠ some ino ∧ other.phase ≠ .opened ino
  | _ => True

instance (st : Step) : Decidable (s.Alone st) :=
  match st with
  | (p, .unlink) => inferInstanceAs (Decidable (∀ proc ∈ s.procs[p]?, _))
  | (_, .openFile) | (_, .flock) | (_, .closeRefused) | (_, .close _) | (_, .die) => inferInstanceAs (Decidable True)

/-- What is locked or about to be is the file that the others find. -/
structure Orderly (s : DnsLock) : Prop where
  held : ∀ (p : Nat) (proc : Proc) (ino : Nat), s.procs[p]? = some proc → proc.lockFd = some ino →
    s.entry = some ino ∧ s.holder ino = some p
  opened : ∀ (p : Nat) (proc : Proc) (ino : Nat), s.procs[p]? = some proc → proc.phase = .opened ino →
    s.entry = some ino

theorem Orderly.exclusive (h : s.Orderly) : s.Exclusive := by
  rintro p q ⟨proc, hp, hlock⟩ ⟨proc', hq, hlock'⟩
  obtain ⟨ino, hino⟩ := Option.ne_none_iff_exists'.1 hlock
  obtain ⟨ino', hino'⟩ := Option.ne_none_iff_exists'.1 hlock'
  obtain ⟨hentry, hholder⟩ := h.held p proc ino hp hino
  obtain ⟨hentry', hholder'⟩ := h.held q proc' ino' hq hino'
  -- Both have locked the inode of the directory entry, which has one holder.
  cases hentry.symm.trans hentry'
  exact Option.some.inj (hholder.symm.trans hholder')

theorem Orderly.start (n : Nat) : (start n).Orderly := by
  have hidle : ∀ (p : Nat) (proc : Proc), (DnsLock.start n).procs[p]? = some proc → proc = {} :=
    fun p proc hp => List.eq_of_mem_replicate (List.mem_of_getElem? hp)
  refine ⟨fun p proc ino hp hino => ?_, fun p proc ino hp hino => ?_⟩
  · rw [hidle p proc hp] at hino
    cases hino
  · rw [hidle p proc hp] at hino
    cases hino

theorem getElem?_setProc (s : DnsLock) (p : Nat) (proc : Proc) (q : Nat) (other : Proc)
    (h : (s.setProc p proc).procs[q]? = some other) :
    (q = p ∧ other = proc) ∨ (q ≠ p ∧ s.procs[q]? = some other) := by
  rw [setProc, List.getElem?_set] at h
  split_ifs at h with hpq hlt
  · exact .inl ⟨hpq.symm, (Option.some.inj h).symm⟩
  · exact .inr ⟨Ne.symm hpq, h⟩

/-- One process is changed: what holds of it, and what has become of the others. -/
theorem Orderly.of_set (hprocs : s'.procs = s.procs.set p proc')
    (hself : ∀ ino, proc'.lockFd = some ino → s'.entry = some ino ∧ s'.holder ino = some p)
    (hselfOpened : ∀ ino, proc'.phase = .opened ino → s'.entry = some ino)
    (hother : ∀ (q : Nat) (other : Proc), q ≠ p → s.procs[q]? = some other →
      (∀ ino, other.lockFd = some ino → s'.entry = some ino ∧ s'.holder ino = some q) ∧
        ∀ ino, other.phase = .opened ino → s'.entry = some ino) : s'.Orderly := by
  refine ⟨fun q other ino hq hino => ?_, fun q other ino hq hino => ?_⟩
  · rw [hprocs] at hq
    rcases getElem?_setProc s p proc' q other hq with ⟨rfl, rfl⟩ | ⟨hne, hq⟩
    · exact hself ino hino
    · exact (hother q other hne hq).1 ino hino
  · rw [hprocs] at hq
    rcases getElem?_setProc s p proc' q other hq with ⟨rfl, rfl⟩ | ⟨hne, hq⟩
    · exact hselfOpened ino hino
    · exact (hother q other hne hq).2 ino hino

/-! ## Calls -/

theorem Orderly.openFile (h : s.Orderly) (hp : s.procs[p]? = some proc) : (s.call os p proc .openFile).Orderly := by
  rw [call]
  split
  · split
    · rename_i ino hentry
      refine .of_set rfl (fun i hi => h.held p proc i hp hi) (fun i hi => ?_) fun q other _ hq =>
        ⟨fun i => h.held q other i hq, fun i => h.opened q other i hq⟩
      cases hi
      exact hentry
    · -- The file is new: without an entry, nobody had opened or locked it.
      rename_i hentry
      have hheld : ∀ (q : Nat) (other : Proc) (i : Nat), s.procs[q]? = some other → other.lockFd ≠ some i :=
        fun q other i hq hi => by cases hentry.symm.trans (h.held q other i hq hi).1
      refine .of_set rfl (fun i hi => absurd hi (hheld p proc i hp)) (fun i hi => ?_) fun q other _ hq =>
        ⟨fun i hi => absurd hi (hheld q other i hq), fun i hi => ?_⟩
      · cases hi
        rfl
      · cases hentry.symm.trans (h.opened q other i hq hi)
  · exact h

theorem Orderly.flock (h : s.Orderly) (hp : s.procs[p]? = some proc) : (s.call os p proc .flock).Orderly := by
  rw [call]
  split
  · rename_i ino hphase
    have hentry := h.opened p proc ino hp hphase
    split
    · rename_i hfree
      refine .of_set rfl (fun i hi => ?_) (fun i hi => by cases hi) fun q other _ hq => ⟨fun i hi => ?_, fun i =>
        h.opened q other i hq⟩
      · cases hi
        exact ⟨hentry, Function.update_self _ _ _⟩
      · -- Another process with the lock would have locked the same inode.
        obtain ⟨hentry', hholder⟩ := h.held q other i hq hi
        cases hentry.symm.trans hentry'
        cases hfree.symm.trans hholder
    · exact .of_set rfl (fun i => h.held p proc i hp) (fun i hi => by cases hi) fun q other _ hq =>
        ⟨fun i => h.held q other i hq, fun i => h.opened q other i hq⟩
  · exact h

theorem Orderly.close (h : s.Orderly) (hp : s.procs[p]? = some proc) (failed : Bool) :
    (s.call os p proc (.close failed)).Orderly := by
  rw [call]
  split
  · rename_i ino hino
    split
    · refine .of_set rfl (fun i hi => by cases hi) (fun i hi => ?_) fun q other hne hq => ⟨fun i hi => ?_, fun i =>
        h.opened q other i hq⟩
      · dsimp only at hi
        split_ifs at hi
      · obtain ⟨hentry, hholder⟩ := h.held q other i hq hi
        refine ⟨hentry, ?_⟩
        have hi' : i ≠ ino := by
          rintro rfl
          exact hne (Option.some.inj (hholder.symm.trans (h.held p proc i hp hino).2))
        exact (Function.update_of_ne hi' _ _).trans hholder
    · exact h
  · exact h

theorem Orderly.unlink (h : s.Orderly) (hp : s.procs[p]? = some proc) (ha : s.Alone (p, .unlink)) :
    (s.call os p proc .unlink).Orderly := by
  rw [call]
  split
  · rename_i hphase
    have halone := ha proc hp hphase
    have hheld : ∀ (q : Nat) (other : Proc) (i : Nat), s.procs[q]? = some other → other.lockFd ≠ some i :=
      fun q other i hq hi => (halone i (h.held q other i hq hi).1 other (List.mem_of_getElem? hq)).1 hi
    refine .of_set rfl (fun i hi => absurd hi (hheld p proc i hp)) (fun i hi => by cases hi) fun q other _ hq =>
      ⟨fun i hi => absurd hi (hheld q other i hq), fun i hi => ?_⟩
    exact absurd hi (halone i (h.opened q other i hq hi) other (List.mem_of_getElem? hq)).2
  · exact h

theorem Orderly.die (h : s.Orderly) : (s.call os p proc .die).Orderly := by
  rw [call]
  refine .of_set rfl (fun i hi => by cases hi) (fun i hi => by cases hi) fun q other hne hq => ⟨fun i hi => ?_, fun i =>
    h.opened q other i hq⟩
  obtain ⟨hentry, hholder⟩ := h.held q other i hq hi
  refine ⟨hentry, ?_⟩
  change ite _ _ _ = _
  rw [hholder, if_neg]
  exact fun heq => hne (Option.some.inj heq)

theorem Orderly.step (h : s.Orderly) (st : Step) (ha : s.Alone st) : (s.step os st).Orderly := by
  obtain ⟨p, c⟩ := st
  rw [DnsLock.step]
  split
  · rename_i proc hp
    cases c with
    | openFile => exact h.openFile hp
    | flock => exact h.flock hp
    | closeRefused =>
      rw [call]
      split
      · exact .of_set rfl (fun i => h.held p proc i hp) (fun i hi => by cases hi) fun q other _ hq =>
          ⟨fun i => h.held q other i hq, fun i => h.opened q other i hq⟩
      · exact h
    | close failed => exact h.close hp failed
    | unlink => exact h.unlink hp ha
    | die => exact h.die
  · exact h

/-! ## Runs -/

/-- In every run in which the lock file is removed only when nobody else has opened or
    locked it, at most one process has the lock. -/
theorem exclusive_run (os : Os) (n : Nat) {steps : List Step} (ha : Runs.Along (step os) Alone (start n) steps) :
    ((start n).run os steps).Exclusive := by
  have horderly : ((start n).run os steps).Orderly :=
    Runs.foldl_of_along (J := Orderly) (fun _ st hs => hs.step st) (.start n) ha
  exact horderly.exclusive

/-- A process takes the lock, another one is refused, and takes it once the first one has
    given it back. -/
def sampleTurns : List Step :=
  [(0, .openFile), (0, .flock), (1, .openFile), (1, .flock), (1, .closeRefused), (0, .close false), (0, .unlink),
    (1, .openFile), (1, .flock)]

theorem exclusive_run_sample :
    ((start 2).run .darwin sampleTurns).Exclusive ∧ ((start 2).run .linux sampleTurns).Exclusive :=
  ⟨exclusive_run .darwin 2 (by decide), exclusive_run .linux 2 (by decide)⟩

/-- The second process takes the lock between the two halves of the release, and the third
    one finds no file. -/
def sampleRace : List Step :=
  [(0, .openFile), (0, .flock), (0, .close false), (1, .openFile), (1, .flock), (0, .unlink), (2, .openFile), (2, .flock)]

theorem not_exclusive :
    ¬((start 3).run .darwin sampleRace).Exclusive ∧ ¬((start 3).run .linux sampleRace).Exclusive :=
  ⟨fun h => absurd (h 1 2 ⟨_, rfl, by decide⟩ ⟨_, rfl, by decide⟩) (by decide),
    fun h => absurd (h 1 2 ⟨_, rfl, by decide⟩ ⟨_, rfl, by decide⟩) (by decide)⟩

end DnsLock

end Mqvpn
