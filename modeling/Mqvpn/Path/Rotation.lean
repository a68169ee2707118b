import Mqvpn.Lib.Circular
import Mqvpn.Path.Machine

/-!
# The path of the next attempt

A reconnect rotates the primary path. The rotation walks forward to the next path
that is not a backup, among at least two such; `tick_reconnect` hands it a view of
the flags in which the paths that the platform does not have are backups too. So
it finds a usable path (`Usable`) among several, but it does not leave the current
path for the only usable one: `selectPrimary_iff` says when the path of the next
attempt is usable, and `not_selectPrimary` is a client that stays on a dead path.
-/

namespace Mqvpn.Path

/-- `MQVPN_PATH_FLAG_BACKUP` -/
def flagBackup : UInt32 := 1

/-- `mqvpn_rotate_primary_path`; nothing if its loop does not end. -/
def rotatePrimaryPath (curIdx : Nat) (pathFlags : List UInt32) : Option Nat :=
  if pathFlags.length ≤ 1 then some curIdx
  else if pathFlags.countP (fun f => f &&& flagBackup = 0) ≤ 1 then some curIdx
  else Circular.walk pathFlags.length (fun i => pathFlags[i]?.all fun f => f &&& flagBackup = 0)
    pathFlags.length ((curIdx + 1) % pathFlags.length)

/-- The view of the flags that `tick_reconnect` builds. -/
def reconnectFlags (paths : List Entry) : List UInt32 :=
  paths.map fun p => if p.platformAttached then p.flags else p.flags ||| flagBackup

/-- The rotation of `tick_reconnect`. -/
def selectPrimary (curIdx : Nat) (paths : List Entry) : Option Nat :=
  if paths.length = 0 then some curIdx else rotatePrimaryPath curIdx (reconnectFlags paths)

/-- The path is not a backup, and the platform has it. -/
def Entry.Usable (p : Entry) : Prop := p.platformAttached = true ∧ p.flags &&& flagBackup = 0

instance (p : Entry) : Decidable p.Usable := inferInstanceAs (Decidable (_ ∧ _))

/-- The guard of `cli_start_connection` on the primary path. -/
def Entry.Ready (p : Entry) : Prop := p.platformAttached = true ∧ 0 ≤ p.fd

instance (p : Entry) : Decidable p.Ready := inferInstanceAs (Decidable (_ ∧ _))

/-- The path at an index is usable. -/
def UsableAt (paths : List Entry) (i : Nat) : Prop := ∃ p ∈ paths[i]?, p.Usable

variable {paths : List Entry} {i : Nat}

theorem or_and_flagBackup (f : UInt32) : (f ||| flagBackup) &&& flagBackup ≠ 0 := by
  rw [flagBackup]
  intro h
  have := congrArg (·.toBitVec.getLsbD 0) h
  simp at this

/-- In the view, the paths that are not marked as backups are the usable ones. -/
theorem usable_iff (p : Entry) :
    (if p.platformAttached then p.flags else p.flags ||| flagBackup) &&& flagBackup = 0 ↔ p.Usable := by
  rw [Entry.Usable]
  split_ifs with ha
  · simp [ha]
  · simp [ha, or_and_flagBackup]

theorem countP_reconnectFlags (paths : List Entry) :
    (reconnectFlags paths).countP (fun f => f &&& flagBackup = 0) = paths.countP (·.Usable) := by
  rw [reconnectFlags, List.countP_map]
  refine List.countP_congr fun p _ => ?_
  simp [usable_iff]

theorem usableAt_iff (hi : i < paths.length) :
    ((reconnectFlags paths)[i]?.all fun f => f &&& flagBackup = 0) = true ↔ UsableAt paths i := by
  simp [reconnectFlags, UsableAt, List.getElem?_eq_getElem hi, usable_iff]

/-- Where there is a usable path, it has an index. -/
theorem exists_usableAt (h : 0 < paths.countP (·.Usable)) : ∃ j < paths.length, UsableAt paths j := by
  obtain ⟨p, hp, hu⟩ := List.countP_pos_iff.1 h
  obtain ⟨j, hj, rfl⟩ := List.mem_iff_getElem.1 hp
  exact ⟨j, hj, paths[j], List.getElem?_eq_getElem hj, of_decide_eq_true hu⟩

/-- The rotation leaves the current path only for a usable one, and does so if
    there are at least two. -/
theorem selectPrimary_cases (curIdx : Nat) (paths : List Entry) :
    (paths.countP (·.Usable) ≤ 1 ∧ selectPrimary curIdx paths = some curIdx) ∨
      (2 ≤ paths.countP (·.Usable) ∧ ∃ i, selectPrimary curIdx paths = some i ∧ UsableAt paths i) := by
  have hlen : (reconnectFlags paths).length = paths.length := List.length_map _
  have hcount : paths.countP (·.Usable) ≤ paths.length := List.countP_le_length
  rw [selectPrimary, rotatePrimaryPath, countP_reconnectFlags, hlen]
  split_ifs with hnone hone hfew
  · exact .inl ⟨by omega, rfl⟩
  · exact .inl ⟨by omega, rfl⟩
  · exact .inl ⟨hfew, rfl⟩
  · refine .inr ⟨by omega, ?_⟩
    obtain ⟨j, hj, hu⟩ := exists_usableAt (show 0 < paths.countP (·.Usable) by omega)
    have hpos : 0 < paths.length := Nat.zero_lt_of_lt hj
    -- The walk passes the index of a usable path before it is back at its start.
    obtain ⟨k, hk, hwalk, hstop⟩ := Circular.walk_finds
      (fun i => (reconnectFlags paths)[i]?.all fun f => f &&& flagBackup = 0)
      (Nat.mod_lt (curIdx + 1) hpos) hj ((usableAt_iff hj).2 hu)
    exact ⟨k, hwalk, (usableAt_iff hk).1 hstop⟩

/-- The rotation ends, and the path that it selects is usable, given that some
    path is, exactly if there are several usable paths or the current one is. -/
theorem selectPrimary_iff (curIdx : Nat) (paths : List Entry) :
    ∃ i, selectPrimary curIdx paths = some i ∧
      (((∃ p ∈ paths, p.Usable) → UsableAt paths i) ↔
        (∃ p ∈ paths, p.Usable) → 2 ≤ paths.countP (·.Usable) ∨ UsableAt paths curIdx) := by
  rcases selectPrimary_cases curIdx paths with ⟨hfew, hsel⟩ | ⟨hmany, i, hsel, hu⟩
  · refine ⟨curIdx, hsel, ?_⟩
    have hnot : ¬2 ≤ paths.countP (·.Usable) := by omega
    simp [hnot]
  · refine ⟨i, hsel, ?_⟩
    simp [hmany, hu]

/-- A client whose second path is alive, and whose first, current one is not. -/
def deadFirst : List Entry := [{ fd := 3 }, { fd := 4, platformAttached := true }]

/-- The live path is not selected, and the guard turns the attempt down. -/
theorem not_selectPrimary :
    (∃ p ∈ deadFirst, p.Usable) ∧ selectPrimary 0 deadFirst = some 0 ∧
      ∀ p ∈ deadFirst[0]?, ¬p.Usable ∧ ¬p.Ready := by
  decide

end Mqvpn.Path
