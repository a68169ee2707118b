import Mathlib.Data.List.Basic

/-!
# Walks around a circle

A search that goes forward from a position of a circle, with wrap-around, until a
condition holds (`walk`). On a circle of `n` positions it needs at most `n` steps,
if there is a position to find at all (`walk_finds`).
-/

namespace Circular

/-- The first position that meets the condition, forward from `i` on a circle of
    `n` positions; nothing if the fuel runs out first. -/
def walk (n : Nat) (stop : Nat → Bool) : (fuel i : Nat) → Option Nat
  | 0, _ => none
  | fuel + 1, i => if stop i then some i else walk n stop fuel ((i + 1) % n)

variable {n : Nat} {stop : Nat → Bool}

theorem walk_of_distance {d fuel i : Nat} (hi : i < n) (hs : stop ((i + d) % n) = true) (hd : d < fuel) :
    ∃ k < n, walk n stop fuel i = some k ∧ stop k = true := by
  induction d generalizing i fuel with
  | zero =>
    rw [Nat.add_zero, Nat.mod_eq_of_lt hi] at hs
    obtain ⟨fuel, rfl⟩ := Nat.exists_eq_succ_of_ne_zero (Nat.ne_zero_of_lt hd)
    exact ⟨i, hi, if_pos hs, hs⟩
  | succ d ih =>
    obtain ⟨fuel, rfl⟩ := Nat.exists_eq_succ_of_ne_zero (Nat.ne_zero_of_lt hd)
    rw [walk]
    split_ifs with hstop
    · exact ⟨i, hi, rfl, hstop⟩
    · refine ih (Nat.mod_lt _ (Nat.zero_lt_of_lt hi)) ?_ (Nat.lt_of_succ_lt_succ hd)
      rw [Nat.mod_add_mod, Nat.add_assoc, Nat.add_comm 1 d]
      exact hs

/-- One turn around the circle is enough. -/
theorem walk_finds (stop : Nat → Bool) {i j : Nat} (hi : i < n) (hj : j < n) (hs : stop j = true) :
    ∃ k < n, walk n stop n i = some k ∧ stop k = true := by
  have hn : 0 < n := Nat.zero_lt_of_lt hi
  have hreach : (i + (j + n - i) % n) % n = j := by
    rw [Nat.add_mod_mod, show i + (j + n - i) = j + n by omega, Nat.add_mod_right, Nat.mod_eq_of_lt hj]
  exact walk_of_distance hi (by rw [hreach]; exact hs) (Nat.mod_lt _ hn)

end Circular
