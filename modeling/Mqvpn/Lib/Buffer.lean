import Mathlib.Data.List.Basic

/-!
# Buffers

Memory that is read and written in place, as a list of cells. An access that leaves the buffer
gives nothing, so that code that yields something has stayed in its buffers. Offsets that are
numerals compute (`rfl`); for what is written behind a part of any length, there is
`copy_append`.
-/

namespace Buffer

variable {α : Type*}

/-- A cell is written. -/
def write : List α → Nat → α → Option (List α)
  | [], _, _ => none
  | _ :: b, 0, v => some (v :: b)
  | c :: b, i + 1, v => (write b i v).map (c :: ·)

/-- The first cells are overwritten. -/
def overwrite : (vs b : List α) → Option (List α)
  | [], b => some b
  | _ :: _, [] => none
  | v :: vs, _ :: b => (overwrite vs b).map (v :: ·)

/-- The cells from an offset on are overwritten. -/
def copy : List α → Nat → List α → Option (List α)
  | b, 0, vs => overwrite vs b
  | [], _ + 1, _ => none
  | c :: b, i + 1, vs => (copy b i vs).map (c :: ·)

/-- So many cells from an offset on. -/
def slice (b : List α) (i n : Nat) : Option (List α) := if i + n ≤ b.length then some ((b.drop i).take n) else none

variable {b vs pre : List α} {i n : Nat}

theorem overwrite_append (h : b.length = vs.length) (rest : List α) : overwrite vs (b ++ rest) = some (vs ++ rest) := by
  induction vs generalizing b with
  | nil =>
    rw [List.length_eq_zero_iff.1 h]
    rfl
  | cons v vs ih =>
    obtain ⟨c, b, rfl⟩ := List.exists_cons_of_length_eq_add_one h
    rw [List.cons_append, overwrite, ih (Nat.succ.inj h)]
    rfl

/-- What is written behind a part. -/
theorem copy_append (h : b.length = vs.length) (pre rest : List α) :
    copy (pre ++ (b ++ rest)) pre.length vs = some (pre ++ (vs ++ rest)) := by
  induction pre with
  | nil =>
    rw [List.nil_append, List.length_nil, copy]
    exact overwrite_append h rest
  | cons c pre ih =>
    rw [List.cons_append, List.length_cons, copy, ih]
    rfl

theorem slice_of_le (h : i + n ≤ b.length) : slice b i n = some ((b.drop i).take n) := if_pos h

/-- What the first part of a buffer holds. -/
theorem slice_front (h : b.length = n) (rest : List α) : slice (b ++ rest) 0 n = some b := by
  rw [slice_of_le (by rw [List.length_append]; omega), List.drop_zero, ← h, List.take_left]

theorem write_append (pre b : List α) (i : Nat) (v : α) :
    write (pre ++ b) (pre.length + i) v = (write b i v).map (pre ++ ·) := by
  induction pre with
  | nil => simp
  | cons c pre ih =>
    rw [List.cons_append, List.length_cons, Nat.succ_add, write, ih, Option.map_map]
    rfl

end Buffer
