import Mathlib.Data.List.Count
import Mathlib.Data.List.Nodup
import Mathlib.Data.List.Range
import Mathlib.Logic.Function.Basic

/-!
# Heaps

Objects that are known by their numbers. A number is given out once: an object is there from
its `alloc` to its `free`, and afterwards its number belongs to nothing. That every number that
was given out is in use or was freed, and not both, is part of the structure.

The number of objects with a property is `count`; `count_set`, `count_alloc` and `count_free`
say how it changes with the one object that an operation touches, and `count_lt` that it goes
down if an object loses the property and none gets it.
-/

/-- Objects by their numbers. -/
structure Heap (α : Type*) where
  get : Nat → Option α
  /-- The next number. -/
  next : Nat
  freed : List Nat
  freed_nodup : freed.Nodup
  lt_next_iff : ∀ id, id < next ↔ (get id).isSome = true ∨ id ∈ freed
  get_of_mem_freed : ∀ id ∈ freed, get id = none

attribute [ext] Heap

namespace Heap

variable {α : Type*} (h : Heap α)

def empty : Heap α where
  get _ := none
  next := 0
  freed := []
  freed_nodup := List.nodup_nil
  lt_next_iff id := by simp
  get_of_mem_freed id hid := by simp at hid

theorem lt_next {id : Nat} {a : α} (ha : h.get id = some a) : id < h.next :=
  (h.lt_next_iff id).2 (.inl (by rw [ha]; rfl))

theorem get_next : h.get h.next = none := by
  cases ha : h.get h.next with
  | none => rfl
  | some a => exact absurd (h.lt_next ha) (Nat.lt_irrefl _)

theorem next_not_mem_freed : h.next ∉ h.freed :=
  fun hmem => Nat.lt_irrefl _ ((h.lt_next_iff h.next).2 (.inr hmem))

theorem isSome_update_map (id j : Nat) (a : α) :
    (Function.update h.get id ((h.get id).map fun _ => a) j).isSome = (h.get j).isSome := by
  by_cases hj : j = id
  · rw [hj, Function.update_self, Option.isSome_map]
  · rw [Function.update_of_ne hj]

/-- Write an object; one that is not there is not written. -/
def set (id : Nat) (a : α) : Heap α where
  get := Function.update h.get id ((h.get id).map fun _ => a)
  next := h.next
  freed := h.freed
  freed_nodup := h.freed_nodup
  lt_next_iff j := by rw [isSome_update_map, h.lt_next_iff j]
  get_of_mem_freed j hj := by
    refine Option.not_isSome_iff_eq_none.1 ?_
    rw [isSome_update_map, h.get_of_mem_freed j hj]
    exact Bool.false_ne_true

/-- A new object; its number is `h.next`. -/
def alloc (a : α) : Heap α where
  get := Function.update h.get h.next (some a)
  next := h.next + 1
  freed := h.freed
  freed_nodup := h.freed_nodup
  lt_next_iff j := by
    by_cases hj : j = h.next
    · rw [hj, Function.update_self]
      exact ⟨fun _ => .inl rfl, fun _ => Nat.lt_succ_self _⟩
    · rw [Function.update_of_ne hj, ← h.lt_next_iff j, Nat.lt_succ_iff_lt_or_eq]
      exact ⟨fun hlt => hlt.resolve_right hj, .inl⟩
  get_of_mem_freed j hj := by
    have hne : j ≠ h.next := by
      rintro rfl
      exact h.next_not_mem_freed hj
    rw [Function.update_of_ne hne]
    exact h.get_of_mem_freed j hj

/-- An object goes; one that is not there is not freed. -/
def free (id : Nat) : Heap α where
  get := Function.update h.get id none
  next := h.next
  freed := if (h.get id).isSome then id :: h.freed else h.freed
  freed_nodup := by
    split
    · rename_i hlive
      refine List.nodup_cons.2 ⟨fun hmem => ?_, h.freed_nodup⟩
      rw [h.get_of_mem_freed id hmem] at hlive
      cases hlive
    · exact h.freed_nodup
  lt_next_iff j := by
    rw [h.lt_next_iff j]
    by_cases hj : j = id
    · subst hj
      rw [Function.update_self]
      cases hlive : (h.get j).isSome <;> simp
    · rw [Function.update_of_ne hj]
      split
      · rw [List.mem_cons, or_iff_right hj]
      · rfl
  get_of_mem_freed j hj := by
    by_cases hji : j = id
    · rw [hji, Function.update_self]
    · rw [Function.update_of_ne hji]
      refine h.get_of_mem_freed j ?_
      split at hj
      · exact (List.mem_cons.1 hj).resolve_left hji
      · exact hj

/-! ## Reading -/

variable {h} {id j : Nat} {a b : α}

@[simp] theorem get_empty : (empty : Heap α).get id = none := rfl

theorem get_set : (h.set id a).get = Function.update h.get id ((h.get id).map fun _ => a) := rfl

theorem get_alloc : (h.alloc a).get = Function.update h.get h.next (some a) := rfl

theorem get_free : (h.free id).get = Function.update h.get id none := rfl

theorem get_set_self (ha : h.get id = some a) : (h.set id b).get id = some b := by
  rw [get_set, Function.update_self, ha]
  rfl

theorem get_set_of_ne (hj : j ≠ id) : (h.set id b).get j = h.get j := by
  rw [get_set, Function.update_of_ne hj]

@[simp] theorem isSome_get_set : ((h.set id b).get j).isSome = (h.get j).isSome := h.isSome_update_map id j b

/-- An object that is there after a write was there before it. -/
theorem get_set_cases (hb : (h.set id a).get j = some b) : (j = id ∧ b = a) ∨ (j ≠ id ∧ h.get j = some b) := by
  by_cases hj : j = id
  · refine .inl ⟨hj, ?_⟩
    rw [hj, get_set, Function.update_self] at hb
    obtain ⟨_, -, hab⟩ := Option.map_eq_some_iff.1 hb
    exact hab.symm
  · rw [get_set_of_ne hj] at hb
    exact .inr ⟨hj, hb⟩

@[simp] theorem next_set : (h.set id a).next = h.next := rfl

@[simp] theorem freed_set : (h.set id a).freed = h.freed := rfl

/-- Of two writes of an object the last one counts. -/
theorem set_set : (h.set id a).set id b = h.set id b := by
  ext1
  · rw [get_set, get_set, get_set, Function.update_self, Function.update_idem]
    cases h.get id <;> rfl
  · rfl
  · rfl

theorem get_alloc_self : (h.alloc a).get h.next = some a := by
  rw [get_alloc, Function.update_self]

theorem get_alloc_of_ne (hj : j ≠ h.next) : (h.alloc a).get j = h.get j := by
  rw [get_alloc, Function.update_of_ne hj]

theorem get_alloc_cases (hb : (h.alloc a).get j = some b) :
    (j = h.next ∧ b = a) ∨ (j ≠ h.next ∧ h.get j = some b) := by
  by_cases hj : j = h.next
  · rw [hj, get_alloc_self] at hb
    exact .inl ⟨hj, (Option.some.inj hb).symm⟩
  · rw [get_alloc_of_ne hj] at hb
    exact .inr ⟨hj, hb⟩

theorem get_alloc_of_get (ha : h.get j = some b) : (h.alloc a).get j = some b := by
  have hj : j ≠ h.next := by
    rintro rfl
    rw [get_next] at ha
    cases ha
  rw [get_alloc_of_ne hj, ha]

theorem get_free_self : (h.free id).get id = none := by
  rw [get_free, Function.update_self]

theorem get_free_of_ne (hj : j ≠ id) : (h.free id).get j = h.get j := by
  rw [get_free, Function.update_of_ne hj]

theorem get_free_cases (hb : (h.free id).get j = some b) : j ≠ id ∧ h.get j = some b := by
  by_cases hj : j = id
  · rw [hj, get_free_self] at hb
    cases hb
  · rw [get_free_of_ne hj] at hb
    exact ⟨hj, hb⟩

/-! ## Populations -/

variable (p : α → Bool)

/-- The number of objects with a property. -/
def count (h : Heap α) : Nat := (List.range h.next).countP fun id => (h.get id).any p

@[simp] theorem count_empty : count p (empty : Heap α) = 0 := rfl

variable {p}

/-- Two ways to look at the objects that differ at one number. -/
theorem countP_add_toNat (q q' : Nat → Bool) {n : Nat} (hid : id < n) (hsame : ∀ j, j ≠ id → q' j = q j) :
    (List.range n).countP q' + (q id).toNat = (List.range n).countP q + (q' id).toNat := by
  have hmem : id ∈ List.range n := List.mem_range.2 hid
  have herase : ((List.range n).erase id).countP q' = ((List.range n).erase id).countP q := by
    refine List.countP_congr fun j hj => ?_
    rw [hsame j (List.nodup_range.mem_erase_iff.1 hj).1]
  have hsplit (r : Nat → Bool) : (List.range n).countP r = ((List.range n).erase id).countP r + (r id).toNat := by
    rw [(List.perm_cons_erase hmem).countP_eq, List.countP_cons]
    cases r id <;> rfl
  rw [hsplit q, hsplit q', herase, Nat.add_right_comm]

theorem count_set (ha : h.get id = some a) : count p (h.set id b) + (p a).toNat = count p h + (p b).toNat := by
  have hcount := countP_add_toNat (fun j => (h.get j).any p) (fun j => ((h.set id b).get j).any p)
    (h.lt_next ha) fun j hj => by rw [get_set_of_ne hj]
  rw [ha, get_set_self ha] at hcount
  exact hcount

theorem count_alloc : count p (h.alloc a) = count p h + (p a).toNat := by
  have hsame : (List.range h.next).countP (fun j => ((h.alloc a).get j).any p) = count p h := by
    refine List.countP_congr fun j hj => ?_
    rw [get_alloc_of_ne (Nat.ne_of_lt (List.mem_range.1 hj))]
  change (List.range (h.next + 1)).countP (fun j => ((h.alloc a).get j).any p) = _
  rw [List.range_succ, List.countP_append, hsame, List.countP_singleton, get_alloc_self, Option.any_some]
  cases p a <;> rfl

theorem count_free (ha : h.get id = some a) : count p (h.free id) + (p a).toNat = count p h := by
  have hcount := countP_add_toNat (fun j => (h.get j).any p) (fun j => ((h.free id).get j).any p)
    (h.lt_next ha) fun j hj => by rw [get_free_of_ne hj]
  rw [ha, get_free_self] at hcount
  exact hcount

theorem count_pos (ha : h.get id = some a) (hp : p a = true) : 0 < count p h := by
  refine List.countP_pos_iff.2 ⟨id, List.mem_range.2 (h.lt_next ha), ?_⟩
  rw [ha, Option.any_some, hp]

theorem exists_of_count_pos (hpos : 0 < count p h) : ∃ id a, h.get id = some a ∧ p a = true := by
  obtain ⟨id, -, hany⟩ := List.countP_pos_iff.1 hpos
  obtain ⟨a, ha, hp⟩ := (Option.any_eq_true _ _).1 hany
  exact ⟨id, a, ha, hp⟩

/-- No object has got the property. -/
theorem count_le {h' : Heap α} (hnext : h'.next = h.next) (hle : ∀ j, (h'.get j).any p = true → (h.get j).any p = true) :
    count p h' ≤ count p h := by
  rw [count, count, hnext]
  exact List.countP_mono_left fun j _ => hle j

/-- No object has got the property, and one has lost it. -/
theorem count_lt {h' : Heap α} (hnext : h'.next = h.next) (hle : ∀ j, (h'.get j).any p = true → (h.get j).any p = true)
    (ha : h.get id = some a) (hp : p a = true) (hlost : (h'.get id).any p = false) : count p h' < count p h := by
  have hcount := countP_add_toNat (fun j => (h'.get j).any p) (fun j => (h'.get j).any p || decide (j = id))
    (h.lt_next ha) fun j hj => by rw [decide_eq_false hj, Bool.or_false]
  have hmono : (List.range h.next).countP (fun j => (h'.get j).any p || decide (j = id)) ≤ count p h := by
    refine List.countP_mono_left fun j _ hj => ?_
    rcases Bool.or_eq_true_iff.1 hj with hj | hj
    · exact hle j hj
    · rw [of_decide_eq_true hj, ha, Option.any_some, hp]
  rw [hlost, decide_eq_true (rfl : id = id), Bool.false_or] at hcount
  rw [count, hnext]
  change _ + 0 = _ + 1 at hcount
  omega

end Heap
