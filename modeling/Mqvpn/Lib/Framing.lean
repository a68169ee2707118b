import Mathlib.Data.List.Infix

/-!
# Framing

A stream of symbols that carries messages one behind another. A decoder finds the message at
the front once it is there as a whole, and says how many symbols it takes (`Framing`). Taking
messages from the front until there is no whole one, or one that is not accepted (`parse`), can
be interrupted anywhere: with what is left over, and with the symbols that come later, it goes
on as if all of them had been there at once (`parse_append`).
-/

/-- A decoder of the message at the front of a list. -/
structure Framing (β α : Type*) where
  decode : List β → Option (α × Nat)
  /-- A message takes some symbols, of those that are there. -/
  bounds : ∀ b a n, decode b = some (a, n) → 0 < n ∧ n ≤ b.length
  /-- What follows a whole message does not matter. -/
  extend : ∀ b x a n, decode b = some (a, n) → decode (b ++ x) = some (a, n)

namespace Framing

variable {β α : Type*} (F : Framing β α) (accept : α → Bool)

/-- The messages at the front with their sizes, as long as they are accepted, and what is left. -/
def parse (b : List β) : List (α × Nat) × List β :=
  match _hdecode : F.decode b with
  | none => ([], b)
  | some (a, n) =>
    if accept a then
      let r := parse (b.drop n)
      ((a, n) :: r.1, r.2)
    else ([], b)
termination_by b.length
decreasing_by
  obtain ⟨hpos, hle⟩ := F.bounds b a n _hdecode
  rw [List.length_drop]
  omega

/-- The messages without their sizes. -/
def messages (b : List β) : List α := (F.parse accept b).1.map Prod.fst

variable {F accept} {b : List β}

theorem parse_of_none (h : F.decode b = none) : F.parse accept b = ([], b) := by
  rw [parse]
  split
  · rfl
  · rename_i heq
    exact absurd (h.symm.trans heq) (Option.some_ne_none _).symm

theorem parse_of_refused {a : α} {n : Nat} (h : F.decode b = some (a, n)) (ha : accept a = false) :
    F.parse accept b = ([], b) := by
  rw [parse]
  split
  · rfl
  · rename_i a' n' heq
    obtain ⟨rfl, rfl⟩ := Prod.mk.inj (Option.some.inj (h.symm.trans heq))
    rw [ha]
    rfl

theorem parse_of_some {a : α} {n : Nat} (h : F.decode b = some (a, n)) (ha : accept a = true) :
    F.parse accept b = ((a, n) :: (F.parse accept (b.drop n)).1, (F.parse accept (b.drop n)).2) := by
  rw [parse]
  split
  · rename_i heq
    exact absurd (heq.symm.trans h) (Option.some_ne_none _).symm
  · rename_i a' n' heq
    obtain ⟨rfl, rfl⟩ := Prod.mk.inj (Option.some.inj (h.symm.trans heq))
    rw [ha]
    rfl

/-- What comes later is parsed behind what was left. -/
theorem parse_append (b x : List β) :
    F.parse accept (b ++ x) =
      ((F.parse accept b).1 ++ (F.parse accept ((F.parse accept b).2 ++ x)).1,
        (F.parse accept ((F.parse accept b).2 ++ x)).2) := by
  induction hlen : b.length using Nat.strongRecOn generalizing b with
  | ind len ih =>
    cases hdecode : F.decode b with
    | none => rw [parse_of_none hdecode, List.nil_append]
    | some found =>
      obtain ⟨a, n⟩ := found
      have hmore := F.extend b x a n hdecode
      obtain ⟨hpos, hle⟩ := F.bounds b a n hdecode
      cases ha : accept a with
      | false => rw [parse_of_refused hdecode ha, parse_of_refused hmore ha, List.nil_append]
      | true =>
        have hrest := ih (b.drop n).length (by rw [List.length_drop]; omega) (b.drop n) rfl
        rw [parse_of_some hdecode ha, parse_of_some hmore ha, List.drop_append_of_le_length hle, hrest,
          List.cons_append]

/-- The messages of the beginning of a stream are those of the stream, as far as they go. -/
theorem messages_prefix_append (b x : List β) : F.messages accept b <+: F.messages accept (b ++ x) := by
  rw [messages, messages, parse_append, List.map_append]
  exact List.prefix_append _ _

end Framing
