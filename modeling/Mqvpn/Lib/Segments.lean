import Mathlib.Data.List.Basic

/-!
# Segments of a trace

A trace of events is cut into *segments* by marks: an event may start a
segment, stop the current one, or add an item to it. `ofTrace` folds a trace
into the closed segments and the one still open; an item met while no segment
is open belongs to none.

An invariant of the form "in each segment, the items are related pairwise"
(`Segments.AllPairwise`) is kept by every event that is not an item, and by an
item that is related to those before it in the open segment
(`AllPairwise.note_item`).
-/

/-- What an event does to the segments. -/
inductive Mark (β : Type*)
  | start
  | stop
  | item (b : β)
  | skip

/-- The segments of a trace read so far. -/
structure Segments (β : Type*) where
  /-- The segments already closed, in order. -/
  closed : List (List β)
  /-- The open segment, if any. -/
  current : Option (List β)

namespace Segments

variable {β ε : Type*}

/-- All the segments, the open one last. -/
def all (s : Segments β) : List (List β) := s.closed ++ s.current.toList

/-- Read one more event. -/
def note (s : Segments β) : Mark β → Segments β
  | .start => ⟨s.all, some []⟩
  | .stop => ⟨s.all, none⟩
  | .item b => ⟨s.closed, s.current.map (· ++ [b])⟩
  | .skip => s

@[simp]
theorem current_note_item (s : Segments β) (b : β) :
    (s.note (.item b)).current = s.current.map (· ++ [b]) := rfl

/-- The segments of a trace, its events marked by `mark`. -/
def ofTrace (mark : ε → Mark β) (trace : List ε) : Segments β :=
  trace.foldl (fun s e => s.note (mark e)) ⟨[], none⟩

variable {mark : ε → Mark β}

@[simp]
theorem ofTrace_nil : ofTrace mark [] = ⟨[], none⟩ := rfl

theorem ofTrace_append (t : List ε) (e : ε) :
    ofTrace mark (t ++ [e]) = (ofTrace mark t).note (mark e) := by
  rw [ofTrace, List.foldl_append]
  rfl

/-- Events marked `skip` do not matter. -/
theorem ofTrace_append_of_skip {t evs : List ε} (h : ∀ e ∈ evs, mark e = .skip) :
    ofTrace mark (t ++ evs) = ofTrace mark t := by
  induction evs generalizing t with
  | nil => rw [List.append_nil]
  | cons e evs ih =>
    rw [List.append_cons, ih fun e' he' => h e' (List.mem_cons_of_mem _ he'), ofTrace_append,
      h e List.mem_cons_self]
    rfl

/-! ## Pairwise segments -/

variable {R : β → β → Prop} {s : Segments β}

/-- In every segment, the items are related to all those after them. -/
def AllPairwise (R : β → β → Prop) (s : Segments β) : Prop := ∀ l ∈ s.all, l.Pairwise R

theorem AllPairwise.note_start (h : AllPairwise R s) : AllPairwise R (s.note .start) := by
  intro l hl
  rcases List.mem_append.1 hl with hl | hl
  · exact h l hl
  · rw [List.mem_singleton.1 hl]
    exact .nil

theorem AllPairwise.note_stop (h : AllPairwise R s) : AllPairwise R (s.note .stop) := by
  intro l hl
  rcases List.mem_append.1 hl with hl | hl
  · exact h l hl
  · exact absurd hl List.not_mem_nil

theorem AllPairwise.note_item (h : AllPairwise R s) {b : β}
    (hb : ∀ l, s.current = some l → ∀ a ∈ l, R a b) : AllPairwise R (s.note (.item b)) := by
  intro l hl
  rcases List.mem_append.1 hl with hl | hl
  · exact h l (List.mem_append_left _ hl)
  · obtain ⟨l', hl', rfl⟩ := Option.map_eq_some_iff.1 (Option.mem_toList.1 hl)
    have hold : l'.Pairwise R := h l' (List.mem_append_right _ (Option.mem_toList.2 hl'))
    rw [List.pairwise_append]
    refine ⟨hold, List.pairwise_singleton R b, fun a ha c hc => ?_⟩
    rw [List.mem_singleton.1 hc]
    exact hb l' hl' a ha

end Segments
