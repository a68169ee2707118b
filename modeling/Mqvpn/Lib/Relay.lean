import Mathlib.Data.List.Induction

/-!
# Relays

One direction of a relay between two streams: what it has taken in, what it has passed on, and
each time it has passed on the end of the stream. What is held back in between is whatever the
relay keeps it in. A direction is `Sound` if nothing is lost, doubled or out of order, and if
the end is passed on at most once, behind everything before it.

A direction whose relay has failed may have lost what was held back, but is still `Faithful`:
what it has passed on is what it took in first, and the end only came behind all of it. Two
directions in a row, with a stream in between that carries what the first one has `sent`, are
faithful together (`Carried`).
-/

namespace Relay

variable {α : Type*}

/-- What a direction had taken in and passed on when it passed on the end. -/
structure Closing (α : Type*) where
  input : List α
  output : List α
  ended : Bool

structure Direction (α : Type*) where
  input : List α := []
  output : List α := []
  /-- The end of the input was seen. -/
  ended : Bool := false
  closings : List (Closing α) := []

namespace Direction

variable (d : Direction α)

def take (x : List α) : Direction α := { d with input := d.input ++ x }

def pass (x : List α) : Direction α := { d with output := d.output ++ x }

@[simp] theorem input_pass (x : List α) : (d.pass x).input = d.input := rfl

def sawEnd : Direction α := { d with ended := true }

def close : Direction α := { d with closings := d.closings ++ [⟨d.input, d.output, d.ended⟩] }

/-- Everything was passed on in order, but for what is held back, and the end, if it was
    passed on, once and after everything before it. -/
structure Sound (d : Direction α) (held : List α) (closed : Bool) : Prop where
  conserves : d.output ++ held = d.input
  complete : ∀ c ∈ d.closings, c.ended = true ∧ c.output = c.input
  count : d.closings.length = closed.toNat

variable {d} {held : List α} {closed : Bool}

namespace Sound

theorem initial : Sound ({} : Direction α) [] false :=
  ⟨rfl, fun _ hc => absurd hc List.not_mem_nil, rfl⟩

theorem take (h : d.Sound held closed) (x : List α) : (d.take x).Sound (held ++ x) closed where
  conserves := by
    rw [Direction.take, ← List.append_assoc, h.conserves]
  complete := h.complete
  count := h.count

theorem pass {x : List α} (h : d.Sound (x ++ held) closed) : (d.pass x).Sound held closed where
  conserves := by
    rw [Direction.pass, List.append_assoc, h.conserves]
  complete := h.complete
  count := h.count

theorem sawEnd (h : d.Sound held closed) : d.sawEnd.Sound held closed :=
  ⟨h.conserves, h.complete, h.count⟩

/-- The end may be passed on once nothing is held back any more. -/
theorem close (h : d.Sound [] false) (hend : d.ended = true) : d.close.Sound [] true where
  conserves := h.conserves
  complete := by
    intro c hc
    rcases List.mem_append.1 hc with hc | hc
    · exact h.complete c hc
    · rw [List.mem_singleton.1 hc]
      exact ⟨hend, (List.append_nil d.output).symm.trans h.conserves⟩
  count := by
    rw [Direction.close, List.length_append, h.count]
    rfl

theorem closings_le (h : d.Sound held closed) : d.closings.length ≤ 1 := by
  rw [h.count]
  exact closed.toNat_le

end Sound

/-! ## Faithfulness -/

/-- What was passed on is the beginning of what was taken in, and each time that the end was
    passed on, all of it. -/
structure Faithful (d : Direction α) : Prop where
  passed : d.output <+: d.input
  complete : ∀ c ∈ d.closings, c.ended = true ∧ c.output = c.input

theorem Sound.faithful (h : d.Sound held closed) : d.Faithful := ⟨⟨held, h.conserves⟩, h.complete⟩

namespace Faithful

theorem take (h : d.Faithful) (x : List α) : (d.take x).Faithful :=
  ⟨h.passed.trans (List.prefix_append _ _), h.complete⟩

theorem sawEnd (h : d.Faithful) : d.sawEnd.Faithful := ⟨h.passed, h.complete⟩

end Faithful

/-! ## What is sent -/

/-- What the stream behind the direction carries: nothing that is passed on after the end. -/
def sent (d : Direction α) : List α :=
  match d.closings with
  | [] => d.output
  | c :: _ => c.output

/-- The end was passed on. -/
def finished (d : Direction α) : Bool := !d.closings.isEmpty

theorem sent_of_finished (h : d.finished = true) : ∃ c ∈ d.closings, d.sent = c.output := by
  rw [finished] at h
  rw [sent]
  cases hd : d.closings with
  | nil =>
    rw [hd] at h
    cases h
  | cons c cs => exact ⟨c, List.mem_cons_self, rfl⟩

theorem sent_of_unfinished (h : d.finished = false) : d.sent = d.output := by
  rw [finished, Bool.not_eq_false', List.isEmpty_iff] at h
  rw [sent, h]

/-- What each closing tells of the input is the beginning of it. -/
def Remembers (d : Direction α) : Prop := ∀ c ∈ d.closings, c.input <+: d.input

/-- More was taken in, and more was sent, but for what comes after the end. -/
structure Grows (d d' : Direction α) : Prop where
  input : d.input <+: d'.input
  sent : d.sent <+: d'.sent
  finished : d.finished = true → d'.finished = true ∧ d'.sent = d.sent
  remembers : d.Remembers → d'.Remembers

namespace Grows

variable {d' d'' : Direction α}

theorem of_eq (hinput : d.input <+: d'.input) (houtput : d'.output = d.output) (hclosings : d'.closings = d.closings) :
    Grows d d' := by
  have hsent : d'.sent = d.sent := by
    rw [Direction.sent, Direction.sent, hclosings, houtput]
  refine ⟨hinput, hsent ▸ List.prefix_rfl, fun h => ⟨?_, hsent⟩, fun h c hc => ?_⟩
  · rw [Direction.finished, hclosings]
    exact h
  · rw [hclosings] at hc
    exact (h c hc).trans hinput

theorem refl (d : Direction α) : Grows d d := of_eq List.prefix_rfl rfl rfl

theorem trans (h : Grows d d') (h' : Grows d' d'') : Grows d d'' where
  input := h.input.trans h'.input
  sent := h.sent.trans h'.sent
  finished := by
    intro hfin
    obtain ⟨hfin', hsame⟩ := h.finished hfin
    obtain ⟨hfin'', hsame'⟩ := h'.finished hfin'
    exact ⟨hfin'', hsame'.trans hsame⟩
  remembers := fun hd => h'.remembers (h.remembers hd)

theorem take (d : Direction α) (x : List α) : Grows d (d.take x) := of_eq (List.prefix_append _ _) rfl rfl

theorem sawEnd (d : Direction α) : Grows d d.sawEnd := of_eq List.prefix_rfl rfl rfl

theorem pass (d : Direction α) (x : List α) : Grows d (d.pass x) := by
  have hsame : (d.pass x).closings = d.closings := rfl
  cases hfin : d.finished with
  | true =>
    have hsent : (d.pass x).sent = d.sent := by
      rw [Direction.sent, Direction.sent, hsame]
      split
      · rename_i hnil
        rw [Direction.finished, hnil] at hfin
        cases hfin
      · rfl
    exact ⟨List.prefix_rfl, hsent ▸ List.prefix_rfl, fun _ => ⟨hfin, hsent⟩, id⟩
  | false =>
    refine ⟨List.prefix_rfl, ?_, fun h => absurd (hfin.symm.trans h) Bool.false_ne_true, id⟩
    rw [sent_of_unfinished hfin, sent_of_unfinished (d := d.pass x) hfin]
    exact List.prefix_append _ _

theorem close (d : Direction α) : Grows d d.close := by
  have hsent : d.close.sent = d.sent := by
    rw [Direction.sent, Direction.sent, Direction.close]
    cases d.closings with
    | nil => rfl
    | cons c cs => rfl
  refine ⟨List.prefix_rfl, hsent ▸ List.prefix_rfl, fun _ => ⟨?_, hsent⟩, fun h c hc => ?_⟩
  · rw [Direction.finished, Direction.close]
    cases d.closings with
    | nil => rfl
    | cons c cs => rfl
  · rcases List.mem_append.1 hc with hc | hc
    · exact h c hc
    · rw [List.mem_singleton.1 hc]
      exact List.prefix_rfl

end Grows

/-- What a faithful direction has sent is the beginning of what it took in. -/
theorem Faithful.sent_isPrefix (h : d.Faithful) (hremembers : d.Remembers) : d.sent <+: d.input := by
  rw [Direction.sent]
  split
  · exact h.passed
  · rename_i c cs hcons
    have hmem : c ∈ d.closings := hcons ▸ List.mem_cons_self
    rw [(h.complete c hmem).2]
    exact hremembers c hmem

/-- A direction goes on, and is faithful. -/
structure Advances (d d' : Direction α) : Prop where
  grows : Grows d d'
  faithful : d'.Faithful

theorem Advances.refl (h : d.Faithful) : Advances d d := ⟨.refl d, h⟩

theorem Advances.trans {d' d'' : Direction α} (h : Advances d d') (h' : Advances d' d'') : Advances d d'' :=
  ⟨h.grows.trans h'.grows, h'.faithful⟩

/-- Some of what is held is passed on, and the rest may be lost. -/
theorem Sound.advances_pass {x : List α} (h : d.Sound held closed) (hx : x <+: held) : Advances d (d.pass x) := by
  obtain ⟨rest, rfl⟩ := hx
  exact ⟨.pass d x, h.pass.faithful⟩

/-! ## Directions in a row -/

/-- The second direction takes in what the first one has sent, and sees the end behind all of
    it. -/
structure Carried (d d' : Direction α) : Prop where
  input : d'.input <+: d.sent
  ended : d'.ended = true → d.finished = true ∧ d'.input = d.sent
  closed : ∀ c ∈ d'.closings, d.finished = true ∧ c.input = d.sent

namespace Carried

variable {d' : Direction α}

theorem initial (d : Direction α) : Carried d {} :=
  ⟨List.nil_prefix, fun h => Bool.noConfusion h, fun _ hc => absurd hc List.not_mem_nil⟩

/-- The first direction goes on. -/
theorem grows (h : Carried d d') {e : Direction α} (hgrows : Grows d e) : Carried e d' where
  input := h.input.trans hgrows.sent
  ended := by
    intro hended
    obtain ⟨hfin, hall⟩ := h.ended hended
    obtain ⟨hfin', hsame⟩ := hgrows.finished hfin
    exact ⟨hfin', hall.trans hsame.symm⟩
  closed := by
    intro c hc
    obtain ⟨hfin, hall⟩ := h.closed c hc
    obtain ⟨hfin', hsame⟩ := hgrows.finished hfin
    exact ⟨hfin', hall.trans hsame.symm⟩

theorem take (h : Carried d d') {x : List α} (hx : x <+: d.sent.drop d'.input.length) : Carried d (d'.take x) := by
  have hsplit : d'.input ++ d.sent.drop d'.input.length = d.sent := List.prefix_iff_eq_append.1 h.input
  refine ⟨?_, fun hended => ?_, h.closed⟩
  · rw [← hsplit]
    exact (List.prefix_append_right_inj _).2 hx
  · obtain ⟨hfin, hall⟩ := h.ended hended
    rw [← hall, List.drop_length, List.prefix_nil] at hx
    rw [hx, Direction.take, List.append_nil]
    exact ⟨hfin, hall⟩

theorem sawEnd (h : Carried d d') (hfin : d.finished = true) (hall : d'.input = d.sent) : Carried d d'.sawEnd :=
  ⟨h.input, fun _ => ⟨hfin, hall⟩, h.closed⟩

theorem pass (h : Carried d d') (x : List α) : Carried d (d'.pass x) := ⟨h.input, h.ended, h.closed⟩

theorem close (h : Carried d d') (hended : d'.ended = true) : Carried d d'.close := by
  refine ⟨h.input, h.ended, fun c hc => ?_⟩
  rcases List.mem_append.1 hc with hc | hc
  · exact h.closed c hc
  · rw [List.mem_singleton.1 hc]
    exact h.ended hended

/-- Nothing is changed, put in or left out on the way through both. -/
theorem passed (h : Carried d d') (hd : d.Faithful) (hremembers : d.Remembers) (hd' : d'.Faithful) :
    d'.output <+: d.input :=
  (hd'.passed.trans h.input).trans (hd.sent_isPrefix hremembers)

/-- The end comes out behind all that had come in before it. -/
theorem complete (h : Carried d d') (hd : d.Faithful) (hd' : d'.Faithful) {c' : Closing α} (hc' : c' ∈ d'.closings) :
    ∃ c ∈ d.closings, c.ended = true ∧ c'.output = c.input := by
  obtain ⟨hfin, hall⟩ := h.closed c' hc'
  obtain ⟨c, hc, hsent⟩ := sent_of_finished hfin
  obtain ⟨hended, hinput⟩ := hd.complete c hc
  refine ⟨c, hc, hended, ?_⟩
  rw [(hd'.complete c' hc').2, hall, hsent, hinput]

end Carried

/-! ## Catching up -/

theorem finished_close (d : Direction α) : d.close.finished = true := by
  rw [finished, close, Bool.not_eq_true', List.isEmpty_eq_false_iff]
  exact List.append_ne_nil_of_right_ne_nil _ (List.cons_ne_nil _ _)

theorem Sound.finished_eq (h : d.Sound held closed) : d.finished = closed := by
  have hcount := h.count
  cases closed with
  | true =>
    rw [finished, Bool.not_eq_true', List.isEmpty_eq_false_iff]
    exact List.ne_nil_of_length_pos (by rw [hcount]; exact Nat.one_pos)
  | false =>
    rw [finished, Bool.not_eq_false', List.isEmpty_iff]
    exact List.length_eq_zero_iff.1 hcount

/-- The end was passed on, or there is none yet, and all of the input was passed on. -/
def Flushed (d : Direction α) : Prop := d.finished = true ∨ d.ended = false ∧ d.output = d.input

/-- Nothing is left on the way: all that the first direction took in came out of the second
    one, the end included. -/
structure CaughtUp (d d' : Direction α) : Prop where
  unfinished : d.finished = false → d.ended = false ∧ d'.output = d.input
  finished : d.finished = true → d'.finished = true ∧ ∃ c ∈ d.closings, c.ended = true ∧ d'.output = c.input

/-- Where the first direction has nothing to send, and the second one has passed on all that
    was sent. -/
theorem Flushed.caughtUp {d' : Direction α} (h : d.Flushed) (hfaithful : d.Faithful) (hpassed : d'.output = d.sent)
    (hfinished : d.finished = true → d'.finished = true) : CaughtUp d d' := by
  refine ⟨fun hopen => ?_, fun hfin => ⟨hfinished hfin, ?_⟩⟩
  · rcases h with hfin | ⟨hended, hall⟩
    · exact absurd (hopen.symm.trans hfin) Bool.false_ne_true
    · exact ⟨hended, hpassed.trans ((sent_of_unfinished hopen).trans hall)⟩
  · obtain ⟨c, hc, hsent⟩ := sent_of_finished hfin
    obtain ⟨hended, hall⟩ := hfaithful.complete c hc
    exact ⟨c, hc, hended, hpassed.trans (hsent.trans hall)⟩

end Direction

end Relay
