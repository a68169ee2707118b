import Mathlib.Data.List.Infix

/-!
# Records

A buffer of records, one behind another: each begins with a header that has its length in it,
and is padded up to a multiple of a unit (`Records`). A walk over the buffer goes from record to
record, and stops where there is no room for a header, or where a length does not fit in what is
left. It visits nothing but parts of what was left (`within_of_mem_walk`), and of a buffer of
whole records it visits each of them once and in order (`map_walk_stream`).
-/

/-- A layout of records. -/
structure Records (β : Type*) where
  header : Nat
  unit : Nat
  /-- The length that the header at the front of a list has in it. -/
  len : List β → Nat
  header_pos : 0 < header
  unit_pos : 0 < unit
  len_append : ∀ r x, header ≤ r.length → len (r ++ x) = len r

namespace Records

variable {β γ : Type*} (R : Records β)

/-- The length with its padding. -/
def align (n : Nat) : Nat := (n + R.unit - 1) / R.unit * R.unit

/-- There is a record at the front, with `left` symbols left. -/
def Ok (left : Nat) (b : List β) : Prop := R.header ≤ left ∧ R.header ≤ R.len b ∧ R.len b ≤ left

instance (left : Nat) (b : List β) : Decidable (R.Ok left b) :=
  inferInstanceAs (Decidable (R.header ≤ left ∧ R.header ≤ R.len b ∧ R.len b ≤ left))

/-- The records, each with all that follows it in the buffer. -/
def walk : (fuel left : Nat) → List β → List (List β)
  | 0, _, _ => []
  | fuel + 1, left, b =>
    if R.Ok left b then b :: walk fuel (left - R.align (R.len b)) (b.drop (R.align (R.len b))) else []

variable {R}

theorem le_align (n : Nat) : n ≤ R.align n := by
  have hpos := R.unit_pos
  have hdiv := Nat.div_add_mod (n + R.unit - 1) R.unit
  have hmod := Nat.mod_lt (n + R.unit - 1) hpos
  rw [align, Nat.mul_comm]
  omega

theorem Ok.lt_align {left : Nat} {b : List β} (h : R.Ok left b) : 0 < R.align (R.len b) :=
  Nat.lt_of_lt_of_le (Nat.lt_of_lt_of_le R.header_pos h.2.1) (le_align _)

theorem not_ok_zero (b : List β) : ¬R.Ok 0 b := fun hok => absurd hok.1 (Nat.not_le.2 R.header_pos)

/-- As many rounds as there are symbols are enough: a round takes something. -/
theorem walk_enough {fuel fuel' left : Nat} (h : left ≤ fuel) (h' : left ≤ fuel') (b : List β) :
    R.walk fuel left b = R.walk fuel' left b := by
  induction fuel generalizing fuel' left b with
  | zero =>
    rw [Nat.le_zero.1 h]
    cases fuel' with
    | zero => rfl
    | succ fuel' => rw [walk, walk, if_neg (not_ok_zero b)]
  | succ fuel ih =>
    cases fuel' with
    | zero => rw [Nat.le_zero.1 h', walk, walk, if_neg (not_ok_zero b)]
    | succ fuel' =>
      rw [walk, walk]
      split_ifs with hok
      · have hpos := hok.lt_align
        have hfuel : left - R.align (R.len b) ≤ fuel := by omega
        have hfuel' : left - R.align (R.len b) ≤ fuel' := by omega
        rw [ih hfuel hfuel']
      · rfl

/-- What is visited lies within what was left. -/
theorem within_of_mem_walk {fuel left : Nat} {b r : List β} (hr : r ∈ R.walk fuel left b) :
    ∃ k, r = b.drop k ∧ R.header ≤ R.len r ∧ k + R.len r ≤ left := by
  induction fuel generalizing left b with
  | zero => exact absurd hr List.not_mem_nil
  | succ fuel ih =>
    rw [walk] at hr
    split_ifs at hr with hok
    · rcases List.mem_cons.1 hr with rfl | hr
      · exact ⟨0, rfl, hok.2.1, by rw [Nat.zero_add]; exact hok.2.2⟩
      · obtain ⟨k, rfl, hheader, hle⟩ := ih hr
        have hlen := Nat.lt_of_lt_of_le R.header_pos hheader
        refine ⟨R.align (R.len b) + k, (List.drop_drop ..), hheader, by omega⟩
    · exact absurd hr List.not_mem_nil

/-! ## Whole records -/

/-- A record as it is put together: its length is the one in its header. -/
structure Whole (R : Records β) (r : List β) : Prop where
  header : R.header ≤ r.length
  len : R.len r = r.length

/-- A record that was cut short is none. -/
theorem Whole.not_ok {r : List β} (h : R.Whole r) {n : Nat} (hn : n < r.length) :
    ¬R.Ok (r.take n).length (r.take n) := by
  rintro ⟨hheader, -, hfits⟩
  have hlen := R.len_append (r.take n) (r.drop n) hheader
  rw [List.take_append_drop, h.len] at hlen
  rw [List.length_take] at hfits
  omega

/-- The records, each padded with `z`. -/
def stream (R : Records β) (z : β) : List (List β) → List β
  | [] => []
  | r :: rs => r ++ List.replicate (R.align r.length - r.length) z ++ stream R z rs

theorem length_le_stream {rs : List (List β)} (hwhole : ∀ r ∈ rs, R.Whole r) (z : β) :
    rs.length ≤ (R.stream z rs).length := by
  induction rs with
  | nil => exact Nat.le_refl _
  | cons r rs ih =>
    have hr := Nat.lt_of_lt_of_le R.header_pos (hwhole r List.mem_cons_self).header
    have hrs := ih fun r' h' => hwhole r' (List.mem_cons_of_mem _ h')
    rw [stream, List.length_append, List.length_append, List.length_cons]
    omega

/-- A walk over whole records visits each of them once and in order, up to a rest that is not
    one. What is read of a record must not be beyond its end. -/
theorem map_walk_stream {rs : List (List β)} (hwhole : ∀ r ∈ rs, R.Whole r) (z : β) {extra : Nat} {tail : List β}
    (htail : ¬R.Ok extra tail) (f : List β → γ) (hf : ∀ r ∈ rs, ∀ x, f (r ++ x) = f r) {fuel : Nat}
    (hfuel : rs.length ≤ fuel) :
    (R.walk fuel ((R.stream z rs).length + extra) (R.stream z rs ++ tail)).map f = rs.map f := by
  induction rs generalizing fuel with
  | nil =>
    cases fuel with
    | zero => rfl
    | succ fuel =>
      rw [stream, List.length_nil, Nat.zero_add, List.nil_append, walk, if_neg htail, List.map_nil]
  | cons r rs ih =>
    obtain ⟨fuel, rfl⟩ : ∃ k, fuel = k + 1 := ⟨fuel - 1, by rw [List.length_cons] at hfuel; omega⟩
    -- the first record is visited, and what follows it is behind its padding
    have hr := hwhole r List.mem_cons_self
    have hle : r.length ≤ R.align r.length := le_align _
    have hlen : R.len (R.stream z (r :: rs) ++ tail) = r.length := by
      rw [stream, List.append_assoc, List.append_assoc]
      exact (R.len_append r _ hr.header).trans hr.len
    have hpadded : (r ++ List.replicate (R.align r.length - r.length) z).length = R.align r.length := by
      rw [List.length_append, List.length_replicate]
      omega
    have hstream : (R.stream z (r :: rs)).length = R.align r.length + (R.stream z rs).length := by
      rw [stream, List.length_append, hpadded]
    have hok : R.Ok ((R.stream z (r :: rs)).length + extra) (R.stream z (r :: rs) ++ tail) := by
      have hheader := hr.header
      rw [Ok, hlen, hstream]
      omega
    have hdrop : (R.stream z (r :: rs) ++ tail).drop (R.align r.length) = R.stream z rs ++ tail := by
      rw [stream, List.append_assoc]
      exact List.drop_left' hpadded
    have hleft : (R.stream z (r :: rs)).length + extra - R.align r.length = (R.stream z rs).length + extra := by
      omega
    have hfirst : f (R.stream z (r :: rs) ++ tail) = f r := by
      rw [stream, List.append_assoc, List.append_assoc]
      exact hf r List.mem_cons_self _
    rw [walk, if_pos hok, hlen, hdrop, hleft, List.map_cons, List.map_cons, hfirst,
      ih (fun r' h' => hwhole r' (List.mem_cons_of_mem _ h')) (fun r' h' => hf r' (List.mem_cons_of_mem _ h'))
        (Nat.le_of_succ_le_succ hfuel)]

end Records
