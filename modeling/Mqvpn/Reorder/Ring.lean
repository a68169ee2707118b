import Mqvpn.Lib.Slots
import Mqvpn.Reorder.Config

/-!
# The elastic ring

The receive buffer of a flow holds packets of the window `[expected, expected +
cap)`, indexed by their sequence number modulo its size. It is allocated on the
first insertion, doubles when a sequence number does not fit, up to the cap, and
is freed on a reset or a demotion.

What a ring stands for is the bag of its occupied slots (`Ring.entries`). Under
the representation invariant `Ring.Inv r e`, with `e` a lower bound of the
buffered sequence numbers, the operations act on that bag as their names say:

* `contains_iff`: `contains` is membership;
* `remove_eq_some_iff`, `remove_eq_none_iff`: `remove` takes one entry out;
* `insert_spec`: `insert` adds one entry, into a slot that was empty, and the
  rehash of a growth sends the old entries to distinct slots;
* `lowestSeq_spec`: `lowestSeq` is the smallest sequence number.
-/

namespace Mqvpn.Reorder

/-- `struct slot`, when occupied; `pkt` is the heap copy and its length. -/
structure Slot where
  seq : Nat
  pkt : Bytes
  enqueueUs : Nat

/-- `struct ring`. The array is empty when `slots` is `NULL`, and a slot is
    `none` when its `pkt` is. -/
structure Ring where
  slots : List (Option Slot)
  size : Nat
  cap : Nat
  count : Nat
  bytes : Nat

namespace Ring

/-- The buffered packets. -/
def entries (r : Ring) : List Slot := r.slots.reduceOption

/-- `RING_IDX` for an array of the given size. -/
def idx (size seq : Nat) : Nat := seq &&& (size - 1)

/-- `ring_init` -/
def init (cap : Nat) : Ring := ⟨[], 0, cap, 0, 0⟩

/-- `ring_free`: the cap is preserved. -/
def free (r : Ring) : Ring := { r with slots := [], size := 0, count := 0, bytes := 0 }

/-- `ring_empty` -/
def isEmpty (r : Ring) : Bool := r.count = 0

/-- `ring_far_ahead`; callers ensure `expected ≤ seq`. -/
def farAhead (r : Ring) (seq expected : Nat) : Bool := r.cap ≤ seq - expected

/-- The slot of `seq` is occupied by `seq` itself. -/
def slotHolds (r : Ring) (seq : Nat) : Bool :=
  match r.slots.getD (idx r.size seq) none with
  | some s => s.seq = seq
  | none => false

/-- `ring_contains` -/
def contains (r : Ring) (seq : Nat) : Bool := r.slots ≠ [] ∧ r.slotHolds seq

/-- The `while` loop of `ring_grow_to_cover`. It doubles a positive `want` below
    `cap`, so `cap` iterations are enough (`growWant_spec`). -/
def growWant (span cap : Nat) : (fuel want : Nat) → Nat
  | 0, want => want
  | fuel + 1, want =>
    if want ≤ span ∧ want < cap then growWant span cap fuel (want <<< 1) else want

/-- The size `ring_grow_to_cover` asks for. -/
def wantedSize (r : Ring) (span : Nat) : Nat :=
  let want := growWant span r.cap r.cap (if r.size ≠ 0 then r.size else 1)
  if want < r.size then r.size else want

/-- The rehash of `ring_grow_to_cover` into a fresh array. -/
def rehash (r : Ring) (size : Nat) : List (Option Slot) :=
  Slots.place (fun s => idx size s.seq) r.slots (List.replicate size none)

/-- `ring_grow_to_cover`; `alloc` is whether `calloc` succeeds. On failure the
    ring stays as it was. -/
def growToCover (r : Ring) (span : Nat) (alloc : Bool) : Option Ring :=
  let want := r.wantedSize span
  if want = r.size ∧ r.slots ≠ [] then some r
  else if alloc then some { r with slots := r.rehash want, size := want }
  else none

/-- The growth at the start of `ring_insert`. -/
def grow (r : Ring) (seq expected : Nat) (alloc : Bool) : Option Ring :=
  let span := seq - expected
  if r.slots = [] ∨ r.size ≤ span then r.growToCover span alloc else some r

/-- The slot that the insertion of `seq` writes, after the growth, is empty. -/
def growVacant (r : Ring) (seq expected : Nat) (alloc : Bool) : Bool :=
  match r.grow seq expected alloc with
  | some g => match g.slots[idx g.size seq]? with
    | some none => true
    | _ => false
  | none => false

/-- The rehash of the insertion of `seq`, if any, sends the buffered packets to
    pairwise distinct slots. -/
def growSpread (r : Ring) (seq expected : Nat) (alloc : Bool) : Bool :=
  match r.grow seq expected alloc with
  | some g => (r.entries.map fun s => idx g.size s.seq).Nodup
  | none => false

/-- The write at the end of `ring_insert`. -/
def store (r : Ring) (s : Slot) : Ring :=
  { r with
    slots := r.slots.set (idx r.size s.seq) (some s)
    count := r.count + 1
    bytes := r.bytes + s.pkt.length }

/-- `ring_insert` -/
def insert (r : Ring) (s : Slot) (expected : Nat) (alloc : Bool) : Option Ring :=
  (r.grow s.seq expected alloc).map (·.store s)

/-- The ring without the entry in the slot of `s`. -/
def clear (r : Ring) (s : Slot) : Ring :=
  { r with
    slots := r.slots.set (idx r.size s.seq) none
    count := r.count - 1
    bytes := r.bytes - s.pkt.length }

/-- `ring_remove` -/
def remove (r : Ring) (seq : Nat) : Option (Slot × Ring) :=
  if r.slots = [] then none
  else match r.slots.getD (idx r.size seq) none with
    | some s => if s.seq = seq then some (s, r.clear s) else none
    | none => none

/-- `ring_lowest_seq` -/
def lowestSeq (r : Ring) (expected : Nat) : Nat :=
  if r.slots = [] then expected
  else match (List.range r.size).find? fun i => r.slotHolds (expected + i) with
    | some i => expected + i
    | none => expected

/-! ## The representation invariant -/

/-- The representation invariant of a ring whose sequence numbers are all from
    `e` on. -/
structure Inv (r : Ring) (e : Nat) : Prop where
  length : r.slots.length = r.size
  size : r.size = 0 ∨ r.size.isPowerOfTwo
  size_le : r.size ≤ r.cap
  slot : ∀ i s, r.slots[i]? = some (some s) → s.seq % r.size = i ∧ e ≤ s.seq ∧ s.seq < e + r.size
  count : r.count = r.entries.length
  bytes : r.bytes = (r.entries.map (·.pkt.length)).sum

variable {r r' : Ring} {e seq : Nat} {s : Slot} {alloc : Bool}

theorem inv_init (cap e : Nat) : (init cap).Inv e :=
  ⟨rfl, .inl rfl, Nat.zero_le _, by simp [init], rfl, rfl⟩

theorem inv_free (r : Ring) (e : Nat) : r.free.Inv e :=
  ⟨rfl, .inl rfl, Nat.zero_le _, by simp [free], rfl, rfl⟩

@[simp]
theorem entries_free (r : Ring) : r.free.entries = [] := rfl

@[simp]
theorem cap_free (r : Ring) : r.free.cap = r.cap := rfl

@[simp]
theorem bytes_free (r : Ring) : r.free.bytes = 0 := rfl

@[simp]
theorem count_free (r : Ring) : r.free.count = 0 := rfl

theorem mem_entries : s ∈ r.entries ↔ ∃ i : Nat, r.slots[i]? = some (some s) :=
  Slots.mem_reduceOption_iff_getElem?

namespace Inv

theorem le_of_mem (h : r.Inv e) (hs : s ∈ r.entries) : e ≤ s.seq := by
  obtain ⟨i, hi⟩ := mem_entries.1 hs
  exact (h.slot i s hi).2.1

theorem lt_of_mem (h : r.Inv e) (hs : s ∈ r.entries) : s.seq < e + r.size := by
  obtain ⟨i, hi⟩ := mem_entries.1 hs
  exact (h.slot i s hi).2.2

/-- The window may move up to the lowest buffered sequence number. -/
theorem mono (h : r.Inv e) {e' : Nat} (he : e ≤ e') (hs : ∀ s ∈ r.entries, e' ≤ s.seq) :
    r.Inv e' where
  length := h.length
  size := h.size
  size_le := h.size_le
  slot i s hi := by
    obtain ⟨hm, -, hlt⟩ := h.slot i s hi
    exact ⟨hm, hs s (mem_entries.2 ⟨i, hi⟩), by omega⟩
  count := h.count
  bytes := h.bytes

/-- An empty ring may be moved anywhere. -/
theorem of_entries_eq_nil (h : r.Inv e) (hnil : r.entries = []) (e' : Nat) : r.Inv e' where
  length := h.length
  size := h.size
  size_le := h.size_le
  slot i s hi := by
    have := mem_entries.2 ⟨i, hi⟩
    rw [hnil] at this
    exact absurd this List.not_mem_nil
  count := h.count
  bytes := h.bytes

theorem count_eq_zero_iff (h : r.Inv e) : r.count = 0 ↔ r.entries = [] := by
  rw [h.count, List.length_eq_zero_iff]

theorem count_le_size (h : r.Inv e) : r.count ≤ r.size := by
  rw [h.count, ← h.length]
  exact List.reduceOption_length_le r.slots

theorem isPowerOfTwo_of_mem (h : r.Inv e) (hs : s ∈ r.entries) : r.size.isPowerOfTwo := by
  rcases h.size with h0 | h2
  · have := h.le_of_mem hs
    have := h.lt_of_mem hs
    omega
  · exact h2

end Inv

/-! ## Indexing -/

theorem idx_eq_mod {size : Nat} (h : size.isPowerOfTwo) (seq : Nat) : idx size seq = seq % size := by
  obtain ⟨k, rfl⟩ := h
  exact Nat.and_two_pow_sub_one_eq_mod seq k

theorem Inv.getElem?_idx (h : r.Inv e) (hs : s ∈ r.entries) :
    r.slots[idx r.size s.seq]? = some (some s) := by
  obtain ⟨i, hi⟩ := mem_entries.1 hs
  rw [idx_eq_mod (h.isPowerOfTwo_of_mem hs), (h.slot i s hi).1, hi]

theorem slotHolds_iff (h : r.Inv e) : r.slotHolds seq = true ↔ ∃ s ∈ r.entries, s.seq = seq := by
  unfold slotHolds
  constructor
  · intro hh
    cases hg : r.slots[idx r.size seq]? with
    | none => simp [List.getD, hg] at hh
    | some o =>
      cases o with
      | none => simp [List.getD, hg] at hh
      | some s => exact ⟨s, mem_entries.2 ⟨_, hg⟩, by simpa [List.getD, hg] using hh⟩
  · rintro ⟨s, hs, rfl⟩
    simp [List.getD, h.getElem?_idx hs]

theorem slots_ne_nil_of_mem (hs : s ∈ r.entries) : r.slots ≠ [] := by
  intro h0
  simp [entries, h0] at hs

theorem contains_iff (h : r.Inv e) : r.contains seq = true ↔ ∃ s ∈ r.entries, s.seq = seq := by
  rw [contains, decide_eq_true_iff, slotHolds_iff h, and_iff_right_iff_imp]
  rintro ⟨s, hs, -⟩
  exact slots_ne_nil_of_mem hs

/-- No two buffered packets have the same sequence number. -/
theorem Inv.nodup (h : r.Inv e) : (r.entries.map (·.seq)).Nodup := by
  have hmod : ∀ i s, r.slots[i]? = some (some s) → s.seq % r.size = 0 + i := fun i s hi => by
    rw [Nat.zero_add, (h.slot i s hi).1]
  have := (Slots.nodup_map_of_getElem? hmod).1
  refine List.Nodup.of_map (· % r.size) ?_
  rwa [List.map_map]

/-! ## Removal -/

theorem Inv.entries_clear (h : r.Inv e) (hs : s ∈ r.entries) :
    r.entries.Perm (s :: (r.clear s).entries) :=
  Slots.reduceOption_set_none (h.getElem?_idx hs)

theorem Inv.count_clear (h : r.Inv e) (hs : s ∈ r.entries) :
    r.count = (r.clear s).count + 1 ∧ (r.clear s).count = (r.clear s).entries.length := by
  have := (h.entries_clear hs).length_eq
  rw [← h.count, List.length_cons] at this
  change r.count = r.count - 1 + 1 ∧ r.count - 1 = _
  omega

theorem Inv.bytes_clear (h : r.Inv e) (hs : s ∈ r.entries) :
    r.bytes = (r.clear s).bytes + s.pkt.length ∧
      (r.clear s).bytes = ((r.clear s).entries.map (·.pkt.length)).sum := by
  have := ((h.entries_clear hs).map (·.pkt.length)).sum_nat
  rw [← h.bytes, List.map_cons, List.sum_cons] at this
  change r.bytes = r.bytes - s.pkt.length + s.pkt.length ∧ r.bytes - s.pkt.length = _
  omega

theorem Inv.clear (h : r.Inv e) (hs : s ∈ r.entries) : (r.clear s).Inv e where
  length := (List.length_set ..).trans h.length
  size := h.size
  size_le := h.size_le
  slot i t hi := by
    rcases Slots.getElem?_set_of_some hi with ⟨-, h0⟩ | ⟨-, hi⟩
    · exact absurd h0 (Option.some_ne_none t)
    · exact h.slot i t hi
  count := (h.count_clear hs).2
  bytes := (h.bytes_clear hs).2

theorem remove_eq_some_iff (h : r.Inv e) :
    r.remove seq = some (s, r') ↔ s ∈ r.entries ∧ s.seq = seq ∧ r' = r.clear s := by
  constructor
  · intro hr
    unfold remove at hr
    split_ifs at hr
    split at hr
    · rename_i t ht
      split_ifs at hr with hseq
      obtain ⟨rfl, rfl⟩ : t = s ∧ r.clear t = r' := by simpa using hr
      refine ⟨mem_entries.2 ⟨idx r.size seq, ?_⟩, hseq, rfl⟩
      cases hg : r.slots[idx r.size seq]? with
      | none => simp [List.getD, hg] at ht
      | some o => simpa [List.getD, hg] using ht
    · exact absurd hr.symm (Option.some_ne_none _)
  · rintro ⟨hs, rfl, rfl⟩
    simp [remove, slots_ne_nil_of_mem hs, List.getD, h.getElem?_idx hs]

theorem remove_eq_none_iff (h : r.Inv e) : r.remove seq = none ↔ ∀ s ∈ r.entries, s.seq ≠ seq := by
  constructor
  · intro hr s hs hseq
    have := (remove_eq_some_iff h).2 ⟨hs, hseq, rfl⟩
    rw [hr] at this
    exact absurd this.symm (Option.some_ne_none _)
  · intro hne
    cases hr : r.remove seq with
    | none => rfl
    | some p =>
      obtain ⟨hs, hseq, -⟩ := (remove_eq_some_iff h).1 hr
      exact absurd hseq (hne _ hs)

theorem le_of_remove (hr : r.remove seq = some (s, r')) :
    r'.count ≤ r.count ∧ r'.bytes ≤ r.bytes := by
  unfold remove at hr
  split_ifs at hr
  split at hr
  · split_ifs at hr
    obtain ⟨rfl, rfl⟩ := Prod.mk.inj (Option.some.inj hr)
    exact ⟨Nat.sub_le .., Nat.sub_le ..⟩
  · exact absurd hr.symm (Option.some_ne_none _)

/-! ## Growth -/

theorem two_mul_le_of_lt {a b : Nat} (ha : a.isPowerOfTwo) (hb : b.isPowerOfTwo) (h : a < b) :
    2 * a ≤ b := by
  obtain ⟨i, rfl⟩ := ha
  obtain ⟨j, rfl⟩ := hb
  have hij : i < j := (Nat.pow_lt_pow_iff_right (by decide)).1 h
  calc 2 * 2 ^ i = 2 ^ (i + 1) := by rw [Nat.pow_succ, Nat.mul_comm]
    _ ≤ 2 ^ j := Nat.pow_le_pow_right (by decide) hij

/-- The doubling loop stops at a power of two, within the cap, where its guard
    is false. -/
theorem growWant_spec {cap : Nat} (hcap : cap.isPowerOfTwo) (span : Nat) :
    ∀ (fuel : Nat) {want : Nat}, want.isPowerOfTwo → want ≤ cap → cap ≤ want + fuel →
      (growWant span cap fuel want).isPowerOfTwo ∧ want ≤ growWant span cap fuel want ∧
        growWant span cap fuel want ≤ cap ∧
        ¬(growWant span cap fuel want ≤ span ∧ growWant span cap fuel want < cap)
  | 0, want, hw, hle, hf => ⟨hw, le_rfl, hle, by rw [growWant]; omega⟩
  | fuel + 1, want, hw, hle, hf => by
    rw [growWant]
    split_ifs with hg
    · have hpos := Nat.pos_of_isPowerOfTwo hw
      have hsh : want <<< 1 = want * 2 := by rw [Nat.shiftLeft_eq, Nat.pow_one]
      have hle' := two_mul_le_of_lt hw hcap hg.2
      rw [hsh]
      obtain ⟨h1, h2, h3, h4⟩ := growWant_spec hcap span fuel
        (Nat.isPowerOfTwo_mul_two_of_isPowerOfTwo hw) (by omega) (by omega)
      exact ⟨h1, by omega, h3, h4⟩
    · exact ⟨hw, le_rfl, hle, hg⟩

theorem wantedSize_spec (h : r.Inv e) (hcap : r.cap.isPowerOfTwo) {span : Nat}
    (hspan : span < r.cap) :
    (r.wantedSize span).isPowerOfTwo ∧ r.size ≤ r.wantedSize span ∧
      r.wantedSize span ≤ r.cap ∧ span < r.wantedSize span := by
  have hstart : (if r.size ≠ 0 then r.size else 1).isPowerOfTwo ∧
      (if r.size ≠ 0 then r.size else 1) ≤ r.cap ∧ r.size ≤ if r.size ≠ 0 then r.size else 1 := by
    split_ifs with h0
    · exact ⟨h.size.resolve_left h0, h.size_le, le_rfl⟩
    · exact ⟨Nat.isPowerOfTwo_one, Nat.pos_of_isPowerOfTwo hcap, by omega⟩
  obtain ⟨h1, h2, h3, h4⟩ := growWant_spec hcap span r.cap hstart.1 hstart.2.1
    (Nat.le_add_left r.cap _)
  have hge := hstart.2.2.trans h2
  rw [wantedSize, if_neg (not_lt.2 hge)]
  exact ⟨h1, hge, h3, by omega⟩

/-- A rehash sends the entries to pairwise distinct slots of the new array. -/
theorem nodup_rehash (h : r.Inv e) {size : Nat} (hp : size.isPowerOfTwo) (hle : r.size ≤ size) :
    (r.entries.map fun s => idx size s.seq).Nodup := by
  have hnd := h.nodup
  rw [List.Nodup, List.pairwise_map] at hnd ⊢
  refine hnd.imp_of_mem fun {a b} ha hb hne heq => hne ?_
  rw [idx_eq_mod hp, idx_eq_mod hp] at heq
  have := h.lt_of_mem ha
  have := h.lt_of_mem hb
  exact Slots.eq_of_mod_eq_of_window heq (h.le_of_mem ha) (by omega) (h.le_of_mem hb) (by omega)

theorem entries_rehash (h : r.Inv e) {size : Nat} (hp : size.isPowerOfTwo) (hle : r.size ≤ size) :
    (r.rehash size).reduceOption.Perm r.entries := by
  have hfree : ∀ s ∈ r.entries,
      (List.replicate size (none : Option Slot))[idx size s.seq]? = some none := by
    intro s _
    rw [idx_eq_mod hp, List.getElem?_replicate, if_pos (Nat.mod_lt _ (Nat.pos_of_isPowerOfTwo hp))]
  simpa [rehash, entries] using Slots.reduceOption_place (nodup_rehash h hp hle) hfree

theorem inv_rehash (h : r.Inv e) {size : Nat} (hp : size.isPowerOfTwo) (hle : r.size ≤ size)
    (hcap : size ≤ r.cap) : Inv { r with slots := r.rehash size, size := size } e where
  length := by simp [rehash]
  size := .inr hp
  size_le := hcap
  slot i s hi := by
    rcases Slots.getElem?_place hi with h0 | ⟨hs, rfl⟩
    · rw [List.getElem?_replicate] at h0
      split_ifs at h0
      simp at h0
    · have := h.lt_of_mem hs
      exact ⟨(idx_eq_mod hp _).symm, h.le_of_mem hs, by dsimp only; omega⟩
  count := h.count.trans (entries_rehash h hp hle).length_eq.symm
  bytes := h.bytes.trans ((entries_rehash h hp hle).map _).sum_nat.symm

/-- After the growth of an insertion the ring holds the same packets, in
    distinct slots, and covers the new sequence number. -/
theorem grow_spec (h : r.Inv e) (hcap : r.cap.isPowerOfTwo) (hspan : seq - e < r.cap)
    (hr : r.grow seq e alloc = some r') :
    r'.Inv e ∧ r'.cap = r.cap ∧ r'.entries.Perm r.entries ∧ seq - e < r'.size ∧
      (r.entries.map fun s => idx r'.size s.seq).Nodup := by
  -- Nothing to do: the array is there and already covers the span.
  have hkeep : r.slots ≠ [] → seq - e < r.size → r' = r → r'.Inv e ∧ r'.cap = r.cap ∧
      r'.entries.Perm r.entries ∧ seq - e < r'.size ∧
      (r.entries.map fun s => idx r'.size s.seq).Nodup := by
    rintro hne hlt rfl
    have hpos : r'.size ≠ 0 := by omega
    exact ⟨h, rfl, List.Perm.refl _, hlt, nodup_rehash h (h.size.resolve_left hpos) le_rfl⟩
  obtain ⟨hp, hle, hwc, hlt⟩ := wantedSize_spec h hcap hspan
  simp only [grow, growToCover] at hr
  split_ifs at hr with h1 h2 h3
  · exact hkeep h2.2 (h2.1 ▸ hlt) (Option.some.inj hr).symm
  · obtain rfl := Option.some.inj hr
    exact ⟨inv_rehash h hp hle hwc, rfl, entries_rehash h hp hle, hlt, nodup_rehash h hp hle⟩
  · rw [not_or, not_le] at h1
    exact hkeep h1.1 h1.2 (Option.some.inj hr).symm

/-! ## Insertion -/

/-- In a ring that covers it, the slot of a sequence number that is not
    buffered is empty. -/
theorem Inv.vacant (h : r.Inv e) (hle : e ≤ seq) (hlt : seq - e < r.size)
    (hnew : ∀ s ∈ r.entries, s.seq ≠ seq) : r.slots[idx r.size seq]? = some none := by
  have hp : r.size.isPowerOfTwo := h.size.resolve_left (by omega)
  have hidx : idx r.size seq < r.slots.length := by
    rw [idx_eq_mod hp, h.length]
    exact Nat.mod_lt _ (by omega)
  rw [List.getElem?_eq_getElem hidx, Option.some.injEq]
  cases ho : r.slots[idx r.size seq] with
  | none => rfl
  | some s =>
    have hi : r.slots[idx r.size seq]? = some (some s) := by
      rw [List.getElem?_eq_getElem hidx, ho]
    obtain ⟨hm, hes, hlts⟩ := h.slot _ s hi
    rw [idx_eq_mod hp] at hm
    have := Slots.eq_of_mod_eq_of_window hm hes hlts hle (by omega)
    exact absurd this (hnew s (mem_entries.2 ⟨_, hi⟩))

theorem entries_store (hv : r.slots[idx r.size s.seq]? = some none) :
    (r.store s).entries.Perm (s :: r.entries) :=
  Slots.reduceOption_set_some hv

theorem Inv.store (h : r.Inv e) (hle : e ≤ s.seq) (hlt : s.seq - e < r.size)
    (hv : r.slots[idx r.size s.seq]? = some none) : (r.store s).Inv e where
  length := (List.length_set ..).trans h.length
  size := h.size
  size_le := h.size_le
  slot i t hi := by
    rcases Slots.getElem?_set_of_some hi with ⟨rfl, ht⟩ | ⟨-, hi⟩
    · obtain rfl := Option.some.inj ht
      have hp : r.size.isPowerOfTwo := h.size.resolve_left (by omega)
      exact ⟨(idx_eq_mod hp _).symm, hle, by change t.seq < e + r.size; omega⟩
    · exact h.slot i t hi
  count := by
    rw [(entries_store hv).length_eq, List.length_cons, ← h.count]
    rfl
  bytes := by
    rw [((entries_store hv).map _).sum_nat, List.map_cons, List.sum_cons, ← h.bytes]
    exact Nat.add_comm ..

/-- Inserting a packet of the window that is not buffered: it is written into an
    empty slot, and joins those already there. -/
theorem insert_spec (h : r.Inv e) (hcap : r.cap.isPowerOfTwo) (hle : e ≤ s.seq)
    (hspan : s.seq - e < r.cap) (hnew : ∀ t ∈ r.entries, t.seq ≠ s.seq)
    (hr : r.insert s e alloc = some r') :
    r'.Inv e ∧ r'.cap = r.cap ∧ r'.entries.Perm (s :: r.entries) ∧
      r'.count = r.count + 1 ∧ r'.bytes = r.bytes + s.pkt.length ∧
      r.growVacant s.seq e alloc = true ∧ r.growSpread s.seq e alloc = true := by
  obtain ⟨g, hg, rfl⟩ := Option.map_eq_some_iff.1 hr
  obtain ⟨hi, hc, hp, hlt, hspread⟩ := grow_spec h hcap hspan hg
  have hv := hi.vacant hle hlt fun t ht => hnew t (hp.mem_iff.1 ht)
  have hperm := (entries_store hv).trans (hp.cons s)
  have hinv := hi.store hle hlt hv
  refine ⟨hinv, hc, hperm, ?_, ?_, ?_, ?_⟩
  · rw [hinv.count, hperm.length_eq, List.length_cons, ← h.count]
  · rw [hinv.bytes, (hperm.map _).sum_nat, List.map_cons, List.sum_cons, ← h.bytes, Nat.add_comm]
  · simp [growVacant, hg, hv]
  · simpa [growSpread, hg] using hspread

/-! ## The lowest sequence number -/

theorem lowestSeq_spec (h : r.Inv e) (hne : r.entries ≠ []) :
    (∃ s ∈ r.entries, s.seq = r.lowestSeq e) ∧ ∀ s ∈ r.entries, r.lowestSeq e ≤ s.seq := by
  obtain ⟨t, ht⟩ := List.exists_mem_of_ne_nil _ hne
  rw [lowestSeq, if_neg (slots_ne_nil_of_mem ht)]
  have hat : ∀ s ∈ r.entries, r.slotHolds (e + (s.seq - e)) = true := fun s hs =>
    (slotHolds_iff h).2 ⟨s, hs, by have := h.le_of_mem hs; omega⟩
  split
  · rename_i i hi
    obtain ⟨hholds, xs, ys, hxy, hbefore⟩ := List.find?_eq_some_iff_append.1 hi
    refine ⟨(slotHolds_iff h).1 hholds, fun s hs => ?_⟩
    by_contra hlt
    have hmem : s.seq - e ∈ xs := by
      have hpre := List.pairwise_lt_range (n := r.size)
      have hin : s.seq - e ∈ List.range r.size := by
        have := h.lt_of_mem hs
        have := h.le_of_mem hs
        exact List.mem_range.2 (by omega)
      rw [hxy] at hpre hin
      have hle := h.le_of_mem hs
      rcases List.mem_append.1 hin with hx | hx
      · exact hx
      · rcases List.mem_cons.1 hx with hx | hx
        · omega
        · have := (List.pairwise_cons.1 (List.pairwise_append.1 hpre).2.1).1 _ hx
          omega
    have := hbefore _ hmem
    rw [hat s hs] at this
    exact absurd this (by decide)
  · rename_i hi
    have hin : t.seq - e ∈ List.range r.size := by
      have := h.lt_of_mem ht
      have := h.le_of_mem ht
      exact List.mem_range.2 (by omega)
    exact absurd (hat t ht) (List.find?_eq_none.1 hi _ hin)

theorem lowestSeq_le (h : r.Inv e) (hs : s ∈ r.entries) : r.lowestSeq e ≤ s.seq :=
  (lowestSeq_spec h (List.ne_nil_of_mem hs)).2 s hs

theorem le_lowestSeq (r : Ring) (e : Nat) : e ≤ r.lowestSeq e := by
  rw [lowestSeq]
  split_ifs
  · exact le_rfl
  · split
    exacts [Nat.le_add_right .., le_rfl]

end Ring

end Mqvpn.Reorder
