import Mqvpn.Server.Subnet

/-!
# Allocating from the pool

What the pool of a configuration does with any calls that it gets: `alloc`, `allocAt` and
`release`, in any order and with any arguments. The search of `alloc` starts where the
last one ended, one past the last offset at the most (`Ranged`), and goes around once, so
that it sees every offset (`mem_scan`): it only fails if all of them are in use.
-/

namespace Mqvpn.AddrPool

/-- The size is one of an array of used bits, and the next offset to look at is one of the
    pool or the one after it, so that no sum of them overflows. -/
structure Ranged (p : AddrPool) : Prop where
  size : 2 ≤ p.poolSize ∧ p.poolSize ≤ poolMax
  next : 2 ≤ p.next ∧ p.next ≤ p.poolSize + 1

/-- An offset is handed out with this outcome: it was vacant, it is now in use, and the
    address is its own. -/
structure Takes (p : AddrPool) (off : Nat) (r : AddrPool × Nat) : Prop where
  vacant : p.Vacant off
  used : r.1.used = Function.update p.used off true
  addr : r.2 = p.addr off
  offset : p.offset r.2 = off

/-- The calls to a pool in this state do what an allocator does. -/
structure Correct (p : AddrPool) : Prop where
  ranged : p.Ranged
  alloc : ∀ r, p.alloc = some r → ∃ off, p.Takes off r
  exhausted : p.alloc = none ↔ ∀ off, 2 ≤ off → off ≤ p.poolSize → p.used off = true
  allocAt : ∀ off r, p.allocAt off = some r → p.Takes off r
  release : ∀ addr off, (p.release addr).used off ≠ p.used off → addr = p.base + off

variable {p : AddrPool} {off : Nat}

/-! ## One call -/

/-- The search comes to every offset. -/
theorem mem_scan (h1 : 1 ≤ off) (hle : off ≤ p.poolSize) : off ∈ p.scan := by
  have hsize : 0 < p.poolSize := by omega
  -- the number of places from the start of the search to the offset, around the end
  refine List.mem_map.2 ⟨(off - 1 + p.poolSize - (p.next - 1) % p.poolSize) % p.poolSize, ?_, ?_⟩
  · exact List.mem_range.2 (Nat.mod_lt _ hsize)
  · have hlt := Nat.mod_lt (p.next - 1) hsize
    rw [Nat.add_mod_mod, ← Nat.mod_add_mod,
      show (p.next - 1) % p.poolSize + (off - 1 + p.poolSize - (p.next - 1) % p.poolSize) = off - 1 + p.poolSize by
        omega,
      Nat.add_mod_right, Nat.mod_eq_of_lt (by omega)]
    omega

theorem alloc_eq_none_iff : p.alloc = none ↔ ∀ off, 2 ≤ off → off ≤ p.poolSize → p.used off = true := by
  rw [alloc, Option.map_eq_none_iff]
  constructor
  · intro h off h2 hle
    have hoff := List.find?_eq_none.1 h off (mem_scan (by omega) hle)
    simp only [decide_eq_true_eq, not_and, Bool.not_eq_false] at hoff
    exact hoff (by omega)
  · intro h
    cases hoff : p.freeOffset with
    | none => rfl
    | some off =>
      obtain ⟨h2, hle, hused⟩ := vacant_of_freeOffset hoff
      rw [h off h2 hle] at hused
      cases hused

theorem release_used (addr : Nat) (h : (p.release addr).used off ≠ p.used off) : addr = p.base + off := by
  obtain heq | ⟨k, -, -, haddr, heq⟩ := release_eq p addr
  · rw [heq] at h
    exact absurd rfl h
  · rw [heq] at h
    by_cases hk : off = k
    · rw [hk]
      exact haddr
    · exact absurd (Function.update_of_ne hk _ _) h

theorem Ranged.takes (h : p.Ranged) (hbase : p.base < 2 ^ 32) (hv : p.Vacant off) {q : AddrPool}
    (hq : q.used = Function.update p.used off true) : p.Takes off (q, p.addr off) where
  vacant := hv
  used := hq
  addr := rfl
  offset := offset_addr hbase (by have := h.size.2; have := hv.2.1; rw [poolMax] at *; omega)

theorem Ranged.correct (h : p.Ranged) (hbase : p.base < 2 ^ 32) : p.Correct where
  ranged := h
  alloc := by
    rintro ⟨q, a⟩ hr
    obtain ⟨off, -, hv, rfl, rfl⟩ := alloc_spec hr
    exact ⟨off, h.takes hbase hv rfl⟩
  exhausted := alloc_eq_none_iff
  allocAt := by
    rintro off ⟨q, a⟩ hr
    obtain ⟨hv, rfl, rfl⟩ := allocAt_spec hr
    exact h.takes hbase hv rfl
  release := fun addr _ hne => release_used addr hne

/-! ## All calls -/

theorem Configured.ranged (h : p.Configured) (hnext : p.next = 2) : p.Ranged where
  size := ⟨h.poolSize_bounds.1, h.poolSize_bounds.2.1⟩
  next := by
    have := h.poolSize_bounds
    omega

/-- The size and the base do not change, and an allocation leaves off after its offset. -/
theorem Ranged.step (h : p.Ranged) (op : Op) : (p.step op).Ranged ∧ (p.step op).base = p.base := by
  cases op with
  | alloc =>
    rw [AddrPool.step]
    cases hr : p.alloc with
    | none => exact ⟨h, rfl⟩
    | some r =>
      obtain ⟨off, -, hv, -, hq⟩ := alloc_spec (q := r.1) (a := r.2) hr
      rw [Option.map_some, Option.getD_some, hq]
      have := hv.1
      have := hv.2.1
      exact ⟨⟨h.size, by dsimp only; omega⟩, rfl⟩
  | allocAt off =>
    rw [AddrPool.step]
    cases hr : p.allocAt off with
    | none => exact ⟨h, rfl⟩
    | some r =>
      obtain ⟨-, -, hq⟩ := allocAt_spec (q := r.1) (a := r.2) hr
      rw [Option.map_some, Option.getD_some, hq]
      exact ⟨⟨h.size, h.next⟩, rfl⟩
  | release addr =>
    rw [AddrPool.step]
    obtain heq | ⟨k, -, -, -, heq⟩ := release_eq p addr
    · rw [heq]
      exact ⟨h, rfl⟩
    · rw [heq]
      exact ⟨⟨h.size, h.next⟩, rfl⟩

theorem Ranged.run (h : p.Ranged) (ops : List Op) :
    (p.run ops).Ranged ∧ (p.run ops).base = p.base := by
  induction ops generalizing p with
  | nil => exact ⟨h, rfl⟩
  | cons op ops ih =>
    obtain ⟨hop, hbase⟩ := h.step op
    obtain ⟨hops, hbase'⟩ := ih hop
    exact ⟨hops, hbase'.trans hbase⟩

/-- Calls do not change the base of a pool, and keep its scan in range. -/
theorem ranged_run {cidr : List Char} (hp : init cidr = some p) (ops : List Op) :
    (p.run ops).Ranged ∧ (p.run ops).base = p.base := by
  have hnext : p.next = 2 := by
    rw [init] at hp
    split at hp
    · cases hp
    · split at hp
      · split_ifs at hp
        cases hp
        rfl
      · cases hp
  exact ((configured_init hp).ranged hnext).run ops

/-- Whatever calls a pool has had, the next one does what an allocator does. -/
theorem correct_run {cidr : List Char} (hp : init cidr = some p) (ops : List Op) : (p.run ops).Correct := by
  obtain ⟨hranged, hbase⟩ := ranged_run hp ops
  exact hranged.correct (hbase ▸ (configured_init hp).base_lt)

/-- A pool of two addresses for clients that has given out both and got the first back. -/
theorem correct_run_sample :
    ∃ p, init "10.0.0.0/29".toList = some p ∧
      (p.run [.allocAt 3, .alloc, .alloc, .release (p.addr 3), .release 7]).Correct := by
  obtain ⟨p, hp⟩ : ∃ p, init "10.0.0.0/29".toList = some p := Option.isSome_iff_exists.1 (by decide)
  exact ⟨p, hp, correct_run hp _⟩

end Mqvpn.AddrPool
