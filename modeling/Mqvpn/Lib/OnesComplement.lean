import Mathlib.Algebra.BigOperators.Group.Finset.Basic

/-!
# One's-complement sums

The sum of the words of a message, with the carries out of 16 bits added back in. It is the
plain sum modulo `0xffff`, where 0 has the two representations `0` and `0xffff`
(`eq_or_zeros`); the second is the one of every sum that is not of zeros only
(`fold_eq_ffff_iff`). So it is enough to follow the plain sum modulo `0xffff` when words of
the message change (`sum_two_changed`).

The words of a message in bytes are added up by `total`. A message `Verifies` if its sum, the
checksum in it included, is all ones; a field that held zero when the sum was made, and then
got what the sum lacks, makes it so (`fold_add_checksum`).
-/

namespace OnesComplement

/-- The carries are added back in until there are none. -/
def fold (n : Nat) : Nat :=
  if n >>> 16 = 0 then n else fold ((n &&& 0xffff) + (n >>> 16))
termination_by n
decreasing_by
  rename_i hcarry
  rw [show (0xffff : Nat) = 2 ^ 16 - 1 from rfl, Nat.and_two_pow_sub_one_eq_mod]
  rw [Nat.shiftRight_eq_div_pow] at hcarry ⊢
  omega

/-- One round keeps the sum modulo `0xffff`, and whether there is anything. -/
theorem round_mod (n : Nat) : ((n &&& 0xffff) + (n >>> 16)) % 0xffff = n % 0xffff := by
  rw [show (0xffff : Nat) = 2 ^ 16 - 1 from rfl, Nat.and_two_pow_sub_one_eq_mod, Nat.shiftRight_eq_div_pow]
  omega

theorem round_eq_zero_iff (n : Nat) : (n &&& 0xffff) + (n >>> 16) = 0 ↔ n = 0 := by
  rw [show (0xffff : Nat) = 2 ^ 16 - 1 from rfl, Nat.and_two_pow_sub_one_eq_mod, Nat.shiftRight_eq_div_pow]
  omega

theorem fold_mod (n : Nat) : fold n % 0xffff = n % 0xffff := by
  fun_induction fold n with
  | case1 => rfl
  | case2 n _ ih => exact ih.trans (round_mod n)

theorem fold_eq_zero_iff (n : Nat) : fold n = 0 ↔ n = 0 := by
  fun_induction fold n with
  | case1 => rfl
  | case2 n _ ih => exact ih.trans (round_eq_zero_iff n)

theorem fold_lt (n : Nat) : fold n < 2 ^ 16 := by
  fun_induction fold n with
  | case1 n hcarry =>
    rw [Nat.shiftRight_eq_div_pow] at hcarry
    omega
  | case2 n _ ih => exact ih

/-- Two words with the same sum are the same but for the two representations of 0. -/
theorem eq_or_zeros {a b : Nat} (ha : a < 2 ^ 16) (hb : b < 2 ^ 16) (h : a % 0xffff = b % 0xffff) :
    a = b ∨ a = 0 ∧ b = 0xffff ∨ a = 0xffff ∧ b = 0 := by
  omega

/-- The sum is all ones if it is 0 modulo `0xffff`, but not of zeros only. -/
theorem fold_eq_ffff_iff (n : Nat) : fold n = 0xffff ↔ n % 0xffff = 0 ∧ n ≠ 0 := by
  have hmod := fold_mod n
  have hzero := fold_eq_zero_iff n
  have hlt := fold_lt n
  omega

/-- What a sum gains and loses where two words change. -/
theorem sum_two_changed {f g : Nat → Nat} {i j n : Nat} (hi : i < n) (hj : j < n) (hij : i ≠ j)
    (hsame : ∀ k, k ≠ i → k ≠ j → f k = g k) :
    ∑ k ∈ Finset.range n, f k + (g i + g j) = ∑ k ∈ Finset.range n, g k + (f i + f j) := by
  have hjmem : j ∈ (Finset.range n).erase i := Finset.mem_erase.2 ⟨hij.symm, Finset.mem_range.2 hj⟩
  have hrest : ∑ k ∈ ((Finset.range n).erase i).erase j, f k = ∑ k ∈ ((Finset.range n).erase i).erase j, g k := by
    refine Finset.sum_congr rfl fun k hk => ?_
    obtain ⟨hkj, hk⟩ := Finset.mem_erase.1 hk
    exact hsame k (Finset.mem_erase.1 hk).1 hkj
  rw [← Finset.add_sum_erase _ f (Finset.mem_range.2 hi), ← Finset.add_sum_erase _ f hjmem,
    ← Finset.add_sum_erase _ g (Finset.mem_range.2 hi), ← Finset.add_sum_erase _ g hjmem, hrest]
  omega

/-! ## Messages in bytes -/

/-- The words of a message added up; a last odd byte is the high one of its word. -/
def total : List UInt8 → Nat
  | [] => 0
  | [a] => a.toNat * 256
  | a :: b :: bytes => a.toNat * 256 + b.toNat + total bytes

/-- The sum of the message, with its checksum, is all ones. -/
def Verifies (bytes : List UInt8) : Prop := fold (total bytes) = 0xffff

instance (bytes : List UInt8) : Decidable (Verifies bytes) := inferInstanceAs (Decidable (_ = _))

theorem total_append {front : List UInt8} (h : front.length % 2 = 0) (bytes : List UInt8) :
    total (front ++ bytes) = total front + total bytes := by
  induction front using total.induct with
  | case1 => exact (Nat.zero_add _).symm
  | case2 a => cases h
  | case3 a b front ih =>
    have hfront : front.length % 2 = 0 := by
      rw [List.length_cons, List.length_cons] at h
      omega
    rw [List.cons_append, List.cons_append, total, total, ih hfront, Nat.add_assoc, Nat.add_assoc,
      Nat.add_assoc]

theorem total_le (bytes : List UInt8) : total bytes ≤ 0xffff * ((bytes.length + 1) / 2) := by
  induction bytes using total.induct with
  | case1 => exact Nat.le_refl 0
  | case2 a =>
    have := a.toNat_lt
    rw [total, List.length_singleton]
    omega
  | case3 a b bytes ih =>
    have := a.toNat_lt
    have := b.toNat_lt
    rw [total, List.length_cons, List.length_cons]
    omega

/-- What the sum lacks makes it all ones. -/
theorem fold_add_checksum (n : Nat) : fold (n + (0xffff - fold n)) = 0xffff := by
  have hmod := fold_mod n
  have hlt := fold_lt n
  have hzero := fold_eq_zero_iff n
  rw [fold_eq_ffff_iff]
  omega

end OnesComplement
