import Mathlib.Data.Finset.Card
import Mathlib.Order.Lattice.Nat
import Mathlib.Order.WithBot
import Mqvpn.Lib.Runs

/-!
# Limits that are told to a sender

A machine refuses inputs that are too large for it, and tells the sender of a refused
input a limit. A sender that listens keeps within the smallest limit it was told
(`Obeys`).

Whatever the machine does in between, such a sender is not refused twice for the same
threshold: if a refusal is about a threshold of a finite set, and the limit told is not
above it, then there are no more refusals than thresholds (`refusals_le_card`).
-/

namespace Limits

variable {σ α : Type*} (step : σ → α → σ) (mine : α → Bool) (size : α → ℕ) (refused : σ → α → Bool)
  (told : σ → α → WithTop ℕ)

/-- The sender of the inputs that are `mine` keeps within the smallest limit it was told,
    which is `lim` at the start; `⊤` is no limit. -/
def Obeys : WithTop ℕ → σ → List α → Prop
  | _, _, [] => True
  | lim, s, a :: as =>
    (mine a = true → WithTop.some (size a) ≤ lim) ∧ Obeys (if mine a then min lim (told s a) else lim) (step s a) as

instance decidableObeys : ∀ (lim : WithTop ℕ) (s : σ) (as : List α), Decidable (Obeys step mine size told lim s as)
  | _, _, [] => .isTrue trivial
  | lim, s, a :: as => @instDecidableAnd _ _ inferInstance
      (decidableObeys (if mine a then min lim (told s a) else lim) (step s a) as)

/-- The refusals of the inputs that are `mine`. -/
def refusals : σ → List α → ℕ := Runs.total step fun s a => if mine a && refused s a then 1 else 0

/-- The refusals of the inputs that are `mine` are about thresholds of the set, and the limit
    that is told is within the threshold. -/
def Within (T : Finset ℕ) (s : σ) (a : α) : Prop :=
  mine a = true → refused s a = true → ∃ t ∈ T, told s a ≤ WithTop.some t ∧ t < size a

variable {step mine size refused told} {T : Finset ℕ}

/-- The thresholds that the sender may still exceed. -/
def ahead (T : Finset ℕ) (lim : WithTop ℕ) : Finset ℕ := T.filter fun t => WithTop.some t < lim

theorem ahead_mono {lim lim' : WithTop ℕ} (h : lim' ≤ lim) : ahead T lim' ⊆ ahead T lim := by
  intro t ht
  obtain ⟨hT, hlt⟩ := Finset.mem_filter.1 ht
  exact Finset.mem_filter.2 ⟨hT, hlt.trans_le h⟩

/-- After a refusal, its threshold is behind the sender. -/
theorem card_ahead_lt {lim l : WithTop ℕ} {t n : ℕ} (hT : t ∈ T) (hn : WithTop.some n ≤ lim) (hl : l ≤ WithTop.some t) (ht : t < n) :
    (ahead T (min lim l)).card < (ahead T lim).card := by
  refine Finset.card_lt_card (Finset.ssubset_iff_subset_ne.2 ⟨ahead_mono (min_le_left _ _), fun heq => ?_⟩)
  have hmem : t ∈ ahead T lim := Finset.mem_filter.2 ⟨hT, (WithTop.coe_lt_coe.2 ht).trans_le hn⟩
  rw [← heq] at hmem
  exact absurd ((min_le_right lim l).trans hl) (Finset.mem_filter.1 hmem).2.not_ge

theorem refusals_le_ahead {lim : WithTop ℕ} {s : σ} {as : List α}
    (hwithin : Runs.Along step (Within mine size refused told T) s as) (h : Obeys step mine size told lim s as) :
    refusals step mine refused s as ≤ (ahead T lim).card := by
  induction as generalizing lim s with
  | nil => exact Nat.zero_le _
  | cons a as ih =>
    have hrest := ih hwithin.2 h.2
    rw [refusals, Runs.total]
    rw [refusals] at hrest
    cases hmine : mine a with
    | false =>
      rw [hmine] at hrest
      rw [Bool.false_and, if_neg Bool.false_ne_true, Nat.zero_add]
      exact hrest
    | true =>
      rw [hmine, if_pos rfl] at hrest
      cases hrefused : refused s a with
      | false =>
        rw [Bool.and_false, if_neg Bool.false_ne_true, Nat.zero_add]
        exact hrest.trans (Finset.card_le_card (ahead_mono (min_le_left _ _)))
      | true =>
        obtain ⟨t, hT, hl, ht⟩ := hwithin.1 hmine hrefused
        have hlt := card_ahead_lt hT (h.1 hmine) hl ht
        rw [Bool.and_true, if_pos rfl]
        omega

/-- A sender that listens is refused at most once for every threshold. -/
theorem refusals_le_card {s : σ} {as : List α} (hwithin : Runs.Along step (Within mine size refused told T) s as)
    (h : Obeys step mine size told ⊤ s as) : refusals step mine refused s as ≤ T.card :=
  (refusals_le_ahead hwithin h).trans (Finset.card_filter_le _ _)

end Limits
