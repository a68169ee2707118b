import Mathlib.Data.List.Induction
import Mathlib.Data.List.Nodup

/-!
# Runs

A run of a machine is a fold of its step function over a list of inputs. A
condition on single steps holds *along* a run if it holds at every step, of the
state before it and the input (`Along`).

* `foldl_of_along`: the invariant rule, for an invariant that the steps meeting
  a condition keep;
* `foldlM_of_step`: the invariant rule for a run that may give up, with the
  number of steps made so far;
* `along_congr`: two conditions hold along the same runs, if they agree wherever
  an invariant holds that the steps meeting the first one keep;
* `foldl_frame` and `foldl_once`: what no step changes, and what only one step does;
* `foldl_measure`: a quantity that every step raises by a given amount is, at the
  end of a run, raised by the total; the total is zero exactly when every amount
  is (`total_eq_zero_iff`).
-/

namespace Runs

variable {σ α : Type*} {step : σ → α → σ} {P : σ → α → Prop} {J : σ → Prop}

/-- The condition holds at every step of the run. -/
def Along (step : σ → α → σ) (P : σ → α → Prop) : σ → List α → Prop
  | _, [] => True
  | s, a :: as => P s a ∧ Along step P (step s a) as

instance decidableAlong [∀ s a, Decidable (P s a)] :
    ∀ (s : σ) (as : List α), Decidable (Along step P s as)
  | _, [] => .isTrue trivial
  | s, a :: as => @instDecidableAnd _ _ _ (decidableAlong (step s a) as)

theorem along_of_forall (h : ∀ s a, P s a) (s : σ) (as : List α) : Along step P s as := by
  induction as generalizing s with
  | nil => trivial
  | cons a as ih => exact ⟨h s a, ih (step s a)⟩

theorem along_mono {Q : σ → α → Prop} (h : ∀ s a, P s a → Q s a) (s : σ) (as : List α) (hp : Along step P s as) :
    Along step Q s as := by
  induction as generalizing s with
  | nil => trivial
  | cons a as ih => exact ⟨h s a hp.1, ih (step s a) hp.2⟩

theorem along_append (s : σ) (as bs : List α) :
    Along step P s (as ++ bs) ↔ Along step P s as ∧ Along step P (as.foldl step s) bs := by
  induction as generalizing s with
  | nil => simp [Along]
  | cons a as ih => rw [List.cons_append, Along, Along, List.foldl_cons, ih, and_assoc]

theorem foldl_of_along (hstep : ∀ s a, J s → P s a → J (step s a)) {s : σ} {as : List α} (h : J s)
    (hp : Along step P s as) : J (as.foldl step s) := by
  induction as generalizing s with
  | nil => exact h
  | cons a as ih => exact ih (hstep s a h hp.1) hp.2

/-- What no step of the run changes. -/
theorem foldl_frame {β : Type*} {get : σ → β} {as : List α} (hframe : ∀ a ∈ as, ∀ s, get (step s a) = get s) (s : σ) :
    get (as.foldl step s) = get s := by
  induction as generalizing s with
  | nil => rfl
  | cons a as ih =>
    obtain ⟨ha, has⟩ := List.forall_mem_cons.1 hframe
    rw [List.foldl_cons, ih has, ha]

/-- What only one input of the run changes. -/
theorem foldl_once {β : Type*} (get : σ → β) (f : β → β) {a : α} {as : List α} (ha : a ∈ as) (hnodup : as.Nodup)
    (hframe : ∀ b ∈ as, b ≠ a → ∀ s, get (step s b) = get s) (hstep : ∀ s, get (step s a) = f (get s)) (s : σ) :
    get (as.foldl step s) = f (get s) := by
  obtain ⟨before, after, rfl⟩ := List.append_of_mem ha
  have hperm := List.nodup_middle.1 hnodup
  obtain ⟨hnotMem, -⟩ := List.nodup_cons.1 hperm
  rw [List.mem_append, not_or] at hnotMem
  have hbefore : ∀ b ∈ before, ∀ s, get (step s b) = get s := fun b hb =>
    hframe b (List.mem_append_left _ hb) fun heq => hnotMem.1 (heq ▸ hb)
  have hafter : ∀ b ∈ after, ∀ s, get (step s b) = get s := fun b hb =>
    hframe b (List.mem_append_right _ (List.mem_cons_of_mem _ hb)) fun heq => hnotMem.2 (heq ▸ hb)
  rw [List.foldl_append, List.foldl_cons, foldl_frame hafter, hstep, foldl_frame hbefore]

theorem foldlM_of_step {step : σ → α → Option σ} {J : Nat → σ → Prop} {as : List α}
    (hstep : ∀ k s a s', as[k]? = some a → J k s → step s a = some s' → J (k + 1) s') {s s' : σ} (h : J 0 s)
    (hrun : as.foldlM step s = some s') : J as.length s' := by
  induction as generalizing s J with
  | nil =>
    cases hrun
    exact h
  | cons a as ih =>
    rw [List.foldlM_cons] at hrun
    obtain ⟨t, ht, hrun⟩ := Option.bind_eq_some_iff.1 hrun
    exact ih (J := fun k => J (k + 1)) (fun k => hstep (k + 1)) (hstep 0 s a t rfl h ht) hrun

theorem along_congr {Q : σ → α → Prop} (hstep : ∀ s a, J s → P s a → J (step s a))
    (hPQ : ∀ s a, J s → (P s a ↔ Q s a)) {s : σ} (h : J s) (as : List α) :
    Along step P s as ↔ Along step Q s as := by
  induction as generalizing s with
  | nil => rfl
  | cons a as ih =>
    rw [Along, Along, ← hPQ s a h]
    exact and_congr_right fun hp => ih (hstep s a h hp)

/-- The total of an amount over the steps of a run. -/
def total (step : σ → α → σ) (amount : σ → α → Nat) : σ → List α → Nat
  | _, [] => 0
  | s, a :: as => amount s a + total step amount (step s a) as

variable {amount : σ → α → Nat} {m : σ → Nat}

/-- A quantity raised by every step, as long as the invariant holds. -/
theorem foldl_measure (hJ : ∀ s a, J s → J (step s a))
    (hm : ∀ s a, J s → m (step s a) = m s + amount s a) {s : σ} (h : J s) (as : List α) :
    m (as.foldl step s) = m s + total step amount s as := by
  induction as generalizing s with
  | nil => rfl
  | cons a as ih => rw [List.foldl_cons, ih (hJ s a h), hm s a h, total, Nat.add_assoc]

theorem total_eq_zero_iff {s : σ} {as : List α} :
    total step amount s as = 0 ↔ Along step (fun s a => amount s a = 0) s as := by
  induction as generalizing s with
  | nil => simp [total, Along]
  | cons a as ih => rw [total, Nat.add_eq_zero_iff, ih, Along]

end Runs
