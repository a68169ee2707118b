import Mathlib.Data.List.Basic

/-!
# Sweeps

A sweep visits the elements of a list one after the other, replaces each and
passes a state on from one visit to the next (`sweep`). A visit knows the index
of its element.

`sweep_inv` is the rule for a loop invariant: it is a relation between the
elements that were visited, those that were not, and the state. `sweep_rel` is the
rule for what a visit does to its own element.
-/

namespace Sweep

variable {α σ : Type*} {f : Nat → α → σ → α × σ}

/-- Visit the elements of a list, from the index `i` on. -/
def sweep (f : Nat → α → σ → α × σ) : (i : Nat) → List α → σ → List α × σ
  | _, [], s => ([], s)
  | i, a :: l, s =>
    let r := f i a s
    let rest := sweep f (i + 1) l r.2
    (r.1 :: rest.1, rest.2)

/-- A relation that every visit keeps holds at the end, if it holds at the start. -/
theorem sweep_inv {J : List α → List α → σ → Prop}
    (hf : ∀ done a rest s, J done (a :: rest) s →
      J (done ++ [(f done.length a s).1]) rest (f done.length a s).2)
    {l : List α} {s : σ} (h : J [] l s) : J (sweep f 0 l s).1 [] (sweep f 0 l s).2 := by
  suffices ∀ (l done : List α) (s : σ), J done l s →
      J (done ++ (sweep f done.length l s).1) [] (sweep f done.length l s).2 from this l [] s h
  intro l
  induction l with
  | nil =>
    intro done s h
    rw [sweep, List.append_nil]
    exact h
  | cons a l ih =>
    intro done s h
    have hvisit := ih _ _ (hf done a l s h)
    rw [List.length_append, List.length_singleton, List.append_assoc, List.singleton_append] at hvisit
    exact hvisit

/-- The rule for an invariant of the list as a whole, with the visited element
    in focus; `P` is what is known of the elements before the sweep. -/
theorem sweep_focus_of {P : Nat → α → Prop} {J : List α → σ → Prop}
    (hf : ∀ l a r s, P l.length a → J (l ++ a :: r) s →
      J (l ++ (f l.length a s).1 :: r) (f l.length a s).2)
    {l : List α} {s : σ} (hP : ∀ i a, l[i]? = some a → P i a) (h : J l s) :
    J (sweep f 0 l s).1 (sweep f 0 l s).2 := by
  have := sweep_inv (f := f)
    (J := fun done rest s => J (done ++ rest) s ∧ ∀ i a, rest[i]? = some a → P (done.length + i) a)
    ?_ (l := l) ⟨h, fun i a ha => ?_⟩
  · rw [List.append_nil] at this
    exact this.1
  · rintro done a rest s ⟨h, hrest⟩
    refine ⟨?_, fun i b hb => ?_⟩
    · rw [List.append_assoc, List.singleton_append]
      exact hf done a rest s (hrest 0 a rfl) h
    · have := hrest (i + 1) b hb
      rwa [List.length_append, List.length_singleton, Nat.add_assoc, Nat.add_comm 1 i]
  · rw [List.length_nil, Nat.zero_add]
    exact hP i a ha

/-- What the visits do not change in the elements is not changed in the list. -/
theorem map_sweep {β : Type*} {g : α → β} (hf : ∀ i a s, g (f i a s).1 = g a) (i : Nat) (l : List α) (s : σ) :
    (sweep f i l s).1.map g = l.map g := by
  induction l generalizing i s with
  | nil => rfl
  | cons a l ih => rw [sweep, List.map_cons, List.map_cons, hf, ih]

/-- What every visit does to its element, the sweep does to each of them; `I` is what
    the visits keep of the state. -/
theorem sweep_rel {R : Nat → α → α → Prop} {I : σ → Prop} {i : Nat} {l : List α} {s : σ}
    (hf : ∀ i, ∀ a ∈ l, ∀ s, I s → R i a (f i a s).1 ∧ I (f i a s).2) (h : I s) :
    (sweep f i l s).1.length = l.length ∧ I (sweep f i l s).2 ∧
      ∀ j a b, l[j]? = some a → (sweep f i l s).1[j]? = some b → R (i + j) a b := by
  induction l generalizing i s with
  | nil => exact ⟨rfl, h, fun j a b ha => absurd ha (by simp)⟩
  | cons a l ih =>
    obtain ⟨hvisit, hnext⟩ := hf i a List.mem_cons_self s h
    obtain ⟨hlen, hI, hrest⟩ := ih (i := i + 1) (fun i a ha => hf i a (List.mem_cons_of_mem _ ha)) hnext
    refine ⟨congrArg (· + 1) hlen, hI, fun j x y hx hy => ?_⟩
    cases j with
    | zero =>
      cases hx
      cases hy
      exact hvisit
    | succ j =>
      rw [Nat.add_comm j 1, ← Nat.add_assoc]
      exact hrest j x y hx hy

theorem sweep_focus {J : List α → σ → Prop}
    (hf : ∀ l a r s, J (l ++ a :: r) s →
      J (l ++ (f l.length a s).1 :: r) (f l.length a s).2)
    {l : List α} {s : σ} (h : J l s) : J (sweep f 0 l s).1 (sweep f 0 l s).2 :=
  sweep_focus_of (P := fun _ _ => True) (fun l a r s _ => hf l a r s) (fun _ _ _ => trivial) h

end Sweep
