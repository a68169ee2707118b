import Mathlib.Logic.Relation
import Mathlib.Order.RelClasses

/-!
# Loops

A loop is the relation of the states before and after one of its rounds; where a
round depends on what it meets outside, a state is related to several others.

* `Ends`: there is no endless run of the loop, whatever the rounds meet;
* `ends_of_measure`: the rule for a quantity that every round brings down, as long as
  an invariant holds;
* `invariant_of_reaches`: the invariant rule;
* `exists_round_of_change`: what was so at the start and is not so now was changed
  by one of the rounds.

A loop that computes may also be written as a function of fuel, which gives nothing if
the fuel does not last. What it yields with enough fuel is unique (`Yields.unique`) if
more fuel changes no result (`Stable`), and the fuel of its parts can be left out of
account (`yields_bind`).
-/

namespace Loops

variable {σ : Type*} {next : σ → σ → Prop} {J P : σ → Prop} {s t : σ}

/-- Whatever its rounds do, the loop ends. -/
def Ends (next : σ → σ → Prop) (s : σ) : Prop := Acc (fun t s => next s t) s

theorem ends_of_measure {β : Type*} [LT β] [WellFoundedLT β] (m : σ → β)
    (hround : ∀ s t, J s → next s t → J t ∧ m t < m s) (h : J s) : Ends next s := by
  have hall (b : β) : ∀ s, J s → m s = b → Ends next s := by
    induction b using WellFoundedLT.induction with
    | ind b ih =>
      intro s hs hb
      refine ⟨s, fun t ht => ?_⟩
      obtain ⟨hJ, hlt⟩ := hround s t hs ht
      exact ih (m t) (hb ▸ hlt) t hJ rfl
  exact hall (m s) s h rfl

theorem invariant_of_reaches (hround : ∀ s t, J s → next s t → J t) (h : J s)
    (hreach : Relation.ReflTransGen next s t) : J t := by
  induction hreach with
  | refl => exact h
  | tail _ ht ih => exact hround _ _ ih ht

theorem exists_round_of_change (hreach : Relation.ReflTransGen next s t) (hs : P s) (ht : ¬P t) :
    ∃ u v, Relation.ReflTransGen next s u ∧ next u v ∧ P u ∧ ¬P v := by
  induction hreach with
  | refl => exact absurd hs ht
  | @tail u v hreach hround ih =>
    by_cases hu : P u
    · exact ⟨u, v, hreach, hround, hu, ht⟩
    · exact ih hu

/-! ## Fuel -/

section Fuel

variable {α β : Type*} {f g : Nat → Option α} {r : α}

/-- More fuel does not change a result. -/
def Stable (f : Nat → Option α) : Prop := ∀ n r, f n = some r → f (n + 1) = some r

/-- With enough fuel this is the result. -/
def Yields (f : Nat → Option α) (r : α) : Prop := ∃ n, f n = some r

theorem Stable.mono (h : Stable f) {n m : Nat} (hle : n ≤ m) (hr : f n = some r) : f m = some r := by
  induction hle with
  | refl => exact hr
  | step _ ih => exact h _ _ ih

theorem Yields.unique (hf : Stable f) {r' : α} (h : Yields f r) (h' : Yields f r') : r = r' := by
  obtain ⟨n, hn⟩ := h
  obtain ⟨m, hm⟩ := h'
  have hn := hf.mono (Nat.le_max_left n m) hn
  have hm := hf.mono (Nat.le_max_right n m) hm
  exact Option.some.inj (hn.symm.trans hm)

theorem stable_some (r : α) : Stable fun _ => some r := fun _ _ h => h

theorem yields_some {r' : α} : Yields (fun _ => some r') r ↔ r = r' :=
  ⟨fun ⟨_, h⟩ => (Option.some.inj h).symm, fun h => ⟨0, congrArg some h.symm⟩⟩

theorem Stable.bind (hf : Stable f) {k : α → Nat → Option β} (hk : ∀ a, Stable (k a)) :
    Stable fun n => (f n).bind fun a => k a n := by
  intro n r hr
  obtain ⟨a, ha, hr⟩ := Option.bind_eq_some_iff.1 hr
  exact Option.bind_eq_some_iff.2 ⟨a, hf n a ha, hk a n r hr⟩

theorem Stable.map (hf : Stable f) (k : α → β) : Stable fun n => (f n).map k := by
  intro n r hr
  obtain ⟨a, ha, rfl⟩ := Option.map_eq_some_iff.1 hr
  exact Option.map_eq_some_iff.2 ⟨a, hf n a ha, rfl⟩

/-- The parts may be given different amounts of fuel. -/
theorem yields_bind (hf : Stable f) {k : α → Nat → Option β} (hk : ∀ a, Stable (k a)) {r : β} :
    Yields (fun n => (f n).bind fun a => k a n) r ↔ ∃ a, Yields f a ∧ Yields (k a) r := by
  constructor
  · rintro ⟨n, hn⟩
    obtain ⟨a, ha, hr⟩ := Option.bind_eq_some_iff.1 hn
    exact ⟨a, ⟨n, ha⟩, ⟨n, hr⟩⟩
  · rintro ⟨a, ⟨n, hn⟩, ⟨m, hm⟩⟩
    have hn := hf.mono (Nat.le_max_left n m) hn
    have hm := (hk a).mono (Nat.le_max_right n m) hm
    exact ⟨max n m, Option.bind_eq_some_iff.2 ⟨a, hn, hm⟩⟩

theorem yields_map {k : α → β} {r : β} : Yields (fun n => (f n).map k) r ↔ ∃ a, Yields f a ∧ k a = r := by
  constructor
  · rintro ⟨n, hn⟩
    obtain ⟨a, ha, hr⟩ := Option.map_eq_some_iff.1 hn
    exact ⟨a, ⟨n, ha⟩, hr⟩
  · rintro ⟨a, ⟨n, hn⟩, hr⟩
    exact ⟨n, Option.map_eq_some_iff.2 ⟨a, hn, hr⟩⟩

/-- A round of the loop takes one unit of fuel. -/
theorem yields_succ (hzero : f 0 = none) (hsucc : ∀ n, f (n + 1) = g n) : Yields f r ↔ Yields g r := by
  constructor
  · rintro ⟨n, hn⟩
    cases n with
    | zero => exact absurd (hzero.symm.trans hn) (Option.some_ne_none r).symm
    | succ n => exact ⟨n, (hsucc n).symm.trans hn⟩
  · rintro ⟨n, hn⟩
    exact ⟨n + 1, (hsucc n).trans hn⟩

end Fuel

end Loops
