import Mathlib.Data.List.Nodup
import Mathlib.Data.List.Flatten
import Mathlib.Data.List.Basic

/-!
# Chained hash tables

A table is a list of chains. An element `a` has the key `keyOf a` and lives in
the chain number `slot (keyOf a)`; the keys of a well-formed table are pairwise
distinct (`Wf`).

A pointer to an element is its key: an operation that follows one changes the
element it points to and no other. The *focus* lemmas say so on the flattened
table, the list of all the elements in scan order, which is where invariants
are stated:

* `lookup_focus`: a found element splits the elements in two around it,
  `update` replaces it there and `remove` takes it out;
* `push_focus`: `push` adds an element somewhere between two of them.

A *sweep* visits every element in scan order, threading a state and keeping,
changing or dropping each; `sweep_induction` is its invariant rule.
-/

namespace Chains

variable {κ α σ : Type*} [DecidableEq κ] (keyOf : α → κ) (slot : κ → Nat)

/-- The first element of the key's chain that has this key. -/
def lookup (t : List (List α)) (k : κ) : Option α :=
  (t.getD (slot k) []).find? fun a => decide (keyOf a = k)

/-- Overwrite the element with this key. -/
def update (t : List (List α)) (k : κ) (a : α) : List (List α) :=
  t.modify (slot k) (List.map fun b => if keyOf b = k then a else b)

/-- Unlink the element with this key. -/
def remove (t : List (List α)) (k : κ) : List (List α) :=
  t.modify (slot k) (List.filter fun b => decide (keyOf b ≠ k))

/-- Put an element at the head of its chain. -/
def push (t : List (List α)) (a : α) : List (List α) :=
  t.modify (slot (keyOf a)) (a :: ·)

/-- Every element is in the chain of its key, and no two have the same key. -/
structure Wf (t : List (List α)) : Prop where
  home : ∀ i c, t[i]? = some c → ∀ a ∈ c, slot (keyOf a) = i
  nodup : (t.flatten.map keyOf).Nodup

variable {keyOf slot}

/-! ## Chains and the flattened table -/

theorem exists_split_of_getElem? {t : List (List α)} {i : Nat} {c : List α} (h : t[i]? = some c) :
    ∃ p q, t = p ++ c :: q ∧ p.length = i := by
  obtain ⟨hi, rfl⟩ := List.getElem?_eq_some_iff.1 h
  refine ⟨t.take i, t.drop (i + 1), ?_, List.length_take_of_le (Nat.le_of_lt hi)⟩
  rw [← List.drop_eq_getElem_cons hi, List.take_append_drop]

theorem modify_append_length (p q : List (List α)) (c : List α) (f : List α → List α) :
    (p ++ c :: q).modify p.length f = p ++ f c :: q := by
  induction p with
  | nil => rfl
  | cons a p ih => simpa using ih

omit [DecidableEq κ] in
/-- Changing a chain keeps the elements where they belong, if its new elements
    belong to it. -/
theorem home_modify {t : List (List α)} {i : Nat} {f : List α → List α}
    (h : ∀ i c, t[i]? = some c → ∀ a ∈ c, slot (keyOf a) = i)
    (hf : ∀ c, t[i]? = some c → ∀ a ∈ f c, slot (keyOf a) = i) :
    ∀ j c, (t.modify i f)[j]? = some c → ∀ a ∈ c, slot (keyOf a) = j := by
  intro j c hc a ha
  by_cases hij : i = j
  · subst hij
    rw [List.getElem?_modify_eq] at hc
    obtain ⟨c', hc', rfl⟩ := Option.map_eq_some_iff.1 hc
    exact hf c' hc' a ha
  · rw [List.getElem?_modify_ne f t hij] at hc
    exact h j c hc a ha

theorem map_of_forall_ne {l : List α} {k : κ} {a : α} (h : ∀ b ∈ l, keyOf b ≠ k) :
    l.map (fun b => if keyOf b = k then a else b) = l := by
  conv_rhs => rw [← List.map_id l]
  exact List.map_congr_left fun b hb => if_neg (h b hb)

omit [DecidableEq κ] in
theorem mem_focus {l r : List α} {a b : α} : b ∈ l ++ a :: r ↔ b = a ∨ b ∈ l ++ r := by
  rw [List.mem_append, List.mem_cons, or_left_comm, ← List.mem_append]

/-! ## Lookup -/

theorem keyOf_of_lookup {t : List (List α)} {k : κ} {a : α} (h : lookup keyOf slot t k = some a) :
    keyOf a = k := by
  simpa using List.find?_some h

/-- A found element splits the elements in two around it; it is the only one
    with its key, so that is where `update` and `remove` act. -/
theorem lookup_focus {t : List (List α)} {k : κ} {a : α} (hwf : Wf keyOf slot t)
    (h : lookup keyOf slot t k = some a) :
    ∃ l r, t.flatten = l ++ a :: r ∧ (∀ b ∈ l ++ r, keyOf b ≠ k) ∧
      (∀ a', (update keyOf slot t k a').flatten = l ++ a' :: r) ∧
      (remove keyOf slot t k).flatten = l ++ r := by
  have hk := keyOf_of_lookup h
  cases hc : t[slot k]? with
  | none => simp [lookup, List.getD, hc] at h
  | some c =>
    rw [lookup, List.getD, hc, Option.getD_some] at h
    obtain ⟨_, x, y, rfl, _⟩ := List.find?_eq_some_iff_append.1 h
    obtain ⟨p, q, rfl, hp⟩ := exists_split_of_getElem? hc
    have hflat : (p ++ (x ++ a :: y) :: q).flatten = (p.flatten ++ x) ++ a :: (y ++ q.flatten) := by
      simp
    have hne : ∀ b ∈ (p.flatten ++ x) ++ (y ++ q.flatten), keyOf b ≠ k := by
      have hnd := hwf.nodup
      rw [hflat, List.map_append, List.map_cons, List.nodup_middle, List.nodup_cons,
        ← List.map_append] at hnd
      intro b hb e
      exact hnd.1 (hk ▸ e ▸ List.mem_map_of_mem hb)
    have hx : ∀ b ∈ x, keyOf b ≠ k := fun b hb => hne b (by simp [hb])
    have hy : ∀ b ∈ y, keyOf b ≠ k := fun b hb => hne b (by simp [hb])
    refine ⟨_, _, hflat, hne, fun a' => ?_, ?_⟩
    · rw [update, ← hp, modify_append_length, List.map_append, List.map_cons, if_pos hk,
        map_of_forall_ne hx, map_of_forall_ne hy]
      simp
    · rw [remove, ← hp, modify_append_length, List.filter_append, List.filter_cons_of_neg (by simp [hk]),
        List.filter_eq_self.2 (by simpa using hx), List.filter_eq_self.2 (by simpa using hy)]
      simp

/-- Without a match, no element of the table has the key. -/
theorem forall_ne_of_lookup_eq_none {t : List (List α)} {k : κ}
    (home : ∀ i c, t[i]? = some c → ∀ a ∈ c, slot (keyOf a) = i)
    (h : lookup keyOf slot t k = none) : ∀ a ∈ t.flatten, keyOf a ≠ k := by
  rintro a ha rfl
  obtain ⟨c, hc, hac⟩ := List.mem_flatten.1 ha
  obtain ⟨i, hi⟩ := List.mem_iff_getElem?.1 hc
  have := home i c hi a hac
  subst this
  rw [lookup, List.getD, hi, Option.getD_some, List.find?_eq_none] at h
  exact h a hac (by simp)

/-- A listed element is found under its key. -/
theorem lookup_of_mem {t : List (List α)} (hwf : Wf keyOf slot t) {a : α} (ha : a ∈ t.flatten) :
    lookup keyOf slot t (keyOf a) = some a := by
  cases h : lookup keyOf slot t (keyOf a) with
  | none => exact absurd rfl (forall_ne_of_lookup_eq_none hwf.home h a ha)
  | some b =>
    obtain ⟨l, r, hflat, hne, _⟩ := lookup_focus hwf h
    rw [hflat, List.mem_append, List.mem_cons] at ha
    rcases ha with ha | rfl | ha
    · exact absurd rfl (hne a (List.mem_append_left _ ha))
    · rfl
    · exact absurd rfl (hne a (List.mem_append_right _ ha))

omit [DecidableEq κ] in
/-- `push` adds one element to the table. -/
theorem push_focus {t : List (List α)} {a : α} (h : slot (keyOf a) < t.length) :
    ∃ l r, t.flatten = l ++ r ∧ (push keyOf slot t a).flatten = l ++ a :: r := by
  obtain ⟨p, q, ht, hp⟩ := exists_split_of_getElem? (List.getElem?_eq_getElem h)
  generalize t[slot (keyOf a)] = c at ht
  subst ht
  refine ⟨p.flatten, c ++ q.flatten, by simp, ?_⟩
  rw [push, ← hp, modify_append_length]
  simp

/-! ## Well-formedness -/

omit [DecidableEq κ] in
theorem wf_replicate_nil (n : Nat) : Wf keyOf slot (List.replicate n ([] : List α)) := by
  refine ⟨fun i c hc a ha => ?_, by simp⟩
  rw [List.getElem?_replicate] at hc
  split_ifs at hc
  obtain rfl := Option.some.inj hc
  exact absurd ha List.not_mem_nil

theorem Wf.update {t : List (List α)} (hwf : Wf keyOf slot t) {k : κ} {a a' : α}
    (h : lookup keyOf slot t k = some a) (hk : keyOf a' = k) :
    Wf keyOf slot (update keyOf slot t k a') := by
  obtain ⟨l, r, hflat, _, hup, _⟩ := lookup_focus hwf h
  refine ⟨home_modify hwf.home fun c hc b hb => ?_, ?_⟩
  · obtain ⟨b', hb', rfl⟩ := List.mem_map.1 hb
    split_ifs
    · rw [hk]
    · exact hwf.home _ c hc b' hb'
  · have hnd := hwf.nodup
    rw [hflat, List.map_append, List.map_cons, keyOf_of_lookup h] at hnd
    rwa [hup, List.map_append, List.map_cons, hk]

theorem Wf.remove {t : List (List α)} (hwf : Wf keyOf slot t) {k : κ} {a : α}
    (h : lookup keyOf slot t k = some a) : Wf keyOf slot (remove keyOf slot t k) := by
  obtain ⟨l, r, hflat, _, _, hrem⟩ := lookup_focus hwf h
  refine ⟨home_modify hwf.home fun c hc b hb => hwf.home _ c hc b (List.mem_of_mem_filter hb), ?_⟩
  have hnd := hwf.nodup
  rw [hflat, List.map_append, List.map_cons, List.nodup_middle, List.nodup_cons] at hnd
  rw [hrem, List.map_append]
  exact hnd.2

omit [DecidableEq κ] in
theorem Wf.push {t : List (List α)} (hwf : Wf keyOf slot t) {a : α}
    (hlt : slot (keyOf a) < t.length) (hnew : ∀ b ∈ t.flatten, keyOf b ≠ keyOf a) :
    Wf keyOf slot (push keyOf slot t a) := by
  obtain ⟨l, r, hflat, hpush⟩ := push_focus hlt
  refine ⟨home_modify hwf.home fun c hc b hb => ?_, ?_⟩
  · rcases List.mem_cons.1 hb with rfl | hb
    exacts [rfl, hwf.home _ c hc b hb]
  · have hnd := hwf.nodup
    rw [hflat, List.map_append] at hnd
    rw [hpush, List.map_append, List.map_cons, List.nodup_middle, List.nodup_cons]
    refine ⟨fun hm => ?_, hnd⟩
    rw [← List.map_append, ← hflat, List.mem_map] at hm
    obtain ⟨b, hb, e⟩ := hm
    exact hnew b hb e

@[simp]
theorem length_update (t : List (List α)) (k : κ) (a : α) :
    (update keyOf slot t k a).length = t.length := List.length_modify ..

@[simp]
theorem length_remove (t : List (List α)) (k : κ) :
    (remove keyOf slot t k).length = t.length := List.length_modify ..

omit [DecidableEq κ] in
@[simp]
theorem length_push (t : List (List α)) (a : α) :
    (push keyOf slot t a).length = t.length := List.length_modify ..

/-! ## Sweeps -/

/-- Visit a chain in order, threading a state; each element is kept, changed
    or dropped. -/
def sweepChain (f : σ → α → σ × Option α) : σ → List α → σ × List α
  | s, [] => (s, [])
  | s, a :: c =>
    let v := f s a
    let w := sweepChain f v.1 c
    (w.1, v.2.toList ++ w.2)

/-- Visit all the chains of a table in order. -/
def sweep (f : σ → α → σ × Option α) : σ → List (List α) → σ × List (List α)
  | s, [] => (s, [])
  | s, c :: t =>
    let v := sweepChain f s c
    let w := sweep f v.1 t
    (w.1, v.2 :: w.2)

variable {f : σ → α → σ × Option α}

theorem sweepChain_append (s : σ) (c d : List α) :
    sweepChain f s (c ++ d) =
      ((sweepChain f (sweepChain f s c).1 d).1,
        (sweepChain f s c).2 ++ (sweepChain f (sweepChain f s c).1 d).2) := by
  induction c generalizing s with
  | nil => rfl
  | cons a c ih => simp [sweepChain, ih]

/-- Sweeping a table is sweeping the list of its elements. -/
theorem sweep_flatten (s : σ) (t : List (List α)) :
    ((sweep f s t).1, (sweep f s t).2.flatten) = sweepChain f s t.flatten := by
  induction t generalizing s with
  | nil => rfl
  | cons c t ih =>
    rw [List.flatten_cons, sweepChain_append, ← ih]
    rfl

theorem sweepChain_induction {J : σ → List α → List α → Prop}
    (step : ∀ s done a todo, J s done (a :: todo) → J (f s a).1 (done ++ (f s a).2.toList) todo)
    {s : σ} {done c : List α} (h : J s done c) :
    J (sweepChain f s c).1 (done ++ (sweepChain f s c).2) [] := by
  induction c generalizing s done with
  | nil => simpa [sweepChain] using h
  | cons a c ih => simpa [sweepChain] using ih (step s done a c h)

omit [DecidableEq κ] in
theorem sweepChain_keys (hkey : ∀ s a a', (f s a).2 = some a' → keyOf a' = keyOf a) (s : σ)
    (c : List α) : ((sweepChain f s c).2.map keyOf).Sublist (c.map keyOf) := by
  induction c generalizing s with
  | nil => exact List.Sublist.refl _
  | cons a c ih =>
    rw [sweepChain, List.map_append, List.map_cons]
    cases h : (f s a).2 with
    | none => exact (ih _).cons _
    | some a' => simpa [hkey s a a' h] using ih _

@[simp]
theorem length_sweep (s : σ) (t : List (List α)) : (sweep f s t).2.length = t.length := by
  induction t generalizing s with
  | nil => rfl
  | cons c t ih => simp [sweep, ih]

theorem getElem?_sweep {s : σ} {t : List (List α)} {i : Nat} {c : List α}
    (h : (sweep f s t).2[i]? = some c) : ∃ s' c', t[i]? = some c' ∧ c = (sweepChain f s' c').2 := by
  induction t generalizing s i with
  | nil => simp [sweep] at h
  | cons d t ih =>
    cases i with
    | zero => exact ⟨s, d, rfl, by simpa [sweep] using h.symm⟩
    | succ i => simpa using ih (by simpa [sweep] using h)

omit [DecidableEq κ] in
/-- A sweep that changes no key keeps the table well-formed. -/
theorem Wf.sweep {t : List (List α)} (hwf : Wf keyOf slot t)
    (hkey : ∀ s a a', (f s a).2 = some a' → keyOf a' = keyOf a) (s : σ) :
    Wf keyOf slot (sweep f s t).2 := by
  refine ⟨fun i c hc a ha => ?_, ?_⟩
  · obtain ⟨s', c', hc', rfl⟩ := getElem?_sweep hc
    have := (sweepChain_keys hkey s' c').subset (List.mem_map_of_mem ha)
    obtain ⟨b, hb, e⟩ := List.mem_map.1 this
    rw [← e]
    exact hwf.home i c' hc' b hb
  · have := sweepChain_keys hkey s t.flatten
    rw [← sweep_flatten] at this
    exact this.nodup hwf.nodup

end Chains
