import Mathlib.Data.List.Basic

/-!
# Rule lists with a first match

A filter goes through a list of rules: the first rule that hits a packet decides
about it, and without one a policy does (`verdict`). Where all the rules that hit
a packet say the same, their order does not matter (`verdict_eq_of_forall`); exceptions to a
rule stand before it (`verdict_append_cons_eq_iff`). A test
that lets more rules hit gives another first rule exactly if a rule that only it
lets hit comes first (`find?_eq_find?_iff`).

Rules are deleted one at a time, the first equal one each, by a command that may
fail; a loop deletes them until it does (`eraseLoop`). With commands that only
fail for want of a rule, no equal rule is left (`eraseLoop_eq_filter`).
-/

namespace FirstMatch

variable {ρ π τ : Type*}

/-- The target of the first rule that hits. -/
def verdict (hits : ρ → π → Bool) (target : ρ → τ) (policy : τ) (rules : List ρ) (x : π) : τ :=
  ((rules.find? (hits · x)).map target).getD policy

section Verdict

variable {hits : ρ → π → Bool} {target : ρ → τ} {policy t : τ} {rules : List ρ} {x : π}

theorem verdict_nil (policy : τ) (x : π) : verdict hits target policy [] x = policy := rfl

theorem verdict_cons (r : ρ) (rules : List ρ) (x : π) :
    verdict hits target policy (r :: rules) x =
      if hits r x then target r else verdict hits target policy rules x := by
  rw [verdict, List.find?_cons]
  cases hits r x <;> rfl

theorem verdict_append_of_forall (l : List ρ) (h : ∀ r ∈ l, hits r x = false) (rules : List ρ) :
    verdict hits target policy (l ++ rules) x = verdict hits target policy rules x := by
  induction l with
  | nil => rfl
  | cons r l ih =>
    obtain ⟨hr, hl⟩ := List.forall_mem_cons.1 h
    rw [List.cons_append, verdict_cons, hr]
    exact ih hl

/-- Rules that say the same, before one that hits and says otherwise: the packet gets
    their target exactly if one of them hits. -/
theorem verdict_append_cons_eq_iff {l : List ρ} {r : ρ} (hl : ∀ s ∈ l, target s = t) (hr : hits r x = true)
    (ht : target r ≠ t) (rules : List ρ) :
    verdict hits target policy (l ++ r :: rules) x = t ↔ ∃ s ∈ l, hits s x = true := by
  induction l with
  | nil =>
    rw [List.nil_append, verdict_cons, if_pos hr]
    exact iff_of_false ht fun ⟨_, hs, _⟩ => absurd hs List.not_mem_nil
  | cons s l ih =>
    obtain ⟨hs, hl⟩ := List.forall_mem_cons.1 hl
    rw [List.cons_append, verdict_cons]
    by_cases hhit : hits s x = true
    · rw [if_pos hhit]
      exact iff_of_true hs ⟨s, List.mem_cons_self, hhit⟩
    · rw [if_neg hhit, ih hl, List.exists_mem_cons_iff, or_iff_right hhit]

/-- Some rule hits, and all that do agree. -/
theorem verdict_eq_of_forall (h : ∃ r ∈ rules, hits r x = true)
    (ht : ∀ r ∈ rules, hits r x = true → target r = t) : verdict hits target policy rules x = t := by
  have hfound : (rules.find? (hits · x)).isSome = true := by
    rw [List.find?_isSome]
    exact h
  obtain ⟨r, hr⟩ := Option.isSome_iff_exists.1 hfound
  have hhit : hits r x = true := List.find?_some (p := (hits · x)) hr
  rw [verdict, hr]
  exact ht r (List.mem_of_find?_eq_some hr) hhit

/-- Of two tests, one of which lets more rules hit, the first rules are the same. -/
theorem find?_eq_find?_iff {p q : ρ → Bool} (h : ∀ r, p r = true → q r = true) (rules : List ρ) :
    rules.find? p = rules.find? q ↔
      ¬∃ l r l', rules = l ++ r :: l' ∧ q r = true ∧ p r = false ∧ ∀ x ∈ l, p x = false := by
  induction rules with
  | nil =>
    refine iff_of_true rfl ?_
    rintro ⟨l, r, l', heq, -⟩
    cases l <;> cases heq
  | cons r rules ih =>
    cases hp : p r with
    | true =>
      rw [List.find?_cons_of_pos hp, List.find?_cons_of_pos (h r hp)]
      refine iff_of_true rfl ?_
      rintro ⟨l, x, l', heq, -, hx, hl⟩
      cases l with
      | nil =>
        cases heq
        exact Bool.false_ne_true (hx.symm.trans hp)
      | cons y l =>
        cases heq
        exact Bool.false_ne_true ((hl r List.mem_cons_self).symm.trans hp)
    | false =>
      have hneg : ¬p r = true := by
        rw [hp]
        exact Bool.false_ne_true
      cases hq : q r with
      | true =>
        -- the rule is the first one of the wider test only
        rw [List.find?_cons_of_neg hneg, List.find?_cons_of_pos hq]
        exact iff_of_false (fun heq => hneg (List.find?_some heq))
          (not_not_intro ⟨[], r, rules, rfl, hq, hp, fun x hx => absurd hx List.not_mem_nil⟩)
      | false =>
        have hneg' : ¬q r = true := by
          rw [hq]
          exact Bool.false_ne_true
        rw [List.find?_cons_of_neg hneg, List.find?_cons_of_neg hneg', ih, not_iff_not]
        constructor
        · rintro ⟨l, x, l', rfl, hx, hpx, hl⟩
          exact ⟨r :: l, x, l', rfl, hx, hpx, List.forall_mem_cons.2 ⟨hp, hl⟩⟩
        · rintro ⟨l, x, l', heq, hx, hpx, hl⟩
          cases l with
          | nil =>
            cases heq
            exact absurd hx hneg'
          | cons y l =>
            cases heq
            exact ⟨l, x, l', rfl, hx, hpx, fun z hz => hl z (List.mem_cons_of_mem _ hz)⟩

end Verdict

variable [DecidableEq ρ]

/-- Delete the rule as long as there is one and the command works; `ok i` is
    whether it does in the round `i`. A round is left for every rule of the list,
    so that the loop never ends for want of rounds. -/
def eraseLoop (ok : Nat → Bool) (r : ρ) : (rounds : Nat) → (i : Nat) → List ρ → List ρ
  | 0, _, l => l
  | rounds + 1, i, l => if ok i = true ∧ r ∈ l then eraseLoop ok r rounds (i + 1) (l.erase r) else l

theorem eraseLoop_eq_filter {ok : Nat → Bool} (hok : ∀ i, ok i = true) (r : ρ) {rounds : Nat} (i : Nat)
    {l : List ρ} (h : l.length ≤ rounds) : eraseLoop ok r rounds i l = l.filter (· ≠ r) := by
  induction rounds generalizing i l with
  | zero =>
    rw [List.length_eq_zero_iff.1 (Nat.le_zero.1 h)]
    rfl
  | succ rounds ih =>
    rw [eraseLoop]
    by_cases hr : r ∈ l
    · have hlen : (l.erase r).length ≤ rounds := by
        rw [List.length_erase_of_mem hr]
        exact Nat.sub_le_of_le_add h
      rw [if_pos ⟨hok i, hr⟩, ih (i + 1) hlen]
      -- The rule that is erased here is one that the filter drops.
      obtain ⟨l₁, l₂, -, rfl, he⟩ := List.exists_erase_eq hr
      rw [he]
      simp
    · rw [if_neg fun h => hr h.2, List.filter_eq_self.2]
      intro s hs
      simpa using fun he : s = r => hr (he ▸ hs)

end FirstMatch
