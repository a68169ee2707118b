import Mqvpn.Lib.Runs

/-!
# Programs that may die

A *program* is a tree of calls to its environment, such as system calls and commands,
each followed by what the program does with the answer (`Prog`). A *machine* runs the
operations of a process one call at a time (`Machine`): between any two calls the
process may die, which loses its memory and leaves the world as it is but for what the
kernel cleans up.

* `Prog.Safe`: from a state of the world, the program keeps an invariant before every
  call, whatever the answers are, and ends with a postcondition; the rules for its
  parts are `safe_perform`, `Safe.bind` and `Safe.mono`;
* `Prog.eval`: what a program ends with, for given decisions of the environment; a safe
  program ends with its postcondition (`Safe.eval`);
* `Machine.inv_run`: if every operation is safe, the invariant holds at every moment of
  every run, the deaths of the process included.
-/

/-- A program that makes calls from `A`, with answers of the types `R`. -/
inductive Prog {A : Type} (R : A → Type) (α : Type)
  | pure (x : α)
  | call (a : A) (k : R a → Prog R α)

namespace Prog

variable {A E S α β : Type} {R : A → Type}

protected def bind : Prog R α → (α → Prog R β) → Prog R β
  | .pure x, f => f x
  | .call a k, f => .call a fun r => (k r).bind f

instance : Monad (Prog R) where
  pure := .pure
  bind := .bind

/-- A single call. -/
def perform (a : A) : Prog R (R a) := .call a .pure

section Safe

/-! ## Safety

The call `a` in the world `s`, with what the environment decides about it, has an
answer and a world after it. -/

variable (exec : (a : A) → E → S → R a × S) (P : A → E → S → Prop)
  {I : S → Prop} {Q Q' : α → S → Prop} {p : Prog R α} {s : S}

/-- The invariant holds before every call, and the postcondition at the end, as long as
    all calls meet the condition `P`. -/
def Safe (I : S → Prop) (Q : α → S → Prop) : Prog R α → S → Prop
  | .pure x, s => Q x s
  | .call a k, s => I s ∧ ∀ e, P a e s → Safe I Q (k (exec a e s).1) (exec a e s).2

variable {exec P}

theorem Safe.mono (h : Safe exec P I Q' p s) (hQ : ∀ x s, Q' x s → Q x s) : Safe exec P I Q p s := by
  induction p generalizing s with
  | pure x => exact hQ x s h
  | call a k ih => exact ⟨h.1, fun e he => ih _ (h.2 e he)⟩

theorem Safe.bind {Q : β → S → Prop} {f : α → Prog R β} (h : Safe exec P I Q' p s)
    (hf : ∀ x s, Q' x s → Safe exec P I Q (f x) s) : Safe exec P I Q (p >>= f) s := by
  induction p generalizing s with
  | pure x => exact hf x s h
  | call a k ih => exact ⟨h.1, fun e he => ih _ (h.2 e he)⟩

/-- A program ends with nothing in particular. -/
theorem safe_trivial (p : Prog R α) (s : S) : Safe exec P (fun _ => True) (fun _ _ => True) p s := by
  induction p generalizing s with
  | pure x => trivial
  | call a k ih => exact ⟨trivial, fun e _ => ih _ _⟩

/-- A call, and what the program does with its answer. -/
theorem safe_call {Q : β → S → Prop} {a : A} {f : R a → Prog R β} (hs : I s)
    (h : ∀ e, P a e s → Safe exec P I Q (f (exec a e s).1) (exec a e s).2) :
    Safe exec P I Q (perform a >>= f) s :=
  ⟨hs, h⟩

/-- The value that the program ends with and the world then, when the environment makes
    these decisions, one for each call. -/
def eval (exec : (a : A) → E → S → R a × S) : Prog R α → (Nat → E) → S → α × S
  | .pure x, _, s => (x, s)
  | .call a k, es, s => eval exec (k (exec a (es 0) s).1) (fun n => es (n + 1)) (exec a (es 0) s).2

/-- Every call of the program meets the condition. -/
def Meets (exec : (a : A) → E → S → R a × S) (P : A → E → S → Prop) : Prog R α → (Nat → E) → S → Prop
  | .pure _, _, _ => True
  | .call a k, es, s => P a (es 0) s ∧ Meets exec P (k (exec a (es 0) s).1) (fun n => es (n + 1)) (exec a (es 0) s).2

instance decidableMeets [∀ a e s, Decidable (P a e s)] :
    ∀ (p : Prog R α) (es : Nat → E) (s : S), Decidable (p.Meets exec P es s)
  | .pure _, _, _ => .isTrue trivial
  | .call _ _, _, _ => @instDecidableAnd _ _ _ (decidableMeets _ _ _)

theorem meets_of_forall {es : Nat → E} (h : ∀ a s n, P a (es n) s) : p.Meets exec P es s := by
  induction p generalizing s es with
  | pure x => trivial
  | call a k ih => exact ⟨h a s 0, ih _ fun a s n => h a s (n + 1)⟩

theorem Safe.eval {es : Nat → E} (h : Safe exec P I Q p s) (hes : p.Meets exec P es s) :
    Q (p.eval exec es s).1 (p.eval exec es s).2 := by
  induction p generalizing s es with
  | pure x => exact h
  | call a k ih => exact ih _ (h.2 _ hes.1) hes.2

end Safe

end Prog

/-! ## Machines -/

/-- A process with the operations `Op` and the memory `M`, in a world `S`. -/
structure Machine (A E S Op M : Type) (R : A → Type) where
  exec : (a : A) → E → S → R a × S
  code : Op → M → Prog R M
  /-- The memory of a new process. -/
  boot : M
  /-- What becomes of the world when the process dies. -/
  die : S → S

namespace Machine

variable {A E S Op M : Type} {R : A → Type}

/-- A process that is idle, or has made a call that is not answered yet. -/
structure State (S M : Type) (R : A → Type) where
  world : S
  mem : M
  running : Option (Prog R M) := none

inductive Event (Op E : Type)
  | start (op : Op)
  /-- The call that the process has made is carried out. -/
  | answer (e : E)
  | crash

/-- A program that has ended gives the process its memory. -/
def settle (s : S) (mem : M) : Prog R M → State S M R
  | .pure mem => { world := s, mem }
  | .call a k => { world := s, mem, running := some (.call a k) }

variable (m : Machine A E S Op M R)

def step (t : State S M R) : Event Op E → State S M R
  | .start op =>
    match t.running with
    | none => settle t.world t.mem (m.code op t.mem)
    | some _ => t
  | .answer e =>
    match t.running with
    | some (.call a k) => settle (m.exec a e t.world).2 t.mem (k (m.exec a e t.world).1)
    | _ => t
  | .crash => { world := m.die t.world, mem := m.boot }

def run (t : State S M R) (events : List (Event Op E)) : State S M R := events.foldl m.step t

/-- The call that is carried out meets the condition. -/
def Meets (P : A → E → S → Prop) (t : State S M R) : Event Op E → Prop
  | .answer e =>
    match t.running with
    | some (.call a _) => P a e t.world
    | _ => True
  | _ => True

instance (P : A → E → S → Prop) [∀ a e s, Decidable (P a e s)] (t : State S M R) (ev : Event Op E) :
    Decidable (Meets P t ev) :=
  match ev with
  | .answer e =>
    match h : t.running with
    | some (.call a k) => decidable_of_iff (P a e t.world) (by simp [Meets, h])
    | some (.pure _) => isTrue (by simp [Meets, h])
    | none => isTrue (by simp [Meets, h])
  | .start _ => isTrue trivial
  | .crash => isTrue trivial

/-- Every run meets no condition at all. -/
theorem meets_true (t : State S M R) (ev : Event Op E) : Meets (fun (_ : A) (_ : E) (_ : S) => True) t ev := by
  cases ev with
  | start op => trivial
  | answer e =>
    rw [Meets]
    split
    · trivial
    · trivial
  | crash => trivial

variable {m} {P : A → E → S → Prop} {I : S → Prop} {J : M → S → Prop} {t : State S M R}

/-- The invariant of an idle process, or that its program is safe. -/
def Good (m : Machine A E S Op M R) (P : A → E → S → Prop) (I : S → Prop) (J : M → S → Prop)
    (t : State S M R) : Prop :=
  match t.running with
  | none => J t.mem t.world
  | some p => p.Safe m.exec P I J t.world

theorem good_settle {s : S} {mem : M} {p : Prog R M} (h : p.Safe m.exec P I J s) :
    Good m P I J (settle s mem p) := by
  cases p with
  | pure mem => exact h
  | call a k => exact h

theorem Good.inv (h : Good m P I J t) (hJ : ∀ mem s, J mem s → I s) : I t.world := by
  rw [Good] at h
  split at h
  · exact hJ _ _ h
  · rename_i p _
    cases p with
    | pure mem => exact hJ _ _ h
    | call a k => exact h.1

theorem Good.step (h : Good m P I J t) (hcode : ∀ op mem s, J mem s → (m.code op mem).Safe m.exec P I J s)
    (hJ : ∀ mem s, J mem s → I s) (hboot : ∀ s, I s → J m.boot (m.die s)) (ev : Event Op E) (hev : Meets P t ev) :
    Good m P I J (m.step t ev) := by
  cases ev with
  | start op =>
    rw [Machine.step]
    split
    · rename_i hidle
      rw [Good, hidle] at h
      exact good_settle (hcode op _ _ h)
    · exact h
  | answer e =>
    rw [Machine.step]
    split
    · rename_i a k hrun
      rw [Meets, hrun] at hev
      rw [Good, hrun] at h
      exact good_settle (h.2 e hev)
    · exact h
  | crash => exact hboot _ (h.inv hJ)

/-- If an idle process and every operation keep the invariant, it holds at every moment of
    a run whose calls meet the condition. -/
theorem inv_run (hcode : ∀ op mem s, J mem s → (m.code op mem).Safe m.exec P I J s)
    (hJ : ∀ mem s, J mem s → I s) (hboot : ∀ s, I s → J m.boot (m.die s)) {s : S} (h : J m.boot s)
    {events : List (Event Op E)} (hP : Runs.Along m.step (Meets P) { world := s, mem := m.boot } events) :
    I (m.run { world := s, mem := m.boot } events).world := by
  have hgood : Good m P I J { world := s, mem := m.boot } := h
  have hrun : Good m P I J (m.run { world := s, mem := m.boot } events) :=
    Runs.foldl_of_along (J := Good m P I J) (fun _ ev ht => ht.step hcode hJ hboot ev) hgood hP
  exact hrun.inv hJ

end Machine
