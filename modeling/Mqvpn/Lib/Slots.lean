import Mathlib.Data.List.ReduceOption
import Mathlib.Data.List.Nodup
import Mathlib.Data.List.Perm.Basic
import Mathlib.Data.Int.ModEq

/-!
# Slot arrays

An array of slots, each empty or holding a value, is a list of options; its
*entries* are the values it holds (`List.reduceOption`), in slot order. Here
are the facts an open-addressed table without probing rests on:

* writing an empty slot adds one entry and clearing an occupied one removes it,
  and nothing else changes (`reduceOption_set_some`, `reduceOption_set_none`);
* placing entries one by one at pairwise distinct empty positions loses none of
  them (`place`, `reduceOption_place`), which is what a rehash has to do;
* in a window of width `n`, positions modulo `n` are distinct
  (`eq_of_mod_eq_of_window`);
* an array that is searched from the front, for a key or for an empty slot, is a finite map from
  keys to entries: writing the slot of a key, or an empty slot for a key that has none, is an
  update of the map, and clearing a slot removes its key (`entry_set_some`, `entry_set_none`).
-/

namespace Slots

variable {α : Type*}

/-! ## Single slots -/

theorem mem_reduceOption_iff_getElem? {l : List (Option α)} {a : α} :
    a ∈ l.reduceOption ↔ ∃ i : Nat, l[i]? = some (some a) := by
  rw [List.reduceOption_mem_iff, List.mem_iff_getElem?]

theorem getElem?_set_of_some {l : List (Option α)} {i j : Nat} {o x : Option α}
    (h : (l.set i o)[j]? = some x) : (j = i ∧ x = o) ∨ (j ≠ i ∧ l[j]? = some x) := by
  by_cases hij : i = j
  · subst hij
    rw [List.getElem?_set_self'] at h
    obtain ⟨_, _, rfl⟩ := Option.map_eq_some_iff.1 h
    exact .inl ⟨rfl, rfl⟩
  · rw [List.getElem?_set_ne hij] at h
    exact .inr ⟨fun e => hij e.symm, h⟩

/-- Writing an empty slot adds exactly one entry. -/
theorem reduceOption_set_some {l : List (Option α)} {i : Nat} {a : α} (h : l[i]? = some none) :
    (l.set i (some a)).reduceOption.Perm (a :: l.reduceOption) := by
  induction l generalizing i with
  | nil => simp at h
  | cons o l ih =>
    cases i with
    | zero =>
      rw [List.getElem?_cons_zero, Option.some.injEq] at h
      subst h
      simp
    | succ i =>
      rw [List.getElem?_cons_succ] at h
      cases o with
      | none => simpa using ih h
      | some b => simpa using ((ih h).cons b).trans (List.Perm.swap a b _)

/-- Clearing an occupied slot removes exactly its entry. -/
theorem reduceOption_set_none {l : List (Option α)} {i : Nat} {a : α}
    (h : l[i]? = some (some a)) : l.reduceOption.Perm (a :: (l.set i none).reduceOption) := by
  obtain ⟨hi, hv⟩ := List.getElem?_eq_some_iff.1 h
  have h' : (l.set i none)[i]? = some none := List.getElem?_set_self hi
  have := reduceOption_set_some (a := a) h'
  rwa [List.set_set, ← hv, List.set_getElem_self] at this

/-- Values whose slot is a function of themselves have pairwise distinct positions. -/
theorem nodup_map_of_getElem? {pos : α → Nat} {l : List (Option α)} {n : Nat}
    (h : ∀ i a, l[i]? = some (some a) → pos a = n + i) :
    (l.reduceOption.map pos).Nodup ∧ ∀ p ∈ l.reduceOption.map pos, n ≤ p := by
  induction l generalizing n with
  | nil => simp
  | cons o l ih =>
    obtain ⟨hnd, hle⟩ := ih (n := n + 1) fun i a hi => by
      have := h (i + 1) a (by simpa using hi)
      omega
    cases o with
    | none =>
      rw [List.reduceOption_cons_of_none]
      exact ⟨hnd, fun p hp => (Nat.le_succ n).trans (hle p hp)⟩
    | some a =>
      have ha : pos a = n := by simpa using h 0 a rfl
      rw [List.reduceOption_cons_of_some, List.map_cons, ha]
      refine ⟨List.nodup_cons.2 ⟨fun hn => Nat.not_succ_le_self n (hle n hn), hnd⟩, ?_⟩
      rintro p (_ | ⟨_, hp⟩)
      exacts [le_rfl, (Nat.le_succ n).trans (hle p hp)]

/-! ## Rehashing -/

/-- Place the entries of `old` one by one into `new`, each at its own position. -/
def place (pos : α → Nat) (old new : List (Option α)) : List (Option α) :=
  old.foldl (fun acc o => match o with
    | some a => acc.set (pos a) (some a)
    | none => acc) new

variable {pos : α → Nat}

@[simp]
theorem place_nil (new : List (Option α)) : place pos [] new = new := rfl

@[simp]
theorem place_cons_none (old new : List (Option α)) :
    place pos (none :: old) new = place pos old new := rfl

@[simp]
theorem place_cons_some (a : α) (old new : List (Option α)) :
    place pos (some a :: old) new = place pos old (new.set (pos a) (some a)) := rfl

@[simp]
theorem length_place (old new : List (Option α)) : (place pos old new).length = new.length := by
  induction old generalizing new with
  | nil => rfl
  | cons o old ih => cases o <;> simp [ih]

/-- A slot occupied after placing was occupied before, or holds a placed entry. -/
theorem getElem?_place {old new : List (Option α)} {i : Nat} {a : α}
    (h : (place pos old new)[i]? = some (some a)) :
    new[i]? = some (some a) ∨ (a ∈ old.reduceOption ∧ pos a = i) := by
  induction old generalizing new with
  | nil => exact .inl h
  | cons o old ih =>
    cases o with
    | none => simpa using ih h
    | some b =>
      rw [List.reduceOption_cons_of_some]
      rcases ih h with h | ⟨ha, hp⟩
      · rcases getElem?_set_of_some h with ⟨rfl, hab⟩ | ⟨_, h⟩
        · rw [Option.some.injEq] at hab
          exact .inr ⟨hab ▸ List.mem_cons_self, by rw [hab]⟩
        · exact .inl h
      · exact .inr ⟨List.mem_cons_of_mem _ ha, hp⟩

/-- Placing at pairwise distinct empty positions keeps all the entries. -/
theorem reduceOption_place {old new : List (Option α)}
    (hnd : (old.reduceOption.map pos).Nodup)
    (hfree : ∀ a ∈ old.reduceOption, new[pos a]? = some none) :
    (place pos old new).reduceOption.Perm (old.reduceOption ++ new.reduceOption) := by
  induction old generalizing new with
  | nil => simp
  | cons o old ih =>
    cases o with
    | none => simpa using ih hnd hfree
    | some a =>
      rw [List.reduceOption_cons_of_some] at hnd hfree ⊢
      rw [List.map_cons, List.nodup_cons] at hnd
      have hfree' : ∀ b ∈ old.reduceOption, (new.set (pos a) (some a))[pos b]? = some none := by
        intro b hb
        have hne : pos a ≠ pos b := fun e => hnd.1 (e ▸ List.mem_map_of_mem hb)
        rw [List.getElem?_set_ne hne]
        exact hfree b (List.mem_cons_of_mem _ hb)
      have hset := reduceOption_set_some (a := a) (hfree a List.mem_cons_self)
      refine (ih hnd.2 hfree').trans ?_
      exact (hset.append_left _).trans List.perm_middle

/-! ## Keys -/

section Keys

variable {κ : Type*} [DecidableEq κ] (key : α → κ)

/-- The first slot of a key. -/
def find (l : List (Option α)) (k : κ) : Option Nat := l.findIdx? fun o => o.any fun a => key a = k

/-- The first empty slot. -/
def free (l : List (Option α)) : Option Nat := l.findIdx? Option.isNone

/-- The entry of a key. -/
def entry (l : List (Option α)) (k : κ) : Option α := l.reduceOption.find? fun a => key a = k

/-- No two entries have one key. -/
def Keyed (l : List (Option α)) : Prop := (l.reduceOption.map key).Nodup

variable {key} {l : List (Option α)} {i : Nat} {a b : α} {k : κ}

theorem find_eq_some (h : find key l k = some i) : ∃ a, l[i]? = some (some a) ∧ key a = k := by
  obtain ⟨hi, hany, -⟩ := List.findIdx?_eq_some_iff_getElem.1 h
  obtain ⟨a, ha, hkey⟩ := (Option.any_eq_true _ _).1 hany
  exact ⟨a, List.getElem?_eq_some_iff.2 ⟨hi, ha⟩, of_decide_eq_true hkey⟩

theorem find_eq_none (h : find key l k = none) (ha : a ∈ l.reduceOption) : key a ≠ k := by
  have hno := List.findIdx?_eq_none_iff.1 h _ (List.reduceOption_mem_iff.1 ha)
  exact of_decide_eq_false hno

theorem getElem?_free (h : free l = some i) : l[i]? = some none := by
  obtain ⟨hi, hnone, -⟩ := List.findIdx?_eq_some_iff_getElem.1 h
  exact List.getElem?_eq_some_iff.2 ⟨hi, Option.isNone_iff_eq_none.1 hnone⟩

/-- An array without an empty slot is full. -/
theorem length_of_free (h : free l = none) : l.reduceOption.length = l.length := by
  rw [List.reduceOption_length_eq_iff]
  intro o ho
  rw [← Option.not_isNone, List.findIdx?_eq_none_iff.1 h o ho]
  rfl

theorem entry_eq_some (h : Keyed key l) : entry key l k = some a ↔ a ∈ l.reduceOption ∧ key a = k := by
  have hfound {b : α} (hfind : entry key l k = some b) : b ∈ l.reduceOption ∧ key b = k := by
    obtain ⟨hkey, -⟩ := List.find?_eq_some_iff_append.1 hfind
    exact ⟨List.mem_of_find?_eq_some hfind, of_decide_eq_true hkey⟩
  refine ⟨hfound, fun ⟨ha, hkey⟩ => ?_⟩
  cases hfind : entry key l k with
  | none => exact absurd (decide_eq_true hkey) (List.find?_eq_none.1 hfind a ha)
  | some b =>
    obtain ⟨hb, hbkey⟩ := hfound hfind
    rw [List.inj_on_of_nodup_map h hb ha (hbkey.trans hkey.symm)]

theorem entry_ext (hl : Keyed key l) {f : κ → Option α} (h : ∀ k a, f k = some a ↔ a ∈ l.reduceOption ∧ key a = k) :
    entry key l = f := by
  funext k
  ext a
  rw [entry_eq_some hl, h]

/-- A key that has no slot is given an empty one. -/
theorem entry_set_some (h : Keyed key l) (hi : l[i]? = some none) (hnew : ∀ b ∈ l.reduceOption, key b ≠ key a) :
    Keyed key (l.set i (some a)) ∧ entry key (l.set i (some a)) = Function.update (entry key l) (key a) (some a) := by
  have hperm := reduceOption_set_some (a := a) hi
  have hkeyed : Keyed key (l.set i (some a)) := by
    refine (hperm.map key).nodup_iff.2 (List.nodup_cons.2 ⟨fun hmem => ?_, h⟩)
    obtain ⟨b, hb, hkey⟩ := List.mem_map.1 hmem
    exact hnew b hb hkey
  refine ⟨hkeyed, entry_ext hkeyed fun k b => ?_⟩
  rw [hperm.mem_iff, List.mem_cons, Function.update_apply]
  split_ifs with hk
  · subst hk
    constructor
    · rintro ⟨⟩
      exact ⟨.inl rfl, rfl⟩
    · rintro ⟨rfl | hb, hkey⟩
      · rfl
      · exact absurd hkey (hnew b hb)
  · rw [entry_eq_some h]
    constructor
    · rintro ⟨hb, rfl⟩
      exact ⟨.inr hb, rfl⟩
    · rintro ⟨rfl | hb, rfl⟩
      · exact absurd rfl hk
      · exact ⟨hb, rfl⟩

/-- The slot of a key is cleared. -/
theorem entry_set_none (h : Keyed key l) (hi : l[i]? = some (some a)) :
    Keyed key (l.set i none) ∧ entry key (l.set i none) = Function.update (entry key l) (key a) none := by
  have hperm := reduceOption_set_none hi
  have hnodup : (key a :: (l.set i none).reduceOption.map key).Nodup := (hperm.map key).nodup_iff.1 h
  obtain ⟨hgone, hkeyed⟩ := List.nodup_cons.1 hnodup
  refine ⟨hkeyed, entry_ext hkeyed fun k b => ?_⟩
  rw [Function.update_apply]
  split_ifs with hk
  · subst hk
    refine ⟨False.elim, fun ⟨hb, hkey⟩ => ?_⟩
    exact absurd (hkey ▸ List.mem_map_of_mem hb) hgone
  · rw [entry_eq_some h, hperm.mem_iff, List.mem_cons]
    constructor
    · rintro ⟨rfl | hb, rfl⟩
      · exact absurd rfl hk
      · exact ⟨hb, rfl⟩
    · rintro ⟨hb, rfl⟩
      exact ⟨.inr hb, rfl⟩

/-- The slot of a key is written. -/
theorem entry_set_of_eq (h : Keyed key l) (hi : l[i]? = some (some b)) (hkey : key b = key a) :
    Keyed key (l.set i (some a)) ∧ entry key (l.set i (some a)) = Function.update (entry key l) (key a) (some a) := by
  obtain ⟨hkeyed, hentry⟩ := entry_set_none h hi
  have hlen : i < l.length := (List.getElem?_eq_some_iff.1 hi).1
  have hfree : (l.set i none)[i]? = some none := List.getElem?_set_self hlen
  have hnew : ∀ c ∈ (l.set i none).reduceOption, key c ≠ key a := by
    intro c hc heq
    have hsome : entry key (l.set i none) (key b) = some c := (entry_eq_some hkeyed).2 ⟨hc, heq.trans hkey.symm⟩
    rw [hentry, Function.update_self] at hsome
    cases hsome
  have hset := entry_set_some hkeyed hfree hnew
  rw [List.set_set, hentry, hkey, Function.update_idem] at hset
  exact hset

end Keys

/-! ## Windows -/

/-- In a window of width `n` the residues modulo `n` are distinct. -/
theorem eq_of_mod_eq_of_window {a b e n : Nat} (h : a % n = b % n) (hea : e ≤ a) (han : a < e + n)
    (heb : e ≤ b) (hbn : b < e + n) : a = b := by
  refine Nat.ModEq.eq_of_abs_lt (m := n) h ?_
  rw [abs_lt]
  omega

end Slots
