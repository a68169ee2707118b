import Mqvpn.Lib.Text
import Mathlib.Data.List.Nodup
import Mathlib.Data.List.TakeDrop

/-!
# Reading JSON

`json_mini.h`: the keys and the values of a JSON text are read where they stand, without
a parse of the whole. A pointer into a text is what follows it, so that it lies before
another one in the same text if it is the longer of the two.

What the functions make of a text that is written as JSON is said for one value at a
time: a value is `Clean` for a key if a search for this key runs over it, and if its
brackets match. Objects and arrays of clean values are clean (`Clean.object`,
`Clean.array`), and in an object of clean values a key is found at its own value
(`findKey_object`, `findKeyBounded_object`), and not at all if the object has no such key.
-/

namespace Mqvpn.Json

open Text

/-! ## Scanning -/

/-- `json_skip_ws` -/
def skipWs (s : List Char) : List Char := s.dropWhile isSpace

/-- The walk over a string literal, from after its opening quote: what is written in it,
    with the backslashes, and what follows its closing quote. -/
def literal : List Char → Option (List Char × List Char)
  | [] => none
  | '"' :: cs => some ([], cs)
  | '\\' :: c :: cs => (literal cs).map fun (s, rest) => ('\\' :: c :: s, rest)
  | c :: cs => (literal cs).map fun (s, rest) => (c :: s, rest)

/-- The characters that a literal stands for: each backslash is left out. -/
def unescape : List Char → List Char
  | [] => []
  | '\\' :: c :: cs => c :: unescape cs
  | c :: cs => c :: unescape cs

theorem literal_length {s body rest : List Char} (h : literal s = some (body, rest)) :
    rest.length < s.length := by
  induction s using literal.induct generalizing body with
  | case1 => cases h
  | case2 cs =>
    cases h
    exact Nat.lt_succ_self _
  | case3 c cs ih =>
    rw [literal] at h
    obtain ⟨⟨s, rest'⟩, hs, he⟩ := Option.map_eq_some_iff.1 h
    cases he
    have := ih hs
    simp only [List.length_cons]
    omega
  | case4 c cs h₁ h₂ ih =>
    rw [literal] at h
    · obtain ⟨⟨s, rest'⟩, hs, he⟩ := Option.map_eq_some_iff.1 h
      cases he
      exact Nat.lt_succ_of_lt (ih hs)
    · exact h₁
    · exact h₂

theorem length_skipWs_le (s : List Char) : (skipWs s).length ≤ s.length :=
  (List.dropWhile_sublist _).length_le

/-- `json_find_key` -/
def findKey (key : List Char) : List Char → Option (List Char)
  | [] => none
  | c :: cs =>
    if c = '"' then
      match _h : literal cs with
      | none => none
      | some (k, rest) =>
        if k = key then
          match skipWs rest with
          | ':' :: v => some (skipWs v)
          | _ => findKey key rest
        else findKey key rest
    else findKey key cs
termination_by s => s.length
decreasing_by
  · exact Nat.lt_succ_of_lt (literal_length _h)
  · exact Nat.lt_succ_of_lt (literal_length _h)
  · exact Nat.lt_succ_self _

/-- The loop of `json_object_end`, with the depth and whether it is in a string. -/
def objectEndLoop (depth : Nat) : Bool → List Char → Option (List Char)
  | _, [] => none
  | true, '\\' :: _ :: cs => objectEndLoop depth true cs
  | true, c :: cs => objectEndLoop depth (c ≠ '"') cs
  | false, c :: cs =>
    if c = '"' then objectEndLoop depth true cs
    else if c = '{' then objectEndLoop (depth + 1) false cs
    else if c = '}' then
      if depth = 1 then some (c :: cs) else objectEndLoop (depth - 1) false cs
    else objectEndLoop depth false cs

theorem objectEndLoop_length {depth : Nat} {inStr : Bool} {s stop : List Char}
    (h : objectEndLoop depth inStr s = some stop) : stop.length ≤ s.length := by
  fun_induction objectEndLoop depth inStr s
  · cases h
  · rename_i ih
    exact Nat.le_succ_of_le (Nat.le_succ_of_le (ih h))
  · rename_i ih
    exact Nat.le_succ_of_le (ih h)
  · rename_i ih
    exact Nat.le_succ_of_le (ih h)
  · rename_i ih
    exact Nat.le_succ_of_le (ih h)
  · cases h
    exact Nat.le_refl _
  · rename_i ih
    exact Nat.le_succ_of_le (ih h)
  · rename_i ih
    exact Nat.le_succ_of_le (ih h)

/-- `json_object_end` -/
def objectEnd (obj : List Char) : Option (List Char) :=
  if obj.head? = some '{' then objectEndLoop 0 false obj else none

theorem objectEnd_length {obj stop : List Char} (h : objectEnd obj = some stop) : stop.length ≤ obj.length := by
  rw [objectEnd] at h
  split_ifs at h
  exact objectEndLoop_length h

/-- `json_find_key_bounded` -/
def findKeyBounded (obj objEnd key : List Char) : Option (List Char) :=
  (findKey key obj).filter fun v => objEnd.length < v.length

/-! ## Values -/

/-- `json_read_string`, into a buffer of this size. -/
def readString (p : List Char) (outLen : Nat) : Option (List Char) :=
  match p with
  | '"' :: cs => (literal cs).map fun (s, _) => (unescape s).take (outLen - 1)
  | _ => none

/-- What `json_read_string` leaves in a buffer of zeros of this size, also where it fails. -/
def stringBuf (p : List Char) (outLen : Nat) : List Char :=
  match p with
  | '"' :: cs =>
    match literal cs with
    | some (s, _) => (unescape s).take (outLen - 1)
    | none => (unescape cs).take (outLen - 1)
  | _ => []

/-- What is read fits in the buffer. -/
theorem length_readString {p s : List Char} {outLen : Nat} (h : readString p outLen = some s) : s.length ≤ outLen - 1 := by
  unfold readString at h
  split at h
  · obtain ⟨⟨s', rest⟩, -, rfl⟩ := Option.map_eq_some_iff.1 h
    exact List.length_take_le _ _
  · cases h

theorem length_stringBuf (p : List Char) (outLen : Nat) : (stringBuf p outLen).length ≤ outLen - 1 := by
  unfold stringBuf
  split
  · split <;> exact List.length_take_le _ _
  · exact Nat.zero_le _

/-- `json_read_bool` -/
def readBool (p : List Char) : Option Bool :=
  if "true".toList <+: p then some true
  else if "false".toList <+: p then some false
  else none

/-- The conversion of a `long` to an `int`. -/
def toInt (v : Int) : Int := v.bmod (2 ^ 32)

/-- `json_read_int` -/
def readInt (p : List Char) : Option Int := (strtol p).map fun (v, _) => toInt v

/-- `json_value_has_valid_end` -/
def valueHasValidEnd (p : List Char) : Bool :=
  match skipWs p with
  | [] => true
  | c :: _ => c = ',' ∨ c = '}' ∨ c = ']'

/-- `json_read_int_strict` -/
def readIntStrict (p : List Char) : Option Int :=
  let p := skipWs p
  if p.head? = some '-' ∨ startsWithDigit p then
    match strtol p with
    | some (v, rest) => if -2 ^ 31 ≤ v ∧ v < 2 ^ 31 ∧ valueHasValidEnd rest then some v else none
    | none => none
  else none

/-- `json_read_u64_strict` -/
def readU64Strict (p : List Char) : Option Nat :=
  let p := skipWs p
  if startsWithDigit p then
    match strtoull p with
    | some (v, rest) => if valueHasValidEnd rest then some v else none
    | none => none
  else none

/-! ## Writing -/

/-- The text has no character that means something in a string literal. -/
def Plain (s : List Char) : Prop := ∀ c ∈ s, c ≠ '"' ∧ c ≠ '\\'

/-- A string literal. -/
def quote (s : List Char) : List Char := '"' :: (s ++ ['"'])

/-- A member of an object: its key, and the text of its value. -/
def member (m : List Char × List Char) : List Char := quote m.1 ++ ':' :: m.2

/-- An object with these members. -/
def object (ms : List (List Char × List Char)) : List Char :=
  '{' :: ([','].intercalate (ms.map member) ++ ['}'])

/-- An array of these values. -/
def array (vs : List (List Char)) : List Char := '[' :: ([','].intercalate vs ++ [']'])

/-- What may follow a value. -/
def Ends (rest : List Char) : Prop := rest.head? = some ',' ∨ rest.head? = some '}' ∨ rest.head? = some ']'

/-- A search for the key runs over the text. -/
def Passes (key v : List Char) : Prop := ∀ rest, Ends rest → findKey key (v ++ rest) = findKey key rest

/-- The brackets of the text match. -/
def Closes (v : List Char) : Prop :=
  ∀ depth rest, 0 < depth → objectEndLoop depth false (v ++ rest) = objectEndLoop depth false rest

/-- The text of a value that a search for the key runs over. -/
structure Clean (key v : List Char) : Prop where
  starts : ∃ c cs, v = c :: cs ∧ isSpace c = false
  passes : Passes key v
  closes : Closes v

/-- The rest of a list after its first value. -/
def sepTail : List (List Char) → List Char
  | [] => []
  | v :: vs => ',' :: [','].intercalate (v :: vs)

section Ends

variable {rest : List Char}

theorem Ends.skipWs (h : Ends rest) : skipWs rest = rest := by
  cases rest with
  | nil => rfl
  | cons c cs =>
    rw [Json.skipWs, List.dropWhile_cons_of_neg]
    rcases h with h | h | h <;> cases h <;> decide

theorem Ends.ne_colon (h : Ends rest) (v : List Char) : rest ≠ ':' :: v := by
  rintro rfl
  rcases h with h | h | h <;> simp at h

theorem ends_sepTail (h : Ends rest) (vs : List (List Char)) : Ends (sepTail vs ++ rest) := by
  cases vs with
  | nil => exact h
  | cons v vs => exact .inl rfl

theorem intercalate_cons (v : List Char) (vs : List (List Char)) :
    [','].intercalate (v :: vs) = v ++ sepTail vs := by
  cases vs with
  | nil => rw [List.intercalate_singleton, sepTail, List.append_nil]
  | cons w vs => rw [List.intercalate_cons_cons, List.append_assoc, sepTail, List.singleton_append]

end Ends

/-! ## Searching what is written -/

section Search

variable {key s v rest : List Char}

theorem literal_plain (h : Plain s) (rest : List Char) : literal (s ++ '"' :: rest) = some (s, rest) := by
  induction s with
  | nil => rfl
  | cons c s ih =>
    obtain ⟨hc, hs⟩ := List.forall_mem_cons.1 h
    rw [List.cons_append, literal, ih hs, Option.map_some]
    · exact hc.1
    · exact fun _ _ hslash => absurd hslash hc.2

theorem findKey_cons {c : Char} (hc : c ≠ '"') (cs : List Char) : findKey key (c :: cs) = findKey key cs := by
  rw [findKey, if_neg hc]

theorem findKey_append (h : '"' ∉ s) (rest : List Char) : findKey key (s ++ rest) = findKey key rest := by
  induction s with
  | nil => rfl
  | cons c s ih =>
    rw [List.mem_cons, not_or] at h
    rw [List.cons_append, findKey_cons (Ne.symm h.1), ih h.2]

/-- What `findKey` does at a string. -/
theorem findKey_quote (h : Plain s) (rest : List Char) :
    findKey key (quote s ++ rest) =
      if s = key then
        match skipWs rest with
        | ':' :: v => some (skipWs v)
        | _ => findKey key rest
      else findKey key rest := by
  rw [quote, List.cons_append, List.append_assoc, List.singleton_append, findKey, if_pos rfl]
  split
  · rename_i hl
    rw [literal_plain h] at hl
    cases hl
  · rename_i hl
    rw [literal_plain h] at hl
    cases hl
    rfl

theorem findKey_quote_self (h : Plain key) (v : List Char) :
    findKey key (quote key ++ ':' :: v) = some (skipWs v) := by
  rw [findKey_quote h, if_pos rfl]
  rfl

theorem findKey_quote_of_ne (h : Plain s) (hne : s ≠ key) (rest : List Char) :
    findKey key (quote s ++ rest) = findKey key rest := by
  rw [findKey_quote h, if_neg hne]

theorem passes_quote (h : Plain s) : Passes key (quote s) := by
  intro rest hrest
  -- a value may be spelled like the key, but no colon follows it
  rw [findKey_quote h, hrest.skipWs]
  split_ifs
  · split
    · exact absurd rfl (hrest.ne_colon _)
    · rfl
  · rfl

theorem passes_member {m : List Char × List Char} (hm : Plain m.1) (hne : m.1 ≠ key) (hv : Passes key m.2) :
    Passes key (member m) := by
  intro rest hrest
  rw [member, List.append_assoc, findKey_quote_of_ne hm hne, List.cons_append, findKey_cons (by decide),
    hv rest hrest]

theorem passes_intercalate {vs : List (List Char)} (h : ∀ v ∈ vs, Passes key v) :
    Passes key ([','].intercalate vs) := by
  intro rest hrest
  induction vs with
  | nil => rfl
  | cons v vs ih =>
    obtain ⟨hv, hvs⟩ := List.forall_mem_cons.1 h
    rw [intercalate_cons, List.append_assoc, hv _ (ends_sepTail hrest vs)]
    cases vs with
    | nil => rfl
    | cons w vs => rw [sepTail, List.cons_append, findKey_cons (by decide), ih hvs]

theorem closes_append (hs : Closes s) (hv : Closes v) : Closes (s ++ v) := by
  intro depth rest hd
  rw [List.append_assoc, hs _ _ hd, hv _ _ hd]

theorem closes_singleton {c : Char} (h : c ≠ '"' ∧ c ≠ '{' ∧ c ≠ '}') : Closes [c] := by
  intro depth rest _
  rw [List.singleton_append, objectEndLoop, if_neg h.1, if_neg h.2.1, if_neg h.2.2]

theorem closes_bare (h : ∀ c ∈ s, c ≠ '"' ∧ c ≠ '{' ∧ c ≠ '}') : Closes s := by
  induction s with
  | nil => exact fun _ _ _ => rfl
  | cons c s ih =>
    obtain ⟨hc, hs⟩ := List.forall_mem_cons.1 h
    exact closes_append (s := [c]) (closes_singleton hc) (ih hs)

theorem objectEndLoop_literal (h : Plain s) (depth : Nat) (rest : List Char) :
    objectEndLoop depth true (s ++ '"' :: rest) = objectEndLoop depth false rest := by
  induction s with
  | nil =>
    rw [List.nil_append, objectEndLoop]
    · rfl
    · exact fun _ _ hslash => absurd hslash (by decide)
  | cons c s ih =>
    obtain ⟨hc, hs⟩ := List.forall_mem_cons.1 h
    rw [List.cons_append, objectEndLoop, decide_eq_true hc.1, ih hs]
    exact fun _ _ hslash => absurd hslash hc.2

theorem closes_quote (h : Plain s) : Closes (quote s) := by
  intro depth rest _
  rw [quote, List.cons_append, List.append_assoc, List.singleton_append, objectEndLoop, if_pos rfl,
    objectEndLoop_literal h]

theorem closes_intercalate {vs : List (List Char)} (h : ∀ v ∈ vs, Closes v) : Closes ([','].intercalate vs) := by
  induction vs with
  | nil => exact fun _ _ _ => rfl
  | cons v vs ih =>
    obtain ⟨hv, hvs⟩ := List.forall_mem_cons.1 h
    rw [intercalate_cons]
    refine closes_append hv ?_
    cases vs with
    | nil => exact fun _ _ _ => rfl
    | cons w vs => exact closes_append (s := [',']) (closes_singleton (by decide)) (ih hvs)

theorem closes_member {m : List Char × List Char} (hm : Plain m.1) (hv : Closes m.2) : Closes (member m) :=
  closes_append (closes_quote hm) (closes_append (s := [':']) (closes_singleton (by decide)) hv)

theorem Clean.quote (h : Plain s) : Clean key (quote s) where
  starts := ⟨'"', s ++ ['"'], rfl, by decide⟩
  passes := passes_quote h
  closes := closes_quote h

/-- A value that is neither a string nor an object. -/
theorem Clean.bare (hs : ∃ c cs, s = c :: cs ∧ isSpace c = false) (h : ∀ c ∈ s, c ≠ '"' ∧ c ≠ '{' ∧ c ≠ '}') :
    Clean key s where
  starts := hs
  passes := fun rest _ => findKey_append (fun hq => (h _ hq).1 rfl) rest
  closes := closes_bare h

theorem Clean.array {vs : List (List Char)} (h : ∀ v ∈ vs, Clean key v) : Clean key (array vs) where
  starts := ⟨'[', _, rfl, by decide⟩
  passes := by
    intro rest hrest
    rw [Json.array, List.cons_append, List.append_assoc, findKey_cons (by decide),
      passes_intercalate (fun v hv => (h v hv).passes) _ (.inr (.inr rfl)), List.singleton_append,
      findKey_cons (by decide)]
  closes :=
    closes_append (s := ['[']) (closes_singleton (by decide))
      (closes_append (closes_intercalate fun v hv => (h v hv).closes) (closes_singleton (by decide)))

theorem objectEndLoop_object {ms : List (List Char × List Char)} (hms : ∀ m ∈ ms, Plain m.1 ∧ Closes m.2)
    (depth : Nat) (rest : List Char) :
    objectEndLoop depth false (object ms ++ rest) = objectEndLoop (depth + 1) false ('}' :: rest) := by
  have hcloses : Closes ([','].intercalate (ms.map member)) := by
    refine closes_intercalate fun v hv => ?_
    obtain ⟨m, hm, rfl⟩ := List.mem_map.1 hv
    exact closes_member (hms m hm).1 (hms m hm).2
  rw [object, List.cons_append, List.append_assoc, objectEndLoop, if_neg (by decide), if_pos rfl,
    hcloses _ _ (Nat.succ_pos _), List.singleton_append]

/-- A search for a key that the object does not have runs over the object. -/
theorem findKey_object_of_ne {ms : List (List Char × List Char)}
    (hms : ∀ m ∈ ms, Plain m.1 ∧ m.1 ≠ key ∧ Clean key m.2) (rest : List Char) :
    findKey key (object ms ++ rest) = findKey key rest := by
  have hpasses : Passes key ([','].intercalate (ms.map member)) := by
    refine passes_intercalate fun v hv => ?_
    obtain ⟨m, hm, rfl⟩ := List.mem_map.1 hv
    exact passes_member (hms m hm).1 (hms m hm).2.1 (hms m hm).2.2.passes
  rw [object, List.cons_append, List.append_assoc, findKey_cons (by decide), hpasses _ (.inr (.inl rfl)),
    List.singleton_append, findKey_cons (by decide)]

theorem Clean.object {ms : List (List Char × List Char)} (hms : ∀ m ∈ ms, Plain m.1 ∧ m.1 ≠ key ∧ Clean key m.2) :
    Clean key (object ms) where
  starts := ⟨'{', _, rfl, by decide⟩
  passes := fun rest _ => findKey_object_of_ne hms rest
  closes := by
    intro depth rest hd
    rw [objectEndLoop_object (fun m hm => ⟨(hms m hm).1, (hms m hm).2.2.closes⟩), objectEndLoop,
      if_neg (by decide), if_neg (by decide), if_pos rfl, if_neg (by omega), Nat.add_sub_cancel]

/-! ## Members -/

variable {ms : List (List Char × List Char)}

/-- A key is found at its own value. -/
theorem findKey_members (hms : ∀ m ∈ ms, Plain m.1 ∧ Clean key m.2) (hnodup : (ms.map Prod.fst).Nodup)
    (h : (key, v) ∈ ms) (hrest : Ends rest) :
    ∃ tail, Ends (tail ++ rest) ∧
      findKey key ([','].intercalate (ms.map member) ++ rest) = some (v ++ (tail ++ rest)) := by
  induction ms with
  | nil => exact absurd h List.not_mem_nil
  | cons m ms ih =>
    obtain ⟨hm, hms⟩ := List.forall_mem_cons.1 hms
    rw [List.map_cons, List.nodup_cons] at hnodup
    have hends := ends_sepTail hrest (ms.map member)
    rw [List.map_cons, intercalate_cons, List.append_assoc]
    rcases List.mem_cons.1 h with rfl | h
    · refine ⟨_, hends, ?_⟩
      obtain ⟨c, cs, hv, hc⟩ := hm.2.starts
      dsimp only at hm hv
      rw [member, List.append_assoc, List.cons_append, findKey_quote_self hm.1]
      rw [skipWs, hv, List.cons_append, List.dropWhile_cons_of_neg (by simp [hc])]
    · have hne : m.1 ≠ key := by
        rintro rfl
        exact hnodup.1 (List.mem_map.2 ⟨_, h, rfl⟩)
      rw [passes_member hm.1 hne hm.2.passes _ hends]
      obtain ⟨m', ms', rfl⟩ := List.exists_cons_of_ne_nil (List.ne_nil_of_mem h)
      rw [List.map_cons, sepTail, List.cons_append, findKey_cons (by decide)]
      exact ih hms hnodup.2 h

theorem findKey_object (hms : ∀ m ∈ ms, Plain m.1 ∧ Clean key m.2) (hnodup : (ms.map Prod.fst).Nodup)
    (h : (key, v) ∈ ms) (rest : List Char) :
    ∃ tail, Ends (tail ++ '}' :: rest) ∧ findKey key (object ms ++ rest) = some (v ++ (tail ++ '}' :: rest)) := by
  have hrest : Ends ('}' :: rest) := .inr (.inl rfl)
  obtain ⟨tail, hends, he⟩ := findKey_members hms hnodup h hrest
  refine ⟨tail, hends, ?_⟩
  rw [object, List.cons_append, List.append_assoc, findKey_cons (by decide)]
  exact he

theorem findKey_length {s v : List Char} (h : findKey key s = some v) : v.length ≤ s.length := by
  fun_induction findKey key s with
  | case1 => cases h
  | case2 => cases h
  | case3 cs rest v' hcolon hl =>
    cases h
    have := literal_length hl
    have hws := length_skipWs_le rest
    rw [hcolon] at hws
    have hv := length_skipWs_le v'
    simp only [List.length_cons] at hws ⊢
    omega
  | case4 cs rest hcolon hl ih =>
    have := literal_length hl
    have := ih h
    simp only [List.length_cons]
    omega
  | case5 cs k rest hl hne ih =>
    have := literal_length hl
    have := ih h
    simp only [List.length_cons]
    omega
  | case6 c cs hc ih => exact Nat.le_succ_of_le (ih h)

theorem objectEnd_object (hms : ∀ m ∈ ms, Plain m.1 ∧ Closes m.2) (rest : List Char) :
    objectEnd (object ms ++ rest) = some ('}' :: rest) := by
  have hhead : (object ms ++ rest).head? = some '{' := rfl
  rw [objectEnd, if_pos hhead, objectEndLoop_object hms, objectEndLoop, if_neg (by decide), if_neg (by decide),
    if_pos rfl, if_pos rfl]

/-- Within its object a key is found at its own value. -/
theorem findKeyBounded_object (hms : ∀ m ∈ ms, Plain m.1 ∧ Clean key m.2) (hnodup : (ms.map Prod.fst).Nodup)
    (h : (key, v) ∈ ms) (rest : List Char) :
    ∃ tail, Ends tail ∧ findKeyBounded (object ms ++ rest) ('}' :: rest) key = some (v ++ tail) := by
  obtain ⟨tail, hends, he⟩ := findKey_object hms hnodup h rest
  refine ⟨_, hends, ?_⟩
  rw [findKeyBounded, he, Option.filter_some, if_pos]
  obtain ⟨c, cs, hv, -⟩ := (hms _ h).2.starts
  dsimp only at hv
  simp only [hv, List.length_append, List.length_cons, decide_eq_true_eq]
  omega

/-- A key that the object does not have is not found, whatever follows the object. -/
theorem findKeyBounded_object_of_ne (hms : ∀ m ∈ ms, Plain m.1 ∧ m.1 ≠ key ∧ Clean key m.2) (rest : List Char) :
    findKeyBounded (object ms ++ rest) ('}' :: rest) key = none := by
  rw [findKeyBounded, findKey_object_of_ne hms, Option.filter_eq_none_iff]
  intro v hv
  have := findKey_length hv
  simp only [List.length_cons, decide_eq_true_eq]
  omega

/-! ## Reading what is written -/

theorem unescape_plain (h : Plain s) : unescape s = s := by
  induction s with
  | nil => rfl
  | cons c s ih =>
    obtain ⟨hc, hs⟩ := List.forall_mem_cons.1 h
    rw [unescape, ih hs]
    exact fun _ _ hslash => absurd hslash hc.2

theorem readString_quote (h : Plain s) (rest : List Char) (outLen : Nat) :
    readString (quote s ++ rest) outLen = some (s.take (outLen - 1)) := by
  rw [quote, List.cons_append, List.append_assoc, List.singleton_append, readString, literal_plain h,
    Option.map_some]
  dsimp only
  rw [unescape_plain h]

/-- `true` or `false`. -/
def ofBool (b : Bool) : List Char := if b then "true".toList else "false".toList

theorem readBool_ofBool (b : Bool) (rest : List Char) : readBool (ofBool b ++ rest) = some b := by
  cases b <;> rfl

theorem Ends.valueHasValidEnd (h : Ends rest) : valueHasValidEnd rest = true := by
  rw [Json.valueHasValidEnd, h.skipWs]
  cases rest with
  | nil => rfl
  | cons c cs =>
    rcases h with h | h | h <;> cases h <;> rfl

end Search

/-! ## Objects with fields that may be missing -/

/-- The members for the fields that are there. -/
def present (fields : List (List Char × Option (List Char))) : List (List Char × List Char) :=
  fields.filterMap fun f => f.2.map fun v => (f.1, v)

/-- An object with these fields, in any order. -/
def ObjectOf (fields : List (List Char × Option (List Char))) (text : List Char) : Prop :=
  ∃ ms, ms.Perm (present fields) ∧ text = object ms

/-- The keys are different, and can be written. -/
structure Keyed (fields : List (List Char × Option (List Char))) : Prop where
  plain : ∀ f ∈ fields, Plain f.1
  nodup : (fields.map Prod.fst).Nodup

section Fields

variable {fields : List (List Char × Option (List Char))} {key text rest : List Char}

theorem mem_present {m : List Char × List Char} : m ∈ present fields ↔ (m.1, some m.2) ∈ fields := by
  rw [present, List.mem_filterMap]
  constructor
  · rintro ⟨⟨k, o⟩, hf, ho⟩
    obtain ⟨v, hv, rfl⟩ := Option.map_eq_some_iff.1 ho
    dsimp only at hv
    exact hv ▸ hf
  · exact fun h => ⟨_, h, rfl⟩

theorem present_sublist (fields : List (List Char × Option (List Char))) :
    ((present fields).map Prod.fst).Sublist (fields.map Prod.fst) := by
  induction fields with
  | nil => exact List.Sublist.refl _
  | cons f fields ih =>
    obtain ⟨k, o⟩ := f
    cases o with
    | none => exact ih.cons _
    | some v => exact ih.cons_cons _

/-- Two fields with one key are the same field. -/
theorem Keyed.unique (h : Keyed fields) {o o' : Option (List Char)} (ho : (key, o) ∈ fields) (ho' : (key, o') ∈ fields) :
    o = o' :=
  congrArg Prod.snd (List.inj_on_of_nodup_map h.nodup ho ho' rfl)

theorem ObjectOf.starts (h : ObjectOf fields text) : ∃ cs, text = '{' :: cs := by
  obtain ⟨ms, -, rfl⟩ := h
  exact ⟨_, rfl⟩

/-- The members of the object are the fields that are there. -/
theorem ObjectOf.members (h : ObjectOf fields text) (hkeyed : Keyed fields)
    (hclean : ∀ f ∈ fields, ∀ v ∈ f.2, Clean key v) :
    ∃ ms, text = object ms ∧ (∀ m ∈ ms, Plain m.1 ∧ Clean key m.2) ∧ (ms.map Prod.fst).Nodup ∧
      ∀ m, m ∈ ms ↔ (m.1, some m.2) ∈ fields := by
  obtain ⟨ms, hperm, rfl⟩ := h
  have hmem (m : List Char × List Char) : m ∈ ms ↔ (m.1, some m.2) ∈ fields := hperm.mem_iff.trans mem_present
  refine ⟨ms, rfl, fun m hm => ?_, ?_, hmem⟩
  · exact ⟨hkeyed.plain _ ((hmem m).1 hm), hclean _ ((hmem m).1 hm) _ rfl⟩
  · exact (hperm.map Prod.fst).nodup_iff.2 (hkeyed.nodup.sublist (present_sublist fields))

theorem ObjectOf.clean (h : ObjectOf fields text) (hkeyed : Keyed fields)
    (hclean : ∀ f ∈ fields, ∀ v ∈ f.2, Clean key v) (hne : ∀ f ∈ fields, f.1 ≠ key) : Clean key text := by
  obtain ⟨ms, rfl, hms, -, hmem⟩ := h.members hkeyed hclean
  exact Clean.object fun m hm => ⟨(hms m hm).1, hne _ ((hmem m).1 hm), (hms m hm).2⟩

theorem ObjectOf.objectEnd (h : ObjectOf fields text) (hkeyed : Keyed fields)
    (hclean : ∀ f ∈ fields, ∀ v ∈ f.2, Clean key v) (rest : List Char) :
    Json.objectEnd (text ++ rest) = some ('}' :: rest) := by
  obtain ⟨ms, rfl, hms, -, -⟩ := h.members hkeyed hclean
  exact objectEnd_object (fun m hm => ⟨(hms m hm).1, (hms m hm).2.closes⟩) rest

/-- A field that is there is found. -/
theorem ObjectOf.findKey_eq (h : ObjectOf fields text) (hkeyed : Keyed fields)
    (hclean : ∀ f ∈ fields, ∀ v ∈ f.2, Clean key v) {v : List Char} (hmem : (key, some v) ∈ fields) :
    ∃ tail, Ends tail ∧ findKey key text = some (v ++ tail) := by
  obtain ⟨ms, rfl, hms, hnodup, hmems⟩ := h.members hkeyed hclean
  obtain ⟨tail, hends, hfind⟩ := findKey_object hms hnodup ((hmems (key, v)).2 hmem) []
  rw [List.append_nil] at hfind
  exact ⟨_, hends, hfind⟩

/-- A key that is no field is not found. -/
theorem ObjectOf.findKey_of_ne (h : ObjectOf fields text) (hkeyed : Keyed fields)
    (hclean : ∀ f ∈ fields, ∀ v ∈ f.2, Clean key v) (hne : ∀ v, (key, some v) ∉ fields) : findKey key text = none := by
  obtain ⟨ms, rfl, hms, -, hmems⟩ := h.members hkeyed hclean
  rw [← List.append_nil (object ms), findKey_object_of_ne fun m hm => ⟨(hms m hm).1, ?_, (hms m hm).2⟩, findKey]
  rintro rfl
  exact hne m.2 ((hmems m).1 hm)

variable {α β : Type} {o : Option α} {write : α → List Char} (read : List Char → Option β) {val : α → Option β}

/-- What is read of a field: its value, however the text goes on behind it. -/
theorem ObjectOf.bind_findKey (h : ObjectOf fields text) (hkeyed : Keyed fields)
    (hclean : ∀ f ∈ fields, ∀ v ∈ f.2, Clean key v) (hmem : (key, o.map write) ∈ fields)
    (hread : ∀ x tail, Ends tail → read (write x ++ tail) = val x) : (findKey key text).bind read = o.bind val := by
  cases o with
  | none =>
    rw [h.findKey_of_ne hkeyed hclean fun v hv => nomatch hkeyed.unique hmem hv]
    rfl
  | some x =>
    obtain ⟨tail, hends, hfind⟩ := h.findKey_eq hkeyed hclean hmem
    rw [hfind]
    exact hread x tail hends

theorem ObjectOf.bind_findKeyBounded (h : ObjectOf fields text) (hkeyed : Keyed fields)
    (hclean : ∀ f ∈ fields, ∀ v ∈ f.2, Clean key v) (hmem : (key, o.map write) ∈ fields)
    (hread : ∀ x tail, Ends tail → read (write x ++ tail) = val x) (rest : List Char) :
    (findKeyBounded (text ++ rest) ('}' :: rest) key).bind read = o.bind val := by
  obtain ⟨ms, rfl, hms, hnodup, hmems⟩ := h.members hkeyed hclean
  cases o with
  | none =>
    rw [findKeyBounded_object_of_ne fun m hm => ⟨(hms m hm).1, ?_, (hms m hm).2⟩]
    · rfl
    · rintro rfl
      exact nomatch hkeyed.unique hmem ((hmems m).1 hm)
  | some x =>
    obtain ⟨tail, hends, hfind⟩ := findKeyBounded_object hms hnodup ((hmems (key, write x)).2 hmem) rest
    rw [hfind]
    exact hread x tail hends

end Fields

end Mqvpn.Json
