import Mqvpn.Lib.JsonTree

/-!
# JSON texts without blanks

Trees that are made from lists, with no blanks between the tokens: arrays of values (`arrayOf`)
and objects whose members have names that are given (`record`). Their texts are those of the
parts, with commas between them (`text_arrayOf`, `text_record`).

A text without quotes, backslashes and control characters can be written between quotes as it
is (`isBody_of_plain`), and denotes itself (`decode_of_plain`).
-/

namespace JsonTree

/-! ## Strings -/

/-- A character that stands for itself in a string. -/
def isPlain (c : Char) : Bool := c ≠ '"' ∧ c ≠ '\\' ∧ 0x20 ≤ c.toNat

variable {s : List Char}

theorem isBody_of_plain (h : ∀ c ∈ s, isPlain c = true) : isBody s = true := by
  induction s with
  | nil => rfl
  | cons c s ih =>
    obtain ⟨hc, hs⟩ := List.forall_mem_cons.1 h
    obtain ⟨hquote, hbackslash, hctl⟩ := of_decide_eq_true hc
    rw [isBody]
    · simp [hquote, hbackslash, hctl, ih hs]
    · exact fun _ _ _ _ _ heq _ => hbackslash heq
    · exact fun _ _ heq _ => hbackslash heq

theorem pieces_of_plain (h : ∀ c ∈ s, isPlain c = true) : pieces s = s.map .byte := by
  induction s with
  | nil => rfl
  | cons c s ih =>
    obtain ⟨hc, hs⟩ := List.forall_mem_cons.1 h
    obtain ⟨-, hbackslash, -⟩ := of_decide_eq_true hc
    rw [pieces_char hbackslash, ih hs]
    rfl

theorem join_bytes (s : List Char) : join (s.map .byte) = s := by
  induction s with
  | nil => rfl
  | cons c s ih => rw [List.map_cons, join, ih]

/-- A plain text denotes itself. -/
theorem decode_of_plain (h : ∀ c ∈ s, isPlain c = true) : decode s = s := by
  rw [decode, pieces_of_plain h, join_bytes]

/-- The text between quotes, if it can stand there. -/
def Body.ofText (s : List Char) : Body := if h : isBody s = true then ⟨s, h⟩ else ⟨[], rfl⟩

theorem Body.raw_ofText (h : isBody s = true) : (Body.ofText s).raw = s := by
  rw [ofText, dif_pos h]

namespace Syn

/-! ## Trees from lists -/

/-- A number. -/
def number (n : Nat) : Syn .value :=
  .bare ⟨Nat.toDigits 10 n, Nat.toDigits_ne_nil, fun c hc => by
    have hdigit : c.isDigit = true := Nat.isDigit_of_mem_toDigits (by decide) (by decide) hc
    simp [isBare, Char.isAlphanum, hdigit]⟩

def ofElems : List (Syn .value) → Syn .elems
  | [] => .noElems
  | v :: vs => .elem .none v .none (ofElems vs)

def ofMembers : List (Body × Syn .value) → Syn .members
  | [] => .noMembers
  | (name, v) :: ms => .member .none name .none .none v .none (ofMembers ms)

/-- The array of the values. -/
def arrayOf (vs : List (Syn .value)) : Syn .value := .array .none (ofElems vs)

/-- The members with these names, which have to be plain, and values. -/
def record (keys : List String) (vs : List (Syn .value)) : Syn .members :=
  ofMembers (List.zipWith (fun key v => (.ofText key.toList, v)) keys vs)

/-- A text that is a string as it is. -/
def plain (s : List Char) : Syn .value := .string (.ofText s)

/-- The word for the truth value. -/
def truth : Syn .value := .bare ⟨['t', 'r', 'u', 'e'], List.cons_ne_nil _ _, List.all_eq_true.1 rfl⟩

theorem text_ofElems (vs : List (Syn .value)) : (ofElems vs).text = [','].intercalate (vs.map text) := by
  induction vs with
  | nil => rfl
  | cons v vs ih =>
    rw [ofElems, text, ih]
    cases vs with
    | nil => simp [Blank.none, ofElems, sep, List.intercalate]
    | cons w vs => simp [Blank.none, ofElems, sep, List.intercalate_cons_cons]

/-- The text of a member. -/
def memberText (m : Body × Syn .value) : List Char := '"' :: (m.1.raw ++ '"' :: ':' :: m.2.text)

theorem text_ofMembers (ms : List (Body × Syn .value)) : (ofMembers ms).text = [','].intercalate (ms.map memberText) := by
  induction ms with
  | nil => rfl
  | cons m ms ih =>
    rw [ofMembers, text, ih]
    cases ms with
    | nil => simp [Blank.none, ofMembers, sep, List.intercalate, memberText]
    | cons m' ms => simp [Blank.none, ofMembers, sep, List.intercalate_cons_cons, memberText]

theorem text_arrayOf (vs : List (Syn .value)) : (arrayOf vs).text = '[' :: ([','].intercalate (vs.map text) ++ [']']) := by
  rw [arrayOf, text, text_ofElems]
  rfl

theorem text_plain (h : isBody s = true) : (plain s).text = '"' :: (s ++ ['"']) := by
  rw [plain, text, Body.raw_ofText h]

theorem text_record {keys : List String} (h : (keys.all fun key => key.toList.all isPlain) = true)
    (vs : List (Syn .value)) : (Syn.object .none (record keys vs)).text =
      '{' :: ([','].intercalate
        (List.zipWith (fun key v => '"' :: (key.toList ++ '"' :: ':' :: text v)) keys vs) ++ ['}']) := by
  have hmembers : (List.zipWith (fun key v => (Body.ofText key.toList, v)) keys vs).map memberText =
      List.zipWith (fun key v => '"' :: (key.toList ++ '"' :: ':' :: text v)) keys vs := by
    induction keys generalizing vs with
    | nil => rfl
    | cons key keys ih =>
      rw [List.all_cons, Bool.and_eq_true] at h
      cases vs with
      | nil => rfl
      | cons v vs =>
        rw [List.zipWith_cons_cons, List.map_cons, List.zipWith_cons_cons, ih h.2, memberText,
          Body.raw_ofText (isBody_of_plain (List.all_eq_true.1 h.1))]
  rw [text, record, text_ofMembers, hmembers]
  rfl

theorem elements_arrayOf (vs : List (Syn .value)) : (arrayOf vs).elements = vs := by
  rw [arrayOf, elements]
  induction vs with
  | nil => rfl
  | cons v vs ih => rw [ofElems, elements, ih]

/-! ## Members -/

/-- The value of the first own member with a name. -/
def ownValue (key : List Char) : {i : Ix} → Syn i → Option (Syn .value)
  | _, .object _ ms => ms.ownValue key
  | _, .member _ name _ _ v _ ms => if decode name.raw = key then some v else ms.ownValue key
  | _, .bare _ | _, .string _ | _, .array _ _ | _, .noElems | _, .elem _ _ _ _ | _, .noMembers => none

/-- What a value denotes, if it is a string. -/
def denoted : Syn .value → Option (List Char)
  | .string s => some (decode s.raw)
  | .bare _ | .array _ _ | .object _ _ => none

theorem denoted_plain (h : ∀ c ∈ s, isPlain c = true) : (plain s).denoted = some s := by
  rw [plain, denoted, Body.raw_ofText (isBody_of_plain h), decode_of_plain h]

end Syn

end JsonTree
