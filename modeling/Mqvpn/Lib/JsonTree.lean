import Mathlib.Data.List.Basic

/-!
# JSON texts

The syntax of a JSON text with its layout: values, the elements of arrays and the members of
objects are one indexed family (`Syn`), whose trees hold the texts of tokens as they are
written and the blanks between them. So a tree has one text (`Syn.text`), and every
well-formed text is that of a tree.

A member is found in a text by the text from its value on. `Syn.named` lists the members at
any depth in the order of the text, `Syn.own` those of an object itself.
-/

namespace JsonTree

/-! ## Tokens -/

/-- A character that JSON allows between tokens. -/
def isBlank (c : Char) : Bool := c = ' ' ∨ c = '\t' ∨ c = '\n' ∨ c = '\r'

/-- Blanks between tokens. -/
structure Blank where
  chars : List Char
  blank : ∀ c ∈ chars, isBlank c = true

/-- No blanks. -/
def Blank.none : Blank := ⟨[], fun _ h => by cases h⟩

/-- A character of a number, or of one of the words `true`, `false` and `null`. -/
def isBare (c : Char) : Bool := c.isAlphanum ∨ c = '-' ∨ c = '+' ∨ c = '.'

/-- A value that is neither a string nor has brackets. -/
structure Bare where
  chars : List Char
  ne_nil : chars ≠ []
  bare : ∀ c ∈ chars, isBare c = true

/-- A hexadecimal digit. -/
def isHex (c : Char) : Bool := c.isDigit ∨ ('a' ≤ c ∧ c ≤ 'f') ∨ ('A' ≤ c ∧ c ≤ 'F')

/-- What may stand between the quotes of a string. -/
def isBody : List Char → Bool
  | [] => true
  | '\\' :: 'u' :: a :: b :: c :: d :: cs => isHex a && isHex b && isHex c && isHex d && isBody cs
  | '\\' :: e :: cs => (e ∈ "\"\\/bfnrt".toList : Bool) && isBody cs
  | c :: cs => c ≠ '\\' && c ≠ '"' && 0x20 ≤ c.toNat && isBody cs

/-- Induction along what stands between quotes: units of UTF-16, other escapes, and characters
    that stand for themselves. -/
theorem isBody_induction {P : ∀ raw, isBody raw = true → Prop} (nil : P [] rfl)
    (unit : ∀ a b c d cs h, isHex a = true → isHex b = true → isHex c = true → isHex d = true → ∀ hcs, P cs hcs →
      P ('\\' :: 'u' :: a :: b :: c :: d :: cs) h)
    (escape : ∀ e cs h, e ∈ "\"\\/bfnrt".toList → ∀ hcs, P cs hcs → P ('\\' :: e :: cs) h)
    (char : ∀ c cs h, c ≠ '\\' → c ≠ '"' → 0x20 ≤ c.toNat → ∀ hcs, P cs hcs → P (c :: cs) h)
    (raw : List Char) (h : isBody raw = true) : P raw h := by
  induction raw using isBody.induct with
  | case1 => exact nil
  | case2 a b c d cs ih =>
    have hbody := h
    simp only [isBody, Bool.and_eq_true] at hbody
    obtain ⟨⟨⟨⟨ha, hb⟩, hc⟩, hd⟩, hcs⟩ := hbody
    exact unit a b c d cs h ha hb hc hd hcs (ih hcs)
  | case3 e cs hunit ih =>
    have hbody := h
    rw [isBody, Bool.and_eq_true, decide_eq_true_eq] at hbody
    · exact escape e cs h hbody.1 hbody.2 (ih hbody.2)
    · exact hunit
  | case4 c cs hunit hescape ih =>
    have hbody := h
    rw [isBody] at hbody
    · simp only [Bool.and_eq_true, decide_eq_true_eq] at hbody
      obtain ⟨⟨⟨hslash, hquote⟩, hctl⟩, hcs⟩ := hbody
      exact char c cs h hslash hquote hctl hcs (ih hcs)
    · exact hunit
    · exact hescape

/-- A string, as it is written between its quotes. -/
structure Body where
  raw : List Char
  body : isBody raw = true

/-! ## What strings denote -/

/-- The value of a hexadecimal digit. -/
def hexValue (c : Char) : Nat :=
  if c.isDigit then c.toNat - '0'.toNat
  else if 'a' ≤ c ∧ c ≤ 'f' then c.toNat - 'a'.toNat + 10
  else c.toNat - 'A'.toNat + 10

/-- A byte of a string, or a unit of UTF-16 that is written as an escape. -/
inductive Piece
  | byte (c : Char)
  | unit (n : Nat)

/-- The character of an escape with one letter. -/
def escaped (e : Char) : Char :=
  if e = 'b' then '\x08' else if e = 'f' then '\x0c' else if e = 'n' then '\n' else if e = 'r' then '\r'
  else if e = 't' then '\t' else e

def pieces : List Char → List Piece
  | [] => []
  | '\\' :: 'u' :: a :: b :: c :: d :: cs =>
    .unit (((hexValue a * 16 + hexValue b) * 16 + hexValue c) * 16 + hexValue d) :: pieces cs
  | '\\' :: e :: cs => .byte (escaped e) :: pieces cs
  | c :: cs => .byte c :: pieces cs

theorem pieces_escape {e : Char} (h : e ∈ "\"\\/bfnrt".toList) (cs : List Char) :
    pieces ('\\' :: e :: cs) = .byte (escaped e) :: pieces cs := by
  rw [pieces]
  rintro a b c d cs' rfl -
  exact absurd h (by decide)

theorem pieces_char {c : Char} (h : c ≠ '\\') (cs : List Char) : pieces (c :: cs) = .byte c :: pieces cs := by
  rw [pieces]
  · exact fun _ _ _ _ _ hslash _ => h hslash
  · exact fun _ _ hslash _ => h hslash

/-- The bytes of a code point in UTF-8. -/
def utf8 (n : Nat) : List Char :=
  if n < 0x80 then [.ofNat n]
  else if n < 0x800 then [.ofNat (0xc0 + n / 64), .ofNat (0x80 + n % 64)]
  else if n < 0x10000 then [.ofNat (0xe0 + n / 4096), .ofNat (0x80 + n / 64 % 64), .ofNat (0x80 + n % 64)]
  else [.ofNat (0xf0 + n / 262144), .ofNat (0x80 + n / 4096 % 64), .ofNat (0x80 + n / 64 % 64), .ofNat (0x80 + n % 64)]

/-- The bytes of the pieces; two units that are surrogates are one code point. -/
def join : List Piece → List Char
  | [] => []
  | .unit hi :: .unit lo :: ps =>
    if 0xd800 ≤ hi ∧ hi < 0xdc00 ∧ 0xdc00 ≤ lo ∧ lo < 0xe000 then
      utf8 (0x10000 + (hi - 0xd800) * 1024 + (lo - 0xdc00)) ++ join ps
    else utf8 hi ++ join (.unit lo :: ps)
  | .unit n :: ps => utf8 n ++ join ps
  | .byte c :: ps => c :: join ps

/-- The bytes that a string denotes, from what is written between its quotes. -/
def decode (raw : List Char) : List Char := join (pieces raw)

/-! ## Trees -/

/-- What a tree is the syntax of. -/
inductive Ix
  | value | elems | members

/-- A value, or what is left of the elements of an array or the members of an object. -/
inductive Syn : Ix → Type
  | bare (t : Bare) : Syn .value
  | string (s : Body) : Syn .value
  | array (ws : Blank) (es : Syn .elems) : Syn .value
  | object (ws : Blank) (ms : Syn .members) : Syn .value
  | noElems : Syn .elems
  | elem (before : Blank) (v : Syn .value) (after : Blank) (es : Syn .elems) : Syn .elems
  | noMembers : Syn .members
  | member (before : Blank) (name : Body) (beforeColon afterColon : Blank) (v : Syn .value) (after : Blank)
      (ms : Syn .members) : Syn .members

namespace Syn

variable {i : Ix}

/-- The comma before elements or members, if there are any. -/
def sep : {i : Ix} → Syn i → List Char
  | _, .elem _ _ _ _ => [',']
  | _, .member _ _ _ _ _ _ _ => [',']
  | _, _ => []

/-- The text, from its first token on. -/
def text : {i : Ix} → Syn i → List Char
  | _, .bare t => t.chars
  | _, .string s => '"' :: (s.raw ++ ['"'])
  | _, .array ws es => '[' :: (ws.chars ++ es.text ++ [']'])
  | _, .object ws ms => '{' :: (ws.chars ++ ms.text ++ ['}'])
  | _, .noElems => []
  | _, .elem before v after es => before.chars ++ v.text ++ after.chars ++ es.sep ++ es.text
  | _, .noMembers => []
  | _, .member before name beforeColon afterColon v after ms =>
    before.chars ++ '"' :: (name.raw ++ '"' :: (beforeColon.chars ++ ':' :: (afterColon.chars ++ v.text ++ after.chars ++
      ms.sep ++ ms.text)))

/-- The members at any depth in the order of the text, with their names as they are written,
    and the text from their values on, if `rest` is what follows. -/
def named : {i : Ix} → Syn i → List Char → List (List Char × List Char)
  | _, .bare _, _ => []
  | _, .string _, _ => []
  | _, .array _ es, rest => es.named (']' :: rest)
  | _, .object _ ms, rest => ms.named ('}' :: rest)
  | _, .noElems, _ => []
  | _, .elem _ v after es, rest => v.named (after.chars ++ es.sep ++ es.text ++ rest) ++ es.named rest
  | _, .noMembers, _ => []
  | _, .member _ name _ _ v after ms, rest =>
    (name.raw, v.text ++ (after.chars ++ ms.sep ++ ms.text ++ rest)) ::
      (v.named (after.chars ++ ms.sep ++ ms.text ++ rest) ++ ms.named rest)

/-- The members of an object itself. -/
def own : {i : Ix} → Syn i → List Char → List (List Char × List Char)
  | _, .object _ ms, rest => ms.own ('}' :: rest)
  | _, .member _ name _ _ v after ms, rest =>
    (name.raw, v.text ++ (after.chars ++ ms.sep ++ ms.text ++ rest)) :: ms.own rest
  | _, .bare _, _ | _, .string _, _ | _, .array _ _, _ | _, .noElems, _ | _, .elem _ _ _ _, _ | _, .noMembers, _ => []

/-- The elements of an array. -/
def elements : {i : Ix} → Syn i → List (Syn .value)
  | _, .array _ es => es.elements
  | _, .elem _ v _ es => v :: es.elements
  | _, .bare _ | _, .string _ | _, .object _ _ | _, .noElems | _, .noMembers | _, .member _ _ _ _ _ _ _ => []

theorem text_value_pos (t : Syn .value) : 0 < t.text.length := by
  cases t with
  | bare t => exact List.length_pos_iff.2 t.ne_nil
  | string s => exact Nat.succ_pos _
  | array ws es => exact Nat.succ_pos _
  | object ws ms => exact Nat.succ_pos _

/-- The values of members begin before what follows the text. -/
theorem length_of_mem_named (t : Syn i) {rest : List Char} {m : List Char × List Char} (h : m ∈ t.named rest) :
    rest.length < m.2.length := by
  induction t generalizing rest with
  | bare t => cases h
  | string s => cases h
  | array ws es ih => exact Nat.lt_of_succ_lt (ih h)
  | object ws ms ih => exact Nat.lt_of_succ_lt (ih h)
  | noElems => cases h
  | elem before v after es ihv ihes =>
    rcases List.mem_append.1 h with h | h
    · have := ihv h
      simp only [List.length_append] at this
      omega
    · exact ihes h
  | noMembers => cases h
  | member before name beforeColon afterColon v after ms ihv ihms =>
    rcases List.mem_cons.1 h with rfl | h
    · have := v.text_value_pos
      simp only [List.length_append]
      omega
    rcases List.mem_append.1 h with h | h
    · have := ihv h
      simp only [List.length_append] at this
      omega
    · exact ihms h

/-- The members of an object are among those at any depth. -/
theorem own_sublist (t : Syn i) (rest : List Char) : (t.own rest).Sublist (t.named rest) := by
  induction t generalizing rest with
  | object ws ms ih => exact ih ('}' :: rest)
  | member before name beforeColon afterColon v after ms ihv ihms =>
    exact .cons_cons _ ((ihms rest).trans (List.sublist_append_right _ _))
  | bare t | string s | array ws es ih | noElems | elem before v after es ihv ihes | noMembers => exact List.nil_sublist _

/-- What the first own member with a name denotes, if it is a string. -/
def ownString (key : List Char) : {i : Ix} → Syn i → Option (List Char)
  | _, .object _ ms => ms.ownString key
  | _, .member _ name _ _ v _ ms =>
    if decode name.raw = key then
      match v with
      | .string s => some (decode s.raw)
      | _ => none
    else ms.ownString key
  | _, .bare _ | _, .string _ | _, .array _ _ | _, .noElems | _, .elem _ _ _ _ | _, .noMembers => none

end Syn

end JsonTree
