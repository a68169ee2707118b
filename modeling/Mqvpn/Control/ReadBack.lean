import Mqvpn.ConfigFile.Lookup
import Mqvpn.ConfigFile.Values
import Mqvpn.Control.Display
import Mqvpn.Lib.JsonCompact

/-!
# Reading responses

What `status.c` reads of texts that are written as JSON without blanks. An object is skipped to
its end, and one that is cut has no end (`skipJsonValue_object`, `skipJsonValue_take`). A member is
found at its own value if no member with the same name comes before it at any depth
(`findKey_record`). A number is read as it is if it is below 2^63, and a string if it has no
escapes but those of quotes, backslashes and slashes (`unescape_eq_decode_iff`).
-/

namespace Mqvpn.Status

open Json JsonTree Text

/-! ## Skipping an object -/

theorem bracketLoop_eq (depth : Nat) (inStr : Bool) (s : List Char) :
    bracketLoop '{' '}' depth inStr s = (objectEndLoop depth inStr s).map List.tail := by
  fun_induction objectEndLoop depth inStr s with
  | case1 => rfl
  | case2 c cs c' ih => rw [bracketLoop, ih]
  | case3 _ c cs h ih =>
    rw [bracketLoop, ih]
    exact h
  | case4 depth cs ih => rw [bracketLoop, if_pos rfl, ih]
  | case5 depth cs h ih => rw [bracketLoop, if_neg h, if_pos rfl, ih]
  | case6 cs h₁ h₂ =>
    rw [bracketLoop, if_neg h₁, if_neg h₂, if_pos rfl, if_pos rfl]
    rfl
  | case7 depth cs h₁ h₂ h₃ ih => rw [bracketLoop, if_neg h₁, if_neg h₂, if_pos rfl, if_neg h₃, ih]
  | case8 depth c cs h₁ h₂ h₃ ih => rw [bracketLoop, if_neg h₁, if_neg h₂, if_neg h₃, ih]

theorem bracketLoop_append {opening closing : Char} {depth : Nat} {inStr : Bool} {s stop : List Char} (more : List Char)
    (h : bracketLoop opening closing depth inStr s = some stop) :
    bracketLoop opening closing depth inStr (s ++ more) = some (stop ++ more) := by
  fun_induction bracketLoop opening closing depth inStr s with
  | case1 => cases h
  | case2 c cs c' ih => exact ih h
  | case3 _ c cs hslash ih =>
    cases cs with
    | nil => cases h
    | cons c' cs =>
      rw [List.cons_append, bracketLoop]
      · exact ih h
      · intro c cs heq hcs
        exact hslash _ _ heq rfl
  | case4 c cs ih =>
    rw [List.cons_append, bracketLoop, if_pos rfl]
    exact ih h
  | case5 c cs h₁ ih =>
    rw [List.cons_append, bracketLoop, if_neg h₁, if_pos rfl]
    exact ih h
  | case6 c cs h₁ =>
    rw [List.cons_append, bracketLoop, if_neg ‹_›, if_neg ‹_›, if_pos rfl, if_pos rfl]
    cases h
    rfl
  | case7 _ cs _ _ _ ih =>
    rw [List.cons_append, bracketLoop, if_neg ‹_›, if_neg ‹_›, if_pos rfl, if_neg ‹_›]
    exact ih h
  | case8 _ c cs _ _ _ ih =>
    rw [List.cons_append, bracketLoop, if_neg ‹_›, if_neg ‹_›, if_neg ‹_›]
    exact ih h

/-- The text of an object. -/
def IsObject (obj : List Char) : Prop := ∃ (ws : Blank) (ms : Syn .members), obj = (Syn.object ws ms).text

theorem IsObject.exists_cons {obj : List Char} (h : IsObject obj) : ∃ cs, obj = '{' :: cs := by
  obtain ⟨ws, ms, rfl⟩ := h
  exact ⟨_, rfl⟩

theorem skipJsonValue_object {obj : List Char} (h : IsObject obj) (rest : List Char) :
    skipJsonValue (obj ++ rest) = some rest := by
  obtain ⟨ws, ms, rfl⟩ := h
  have hend := objectEnd_text ws ms rest
  have hhead : ((Syn.object ws ms).text ++ rest).head? = some '{' := rfl
  rw [objectEnd, if_pos hhead, Syn.text, List.cons_append, objectEndLoop, if_neg (by decide), if_pos rfl] at hend
  rw [Syn.text, List.cons_append, skipJsonValue_brace, bracketLoop_eq, hend]
  rfl

/-- An object that is cut does not end. -/
theorem skipJsonValue_take {obj : List Char} (h : IsObject obj) {k : Nat} (hpos : 0 < k) (hlt : k < obj.length) :
    skipJsonValue (obj.take k) = none := by
  have hall := skipJsonValue_object h []
  obtain ⟨cs, rfl⟩ := h.exists_cons
  obtain ⟨k, rfl⟩ := Nat.exists_eq_succ_of_ne_zero hpos.ne'
  rw [List.append_nil, skipJsonValue_brace] at hall
  rw [List.take_succ_cons, skipJsonValue_brace]
  cases hcut : bracketLoop '{' '}' 1 false (cs.take k) with
  | none => rfl
  | some stop =>
    have hlong := bracketLoop_append (cs.drop k) hcut
    rw [List.take_append_drop, hall] at hlong
    have hlength := congrArg List.length (Option.some.inj hlong)
    rw [List.length_append, List.length_drop, List.length_nil] at hlength
    rw [List.length_cons] at hlt
    omega

/-! ## Searching an object -/

/-- The value has no members. -/
def Leaf (v : Syn .value) : Prop := ∀ rest, v.named rest = []

theorem leaf_number (n : Nat) : Leaf (.number n) := fun _ => rfl

theorem leaf_plain (s : List Char) : Leaf (.plain s) := fun _ => rfl

theorem ends_ofMembers (ms : List (Body × Syn .value)) {rest : List Char} (h : Ends rest) :
    Ends (Blank.none.chars ++ (Syn.ofMembers ms).sep ++ (Syn.ofMembers ms).text ++ rest) := by
  cases ms with
  | nil => exact h
  | cons m ms => exact .inl rfl

/-- The first member with a key is found if there are no members in the values before it. -/
theorem lookup_record {keys : List String} {vs : List (Syn .value)} {i : Nat} {key : String} {v : Syn .value}
    (hplain : (keys.all fun key => key.toList.all isPlain) = true) (hkey : keys[i]? = some key) (hv : vs[i]? = some v)
    (hfirst : key ∉ keys.take i) (hleaf : ∀ w ∈ vs.take i, Leaf w) {rest : List Char} (hrest : Ends rest) :
    ∃ tail, Ends tail ∧ ((Syn.record keys vs).named rest).lookup key.toList = some (v.text ++ tail) := by
  induction i generalizing keys vs with
  | zero =>
    obtain ⟨keys, rfl⟩ : ∃ ks, keys = key :: ks := ⟨keys.tail, (List.cons_head?_tail (List.head?_eq_getElem? ▸ hkey)).symm⟩
    obtain ⟨vs, rfl⟩ : ∃ ws, vs = v :: ws := ⟨vs.tail, (List.cons_head?_tail (List.head?_eq_getElem? ▸ hv)).symm⟩
    rw [List.all_cons, Bool.and_eq_true] at hplain
    refine ⟨_, ends_ofMembers (List.zipWith (fun key v => (.ofText key.toList, v)) keys vs) hrest, ?_⟩
    rw [Syn.record, List.zipWith_cons_cons, Syn.ofMembers, Syn.named,
      Body.raw_ofText (isBody_of_plain (List.all_eq_true.1 hplain.1)), List.lookup_cons_self]
  | succ i ih =>
    obtain ⟨k, keys, rfl⟩ := List.exists_cons_of_ne_nil (l := keys) (by rintro rfl; cases hkey)
    obtain ⟨w, vs, rfl⟩ := List.exists_cons_of_ne_nil (l := vs) (by rintro rfl; cases hv)
    rw [List.all_cons, Bool.and_eq_true] at hplain
    rw [List.take_succ_cons, List.mem_cons, not_or] at hfirst
    rw [List.take_succ_cons] at hleaf
    obtain ⟨hw, hleaf⟩ := List.forall_mem_cons.1 hleaf
    obtain ⟨tail, hends, htail⟩ := ih hplain.2 hkey hv hfirst.2 hleaf
    refine ⟨tail, hends, ?_⟩
    have hne : (key.toList == k.toList) = false := beq_eq_false_iff_ne.2 fun h => hfirst.1 (String.toList_injective h)
    rw [Syn.record, List.zipWith_cons_cons, Syn.ofMembers, Syn.named,
      Body.raw_ofText (isBody_of_plain (List.all_eq_true.1 hplain.1)), List.lookup_cons, hne, hw, List.nil_append]
    exact htail

/-- So it is found in the text of the object. -/
theorem findKey_record {keys : List String} {vs : List (Syn .value)} {i : Nat} {key : String} {v : Syn .value}
    (hplain : (keys.all fun key => key.toList.all isPlain) = true) (hkey : keys[i]? = some key) (hv : vs[i]? = some v)
    (hfirst : key ∉ keys.take i) (hleaf : ∀ w ∈ vs.take i, Leaf w) :
    ∃ tail, Ends tail ∧
      findKey key.toList (Syn.object .none (.record keys vs)).text = some (v.text ++ tail) := by
  obtain ⟨tail, hends, hlookup⟩ := lookup_record hplain hkey hv hfirst hleaf (.inr (.inl rfl) : Ends ['}'])
  refine ⟨tail, hends, ?_⟩
  have hfind := findKey_object_text .none (Syn.record keys vs) key.toList []
  rw [List.append_nil, Syn.named, hlookup, Option.some_or] at hfind
  exact hfind

/-! ## Reading values -/

/-- The literal that a number is printed as. -/
def literalOf (n : Nat) : ConfigFile.Literal where
  neg := false
  digits := decimal n
  ne_nil := decimal_ne_nil n
  digit c hc := by
    have hdigit := isDigit_of_mem_decimal hc
    simp only [Char.isDigit, Bool.and_eq_true, decide_eq_true_eq] at hdigit
    rw [digit, if_pos (show '0' ≤ c ∧ c ≤ '9' from hdigit)]
    rfl

theorem long_literalOf (n : Nat) : (literalOf n).long = min (n : Int) (2 ^ 63 - 1) := by
  have hnat : (literalOf n).nat = n := congrArg Prod.fst (digits_decimal n)
  have hsign : (if (literalOf n).neg then -1 else 1 : Int) = 1 := rfl
  rw [ConfigFile.Literal.long, hnat, hsign]
  omega

/-- A number from 2^63 on is not read as it is. -/
theorem readInt64_number (n : Nat) {tail : List Char} (h : Ends tail) :
    readInt64 (some ((Syn.number n).text ++ tail)) = min (n : Int) (2 ^ 63 - 1) := by
  have htext : (literalOf n).text = (Syn.number n).text := rfl
  rw [readInt64, ← htext, (literalOf n).strtol_text (ConfigFile.Literal.stops_of_ends h), long_literalOf]
  rfl

/-- The largest `int64_t`. -/
def int64Max : Nat := 2 ^ 63 - 1

theorem toUInt64_min (n : Nat) : toUInt64 (min (n : Int) (2 ^ 63 - 1)) = min n int64Max := by
  rw [toUInt64, int64Max]
  omega

theorem stringBuf_plain {s : List Char} (h : isBody s = true) (tail : List Char) (outLen : Nat) :
    stringBuf ((Syn.plain s).text ++ tail) outLen = (unescape s).take (outLen - 1) := by
  rw [Syn.text_plain h, List.cons_append, List.append_assoc, List.singleton_append, stringBuf, literal_body h]

theorem length_unescape_le (s : List Char) : (unescape s).length ≤ s.length := by
  induction s using unescape.induct with
  | case1 => exact Nat.le_refl 0
  | case2 c cs ih => exact Nat.le_succ_of_le (Nat.succ_le_succ ih)
  | case3 c cs h ih =>
    rw [unescape]
    · exact Nat.succ_le_succ ih
    · exact h

/-! ## Escapes -/

/-- The escapes mean the character behind the backslash. -/
def plainEscapes : List Char → Bool
  | [] => true
  | '\\' :: e :: cs => (e ∈ "\"\\/".toList : Bool) && plainEscapes cs
  | _ :: cs => plainEscapes cs

theorem unescape_cons {c : Char} (h : c ≠ '\\') (cs : List Char) : unescape (c :: cs) = c :: unescape cs := by
  rw [unescape]
  exact fun _ _ hslash => absurd hslash h

/-- The number of pieces that are units of UTF-16. -/
def units : List Piece → Nat
  | [] => 0
  | .unit _ :: ps => units ps + 1
  | .byte _ :: ps => units ps

/-- The number of characters that a unit leaves if its backslash is left out. -/
def width : List Piece → Nat
  | [] => 0
  | .unit _ :: ps => width ps + 5
  | .byte _ :: ps => width ps + 1

theorem length_unescape {raw : List Char} (h : isBody raw = true) : (unescape raw).length = width (pieces raw) := by
  induction raw, h using isBody_induction with
  | nil => rfl
  | unit a b c d cs _ ha hb hc hd _ ih =>
    rw [unescape, unescape_cons (isHex_plain ha).2, unescape_cons (isHex_plain hb).2, unescape_cons (isHex_plain hc).2,
      unescape_cons (isHex_plain hd).2, pieces, width, ← ih]
    rfl
  | escape e cs _ he _ ih => rw [unescape, pieces_escape he, width, ← ih, List.length_cons]
  | char c cs _ hslash _ _ _ ih => rw [unescape_cons hslash, pieces_char hslash, width, ← ih, List.length_cons]

theorem length_utf8_le (n : Nat) : (utf8 n).length ≤ 4 := by
  rw [utf8]
  split_ifs <;> simp

/-- What a unit means is shorter than the unit. -/
theorem length_join_le (ps : List Piece) : (join ps).length + units ps ≤ width ps := by
  fun_induction join ps with
  | case1 => exact Nat.le_refl 0
  | case2 hi lo ps hsurrogates ih =>
    have := length_utf8_le (0x10000 + (hi - 0xd800) * 1024 + (lo - 0xdc00))
    rw [List.length_append, units, units, width, width]
    omega
  | case3 hi lo ps hsurrogates ih =>
    have := length_utf8_le hi
    rw [List.length_append, units, width]
    omega
  | case4 n ps hunit ih =>
    have := length_utf8_le n
    rw [List.length_append, units, width]
    omega
  | case5 c ps ih =>
    rw [List.length_cons, units, width]
    omega

theorem plainEscapes_cons {c : Char} (h : c ≠ '\\') (cs : List Char) : plainEscapes (c :: cs) = plainEscapes cs := by
  rw [plainEscapes]
  exact fun _ _ hslash => absurd hslash h

/-- Without units, the characters are compared one by one. -/
theorem plainEscapes_of_units {raw : List Char} (h : isBody raw = true) (hunits : units (pieces raw) = 0)
    (heq : unescape raw = decode raw) : plainEscapes raw = true := by
  induction raw, h using isBody_induction with
  | nil => rfl
  | unit a b c d cs _ _ _ _ _ _ _ =>
    rw [pieces, units] at hunits
    cases hunits
  | escape e cs _ he _ ih =>
    rw [pieces_escape he, units] at hunits
    rw [unescape, decode, pieces_escape he, join, List.cons.injEq] at heq
    have hescapes : ∀ e ∈ "\"\\/bfnrt".toList, e = escaped e → e ∈ "\"\\/".toList := by decide
    rw [plainEscapes, Bool.and_eq_true]
    exact ⟨decide_eq_true (hescapes e he heq.1), ih hunits heq.2⟩
  | char c cs _ hslash _ _ _ ih =>
    rw [pieces_char hslash, units] at hunits
    rw [unescape_cons hslash, decode, pieces_char hslash, join, List.cons.injEq] at heq
    rw [plainEscapes_cons hslash]
    exact ih hunits heq.2

theorem unescape_of_plainEscapes {raw : List Char} (h : isBody raw = true) (hplain : plainEscapes raw = true) :
    unescape raw = decode raw := by
  induction raw, h using isBody_induction with
  | nil => rfl
  | unit a b c d cs _ _ _ _ _ _ _ =>
    rw [plainEscapes] at hplain
    exact absurd hplain (by simp)
  | escape e cs _ he _ ih =>
    rw [plainEscapes, Bool.and_eq_true] at hplain
    have hescapes : ∀ e ∈ "\"\\/".toList, escaped e = e := by decide
    rw [unescape, ih hplain.2, decode, decode, pieces_escape he, join, hescapes e (of_decide_eq_true hplain.1)]
  | char c cs _ hslash _ _ _ ih =>
    rw [plainEscapes_cons hslash] at hplain
    rw [unescape_cons hslash, ih hplain, decode, decode, pieces_char hslash, join]

/-- A string is read as what it means exactly if its escapes are plain. -/
theorem unescape_eq_decode_iff {raw : List Char} (h : isBody raw = true) :
    unescape raw = decode raw ↔ plainEscapes raw = true := by
  refine ⟨fun heq => plainEscapes_of_units h ?_ heq, unescape_of_plainEscapes h⟩
  have hle := length_join_le (pieces raw)
  have hlength := congrArg List.length heq
  rw [length_unescape h, decode] at hlength
  omega

/-! ## Reading members -/

section Record

variable {keys : List String} {vs : List (Syn .value)} {key : String} (i : Nat)
  (hplain : (keys.all fun key => key.toList.all isPlain) = true) (hkey : keys[i]? = some key)
  (hfirst : key ∉ keys.take i) (hleaf : ∀ w ∈ vs.take i, Leaf w)

include hplain hkey hfirst hleaf

theorem readInt64_record {n : Nat} (hv : vs[i]? = some (.number n)) :
    readInt64 (findKey key.toList (Syn.object .none (.record keys vs)).text) = min (n : Int) (2 ^ 63 - 1) := by
  obtain ⟨tail, hends, hfind⟩ := findKey_record hplain hkey hv hfirst hleaf
  rw [hfind, readInt64_number n hends]

theorem toUInt64_record {n : Nat} (hv : vs[i]? = some (.number n)) :
    toUInt64 (readInt64 (findKey key.toList (Syn.object .none (.record keys vs)).text)) = min n int64Max := by
  rw [readInt64_record i hplain hkey hfirst hleaf hv, toUInt64_min]

theorem stringBuf_record {s : List Char} (hv : vs[i]? = some (.plain s)) (hs : isBody s = true) (hlength : s.length ≤ 63) :
    ((findKey key.toList (Syn.object .none (.record keys vs)).text).map (stringBuf · 64)).getD [] = unescape s := by
  obtain ⟨tail, -, hfind⟩ := findKey_record hplain hkey hv hfirst hleaf
  rw [hfind, Option.map_some, Option.getD_some, stringBuf_plain hs]
  exact List.take_of_length_le ((length_unescape_le s).trans hlength)

end Record

end Mqvpn.Status
