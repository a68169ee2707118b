import Mqvpn.ConfigFile.Json
import Mqvpn.Lib.JsonTree
import Mathlib.Tactic.IntervalCases

/-!
# Lookups in well-formed JSON

`json_find_key` in the text of a JSON tree, with any layout. The search is flat: it takes
strings for names wherever a colon follows them, so that it finds the first member in the
order of the text, at any depth, with the name as it is written (`findKey_text`). What
`json_object_end` adds is that a search does not leave an object (`findKeyBounded_object`).
-/

namespace Mqvpn.Json

open Text JsonTree

variable {i : Ix} {key rest : List Char}

/-! ## Tokens -/

theorem isSpace_of_blank {c : Char} (h : isBlank c = true) : isSpace c = true := by
  rw [isBlank, decide_eq_true_eq] at h
  rcases h with rfl | rfl | rfl | rfl <;> decide

theorem skipWs_blank (ws : Blank) (s : List Char) : skipWs (ws.chars ++ s) = skipWs s := by
  rw [skipWs, List.dropWhile_append_of_pos fun c hc => isSpace_of_blank (ws.blank c hc), skipWs]

theorem quote_notMem_blank (ws : Blank) : '"' ∉ ws.chars := fun h => absurd (ws.blank _ h) (by decide)

theorem isSpace_of_bare {c : Char} (h : isBare c = true) : isSpace c = false := by
  refine Bool.eq_false_iff.2 fun hspace => ?_
  rw [isSpace, decide_eq_true_eq] at hspace
  rcases hspace with rfl | ⟨hlo, hhi⟩
  · exact absurd h (by decide)
  · rw [← Char.ofNat_toNat c] at h
    generalize c.toNat = n at h hlo hhi
    interval_cases n <;> exact absurd h (by decide)

/-- The value does not start with a blank or a colon. -/
theorem value_starts (v : Syn .value) : ∃ c cs, v.text = c :: cs ∧ isSpace c = false ∧ c ≠ ':' := by
  cases v with
  | bare t =>
    obtain ⟨c, cs, h⟩ := List.exists_cons_of_ne_nil t.ne_nil
    have hbare := t.bare c (h ▸ List.mem_cons_self)
    exact ⟨c, cs, h, isSpace_of_bare hbare, fun hcolon => absurd (hcolon ▸ hbare) (by decide)⟩
  | string s => exact ⟨'"', _, rfl, by decide, by decide⟩
  | array ws es => exact ⟨'[', _, rfl, by decide, by decide⟩
  | object ws ms => exact ⟨'{', _, rfl, by decide, by decide⟩

theorem isHex_plain {c : Char} (h : isHex c = true) : c ≠ '"' ∧ c ≠ '\\' := by
  constructor <;> rintro rfl <;> exact absurd h (by decide)

theorem literal_cons {c : Char} (hquote : c ≠ '"') (hslash : c ≠ '\\') (cs : List Char) :
    literal (c :: cs) = (literal cs).map fun (s, rest) => (c :: s, rest) := by
  rw [literal]
  · exact hquote
  · exact fun _ _ h => absurd h hslash

/-- A string is read to its closing quote. -/
theorem literal_body {raw : List Char} (h : isBody raw = true) (rest : List Char) :
    literal (raw ++ '"' :: rest) = some (raw, rest) := by
  induction raw, h using isBody_induction with
  | nil => rfl
  | unit a b c d cs _ ha hb hc hd _ ih =>
    simp only [List.cons_append]
    rw [literal, literal_cons (isHex_plain ha).1 (isHex_plain ha).2, literal_cons (isHex_plain hb).1 (isHex_plain hb).2,
      literal_cons (isHex_plain hc).1 (isHex_plain hc).2, literal_cons (isHex_plain hd).1 (isHex_plain hd).2, ih]
    rfl
  | escape e cs _ _ _ ih =>
    rw [List.cons_append, List.cons_append, literal, ih]
    rfl
  | char c cs _ hslash hquote _ _ ih =>
    rw [List.cons_append, literal_cons hquote hslash, ih]
    rfl

theorem quote_notMem_bare (t : Bare) : '"' ∉ t.chars := fun h => absurd (t.bare _ h) (by decide)

/-! ## The search -/

/-- No colon follows. -/
def NoColon (rest : List Char) : Prop := (skipWs rest).head? ≠ some ':'

theorem noColon_cons {c : Char} (hspace : isSpace c = false) (hcolon : c ≠ ':') (cs : List Char) : NoColon (c :: cs) := by
  rw [NoColon, skipWs, List.dropWhile_cons_of_neg (by simp [hspace])]
  simpa using hcolon

/-- Behind a value of a list there is a comma, or what is behind the list. -/
theorem noColon_tail (after : Blank) (t : Syn i) (hempty : t.sep = [] → t.text = []) (h : NoColon rest) :
    NoColon (after.chars ++ t.sep ++ t.text ++ rest) := by
  rw [NoColon, List.append_assoc, List.append_assoc, skipWs_blank]
  cases ht : t.sep with
  | nil =>
    rw [hempty ht]
    exact h
  | cons c cs =>
    have hcomma : c = ',' := by
      cases t <;> cases ht <;> rfl
    exact noColon_cons (hcomma ▸ rfl) (hcomma ▸ by decide) _

theorem text_of_sep {t : Syn .elems} (h : t.sep = []) : t.text = [] := by
  cases t with
  | noElems => rfl
  | elem => cases h

theorem text_of_sep_members {t : Syn .members} (h : t.sep = []) : t.text = [] := by
  cases t with
  | noMembers => rfl
  | member => cases h

theorem quote_notMem_sep (t : Syn i) : '"' ∉ t.sep := by
  cases t <;> simp [Syn.sep]

/-- What `findKey` does at the opening quote of a string. -/
theorem findKey_body (s : Body) (rest : List Char) :
    findKey key ('"' :: (s.raw ++ '"' :: rest)) =
      if s.raw = key then
        match skipWs rest with
        | ':' :: v => some (skipWs v)
        | _ => findKey key rest
      else findKey key rest := by
  rw [findKey, if_pos rfl]
  split
  · rename_i hl
    rw [literal_body s.body] at hl
    cases hl
  · rename_i hl
    rw [literal_body s.body] at hl
    cases hl
    rfl

/-- The search finds the first member with the name in the order of the text. -/
theorem findKey_text (t : Syn i) (h : NoColon rest) :
    findKey key (t.text ++ rest) = ((t.named rest).lookup key).or (findKey key rest) := by
  induction t generalizing rest with
  | bare t => exact findKey_append (quote_notMem_bare t) rest
  | string s =>
    rw [Syn.text, List.cons_append, List.append_assoc, List.singleton_append, findKey_body, Syn.named, List.lookup_nil,
      Option.none_or]
    split_ifs
    · split
      · rename_i hrest
        rw [NoColon, hrest] at h
        exact absurd rfl h
      · rfl
    · rfl
  | array ws es ih =>
    rw [Syn.text, List.cons_append, List.append_assoc, List.append_assoc, List.singleton_append, findKey_cons (by decide),
      findKey_append (quote_notMem_blank ws), ih (noColon_cons rfl (by decide) rest), findKey_cons (by decide), Syn.named]
  | object ws ms ih =>
    rw [Syn.text, List.cons_append, List.append_assoc, List.append_assoc, List.singleton_append, findKey_cons (by decide),
      findKey_append (quote_notMem_blank ws), ih (noColon_cons rfl (by decide) rest), findKey_cons (by decide), Syn.named]
  | noElems => rfl
  | elem before v after es ihv ihes =>
    rw [Syn.text, Syn.named, List.lookup_append]
    simp only [List.append_assoc] at ihv ⊢
    rw [findKey_append (quote_notMem_blank before), ihv (by simpa using noColon_tail after es text_of_sep h),
      findKey_append (quote_notMem_blank after), findKey_append (quote_notMem_sep es), ihes h, Option.or_assoc]
  | noMembers => rfl
  | member before name beforeColon afterColon v after ms ihv ihms =>
    obtain ⟨c, cs, hv, hspace, -⟩ := value_starts v
    rw [Syn.text, Syn.named]
    simp only [List.append_assoc, List.cons_append] at ihv ⊢
    have hvalue : skipWs (afterColon.chars ++ (v.text ++ (after.chars ++ (ms.sep ++ (ms.text ++ rest))))) =
        v.text ++ (after.chars ++ (ms.sep ++ (ms.text ++ rest))) := by
      rw [skipWs_blank, hv, List.cons_append, skipWs, List.dropWhile_cons_of_neg (by simp [hspace])]
    rw [findKey_append (quote_notMem_blank before), findKey_body, skipWs_blank]
    by_cases hname : name.raw = key
    · have hcolon (s : List Char) : skipWs (':' :: s) = ':' :: s := List.dropWhile_cons_of_neg (by decide)
      rw [if_pos hname, hcolon, ← hname, List.lookup_cons_self, Option.some_or]
      exact congrArg some hvalue
    · have hne : (key == name.raw) = false := beq_eq_false_iff_ne.2 (Ne.symm hname)
      rw [if_neg hname, findKey_append (quote_notMem_blank beforeColon), findKey_cons (by decide),
        findKey_append (quote_notMem_blank afterColon),
        ihv (by simpa using noColon_tail after ms text_of_sep_members h), findKey_append (quote_notMem_blank after),
        findKey_append (quote_notMem_sep ms), ihms h, List.lookup_cons, hne, List.lookup_append, Option.or_assoc]

/-! ## The end of an object -/

theorem objectEndLoop_cons {c : Char} (hslash : c ≠ '\\') (hquote : c ≠ '"') (depth : Nat) (cs : List Char) :
    objectEndLoop depth true (c :: cs) = objectEndLoop depth true cs := by
  rw [objectEndLoop, decide_eq_true hquote]
  exact fun _ _ h => absurd h hslash

theorem objectEndLoop_body {raw : List Char} (h : isBody raw = true) (depth : Nat) (rest : List Char) :
    objectEndLoop depth true (raw ++ '"' :: rest) = objectEndLoop depth false rest := by
  induction raw, h using isBody_induction with
  | nil => exact objectEndLoop_literal (s := []) (fun _ h => by cases h) depth rest
  | unit a b c d cs _ ha hb hc hd _ ih =>
    simp only [List.cons_append]
    rw [objectEndLoop, objectEndLoop_cons (isHex_plain ha).2 (isHex_plain ha).1,
      objectEndLoop_cons (isHex_plain hb).2 (isHex_plain hb).1, objectEndLoop_cons (isHex_plain hc).2 (isHex_plain hc).1,
      objectEndLoop_cons (isHex_plain hd).2 (isHex_plain hd).1, ih]
  | escape e cs _ _ _ ih => rw [List.cons_append, List.cons_append, objectEndLoop, ih]
  | char c cs _ hslash hquote _ _ ih => rw [List.cons_append, objectEndLoop_cons hslash hquote, ih]

theorem closes_body (s : Body) : Closes ('"' :: (s.raw ++ ['"'])) := by
  intro depth rest _
  rw [List.cons_append, List.append_assoc, List.singleton_append, objectEndLoop, if_pos rfl, objectEndLoop_body s.body]

theorem closes_blank (ws : Blank) : Closes ws.chars :=
  closes_bare fun c hc => by
    have := ws.blank c hc
    refine ⟨?_, ?_, ?_⟩ <;> rintro rfl <;> exact absurd this (by decide)

/-- The brackets of a text match. -/
theorem closes_text (t : Syn i) : Closes t.text := by
  induction t with
  | bare t =>
    refine closes_bare fun c hc => ?_
    have := t.bare c hc
    refine ⟨?_, ?_, ?_⟩ <;> rintro rfl <;> exact absurd this (by decide)
  | string s => exact closes_body s
  | array ws es ih =>
    exact closes_append (s := ['[']) (closes_singleton (by decide))
      (closes_append (closes_append (closes_blank ws) ih) (closes_singleton (by decide)))
  | object ws ms ih =>
    intro depth rest hdepth
    rw [Syn.text, List.cons_append, List.append_assoc, List.singleton_append, objectEndLoop, if_neg (by decide),
      if_pos rfl, closes_append (closes_blank ws) ih _ _ (Nat.succ_pos _), objectEndLoop, if_neg (by decide),
      if_neg (by decide), if_pos rfl, if_neg (by omega)]
    rfl
  | noElems => exact fun _ _ _ => rfl
  | elem before v after es ihv ihes =>
    have hsep : Closes es.sep := closes_bare fun c hc => by cases es <;> simp [Syn.sep] at hc; subst hc; decide
    exact closes_append (closes_append (closes_append (closes_append (closes_blank before) ihv) (closes_blank after)) hsep)
      ihes
  | noMembers => exact fun _ _ _ => rfl
  | member before name beforeColon afterColon v after ms ihv ihms =>
    have hsep : Closes ms.sep := closes_bare fun c hc => by cases ms <;> simp [Syn.sep] at hc; subst hc; decide
    have hparts : (Syn.member before name beforeColon afterColon v after ms).text =
        before.chars ++ ('"' :: (name.raw ++ ['"']) ++ (beforeColon.chars ++ ([':'] ++ (afterColon.chars ++ (v.text ++
          (after.chars ++ (ms.sep ++ ms.text))))))) := by
      simp [Syn.text]
    rw [hparts]
    exact closes_append (closes_blank before) (closes_append (closes_body name) (closes_append (closes_blank beforeColon)
      (closes_append (closes_singleton (by decide)) (closes_append (closes_blank afterColon) (closes_append ihv
        (closes_append (closes_blank after) (closes_append hsep ihms)))))))

/-- The end of an object is its last brace. -/
theorem objectEnd_text (ws : Blank) (ms : Syn .members) (rest : List Char) :
    objectEnd ((Syn.object ws ms).text ++ rest) = some ('}' :: rest) := by
  have hhead : ((Syn.object ws ms).text ++ rest).head? = some '{' := rfl
  rw [objectEnd, if_pos hhead, Syn.text, List.cons_append, List.append_assoc, List.singleton_append, objectEndLoop,
    if_neg (by decide), if_pos rfl, closes_append (closes_blank ws) (closes_text ms) _ _ (Nat.succ_pos _), objectEndLoop,
    if_neg (by decide), if_neg (by decide), if_pos rfl, if_pos rfl]

/-- The search in an object that goes on behind it. -/
theorem findKey_object_text (ws : Blank) (ms : Syn .members) (key rest : List Char) :
    findKey key ((Syn.object ws ms).text ++ rest) =
      (((Syn.object ws ms).named rest).lookup key).or (findKey key rest) := by
  rw [Syn.text, List.cons_append, List.append_assoc, List.append_assoc, List.singleton_append, findKey_cons (by decide),
    findKey_append (quote_notMem_blank ws), findKey_text ms (noColon_cons rfl (by decide) rest), findKey_cons (by decide),
    Syn.named]

/-- The search that does not leave the object. -/
theorem findKeyBounded_text (ws : Blank) (ms : Syn .members) (key rest : List Char) :
    findKeyBounded ((Syn.object ws ms).text ++ rest) ('}' :: rest) key = ((Syn.object ws ms).named rest).lookup key := by
  rw [findKeyBounded, findKey_object_text]
  cases hown : ((Syn.object ws ms).named rest).lookup key with
  | some v =>
    obtain ⟨l₁, l₂, hl, -⟩ := List.lookup_eq_some_iff.1 hown
    have hmem : (key, v) ∈ ms.named ('}' :: rest) := by
      have : (key, v) ∈ (Syn.object ws ms).named rest := hl ▸ List.mem_append_right _ List.mem_cons_self
      exact this
    rw [Option.some_or, Option.filter_some, if_pos (decide_eq_true (ms.length_of_mem_named hmem))]
  | none =>
    rw [Option.none_or]
    cases hrest : findKey key rest with
    | none => rfl
    | some v =>
      have hle := findKey_length hrest
      rw [Option.filter_some, if_neg]
      rw [decide_eq_true_eq, List.length_cons]
      omega

/-- On a well-formed object, the search is exact for the members at any depth: it finds the
    first one in the order of the text whose name is written as the key, and nothing if there
    is none, be the object the whole text or followed by more of one. -/
theorem findKey_exact (before after : Blank) (ws : Blank) (ms : Syn .members) (key rest : List Char) :
    findKey key (before.chars ++ (Syn.object ws ms).text ++ after.chars) =
        ((Syn.object ws ms).named after.chars).lookup key ∧
      (objectEnd ((Syn.object ws ms).text ++ rest)).bind
          (fun stop => findKeyBounded ((Syn.object ws ms).text ++ rest) stop key) =
        ((Syn.object ws ms).named rest).lookup key := by
  constructor
  · have hafter : findKey key after.chars = none := by
      have h : findKey key (after.chars ++ []) = findKey key [] := findKey_append (quote_notMem_blank after) []
      rw [List.append_nil] at h
      rw [h, findKey]
    rw [List.append_assoc, findKey_append (quote_notMem_blank before), findKey_object_text, hafter, Option.or_none]
  · rw [objectEnd_text, Option.bind_some, findKeyBounded_text]

/-- A member `k` of an object that is the value of a member `a`, before an own member `k`. -/
def nestedFirst : Syn .members :=
  .member .none ⟨"a".toList, rfl⟩ .none .none
    (.object .none (.member .none ⟨"k".toList, rfl⟩ .none .none (.bare ⟨"1".toList, by decide, by decide⟩) .none .noMembers))
    .none
    (.member .none ⟨"k".toList, rfl⟩ .none .none (.bare ⟨"2".toList, by decide, by decide⟩) .none .noMembers)

/-- The search does not find the object's own member where a nested one comes first. -/
theorem not_own : ¬∀ (before after ws : Blank) (ms : Syn .members) (key : List Char),
    findKey key (before.chars ++ (Syn.object ws ms).text ++ after.chars) =
      ((Syn.object ws ms).own after.chars).lookup key := by
  intro h
  have hown := h .none .none .none nestedFirst "k".toList
  have hfound := findKey_object_text .none nestedFirst "k".toList []
  rw [List.append_nil] at hfound
  have htext : Blank.none.chars ++ (Syn.object .none nestedFirst).text ++ Blank.none.chars =
      (Syn.object .none nestedFirst).text := List.append_nil _
  rw [htext, hfound] at hown
  exact absurd hown (by decide +kernel)

end Mqvpn.Json
