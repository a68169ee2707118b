import Mqvpn.ConfigFile.Builder
import Mqvpn.ConfigFile.Loaders
import Mqvpn.ConfigFile.Lookup

/-!
# Lists of users

The two copies of `json_read_users`, on arrays of objects with any layout. An object is cut at
the first closing brace, also within a string, and has to fit in a buffer.

* `readUsers_iff`: both copies read the list of users that an array stands for if and only if
  there is no closing brace in its strings, and no object has 512 bytes or more;
* `not_readUsers`: a key with a closing brace.
-/

namespace Mqvpn.UserList

open Json JsonTree Builder
open Server (User ValidName maxUsers)

/-- A user who can be listed. -/
structure ListedUser where
  name : List Char
  key : List Char
  fixedIp : Option (List Char)
  name_length : 0 < name.length ∧ name.length < 64
  key_length : 0 < key.length ∧ key.length < 256
  fixedIp_length : ∀ ip ∈ fixedIp, ip.length < 20
  /-- The strings have no quotes, backslashes and control characters. -/
  valid : ValidName name ∧ ValidName key ∧ ∀ ip ∈ fixedIp, ValidName ip

namespace ListedUser

variable (u : ListedUser)

/-- The members of the object. -/
def fields : List (List Char × List Char) :=
  ("name".toList, u.name) :: ("key".toList, u.key) :: (u.fixedIp.map fun ip => ("fixed_ip".toList, ip)).toList

def entry : Entry := ⟨u.name, u.key, u.fixedIp.getD []⟩

end ListedUser

/-- The members are strings, with these names and texts, and any layout. -/
inductive Strings : Syn .members → List (List Char × List Char) → Prop
  | nil : Strings .noMembers []
  | cons {before name beforeColon afterColon s after ms fs} (h : Strings ms fs) :
    Strings (.member before name beforeColon afterColon (.string s) after ms) ((name.raw, s.raw) :: fs)

/-- The elements are the objects of these users, with any layout and their members in any
    order. -/
inductive Lists : Syn .elems → List ListedUser → Prop
  | nil : Lists .noElems []
  | cons {before ws ms after es us fs} {u : ListedUser} (hms : Strings ms fs) (hfields : fs.Perm u.fields) (h : Lists es us) :
    Lists (.elem before (.object ws ms) after es) (u :: us)

/-- No closing brace in a string, and objects that fit in the buffer. -/
def Readable (es : Syn .elems) (us : List ListedUser) : Prop :=
  (∀ v ∈ es.elements, v.text.length < 512) ∧ ∀ u ∈ us, ∀ f ∈ u.fields, '}' ∉ f.2

variable {ms : Syn .members} {fs : List (List Char × List Char)} {es : Syn .elems} {u : ListedUser}
  {us : List ListedUser} {key s rest : List Char}

/-! ## Fields -/

theorem plain_of_valid (h : ValidName s) : Plain s := fun c hc => ⟨(h c hc).1, (h c hc).2.1⟩

theorem mem_fields {f : List Char × List Char} :
    f ∈ u.fields ↔ f = ("name".toList, u.name) ∨ f = ("key".toList, u.key) ∨ ∃ ip ∈ u.fixedIp, f = ("fixed_ip".toList, ip) := by
  rw [ListedUser.fields, List.mem_cons, List.mem_cons, Option.mem_toList, Option.map_eq_some_iff]
  simp only [eq_comm, Option.mem_def]

/-- The names of the members are none with a brace, and the texts can be written as they are. -/
theorem field_plain {f : List Char × List Char} (h : f ∈ u.fields) : '}' ∉ f.1 ∧ Plain f.2 := by
  rcases mem_fields.1 h with rfl | rfl | ⟨ip, hip, rfl⟩
  · exact ⟨show '}' ∉ "name".toList by decide, plain_of_valid u.valid.1⟩
  · exact ⟨show '}' ∉ "key".toList by decide, plain_of_valid u.valid.2.1⟩
  · exact ⟨show '}' ∉ "fixed_ip".toList by decide, plain_of_valid (u.valid.2.2 ip hip)⟩

theorem fields_nodup (u : ListedUser) : (u.fields.map Prod.fst).Nodup := by
  rw [ListedUser.fields]
  cases u.fixedIp with
  | none => exact show ["name".toList, "key".toList].Nodup by decide
  | some ip => exact show ["name".toList, "key".toList, "fixed_ip".toList].Nodup by decide

/-! ## Objects -/

theorem Strings.brace_notMem (h : Strings ms fs) (hfs : ∀ f ∈ fs, '}' ∉ f.1 ∧ '}' ∉ f.2) : '}' ∉ ms.text := by
  have hblank (ws : Blank) : '}' ∉ ws.chars := fun h => absurd (ws.blank _ h) (by decide)
  have hsep {i : Ix} (t : Syn i) : '}' ∉ t.sep := by cases t <;> simp [Syn.sep]
  induction h with
  | nil => exact List.not_mem_nil
  | cons h ih =>
    obtain ⟨hf, hfs⟩ := List.forall_mem_cons.1 hfs
    simp only [Syn.text, List.mem_append, List.mem_cons, List.mem_nil_iff, not_or]
    simp [hblank, hsep, hf.1, hf.2, ih hfs]

/-- A member that is a string is found with its text. -/
theorem Strings.lookup (h : Strings ms fs) (hnodup : (fs.map Prod.fst).Nodup) (hmem : (key, s) ∈ fs) (rest : List Char) :
    ∃ tail, (ms.named rest).lookup key = some (quote s ++ tail) := by
  induction h with
  | nil => cases hmem
  | @cons before name beforeColon afterColon t after ms fs h ih =>
    rw [List.map_cons, List.nodup_cons] at hnodup
    rw [Syn.named, List.lookup_cons]
    rcases List.mem_cons.1 hmem with heq | hmem
    · cases heq
      rw [beq_self_eq_true]
      exact ⟨_, rfl⟩
    · have hne : (key == name.raw) = false := by
        refine beq_eq_false_iff_ne.2 ?_
        rintro rfl
        exact hnodup.1 (List.mem_map.2 ⟨_, hmem, rfl⟩)
      rw [hne]
      exact ih hnodup.2 hmem

theorem Strings.lookup_eq_none (h : Strings ms fs) (hkey : ∀ s, (key, s) ∉ fs) (rest : List Char) :
    (ms.named rest).lookup key = none := by
  induction h with
  | nil => rfl
  | @cons before name beforeColon afterColon t after ms fs h ih =>
    have hne : (key == name.raw) = false := by
      refine beq_eq_false_iff_ne.2 ?_
      rintro rfl
      exact hkey t.raw List.mem_cons_self
    rw [Syn.named, List.lookup_cons, hne]
    exact ih fun s hs => hkey s (List.mem_cons_of_mem _ hs)

/-- What is in front of the first brace, and what starts with it. -/
theorem span_brace {front : List Char} (h : '}' ∉ front) (rest : List Char) :
    (front ++ '}' :: rest).takeWhile (· ≠ '}') = front ∧ (front ++ '}' :: rest).dropWhile (· ≠ '}') = '}' :: rest := by
  have hall : ∀ c ∈ front, decide (c ≠ '}') = true := fun c hc => decide_eq_true fun heq => h (heq ▸ hc)
  constructor
  · rw [List.takeWhile_append_of_pos hall, List.takeWhile_cons_of_neg (by decide), List.append_nil]
  · rw [List.dropWhile_append_of_pos hall, List.dropWhile_cons_of_neg (by decide)]

/-- The entry is read from the object up to the first brace. -/
theorem entry_brace {b : Buffers} {front : List Char} (h : '}' ∉ front) (rest : List Char) :
    entry b ('{' :: (front ++ '}' :: rest)) = (objectEntry b ('{' :: front ++ ['}'])).map fun e => (e, rest) := by
  obtain ⟨htake, hdrop⟩ := span_brace h rest
  rw [entry]
  split
  · rename_i hnil
    rw [hdrop] at hnil
    cases hnil
  · rename_i hcons
    rw [hdrop] at hcons
    cases hcons
    rw [htake]

/-- A buffer that holds a text reads it whole. -/
theorem readString_of_lt (h : Plain s) {n : Nat} (hn : s.length < n) (rest : List Char) :
    readString (quote s ++ rest) n = some s := by
  rw [readString_quote h, List.take_of_length_le (by omega)]

theorem stringBuf_of_lt (h : Plain s) {n : Nat} (hn : s.length < n) (rest : List Char) :
    stringBuf (quote s ++ rest) n = s := by
  rw [quote, List.cons_append, List.append_assoc, List.singleton_append, stringBuf, literal_plain h]
  dsimp only
  rw [unescape_plain h, List.take_of_length_le (by omega)]

/-- An object of a user without braces in its strings is read if it fits in the buffer. -/
theorem objectEntry_fields {b : Buffers} (hb : 64 ≤ b.uname ∧ 256 ≤ b.key ∧ 20 ≤ b.fixedIp) (h : Strings ms fs)
    (hfields : fs.Perm u.fields) (ws : Blank) :
    objectEntry b (Syn.object ws ms).text = if 512 ≤ (Syn.object ws ms).text.length then none else some u.entry := by
  have hfind (key : List Char) : findKey key (Syn.object ws ms).text = (ms.named ['}']).lookup key := by
    have := findKey_object_text ws ms key []
    rw [List.append_nil, findKey, Option.or_none] at this
    exact this
  have hnodup : (fs.map Prod.fst).Nodup := (hfields.map Prod.fst).nodup_iff.2 (fields_nodup u)
  have hname : ("name".toList, u.name) ∈ fs := hfields.mem_iff.2 (mem_fields.2 (.inl rfl))
  have hkey : ("key".toList, u.key) ∈ fs := hfields.mem_iff.2 (mem_fields.2 (.inr (.inl rfl)))
  obtain ⟨tailName, hfindName⟩ := h.lookup hnodup hname ['}']
  obtain ⟨tailKey, hfindKey⟩ := h.lookup hnodup hkey ['}']
  have hip : ((findKey "fixed_ip".toList (Syn.object ws ms).text).map (stringBuf · b.fixedIp)).getD [] =
      u.fixedIp.getD [] := by
    rw [hfind]
    cases hfixed : u.fixedIp with
    | none =>
      rw [h.lookup_eq_none]
      · rfl
      · intro s hs
        rcases mem_fields.1 (hfields.mem_iff.1 hs) with heq | heq | ⟨ip, hip, -⟩
        · exact absurd (congrArg Prod.fst heq) (show "fixed_ip".toList ≠ "name".toList by decide)
        · exact absurd (congrArg Prod.fst heq) (show "fixed_ip".toList ≠ "key".toList by decide)
        · rw [hfixed] at hip
          cases hip
    | some ip =>
      have hmem : ("fixed_ip".toList, ip) ∈ fs := hfields.mem_iff.2 (mem_fields.2 (.inr (.inr ⟨ip, hfixed, rfl⟩)))
      obtain ⟨tail, hfindIp⟩ := h.lookup hnodup hmem ['}']
      rw [hfindIp]
      exact stringBuf_of_lt (plain_of_valid (u.valid.2.2 ip hfixed)) ((u.fixedIp_length ip hfixed).trans_le hb.2.2) _
  rw [objectEntry]
  split_ifs
  · rfl
  · rw [hip, hfind, hfind, hfindName, hfindKey, Option.bind_some, Option.bind_some,
      readString_of_lt (plain_of_valid u.valid.1) (u.name_length.2.trans_le hb.1),
      readString_of_lt (plain_of_valid u.valid.2.1) (u.key_length.2.trans_le hb.2.1)]
    rfl

theorem entry_fields {b : Buffers} (hb : 64 ≤ b.uname ∧ 256 ≤ b.key ∧ 20 ≤ b.fixedIp) (h : Strings ms fs)
    (hfields : fs.Perm u.fields) (hbrace : ∀ f ∈ u.fields, '}' ∉ f.2) (ws : Blank) (rest : List Char) :
    entry b ((Syn.object ws ms).text ++ rest) =
      if 512 ≤ (Syn.object ws ms).text.length then none else some (u.entry, rest) := by
  have hfront : '}' ∉ ws.chars ++ ms.text := by
    rw [List.mem_append, not_or]
    exact ⟨fun h => absurd (ws.blank _ h) (by decide),
      h.brace_notMem fun f hf => ⟨(field_plain (hfields.mem_iff.1 hf)).1, hbrace f (hfields.mem_iff.1 hf)⟩⟩
  have htext : (Syn.object ws ms).text ++ rest = '{' :: ((ws.chars ++ ms.text) ++ '}' :: rest) := by
    simp [Syn.text]
  have hobject : '{' :: (ws.chars ++ ms.text) ++ ['}'] = (Syn.object ws ms).text := rfl
  rw [htext, entry_brace hfront, hobject, objectEntry_fields hb h hfields]
  split_ifs <;> rfl

/-! ## Objects that are cut -/

/-- A string that is not closed has no end. -/
theorem literal_open (h : Plain s) : literal s = none := by
  induction s with
  | nil => rfl
  | cons c s ih =>
    obtain ⟨hc, hs⟩ := List.forall_mem_cons.1 h
    rw [literal_cons hc.1 hc.2, ih hs]
    rfl

theorem findKey_open (h : Plain s) : findKey key ('"' :: s) = none := by
  rw [findKey, if_pos rfl]
  split
  · rfl
  · rename_i hl
    rw [literal_open h] at hl
    cases hl

theorem readString_open (h : Plain s) (n : Nat) : readString ('"' :: s) n = none := by
  rw [readString, literal_open h]
  rfl

/-- The members up to the first brace in a string, and what a search finds in them: the
    members in front of that one, and of that one a string that is not closed. -/
theorem Strings.cut (h : Strings ms fs) (hplain : ∀ f ∈ fs, '}' ∉ f.1 ∧ Plain f.2) (hbrace : ∃ f ∈ fs, '}' ∈ f.2)
    (rest : List Char) :
    ∃ fs₁ name s₁ s₂ fs₂ front tail, fs = fs₁ ++ (name, s₁ ++ '}' :: s₂) :: fs₂ ∧ '}' ∉ front ∧
      ms.text ++ rest = front ++ '}' :: (s₂ ++ '"' :: tail) ∧
      ∀ key, (∀ s, (key, s) ∉ fs₁) →
        findKey key (front ++ ['}']) = if name = key then some ('"' :: (s₁ ++ ['}'])) else none := by
  have hblank (ws : Blank) : '}' ∉ ws.chars := fun h => absurd (ws.blank _ h) (by decide)
  induction h with
  | nil =>
    obtain ⟨f, hf, -⟩ := hbrace
    cases hf
  | @cons before name beforeColon afterColon t after ms fs h ih =>
    obtain ⟨hf, hfs⟩ := List.forall_mem_cons.1 hplain
    have hcolon (s : List Char) : skipWs (':' :: s) = ':' :: s := List.dropWhile_cons_of_neg (by decide)
    have hquote (s : List Char) : skipWs ('"' :: s) = '"' :: s := List.dropWhile_cons_of_neg (by decide)
    by_cases hs : '}' ∈ t.raw
    · -- the string of this member
      obtain ⟨s₁, s₂, hraw, hs₁⟩ := List.eq_append_cons_of_mem hs
      refine ⟨[], name.raw, s₁, s₂, fs, before.chars ++ '"' :: (name.raw ++ '"' :: (beforeColon.chars ++ ':' ::
        (afterColon.chars ++ '"' :: s₁))), after.chars ++ ms.sep ++ ms.text ++ rest, by rw [← hraw]; rfl, ?_, ?_, ?_⟩
      · simp [hblank, hf.1, hs₁]
      · simp [Syn.text, hraw]
      · intro key _
        have hopen : Plain (s₁ ++ ['}']) := by
          intro c hc
          refine hf.2 c ?_
          show c ∈ t.raw
          rw [hraw, List.append_cons]
          exact List.mem_append_left _ hc
        simp only [List.append_assoc, List.cons_append]
        rw [findKey_append (quote_notMem_blank before), findKey_body, skipWs_blank, hcolon]
        by_cases hname : name.raw = key
        · rw [if_pos hname, if_pos hname]
          exact congrArg some ((skipWs_blank afterColon _).trans (hquote _))
        · rw [if_neg hname, if_neg hname, findKey_append (quote_notMem_blank beforeColon), findKey_cons (by decide),
            findKey_append (quote_notMem_blank afterColon), findKey_open hopen]
    · -- a later one
      have hlater : ∃ f ∈ fs, '}' ∈ f.2 := by
        obtain ⟨f, hmem, hf⟩ := hbrace
        rcases List.mem_cons.1 hmem with rfl | hmem
        · exact absurd hf hs
        · exact ⟨f, hmem, hf⟩
      have hsep : ms.sep = [','] := by
        cases h with
        | nil =>
          obtain ⟨f, hmem, -⟩ := hlater
          cases hmem
        | cons h => rfl
      obtain ⟨fs₁, name', s₁, s₂, fs₂, front, tail, hfs', hfront, htext, hfind⟩ := ih hfs hlater
      refine ⟨(name.raw, t.raw) :: fs₁, name', s₁, s₂, fs₂, before.chars ++ '"' :: (name.raw ++ '"' ::
        (beforeColon.chars ++ ':' :: (afterColon.chars ++ '"' :: (t.raw ++ '"' :: (after.chars ++ ',' :: front))))), tail,
        by rw [hfs']; rfl, ?_, ?_, ?_⟩
      · simp [hblank, hf.1, hs, hfront]
      · simp [Syn.text, hsep, htext]
      · intro key hkey
        have hne : name.raw ≠ key := by
          rintro rfl
          exact hkey t.raw List.mem_cons_self
        have hcomma : NoColon (after.chars ++ ',' :: (front ++ ['}'])) := by
          rw [NoColon, skipWs_blank]
          exact noColon_cons rfl (by decide) _
        have hvalue := @findKey_text _ key _ (.string t) hcomma
        simp only [Syn.text, List.append_assoc, List.cons_append, List.nil_append, Syn.named, List.lookup_nil,
          Option.none_or] at hvalue
        simp only [List.append_assoc, List.cons_append]
        rw [findKey_append (quote_notMem_blank before), findKey_body, if_neg hne,
          findKey_append (quote_notMem_blank beforeColon), findKey_cons (by decide),
          findKey_append (quote_notMem_blank afterColon), hvalue, findKey_append (quote_notMem_blank after),
          findKey_cons (by decide), hfind key fun s hs => hkey s (List.mem_cons_of_mem _ hs)]

/-- With a brace in a string there is no entry, or the brace is in the address and the text
    goes on within it. -/
theorem entry_cut {b : Buffers} (h : Strings ms fs) (hfields : fs.Perm u.fields) (hbrace : ∃ f ∈ u.fields, '}' ∈ f.2)
    (ws : Blank) (rest : List Char) :
    entry b ((Syn.object ws ms).text ++ rest) = none ∨
      ∃ e s₁ s₂ tail, u.fixedIp = some (s₁ ++ '}' :: s₂) ∧
        entry b ((Syn.object ws ms).text ++ rest) = some (e, s₂ ++ '"' :: tail) := by
  obtain ⟨f, hf, hbrace⟩ := hbrace
  obtain ⟨fs₁, name, s₁, s₂, fs₂, front, tail, hfs, hfront, htext, hfind⟩ :=
    h.cut (fun f hf => field_plain (hfields.mem_iff.1 hf)) ⟨f, hfields.mem_iff.2 hf, hbrace⟩ ('}' :: rest)
  have hmem : (name, s₁ ++ '}' :: s₂) ∈ u.fields := hfields.mem_iff.1 (hfs ▸ List.mem_append_right _ List.mem_cons_self)
  have hnodup : (fs.map Prod.fst).Nodup := (hfields.map Prod.fst).nodup_iff.2 (fields_nodup u)
  have hnot : ∀ s, (name, s) ∉ fs₁ := by
    intro s hs
    rw [hfs, List.map_append, List.map_cons, List.nodup_append] at hnodup
    exact hnodup.2.2 name (List.mem_map.2 ⟨_, hs, rfl⟩) name List.mem_cons_self rfl
  have hopen : Plain (s₁ ++ ['}']) := by
    intro c hc
    refine (field_plain hmem).2 c ?_
    show c ∈ s₁ ++ '}' :: s₂
    rw [List.append_cons]
    exact List.mem_append_left _ hc
  have hfront' : '}' ∉ ws.chars ++ front := by
    rw [List.mem_append, not_or]
    exact ⟨fun h => absurd (ws.blank _ h) (by decide), hfront⟩
  have hobject : (Syn.object ws ms).text ++ rest = '{' :: ((ws.chars ++ front) ++ '}' :: (s₂ ++ '"' :: tail)) := by
    rw [List.append_assoc, ← htext]
    simp [Syn.text]
  have hfindKey (key : List Char) (hkey : ∀ s, (key, s) ∉ fs₁) :
      findKey key ('{' :: (ws.chars ++ front) ++ ['}']) = if name = key then some ('"' :: (s₁ ++ ['}'])) else none := by
    rw [List.cons_append, findKey_cons (by decide), List.append_assoc, findKey_append (quote_notMem_blank ws), hfind key hkey]
  rw [hobject, entry_brace hfront']
  -- a name or a key that is not closed is not read
  have hread (n : Nat) : (findKey name ('{' :: (ws.chars ++ front) ++ ['}'])).bind (readString · n) = none := by
    rw [hfindKey name hnot, if_pos rfl]
    exact readString_open hopen n
  rcases mem_fields.1 hmem with heq | heq | ⟨ip, hip, heq⟩
  · left
    have hname : name = "name".toList := congrArg Prod.fst heq
    rw [objectEntry]
    split_ifs
    · rfl
    · rw [← hname, hread]
      rfl
  · left
    have hname : name = "key".toList := congrArg Prod.fst heq
    rw [objectEntry]
    split_ifs
    · rfl
    · rw [← hname, hread]
      cases (findKey "name".toList ('{' :: (ws.chars ++ front) ++ ['}'])).bind (readString · b.uname) <;> rfl
  · have hvalue : s₁ ++ '}' :: s₂ = ip := congrArg Prod.snd heq
    cases he : objectEntry b ('{' :: (ws.chars ++ front) ++ ['}']) with
    | none => exact .inl rfl
    | some e => exact .inr ⟨e, s₁, s₂, tail, by rw [hvalue]; exact hip, rfl⟩

/-! ## Lists -/

variable {b : Buffers}

theorem entries_of_none {p : List Char} (h : entry b p = none) (hp : ∀ cs, p ≠ ']' :: cs) : entries b p = none := by
  rw [entries]
  · split
    · rfl
    · rename_i he
      cases h.symm.trans he
  · exact hp

/-- Behind an entry come the others. -/
theorem entries_elem {p : List Char} {e : Entry} {after : Blank}
    (he : entry b p = some (e, after.chars ++ es.sep ++ es.text ++ ']' :: rest)) :
    entries b p = (entries b (skipWs (es.text ++ ']' :: rest))).map (e :: ·) := by
  rw [List.append_assoc, List.append_assoc] at he
  cases es with
  | noElems =>
    have hws : skipWs (']' :: rest) = ']' :: rest := List.dropWhile_cons_of_neg (by decide)
    rw [entries_bracket he (by rw [skipWs_blank]; exact hws), Syn.text, List.nil_append, hws, entries]
    rfl
  | elem before v after' es' =>
    refine entries_comma he ?_
    rw [skipWs_blank]
    exact List.dropWhile_cons_of_neg (by decide)

/-- The loop stands at an object. -/
theorem skipWs_elem (before ws after : Blank) (ms : Syn .members) (es : Syn .elems) (rest : List Char) :
    skipWs ((Syn.elem before (.object ws ms) after es).text ++ ']' :: rest) =
      (Syn.object ws ms).text ++ (after.chars ++ es.sep ++ es.text ++ ']' :: rest) := by
  have hbrace (s : List Char) : skipWs ('{' :: s) = '{' :: s := List.dropWhile_cons_of_neg (by decide)
  simp only [Syn.text, List.append_assoc, List.cons_append]
  rw [skipWs_blank, hbrace]

theorem entries_of_readable (hb : 64 ≤ b.uname ∧ 256 ≤ b.key ∧ 20 ≤ b.fixedIp) (h : Lists es us) (hread : Readable es us)
    (rest : List Char) : entries b (skipWs (es.text ++ ']' :: rest)) = some (us.map ListedUser.entry) := by
  induction h with
  | nil =>
    have hws : skipWs (']' :: rest) = ']' :: rest := List.dropWhile_cons_of_neg (by decide)
    rw [Syn.text, List.nil_append, hws, entries]
    rfl
  | @cons before ws ms after es us fs u hms hfields h ih =>
    obtain ⟨hlength, hlengths⟩ := List.forall_mem_cons.1 hread.1
    obtain ⟨hbrace, hbraces⟩ := List.forall_mem_cons.1 hread.2
    have he := entry_fields hb hms hfields hbrace ws (after.chars ++ es.sep ++ es.text ++ ']' :: rest)
    rw [if_neg (Nat.not_le.2 hlength)] at he
    rw [skipWs_elem, entries_elem he, ih ⟨hlengths, hbraces⟩]
    rfl

/-- Where the entries are found, and braces are at most at the end of an address, there are no
    braces, and the objects fit. -/
theorem readable_of_entries (hb : 64 ≤ b.uname ∧ 256 ≤ b.key ∧ 20 ≤ b.fixedIp) (h : Lists es us)
    (hlast : ∀ u ∈ us, ∀ ip ∈ u.fixedIp, '}' ∉ ip.dropLast) {l : List Entry}
    (hl : entries b (skipWs (es.text ++ ']' :: rest)) = some l) : Readable es us := by
  induction h generalizing l with
  | nil => exact ⟨fun _ h => absurd h List.not_mem_nil, fun _ h => absurd h List.not_mem_nil⟩
  | @cons before ws ms after es us fs u hms hfields h ih =>
    obtain ⟨hlast, hlasts⟩ := List.forall_mem_cons.1 hlast
    rw [skipWs_elem] at hl
    have hnone (hnone : entry b ((Syn.object ws ms).text ++ (after.chars ++ es.sep ++ es.text ++ ']' :: rest)) = none) :
        False := by
      rw [entries_of_none hnone fun cs h => absurd (congrArg List.head? h) (by simp [Syn.text])] at hl
      cases hl
    by_cases hbrace : ∃ f ∈ u.fields, '}' ∈ f.2
    · exfalso
      rcases entry_cut (b := b) hms hfields hbrace ws (after.chars ++ es.sep ++ es.text ++ ']' :: rest) with
        he | ⟨e, s₁, s₂, tail, hip, he⟩
      · exact hnone he
      · -- the brace is the last character, and a quote follows
        have hs₂ : s₂ = [] := by
          by_contra hs₂
          refine hlast _ hip ?_
          rw [List.dropLast_append_of_ne_nil (List.cons_ne_nil _ _), List.dropLast_cons_of_ne_nil hs₂]
          exact List.mem_append_right _ List.mem_cons_self
        subst hs₂
        have hws : skipWs ('"' :: tail) = '"' :: tail := List.dropWhile_cons_of_neg (by decide)
        obtain ⟨-, -, ⟨q, hq, -⟩ | ⟨q, hq, -⟩⟩ := entries_cons he hl <;> rw [List.nil_append, hws] at hq <;> cases hq
    · push Not at hbrace
      have he := entry_fields hb hms hfields hbrace ws (after.chars ++ es.sep ++ es.text ++ ']' :: rest)
      split_ifs at he with hlength
      · exact absurd he hnone
      · rw [entries_elem he] at hl
        obtain ⟨l', hl', -⟩ := Option.map_eq_some_iff.1 hl
        obtain ⟨hlengths, hbraces⟩ := ih hlasts hl'
        exact ⟨List.forall_mem_cons.2 ⟨Nat.not_le.1 hlength, hlengths⟩, List.forall_mem_cons.2 ⟨hbrace, hbraces⟩⟩

/-! ## The builder's table -/

/-- The row of a user. -/
def ListedUser.user (u : ListedUser) : User := ⟨u.name, u.key, u.fixedIp.getD []⟩

theorem ListedUser.ip_length (u : ListedUser) : (u.fixedIp.getD []).length < 20 := by
  cases hip : u.fixedIp with
  | none => exact Nat.succ_pos _
  | some ip => exact u.fixedIp_length ip hip

theorem ListedUser.name_ne_nil (u : ListedUser) : u.name ≠ [] := List.ne_nil_of_length_pos u.name_length.1

theorem ListedUser.key_ne_nil (u : ListedUser) : u.key ≠ [] := List.ne_nil_of_length_pos u.key_length.1

/-- A user with a new name gets a row of his own. -/
theorem addEntry_rows {t : UserTable} (h : t.Wf) (hnew : ∀ r ∈ t.rows, r.name ≠ u.name) (hroom : t.nUsers < maxUsers) :
    (addEntry t u.entry).2 = .ok ∧ (addEntry t u.entry).1.Wf ∧ (addEntry t u.entry).1.rows = t.rows ++ [u.user] := by
  have hfind : t.find u.name = none := by
    refine UserTable.find_eq_none_iff.2 fun i hi heq => ?_
    have hrow := List.getElem_mem (t.length_rows.symm ▸ hi)
    rw [UserTable.getElem_rows] at hrow
    exact hnew _ hrow heq
  have hadd : addUser t u.name u.key = (t.addRow u.name u.key, .ok) := by
    rw [addUser, UserTable.addUser, if_neg (by simp [u.name_ne_nil, u.key_ne_nil]), if_neg (not_not_intro u.valid.1), hfind]
    dsimp only
    rw [if_neg (Nat.not_le.2 hroom)]
  have hwf := (h.addRow (by rw [UserTable.lookup, hfind]; rfl) u.name_length.2 u.key_length.2).1
  have hrows : (t.addRow u.name u.key).rows = t.rows ++ [⟨u.name, u.key, []⟩] := by
    rw [← h.rows_addRow, List.take_of_length_le (Nat.le_of_lt_succ u.name_length.2),
      List.take_of_length_le (Nat.le_of_lt_succ u.key_length.2)]
  rw [addEntry, ListedUser.entry, ListedUser.user, hadd]
  dsimp only
  by_cases hip : u.fixedIp.getD [] = []
  · rw [if_pos hip, hip]
    exact ⟨rfl, hwf, hrows⟩
  · rw [if_neg hip]
    -- the row of the name is the last one
    have hlast : (t.addRow u.name u.key).find u.name = some t.nUsers := by
      refine hwf.names.find_eq_some_iff.2 ⟨Nat.lt_succ_self _, ?_⟩
      exact (Function.update_self _ _ _).trans (List.take_of_length_le (Nat.le_of_lt_succ u.name_length.2))
    have hset : setUserFixedIp (t.addRow u.name u.key) u.name (u.fixedIp.getD []) =
        ((t.addRow u.name u.key).setIp t.nUsers (u.fixedIp.getD []), .ok) := by
      rw [setUserFixedIp, if_neg u.name_ne_nil, hlast]
    rw [hset]
    refine ⟨rfl, (hwf.setIp (Nat.lt_succ_self _) u.ip_length).1, ?_⟩
    rw [← UserTable.rows_setIp, hrows, ← t.length_rows, List.modify_eq_take_cons_drop (by simp)]
    simp [List.take_of_length_le (Nat.le_of_lt_succ u.ip_length)]

/-- Users with different names, for whom there is room, are added one behind the other. -/
theorem addEntries_rows {t : UserTable} (h : t.Wf) (hnew : ∀ r ∈ t.rows, ∀ u ∈ us, r.name ≠ u.name)
    (hnodup : (us.map ListedUser.name).Nodup) (hroom : t.nUsers + us.length ≤ maxUsers) :
    Runs.Along (fun t e => (addEntry t e).1) (fun t e => (addEntry t e).2 = .ok) t (us.map ListedUser.entry) ∧
      ((us.map ListedUser.entry).foldl (fun t e => (addEntry t e).1) t).rows = t.rows ++ us.map ListedUser.user := by
  induction us generalizing t with
  | nil => exact ⟨trivial, (List.append_nil _).symm⟩
  | cons u us ih =>
    rw [List.map_cons, List.nodup_cons] at hnodup
    rw [List.length_cons] at hroom
    obtain ⟨hok, hwf, hrows⟩ := addEntry_rows h (fun r hr => hnew r hr u List.mem_cons_self) (by omega)
    have hnUsers : (addEntry t u.entry).1.nUsers = t.nUsers + 1 := by
      rw [← UserTable.length_rows, hrows, List.length_append, UserTable.length_rows]
      rfl
    have hnew' : ∀ r ∈ (addEntry t u.entry).1.rows, ∀ v ∈ us, r.name ≠ v.name := by
      rw [hrows]
      intro r hr v hv
      rcases List.mem_append.1 hr with hr | hr
      · exact hnew r hr v (List.mem_cons_of_mem _ hv)
      · rw [List.mem_singleton] at hr
        rintro heq
        refine hnodup.1 (List.mem_map.2 ⟨v, hv, ?_⟩)
        rw [← heq, hr]
        rfl
    obtain ⟨halong, hrows'⟩ := ih hwf hnew' hnodup.2 (by omega)
    refine ⟨⟨hok, halong⟩, ?_⟩
    rw [List.map_cons, List.foldl_cons, hrows', hrows, List.append_assoc]
    rfl

/-! ## Braces in what is stored -/

/-- There is a brace at the end of the text at most. -/
def BraceLast (s : List Char) : Prop := '}' ∉ s.dropLast

theorem BraceLast.of_sublist {s s' : List Char} (h : BraceLast s) (hs : s'.Sublist s) : BraceLast s' := by
  rcases List.eq_nil_or_concat s with rfl | ⟨front, c, rfl⟩
  · rw [List.sublist_nil.1 hs]
    exact List.not_mem_nil
  · rw [List.concat_eq_append] at h hs
    rw [BraceLast, List.dropLast_concat] at h
    obtain ⟨x, y, rfl, hx, hy⟩ := List.sublist_append_iff.1 hs
    rcases List.sublist_singleton.1 hy with rfl | rfl
    · rw [List.append_nil]
      exact fun hmem => h (hx.subset ((List.dropLast_sublist x).subset hmem))
    · rw [BraceLast, List.dropLast_concat]
      exact fun hmem => h (hx.subset hmem)

theorem literal_sublist {s body rest : List Char} (h : literal s = some (body, rest)) :
    body.Sublist s ∧ rest.Sublist s := by
  induction s using literal.induct generalizing body with
  | case1 => cases h
  | case2 cs =>
    cases h
    exact ⟨List.nil_sublist _, List.sublist_cons_self _ _⟩
  | case3 c cs ih =>
    rw [literal] at h
    obtain ⟨⟨s, rest'⟩, hs, he⟩ := Option.map_eq_some_iff.1 h
    cases he
    exact ⟨((ih hs).1.cons_cons c).cons_cons _, ((ih hs).2.cons c).cons _⟩
  | case4 c cs hquote hslash ih =>
    rw [literal] at h
    · obtain ⟨⟨s, rest'⟩, hs, he⟩ := Option.map_eq_some_iff.1 h
      cases he
      exact ⟨(ih hs).1.cons_cons c, (ih hs).2.cons c⟩
    · exact hquote
    · exact hslash

theorem unescape_sublist (s : List Char) : (unescape s).Sublist s := by
  induction s using unescape.induct with
  | case1 => exact .slnil
  | case2 c cs ih => exact (ih.cons_cons c).cons _
  | case3 c cs hslash ih =>
    rw [unescape]
    · exact ih.cons_cons c
    · exact hslash

theorem stringBuf_sublist (p : List Char) (n : Nat) : (stringBuf p n).Sublist p := by
  unfold stringBuf
  split
  · split
    · rename_i hl
      exact (((List.take_sublist _ _).trans (unescape_sublist _)).trans (literal_sublist hl).1).cons _
    · exact ((List.take_sublist _ _).trans (unescape_sublist _)).cons _
  · exact List.nil_sublist _

theorem findKey_sublist {s v : List Char} (h : findKey key s = some v) : v.Sublist s := by
  have hws (s : List Char) : (skipWs s).Sublist s := List.dropWhile_sublist _
  fun_induction findKey key s with
  | case1 => cases h
  | case2 => cases h
  | case3 cs rest v' hcolon hl =>
    cases h
    have hrest := hws rest
    rw [hcolon] at hrest
    exact ((((hws v').cons _).trans hrest).trans (literal_sublist hl).2).cons _
  | case4 cs rest hcolon hl ih => exact ((ih h).trans (literal_sublist hl).2).cons _
  | case5 cs k rest hl hne ih => exact ((ih h).trans (literal_sublist hl).2).cons _
  | case6 c cs hc ih => exact (ih h).cons _

/-- An address is read from an object that ends at its first brace. -/
theorem braceLast_entry {p : List Char} {e : Entry} (h : entry b p = some (e, rest)) : BraceLast e.fixedIp := by
  obtain ⟨cs, s, -, -, he⟩ | ⟨cs, c, -, -, he⟩ := entry_cases h
  · unfold pairEntry at he
    dsimp only at he
    split at he
    · cases he
    · cases he
      exact List.not_mem_nil
  · have hobject : BraceLast ('{' :: cs.takeWhile (· ≠ '}') ++ ['}']) := by
      rw [BraceLast, List.dropLast_concat, List.mem_cons, not_or]
      refine ⟨by decide, fun hmem => ?_⟩
      have hne := List.mem_takeWhile_imp hmem
      exact of_decide_eq_true hne rfl
    unfold objectEntry at he
    split_ifs at he
    split at he
    · cases he
      cases hfind : findKey "fixed_ip".toList ('{' :: cs.takeWhile (· ≠ '}') ++ ['}']) with
      | none => exact List.not_mem_nil
      | some v => exact hobject.of_sublist ((stringBuf_sublist v _).trans (findKey_sublist hfind))
    · cases he

/-- A call for an entry stores its address at most. -/
theorem braceLast_addEntry {t : UserTable} (h : ∀ i, BraceLast (t.userFixedIps i)) {e : Entry}
    (he : BraceLast e.fixedIp) (i : Nat) : BraceLast ((addEntry t e).1.userFixedIps i) := by
  have hadd := (t.addUser_frame e.uname e.key).1
  unfold addEntry
  split
  · rename_i t' hcode
    have ht' : t'.userFixedIps = t.userFixedIps := by
      rw [← hadd]
      exact congrArg (fun p => p.1.userFixedIps) hcode.symm
    split_ifs
    · exact ht' ▸ h i
    · unfold setUserFixedIp
      split_ifs
      · exact ht' ▸ h i
      · split
        · exact ht' ▸ h i
        · rename_i j _
          show BraceLast (Function.update t'.userFixedIps j (e.fixedIp.take 19) i)
          by_cases hij : i = j
          · rw [hij, Function.update_self]
            exact he.of_sublist (List.take_sublist _ _)
          · rw [Function.update_of_ne hij]
            exact ht' ▸ h i
  · rename_i t' code _ hcode
    have ht' : t'.userFixedIps = t.userFixedIps := by
      rw [← hadd]
      exact congrArg (fun p => p.1.userFixedIps) hcode.symm
    exact ht' ▸ h i

theorem braceLast_foldl {es : List Entry} (hes : ∀ e ∈ es, BraceLast e.fixedIp) {t : UserTable}
    (h : ∀ i, BraceLast (t.userFixedIps i)) (i : Nat) :
    BraceLast ((es.foldl (fun t e => (addEntry t e).1) t).userFixedIps i) := by
  induction es generalizing t with
  | nil => exact h i
  | cons e es ih =>
    obtain ⟨he, hes⟩ := List.forall_mem_cons.1 hes
    exact ih hes (braceLast_addEntry h he)

/-! ## The file's copy -/

/-- The buffers of `json_read_users` of `config.c`. -/
def fileBuffers : Buffers := ⟨360, 64, 256, 20⟩

/-- `add_user_entry` for an entry. -/
def addFile (cfg : ConfigFile.FileConfig) (e : Entry) : ConfigFile.FileConfig :=
  cfg.addUserEntry e.uname e.key (if e.fixedIp = [] then none else some e.fixedIp)

theorem userObject_eq (cfg : ConfigFile.FileConfig) (obj : List Char) :
    ConfigFile.userObject cfg obj = (objectEntry fileBuffers obj).map (addFile cfg) := by
  rw [ConfigFile.userObject, objectEntry]
  split_ifs
  · rfl
  · rw [fileBuffers]
    cases (findKey "name".toList obj).bind (readString · 64) with
    | none => rfl
    | some name => cases (findKey "key".toList obj).bind (readString · 256) <;> rfl

theorem userString_eq (cfg : ConfigFile.FileConfig) (s : List Char) :
    ConfigFile.userString cfg s = (pairEntry fileBuffers s).map (addFile cfg) := by
  rw [ConfigFile.userString, pairEntry, fileBuffers]
  dsimp only
  cases ((unescape s).take 359).dropWhile (· ≠ ':') with
  | nil => rfl
  | cons c key => rfl

/-- A step of the file's copy. -/
theorem usersLoop_entry {p : List Char} {e : Entry} (cfg : ConfigFile.FileConfig)
    (he : entry fileBuffers p = some (e, rest)) :
    (∀ q, skipWs rest = ',' :: q → ConfigFile.usersLoop cfg p = ConfigFile.usersLoop (addFile cfg e) (skipWs q)) ∧
      ∀ q, skipWs rest = ']' :: q → ConfigFile.usersLoop cfg p = (addFile cfg e, true) := by
  obtain ⟨cs, s, rfl, hs, he⟩ | ⟨cs, c, rfl, hcs, he⟩ := entry_cases he
  · have hadd : ConfigFile.userString cfg s = some (addFile cfg e) := by
      rw [userString_eq, he]
      rfl
    rw [ConfigFile.usersLoop]
    split
    · rename_i hnone
      cases hs.symm.trans hnone
    · rename_i hsome
      cases hs.symm.trans hsome
      rw [hadd]
      dsimp only
      split
      · rename_i q hws
        exact ⟨fun q' hws' => by cases hws.symm.trans hws'; rfl, fun q' hws' => by cases hws.symm.trans hws'⟩
      · rename_i hws
        exact ⟨fun q' hws' => (by cases hws.symm.trans hws'), fun q' hws' => rfl⟩
      · rename_i hcomma hbracket
        exact ⟨fun q' hws' => absurd hws' (hcomma q'), fun q' hws' => absurd hws' (hbracket q')⟩
  · have hadd : ConfigFile.userObject cfg ('{' :: cs.takeWhile (· ≠ '}') ++ ['}']) = some (addFile cfg e) := by
      rw [userObject_eq, he]
      rfl
    rw [ConfigFile.usersLoop]
    split
    · rename_i hnone
      cases hcs.symm.trans hnone
    · rename_i hsome
      cases hcs.symm.trans hsome
      rw [hadd]
      dsimp only
      split
      · rename_i q hws
        exact ⟨fun q' hws' => by cases hws.symm.trans hws'; rfl, fun q' hws' => by cases hws.symm.trans hws'⟩
      · rename_i hws
        exact ⟨fun q' hws' => (by cases hws.symm.trans hws'), fun q' hws' => rfl⟩
      · rename_i hcomma hbracket
        exact ⟨fun q' hws' => absurd hws' (hcomma q'), fun q' hws' => absurd hws' (hbracket q')⟩

/-- The loop of the file's copy adds the entries, one after the other. -/
theorem usersLoop_file {p : List Char} {es : List Entry} (cfg : ConfigFile.FileConfig)
    (hes : entries fileBuffers p = some es) : ConfigFile.usersLoop cfg p = (es.foldl addFile cfg, true) := by
  fun_induction entries fileBuffers p generalizing cfg es with
  | case1 tail =>
    cases hes
    rw [ConfigFile.usersLoop]
    rfl
  | case2 p hp he => cases hes
  | case3 p hp e rest he q hws ih =>
    obtain ⟨es', hes', rfl⟩ := Option.map_eq_some_iff.1 hes
    rw [(usersLoop_entry cfg he).1 q hws]
    exact ih (addFile cfg e) hes'
  | case4 p hp e rest he tail hws =>
    cases hes
    exact (usersLoop_entry cfg he).2 tail hws
  | case5 p hp e rest he hcomma hbracket => cases hes

/-- The users of a configuration, with their addresses and none behind them. -/
structure FileHas (cfg : ConfigFile.FileConfig) (us : List ListedUser) : Prop where
  users : cfg.users = us.map fun u => (u.name, u.key)
  fixedIps : ∀ i, cfg.userFixedIps i = (us[i]?.map fun u => u.fixedIp.getD []).getD []

theorem FileHas.addFile {cfg : ConfigFile.FileConfig} (h : FileHas cfg us) (hnew : u.name ∉ us.map ListedUser.name)
    (hroom : us.length < 64) : FileHas (addFile cfg u.entry) (us ++ [u]) := by
  have hvalid : (u.name.any fun c => c = '"' ∨ c = '\\' ∨ c.toNat < 0x20) = false := by
    rw [List.any_eq_false]
    intro c hc
    obtain ⟨hquote, hslash, hcontrol⟩ := u.valid.1 c hc
    simpa [hquote, hslash] using hcontrol
  have hfind : cfg.users.findIdx? (fun v => decide (v.1 = u.name)) = none := by
    rw [h.users, List.findIdx?_eq_none_iff]
    intro v hv
    obtain ⟨w, hw, rfl⟩ := List.mem_map.1 hv
    exact decide_eq_false fun heq => hnew (List.mem_map.2 ⟨w, hw, heq⟩)
  have hlength : cfg.users.length = us.length := by rw [h.users, List.length_map]
  have hadd : UserList.addFile cfg u.entry =
      ({ cfg with users := cfg.users ++ [(u.name, u.key)] } : ConfigFile.FileConfig).setFixedIp us.length
        (if u.fixedIp.getD [] = [] then none else some (u.fixedIp.getD [])) := by
    rw [UserList.addFile, ListedUser.entry, ConfigFile.FileConfig.addUserEntry,
      if_neg (by simp [u.name_ne_nil, u.key_ne_nil]), hvalid, if_neg (by simp), hfind]
    dsimp only
    rw [if_neg (by rw [hlength]; exact Nat.not_le.2 hroom), hlength,
      List.take_of_length_le (Nat.le_of_lt_succ u.name_length.2),
      List.take_of_length_le (Nat.le_of_lt_succ u.key_length.2)]
  rw [hadd]
  by_cases hip : u.fixedIp.getD [] = []
  · rw [if_pos hip]
    refine ⟨?_, fun i => ?_⟩
    · show cfg.users ++ [(u.name, u.key)] = _
      rw [h.users, List.map_append]
      rfl
    · show cfg.userFixedIps i = _
      rw [h.fixedIps, List.getElem?_append]
      split_ifs with hi
      · rfl
      · rw [List.getElem?_eq_none (Nat.not_lt.1 hi)]
        cases hlast : [u][i - us.length]? with
        | none => rfl
        | some v =>
          have hv := List.mem_of_getElem? hlast
          rw [List.mem_singleton] at hv
          rw [hv, Option.map_some, hip]
          rfl
  · rw [if_neg hip]
    refine ⟨?_, fun i => ?_⟩
    · show cfg.users ++ [(u.name, u.key)] = _
      rw [h.users, List.map_append]
      rfl
    · show Function.update cfg.userFixedIps us.length ((u.fixedIp.getD []).take 19) i = _
      rw [List.take_of_length_le (Nat.le_of_lt_succ u.ip_length)]
      by_cases hi : i = us.length
      · rw [hi, Function.update_self, List.getElem?_concat_length]
        rfl
      · rw [Function.update_of_ne hi, h.fixedIps, List.getElem?_append]
        split_ifs with hlt
        · rfl
        · rw [List.getElem?_eq_none (Nat.not_lt.1 hlt), List.getElem?_eq_none]
          rw [List.length_singleton]
          omega

theorem FileHas.foldl {cfg : ConfigFile.FileConfig} {us : List ListedUser} (h : FileHas cfg us)
    (vs : List ListedUser)
    (hnodup : ((us ++ vs).map ListedUser.name).Nodup) (hroom : (us ++ vs).length ≤ 64) :
    FileHas ((vs.map ListedUser.entry).foldl UserList.addFile cfg) (us ++ vs) := by
  induction vs generalizing cfg us with
  | nil =>
    rw [List.append_nil]
    exact h
  | cons v vs ih =>
    rw [List.append_cons] at hnodup hroom ⊢
    refine ih (h.addFile ?_ ?_) hnodup hroom
    · rw [List.map_append, List.map_append, List.append_assoc] at hnodup
      intro hmem
      exact (List.nodup_append.1 hnodup).2.2 _ hmem _ (List.mem_append_left _ (List.mem_singleton_self _)) rfl
    · simp only [List.length_append, List.length_cons] at hroom
      omega

/-! ## Both copies -/

/-- `json_read_users` of `mqvpn_config.c`, from a new configuration, leaves these users. -/
def LibraryReads (text : List Char) (us : List ListedUser) : Prop :=
  (Builder.readUsers UserTable.empty text).2 = .ok ∧
    (Builder.readUsers UserTable.empty text).1.rows = us.map ListedUser.user

/-- `json_read_users` of `config.c`, from the defaults, leaves these users. -/
def FileReads (text : List Char) (us : List ListedUser) : Prop :=
  (ConfigFile.readUsers ConfigFile.defaults text).2 = true ∧
    (ConfigFile.readUsers ConfigFile.defaults text).1.users = us.map (fun u => (u.name, u.key)) ∧
      ∀ i u, us[i]? = some u → (ConfigFile.readUsers ConfigFile.defaults text).1.userFixedIps i = u.fixedIp.getD []

/-- What both copies read of an array. -/
theorem array_text (ws : Blank) (es : Syn .elems) (rest : List Char) :
    (Syn.array ws es).text ++ rest = '[' :: (ws.chars ++ (es.text ++ ']' :: rest)) := by
  simp [Syn.text]

theorem libraryReads_of_readable (h : Lists es us) (hlength : us.length ≤ 64) (hnodup : (us.map ListedUser.name).Nodup)
    (hread : Readable es us) (ws : Blank) (rest : List Char) : LibraryReads ((Syn.array ws es).text ++ rest) us := by
  have hes := entries_of_readable (b := buffers) ⟨le_rfl, le_rfl, le_rfl⟩ h hread rest
  have hwf : UserTable.empty.Wf := ⟨fun _ hi => absurd hi (Nat.not_lt_zero _), fun _ _ => rfl⟩
  obtain ⟨halong, hrows⟩ := addEntries_rows hwf (fun r hr => absurd hr List.not_mem_nil) hnodup
    ((Nat.zero_add _).trans_le hlength)
  have hloop : Builder.readUsers UserTable.empty ((Syn.array ws es).text ++ rest) =
      Builder.usersLoop UserTable.empty (skipWs (es.text ++ ']' :: rest)) := by
    rw [array_text, Builder.readUsers, skipWs_blank]
    rfl
  rw [LibraryReads, hloop, usersLoop_of_entries hes halong]
  exact ⟨rfl, hrows⟩

theorem fileReads_of_readable (h : Lists es us) (hlength : us.length ≤ 64) (hnodup : (us.map ListedUser.name).Nodup)
    (hread : Readable es us) (ws : Blank) (rest : List Char) : FileReads ((Syn.array ws es).text ++ rest) us := by
  have hes := entries_of_readable (b := fileBuffers) ⟨le_rfl, le_rfl, le_rfl⟩ h hread rest
  have hempty : FileHas { ConfigFile.defaults with users := [] } [] := ⟨rfl, fun _ => rfl⟩
  have hhas := hempty.foldl us hnodup hlength
  have hloop : ConfigFile.readUsers ConfigFile.defaults ((Syn.array ws es).text ++ rest) =
      ConfigFile.usersLoop { ConfigFile.defaults with users := [] } (skipWs (es.text ++ ']' :: rest)) := by
    rw [array_text, ConfigFile.readUsers, skipWs_blank]
  rw [FileReads, hloop, usersLoop_file _ hes]
  refine ⟨rfl, hhas.users, fun i u hu => ?_⟩
  rw [hhas.fixedIps, List.nil_append, hu]
  rfl

theorem readable_of_libraryReads (h : Lists es us) {ws : Blank} (hread : LibraryReads ((Syn.array ws es).text ++ rest) us) :
    Readable es us := by
  obtain ⟨hok, hrows⟩ := hread
  rw [array_text, Builder.readUsers, skipWs_blank] at hok hrows
  obtain ⟨l, hl, htable⟩ := entries_of_usersLoop hok
  rw [htable] at hrows
  have hstored := braceLast_foldl (forall_entries (fun _ _ _ he => braceLast_entry he) hl)
    (t := { UserTable.empty with nUsers := 0 }) fun _ => List.not_mem_nil
  refine readable_of_entries (b := buffers) ⟨le_rfl, le_rfl, le_rfl⟩ h (fun u hu ip hip => ?_) hl
  -- the address is that of a row
  have hmem : u.user ∈ us.map ListedUser.user := List.mem_map_of_mem hu
  rw [← hrows] at hmem
  obtain ⟨i, hi, hrow⟩ := List.getElem_of_mem hmem
  rw [UserTable.getElem_rows] at hrow
  have hrowIp : _ = u.fixedIp.getD [] := congrArg User.fixedIp hrow
  have hstored : BraceLast (u.fixedIp.getD []) := hrowIp ▸ hstored i
  rw [hip] at hstored
  exact hstored

/-- On an array of objects with different users, no more than there is room for, both copies
    leave exactly these users if and only if no string has a closing brace and all objects fit
    in the buffer. -/
theorem readUsers_iff (ws : Blank) (es : Syn .elems) (us : List ListedUser) (rest : List Char) (h : Lists es us)
    (hlength : us.length ≤ 64) (hnodup : (us.map ListedUser.name).Nodup) :
    LibraryReads ((Syn.array ws es).text ++ rest) us ∧ FileReads ((Syn.array ws es).text ++ rest) us ↔ Readable es us :=
  ⟨fun hread => readable_of_libraryReads h hread.1, fun hread =>
    ⟨libraryReads_of_readable h hlength hnodup hread ws rest, fileReads_of_readable h hlength hnodup hread ws rest⟩⟩

/-- A user with this key. -/
def withKey (key : List Char) (hlength : 0 < key.length ∧ key.length < 256) (hvalid : ValidName key) : ListedUser :=
  ⟨"ann".toList, key, none, by decide, hlength, fun _ h => (by cases h), ⟨by decide, hvalid, fun _ h => (by cases h)⟩⟩

/-- The list of a user with this key, in one object. -/
def withKeyText (key : Body) : Syn .elems :=
  .elem .none (.object .none (.member .none ⟨"name".toList, rfl⟩ .none .none (.string ⟨"ann".toList, rfl⟩) .none
    (.member .none ⟨"key".toList, rfl⟩ .none .none (.string key) .none .noMembers))) .none .noElems

theorem lists_withKey (key : Body) (hlength : 0 < key.raw.length ∧ key.raw.length < 256) (hvalid : ValidName key.raw) :
    Lists (withKeyText key) [withKey key.raw hlength hvalid] :=
  .cons (.cons (.cons .nil)) (.refl _) .nil

theorem readUsers_iff_sample :
    LibraryReads ((Syn.array .none (withKeyText ⟨"a".toList, rfl⟩)).text ++ []) [withKey "a".toList (by decide) (by decide)] ∧
      FileReads ((Syn.array .none (withKeyText ⟨"a".toList, rfl⟩)).text ++ [])
        [withKey "a".toList (by decide) (by decide)] :=
  (readUsers_iff .none _ _ [] (lists_withKey ⟨"a".toList, rfl⟩ (by decide) (by decide)) (by decide) (by decide)).2
    ⟨by decide, by decide⟩

/-- A key with a closing brace. -/
theorem not_readUsers : ¬∀ (ws : Blank) (es : Syn .elems) (us : List ListedUser) (rest : List Char), Lists es us →
    us.length ≤ 64 → (us.map ListedUser.name).Nodup →
    LibraryReads ((Syn.array ws es).text ++ rest) us ∧ FileReads ((Syn.array ws es).text ++ rest) us := by
  intro h
  have hlists := lists_withKey ⟨"\x7d".toList, rfl⟩ (by decide) (by decide)
  have hread := readable_of_libraryReads hlists (h .none _ _ [] hlists (by decide) (by decide)).1
  exact hread.2 _ List.mem_cons_self ("key".toList, "\x7d".toList) (mem_fields.2 (.inr (.inl rfl))) (by decide)

end Mqvpn.UserList
