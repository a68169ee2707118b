import Mathlib.Algebra.Group.Int.Defs
import Mathlib.Algebra.Group.Nat.Defs
import Mathlib.Tactic.SplitIfs

/-!
# Numbers and addresses in C strings

The functions of the C library that read numbers and IP addresses: `strtol` in base
10, and `inet_pton` for both families. A C string is the list of its characters, one
for each byte, without the terminating zero. An address is a number below `2 ^ 32`
(`inetPton4_lt`) or `2 ^ 128` (`inetPton6_lt`), and its text has only the characters that
addresses have (`IsIp.ipChar`). Texts are split into words as `strtok_r` does (`strtok`).
A number that is printed is read back (`digits_decimal`, `inetPton4_quad`).
-/

namespace Text

/-! ## Characters -/

-- a fact about the characters of a text is decided along the text, not by going through all characters
instance decidableForallMemChars (p : Char → Prop) [DecidablePred p] (s : List Char) : Decidable (∀ c ∈ s, p c) :=
  List.decidableBAll p s

instance decidableForallMemChar (p : Char → Prop) [DecidablePred p] (c : Option Char) : Decidable (∀ d ∈ c, p d) :=
  Option.decidableForallMem c

/-! ## Numbers -/

/-- `isspace` -/
def isSpace (c : Char) : Bool := c = ' ' ∨ (9 ≤ c.toNat ∧ c.toNat ≤ 13)

/-- The value of a decimal digit. -/
def digit (c : Char) : Option Nat :=
  if '0' ≤ c ∧ c ≤ '9' then some (c.toNat - '0'.toNat) else none

/-- The value of a hexadecimal digit. -/
def hexDigit (c : Char) : Option Nat :=
  if '0' ≤ c ∧ c ≤ '9' then some (c.toNat - '0'.toNat)
  else if 'a' ≤ c ∧ c ≤ 'f' then some (c.toNat - 'a'.toNat + 10)
  else if 'A' ≤ c ∧ c ≤ 'F' then some (c.toNat - 'A'.toNat + 10)
  else none

/-- The number that the leading digits are, on top of `acc`, and what follows them. -/
def digits (acc : Nat) : List Char → Nat × List Char
  | [] => (acc, [])
  | c :: cs =>
    match digit c with
    | some d => digits (acc * 10 + d) cs
    | none => (acc, c :: cs)

/-- An optional sign, and what follows it. -/
def sign : List Char → Int × List Char
  | '+' :: cs => (1, cs)
  | '-' :: cs => (-1, cs)
  | cs => (1, cs)

/-- `strtol` in base 10, with a `long` of 64 bits: the number, and what follows it;
    nothing if there is no digit. -/
def strtol (s : List Char) : Option (Int × List Char) :=
  let (sgn, cs) := sign (s.dropWhile isSpace)
  match cs with
  | [] => none
  | c :: _ =>
    if (digit c).isNone then none
    else
      let (n, rest) := digits 0 cs
      some (max (-2 ^ 63) (min (sgn * n) (2 ^ 63 - 1)), rest)

/-- `strtoull` in base 10 of a text that starts with a digit: the number, and what
    follows it; nothing if the number has more than 64 bits. -/
def strtoull (s : List Char) : Option (Nat × List Char) :=
  let (n, rest) := digits 0 s
  if n < 2 ^ 64 then some (n, rest) else none

/-- The text starts with a digit. -/
def startsWithDigit (s : List Char) : Bool := s.head?.any fun c => (digit c).isSome

/-- `strcasecmp` finds no difference. -/
def eqIgnoreCase (s t : List Char) : Bool := s.map Char.toLower = t.map Char.toLower

/-! ## Addresses -/

/-- A part of a dotted quad: at most 255, without leading zeros. -/
def octet (s : List Char) : Option Nat :=
  match digits 0 s with
  | (n, []) => if s ≠ [] ∧ n ≤ 255 ∧ (s.head? = some '0' → s.length = 1) then some n else none
  | _ => none

/-- `inet_pton` for `AF_INET` -/
def inetPton4 (s : List Char) : Option Nat :=
  match s.splitOn '.' with
  | [a, b, c, d] =>
    match octet a, octet b, octet c, octet d with
    | some a, some b, some c, some d => some (((a * 256 + b) * 256 + c) * 256 + d)
    | _, _, _, _ => none
  | _ => none

/-- The state of `inet_pton` for `AF_INET6`: the groups of 16 bits so far, how many
    of them stand before a `::`, the group that is being read with its number of
    digits, and the text from the start of this group. -/
structure Groups where
  done : List Nat := []
  colons : Option Nat := none
  val : Nat := 0
  seen : Nat := 0
  token : List Char

/-- The groups together, eight of them once the `::` is filled with zeros. -/
def Groups.finish (g : Groups) : Option (List Nat) :=
  let done := if 0 < g.seen then g.done ++ [g.val] else g.done
  match g.colons with
  | none => if done.length = 8 then some done else none
  | some n =>
    if done.length < 8 then some (done.take n ++ List.replicate (8 - done.length) 0 ++ done.drop n)
    else none

/-- The loop of `inet_pton` for `AF_INET6`. -/
def inetPton6Loop (g : Groups) : List Char → Option (List Nat)
  | [] => g.finish
  | c :: cs =>
    match hexDigit c with
    | some d =>
      if g.seen = 4 then none
      else inetPton6Loop { g with val := g.val * 16 + d, seen := g.seen + 1 } cs
    | none =>
      if c = ':' then
        if g.seen = 0 then
          if g.colons.isSome then none
          else inetPton6Loop { g with colons := some g.done.length, token := cs } cs
        else if cs = [] ∨ 8 ≤ g.done.length then none
        else inetPton6Loop { g with done := g.done ++ [g.val], val := 0, seen := 0, token := cs } cs
      else if c = '.' ∧ g.done.length ≤ 6 then
        -- the rest of the text, from the start of the group, is a dotted quad
        match inetPton4 g.token with
        | some a => { g with done := g.done ++ [a / 2 ^ 16, a % 2 ^ 16], val := 0, seen := 0 }.finish
        | none => none
      else none

/-- `inet_pton` for `AF_INET6` -/
def inetPton6 (s : List Char) : Option Nat :=
  let groups :=
    match s with
    | [] => none
    | ':' :: ':' :: cs => inetPton6Loop { token := ':' :: cs } (':' :: cs)
    | ':' :: _ => none
    | s => inetPton6Loop { token := s } s
  groups.map fun l => l.foldl (fun a v => a * 2 ^ 16 + v) 0

/-- An address of either family. -/
def IsIp (s : List Char) : Prop := (inetPton4 s).isSome = true ∨ (inetPton6 s).isSome = true

instance (s : List Char) : Decidable (IsIp s) := inferInstanceAs (Decidable (_ ∨ _))

/-- The words that `strtok_r` finds between the delimiters. -/
def strtok (delim : Char → Bool) (s : List Char) : List (List Char) := (s.splitOnP delim).filter (· ≠ [])

example : inetPton4 "10.0.0.5".toList = some 0x0a000005 := by decide
example : inetPton4 "10.0.0.05".toList = none := by decide
example : inetPton6 "fd00::1:2".toList = some 0xfd000000000000000000000000010002 := by decide
example : inetPton6 "::ffff:1.2.3.4".toList = some 0xffff01020304 := by decide
example : inetPton6 "1::2::3".toList = none := by decide

/-! ## Ranges -/

theorem octet_le {s : List Char} {n : Nat} (h : octet s = some n) : n ≤ 255 := by
  rw [octet] at h
  split at h
  · split_ifs at h with hn
    cases h
    exact hn.2.1
  · cases h

theorem inetPton4_lt {s : List Char} {a : Nat} (h : inetPton4 s = some a) : a < 2 ^ 32 := by
  rw [inetPton4] at h
  split at h
  · split at h
    · rename_i ha hb hc hd
      cases h
      have ha := octet_le ha
      have hb := octet_le hb
      have hc := octet_le hc
      have hd := octet_le hd
      omega
    · cases h
  · cases h

/-- The groups that are done are of 16 bits, and so is the one that is being read. -/
def Groups.Fit (g : Groups) : Prop := (∀ v ∈ g.done, v < 2 ^ 16) ∧ g.val < 16 ^ g.seen ∧ g.seen ≤ 4

theorem hexDigit_lt {c : Char} {d : Nat} (h : hexDigit c = some d) : d < 16 := by
  have hnat : ∀ {a b : Char}, a ≤ b → a.toNat ≤ b.toNat := fun h => h
  rw [hexDigit] at h
  split_ifs at h with h₁ h₂ h₃
  · cases h
    have := hnat h₁.2
    simp only [Char.reduceToNat] at this ⊢
    omega
  · cases h
    have := hnat h₂.2
    simp only [Char.reduceToNat] at this ⊢
    omega
  · cases h
    have := hnat h₃.2
    simp only [Char.reduceToNat] at this ⊢
    omega

theorem Groups.Fit.val_lt {g : Groups} (h : g.Fit) : g.val < 2 ^ 16 :=
  Nat.lt_of_lt_of_le h.2.1 (Nat.pow_le_pow_right (by decide) h.2.2)

theorem forall_lt_append {l m : List Nat} {n : Nat} (hl : ∀ v ∈ l, v < n) (hm : ∀ v ∈ m, v < n) :
    ∀ v ∈ l ++ m, v < n := by
  intro v hv
  rcases List.mem_append.1 hv with hv | hv
  · exact hl v hv
  · exact hm v hv

theorem Groups.Fit.finish {g : Groups} (h : g.Fit) {l : List Nat} (hl : g.finish = some l) :
    l.length = 8 ∧ ∀ v ∈ l, v < 2 ^ 16 := by
  have hall : ∀ v ∈ if 0 < g.seen then g.done ++ [g.val] else g.done, v < 2 ^ 16 := by
    split_ifs
    · exact forall_lt_append h.1 fun v hv => List.mem_singleton.1 hv ▸ h.val_lt
    · exact h.1
  rw [Groups.finish] at hl
  generalize (if 0 < g.seen then g.done ++ [g.val] else g.done) = done at hl hall
  split at hl
  · split_ifs at hl with hlen
    cases hl
    exact ⟨hlen, hall⟩
  · split_ifs at hl with hlen
    cases hl
    refine ⟨?_, forall_lt_append (forall_lt_append (fun v hv => ?_) fun v hv => ?_) fun v hv => ?_⟩
    · simp only [List.length_append, List.length_take, List.length_replicate, List.length_drop]
      omega
    · exact hall v (List.mem_of_mem_take hv)
    · exact List.eq_of_mem_replicate hv ▸ by decide
    · exact hall v (List.mem_of_mem_drop hv)

/-- The loop keeps the groups at 16 bits. -/
theorem inetPton6Loop_fit {s : List Char} {g : Groups} (h : g.Fit) {l : List Nat}
    (hl : inetPton6Loop g s = some l) : l.length = 8 ∧ ∀ v ∈ l, v < 2 ^ 16 := by
  induction s generalizing g with
  | nil => exact h.finish hl
  | cons c cs ih =>
    obtain ⟨hdone, hval, hseen⟩ := h
    have hlt := Groups.Fit.val_lt ⟨hdone, hval, hseen⟩
    rw [inetPton6Loop] at hl
    split at hl
    · rename_i d hd
      split_ifs at hl with hfour
      have hd := hexDigit_lt hd
      have hpow : (16 : Nat) ^ (g.seen + 1) = 16 ^ g.seen * 16 := rfl
      refine ih (g := { g with val := g.val * 16 + d, seen := g.seen + 1 }) ⟨hdone, ?_, ?_⟩ hl
      · change g.val * 16 + d < 16 ^ (g.seen + 1)
        omega
      · change g.seen + 1 ≤ 4
        omega
    · split_ifs at hl
      · exact ih (g := { g with colons := some g.done.length, token := cs }) ⟨hdone, hval, hseen⟩ hl
      · refine ih (g := { g with done := g.done ++ [g.val], val := 0, seen := 0, token := cs })
          ⟨forall_lt_append hdone fun v hv => ?_, Nat.one_pos, Nat.zero_le 4⟩ hl
        exact List.mem_singleton.1 hv ▸ hlt
      · split at hl
        · rename_i a ha
          have ha := inetPton4_lt ha
          refine Groups.Fit.finish ⟨forall_lt_append hdone fun v hv => ?_, Nat.one_pos, Nat.zero_le 4⟩ hl
          simp only [List.mem_cons, List.not_mem_nil, or_false] at hv
          omega
        · cases hl

/-- Groups in a row are a number below that many powers. -/
theorem foldl_groups_lt {l : List Nat} (h : ∀ v ∈ l, v < 2 ^ 16) (a : Nat) :
    l.foldl (fun a v => a * 2 ^ 16 + v) a < (a + 1) * (2 ^ 16) ^ l.length := by
  induction l generalizing a with
  | nil =>
    rw [List.length_nil, Nat.pow_zero, Nat.mul_one]
    exact Nat.lt_succ_self a
  | cons v l ih =>
    have hv := h v List.mem_cons_self
    refine Nat.lt_of_lt_of_le (ih (fun v hv => h v (List.mem_cons_of_mem _ hv)) _) ?_
    rw [List.length_cons, Nat.pow_succ' (m := 2 ^ 16), ← Nat.mul_assoc]
    refine Nat.mul_le_mul_right _ ?_
    change a * 2 ^ 16 + v + 1 ≤ (a + 1) * 2 ^ 16
    omega

theorem inetPton6_lt {s : List Char} {a : Nat} (h : inetPton6 s = some a) : a < 2 ^ 128 := by
  obtain ⟨l, hl, rfl⟩ := Option.map_eq_some_iff.1 h
  have hfit : l.length = 8 ∧ ∀ v ∈ l, v < 2 ^ 16 := by
    have hstart : ∀ token, ({ token } : Groups).Fit := fun token =>
      ⟨fun v hv => absurd hv List.not_mem_nil, Nat.one_pos, Nat.zero_le 4⟩
    split at hl
    · cases hl
    · exact inetPton6Loop_fit (hstart _) hl
    · cases hl
    · exact inetPton6Loop_fit (hstart _) hl
  have hlt := foldl_groups_lt hfit.2 0
  rw [hfit.1] at hlt
  exact hlt

/-! ## The characters of an address -/

/-- A character that an address can have. -/
def IpChar (c : Char) : Prop := (hexDigit c).isSome = true ∨ c = ':' ∨ c = '.'

instance (c : Char) : Decidable (IpChar c) := inferInstanceAs (Decidable (_ ∨ _))

theorem ipChar_of_digit {c : Char} (h : (digit c).isSome = true) : IpChar c := by
  refine .inl ?_
  rw [digit] at h
  rw [hexDigit]
  split_ifs at h with hc
  · rw [if_pos hc]
    rfl
  · cases h

theorem ipChar_of_digits {s : List Char} {acc n : Nat} (h : digits acc s = (n, [])) : ∀ c ∈ s, IpChar c := by
  induction s generalizing acc with
  | nil => exact fun c hc => absurd hc List.not_mem_nil
  | cons d s ih =>
    rw [digits] at h
    split at h
    · rename_i hd
      intro c hc
      rcases List.mem_cons.1 hc with rfl | hc
      · exact ipChar_of_digit (Option.isSome_of_eq_some hd)
      · exact ih h c hc
    · cases h

theorem ipChar_of_octet {s : List Char} {n : Nat} (h : octet s = some n) : ∀ c ∈ s, IpChar c := by
  rw [octet] at h
  split at h
  · rename_i hdigits
    exact ipChar_of_digits hdigits
  · cases h

/-- A character is a delimiter, or in one of the parts. -/
theorem mem_splitOnP {p : Char → Bool} {s : List Char} {c : Char} (h : c ∈ s) :
    p c = true ∨ ∃ part ∈ s.splitOnP p, c ∈ part := by
  induction s with
  | nil => exact absurd h List.not_mem_nil
  | cons d s ih =>
    rw [List.splitOnP_cons_eq_if_modifyHead]
    rcases List.mem_cons.1 h with rfl | h
    · by_cases hc : p c = true
      · exact .inl hc
      · obtain ⟨part, parts, hparts⟩ := List.exists_cons_of_ne_nil (List.splitOnP_ne_nil p s)
        rw [if_neg hc, hparts]
        exact .inr ⟨c :: part, List.mem_cons_self, List.mem_cons_self⟩
    · rcases ih h with hc | ⟨part, hpart, hc⟩
      · exact .inl hc
      · refine .inr ?_
        split_ifs
        · exact ⟨part, List.mem_cons_of_mem _ hpart, hc⟩
        · obtain ⟨first, parts, hparts⟩ := List.exists_cons_of_ne_nil (List.splitOnP_ne_nil p s)
          rw [hparts] at hpart ⊢
          rcases List.mem_cons.1 hpart with rfl | hpart
          · exact ⟨d :: part, List.mem_cons_self, List.mem_cons_of_mem _ hc⟩
          · exact ⟨part, List.mem_cons_of_mem _ hpart, hc⟩

theorem ipChar_of_inetPton4 {s : List Char} {a : Nat} (h : inetPton4 s = some a) : ∀ c ∈ s, IpChar c := by
  intro c hc
  rw [inetPton4] at h
  split at h
  · rename_i w x y z hsplit
    split at h
    · rename_i hw hx hy hz
      rw [List.splitOn_eq_splitOnP] at hsplit
      rcases mem_splitOnP (p := (· == '.')) hc with hdot | ⟨part, hpart, hc⟩
      · exact .inr (.inr (by simpa using hdot))
      · rw [hsplit] at hpart
        simp only [List.mem_cons, List.not_mem_nil, or_false] at hpart
        rcases hpart with rfl | rfl | rfl | rfl
        · exact ipChar_of_octet hw c hc
        · exact ipChar_of_octet hx c hc
        · exact ipChar_of_octet hy c hc
        · exact ipChar_of_octet hz c hc
    · cases h
  · cases h

theorem ipChar_of_inetPton6Loop {s : List Char} {g : Groups} {l : List Nat} (hl : inetPton6Loop g s = some l)
    (hg : s <:+ g.token) : ∀ c ∈ s, IpChar c := by
  induction s generalizing g with
  | nil => exact fun c hc => absurd hc List.not_mem_nil
  | cons d s ih =>
    have hs : s <:+ g.token := (List.suffix_cons d s).trans hg
    intro c hc
    rw [inetPton6Loop] at hl
    split at hl
    · rename_i hd
      split_ifs at hl
      rcases List.mem_cons.1 hc with rfl | hc
      · exact .inl (Option.isSome_of_eq_some hd)
      · exact ih hl hs c hc
    · split_ifs at hl with hcolon _ _ _ hdot
      · rcases List.mem_cons.1 hc with rfl | hc
        · exact .inr (.inl hcolon)
        · exact ih hl List.suffix_rfl c hc
      · rcases List.mem_cons.1 hc with rfl | hc
        · exact .inr (.inl hcolon)
        · exact ih hl List.suffix_rfl c hc
      · -- The rest is a dotted quad, with the group that was being read.
        split at hl
        · rename_i ha
          exact ipChar_of_inetPton4 ha c (hg.subset hc)
        · cases hl

theorem IsIp.ipChar {s : List Char} (h : IsIp s) : ∀ c ∈ s, IpChar c := by
  rcases h with h | h
  · obtain ⟨a, ha⟩ := Option.isSome_iff_exists.1 h
    exact ipChar_of_inetPton4 ha
  · obtain ⟨a, ha⟩ := Option.isSome_iff_exists.1 h
    obtain ⟨l, hl, -⟩ := Option.map_eq_some_iff.1 ha
    split at hl
    · cases hl
    · intro c hc
      rcases List.mem_cons.1 hc with rfl | hc
      · exact .inr (.inl rfl)
      · exact ipChar_of_inetPton6Loop hl List.suffix_rfl c hc
    · cases hl
    · exact ipChar_of_inetPton6Loop hl List.suffix_rfl

theorem IsIp.ne_nil {s : List Char} (h : IsIp s) : s ≠ [] := by
  rintro rfl
  revert h
  decide

/-! ## Words -/

theorem strtok_append {p : Char → Bool} {word : List Char} (hword : word ≠ []) (h : ∀ c ∈ word, p c = false)
    {sep : Char} (hsep : p sep = true) (s : List Char) : strtok p (word ++ sep :: s) = word :: strtok p s := by
  rw [strtok, List.splitOnP_append_cons_of_forall_mem h sep hsep, List.filter_cons_of_pos (by simpa using hword)]
  rfl

theorem strtok_eq_singleton {p : Char → Bool} {word : List Char} (hword : word ≠ []) (h : ∀ c ∈ word, p c = false) :
    strtok p word = [word] := by
  rw [strtok, List.splitOnP_eq_singleton h, List.filter_cons_of_pos (by simpa using hword)]
  rfl

/-- Words that each end with a delimiter. -/
theorem strtok_flatMap {p : Char → Bool} {sep : Char} (hsep : p sep = true) {words : List (List Char)}
    (h : ∀ word ∈ words, word ≠ [] ∧ ∀ c ∈ word, p c = false) :
    strtok p (words.flatMap (· ++ [sep])) = words := by
  induction words with
  | nil => rfl
  | cons word words ih =>
    have hword := h word List.mem_cons_self
    rw [List.flatMap_cons, List.append_assoc, List.singleton_append, strtok_append hword.1 hword.2 hsep,
      ih fun w hw => h w (List.mem_cons_of_mem _ hw)]

/-- Words with a delimiter between them. -/
theorem strtok_intercalate {p : Char → Bool} {sep : Char} (hsep : p sep = true) {words : List (List Char)}
    (h : ∀ word ∈ words, word ≠ [] ∧ ∀ c ∈ word, p c = false) :
    strtok p ([sep].intercalate words) = words := by
  induction words with
  | nil => rfl
  | cons word words ih =>
    have hword := h word List.mem_cons_self
    cases words with
    | nil =>
      rw [List.intercalate_singleton]
      exact strtok_eq_singleton hword.1 hword.2
    | cons next words =>
      rw [List.intercalate_cons_cons, List.append_assoc, List.singleton_append, strtok_append hword.1 hword.2 hsep,
        ih fun w hw => h w (List.mem_cons_of_mem _ hw)]

/-! ## Decimals -/

/-- The digits of a number: `%u` -/
def decimal (n : Nat) : List Char := Nat.toDigits 10 n

theorem decimal_ne_nil (n : Nat) : decimal n ≠ [] := Nat.toDigits_ne_nil

theorem length_decimal_le {n k : Nat} (hk : 0 < k) (h : n < 10 ^ k) : (decimal n).length ≤ k :=
  (Nat.length_toDigits_le_iff (by decide) hk).2 h

theorem isDigit_of_mem_decimal {n : Nat} {c : Char} (h : c ∈ decimal n) : c.isDigit = true :=
  Nat.isDigit_of_mem_toDigits (by decide) (by decide) h

theorem notMem_decimal {c : Char} (hc : c.isDigit = false) (n : Nat) : c ∉ decimal n := by
  intro h
  rw [isDigit_of_mem_decimal h] at hc
  cases hc

theorem digit_digitChar {d : Nat} (h : d < 10) : digit d.digitChar = some d := by
  revert d
  decide

theorem digits_append {s : List Char} {acc n : Nat} (h : digits acc s = (n, [])) (t : List Char) :
    digits acc (s ++ t) = digits n t := by
  induction s generalizing acc with
  | nil =>
    cases h
    rfl
  | cons c s ih =>
    rw [List.cons_append, digits]
    rw [digits] at h
    split
    · rename_i d hd
      rw [hd] at h
      exact ih h
    · rename_i hd
      rw [hd] at h
      cases h

/-- Each digit is a factor of ten. -/
theorem mul_pow_le_of_digits {s : List Char} {acc n : Nat} (h : digits acc s = (n, [])) : acc * 10 ^ s.length ≤ n := by
  induction s generalizing acc with
  | nil =>
    cases h
    exact Nat.le_of_eq (Nat.mul_one _)
  | cons c s ih =>
    rw [digits] at h
    split at h
    · rename_i d _
      calc
        acc * 10 ^ (c :: s).length = acc * 10 * 10 ^ s.length := by rw [List.length_cons, Nat.pow_succ', Nat.mul_assoc]
        _ ≤ (acc * 10 + d) * 10 ^ s.length := Nat.mul_le_mul_right _ (Nat.le_add_right _ _)
        _ ≤ n := ih h
    · cases h

theorem le_of_digits {s : List Char} {acc n : Nat} (h : digits acc s = (n, [])) : acc ≤ n :=
  Nat.le_trans (Nat.le_mul_of_pos_right acc (Nat.pow_pos (by decide : 0 < 10))) (mul_pow_le_of_digits h)

theorem eq_zero_of_digit {c : Char} (h : digit c = some 0) : c = '0' := by
  rw [digit] at h
  split_ifs at h with hc
  have hge : '0'.toNat ≤ c.toNat := hc.1
  refine Char.toNat_inj.1 ?_
  rw [Option.some.injEq] at h
  omega

theorem length_le_of_octet {s : List Char} {n : Nat} (h : octet s = some n) : s.length ≤ 3 := by
  have hle := octet_le h
  rw [octet] at h
  split at h
  · rename_i m hdigits
    split_ifs at h with hs
    cases h
    obtain ⟨c, cs, rfl⟩ := List.exists_cons_of_ne_nil hs.1
    rw [digits] at hdigits
    cases hd : digit c with
    | none =>
      rw [hd] at hdigits
      cases hdigits
    | some d =>
      rw [hd] at hdigits
      by_cases hzero : d = 0
      · subst hzero
        have hlength := hs.2.2 (by rw [List.head?_cons, eq_zero_of_digit hd])
        omega
      · -- the first digit alone makes the number as large as its length says
        have hpow : 10 ^ cs.length ≤ n :=
          Nat.le_trans (Nat.le_mul_of_pos_left _ (by omega : 0 < 0 * 10 + d)) (mul_pow_le_of_digits hdigits)
        have hlength : cs.length < 3 := (Nat.pow_lt_pow_iff_right (by decide : 1 < 10)).1 (by omega)
        rw [List.length_cons]
        omega
  · cases h

/-- A dotted quad has at most 15 characters. -/
theorem length_le_of_inetPton4 {s : List Char} {a : Nat} (h : inetPton4 s = some a) : s.length ≤ 15 := by
  rw [inetPton4] at h
  split at h
  · rename_i w x y z hsplit
    split at h
    · rename_i hw hx hy hz
      have hw := length_le_of_octet hw
      have hx := length_le_of_octet hx
      have hy := length_le_of_octet hy
      have hz := length_le_of_octet hz
      have hs : ['.'].intercalate (s.splitOn '.') = s := List.intercalate_splitOn '.'
      rw [hsplit] at hs
      have hlength := congrArg List.length hs
      simp only [List.intercalate, List.intersperse, List.flatten_cons, List.flatten_nil, List.length_append,
        List.length_cons, List.length_nil] at hlength
      omega
    · cases h
  · cases h

/-- What is printed is read back. -/
theorem digits_decimal (n : Nat) : digits 0 (decimal n) = (n, []) := by
  induction n using Nat.strongRecOn with
  | ind n ih =>
    rw [decimal, Nat.toDigits_eq_if (by decide)]
    have hlast (m d : Nat) (h : d < 10) : digits m [d.digitChar] = (m * 10 + d, []) := by
      rw [digits, digit_digitChar h]
      rfl
    split_ifs with hn
    · rw [hlast 0 n hn, Nat.zero_mul, Nat.zero_add]
    · have hdiv := ih (n / 10) (Nat.div_lt_self (by omega) (by decide))
      rw [decimal] at hdiv
      rw [digits_append hdiv, hlast _ _ (Nat.mod_lt n (by decide)), Nat.div_add_mod']

theorem octet_decimal : ∀ n < 256, octet (decimal n) = some n := by decide +kernel

/-- The dotted quad of an address. -/
theorem inetPton4_quad {a b c d : Nat} (ha : a < 256) (hb : b < 256) (hc : c < 256) (hd : d < 256) :
    inetPton4 (decimal a ++ '.' :: (decimal b ++ '.' :: (decimal c ++ '.' :: decimal d))) =
      some (((a * 256 + b) * 256 + c) * 256 + d) := by
  have hdot (n : Nat) : ∀ x ∈ decimal n, (x == '.') = false := by
    intro x hx
    rw [beq_eq_false_iff_ne]
    rintro rfl
    exact notMem_decimal (by decide) n hx
  rw [inetPton4, List.splitOn_eq_splitOnP, List.splitOnP_append_cons_of_forall_mem (hdot a) '.' (by decide),
    List.splitOnP_append_cons_of_forall_mem (hdot b) '.' (by decide),
    List.splitOnP_append_cons_of_forall_mem (hdot c) '.' (by decide), List.splitOnP_eq_singleton (hdot d)]
  dsimp only
  rw [octet_decimal a ha, octet_decimal b hb, octet_decimal c hc, octet_decimal d hd]

end Text
