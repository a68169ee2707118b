import Mqvpn.ConfigFile.Loaders

/-!
# Values of settings

The value of a setting is a text, a truth value or a decimal literal, as the type of its row
in the table says (`KeyType.Value`), and is written in one way in INI files and in another in
JSON files. Both loaders store the same for it (`readIni_eq_readJson`), unless the setting is
an `int`: then the INI file has its literal checked, while the JSON file has it cut to 32 bits.
What they store for an `int` is the same exactly if the literal is `Harmless`
(`intFromIni_eq_iff`).
-/

namespace Mqvpn.ConfigFile

open Text Json

/-! ## Values -/

/-- A decimal literal of any size. -/
structure Literal where
  neg : Bool
  digits : List Char
  ne_nil : digits ≠ []
  digit : ∀ c ∈ digits, (digit c).isSome = true

/-- A text without quotes, backslashes and control characters, and without blanks around it. -/
structure PlainText where
  chars : List Char
  plain : ∀ c ∈ chars, c ≠ '"' ∧ c ≠ '\\' ∧ 32 ≤ c.toNat
  head : ∀ c ∈ chars.head?, isSpace c = false
  last : ∀ c ∈ chars.getLast?, isSpace c = false

/-- The values of a setting. -/
def KeyType.Value : KeyType → Type
  | .str _ | .reorderMode | .hybridTcpMode => PlainText
  | .bool _ => Bool
  | .int _ _ _ | .u32 _ | .u16 _ | .u64 _ _ => Literal

namespace Literal

variable (l : Literal) {rest : List Char}

/-- How the literal is written. -/
def text : List Char := if l.neg then '-' :: l.digits else l.digits

/-- The number without its sign. -/
def nat : Nat := (Text.digits 0 l.digits).1

/-- The number as a `long`, which holds the largest or the smallest one if it is too large. -/
def long : Int := max (-2 ^ 63) (min ((if l.neg then -1 else 1) * l.nat) (2 ^ 63 - 1))

/-- The number as a 64-bit one, if it is one. -/
def u64 : Option Nat := if l.neg then none else if l.nat < 2 ^ 64 then some l.nat else none

/-- The number is an `int`. -/
def InInt : Prop := intMin ≤ l.long ∧ l.long < 2 ^ 31

instance : Decidable l.InInt := inferInstanceAs (Decidable (_ ∧ _))

/-- The number as an `int`, if it is one. -/
def int : Option Int := if l.InInt then some l.long else none

/-- The text does not go on with a digit. -/
def Stops (rest : List Char) : Prop := ∀ c ∈ rest.head?, Text.digit c = none

theorem stops_nil : Stops [] := fun _ hc => by cases hc

theorem stops_of_ends (h : Ends rest) : Stops rest := by
  intro c hc
  rcases h with h | h | h <;> (rw [h] at hc; cases hc; rfl)

theorem digits_of_stops (h : Stops rest) (acc : Nat) : Text.digits acc rest = (acc, rest) := by
  cases rest with
  | nil => rfl
  | cons c cs => rw [Text.digits, h c rfl]

/-- Digits are read to their end. -/
theorem digits_all {s : List Char} (h : ∀ c ∈ s, (Text.digit c).isSome = true) (acc : Nat) :
    Text.digits acc s = ((Text.digits acc s).1, []) := by
  induction s generalizing acc with
  | nil => rfl
  | cons c s ih =>
    obtain ⟨hc, hs⟩ := List.forall_mem_cons.1 h
    obtain ⟨d, hd⟩ := Option.isSome_iff_exists.1 hc
    rw [Text.digits, hd]
    exact ih hs _

theorem digits_append_rest (h : Stops rest) : Text.digits 0 (l.digits ++ rest) = (l.nat, rest) := by
  rw [digits_append (digits_all l.digit 0), digits_of_stops h]
  rfl

/-- What is no digit: blanks and signs. -/
theorem digit_ne {c : Char} (h : (Text.digit c).isSome = true) : isSpace c = false ∧ c ≠ '+' ∧ c ≠ '-' := by
  rw [Text.digit] at h
  split_ifs at h with hc
  · have hlo : 48 ≤ c.toNat := hc.1
    refine ⟨?_, ?_, ?_⟩
    · rw [isSpace, decide_eq_false_iff_not]
      rintro (rfl | hspace)
      · exact absurd hlo (by decide)
      · omega
    · rintro rfl
      exact absurd hlo (by decide)
    · rintro rfl
      exact absurd hlo (by decide)
  · cases h

theorem sign_of_digit {c : Char} (h : (Text.digit c).isSome = true) (cs : List Char) : sign (c :: cs) = (1, c :: cs) := by
  obtain ⟨-, hplus, hminus⟩ := digit_ne h
  rw [sign.eq_def]
  split
  · rename_i heq
    cases heq
    exact absurd rfl hplus
  · rename_i heq
    cases heq
    exact absurd rfl hminus
  · rfl

theorem exists_cons : ∃ c cs, l.digits = c :: cs ∧ (Text.digit c).isSome = true := by
  obtain ⟨c, cs, h⟩ := List.exists_cons_of_ne_nil l.ne_nil
  exact ⟨c, cs, h, l.digit c (h ▸ List.mem_cons_self)⟩

/-- The first character of a literal is no blank. -/
theorem text_starts : ∃ c cs, l.text = c :: cs ∧ isSpace c = false := by
  rw [text]
  split_ifs
  · exact ⟨'-', _, rfl, by decide⟩
  · obtain ⟨c, cs, h, hc⟩ := l.exists_cons
    exact ⟨c, cs, h, (digit_ne hc).1⟩

/-- A literal has no blanks, and nothing that means something in a JSON text. -/
theorem char {c : Char} (hc : c ∈ l.text) : isSpace c = false ∧ c ≠ '"' ∧ c ≠ '{' ∧ c ≠ '}' ∧ c ≠ '\n' := by
  have hchar : c = '-' ∨ (Text.digit c).isSome = true := by
    rw [text] at hc
    split_ifs at hc
    · rcases List.mem_cons.1 hc with hc | hc
      · exact .inl hc
      · exact .inr (l.digit c hc)
    · exact .inr (l.digit c hc)
  rcases hchar with rfl | hdigit
  · decide
  · refine ⟨(digit_ne hdigit).1, ?_, ?_, ?_, ?_⟩ <;> (rintro rfl; exact absurd hdigit (by decide))

theorem skipWs_text (rest : List Char) : skipWs (l.text ++ rest) = l.text ++ rest := by
  obtain ⟨c, cs, h, hc⟩ := l.text_starts
  rw [h, List.cons_append, skipWs, List.dropWhile_cons_of_neg (by simp [hc])]

theorem strtol_text (h : Stops rest) : strtol (l.text ++ rest) = some (l.long, rest) := by
  have hskip := l.skipWs_text rest
  rw [skipWs] at hskip
  obtain ⟨c, cs, hdigits, hc⟩ := l.exists_cons
  have hread := l.digits_append_rest h
  have hsome : (Text.digit c).isNone = false := by rw [← Option.not_isSome, hc]; rfl
  have hsign : sign (l.text ++ rest) = (if l.neg then -1 else 1, l.digits ++ rest) := by
    rw [text]
    split_ifs
    · rfl
    · rw [hdigits]
      exact sign_of_digit hc _
  rw [strtol, hskip, hsign]
  dsimp only
  rw [hread, hdigits, List.cons_append]
  dsimp only
  rw [hsome]
  rfl

theorem startsWithDigit_text (rest : List Char) : startsWithDigit (l.text ++ rest) = !l.neg := by
  rw [text]
  cases l.neg
  · obtain ⟨c, cs, h, hc⟩ := l.exists_cons
    rw [if_neg Bool.false_ne_true, h]
    exact hc
  · rfl

theorem strtoull_text (h : Stops rest) (hneg : l.neg = false) :
    strtoull (l.text ++ rest) = l.u64.map fun v => (v, rest) := by
  rw [strtoull, text, hneg, if_neg Bool.false_ne_true, l.digits_append_rest h, u64, hneg, if_neg Bool.false_ne_true]
  dsimp only
  split_ifs <;> rfl

/-! ## Reading literals -/

theorem parseIntStrict_text : parseIntStrict l.text = l.int := by
  rw [parseIntStrict, ← List.append_nil l.text, l.strtol_text stops_nil]
  rfl

theorem readInt_text (h : Ends rest) : readInt (l.text ++ rest) = some (toInt l.long) := by
  rw [readInt, l.strtol_text (stops_of_ends h)]
  rfl

theorem readIntStrict_text (h : Ends rest) : readIntStrict (l.text ++ rest) = l.int := by
  rw [readIntStrict, l.skipWs_text]
  have hstart : (l.text ++ rest).head? = some '-' ∨ startsWithDigit (l.text ++ rest) = true := by
    rw [startsWithDigit_text]
    cases hneg : l.neg
    · exact .inr rfl
    · rw [text, hneg]
      exact .inl rfl
  rw [if_pos hstart, l.strtol_text (stops_of_ends h)]
  dsimp only
  rw [h.valueHasValidEnd]
  refine if_congr ?_ rfl rfl
  exact ⟨fun h => ⟨h.1, h.2.1⟩, fun h => ⟨h.1, h.2, rfl⟩⟩

theorem parseU64Strict_text : parseU64Strict l.text = l.u64 := by
  rw [parseU64Strict, ← List.append_nil l.text, startsWithDigit_text]
  cases hneg : l.neg
  · rw [Bool.not_false, if_pos rfl, l.strtoull_text stops_nil hneg]
    cases l.u64 <;> rfl
  · rw [Bool.not_true, if_neg Bool.false_ne_true, u64, hneg, if_pos rfl]

theorem readU64Strict_text (h : Ends rest) : readU64Strict (l.text ++ rest) = l.u64 := by
  rw [readU64Strict, l.skipWs_text]
  rw [startsWithDigit_text]
  cases hneg : l.neg
  · rw [Bool.not_false, if_pos rfl, l.strtoull_text (stops_of_ends h) hneg]
    cases l.u64 with
    | none => rfl
    | some v =>
      rw [Option.map_some]
      dsimp only
      rw [h.valueHasValidEnd, if_pos rfl]
  · rw [Bool.not_true, if_neg Bool.false_ne_true, u64, hneg, if_pos rfl]

end Literal

/-! ## Rows of the table -/

/-- The `int` field of a row. -/
def KeyType.intField : KeyType → Option IntField
  | .bool f | .int f _ _ => some f
  | _ => none

/-- How a value is written in an INI file. -/
def KeyType.ini : (t : KeyType) → t.Value → List Char
  | .str _, v => PlainText.chars v
  | .reorderMode, v => PlainText.chars v
  | .hybridTcpMode, v => PlainText.chars v
  | .bool _, b => ofBool b
  | .int _ _ _, l => Literal.text l
  | .u32 _, l => Literal.text l
  | .u16 _, l => Literal.text l
  | .u64 _ _, l => Literal.text l

/-- How a value is written in a JSON file. -/
def KeyType.json : (t : KeyType) → t.Value → List Char
  | .str _, v => quote (PlainText.chars v)
  | .reorderMode, v => quote (PlainText.chars v)
  | .hybridTcpMode, v => quote (PlainText.chars v)
  | .bool _, b => ofBool b
  | .int _ _ _, l => Literal.text l
  | .u32 _, l => Literal.text l
  | .u16 _, l => Literal.text l
  | .u64 _ _, l => Literal.text l

theorem PlainText.plain' (v : PlainText) : Plain v.chars := fun c hc => ⟨(v.plain c hc).1, (v.plain c hc).2.1⟩

theorem StrField.size_le (f : StrField) : f.size ≤ 280 := by cases f <;> decide

theorem length_eq_of_eqIgnoreCase {s t : List Char} (h : eqIgnoreCase s t = true) : s.length = t.length := by
  have hmap := congrArg List.length (of_decide_eq_true h)
  rwa [List.length_map, List.length_map] at hmap

/-- A text that is cut behind the length of a word is the word exactly if the whole text is. -/
theorem eqIgnoreCase_take (s : List Char) {n : Nat} {word : List Char} (h : word.length < n) :
    eqIgnoreCase (s.take n) word = eqIgnoreCase s word := by
  rcases Nat.le_total s.length n with hs | hs
  · rw [List.take_of_length_le hs]
  · have hcut : eqIgnoreCase (s.take n) word = false := by
      refine Bool.eq_false_iff.2 fun heq => ?_
      have := length_eq_of_eqIgnoreCase heq
      rw [List.length_take] at this
      omega
    have hwhole : eqIgnoreCase s word = false := by
      refine Bool.eq_false_iff.2 fun heq => ?_
      have := length_eq_of_eqIgnoreCase heq
      omega
    rw [hcut, hwhole]

theorem parseReorderEnabled_take (s : List Char) {n : Nat} (h : 5 < n) :
    parseReorderEnabled (s.take n) = parseReorderEnabled s := by
  simp only [parseReorderEnabled]
  rw [eqIgnoreCase_take s (Nat.lt_of_le_of_lt (by decide) h), eqIgnoreCase_take s (Nat.lt_of_le_of_lt (by decide) h),
    eqIgnoreCase_take s (Nat.lt_of_le_of_lt (by decide) h), eqIgnoreCase_take s (Nat.lt_of_le_of_lt (by decide) h),
    eqIgnoreCase_take s (Nat.lt_of_le_of_lt (by decide) h)]

theorem parseHybridTcpMode_take (s : List Char) {n : Nat} (h : 6 < n) :
    parseHybridTcpMode (s.take n) = parseHybridTcpMode s := by
  simp only [parseHybridTcpMode]
  rw [eqIgnoreCase_take s (Nat.lt_of_le_of_lt (by decide) h), eqIgnoreCase_take s (Nat.lt_of_le_of_lt (by decide) h),
    eqIgnoreCase_take s (Nat.lt_of_le_of_lt (by decide) h)]

theorem parseBool_ofBool (b : Bool) : parseBool (ofBool b) = b := by
  cases b <;> decide

theorem parseU32Strict_text (l : Literal) : parseU32Strict l.text = l.u64.filter fun v => v ≤ 0xffffffff := by
  rw [parseU32Strict, l.parseU64Strict_text]

namespace Scalars

variable (cfg : Scalars) {d : KeyDesc} {rest : List Char}

/-- A number that is too large for a row is not stored. -/
theorem cfgKeyStore_filter (hd : ∀ v, 0xffffffff < v → cfg.cfgKeyStore d [] 0 v = cfg) (o : Option Nat) :
    (match o.filter fun v => v ≤ 0xffffffff with
      | some v => cfg.cfgKeyStore d [] 0 v
      | none => cfg) =
    match o with
    | some v => cfg.cfgKeyStore d [] 0 v
    | none => cfg := by
  cases o with
  | none => rfl
  | some v =>
    by_cases hv : v ≤ 0xffffffff
    · rw [Option.filter_some, if_pos (by simpa using hv)]
    · rw [Option.filter_some, if_neg (by simpa using hv)]
      exact (hd v (Nat.not_le.1 hv)).symm

/-- Both loaders store the same for a value that is no `int`. -/
theorem readIni_eq_readJson (hd : ∀ f intOk fallback, d.type ≠ .int f intOk fallback) (v : d.type.Value)
    (hrest : Ends rest) : cfg.readIni d (d.type.ini v) = cfg.readJson d (d.type.json v ++ rest) := by
  obtain ⟨sec, iniKey, jsonKey, type, postSet⟩ := d
  cases type with
  | str f =>
    change PlainText at v
    have hread := readString_quote v.plain' rest 280
    rw [readJson]
    dsimp only [KeyType.json]
    rw [hread]
    dsimp only [readIni, KeyType.ini, cfgKeyStore]
    rw [List.take_take, Nat.min_eq_left (Nat.sub_le_sub_right f.size_le 1)]
  | reorderMode =>
    change PlainText at v
    have hread := readString_quote v.plain' rest 280
    rw [readJson]
    dsimp only [KeyType.json]
    rw [hread]
    dsimp only [readIni, KeyType.ini, cfgKeyStore]
    rw [parseReorderEnabled_take _ (by decide)]
  | hybridTcpMode =>
    change PlainText at v
    have hread := readString_quote v.plain' rest 280
    rw [readJson]
    dsimp only [KeyType.json]
    rw [hread]
    dsimp only [readIni, KeyType.ini, cfgKeyStore]
    rw [parseHybridTcpMode_take _ (by decide)]
  | bool f =>
    change Bool at v
    rw [readJson]
    dsimp only [KeyType.json]
    rw [readBool_ofBool]
    dsimp only [readIni, KeyType.ini]
    rw [parseBool_ofBool]
  | int f intOk fallback => exact absurd rfl (hd f intOk fallback)
  | u32 f =>
    change Literal at v
    rw [readJson]
    dsimp only [KeyType.json]
    rw [Literal.readU64Strict_text _ hrest]
    dsimp only [readIni, KeyType.ini]
    rw [parseU32Strict_text]
    exact cfg.cfgKeyStore_filter (d := ⟨sec, iniKey, jsonKey, .u32 f, postSet⟩) (fun v hv => if_pos hv) _
  | u16 f =>
    change Literal at v
    rw [readJson]
    dsimp only [KeyType.json]
    rw [Literal.readU64Strict_text _ hrest]
    dsimp only [readIni, KeyType.ini]
    rw [parseU32Strict_text]
    exact cfg.cfgKeyStore_filter (d := ⟨sec, iniKey, jsonKey, .u16 f, postSet⟩)
      (fun v hv => if_pos (Nat.lt_trans (by decide) hv)) _
  | u64 f max =>
    change Literal at v
    rw [readJson]
    dsimp only [KeyType.json]
    rw [Literal.readU64Strict_text _ hrest]
    dsimp only [readIni, KeyType.ini]
    rw [Literal.parseU64Strict_text]

end Scalars

/-! ## Integers -/

/-- What `cfg_key_store` leaves in an `int` field. -/
def intStored (intOk : IntGate) (fallback : Option Int) (old v : Int) : Int :=
  if v = intMin ∨ intOk.ok v = false then fallback.getD old else v

/-- What an INI file leaves in an `int` field. -/
def intFromIni (intOk : IntGate) (fallback : Option Int) (old : Int) (l : Literal) : Int :=
  if l.InInt then intStored intOk fallback old l.long else fallback.getD old

/-- The literal is an `int`, or what its lowest 32 bits are is refused by the row, or is what
    the field has without it. -/
def Literal.Harmless (intOk : IntGate) (fallback : Option Int) (old : Int) (l : Literal) : Prop :=
  l.InInt ∨ intOk.ok (toInt l.long) = false ∨ toInt l.long = fallback.getD old

instance (intOk : IntGate) (fallback : Option Int) (old : Int) (l : Literal) :
    Decidable (l.Harmless intOk fallback old) := inferInstanceAs (Decidable (_ ∨ _ ∨ _))

namespace Scalars

variable {cfg : Scalars} {d : KeyDesc} {rest : List Char} {f : IntField} {intOk : IntGate} {fallback : Option Int}

theorem setInt_self (f : IntField) : cfg = cfg.setInt f (cfg.int f) :=
  (congrArg (fun int => { cfg with int }) (Function.update_eq_self f cfg.int)).symm

theorem cfgKeyStore_int (hd : d.type = .int f intOk fallback) (hpost : d.postSet = none) (v : Int) :
    cfg.cfgKeyStore d [] v 0 = cfg.setInt f (intStored intOk fallback (cfg.int f) v) := by
  rw [cfgKeyStore, hd]
  dsimp only
  rw [intStored, hpost]
  split_ifs
  · cases fallback with
    | none => exact setInt_self f
    | some fallback => rfl
  · rfl

theorem readIni_int (hd : d.type = .int f intOk fallback) (hpost : d.postSet = none) (l : Literal) :
    cfg.readIni d l.text = cfg.setInt f (intFromIni intOk fallback (cfg.int f) l) := by
  rw [readIni, hd]
  dsimp only
  rw [l.parseIntStrict_text, intFromIni, Literal.int]
  by_cases hint : l.InInt
  · rw [if_pos hint, if_pos hint]
    exact cfgKeyStore_int hd hpost _
  · rw [if_neg hint, if_neg hint]
    dsimp only
    cases fallback with
    | none => exact setInt_self f
    | some fallback =>
      rw [Option.isSome_some, if_pos rfl, cfgKeyStore_int hd hpost, intStored, if_pos (.inl rfl)]

theorem readJson_int (hd : d.type = .int f intOk fallback) (hpost : d.postSet = none) (l : Literal) (hrest : Ends rest) :
    cfg.readJson d (l.text ++ rest) = cfg.setInt f (intStored intOk fallback (cfg.int f) (toInt l.long)) := by
  rw [readJson, hd]
  dsimp only
  rw [l.readInt_text hrest]
  exact cfgKeyStore_int hd hpost _

/-- A row changes no `int` field but its own. -/
theorem int_cfgKeyStore (h : d.type.intField ≠ some f) (vStr : List Char) (vInt : Int) (vUll : Nat) :
    (cfg.cfgKeyStore d vStr vInt vUll).int f = cfg.int f := by
  have hpost (cfg : Scalars) : (cfg.postSet d.postSet).int = cfg.int := by
    cases d.postSet with
    | none => rfl
    | some post => cases post <;> rfl
  have hset {g : IntField} (hg : f ≠ g) (v : Int) : (cfg.setInt g v).int f = cfg.int f := Function.update_of_ne hg _ _
  rw [cfgKeyStore]
  split
  · rw [hpost]
    rfl
  · rename_i g htype
    rw [htype] at h
    rw [hpost]
    exact hset (fun heq => h (congrArg some heq.symm)) _
  · rename_i g intOk fallback htype
    rw [htype] at h
    have hg : f ≠ g := fun heq => h (congrArg some heq.symm)
    split_ifs
    · cases fallback with
      | none => rfl
      | some fallback => exact hset hg _
    · rw [hpost]
      exact hset hg _
  · split_ifs
    · rfl
    · rw [hpost]
      rfl
  · split_ifs
    · rfl
    · rw [hpost]
      rfl
  · split_ifs
    · rfl
    · rw [hpost]
      rfl
  · split
    · rw [hpost]
    · rfl
  · split
    · rw [hpost]
    · rfl

theorem int_readIni (h : d.type.intField ≠ some f) (val : List Char) : (cfg.readIni d val).int f = cfg.int f := by
  rw [readIni]
  split
  · exact int_cfgKeyStore h _ _ _
  · exact int_cfgKeyStore h _ _ _
  · exact int_cfgKeyStore h _ _ _
  · exact int_cfgKeyStore h _ _ _
  · split
    · exact int_cfgKeyStore h _ _ _
    · split_ifs
      · exact int_cfgKeyStore h _ _ _
      · rfl
  · split
    · exact int_cfgKeyStore h _ _ _
    · rfl
  · split
    · exact int_cfgKeyStore h _ _ _
    · rfl
  · split
    · exact int_cfgKeyStore h _ _ _
    · rfl

theorem int_readJson (h : d.type.intField ≠ some f) (v : List Char) : (cfg.readJson d v).int f = cfg.int f := by
  rw [readJson]
  split
  · split
    · exact int_cfgKeyStore h _ _ _
    · rfl
  · split
    · exact int_cfgKeyStore h _ _ _
    · rfl
  · split
    · exact int_cfgKeyStore h _ _ _
    · rfl
  · split
    · exact int_cfgKeyStore h _ _ _
    · rfl
  · split
    · exact int_cfgKeyStore h _ _ _
    · split_ifs
      · exact int_cfgKeyStore h _ _ _
      · rfl
  · split
    · exact int_cfgKeyStore h _ _ _
    · rfl
  · split
    · exact int_cfgKeyStore h _ _ _
    · rfl
  · split
    · exact int_cfgKeyStore h _ _ _
    · rfl

end Scalars

theorem toInt_of_inInt {l : Literal} (h : l.InInt) : toInt l.long = l.long := by
  have hlo : -2 ^ 31 ≤ l.long := h.1
  have hhi := h.2
  rw [toInt, Int.bmod_eq_of_le] <;> omega

/-- The two loaders agree on an `int` exactly if the literal does no harm. -/
theorem intFromIni_eq_iff {intOk : IntGate} {fallback : Option Int} (old : Int) (l : Literal) :
    intFromIni intOk fallback old l = intStored intOk fallback old (toInt l.long) ↔
      l.Harmless intOk fallback old := by
  by_cases hint : l.InInt
  · rw [intFromIni, if_pos hint, toInt_of_inInt hint]
    exact iff_of_true rfl (.inl hint)
  · have hmin : intOk.ok intMin = false := by cases intOk <;> decide
    rw [intFromIni, if_neg hint, intStored, Literal.Harmless, or_iff_right hint]
    by_cases hok : intOk.ok (toInt l.long) = false
    · rw [if_pos (.inr hok)]
      exact iff_of_true rfl (.inl hok)
    · have hne : toInt l.long ≠ intMin := fun heq => hok (heq ▸ hmin)
      rw [if_neg (not_or.2 ⟨hne, hok⟩), or_iff_right hok]
      exact eq_comm

end Mqvpn.ConfigFile
