import Mqvpn.ConfigFile.IniText

/-!
# JSON files

The JSON file that is written for an assignment, with the keys of each object in any order
(`Assignment.IsJson`). The keys are searched in the text without regard to the objects that
they stand in, or within one object. As no key of an object is a key of the file too, each is
found at its own value, and `mqvpn_config_load_json_filecfg` reads the file as one expects
(`loadJson_json`).
-/

namespace Mqvpn.ConfigFile

open Text Json Reorder

/-! ## Writing -/

/-- An array of texts. -/
def strings (l : List PlainText) : List Char := array (l.map fun v => quote v.chars)

/-- The object of a rule. -/
def RuleText.fields (r : RuleText) : List (List Char × Option (List Char)) := [
  ("proto".toList, r.proto.map fun v => quote v.chars),
  ("port".toList, r.port.map Literal.text),
  ("profile".toList, r.profile.map fun v => quote v.chars),
  ("max_wait_ms".toList, r.maxWaitMs.map Literal.text),
  ("cap_packets".toList, r.capPackets.map Literal.text)]

/-- The rows whose keys stand in the file itself. -/
def topRows : List KeyDesc := cfgKeys.filter fun d => d.sec ≠ .reorder ∧ d.sec ≠ .hybrid

namespace Assignment

variable (a : Assignment)

/-- The fields for rows. -/
def rowFields (ds : List KeyDesc) : List (List Char × Option (List Char)) :=
  ds.filterMap fun d => d.jsonKey.map fun key => (key, (a.value d).map d.type.json)

/-- The object `"reorder"`. -/
def reorderFields : List (List Char × Option (List Char)) := a.rowFields (rowsOf .reorder)

/-- The object `"hybrid"`. -/
def hybridFields : List (List Char × Option (List Char)) :=
  a.rowFields (rowsOf .hybrid) ++
    [("egress_allow".toList, a.egressAllow.map strings), ("egress_deny".toList, a.egressDeny.map strings)]

/-- The file, with the texts of its objects. -/
def topFields (ro hy : List Char) (objs : List (List Char)) : List (List Char × Option (List Char)) :=
  a.rowFields topRows ++
    [("dns".toList, a.dns.map fun l => strings (l.map (·.toPlainText))),
      ("paths".toList, a.paths.map strings),
      ("backup_paths".toList, a.backupPaths.map strings),
      ("reorder_rules".toList, a.rules.map fun _ => array objs),
      ("reorder".toList, some ro),
      ("hybrid".toList, some hy)]

/-- The text is the JSON file with these objects, with the keys in some order everywhere. -/
structure JsonWith (ro hy : List Char) (objs : List (List Char)) (text : List Char) : Prop where
  reorder : ObjectOf a.reorderFields ro
  hybrid : ObjectOf a.hybridFields hy
  rules : List.Forall₂ (fun r obj => ObjectOf r.fields obj) (a.rules.getD []) objs
  top : ObjectOf (a.topFields ro hy objs) text

/-- The text is the JSON file. -/
def IsJson (text : List Char) : Prop := ∃ ro hy objs, a.JsonWith ro hy objs text

end Assignment

/-! ## Keys -/

/-- The keys of the object `"reorder"`. -/
def reorderKeys : List (List Char) := (rowsOf .reorder).filterMap (·.jsonKey)

/-- The keys of the object `"hybrid"`. -/
def hybridKeys : List (List Char) :=
  (rowsOf .hybrid).filterMap (·.jsonKey) ++ ["egress_allow".toList, "egress_deny".toList]

/-- The keys of a rule. -/
def ruleKeys : List (List Char) :=
  ["proto".toList, "port".toList, "profile".toList, "max_wait_ms".toList, "cap_packets".toList]

/-- The keys of the file itself. -/
def topKeys : List (List Char) :=
  topRows.filterMap (·.jsonKey) ++
    ["dns".toList, "paths".toList, "backup_paths".toList, "reorder_rules".toList, "reorder".toList, "hybrid".toList]

/-- The keys of the file that have no row. -/
theorem mem_topKeys {key : List Char} (h : key ∈ ["dns".toList, "paths".toList, "backup_paths".toList,
    "reorder_rules".toList, "reorder".toList, "hybrid".toList]) : key ∈ topKeys :=
  List.mem_append_right _ h

instance (s : List Char) : Decidable (Plain s) := inferInstanceAs (Decidable (∀ c ∈ s, _))

theorem plain_keys : ∀ key ∈ reorderKeys ++ hybridKeys ++ ruleKeys ++ topKeys, Plain key := by decide +kernel

theorem keys_ok : (∀ key ∈ reorderKeys ++ hybridKeys ++ ruleKeys ++ topKeys, Plain key) ∧
    reorderKeys.Nodup ∧ hybridKeys.Nodup ∧ ruleKeys.Nodup ∧ topKeys.Nodup := by
  refine ⟨plain_keys, ?_⟩
  decide +kernel

/-- What is searched in the whole file is no key of one of its objects. -/
theorem notMem_nested : ∀ key ∈ "mode".toList :: "users".toList :: topKeys,
    key ∉ reorderKeys ∧ key ∉ hybridKeys ∧ key ∉ ruleKeys := by
  decide +kernel

theorem notMem_topKeys : "mode".toList ∉ topKeys ∧ "users".toList ∉ topKeys := by
  decide +kernel

theorem keyed_of_keys {fields : List (List Char × Option (List Char))} {keys : List (List Char)}
    (hkeys : fields.map Prod.fst = keys) (hplain : ∀ key ∈ keys, Plain key) (hnodup : keys.Nodup) : Keyed fields where
  plain := fun _ hf => hplain _ (hkeys ▸ List.mem_map_of_mem hf)
  nodup := hkeys.symm ▸ hnodup

section Keys

variable (a : Assignment) (r : RuleText) {ro hy : List Char} {objs : List (List Char)}

theorem keys_rowFields (ds : List KeyDesc) : (a.rowFields ds).map Prod.fst = ds.filterMap (·.jsonKey) := by
  rw [Assignment.rowFields, List.map_filterMap]
  congr 1
  funext d
  cases d.jsonKey <;> rfl

theorem mem_rowFields {ds : List KeyDesc} {d : KeyDesc} (hd : d ∈ ds) {key : List Char} (hkey : d.jsonKey = some key) :
    (key, (a.value d).map d.type.json) ∈ a.rowFields ds :=
  List.mem_filterMap.2 ⟨d, hd, by rw [hkey]; rfl⟩

theorem keys_hybridFields : a.hybridFields.map Prod.fst = hybridKeys := by
  rw [Assignment.hybridFields, List.map_append, keys_rowFields]
  rfl

theorem keys_topFields : (a.topFields ro hy objs).map Prod.fst = topKeys := by
  rw [Assignment.topFields, List.map_append, keys_rowFields]
  rfl

theorem keys_reorderFields : a.reorderFields.map Prod.fst = reorderKeys := keys_rowFields a _

theorem keys_ruleFields : r.fields.map Prod.fst = ruleKeys := rfl

theorem keyed_reorderFields : Keyed a.reorderFields :=
  keyed_of_keys (keys_reorderFields a) (fun key hkey => keys_ok.1 key (by simp [hkey])) keys_ok.2.1

theorem keyed_hybridFields : Keyed a.hybridFields :=
  keyed_of_keys (keys_hybridFields a) (fun key hkey => keys_ok.1 key (by simp [hkey])) keys_ok.2.2.1

theorem keyed_ruleFields : Keyed r.fields :=
  keyed_of_keys (keys_ruleFields r) (fun key hkey => keys_ok.1 key (by simp [hkey])) keys_ok.2.2.2.1

theorem keyed_topFields : Keyed (a.topFields ro hy objs) :=
  keyed_of_keys (keys_topFields a) (fun key hkey => keys_ok.1 key (by simp [hkey])) keys_ok.2.2.2.2

end Keys

/-! ## Values -/

section Clean

variable (a : Assignment) (r : RuleText) {key : List Char}

theorem Literal.clean (l : Literal) : Clean key l.text :=
  .bare l.text_starts fun _ hc => ⟨(l.char hc).2.1, (l.char hc).2.2.1, (l.char hc).2.2.2.1⟩

theorem clean_json (t : KeyType) (v : t.Value) : Clean key (t.json v) := by
  cases t with
  | str => exact .quote (PlainText.plain' v)
  | reorderMode => exact .quote (PlainText.plain' v)
  | hybridTcpMode => exact .quote (PlainText.plain' v)
  | bool =>
    change Bool at v
    change Clean key (ofBool v)
    cases v
    · exact .bare ⟨'f', _, rfl, by decide⟩ (by decide)
    · exact .bare ⟨'t', _, rfl, by decide⟩ (by decide)
  | int => exact Literal.clean v
  | u32 => exact Literal.clean v
  | u16 => exact Literal.clean v
  | u64 => exact Literal.clean v

theorem clean_strings (l : List PlainText) : Clean key (strings l) := by
  refine .array fun v hv => ?_
  obtain ⟨s, -, rfl⟩ := List.mem_map.1 hv
  exact .quote s.plain'

theorem clean_rowFields (ds : List KeyDesc) : ∀ f ∈ a.rowFields ds, ∀ v ∈ f.2, Clean key v := by
  intro f hf v hv
  obtain ⟨d, -, hd⟩ := List.mem_filterMap.1 hf
  obtain ⟨k, -, rfl⟩ := Option.map_eq_some_iff.1 hd
  obtain ⟨x, -, rfl⟩ := Option.map_eq_some_iff.1 hv
  exact clean_json _ x

theorem clean_lists {l : List (List Char × Option (List PlainText))} :
    ∀ f ∈ l.map (fun f => (f.1, f.2.map strings)), ∀ v ∈ f.2, Clean key v := by
  intro f hf v hv
  obtain ⟨f, -, rfl⟩ := List.mem_map.1 hf
  obtain ⟨x, -, rfl⟩ := Option.map_eq_some_iff.1 hv
  exact clean_strings x

theorem clean_hybridFields : ∀ f ∈ a.hybridFields, ∀ v ∈ f.2, Clean key v := by
  intro f hf
  rcases List.mem_append.1 hf with hf | hf
  · exact clean_rowFields a _ f hf
  · exact clean_lists (l := [("egress_allow".toList, a.egressAllow), ("egress_deny".toList, a.egressDeny)]) f hf

theorem clean_ruleFields : ∀ f ∈ r.fields, ∀ v ∈ f.2, Clean key v := by
  have htext {o : Option PlainText} : ∀ v ∈ o.map fun v => quote v.chars, Clean key v := by
    intro v hv
    obtain ⟨x, -, rfl⟩ := Option.map_eq_some_iff.1 hv
    exact .quote x.plain'
  have hnumber {o : Option Literal} : ∀ v ∈ o.map Literal.text, Clean key v := by
    intro v hv
    obtain ⟨x, -, rfl⟩ := Option.map_eq_some_iff.1 hv
    exact x.clean
  rw [RuleText.fields]
  simp only [List.mem_cons, List.not_mem_nil, or_false, forall_eq_or_imp, forall_eq]
  exact ⟨htext, hnumber, htext, hnumber, hnumber⟩

end Clean

/-! ## Arrays -/

theorem skipWs_quotes (l : List (List Char)) (rest : List Char) :
    skipWs ([','].intercalate (l.map quote) ++ ']' :: rest) = [','].intercalate (l.map quote) ++ ']' :: rest := by
  cases l with
  | nil => rfl
  | cons s l =>
    rw [List.map_cons, intercalate_cons, List.append_assoc]
    rfl

/-- The strings of an array. -/
theorem stringArrayLoop_quote {l : List (List Char)} (h : ∀ s ∈ l, Plain s) (rest : List Char) :
    stringArrayLoop ([','].intercalate (l.map quote) ++ ']' :: rest) = some l := by
  induction l with
  | nil =>
    rw [List.map_nil, List.intercalate_nil, List.nil_append, stringArrayLoop]
  | cons s l ih =>
    obtain ⟨hs, hl⟩ := List.forall_mem_cons.1 h
    rw [List.map_cons, intercalate_cons, List.append_assoc, quote, List.cons_append, List.append_assoc,
      List.singleton_append, stringArrayLoop]
    split
    · rename_i hliteral
      rw [literal_plain hs] at hliteral
      cases hliteral
    · rename_i hliteral
      rw [literal_plain hs] at hliteral
      cases hliteral
      rw [unescape_plain hs]
      cases l with
      | nil =>
        split
        · rename_i hws
          cases hws
        · rfl
        · rename_i hend
          exact absurd rfl (hend _)
      | cons s' l =>
        split
        · rename_i hws
          cases hws
          change Option.map _ (stringArrayLoop (skipWs ([','].intercalate ((s' :: l).map quote) ++ ']' :: rest))) = _
          rw [skipWs_quotes, ih hl]
          rfl
        · rename_i hws
          cases hws
        · rename_i hend _
          exact absurd rfl (hend _)

theorem stringArray_strings (l : List PlainText) (rest : List Char) :
    stringArray (strings l ++ rest) = some (l.map (·.chars)) := by
  have hplain : ∀ s ∈ l.map (·.chars), Plain s := by
    intro s hs
    obtain ⟨v, -, rfl⟩ := List.mem_map.1 hs
    exact v.plain'
  have hmap : (l.map fun v => quote v.chars) = (l.map (·.chars)).map quote := by rw [List.map_map]; rfl
  rw [strings, hmap, array, List.cons_append, List.append_assoc, List.singleton_append, stringArray, skipWs_quotes]
  exact stringArrayLoop_quote hplain rest

/-! ## Reorder rules -/

/-- The rule that is read from its object. -/
def RuleText.fromJson (r : RuleText) : Rule :=
  { newRule with
    proto := (r.proto.bind fun v => parseReorderProto (v.chars.take 31)).getD 17
    port := ((r.port.bind Literal.int).map fun v => if 0 ≤ v ∧ v ≤ 0xffff then UInt16.ofNat v.toNat else 0).getD 0
    profile := (r.profile.bind fun v => parseReorderProfile (v.chars.take 31)).getD .quicBulk
    explicitWaitMs := ((r.maxWaitMs.bind Literal.u64).map fun v => if 0xffffffff < v then 0 else v).getD 0
    explicitCap := ((r.capPackets.bind Literal.u64).map fun v =>
      if 0xffffffff < v ∨ Config.capIsValid v = false then 0 else v).getD 0 }

theorem ruleJson_eq {r : RuleText} {obj : List Char} (h : ObjectOf r.fields obj) (rest : List Char) :
    ruleJson (obj ++ rest) ('}' :: rest) newRule = r.fromJson := by
  have htext (key : List Char) (o : Option PlainText) (hmem : (key, o.map fun v => quote v.chars) ∈ r.fields) :
      (findKeyBounded (obj ++ rest) ('}' :: rest) key).bind (readString · 32) = o.bind fun v => some (v.chars.take 31) :=
    h.bind_findKeyBounded _ (keyed_ruleFields r) (clean_ruleFields r) hmem
      (fun v tail _ => readString_quote v.plain' tail 32) rest
  have hu64 (key : List Char) (o : Option Literal) (hmem : (key, o.map Literal.text) ∈ r.fields) :
      (findKeyBounded (obj ++ rest) ('}' :: rest) key).bind readU64Strict = o.bind Literal.u64 :=
    h.bind_findKeyBounded _ (keyed_ruleFields r) (clean_ruleFields r) hmem (fun l _ => l.readU64Strict_text) rest
  have hint (key : List Char) (o : Option Literal) (hmem : (key, o.map Literal.text) ∈ r.fields) :
      (findKeyBounded (obj ++ rest) ('}' :: rest) key).bind readIntStrict = o.bind Literal.int :=
    h.bind_findKeyBounded _ (keyed_ruleFields r) (clean_ruleFields r) hmem (fun l _ => l.readIntStrict_text) rest
  unfold ruleJson
  extract_lets rule₁ rule₂ rule₃ rule₄
  -- each key changes its own field
  have h₁ : rule₁ = { newRule with proto := r.fromJson.proto } := by
    simp only [rule₁]
    rw [htext "proto".toList r.proto (by simp [RuleText.fields]), Option.bind_assoc]
    simp only [Option.bind_some, RuleText.fromJson]
    cases r.proto.bind fun v => parseReorderProto (v.chars.take 31) <;> rfl
  have h₂ : rule₂ = { newRule with proto := r.fromJson.proto, port := r.fromJson.port } := by
    simp only [rule₂]
    rw [hint "port".toList r.port (by simp [RuleText.fields]), h₁]
    simp only [RuleText.fromJson]
    cases r.port.bind Literal.int with
    | none => rfl
    | some v =>
      rw [Option.map_some, Option.getD_some]
      dsimp only
      split_ifs <;> rfl
  have h₃ : rule₃ =
      { newRule with proto := r.fromJson.proto, port := r.fromJson.port, profile := r.fromJson.profile } := by
    simp only [rule₃]
    rw [htext "profile".toList r.profile (by simp [RuleText.fields]), Option.bind_assoc, h₂]
    simp only [Option.bind_some, RuleText.fromJson]
    cases r.profile.bind fun v => parseReorderProfile (v.chars.take 31) <;> rfl
  have h₄ : rule₄ =
      { newRule with
        proto := r.fromJson.proto
        port := r.fromJson.port
        profile := r.fromJson.profile
        explicitWaitMs := r.fromJson.explicitWaitMs } := by
    simp only [rule₄]
    rw [hu64 "max_wait_ms".toList r.maxWaitMs (by simp [RuleText.fields]), h₃]
    simp only [RuleText.fromJson]
    cases r.maxWaitMs.bind Literal.u64 with
    | none => rfl
    | some v =>
      rw [Option.map_some, Option.getD_some]
      dsimp only
      by_cases hlarge : 0xffffffff < v
      · rw [if_pos (.inl hlarge), if_pos hlarge]
        rfl
      · rw [if_neg hlarge]
        by_cases hzero : v = 0
        · rw [if_pos (.inr hzero), hzero]
          rfl
        · rw [if_neg (not_or.2 ⟨hlarge, hzero⟩)]
  rw [hu64 "cap_packets".toList r.capPackets (by simp [RuleText.fields]), h₄]
  simp only [RuleText.fromJson]
  cases r.capPackets.bind Literal.u64 with
  | none => rfl
  | some v =>
    rw [Option.map_some, Option.getD_some]
    dsimp only
    split_ifs <;> rfl

theorem addRuleJson_eq {r : RuleText} {obj : List Char} (h : ObjectOf r.fields obj) (rest : List Char)
    (rules : List Rule) : addRuleJson (obj ++ rest) ('}' :: rest) rules = pushCapped maxRules rules r.fromJson := by
  rw [addRuleJson, reorderRuleBegin, pushCapped]
  by_cases hfull : maxRules ≤ rules.length
  · rw [if_pos hfull, if_neg (Nat.not_lt.2 hfull)]
  · rw [if_neg hfull, if_pos (Nat.not_le.1 hfull)]
    dsimp only
    rw [List.length_append, List.length_singleton, Nat.add_sub_cancel, List.modify_eq_take_cons_drop (by simp)]
    have hrule := ruleJson_eq h rest
    rw [newRule] at hrule
    simp [hrule]

/-- The rules of an array. -/
theorem rulesLoop_eq {rs : List RuleText} {objs : List (List Char)}
    (h : List.Forall₂ (fun r obj => ObjectOf r.fields obj) rs objs) (rules : List Rule) (rest : List Char) :
    rulesLoop rules ([','].intercalate objs ++ ']' :: rest) =
      ((rs.map RuleText.fromJson).foldl (pushCapped maxRules) rules, true) := by
  induction h generalizing rules with
  | nil =>
    rw [List.intercalate_nil, List.nil_append, rulesLoop]
    rfl
  | @cons r obj rs objs hr hrs ih =>
    have hclean : ∀ f ∈ r.fields, ∀ v ∈ f.2, Clean [] v := clean_ruleFields r
    have hend := hr.objectEnd (keyed_ruleFields r) hclean (sepTail objs ++ ']' :: rest)
    have hadd := addRuleJson_eq hr (sepTail objs ++ ']' :: rest) rules
    have hskip : skipWs (('}' :: (sepTail objs ++ ']' :: rest)).drop 1) = sepTail objs ++ ']' :: rest :=
      (ends_sepTail (.inr (.inr rfl)) objs).skipWs
    obtain ⟨cs, rfl⟩ := hr.starts
    rw [List.cons_append] at hend hadd
    rw [intercalate_cons, List.append_assoc, List.cons_append, rulesLoop, List.map_cons, List.foldl_cons]
    split
    · rename_i hnone
      rw [hend] at hnone
      cases hnone
    · rename_i stop hstop
      rw [hend] at hstop
      cases hstop
      cases hrs with
      | nil =>
        split
        · rename_i hws
          rw [hskip] at hws
          cases hws
        · rw [hadd]
          rfl
        · rename_i hother
          exact absurd hskip (hother _)
      | @cons r' obj' rs objs hr' hrs =>
        split
        · rename_i q hws
          rw [hskip] at hws
          cases hws
          have hq : skipWs ([','].intercalate (obj' :: objs) ++ ']' :: rest) =
              [','].intercalate (obj' :: objs) ++ ']' :: rest := by
            obtain ⟨cs', rfl⟩ := hr'.starts
            rw [intercalate_cons]
            rfl
          rw [hadd]
          refine Eq.trans (congrArg _ hq) (ih _)
        · rename_i hws
          rw [hskip] at hws
          cases hws
        · rename_i hother _
          exact absurd hskip (hother _)

theorem readReorderRules_eq {rs : List RuleText} {objs : List (List Char)}
    (h : List.Forall₂ (fun r obj => ObjectOf r.fields obj) rs objs) (rules : List Rule) (rest : List Char) :
    readReorderRules rules (array objs ++ rest) =
      ((rs.map RuleText.fromJson).foldl (pushCapped maxRules) rules, true) := by
  have hskip : skipWs ([','].intercalate objs ++ ']' :: rest) = [','].intercalate objs ++ ']' :: rest := by
    cases h with
    | nil => rfl
    | cons hr hrs =>
      obtain ⟨cs, rfl⟩ := hr.starts
      rw [intercalate_cons]
      rfl
  rw [array, List.cons_append, List.append_assoc, List.singleton_append, readReorderRules, hskip, rulesLoop_eq h]

/-! ## The file -/

/-- Where nothing is found, the configuration stays as it is. -/
theorem getD_eq_of_bind {α β γ : Type} {o : Option α} {o' : Option β} {read : α → γ} {val : β → γ} (old : γ)
    (h : (o.bind fun x => some (read x)) = o'.bind fun y => some (val y)) :
    (o.map read).getD old = (o'.map val).getD old := by
  cases o with
  | none =>
    cases o' with
    | none => rfl
    | some y => cases h
  | some x =>
    cases o' with
    | none => cases h
    | some y => exact Option.some.inj h

namespace Assignment

variable (a : Assignment)

/-- What a JSON file does for a row. -/
def applyJson (cfg : Scalars) (d : KeyDesc) : Scalars :=
  match a.value d with
  | some v => cfg.readJson d (d.type.json v ++ ['}'])
  | none => cfg

/-- What is read of a value, however the text goes on behind it. -/
theorem readJson_tail (cfg : Scalars) (d : KeyDesc) (v : d.type.Value) {tail : List Char} (htail : Ends tail) :
    cfg.readJson d (d.type.json v ++ tail) = cfg.readJson d (d.type.json v ++ ['}']) := by
  have hbrace : Ends ['}'] := .inr (.inl rfl)
  by_cases hd : ∃ f intOk fallback, d.type = .int f intOk fallback
  · obtain ⟨sec, iniKey, jsonKey, type, postSet⟩ := d
    obtain ⟨f, intOk, fallback, rfl⟩ := hd
    change Literal at v
    rw [Scalars.readJson, Scalars.readJson]
    dsimp only [KeyType.json]
    rw [Literal.readInt_text _ htail, Literal.readInt_text _ hbrace]
  · have hd : ∀ f intOk fallback, d.type ≠ .int f intOk fallback := fun f intOk fallback heq =>
      hd ⟨f, intOk, fallback, heq⟩
    rw [← cfg.readIni_eq_readJson hd v htail, cfg.readIni_eq_readJson hd v hbrace]

variable {a} {ro hy text : List Char} {objs : List (List Char)} {key : List Char}

namespace JsonWith

variable (h : a.JsonWith ro hy objs text)
include h

/-- A search in the whole file runs over its objects. -/
theorem clean (hkey : key ∈ "mode".toList :: "users".toList :: topKeys) :
    ∀ f ∈ a.topFields ro hy objs, ∀ v ∈ f.2, Clean key v := by
  obtain ⟨hnotReorder, hnotHybrid, hnotRule⟩ := notMem_nested key hkey
  have hne {fields : List (List Char × Option (List Char))} {keys : List (List Char)}
      (hkeys : fields.map Prod.fst = keys) (hnot : key ∉ keys) : ∀ f ∈ fields, f.1 ≠ key := by
    rintro f hf rfl
    exact hnot (hkeys ▸ List.mem_map_of_mem hf)
  have hlist (o : Option (List PlainText)) : ∀ v ∈ o.map strings, Clean key v := by
    intro v hv
    obtain ⟨l, -, rfl⟩ := Option.map_eq_some_iff.1 hv
    exact clean_strings l
  have hrules {rs : List RuleText} {objs : List (List Char)}
      (hobjs : List.Forall₂ (fun r obj => ObjectOf r.fields obj) rs objs) : ∀ obj ∈ objs, Clean key obj := by
    induction hobjs with
    | nil => exact fun _ hobj => absurd hobj List.not_mem_nil
    | @cons r obj rs objs hr hrs ih =>
      intro obj' hobj'
      rcases List.mem_cons.1 hobj' with rfl | hobj'
      · exact hr.clean (keyed_ruleFields r) (clean_ruleFields r) (hne (keys_ruleFields r) hnotRule)
      · exact ih obj' hobj'
  intro f hf v hv
  rcases List.mem_append.1 hf with hf | hf
  · exact clean_rowFields a _ f hf v hv
  · simp only [List.mem_cons, List.not_mem_nil, or_false] at hf
    rcases hf with rfl | rfl | rfl | rfl | rfl | rfl
    · obtain ⟨l, -, rfl⟩ := Option.map_eq_some_iff.1 hv
      exact clean_strings _
    · exact hlist _ v hv
    · exact hlist _ v hv
    · obtain ⟨l, -, rfl⟩ := Option.map_eq_some_iff.1 hv
      exact .array (hrules h.rules)
    · cases hv
      exact h.reorder.clean (keyed_reorderFields a) (clean_rowFields a _) (hne (keys_reorderFields a) hnotReorder)
    · cases hv
      exact h.hybrid.clean (keyed_hybridFields a) (clean_hybridFields a) (hne (keys_hybridFields a) hnotHybrid)

theorem findKey_eq (hkey : key ∈ topKeys) {v : List Char} (hmem : (key, some v) ∈ a.topFields ro hy objs) :
    ∃ tail, Ends tail ∧ findKey key text = some (v ++ tail) :=
  h.top.findKey_eq (keyed_topFields a) (h.clean (List.mem_cons_of_mem _ (List.mem_cons_of_mem _ hkey))) hmem

theorem findKey_of_notMem (hkey : key ∈ ["mode".toList, "users".toList]) : findKey key text = none := by
  have hnot : key ∉ topKeys := by
    rcases List.mem_pair.1 hkey with rfl | rfl
    · exact notMem_topKeys.1
    · exact notMem_topKeys.2
  refine h.top.findKey_of_ne (keyed_topFields a) (h.clean ?_) fun v hv => ?_
  · exact List.mem_append_left topKeys hkey
  · exact hnot (keys_topFields a ▸ List.mem_map_of_mem hv)

/-- What is read of a field of the file. -/
theorem bind_findKey (hkey : key ∈ topKeys) {α β : Type} {o : Option α} {write : α → List Char}
    (read : List Char → Option β) {val : α → Option β} (hmem : (key, o.map write) ∈ a.topFields ro hy objs)
    (hread : ∀ x tail, Ends tail → read (write x ++ tail) = val x) : (findKey key text).bind read = o.bind val :=
  h.top.bind_findKey read (keyed_topFields a) (h.clean (List.mem_cons_of_mem _ (List.mem_cons_of_mem _ hkey))) hmem hread

/-- The objects of the file, each with what follows it. -/
theorem objectSpan_reorder : ∃ tail, objectSpan text "reorder".toList = some (ro ++ tail, '}' :: tail) := by
  obtain ⟨tail, -, hfind⟩ := h.findKey_eq (mem_topKeys (by simp))
    (by simp [topFields] : ("reorder".toList, some ro) ∈ a.topFields ro hy objs)
  have hclean : ∀ f ∈ a.reorderFields, ∀ v ∈ f.2, Clean [] v := clean_rowFields a _
  refine ⟨tail, ?_⟩
  rw [objectSpan, hfind, Option.bind_some, h.reorder.objectEnd (keyed_reorderFields a) hclean]
  rfl

theorem objectSpan_hybrid : ∃ tail, objectSpan text "hybrid".toList = some (hy ++ tail, '}' :: tail) := by
  obtain ⟨tail, -, hfind⟩ := h.findKey_eq (mem_topKeys (by simp))
    (by simp [topFields] : ("hybrid".toList, some hy) ∈ a.topFields ro hy objs)
  have hclean : ∀ f ∈ a.hybridFields, ∀ v ∈ f.2, Clean [] v := clean_hybridFields a
  refine ⟨tail, ?_⟩
  rw [objectSpan, hfind, Option.bind_some, h.hybrid.objectEnd (keyed_hybridFields a) hclean]
  rfl

/-! ### Rows -/

/-- What is read at the place of a row. -/
theorem bind_locate {d : KeyDesc} (hd : d ∈ cfgKeys) (rt ht : List Char) {β : Type} (read : List Char → Option β)
    {val : d.type.Value → Option β} (hread : ∀ v tail, Ends tail → read (d.type.json v ++ tail) = val v) :
    (d.jsonKey.bind (d.locate text (some (ro ++ rt, '}' :: rt)) (some (hy ++ ht, '}' :: ht)))).bind read =
      (a.value d).bind val := by
  cases hkey : d.jsonKey with
  | none =>
    have hnone : a.value d = none := by
      refine Option.not_isSome_iff_eq_none.1 fun hv => ?_
      have hsome := (a.shared d hv).2
      rw [hkey] at hsome
      cases hsome
    rw [hnone]
    rfl
  | some key =>
    rw [Option.bind_some]
    by_cases hreorder : d.sec = .reorder
    · have hmem : d ∈ rowsOf .reorder := List.mem_filter.2 ⟨hd, decide_eq_true hreorder⟩
      rw [KeyDesc.locate, hreorder]
      exact h.reorder.bind_findKeyBounded read (keyed_reorderFields a) (clean_rowFields a _) (mem_rowFields a hmem hkey)
        hread rt
    by_cases hhybrid : d.sec = .hybrid
    · have hmem : d ∈ rowsOf .hybrid := List.mem_filter.2 ⟨hd, decide_eq_true hhybrid⟩
      rw [KeyDesc.locate, hhybrid]
      exact h.hybrid.bind_findKeyBounded read (keyed_hybridFields a) (clean_hybridFields a)
        (List.mem_append_left _ (mem_rowFields a hmem hkey)) hread ht
    · have hmem : d ∈ topRows := List.mem_filter.2 ⟨hd, decide_eq_true ⟨hreorder, hhybrid⟩⟩
      have htop : key ∈ topKeys := List.mem_append_left _ (List.mem_filterMap.2 ⟨d, hmem, hkey⟩)
      have hlocate : d.locate text (some (ro ++ rt, '}' :: rt)) (some (hy ++ ht, '}' :: ht)) key = findKey key text := by
        rw [KeyDesc.locate.eq_def]
        split
        · rename_i hsec
          exact absurd hsec hreorder
        · rename_i hsec
          exact absurd hsec hhybrid
        · rfl
      rw [hlocate]
      exact h.bind_findKey htop read (List.mem_append_left _ (mem_rowFields a hmem hkey)) hread

theorem cfgKeyApplyJson_eq (cfg : Scalars) (rt ht : List Char) :
    cfg.cfgKeyApplyJson text (some (ro ++ rt, '}' :: rt)) (some (hy ++ ht, '}' :: ht)) = cfgKeys.foldl a.applyJson cfg := by
  refine List.foldl_ext _ _ _ fun cfg d hd => ?_
  have hrow := getD_eq_of_bind cfg (h.bind_locate hd rt ht (fun v => some (cfg.readJson d v))
    fun v tail htail => congrArg some (readJson_tail cfg d v htail))
  rw [applyJson]
  generalize d.jsonKey.bind (d.locate text (some (ro ++ rt, '}' :: rt)) (some (hy ++ ht, '}' :: ht))) = found at hrow ⊢
  generalize a.value d = o at hrow ⊢
  cases found <;> cases o <;> exact hrow

/-! ### Lists -/

theorem egressList_eq {o : Option (List PlainText)} (hmem : (key, o.map strings) ∈ a.hybridFields) (ht : List Char)
    (old : List Hybrid.Cidr) :
    egressList (some (hy ++ ht, '}' :: ht)) key old =
      some ((o.map fun l => ((l.map fun v => v.chars.take 31).filterMap parseCidrV4).take egressAclMax).getD old) := by
  have hread := h.hybrid.bind_findKeyBounded (fun v => some (readCidrArray v)) (keyed_hybridFields a)
    (clean_hybridFields a) hmem
    (fun l tail _ => congrArg (fun x => some (x.map fun l => ((l.map (·.take 31)).filterMap parseCidrV4).take egressAclMax))
      (stringArray_strings l tail)) ht
  have hlist := getD_eq_of_bind (some old) hread
  rw [egressList, Option.bind_some]
  dsimp only
  generalize findKeyBounded (hy ++ ht) ('}' :: ht) key = found at hlist ⊢
  have hmap (l : List PlainText) : (l.map (·.chars)).map (·.take 31) = l.map fun v => v.chars.take 31 := List.map_map
  simp only [Option.map_some, hmap] at hlist
  cases found <;> cases o <;> exact hlist

theorem stringList_eq (hkey : key ∈ topKeys) {o : Option (List PlainText)}
    (hmem : (key, o.map strings) ∈ a.topFields ro hy objs) (maxItems size : Nat) (old : List (List Char)) :
    stringList text key maxItems size old =
      (o.map fun l => (((l.map (·.chars)).take maxItems).map (·.take 63)).map (·.take (size - 1))).getD old := by
  rw [stringList, h.bind_findKey hkey (readStringArray · maxItems) hmem
    fun l tail _ => congrArg (·.map fun l => (l.take maxItems).map (·.take 63)) (stringArray_strings l tail)]
  cases o <;> rfl

end JsonWith

variable (a) in
/-- What a JSON file makes of the configuration. -/
def fromJson (cfg : FileConfig) : FileConfig :=
  { cfg with
    toScalars := cfgKeys.foldl a.applyJson cfg.toScalars
    dnsServers := (a.dns.map fun l => ((l.map (·.chars)).take maxDns).map (·.take 63)).getD cfg.dnsServers
    paths := (a.paths.map fun l => ((l.map (·.chars)).take maxPaths).map (·.take 31)).getD cfg.paths
    backupPaths := (a.backupPaths.map fun l => ((l.map (·.chars)).take maxPaths).map (·.take 31)).getD cfg.backupPaths
    rules := ((a.rules.getD []).map RuleText.fromJson).foldl (pushCapped maxRules) cfg.rules
    egressAllow := (a.egressAllow.map fun l =>
      ((l.map fun v => v.chars.take 31).filterMap parseCidrV4).take egressAclMax).getD cfg.egressAllow
    egressDeny := (a.egressDeny.map fun l =>
      ((l.map fun v => v.chars.take 31).filterMap parseCidrV4).take egressAclMax).getD cfg.egressDeny }

/-- A text that is cut twice is cut where it is shorter. -/
theorem map_take_take (l : List (List Char)) {m n : Nat} (h : n ≤ m) :
    (l.map (·.take m)).map (·.take n) = l.map (·.take n) := by
  rw [List.map_map]
  refine List.map_congr_left fun s _ => ?_
  rw [Function.comp_apply, List.take_take, Nat.min_eq_left h]

namespace JsonWith

variable (h : a.JsonWith ro hy objs text)
include h

theorem stringList_dns (old : List (List Char)) :
    stringList text "dns".toList maxDns 64 old =
      (a.dns.map fun l => ((l.map (·.chars)).take maxDns).map (·.take 63)).getD old := by
  have hmem : ("dns".toList, (a.dns.map fun l => l.map (·.toPlainText)).map strings) ∈ a.topFields ro hy objs := by
    rw [Option.map_map]
    simp [topFields, Function.comp_def]
  rw [h.stringList_eq (mem_topKeys (by simp)) hmem, Option.map_map]
  congr 2
  funext l
  rw [Function.comp_apply, map_take_take _ (Nat.le_refl _), List.map_map]
  rfl

theorem stringList_paths (old : List (List Char)) :
    stringList text "paths".toList maxPaths 32 old =
      (a.paths.map fun l => ((l.map (·.chars)).take maxPaths).map (·.take 31)).getD old := by
  rw [h.stringList_eq (mem_topKeys (by simp)) (by simp [topFields] : ("paths".toList, a.paths.map strings) ∈ _)]
  simp only [map_take_take _ (by decide : 31 ≤ 63)]

theorem stringList_backupPaths (old : List (List Char)) :
    stringList text "backup_paths".toList maxPaths 32 old =
      (a.backupPaths.map fun l => ((l.map (·.chars)).take maxPaths).map (·.take 31)).getD old := by
  rw [h.stringList_eq (mem_topKeys (by simp)) (by simp [topFields] : ("backup_paths".toList, a.backupPaths.map strings) ∈ _)]
  simp only [map_take_take _ (by decide : 31 ≤ 63)]

theorem readReorderRules_findKey (rules : List Rule) :
    (findKey "reorder_rules".toList text).map (readReorderRules rules) =
      a.rules.map fun _ => (((a.rules.getD []).map RuleText.fromJson).foldl (pushCapped maxRules) rules, true) := by
  have hmem : ("reorder_rules".toList, a.rules.map fun _ => array objs) ∈ a.topFields ro hy objs := by simp [topFields]
  rw [Option.map_eq_bind, Option.map_eq_bind]
  exact h.bind_findKey (mem_topKeys (by simp)) _ hmem
    fun _ tail _ => congrArg some (readReorderRules_eq h.rules rules tail)

end JsonWith

theorem loadJson_json {text : List Char} (h : a.IsJson text) (cfg : FileConfig) :
    loadJson cfg text = (a.fromJson cfg, true) := by
  obtain ⟨ro, hy, objs, h⟩ := h
  obtain ⟨rt, hro⟩ := h.objectSpan_reorder
  obtain ⟨ht, hhy⟩ := h.objectSpan_hybrid
  have hmode : readMode cfg text = cfg := by
    rw [readMode, h.findKey_of_notMem (by simp)]
    rfl
  have hallow : ("egress_allow".toList, a.egressAllow.map strings) ∈ a.hybridFields := by simp [hybridFields]
  have hdeny : ("egress_deny".toList, a.egressDeny.map strings) ∈ a.hybridFields := by simp [hybridFields]
  rw [loadJson, hmode, hro, hhy, h.cfgKeyApplyJson_eq, h.egressList_eq hallow]
  dsimp only
  rw [h.egressList_eq hdeny]
  dsimp only
  rw [h.findKey_of_notMem (by simp : "users".toList ∈ _), Option.map_none]
  dsimp only
  rw [Option.map_none, Option.getD_none]
  dsimp only
  rw [h.readReorderRules_findKey, h.stringList_dns, h.stringList_paths, h.stringList_backupPaths, fromJson]
  cases a.rules <;> rfl

end Assignment

end Mqvpn.ConfigFile
