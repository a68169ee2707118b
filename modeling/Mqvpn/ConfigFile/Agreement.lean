import Mqvpn.ConfigFile.JsonText
import Mqvpn.Lib.Runs

/-!
# INI files and JSON files

The INI file and the JSON file of an assignment are to be loaded with the same result. They are
not where a literal does not fit into an `int` (`json_read_int` cuts it to 32 bits, and
`parse_int_strict` refuses it), and where a text that is read into a buffer before it is used
is longer than the buffer: the name of a protocol, an address range, and an entry of the list
of DNS servers with a blank at the end of what fits. `configLoad_eq_loadJson_iff` says that this
is all.
-/

namespace Mqvpn.ConfigFile

open Text Json Reorder

/-! ## DNS servers -/

/-- An entry of the list as an INI file has it: cut, and without blanks at its end. -/
def Entry.cut (e : Entry) : List Char := (e.chars.take 63).rdropWhile isSpace

theorem Entry.starts (e : Entry) : ∃ c cs, e.chars = c :: cs ∧ isSpace c = false ∧ c ≠ ',' := by
  obtain ⟨c, cs, hc⟩ := List.exists_cons_of_ne_nil e.ne_nil
  refine ⟨c, cs, hc, e.head c (by rw [hc]; rfl), ?_⟩
  rintro rfl
  exact e.noComma (by rw [hc]; exact List.mem_cons_self)

theorem Entry.cut_ne_nil (e : Entry) : e.cut ≠ [] := by
  obtain ⟨c, cs, hc, hspace, -⟩ := e.starts
  intro h
  rw [cut, List.rdropWhile_eq_nil_iff, hc, List.take_succ_cons] at h
  exact Bool.false_ne_true (hspace.symm.trans (h c List.mem_cons_self))

/-- What separates entries. -/
def isSep (c : Char) : Bool := c = ',' ∨ isSpace c

section DnsLoop

variable {servers : List (List Char)} {p : List Char}

theorem dnsLoop_of_full (h : ¬servers.length < maxDns) : dnsLoop servers p = servers := by
  rw [dnsLoop, if_neg h]

theorem dnsLoop_of_nil (h : p.dropWhile isSep = []) : dnsLoop servers p = servers := by
  rw [dnsLoop]
  split_ifs
  · split
    · rfl
    · rename_i heq
      cases heq.symm.trans h
  · rfl

theorem dnsLoop_of_cons (hlt : servers.length < maxDns) {c : Char} {rest : List Char}
    (h : p.dropWhile isSep = c :: rest) :
    dnsLoop servers p =
      dnsLoop
        (if (((c :: rest).takeWhile (· ≠ ',')).take 63).rdropWhile isSpace = [] then servers
          else servers ++ [(((c :: rest).takeWhile (· ≠ ',')).take 63).rdropWhile isSpace])
        ((c :: rest).dropWhile (· ≠ ',')) := by
  rw [dnsLoop, if_pos hlt]
  split
  · rename_i heq
    cases heq.symm.trans h
  · rename_i heq
    cases heq.symm.trans h
    rfl

theorem dnsLoop_skip {c : Char} (hc : isSep c = true) : dnsLoop servers (c :: p) = dnsLoop servers p := by
  have hdrop : (c :: p).dropWhile isSep = p.dropWhile isSep := List.dropWhile_cons_of_pos hc
  by_cases hlt : servers.length < maxDns
  · cases hp : p.dropWhile isSep with
    | nil => rw [dnsLoop_of_nil (hdrop.trans hp), dnsLoop_of_nil hp]
    | cons c' rest => rw [dnsLoop_of_cons hlt (hdrop.trans hp), dnsLoop_of_cons hlt hp]
  · rw [dnsLoop_of_full hlt, dnsLoop_of_full hlt]

theorem dnsLoop_dnsTail (l : List Entry) : dnsLoop servers (dnsTail l) = dnsLoop servers (dnsText l) := by
  cases l with
  | nil => rfl
  | cons e l => rw [dnsTail, dnsLoop_skip (by decide), dnsLoop_skip (by decide)]

/-- The list of DNS servers of an INI file. -/
theorem dnsLoop_dnsText (hservers : servers.length ≤ maxDns) (l : List Entry) :
    dnsLoop servers (dnsText l) = (servers ++ l.map Entry.cut).take maxDns := by
  induction l generalizing servers with
  | nil =>
    rw [List.map_nil, List.append_nil, List.take_of_length_le hservers]
    exact dnsLoop_of_nil rfl
  | cons e l ih =>
    by_cases hlt : servers.length < maxDns
    · obtain ⟨c, cs, hc, hspace, hcomma⟩ := e.starts
      have hdrop : (dnsText (e :: l)).dropWhile isSep = c :: (cs ++ dnsTail l) := by
        rw [dnsText_cons, hc, List.cons_append, List.dropWhile_cons_of_neg]
        rw [isSep, decide_eq_true_eq, not_or]
        exact ⟨hcomma, Bool.eq_false_iff.1 hspace⟩
      have hall : ∀ c' ∈ e.chars, decide (c' ≠ ',') = true := fun c' hc' =>
        decide_eq_true fun heq => e.noComma (heq ▸ hc')
      have hstop : (dnsTail l).takeWhile (· ≠ ',') = [] ∧ (dnsTail l).dropWhile (· ≠ ',') = dnsTail l := by
        cases l <;> exact ⟨rfl, rfl⟩
      have htake : (c :: (cs ++ dnsTail l)).takeWhile (· ≠ ',') = e.chars := by
        rw [← List.cons_append, ← hc, List.takeWhile_append_of_pos hall, hstop.1, List.append_nil]
      have hrest : (c :: (cs ++ dnsTail l)).dropWhile (· ≠ ',') = dnsTail l := by
        rw [← List.cons_append, ← hc, List.dropWhile_append_of_pos hall, hstop.2]
      rw [dnsLoop_of_cons hlt hdrop, htake, hrest, ← Entry.cut, if_neg e.cut_ne_nil, dnsLoop_dnsTail,
        ih (by rw [List.length_append]; exact hlt), List.append_assoc]
      rfl
    · have hfull : servers.length = maxDns := Nat.le_antisymm hservers (Nat.not_lt.1 hlt)
      rw [dnsLoop_of_full hlt, ← hfull, List.take_left]

end DnsLoop

/-! ## Reorder rules -/

section Rules

variable {rule : Rule}

theorem parseReorderProfile_take (s : List Char) : parseReorderProfile (s.take 31) = parseReorderProfile s := by
  simp only [parseReorderProfile]
  rw [eqIgnoreCase_take s (by decide), eqIgnoreCase_take s (by decide), eqIgnoreCase_take s (by decide),
    eqIgnoreCase_take s (by decide), eqIgnoreCase_take s (by decide)]

/-- The port of a literal, which is 0 if the literal is none. -/
def Literal.port (l : Literal) : UInt16 := if l.neg = false ∧ l.nat ≤ 0xffff then UInt16.ofNat l.nat else 0

theorem Literal.port_int (l : Literal) :
    (l.int.map fun v => if 0 ≤ v ∧ v ≤ 0xffff then UInt16.ofNat v.toNat else 0).getD 0 = l.port := by
  have hlong : l.long = max (-2 ^ 63 : Int) (min ((if l.neg then -1 else 1) * (l.nat : Int)) (2 ^ 63 - 1)) := rfl
  rw [int, port]
  by_cases hport : l.neg = false ∧ l.nat ≤ 0xffff
  · rw [hport.1, if_neg Bool.false_ne_true] at hlong
    have heq : l.long = l.nat := by omega
    have hint : l.InInt := ⟨by rw [intMin]; omega, by omega⟩
    rw [if_pos hport, if_pos hint, heq, Option.map_some, Option.getD_some, if_pos ⟨by omega, by omega⟩]
    rfl
  · rw [if_neg hport]
    by_cases hint : l.InInt
    · rw [if_pos hint, Option.map_some, Option.getD_some]
      split_ifs with hrange
      · -- only `-0` is in the range
        have hzero : l.long = 0 := by
          cases hneg : l.neg
          · rw [hneg, if_neg Bool.false_ne_true] at hlong
            have hlarge : ¬l.nat ≤ 0xffff := fun hsmall => hport ⟨hneg, hsmall⟩
            omega
          · rw [hneg, if_pos rfl] at hlong
            omega
        rw [hzero]
        rfl
      · rfl
    · rw [if_neg hint]
      rfl

theorem Literal.port_u64 (l : Literal) :
    ((l.u64.filter fun v => v ≤ 0xffffffff).map fun v => if 0xffff < v then 0 else UInt16.ofNat v).getD 0 = l.port := by
  rw [u64, port]
  cases hneg : l.neg
  · rw [if_neg Bool.false_ne_true]
    by_cases hsmall : l.nat ≤ 0xffff
    · rw [if_pos (by omega), if_pos ⟨rfl, hsmall⟩, Option.filter_some, if_pos (decide_eq_true (by omega))]
      exact if_neg (Nat.not_lt.2 hsmall)
    · have hnone : ¬(false = false ∧ l.nat ≤ 0xffff) := fun h => hsmall h.2
      rw [if_neg hnone]
      by_cases hfits : l.nat < 2 ^ 64
      · rw [if_pos hfits, Option.filter_some]
        by_cases hlarge : l.nat ≤ 0xffffffff
        · rw [if_pos (decide_eq_true hlarge)]
          exact if_pos (Nat.not_le.1 hsmall)
        · rw [if_neg (by simpa using hlarge)]
          rfl
      · rw [if_neg hfits]
        rfl
  · rw [if_pos rfl, if_neg fun h => Bool.noConfusion h.1]
    rfl

theorem ruleKv_port (h : rule.port = 0) (l : Literal) :
    ruleKv rule "Port".toList l.text =
      { rule with port := (l.int.map fun v => if 0 ≤ v ∧ v ≤ 0xffff then UInt16.ofNat v.toNat else 0).getD 0 } := by
  rw [ruleKv, if_neg (by decide), if_pos (by decide), parseU32Strict_text, l.port_int, ← l.port_u64]
  cases l.u64.filter fun v => v ≤ 0xffffffff with
  | none => exact congrArg (fun port => { rule with port }) h
  | some v =>
    rw [Option.map_some, Option.getD_some]
    dsimp only
    split_ifs
    · exact congrArg (fun port => { rule with port }) h
    · rfl

theorem ruleKv_maxWaitMs (h : rule.explicitWaitMs = 0) (l : Literal) :
    ruleKv rule "MaxWaitMs".toList l.text =
      { rule with explicitWaitMs := (l.u64.map fun v => if 0xffffffff < v then 0 else v).getD 0 } := by
  rw [ruleKv, if_neg (by decide), if_neg (by decide), if_neg (by decide), if_pos (by decide), parseU32Strict_text]
  have hself : rule = { rule with explicitWaitMs := 0 } := congrArg (fun w => { rule with explicitWaitMs := w }) h
  cases l.u64 with
  | none => exact hself
  | some v =>
    rw [Option.map_some, Option.getD_some]
    by_cases hlarge : 0xffffffff < v
    · rw [Option.filter_some, if_neg (by simpa using hlarge), if_pos hlarge]
      exact hself
    · rw [Option.filter_some, if_pos (by simpa using hlarge), if_neg hlarge]
      dsimp only
      split_ifs with hzero
      · rw [hzero]
        exact hself
      · rfl

theorem ruleKv_capPackets (h : rule.explicitCap = 0) (l : Literal) :
    ruleKv rule "CapPackets".toList l.text =
      { rule with
        explicitCap := (l.u64.map fun v => if 0xffffffff < v ∨ Config.capIsValid v = false then 0 else v).getD 0 } := by
  rw [ruleKv, if_neg (by decide), if_neg (by decide), if_neg (by decide), if_neg (by decide), if_pos (by decide),
    parseU32Strict_text]
  have hself : rule = { rule with explicitCap := 0 } := congrArg (fun c => { rule with explicitCap := c }) h
  cases l.u64 with
  | none => exact hself
  | some v =>
    rw [Option.map_some, Option.getD_some]
    by_cases hlarge : 0xffffffff < v
    · rw [Option.filter_some, if_neg (by simpa using hlarge), if_pos (.inl hlarge)]
      exact hself
    · rw [Option.filter_some, if_pos (by simpa using hlarge)]
      dsimp only
      by_cases hvalid : Config.capIsValid v = true
      · rw [if_pos hvalid, if_neg (not_or.2 ⟨hlarge, by simp [hvalid]⟩)]
      · rw [if_neg hvalid, if_pos (.inr (Bool.eq_false_iff.2 hvalid))]
        exact hself

theorem ruleKv_proto (s : List Char) :
    ruleKv rule "Proto".toList s = { rule with proto := (parseReorderProto s).getD rule.proto } := by
  rw [ruleKv, if_pos (by decide)]
  cases parseReorderProto s <;> rfl

theorem ruleKv_profile (s : List Char) :
    ruleKv rule "Profile".toList s = { rule with profile := (parseReorderProfile s).getD rule.profile } := by
  rw [ruleKv, if_neg (by decide), if_neg (by decide), if_pos (by decide)]
  cases parseReorderProfile s <;> rfl

/-- The rule of an INI file is that of a JSON file, but for its protocol. -/
theorem RuleText.fromIni_eq (r : RuleText) :
    r.fromIni = { r.fromJson with proto := (r.proto.bind fun v => parseReorderProto v.chars).getD 17 } := by
  obtain ⟨proto, port, profile, maxWaitMs, capPackets⟩ := r
  have hproto (rule : Rule) (h : rule.proto = 17) :
      (proto.map fun v => ("Proto".toList, v.chars)).toList.foldl (fun rule kv => ruleKv rule kv.1 kv.2) rule =
        { rule with proto := (proto.bind fun v => parseReorderProto v.chars).getD 17 } := by
    cases proto with
    | none => exact congrArg (fun proto => { rule with proto }) h
    | some v => exact (ruleKv_proto v.chars).trans (by rw [h]; rfl)
  have hport (rule : Rule) (h : rule.port = 0) :
      (port.map fun v => ("Port".toList, v.text)).toList.foldl (fun rule kv => ruleKv rule kv.1 kv.2) rule =
        { rule with
          port := ((port.bind Literal.int).map fun v =>
            if 0 ≤ v ∧ v ≤ 0xffff then UInt16.ofNat v.toNat else 0).getD 0 } := by
    cases port with
    | none => exact congrArg (fun port => { rule with port }) h
    | some l => exact ruleKv_port h l
  have hprofile (rule : Rule) (h : rule.profile = .quicBulk) :
      (profile.map fun v => ("Profile".toList, v.chars)).toList.foldl (fun rule kv => ruleKv rule kv.1 kv.2) rule =
        { rule with profile := (profile.bind fun v => parseReorderProfile (v.chars.take 31)).getD .quicBulk } := by
    cases profile with
    | none => exact congrArg (fun profile => { rule with profile }) h
    | some v => exact (ruleKv_profile v.chars).trans (by rw [h, Option.bind_some, parseReorderProfile_take])
  have hwait (rule : Rule) (h : rule.explicitWaitMs = 0) :
      (maxWaitMs.map fun v => ("MaxWaitMs".toList, v.text)).toList.foldl (fun rule kv => ruleKv rule kv.1 kv.2) rule =
        { rule with
          explicitWaitMs := ((maxWaitMs.bind Literal.u64).map fun v => if 0xffffffff < v then 0 else v).getD 0 } := by
    cases maxWaitMs with
    | none => exact congrArg (fun w => { rule with explicitWaitMs := w }) h
    | some l => exact ruleKv_maxWaitMs h l
  have hcap (rule : Rule) (h : rule.explicitCap = 0) :
      (capPackets.map fun v => ("CapPackets".toList, v.text)).toList.foldl (fun rule kv => ruleKv rule kv.1 kv.2) rule =
        { rule with
          explicitCap := ((capPackets.bind Literal.u64).map fun v =>
            if 0xffffffff < v ∨ Config.capIsValid v = false then 0 else v).getD 0 } := by
    cases capPackets with
    | none => exact congrArg (fun c => { rule with explicitCap := c }) h
    | some l => exact ruleKv_capPackets h l
  rw [RuleText.fromIni, RuleText.kvs, List.foldl_append, List.foldl_append, List.foldl_append, List.foldl_append,
    hproto _ rfl, hport _ rfl, hprofile _ rfl, hwait _ rfl, hcap _ rfl]
  rfl

/-- A rule is read alike exactly if its protocol is the same where it is cut. -/
theorem RuleText.fromIni_eq_iff (r : RuleText) :
    r.fromIni = r.fromJson ↔
      ∀ v ∈ r.proto, (parseReorderProto v.chars).getD 17 = (parseReorderProto (v.chars.take 31)).getD 17 := by
  have hproto : r.fromJson.proto = (r.proto.bind fun v => parseReorderProto (v.chars.take 31)).getD 17 := rfl
  have hiff : r.fromIni = r.fromJson ↔
      (r.proto.bind fun v => parseReorderProto v.chars).getD 17 = r.fromJson.proto := by
    rw [r.fromIni_eq]
    exact ⟨fun h => congrArg Rule.proto h, fun h => congrArg (fun proto => { r.fromJson with proto }) h⟩
  rw [hiff, hproto]
  cases r.proto with
  | none => exact iff_of_true rfl fun _ hv => by cases hv
  | some v => exact ⟨fun h _ hv => by cases hv; exact h, fun h => h v rfl⟩

end Rules

/-! ## Rows -/

/-- The row is one of an `int` whose value is checked. -/
def KeyType.IsInt : KeyType → Prop
  | .int _ _ _ => True
  | _ => False

instance : (t : KeyType) → Decidable t.IsInt
  | .int _ _ _ => .isTrue trivial
  | .str _ | .bool _ | .u32 _ | .u16 _ | .u64 _ _ | .reorderMode | .hybridTcpMode => .isFalse id

/-- No other row of files of both kinds writes the field of an `int`, which is all that such a
    row does. -/
theorem isInt_cfgKeys : ∀ d ∈ cfgKeys, d.type.IsInt → d.postSet = none ∧
    ∀ e ∈ cfgKeys, e.iniKey.isSome = true → e.jsonKey.isSome = true → d.iniKey.isSome = true → d.jsonKey.isSome = true →
      e.type.intField = d.type.intField → e = d := by
  decide +kernel

theorem nodup_cfgKeys : cfgKeys.Nodup := by decide +kernel

/-- A value that both loaders store alike, given the configuration before. -/
def KeyType.Harmless (cfg : Scalars) : (t : KeyType) → t.Value → Prop
  | .int f intOk fallback, l => Literal.Harmless intOk fallback (cfg.int f) l
  | .str _, _ | .bool _, _ | .u32 _, _ | .u16 _, _ | .u64 _ _, _ | .reorderMode, _ | .hybridTcpMode, _ => True

theorem KeyType.harmless_congr {cfg cfg' : Scalars} {t : KeyType}
    (h : t.IsInt → ∀ f ∈ t.intField, cfg.int f = cfg'.int f) (v : t.Value) : t.Harmless cfg v ↔ t.Harmless cfg' v := by
  cases t with
  | int f intOk fallback =>
    have hf : cfg.int f = cfg'.int f := h trivial f rfl
    rw [Harmless, Harmless, hf]
  | _ => exact Iff.rfl

namespace Assignment

variable (a : Assignment) {cfg : Scalars} {d e : KeyDesc} {f : IntField}

theorem int_applyIni (h : d.type.intField ≠ some f) : (a.applyIni cfg d).int f = cfg.int f := by
  rw [applyIni]
  split
  · exact Scalars.int_readIni h _
  · rfl

theorem int_applyJson (h : d.type.intField ≠ some f) : (a.applyJson cfg d).int f = cfg.int f := by
  rw [applyJson]
  split
  · exact Scalars.int_readJson h _
  · rfl

/-- The fields of two rows with values are different ones, if one of them is an `int` row. -/
theorem intField_ne (hd : d ∈ cfgKeys) (he : e ∈ cfgKeys) (hdv : (a.value d).isSome = true)
    (hev : (a.value e).isSome = true) (hint : d.type.IsInt) (hne : e ≠ d) : e.type.intField ≠ d.type.intField := by
  obtain ⟨hdi, hdj⟩ := a.shared d hdv
  obtain ⟨hei, hej⟩ := a.shared e hev
  exact fun heq => hne ((isInt_cfgKeys d hd hint).2 e he hei hej hdi hdj heq)

/-- Both loaders do the same for a row whose value does no harm. -/
theorem apply_eq (hd : d ∈ cfgKeys) (h : ∀ v ∈ a.value d, d.type.Harmless cfg v) :
    a.applyIni cfg d = a.applyJson cfg d := by
  have hbrace : Ends ['}'] := .inr (.inl rfl)
  rw [applyIni, applyJson]
  cases hv : a.value d with
  | none => rfl
  | some v =>
    by_cases hint : ∃ f intOk fallback, d.type = .int f intOk fallback
    · obtain ⟨f, intOk, fallback, htype⟩ := hint
      have hpost := (isInt_cfgKeys d hd (by rw [htype]; trivial)).1
      have hharm := h v hv
      clear hv h hd
      obtain ⟨sec, iniKey, jsonKey, type, postSet⟩ := d
      cases htype
      change Literal at v
      exact (Scalars.readIni_int rfl hpost v).trans
        ((congrArg (cfg.setInt f) ((intFromIni_eq_iff _ _).2 hharm)).trans (Scalars.readJson_int rfl hpost v hbrace).symm)
    · exact cfg.readIni_eq_readJson (fun f intOk fallback heq => hint ⟨f, intOk, fallback, heq⟩) v hbrace

/-- Both loaders do the same for rows whose values do no harm: what is in the way of a row,
    its field, is left alone by the rows before it. -/
theorem foldl_apply_eq {ds : List KeyDesc} (hds : ∀ d ∈ ds, d ∈ cfgKeys) (hnodup : ds.Nodup)
    (h : ∀ d ∈ ds, ∀ v ∈ a.value d, d.type.Harmless cfg v) : ds.foldl a.applyIni cfg = ds.foldl a.applyJson cfg := by
  induction ds generalizing cfg with
  | nil => rfl
  | cons d ds ih =>
    obtain ⟨hd, hds⟩ := List.forall_mem_cons.1 hds
    obtain ⟨hnotMem, hnodup⟩ := List.nodup_cons.1 hnodup
    obtain ⟨hhead, htail⟩ := List.forall_mem_cons.1 h
    rw [List.foldl_cons, List.foldl_cons, ← a.apply_eq hd hhead]
    refine ih hds hnodup fun e he v hv => (KeyType.harmless_congr (fun hint f hf => ?_) v).2 (htail e he v hv)
    cases hdv : a.value d with
    | none =>
      rw [applyIni, hdv]
    | some w =>
      have hevalue : (a.value e).isSome = true := Option.isSome_iff_exists.2 ⟨v, hv⟩
      have hdvalue : (a.value d).isSome = true := Option.isSome_iff_exists.2 ⟨w, hdv⟩
      have hne : d ≠ e := fun heq => hnotMem (heq ▸ he)
      have hfield := a.intField_ne (hds e he) hd hevalue hdvalue hint hne
      exact a.int_applyIni fun heq => hfield (heq.trans (Option.mem_def.1 hf).symm)

/-- Loaders that do the same have met only values that do no harm. -/
theorem harmless_of_foldl_eq (h : cfgKeys.foldl a.applyIni cfg = cfgKeys.foldl a.applyJson cfg) (hd : d ∈ cfgKeys)
    (v : d.type.Value) (hv : a.value d = some v) : d.type.Harmless cfg v := by
  have hbrace : Ends ['}'] := .inr (.inl rfl)
  have hvalue : (a.value d).isSome = true := Option.isSome_iff_exists.2 ⟨v, hv⟩
  have hpost (hint : d.type.IsInt) := (isInt_cfgKeys d hd hint).1
  have hother (hint : d.type.IsInt) (e : KeyDesc) (he : e ∈ cfgKeys) (hne : e ≠ d) (hev : (a.value e).isSome = true) :=
    a.intField_ne hd he hvalue hev hint hne
  obtain ⟨sec, iniKey, jsonKey, type, postSet⟩ := d
  cases type with
  | int f intOk fallback =>
    change Literal at v
    have hini : (cfgKeys.foldl a.applyIni cfg).int f = intFromIni intOk fallback (cfg.int f) v := by
      refine Runs.foldl_once (fun cfg : Scalars => cfg.int f) (fun old => intFromIni intOk fallback old v)
        hd nodup_cfgKeys (fun e he hne cfg => ?_) (fun cfg => ?_) cfg
      · cases hev : a.value e with
        | none => rw [applyIni, hev]
        | some w => exact a.int_applyIni (hother trivial e he hne (by rw [hev]; rfl))
      · rw [applyIni, hv]
        exact (congrArg (·.int f) (Scalars.readIni_int rfl (hpost trivial) v)).trans (Function.update_self _ _ _)
    have hjson : (cfgKeys.foldl a.applyJson cfg).int f = intStored intOk fallback (cfg.int f) (toInt v.long) := by
      refine Runs.foldl_once (fun cfg : Scalars => cfg.int f)
        (fun old => intStored intOk fallback old (toInt v.long)) hd nodup_cfgKeys (fun e he hne cfg => ?_)
        (fun cfg => ?_) cfg
      · cases hev : a.value e with
        | none => rw [applyJson, hev]
        | some w => exact a.int_applyJson (hother trivial e he hne (by rw [hev]; rfl))
      · rw [applyJson, hv]
        exact (congrArg (·.int f) (Scalars.readJson_int rfl (hpost trivial) v hbrace)).trans (Function.update_self _ _ _)
    exact (intFromIni_eq_iff _ _).1 (hini.symm.trans ((congrArg (·.int f) h).trans hjson))
  | _ => trivial

/-! ## Files -/

/-- The ranges of a list are the same where they are cut. -/
def SameRanges (l : Option (List PlainText)) : Prop :=
  ((texts l).filterMap parseCidrV4).take egressAclMax =
    (((texts l).map (·.take 31)).filterMap parseCidrV4).take egressAclMax

/-- Nothing is lost where a text is cut: of the literals for an `int` to 32 bits, of the DNS
    servers, of the names of protocols and of the address ranges to the sizes of buffers. -/
structure Uncut : Prop where
  ints : ∀ d ∈ cfgKeys, ∀ v ∈ a.value d, d.type.Harmless defaults.toScalars v
  dns : ∀ l ∈ a.dns, ∀ e ∈ l.take maxDns, ∀ c ∈ (e.chars.take 63).getLast?, isSpace c = false
  protos : ∀ l ∈ a.rules, ∀ r ∈ l.take maxRules, ∀ v ∈ r.proto,
    (parseReorderProto v.chars).getD 17 = (parseReorderProto (v.chars.take 31)).getD 17
  egressAllow : SameRanges a.egressAllow
  egressDeny : SameRanges a.egressDeny

theorem cut_eq_take_iff (e : Entry) : e.cut = e.chars.take 63 ↔ ∀ c ∈ (e.chars.take 63).getLast?, isSpace c = false := by
  rw [Entry.cut, List.rdropWhile_eq_self_iff]
  constructor
  · intro h c hc
    obtain ⟨hne, hlast⟩ := List.mem_getLast?_eq_getLast hc
    exact hlast ▸ Bool.eq_false_iff.2 (h hne)
  · intro h hne
    exact Bool.eq_false_iff.1 (h _ (List.getLast?_eq_getLast_of_ne_nil hne))

theorem dnsServers_eq_iff : (a.fromIni defaults).dnsServers = (a.fromJson defaults).dnsServers ↔
    ∀ l ∈ a.dns, ∀ e ∈ l.take maxDns, ∀ c ∈ (e.chars.take 63).getLast?, isSpace c = false := by
  rw [fromIni, fromJson]
  dsimp only
  cases a.dns with
  | none => exact iff_of_true rfl fun _ hl => by cases hl
  | some l =>
    rw [Option.map_some, Option.map_some, Option.getD_some, Option.getD_some, parseDnsList,
      dnsLoop_dnsText (Nat.zero_le _), List.nil_append, ← List.map_take, ← List.map_take, List.map_map, List.map_inj_left]
    simp only [Function.comp_apply, cut_eq_take_iff]
    exact ⟨fun h l' hl' => by cases hl'; exact h, fun h => h l rfl⟩

theorem rules_eq_iff : (a.fromIni defaults).rules = (a.fromJson defaults).rules ↔
    ∀ l ∈ a.rules, ∀ r ∈ l.take maxRules, ∀ v ∈ r.proto,
      (parseReorderProto v.chars).getD 17 = (parseReorderProto (v.chars.take 31)).getD 17 := by
  have hempty : defaults.rules.length ≤ maxRules := by decide
  rw [fromIni, fromJson]
  dsimp only
  rw [foldl_pushCapped hempty, foldl_pushCapped hempty]
  change ((a.rules.getD []).map RuleText.fromIni).take maxRules = ((a.rules.getD []).map RuleText.fromJson).take maxRules ↔ _
  rw [← List.map_take, ← List.map_take, List.map_inj_left]
  simp only [RuleText.fromIni_eq_iff]
  cases a.rules with
  | none => exact iff_of_true (fun _ hr => by cases hr) fun _ hl => by cases hl
  | some l => exact ⟨fun h l' hl' => by cases hl'; exact h, fun h => h l rfl⟩

theorem egress_eq_iff (l : Option (List PlainText)) :
    ((texts l).filterMap parseCidrV4).foldl (pushCapped egressAclMax) [] =
        (l.map fun l => ((l.map fun v => v.chars.take 31).filterMap parseCidrV4).take egressAclMax).getD [] ↔
      SameRanges l := by
  rw [foldl_pushCapped (Nat.zero_le _), List.nil_append, SameRanges, texts, List.map_map]
  cases l <;> rfl

theorem pathList_eq (l : Option (List PlainText)) :
    ((texts l).map (·.take 31)).foldl (pushCapped maxPaths) [] =
      (l.map fun l => ((l.map (·.chars)).take maxPaths).map (·.take 31)).getD [] := by
  rw [foldl_pushCapped (Nat.zero_le _), List.nil_append, texts, ← List.map_take]
  cases l <;> rfl

/-- A file of either kind that is written for an assignment is loaded with the same result,
    over the defaults, exactly if nothing is lost where a text is cut. -/
theorem configLoad_eq_loadJson_iff {text : List Char} (h : a.IsJson text) :
    configLoad defaults a.ini = loadJson defaults text ↔ a.Uncut := by
  rw [a.configLoad_ini, loadJson_json h, Prod.mk.injEq, and_iff_left rfl]
  constructor
  · intro heq
    exact {
      ints := fun d hd v hv => a.harmless_of_foldl_eq (congrArg FileConfig.toScalars heq) hd v hv
      dns := a.dnsServers_eq_iff.1 (congrArg FileConfig.dnsServers heq)
      protos := a.rules_eq_iff.1 (congrArg FileConfig.rules heq)
      egressAllow := (egress_eq_iff _).1 (congrArg FileConfig.egressAllow heq)
      egressDeny := (egress_eq_iff _).1 (congrArg FileConfig.egressDeny heq) }
  · intro hcut
    have hscalars := a.foldl_apply_eq (fun d hd => hd) nodup_cfgKeys hcut.ints
    have hdns := a.dnsServers_eq_iff.2 hcut.dns
    have hrules := a.rules_eq_iff.2 hcut.protos
    have hallow := (egress_eq_iff _).2 hcut.egressAllow
    have hdeny := (egress_eq_iff _).2 hcut.egressDeny
    have hpaths := pathList_eq a.paths
    have hbackup := pathList_eq a.backupPaths
    rw [fromIni, fromJson, FileConfig.mk.injEq]
    exact ⟨hscalars, hdns, rfl, rfl, hpaths, hbackup, rfl, hrules, hallow, hdeny⟩

/-! ### A file -/

/-- An assignment with the number of clients alone. -/
def justMaxClients (l : Literal) : Assignment where
  value
    | ⟨_, some _, some _, .int .maxClients _ _, _⟩ => some l
    | _ => none
  shared d h := by
    split at h
    · exact ⟨rfl, rfl⟩
    · cases h
  dns := none
  paths := none
  backupPaths := none
  rules := none
  egressAllow := none
  egressDeny := none

/-- The number 2^32 + 1. -/
def large : Literal where
  neg := false
  digits := "4294967297".toList
  ne_nil := by decide
  digit := by decide

/-- Its JSON file. -/
def largeJson : List Char := "\x7b\"max_clients\":4294967297,\"reorder\":\x7b\x7d,\"hybrid\":\x7b\x7d\x7d".toList

theorem isJson_large : (justMaxClients large).IsJson largeJson := by
  refine ⟨"\x7b\x7d".toList, "\x7b\x7d".toList, [], ⟨[], .refl _, rfl⟩, ⟨[], .refl _, rfl⟩, .nil, _, .refl _, ?_⟩
  decide +kernel

theorem configLoad_eq_loadJson_large :
    configLoad defaults (justMaxClients large).ini = loadJson defaults largeJson ↔ (justMaxClients large).Uncut :=
  configLoad_eq_loadJson_iff _ isJson_large

/-- 4294967297 clients are no `int`, so that an INI file has the fallback of 64 stored; its
    lowest 32 bits, which a JSON file has stored, are 1. -/
theorem configLoad_ne_loadJson : ¬∀ (a : Assignment) (text : List Char), a.IsJson text →
    configLoad defaults a.ini = loadJson defaults text := by
  intro h
  have heq := h _ _ isJson_large
  rw [configLoad_ini, loadJson_json isJson_large, Prod.mk.injEq] at heq
  have hd : row .auth "MaxClients" "max_clients" (.int .maxClients .positive (some 64)) none ∈ cfgKeys := by
    decide +kernel
  have hscalars : cfgKeys.foldl (justMaxClients large).applyIni defaults.toScalars =
      cfgKeys.foldl (justMaxClients large).applyJson defaults.toScalars := congrArg FileConfig.toScalars heq.1
  have hharm : large.Harmless .positive (some 64) 64 := harmless_of_foldl_eq _ hscalars hd large rfl
  exact absurd hharm (by decide +kernel)

end Assignment

end Mqvpn.ConfigFile
