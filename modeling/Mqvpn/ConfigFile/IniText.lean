import Mqvpn.ConfigFile.Values

/-!
# INI files

An assignment of values to settings, and the INI file that is written for it: one block for
each section with its keys in the order of the table, and behind them a block for each
reorder rule. `mqvpn_config_load` reads such a file as one expects (`loadIni_ini`): it stores
the values one after the other, and cuts the lists to the lengths that they can have.
-/

namespace Mqvpn.ConfigFile

open Text Json Reorder

/-! ## Assignments -/

/-- The settings of a reorder rule. -/
structure RuleText where
  proto : Option PlainText
  port : Option Literal
  profile : Option PlainText
  maxWaitMs : Option Literal
  capPackets : Option Literal

/-- An entry of a list that is written with commas. -/
structure Entry extends PlainText where
  ne_nil : chars ≠ []
  noComma : ',' ∉ chars

/-- Values for the settings that files of both kinds have, and lists. -/
structure Assignment where
  value : (d : KeyDesc) → Option d.type.Value
  shared : ∀ d, (value d).isSome = true → d.iniKey.isSome = true ∧ d.jsonKey.isSome = true
  dns : Option (List Entry)
  paths : Option (List PlainText)
  backupPaths : Option (List PlainText)
  rules : Option (List RuleText)
  egressAllow : Option (List PlainText)
  egressDeny : Option (List PlainText)

/-! ## Writing -/

/-- The name of a section. -/
def Section.name : Section → List Char
  | .none => []
  | .interface => "Interface".toList
  | .server => "Server".toList
  | .tls => "TLS".toList
  | .auth => "Auth".toList
  | .multipath => "Multipath".toList
  | .control => "Control".toList
  | .reorder => "Reorder".toList
  | .reorderRule => "ReorderRule".toList
  | .hybrid => "Hybrid".toList

/-- The header of a section. -/
def header (sec : Section) : List Char := '[' :: (sec.name ++ [']'])

/-- The line for a key. -/
def iniKv (key val : List Char) : List Char := key ++ ' ' :: '=' :: ' ' :: val

namespace RuleText

variable (r : RuleText)

/-- The keys of the rule with their values. -/
def kvs : List (List Char × List Char) :=
  (r.proto.map fun v => ("Proto".toList, v.chars)).toList ++
    (r.port.map fun v => ("Port".toList, v.text)).toList ++
    (r.profile.map fun v => ("Profile".toList, v.chars)).toList ++
    (r.maxWaitMs.map fun v => ("MaxWaitMs".toList, v.text)).toList ++
    (r.capPackets.map fun v => ("CapPackets".toList, v.text)).toList

/-- The block of the rule. -/
def iniLines : List (List Char) := header .reorderRule :: r.kvs.map fun kv => iniKv kv.1 kv.2

end RuleText

/-- The rows of a section. -/
def rowsOf (sec : Section) : List KeyDesc := cfgKeys.filter fun d => d.sec = sec

/-- The sections of the table. -/
def sections : List Section := [.interface, .server, .tls, .auth, .control, .multipath, .reorder, .hybrid]

namespace Assignment

variable (a : Assignment)

/-- The line for a row, if it has a value. -/
def rowLine (d : KeyDesc) : Option (List Char) :=
  d.iniKey.bind fun key => (a.value d).map fun v => iniKv key (d.type.ini v)

/-- The lines for lists: the servers in one line, and one line for each entry of the others. -/
def listLines : Section → List (List Char)
  | .interface => (a.dns.map fun l => iniKv "DNS".toList ([',', ' '].intercalate (l.map (·.chars)))).toList
  | .multipath =>
    ((a.paths.getD []).map fun v => iniKv "Path".toList v.chars) ++
      (a.backupPaths.getD []).map fun v => iniKv "BackupPath".toList v.chars
  | .hybrid =>
    ((a.egressAllow.getD []).map fun v => iniKv "EgressAllow".toList v.chars) ++
      (a.egressDeny.getD []).map fun v => iniKv "EgressDeny".toList v.chars
  | _ => []

/-- The block of a section. -/
def sectionLines (sec : Section) : List (List Char) :=
  header sec :: ((rowsOf sec).filterMap a.rowLine ++ a.listLines sec)

def iniLines : List (List Char) := sections.flatMap a.sectionLines ++ (a.rules.getD []).flatMap RuleText.iniLines

/-- The INI file. -/
def ini : List Char := a.iniLines.flatMap (· ++ ['\n'])

end Assignment

/-! ## Lines -/

section Trim

variable {s : List Char}

theorem trim_eq_self (hhead : ∀ c ∈ s.head?, isSpace c = false) (hlast : ∀ c ∈ s.getLast?, isSpace c = false) :
    trim s = s := by
  have hdrop : s.dropWhile isSpace = s := by
    cases s with
    | nil => rfl
    | cons c cs => exact List.dropWhile_cons_of_neg (by simpa using hhead c rfl)
  rw [trim, hdrop, List.rdropWhile_eq_self_iff]
  intro hne
  have := hlast _ (List.getLast?_eq_getLast_of_ne_nil hne)
  simp [this]

theorem trim_space (s : List Char) : trim (' ' :: s) = trim s := by
  rw [trim, trim, List.dropWhile_cons_of_pos (by decide)]

theorem trim_append_space (hhead : ∀ c ∈ s.head?, isSpace c = false) (hlast : ∀ c ∈ s.getLast?, isSpace c = false)
    (hne : s ≠ []) : trim (s ++ [' ']) = s := by
  obtain ⟨c, cs, rfl⟩ := List.exists_cons_of_ne_nil hne
  have htrim := trim_eq_self hhead hlast
  have hdrop (t : List Char) : (c :: t).dropWhile isSpace = c :: t :=
    List.dropWhile_cons_of_neg (by simpa using hhead c rfl)
  rw [trim, hdrop] at htrim
  rw [trim, List.cons_append, hdrop, ← List.cons_append, List.rdropWhile_concat_pos _ _ _ (by decide), htrim]

end Trim

/-- A key that can be written. -/
def IsKey (key : List Char) : Prop :=
  key ≠ [] ∧ ∀ c ∈ key, isSpace c = false ∧ c ≠ '=' ∧ c ≠ '#' ∧ c ≠ ';' ∧ c ≠ '['

instance (key : List Char) : Decidable (IsKey key) := inferInstanceAs (Decidable (_ ∧ _))

/-- A value that can be written. -/
structure IsValue (val : List Char) : Prop where
  head : ∀ c ∈ val.head?, isSpace c = false
  last : ∀ c ∈ val.getLast?, isSpace c = false
  noBreak : '\n' ∉ val

theorem IsKey.trim {key : List Char} (h : IsKey key) : trim key = key ∧ trim (key ++ [' ']) = key := by
  have hhead : ∀ c ∈ key.head?, isSpace c = false := fun c hc => (h.2 c (List.mem_of_mem_head? hc)).1
  have hlast : ∀ c ∈ key.getLast?, isSpace c = false := fun c hc => (h.2 c (List.mem_of_mem_getLast? hc)).1
  exact ⟨trim_eq_self hhead hlast, trim_append_space hhead hlast h.1⟩

/-- A line without blanks around it: the value may be empty. -/
theorem trim_iniKv {key val : List Char} (hkey : IsKey key) (hval : IsValue val) :
    ∃ t, Mqvpn.ConfigFile.trim (iniKv key val) = key ++ ' ' :: '=' :: t ∧ Mqvpn.ConfigFile.trim t = val := by
  obtain ⟨c, cs, rfl⟩ := List.exists_cons_of_ne_nil hkey.1
  have hhead (t : List Char) : ∀ c' ∈ (c :: cs ++ t).head?, isSpace c' = false := by
    intro c' hc'
    cases hc'
    exact (hkey.2 c List.mem_cons_self).1
  by_cases hnil : val = []
  · subst hnil
    refine ⟨[], ?_, rfl⟩
    have hline : iniKv (c :: cs) [] = (c :: cs ++ [' ', '=']) ++ [' '] := by rw [iniKv, List.append_assoc]; rfl
    rw [hline]
    refine trim_append_space (hhead _) (fun c' hc' => ?_) (by simp)
    rw [List.getLast?_append_of_ne_nil _ (by simp)] at hc'
    cases hc'
    decide
  · refine ⟨' ' :: val, trim_eq_self (hhead _) fun c' hc' => ?_, ?_⟩
    · rw [iniKv, List.getLast?_append_of_ne_nil _ (by simp)] at hc'
      refine hval.last c' ?_
      obtain ⟨x, xs, rfl⟩ := List.exists_cons_of_ne_nil hnil
      simpa using hc'
    · rw [trim_space, trim_eq_self hval.head hval.last]

/-- The line for a key hands the key and the value on. -/
theorem iniLine_iniKv {key val : List Char} (hkey : IsKey key) (hval : IsValue val) (cfg : FileConfig) (sec : Section) :
    iniLine (cfg, sec) (iniKv key val) = (cfg.handleKv sec key val, sec) := by
  obtain ⟨t, hline, ht⟩ := trim_iniKv hkey hval
  have hstop (s : List Char) : (key ++ ' ' :: '=' :: s).dropWhile (· ≠ '=') = '=' :: s ∧
      (key ++ ' ' :: '=' :: s).takeWhile (· ≠ '=') = key ++ [' '] := by
    have hall : ∀ c ∈ key ++ [' '], c ≠ '=' := by
      intro c hc
      rcases List.mem_append.1 hc with hc | hc
      · exact (hkey.2 c hc).2.1
      · cases List.mem_singleton.1 hc
        decide
    have hsplit : key ++ ' ' :: '=' :: s = (key ++ [' ']) ++ '=' :: s := by rw [List.append_assoc]; rfl
    rw [hsplit]
    constructor
    · rw [List.dropWhile_append_of_pos (by simpa using hall), List.dropWhile_cons_of_neg (by decide)]
    · rw [List.takeWhile_append_of_pos (by simpa using hall), List.takeWhile_cons_of_neg (by decide), List.append_nil]
  obtain ⟨c, cs, hcons⟩ := List.exists_cons_of_ne_nil hkey.1
  have hc := hkey.2 c (hcons ▸ List.mem_cons_self)
  rw [iniLine, hline]
  split
  · rename_i h
    rw [hcons] at h
    cases h
  · rename_i h
    rw [hcons] at h
    cases h
    exact absurd rfl hc.2.2.1
  · rename_i h
    rw [hcons] at h
    cases h
    exact absurd rfl hc.2.2.2.1
  · rename_i h
    rw [hcons] at h
    cases h
    exact absurd rfl hc.2.2.2.2
  · rw [(hstop t).1, (hstop t).2]
    dsimp only
    rw [hkey.trim.2, ht]

/-! ## Rows -/

/-- The keys that `handle_kv` has code of its own for. -/
def special (sec : Section) (key : List Char) : Bool :=
  match sec with
  | .interface => eqIgnoreCase key "DNS".toList
  | .auth => eqIgnoreCase key "User".toList
  | .multipath =>
    eqIgnoreCase key "Redundancy".toList ∨ eqIgnoreCase key "DatagramRedundancy".toList ∨
      eqIgnoreCase key "Path".toList ∨ eqIgnoreCase key "BackupPath".toList
  | .hybrid => eqIgnoreCase key "EgressAllow".toList ∨ eqIgnoreCase key "EgressDeny".toList
  | .reorderRule | .none => true
  | _ => false

theorem handleKv_of_not_special {sec : Section} {key : List Char} (h : special sec key = false) (cfg : FileConfig)
    (val : List Char) : cfg.handleKv sec key val = cfg.scalarKv sec key val := by
  cases sec with
  | interface => exact if_neg (by simpa [special] using h)
  | auth => exact if_neg (by simpa [special] using h)
  | multipath =>
    rw [special, decide_eq_false_iff_not, not_or, not_or, not_or] at h
    rw [FileConfig.handleKv, if_neg (not_or.2 ⟨h.1, h.2.1⟩), if_neg h.2.2.1, if_neg h.2.2.2]
  | hybrid =>
    rw [special, decide_eq_false_iff_not, not_or] at h
    rw [FileConfig.handleKv, if_neg h.1, if_neg h.2]
  | reorderRule => cases h
  | none => cases h
  | _ => rfl

/-- The rows in four parts, each of which is checked on its own. -/
theorem forall_cfgKeys {P : KeyDesc → Prop} (h₀ : ∀ d ∈ cfgKeys.take 15, P d) (h₁ : ∀ d ∈ (cfgKeys.drop 15).take 15, P d)
    (h₂ : ∀ d ∈ (cfgKeys.drop 30).take 15, P d) (h₃ : ∀ d ∈ cfgKeys.drop 45, P d) : ∀ d ∈ cfgKeys, P d := by
  intro d hd
  rw [← List.take_append_drop 15 cfgKeys, List.mem_append] at hd
  rcases hd with hd | hd
  · exact h₀ d hd
  rw [← List.take_append_drop 15 (cfgKeys.drop 15), List.mem_append, List.drop_drop] at hd
  rcases hd with hd | hd
  · exact h₁ d hd
  rw [← List.take_append_drop 15 (cfgKeys.drop 30), List.mem_append, List.drop_drop] at hd
  rcases hd with hd | hd
  · exact h₂ d hd
  · exact h₃ d hd

theorem isKey_cfgKeys : ∀ d ∈ cfgKeys, ∀ key ∈ d.iniKey, IsKey key :=
  forall_cfgKeys (by decide +kernel) (by decide +kernel) (by decide +kernel) (by decide +kernel)

theorem not_special_cfgKeys : ∀ d ∈ cfgKeys, ∀ key ∈ d.iniKey, special d.sec key = false :=
  forall_cfgKeys (by decide +kernel) (by decide +kernel) (by decide +kernel) (by decide +kernel)

theorem find?_own_cfgKeys : ∀ d ∈ cfgKeys, ∀ key ∈ d.iniKey,
    cfgKeys.find? (fun e => e.sec = d.sec ∧ e.iniKey.any (eqIgnoreCase key)) = some d :=
  forall_cfgKeys (by decide +kernel) (by decide +kernel) (by decide +kernel) (by decide +kernel)

/-- A key of the table can be written, and is found at its own row. -/
theorem find?_cfgKeys : ∀ d ∈ cfgKeys, ∀ key ∈ d.iniKey, IsKey key ∧ special d.sec key = false ∧
    cfgKeys.find? (fun e => e.sec = d.sec ∧ e.iniKey.any (eqIgnoreCase key)) = some d := fun d hd key hkey =>
  ⟨isKey_cfgKeys d hd key hkey, not_special_cfgKeys d hd key hkey, find?_own_cfgKeys d hd key hkey⟩

theorem PlainText.isValue (v : PlainText) : IsValue v.chars :=
  ⟨v.head, v.last, fun hc => absurd (v.plain _ hc).2.2 (by decide)⟩

theorem Literal.isValue (l : Literal) : IsValue l.text where
  head := fun _ hc => (l.char (List.mem_of_mem_head? hc)).1
  last := fun _ hc => (l.char (List.mem_of_mem_getLast? hc)).1
  noBreak := fun hc => (l.char hc).2.2.2.2 rfl

theorem isValue_ini (t : KeyType) (v : t.Value) : IsValue (t.ini v) := by
  cases t with
  | str => exact PlainText.isValue v
  | reorderMode => exact PlainText.isValue v
  | hybridTcpMode => exact PlainText.isValue v
  | bool =>
    change Bool at v
    change IsValue (ofBool v)
    cases v <;> exact ⟨by decide, by decide, by decide⟩
  | int => exact Literal.isValue v
  | u32 => exact Literal.isValue v
  | u16 => exact Literal.isValue v
  | u64 => exact Literal.isValue v

namespace Assignment

variable (a : Assignment)

/-- What an INI file does for a row. -/
def applyIni (cfg : Scalars) (d : KeyDesc) : Scalars :=
  match a.value d with
  | some v => cfg.readIni d (d.type.ini v)
  | none => cfg

theorem foldl_rowLines {sec : Section} {ds : List KeyDesc} (hds : ∀ d ∈ ds, d ∈ cfgKeys ∧ d.sec = sec)
    (cfg : FileConfig) :
    (ds.filterMap a.rowLine).foldl iniLine (cfg, sec) =
      ({ cfg with toScalars := ds.foldl a.applyIni cfg.toScalars }, sec) := by
  induction ds generalizing cfg with
  | nil => rfl
  | cons d ds ih =>
    obtain ⟨⟨hd, rfl⟩, hds⟩ := List.forall_mem_cons.1 hds
    rw [List.foldl_cons]
    cases hv : a.value d with
    | none =>
      have hline : a.rowLine d = none := by
        rw [rowLine, hv]
        cases d.iniKey <;> rfl
      rw [List.filterMap_cons_none hline, applyIni, hv]
      exact ih hds cfg
    | some v =>
      obtain ⟨key, hkey⟩ := Option.isSome_iff_exists.1 (a.shared d (by rw [hv]; rfl)).1
      obtain ⟨hiskey, hspecial, hfind⟩ := find?_cfgKeys d hd key hkey
      have hline : a.rowLine d = some (iniKv key (d.type.ini v)) := by rw [rowLine, hkey, hv]; rfl
      have happly : cfg.handleKv d.sec key (d.type.ini v) =
          { cfg with toScalars := a.applyIni cfg.toScalars d } := by
        rw [handleKv_of_not_special hspecial, FileConfig.scalarKv, Scalars.cfgKeyApplyIni, hfind, applyIni, hv]
        rfl
      rw [List.filterMap_cons_some hline, List.foldl_cons, iniLine_iniKv hiskey (isValue_ini _ _), happly]
      exact ih hds _

end Assignment

/-! ## Lists -/

/-- The lines for one key, if each line adds to a list of the configuration what is read from
    its value. -/
theorem foldl_iniKvs {β : Type} (sec : Section) (key : List Char) (hkey : IsKey key)
    (get : FileConfig → List β) (set : FileConfig → List β → FileConfig) (hget : ∀ cfg l, get (set cfg l) = l)
    (hset : ∀ cfg l l', set (set cfg l) l' = set cfg l') (hself : ∀ cfg, set cfg (get cfg) = cfg)
    (parse : List Char → Option β) (max : Nat)
    (hstep : ∀ cfg val, FileConfig.handleKv cfg sec key val =
      (parse val).elim cfg fun x => set cfg (pushCapped max (get cfg) x))
    (l : List PlainText) (cfg : FileConfig) :
    (l.map fun v => iniKv key v.chars).foldl iniLine (cfg, sec) =
      (set cfg (((l.map (·.chars)).filterMap parse).foldl (pushCapped max) (get cfg)), sec) := by
  induction l generalizing cfg with
  | nil => exact congrArg (·, sec) (hself cfg).symm
  | cons v l ih =>
    rw [List.map_cons, List.foldl_cons, iniLine_iniKv hkey v.isValue, hstep, List.map_cons]
    cases hv : parse v.chars with
    | none =>
      rw [List.filterMap_cons_none hv]
      exact ih cfg
    | some x =>
      rw [List.filterMap_cons_some hv, List.foldl_cons]
      refine (ih (set cfg (pushCapped max (get cfg) x))).trans ?_
      rw [hget, hset]

/-- A list that is filled one by one is cut where it is full. -/
theorem foldl_pushCapped {α : Type} {max : Nat} {l : List α} (hl : l.length ≤ max) (l' : List α) :
    l'.foldl (pushCapped max) l = (l ++ l').take max := by
  induction l' generalizing l with
  | nil => rw [List.append_nil, List.take_of_length_le hl]; rfl
  | cons x l' ih =>
    rw [List.foldl_cons, pushCapped]
    split_ifs with hlt
    · rw [ih (by rw [List.length_append]; exact hlt), List.append_assoc, List.singleton_append]
    · have heq : l.length = max := Nat.le_antisymm hl (Nat.not_lt.1 hlt)
      rw [ih hl, ← heq, List.take_left, List.take_left]

/-- The texts of a list. -/
def texts (l : Option (List PlainText)) : List (List Char) := (l.getD []).map (·.chars)

/-- What is written for a list of DNS servers. -/
def dnsText (l : List Entry) : List Char := [',', ' '].intercalate (l.map (·.chars))

/-- What is written behind the first server. -/
def dnsTail : List Entry → List Char
  | [] => []
  | e :: l => ',' :: ' ' :: dnsText (e :: l)

theorem dnsText_cons (e : Entry) (l : List Entry) : dnsText (e :: l) = e.chars ++ dnsTail l := by
  cases l with
  | nil => rw [dnsText, List.map_singleton, List.intercalate_singleton, dnsTail, List.append_nil]
  | cons e' l =>
    rw [dnsTail, dnsText, dnsText, List.map_cons, List.map_cons, List.intercalate_cons_cons, List.append_assoc]
    rfl

theorem isValue_dnsText (l : List Entry) : IsValue (dnsText l) := by
  induction l with
  | nil => exact PlainText.isValue ⟨[], by decide, by decide, by decide⟩
  | cons e l ih =>
    obtain ⟨c, cs, hc⟩ := List.exists_cons_of_ne_nil e.ne_nil
    rw [dnsText_cons]
    refine ⟨fun c' hc' => ?_, ?_, ?_⟩
    · rw [hc, List.cons_append] at hc'
      exact e.head c' (by rw [hc]; exact hc')
    · cases l with
      | nil =>
        rw [dnsTail, List.append_nil]
        exact e.last
      | cons e' l =>
        -- the last entry is not empty
        obtain ⟨x, xs, hx⟩ : ∃ x xs, dnsText (e' :: l) = x :: xs := by
          obtain ⟨x, xs, hx⟩ := List.exists_cons_of_ne_nil e'.ne_nil
          rw [dnsText_cons, hx]
          exact ⟨x, _, rfl⟩
        intro c' hc'
        rw [dnsTail, List.getLast?_append_of_ne_nil _ (by simp), hx] at hc'
        refine ih.last c' ?_
        rw [hx]
        simpa using hc'
    · cases l with
      | nil =>
        rw [dnsTail, List.append_nil]
        exact e.isValue.noBreak
      | cons e' l =>
        rw [dnsTail, List.mem_append, List.mem_cons, List.mem_cons]
        have hbreak := e.isValue.noBreak
        have hrest := ih.noBreak
        simp [hbreak, hrest]

namespace Assignment

variable (a : Assignment)

/-- What the lists of a section do to the configuration. -/
def applyLists (cfg : FileConfig) : Section → FileConfig
  | .interface =>
    match a.dns with
    | some l => { cfg with dnsServers := parseDnsList (dnsText l) }
    | none => cfg
  | .multipath =>
    { cfg with
      paths := ((texts a.paths).map (·.take 31)).foldl (pushCapped maxPaths) cfg.paths
      backupPaths := ((texts a.backupPaths).map (·.take 31)).foldl (pushCapped maxPaths) cfg.backupPaths }
  | .hybrid =>
    { cfg with
      egressAllow := ((texts a.egressAllow).filterMap parseCidrV4).foldl (pushCapped egressAclMax) cfg.egressAllow
      egressDeny := ((texts a.egressDeny).filterMap parseCidrV4).foldl (pushCapped egressAclMax) cfg.egressDeny }
  | _ => cfg

theorem handleKv_egressAllow (cfg : FileConfig) (val : List Char) :
    cfg.handleKv .hybrid "EgressAllow".toList val =
      (parseCidrV4 val).elim cfg fun x => { cfg with egressAllow := pushCapped egressAclMax cfg.egressAllow x } := by
  rw [FileConfig.handleKv, if_pos (by decide)]
  cases parseCidrV4 val <;> rfl

theorem handleKv_egressDeny (cfg : FileConfig) (val : List Char) :
    cfg.handleKv .hybrid "EgressDeny".toList val =
      (parseCidrV4 val).elim cfg fun x => { cfg with egressDeny := pushCapped egressAclMax cfg.egressDeny x } := by
  rw [FileConfig.handleKv, if_neg (by decide), if_pos (by decide)]
  cases parseCidrV4 val <;> rfl

theorem foldl_listLines (cfg : FileConfig) (sec : Section) :
    (a.listLines sec).foldl iniLine (cfg, sec) = (a.applyLists cfg sec, sec) := by
  cases sec with
  | interface =>
    rw [listLines, applyLists]
    cases hdns : a.dns with
    | none => rfl
    | some l => exact iniLine_iniKv (by decide) (isValue_dnsText l) _ _
  | multipath =>
    rw [listLines, List.foldl_append,
      foldl_iniKvs .multipath "Path".toList (by decide) (·.paths) (fun cfg paths => { cfg with paths })
        (fun _ _ => rfl) (fun _ _ _ => rfl) (fun _ => rfl) (fun val => some (val.take 31)) maxPaths fun _ _ => rfl,
      foldl_iniKvs .multipath "BackupPath".toList (by decide) (·.backupPaths)
        (fun cfg backupPaths => { cfg with backupPaths }) (fun _ _ => rfl) (fun _ _ _ => rfl) (fun _ => rfl)
        (fun val => some (val.take 31)) maxPaths fun _ _ => rfl,
      List.filterMap_eq_map']
    rfl
  | hybrid =>
    rw [listLines, List.foldl_append,
      foldl_iniKvs .hybrid "EgressAllow".toList (by decide) (·.egressAllow)
        (fun cfg egressAllow => { cfg with egressAllow }) (fun _ _ => rfl) (fun _ _ _ => rfl) (fun _ => rfl)
        parseCidrV4 egressAclMax handleKv_egressAllow,
      foldl_iniKvs .hybrid "EgressDeny".toList (by decide) (·.egressDeny)
        (fun cfg egressDeny => { cfg with egressDeny }) (fun _ _ => rfl) (fun _ _ _ => rfl) (fun _ => rfl)
        parseCidrV4 egressAclMax handleKv_egressDeny]
    rfl
  | _ => rfl

/-! ## Sections -/

theorem iniLine_header {sec : Section} (h : sec ∈ sections) (st : FileConfig × Section) :
    iniLine st (header sec) = (st.1, sec) := by
  cases sec with
  | none => exact absurd h (by decide)
  | reorderRule => exact absurd h (by decide)
  | _ => rfl

/-- The lists of a section have nothing to do with the rows. -/
theorem applyLists_toScalars (cfg : FileConfig) (toScalars : Scalars) (sec : Section) :
    a.applyLists { cfg with toScalars } sec = { a.applyLists cfg sec with toScalars } := by
  cases sec with
  | interface =>
    rw [applyLists, applyLists]
    cases a.dns <;> rfl
  | _ => rfl

theorem foldl_sectionLines {sec : Section} (h : sec ∈ sections) (st : FileConfig × Section) :
    (a.sectionLines sec).foldl iniLine st =
      ({ a.applyLists st.1 sec with toScalars := (rowsOf sec).foldl a.applyIni st.1.toScalars }, sec) := by
  have hrows : ∀ d ∈ rowsOf sec, d ∈ cfgKeys ∧ d.sec = sec := fun d hd =>
    ⟨List.mem_of_mem_filter hd, of_decide_eq_true (List.mem_filter.1 hd).2⟩
  rw [sectionLines, List.foldl_cons, iniLine_header h, List.foldl_append, a.foldl_rowLines hrows, foldl_listLines,
    applyLists_toScalars]

/-- The blocks of the sections: all rows, and all lists. -/
theorem foldl_sections {secs : List Section} (h : ∀ sec ∈ secs, sec ∈ sections) (st : FileConfig × Section) :
    ((secs.flatMap a.sectionLines).foldl iniLine st).1 =
      { secs.foldl a.applyLists st.1 with
        toScalars := (secs.flatMap rowsOf).foldl a.applyIni st.1.toScalars } := by
  induction secs generalizing st with
  | nil => rfl
  | cons sec secs ih =>
    obtain ⟨hsec, hsecs⟩ := List.forall_mem_cons.1 h
    have hcommute (cfg : FileConfig) (toScalars : Scalars) :
        secs.foldl a.applyLists { cfg with toScalars } = { secs.foldl a.applyLists cfg with toScalars } :=
      List.foldl_hom (fun cfg => { cfg with toScalars }) fun cfg sec => a.applyLists_toScalars cfg toScalars sec
    rw [List.flatMap_cons, List.foldl_append, a.foldl_sectionLines hsec, ih hsecs, List.flatMap_cons, List.foldl_append,
      List.foldl_cons, hcommute]

end Assignment

/-! ## Reorder rules -/

/-- A rule before its keys are read. -/
def newRule : Rule where
  proto := 17
  port := 0
  profile := .quicBulk
  explicitWaitMs := 0
  explicitCap := 0
  resolvedWaitMs := 0
  resolvedCap := 0

/-- The rule that is read from its block. -/
def RuleText.fromIni (r : RuleText) : Rule := r.kvs.foldl (fun rule kv => ruleKv rule kv.1 kv.2) newRule

theorem RuleText.isKey (r : RuleText) : ∀ kv ∈ r.kvs, IsKey kv.1 ∧ IsValue kv.2 := by
  intro kv hkv
  simp only [kvs, List.mem_append, Option.mem_toList, Option.map_eq_some_iff] at hkv
  rcases hkv with (((⟨v, -, rfl⟩ | ⟨v, -, rfl⟩) | ⟨v, -, rfl⟩) | ⟨v, -, rfl⟩) | ⟨v, -, rfl⟩
  · exact ⟨(by decide : IsKey "Proto".toList), v.isValue⟩
  · exact ⟨(by decide : IsKey "Port".toList), v.isValue⟩
  · exact ⟨(by decide : IsKey "Profile".toList), v.isValue⟩
  · exact ⟨(by decide : IsKey "MaxWaitMs".toList), v.isValue⟩
  · exact ⟨(by decide : IsKey "CapPackets".toList), v.isValue⟩

/-- The keys of a rule change the last rule. -/
theorem foldl_ruleKvs {kvs : List (List Char × List Char)} (hkvs : ∀ kv ∈ kvs, IsKey kv.1 ∧ IsValue kv.2)
    (cfg : FileConfig) (rules : List Rule) (rule : Rule) :
    (kvs.map fun kv => iniKv kv.1 kv.2).foldl iniLine ({ cfg with rules := rules ++ [rule] }, .reorderRule) =
      ({ cfg with rules := rules ++ [kvs.foldl (fun rule kv => ruleKv rule kv.1 kv.2) rule] }, .reorderRule) := by
  induction kvs generalizing rule with
  | nil => rfl
  | cons kv kvs ih =>
    obtain ⟨hkv, hkvs⟩ := List.forall_mem_cons.1 hkvs
    have hlast : (rules ++ [rule]).modify ((rules ++ [rule]).length - 1) (ruleKv · kv.1 kv.2) =
        rules ++ [ruleKv rule kv.1 kv.2] := by
      rw [List.length_append, List.length_singleton, Nat.add_sub_cancel, List.modify_eq_take_cons_drop (by simp)]
      simp
    rw [List.map_cons, List.foldl_cons, iniLine_iniKv hkv.1 hkv.2]
    refine Eq.trans ?_ (ih hkvs _)
    rw [FileConfig.handleKv, hlast]

/-- The keys of a rule that does not fit are outside any section. -/
theorem foldl_none {kvs : List (List Char × List Char)} (hkvs : ∀ kv ∈ kvs, IsKey kv.1 ∧ IsValue kv.2)
    (cfg : FileConfig) : (kvs.map fun kv => iniKv kv.1 kv.2).foldl iniLine (cfg, .none) = (cfg, .none) := by
  induction kvs with
  | nil => rfl
  | cons kv kvs ih =>
    obtain ⟨hkv, hkvs⟩ := List.forall_mem_cons.1 hkvs
    rw [List.map_cons, List.foldl_cons, iniLine_iniKv hkv.1 hkv.2]
    exact ih hkvs

theorem iniLine_ruleHeader (st : FileConfig × Section) :
    iniLine st (header .reorderRule) =
      match reorderRuleBegin st.1.rules with
      | some rules => ({ st.1 with rules }, .reorderRule)
      | none => (st.1, .none) := rfl

theorem foldl_ruleLines (r : RuleText) (st : FileConfig × Section) :
    (r.iniLines.foldl iniLine st).1 = { st.1 with rules := pushCapped maxRules st.1.rules r.fromIni } := by
  rw [RuleText.iniLines, List.foldl_cons, iniLine_ruleHeader, reorderRuleBegin, pushCapped]
  by_cases hfull : maxRules ≤ st.1.rules.length
  · rw [if_pos hfull, if_neg (Nat.not_lt.2 hfull)]
    dsimp only
    rw [foldl_none r.isKey]
  · rw [if_neg hfull, if_pos (Nat.not_le.1 hfull)]
    dsimp only
    exact congrArg Prod.fst (foldl_ruleKvs r.isKey st.1 _ newRule)

/-- The blocks of the rules. -/
theorem foldl_rules (rs : List RuleText) (st : FileConfig × Section) :
    ((rs.flatMap RuleText.iniLines).foldl iniLine st).1 =
      { st.1 with rules := (rs.map RuleText.fromIni).foldl (pushCapped maxRules) st.1.rules } := by
  induction rs generalizing st with
  | nil => rfl
  | cons r rs ih =>
    rw [List.flatMap_cons, List.foldl_append, ih, foldl_ruleLines, List.map_cons, List.foldl_cons]

/-! ## The file -/

theorem rowsOf_sections : sections.flatMap rowsOf = cfgKeys := rfl

/-- A line of a file. -/
def IsLine (line : List Char) : Prop := line ≠ [] ∧ '\n' ∉ line

instance (line : List Char) : Decidable (IsLine line) := inferInstanceAs (Decidable (_ ∧ _))

theorem isLine_header (sec : Section) : IsLine (header sec) := by cases sec <;> decide

theorem isLine_iniKv {key val : List Char} (hkey : IsKey key) (hval : IsValue val) : IsLine (iniKv key val) := by
  have hbreak : '\n' ∉ key := fun hc => absurd (hkey.2 _ hc).1 (by decide)
  refine ⟨?_, ?_⟩
  · rw [iniKv]
    simp
  · rw [iniKv]
    simp [hbreak, hval.noBreak]

namespace Assignment

variable (a : Assignment)

theorem isLine_listLines (sec : Section) : ∀ line ∈ a.listLines sec, IsLine line := by
  have hmap {key : List Char} (hkey : IsKey key) (l : List PlainText) :
      ∀ line ∈ l.map fun v => iniKv key v.chars, IsLine line := by
    intro line hline
    obtain ⟨v, -, rfl⟩ := List.mem_map.1 hline
    exact isLine_iniKv hkey v.isValue
  intro line hline
  cases sec with
  | interface =>
    obtain ⟨l, -, rfl⟩ := Option.map_eq_some_iff.1 (Option.mem_toList.1 hline)
    exact isLine_iniKv (by decide) (isValue_dnsText l)
  | multipath =>
    rcases List.mem_append.1 hline with hline | hline
    · exact hmap (by decide) _ line hline
    · exact hmap (by decide) _ line hline
  | hybrid =>
    rcases List.mem_append.1 hline with hline | hline
    · exact hmap (by decide) _ line hline
    · exact hmap (by decide) _ line hline
  | _ => cases hline

theorem isLine_iniLines : ∀ line ∈ a.iniLines, IsLine line := by
  intro line hline
  rcases List.mem_append.1 hline with hline | hline
  · obtain ⟨sec, -, hline⟩ := List.mem_flatMap.1 hline
    rcases List.mem_cons.1 hline with rfl | hline
    · exact isLine_header sec
    rcases List.mem_append.1 hline with hline | hline
    · obtain ⟨d, hd, hrow⟩ := List.mem_filterMap.1 hline
      obtain ⟨key, hkey, hline⟩ := Option.bind_eq_some_iff.1 hrow
      obtain ⟨v, -, rfl⟩ := Option.map_eq_some_iff.1 hline
      exact isLine_iniKv (find?_cfgKeys d (List.mem_of_mem_filter hd) key hkey).1 (isValue_ini _ _)
    · exact a.isLine_listLines sec line hline
  · obtain ⟨r, -, hline⟩ := List.mem_flatMap.1 hline
    rcases List.mem_cons.1 hline with rfl | hline
    · exact isLine_header _
    · obtain ⟨kv, hkv, rfl⟩ := List.mem_map.1 hline
      exact isLine_iniKv (r.isKey kv hkv).1 (r.isKey kv hkv).2

/-- What an INI file makes of the configuration. -/
def fromIni (cfg : FileConfig) : FileConfig :=
  { cfg with
    toScalars := cfgKeys.foldl a.applyIni cfg.toScalars
    dnsServers := (a.dns.map fun l => parseDnsList (dnsText l)).getD cfg.dnsServers
    paths := ((texts a.paths).map (·.take 31)).foldl (pushCapped maxPaths) cfg.paths
    backupPaths := ((texts a.backupPaths).map (·.take 31)).foldl (pushCapped maxPaths) cfg.backupPaths
    rules := ((a.rules.getD []).map RuleText.fromIni).foldl (pushCapped maxRules) cfg.rules
    egressAllow := ((texts a.egressAllow).filterMap parseCidrV4).foldl (pushCapped egressAclMax) cfg.egressAllow
    egressDeny := ((texts a.egressDeny).filterMap parseCidrV4).foldl (pushCapped egressAclMax) cfg.egressDeny }

theorem foldl_applyLists (cfg : FileConfig) :
    sections.foldl a.applyLists cfg =
      { a.fromIni cfg with toScalars := cfg.toScalars, rules := cfg.rules } := by
  rw [sections, fromIni]
  simp only [List.foldl_cons, List.foldl_nil, applyLists]
  cases a.dns <;> rfl

theorem loadIni_ini (cfg : FileConfig) : loadIni cfg a.ini = a.fromIni cfg := by
  have hlines : strtok (· = '\n') a.ini = a.iniLines := by
    refine strtok_flatMap (by decide) fun line hline => ?_
    obtain ⟨hne, hbreak⟩ := a.isLine_iniLines line hline
    exact ⟨hne, fun c hc => decide_eq_false fun heq => hbreak (heq ▸ hc)⟩
  rw [loadIni, hlines, iniLines, List.foldl_append, foldl_rules, a.foldl_sections (fun _ h => h), rowsOf_sections,
    foldl_applyLists]
  rfl

/-- The file is no JSON file. -/
theorem configLoad_ini (cfg : FileConfig) : configLoad cfg a.ini = (a.fromIni cfg, true) := by
  have hhead : ∃ rest, a.ini = '[' :: rest := ⟨_, rfl⟩
  obtain ⟨rest, hrest⟩ := hhead
  have hskip : (skipWs a.ini).head? ≠ some '{' := by
    rw [hrest, skipWs, List.dropWhile_cons_of_neg (by decide)]
    simp
  rw [configLoad, if_neg hskip, loadIni_ini]

end Assignment

end Mqvpn.ConfigFile
