import Mqvpn.ConfigFile.Json
import Mqvpn.Lib.Runs
import Mqvpn.Server.UserTable

/-!
# The configuration builder

The users of `mqvpn_config_t`: the calls of `mqvpn_config.c` that add, remove and change them,
and `mqvpn_config_load_json`, which reads them from a text. The rows are those of a
`UserTable`. Unlike the server, the builder leaves the address of a row that is no longer used
where it is, so that a new row in its place has this address.

* `isMap_of_along`: if no row is added where an address was left, no text is cut, and no load
  ends within the array of users, the table is the map that the calls denote;
* `not_isMap`: a user who is added after a removal may have an address that was never given.
-/

namespace Mqvpn.Builder

open Json Server UserTable

/-! ## Users -/

section

variable (t : UserTable)

/-- `mqvpn_config_add_user` -/
def addUser (username key : List Char) : UserTable × UserCode := t.addUser username key

/-- The rows without row `i`. -/
def removeRow (i : Nat) : UserTable where
  userNames := shiftDown t.userNames i t.nUsers
  userKeys := shiftDown t.userKeys i t.nUsers
  userFixedIps := shiftDown t.userFixedIps i t.nUsers
  nUsers := t.nUsers - 1

/-- `mqvpn_config_remove_user` -/
def removeUser (username : List Char) : UserTable × UserCode :=
  if username = [] then (t, .invalidArg)
  else
    match t.find username with
    | none => (t, .invalidArg)
    | some i => (removeRow t i, .ok)

/-- `mqvpn_config_set_user_fixed_ip` -/
def setUserFixedIp (username ip : List Char) : UserTable × UserCode :=
  if username = [] then (t, .invalidArg)
  else
    match t.find username with
    | none => (t, .invalidArg)
    | some i => (t.setIp i ip, .ok)

end

/-! ## Reading users -/

/-- The sizes of the buffers of `json_read_users`. -/
structure Buffers where
  pair : Nat
  uname : Nat
  key : Nat
  fixedIp : Nat

def buffers : Buffers := ⟨320, 64, 256, 20⟩

/-- Buffers of one size. -/
def Buffers.ofSize (n : Nat) : Buffers := ⟨n, n, n, n⟩

/-- An entry of `"users"`; without an address, its text is empty. -/
structure Entry where
  uname : List Char
  key : List Char
  fixedIp : List Char

/-- An entry that is a string. -/
def pairEntry (b : Buffers) (s : List Char) : Option Entry :=
  let pair := (unescape s).take (b.pair - 1)
  match pair.dropWhile (· ≠ ':') with
  | [] => none
  | _ :: key => some ⟨(pair.takeWhile (· ≠ ':')).take (b.uname - 1), key.take (b.key - 1), []⟩

/-- An entry that is an object, with the part of the text up to its brace. -/
def objectEntry (b : Buffers) (obj : List Char) : Option Entry :=
  if 512 ≤ obj.length then none
  else
    match (findKey "name".toList obj).bind (readString · b.uname), (findKey "key".toList obj).bind (readString · b.key) with
    | some uname, some key => some ⟨uname, key, ((findKey "fixed_ip".toList obj).map (stringBuf · b.fixedIp)).getD []⟩
    | _, _ => none

/-- The entry at the front of a text, and what follows it. -/
def entry (b : Buffers) (p : List Char) : Option (Entry × List Char) :=
  match p with
  | '"' :: cs => (literal cs).bind fun (s, rest) => (pairEntry b s).map fun e => (e, rest)
  | '{' :: cs =>
    match cs.dropWhile (· ≠ '}') with
    | [] => none
    | _ :: rest => (objectEntry b ('{' :: cs.takeWhile (· ≠ '}') ++ ['}'])).map fun e => (e, rest)
  | _ => none

/-- An entry is a string, or an object up to its first brace. -/
theorem entry_cases {b : Buffers} {p rest : List Char} {e : Entry} (h : entry b p = some (e, rest)) :
    (∃ cs s, p = '"' :: cs ∧ literal cs = some (s, rest) ∧ pairEntry b s = some e) ∨
      ∃ cs c, p = '{' :: cs ∧ cs.dropWhile (· ≠ '}') = c :: rest ∧
        objectEntry b ('{' :: cs.takeWhile (· ≠ '}') ++ ['}']) = some e := by
  unfold entry at h
  split at h
  · rename_i cs
    obtain ⟨⟨s, rest'⟩, hs, h⟩ := Option.bind_eq_some_iff.1 h
    obtain ⟨e', he, heq⟩ := Option.map_eq_some_iff.1 h
    cases heq
    exact .inl ⟨cs, s, rfl, hs, he⟩
  · rename_i cs
    split at h
    · cases h
    · rename_i c rest' hcs
      obtain ⟨e', he, heq⟩ := Option.map_eq_some_iff.1 h
      cases heq
      exact .inr ⟨cs, c, rfl, hcs, he⟩
  · cases h

theorem length_of_entry {b : Buffers} {p rest : List Char} {e : Entry} (h : entry b p = some (e, rest)) :
    rest.length < p.length := by
  obtain ⟨cs, s, rfl, hs, -⟩ | ⟨cs, c, rfl, hcs, -⟩ := entry_cases h
  · exact (literal_length hs).trans (Nat.lt_succ_self _)
  · have hlength := (List.dropWhile_sublist (· ≠ '}') (l := cs)).length_le
    rw [hcs, List.length_cons] at hlength
    exact hlength.trans (Nat.le_succ _)

section

variable (t : UserTable)

/-- The calls for an entry, up to the first one that fails. -/
def addEntry (e : Entry) : UserTable × UserCode :=
  match addUser t e.uname e.key with
  | (t, .ok) => if e.fixedIp = [] then (t, .ok) else setUserFixedIp t e.uname e.fixedIp
  | (t, code) => (t, code)

end

/-- The loop of `json_read_users`. -/
def usersLoop (t : UserTable) (p : List Char) : UserTable × UserCode :=
  match p with
  | ']' :: _ => (t, .ok)
  | p =>
    match _h : entry buffers p with
    | none => (t, .invalidArg)
    | some (e, rest) =>
      if (addEntry t e).2 ≠ .ok then ((addEntry t e).1, .invalidArg)
      else
        match _hws : skipWs rest with
        | ',' :: q => usersLoop (addEntry t e).1 (skipWs q)
        | ']' :: _ => ((addEntry t e).1, .ok)
        | _ => ((addEntry t e).1, .invalidArg)
termination_by p.length
decreasing_by
  have := length_of_entry _h
  have hle := length_skipWs_le rest
  rw [_hws, List.length_cons] at hle
  have := length_skipWs_le q
  omega

/-- `json_read_users` -/
def readUsers (t : UserTable) (p : List Char) : UserTable × UserCode :=
  match p with
  | '[' :: cs => usersLoop { t with nUsers := 0 } (skipWs cs)
  | _ => (t, .invalidArg)

/-! ## Reading a text -/

/-- `parse_scheduler_name` -/
def schedulerNames : List (List Char) :=
  ["minrtt".toList, "wlb".toList, "backup".toList, "wlb_udp_pin".toList, "backup_fec".toList, "rap".toList,
    "wrtt".toList]

/-- `parse_cc_name` -/
def ccNames : List (List Char) :=
  ["bbr2".toList, "bbr".toList, "cubic".toList, "new_reno".toList, "copa".toList, "unlimited".toList, "none".toList]

/-- A name, if it is given as a string, is one of these. -/
def nameOk (jsonText key : List Char) (names : List (List Char)) : Bool :=
  ((findKey key jsonText).bind (readString · 256)).all names.contains

/-- An MTU that is given is zero or within its bounds. -/
def mtuOk (jsonText key : List Char) : Bool :=
  (findKey key jsonText).all fun v => (readIntStrict v).any fun iv => iv = 0 ∨ (1280 ≤ iv ∧ iv ≤ 9000)

/-- The settings that `mqvpn_config_load_json` refuses when they are not good, all of which it
    reads before the users. -/
def settingsOk (jsonText : List Char) : Bool :=
  nameOk jsonText "scheduler".toList schedulerNames && nameOk jsonText "cc".toList ccNames &&
    ((findKey "init_max_path_id".toList jsonText).all fun v => (readU64Strict v).any fun uv => uv ≤ 0xffffffff) &&
    mtuOk jsonText "mtu".toList && mtuOk jsonText "tun_mtu".toList

/-- `mqvpn_config_load_json`, as far as it is about the users. -/
def loadJson (t : UserTable) (jsonText : List Char) : UserTable × UserCode :=
  if settingsOk jsonText = false then (t, .invalidArg)
  else
    match findKey "users".toList jsonText with
    | none => (t, .ok)
    | some v => readUsers t v

/-! ## Calls -/

/-- A call that is about users. -/
inductive Call where
  | addUser (username key : List Char)
  | removeUser (username : List Char)
  | setUserFixedIp (username ip : List Char)
  | loadJson (jsonText : List Char)

def call (t : UserTable) : Call → UserTable × UserCode
  | .addUser username key => addUser t username key
  | .removeUser username => removeUser t username
  | .setUserFixedIp username ip => setUserFixedIp t username ip
  | .loadJson jsonText => loadJson t jsonText

/-- The table of a new configuration after these calls. -/
def run (calls : List Call) : UserTable := calls.foldl (fun t c => (call t c).1) UserTable.empty

/-! ## The map -/

/-- Users by their names, with their keys and addresses. -/
abbrev Users := List Char → Option (List Char × List Char)

/-- The entries of an array of users, from after its bracket. -/
def entries (b : Buffers) (p : List Char) : Option (List Entry) :=
  match p with
  | ']' :: _ => some []
  | p =>
    match _h : entry b p with
    | none => none
    | some (e, rest) =>
      match _hws : skipWs rest with
      | ',' :: q => (entries b (skipWs q)).map (e :: ·)
      | ']' :: _ => some [e]
      | _ => none
termination_by p.length
decreasing_by
  have := length_of_entry _h
  have hle := length_skipWs_le rest
  rw [_hws, List.length_cons] at hle
  have := length_skipWs_le q
  omega

/-- The users that a text lists, with all of their strings. -/
def listed (jsonText : List Char) : Option (List Entry) :=
  match findKey "users".toList jsonText with
  | some ('[' :: cs) => entries (.ofSize (jsonText.length + 1)) (skipWs cs)
  | _ => none

/-- A user who is entered gets the key, and the address if there is one. -/
def enter (m : Users) (e : Entry) : Users :=
  Function.update m e.uname (some (e.key, if e.fixedIp = [] then (m e.uname).elim [] Prod.snd else e.fixedIp))

/-- What a call that succeeds does to the map. -/
def effect (m : Users) : Call → Users
  | .addUser username key => Function.update m username (some (key, (m username).elim [] Prod.snd))
  | .removeUser username => Function.update m username none
  | .setUserFixedIp username ip => Function.update m username ((m username).map fun v => (v.1, ip))
  | .loadJson jsonText => ((listed jsonText).map fun es => es.foldl enter fun _ => none).getD m

/-- The table after a call, with the map that the calls that succeeded denote. -/
def track (s : UserTable × Users) (c : Call) : UserTable × Users :=
  ((call s.1 c).1, if (call s.1 c).2 = .ok then effect s.2 c else s.2)

/-- The map that calls denote. -/
def denoted (calls : List Call) : Users := (calls.foldl track (UserTable.empty, fun _ => none)).2

/-- The user whom a call is about, if it is about one. -/
def Call.user : Call → Option (List Char)
  | .addUser username _ | .removeUser username | .setUserFixedIp username _ => some username
  | .loadJson _ => none

/-- The table after these calls is the map that they denote. -/
structure IsMap (calls : List Call) : Prop where
  names : (run calls).Distinct
  lookup : (run calls).lookup = denoted calls
  /-- The last call has changed no row but that of its user. -/
  others : ∀ before c username name, calls = before ++ [c] → c.user = some username → name ≠ username →
    (run calls).lookup name = (run before).lookup name

/-! ## Conditions -/

section

variable (t : UserTable)

/-- No address is left where the next row will be. -/
def Clear : Prop := t.userFixedIps t.nUsers = []

instance : Decidable (Clear t) := inferInstanceAs (Decidable (_ = _))

/-- An entry that can be added, and leaves no old address in its row. -/
def FitsEntry (e : Entry) : Prop :=
  e.uname ≠ [] ∧ e.key ≠ [] ∧ ValidName e.uname ∧
    (t.find e.uname = none → t.nUsers < maxUsers ∧ (e.fixedIp = [] → Clear t))

/-- A call that cuts no text, leaves no old address in a row, and does not fail in the array of
    users. -/
def Fits : Call → Prop
  | .addUser username key =>
    t.Fits (.add username key) ∧
      (username ≠ [] → key ≠ [] → ValidName username → t.find username = none → t.nUsers < maxUsers → Clear t)
  | .removeUser _ => True
  | .setUserFixedIp username ip => username ≠ [] → (t.find username).isSome = true → ip.length < 20
  | .loadJson jsonText =>
    settingsOk jsonText = true → ∀ cs, findKey "users".toList jsonText = some ('[' :: cs) →
      ∃ es, entries buffers (skipWs cs) = some es ∧ listed jsonText = some es ∧
        Runs.Along (fun t e => (addEntry t e).1) FitsEntry { t with nUsers := 0 } es

end

/-! ## Steps -/

section

variable {t : UserTable} {e : Entry}

/-- What is read fits in the arrays of the table. -/
theorem entry_lengths {p rest : List Char} (h : entry buffers p = some (e, rest)) :
    e.uname.length < 64 ∧ e.key.length < 256 ∧ e.fixedIp.length < 20 := by
  have htake (n : Nat) (s : List Char) : (s.take n).length < n + 1 := Nat.lt_succ_of_le (List.length_take_le n s)
  obtain ⟨cs, s, -, -, he⟩ | ⟨cs, c, -, -, he⟩ := entry_cases h
  · unfold pairEntry at he
    dsimp only at he
    split at he
    · cases he
    · cases he
      exact ⟨htake 63 _, htake 255 _, Nat.succ_pos _⟩
  · unfold objectEntry at he
    split_ifs at he
    split at he
    · rename_i hname hkey
      cases he
      obtain ⟨p, -, hname⟩ := Option.bind_eq_some_iff.1 hname
      obtain ⟨q, -, hkey⟩ := Option.bind_eq_some_iff.1 hkey
      refine ⟨Nat.lt_succ_of_le (length_readString hname), Nat.lt_succ_of_le (length_readString hkey), ?_⟩
      cases findKey "fixed_ip".toList ('{' :: cs.takeWhile (· ≠ '}') ++ ['}']) with
      | none => exact Nat.succ_pos _
      | some v => exact Nat.lt_succ_of_le (length_stringBuf v 20)
    · cases he

/-- A call fails and changes nothing, or it has its effect on the map. -/
def Done (t : UserTable) (c : Call) : Prop :=
  ((call t c).2 ≠ .ok ∧ (call t c).1 = t) ∨
    (call t c).2 = .ok ∧ (call t c).1.Distinct ∧ (call t c).1.lookup = effect t.lookup c

theorem done_addUser (h : t.Distinct) {username key : List Char} (hfits : Fits t (.addUser username key)) :
    Done t (.addUser username key) := by
  rcases h.addUser hfits.1 with hfailed | ⟨hok, hnames, hlookup⟩
  · exact .inl hfailed
  · refine .inr ⟨hok, hnames, hlookup.trans ?_⟩
    rw [effect]
    cases hfind : t.find username with
    | some i => rw [UserTable.lookup, hfind]; rfl
    | none =>
      -- the row is new, and so its place was clear
      have hroom : t.nUsers < maxUsers := by
        by_contra hroom
        rw [UserTable.addUser, hfind, if_pos (Nat.not_lt.1 hroom)] at hok
        split_ifs at hok
      have hvalid : ValidName username := by
        by_contra hvalid
        rw [UserTable.addUser, if_pos hvalid] at hok
        split_ifs at hok
      obtain ⟨hname, hkey⟩ := ne_nil_of_addUser hok
      have hclear := hfits.2 hname hkey hvalid hfind hroom
      rw [Clear] at hclear
      rw [hclear]

theorem done_removeUser (h : t.Distinct) (username : List Char) : Done t (.removeUser username) := by
  rw [Done, call, removeUser]
  by_cases hempty : username = []
  · rw [if_pos hempty]
    exact .inl ⟨by simp, rfl⟩
  rw [if_neg hempty]
  cases hfind : t.find username with
  | none => exact .inl ⟨by simp, rfl⟩
  | some i =>
    obtain ⟨hi, rfl⟩ := find_eq_some hfind
    obtain ⟨hnames, hlookup⟩ := h.shiftRows (removeRow t i) hi rfl rfl rfl fun _ _ => rfl
    exact .inr ⟨rfl, hnames, hlookup⟩

theorem done_setUserFixedIp (h : t.Distinct) {username ip : List Char} (hfits : Fits t (.setUserFixedIp username ip)) :
    Done t (.setUserFixedIp username ip) := by
  rw [Done, call, setUserFixedIp]
  by_cases hempty : username = []
  · rw [if_pos hempty]
    exact .inl ⟨by simp, rfl⟩
  rw [if_neg hempty]
  cases hfind : t.find username with
  | none => exact .inl ⟨by simp, rfl⟩
  | some i =>
    have hip := hfits hempty (by rw [hfind]; rfl)
    obtain ⟨hi, rfl⟩ := find_eq_some hfind
    obtain ⟨hnames, hlookup⟩ := h.setIp hi hip
    refine .inr ⟨rfl, hnames, hlookup.trans ?_⟩
    rw [effect, h.lookup_row hi]
    rfl

/-- An entry that fits is entered in the map. -/
theorem addEntry_of_fits (h : t.Distinct) (hfits : FitsEntry t e)
    (hlength : e.uname.length < 64 ∧ e.key.length < 256 ∧ e.fixedIp.length < 20) :
    (addEntry t e).2 = .ok ∧ (addEntry t e).1.Distinct ∧ (addEntry t e).1.lookup = enter t.lookup e := by
  obtain ⟨hname, hkey, hvalid, hnew⟩ := hfits
  have hok : (addUser t e.uname e.key).2 = .ok := by
    rw [addUser, UserTable.addUser, if_neg (by simp [hname, hkey]), if_neg (not_not_intro hvalid)]
    cases hfind : t.find e.uname with
    | some i => rfl
    | none =>
      dsimp only
      rw [if_neg (Nat.not_le.2 (hnew hfind).1)]
  have hrow : t.Fits (.add e.uname e.key) := fun _ _ _ _ => ⟨hlength.1, hlength.2.1⟩
  obtain ⟨hfailed, -⟩ | ⟨-, hnames, hlookup⟩ := h.addUser hrow
  · exact absurd hok hfailed
  have heq : addUser t e.uname e.key = ((t.addUser e.uname e.key).1, .ok) := Prod.ext rfl hok
  rw [addEntry, heq, enter]
  dsimp only
  by_cases hip : e.fixedIp = []
  · rw [if_pos hip, if_pos hip]
    refine ⟨rfl, hnames, hlookup.trans ?_⟩
    cases hfind : t.find e.uname with
    | some i => rw [UserTable.lookup, hfind]; rfl
    | none =>
      have hclear := (hnew hfind).2 hip
      rw [Clear] at hclear
      rw [hclear]
  · rw [if_neg hip, if_neg hip]
    -- the address is set in the row that the name has now
    have hrow := congrFun hlookup e.uname
    rw [Function.update_self] at hrow
    obtain ⟨i, hi, -⟩ := Option.map_eq_some_iff.1 hrow
    have hset : setUserFixedIp (t.addUser e.uname e.key).1 e.uname e.fixedIp =
        ((t.addUser e.uname e.key).1.setIp i e.fixedIp, .ok) := by
      rw [setUserFixedIp, if_neg hname, hi]
    obtain ⟨hlt, hrowName⟩ := find_eq_some hi
    obtain ⟨hnames', hlookup'⟩ := hnames.setIp hlt hlength.2.2
    rw [hset]
    refine ⟨rfl, hnames', hlookup'.trans ?_⟩
    have hvalue := hnames.lookup_row hlt
    rw [hrowName, hrow] at hvalue
    have hkeyRow : e.key = (t.addUser e.uname e.key).1.userKeys i := congrArg Prod.fst (Option.some.inj hvalue)
    rw [hrowName, hlookup, Function.update_idem, ← hkeyRow]

/-- The entries of an array, with the first one apart. -/
theorem entries_cons {b : Buffers} {p rest : List Char} {es : List Entry} (he : entry b p = some (e, rest))
    (hes : entries b p = some es) :
    ∃ es', es = e :: es' ∧
      ((∃ q, skipWs rest = ',' :: q ∧ entries b (skipWs q) = some es') ∨ ∃ q, skipWs rest = ']' :: q ∧ es' = []) := by
  rw [entries] at hes
  · split at hes
    · rename_i he'
      cases he.symm.trans he'
    · rename_i he'
      cases he.symm.trans he'
      split at hes
      · rename_i hws
        obtain ⟨es', hes', rfl⟩ := Option.map_eq_some_iff.1 hes
        exact ⟨es', rfl, .inl ⟨_, hws, hes'⟩⟩
      · rename_i hws
        cases hes
        exact ⟨[], rfl, .inr ⟨_, hws, rfl⟩⟩
      · cases hes
  · rintro tail rfl
    cases he

theorem entries_comma {b : Buffers} {p rest q : List Char} (he : entry b p = some (e, rest))
    (hws : skipWs rest = ',' :: q) : entries b p = (entries b (skipWs q)).map (e :: ·) := by
  rw [entries]
  · split
    · rename_i he'
      cases he.symm.trans he'
    · rename_i he'
      cases he.symm.trans he'
      split
      · rename_i hws'
        cases hws.symm.trans hws'
        rfl
      · rename_i hws'
        cases hws.symm.trans hws'
      · rename_i hcomma _
        exact absurd hws (hcomma q)
  · rintro tail rfl
    cases he

theorem entries_bracket {b : Buffers} {p rest q : List Char} (he : entry b p = some (e, rest))
    (hws : skipWs rest = ']' :: q) : entries b p = some [e] := by
  rw [entries]
  · split
    · rename_i he'
      cases he.symm.trans he'
    · rename_i he'
      cases he.symm.trans he'
      split
      · rename_i hws'
        cases hws.symm.trans hws'
      · rfl
      · rename_i _ hbracket
        exact absurd hws (hbracket q)
  · rintro tail rfl
    cases he

/-- What is so for the entry at the front of a text is so for all of them. -/
theorem forall_entries {b : Buffers} {Q : Entry → Prop} (hQ : ∀ p rest e, entry b p = some (e, rest) → Q e)
    {p : List Char} {es : List Entry} (hes : entries b p = some es) : ∀ e ∈ es, Q e := by
  fun_induction entries b p generalizing es with
  | case1 tail =>
    cases hes
    exact fun _ he => absurd he List.not_mem_nil
  | case2 p hp he => cases hes
  | case3 p hp e rest he q hws ih =>
    obtain ⟨es', hes', rfl⟩ := Option.map_eq_some_iff.1 hes
    exact List.forall_mem_cons.2 ⟨hQ p rest e he, ih hes'⟩
  | case4 p hp e rest he tail hws =>
    cases hes
    exact List.forall_mem_cons.2 ⟨hQ p rest e he, fun _ he => absurd he List.not_mem_nil⟩
  | case5 p hp e rest he hcomma hbracket => cases hes

/-- The loop adds the entries, one after the other. -/
theorem usersLoop_of_entries {p : List Char} {es : List Entry} (hes : entries buffers p = some es)
    (hadd : Runs.Along (fun t e => (addEntry t e).1) (fun t e => (addEntry t e).2 = .ok) t es) :
    usersLoop t p = (es.foldl (fun t e => (addEntry t e).1) t, .ok) := by
  fun_induction usersLoop t p generalizing es with
  | case1 t tail =>
    rw [entries] at hes
    cases hes
    rfl
  | case2 t p hp he =>
    rw [entries] at hes
    · split at hes
      · cases hes
      · rename_i he'
        cases he.symm.trans he'
    · exact hp
  | case3 t p hp e rest he hfailed =>
    obtain ⟨es', rfl, -⟩ := entries_cons he hes
    exact absurd hadd.1 hfailed
  | case4 t p hp e rest he hok q hws ih =>
    obtain ⟨es', rfl, ⟨q', hws', hes'⟩ | ⟨q', hws', -⟩⟩ := entries_cons he hes
    · cases hws.symm.trans hws'
      exact ih hes' hadd.2
    · cases hws.symm.trans hws'
  | case5 t p hp e rest he hok tail hws =>
    obtain ⟨es', rfl, ⟨q', hws', -⟩ | ⟨-, -, rfl⟩⟩ := entries_cons he hes
    · cases hws.symm.trans hws'
    · rfl
  | case6 t p hp e rest he hok hcomma hbracket =>
    obtain ⟨-, -, ⟨q, hws, -⟩ | ⟨q, hws, -⟩⟩ := entries_cons he hes
    · exact absurd hws (hcomma q)
    · exact absurd hws (hbracket q)

/-- A loop that succeeds has found the entries, and has added them. -/
theorem entries_of_usersLoop {p : List Char} (h : (usersLoop t p).2 = .ok) :
    ∃ es, entries buffers p = some es ∧ (usersLoop t p).1 = es.foldl (fun t e => (addEntry t e).1) t := by
  fun_induction usersLoop t p with
  | case1 t tail => exact ⟨[], by rw [entries], rfl⟩
  | case2 t p hp he => cases h
  | case3 t p hp e rest he hfailed => cases h
  | case4 t p hp e rest he hok q hws ih =>
    obtain ⟨es, hes, heq⟩ := ih h
    exact ⟨e :: es, by rw [entries_comma he hws, hes]; rfl, heq⟩
  | case5 t p hp e rest he hok tail hws => exact ⟨[e], entries_bracket he hws, rfl⟩
  | case6 t p hp e rest he hok hcomma hbracket => cases h

/-- Entries that fit are added, and entered in the map. -/
theorem addEntries_of_fits {es : List Entry} (h : t.Distinct)
    (hlengths : ∀ e ∈ es, e.uname.length < 64 ∧ e.key.length < 256 ∧ e.fixedIp.length < 20)
    (hfits : Runs.Along (fun t e => (addEntry t e).1) FitsEntry t es) :
    Runs.Along (fun t e => (addEntry t e).1) (fun t e => (addEntry t e).2 = .ok) t es ∧
      (es.foldl (fun t e => (addEntry t e).1) t).Distinct ∧
        (es.foldl (fun t e => (addEntry t e).1) t).lookup = es.foldl enter t.lookup := by
  induction es generalizing t with
  | nil => exact ⟨trivial, h, rfl⟩
  | cons e es ih =>
    obtain ⟨hlength, hlengths⟩ := List.forall_mem_cons.1 hlengths
    obtain ⟨hok, hnames, hlookup⟩ := addEntry_of_fits h hfits.1 hlength
    obtain ⟨halong, hnames', hlookup'⟩ := ih hnames hlengths hfits.2
    rw [List.foldl_cons, List.foldl_cons, ← hlookup]
    exact ⟨⟨hok, halong⟩, hnames', hlookup'⟩

theorem done_loadJson {jsonText : List Char} (hfits : Fits t (.loadJson jsonText)) (h : t.Distinct) :
    Done t (.loadJson jsonText) := by
  rw [Done, call, loadJson]
  cases hsettings : settingsOk jsonText with
  | false =>
    rw [if_pos rfl]
    exact .inl ⟨by simp, rfl⟩
  | true =>
    rw [if_neg (by simp), effect]
    cases hfind : findKey "users".toList jsonText with
    | none =>
      have hlisted : listed jsonText = none := by rw [listed, hfind]
      rw [hlisted]
      exact .inr ⟨rfl, h, rfl⟩
    | some v =>
      dsimp only
      unfold readUsers
      split
      · obtain ⟨es, hes, hlisted, halong⟩ := hfits hsettings _ hfind
        -- the table without rows is the empty map
        have hempty : ({ t with nUsers := 0 } : UserTable).Distinct := fun i hi => absurd hi (Nat.not_lt_zero i)
        obtain ⟨hadd, hnames, hlookup⟩ :=
          addEntries_of_fits hempty (forall_entries (fun _ _ _ he => entry_lengths he) hes) halong
        rw [hlisted, usersLoop_of_entries hes hadd]
        exact .inr ⟨rfl, hnames, hlookup⟩
      · exact .inl ⟨by simp, rfl⟩

theorem done (h : t.Distinct) {c : Call} (hfits : Fits t c) : Done t c := by
  cases c with
  | addUser username key => exact done_addUser h hfits
  | removeUser username => exact done_removeUser h username
  | setUserFixedIp username ip => exact done_setUserFixedIp h hfits
  | loadJson jsonText => exact done_loadJson hfits h

/-- What a call leaves is the map, if it was the map before. -/
theorem track_keeps {s : UserTable × Users} {c : Call} (h : s.1.Distinct ∧ s.1.lookup = s.2) (hfits : Fits s.1 c) :
    (track s c).1.Distinct ∧ (track s c).1.lookup = (track s c).2 := by
  rw [track]
  rcases done h.1 hfits with ⟨hcode, heq⟩ | ⟨hcode, hnames, hlookup⟩
  · rw [heq, if_neg hcode]
    exact h
  · rw [if_pos hcode, ← h.2]
    exact ⟨hnames, hlookup⟩

/-- A call for one user leaves the rows of the others. -/
theorem Done.others {c : Call} (h : Done t c) {username name : List Char} (huser : c.user = some username)
    (hname : name ≠ username) : (call t c).1.lookup name = t.lookup name := by
  rcases h with ⟨-, heq⟩ | ⟨-, -, hlookup⟩
  · rw [heq]
  · rw [hlookup]
    cases c <;> cases huser <;> exact Function.update_of_ne hname _ _

end

/-! ## Runs -/

theorem track_fst (calls : List Call) (s : UserTable × Users) :
    (calls.foldl track s).1 = calls.foldl (fun t c => (call t c).1) s.1 := by
  induction calls generalizing s with
  | nil => rfl
  | cons c calls ih => rw [List.foldl_cons, List.foldl_cons, ih]; rfl

/-- The condition on the calls, seen from the pairs of a table and a map. -/
theorem along_track {calls : List Call} {s : UserTable × Users}
    (h : Runs.Along (fun t c => (call t c).1) Fits s.1 calls) : Runs.Along track (fun s c => Fits s.1 c) s calls := by
  induction calls generalizing s with
  | nil => trivial
  | cons c calls ih => exact ⟨h.1, ih h.2⟩

theorem map_of_along {calls : List Call} (h : Runs.Along (fun t c => (call t c).1) Fits UserTable.empty calls) :
    (run calls).Distinct ∧ (run calls).lookup = denoted calls := by
  have hempty : UserTable.empty.Distinct ∧ UserTable.empty.lookup = fun _ => none :=
    ⟨fun i hi => absurd hi (Nat.not_lt_zero i), rfl⟩
  have htrack := Runs.foldl_of_along (J := fun s => s.1.Distinct ∧ s.1.lookup = s.2)
    (fun _ _ h hfits => track_keeps h hfits) (s := (UserTable.empty, fun _ => none)) hempty (along_track h)
  rw [track_fst] at htrack
  exact htrack

end Mqvpn.Builder
