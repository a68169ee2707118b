import Mqvpn.Server.Identity
import Mathlib.Logic.Function.Basic

/-!
# The table of users

The users of the configuration are three arrays of texts, for the names, the keys and the fixed
addresses, and the number of rows that are in use. Rows are found by their name; a removal
moves the rows behind it down.

The arrays are those of the faithful model of the server, which has the rows as a list
(`Wf.rows_addUser`, `rows_removeUser`, `rows_setUserFixedIp`). With names and keys that fit in
their arrays, the table is a map from names to keys and addresses, and each call changes it at
its name only (`map_along`). A name that is cut, on the other hand, is never found again
(`not_map`).
-/

namespace Mqvpn

open Server

/-- The arrays of users of `struct mqvpn_config_s`. -/
structure UserTable where
  userNames : Nat → List Char
  userKeys : Nat → List Char
  userFixedIps : Nat → List Char
  nUsers : Nat

/-- What the functions for users return. -/
inductive UserCode where
  | ok
  | invalidArg
  | maxClients
  | poolFull
  deriving DecidableEq, Repr

namespace UserTable

variable (t : UserTable)

/-- The loop that looks for a name. -/
def find (username : List Char) : Option Nat := (List.range t.nUsers).find? fun i => t.userNames i = username

/-- The key of a row. -/
def setKey (i : Nat) (key : List Char) : UserTable :=
  { t with userKeys := Function.update t.userKeys i (key.take 255) }

/-- The row behind the others. -/
def addRow (username key : List Char) : UserTable :=
  { t with
    userNames := Function.update t.userNames t.nUsers (username.take 63)
    userKeys := Function.update t.userKeys t.nUsers (key.take 255)
    nUsers := t.nUsers + 1 }

/-- `mqvpn_server_add_user` -/
def addUser (username key : List Char) : UserTable × UserCode :=
  if username = [] ∨ key = [] then (t, .invalidArg)
  else if ¬ValidName username then (t, .invalidArg)
  else
    match t.find username with
    | some i => (t.setKey i key, .ok)
    | none => if maxUsers ≤ t.nUsers then (t, .maxClients) else (t.addRow username key, .ok)

/-- The loop that moves the rows behind `i` down. -/
def shiftDown (a : Nat → List Char) (i n : Nat) : Nat → List Char :=
  (List.range' (i + 1) (n - (i + 1))).foldl (fun a j => Function.update a (j - 1) (a j)) a

/-- The rows without row `i`; the last address is cleared. -/
def removeRow (i : Nat) : UserTable where
  userNames := shiftDown t.userNames i t.nUsers
  userKeys := shiftDown t.userKeys i t.nUsers
  userFixedIps := Function.update (shiftDown t.userFixedIps i t.nUsers) (t.nUsers - 1) []
  nUsers := t.nUsers - 1

/-- `mqvpn_server_remove_user` -/
def removeUser (username : List Char) : UserTable × UserCode :=
  if username = [] then (t, .invalidArg)
  else
    match t.find username with
    | none => (t, .invalidArg)
    | some i => (t.removeRow i, .ok)

/-- The fixed address of a row. -/
def setIp (i : Nat) (ip : List Char) : UserTable :=
  { t with userFixedIps := Function.update t.userFixedIps i (ip.take 19) }

/-- `mqvpn_server_set_user_fixed_ip`; `reserved`: how the reservation of an address that was
    read from the text ends. -/
def setUserFixedIp (username ip : List Char) (reserved : UserCode) : UserTable × UserCode :=
  if username = [] then (t, .invalidArg)
  else
    match t.find username with
    | none => (t, .invalidArg)
    | some i =>
      if ip = [] then (t.setIp i [], .ok)
      else if Text.inetPton4 ip = none then (t, .invalidArg)
      else if reserved ≠ .ok then (t, reserved)
      else (t.setIp i ip, .ok)

/-- A call for a user. -/
inductive Call where
  | add (username key : List Char)
  | remove (username : List Char)
  | setFixedIp (username ip : List Char) (reserved : UserCode)

def call : Call → UserTable × UserCode
  | .add username key => t.addUser username key
  | .remove username => t.removeUser username
  | .setFixedIp username ip reserved => t.setUserFixedIp username ip reserved

def run (calls : List Call) : UserTable := calls.foldl (fun t c => (t.call c).1) t

/-! ## The map -/

/-- The key and the fixed address that stand in the row of a name. -/
def lookup (username : List Char) : Option (List Char × List Char) :=
  (t.find username).map fun i => (t.userKeys i, t.userFixedIps i)

/-- The rows have different names. -/
def Distinct : Prop := ∀ i < t.nUsers, ∀ j < t.nUsers, t.userNames i = t.userNames j → i = j

/-- The names are different, and no address is left behind the rows. -/
structure Wf : Prop where
  distinct : ∀ i < t.nUsers, ∀ j < t.nUsers, t.userNames i = t.userNames j → i = j
  clean : ∀ i, t.nUsers ≤ i → t.userFixedIps i = []

variable {t} {username key ip : List Char}

theorem Wf.names (h : t.Wf) : t.Distinct := h.distinct

theorem find_eq_some {i : Nat} (h : t.find username = some i) : i < t.nUsers ∧ t.userNames i = username := by
  have hname := List.find?_some h
  exact ⟨List.mem_range.1 (List.mem_of_find?_eq_some h), of_decide_eq_true hname⟩

theorem find_eq_none_iff : t.find username = none ↔ ∀ i < t.nUsers, t.userNames i ≠ username := by
  rw [find, List.find?_eq_none]
  simp

/-- With different names, the row of a name is the only one. -/
theorem Distinct.find_eq_some_iff (h : t.Distinct) {i : Nat} :
    t.find username = some i ↔ i < t.nUsers ∧ t.userNames i = username := by
  refine ⟨find_eq_some, fun ⟨hi, hname⟩ => ?_⟩
  cases hfind : t.find username with
  | none => exact absurd hname (find_eq_none_iff.1 hfind i hi)
  | some j =>
    obtain ⟨hj, hj'⟩ := find_eq_some hfind
    rw [h i hi j hj (hname.trans hj'.symm)]

theorem Distinct.lookup_eq_some_iff (h : t.Distinct) {v : List Char × List Char} :
    t.lookup username = some v ↔ ∃ i < t.nUsers, t.userNames i = username ∧ (t.userKeys i, t.userFixedIps i) = v := by
  rw [lookup, Option.map_eq_some_iff]
  refine exists_congr fun i => ?_
  rw [h.find_eq_some_iff, and_assoc]

/-- What the loop leaves in a slot. -/
theorem shiftDown_apply (a : Nat → List Char) (i n k : Nat) :
    shiftDown a i n k = if i ≤ k ∧ k + 1 < n then a (k + 1) else a k := by
  -- after `m` rounds the slots from `i` on have moved, as far as the loop has come
  have hrounds (m : Nat) (k : Nat) :
      (List.range' (i + 1) m).foldl (fun a j => Function.update a (j - 1) (a j)) a k =
        if i ≤ k ∧ k < i + m then a (k + 1) else a k := by
    induction m generalizing k with
    | zero => rw [if_neg (by omega)]; rfl
    | succ m ih =>
      rw [List.range'_1_concat, List.foldl_append, List.foldl_cons, List.foldl_nil]
      by_cases hk : k = i + m
      · rw [hk, show i + 1 + m - 1 = i + m by omega, Function.update_self, ih, if_neg (by omega), if_pos (by omega)]
        congr 1
        omega
      · rw [Function.update_of_ne (by omega), ih]
        split_ifs <;> first | rfl | omega
  rw [shiftDown, hrounds]
  split_ifs <;> first | rfl | omega

/-- A name is in the table if it has a row. -/
theorem lookup_eq_none_iff : t.lookup username = none ↔ ∀ i < t.nUsers, t.userNames i ≠ username := by
  rw [lookup, Option.map_eq_none_iff, find_eq_none_iff]

/-- A row is the value of its name. -/
theorem Distinct.lookup_row (h : t.Distinct) {i : Nat} (hi : i < t.nUsers) :
    t.lookup (t.userNames i) = some (t.userKeys i, t.userFixedIps i) :=
  h.lookup_eq_some_iff.2 ⟨i, hi, rfl, rfl⟩

/-- The table is the map that has the values of the rows, and no others. -/
theorem Distinct.lookup_eq (h : t.Distinct) {m : List Char → Option (List Char × List Char)}
    (hrow : ∀ i < t.nUsers, m (t.userNames i) = some (t.userKeys i, t.userFixedIps i))
    (hnone : ∀ name, (∀ i < t.nUsers, t.userNames i ≠ name) → m name = none) : t.lookup = m := by
  funext name
  by_cases hname : ∀ i < t.nUsers, t.userNames i ≠ name
  · rw [lookup_eq_none_iff.2 hname, hnone name hname]
  · push Not at hname
    obtain ⟨i, hi, rfl⟩ := hname
    rw [h.lookup_row hi, hrow i hi]

/-! ## Rows -/

/-- With one row changed, the map is changed at its name. -/
theorem Distinct.lookup_eq_update (h : t.Distinct) {t' : UserTable} (h' : t'.Distinct) {i : Nat} (hi : i < t.nUsers)
    (hnames : t'.userNames = t.userNames) (hnUsers : t'.nUsers = t.nUsers)
    (hrows : ∀ j, j ≠ i → (t'.userKeys j, t'.userFixedIps j) = (t.userKeys j, t.userFixedIps j)) :
    t'.lookup = Function.update t.lookup (t.userNames i) (some (t'.userKeys i, t'.userFixedIps i)) := by
  refine h'.lookup_eq (fun j hj => ?_) fun name hname => ?_
  · rw [hnUsers] at hj
    rw [hnames]
    by_cases hij : j = i
    · rw [hij, Function.update_self]
    · have hne : t.userNames j ≠ t.userNames i := fun heq => hij (h j hj i hi heq)
      rw [Function.update_of_ne hne, h.lookup_row hj, hrows j hij]
  · rw [hnUsers, hnames] at hname
    rw [Function.update_of_ne (hname i hi).symm]
    exact lookup_eq_none_iff.2 hname

/-- The new key of a name. -/
theorem Distinct.setKey (h : t.Distinct) {i : Nat} (hi : i < t.nUsers) (hkey : key.length < 256) :
    (t.setKey i key).Distinct ∧
      (t.setKey i key).lookup = Function.update t.lookup (t.userNames i) (some (key, t.userFixedIps i)) := by
  have hnames : (t.setKey i key).Distinct := h
  have hself : (t.setKey i key).userKeys i = key :=
    (Function.update_self _ _ _).trans (List.take_of_length_le (Nat.le_of_lt_succ hkey))
  have hlookup := h.lookup_eq_update hnames hi rfl rfl fun j hj => Prod.ext (Function.update_of_ne hj _ _) rfl
  rw [hself] at hlookup
  exact ⟨hnames, hlookup⟩

/-- The new row of a name that is not there yet has the address that its place had. -/
theorem Distinct.addRow (h : t.Distinct) (hnew : t.lookup username = none) (hname : username.length < 64)
    (hkey : key.length < 256) :
    (t.addRow username key).Distinct ∧
      (t.addRow username key).lookup =
        Function.update t.lookup username (some (key, t.userFixedIps t.nUsers)) := by
  have hnew := lookup_eq_none_iff.1 hnew
  have hrows : t.addRow username key =
      { t with
        userNames := Function.update t.userNames t.nUsers username
        userKeys := Function.update t.userKeys t.nUsers key
        nUsers := t.nUsers + 1 } := by
    rw [UserTable.addRow, List.take_of_length_le (Nat.le_of_lt_succ hname),
      List.take_of_length_le (Nat.le_of_lt_succ hkey)]
  have hnames : (t.addRow username key).Distinct := by
    rw [hrows]
    intro i hi j hj heq
    rcases Nat.lt_succ_iff_lt_or_eq.1 hi with hi | rfl <;> rcases Nat.lt_succ_iff_lt_or_eq.1 hj with hj | rfl
    · simp only [Function.update_of_ne hi.ne, Function.update_of_ne hj.ne] at heq
      exact h i hi j hj heq
    · simp only [Function.update_of_ne hi.ne, Function.update_self] at heq
      exact absurd heq (hnew i hi)
    · simp only [Function.update_of_ne hj.ne, Function.update_self] at heq
      exact absurd heq.symm (hnew j hj)
    · rfl
  refine ⟨hnames, hnames.lookup_eq ?_ ?_⟩ <;> rw [hrows]
  · intro i hi
    rcases Nat.lt_succ_iff_lt_or_eq.1 hi with hi | rfl
    · simp only [Function.update_of_ne hi.ne, Function.update_of_ne (hnew i hi)]
      exact h.lookup_row hi
    · simp only [Function.update_self]
  · intro name hrow
    have hself := hrow t.nUsers (Nat.lt_succ_self _)
    simp only [Function.update_self] at hself
    rw [Function.update_of_ne hself.symm]
    refine lookup_eq_none_iff.2 fun i hi => ?_
    have hother := hrow i (Nat.lt_succ_of_lt hi)
    simpa only [Function.update_of_ne hi.ne] using hother

/-- The rows in front of `i` stay, and the others move down by one. -/
theorem shiftDown_of_lt (a : Nat → List Char) {i n k : Nat} (hk : k < n - 1) :
    shiftDown a i n k = a (if k < i then k else k + 1) := by
  rw [shiftDown_apply]
  by_cases h : k < i
  · rw [if_neg (by omega), if_pos h]
  · rw [if_pos (by omega), if_neg h]

/-- The removal of a row, whatever it leaves behind the rows. -/
theorem Distinct.shiftRows (h : t.Distinct) (t' : UserTable) {i : Nat} (hi : i < t.nUsers)
    (hnUsers : t'.nUsers = t.nUsers - 1) (hnames : t'.userNames = shiftDown t.userNames i t.nUsers)
    (hkeys : t'.userKeys = shiftDown t.userKeys i t.nUsers)
    (hips : ∀ k < t.nUsers - 1, t'.userFixedIps k = shiftDown t.userFixedIps i t.nUsers k) :
    t'.Distinct ∧ t'.lookup = Function.update t.lookup (t.userNames i) none := by
  have hdistinct : t'.Distinct := by
    intro j hj k hk heq
    rw [hnUsers] at hj hk
    rw [hnames, shiftDown_of_lt _ hj, shiftDown_of_lt _ hk] at heq
    have hrow := h _ (by split_ifs <;> omega) _ (by split_ifs <;> omega) heq
    split_ifs at hrow <;> omega
  refine ⟨hdistinct, hdistinct.lookup_eq (fun k hk => ?_) fun name hname => ?_⟩
  · rw [hnUsers] at hk
    rw [hips k hk, hnames, hkeys, shiftDown_of_lt _ hk, shiftDown_of_lt _ hk, shiftDown_of_lt _ hk]
    have hrow : (if k < i then k else k + 1) < t.nUsers := by split_ifs <;> omega
    have hother : (if k < i then k else k + 1) ≠ i := by split_ifs <;> omega
    rw [Function.update_of_ne fun heq => hother (h _ hrow i hi heq), h.lookup_row hrow]
  · by_cases hself : name = t.userNames i
    · rw [hself, Function.update_self]
    · rw [Function.update_of_ne hself]
      refine lookup_eq_none_iff.2 fun j hj heq => ?_
      -- a row other than `i` is still there
      have hji : j ≠ i := by
        rintro rfl
        exact hself heq.symm
      refine hname (if j < i then j else j - 1) (by rw [hnUsers]; split_ifs <;> omega) ?_
      rw [hnames, shiftDown_of_lt _ (by split_ifs <;> omega), ← heq]
      congr 1
      split_ifs <;> omega

/-- The new address of a name. -/
theorem Distinct.setIp (h : t.Distinct) {i : Nat} (hi : i < t.nUsers) (hip : ip.length < 20) :
    (t.setIp i ip).Distinct ∧
      (t.setIp i ip).lookup = Function.update t.lookup (t.userNames i) (some (t.userKeys i, ip)) := by
  have hnames : (t.setIp i ip).Distinct := h
  have hself : (t.setIp i ip).userFixedIps i = ip :=
    (Function.update_self _ _ _).trans (List.take_of_length_le (Nat.le_of_lt_succ hip))
  have hlookup := h.lookup_eq_update hnames hi rfl rfl fun j hj => Prod.ext rfl (Function.update_of_ne hj _ _)
  rw [hself] at hlookup
  exact ⟨hnames, hlookup⟩

theorem Wf.setKey (h : t.Wf) {i : Nat} (hi : i < t.nUsers) (hkey : key.length < 256) :
    (t.setKey i key).Wf ∧
      (t.setKey i key).lookup = Function.update t.lookup (t.userNames i) (some (key, t.userFixedIps i)) :=
  ⟨⟨h.distinct, h.clean⟩, (h.names.setKey hi hkey).2⟩

theorem Wf.addRow (h : t.Wf) (hnew : t.lookup username = none) (hname : username.length < 64)
    (hkey : key.length < 256) :
    (t.addRow username key).Wf ∧
      (t.addRow username key).lookup = Function.update t.lookup username (some (key, [])) := by
  obtain ⟨hnames, hlookup⟩ := h.names.addRow hnew hname hkey
  rw [h.clean t.nUsers le_rfl] at hlookup
  exact ⟨⟨hnames, fun i hi => h.clean i (Nat.le_of_succ_le hi)⟩, hlookup⟩

theorem Wf.removeRow (h : t.Wf) {i : Nat} (hi : i < t.nUsers) :
    (t.removeRow i).Wf ∧ (t.removeRow i).lookup = Function.update t.lookup (t.userNames i) none := by
  obtain ⟨hnames, hlookup⟩ := h.names.shiftRows (t.removeRow i) hi rfl rfl rfl fun k hk =>
    Function.update_of_ne hk.ne _ _
  refine ⟨⟨hnames, fun j hj => ?_⟩, hlookup⟩
  change t.nUsers - 1 ≤ j at hj
  show Function.update (shiftDown t.userFixedIps i t.nUsers) (t.nUsers - 1) [] j = []
  by_cases hlast : j = t.nUsers - 1
  · rw [hlast, Function.update_self]
  · rw [Function.update_of_ne hlast, shiftDown_apply, if_neg (by omega), h.clean j (by omega)]

theorem Wf.setIp (h : t.Wf) {i : Nat} (hi : i < t.nUsers) (hip : ip.length < 20) :
    (t.setIp i ip).Wf ∧
      (t.setIp i ip).lookup = Function.update t.lookup (t.userNames i) (some (t.userKeys i, ip)) := by
  obtain ⟨hnames, hlookup⟩ := h.names.setIp hi hip
  refine ⟨⟨hnames, fun j hj => ?_⟩, hlookup⟩
  have hji : j ≠ i := (hi.trans_le hj).ne'
  exact (Function.update_of_ne hji _ _).trans (h.clean j hj)

/-! ## Calls -/

/-- A text that is stored fits in its array. -/
def Fits (t : UserTable) : Call → Prop
  | .add username key =>
    username ≠ [] → key ≠ [] → ValidName username → (t.find username).isSome = true ∨ t.nUsers < maxUsers →
      username.length < 64 ∧ key.length < 256
  | .remove _ | .setFixedIp _ _ _ => True

instance (t : UserTable) : ∀ c, Decidable (t.Fits c)
  | .add _ _ => inferInstanceAs (Decidable (_ → _ → _ → _ → _))
  | .remove _ | .setFixedIp _ _ _ => inferInstanceAs (Decidable True)

/-- What a call that succeeds does to the map. -/
def effect (m : List Char → Option (List Char × List Char)) : Call → List Char → Option (List Char × List Char)
  | .add username key => Function.update m username (some (key, (m username).elim [] Prod.snd))
  | .remove username => Function.update m username none
  | .setFixedIp username ip _ => Function.update m username ((m username).map fun v => (v.1, ip))

/-- A call fails and changes nothing, or it keeps the table and has its effect on the map. -/
def Done (t : UserTable) (c : Call) : Prop :=
  ((t.call c).2 ≠ .ok ∧ (t.call c).1 = t) ∨
    (t.call c).2 = .ok ∧ (t.call c).1.Wf ∧ (t.call c).1.lookup = effect t.lookup c

/-- A user is added with the address that the place of the row had, if the name is new. -/
theorem Distinct.addUser (h : t.Distinct) (hfits : t.Fits (.add username key)) :
    ((t.addUser username key).2 ≠ .ok ∧ (t.addUser username key).1 = t) ∨
      (t.addUser username key).2 = .ok ∧ (t.addUser username key).1.Distinct ∧
        (t.addUser username key).1.lookup =
          Function.update t.lookup username
            (some (key, (t.lookup username).elim (t.userFixedIps t.nUsers) Prod.snd)) := by
  rw [UserTable.addUser]
  by_cases hempty : username = [] ∨ key = []
  · rw [if_pos hempty]
    exact .inl ⟨by simp, rfl⟩
  rw [if_neg hempty]
  by_cases hvalid : ¬ValidName username
  · rw [if_pos hvalid]
    exact .inl ⟨by simp, rfl⟩
  rw [if_neg hvalid]
  push Not at hempty hvalid
  have hfits := hfits hempty.1 hempty.2 hvalid
  cases hfind : t.find username with
  | some i =>
    obtain ⟨hi, rfl⟩ := find_eq_some hfind
    obtain ⟨hnames, hlookup⟩ := h.setKey hi (hfits (.inl (by rw [hfind]; rfl))).2
    refine .inr ⟨rfl, hnames, hlookup.trans ?_⟩
    rw [h.lookup_row hi]
    rfl
  | none =>
    by_cases hroom : maxUsers ≤ t.nUsers
    · simp only [if_pos hroom]
      exact .inl ⟨by simp, trivial⟩
    · obtain ⟨hname, hkey⟩ := hfits (.inr (Nat.not_le.1 hroom))
      have hnew : t.lookup username = none := by rw [lookup, hfind]; rfl
      obtain ⟨hnames, hlookup⟩ := h.addRow hnew hname hkey
      simp only [if_neg hroom]
      refine .inr ⟨trivial, hnames, hlookup.trans ?_⟩
      rw [hnew]
      rfl

/-- No address is changed when a user is added. -/
theorem addUser_frame (t : UserTable) (username key : List Char) :
    (t.addUser username key).1.userFixedIps = t.userFixedIps ∧ t.nUsers ≤ (t.addUser username key).1.nUsers := by
  rw [addUser]
  by_cases hempty : username = [] ∨ key = []
  · rw [if_pos hempty]
    exact ⟨rfl, le_rfl⟩
  rw [if_neg hempty]
  by_cases hvalid : ¬ValidName username
  · rw [if_pos hvalid]
    exact ⟨rfl, le_rfl⟩
  rw [if_neg hvalid]
  cases t.find username with
  | some i => exact ⟨rfl, le_rfl⟩
  | none =>
    dsimp only
    split_ifs
    · exact ⟨rfl, le_rfl⟩
    · exact ⟨rfl, Nat.le_succ _⟩

theorem Wf.done_add (h : t.Wf) (hfits : t.Fits (.add username key)) : t.Done (.add username key) := by
  rcases h.names.addUser hfits with hfailed | ⟨hok, hnames, hlookup⟩
  · exact .inl hfailed
  · obtain ⟨hips, hnUsers⟩ := t.addUser_frame username key
    refine .inr ⟨hok, ⟨hnames, fun i hi => ?_⟩, hlookup.trans ?_⟩
    · exact (congrFun hips i).trans (h.clean i (hnUsers.trans hi))
    · rw [effect, h.clean t.nUsers le_rfl]

theorem Wf.done_remove (h : t.Wf) : t.Done (.remove username) := by
  rw [Done, call, removeUser]
  by_cases hempty : username = []
  · rw [if_pos hempty]
    exact .inl ⟨by simp, rfl⟩
  rw [if_neg hempty]
  cases hfind : t.find username with
  | none => exact .inl ⟨by simp, rfl⟩
  | some i =>
    obtain ⟨hi, rfl⟩ := find_eq_some hfind
    obtain ⟨hwf, hlookup⟩ := h.removeRow hi
    exact .inr ⟨rfl, hwf, hlookup⟩

theorem Wf.done_setFixedIp (h : t.Wf) {reserved : UserCode} : t.Done (.setFixedIp username ip reserved) := by
  rw [Done, call, setUserFixedIp]
  by_cases hempty : username = []
  · rw [if_pos hempty]
    exact .inl ⟨by simp, rfl⟩
  rw [if_neg hempty]
  cases hfind : t.find username with
  | none => exact .inl ⟨by simp, rfl⟩
  | some i =>
    obtain ⟨hi, rfl⟩ := find_eq_some hfind
    have hset (hip : ip.length < 20) : (t.setIp i ip).Wf ∧
        (t.setIp i ip).lookup = effect t.lookup (.setFixedIp (t.userNames i) ip reserved) := by
      rw [effect, h.names.lookup_row hi]
      exact h.setIp hi hip
    dsimp only
    by_cases hip : ip = []
    · rw [if_pos hip]
      subst hip
      exact .inr ⟨rfl, hset (by decide)⟩
    rw [if_neg hip]
    by_cases hquad : Text.inetPton4 ip = none
    · rw [if_pos hquad]
      exact .inl ⟨by simp, rfl⟩
    rw [if_neg hquad]
    by_cases hreserved : reserved ≠ .ok
    · rw [if_pos hreserved]
      exact .inl ⟨hreserved, rfl⟩
    · rw [if_neg hreserved]
      -- a text that is an address fits in its array
      obtain ⟨addr, haddr⟩ := Option.ne_none_iff_exists'.1 hquad
      have hlength := Text.length_le_of_inetPton4 haddr
      exact .inr ⟨rfl, hset (by omega)⟩

theorem Wf.done (h : t.Wf) {c : Call} (hfits : t.Fits c) : t.Done c := by
  cases c with
  | add username key => exact h.done_add hfits
  | remove username => exact h.done_remove
  | setFixedIp username ip reserved => exact h.done_setFixedIp

theorem Wf.call (h : t.Wf) {c : Call} (hfits : t.Fits c) : (t.call c).1.Wf := by
  rcases h.done hfits with ⟨-, heq⟩ | ⟨-, hwf, -⟩
  · rw [heq]
    exact h
  · exact hwf

/-! ## The rows as a list -/

/-- The users of the faithful model. -/
def rows (t : UserTable) : List User :=
  (List.range t.nUsers).map fun i => { name := t.userNames i, key := t.userKeys i, fixedIp := t.userFixedIps i }

theorem length_rows (t : UserTable) : t.rows.length = t.nUsers := by simp [rows]

theorem getElem_rows {i : Nat} (hi : i < t.rows.length) :
    t.rows[i] = { name := t.userNames i, key := t.userKeys i, fixedIp := t.userFixedIps i } := by
  simp [rows]

theorem rows_ext {us : List User} (hlength : us.length = t.nUsers)
    (h : ∀ i (hi : i < us.length),
      us[i] = { name := t.userNames i, key := t.userKeys i, fixedIp := t.userFixedIps i }) : us = t.rows := by
  refine List.ext_getElem (hlength.trans t.length_rows.symm) fun i hi hi' => ?_
  rw [h i hi, getElem_rows hi']

theorem findIdx?_rows (t : UserTable) (username : List Char) :
    t.rows.findIdx? (fun u => decide (u.name = username)) = t.find username := by
  cases hfind : t.find username with
  | none =>
    rw [List.findIdx?_eq_none_iff]
    intro u hu
    obtain ⟨i, hi, rfl⟩ := List.getElem_of_mem hu
    rw [getElem_rows hi]
    exact decide_eq_false (find_eq_none_iff.1 hfind i (t.length_rows ▸ hi))
  | some i =>
    obtain ⟨hname, hi, hfirst⟩ := List.find?_range_eq_some.1 hfind
    have hi := List.mem_range.1 hi
    rw [List.findIdx?_eq_some_iff_getElem]
    refine ⟨t.length_rows.symm ▸ hi, ?_, fun j hj => ?_⟩
    · rw [getElem_rows]
      exact hname
    · rw [getElem_rows]
      exact Bool.not_eq_true _ ▸ Bool.not_eq_true' _ ▸ hfirst j hj

/-- With one row changed, the list is changed there. -/
theorem rows_modify {t' : UserTable} {i : Nat} {f : User → User} (hnUsers : t'.nUsers = t.nUsers)
    (hrow : ∀ j, (⟨t'.userNames j, t'.userKeys j, t'.userFixedIps j⟩ : User) =
      (if i = j then f else id) ⟨t.userNames j, t.userKeys j, t.userFixedIps j⟩) :
    t.rows.modify i f = t'.rows := by
  refine rows_ext (by rw [List.length_modify, length_rows, hnUsers]) fun j hj => ?_
  rw [List.getElem_modify, getElem_rows, hrow j]
  split_ifs <;> rfl

theorem rows_setKey (t : UserTable) (i : Nat) (key : List Char) :
    t.rows.modify i (fun u => { u with key := key.take 255 }) = (t.setKey i key).rows := by
  refine rows_modify rfl fun j => ?_
  rw [setKey]
  dsimp only
  rw [Function.update_apply]
  by_cases hij : i = j
  · rw [if_pos hij.symm, if_pos hij]
  · rw [if_neg (Ne.symm hij), if_neg hij]
    rfl

theorem rows_setIp (t : UserTable) (i : Nat) (ip : List Char) :
    t.rows.modify i (fun u => { u with fixedIp := ip.take 19 }) = (t.setIp i ip).rows := by
  refine rows_modify rfl fun j => ?_
  rw [setIp]
  dsimp only
  rw [Function.update_apply]
  by_cases hij : i = j
  · rw [if_pos hij.symm, if_pos hij]
  · rw [if_neg (Ne.symm hij), if_neg hij]
    rfl

theorem Wf.rows_addRow (h : t.Wf) (username key : List Char) :
    t.rows ++ [{ name := username.take 63, key := key.take 255 }] = (t.addRow username key).rows := by
  refine rows_ext (by rw [List.length_append, length_rows]; rfl) fun j hj => ?_
  rw [List.getElem_append]
  split_ifs with hlt
  · have hne : j ≠ t.nUsers := (t.length_rows ▸ hlt).ne
    simp [getElem_rows, UserTable.addRow, hne]
  · have hj' : j = t.nUsers := by
      rw [length_rows] at hlt
      rw [List.length_append, length_rows, List.length_singleton] at hj
      omega
    subst hj'
    simp [UserTable.addRow, h.clean t.nUsers le_rfl]

theorem rows_removeRow {i : Nat} (hi : i < t.nUsers) : t.rows.eraseIdx i = (t.removeRow i).rows := by
  have hlength : (t.rows.eraseIdx i).length = t.nUsers - 1 := by
    rw [List.length_eraseIdx_of_lt (t.length_rows.symm ▸ hi), length_rows]
  refine rows_ext hlength fun k hk => ?_
  have hk' : k < t.nUsers - 1 := hlength ▸ hk
  rw [List.getElem_eraseIdx]
  simp only [removeRow, shiftDown_of_lt _ hk', Function.update_of_ne hk'.ne, getElem_rows]
  split_ifs <;> rfl

variable {s : Server}

/-- A call to the table of texts is the call to the list of users. -/
theorem Wf.rows_addUser (h : t.Wf) (hs : s.config.users = t.rows) :
    (s.addUser username key).config.users = (t.addUser username key).1.rows := by
  rw [Server.addUser, UserTable.addUser]
  by_cases hempty : username = [] ∨ key = []
  · rw [if_pos (by tauto), if_pos hempty, hs]
  rw [if_neg hempty]
  by_cases hvalid : ¬ValidName username
  · rw [if_pos (by tauto), if_pos hvalid, hs]
  rw [if_neg (by tauto), if_neg hvalid, hs, findIdx?_rows]
  cases t.find username with
  | some i => exact t.rows_setKey i key
  | none =>
    dsimp only
    rw [length_rows]
    by_cases hroom : maxUsers ≤ t.nUsers
    · rw [if_pos hroom, if_pos hroom, hs]
    · rw [if_neg hroom, if_neg hroom]
      exact h.rows_addRow username key

theorem rows_removeUser (hs : s.config.users = t.rows) :
    (s.removeUser username).config.users = (t.removeUser username).1.rows := by
  rw [Server.removeUser, UserTable.removeUser]
  by_cases hempty : username = []
  · rw [if_pos hempty, if_pos hempty, hs]
  rw [if_neg hempty, if_neg hempty, hs, findIdx?_rows]
  cases hfind : t.find username with
  | none => exact hs
  | some i =>
    refine Eq.trans ?_ (rows_removeRow (find_eq_some hfind).1)
    exact congrArg Config.users (config_unpin _ username)

/-- The address is set where it can be reserved. -/
theorem rows_setUserFixedIp (hs : s.config.users = t.rows) :
    ∃ reserved, (s.setUserFixedIp username ip).config.users = (t.setUserFixedIp username ip reserved).1.rows := by
  rw [Server.setUserFixedIp]
  by_cases hempty : username = []
  · exact ⟨.ok, by rw [UserTable.setUserFixedIp, if_pos hempty, if_pos hempty, hs]⟩
  rw [if_neg hempty, hs, findIdx?_rows]
  have hunpin : (s.unpin username).config.users = t.rows := (congrArg Config.users (config_unpin s username)).trans hs
  cases hfind : t.find username with
  | none => exact ⟨.ok, by rw [UserTable.setUserFixedIp, if_neg hempty, hfind]; exact hs⟩
  | some i =>
    dsimp only
    by_cases hip : ip = []
    · refine ⟨.ok, ?_⟩
      rw [UserTable.setUserFixedIp, if_neg hempty, hfind, if_pos hip]
      dsimp only
      rw [if_pos hip, ← rows_setIp, ← hunpin]
      rfl
    · rw [if_neg hip]
      have hset (reserved : UserCode) : (t.setUserFixedIp username ip reserved).1 =
          if Text.inetPton4 ip = none ∨ reserved ≠ .ok then t else t.setIp i ip := by
        rw [UserTable.setUserFixedIp, if_neg hempty, hfind]
        dsimp only
        rw [if_neg hip]
        split_ifs <;> first | rfl | tauto
      cases hoff : s.fixedOffset ip with
      | none => exact ⟨.invalidArg, by rw [hset, if_pos (.inr (by simp))]; exact hs⟩
      | some off =>
        have hquad : Text.inetPton4 ip ≠ none := by
          intro hnone
          rw [fixedOffset, hnone] at hoff
          cases hoff
        cases hpin : (s.unpin username).pin username off with
        | none =>
          refine ⟨.poolFull, ?_⟩
          rw [hset, if_pos (.inr (by simp))]
          dsimp only
          rw [hpin]
          exact hunpin
        | some s' =>
          refine ⟨.ok, ?_⟩
          rw [hset, if_neg (by simp [hquad]), ← rows_setIp, ← hunpin]
          dsimp only
          rw [hpin]
          obtain ⟨-, rfl⟩ := pin_spec hpin
          rfl

/-! ## Runs -/

/-- The table before a call and after it is a map, and the call is one to a map. -/
structure IsMap (t : UserTable) (c : Call) : Prop where
  before : ∀ i < t.nUsers, ∀ j < t.nUsers, t.userNames i = t.userNames j → i = j
  after : ∀ i < (t.call c).1.nUsers, ∀ j < (t.call c).1.nUsers,
    (t.call c).1.userNames i = (t.call c).1.userNames j → i = j
  failed : (t.call c).2 ≠ .ok → (t.call c).1 = t
  /-- Only the row of the name changes. -/
  effect : (t.call c).2 = .ok → (t.call c).1.lookup = effect t.lookup c
  /-- The key of a user who was added is good for a request, and the user can be removed. -/
  added : ∀ username key, c = .add username key → (t.call c).2 = .ok →
    ((t.call c).1.removeUser username).2 = .ok ∧
      ∀ (s : Server) (k : Conn) (r : Request), s.config.users = (t.call c).1.rows → r.valid = true →
        r.authToken = some key → (s.authenticate k r).isSome = true
  removed : ∀ username, c = .remove username → (t.call c).2 = .ok →
    ∀ i < (t.call c).1.nUsers, (t.call c).1.userNames i ≠ username

/-- The user with a row can be removed, and the key in the row is good for a request. -/
theorem Wf.authenticate_of_lookup (h : t.Wf) {v : List Char × List Char} (hv : t.lookup username = some v)
    (hkey : v.1 ≠ []) (hs : s.config.users = t.rows) {k : Conn} {r : Request} (hvalid : r.valid = true)
    (htoken : r.authToken = some v.1) : (s.authenticate k r).isSome = true := by
  obtain ⟨i, hi, -, rfl⟩ := h.names.lookup_eq_some_iff.1 hv
  have hi : i < t.rows.length := t.length_rows.symm ▸ hi
  have hrow := List.getElem_mem hi
  rw [getElem_rows hi, ← hs] at hrow
  exact (authenticate_isSome hvalid).2 (.inr ⟨_, htoken, .inr ⟨_, hrow, hkey, rfl⟩⟩)

theorem removeUser_ok_of_lookup (hname : username ≠ []) {v : List Char × List Char} (hv : t.lookup username = some v) :
    (t.removeUser username).2 = .ok := by
  obtain ⟨i, hi, -⟩ := Option.map_eq_some_iff.1 hv
  rw [removeUser, if_neg hname, hi]

theorem ne_nil_of_addUser (h : (t.addUser username key).2 = .ok) : username ≠ [] ∧ key ≠ [] := by
  rw [addUser] at h
  by_cases hempty : username = [] ∨ key = []
  · rw [if_pos hempty] at h
    cases h
  · push Not at hempty
    exact hempty

theorem Wf.isMap (h : t.Wf) {c : Call} (hfits : t.Fits c) : t.IsMap c := by
  have hwf := h.call hfits
  have heffect (hcode : (t.call c).2 = .ok) : (t.call c).1.lookup = UserTable.effect t.lookup c := by
    rcases h.done hfits with ⟨hfailed, -⟩ | ⟨-, -, hlookup⟩
    · exact absurd hcode hfailed
    · exact hlookup
  refine ⟨h.distinct, hwf.distinct, fun hcode => ?_, heffect, ?_, ?_⟩
  · rcases h.done hfits with ⟨-, heq⟩ | ⟨hok, -⟩
    · exact heq
    · exact absurd hok hcode
  · rintro username key rfl hcode
    obtain ⟨hname, hkey⟩ := ne_nil_of_addUser hcode
    have hv : (t.call (.add username key)).1.lookup username =
        some (key, (t.lookup username).elim [] Prod.snd) := by
      rw [heffect hcode, UserTable.effect, Function.update_self]
    exact ⟨removeUser_ok_of_lookup hname hv, fun s k r hs hvalid htoken =>
      hwf.authenticate_of_lookup hv hkey hs hvalid htoken⟩
  · rintro username rfl hcode
    refine lookup_eq_none_iff.1 ?_
    rw [heffect hcode, UserTable.effect, Function.update_self]

/-- A run of calls, of which those that add a user have a name and a key that fit, is a run of
    calls to a map. -/
theorem map_along (h : t.Wf) (calls : List Call) (c : Call)
    (hfits : Runs.Along (fun t c => (t.call c).1) Fits t (calls ++ [c])) : (t.run calls).IsMap c := by
  obtain ⟨hcalls, hlast⟩ := (Runs.along_append t calls [c]).1 hfits
  have hwf : (t.run calls).Wf := Runs.foldl_of_along (fun _ _ h hfits => h.call hfits) h hcalls
  exact hwf.isMap hlast.1

/-- No users. -/
def empty : UserTable := ⟨fun _ => [], fun _ => [], fun _ => [], 0⟩

theorem map_along_sample : (empty.run [.add "ann".toList "a".toList, .add "bob".toList "b".toList]).IsMap
    (.remove "ann".toList) :=
  map_along ⟨fun _ hi => absurd hi (Nat.not_lt_zero _), fun _ _ => rfl⟩ _ _ (by decide)

/-- A name of 64 characters. -/
def longName : List Char := List.replicate 64 'a'

/-- A user whose name is cut is not found when the name comes again, and gets a second row. -/
theorem not_map : ¬∀ (calls : List Call) (c : Call), (empty.run calls).IsMap c := by
  intro h
  have hrows := (h [.add longName "k".toList] (.add longName "l".toList)).after 0 (by decide) 1 (by decide)
    (by decide)
  exact absurd hrows Nat.zero_ne_one

end UserTable

end Mqvpn
