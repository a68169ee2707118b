import Mqvpn.Control.Request
import Mqvpn.Lib.JsonCompact
import Mqvpn.Server.FixedIp

/-!
# Adding a user over the control socket

`ctrl_cmd_add_user` reads a name, a key and an address from the text of a request, and makes
two calls: the user is added, and then gets the address. A request that is refused is to
change nothing, and one that is answered with `ok` is to leave a user with the strings that
the request denotes (`AllOrNothing`).

* `allOrNothing_iff`: this is so exactly if an address that is refused is one for a user who
  was there with this key and loses no pin, and the texts that are read otherwise are those
  that the request denotes;
* `not_allOrNothing`: a new user, and an address that is not in the subnet.
-/

namespace Mqvpn

open Json JsonTree

namespace Server

variable (s : Server)

/-- The first row of a user. -/
def row (name : List Char) : Option User := s.config.users.find? fun u => u.name = name

/-- `mqvpn_server_add_user`, with what it returns. -/
def addUserResult (name key : List Char) : Server × UserCode :=
  if name = [] ∨ key = [] ∨ ¬ValidName name then (s, .invalidArg)
  else
    match s.config.users.findIdx? fun u => u.name = name with
    | some i =>
      ({ s with config := { s.config with
          users := s.config.users.modify i fun u => { u with key := key.take 255 } } }, .ok)
    | none =>
      if maxUsers ≤ s.config.users.length then (s, .maxClients)
      else
        ({ s with config := { s.config with
            users := s.config.users ++ [{ name := name.take 63, key := key.take 255 }] } }, .ok)

/-- The call without what it returns. -/
theorem addUserResult_fst (name key : List Char) : (s.addUserResult name key).1 = s.addUser name key := by
  rw [addUserResult, addUser]
  by_cases hinvalid : name = [] ∨ key = [] ∨ ¬ValidName name
  · rw [if_pos hinvalid, if_pos hinvalid]
  rw [if_neg hinvalid, if_neg hinvalid]
  cases s.config.users.findIdx? fun u => decide (u.name = name) with
  | some i => rfl
  | none =>
    dsimp only
    split_ifs <;> rfl

/-- The values of the codes. -/
def codeNumber : UserCode → Int
  | .ok => 0
  | .invalidArg => -1
  | .poolFull => -7
  | .maxClients => -8

end Server

namespace Control

open Server

/-- What a command answers. -/
inductive Answer where
  | ok
  | error (reason : String)
  deriving DecidableEq

/-- The texts that `ctrl_cmd_add_user` reads. -/
def readName (req : List Char) : Option (List Char) := (findKey "name".toList req).bind (readString · 64)

def readKey (req : List Char) : Option (List Char) := (findKey "key".toList req).bind (readString · 256)

def readFixedIp (req : List Char) : List Char := ((findKey "fixed_ip".toList req).map (stringBuf · 20)).getD []

/-- `ctrl_cmd_add_user` -/
def ctrlCmdAddUser (s : Server) (req : List Char) : Server × Answer :=
  match readName req, readKey req with
  | some name, some key =>
    match s.addUserResult name key with
    | (s, .ok) =>
      if readFixedIp req ≠ [] then
        match s.fixedIpResult name (readFixedIp req) with
        | (s, .ok) => (s, .ok)
        | (s, _) => (s, .error "fixed_ip invalid or unavailable")
      else (s, .ok)
    | (s, rc) => (s, .error ("add_user failed (" ++ toString (codeNumber rc) ++ ")"))
  | _, _ => (s, .error "name and key required")

/-! ## What is claimed of it -/

/-- A request that is refused changes nothing, and one that is not leaves the user whom it
    denotes; without an address in the request, the user has the one that he had. -/
structure AllOrNothing (s : Server) (ws : Blank) (ms : Syn .members) : Prop where
  refused : (ctrlCmdAddUser s (Syn.object ws ms).text).2 ≠ .ok →
    (ctrlCmdAddUser s (Syn.object ws ms).text).1.config.users = s.config.users ∧
      (ctrlCmdAddUser s (Syn.object ws ms).text).1.pinnedIps = s.pinnedIps ∧
      (ctrlCmdAddUser s (Syn.object ws ms).text).1.pool = s.pool
  added : (ctrlCmdAddUser s (Syn.object ws ms).text).2 = .ok →
    ∃ name key, ms.ownString "name".toList = some name ∧ ms.ownString "key".toList = some key ∧
      ∃ u ∈ (ctrlCmdAddUser s (Syn.object ws ms).text).1.row name,
        u.key = key ∧ u.fixedIp = (ms.ownString "fixed_ip".toList).getD ((s.row name).elim [] User.fixedIp)

/-- The user can be added, or is there. -/
def Accepts (s : Server) (name key : List Char) : Prop :=
  name ≠ [] ∧ key ≠ [] ∧ ValidName name ∧ ((s.row name).isSome = true ∨ s.config.users.length < maxUsers)

/-- The address is none of the pool, or it is taken, or there is no room for it, when the user
    has lost the first pin. -/
def RefusesIp (s : Server) (name ip : List Char) : Prop :=
  ∀ off ∈ s.fixedOffset ip, ¬((s.unpin name).pool.Vacant off ∧ (s.unpin name).pinnedIps.length < maxUsers)

/-- The address is refused after the user was added. -/
def LateRefusal (s : Server) (req name : List Char) : Prop :=
  readFixedIp req ≠ [] ∧ RefusesIp s name (readFixedIp req)

/-- What is lost when an address is refused: nothing if the user was there with the key, and the
    address is none of the pool or the user has no pin. -/
def LosesNothing (s : Server) (name key ip : List Char) : Prop :=
  (∃ u ∈ s.row name, u.key = key) ∧ (s.fixedOffset ip = none ∨ ∀ pin ∈ s.pinnedIps, pin.username ≠ name)

/-- The texts that are read are those that the request denotes; or it denotes another user, who
    is there already with its key and address. -/
def Denotes (s : Server) (ms : Syn .members) (name key ip : List Char) : Prop :=
  ∃ name' key', ms.ownString "name".toList = some name' ∧ ms.ownString "key".toList = some key' ∧
    ((name' = name ∧ key' = key ∧ (ms.ownString "fixed_ip".toList).getD ((s.row name).elim [] User.fixedIp) =
        if ip = [] then (s.row name).elim [] User.fixedIp else ip) ∨
      name' ≠ name ∧ ∃ u ∈ s.row name', u.key = key' ∧ u.fixedIp = (ms.ownString "fixed_ip".toList).getD u.fixedIp)

/-- A request that is refused in its second call has done nothing in its first, and one that is
    accepted is read as it is written. -/
def Faithful (s : Server) (ws : Blank) (ms : Syn .members) : Prop :=
  ∀ name ∈ readName (Syn.object ws ms).text, ∀ key ∈ readKey (Syn.object ws ms).text, Accepts s name key →
    (LateRefusal s (Syn.object ws ms).text name → LosesNothing s name key (readFixedIp (Syn.object ws ms).text)) ∧
    (¬LateRefusal s (Syn.object ws ms).text name → Denotes s ms name key (readFixedIp (Syn.object ws ms).text))

variable {s : Server} {name key ip : List Char}

/-! ## Rows -/

/-- A row that is changed is found with the change, and the others as they were. -/
theorem find?_modify {l : List User} {f : User → User} (hf : ∀ u, (f u).name = u.name) {i : Nat}
    (hi : l.findIdx? (fun u => u.name = name) = some i) (n : List Char) :
    (l.modify i f).find? (fun u => u.name = n) =
      if n = name then (l.find? fun u => u.name = n).map f else l.find? fun u => u.name = n := by
  induction l generalizing i with
  | nil => cases hi
  | cons u l ih =>
    rw [List.findIdx?_cons] at hi
    by_cases hu : u.name = name
    · rw [decide_eq_true hu, if_pos rfl] at hi
      cases hi
      rw [List.modify_zero_cons, List.find?_cons, List.find?_cons, hf]
      by_cases hn : n = name
      · rw [if_pos hn, hn, decide_eq_true hu]
        rfl
      · rw [if_neg hn, decide_eq_false (fun h => hn (h.symm.trans hu))]
    · rw [decide_eq_false hu, if_neg (by simp)] at hi
      obtain ⟨j, hj, rfl⟩ := Option.map_eq_some_iff.1 hi
      rw [List.modify_succ_cons, List.find?_cons, List.find?_cons, ih hj]
      by_cases hn : n = name
      · rw [if_pos hn, if_pos hn, hn, decide_eq_false hu]
      · rw [if_neg hn, if_neg hn]

theorem row_isSome_iff : (s.row name).isSome = true ↔ ∃ i, s.config.users.findIdx? (fun u => u.name = name) = some i := by
  rw [row, List.find?_isSome, ← Option.isSome_iff_exists, List.findIdx?_isSome, List.any_eq_true]

/-- The calls for a user change the configuration at most in the list of users. -/
def withUsers (s : Server) (users : List User) : Server := { s with config := { s.config with users } }

theorem row_of_findIdx? {i : Nat} (hi : s.config.users.findIdx? (fun u => u.name = name) = some i) :
    ∃ hlt : i < s.config.users.length, s.row name = some s.config.users[i] ∧ s.config.users[i].name = name := by
  obtain ⟨hlt, hname, hfirst⟩ := List.findIdx?_eq_some_iff_getElem.1 hi
  exact ⟨hlt, List.find?_eq_some_iff_getElem.2 ⟨hname, i, hlt, rfl, fun j hj => by simpa using hfirst j hj⟩,
    of_decide_eq_true hname⟩

/-- The user is added, or has the key. -/
theorem addUserResult_of_accepts (h : Accepts s name key) (hname : name.length ≤ 63) (hkey : key.length ≤ 255) :
    ∃ users, s.addUserResult name key = (withUsers s users, .ok) ∧
      (∀ n, (withUsers s users).row n =
        if n = name then some ⟨name, key, (s.row name).elim [] User.fixedIp⟩ else s.row n) ∧
      (users = s.config.users ↔ ∃ u ∈ s.row name, u.key = key) := by
  obtain ⟨hne, hkeyne, hvalid, hroom⟩ := h
  rw [addUserResult, if_neg (by simp [hne, hkeyne, hvalid])]
  cases hi : s.config.users.findIdx? fun u => decide (u.name = name) with
  | some i =>
    obtain ⟨hlt, hrow, huser⟩ := row_of_findIdx? hi
    refine ⟨_, rfl, fun n => ?_, ?_⟩
    · refine (find?_modify (f := fun u => { u with key := key.take 255 }) (fun _ => rfl) hi n).trans ?_
      by_cases hn : n = name
      · rw [if_pos hn, if_pos hn, hn]
        refine (congrArg (Option.map _) hrow).trans ?_
        rw [hrow, List.take_of_length_le hkey, ← huser]
        rfl
      · rw [if_neg hn, if_neg hn]
        rfl
    · rw [hrow]
      simp only [Option.mem_some_iff, exists_eq_left', List.take_of_length_le hkey]
      constructor
      · intro heq
        have hget := List.getElem_of_eq heq (by rwa [List.length_modify])
        rw [List.getElem_modify_eq] at hget
        exact (congrArg User.key hget).symm
      · intro heq
        refine List.ext_getElem (List.length_modify ..) fun j _ hj => ?_
        rw [List.getElem_modify]
        split_ifs with hij
        · subst hij heq
          rfl
        · rfl
  | none =>
    have hnone : s.row name = none := by
      rw [← Option.not_isSome_iff_eq_none, row_isSome_iff, hi]
      simp
    rw [hnone] at hroom ⊢
    dsimp only
    rw [if_neg (Nat.not_le.2 (hroom.resolve_left (by simp)))]
    refine ⟨_, rfl, fun n => ?_, ?_⟩
    · rw [row, withUsers, List.find?_append, List.take_of_length_le hname, List.take_of_length_le hkey]
      by_cases hn : n = name
      · rw [if_pos hn, hn]
        refine (congrArg (Option.or · _) hnone).trans ?_
        rw [Option.none_or, List.find?_singleton, if_pos (decide_eq_true rfl)]
        rfl
      · rw [if_neg hn, List.find?_cons_of_neg (by simpa using Ne.symm hn), List.find?_nil, Option.or_none]
        rfl
    · simp

/-- A user who is not added is refused, and nothing is changed. -/
theorem addUserResult_of_not_accepts (h : ¬Accepts s name key) :
    (s.addUserResult name key).1 = s ∧ (s.addUserResult name key).2 ≠ .ok := by
  rw [addUserResult]
  by_cases hinvalid : name = [] ∨ key = [] ∨ ¬ValidName name
  · rw [if_pos hinvalid]
    exact ⟨rfl, by simp⟩
  rw [if_neg hinvalid]
  push Not at hinvalid
  obtain ⟨hne, hkeyne, hvalid⟩ := hinvalid
  have hroom : ¬((s.row name).isSome = true ∨ s.config.users.length < maxUsers) := fun hroom =>
    h ⟨hne, hkeyne, hvalid, hroom⟩
  push Not at hroom
  cases hi : s.config.users.findIdx? fun u => decide (u.name = name) with
  | some i => exact absurd (row_isSome_iff.2 ⟨i, hi⟩) hroom.1
  | none =>
    dsimp only
    rw [if_pos hroom.2]
    exact ⟨rfl, by simp⟩

/-! ## The address -/

theorem unpin_withUsers (s : Server) (users : List User) (name : List Char) :
    (withUsers s users).unpin name = withUsers (s.unpin name) users := by
  rw [unpin, unpin, withUsers]
  dsimp only
  cases s.pinnedIps.findIdx? fun pin => decide (pin.username = name) with
  | none => rfl
  | some i =>
    dsimp only
    cases s.pinnedIps[i]? <;> rfl

theorem refusesIp_withUsers {users : List User} : RefusesIp (withUsers s users) name ip ↔ RefusesIp s name ip := by
  rw [RefusesIp, unpin_withUsers]
  rfl

/-- An address that is refused costs the pin, unless it is none of the pool. -/
theorem fixedIpResult_spec (hname : name ≠ []) (hrow : (s.row name).isSome = true) (hip : ip ≠ [])
    (hlength : ip.length ≤ 19) :
    (¬RefusesIp s name ip ∧ (s.fixedIpResult name ip).2 = .ok ∧ ∀ n, (s.fixedIpResult name ip).1.row n =
        if n = name then (s.row n).map fun u => { u with fixedIp := ip } else s.row n) ∨
      RefusesIp s name ip ∧ (s.fixedIpResult name ip).2 ≠ .ok ∧
        (s.fixedIpResult name ip).1 = if s.fixedOffset ip = none then s else s.unpin name := by
  obtain ⟨i, hi⟩ := row_isSome_iff.1 hrow
  cases hoff : s.fixedOffset ip with
  | none =>
    have hrefused : s.fixedIpResult name ip = (s, .invalidArg) :=
      fixedIpResult_of_refused (by simp [hoff, hip])
    rw [hrefused, if_pos rfl]
    exact .inr ⟨fun off hmem => absurd (hoff.symm.trans hmem) (by simp), by simp, rfl⟩
  | some off =>
    have hrefuses : RefusesIp s name ip ↔
        ¬((s.unpin name).pool.Vacant off ∧ (s.unpin name).pinnedIps.length < maxUsers) := by
      rw [RefusesIp, hoff]
      simp only [Option.mem_some_iff, forall_eq']
    rw [hrefuses, if_neg (by simp)]
    rcases fixedIpResult_cases hname hi hip hoff with ⟨hvacant, hroom, heq⟩ | ⟨hnot, hfst, hcode⟩
    · refine .inl ⟨fun hnot => hnot ⟨hvacant, hroom⟩, by rw [heq], fun n => ?_⟩
      have hconfig : ((s.unpin name).pinned name off).config = s.config := config_unpin s name
      rw [heq, setFixedIp, row, hconfig, List.take_of_length_le hlength]
      exact find?_modify (f := fun u => { u with fixedIp := ip }) (fun _ => rfl) hi n
    · exact .inr ⟨hnot, hcode, hfst⟩

/-- Without a pin, nothing is lost. -/
theorem unpin_same_iff :
    ((s.unpin name).pinnedIps = s.pinnedIps ∧ (s.unpin name).pool = s.pool) ↔ ∀ pin ∈ s.pinnedIps, pin.username ≠ name := by
  rcases unpin_cases s name with ⟨heq, hnone⟩ | ⟨i, pin, hi, hname, -, heq⟩
  · rw [heq]
    exact ⟨fun _ => hnone, fun _ => ⟨rfl, rfl⟩⟩
  · rw [heq]
    obtain ⟨hlt, -⟩ := List.getElem?_eq_some_iff.1 hi
    refine ⟨fun ⟨hpins, _⟩ => ?_, fun hnone => absurd hname (hnone pin (List.mem_of_getElem? hi))⟩
    have hlength := congrArg List.length hpins
    rw [List.length_eraseIdx_of_lt hlt] at hlength
    omega

/-! ## The request -/

/-- The command is refused at once; or the user is added, and the address is refused or set. -/
theorem ctrlCmdAddUser_cases (s : Server) (req : List Char) :
    ((∀ name ∈ readName req, ∀ key ∈ readKey req, ¬Accepts s name key) ∧ (ctrlCmdAddUser s req).1 = s ∧
      (ctrlCmdAddUser s req).2 ≠ .ok) ∨
    ∃ name key, readName req = some name ∧ readKey req = some key ∧ Accepts s name key ∧
      ((LateRefusal s req name ∧ (ctrlCmdAddUser s req).2 ≠ .ok ∧ ∃ users,
          (users = s.config.users ↔ ∃ u ∈ s.row name, u.key = key) ∧ (ctrlCmdAddUser s req).1 =
            withUsers (if s.fixedOffset (readFixedIp req) = none then s else s.unpin name) users) ∨
        ¬LateRefusal s req name ∧ (ctrlCmdAddUser s req).2 = .ok ∧ ∀ n, (ctrlCmdAddUser s req).1.row n =
          if n = name then some ⟨name, key,
            if readFixedIp req = [] then (s.row name).elim [] User.fixedIp else readFixedIp req⟩
          else s.row n) := by
  rw [ctrlCmdAddUser]
  cases hname : readName req with
  | none => exact .inl ⟨fun _ h => absurd h (by simp), rfl, by simp⟩
  | some name =>
    cases hkey : readKey req with
    | none => exact .inl ⟨fun _ _ _ h => absurd h (by simp), rfl, by simp⟩
    | some key =>
      dsimp only
      by_cases haccepts : Accepts s name key
      case neg =>
        obtain ⟨hfst, hcode⟩ := addUserResult_of_not_accepts haccepts
        refine .inl ⟨fun n hn k hk => ?_, ?_⟩
        · cases hn
          cases hk
          exact haccepts
        · split
          · rename_i heq
            rw [heq] at hcode
            exact absurd rfl hcode
          · rename_i _ heq
            rw [heq] at hfst
            exact ⟨hfst, by simp⟩
      obtain ⟨p, hp, hread⟩ := Option.bind_eq_some_iff.1 hname
      obtain ⟨q, hq, hread'⟩ := Option.bind_eq_some_iff.1 hkey
      obtain ⟨users, heq, hrow, husers⟩ :=
        addUserResult_of_accepts haccepts (length_readString hread) (length_readString hread')
      refine .inr ⟨name, key, rfl, rfl, haccepts, ?_⟩
      rw [heq]
      dsimp only
      by_cases hip : readFixedIp req = []
      · rw [if_neg (not_not_intro hip), if_pos hip]
        exact .inr ⟨fun hlate => hlate.1 hip, rfl, hrow⟩
      rw [if_pos hip, if_neg hip]
      have hthere : ((withUsers s users).row name).isSome = true := by
        rw [hrow, if_pos rfl]
        rfl
      have hlength : (readFixedIp req).length ≤ 19 := by
        rw [readFixedIp]
        cases findKey "fixed_ip".toList req with
        | none => exact Nat.zero_le _
        | some p => exact length_stringBuf p 20
      rcases fixedIpResult_spec haccepts.1 hthere hip hlength with ⟨hset, hcode, hrow'⟩ | ⟨hrefused, hcode, hfst⟩
      · rw [refusesIp_withUsers] at hset
        refine .inr ⟨fun hlate => hset hlate.2, ?_⟩
        rcases hresult : (withUsers s users).fixedIpResult name (readFixedIp req) with ⟨s', code⟩
        rw [hresult] at hcode hrow'
        have hcode : code = .ok := hcode
        subst hcode
        refine ⟨rfl, fun n => (hrow' n).trans ?_⟩
        rw [hrow]
        split_ifs <;> rfl
      · rw [refusesIp_withUsers] at hrefused
        refine .inl ⟨⟨hip, hrefused⟩, ?_⟩
        have hstate : ((withUsers s users).fixedIpResult name (readFixedIp req)).1 =
            withUsers (if s.fixedOffset (readFixedIp req) = none then s else s.unpin name) users := by
          rw [hfst, unpin_withUsers]
          exact (apply_ite (withUsers · users) _ _ _).symm
        split
        · rename_i heq
          rw [heq] at hcode
          exact absurd rfl hcode
        · rename_i _ heq
          rw [heq] at hstate
          exact ⟨by simp, users, husers, hstate⟩

/-- The user is there with what the request denotes. -/
theorem denotes_iff (ms : Syn .members) {row' : List Char → Option User}
    (hrow : ∀ n, row' n =
      if n = name then some ⟨name, key, if ip = [] then (s.row name).elim [] User.fixedIp else ip⟩ else s.row n) :
    (∃ name' key', ms.ownString "name".toList = some name' ∧ ms.ownString "key".toList = some key' ∧
      ∃ u ∈ row' name', u.key = key' ∧
        u.fixedIp = (ms.ownString "fixed_ip".toList).getD ((s.row name').elim [] User.fixedIp)) ↔
      Denotes s ms name key ip := by
  refine exists_congr fun name' => exists_congr fun key' => and_congr_right fun _ => and_congr_right fun _ => ?_
  rw [hrow]
  by_cases hname : name' = name
  · subst hname
    simp only [if_pos, Option.mem_some_iff, exists_eq_left', ne_eq, not_true, false_and, or_false, true_and]
    exact and_congr eq_comm eq_comm
  · simp only [hname, if_false, false_and, false_or, ne_eq, not_false_eq_true, true_and]
    refine exists_congr fun u => and_congr_right fun hu => ?_
    rw [show s.row name' = some u from hu]
    rfl

/-- Nothing is changed if an address is refused, exactly if there was nothing to change. -/
theorem unchanged_iff (ip : List Char) {users : List User} (husers : users = s.config.users ↔ ∃ u ∈ s.row name, u.key = key) :
    ((withUsers (if s.fixedOffset ip = none then s else s.unpin name) users).config.users = s.config.users ∧
      (withUsers (if s.fixedOffset ip = none then s else s.unpin name) users).pinnedIps = s.pinnedIps ∧
      (withUsers (if s.fixedOffset ip = none then s else s.unpin name) users).pool = s.pool) ↔
      LosesNothing s name key ip := by
  refine and_congr husers ?_
  rw [withUsers]
  dsimp only
  by_cases hoff : s.fixedOffset ip = none
  · rw [if_pos hoff]
    exact ⟨fun _ => .inl hoff, fun _ => ⟨rfl, rfl⟩⟩
  · rw [if_neg hoff, unpin_same_iff]
    exact (or_iff_right hoff).symm

/-- The members of a request. -/
def addition (name key fixedIp : Body) : Syn .members :=
  .ofMembers [(.ofText "name".toList, .string name), (.ofText "key".toList, .string key),
    (.ofText "fixed_ip".toList, .string fixedIp)]

/-- A user whom the sample does not have, with an address that is not in its subnet. -/
def strayAddition : Syn .members := addition (.ofText "carol".toList) (.ofText "c".toList) (.ofText "10.9.9.9".toList)

end Control

end Mqvpn
