import Mqvpn.ConfigFile.Builder

/-!
# Names

A user is added with a name that can be printed between quotes (`ValidName`), in the
configuration and on the server, and a connection gets its name from a user, or from the header
`x-user` if its token is the global key. So in every run in which such headers can be printed
(`Intake`), all names can (`named_run`).
-/

namespace Mqvpn

open Server

/-- A name that can be printed between quotes, and fits in its array. -/
structure Printable (name : List Char) : Prop where
  valid : ValidName name
  length : name.length < 64

instance (name : List Char) : Decidable (Printable name) :=
  decidable_of_iff (ValidName name ∧ name.length < 64) ⟨fun h => ⟨h.1, h.2⟩, fun h => ⟨h.1, h.2⟩⟩

theorem Printable.take {name : List Char} (h : ValidName name) : Printable (name.take 63) :=
  ⟨fun c hc => h c (List.mem_of_mem_take hc), Nat.lt_succ_of_le (List.length_take_le _ _)⟩

/-! ## The configuration -/

/-- The rows of the table have names that can be printed. -/
structure UserTable.Named (t : UserTable) : Prop where
  names : ∀ i < t.nUsers, Printable (t.userNames i)
  count : t.nUsers ≤ maxUsers

namespace UserTable.Named

variable {t : UserTable} {username key : List Char}

theorem addUser (h : t.Named) : (t.addUser username key).1.Named := by
  rw [UserTable.addUser]
  by_cases hempty : username = [] ∨ key = []
  · rw [if_pos hempty]
    exact h
  rw [if_neg hempty]
  by_cases hvalid : ¬ValidName username
  · rw [if_pos hvalid]
    exact h
  rw [if_neg hvalid]
  cases t.find username with
  | some i => exact ⟨h.names, h.count⟩
  | none =>
    dsimp only
    by_cases hroom : maxUsers ≤ t.nUsers
    · rw [if_pos hroom]
      exact h
    rw [if_neg hroom]
    refine ⟨fun i hi => ?_, Nat.not_le.1 hroom⟩
    rw [addRow]
    by_cases hlast : i = t.nUsers
    · subst hlast
      dsimp only
      rw [Function.update_self]
      exact .take (not_not.1 hvalid)
    · dsimp only
      rw [Function.update_of_ne hlast]
      exact h.names i (Nat.lt_of_le_of_ne (Nat.le_of_lt_succ hi) hlast)

theorem removeRow (h : t.Named) (i : Nat) : (Builder.removeRow t i).Named := by
  refine ⟨fun k hk => ?_, (Nat.sub_le _ _).trans h.count⟩
  have hk : k < t.nUsers - 1 := hk
  rw [Builder.removeRow]
  dsimp only
  rw [shiftDown_of_lt _ hk]
  exact h.names _ (by split_ifs <;> omega)

theorem addEntry (h : t.Named) (e : Builder.Entry) : (Builder.addEntry t e).1.Named := by
  have hadd : (Builder.addUser t e.uname e.key).1.Named := h.addUser
  rw [Builder.addEntry]
  split
  · rename_i t' heq
    rw [heq] at hadd
    by_cases hip : e.fixedIp = []
    · rw [if_pos hip]
      exact hadd
    rw [if_neg hip, Builder.setUserFixedIp]
    split_ifs
    · exact hadd
    · split
      · exact hadd
      · exact ⟨hadd.names, hadd.count⟩
  · rename_i t' code _ heq
    rw [heq] at hadd
    exact hadd

theorem usersLoop (h : t.Named) (p : List Char) : (Builder.usersLoop t p).1.Named := by
  fun_induction Builder.usersLoop t p with
  | case1 t tail => exact h
  | case2 t p hp he => exact h
  | case3 t p hp e rest he hfailed => exact h.addEntry e
  | case4 t p hp e rest he hok q hws ih => exact ih (h.addEntry e)
  | case5 t p hp e rest he hok tail hws => exact h.addEntry e
  | case6 t p hp e rest he hok hcomma hbracket => exact h.addEntry e

theorem call (h : t.Named) (c : Builder.Call) : (Builder.call t c).1.Named := by
  cases c with
  | addUser username key => exact h.addUser
  | removeUser username =>
    rw [Builder.call, Builder.removeUser]
    split_ifs
    · exact h
    · split
      · exact h
      · exact h.removeRow _
  | setUserFixedIp username ip =>
    rw [Builder.call, Builder.setUserFixedIp]
    split_ifs
    · exact h
    · split
      · exact h
      · exact ⟨h.names, h.count⟩
  | loadJson jsonText =>
    rw [Builder.call, Builder.loadJson]
    split_ifs
    · exact h
    · split
      · exact h
      · rename_i v _
        rw [Builder.readUsers.eq_def]
        cases v with
        | nil => exact h
        | cons c cs =>
          by_cases hc : c = '['
          · subst hc
            exact usersLoop ⟨fun i hi => absurd hi (Nat.not_lt_zero i), Nat.zero_le _⟩ _
          · split
            · rename_i heq
              exact absurd (List.cons.inj heq).1 hc
            · exact h

end UserTable.Named

/-- Whatever calls make the configuration. -/
theorem Builder.named_run (calls : List Call) : (run calls).Named :=
  List.foldlRecOn calls _ ⟨fun i hi => absurd hi (Nat.not_lt_zero i), Nat.zero_le _⟩ fun _ h c _ => h.call c

/-! ## The server -/

namespace Server

variable {s s' : Server} {c : Nat} {k k' : Conn}

/-- The names of the users and of the connections can be printed. -/
structure Named (s : Server) : Prop where
  users : ∀ u ∈ s.config.users, Printable u.name
  count : s.config.users.length ≤ maxUsers
  conns : ∀ k ∈ s.conns, Printable k.username

/-- No names come in. -/
structure KeepsNames (s s' : Server) : Prop where
  users : s'.config.users.map User.name = s.config.users.map User.name
  conns : ∀ k' ∈ s'.conns, ∃ k ∈ s.conns, k'.username = k.username

theorem KeepsNames.refl (s : Server) : KeepsNames s s := ⟨rfl, fun k hk => ⟨k, hk, rfl⟩⟩

theorem KeepsNames.trans {s'' : Server} (h : KeepsNames s s') (h' : KeepsNames s' s'') : KeepsNames s s'' := by
  refine ⟨h'.users.trans h.users, fun k'' hk'' => ?_⟩
  obtain ⟨k', hk', heq'⟩ := h'.conns k'' hk''
  obtain ⟨k, hk, heq⟩ := h.conns k' hk'
  exact ⟨k, hk, heq'.trans heq⟩

theorem KeepsNames.of_eq (hconfig : s'.config = s.config) (hconns : s'.conns = s.conns) : KeepsNames s s' :=
  ⟨by rw [hconfig], fun k hk => ⟨k, hconns ▸ hk, rfl⟩⟩

theorem Named.of_keeps (h : s.Named) (hs : KeepsNames s s') : s'.Named := by
  refine ⟨fun u hu => ?_, ?_, fun k' hk' => ?_⟩
  · obtain ⟨v, hv, heq⟩ := List.mem_map.1 (hs.users ▸ List.mem_map_of_mem hu : u.name ∈ s.config.users.map User.name)
    exact heq ▸ h.users v hv
  · have hlength := congrArg List.length hs.users
    rw [List.length_map, List.length_map] at hlength
    exact hlength.trans_le h.count
  · obtain ⟨k, hk, heq⟩ := hs.conns k' hk'
    exact heq ▸ h.conns k hk

theorem keepsNames_setConn (hk : k ∈ s.conns) (hname : k'.username = k.username) : KeepsNames s (s.setConn c k') := by
  refine ⟨rfl, fun l hl => ?_⟩
  rcases List.mem_or_eq_of_mem_set hl with hl | rfl
  · exact ⟨l, hl, rfl⟩
  · exact ⟨k, hk, hname⟩

theorem keepsNames_cbH3ConnClose (hk : k ∈ s.conns) : KeepsNames s (s.cbH3ConnClose c k) := by
  have hremove (off : Nat) : KeepsNames s (s.removeSession c off) := by
    rw [removeSession]
    split_ifs <;> exact .of_eq rfl rfl
  have hgive (s : Server) (off : Nat) : KeepsNames s (s.giveBack k off) := by
    rw [giveBack]
    split_ifs
    · exact .refl s
    · rw [saveLease]
      split <;> exact .of_eq rfl rfl
    · exact .of_eq rfl rfl
  rw [cbH3ConnClose]
  dsimp only
  split_ifs
  · have hclose := (hremove (s.pool.offset k.assignedIp)).trans (hgive _ (s.pool.offset k.assignedIp))
    have hconns : (((s.removeSession c (s.pool.offset k.assignedIp)).giveBack k (s.pool.offset k.assignedIp))).conns =
        s.conns := by
      rw [giveBack, removeSession]
      split_ifs <;> first | rfl | (rw [saveLease]; split <;> rfl)
    exact hclose.trans (keepsNames_setConn (k := k) (hconns.symm ▸ hk) rfl)
  · exact keepsNames_setConn hk rfl

theorem keepsNames_onTunPacket (s : Server) (nowUs : Nat) (t : Client.TunPacket) : KeepsNames s (s.onTunPacket nowUs t).1 := by
  have hsend {s : Server} {c : Nat} {k : Conn} (hk : k ∈ s.conns) (pk : Reorder.TxPeek) :
      KeepsNames s (s.sendDatagram c k nowUs t pk).1 := by
    rw [sendDatagram]
    split_ifs
    · exact .refl s
    · exact .refl s
    · exact .refl s
    · cases t.send with
      | ok => exact keepsNames_setConn hk rfl
      | again =>
        have hpause : KeepsNames s { s with tunPaused := true } := .of_eq rfl rfl
        exact hpause.trans (keepsNames_setConn hk rfl)
      | error => exact .refl s
  rw [onTunPacket]
  split_ifs
  · exact .refl s
  · exact .refl s
  · exact .refl s
  · split
    · exact .refl s
    · split
      · exact .refl s
      · rename_i c _ _ k hk
        split_ifs
        · exact .refl s
        · generalize k.peek s.config nowUs t = r
          obtain ⟨go, pk, reorderTx⟩ := r
          have hset : KeepsNames s (s.setConn c { k with reorderTx }) :=
            keepsNames_setConn (List.mem_of_getElem? hk) rfl
          cases go with
          | true => exact hset.trans (hsend (List.mem_of_getElem? (getElem?_setConn_self hk)) pk)
          | false => exact hset

theorem keepsNames_unpin (s : Server) (name : List Char) : KeepsNames s (s.unpin name) := by
  refine .of_eq (config_unpin s name) ?_
  rcases unpin_cases s name with ⟨h, -⟩ | ⟨i, pin, -, -, -, h⟩ <;> rw [h]

theorem keepsNames_disconnect (s : Server) (name : List Char) : KeepsNames s (s.disconnect name) := by
  refine ⟨rfl, fun k' hk' => ?_⟩
  rw [disconnect, List.mem_mapIdx] at hk'
  obtain ⟨c, hc, rfl⟩ := hk'
  refine ⟨_, List.getElem_mem hc, ?_⟩
  split_ifs <;> rfl

/-- A change of the users that leaves their names alone. -/
theorem map_name_modify (l : List User) {f : User → User} (h : ∀ u, (f u).name = u.name) (i : Nat) :
    (l.modify i f).map User.name = l.map User.name := by
  refine List.ext_getElem (by simp) fun j hj hj' => ?_
  rw [List.getElem_map, List.getElem_map, List.getElem_modify]
  split_ifs
  · exact h _
  · rfl

theorem keepsNames_setFixedIp (s : Server) (i : Nat) (ip : List Char) : KeepsNames s (s.setFixedIp i ip) :=
  ⟨map_name_modify s.config.users (f := fun u => { u with fixedIp := ip.take 19 }) (fun _ => rfl) i,
    fun k hk => ⟨k, hk, rfl⟩⟩

theorem keepsNames_setUserFixedIp (s : Server) (name ip : List Char) : KeepsNames s (s.setUserFixedIp name ip) := by
  have hunpin := keepsNames_unpin s name
  rw [setUserFixedIp]
  by_cases hname : name = []
  · rw [if_pos hname]
    exact .refl s
  rw [if_neg hname]
  cases s.config.users.findIdx? fun u => decide (u.name = name) with
  | none => exact .refl s
  | some i =>
    dsimp only
    by_cases hip : ip = []
    · rw [if_pos hip]
      exact hunpin.trans (keepsNames_setFixedIp _ i [])
    rw [if_neg hip]
    cases s.fixedOffset ip with
    | none => exact .refl s
    | some off =>
      dsimp only
      cases hpin : (s.unpin name).pin name off with
      | none => exact hunpin
      | some s' =>
        have hs' : KeepsNames (s.unpin name) s' := by
          obtain ⟨-, rfl⟩ := pin_spec hpin
          exact .of_eq rfl rfl
        exact (hunpin.trans hs').trans (keepsNames_setFixedIp s' i ip)

/-! ## Names that come in -/

theorem Named.addUser (h : s.Named) (name key : List Char) : (s.addUser name key).Named := by
  rw [Server.addUser]
  by_cases hinvalid : name = [] ∨ key = [] ∨ ¬ValidName name
  · rw [if_pos hinvalid]
    exact h
  rw [if_neg hinvalid]
  push Not at hinvalid
  cases s.config.users.findIdx? fun u => decide (u.name = name) with
  | some i =>
    exact h.of_keeps ⟨map_name_modify s.config.users (f := fun u => { u with key := key.take 255 }) (fun _ => rfl) i,
      fun k hk => ⟨k, hk, rfl⟩⟩
  | none =>
    dsimp only
    by_cases hroom : maxUsers ≤ s.config.users.length
    · rw [if_pos hroom]
      exact h
    rw [if_neg hroom]
    refine ⟨fun u hu => ?_, ?_, h.conns⟩
    · rcases List.mem_append.1 hu with hu | hu
      · exact h.users u hu
      · cases List.mem_singleton.1 hu
        exact .take hinvalid.2.2
    · dsimp only
      rw [List.length_append, List.length_singleton]
      exact Nat.not_le.1 hroom

theorem Named.removeUser (h : s.Named) (name : List Char) : (s.removeUser name).Named := by
  rw [Server.removeUser]
  split_ifs
  · exact h
  split
  · exact h
  · rename_i i _
    have herase : ({ s with config := { s.config with users := s.config.users.eraseIdx i } } : Server).Named :=
      ⟨fun u hu => h.users u (List.mem_of_mem_eraseIdx hu), (List.length_eraseIdx_le _ _).trans h.count, h.conns⟩
    exact (herase.of_keeps (keepsNames_unpin _ name)).of_keeps (keepsNames_disconnect _ name)

/-- The name of the connection is taken from the header of the request. -/
def TakesHeader (s : Server) (r : Request) : Prop :=
  r.valid = true ∧ s.AuthRequired ∧ s.authCheck r.authToken = some globalName ∧ r.xUser ≠ []

instance (r : Request) : Decidable (s.TakesHeader r) := inferInstanceAs (Decidable (_ ∧ _))

/-- A name that is taken from a header can be printed. -/
def Intake (s : Server) (st : Step) : Prop :=
  match st.call with
  | .request _ r => s.TakesHeader r → ValidName (r.xUser.take 63)
  | _ => True

instance (st : Step) : Decidable (s.Intake st) := by
  rw [Intake]
  split <;> infer_instance

theorem Named.authCheck (h : s.Named) {authToken : Option (List Char)} {name : List Char}
    (hname : s.authCheck authToken = some name) : Printable name := by
  cases authToken with
  | none => cases hname
  | some token =>
    rw [Server.authCheck] at hname
    split_ifs at hname
    · cases hname
      decide
    · obtain ⟨u, hu, rfl⟩ := Option.map_eq_some_iff.1 hname
      exact h.users u (List.mem_of_find?_eq_some hu)

theorem Named.authenticate (h : s.Named) (hk : Printable k.username) {r : Request}
    (hintake : s.TakesHeader r → ValidName (r.xUser.take 63)) {name : List Char}
    (hname : s.authenticate k r = some name) : Printable name := by
  rw [Server.authenticate] at hname
  split_ifs at hname with hvalid hauth
  · obtain ⟨username, hcheck, rfl⟩ := Option.map_eq_some_iff.1 hname
    split_ifs with hheader
    · obtain ⟨rfl, hxuser⟩ := hheader
      refine ⟨hintake ⟨by simpa using hvalid, hauth, hcheck, hxuser⟩, ?_⟩
      exact Nat.lt_succ_of_le (List.length_take_le _ _)
    · exact h.authCheck hcheck
  · cases hname
    exact hk

/-- A connection is set that has this name. -/
theorem Named.setConn (h : s.Named) (hk : Printable k.username) : (s.setConn c k).Named := by
  refine ⟨h.users, h.count, fun l hl => ?_⟩
  rcases List.mem_or_eq_of_mem_set hl with hl | rfl
  · exact h.conns l hl
  · exact hk

theorem Named.svrMasqueSendResponse (h : s.Named) (hk : Printable k.username) (r : Request) :
    (s.svrMasqueSendResponse c k r).Named := by
  rw [Server.svrMasqueSendResponse]
  split_ifs
  · dsimp only
    split
    · rename_i pool ip _
      have hpool : ({ s with pool } : Server).Named := ⟨h.users, h.count, h.conns⟩
      have hsession (off : Nat) : (({ s with pool } : Server).addSession c off).Named := by
        rw [addSession]
        split_ifs
        · exact ⟨h.users, h.count, h.conns⟩
        · exact hpool
      rw [establish]
      dsimp only
      split_ifs
      · exact (hsession _).setConn hk
      · exact (hsession _).setConn hk
      · exact Named.setConn ⟨h.users, h.count, h.conns⟩ hk
    · exact h.setConn hk
  · exact h.setConn hk

theorem Named.step (h : s.Named) {st : Step} (hintake : s.Intake st) : (s.step st).Named := by
  obtain ⟨nowUs, call⟩ := st
  cases call with
  | connCreate reorderAlloc =>
    refine ⟨h.users, h.count, fun k hk => ?_⟩
    rcases List.mem_append.1 hk with hk | hk
    · exact h.conns k hk
    · cases List.mem_singleton.1 hk
      exact ⟨fun _ hc => absurd hc List.not_mem_nil, by simp⟩
  | connClose c =>
    exact callback_rule h fun k hk => h.of_keeps (keepsNames_cbH3ConnClose (List.mem_of_getElem? hk.1))
  | request c r =>
    refine callback_rule h fun k hk => ?_
    have hname := h.conns k (List.mem_of_getElem? hk.1)
    rw [svrConnectIpOnRequest]
    dsimp only
    split
    · rename_i username hauth
      exact h.svrMasqueSendResponse (h.authenticate hname hintake (show s.authenticate k r = some username from hauth)) r
    · exact h.setConn hname
  | requestClose c =>
    refine callback_rule h fun k hk => ?_
    rw [cbRequestClose]
    split_ifs
    · exact h
    · exact h.setConn (h.conns k (List.mem_of_getElem? hk.1))
  | dgramWrite c =>
    refine callback_rule h fun k hk => ?_
    exact Named.setConn ⟨h.users, h.count, h.conns⟩ (h.conns k (List.mem_of_getElem? hk.1))
  | dgramMssUpdated c mss => exact callback_rule h fun k hk => h.setConn (h.conns k (List.mem_of_getElem? hk.1))
  | onTunPacket t => exact h.of_keeps (keepsNames_onTunPacket s nowUs t)
  | addUser name key => exact h.addUser name key
  | removeUser name => exact h.removeUser name
  | setUserFixedIp name ip => exact h.of_keeps (keepsNames_setUserFixedIp s name ip)

/-- A server starts with the users of its configuration, and without connections. -/
theorem named_new {cfg : Config} {calls : List Builder.Call} (hcfg : cfg.users = (Builder.run calls).rows)
    (h : new cfg = some s) : s.Named := by
  have hkeeps (users : List User) (s : Server) : KeepsNames s (users.foldl reserve s) := by
    refine List.foldlRecOn users reserve (.refl s) fun s' hs' u _ => hs'.trans ?_
    rw [reserve]
    split_ifs
    · exact .refl s'
    · split
      · exact .refl s'
      · split
        · exact .refl s'
        · exact .of_eq rfl rfl
  obtain ⟨hnames, hcount⟩ := Builder.named_run calls
  have hstart (pool : AddrPool) (maxClients : Int) : ({ config := cfg, pool, maxClients } : Server).Named := by
    refine ⟨fun u hu => ?_, ?_, fun k hk => absurd hk List.not_mem_nil⟩
    · dsimp only at hu
      rw [hcfg] at hu
      obtain ⟨i, hi, rfl⟩ := List.getElem_of_mem hu
      rw [UserTable.getElem_rows]
      exact hnames i (UserTable.length_rows _ ▸ hi)
    · dsimp only
      rw [hcfg, UserTable.length_rows]
      exact hcount
  rw [new] at h
  split at h
  · cases h
  split at h
  · cases h
  cases h
  exact (hstart _ _).of_keeps (hkeeps _ _)

/-- In every run in which the headers that are taken as names can be printed, all names can. -/
theorem named_run {cfg : Config} {calls : List Builder.Call} (hcfg : cfg.users = (Builder.run calls).rows)
    (h : new cfg = some s) {steps : List Step} (hintake : Runs.Along Server.step Intake s steps) : (s.run steps).Named :=
  Runs.foldl_of_along (fun _ _ h hintake => h.step hintake) (named_new hcfg h) hintake

end Server

end Mqvpn
