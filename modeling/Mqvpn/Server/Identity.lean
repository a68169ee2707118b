import Mqvpn.Server.Frame

/-!
# Who a connection is

A request with a token is to be accepted exactly if the token is one of the credentials, and
the connection then is to have the name that goes with the token (`Identified`). The server
finds out who it is in two steps, with the name "(global)" between them for the global key.
A holder of the global key can take any name, also one of a user with another key, and so can
a user who is called "(global)". A name of 64 characters or more is cut when the user is
added, so that two users can come to share a name. When none of this happens
(`Unambiguous`), the connection has the right name (`identified_iff`).
-/

namespace Mqvpn.Server

open Client Reorder

variable {s : Server} {c : Nat} {k : Server.Conn} {r : Request} {token name : List Char}

/-- The name that goes with the global key. -/
def globalName : List Char := "(global)".toList

/-- The token is the global key. -/
def IsGlobal (s : Server) (token : List Char) : Prop := s.config.authKey ≠ [] ∧ token = s.config.authKey

instance (s : Server) (token : List Char) : Decidable (s.IsGlobal token) := inferInstanceAs (Decidable (_ ∧ _))

/-- The token is the key of the user. -/
def User.Has (u : User) (token : List Char) : Prop := u.key ≠ [] ∧ token = u.key

instance (u : User) (token : List Char) : Decidable (u.Has token) := inferInstanceAs (Decidable (_ ∧ _))

/-- The connection is who its token says. -/
structure Identified (s : Server) (c : Nat) (k : Server.Conn) (r : Request) : Prop where
  accepted : (s.authenticate k r).isSome = true ↔
    ¬s.AuthRequired ∨ ∃ token ∈ r.authToken, s.IsGlobal token ∨ ∃ u ∈ s.config.users, u.Has token
  /-- The name is the one of the connection from then on. -/
  taken : ∀ name ∈ s.authenticate k r, (s.svrConnectIpOnRequest c k r).conns[c]?.map Conn.username = some name
  /-- With the key of a user goes the name of a user who has that key. -/
  named : ∀ name ∈ s.authenticate k r, s.AuthRequired → ∀ token ∈ r.authToken, ¬s.IsGlobal token →
    ∃ u ∈ s.config.users, u.name = name ∧ u.Has token
  /-- The name of a user goes with no other key. -/
  exclusive : ∀ name ∈ s.authenticate k r, ∀ u ∈ s.config.users, u.name = name → u.key ≠ [] →
    r.authToken = some u.key

/-- No user of that name has another key. -/
def Unshared (s : Server) (name token : List Char) : Prop :=
  ∀ u ∈ s.config.users, u.name = name → u.key ≠ [] → token = u.key

instance (s : Server) (name token : List Char) : Decidable (s.Unshared name token) :=
  inferInstanceAs (Decidable (∀ u ∈ s.config.users, _))

/-- Neither the name in the request, where it counts, nor the one of the user is the name of a
    user with another key. -/
def Unambiguous (s : Server) (r : Request) : Prop :=
  ∀ token ∈ r.authToken,
    if s.IsGlobal token then s.Unshared (if r.xUser = [] then globalName else r.xUser.take 63) token
    else
      ∀ u ∈ s.config.users.find? (·.Has token),
        if u.name = globalName ∧ r.xUser ≠ [] then
          s.Unshared (r.xUser.take 63) token ∧ ∃ v ∈ s.config.users, v.name = r.xUser.take 63 ∧ v.Has token
        else s.Unshared u.name token

instance (s : Server) (r : Request) : Decidable (s.Unambiguous r) :=
  inferInstanceAs (Decidable (∀ token ∈ r.authToken, _))

/-! ## Tokens -/

theorem authCheck_of_global (h : s.IsGlobal token) : s.authCheck (some token) = some globalName :=
  if_pos h

theorem authCheck_of_not_global (h : ¬s.IsGlobal token) :
    s.authCheck (some token) = (s.config.users.find? (·.Has token)).map User.name :=
  if_neg h

theorem find_has_isSome : (s.config.users.find? (·.Has token)).isSome = true ↔ ∃ u ∈ s.config.users, u.Has token := by
  rw [List.find?_isSome]
  simp only [decide_eq_true_eq]

theorem authCheck_isSome {authToken : Option (List Char)} : (s.authCheck authToken).isSome = true ↔
    ∃ token ∈ authToken, s.IsGlobal token ∨ ∃ u ∈ s.config.users, u.Has token := by
  cases authToken with
  | none => exact ⟨fun h => absurd h Bool.false_ne_true, fun ⟨_, h, _⟩ => by cases h⟩
  | some token =>
    have hexists : (∃ t ∈ some token, s.IsGlobal t ∨ ∃ u ∈ s.config.users, u.Has t) ↔
        s.IsGlobal token ∨ ∃ u ∈ s.config.users, u.Has token :=
      ⟨fun ⟨t, ht, h⟩ => by cases ht; exact h, fun h => ⟨token, rfl, h⟩⟩
    rw [hexists]
    by_cases hglobal : s.IsGlobal token
    · rw [authCheck_of_global hglobal]
      exact ⟨fun _ => .inl hglobal, fun _ => rfl⟩
    · rw [authCheck_of_not_global hglobal, Option.isSome_map, find_has_isSome]
      exact ⟨.inr, fun h => h.resolve_left hglobal⟩

/-! ## Names -/

theorem authenticate_of_required (hvalid : r.valid = true) (h : s.AuthRequired) :
    s.authenticate k r = (s.authCheck r.authToken).map fun username =>
      if username = globalName ∧ r.xUser ≠ [] then r.xUser.take 63 else username := by
  rw [authenticate, if_neg (by rw [hvalid]; exact Bool.true_eq_false_eq_False), if_pos h]
  rfl

theorem authenticate_of_open (hvalid : r.valid = true) (h : ¬s.AuthRequired) : s.authenticate k r = some k.username := by
  rw [authenticate, if_neg (by rw [hvalid]; exact Bool.true_eq_false_eq_False), if_neg h]

theorem authenticate_isSome (hvalid : r.valid = true) : (s.authenticate k r).isSome = true ↔
    ¬s.AuthRequired ∨ ∃ token ∈ r.authToken, s.IsGlobal token ∨ ∃ u ∈ s.config.users, u.Has token := by
  by_cases h : s.AuthRequired
  · rw [authenticate_of_required hvalid h, Option.isSome_map, authCheck_isSome]
    exact ⟨.inr, fun hor => hor.resolve_left (not_not.2 h)⟩
  · rw [authenticate_of_open hvalid h]
    exact ⟨fun _ => .inl h, fun _ => rfl⟩

theorem conn_establish (s : Server) (hc : c < s.conns.length) (k : Conn) (r : Request) (ip : Nat) :
    (s.establish c k r ip).conns[c]?.map Conn.username = some k.username := by
  rw [establish]
  dsimp only
  split
  · rw [addSession]
    split <;> exact congrArg (Option.map Conn.username) (List.getElem?_set_self hc)
  · exact congrArg (Option.map Conn.username) (List.getElem?_set_self hc)

/-- The connection has the name from then on, also if it gets no address. -/
theorem conn_request (hk : s.conns[c]? = some k) (h : s.authenticate k r = some name) :
    (s.svrConnectIpOnRequest c k r).conns[c]?.map Conn.username = some name := by
  have hc : c < s.conns.length := (List.getElem?_eq_some_iff.1 hk).1
  have hset (k' : Conn) (hname : k'.username = name) : (s.setConn c k').conns[c]?.map Conn.username = some name :=
    (congrArg (Option.map Conn.username) (List.getElem?_set_self hc)).trans (congrArg some hname)
  have hauth : s.authenticate { k with
      tunnelStreams := k.tunnelStreams + 1
      peerReorderSupported := k.peerReorderSupported || r.reorder } r = some name := h
  rw [svrConnectIpOnRequest]
  dsimp only
  rw [hauth]
  dsimp only
  rw [svrMasqueSendResponse]
  split
  · dsimp only
    split
    · rename_i pool ip hassign
      exact conn_establish { s with pool } hc _ r ip
    · exact hset _ rfl
  · exact hset _ rfl

/-! ## Identities -/

/-- The name for a token, and the parts of what it means to be identified. -/
theorem identified_of (hk : s.IsOpen c k) (hvalid : r.valid = true)
    (hname : ∀ name ∈ s.authenticate k r, s.AuthRequired → ∀ token ∈ r.authToken,
      s.Unshared name token ∧ (¬s.IsGlobal token → ∃ u ∈ s.config.users, u.name = name ∧ u.Has token)) :
    s.Identified c k r := by
  refine ⟨authenticate_isSome hvalid, fun name h => conn_request hk.1 h, fun name h hrequired token ht =>
    (hname name h hrequired token ht).2, fun name h u hu heq hkey => ?_⟩
  have hrequired : s.AuthRequired := .inr (List.ne_nil_of_mem hu)
  have hsome := (authenticate_isSome hvalid).1 (Option.isSome_of_eq_some h)
  obtain ⟨token, ht, -⟩ := hsome.resolve_left (not_not.2 hrequired)
  rw [(hname name h hrequired token ht).1 u hu heq hkey] at ht
  exact ht

theorem unambiguous_of_identified (hvalid : r.valid = true) (h : s.Identified c k r) : s.Unambiguous r := by
  intro token ht
  split
  · rename_i hglobal
    have hrequired : s.AuthRequired := .inl hglobal.1
    have hname : s.authenticate k r = some (if r.xUser = [] then globalName else r.xUser.take 63) := by
      rw [authenticate_of_required hvalid hrequired, ht, authCheck_of_global hglobal]
      by_cases hnil : r.xUser = []
      · simp [hnil]
      · simp [hnil]
    intro u hu heq hkey
    exact Option.some.inj (ht.symm.trans (h.exclusive _ hname u hu heq hkey))
  · rename_i hglobal
    intro u hu
    have hmem := List.mem_of_find?_eq_some hu
    have hrequired : s.AuthRequired := .inr (List.ne_nil_of_mem hmem)
    have hname : s.authenticate k r =
        some (if u.name = globalName ∧ r.xUser ≠ [] then r.xUser.take 63 else u.name) := by
      rw [authenticate_of_required hvalid hrequired, ht, authCheck_of_not_global hglobal, hu]
      rfl
    have hunshared : s.Unshared (if u.name = globalName ∧ r.xUser ≠ [] then r.xUser.take 63 else u.name) token :=
      fun v hv heq hkey => Option.some.inj (ht.symm.trans (h.exclusive _ hname v hv heq hkey))
    have hnamed := h.named _ hname hrequired token ht hglobal
    split
    · rename_i hover
      rw [if_pos hover] at hunshared hnamed
      exact ⟨hunshared, hnamed⟩
    · rename_i hover
      rw [if_neg hover] at hunshared
      exact hunshared

theorem identified_of_unambiguous (hk : s.IsOpen c k) (hvalid : r.valid = true) (h : s.Unambiguous r) :
    s.Identified c k r := by
  refine identified_of hk hvalid fun name hname hrequired token ht => ?_
  have hcheck := h token ht
  rw [authenticate_of_required hvalid hrequired, ht] at hname
  obtain ⟨first, hfirst, rfl⟩ := Option.map_eq_some_iff.1 hname
  split at hcheck
  · rename_i hglobal
    rw [authCheck_of_global hglobal] at hfirst
    cases hfirst
    refine ⟨?_, fun hne => absurd hglobal hne⟩
    by_cases hnil : r.xUser = []
    · simpa [hnil] using hcheck
    · simpa [hnil] using hcheck
  · rename_i hglobal
    rw [authCheck_of_not_global hglobal] at hfirst
    obtain ⟨u, hu, rfl⟩ := Option.map_eq_some_iff.1 hfirst
    have hhas : u.Has token := by simpa using List.find?_some hu
    have hu' := hcheck u hu
    split at hu'
    · rename_i hover
      rw [if_pos hover]
      exact ⟨hu'.1, fun _ => hu'.2⟩
    · rename_i hover
      rw [if_neg hover]
      exact ⟨hu', fun _ => ⟨u, List.mem_of_find?_eq_some hu, rfl, hhas⟩⟩

/-- A request with a valid form leaves a connection with the right name exactly when its name
    is not ambiguous. -/
theorem identified_iff (hk : s.IsOpen c k) (hvalid : r.valid = true) : s.Identified c k r ↔ s.Unambiguous r :=
  ⟨unambiguous_of_identified hvalid, identified_of_unambiguous hk hvalid⟩

/-! ## Samples -/

/-- A server with a global key, and with a user who is called "(global)". -/
def sampleCredentials : Server :=
  ({ sample with config := { sampleConfig with authKey := "g".toList } }.addUser globalName "k".toList).cbH3ConnCreate 0 true

/-- Alice comes with her key, and says that she is Bob. -/
theorem identified_iff_sample :
    sampleCredentials.IsOpen 0 {} ∧ sampleCredentials.Identified 0 {} { alice with xUser := "bob".toList } := by
  have hopen : sampleCredentials.IsOpen 0 {} := ⟨by rfl, rfl⟩
  exact ⟨hopen, (identified_iff hopen rfl).2 (by decide +kernel)⟩

/-- A server with two users whose names differ after 63 characters. -/
def sampleLongNames : Server :=
  ((sample.addUser (List.replicate 63 'a' ++ ['1']) "x".toList).addUser (List.replicate 63 'a' ++ ['2']) "y".toList).cbH3ConnCreate
    0 true

/-- With the global key one can be Alice, the user called "(global)" can be Bob, and of two
    users with one name the second one is taken for the first. -/
theorem not_identified :
    (sampleCredentials.IsOpen 0 {} ∧
      ¬sampleCredentials.Identified 0 {} { authToken := some "g".toList, xUser := "alice".toList } ∧
      ¬sampleCredentials.Identified 0 {} { authToken := some "k".toList, xUser := "bob".toList }) ∧
      sampleLongNames.IsOpen 0 {} ∧ ¬sampleLongNames.Identified 0 {} { authToken := some "y".toList } := by
  refine ⟨⟨⟨by rfl, rfl⟩, fun h => ?_, fun h => ?_⟩, ⟨by rfl, rfl⟩, fun h => ?_⟩
  · exact absurd (unambiguous_of_identified rfl h) (by decide +kernel)
  · exact absurd (unambiguous_of_identified rfl h) (by decide +kernel)
  · exact absurd (unambiguous_of_identified rfl h) (by decide +kernel)

end Mqvpn.Server
