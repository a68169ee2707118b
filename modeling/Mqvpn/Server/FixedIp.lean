import Mqvpn.Server.UserTable

/-!
# Fixed addresses

`mqvpn_server_set_user_fixed_ip` is to change nothing if it fails, and to pin the address if
it does not (`Atomic`). It takes the old pin away first, and gives its address back unless the
user is connected; when the new address then cannot be reserved, the old pin is lost. So it is
atomic exactly if there is no old pin to lose, or the new address can be reserved without it
(`atomic_iff`). What the theorem knows of the state, it has by the sizes of the arrays and in
every run (`Shaped`, `straight_run`).
-/

namespace Mqvpn.Server

variable {s s' : Server} {name ip : List Char} {off : Nat} {c : Nat} {k : Conn}

/-! ## What is returned -/

/-- The reservation in `mqvpn_server_set_user_fixed_ip`, and the pin. -/
def pinResult (s : Server) (name : List Char) (off : Nat) : Server × UserCode :=
  match s.pool.allocAt off with
  | none => (s, .poolFull)
  | some (pool, ip) =>
    -- only the new reservation is undone here
    if maxUsers ≤ s.pinnedIps.length then ({ s with pool := pool.release ip }, .maxClients)
    else ({ s with pool, pinnedIps := s.pinnedIps ++ [{ username := name.take 63, offset := off, ip }] }, .ok)

/-- `mqvpn_server_set_user_fixed_ip`, with what it returns. -/
def fixedIpResult (s : Server) (name ip : List Char) : Server × UserCode :=
  if name = [] then (s, .invalidArg)
  else
    match s.config.users.findIdx? fun u => u.name = name with
    | none => (s, .invalidArg)
    | some i =>
      if ip = [] then ((s.unpin name).setFixedIp i [], .ok)
      else
        match s.fixedOffset ip with
        | none => (s, .invalidArg)
        | some off =>
          match (s.unpin name).pinResult name off with
          | (s, .ok) => (s.setFixedIp i ip, .ok)
          | r => r

/-- The address that is read from a text, at its offset. -/
theorem fixedOffset_spec (h : s.fixedOffset ip = some off) :
    Text.inetPton4 ip = some (s.pool.base + off) ∧ s.pool.base + off < 2 ^ 32 ∧ 1 ≤ off ∧ off ≤ s.pool.poolSize := by
  rw [fixedOffset] at h
  split at h
  · cases h
  · rename_i addr haddr
    have hlt := Text.inetPton4_lt haddr
    split_ifs at h with hrange
    cases h
    have hsum : s.pool.base + (addr - s.pool.base) = addr := by omega
    rw [hsum]
    exact ⟨haddr, hlt, by omega, by omega⟩

/-- The address at an offset is pinned for the user. -/
def pinned (s : Server) (name : List Char) (off : Nat) : Server :=
  { s with
    pool := { s.pool with used := Function.update s.pool.used off true }
    pinnedIps := s.pinnedIps ++ [{ username := name.take 63, offset := off, ip := s.pool.base + off }] }

/-- The address is pinned, or nothing is changed. -/
theorem pinResult_cases (s : Server) (name : List Char) (hlt : s.pool.base + off < 2 ^ 32) :
    (s.pool.Vacant off ∧ s.pinnedIps.length < maxUsers ∧ s.pinResult name off = (s.pinned name off, .ok)) ∨
      ¬(s.pool.Vacant off ∧ s.pinnedIps.length < maxUsers) ∧ (s.pinResult name off).1 = s ∧
        (s.pinResult name off).2 ≠ .ok := by
  rw [pinResult, AddrPool.allocAt]
  by_cases hvacant : s.pool.Vacant off
  · have haddr : s.pool.addr off = s.pool.base + off := Nat.mod_eq_of_lt hlt
    rw [if_pos hvacant, haddr]
    dsimp only
    by_cases hroom : maxUsers ≤ s.pinnedIps.length
    · rw [if_pos hroom]
      refine .inr ⟨fun h => Nat.not_lt.2 hroom h.2, ?_, by simp⟩
      -- the release undoes the reservation
      have hused : Function.update (Function.update s.pool.used off true) off false = s.pool.used := by
        rw [Function.update_idem, ← hvacant.2.2, Function.update_eq_self]
      have hrelease : ({ s.pool with used := Function.update s.pool.used off true } : AddrPool).release
          (s.pool.base + off) = s.pool := by
        rw [AddrPool.release, if_neg (by dsimp only; omega)]
        dsimp only
        rw [Nat.add_sub_cancel_left, if_pos ⟨by have := hvacant.1; omega, hvacant.2.1⟩, hused]
      dsimp only
      rw [hrelease]
    · rw [if_neg hroom]
      exact .inl ⟨hvacant, Nat.not_le.1 hroom, rfl⟩
  · rw [if_neg hvacant]
    exact .inr ⟨fun h => hvacant h.1, rfl, by simp⟩

/-- The call without what it returns. -/
theorem fixedIpResult_fst (s : Server) (name ip : List Char) :
    (s.fixedIpResult name ip).1 = s.setUserFixedIp name ip := by
  rw [fixedIpResult, setUserFixedIp]
  by_cases hname : name = []
  · rw [if_pos hname, if_pos hname]
  rw [if_neg hname, if_neg hname]
  cases s.config.users.findIdx? fun u => decide (u.name = name) with
  | none => rfl
  | some i =>
    dsimp only
    by_cases hip : ip = []
    · rw [if_pos hip, if_pos hip]
    rw [if_neg hip, if_neg hip]
    cases hoff : s.fixedOffset ip with
    | none => rfl
    | some off =>
      have hlt : (s.unpin name).pool.base + off < 2 ^ 32 := (sameNet_unpin s name).base ▸ (fixedOffset_spec hoff).2.1
      dsimp only
      rcases pinResult_cases (s.unpin name) name hlt with ⟨hvacant, hroom, heq⟩ | ⟨hnot, hfst, hcode⟩
      · have haddr : (s.unpin name).pool.addr off = (s.unpin name).pool.base + off := Nat.mod_eq_of_lt hlt
        rw [heq, pin, AddrPool.allocAt, if_pos hvacant]
        dsimp only
        rw [if_neg (Nat.not_le.2 hroom), haddr]
        rfl
      · have hpin : (s.unpin name).pin name off = none := by
          rw [pin, AddrPool.allocAt]
          by_cases hvacant : (s.unpin name).pool.Vacant off
          · rw [if_pos hvacant]
            exact if_pos (Nat.not_lt.1 fun h => hnot ⟨hvacant, h⟩)
          · rw [if_neg hvacant]
        rw [hpin]
        split
        · rename_i heq
          rw [heq] at hcode
          exact absurd rfl hcode
        · exact hfst

/-! ## Atomicity -/

/-- The pin of the user, the used bits and the configuration stand for the address. -/
structure Designates (s : Server) (name ip : List Char) (addr : Nat) : Prop where
  text : Text.inetPton4 ip = some addr
  pin : ∃ pin ∈ s.pinOf name, pin.ip = addr ∧ s.pool.base + pin.offset = addr
  used : s.pool.used (addr - s.pool.base) = true
  config : ∃ u ∈ s.config.users.find? (fun u => u.name = name), u.fixedIp = ip

/-- A call that fails changes nothing, one that succeeds pins the address, and one for the
    address that the user has already succeeds. -/
structure Atomic (s : Server) (name ip : List Char) : Prop where
  failed : (s.fixedIpResult name ip).2 ≠ .ok →
    (s.fixedIpResult name ip).1.pool.used = s.pool.used ∧
      (s.fixedIpResult name ip).1.pinnedIps = s.pinnedIps ∧
      (s.fixedIpResult name ip).1.config.users.map User.fixedIp = s.config.users.map User.fixedIp
  done : (s.fixedIpResult name ip).2 = .ok → ip ≠ [] → ∃ addr, (s.fixedIpResult name ip).1.Designates name ip addr
  again : (∃ u ∈ s.config.users, u.name = name) → ∀ pin ∈ s.pinOf name, Text.inetPton4 ip = some pin.ip →
    (s.fixedIpResult name ip).2 = .ok

/-- The pins of a user. -/
def pinsOf (s : Server) (name : List Char) : List Pin := s.pinnedIps.filter fun pin => pin.username = name

/-- Without its pin, the user can have the offset. -/
def CanMove (s : Server) (name : List Char) (off : Nat) : List Pin → Prop
  | [] => True
  | pin :: others =>
    2 ≤ off ∧ (s.pool.used off = false ∨ (off = pin.offset ∧ ¬s.IsConnected name)) ∧
      ∀ other ∈ others.head?, other.offset = off

/-- The call is refused at once, or the address can be had without the pin of the user, if it
    has one. -/
def Movable (s : Server) (name ip : List Char) : Prop :=
  name ≠ [] → (∃ u ∈ s.config.users, u.name = name) → ip ≠ [] → ∀ off ∈ s.fixedOffset ip, s.CanMove name off (s.pinsOf name)

/-- The texts and the pins fit in their arrays, and a pin has the address at its offset. -/
structure Shaped (s : Server) : Prop extends Sound s where
  names : ∀ u ∈ s.config.users, u.name.length < 64
  count : s.pinnedIps.length ≤ maxUsers
  straight : ∀ pin ∈ s.pinnedIps, pin.ip = s.pool.base + pin.offset

theorem pinOf_eq (hname : name ≠ []) : s.pinOf name = (s.pinsOf name).head? := by
  rw [pinOf, if_neg hname, pinsOf, List.head?_filter]

/-- The first pin of the user is the one that goes. -/
theorem pinsOf_eraseIdx {i : Nat} {pin : Pin} (hi : s.pinnedIps[i]? = some pin) (hname : pin.username = name)
    (hfirst : ∀ j < i, ∀ q, s.pinnedIps[j]? = some q → q.username ≠ name) :
    s.pinsOf name = pin :: (s.pinnedIps.eraseIdx i).filter fun pin => pin.username = name := by
  obtain ⟨hlt, rfl⟩ := List.getElem?_eq_some_iff.1 hi
  have hnone : (s.pinnedIps.take i).filter (fun pin => pin.username = name) = [] := by
    refine List.filter_eq_nil_iff.2 fun q hq => ?_
    obtain ⟨j, hj, rfl⟩ := List.getElem_of_mem hq
    have hji : j < i := (Nat.lt_min.1 (List.length_take ▸ hj)).1
    rw [List.getElem_take]
    simpa using hfirst j hji _ (List.getElem?_eq_getElem _)
  have hsplit : s.pinnedIps = s.pinnedIps.take i ++ s.pinnedIps[i] :: s.pinnedIps.drop (i + 1) := by
    rw [← List.drop_eq_getElem_cons, List.take_append_drop]
  rw [List.eraseIdx_eq_take_drop_succ, List.filter_append, hnone, List.nil_append, pinsOf]
  conv_lhs => rw [hsplit]
  rw [List.filter_append, hnone, List.nil_append, List.filter_cons_of_pos (by simpa using hname)]

/-- The pin of the user is away, and its address is free unless the user is connected. -/
theorem Shaped.unpin_spec (h : s.Shaped) (name : List Char) :
    (s.unpin name = s ∧ s.pinsOf name = []) ∨
      ∃ (pin : Pin) (others : List Pin), s.pinsOf name = pin :: others ∧ (s.unpin name).pinsOf name = others ∧
        (s.unpin name).pinnedIps.length + 1 = s.pinnedIps.length ∧
        (s.unpin name).pool.used =
          if s.IsConnected name then s.pool.used else Function.update s.pool.used pin.offset false := by
  rcases unpin_cases s name with ⟨heq, hnone⟩ | ⟨i, pin, hi, hname, hfirst, heq⟩
  · refine .inl ⟨heq, List.filter_eq_nil_iff.2 fun pin hpin => ?_⟩
    simpa using hnone pin hpin
  · have hpin := List.mem_of_getElem? hi
    obtain ⟨hlo, hhi, -⟩ := h.pins pin hpin
    refine .inr ⟨pin, _, pinsOf_eraseIdx hi hname hfirst, by rw [heq]; rfl, ?_, ?_⟩
    · obtain ⟨hlt, -⟩ := List.getElem?_eq_some_iff.1 hi
      rw [heq]
      dsimp only
      rw [List.length_eraseIdx_of_lt hlt]
      omega
    · rw [heq]
      dsimp only
      split_ifs
      · rfl
      · rw [h.straight pin hpin, AddrPool.release, if_neg (by omega)]
        dsimp only
        rw [Nat.add_sub_cancel_left, if_pos ⟨by omega, hhi⟩]

theorem Shaped.vacant_unpin_iff (h : s.Shaped) {pin : Pin} {others : List Pin} (hpins : s.pinsOf name = pin :: others)
    (hoff : off ≤ s.pool.poolSize) :
    (s.unpin name).pool.Vacant off ↔
      2 ≤ off ∧ (s.pool.used off = false ∨ (off = pin.offset ∧ ¬s.IsConnected name)) := by
  rcases h.unpin_spec name with ⟨-, hnone⟩ | ⟨pin', others', hpins', -, -, hused⟩
  · rw [hnone] at hpins
    cases hpins
  · rw [hpins] at hpins'
    cases hpins'
    rw [AddrPool.Vacant, (sameNet_unpin s name).poolSize, hused]
    by_cases hconn : s.IsConnected name
    · simp [hconn, hoff]
    · by_cases heq : off = pin.offset
      · simp [hconn, ← heq, hoff]
      · simp [hconn, heq, hoff]

/-- The row of the user has the new text. -/
theorem find?_setFixedIp {i : Nat} (hi : s.config.users.findIdx? (fun u => u.name = name) = some i)
    (hip : ip.length ≤ 19) :
    ∃ u ∈ (s.setFixedIp i ip).config.users.find? (fun u => u.name = name), u.fixedIp = ip := by
  obtain ⟨hlt, hname, hfirst⟩ := List.findIdx?_eq_some_iff_getElem.1 hi
  refine ⟨{ s.config.users[i] with fixedIp := ip.take 19 }, ?_, List.take_of_length_le hip⟩
  refine List.find?_eq_some_iff_getElem.2 ⟨by simpa using hname, i, ?_, ?_, fun j hj => ?_⟩
  · rw [setFixedIp, List.length_modify]
    exact hlt
  · simp [setFixedIp]
  · have hji := hfirst j hj
    simp only [setFixedIp, List.getElem_modify_ne _ _ hj.ne']
    simpa using hji

/-- A call for a user and an address of the pool: the old pin goes, and the new one comes if
    its address can be reserved. -/
theorem fixedIpResult_cases (hname : name ≠ []) {i : Nat}
    (hi : s.config.users.findIdx? (fun u => u.name = name) = some i) (hip : ip ≠ []) (hoff : s.fixedOffset ip = some off) :
    ((s.unpin name).pool.Vacant off ∧ (s.unpin name).pinnedIps.length < maxUsers ∧
      s.fixedIpResult name ip = (((s.unpin name).pinned name off).setFixedIp i ip, .ok)) ∨
      ¬((s.unpin name).pool.Vacant off ∧ (s.unpin name).pinnedIps.length < maxUsers) ∧
        (s.fixedIpResult name ip).1 = s.unpin name ∧ (s.fixedIpResult name ip).2 ≠ .ok := by
  have hlt : (s.unpin name).pool.base + off < 2 ^ 32 := (sameNet_unpin s name).base ▸ (fixedOffset_spec hoff).2.1
  rw [fixedIpResult, if_neg hname, hi]
  dsimp only
  rw [if_neg hip, hoff]
  dsimp only
  rcases pinResult_cases (s.unpin name) name hlt with ⟨hvacant, hroom, heq⟩ | ⟨hnot, hfst, hcode⟩
  · rw [heq]
    exact .inl ⟨hvacant, hroom, rfl⟩
  · refine .inr ⟨hnot, ?_⟩
    split
    · rename_i heq
      rw [heq] at hcode
      exact absurd rfl hcode
    · exact ⟨hfst, hcode⟩

/-- A call that is refused at once. -/
theorem fixedIpResult_of_refused
    (h : ¬(name ≠ [] ∧ (∃ u ∈ s.config.users, u.name = name) ∧ (ip = [] ∨ (s.fixedOffset ip).isSome = true))) :
    s.fixedIpResult name ip = (s, .invalidArg) := by
  rw [fixedIpResult]
  by_cases hname : name = []
  · rw [if_pos hname]
  rw [if_neg hname]
  cases hi : s.config.users.findIdx? fun u => decide (u.name = name) with
  | none => rfl
  | some i =>
    obtain ⟨hlt, hname', -⟩ := List.findIdx?_eq_some_iff_getElem.1 hi
    have huser : ∃ u ∈ s.config.users, u.name = name := ⟨_, List.getElem_mem hlt, of_decide_eq_true hname'⟩
    have hip : ¬(ip = [] ∨ (s.fixedOffset ip).isSome = true) := fun hip => h ⟨hname, huser, hip⟩
    push Not at hip
    dsimp only
    rw [if_neg hip.1, Option.not_isSome_iff_eq_none.1 hip.2]

/-- The address that a user has can be read from its text. -/
theorem Shaped.fixedOffset_of_pin (h : s.Shaped) {pin : Pin} (hpin : pin ∈ s.pinnedIps)
    (hip : Text.inetPton4 ip = some pin.ip) : s.fixedOffset ip = some pin.offset := by
  obtain ⟨hlo, hhi, -⟩ := h.pins pin hpin
  rw [fixedOffset, hip, h.straight pin hpin]
  dsimp only
  rw [Nat.add_sub_cancel_left, if_neg (by omega)]

/-- The address is pinned, if no other pin of the user is in front of the new one with another
    address. -/
theorem Shaped.designates_iff (h : s.Shaped) (hname : name ≠ []) (huser : ∃ u ∈ s.config.users, u.name = name)
    {i : Nat} (hi : s.config.users.findIdx? (fun u => u.name = name) = some i) (hoff : s.fixedOffset ip = some off)
    {others : List Pin} (hothers : (s.unpin name).pinsOf name = others)
    (hsub : ∀ pin ∈ others, pin ∈ s.pinnedIps) :
    (∃ addr, (((s.unpin name).pinned name off).setFixedIp i ip).Designates name ip addr) ↔
      ∀ other ∈ others.head?, other.offset = off := by
  obtain ⟨hquad, -, -, -⟩ := fixedOffset_spec hoff
  have hbase := (sameNet_unpin s name).base
  have htake : name.take 63 = name := by
    obtain ⟨u, hu, rfl⟩ := huser
    exact List.take_of_length_le (Nat.le_of_lt_succ (h.names u hu))
  have hpins : (((s.unpin name).pinned name off).setFixedIp i ip).pinsOf name =
      others ++ [{ username := name, offset := off, ip := s.pool.base + off }] := by
    rw [pinsOf, setFixedIp, pinned, List.filter_append, htake, ← hothers, hbase, pinsOf]
    simp
  constructor
  · rintro ⟨addr, htext, ⟨pin, hpin, hip, hpinoff⟩, -, -⟩ other hother
    rw [hquad] at htext
    cases htext
    change (s.unpin name).pool.base + pin.offset = _ at hpinoff
    rw [pinOf_eq hname, hpins, List.head?_append, hother] at hpin
    cases hpin
    omega
  · intro hhead
    refine ⟨s.pool.base + off, hquad, ?_, ?_, ?_⟩
    · change ∃ pin ∈ pinOf _ name, _ ∧ (s.unpin name).pool.base + _ = _
      rw [pinOf_eq hname, hpins, List.head?_append, hbase]
      cases hfirst : others.head? with
      | none => exact ⟨_, rfl, rfl, rfl⟩
      | some other =>
        have hstraight := h.straight other (hsub other (List.mem_of_mem_head? hfirst))
        have hoffset := hhead other hfirst
        exact ⟨other, rfl, by omega, by omega⟩
    · change Function.update (s.unpin name).pool.used off true (s.pool.base + off - (s.unpin name).pool.base) = true
      rw [hbase, Nat.add_sub_cancel_left, Function.update_self]
    · refine find?_setFixedIp ?_ ((Text.length_le_of_inetPton4 hquad).trans (by decide))
      change (s.unpin name).config.users.findIdx? _ = some i
      rw [config_unpin]
      exact hi

/-- A call that is refused at once is atomic. -/
theorem Shaped.atomic_of_refused (h : s.Shaped) (hrefused : ¬(name ≠ [] ∧ (∃ u ∈ s.config.users, u.name = name) ∧
    (ip = [] ∨ (s.fixedOffset ip).isSome = true))) : s.Atomic name ip := by
  have hres := fixedIpResult_of_refused hrefused
  refine ⟨fun _ => ?_, fun hcode => ?_, fun huser pin hpin hip => ?_⟩
  · rw [hres]
    exact ⟨rfl, rfl, rfl⟩
  · rw [hres] at hcode
    cases hcode
  · -- an address that the user has is not refused
    have hname : name ≠ [] := by
      rintro rfl
      cases hpin
    rw [pinOf, if_neg hname] at hpin
    have hoff := h.fixedOffset_of_pin (List.mem_of_find?_eq_some hpin) hip
    exact absurd ⟨hname, huser, .inr (by rw [hoff]; rfl)⟩ hrefused

/-- A pin that is taken away on request. -/
theorem atomic_nil (hname : name ≠ []) {i : Nat} (hi : s.config.users.findIdx? (fun u => u.name = name) = some i) :
    s.Atomic name [] := by
  have hres : (s.fixedIpResult name []).2 = .ok := by
    rw [fixedIpResult, if_neg hname, hi]
    dsimp only
    rw [if_pos rfl]
  exact ⟨fun hcode => absurd hres hcode, fun _ hne => absurd rfl hne, fun _ _ _ _ => hres⟩

/-- Without a pin that can be lost, the call is atomic. -/
theorem Shaped.atomic_of_unpinned (h : s.Shaped) (hname : name ≠ []) (huser : ∃ u ∈ s.config.users, u.name = name)
    {i : Nat} (hi : s.config.users.findIdx? (fun u => u.name = name) = some i) (hip : ip ≠ [])
    (hoff : s.fixedOffset ip = some off) (heq : s.unpin name = s) (hnone : s.pinsOf name = []) : s.Atomic name ip := by
  have hothers : (s.unpin name).pinsOf name = [] := by
    rw [heq]
    exact hnone
  refine ⟨fun hcode => ?_, fun hcode _ => ?_, fun _ pin hpin _ => ?_⟩
  · rcases fixedIpResult_cases hname hi hip hoff with ⟨-, -, hres⟩ | ⟨-, hfst, -⟩
    · rw [hres] at hcode
      exact absurd rfl hcode
    · rw [hfst, heq]
      exact ⟨rfl, rfl, rfl⟩
  · rcases fixedIpResult_cases hname hi hip hoff with ⟨-, -, hres⟩ | ⟨-, -, hfailed⟩
    · rw [hres]
      refine (h.designates_iff hname huser hi hoff hothers fun _ hpin => ?_).2 fun _ hother => ?_
      · exact absurd hpin List.not_mem_nil
      · cases hother
    · exact absurd hcode hfailed
  · rw [pinOf_eq hname, hnone] at hpin
    cases hpin

/-- With a pin, the call is atomic exactly if the address can be had without it. -/
theorem Shaped.atomic_iff_of_pinned (h : s.Shaped) (hname : name ≠ []) (huser : ∃ u ∈ s.config.users, u.name = name)
    {i : Nat} (hi : s.config.users.findIdx? (fun u => u.name = name) = some i) (hip : ip ≠ [])
    (hoff : s.fixedOffset ip = some off) {pin : Pin} {others : List Pin} (hpins : s.pinsOf name = pin :: others)
    (hothers : (s.unpin name).pinsOf name = others)
    (hlength : (s.unpin name).pinnedIps.length + 1 = s.pinnedIps.length) :
    s.Atomic name ip ↔ s.CanMove name off (pin :: others) := by
  have hvacant := h.vacant_unpin_iff hpins (fixedOffset_spec hoff).2.2.2
  have hroom : (s.unpin name).pinnedIps.length < maxUsers := by
    have := h.count
    omega
  have hmem : ∀ pin' ∈ others, pin' ∈ s.pinnedIps := fun pin' hpin' =>
    List.mem_of_mem_filter (hpins ▸ List.mem_cons_of_mem _ hpin' : pin' ∈ s.pinsOf name)
  have hdesignates := h.designates_iff hname huser hi hoff hothers hmem
  rw [CanMove, ← and_assoc, ← hvacant]
  constructor
  · intro ha
    rcases fixedIpResult_cases hname hi hip hoff with ⟨hv, -, hres⟩ | ⟨hnot, hfst, hfailed⟩
    · obtain ⟨addr, haddr⟩ := ha.done (by rw [hres]) hip
      rw [hres] at haddr
      exact ⟨hv, hdesignates.1 ⟨addr, haddr⟩⟩
    · -- a call that fails has lost the pin
      have hkept := congrArg List.length (ha.failed hfailed).2.1
      rw [hfst] at hkept
      omega
  · rintro ⟨hv, hnext⟩
    rcases fixedIpResult_cases hname hi hip hoff with ⟨-, -, hres⟩ | ⟨hnot, -⟩
    · refine ⟨fun hcode => ?_, fun _ _ => ?_, fun _ _ _ _ => ?_⟩
      · rw [hres] at hcode
        exact absurd rfl hcode
      · rw [hres]
        exact hdesignates.2 hnext
      · rw [hres]
    · exact absurd ⟨hv, hroom⟩ hnot

/-- The call is atomic exactly if no pin can be lost. -/
theorem Shaped.atomic_iff (h : s.Shaped) : s.Atomic name ip ↔ s.Movable name ip := by
  by_cases hrefused : ¬(name ≠ [] ∧ (∃ u ∈ s.config.users, u.name = name) ∧
      (ip = [] ∨ (s.fixedOffset ip).isSome = true))
  · refine iff_of_true (h.atomic_of_refused hrefused) fun hname huser _ off hoff => ?_
    exact absurd ⟨hname, huser, .inr (by rw [hoff]; rfl)⟩ hrefused
  · obtain ⟨hname, huser, hread⟩ := not_not.1 hrefused
    obtain ⟨i, hi⟩ : ∃ i, s.config.users.findIdx? (fun u => u.name = name) = some i := by
      obtain ⟨u, hu, hu'⟩ := huser
      exact Option.isSome_iff_exists.1 (List.findIdx?_isSome.trans (List.any_eq_true.2 ⟨u, hu, by simpa using hu'⟩))
    by_cases hip : ip = []
    · subst hip
      exact iff_of_true (atomic_nil hname hi) fun _ _ hne => absurd rfl hne
    obtain ⟨off, hoff⟩ := Option.isSome_iff_exists.1 (hread.resolve_left hip)
    have hmovable : s.Movable name ip ↔ s.CanMove name off (s.pinsOf name) := by
      refine ⟨fun hm => hm hname huser hip off hoff, fun hm _ _ _ off' hoff' => ?_⟩
      cases hoff.symm.trans hoff'
      exact hm
    rw [hmovable]
    rcases h.unpin_spec name with ⟨heq, hnone⟩ | ⟨pin, others, hpins, hothers, hlength, -⟩
    · rw [hnone]
      exact iff_of_true (h.atomic_of_unpinned hname huser hi hip hoff heq hnone) trivial
    · rw [hpins]
      exact h.atomic_iff_of_pinned hname huser hi hip hoff hpins hothers hlength

/-! ## Every run -/

/-- The pins are old ones, or have the address at their offset, which is one of the pool. -/
structure PinsKept (s s' : Server) : Prop where
  base : s'.pool.base = s.pool.base
  pins : ∀ pin ∈ s'.pinnedIps, pin ∈ s.pinnedIps ∨ pin.ip = s.pool.base + pin.offset

theorem PinsKept.of_pins (hbase : s'.pool.base = s.pool.base) (hpins : ∀ pin ∈ s'.pinnedIps, pin ∈ s.pinnedIps) :
    PinsKept s s' :=
  ⟨hbase, fun pin hpin => .inl (hpins pin hpin)⟩

theorem PinsKept.of_still (h : Still s s') : PinsKept s s' :=
  .of_pins (by rw [h.pool]) fun _ hpin => h.pinnedIps ▸ hpin

theorem pinsKept_unpin (s : Server) (name : List Char) : PinsKept s (s.unpin name) := by
  refine .of_pins (sameNet_unpin s name).base fun pin hpin => ?_
  rcases unpin_cases s name with ⟨heq, -⟩ | ⟨i, pin', -, -, -, heq⟩
  · exact heq ▸ hpin
  · rw [heq] at hpin
    exact List.mem_of_mem_eraseIdx hpin

theorem pinsKept_cbH3ConnClose (s : Server) (c : Nat) (k : Conn) : PinsKept s (s.cbH3ConnClose c k) := by
  refine .of_pins ?_ fun _ hpin => (cbH3ConnClose_frame s c k).2.1 ▸ hpin
  by_cases hip : k.assignedIp = 0
  · rw [cbH3ConnClose, if_neg (by simpa using hip)]
    rfl
  · obtain ⟨leases, heq⟩ := cbH3ConnClose_eq c hip rfl
    rw [heq]
    change (ite _ _ _ : AddrPool).base = _
    split_ifs
    · rfl
    · exact (sameNet_release _ _).base

theorem pinsKept_request (hk : s.conns[c]? = some k) (r : Request) : PinsKept s (s.svrConnectIpOnRequest c k r) := by
  rcases request_cases hk r with hstill | ⟨_, -, -, pool, ip, hassign, k', -, -, -, heq⟩
  · exact .of_still hstill
  · have hbase := (sameNet_assignIp hassign).base
    rw [heq]
    rcases establish_cases { s with pool } c k' r ip with ⟨k'', -, -, -, heq'⟩ | ⟨k'', -, -, -, -, heq'⟩
    · rw [heq', addSession]
      split_ifs
      · exact .of_pins hbase fun _ hpin => hpin
      · exact .of_pins hbase fun _ hpin => hpin
    · rw [heq']
      exact .of_pins ((sameNet_release _ _).base.trans hbase) fun _ hpin => hpin

theorem pinsKept_setUserFixedIp (s : Server) (name ip : List Char) : PinsKept s (s.setUserFixedIp name ip) := by
  have hunpin := pinsKept_unpin s name
  rw [setUserFixedIp]
  split
  · exact .of_still (.refl s)
  · split
    · exact .of_still (.refl s)
    · split
      · exact ⟨hunpin.base, hunpin.pins⟩
      · split
        · exact .of_still (.refl s)
        · rename_i off hoff
          split
          · exact hunpin
          · rename_i hpin
            obtain ⟨-, rfl⟩ := pin_spec hpin
            refine ⟨hunpin.base, fun pin hpin => ?_⟩
            rcases List.mem_append.1 hpin with hpin | hpin
            · exact hunpin.pins pin hpin
            · -- an address that is read from a text does not wrap around
              cases List.mem_singleton.1 hpin
              refine .inr ?_
              dsimp only
              rw [(sameNet_unpin s name).addr]
              exact Nat.mod_eq_of_lt (fixedOffset_spec hoff).2.1

theorem pinsKept_removeUser (s : Server) (name : List Char) : PinsKept s (s.removeUser name) := by
  rw [removeUser]
  split
  · exact .of_still (.refl s)
  · split
    · exact .of_still (.refl s)
    · rename_i i _
      have hunpin := pinsKept_unpin { s with config := { s.config with users := s.config.users.eraseIdx i } } name
      exact ⟨hunpin.base, hunpin.pins⟩

theorem pinsKept_step (s : Server) (st : Step) : PinsKept s (s.step st) := by
  have hother := still_step s st
  obtain ⟨nowUs, call⟩ := st
  cases call with
  | connClose c => exact callback_rule (.of_still (.refl s)) fun k _ => pinsKept_cbH3ConnClose s c k
  | request c r => exact callback_rule (.of_still (.refl s)) fun k hk => pinsKept_request hk.1 r
  | removeUser name => exact pinsKept_removeUser s name
  | setUserFixedIp name ip => exact pinsKept_setUserFixedIp s name ip
  | _ => exact .of_still (hother (by simp) (by simp) (by simp) (by simp))

/-- A pin has the address at its offset. -/
def Straight (s : Server) : Prop := ∀ pin ∈ s.pinnedIps, pin.ip = s.pool.base + pin.offset

theorem Straight.of_pinsKept (h : s.Straight) (hs : PinsKept s s') : s'.Straight := by
  intro pin hpin
  rw [hs.base]
  rcases hs.pins pin hpin with hpin | hip
  · exact h pin hpin
  · exact hip

theorem pinsKept_reserve (s : Server) (u : User) : PinsKept s (s.reserve u) := by
  rw [reserve]
  split
  · exact .of_still (.refl s)
  · split
    · exact .of_still (.refl s)
    · rename_i off hoff
      split
      · exact .of_still (.refl s)
      · rename_i halloc
        obtain ⟨-, rfl, rfl⟩ := AddrPool.allocAt_spec halloc
        refine ⟨rfl, fun pin hpin => ?_⟩
        rcases List.mem_append.1 hpin with hpin | hpin
        · exact .inl hpin
        · cases List.mem_singleton.1 hpin
          exact .inr (Nat.mod_eq_of_lt (fixedOffset_spec hoff).2.1)

theorem straight_run {cfg : Config} (h : new cfg = some s) (steps : List Step) : (s.run steps).Straight := by
  have hnew : s.Straight := by
    refine new_induction h (fun s₀ _ _ _ hpins _ _ _ _ pin hpin => ?_) fun s u hs => hs.of_pinsKept (pinsKept_reserve s u)
    rw [hpins] at hpin
    cases hpin
  exact List.foldlRecOn steps step hnew fun s hs st _ => hs.of_pinsKept (pinsKept_step s st)

/-- A state of a run has the shape that the arrays give it. -/
theorem shaped_run {cfg : Config} (h : new cfg = some s) (steps : List Step)
    (hnames : ∀ u ∈ (s.run steps).config.users, u.name.length < 64) (hcount : (s.run steps).pinnedIps.length ≤ maxUsers) :
    (s.run steps).Shaped :=
  ⟨sound_run h steps, hnames, hcount, straight_run h steps⟩

/-- The old pin of alice, who is not connected, makes room for itself. -/
theorem atomic_iff_sample :
    sample.Atomic "alice".toList "10.0.0.5".toList ↔ sample.Movable "alice".toList "10.0.0.5".toList :=
  Shaped.atomic_iff (shaped_run new_sample [] (by decide) (by decide))

/-- The address of bob, for alice: her own pin is lost, and the call fails. -/
theorem not_atomic :
    ¬(sample.setUserFixedIp "bob".toList "10.0.0.6".toList).Atomic "alice".toList "10.0.0.6".toList := by
  intro h
  have hkept := (h.failed (by decide +kernel)).2.1
  exact absurd (congrArg List.length hkept) (by decide +kernel)

end Mqvpn.Server
